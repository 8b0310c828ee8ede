/-
The slots of a new entry.

* `IsPath`: the strings the callers hand over: C strings of at most 255 bytes;
* `sfnSlot_attr`, `sfnSlot_cluster`, `sfnSlot_size`, `sfnSlot_sfn`: the fields of a
  short entry, read back;
* `newSfn_not_dot`: a new entry is never called `.` or `..`;
* `lfnSlots_spec`: the slots before the short entry are LFN slots.
-/
import Mathlib.Data.List.TakeWhile
import Mathlib.Tactic
import GordOS.Fat32.Entries

namespace GordOS.Fat32

open GordOS

/-- A C string that fits into the 256-byte path buffers of the callers. -/
def IsPath (p : Name) : Prop := 0 ∉ p ∧ p.length ≤ 255

instance (p : Name) : Decidable (IsPath p) :=
  inferInstanceAs (Decidable (_ ∧ _))

/-- The short names of the entries for a directory itself and its parent. -/
def Slot.isDot (e : Slot) : Prop :=
  sfnToName e = [0x2E] ∨ sfnToName e = [0x2E, 0x2E]

instance (e : Slot) : Decidable e.isDot :=
  inferInstanceAs (Decidable (_ ∨ _))

/-! ### The fields of a short entry -/

section

variable (sfn : List UInt8) (c n : ℕ) (a : UInt8)

@[simp] lemma sfnSlot_attr : (sfnSlot sfn c n a).attr = a := by
  simp [Slot.attr, sfnSlot]

@[simp] lemma sfnSlot_isDir : (sfnSlot sfn c n a).isDir = Slot.isDirAttr a := by
  rw [Slot.isDir, sfnSlot_attr]

lemma sfnSlot_cluster (hc : c < 2 ^ 32) : (sfnSlot sfn c n a).cluster = c := by
  simp [Slot.cluster, sfnSlot]
  omega

lemma sfnSlot_size (hn : n < 2 ^ 32) : (sfnSlot sfn c n a).size = n := by
  simp [Slot.size, sfnSlot]
  omega

lemma sfnSlot_zero : sfnSlot sfn c n a 0 = sfn.getD 0 0 := by
  simp [sfnSlot]

lemma sfnSlot_sfn {sfn : List UInt8} (h : sfn.length = 11) : (sfnSlot sfn c n a).sfn = sfn := by
  match sfn, h with
  | [_, _, _, _, _, _, _, _, _, _, _], _ => rfl

/-- The name of a short entry from its base and its extension. -/
lemma sfnToName_sfnSlot {b x : List UInt8} (hb : b.length = 8) (hx : x.length = 3) :
    sfnToName (sfnSlot (b ++ x) c n a) = (b.takeWhile (· != 0x20) ++
          if x.head? = some 0x20 then [] else 0x2E :: x.takeWhile (· != 0x20)).takeWhile
            (· != 0) := by
  match b, x, hb, hx with
  | [_, _, _, _, _, _, _, _], [x0, _, _], _, _ =>
    rw [sfnToName, sfnSlot_sfn c n a (by rfl)]
    simp only [List.head?_cons, Option.some.injEq]
    by_cases h : x0 = 0x20
    · subst h
      rfl
    · rw [if_neg h, if_pos]
      · rfl
      · simpa [sfnSlot] using h

end

/-! ### New short names -/

lemma pad_length {n : ℕ} {l : List UInt8} (h : l.length ≤ n) : (pad n l).length = n := by
  simp [pad]
  omega

lemma toUpper_ne_zero {c : UInt8} (h : c ≠ 0) : toUpper c ≠ 0 := by
  rw [toUpper]
  split_ifs with hc
  · grind
  · exact h

lemma toUpper_eq_dot {c : UInt8} : toUpper c = 0x2E ↔ c = 0x2E := by
  rw [toUpper]
  split_ifs with hc
  · grind
  · rfl

lemma splitLastDot_mem (name : Name) : (∀ c ∈ (splitLastDot name).1, c ∈ name) ∧
      ∀ x, (splitLastDot name).2 = some x → ∀ c ∈ x, c ∈ name := by
  induction name with
  | nil => simp [splitLastDot]
  | cons a as ih =>
    rw [splitLastDot]
    rcases h : splitLastDot as with ⟨b, _ | x⟩
    · rw [h] at ih
      by_cases ha : a = 0x2E
      · simp only [ha, if_true]
        refine ⟨by simp, fun x hx c hc => ?_⟩
        obtain rfl : b = x := by simpa using hx
        exact List.mem_cons_of_mem _ (ih.1 c hc)
      · simp only [ha, if_false]
        refine ⟨fun c hc => ?_, by simp⟩
        rcases List.mem_cons.mp hc with rfl | hc
        · exact List.mem_cons_self
        · exact List.mem_cons_of_mem _ (ih.1 c hc)
    · rw [h] at ih
      refine ⟨fun c hc => ?_, fun y hy c hc => ?_⟩
      · rcases List.mem_cons.mp hc with rfl | hc
        · exact List.mem_cons_self
        · exact List.mem_cons_of_mem _ (ih.1 c hc)
      · exact List.mem_cons_of_mem _ (ih.2 y hy c hc)

/-- Behind its dot an 8.3 name has no second one. -/
lemma isValid83Loop_dot {cs pre post : Name} {b x : ℕ} {d : Bool}
    (h : isValid83Loop cs b d x = true) (hcs : cs = pre ++ 0x2E :: post) :
    d = false ∧ (0x2E : UInt8) ∉ post := by
  induction cs generalizing pre post b d x with
  | nil => simp at hcs
  | cons c cs ih =>
    rw [isValid83Loop] at h
    split_ifs at h with h1 h2 h3 h4 h5 h6 h7
    · -- the dot itself
      refine ⟨by simpa using h3, fun hm => ?_⟩
      cases pre with
      | nil =>
        obtain ⟨p, q, hpq⟩ := List.append_of_mem hm
        simp only [List.nil_append, List.cons.injEq] at hcs
        rw [hcs.2] at ih h
        exact absurd (ih h hpq).1 (by simp)
      | cons a pre =>
        simp only [List.cons_append, List.cons.injEq] at hcs
        exact absurd (ih h hcs.2).1 (by simp)
    · cases pre with
      | nil =>
        simp only [List.nil_append, List.cons.injEq] at hcs
        exact absurd hcs.1 h2
      | cons a pre =>
        simp only [List.cons_append, List.cons.injEq] at hcs
        exact ih h hcs.2
    · cases pre with
      | nil =>
        simp only [List.nil_append, List.cons.injEq] at hcs
        exact absurd hcs.1 h2
      | cons a pre =>
        simp only [List.cons_append, List.cons.injEq] at hcs
        exact ih h hcs.2

/-- The two parts of the direct encoding of an 8.3 name. -/
lemma encodeSfn_parts (name : Name) (hv : isValid83 name = true ∨ name = []) : ∃ base ext : Name,
      encodeSfn name = pad 8 (base.map toUpper) ++ pad 3 (ext.map toUpper) ∧
      base.length ≤ 8 ∧ ext.length ≤ 3 ∧ (0x2E : UInt8) ∉ base ∧
      (0x2E : UInt8) ∉ ext ∧ (∀ c ∈ base, c ∈ name) ∧ ∀ c ∈ ext, c ∈ name := by
  set base := (name.takeWhile (· != 0x2E)).take 8 with hbase
  set rest := name.drop base.length with hrest
  set ext := if rest.head? = some 0x2E then (rest.drop 1).take 3 else [] with hext
  have hsub : ∀ c ∈ base, c ∈ name := fun c hc =>
    (List.takeWhile_prefix _).subset (List.mem_of_mem_take hc)
  have hdot : (0x2E : UInt8) ∉ base := fun hm => by
    have := List.mem_takeWhile_imp (List.mem_of_mem_take hm)
    simp at this
  have hextsub : ∀ c ∈ ext, c ∈ rest := by
    intro c hc
    rw [hext] at hc
    split_ifs at hc
    · exact List.mem_of_mem_drop (List.mem_of_mem_take hc)
    · simp at hc
  refine ⟨base, ext, rfl, by simp [hbase], ?_, hdot, fun hm => ?_, hsub,
    fun c hc => List.mem_of_mem_drop (hextsub c hc)⟩
  · rw [hext]
    split_ifs
    · simp
    · simp
  · rw [hext] at hm
    split_ifs at hm with hh
    · -- the name is the base, a dot and the rest
      have hname : name = base ++ 0x2E :: rest.drop 1 := by
        have hpre : base <+: name :=
          (List.take_prefix _ _).trans (List.takeWhile_prefix _)
        obtain ⟨t, ht⟩ := hpre
        have hrt : rest = t := by rw [hrest, ← ht, List.drop_left]
        cases hr : rest with
        | nil => rw [hr] at hh; simp at hh
        | cons a as =>
          rw [hr] at hh
          obtain rfl : a = 0x2E := by simpa using hh
          rw [← ht, ← hrt, hr]
          rfl
      rcases hv with hv | hv
      · exact (isValid83Loop_dot hv hname).2 (List.mem_of_mem_take hm)
      · rw [hv] at hname
        simp at hname
    · simp at hm

lemma makeSfn_parts (name : Name) (h0 : 0 ∉ name) : ∃ kept ext : List UInt8,
      makeSfn name = pad 8 (kept ++ [0x7E, 0x31]) ++ pad 3 ext ∧
      kept.length ≤ 6 ∧ ext.length ≤ 3 ∧ 0 ∉ kept ∧ (0x20 : UInt8) ∉ kept := by
  obtain ⟨hb, -⟩ := splitLastDot_mem name
  refine ⟨((((splitLastDot name).1).map toUpper).filter fun c => !sfnSkipped c).take 6,
    ((((splitLastDot name).2).getD []).take 3).map toUpper, rfl, by simp, by simp,
    fun h => ?_, fun h => ?_⟩
  · obtain ⟨c, hc, hc0⟩ := List.mem_map.mp (List.mem_of_mem_filter (List.mem_of_mem_take h))
    refine toUpper_ne_zero (fun hz => ?_) hc0
    exact h0 (hz ▸ hb c hc)
  · have := (List.mem_filter.mp (List.mem_of_mem_take h)).2
    exact absurd this (by decide)

lemma lfnEntriesNeeded_eq_zero {name : Name} :
    lfnEntriesNeeded name = 0 ↔ isValid83 name = true ∨ name = [] := by
  rw [lfnEntriesNeeded]
  split_ifs with h
  · simp [h]
  · rw [← List.length_eq_zero_iff]
    simp only [h, Bool.false_eq_true, false_or]
    omega

/-- A short name has eleven bytes. -/
lemma newSfn_length {name : Name} (h0 : 0 ∉ name) : (newSfn name).length = 11 := by
  rw [newSfn]
  split_ifs with h
  · obtain ⟨b, x, heq, hb, hx, -⟩ :=
      encodeSfn_parts name (lfnEntriesNeeded_eq_zero.mp h)
    rw [heq, List.length_append, pad_length (by simpa using hb), pad_length (by simpa using hx)]
  · obtain ⟨k, x, heq, hk, hx, -⟩ := makeSfn_parts name h0
    rw [heq, List.length_append, pad_length (by simp; omega), pad_length hx]

lemma pad_getD_zero {n : ℕ} {l : List UInt8} (hn : 0 < n) (h0 : 0 ∉ l) (m : List UInt8) :
    (pad n l ++ m).getD 0 0 ≠ 0 := by
  cases l with
  | nil =>
    obtain ⟨n, rfl⟩ : ∃ k, n = k + 1 := ⟨n - 1, by omega⟩
    simp [pad, List.replicate_succ]
  | cons a as =>
    have : a ≠ 0 := fun h => h0 (h ▸ List.mem_cons_self)
    simpa [pad] using this

/-- The short entry of a new name is not the end of a directory. -/
lemma newSfn_zero {name : Name} (h0 : 0 ∉ name) (c n : ℕ) (a : UInt8) :
    sfnSlot (newSfn name) c n a 0 ≠ 0 := by
  rw [sfnSlot_zero, newSfn]
  split_ifs with h
  · obtain ⟨b, x, heq, -, -, -, -, hb, -⟩ :=
      encodeSfn_parts name (lfnEntriesNeeded_eq_zero.mp h)
    rw [heq]
    refine pad_getD_zero (by omega) (fun hm => ?_) _
    obtain ⟨c, hc, hc0⟩ := List.mem_map.mp hm
    exact toUpper_ne_zero (fun hz => h0 (hz ▸ hb c hc)) hc0
  · obtain ⟨k, x, heq, -, -, hk, -⟩ := makeSfn_parts name h0
    rw [heq]
    refine pad_getD_zero (by omega) (fun hm => ?_) _
    rcases List.mem_append.mp hm with hm | hm
    · exact hk hm
    · exact absurd hm (by decide)

lemma takeWhile_pad {n : ℕ} {l : List UInt8} (h : (0x20 : UInt8) ∉ l) :
    (pad n l).takeWhile (· != 0x20) = l := by
  rw [pad, List.takeWhile_append_of_pos]
  · cases n - l.length with
    | zero => simp
    | succ m => simp [List.replicate_succ]
  · intro c hc
    have : c ≠ 0x20 := fun h' => h (h' ▸ hc)
    simpa using this

/-- A new entry is never called `.` or `..`. -/
lemma newSfn_not_dot {name : Name} (h0 : 0 ∉ name) (c n : ℕ) (a : UInt8) :
    ¬ (sfnSlot (newSfn name) c n a).isDot := by
  rw [newSfn]
  split_ifs with h
  · obtain ⟨b, x, heq, hb, hx, hbd, hxd, hbm, hxm⟩ :=
      encodeSfn_parts name (lfnEntriesNeeded_eq_zero.mp h)
    have hupper : ∀ {l : Name}, (∀ c ∈ l, c ∈ name) → (0 : UInt8) ∉ l.map toUpper := by
      intro l hl hm
      obtain ⟨c, hc, hc0⟩ := List.mem_map.mp hm
      exact toUpper_ne_zero (fun hz => h0 (hz ▸ hl c hc)) hc0
    have hdots : ∀ {l : Name}, (0x2E : UInt8) ∉ l → (0x2E : UInt8) ∉ l.map toUpper := by
      intro l hl hm
      obtain ⟨c, hc, hc0⟩ := List.mem_map.mp hm
      exact hl (toUpper_eq_dot.mp hc0 ▸ hc)
    have hpad : ∀ {l : List UInt8} {k : ℕ} {y : UInt8}, y ≠ 0x20 → y ∉ l →
        y ∉ (pad k l).takeWhile (· != 0x20) := by
      intro l k y hy hl hm
      rcases List.mem_append.mp ((List.takeWhile_prefix _).subset hm) with hm | hm
      · exact hl hm
      · exact hy (List.eq_of_mem_replicate hm)
    have hB0 := hpad (k := 8) (by decide) (hupper hbm)
    have hBd := hpad (k := 8) (by decide) (hdots hbd)
    have hX0 := hpad (k := 3) (by decide) (hupper hxm)
    have hXd := hpad (k := 3) (by decide) (hdots hxd)
    have hXne : (pad 3 (x.map toUpper)).head? ≠ some 0x20 →
        (pad 3 (x.map toUpper)).takeWhile (· != 0x20) ≠ [] := by
      have hl := pad_length (n := 3) (l := x.map toUpper) (by simpa using hx)
      cases hp : pad 3 (x.map toUpper) with
      | nil => rw [hp] at hl; simp at hl
      | cons y ys =>
        intro hy
        have : y ≠ 0x20 := by simpa using hy
        simp [this]
    rw [heq, Slot.isDot, sfnToName_sfnSlot _ _ _ (pad_length (by simpa using hb))
      (pad_length (by simpa using hx))]
    generalize (pad 8 (b.map toUpper)).takeWhile (· != 0x20) = B at *
    generalize hX : (pad 3 (x.map toUpper)).takeWhile (· != 0x20) = X at *
    generalize (pad 3 (x.map toUpper)).head? = y at *
    rw [List.takeWhile_eq_self_iff.mpr]
    · cases B with
      | cons b0 B =>
        have : b0 ≠ 0x2E := fun h => hBd (h ▸ List.mem_cons_self)
        simp [this]
      | nil =>
        split_ifs with hy
        · simp
        · have hne := hXne hy
          have hx0 : X ≠ [0x2E] := fun h => hXd (h ▸ List.mem_cons_self)
          simp [hne, hx0]
    · intro z hz
      have hz0 : z ≠ 0 := by
        rintro rfl
        rcases List.mem_append.mp hz with hz | hz
        · exact hB0 hz
        · split_ifs at hz
          · simp at hz
          · rcases List.mem_cons.mp hz with hz | hz
            · exact absurd hz (by decide)
            · exact hX0 hz
      simpa using hz0
  · obtain ⟨k, x, heq, hk, hx, hk0, hkb⟩ := makeSfn_parts name h0
    have hbase : (pad 8 (k ++ [0x7E, 0x31])).takeWhile (· != 0x20) = k ++ [0x7E, 0x31] := by
      refine takeWhile_pad fun hm => ?_
      rcases List.mem_append.mp hm with hm | hm
      · exact hkb hm
      · exact absurd hm (by decide)
    -- the `~` of the short name is in it
    have hmem : (0x7E : UInt8) ∈ sfnToName
        (sfnSlot (pad 8 (k ++ [0x7E, 0x31]) ++ pad 3 x) c n a) := by
      rw [sfnToName_sfnSlot _ _ _ (pad_length (by simp; omega)) (pad_length hx),
        hbase, List.append_assoc,
        List.takeWhile_append_of_pos fun y hy => by
          have : y ≠ 0 := fun h => hk0 (h ▸ hy)
          simpa using this]
      refine List.mem_append_right _ ?_
      rw [List.cons_append, List.takeWhile_cons, if_pos (by decide)]
      exact List.mem_cons_self
    rw [heq, Slot.isDot]
    rintro (hd | hd) <;> rw [hd] at hmem <;> exact absurd hmem (by decide)

/-! ### The LFN slots -/

lemma lfnEntriesNeeded_le {name : Name} (h : name.length ≤ 255) : lfnEntriesNeeded name ≤ 20 := by
  rw [lfnEntriesNeeded]
  split_ifs <;> omega

lemma lfnSlot_attr (name : Name) (chk : UInt8) (m n : ℕ) : (lfnSlot name chk m n).attr = 0x0F := rfl

lemma lfnSlot_zero (name : Name) (chk : UInt8) (m n : ℕ) : lfnSlot name chk m n 0
      = if n = m then UInt8.ofNat n ||| 0x40 else UInt8.ofNat n := rfl

/-- The slots before the short entry of a new name are LFN slots. -/
lemma lfnSlots_spec {name : Name} (h : name.length ≤ 255) (chk : UInt8) :
    ∀ e ∈ writeLfnEntries name chk (lfnEntriesNeeded name), e.isLfn = true ∧ e 0 ≠ 0 := by
  intro e he
  obtain ⟨i, hi, rfl⟩ := List.mem_map.mp he
  rw [List.mem_range] at hi
  have hle := lfnEntriesNeeded_le h
  generalize lfnEntriesNeeded name = m at *
  rw [Slot.isLfn, lfnSlot_attr, lfnSlot_zero]
  generalize hn : m - i = n
  have h1 : 1 ≤ n := by omega
  have h2 : n ≤ 20 := by omega
  split_ifs <;> interval_cases n <;> decide

end GordOS.Fat32
