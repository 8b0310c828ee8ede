/-
What the decoder reads back from a new entry.

* `lfnUnits_lfnSlot`, `lfnChars_lfnSlot`: the characters in one slot of a long name;
* `lfnAccumulate_lfnSlot`: one step of the decoder over a new run;
* `foldl_writeLfnEntries`: **the round trip of long names**: behind the slots that
  `write_lfn_entries` builds the decoder holds the name, with the characters outside
  ASCII replaced, whatever state it was in before;
* `isValid83_parts`, `sfnToName_newSfn`: the round trip of short names.
-/
import Mathlib.Tactic
import GordOS.Fat32.NewEntry
import GordOS.Fat32.Entries

namespace GordOS.Fat32

/-! ### One slot of a long name -/

/-- What `lfn_accumulate` makes of a character. -/
def lfnAscii (c : UInt8) : UInt8 := if c < 0x80 then c else 0x3F

lemma lfnAscii_ne_zero {c : UInt8} (h : c ≠ 0) : lfnAscii c ≠ 0 := by
  rw [lfnAscii]
  split_ifs
  · exact h
  · decide

lemma map_lfnAscii {name : Name} (h : ∀ c ∈ name, c < 0x80) : name.map lfnAscii = name := by
  conv_rhs => rw [← List.map_id name]
  exact List.map_congr_left fun c hc => if_pos (h c hc)

lemma lfnUnitAt_lt (name : Name) (p : ℕ) : lfnUnitAt name p < 2 ^ 16 := by
  rw [lfnUnitAt]
  cases name[p]? with
  | none => split_ifs <;> simp
  | some c =>
    have := c.toNat_lt
    simp only
    omega

/-- The two bytes of a character in a slot. -/
lemma toNat_unit_bytes (u : ℕ) (h : u < 2 ^ 16) :
    (UInt8.ofNat u).toNat + (UInt8.ofNat (u / 2 ^ 8)).toNat * 2 ^ 8 = u := by
  simp only [UInt8.toNat_ofNat']
  omega

/-- The characters stored in a slot. -/
lemma lfnUnits_lfnSlot (name : Name) (chk : UInt8) (m n : ℕ) : lfnUnits (lfnSlot name chk m n)
      = (List.range 13).map fun k => lfnUnitAt name ((n - 1) * 13 + k) := by
  have hu : ∀ k, (UInt8.ofNat (lfnUnitAt name ((n - 1) * 13 + k))).toNat
      + (UInt8.ofNat (lfnUnitAt name ((n - 1) * 13 + k) / 2 ^ 8)).toNat * 2 ^ 8
      = lfnUnitAt name ((n - 1) * 13 + k) := fun k =>
    toNat_unit_bytes _ (lfnUnitAt_lt _ _)
  conv_rhs => rw [← funext hu]
  rfl

/-- The characters at some positions, up to the terminator. -/
lemma takeWhile_units {name : Name} (h0 : 0 ∉ name) (m : ℕ) :
    ∀ q, ((List.range m).map fun k => lfnUnitAt name (q + k)).takeWhile
        (fun ch => ch != 0 && ch != 0xFFFF)
      = ((name.drop q).take m).map UInt8.toNat := by
  induction m with
  | zero => simp
  | succ m ih =>
    intro q
    have hshift : ((fun k => lfnUnitAt name (q + k)) ∘ Nat.succ)
        = fun k => lfnUnitAt name (q + 1 + k) := by
      funext k
      rw [Function.comp_apply, Nat.succ_eq_add_one, Nat.add_assoc, Nat.add_comm 1 k]
    rw [List.range_succ_eq_map, List.map_cons, List.map_map, List.takeWhile_cons,
      Nat.add_zero, hshift]
    cases hq : name[q]? with
    | none =>
      -- the terminator, or the filling behind it
      have hlen : name.length ≤ q := List.getElem?_eq_none_iff.mp hq
      have hstop : (lfnUnitAt name q != 0 && lfnUnitAt name q != 0xFFFF) = false := by
        rw [lfnUnitAt, hq]
        by_cases hql : q = name.length <;> simp [hql]
      rw [hstop, List.drop_eq_nil_of_le hlen]
      simp
    | some c =>
      have hc : c ≠ 0 := fun h => h0 (h ▸ List.mem_of_getElem? hq)
      have hgo : (lfnUnitAt name q != 0 && lfnUnitAt name q != 0xFFFF) = true := by
        rw [lfnUnitAt, hq]
        have h1 := c.toNat_lt
        have h2 : c.toNat ≠ 0 := fun h => hc (UInt8.toNat_inj.mp (by simpa using h))
        simp only [Bool.and_eq_true, bne_iff_ne]
        omega
      have hdrop : name.drop q = c :: name.drop (q + 1) := by
        obtain ⟨hlt, rfl⟩ := List.getElem?_eq_some_iff.mp hq
        exact List.drop_eq_getElem_cons hlt
      rw [hgo, if_pos rfl, ih, hdrop, List.take_succ_cons, List.map_cons]
      congr 1
      rw [lfnUnitAt, hq]

/-- The part of a name that a slot adds. -/
lemma lfnChars_lfnSlot {name : Name} (h0 : 0 ∉ name) (chk : UInt8) (m n : ℕ) :
    lfnChars (lfnSlot name chk m n) = ((name.map lfnAscii).drop ((n - 1) * 13)).take 13 := by
  rw [lfnChars, lfnUnits_lfnSlot, takeWhile_units h0, List.map_map, ← List.map_drop,
    ← List.map_take]
  refine List.map_congr_left fun c _ => ?_
  have h80 : c < 0x80 ↔ c.toNat < 0x80 := UInt8.lt_iff_toNat_lt
  simp only [Function.comp_apply, lfnAscii, h80, UInt8.ofNat_toNat]

/-- Stores at consecutive positions. -/
lemma foldl_lfnStore (q : ℕ) (l : List UInt8) : ∀ (k : ℕ) (b : Buf),
      ((l.zipIdx k).map fun p => ((q : ℤ) + (p.2 : ℤ), p.1)).foldl lfnStore b
        = fun i => if q + k ≤ i ∧ i < q + k + l.length then l.getD (i - (q + k)) 0
          else b i := by
  induction l with
  | nil =>
    intro k b
    funext i
    rw [if_neg (by simp only [List.length_nil]; omega)]
    rfl
  | cons c l ih =>
    intro k b
    rw [List.zipIdx_cons, List.map_cons, List.foldl_cons, ih]
    funext i
    have hst : lfnStore b ((q : ℤ) + (k : ℤ), c) = Function.update b (q + k) c := by
      rw [lfnStore, if_pos (by positivity)]
      rfl
    rw [hst, List.length_cons]
    rcases Nat.lt_trichotomy i (q + k) with hi | rfl | hi
    · rw [if_neg (by omega), if_neg (by omega), Function.update_of_ne (by omega)]
    · rw [if_neg (by omega), if_pos (by omega), Function.update_self, Nat.sub_self]
      rfl
    · by_cases hi' : i < q + k + (l.length + 1)
      · rw [if_pos (by omega), if_pos (by omega),
          show i - (q + k) = i - (q + (k + 1)) + 1 from by omega, List.getD_cons_succ]
      · rw [if_neg (by omega), if_neg (by omega), Function.update_of_ne (by omega)]

/-- The sequence number and the first-slot flag of a new slot. -/
lemma lfnSlot_seq (name : Name) (chk : UInt8) {m n : ℕ} (hn : n ≤ 20) :
    lfnSeq (lfnSlot name chk m n) = n ∧
      ((lfnSlot name chk m n 0 &&& 0x40 != 0) = true ↔ n = m) := by
  have hall : ∀ n < 21, ((UInt8.ofNat n ||| 0x40) &&& 0x3F).toNat = n
      ∧ (UInt8.ofNat n &&& 0x3F).toNat = n ∧ (UInt8.ofNat n ||| 0x40) &&& 0x40 ≠ 0
      ∧ UInt8.ofNat n &&& 0x40 = 0 := by decide
  obtain ⟨h1, h2, h3, h4⟩ := hall n (by omega)
  rw [lfnSeq, lfnSlot_zero]
  split_ifs with h
  · exact ⟨h1, by simp [h, h ▸ h3]⟩
  · exact ⟨h2, by simp [h, h4]⟩

/-- The decoder before a new slot: the slot with the highest number starts it
afresh. -/
def lfnFresh (st : LfnState) (chk : UInt8) (m n : ℕ) : LfnState :=
  if n = m then ⟨fun _ => 0, chk, m⟩ else st

/-- One step of the decoder over a new slot. -/
lemma lfnAccumulate_lfnSlot {name : Name} (hp : IsPath name) (chk : UInt8) {m q : ℕ}
    (hq : q + 1 ≤ 20) (st : LfnState) :
    lfnAccumulate (lfnSlot name chk m (q + 1)) st =
      ⟨fun i => if q * 13 ≤ i ∧ i < q * 13 + 13 ∧ i < name.length
          then (name.map lfnAscii).getD i 0
          else (lfnFresh st chk m (q + 1)).buf i,
        (lfnFresh st chk m (q + 1)).chk, (lfnFresh st chk m (q + 1)).remain - 1⟩ := by
  obtain ⟨hseq, hflag⟩ := lfnSlot_seq name chk (m := m) hq
  set e := lfnSlot name chk m (q + 1) with he
  set l := lfnChars e with hl
  have hchars : l = ((name.map lfnAscii).drop (q * 13)).take 13 := by
    rw [hl, he, lfnChars_lfnSlot hp.1, Nat.add_sub_cancel]
  have hlen : l.length = min 13 (name.length - q * 13) := by simp [hchars]
  have hwrites : lfnWrites e = (l.zipIdx 0).map fun p => (((q * 13 : ℕ) : ℤ) + (p.2 : ℤ), p.1) := by
    rw [lfnWrites, hseq]
    have hfun : (fun p : UInt8 × ℕ => ((((q + 1 : ℕ) : ℤ) - 1) * 13 + (p.2 : ℤ), p.1))
        = fun p => (((q * 13 : ℕ) : ℤ) + (p.2 : ℤ), p.1) := by
      funext p
      push_cast
      ring_nf
    rw [hfun, List.takeWhile_eq_self_iff]
    intro w hw
    obtain ⟨⟨c, i⟩, hi, rfl⟩ := List.mem_map.mp hw
    have hil : i < l.length := by simpa using (List.mem_zipIdx hi).2.1
    have := hp.2
    simp only [decide_eq_true_eq]
    omega
  have hfresh : (if e 0 &&& 0x40 != 0 then ⟨fun _ => 0, e 13, (e 0 &&& 0x3F).toNat⟩
      else st) = lfnFresh st chk m (q + 1) := by
    rw [lfnFresh]
    by_cases h : q + 1 = m
    · rw [if_pos (hflag.mpr h), if_pos h, ← h, ← hseq]
      rfl
    · rw [if_neg fun hf => h (hflag.mp hf), if_neg h]
  rw [lfnAccumulate, hfresh, hwrites, foldl_lfnStore]
  congr 1
  funext i
  rw [hlen, Nat.add_zero]
  by_cases hi : q * 13 ≤ i ∧ i < q * 13 + 13 ∧ i < name.length
  · rw [if_pos hi, if_pos (by omega), hchars, List.getD_eq_getElem?_getD,
      List.getD_eq_getElem?_getD, List.getElem?_take_of_lt (by omega),
      List.getElem?_drop, Nat.add_sub_cancel' hi.1]
  · rw [if_neg hi, if_neg (by omega)]

/-! ### The round trip of long names -/

/-- The decoder behind the first `j + 1` slots of a new run. -/
lemma foldl_lfnSlots {name : Name} (hp : IsPath name) (chk : UInt8) {m : ℕ}
    (hm : m ≤ 20) (st : LfnState) :
    ∀ j < m, ((List.range (j + 1)).map fun i => lfnSlot name chk m (m - i)).foldl lfnStep st
      = ⟨fun i => if (m - (j + 1)) * 13 ≤ i ∧ i < m * 13
          then (name.map lfnAscii).getD i 0 else 0, chk, m - (j + 1)⟩ := by
  have hstep : ∀ n st', 0 < n → n ≤ 20 → lfnStep st' (lfnSlot name chk m n)
      = lfnAccumulate (lfnSlot name chk m n) st' := by
    intro n st' h0 hn
    have hne : ∀ n < 21, UInt8.ofNat n ||| 0x40 ≠ 0xE5 ∧ UInt8.ofNat n ≠ 0xE5 := by
      decide
    obtain ⟨h1, h2⟩ := hne n (by omega)
    have hl : (lfnSlot name chk m n).isLfn = true := by
      rw [Slot.isLfn, lfnSlot_attr, lfnSlot_zero]
      split_ifs <;> simp [h1, h2]
    rw [lfnStep, if_pos hl]
  have hzero : ∀ i, ¬ i < name.length → (name.map lfnAscii).getD i 0 = 0 := by
    intro i hi
    rw [List.getD_eq_getElem?_getD, List.getElem?_eq_none (by simpa using hi)]
    rfl
  intro j
  induction j with
  | zero =>
    intro hj
    obtain ⟨q, rfl⟩ : ∃ q, m = q + 1 := ⟨m - 1, by omega⟩
    rw [List.range_one, List.map_singleton, List.foldl_cons, List.foldl_nil,
      hstep _ _ (by omega) (by omega), Nat.sub_zero, lfnAccumulate_lfnSlot hp _ hm,
      lfnFresh, if_pos rfl]
    congr 1
    funext i
    by_cases hi : i < name.length
    · exact if_congr (by omega) rfl rfl
    · simp only [hzero i hi, ite_self]
  | succ j ih =>
    intro hj
    obtain ⟨q, hq⟩ : ∃ q, m - (j + 1) = q + 1 := ⟨m - (j + 1) - 1, by omega⟩
    rw [List.range_succ, List.map_append, List.map_singleton, List.foldl_append,
      ih (by omega), List.foldl_cons, List.foldl_nil, hstep _ _ (by omega) (by omega),
      hq, lfnAccumulate_lfnSlot hp _ (by omega), lfnFresh, if_neg (by omega),
      show m - (j + 1 + 1) = q from by omega]
    congr 1
    funext i
    by_cases hi : i < name.length
    · by_cases h1 : q * 13 ≤ i ∧ i < q * 13 + 13
      · rw [if_pos ⟨h1.1, h1.2, hi⟩, if_pos (by omega)]
      · rw [if_neg (by omega)]
        exact if_congr (by omega) rfl rfl
    · simp only [hzero i hi, ite_self]

/-- **The round trip of long names.** -/
theorem foldl_writeLfnEntries {name : Name} (hp : IsPath name) (chk : UInt8)
    (hn : lfnEntriesNeeded name ≠ 0) (st : LfnState) :
    (writeLfnEntries name chk (lfnEntriesNeeded name)).foldl lfnStep st
      = ⟨fun i => (name.map lfnAscii).getD i 0, chk, 0⟩ := by
  have hle := lfnEntriesNeeded_le hp.2
  obtain ⟨j, hj⟩ : ∃ j, lfnEntriesNeeded name = j + 1 :=
    ⟨lfnEntriesNeeded name - 1, by omega⟩
  have hlen : name.length ≤ lfnEntriesNeeded name * 13 := by
    rw [lfnEntriesNeeded] at hn ⊢
    split_ifs at hn ⊢
    · exact absurd rfl hn
    · omega
  have h := foldl_lfnSlots hp chk hle st j (by omega)
  rw [writeLfnEntries]
  rw [← hj, Nat.sub_self] at h
  rw [h]
  congr 1
  funext i
  by_cases hi : i < lfnEntriesNeeded name * 13
  · rw [if_pos (by omega)]
  · rw [if_neg (by omega), List.getD_eq_getElem?_getD, List.getElem?_eq_none (by simp; omega)]
    rfl

/-- The text the decoder then holds. -/
lemma lfnState_name {name : Name} (hp : IsPath name) (chk : UInt8) (m : ℕ) :
    LfnState.name ⟨fun i => (name.map lfnAscii).getD i 0, chk, m⟩ = name.map lfnAscii := by
  have hlen : (name.map lfnAscii).length ≤ 255 := by simpa using hp.2
  have hne : ∀ c ∈ name.map lfnAscii, (c != 0) = true := by
    intro c hc
    obtain ⟨x, hx, rfl⟩ := List.mem_map.mp hc
    exact bne_iff_ne.mpr (lfnAscii_ne_zero fun h => hp.1 (h ▸ hx))
  set l := name.map lfnAscii with hl
  have hsplit : (List.range 256).map (fun i => l.getD i 0)
      = l ++ List.replicate (256 - l.length) 0 := by
    refine List.ext_getElem (by simp; omega) fun i h1 h2 => ?_
    rw [List.getElem_map, List.getElem_range, List.getElem_append]
    split_ifs with hi
    · rw [List.getD_eq_getElem?_getD, List.getElem?_eq_getElem hi]
      rfl
    · rw [List.getD_eq_getElem?_getD, List.getElem?_eq_none (by omega), List.getElem_replicate]
      rfl
  rw [LfnState.name, hsplit, List.takeWhile_append_of_pos hne]
  obtain ⟨k, hk⟩ : ∃ k, 256 - l.length = k + 1 := ⟨255 - l.length, by omega⟩
  rw [hk, List.replicate_succ, List.takeWhile_cons]
  simp

/-! ### The round trip of short names -/

lemma toUpper_of_not_lower {c : UInt8} (h : ¬ (0x61 ≤ c ∧ c ≤ 0x7A)) : toUpper c = c := if_neg h

/-- The loop of `is_valid_83` behind the dot. -/
lemma isValid83Loop_ext {cs : Name} : ∀ {b x : ℕ}, x ≤ 3 → isValid83Loop cs b true x = true →
    0x2E ∉ cs ∧ x + cs.length ≤ 3 ∧ ∀ c ∈ cs, toUpper c = c := by
  induction cs with
  | nil => intro b x hx _; simpa using hx
  | cons c cs ih =>
    intro b x hx h
    rw [isValid83Loop] at h
    simp only [if_true] at h
    split_ifs at h with h1 h2 h3
    obtain ⟨h4, h5, h6⟩ := ih (by omega) h
    refine ⟨?_, by rw [List.length_cons]; omega, ?_⟩
    · simpa [h4] using Ne.symm h2
    · exact List.forall_mem_cons.mpr ⟨toUpper_of_not_lower h1, h6⟩

/-- The parts of an 8.3 name: a base and, behind a dot, an extension. -/
structure Parts83 (cs base ext : Name) : Prop where
  eq : (cs = base ∧ ext = []) ∨ cs = base ++ 0x2E :: ext
  base_dot : 0x2E ∉ base
  ext_len : ext.length ≤ 3
  upper : ∀ c ∈ cs, toUpper c = c

/-- The loop of `is_valid_83` before the dot. -/
lemma isValid83Loop_base {cs : Name} : ∀ {b : ℕ}, b ≤ 8 → isValid83Loop cs b false 0 = true →
    ∃ base ext, Parts83 cs base ext ∧ b + base.length ≤ 8 := by
  induction cs with
  | nil => exact fun {b} hb _ => ⟨[], [], ⟨Or.inl ⟨rfl, rfl⟩, by simp, by simp, by simp⟩,
      by simpa using hb⟩
  | cons c cs ih =>
    intro b hb h
    rw [isValid83Loop] at h
    simp only [Bool.false_eq_true, if_false] at h
    split_ifs at h with h1 h2 h3 h4
    · obtain ⟨-, h6, h7⟩ := isValid83Loop_ext (by omega) h
      refine ⟨[], cs, ⟨Or.inr (by rw [h2]; rfl), by simp, by omega, ?_⟩, by simpa using hb⟩
      exact List.forall_mem_cons.mpr ⟨toUpper_of_not_lower h1, h7⟩
    · obtain ⟨base, ext, hp, hl⟩ := ih (by omega) h
      refine ⟨c :: base, ext, ⟨?_, ?_, hp.ext_len, ?_⟩, by rw [List.length_cons]; omega⟩
      · rcases hp.eq with ⟨h5, h6⟩ | h5
        · exact Or.inl ⟨by rw [h5], h6⟩
        · exact Or.inr (by rw [h5]; rfl)
      · simpa [hp.base_dot] using Ne.symm h2
      · exact List.forall_mem_cons.mpr ⟨toUpper_of_not_lower h1, hp.upper⟩

lemma map_toUpper {l : Name} (h : ∀ c ∈ l, toUpper c = c) : l.map toUpper = l := by
  conv_rhs => rw [← List.map_id l]
  exact List.map_congr_left h

/-- The encoding of an 8.3 name. -/
lemma Parts83.encodeSfn {cs base ext : Name} (h : Parts83 cs base ext) (hl : base.length ≤ 8) :
    encodeSfn cs = pad 8 base ++ pad 3 ext := by
  have hbase : ∀ x, (base ++ 0x2E :: x).takeWhile (· != 0x2E) = base := by
    intro x
    rw [List.takeWhile_append_of_pos, List.takeWhile_cons]
    · simp
    · intro c hc
      exact bne_iff_ne.mpr fun hd => h.base_dot (hd ▸ hc)
  rcases h.eq with ⟨rfl, rfl⟩ | rfl
  · have hall : cs.takeWhile (· != 0x2E) = cs :=
      List.takeWhile_eq_self_iff.mpr fun c hc =>
        bne_iff_ne.mpr fun hd => h.base_dot (hd ▸ hc)
    rw [Fat32.encodeSfn, hall, List.take_of_length_le hl, List.drop_length, map_toUpper h.upper]
    rfl
  · rw [Fat32.encodeSfn, hbase, List.take_of_length_le hl]
    have hu := h.upper
    simp only [List.drop_left, List.head?_cons, if_true, List.drop_succ_cons,
      List.drop_zero, List.take_of_length_le h.ext_len]
    rw [map_toUpper fun c hc => hu c (by simp [hc]), map_toUpper fun c hc => hu c (by simp [hc])]

/-- **The round trip of short names**: an 8.3 name without blanks and without a dot
at its end. -/
theorem sfnToName_newSfn {name : Name} (h0 : 0 ∉ name) (hv : isValid83 name = true)
    (hb : (0x20 : UInt8) ∉ name) (hd : name.getLast? ≠ some 0x2E) (c n : ℕ) (a : UInt8) :
    sfnToName (sfnSlot (newSfn name) c n a) = name := by
  obtain ⟨base, ext, hp, hl⟩ := isValid83Loop_base (by omega) hv
  rw [Nat.zero_add] at hl
  have hmem : (∀ c ∈ base, c ∈ name) ∧ ∀ c ∈ ext, c ∈ name := by
    rcases hp.eq with ⟨rfl, rfl⟩ | rfl <;> simp +contextual
  have hne : ∀ l : Name, (∀ c ∈ l, c ∈ name) → (0x20 : UInt8) ∉ l := fun l hl h =>
    hb (hl _ h)
  rw [newSfn, if_pos (lfnEntriesNeeded_eq_zero.mpr (Or.inl hv)), hp.encodeSfn hl,
    sfnToName_sfnSlot _ _ _ (pad_length hl) (pad_length hp.ext_len),
    takeWhile_pad (hne _ hmem.1), takeWhile_pad (hne _ hmem.2)]
  have hself : name.takeWhile (· != 0) = name :=
    List.takeWhile_eq_self_iff.mpr fun c hc => bne_iff_ne.mpr fun h => h0 (h ▸ hc)
  cases ext with
  | nil =>
    rw [if_pos (by decide), List.append_nil]
    rcases hp.eq with ⟨rfl, -⟩ | rfl
    · exact hself
    · -- a dot at the end
      simp at hd
  | cons x xs =>
    have hx : (pad 3 (x :: xs)).head? ≠ some 0x20 := by
      rw [pad, List.cons_append, List.head?_cons, Ne, Option.some.injEq]
      rintro rfl
      exact hne _ hmem.2 List.mem_cons_self
    rcases hp.eq with ⟨-, hnil⟩ | rfl
    · cases hnil
    · rw [if_neg hx]
      exact hself

/-! ### The first byte of a short name -/

lemma toUpper_ascii {c : UInt8} (h : c < 0x80) : toUpper c < 0x80 := by
  rw [toUpper]
  split_ifs
  · grind
  · exact h

lemma mem_pad {n : ℕ} {l : List UInt8} {c : UInt8} (h : c ∈ pad n l) : c ∈ l ∨ c = 0x20 := by
  rcases List.mem_append.mp h with h | h
  · exact Or.inl h
  · exact Or.inr (List.eq_of_mem_replicate h)

/-- The short name of a name in ASCII is in ASCII. -/
lemma newSfn_ascii {name : Name} (h : ∀ c ∈ name, c < 0x80) : ∀ c ∈ newSfn name, c < 0x80 := by
  -- every character comes from the name, or is a blank, `~` or `1`
  have hup : ∀ l : Name, (∀ c ∈ l, c ∈ name) → ∀ c ∈ l.map toUpper, c < 0x80 := by
    intro l hl c hc
    obtain ⟨x, hx, rfl⟩ := List.mem_map.mp hc
    exact toUpper_ascii (h x (hl x hx))
  have hpad : ∀ {n l c}, (∀ c ∈ l, c < 0x80) → c ∈ pad n l → c < 0x80 := by
    intro n l c hl hc
    rcases mem_pad hc with hc | rfl
    · exact hl c hc
    · decide
  intro c hc
  rw [newSfn] at hc
  split_ifs at hc with h0
  · obtain ⟨base, ext, heq, -, -, -, -, hb, hx⟩ :=
      encodeSfn_parts name (lfnEntriesNeeded_eq_zero.mp h0)
    rw [heq] at hc
    rcases List.mem_append.mp hc with hc | hc
    · exact hpad (hup base hb) hc
    · exact hpad (hup ext hx) hc
  · rw [makeSfn] at hc
    obtain ⟨h1, h2⟩ := splitLastDot_mem name
    rcases List.mem_append.mp hc with hc | hc
    · refine hpad (fun x hx => ?_) hc
      rcases List.mem_append.mp hx with hx | hx
      · exact hup _ h1 x (List.mem_of_mem_filter (List.mem_of_mem_take hx))
      · fin_cases hx <;> decide
    · refine hpad (hup _ fun x hx => ?_) hc
      cases he : (splitLastDot name).2 with
      | none => simp [he] at hx
      | some l =>
        rw [he] at hx
        exact h2 l he x (List.mem_of_mem_take hx)

/-- A new entry is in use, unless its short name begins with the mark of deleted
slots. -/
lemma sfnSlot_live {name : Name} (h0 : 0 ∉ name) (hE : (newSfn name).getD 0 0 ≠ 0xE5)
    (c z : ℕ) {a : UInt8} (ha : a ≠ 0x0F ∧ a ≠ 0x08) :
    (sfnSlot (newSfn name) c z a).live = true := by
  have hz := newSfn_zero h0 c z a
  rw [Slot.live, sfnSlot_attr]
  rw [sfnSlot_zero] at hz ⊢
  simp only [bne_iff_ne.mpr hz, bne_iff_ne.mpr hE, bne_iff_ne.mpr ha.1,
    bne_iff_ne.mpr ha.2, Bool.and_self]

lemma newSfn_ne_E5 {name : Name} (h0 : 0 ∉ name) (h : ∀ c ∈ name, c < 0x80) :
    (newSfn name).getD 0 0 ≠ 0xE5 := by
  have hlen := newSfn_length h0
  have hlt := newSfn_ascii h (newSfn name)[0] (List.getElem_mem _)
  rw [List.getD_eq_getElem?_getD, List.getElem?_eq_getElem (by omega), Option.getD_some]
  intro heq
  rw [heq] at hlt
  exact absurd hlt (by decide)

/-! ### Matching -/

@[simp] lemma nameMatch_self (name : Name) : nameMatch name name = true := by
  induction name with
  | nil => rfl
  | cons c cs ih => simp [nameMatch, ih]

end GordOS.Fat32
