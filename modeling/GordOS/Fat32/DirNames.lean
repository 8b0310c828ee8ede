/-
The names of a directory stay apart as long as the callers see to it.

* `shownName`: the name that `fat32_list_dir` shows for a new entry;
* `DirOk`: every run of a directory has its start, and no two entries are shown under
  one name, with one lemma for each way a directory changes (`DirOk.killAt`,
  `DirOk.grown`, `newDir_dirOk`);
* `Fresh`: no entry of the directory has the new name, which the driver does not check;
* `dirOk_rule`: the two ways in the form that `EveryDir` asks for;
* `distinctNames_of_run`: **the names of each directory are distinct** in a run in which
  every new name is fresh;
* `mkdir_twice`: without it `fat32_mkdir` makes two directories of one name.
-/
import Mathlib.Tactic
import GordOS.Fat32.EveryDir

namespace GordOS.Fat32

open GordOS GordOS.Fallible

/-! ### The names shown -/

/-- The name `fat32_list_dir` shows for a new entry. -/
def shownName (name : Name) : Name :=
  if lfnEntriesNeeded name = 0 then sfnToName (sfnSlot (newSfn name) 0 0 attrArchive)
  else (name.map lfnAscii).take 254

lemma nameMatch_comm (a b : Name) : nameMatch a b = nameMatch b a := by
  induction a generalizing b with
  | nil => cases b <;> rfl
  | cons x xs ih =>
    cases b with
    | nil => rfl
    | cons y ys => rw [nameMatch, nameMatch, ih ys, Bool.beq_comm]

/-- The short name of a slot only depends on its first eleven bytes. -/
lemma sfnToName_congr (sfn : List UInt8) (c c' n n' : ℕ) (a a' : UInt8) :
    sfnToName (sfnSlot sfn c n a) = sfnToName (sfnSlot sfn c' n' a') := rfl

/-- No two entries are shown under names that match. -/
def DistinctNames (l : List Entry) : Prop :=
  ∀ a ∈ l, ∀ b ∈ l, nameMatch a.display b.display = true → a.idx = b.idx

/-- The slots of a directory in which every run has its start and the names are
distinct. -/
structure DirOk (ss : List Slot) : Prop where
  tidy : Tidy ss
  distinct : DistinctNames (decode ss)

/-- The removal of an entry. -/
lemma Tidy.killAt {E : Env} {ss : List Slot} {k : ℕ} {K : List ℕ} {e : Slot} (h : Tidy ss)
    (hM : Marks E ss k K) (hk : ss[k]? = some e) (hl : e.live = true) (hlt : k < endIndex ss) :
    Tidy (killAt K ss) := by
  refine ⟨h.1.killAt hM hk hl, ?_⟩
  rw [endIndex_killAt hM hlt, headedAt, runOf_killAt hM hk hl (endIndex_le_length ss) (Or.inr hlt)]
  exact h.2

lemma DirOk.killAt {E : Env} {ss : List Slot} {k : ℕ} {K : List ℕ} {e : Slot} (h : DirOk ss)
    (hM : Marks E ss k K) (hk : ss[k]? = some e) (hl : e.live = true) (hlt : k < endIndex ss) :
    DirOk (killAt K ss) := by
  refine ⟨h.tidy.killAt hM hk hl hlt, fun a ha b hb hm => ?_⟩
  rw [decode_killAt hM hk hl h.tidy.1 hlt] at ha hb
  exact h.distinct a (List.mem_filter.mp ha).1 b (List.mem_filter.mp hb).1 hm

section

variable {ss ss' : List Slot} {name : Name} {c z : ℕ} {a : UInt8} {n : ℕ}

/-- The name shown for the entry of a creation. -/
lemma Grown.shown (hp : IsPath name) (hG : Grown ss (entrySlots name c z a) n ss')
    (hrun : lfnEntriesNeeded name = 0 → runOf ss (endIndex ss) = [])
    (hn : n = (entrySlots name c z a).length) {en : Entry}
    (hen : slotEntry ss' (endIndex ss + (n - 1)) = some en) :
    en.display = shownName name := by
  have hs := entrySlots_spec hp c z a
  have hlast : ss'[endIndex ss + (n - 1)]? = some (sfnSlot (newSfn name) c z a) := by
    have hpos := List.length_pos_iff.mpr hs.ne_nil
    rw [hG.mid _ (by omega), ← hs.last, List.getLast?_eq_getElem?, hn]
  obtain ⟨-, hslot, hl⟩ := slotEntry_idx hen
  rw [hlast, Option.some.injEq] at hslot
  obtain ⟨en', hen', hs', hlong, hnone⟩ := hG.new_entry hp hn (hslot ▸ hl)
  obtain rfl : en' = en := Option.some.inj (hen'.symm.trans hen)
  rw [Entry.display, shownName]
  by_cases h0 : lfnEntriesNeeded name = 0
  · rw [hnone h0 (hrun h0), if_pos h0, hs']
    exact sfnToName_congr _ _ _ _ _ _ _
  · rw [hlong h0, if_neg h0]

/-- A new entry, complete or not, keeps the runs headed. -/
lemma Tidy.grown (h : Tidy ss) (hp : IsPath name) (ha : a ≠ 0x0F)
    (hG : Grown ss (entrySlots name c z a) n ss') : Tidy ss' := by
  have hsl : (sfnSlot (newSfn name) c z a).isLfn = false := by
    have hattr : (sfnSlot (newSfn name) c z a).attr = a := rfl
    simp [Slot.isLfn, hattr, ha]
  exact hG.tidy (entrySlots_spec hp c z a) (fun e he => entrySlots_first hp c z a he) hsl h

/-- A new entry under a name that no entry has, complete or not. -/
lemma DirOk.grown (h : DirOk ss) (hp : IsPath name) (ha : a ≠ 0x0F)
    (hG : Grown ss (entrySlots name c z a) n ss')
    (hfresh : ∀ en ∈ decode ss, nameMatch en.display (shownName name) = false)
    (hrun : lfnEntriesNeeded name = 0 → runOf ss (endIndex ss) = []) : DirOk ss' := by
  have hs := entrySlots_spec hp c z a
  refine ⟨h.tidy.grown hp ha hG, ?_⟩
  rw [hG.decode_eq hs]
  by_cases hn : n = (entrySlots name c z a).length
  · rw [if_pos hn]
    have hnew : ∀ en ∈ (slotEntry ss' (endIndex ss + (n - 1))).toList,
        en.idx = endIndex ss + (n - 1) ∧ en.display = shownName name := by
      intro en hen
      rw [Option.mem_toList] at hen
      exact ⟨(slotEntry_idx hen).1, hG.shown hp hrun hn hen⟩
    intro x hx y hy hm
    rcases List.mem_append.mp hx with hx | hx <;> rcases List.mem_append.mp hy with hy | hy
    · exact h.distinct x hx y hy hm
    · rw [(hnew y hy).2, hfresh x hx] at hm
      cases hm
    · rw [(hnew x hx).2, nameMatch_comm, hfresh y hy] at hm
      cases hm
    · rw [(hnew x hx).1, (hnew y hy).1]
  · rw [if_neg hn, List.append_nil]
    exact h.distinct

end

section

variable {g : Geom} {E : Env} {v w : Vol} {R : List (Head ℕ)} {d : ℕ} {en : Entry}
variable {h : Head ℕ} {name : Name}

lemma runOf_eq_nil {ss : List Slot} (h : ∀ e ∈ ss, e.isLfn = false) (k : ℕ) : runOf ss k = [] := by
  rw [runOf, List.reverse_eq_nil_iff, List.takeWhile_eq_nil_iff]
  intro hlen
  have hmem := List.getElem_mem hlen
  rw [List.mem_reverse] at hmem
  have hfalse := h _ (List.mem_of_mem_take hmem)
  rw [List.get_eq_getElem, hfalse]
  exact Bool.false_ne_true

/-- A directory without long names. -/
lemma tidy_of_no_lfn {ss : List Slot} (h : ∀ e ∈ ss, e.isLfn = false) : Tidy ss := by
  have hh : ∀ k, headedAt ss k = true := fun k => by
    rw [headedAt, runOf_eq_nil h k]
    rfl
  exact ⟨fun i _ _ _ => hh i, hh _⟩

/-- A new directory has no long names. -/
lemma newDir_no_lfn (hg : g.Valid) {new : ℕ} (hr : g.InRange new) (p : ℕ) :
    ∀ e ∈ dirSlots g (Vol.newDir g v new p) new, e.isLfn = false := by
  intro e he
  obtain ⟨i, hi⟩ := List.mem_iff_getElem?.mp he
  rw [newDir_slot hg hr p hi]
  split_ifs <;> rfl

/-- The slots of a new directory: its entries are `.` and `..`. -/
lemma newDir_dirOk (hg : g.Valid) {new : ℕ} (hr : g.InRange new) (p : ℕ) :
    DirOk (dirSlots g (Vol.newDir g v new p) new) := by
  set ss := dirSlots g (Vol.newDir g v new p) new with hss
  have hslot : ∀ {i : ℕ} {e : Slot}, ss[i]? = some e →
      e = if i = 1 then dotdotSlot p else if i = 0 then dotSlot new else zeroSlot :=
    fun he => newDir_slot hg hr p he
  have hno : ∀ e ∈ ss, e.isLfn = false := newDir_no_lfn hg hr p
  -- an entry is `.` in slot 0 or `..` in slot 1
  have hentry : ∀ en ∈ decode ss, (en.idx = 0 ∧ en.display = [0x2E]) ∨
      (en.idx = 1 ∧ en.display = [0x2E, 0x2E]) := by
    intro en hen
    obtain ⟨-, hse⟩ := mem_decode.mp hen
    obtain ⟨-, he, hl⟩ := slotEntry_idx hse
    have hlt := (List.getElem?_eq_some_iff.mp he).1
    have hlong : en.long = none := by
      have hz := stateAt_of_no_run hlt.le (runOf_eq_nil hno en.idx)
      rw [slotEntry_of_live he hl, Option.some.injEq] at hse
      rw [← hse, entryAt]
      simp [LfnState.valid, hz]
    have hdisp : en.display = sfnToName en.slot := by rw [Entry.display, hlong]
    have hs := hslot he
    rw [hdisp, hs]
    by_cases h1 : en.idx = 1
    · exact Or.inr ⟨h1, by rw [if_pos h1]; rfl⟩
    · by_cases h0 : en.idx = 0
      · exact Or.inl ⟨h0, by rw [if_neg h1, if_pos h0]; rfl⟩
      · rw [if_neg h1, if_neg h0] at hs
        rw [hs] at hl
        cases hl
  refine ⟨tidy_of_no_lfn hno, fun a ha b hb hm => ?_⟩
  rcases hentry a ha with ⟨hi, hda⟩ | ⟨hi, hda⟩ <;>
    rcases hentry b hb with ⟨hj, hdb⟩ | ⟨hj, hdb⟩ <;> rw [hda, hdb] at hm
  · rw [hi, hj]
  · exact absurd hm (by decide)
  · exact absurd hm (by decide)
  · rw [hi, hj]

/-! ### The operations -/

/-- The invariant, with the names of each directory apart. -/
structure Named (g : Geom) (v : Vol) (R : List (Head ℕ)) : Prop where
  inv : Inv g v R
  dirs : ∀ x, Reach (subOf g v) R x → DirOk (dirSlots g v x)

/-- No entry of the directory, apart from one that is gone by then, is shown under the
new name, and no run is left at the end of the directory for a name without one. -/
def Fresh (g : Geom) (v : Vol) (d : ℕ) (gone : Option Entry) (name : Name) : Prop :=
  (∀ en ∈ entries g v d, (∀ old, gone = some old → en.idx ≠ old.idx) →
    nameMatch en.display (shownName name) = false) ∧
  (lfnEntriesNeeded name = 0 →
    runOf (dirSlots g v d) (endIndex (dirSlots g v d)) = [])

/-- The same of slots: none of their entries is shown under the name, and no run is left at
their end for a name without one. -/
def FreshIn (ss : List Slot) (name : Name) : Prop :=
  (∀ en ∈ decode ss, nameMatch en.display (shownName name) = false) ∧
  (lfnEntriesNeeded name = 0 → runOf ss (endIndex ss) = [])

/-- The two ways a directory changes keep the names apart. -/
lemma dirOk_rule : DirRule FreshIn DirOk where
  kill h _ hM hk hl _ hlt := h.killAt hM hk hl hlt
  grow h _ hp ha hfresh hG := h.grown hp ha hG hfresh.1 hfresh.2
  new hg hr p := newDir_dirOk hg hr p

lemma named_iff : Named g v R ↔ EveryDir DirOk g v R :=
  ⟨fun h => ⟨h.inv, h.dirs⟩, fun h => ⟨h.inv, h.dirs⟩⟩

lemma Fresh.freshIn (hfresh : Fresh g v d none name) : FreshIn (dirSlots g v d) name :=
  ⟨fun en hen => hfresh.1 en hen (by simp), hfresh.2⟩

/-- What is fresh is fresh behind the removal of the entry that is to go. -/
lemma Fresh.of_kill {K : List ℕ} (hN : DirOk (dirSlots g v d))
    (hI : TailOk g v d) (hen : en ∈ entries g v d) (hK : Marks E (dirSlots g v d) en.idx K)
    (hfresh : Fresh g v d (some en) name) : FreshIn (killAt K (dirSlots g v d)) name := by
  obtain ⟨hk, hl⟩ := mem_entries hen
  have hlt := lt_endIndex_of_live hI hk hl
  refine ⟨fun x hx => ?_, fun h0 => ?_⟩
  · rw [decode_killAt hK hk hl hN.tidy.1 hlt, List.mem_filter] at hx
    refine hfresh.1 x hx.1 fun old hold => ?_
    rw [← Option.some.inj hold]
    simpa using hx.2
  · rw [endIndex_killAt hK hlt, runOf_killAt hK hk hl (endIndex_le_length _) (Or.inr hlt)]
    exact hfresh.2 h0

/-- The names a call creates are fresh. -/
def Op.Fresh (g : Geom) (v : Vol) (cwd : ℕ) : Op → Prop
  | .write path _ => ∀ d name, resolve g v cwd path = some (d, name) →
      Fat32.Fresh g v d (lookup g v acceptFile d name) name
  | .delete _ => True
  | .mkdir path => ∀ d name, resolve g v cwd path = some (d, name) →
      Fat32.Fresh g v d none name
  | .rename oldpath newname => ∀ d name, resolve g v cwd oldpath = some (d, name) →
      ∀ old, lookup g v acceptAny d name = some old →
        Fat32.Fresh g v d (some old) newname

/-- The names of such a call are allowed where it creates them. -/
lemma Op.Fresh.allowed (hN : Named g v R) (hroot : Reach (subOf g v) R g.rootCluster)
    (hcwd : Reach (subOf g v) R E.cwd) {op : Op} (hfresh : op.Fresh g v E.cwd) :
    op.Allowed FreshIn g E v := by
  have hkill : ∀ {d name en K}, Reach (subOf g v) R d → en ∈ entries g v d →
      Fat32.Fresh g v d (some en) name → Marks E (dirSlots g v d) en.idx K →
      FreshIn (killAt K (dirSlots g v d)) name :=
    fun hd hen hf hK => hf.of_kill (hN.dirs _ hd) (hN.inv.tail _ hd) hen hK
  cases op with
  | write path data =>
    intro d name hres
    have hf := hfresh d name hres
    cases hold : lookup g v acceptFile d name with
    | none => exact (hold ▸ hf).freshIn
    | some en =>
      exact fun K hK => hkill (hN.inv.resolve_reach hroot hcwd hres) (lookup_mem hold).1
        (hold ▸ hf) hK
  | delete path => trivial
  | mkdir path => exact fun d name hres => (hfresh d name hres).freshIn
  | rename oldpath newname =>
    intro d name hres old hold K hK
    exact hkill (hN.inv.resolve_reach hroot hcwd hres) (lookup_mem hold).1
      (hfresh d name hres old hold) hK

/-! ### Runs -/

/-- No live directory shows two entries under names that match. -/
def NamesDistinct (g : Geom) (v : Vol) : Prop :=
  ∀ d, LiveDir g v d → DistinctNames (entries g v d)

/-- One call whose new name is fresh. -/
def FreshStep (g : Geom) (d d' : Disk) : Prop :=
  ∃ (op : Op) (s : State), op.Ok ∧ op.Fresh g (vol g d) s.cwdCluster ∧ s.disk = d ∧
    IoOk s ∧ LiveDir g (vol g d) s.cwdCluster ∧ d' = (op.run g s).2.disk

lemma Formatted.named (hg : g.Valid) (hf : Formatted g v) : Named g v [rootHead g] := by
  refine ⟨(hf.wellFormed hg).inv hg, ?_⟩
  rintro x ⟨loc, hr⟩
  obtain rfl : x = g.rootCluster := congrArg Head.cell (hf.ref hg hr).2
  have hzero : ∀ e ∈ dirSlots g v g.rootCluster, e = zeroSlot := by
    intro e he
    rw [hf.slots hg] at he
    exact List.eq_of_mem_replicate he
  refine ⟨tidy_of_no_lfn fun e he => by rw [hzero e he]; rfl, fun a ha => ?_⟩
  obtain ⟨hk, hl⟩ := mem_entries ha
  rw [hzero _ (List.mem_of_getElem? hk)] at hl
  cases hl

/-- One such call keeps the names apart. -/
lemma FreshStep.named (hg : g.Valid) {d d' : Disk} {X : List (Head ℕ)}
    (hN : Named g (vol g d) (rootHead g :: X)) (hs : FreshStep g d d') :
    ∃ Y, Named g (vol g d') (rootHead g :: Y) := by
  obtain ⟨op, s, hop, hfresh, rfl, hio, hcwd, rfl⟩ := hs
  have hallowed := hfresh.allowed (E := s.env False) hN ⟨.root 0, .root rfl⟩
    ((LiveDir.reach hcwd).append_roots X)
  obtain ⟨Y, hY⟩ := Op.everyDir dirOk_rule hg (named_iff.mp hN) hop hallowed hio hcwd
  exact ⟨Y, named_iff.mpr hY⟩

/-- **The names of each directory are distinct** from a freshly formatted volume on, in a
run in which every new name is fresh. -/
theorem distinctNames_of_run (hg : g.Valid) {d d' : Disk} (hf : Formatted g (vol g d))
    (hrun : Relation.ReflTransGen (FreshStep g) d d') : NamesDistinct g (vol g d') := by
  have hN : ∃ X, Named g (vol g d') (rootHead g :: X) := by
    induction hrun with
    | refl => exact ⟨[], hf.named hg⟩
    | tail _ hs ih =>
        obtain ⟨X, hX⟩ := ih
        exact hs.named hg hX
  obtain ⟨X, hX⟩ := hN
  exact fun x hx => (hX.dirs x (hx.reach.append_roots X)).distinct

/-- A directory made on a freshly formatted volume. -/
theorem distinctNames_of_run_small :
    NamesDistinct smallGeom (vol smallGeom
      ((Op.mkdir [0x44]).run smallGeom (smallState smallFormatted)).2.disk) := by
  have hres : resolve smallGeom (vol smallGeom smallFormatted) 2 [0x44]
      = some (2, [0x44]) := by decide +kernel
  have hnil : (entries smallGeom (vol smallGeom smallFormatted) 2).length = 0 := by
    decide +kernel
  have hrun : (runOf (dirSlots smallGeom (vol smallGeom smallFormatted) 2)
      (endIndex (dirSlots smallGeom (vol smallGeom smallFormatted) 2))).length = 0 := by
    decide +kernel
  have hfresh : (Op.mkdir [0x44]).Fresh smallGeom (vol smallGeom smallFormatted) 2 := by
    intro d name hres'
    obtain ⟨rfl, rfl⟩ := Prod.mk.inj (Option.some.inj (hres.symm.trans hres'))
    refine ⟨fun en hen => ?_, fun _ => List.length_eq_zero_iff.mp hrun⟩
    rw [List.length_eq_zero_iff.mp hnil] at hen
    cases hen
  exact distinctNames_of_run smallGeom_valid smallFormatted_formatted
    (.single ⟨.mkdir [0x44], smallState smallFormatted, by decide, hfresh, rfl, rfl,
      rootDir_live _, rfl⟩)

/-- **Two directories of one name**: `fat32_mkdir` does not look for the name. -/
theorem mkdir_twice :
    ¬ ∀ (g : Geom) (d d' : Disk), g.Valid → Formatted g (vol g d) →
      Relation.ReflTransGen (Step g) d d' → NamesDistinct g (vol g d') := by
  intro hall
  let d₁ := ((Op.mkdir [0x44]).run smallGeom (smallState smallFormatted)).2.disk
  let d₂ := ((Op.mkdir [0x44]).run smallGeom (smallState d₁)).2.disk
  have hd := hall smallGeom smallFormatted d₂ smallGeom_valid smallFormatted_formatted
    (.tail (.single ⟨.mkdir [0x44], smallState smallFormatted, by decide, rfl, rfl,
      rootDir_live _, rfl⟩)
      ⟨.mkdir [0x44], smallState d₁, by decide, rfl, rfl, rootDir_live _, rfl⟩)
  have hroot := hd 2 (rootDir_live _)
  have htwo : ∃ a ∈ entries smallGeom (vol smallGeom d₂) 2,
      ∃ b ∈ entries smallGeom (vol smallGeom d₂) 2,
        nameMatch a.display b.display = true ∧ a.idx ≠ b.idx := by decide +kernel
  obtain ⟨a, ha, b, hb, hm, hne⟩ := htwo
  exact hne (hroot a ha b hb hm)

end

end GordOS.Fat32
