/-
The directories form a tree as long as no call is about the names `.` and `..`.

* `runState`, `LfnState.Plain`: the decoder behind a run of LFN slots, and that it holds
  neither `.` nor `..`;
* `Undotted`: no entry of a directory has a long name `.` or `..`, nor is one left at its
  end, and slot 1 is not `.`; `undotted_rule`: the ways a directory changes keep it;
* `DirTree`: every directory other than the root has one entry, not shown as `.` or `..`,
  that leads to it, and its slot 1 is `..` and leads back;
* `dirTree_of_run`: **the directories form a tree** in every run whose calls have no `.` or
  `..` as a new name or as the old name of a rename;
* `rename_takes_dotdot`: without it `fat32_rename_file` takes the `..` out of a directory.
-/
import Mathlib.Tactic
import GordOS.Fat32.Cwd

namespace GordOS.Fat32

open GordOS GordOS.Fallible

/-! ### Long names -/

/-- The decoder behind the run of LFN slots before index `k`. -/
def runState (ss : List Slot) (k : ℕ) : LfnState := (runOf ss k).foldl lfnStep .init

/-- The decoder does not hold a complete name `.` or `..`. -/
def LfnState.Plain (st : LfnState) : Prop :=
  st.remain = 0 → st.buf 0 ≠ 0 → ¬ IsDotName (st.name.take 254)

lemma LfnState.plain_of_buf {st : LfnState} (h : st.buf 0 = 0) : st.Plain :=
  fun _ hne => absurd h hne

lemma lfnAscii_eq_dot {c : UInt8} (h : lfnAscii c = 0x2E) : c = 0x2E := by
  rw [lfnAscii] at h
  split_ifs at h
  · exact h
  · cases h

/-- The long name of a new entry is not `.` or `..` unless the name is. -/
lemma not_isDotName_ascii {name : Name} (h : ¬ IsDotName name) :
    ¬ IsDotName ((name.map lfnAscii).take 254) := by
  rw [← List.map_take]
  have hback : ∀ l : Name, l.length < 254 → (name.take 254).map lfnAscii = l →
      name.map lfnAscii = l := by
    intro l hl heq
    have hlen := congrArg List.length heq
    rw [List.length_map, List.length_take] at hlen
    rwa [List.take_of_length_le (by omega)] at heq
  rintro (hd | hd)
  · obtain ⟨a, rfl, ha⟩ := List.map_eq_singleton_iff.mp (hback _ (by decide) hd)
    rw [lfnAscii_eq_dot ha] at h
    exact h (Or.inl rfl)
  · have heq := hback _ (by decide) hd
    match name, heq, h with
    | [a, b], heq, h =>
      simp only [List.map_cons, List.map_nil, List.cons.injEq, and_true] at heq
      rw [lfnAscii_eq_dot heq.1, lfnAscii_eq_dot heq.2] at h
      exact h (Or.inr rfl)
    | [], heq, _ => cases heq
    | [_], heq, _ => simp at heq
    | _ :: _ :: _ :: _, heq, _ => simp at heq

/-- The first LFN slots of a new entry, behind whatever stands before them. -/
lemma plain_writeLfnEntries {name : Name} (hp : IsPath name) (hn : ¬ IsDotName name)
    {st : LfnState} (hst : st.Plain) (chk : UInt8) {m : ℕ} (hm : m ≤ lfnEntriesNeeded name) :
    (((writeLfnEntries name chk (lfnEntriesNeeded name)).take m).foldl lfnStep st).Plain := by
  rcases Nat.eq_zero_or_pos m with rfl | hpos
  · exact hst
  rcases hm.eq_or_lt with rfl | hlt
  · -- the whole name
    have hlen : (writeLfnEntries name chk (lfnEntriesNeeded name)).length
        = lfnEntriesNeeded name := by simp [writeLfnEntries]
    rw [List.take_of_length_le hlen.le, foldl_writeLfnEntries hp chk (by omega)]
    intro _ _
    rw [lfnState_name hp]
    exact not_isDotName_ascii hn
  · -- slots are missing
    obtain ⟨j, rfl⟩ : ∃ j, m = j + 1 := ⟨m - 1, by omega⟩
    rw [writeLfnEntries, ← List.map_take, List.take_range, Nat.min_eq_left hm,
      foldl_lfnSlots hp chk (lfnEntriesNeeded_le hp.2) st j (by omega)]
    intro hrem
    simp only at hrem
    omega

/-! ### The slots of one directory -/

/-- No entry has the long name `.` or `..`, no such name is left at the end, and an entry `.`
or `..` in slot 1 is `..`. -/
structure Undotted (ss : List Slot) : Prop where
  tidy : Tidy ss
  runs : ∀ i e, ss[i]? = some e → e.live = true → (runState ss i).Plain
  last : (runState ss (endIndex ss)).Plain
  up : ∀ e : Slot, ss[1]? = some e → e.live = true → e.isDot → sfnToName e = [0x2E, 0x2E]

section

variable {E : Env} {ss ss' : List Slot} {k : ℕ} {K : List ℕ} {e : Slot}
variable {name : Name} {c z : ℕ} {a : UInt8} {n : ℕ}

lemma Undotted.killAt (h : Undotted ss)
    (ht : ∀ i e, ss[i]? = some e → endIndex ss ≤ i → e 0 = 0) (hM : Marks E ss k K)
    (hk : ss[k]? = some e) (hl : e.live = true) (hd : ¬ e.isDot) (hlt : k < endIndex ss) :
    Undotted (killAt K ss) where
  tidy := h.tidy.killAt hM hk hl hlt
  runs i e' hi hl' := by
    rw [killAt_getElem?] at hi
    obtain ⟨b, hb, rfl⟩ := Option.map_eq_some_iff.mp hi
    by_cases hiK : i ∈ K
    · rw [if_pos hiK, Slot.dead_live] at hl'
      cases hl'
    · rw [if_neg hiK] at hl'
      have hne : i ≠ k := fun heq => hiK (heq ▸ hM.self)
      rw [runState, runOf_killAt hM hk hl (List.getElem?_eq_some_iff.mp hb).1.le
        (hM.outside hk hb hl' hne).2]
      exact h.runs i b hb hl'
  last := by
    rw [endIndex_killAt hM hlt, runState,
      runOf_killAt hM hk hl (endIndex_le_length ss) (Or.inr hlt)]
    exact h.last
  up e' he' hl' hd' :=
    h.up e' (((SlotStep.kill hM hk hl hd hlt).dot_iff ht hl' hd').mp he') hl' hd'

/-- The decoder behind the first new slots. -/
lemma Undotted.plain_mid (h : Undotted ss) (hp : IsPath name) (hn : ¬ IsDotName name)
    (hG : Grown ss (entrySlots name c z a) n ss') {m : ℕ} (hm : m ≤ n)
    (hm' : m < (entrySlots name c z a).length) :
    (runState ss' (endIndex ss + m)).Plain := by
  have hlen : (writeLfnEntries name (sfnChecksum (newSfn name)) (lfnEntriesNeeded name)).length
      = lfnEntriesNeeded name := by simp [writeLfnEntries]
  have hm₀ : m ≤ lfnEntriesNeeded name := by
    rw [entrySlots, List.length_append, hlen, List.length_singleton] at hm'
    omega
  rw [runState, hG.runOf_mid (entrySlots_spec hp c z a) hm hm', List.foldl_append, entrySlots,
    List.take_append_of_le_length (by omega)]
  exact plain_writeLfnEntries hp hn h.last _ hm₀

lemma Undotted.grown (h : Undotted ss)
    (ht : ∀ i e, ss[i]? = some e → endIndex ss ≤ i → e 0 = 0) (hp : IsPath name)
    (ha : a ≠ 0x0F) (hn : ¬ IsDotName name) (hG : Grown ss (entrySlots name c z a) n ss') :
    Undotted ss' := by
  have hs := entrySlots_spec hp c z a
  have hle := hG.le
  have hpos := List.length_pos_iff.mpr hs.ne_nil
  refine ⟨h.tidy.grown hp ha hG, fun i e he hl => ?_, ?_, fun e he hl hd =>
    h.up e (((SlotStep.grow (E := ⟨0, [], False⟩) hp ha hG).dot_iff ht hl hd).mp he) hl hd⟩
  · rcases Nat.lt_or_ge i (endIndex ss) with hi | hi
    · rw [runState, runOf_prefix fun j hj => hG.lt j (by omega)]
      exact h.runs i e (by rw [← hG.lt i hi]; exact he) hl
    · obtain ⟨j, rfl⟩ := Nat.exists_eq_add_of_le hi
      have hj : j < n := by
        by_contra hge
        exact Slot.ne_zero_of_live hl (hG.ge _ e (by omega) he)
      exact h.plain_mid hp hn hG hj.le (by omega)
  · rw [hG.endIndex_eq hs]
    rcases hle.eq_or_lt with heq | hlt
    · -- the entry is complete, so no run is left behind it
      obtain ⟨m, rfl⟩ : ∃ m, n = m + 1 := ⟨n - 1, by omega⟩
      have hlast : ss'[endIndex ss + m]? = some (sfnSlot (newSfn name) c z a) := by
        rw [hG.mid m (by omega), ← hs.last, List.getLast?_eq_getElem?, ← heq, Nat.add_sub_cancel]
      have hsl : (sfnSlot (newSfn name) c z a).isLfn = false := by
        have hattr : (sfnSlot (newSfn name) c z a).attr = a := rfl
        simp [Slot.isLfn, hattr, ha]
      rw [runState, ← Nat.add_assoc, runOf_succ hlast, hsl]
      exact LfnState.plain_of_buf rfl
    · exact h.plain_mid hp hn hG le_rfl hlt

end

section

variable {g : Geom} {v : Vol} {X Y : List (Head ℕ)} {d : ℕ} {en : Entry}

/-- A directory without long names. -/
lemma undotted_of_no_lfn {ss : List Slot} (h : ∀ e ∈ ss, e.isLfn = false)
    (hup : ∀ e : Slot, ss[1]? = some e → e.live = true → e.isDot → sfnToName e = [0x2E, 0x2E]) :
    Undotted ss := by
  have hplain : ∀ k, (runState ss k).Plain := fun k => by
    rw [runState, runOf_eq_nil h k]
    exact LfnState.plain_of_buf rfl
  exact ⟨tidy_of_no_lfn h, fun i _ _ _ => hplain i, hplain _, hup⟩

/-- The ways a directory changes keep its names from being `.` or `..`. -/
lemma undotted_rule : DirRule (fun _ name => ¬ IsDotName name) Undotted where
  kill h ht hM hk hl hd hlt := h.killAt ht hM hk hl hd hlt
  grow h ht hp ha hn hG := h.grown ht hp ha hn hG
  new hg hr p := undotted_of_no_lfn (newDir_no_lfn hg hr p) fun e he _ _ => by
    rw [newDir_slot hg hr p he]
    rfl

/-- An entry is shown as `.` or `..` if that is its short name, and not otherwise. -/
lemma Undotted.display_iff (hI : Inv g v X) (hd : Reach (subOf g v) X d)
    (h : Undotted (dirSlots g v d)) (hen : en ∈ entries g v d) :
    IsDotName en.display ↔ en.slot.isDot := by
  obtain ⟨hk, hl⟩ := mem_entries hen
  by_cases hdot : en.slot.isDot
  · have hlong := long_eq_none hen (hI.dots d hd _ _ hk hl hdot).2.2
    rw [Entry.display, hlong]
    exact Iff.rfl
  · refine iff_of_false ?_ hdot
    obtain ⟨-, hse⟩ := mem_decode.mp hen
    have heq : en = entryAt en.idx en.slot (runState (dirSlots g v d) en.idx) := by
      rw [slotEntry_of_live hk hl, Option.some.injEq] at hse
      conv_lhs => rw [← hse]
      exact entryAt_run (List.getElem?_eq_some_iff.mp hk).1.le (h.tidy.1 _ _ hk hl) _ _
    have hplain := h.runs _ _ hk hl
    rw [heq, entryAt, Entry.display]
    by_cases hv : (runState (dirSlots g v d) en.idx).valid en.slot = true
    · rw [if_pos hv]
      rw [LfnState.valid, Bool.and_eq_true, Bool.and_eq_true, bne_iff_ne, beq_iff_eq] at hv
      exact hplain hv.1.2 hv.1.1
    · rw [if_neg hv]
      exact hdot

/-! ### The tree -/

/-- **The directories form a tree**: every live directory other than the root is led to by
exactly one live entry that is not shown as `.` or `..`, and its second slot is the entry
`..`, which leads to the directory that holds this entry. -/
def DirTree (g : Geom) (v : Vol) : Prop :=
  ∀ x, LiveDir g v x → x ≠ g.rootCluster →
    ∃ d, LiveDir g v d ∧ ∃ en ∈ entries g v d,
      ¬ IsDotName en.display ∧ en.slot.isDir = true ∧ en.slot.target g = x ∧
      (∀ d', LiveDir g v d' → ∀ en' ∈ entries g v d', ¬ IsDotName en'.display →
        en'.slot.target g = x → d' = d ∧ en' = en) ∧
      ∃ e : Slot, (dirSlots g v x)[1]? = some e ∧ e.live = true ∧
        sfnToName e = [0x2E, 0x2E] ∧ e.target g = d

lemma Slot.cluster_of_target {e : Slot} {x : ℕ} (h : e.target g = x) (hx : x ≠ g.rootCluster) :
    e.cluster = x ∧ e.cluster ≠ 0 := by
  rw [Slot.target] at h
  split_ifs at h with h0
  · exact absurd h.symm hx
  · exact ⟨h, h0⟩

/-- The tree from the invariants of the driver. -/
lemma TreeInv.dirTree (hT : TreeInv g v (rootHead g :: X))
    (hD : EveryDir Undotted g v (rootHead g :: Y)) : DirTree g v := by
  intro x hx hne
  have hI := hT.inv
  obtain ⟨loc, hr⟩ := hx.reach
  cases hr with
  | @root j _ hj =>
    obtain ⟨hlt, heq⟩ := List.getElem?_eq_some_iff.mp hj
    obtain rfl : j = 0 := by simpa using hlt
    exact absurd (congrArg Head.cell heq).symm hne
  | @slot p d i _ hp hi =>
    have hd : Reach (subOf g v) [rootHead g] d := ⟨p, hp⟩
    have hr : Ref (subOf g v) (rootHead g :: X) (.slot d i) ⟨x, true⟩ :=
      (Ref.slot hp hi).append_roots X
    obtain ⟨e, he, hhead⟩ := Option.bind_eq_some_iff.mp hi
    have hl := Slot.live_of_head hhead
    have hdot := Slot.not_dot_of_head hhead
    rw [slotHead, if_pos ⟨hl, hdot⟩, Option.some.injEq, Head.mk.injEq] at hhead
    obtain ⟨en, hen, rfl, rfl⟩ := entry_of_slot he hl
      (lt_endIndex_of_live (hI.tail d (hd.append_roots X)) he hl)
    have hx0 : x ≠ 0 := by
      have := ((hI.chain _ _ hr (Or.inl rfl)).inRange _ (hI.cell_mem hr (Or.inl rfl))).1
      simp only at this
      omega
    have htarget : en.slot.target g = x := by
      rw [Slot.target, hhead.1, if_neg hx0]
    have hshown : ∀ {d' en'}, LiveDir g v d' → en' ∈ entries g v d' →
        (IsDotName en'.display ↔ en'.slot.isDot) := fun hd' hen' =>
      (hD.dirs _ (hd'.reach.append_roots Y)).display_iff hI (hd'.reach.append_roots X) hen'
    refine ⟨d, hI.liveDir hd, en, hen, fun h => hdot ((hshown (hI.liveDir hd) hen).mp h),
      hhead.2, htarget, fun d' hd' en' hen' hdot' htarget' => ?_, ?_⟩
    · obtain ⟨hc, hc0⟩ := Slot.cluster_of_target htarget' hne
      have hr' := ref_entry (hd'.reach.append_roots X) hen' fun h => hdot' ((hshown hd' hen').mpr h)
      -- two locations would share the first cluster of the directory
      have hloc : (Loc.slot d' en'.idx : Loc ℕ) = .slot d en.idx := by
        by_contra hloc
        have h1 := hI.cell_mem hr' (Or.inr hc0)
        have h2 := hI.cell_mem hr (Or.inl rfl)
        exact hI.sep _ _ _ _ hr' hr hloc (hc ▸ h1) h2
      obtain ⟨rfl, hidx⟩ := Loc.slot.inj hloc
      exact ⟨rfl, entry_eq_of_idx hen' hen hidx⟩
    · obtain ⟨e', he', hl', hd', hup⟩ := (hT.homes d en.idx x hr).up
      have hx' : Reach (subOf g v) (rootHead g :: Y) x := hx.reach.append_roots Y
      exact ⟨e', he', hl', (hD.dirs x hx').up e' he' hl' hd', hup⟩

/-! ### Runs -/

/-- The arguments are strings the callers hand over. -/
def Op.Strings : Op → Prop
  | .write path _ => IsPath path
  | .delete path => IsPath path
  | .mkdir path => IsPath path
  | .rename oldpath newname => IsPath oldpath ∧ IsPath newname

instance : DecidablePred Op.Strings
  | .write path _ => inferInstanceAs (Decidable (IsPath path))
  | .delete path => inferInstanceAs (Decidable (IsPath path))
  | .mkdir path => inferInstanceAs (Decidable (IsPath path))
  | .rename oldpath newname =>
    inferInstanceAs (Decidable (IsPath oldpath ∧ IsPath newname))

/-- The names that a call creates, and the one that a rename looks for, are not `.` or
`..`. -/
def Op.Undotted : Op → Prop
  | .write path _ => ¬ IsDotName (pathParts path).2
  | .delete _ => True
  | .mkdir path => ¬ IsDotName (pathParts path).2
  | .rename oldpath newname => ¬ IsDotName (pathParts oldpath).2 ∧ ¬ IsDotName newname

instance : DecidablePred Op.Undotted
  | .write path _ => inferInstanceAs (Decidable (¬ IsDotName (pathParts path).2))
  | .delete _ => inferInstanceAs (Decidable True)
  | .mkdir path => inferInstanceAs (Decidable (¬ IsDotName (pathParts path).2))
  | .rename oldpath newname => inferInstanceAs
      (Decidable (¬ IsDotName (pathParts oldpath).2 ∧ ¬ IsDotName newname))

/-- One call from a live directory, with transfers that succeed. -/
def TextStep (g : Geom) (d d' : Disk) : Prop :=
  ∃ (op : Op) (s : State), op.Strings ∧ s.disk = d ∧ IoOk s ∧
    LiveDir g (vol g d) s.cwdCluster ∧ d' = (op.run g s).2.disk

/-- One such call that is not about the names `.` and `..`. -/
def UndottedStep (g : Geom) (d d' : Disk) : Prop :=
  ∃ (op : Op) (s : State), op.Strings ∧ op.Undotted ∧ s.disk = d ∧ IoOk s ∧
    LiveDir g (vol g d) s.cwdCluster ∧ d' = (op.run g s).2.disk

lemma Op.Undotted.ok {op : Op} (hs : op.Strings) (hu : op.Undotted) : op.Ok := by
  cases op with
  | write path data => exact hs
  | delete path => exact hs
  | mkdir path => exact hs
  | rename oldpath newname => exact ⟨hs.1, hs.2, hu.1⟩

lemma Op.Undotted.allowed {op : Op} (hu : op.Undotted) (E : Env) :
    op.Allowed (fun _ name => ¬ IsDotName name) g E v := by
  cases op with
  | write path data =>
    intro d name hres
    rw [resolve_name hres]
    cases lookup g v acceptFile d (pathParts path).2 with
    | none => exact hu
    | some en => exact fun _ _ => hu
  | delete path => trivial
  | mkdir path =>
    intro d name hres
    rw [resolve_name hres]
    exact hu
  | rename oldpath newname => exact fun _ _ _ _ _ _ _ => hu.2

/-- What holds behind every such call. -/
def TreeRun (g : Geom) (v : Vol) : Prop :=
  (∃ X, TreeInv g v (rootHead g :: X)) ∧ ∃ Y, EveryDir Undotted g v (rootHead g :: Y)

lemma UndottedStep.treeRun (hg : g.Valid) {d d' : Disk} (h : TreeRun g (vol g d))
    (hs : UndottedStep g d d') : TreeRun g (vol g d') := by
  obtain ⟨op, s, hstr, hu, rfl, hio, hcwd, rfl⟩ := hs
  obtain ⟨⟨X, hT⟩, Y, hD⟩ := h
  have hok := hu.ok hstr
  obtain ⟨-, ⟨X', hT'⟩, -⟩ := Op.outcome hg hT hok hio hcwd.reach
  exact ⟨⟨X ++ X', hT'⟩, Op.everyDir undotted_rule hg hD hok (hu.allowed _) hio hcwd⟩

lemma Formatted.treeRun (hg : g.Valid) (hf : Formatted g v) : TreeRun g v := by
  refine ⟨⟨[], (hf.properTree hg).treeInv hg⟩, [], (hf.wellFormed hg).inv hg, ?_⟩
  rintro x ⟨loc, hr⟩
  obtain rfl : x = g.rootCluster := congrArg Head.cell (hf.ref hg hr).2
  have hzero : ∀ e ∈ dirSlots g v g.rootCluster, e = zeroSlot := by
    intro e he
    rw [hf.slots hg] at he
    exact List.eq_of_mem_replicate he
  refine undotted_of_no_lfn (fun e he => by rw [hzero e he]; rfl) fun e he hl => ?_
  rw [hzero e (List.mem_of_getElem? he)] at hl
  cases hl

/-- **The directories form a tree** from a freshly formatted volume on, in every run whose
calls have no `.` or `..` as a new name or as the old name of a rename. -/
theorem dirTree_of_run (hg : g.Valid) {d d' : Disk} (hf : Formatted g (vol g d))
    (hrun : Relation.ReflTransGen (UndottedStep g) d d') : DirTree g (vol g d') := by
  have h : TreeRun g (vol g d') := by
    induction hrun with
    | refl => exact hf.treeRun hg
    | tail _ hs ih => exact hs.treeRun hg ih
  obtain ⟨⟨X, hT⟩, Y, hD⟩ := h
  exact hT.dirTree hD

end

/-- The small volume with the directory `D`. -/
def madeDisk : Disk := ((Op.mkdir [0x44]).run smallGeom (smallState smallFormatted)).2.disk

/-- A directory made on a freshly formatted volume. -/
theorem dirTree_of_run_small : DirTree smallGeom (vol smallGeom madeDisk) :=
  dirTree_of_run smallGeom_valid smallFormatted_formatted
    (.single ⟨.mkdir [0x44], smallState smallFormatted, by decide, by decide, rfl, rfl,
      rootDir_live _, rfl⟩)

/-- `D/..` renamed to `X`. -/
def renamedUpDisk : Disk :=
  ((Op.rename [0x44, 0x2F, 0x2E, 0x2E] [0x58]).run smallGeom (smallState madeDisk)).2.disk

/-- **`fat32_rename_file` takes the `..` out of a directory**: behind
`rename("D/..", "X")` the second slot of `D` is deleted. -/
theorem rename_takes_dotdot :
    ¬ ∀ (g : Geom) (d d' : Disk), g.Valid → Formatted g (vol g d) →
      Relation.ReflTransGen (TextStep g) d d' → DirTree g (vol g d') := by
  intro hall
  have htree := hall smallGeom smallFormatted renamedUpDisk smallGeom_valid
    smallFormatted_formatted
    (.tail (.single ⟨.mkdir [0x44], smallState smallFormatted, by decide, rfl, rfl,
      rootDir_live _, rfl⟩)
      ⟨.rename [0x44, 0x2F, 0x2E, 0x2E] [0x58], smallState madeDisk, by decide, rfl, rfl,
        rootDir_live _, rfl⟩)
  have hD : LiveDir smallGeom (vol smallGeom renamedUpDisk) 3 :=
    ⟨.slot 2 0, .slot (.root (j := 0) rfl) (by decide +kernel)⟩
  obtain ⟨d, -, en, -, -, -, -, -, e, he, hl, -⟩ := htree 3 hD (by decide)
  have hdead : ((dirSlots smallGeom (vol smallGeom renamedUpDisk) 3)[1]?).all
      (fun e => !e.live) = true := by decide +kernel
  rw [he, Option.all_some, hl] at hdead
  cases hdead

end GordOS.Fat32
