/-
The chains of the live objects stay proper over every run.

* `Inv.resolve_reach`, `IsPath.last`: where a path leads, and its last component;
* `Inv.not_dot_of_hit`: only the names `.` and `..` find the entries `.` and `..`;
* `WriteEff.inv`, `DeleteEff.inv`, `RenameEff.inv`, `MkdirEff.inv`: the operations
  keep the invariant, with the objects they lose as additional roots;
* `Op`, `Step`: the calls of the driver, with any outcome of `kmalloc`;
* `chainsOk_of_run`: on a well-formed volume the chains are proper after every run;
* `chains_break_behind_stale_slot`: without that, a slot in use behind the end of a
  directory comes to life and shares its chain with another file.
-/
import Mathlib.Tactic
import GordOS.Fat32.Preserve

namespace GordOS.Fat32

open GordOS GordOS.Fallible

section

variable {g : Geom} {E : Env} {v w : Vol} {R : List (Head ℕ)} {d : ℕ} {en : Entry}

/-! ### Paths -/

lemma Inv.resolveDir_reach (hI : Inv g v R) (ds : List Name) :
    ∀ {c x : ℕ}, Reach (subOf g v) R c → resolveDir g v ds c = some x → Reach (subOf g v) R x := by
  induction ds with
  | nil =>
    intro c x hc hx
    obtain rfl : c = x := by simpa [resolveDir] using hx
    exact hc
  | cons n ds ih =>
    intro c x hc hx
    rw [resolveDir] at hx
    obtain ⟨en, hf, hx⟩ := Option.bind_eq_some_iff.mp hx
    have hw := List.find?_some hf
    rw [Entry.wanted, Bool.and_eq_true] at hw
    exact ih (hI.reach_target hc (List.mem_of_find?_eq_some hf) hw.1) hx

/-- A path leads to a directory that is reached. -/
lemma Inv.resolve_reach (hI : Inv g v R) (hroot : Reach (subOf g v) R g.rootCluster) {cwd : ℕ}
    (hcwd : Reach (subOf g v) R cwd) {path name : Name}
    (hr : resolve g v cwd path = some (d, name)) : Reach (subOf g v) R d := by
  obtain ⟨x, hx, heq⟩ := Option.map_eq_some_iff.mp hr
  obtain rfl : x = d := congrArg Prod.fst heq
  refine hI.resolveDir_reach _ ?_ hx
  rw [startDir]
  split_ifs
  · exact hroot
  · exact hcwd

lemma resolve_name {cwd : ℕ} {path name : Name} (hr : resolve g v cwd path = some (d, name)) :
    name = (pathParts path).2 := by
  obtain ⟨x, -, heq⟩ := Option.map_eq_some_iff.mp hr
  exact (congrArg Prod.snd heq).symm

lemma splitPath_last (p : Name) :
    (∀ c ∈ (splitPath p).2, c ∈ p) ∧ (splitPath p).2.length ≤ p.length := by
  induction p with
  | nil => simp [splitPath]
  | cons c cs ih =>
    rw [splitPath]
    rcases hs : splitPath cs with ⟨ds, last⟩
    rw [hs] at ih
    obtain ⟨h1, h2⟩ := ih
    simp only at h1 h2 ⊢
    split_ifs
    · exact ⟨fun x hx => List.mem_cons_of_mem _ (h1 x hx), by simp; omega⟩
    · cases ds with
      | nil =>
        refine ⟨fun x hx => ?_, by simpa using h2⟩
        rcases List.mem_cons.mp hx with rfl | hx
        · exact List.mem_cons_self
        · exact List.mem_cons_of_mem _ (h1 x hx)
      | cons y ys =>
        exact ⟨fun x hx => List.mem_cons_of_mem _ (h1 x hx), by simp; omega⟩

/-- The last component of a path is a path. -/
lemma IsPath.last {path : Name} (hp : IsPath path) : IsPath (pathParts path).2 := by
  rw [pathParts]
  split_ifs
  · obtain ⟨h1, h2⟩ := splitPath_last (path.drop 1)
    refine ⟨fun h => hp.1 (List.mem_of_mem_drop (h1 0 h)), ?_⟩
    have := hp.2
    rw [List.length_drop] at h2
    omega
  · obtain ⟨h1, h2⟩ := splitPath_last path
    exact ⟨fun h => hp.1 (h1 0 h), h2.trans hp.2⟩

/-! ### The entries `.` and `..` -/

/-- The names of the entries for a directory itself and its parent. -/
def IsDotName (name : Name) : Prop := name = [0x2E] ∨ name = [0x2E, 0x2E]

instance (name : Name) : Decidable (IsDotName name) :=
  inferInstanceAs (Decidable (_ ∨ _))

lemma nameMatch_dot {e : Slot} {name : Name} (hdot : e.isDot)
    (hm : nameMatch (sfnToName e) name = true) : IsDotName name := by
  have hup : ∀ {c : UInt8}, toUpper 0x2E = toUpper c → c = 0x2E := by
    intro c hc
    exact toUpper_eq_dot.mp (hc.symm.trans (by decide))
  rcases hdot with hd | hd
  · rw [hd] at hm
    match name, hm with
    | [c], hm =>
      simp only [nameMatch, Bool.and_true, beq_iff_eq] at hm
      rw [hup hm]
      exact Or.inl rfl
    | [], hm => simp [nameMatch] at hm
    | _ :: _ :: _, hm => simp [nameMatch] at hm
  · rw [hd] at hm
    match name, hm with
    | [a, b], hm =>
      simp only [nameMatch, Bool.and_true, Bool.and_eq_true, beq_iff_eq] at hm
      rw [hup hm.1, hup hm.2]
      exact Or.inr rfl
    | [], hm => simp [nameMatch] at hm
    | [_], hm => simp [nameMatch] at hm
    | _ :: _ :: _ :: _, hm => simp [nameMatch] at hm

lemma LfnState.reset_valid (st : LfnState) (e : Slot) : st.reset.valid e = false := by
  simp [LfnState.valid, LfnState.reset]

/-- An entry that no LFN slot precedes has no long name. -/
lemma long_eq_none (hen : en ∈ entries g v d)
    (hp : ∀ j e', en.idx = j + 1 → (dirSlots g v d)[j]? = some e' → e'.isLfn = false) :
    en.long = none := by
  obtain ⟨j, hj, h1, -, -, heq⟩ := mem_decodeFrom hen
  rw [Nat.zero_add] at hj
  rw [heq, entryAt]
  have hv : (((dirSlots g v d).take j).foldl lfnStep .init).valid en.slot = false := by
    cases j with
    | zero => simp [LfnState.valid, LfnState.init]
    | succ j =>
      have hlt := (List.getElem?_eq_some_iff.mp h1).1
      have hj' : (dirSlots g v d)[j]? = some (dirSlots g v d)[j] :=
        List.getElem?_eq_getElem (by omega)
      rw [List.take_add_one, hj', Option.toList_some, List.foldl_append,
        List.foldl_cons, List.foldl_nil, lfnStep, hp j _ hj hj']
      exact LfnState.reset_valid _ _
  rw [hv]
  rfl

/-- Only the names `.` and `..` find the entries `.` and `..`. -/
lemma Inv.not_dot_of_hit (hI : Inv g v R) (hd : Reach (subOf g v) R d) (hen : en ∈ entries g v d)
    {name : Name} (hh : en.hit name = true) (hn : ¬ IsDotName name) : ¬ en.slot.isDot := by
  intro hdot
  obtain ⟨h1, h2⟩ := mem_entries hen
  have hlong := long_eq_none hen (hI.dots d hd _ _ h1 h2 hdot).2.2
  rw [Entry.hit, hlong, Bool.false_or] at hh
  exact hn (nameMatch_dot hdot hh)

/-! ### The operations -/

lemma Slot.cluster_lt (e : Slot) : e.cluster < 2 ^ 32 := by
  have h1 := (e 26).toNat_lt
  have h2 := (e 27).toNat_lt
  have h3 := (e 20).toNat_lt
  have h4 := (e 21).toNat_lt
  rw [Slot.cluster]
  omega

section

variable (hg : g.Valid) (hI : Inv g v R) (hd : Reach (subOf g v) R d)
variable {name : Name} (hn : IsPath name) {data : List UInt8} {r : Option Unit}

include hg hI

lemma Replaced.inv (hd : Reach (subOf g v) R d) (hr : Replaced g E v d name w) :
    Inv g w R ∧ Reach (subOf g w) R d := by
  rcases hr with ⟨-, rfl⟩ | ⟨en, hf, hc⟩
  · exact ⟨hI, hd⟩
  · obtain ⟨hen, hacc, -⟩ := lookup_mem hf
    have hfile := acceptFile_isDir hacc
    exact ⟨hI.cleared hg hd hen hfile hc, (hI.cleared_reach hg hd hen hfile hc).mpr hd⟩

include hd hn

lemma WriteTail.inv (ht : WriteTail g E v d name data r w) : Inv g w R := by
  -- the new file is in its slot, or lost
  have hcreated : ∀ {v₁ : Vol} {a n : ℕ}, Inv g v₁ (R ++ [⟨a, false⟩]) →
      Reach (subOf g v₁) R d → a < 2 ^ 32 →
      Created g E v₁ d name a n attrArchive r w → Inv g w R := by
    intro v₁ a n hI₁ hd₁ ha hc
    rcases hc.inv hg hI₁ hd₁ hn ha rfl with h | h
    · exact h
    · exact h.dropRoot rfl
  cases ht with
  | empty _ hc => exact hcreated hI.addEmpty hd (by decide) hc
  | noMemory _ _ => exact hI
  | full _ hw _ => exact hI.frame hg (hI.wrote_same hw)
  | stored _ hw _ hchain hc =>
    have hs := hI.wrote_same hw
    refine hcreated (hI.wrote hg hw hchain) ((hs.reach_iff hg hI).mpr hd) ?_ hc
    exact (hchain.inRange _ (Chain.head_mem hchain)).lt hg

end

section

variable (hg : g.Valid) (hI : Inv g v R)
variable (hroot : Reach (subOf g v) R g.rootCluster)
variable (hcwd : Reach (subOf g v) R E.cwd) {path : Name} {r : Option Unit}

include hg hI hroot hcwd

lemma WriteEff.inv {data : List UInt8} (hp : IsPath (pathParts path).2)
    (he : WriteEff g E v path data r w) : Inv g w R := by
  cases he with
  | early _ => exact hI
  | write hres hrep ht =>
    have hd := hI.resolve_reach hroot hcwd hres
    obtain ⟨hI₁, hd₁⟩ := Replaced.inv hg hI hd hrep
    exact WriteTail.inv hg hI₁ hd₁ (resolve_name hres ▸ hp) ht

lemma DeleteEff.inv (he : DeleteEff g E v path r w) : Inv g w R := by
  cases he with
  | early _ => exact hI
  | delete hres hf hc =>
    have hd := hI.resolve_reach hroot hcwd hres
    obtain ⟨hen, hacc, -⟩ := lookup_mem hf
    exact hI.cleared hg hd hen (acceptFile_isDir hacc) hc

omit hg in
/-- The entry that a rename takes. -/
lemma Inv.old_entry {name : Name} (hres : resolve g v E.cwd path = some (d, name))
    (hf : lookup g v acceptAny d name = some en) (hold : ¬ IsDotName (pathParts path).2) :
    Reach (subOf g v) R d ∧ en ∈ entries g v d ∧ ¬ en.slot.isDot ∧
      slotHead en.slot = some ⟨en.slot.cluster, en.slot.isDir⟩ := by
  have hd := hI.resolve_reach hroot hcwd hres
  obtain ⟨hen, -, hhit⟩ := lookup_mem hf
  have hdot := hI.not_dot_of_hit hd hen hhit (resolve_name hres ▸ hold)
  exact ⟨hd, hen, hdot, if_pos ⟨(mem_entries hen).2, hdot⟩⟩

lemma RenameEff.inv {newname : Name} (hold : ¬ IsDotName (pathParts path).2)
    (hnew : IsPath newname) (he : RenameEff g E v path newname r w) :
    ∃ X, Inv g w (R ++ X) := by
  cases he with
  | early _ => exact ⟨[], by simpa using hI⟩
  | @rename d name en K _ _ hres hf hK hc =>
    obtain ⟨hd, hen, -, hhead⟩ := hI.old_entry hroot hcwd hres hf hold
    have hk := (mem_entries hen).1
    have hI₁ := hI.kill hg hd hk hK hhead
    rcases hc.inv hg hI₁ (hI.kill_reach hg hd hk hK hhead) hnew en.slot.cluster_lt rfl with h | h
    · exact ⟨[], by simpa using h⟩
    · exact ⟨_, h⟩

lemma MkdirEff.inv (hp : IsPath path) (he : MkdirEff g E v path r w) : ∃ X, Inv g w (R ++ X) := by
  cases he with
  | early _ => exact ⟨[], by simpa using hI⟩
  | @noMemory new _ hr h0 =>
    exact ⟨[], by simpa using hI.frame hg (hI.setNext_same h0 endMark)⟩
  | @mkdir d name new _ _ hres hr h0 hc =>
    have hd := hI.resolve_reach hroot hcwd hres
    have hI₁ := hI.newDir hg hr h0 hd
    have hd₁ := ((hI.newDir_same h0 d).reach_iff hg hI).mpr hd
    rcases hc.inv hg hI₁ hd₁ (resolve_name hres ▸ hp.last) (hr.lt hg) rfl
      with h | h
    · exact ⟨[], by simpa using h⟩
    · exact ⟨_, h⟩

end

end

/-! ### Runs -/

/-- The calls of the driver that change the volume. -/
inductive Op where
  | write (path : Name) (data : List UInt8)
  | delete (path : Name)
  | mkdir (path : Name)
  | rename (oldpath newname : Name)

/-- The call. -/
def Op.run (g : Geom) : Op → M Unit
  | .write path data => fat32WriteFile g path data
  | .delete path => fat32DeleteFile g path
  | .mkdir path => fat32Mkdir g path
  | .rename oldpath newname => fat32RenameFile g oldpath newname

/-- The arguments are strings the callers hand over, and the old name of a rename
is not `.` or `..`. -/
def Op.Ok : Op → Prop
  | .write path _ => IsPath path
  | .delete path => IsPath path
  | .mkdir path => IsPath path
  | .rename oldpath newname =>
    IsPath oldpath ∧ IsPath newname ∧ ¬ IsDotName (pathParts oldpath).2

instance : DecidablePred Op.Ok
  | .write path _ => inferInstanceAs (Decidable (IsPath path))
  | .delete path => inferInstanceAs (Decidable (IsPath path))
  | .mkdir path => inferInstanceAs (Decidable (IsPath path))
  | .rename oldpath newname => inferInstanceAs (Decidable
      (IsPath oldpath ∧ IsPath newname ∧ ¬ IsDotName (pathParts oldpath).2))

/-- One call on a volume: the current directory is live, the sector transfers
succeed, and each `kmalloc` call succeeds or fails. -/
def Step (g : Geom) (d d' : Disk) : Prop :=
  ∃ (op : Op) (s : State), op.Ok ∧ s.disk = d ∧ IoOk s ∧
    LiveDir g (vol g d) s.cwdCluster ∧ d' = (op.run g s).2.disk

section

variable {g : Geom} {d d' : Disk}

/-- What a state of the driver fixes during a call. -/
def State.env (s : State) (memOk : Prop) : Env := ⟨s.cwdCluster, s.cwdPath, memOk⟩

lemma IoOk.holds {s : State} (h : IoOk s) : (s.env False).Holds s :=
  ⟨h, rfl, rfl, False.elim⟩

/-- One call keeps the invariant. -/
lemma Step.inv (hg : g.Valid) {X : List (Head ℕ)}
    (hI : Inv g (vol g d) (rootHead g :: X)) (hs : Step g d d') :
    ∃ Y, Inv g (vol g d') (rootHead g :: Y) := by
  obtain ⟨op, s, hop, rfl, hio, hcwd, rfl⟩ := hs
  have hroot : Reach (subOf g (vol g s.disk)) (rootHead g :: X) g.rootCluster :=
    ⟨.root 0, .root rfl⟩
  have hcwd' : Reach (subOf g (vol g s.disk)) (rootHead g :: X) (s.env False).cwd :=
    (LiveDir.reach hcwd).append_roots X
  cases op with
  | write path data =>
    have h := (spec_writeFile hg hI hroot hcwd' path data s hio.holds rfl).2
    exact ⟨X, h.inv hg hI hroot hcwd' (IsPath.last hop)⟩
  | delete path =>
    have h := (spec_deleteFile hg hI hroot hcwd' path s hio.holds rfl).2
    exact ⟨X, h.inv hg hI hroot hcwd'⟩
  | mkdir path =>
    have h := (spec_mkdir hg hI hroot hcwd' path s hio.holds rfl).2
    obtain ⟨Y, hY⟩ := h.inv hg hI hroot hcwd' hop
    exact ⟨X ++ Y, hY⟩
  | rename oldpath newname =>
    have h := (spec_renameFile hg hI hroot hcwd' oldpath newname s hio.holds rfl).2
    obtain ⟨Y, hY⟩ := h.inv hg hI hroot hcwd' hop.2.2 hop.2.1
    exact ⟨X ++ Y, hY⟩

/-- Every run keeps the invariant. -/
lemma run_inv (hg : g.Valid) {X : List (Head ℕ)} (hI : Inv g (vol g d) (rootHead g :: X))
    (hrun : Relation.ReflTransGen (Step g) d d') :
    ∃ Y, Inv g (vol g d') (rootHead g :: Y) := by
  induction hrun with
  | refl => exact ⟨X, hI⟩
  | tail _ hs ih =>
    obtain ⟨Y, hY⟩ := ih
    exact hs.inv hg hY

/-- **The chains of the live objects** of a well-formed volume are proper after
every run of the driver. -/
theorem chainsOk_of_run (hg : g.Valid) (hw : WellFormed g (vol g d))
    (hrun : Relation.ReflTransGen (Step g) d d') : ChainsOk g (vol g d') := by
  obtain ⟨Y, hY⟩ := run_inv hg (hw.inv hg) hrun
  exact hY.chainsOk hg

/-! ### Small volumes -/

/-- A volume of six clusters of one sector, with the root directory in the first
of them. -/
def smallGeom : Geom := ⟨1, 1, 1, 8, 1, 2⟩

/-- The disk with some FAT entries and some clusters. -/
def smallDisk (fat : List ℕ) (clusters : ℕ → Buf) : Disk := fun lba o =>
  if lba = 1 then UInt8.ofNat (fat.getD (o / 4) 0 / 2 ^ (8 * (o % 4)))
  else clusters lba o

/-- The bytes of a directory cluster. -/
def dirBuf (es : List Slot) : Buf := fun a =>
  es.getD (a / 32) zeroSlot ⟨a % 32, Nat.mod_lt a (by decide)⟩

/-- The driver in the root directory of a disk, while all calls of `kmalloc` and
all transfers succeed. -/
def smallState (d : Disk) : State := ⟨d, 2, [0x2F], fun _ => true, fun _ => none, []⟩

lemma smallGeom_valid : smallGeom.Valid := by
  constructor <;> decide

lemma rootDir_live (v : Vol) : LiveDir smallGeom v 2 := ⟨.root 0, .root rfl⟩

/-- The freshly formatted small disk. -/
def smallFormatted : Disk := smallDisk [0, 0, endMark] fun _ _ => 0

lemma smallFormatted_formatted : Formatted smallGeom (vol smallGeom smallFormatted) where
  root := by decide
  eoc := by decide +kernel
  free := by
    intro c hc hne
    obtain ⟨h1, h2⟩ := hc
    have h3 : c < 8 := h2
    interval_cases c
    · exact absurd rfl hne
    all_goals decide +kernel
  empty := by
    rw [vol_data (by decide)]
    funext i
    simp only [clusterBuf, readSectors]
    split_ifs
    · have h1 : smallGeom.clusterToLba smallGeom.rootCluster + i / 512 ≠ 1 := by
        have : smallGeom.clusterToLba smallGeom.rootCluster = 2 := by decide
        omega
      simp [smallFormatted, smallDisk, h1, zeroBuf]
    · rfl

/-- Writing a file to a freshly formatted volume. -/
theorem chainsOk_of_run_small :
    ChainsOk smallGeom (vol smallGeom
      ((Op.write [0x41] [7]).run smallGeom (smallState smallFormatted)).2.disk) :=
  chainsOk_of_run smallGeom_valid
    (smallFormatted_formatted.wellFormed smallGeom_valid)
    (.single ⟨.write [0x41] [7], smallState smallFormatted, by decide, rfl, rfl,
      rootDir_live _, rfl⟩)

/-- A root directory with the file `A` in its first slot and, behind the `0x00`
slot that ends it, a slot in use with the same first cluster. -/
def staleDisk : Disk := smallDisk [0, 0, endMark, endMark] fun lba =>
  if lba = 2 then
    dirBuf [sfnSlot (pad 11 [0x41]) 3 1 attrArchive, zeroSlot,
      sfnSlot (pad 11 [0x42]) 3 1 attrArchive]
  else fun _ => 0

lemma staleDisk_live {loc : Loc ℕ} {h : Head ℕ}
    (hl : Live smallGeom (vol smallGeom staleDisk) loc h) :
    (loc = .root 0 ∧ h = ⟨2, true⟩) ∨ (loc = .slot 2 0 ∧ h = ⟨3, false⟩) := by
  induction hl with
  | @root j h hj =>
    obtain ⟨hlt, rfl⟩ := List.getElem?_eq_some_iff.mp hj
    have : j = 0 := by simpa using hlt
    subst this
    exact Or.inl ⟨rfl, rfl⟩
  | @slot p d i h _ hi ih =>
    rcases ih with ⟨-, heq⟩ | ⟨-, heq⟩
    · obtain rfl : d = 2 := congrArg Head.cell heq
      obtain ⟨en, hen, rfl, hh⟩ := liveSub_eq_some hi
      have hall : ∀ en ∈ entries smallGeom (vol smallGeom staleDisk) 2,
          en.idx = 0 ∧ slotHead en.slot = some ⟨3, false⟩ := by decide +kernel
      obtain ⟨h1, h2⟩ := hall en hen
      rw [h2, Option.some.injEq] at hh
      exact Or.inr ⟨by rw [h1], hh.symm⟩
    · exact absurd (congrArg Head.isDir heq) (by simp)

lemma staleDisk_chainsOk : ChainsOk smallGeom (vol smallGeom staleDisk) := by
  have h2 : IsChain smallGeom (vol smallGeom staleDisk) 2 [2] :=
    Chain.last (by decide) (by decide +kernel)
  have h3 : IsChain smallGeom (vol smallGeom staleDisk) 3 [3] :=
    Chain.last (by decide) (by decide +kernel)
  have hg := smallGeom_valid
  refine ⟨fun loc h hl _ => ?_, fun loc h loc' h' l l' hl hl' hne hc hc' => ?_⟩
  · rcases staleDisk_live hl with ⟨-, rfl⟩ | ⟨-, rfl⟩
    · exact ⟨_, h2, h2.nodup hg, h2.inRange, h2.next_ne_zero⟩
    · exact ⟨_, h3, h3.nodup hg, h3.inRange, h3.next_ne_zero⟩
  · rcases staleDisk_live hl with ⟨rfl, rfl⟩ | ⟨rfl, rfl⟩ <;>
      rcases staleDisk_live hl' with ⟨rfl, rfl⟩ | ⟨rfl, rfl⟩
    · exact absurd rfl hne
    · rw [hc.unique hg h2, hc'.unique hg h3]
      simp
    · rw [hc.unique hg h3, hc'.unique hg h2]
      simp
    · exact absurd rfl hne

/-- **A slot in use behind the end of a directory** comes to life when an entry is
created, and shares its chain with another file. -/
theorem chains_break_behind_stale_slot :
    ¬ ∀ (g : Geom) (d d' : Disk), g.Valid → ChainsOk g (vol g d) →
      Relation.ReflTransGen (Step g) d d' → ChainsOk g (vol g d') := by
  intro hall
  -- the creation of the empty file `C`
  have hok := hall smallGeom staleDisk _ smallGeom_valid staleDisk_chainsOk
    (.single ⟨.write [0x43] [], smallState staleDisk, by decide, rfl, rfl,
      rootDir_live _, rfl⟩)
  set v := vol smallGeom
    ((Op.write [0x43] []).run smallGeom (smallState staleDisk)).2.disk with hv
  have hA : Live smallGeom v (.slot 2 0) ⟨3, false⟩ :=
    .slot (.root (j := 0) rfl) (by decide +kernel)
  have hB : Live smallGeom v (.slot 2 2) ⟨3, false⟩ :=
    .slot (.root (j := 0) rfl) (by decide +kernel)
  have h3 : IsChain smallGeom v 3 [3] := Chain.last (by decide) (by decide +kernel)
  exact hok.disjoint _ _ _ _ _ _ hA hB (by decide) h3 h3 (List.mem_singleton_self 3)
    (List.mem_singleton_self 3)

end

end GordOS.Fat32
