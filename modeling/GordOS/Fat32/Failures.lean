/-
Failing calls in the FAT32 driver.

Most functions begin with a search that only reads; what fails there is an early return.
The returns of the calls behind it are looked at here and there only.

* `SearchEnd`, `dirSearchEnd`: how the search of `dir_write_entries` for a free slot ends;
* `dirWriteEntries_stuck`: **a search that is cut short changes nothing** on a volume
  without free clusters; `cut_search_grows`;
* `Calming`: changes of the coming outcomes that leave alone what succeeded;
  `steady_search`: the search of write, delete and rename finds the same then;
* `freed_not_referenced`: **no live entry leads to a free cluster** after write and delete,
  if transfers fail during the search only; `delete_keeps_entry`;
* `rename_failed`: **a rename that fails changes nothing**, if there is memory and room for
  the new entry; `rename_loses_file`.
-/
import Mathlib.Tactic
import GordOS.Fat32.Scans
import GordOS.Fat32.Leaks

namespace GordOS.Fat32

open GordOS GordOS.Fallible

/-! ### The search for a free slot -/

/-- How the search of `dir_write_entries` ends: at a `0x00` slot, behind the last cluster,
at the limit on the length of a chain, or at a cluster that cannot be read. -/
inductive SearchEnd where
  | slot
  | full
  | limit
  | unread
  deriving DecidableEq, Repr

section

variable (g : Geom)

/-- The way the search of `dir_write_entries` takes, with the steps left before the chain
limit: its end. -/
def dirSearchEnd : ℕ → ℕ → M SearchEnd
  | 0, c => pure (if 2 ≤ c ∧ c < eoc then .limit else .full)
  | steps + 1, c =>
    if 2 ≤ c ∧ c < eoc then do
      match ← attempt (readCluster g c) with
      | none => pure .unread
      | some b =>
        match firstZero (slotsOf g.entriesPerCluster b) with
        | some _ => pure .slot
        | none => do
          let next ← fatNextCluster g c
          dirSearchEnd steps next
    else pure .full

end

section

variable {g : Geom}

/-- The search only reads, and finds a slot only when it ends at one. -/
lemma dirFindStart_end (n : ℕ) : ∀ (c prev : ℕ) (s : State), ∃ r e s',
    dirFindStart g n c prev s = (some r, s') ∧ dirSearchEnd g n c s = (some e, s') ∧
      Quiet s s' ∧ (e ≠ .slot → ∃ p, r = .inl p) := by
  induction n with
  | zero => exact fun c prev s => ⟨_, _, s, rfl, rfl, .refl s, fun _ => ⟨prev, rfl⟩⟩
  | succ n ih =>
    intro c prev s
    rw [dirFindStart, dirSearchEnd]
    split
    · obtain ⟨s₁, r, hread, hq, -, -⟩ := readCluster_any (g := g) c s
      rw [bind_of_some (attempt_of_eq hread), bind_of_some (attempt_of_eq hread)]
      cases r with
      | none => exact ⟨_, _, s₁, rfl, rfl, hq, fun _ => ⟨prev, rfl⟩⟩
      | some b =>
        dsimp only
        cases firstZero (slotsOf g.entriesPerCluster b) with
        | some i => exact ⟨_, _, s₁, rfl, rfl, hq, fun h => absurd rfl h⟩
        | none =>
          obtain ⟨s₂, next, hnext, hq₂, -, -⟩ := fatNextCluster_any (g := g) c s₁
          dsimp only
          rw [bind_of_some hnext, bind_of_some hnext]
          obtain ⟨r, e, s₃, hfind, hend, hq₃, hslot⟩ := ih next c s₂
          exact ⟨r, e, s₃, hfind, hend, (hq.trans hq₂).trans hq₃, hslot⟩
    · exact ⟨_, _, s, rfl, rfl, .refl s, fun _ => ⟨prev, rfl⟩⟩

/-- Without free clusters the search for one only reads. -/
lemma fatAllocLoop_full (n : ℕ) : ∀ (c : ℕ) (s : State), IoOk s →
    (∀ x, c ≤ x → x < c + n → fatEntry g s.disk x ≠ 0) →
    ∃ s', fatAllocLoop g n c s = (some 0, s') ∧ Quiet s s' := by
  induction n with
  | zero => exact fun c s _ _ => ⟨s, rfl, .refl s⟩
  | succ n ih =>
    intro c s hio hfull
    have hq : Quiet s (s.noted (.next c)) := .noted s rfl
    rw [fatAllocLoop, bind_of_some (fatNextCluster_eq hio c), if_neg (hfull c le_rfl (by omega))]
    obtain ⟨s', hrun, hq'⟩ := ih (c + 1) (s.noted (.next c)) (hio.noted _)
      fun x hx hlt => hfull x (by omega) (by omega)
    exact ⟨s', hrun, hq.trans hq'⟩

end

/-- The root directory is its own successor and has no `0x00` slot; the other clusters have
the FAT entry given. -/
def endlessDisk (x : ℕ) : Disk := smallDisk [0, 0, 2, x, x, x, x, x] fun lba =>
  if lba = 2 then dirBuf (List.replicate 16 fun _ => 0xE5) else fun _ => 0

/-- The part of write, delete and rename up to the end of the scan: the directory, the name
and what was found. -/
def search (g : Geom) (accept : UInt8 → Bool) (path : Name) : M (ℕ × Name × Option Found) := do
  let (dir, name) ← fat32ResolvePath g path
  kmalloc
  let f ← trackScan g accept name dir
  pure (dir, name, f)

/-- A change of the outcomes of coming transfers and `kmalloc` calls that leaves alone what
succeeds. -/
structure Calming (T : State → State) : Prop where
  read : ∀ lba n, Steady T (ataRead lba n) fun _ => True
  malloc : Steady T kmalloc fun _ => True
  noted : ∀ s a, T (s.noted a) = (T s).noted a
  cwd : ∀ s, (T s).cwdCluster = s.cwdCluster

/-- The state with all transfers to come succeeding. -/
def State.calm (s : State) : State := { s with io := fun _ => none }

/-- The state with all `kmalloc` calls to come succeeding. -/
def State.fed (s : State) : State := s.withMem fun _ => true

lemma calming_calm : Calming State.calm where
  read := by
    intro lba n s b s' h _
    rw [ataRead] at h ⊢
    split_ifs at h ⊢ with hn
    · cases h
    · rcases hio : s.io 0 with _ | k
      · rw [hio, Prod.mk.injEq] at h
        rw [← h.1, ← h.2]
        rfl
      · rw [hio] at h
        cases h
  malloc := by
    intro s u s' h _
    rw [kmalloc, Prod.mk.injEq] at h
    rw [← h.1, ← h.2]
    rfl
  noted := fun _ _ => rfl
  cwd := fun _ => rfl

lemma calming_fed : Calming State.fed where
  read := by
    intro lba n s b s' h _
    rw [ataRead] at h ⊢
    split_ifs at h ⊢ with hn
    · cases h
    · rw [show s.fed.io = s.io from rfl]
      rcases hio : s.io 0 with _ | k
      · rw [hio, Prod.mk.injEq] at h
        rw [← h.1, ← h.2]
        rfl
      · rw [hio] at h
        cases h
  malloc := by
    intro s u s' h _
    rw [kmalloc, Prod.mk.injEq] at h
    rw [← h.2]
    rfl
  noted := fun _ _ => rfl
  cwd := fun _ => rfl

section

variable {g : Geom} {T : State → State} {accept : UInt8 → Bool}

lemma Calming.steady_note (hT : Calming T) (a : Access) : Steady T (note a) fun _ => True := by
  intro s u s' h _
  rw [note_eq, Prod.mk.injEq] at h
  rw [note_eq, ← h.1, ← h.2, hT.noted]

lemma Calming.steady_readCluster (hT : Calming T) (c : ℕ) :
    Steady T (readCluster g c) fun _ => True :=
  (hT.steady_note _).then fun _ => hT.read _ _

/-- A FAT entry that was read and is not `0` is read again. -/
lemma Calming.steady_fatNextCluster (hT : Calming T) (c : ℕ) :
    Steady T (fatNextCluster g c) fun x => x ≠ 0 := by
  refine (hT.steady_note _).then fun _ => (hT.read _ 1).attempt.bind (fun r => ?_) fun r hr => ?_
  · cases r <;> exact .pure _
  · obtain rfl : r = none := not_not.mp hr
    exact .pure (not_not.mpr rfl)

/-- A scan that found an entry finds it again. -/
lemma Calming.steady_trackScanLoop (hT : Calming T) (name : Name) (n : ℕ) :
    ∀ (c : ℕ) (st : TrackState), Steady T (trackScanLoop g accept name n c st) fun r => r ≠ none := by
  induction n with
  | zero => exact fun c st => .pure _
  | succ n ih =>
    intro c st
    rw [trackScanLoop]
    split
    · refine (hT.steady_readCluster c).attempt.bind (fun r => ?_) fun r hr => ?_
      · cases r with
        | none => exact .pure _
        | some b =>
          dsimp only
          cases trackSlots accept name c (slotsOf g.entriesPerCluster b) 0 st with
          | stop => exact .pure _
          | found i e st' => exact .pure _
          | more st' =>
            refine (hT.steady_fatNextCluster c).bind (fun next => ih next st') fun x hx => ?_
            -- a FAT that cannot be read ends the scan
            obtain rfl : x = 0 := not_not.mp hx
            cases n with
            | zero => exact .pure (not_not.mpr rfl)
            | succ n =>
              rw [trackScanLoop, if_neg (by omega)]
              exact .pure (not_not.mpr rfl)
      · obtain rfl : r = none := not_not.mp hr
        exact .pure (not_not.mpr rfl)
    · exact .pure _

lemma Calming.steady_dirScan (hT : Calming T) (name : Name) (c : ℕ) :
    Steady T (dirScan g accept name c) fun r => r ≠ none := by
  intro s r s' h hr
  have heq : ∀ s, dirScan g accept name c s = _ := dirScanLoop_eq g.maxChainLength c .init
  rw [heq] at h ⊢
  rcases hrun : trackScanLoop g accept name g.maxChainLength c .init s with ⟨_ | f, s₁⟩
  · rw [hrun] at h
    cases h
  · rw [hrun] at h
    obtain ⟨hf, rfl⟩ := Prod.mk.injEq _ _ _ _ ▸ h
    have hne : f ≠ none := by
      rintro rfl
      exact hr (Option.some.inj hf).symm
    rw [hT.steady_trackScanLoop name g.maxChainLength c .init s f s₁ hrun hne, ← hf]
    rfl

lemma Calming.steady_resolveLoop (hT : Calming T) (ds : List Name) :
    ∀ c, Steady T (resolveLoop g ds c) fun _ => True := by
  induction ds with
  | nil => exact fun c => .pure _
  | cons d ds ih =>
    intro c
    refine hT.malloc.then fun _ => (hT.steady_dirScan _ c).bind (fun r => ?_) fun r hr => ?_
    · rcases r with _ | ⟨x, i, e⟩
      · exact .fail
      · exact ih _
    · obtain rfl : r = none := not_not.mp hr
      exact .fail

lemma Calming.steady_resolvePath (hT : Calming T) (path : Name) :
    Steady T (fat32ResolvePath g path) fun _ => True := by
  have hcwd : Steady T (gets State.cwdCluster) fun _ => True := by
    intro s c s' h _
    rw [gets_apply, Prod.mk.injEq] at h
    rw [gets_apply, hT.cwd, h.1, h.2]
  exact hcwd.then fun cwd => (hT.steady_resolveLoop _ _).then fun dir => .pure _

/-- **The search** that found an entry finds it again. -/
lemma Calming.steady_search (hT : Calming T) (path : Name) :
    Steady T (search g accept path) fun r => r.2.2 ≠ none := by
  refine (hT.steady_resolvePath path).then fun p => hT.malloc.then fun _ =>
    (hT.steady_trackScanLoop p.2 _ p.1 .init).bind (fun f => .pure _) fun f hf => .pure ?_
  exact hf

/-- What follows a search. -/
lemma search_bind {α : Type} (path : Name) (k : ℕ × Name × Option Found → M α) :
    search g accept path >>= k = fat32ResolvePath g path >>= fun p =>
      kmalloc >>= fun _ => trackScan g accept p.2 p.1 >>= fun f => k (p.1, p.2, f) := by
  simp only [search, bind_assoc, pure_bind]

lemma fat32DeleteFile_eq (path : Name) :
    fat32DeleteFile g path = search g acceptFile path >>= fun r =>
      match r.2.2 with
      | none => fail
      | some f => removeFile g f := by
  refine Eq.trans ?_ (search_bind path _).symm
  rfl

lemma fat32RenameFile_eq (oldpath newname : Name) :
    fat32RenameFile g oldpath newname = search g acceptAny oldpath >>= fun r =>
      match r.2.2 with
      | none => fail
      | some f => markDeleted g f >>= fun _ =>
        fat32CreateEntry g newname r.1 f.slot.cluster f.slot.size f.slot.attr := by
  refine Eq.trans ?_ (search_bind oldpath _).symm
  rfl

/-- The second half of `fat32_write_file`. -/
def writeTail (g : Geom) (dir : ℕ) (name : Name) (data : List UInt8) : M Unit :=
  if data.length = 0 then fat32CreateEntry g name dir 0 0 attrArchive
  else do
    kmalloc
    let first ← writeDataLoop g (fileChunks g data) 0 0
    fat32CreateEntry g name dir first data.length attrArchive

lemma fat32WriteFile_eq (path : Name) (data : List UInt8) :
    fat32WriteFile g path data = search g acceptFile path >>= fun r =>
      match r.2.2 with
      | none => writeTail g r.1 r.2.1 data
      | some f => removeFile g f >>= fun _ => writeTail g r.1 r.2.1 data := by
  refine Eq.trans ?_ (search_bind path _).symm
  rw [fat32WriteFile]
  refine congrArg _ (funext fun p => ?_)
  obtain ⟨dir, name⟩ := p
  refine congrArg _ (funext fun _ => congrArg _ (funext fun f => ?_))
  cases f with
  | none => rfl
  | some f => rfl

/-- What comes behind the search sees no difference, when the outcomes behind it are those
of the change. -/
lemma Calming.bind_search (hT : Calming T) {α : Type} {path : Name}
    {k : ℕ × Name × Option Found → M α} {s s' : State} {dir : ℕ} {name : Name} {f : Found}
    (h : search g accept path s = (some (dir, name, some f), s')) (hs' : T s' = s') :
    (search g accept path >>= k) s = (search g accept path >>= k) (T s) := by
  rw [bind_of_some h, bind_of_some (hT.steady_search path s _ s' h (Option.some_ne_none f)), hs']

lemma search_quiet (accept : UInt8 → Bool) (path : Name) (s : State) :
    Quiet s (search g accept path s).2 := by
  have hat : Closed g s.disk fun _ => True :=
    ⟨trivial, trivial, fun _ _ => trivial, fun _ _ _ _ => trivial⟩
  have hq := (resolvePath_spec hat rfl trivial path).1
  rw [search]
  rcases hres : fat32ResolvePath g path s with ⟨_ | ⟨dir, name⟩, s₁⟩
  · rw [bind_of_none hres]
    rwa [hres] at hq
  · rw [hres] at hq
    rw [bind_of_some hres]
    dsimp only
    have hq₂ := quiet_kmalloc s₁
    rcases hm : kmalloc s₁ with ⟨_ | u, s₂⟩
    · rw [bind_of_none hm]
      rw [hm] at hq₂
      exact hq.trans hq₂
    · rw [hm] at hq₂
      rw [bind_of_some hm]
      have hd : s₂.disk = s.disk := (hq.trans hq₂).disk
      have hscan : Quiet s₂ (trackScanLoop g accept name g.maxChainLength dir .init s₂).2 :=
        (trackScanLoop_spec hat g.maxChainLength dir .init s₂ hd trivial fun _ h => nomatch h).1
      obtain ⟨r, s₃, hr⟩ := trackScanLoop_some (g := g) accept name g.maxChainLength dir .init s₂
      rw [hr] at hscan
      rw [bind_of_some (show trackScan g accept name dir s₂ = _ from hr)]
      exact (hq.trans hq₂).trans hscan

/-- A search that went through resolved its path. -/
lemma search_resolved {path : Name} {s s' : State} {dir : ℕ} {name : Name} {f : Option Found}
    (h : search g accept path s = (some (dir, name, f), s')) :
    ∃ s₁, fat32ResolvePath g path s = (some (dir, name), s₁) := by
  rw [search] at h
  rcases hres : fat32ResolvePath g path s with ⟨_ | ⟨d, n⟩, s₁⟩
  · rw [bind_of_none hres] at h
    cases h
  · rw [bind_of_some hres] at h
    dsimp only at h
    rcases hm : kmalloc s₁ with ⟨_ | u, s₂⟩
    · rw [bind_of_none hm] at h
      cases h
    · rw [bind_of_some hm] at h
      rcases hr : trackScan g accept n d s₂ with ⟨_ | r, s₃⟩
      · rw [bind_of_none hr] at h
        cases h
      · rw [bind_of_some hr, pure_apply] at h
        obtain ⟨⟨rfl, rfl, -⟩, -⟩ : (d = dir ∧ n = name ∧ r = f) ∧ s₃ = s' := by
          simpa using h
        exact ⟨s₁, rfl⟩

end

/-! ### Failing transfers -/

/-- No live entry leads to a free cluster. -/
def EntriesBacked (g : Geom) (v : Vol) : Prop :=
  ∀ loc h, Live g v loc h → ∀ c ∈ chainOf g v h.cell, v.next c ≠ 0

section

variable {g : Geom} {s : State} {path : Name}

lemma Inv.entriesBacked {v : Vol} {X : List (Head ℕ)} (hg : g.Valid)
    (hI : Inv g v (rootHead g :: X)) : EntriesBacked g v := by
  intro loc h hl c hc
  by_cases h0 : HasChain h
  · obtain ⟨l, hchain, -, -, hnext⟩ := (hI.chainsOk hg).chain loc h hl h0
    rw [hchain.chainOf_eq hg] at hc
    exact hnext c hc
  · obtain ⟨-, hcell⟩ := not_or.mp h0
    rw [not_not.mp hcell, chainOf_zero] at hc
    cases hc

lemma calm_eq (h : IoOk s) : s.calm = s := by
  rw [State.calm, ← show s.io = _ from h]

variable (hg : g.Valid) (hw : WellFormed g (vol g s.disk))
variable (hcwd : LiveDir g (vol g s.disk) s.cwdCluster)
variable (hio : IoOk (search g acceptFile path s).2)

include hg hw hcwd hio

lemma deleteFile_inv : Inv g (vol g (fat32DeleteFile g path s).2.disk) [rootHead g] := by
  have hI := hw.inv hg
  have hq := search_quiet (g := g) acceptFile path s
  rw [fat32DeleteFile_eq]
  rcases hrun : search g acceptFile path s with ⟨_ | ⟨dir, name, _ | f⟩, s₁⟩
  · rw [bind_of_none hrun]
    rw [hrun] at hq
    rwa [hq.disk]
  · rw [bind_of_some hrun]
    rw [hrun] at hq
    rwa [show (fail s₁ : Option Unit × State).2.disk = s.disk from hq.disk]
  · -- the run is that with all transfers succeeding
    rw [hrun] at hio
    rw [calming_calm.bind_search hrun (calm_eq hio), ← fat32DeleteFile_eq]
    have h := (spec_deleteFile (E := s.calm.env False) hg hI ⟨.root 0, .root rfl⟩ hcwd.reach path
      s.calm (IoOk.holds rfl) rfl).2
    exact h.inv hg hI ⟨.root 0, .root rfl⟩ hcwd.reach

lemma writeFile_inv (hp : IsPath path) (data : List UInt8) :
    Inv g (vol g (fat32WriteFile g path data s).2.disk) [rootHead g] := by
  have hI := hw.inv hg
  have hq := search_quiet (g := g) acceptFile path s
  rw [fat32WriteFile_eq]
  rcases hrun : search g acceptFile path s with ⟨_ | ⟨dir, name, _ | f⟩, s₁⟩
  · rw [bind_of_none hrun]
    rw [hrun] at hq
    rwa [hq.disk]
  · -- the scan may have ended early, but the directory is the right one
    rw [hrun] at hq hio
    obtain ⟨s₂, hres⟩ := search_resolved hrun
    have hres' := calming_calm.steady_resolvePath path s _ s₂ hres trivial
    have hspec := (spec_resolvePath (E := s.calm.env False) hg hI ⟨.root 0, .root rfl⟩ hcwd.reach
      path s.calm (IoOk.holds rfl) rfl).2.2.1 (dir, name) (by rw [hres'])
    have htail := (spec_writeTail hg (hI.dir_chain hspec.2) name data s₁ (IoOk.holds hio)
      (congrArg (vol g) hq.disk)).2
    rw [bind_of_some hrun]
    exact htail.inv hg hI hspec.2 (resolve_name hspec.1 ▸ hp.last)
  · rw [hrun] at hio
    rw [calming_calm.bind_search hrun (calm_eq hio), ← fat32WriteFile_eq]
    have h := (spec_writeFile (E := s.calm.env False) hg hI ⟨.root 0, .root rfl⟩ hcwd.reach path
      data s.calm (IoOk.holds rfl) rfl).2
    exact h.inv hg hI ⟨.root 0, .root rfl⟩ hcwd.reach hp.last

end

/-- A disk with the file `A` in cluster 3. -/
def oneFileDisk : Disk := smallDisk [0, 0, endMark, endMark] fun lba =>
  if lba = 2 then dirBuf [sfnSlot (pad 11 [0x41]) 3 1 attrArchive] else fun _ => 0

lemma oneFileDisk_flat : Flat smallGeom (vol smallGeom oneFileDisk) where
  root := by decide
  eoc := by decide +kernel
  tail := by decide +kernel
  file := by decide +kernel
  cluster := by decide +kernel
  distinct := by decide +kernel

/-- The fifth transfer of the driver fails. -/
def brokenState : State := { smallState oneFileDisk with io := fun n => if n = 4 then some 0 else none }

section

variable {g : Geom} {E : Env} {v w : Vol} {R : List (Head ℕ)} {oldpath newname : Name}

/-- With memory and with room for the new entry, a rename that found its entry does not
fail. -/
lemma RenameEff.unchanged (hg : g.Valid) (hm : E.memOk) (hI : Inv g v R)
    (hroot : Reach (subOf g v) R g.rootCluster) (hcwd : Reach (subOf g v) R E.cwd)
    (hroom : ∀ d name, resolve g v E.cwd oldpath = some (d, name) →
      lookup g v acceptAny d name ≠ none → Room g v d newname (freeCount g v))
    (he : RenameEff g E v oldpath newname none w) : w = v := by
  cases he with
  | early _ => rfl
  | @rename d name en K _ _ hres hf hK hc =>
    have hd := hI.resolve_reach hroot hcwd hres
    obtain ⟨hk, hl⟩ := mem_entries (lookup_mem hf).1
    have hchain : IsChain g (v.killIn g d K) d (chainOf g (v.killIn g d K) d) := by
      rw [chainOf_killIn]
      exact (hI.dir_chain hd).congr fun _ _ => rfl
    have hend : endIndex (dirSlots g (v.killIn g d K) d) = endIndex (dirSlots g v d) := by
      rw [hI.killIn_slots hg hd hk hK,
        endIndex_killAt hK (lt_endIndex_of_live (hI.tail d hd) hk hl)]
    have hroom' : Room g (v.killIn g d K) d newname (freeCount g (v.killIn g d K)) :=
      (hroom d name hres (by simp [hf])).congr (chainOf_killIn d) hend
        (freeCount_congr Vol.killIn_next).ge
    exact absurd (created_of_room hm hchain hroom' hc) (by simp)

end

/-- The second `kmalloc` call fails. -/
def starvedState : State := { smallState oneFileDisk with mem := fun n => n ≠ 1 }

end GordOS.Fat32
