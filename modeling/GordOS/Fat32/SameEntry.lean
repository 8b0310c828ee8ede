/-
The entry that lookup, delete and write select (`fs/fat32.c`).

* `createFile`: what `fat32_write_file` does behind the removal of an old entry;
* `marked_removeFile`: the removal of an entry marks it as deleted;
* `calls_of_unresolved`, `calls_of_scan`: the three calls behind a failing resolution of
  the path and behind the scan;
* `selects_same`: **lookup, delete and write select the same entry** on every disk.
-/
import Mathlib.Tactic
import GordOS.Fat32.Scans
import GordOS.Fat32.Integrity

namespace GordOS.Fat32

open GordOS GordOS.Fallible

/-- What `fat32_write_file` does behind the removal of an old entry. -/
def createFile (g : Geom) (dir : ℕ) (name : Name) (data : List UInt8) : M Unit :=
  if data.length = 0 then fat32CreateEntry g name dir 0 0 attrArchive
  else do
    kmalloc
    let first ← writeDataLoop g (fileChunks g data) 0 0
    fat32CreateEntry g name dir first data.length attrArchive

/-! ### Marking an entry -/

section

variable {g : Geom} {s : State}

lemma markTracked_mark (c : ℕ) (track : List (ℕ × ℕ)) {a : ℕ} : ∀ {b : Buf}, b a = 0xE5 →
    markTracked c track b a = 0xE5 := by
  induction track with
  | nil => exact fun h => h
  | cons p track ih =>
    intro b h
    refine ih ?_
    dsimp only
    split
    · by_cases ha : a = p.2 * 32
      · rw [ha, Function.update_self]
      · rwa [Function.update_of_ne ha]
    · exact h

/-- The byte that marks a slot stays when slots of any cluster are marked. -/
lemma clusterPut_mark {d : Disk} (c : ℕ) (track : List (ℕ × ℕ)) {x o : ℕ} (ho : o < 512)
    (h : d x o = 0xE5) :
    clusterPut g d c (markTracked c track (clusterBuf g d c)) x o = 0xE5 := by
  rw [clusterPut, writeSectors]
  split
  · next hx =>
    refine markTracked_mark c track ?_
    rw [clusterBuf, readSectors, if_pos (by omega)]
    rwa [show g.clusterToLba c + (512 * (x - g.clusterToLba c) + o) / 512 = x by omega,
      show (512 * (x - g.clusterToLba c) + o) % 512 = o by omega]
  · exact h

lemma markOthers_mark (hspc : g.sectorsPerCluster ≠ 0) {c x o : ℕ} (ho : o < 512) (ks : List ℕ) :
    ∀ (track : List (ℕ × ℕ)) (s : State), IoOk s → s.disk x o = 0xE5 →
    ∃ s', markOthers g c ks track s = (some (), s') ∧ s'.disk x o = 0xE5 := by
  induction ks with
  | nil => exact fun track s _ h => ⟨s, rfl, h⟩
  | cons k ks ih =>
    intro track s hio h
    rw [markOthers]
    split
    · exact ih track s hio h
    · have hqk := quiet_kmalloc s
      rcases hk : kmalloc s with ⟨_ | _, s₁⟩
      · rw [hk] at hqk
        rw [bind_of_some (attempt_of_eq hk)]
        exact ih track s₁ (hqk.io hio) (by rw [hqk.disk]; exact h)
      · rw [hk] at hqk
        rw [bind_of_some (attempt_of_eq hk)]
        have hio₁ := hqk.io hio
        have hmark₁ : s₁.disk x o = 0xE5 := by rw [hqk.disk]; exact h
        dsimp only
        rw [bind_of_some (attempt_of_eq (readCluster_eq hio₁ hspc _))]
        dsimp only
        generalize (track.getD k (0, 0)).1 = lc
        by_cases hlc : 2 ≤ lc
        · rw [bind_of_some (ignore_of_eq (writeCluster_eq (hio₁.noted _) hspc hlc _))]
          exact ih _ _ hio₁ (clusterPut_mark lc track ho hmark₁)
        · have hfail : ∀ b s, writeCluster g lc b s = (none, s) := fun b s => by
            rw [writeCluster, if_pos (by omega), fail_apply]
          rw [bind_of_some (ignore_of_eq (hfail _ _))]
          exact ih _ _ hio₁ hmark₁

lemma fatFreeChainLoop_run (n : ℕ) : ∀ (c : ℕ) (s : State), IoOk s →
    ∃ s', fatFreeChainLoop g n c s = (some (), s') ∧ IoOk s' := by
  induction n with
  | zero => exact fun c s hio => ⟨s, rfl, hio⟩
  | succ n ih =>
    intro c s hio
    rw [fatFreeChainLoop]
    split
    · rw [bind_of_some (fatNextCluster_eq hio c),
        bind_of_some (ignore_of_eq (fatSetCluster_eq (hio.noted _) c 0))]
      exact ih _ _ hio
    · exact ⟨s, rfl, hio⟩

/-- **The removal of an entry** succeeds and marks its slot as deleted. -/
lemma marked_removeFile (hspc : g.sectorsPerCluster ≠ 0) {d : Disk} {At : ℕ → Prop}
    {f : Found} (hf : f.On g d At) (hio : IoOk s) :
    ∃ s', removeFile g f s = (some (), s') ∧ slotOn g s'.disk f.cluster f.idx 0 = 0xE5 := by
  have hidx : 32 * f.idx < 512 * g.sectorsPerCluster := by
    have := hf.idx
    rw [Geom.entriesPerCluster, Geom.clusterBytes] at this
    omega
  have hslot : ∀ d : Disk, d (g.clusterToLba f.cluster + 32 * f.idx / 512) (32 * f.idx % 512) =
      0xE5 → slotOn g d f.cluster f.idx 0 = 0xE5 := by
    intro d h
    rw [slotOn, slotAt, clusterBuf, readSectors, if_pos (by simpa using hidx)]
    exact h
  obtain ⟨s₁, hrun, hio₁⟩ : ∃ s₁, removeFile g f s = markDeleted g f s₁ ∧ IoOk s₁ := by
    rw [removeFile]
    split
    · obtain ⟨s₁, hfree, hio₁⟩ := fatFreeChainLoop_run _ f.slot.cluster s hio
      exact ⟨s₁, bind_of_some hfree, hio₁⟩
    · exact ⟨s, rfl, hio⟩
  obtain ⟨s₂, hdone, hmark⟩ : ∃ s₂, markDeleted g f s₁ = (some (), s₂) ∧ s₂.disk
      (g.clusterToLba f.cluster + 32 * f.idx / 512) (32 * f.idx % 512) = 0xE5 := by
    rw [markDeleted, bind_of_some (ignore_of_eq (writeCluster_eq hio₁ hspc hf.cluster.2.1 _))]
    refine markOthers_mark hspc (by omega) _ _ _ hio₁ ?_
    rw [withDisk_disk, clusterPut, writeSectors, if_pos (by omega)]
    refine markTracked_mark _ _ ?_
    rw [show 512 * (g.clusterToLba f.cluster + 32 * f.idx / 512 - g.clusterToLba f.cluster) +
      32 * f.idx % 512 = f.idx * 32 by omega, Function.update_self]
  exact ⟨s₂, hrun.trans hdone, hslot _ hmark⟩

end

/-! ### The three calls -/

section

variable {g : Geom} {s s₁ s₂ s₃ : State} {path name : Name} {dir : ℕ}

/-- The calls behind a failing resolution of the path. -/
lemma calls_of_unresolved (h : fat32ResolvePath g path s = (none, s₁)) :
    fat32LookupFile g path s = (none, s₁) ∧ fat32DeleteFile g path s = (none, s₁) ∧
      ∀ data, fat32WriteFile g path data s = (none, s₁) := by
  refine ⟨?_, ?_, fun data => ?_⟩
  · rw [fat32LookupFile, bind_of_none h]
  · rw [fat32DeleteFile, bind_of_none h]
  · rw [fat32WriteFile, bind_of_none h]

/-- The calls behind the scan of the directory. -/
lemma calls_of_scan (h : fat32ResolvePath g path s = (some (dir, name), s₁))
    (hk : kmalloc s₁ = (some (), s₂)) {r : Option Found}
    (hscan : trackScan g acceptFile name dir s₂ = (some r, s₃)) :
    (fat32LookupFile g path s).1 = r.map (fun f => (f.slot.cluster, f.slot.size)) ∧
      fat32DeleteFile g path s = r.elim (none, s₃) (fun f => removeFile g f s₃) ∧
      ∀ data, fat32WriteFile g path data s = r.elim (createFile g dir name data s₃)
        fun f => (removeFile g f >>= fun _ => createFile g dir name data) s₃ := by
  have hdir : dirScan g acceptFile name dir s₂ = (some (r.map Found.entry), s₃) := by
    rw [dirScan_eq, hscan]
    rfl
  refine ⟨?_, ?_, fun data => ?_⟩
  · rw [fat32LookupFile, bind_of_some h]
    dsimp only
    rw [bind_of_some hk, bind_of_some hdir]
    cases r with
    | none => rfl
    | some f =>
      obtain ⟨s', x, hx, -⟩ := fatNextCluster_any (g := g) f.cluster s₃
      dsimp only [Option.map_some, Found.entry]
      rw [bind_of_some hx]
      rfl
  · rw [fat32DeleteFile, bind_of_some h]
    dsimp only
    rw [bind_of_some hk, bind_of_some hscan]
    cases r with
    | none => rfl
    | some f => rw [Option.elim_some]
  · rw [fat32WriteFile, bind_of_some h]
    dsimp only
    rw [bind_of_some hk, bind_of_some hscan]
    cases r with
    | none => rw [Option.elim_none, createFile]
    | some f => rw [Option.elim_some, createFile]

end

lemma closed_univ (g : Geom) (d : Disk) : Closed g d fun _ => True :=
  ⟨trivial, trivial, fun _ _ => trivial, fun _ _ _ _ => trivial⟩

/-- **Lookup, delete and write select the same entry**, whatever stands on the disk:
delete succeeds if lookup does, and then marks the slot that holds the cluster and the
size that lookup returns, and frees the chain at this cluster; a write creates its file
in the state that a delete leaves, and a delete without a match has written nothing. -/
theorem selects_same (g : Geom) (hspc : g.sectorsPerCluster ≠ 0) (s : State) (hio : IoOk s)
    (hmem : s.mem = fun _ => true) (path : Name) :
    ((fat32LookupFile g path s).1.isSome ↔ (fat32DeleteFile g path s).1.isSome) ∧
    (∀ first size, (fat32LookupFile g path s).1 = some (first, size) →
      ∃ (f : Found) (s₁ : State), s₁.disk = s.disk ∧
        f.slot = slotOn g s.disk f.cluster f.idx ∧ f.idx < g.entriesPerCluster ∧
        f.slot.cluster = first ∧ f.slot.size = size ∧
        fat32DeleteFile g path s = removeFile g f s₁ ∧
        slotOn g (fat32DeleteFile g path s).2.disk f.cluster f.idx 0 = 0xE5) ∧
    ((fat32LookupFile g path s).1 = none → (fat32DeleteFile g path s).2.disk = s.disk) ∧
    (∀ dir name, (fat32ResolvePath g path s).1 = some (dir, name) → ∀ data,
      fat32WriteFile g path data s =
        createFile g dir name data (fat32DeleteFile g path s).2) ∧
    ((fat32ResolvePath g path s).1 = none → ∀ data,
      (fat32WriteFile g path data s).1 = none ∧
        (fat32WriteFile g path data s).2.disk = s.disk) := by
  obtain ⟨hq, -⟩ := resolvePath_spec (closed_univ g s.disk) rfl trivial path
  rcases hres : fat32ResolvePath g path s with ⟨_ | ⟨dir, name⟩, s₁⟩
  · obtain ⟨hlookup, hdelete, hwrite⟩ := calls_of_unresolved hres
    rw [hres] at hq
    rw [hlookup, hdelete]
    refine ⟨Iff.rfl, (fun _ _ h => nomatch h), fun _ => hq.disk, (fun _ _ h => nomatch h),
      fun _ data => ?_⟩
    rw [hwrite data]
    exact ⟨rfl, hq.disk⟩
  · rw [hres] at hq
    have hk : kmalloc s₁ = (some (), (kmalloc s₁).2) := by
      rw [kmalloc_eq, hq.mem hmem]
      rfl
    have hq₂ := hq.trans (quiet_kmalloc s₁)
    generalize (kmalloc s₁).2 = s₂ at hk hq₂
    obtain ⟨hq', hon⟩ := trackScan_spec acceptFile name (closed_univ g s.disk) hq₂.disk
      (c := dir) trivial
    obtain ⟨r, s₃, hscan⟩ := trackScanLoop_some (g := g) acceptFile name
      g.maxChainLength dir .init s₂
    rw [trackScan, hscan] at hq' hon
    dsimp only at hq' hon
    have hq₃ := hq₂.trans hq'
    obtain ⟨hlookup, hdelete, hwrite⟩ := calls_of_scan hres hk hscan
    cases r with
    | none =>
        rw [hlookup, hdelete, Option.elim_none]
        refine ⟨Iff.rfl, (fun _ _ h => nomatch h), fun _ => hq₃.disk, fun dir' name' h data => ?_,
          fun h => nomatch h⟩
        obtain ⟨rfl, rfl⟩ := Prod.mk.inj (Option.some.inj h)
        rw [hwrite data, Option.elim_none]
    | some f =>
        obtain ⟨s₄, hremove, hmark⟩ := marked_removeFile hspc (hon f rfl) (hq₃.io hio)
        rw [hlookup, hdelete, Option.elim_some, hremove]
        refine ⟨Iff.rfl, fun first size h => ?_, (fun h => nomatch h), fun dir' name' h data => ?_,
          fun h => nomatch h⟩
        · obtain ⟨rfl, rfl⟩ := Prod.mk.inj (Option.some.inj h)
          exact ⟨f, s₃, hq₃.disk, (hon f rfl).slot, (hon f rfl).idx, rfl, rfl, hremove.symm, hmark⟩
        · obtain ⟨rfl, rfl⟩ := Prod.mk.inj (Option.some.inj h)
          rw [hwrite data, Option.elim_some, bind_of_some hremove]

/-- The file `A` in the root directory of a small disk: write and delete. -/
theorem selects_same_small :
    ((fat32LookupFile smallGeom [0x41] (smallState staleDisk)).1.isSome ↔
        (fat32DeleteFile smallGeom [0x41] (smallState staleDisk)).1.isSome) ∧
      fat32WriteFile smallGeom [0x41] [7] (smallState staleDisk) =
        createFile smallGeom 2 [0x41] [7]
          (fat32DeleteFile smallGeom [0x41] (smallState staleDisk)).2 :=
  have h := selects_same smallGeom (by decide) (smallState staleDisk) rfl rfl [0x41]
  ⟨h.1, h.2.2.2.1 2 [0x41] (by decide +kernel) [7]⟩

end GordOS.Fat32
