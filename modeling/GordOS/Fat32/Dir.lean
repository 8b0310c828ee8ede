/-
Directory scans and directory updates (`fs/fat32.c`).

* `scanSlots`, `dirScan`: the loop over the slots of a cluster and over the
  clusters of a directory that path resolution, lookup and `cd` run, with the
  attribute test of each as a parameter;
* `trackSlots`, `trackScan`: the variant of write, delete and rename, which also
  remembers where the LFN slots before an entry are;
* `markDeleted`: the removal of a found entry and of its LFN slots;
* `dirWriteEntries`, `fat32CreateEntry`: new slots behind the last used one;
* `fat32ResolvePath`: a path as a directory and a last component.
-/
import Mathlib.Tactic
import GordOS.Fat32.Names

namespace GordOS.Fat32

open GordOS GordOS.Fallible

/-! ### Scans -/

/-- What a scan of the slots of one cluster ends with. -/
inductive Scan (σ : Type) where
  | stop
  | found (i : ℕ) (e : Slot) (st : σ)
  | more (st : σ)

/-- The scan of the slots of one cluster, from index `i` on: it stops at a slot
`0x00`, skips deleted slots, volume labels and the attributes that `accept`
refuses, collects LFN slots and tests all others against `name`. -/
def scanSlots (accept : UInt8 → Bool) (name : Name) :
    List Slot → ℕ → LfnState → Scan LfnState
  | [], _, st => .more st
  | e :: es, i, st =>
    if e 0 = 0 then .stop
    else if e 0 = 0xE5 then scanSlots accept name es (i + 1) st.reset
    else if e.attr = 0x0F then
      scanSlots accept name es (i + 1) (lfnAccumulate e st)
    else if e.attr = 0x08 then scanSlots accept name es (i + 1) st.reset
    else if !accept e.attr then scanSlots accept name es (i + 1) st.reset
    else if entryMatches st e name then .found i e st
    else scanSlots accept name es (i + 1) st.reset

/-- `MAX_LFN_TRACK`. -/
def maxLfnTrack : ℕ := 20

/-- The scan state of write, delete and rename: the decoder, and the cluster and
index of the LFN slots met since the last other slot (at most
`MAX_LFN_TRACK`). -/
structure TrackState where
  lfn : LfnState
  track : List (ℕ × ℕ)

namespace TrackState

/-- The state at the start of a scan. -/
def init : TrackState := ⟨.init, []⟩

/-- What the scans do behind every slot that is not an LFN slot. -/
def reset (st : TrackState) : TrackState := ⟨st.lfn.reset, []⟩

/-- An LFN slot at index `i` of cluster `c`. -/
def push (st : TrackState) (e : Slot) (c i : ℕ) : TrackState :=
  ⟨lfnAccumulate e st.lfn,
    if st.track.length < maxLfnTrack then st.track ++ [(c, i)] else st.track⟩

end TrackState

/-- The scan of the slots of cluster `c` in write, delete and rename. -/
def trackSlots (accept : UInt8 → Bool) (name : Name) (c : ℕ) :
    List Slot → ℕ → TrackState → Scan TrackState
  | [], _, st => .more st
  | e :: es, i, st =>
    if e 0 = 0 then .stop
    else if e 0 = 0xE5 then trackSlots accept name c es (i + 1) st.reset
    else if e.attr = 0x0F then
      trackSlots accept name c es (i + 1) (st.push e c i)
    else if e.attr = 0x08 then trackSlots accept name c es (i + 1) st.reset
    else if !accept e.attr then
      trackSlots accept name c es (i + 1) st.reset
    else if entryMatches st.lfn e name then .found i e st
    else trackSlots accept name c es (i + 1) st.reset

section

variable (g : Geom)

/-- The loop of a scan over the clusters of a directory, with the steps left
before the chain limit: the cluster, the index and the slot of the first entry
found. -/
def dirScanLoop (accept : UInt8 → Bool) (name : Name) :
    ℕ → ℕ → LfnState → M (Option (ℕ × ℕ × Slot))
  | 0, _, _ => pure none
  | steps + 1, c, st =>
    if 2 ≤ c ∧ c < eoc then do
      match ← attempt (readCluster g c) with
      | none => pure none
      | some b =>
        match scanSlots accept name (slotsOf g.entriesPerCluster b) 0 st with
        | .stop => pure none
        | .found i e _ => pure (some (c, i, e))
        | .more st' => do
          let next ← fatNextCluster g c
          dirScanLoop accept name steps next st'
    else pure none

/-- A scan of the directory at `c`. -/
def dirScan (accept : UInt8 → Bool) (name : Name) (c : ℕ) :
    M (Option (ℕ × ℕ × Slot)) :=
  dirScanLoop g accept name g.maxChainLength c .init

/-- What the scans of write, delete and rename find: the cluster with its
buffer, the index and the slot of the entry, and the LFN slots before it. -/
structure Found where
  cluster : ℕ
  buf : Buf
  idx : ℕ
  slot : Slot
  track : List (ℕ × ℕ)

/-- The loop of the scans of write, delete and rename over the clusters of a
directory. -/
def trackScanLoop (accept : UInt8 → Bool) (name : Name) :
    ℕ → ℕ → TrackState → M (Option Found)
  | 0, _, _ => pure none
  | steps + 1, c, st =>
    if 2 ≤ c ∧ c < eoc then do
      match ← attempt (readCluster g c) with
      | none => pure none
      | some b =>
        match trackSlots accept name c (slotsOf g.entriesPerCluster b) 0 st with
        | .stop => pure none
        | .found i e st' => pure (some ⟨c, b, i, e, st'.track⟩)
        | .more st' => do
          let next ← fatNextCluster g c
          trackScanLoop accept name steps next st'
    else pure none

/-- A scan of the directory at `c` in write, delete and rename. -/
def trackScan (accept : UInt8 → Bool) (name : Name) (c : ℕ) :
    M (Option Found) :=
  trackScanLoop g accept name g.maxChainLength c .init

/-- Path resolution and `cd` only accept directories. -/
def acceptDir (a : UInt8) : Bool := Slot.isDirAttr a

/-- Lookup, write and delete skip directories. -/
def acceptFile (a : UInt8) : Bool := !Slot.isDirAttr a

/-- Rename accepts both. -/
def acceptAny (_ : UInt8) : Bool := true

/-! ### Removing an entry -/

/-- The slots at the tracked positions in cluster `c` marked as deleted. -/
def markTracked (c : ℕ) (track : List (ℕ × ℕ)) (b : Buf) : Buf :=
  track.foldl
    (fun b p => if p.1 = c then Function.update b (p.2 * 32) 0xE5 else b) b

/-- The loop over the tracked slots in clusters other than that of the entry:
each cluster is done once, and its positions are then cleared; without memory
for its buffer it is left as it is. -/
def markOthers (c : ℕ) : List ℕ → List (ℕ × ℕ) → M Unit
  | [], _ => pure ()
  | k :: ks, track =>
    let lc := (track.getD k (0, 0)).1
    if lc = c ∨ lc = 0 then markOthers c ks track
    else do
      match ← attempt kmalloc with
      | none => markOthers c ks track
      | some _ => do
        match ← attempt (readCluster g lc) with
        | none => pure ()
        | some b => ignore (writeCluster g lc (markTracked lc track b))
        markOthers c ks
          (track.mapIdx fun m p => if k ≤ m ∧ p.1 = lc then (0, p.2) else p)

/-- The removal of a found entry: the short entry and the tracked slots of its
own cluster first, then those of other clusters. -/
def markDeleted (f : Found) : M Unit := do
  let b := Function.update f.buf (f.idx * 32) 0xE5
  ignore (writeCluster g f.cluster (markTracked f.cluster f.track b))
  markOthers g f.cluster (List.range f.track.length) f.track

/-! ### Adding entries -/

/-- The index of the first `0x00` slot. -/
def firstZero (ss : List Slot) : Option ℕ := ss.findIdx? fun e => e 0 == 0

/-- The search of `dir_write_entries` for the first `0x00` slot: its cluster and
index, or else the last cluster read (`0` if none was). -/
def dirFindStart : ℕ → ℕ → ℕ → M (ℕ ⊕ ℕ × ℕ)
  | 0, _, prev => pure (.inl prev)
  | steps + 1, c, prev =>
    if 2 ≤ c ∧ c < eoc then do
      match ← attempt (readCluster g c) with
      | none => pure (.inl prev)
      | some b =>
        match firstZero (slotsOf g.entriesPerCluster b) with
        | some i => pure (.inr (c, i))
        | none => do
          let next ← fatNextCluster g c
          dirFindStart steps next c
    else pure (.inl prev)

/-- A buffer of zeros. -/
def zeroBuf : Buf := fun _ => 0

/-- An entry copied to index `i` of a buffer. -/
def setSlot (b : Buf) (i : ℕ) (e : Slot) : Buf := fun a =>
  if h : 32 * i ≤ a ∧ a < 32 * i + 32 then e ⟨a - 32 * i, by omega⟩ else b a

/-- The step of `dir_write_entries` behind the last slot of cluster `c`: the next
cluster of the directory, or a new one, with its buffer. -/
def dirAdvance (c : ℕ) : M (ℕ × Buf) := do
  let next ← fatNextCluster g c
  if next < 2 ∨ eoc ≤ next then do
    let new ← fatAllocCluster g
    if new = 0 then fail
    else do
      ignore (fatSetCluster g c new)
      ignore (writeCluster g new zeroBuf)
      pure (new, zeroBuf)
  else do
    let b ← readCluster g next
    pure (next, b)

/-- The writing loop of `dir_write_entries`: the entries left, and the current
cluster with its buffer and the index of the next slot. -/
def dirWriteLoop : List Slot → ℕ → Buf → ℕ → M Unit
  | [], c, b, _ => writeCluster g c b
  | e :: es, c, b, idx =>
    if g.entriesPerCluster ≤ idx then do
      writeCluster g c b
      let (c', b') ← dirAdvance g c
      dirWriteLoop es c' (setSlot b' 0 e) 1
    else dirWriteLoop es c (setSlot b idx e) (idx + 1)

/-- A new zeroed cluster behind a full directory. -/
def dirGrow (prev : ℕ) : M ℕ := do
  let new ← fatAllocCluster g
  if new = 0 then fail
  else do
    ignore (writeCluster g new zeroBuf)
    if prev ≠ 0 then ignore (fatSetCluster g prev new)
    pure new

/-- `dir_write_entries`. -/
def dirWriteEntries (dir : ℕ) (es : List Slot) : M Unit :=
  if es.length = 0 then pure ()
  else do
    kmalloc
    match ← dirFindStart g g.maxChainLength dir 0 with
    | .inr (c, i) => do
      let b ← readCluster g c
      dirWriteLoop g es c b i
    | .inl prev => do
      let c ← dirGrow g prev
      let b ← readCluster g c
      dirWriteLoop g es c b 0

/-- `fat32_create_entry`. -/
def fat32CreateEntry (name : Name) (dir cluster size : ℕ) (attr : UInt8) :
    M Unit := do
  kmalloc
  dirWriteEntries g dir (entrySlots name cluster size attr)

/-! ### Paths -/

/-- A path cut at its slashes: the directory components and the last one. -/
def splitPath : Name → List Name × Name
  | [] => ([], [])
  | c :: cs =>
    match splitPath cs with
    | (ds, last) =>
      if c = 0x2F then ([] :: ds, last)
      else
        match ds with
        | [] => ([], c :: last)
        | d :: ds => ((c :: d) :: ds, last)

/-- The loop of `fat32_resolve_path` over the directory components, each cut to
255 characters. -/
def resolveLoop : List Name → ℕ → M ℕ
  | [], c => pure c
  | d :: ds, c => do
    kmalloc
    match ← dirScan g acceptDir (d.take 255) c with
    | none => fail
    | some (_, _, e) =>
      resolveLoop ds (if e.cluster = 0 then g.rootCluster else e.cluster)

/-- `fat32_resolve_path`: the directory a path leads to, and its last
component. -/
def fat32ResolvePath (path : Name) : M (ℕ × Name) := do
  let cwd ← gets State.cwdCluster
  let absolute := path.head? = some 0x2F
  let (ds, last) := splitPath (if absolute then path.drop 1 else path)
  let dir ← resolveLoop g ds (if absolute then g.rootCluster else cwd)
  pure (dir, last)

end

end GordOS.Fat32
