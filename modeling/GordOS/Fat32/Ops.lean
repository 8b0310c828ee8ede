/-
The file operations of the FAT32 driver (`fs/fat32.c`).

* `fat32LookupFile`, `fat32ReadFile`: finding and reading a file;
* `fat32WriteFile`: the old entry is deleted, the data written to a new chain of
  clusters, and a new entry created;
* `fat32DeleteFile`, `fat32RenameFile`, `fat32Mkdir`: the other operations on
  directory entries;
* `fat32Cd`: the current directory, kept as a cluster and as a text.
-/
import Mathlib.Tactic
import GordOS.Fat32.Dir

namespace GordOS.Fat32

open GordOS GordOS.Fallible

section

variable (g : Geom)

/-! ### Lookup and read -/

/-- `fat32_lookup_file`: the first cluster and the size of a file. Behind a hit
the chain loop still reads the FAT once. -/
def fat32LookupFile (path : Name) : M (ℕ × ℕ) := do
  let (dir, name) ← fat32ResolvePath g path
  kmalloc
  match ← dirScan g acceptFile name dir with
  | none => fail
  | some (c, _, e) => do
    let _ ← fatNextCluster g c
    pure (e.cluster, e.size)

/-- The first `n` bytes of a buffer. -/
def bytesOf (b : Buf) (n : ℕ) : List UInt8 := (List.range n).map b

/-- The loop of `fat32_read_file`, with the steps left before the chain limit
and the bytes left to read. -/
def readFileLoop : ℕ → ℕ → ℕ → M (List UInt8)
  | 0, _, _ => pure []
  | steps + 1, c, left =>
    if 2 ≤ c ∧ c < eoc ∧ 0 < left then do
      match ← attempt (readCluster g c) with
      | none => pure []
      | some b => do
        let n := min left g.clusterBytes
        let next ← fatNextCluster g c
        let rest ← readFileLoop steps next (left - n)
        pure (bytesOf b n ++ rest)
    else pure []

/-- `fat32_read_file`: the bytes stored in the caller's buffer. -/
def fat32ReadFile (path : Name) (bufsize : ℕ) : M (List UInt8) := do
  let (cluster, size) ← fat32LookupFile g path
  kmalloc
  readFileLoop g g.maxChainLength cluster (min size bufsize)

/-! ### Write -/

/-- The parts of the data that the clusters of a file hold. -/
def fileChunks (data : List UInt8) : List (List UInt8) :=
  (List.range ((data.length + g.clusterBytes - 1) / g.clusterBytes)).map
    fun i => (data.drop (i * g.clusterBytes)).take g.clusterBytes

/-- A zeroed buffer with some bytes at its start. -/
def bufOfBytes (l : List UInt8) : Buf := fun i => l.getD i 0

/-- One step of the loop of `fat32_write_file`: a new cluster, linked behind the
previous one if there is one, with a part of the data. -/
def writeDataStep (d : List UInt8) (prev : ℕ) : M ℕ := do
  let c ← fatAllocCluster g
  if c = 0 then fail
  else do
    if prev ≠ 0 then ignore (fatSetCluster g prev c)
    writeCluster g c (bufOfBytes d)
    pure c

/-- The loop of `fat32_write_file` over the parts of the data: the first cluster
of the chain built, `0` before the first one. -/
def writeDataLoop : List (List UInt8) → ℕ → ℕ → M ℕ
  | [], first, _ => pure first
  | d :: ds, first, prev => do
    let c ← writeDataStep g d prev
    writeDataLoop ds (if prev ≠ 0 then first else c) c

/-- The clusters of a removed file are freed and its slots marked. -/
def removeFile (f : Found) : M Unit := do
  if 2 ≤ f.slot.cluster then fatFreeChain g f.slot.cluster
  markDeleted g f

/-- `fat32_write_file`. -/
def fat32WriteFile (path : Name) (data : List UInt8) : M Unit := do
  let (dir, name) ← fat32ResolvePath g path
  kmalloc
  match ← trackScan g acceptFile name dir with
  | none => pure ()
  | some f => removeFile g f
  if data.length = 0 then fat32CreateEntry g name dir 0 0 attrArchive
  else do
    kmalloc
    let first ← writeDataLoop g (fileChunks g data) 0 0
    fat32CreateEntry g name dir first data.length attrArchive

/-! ### Delete, rename and mkdir -/

/-- `fat32_delete_file`. -/
def fat32DeleteFile (path : Name) : M Unit := do
  let (dir, name) ← fat32ResolvePath g path
  kmalloc
  match ← trackScan g acceptFile name dir with
  | none => fail
  | some f => removeFile g f

/-- `fat32_rename_file`: the new name is created in the directory of the old
one. -/
def fat32RenameFile (oldpath newname : Name) : M Unit := do
  let (dir, name) ← fat32ResolvePath g oldpath
  kmalloc
  match ← trackScan g acceptAny name dir with
  | none => fail
  | some f => do
    markDeleted g f
    fat32CreateEntry g newname dir f.slot.cluster f.slot.size f.slot.attr

/-- The `.` entry of a new directory. -/
def dotSlot (c : ℕ) : Slot := sfnSlot (pad 11 [0x2E]) c 0 attrDirectory

/-- The `..` entry of a new directory. -/
def dotdotSlot (parent : ℕ) : Slot :=
  sfnSlot (pad 11 [0x2E, 0x2E]) parent 0 attrDirectory

/-- The first cluster of a new directory. -/
def newDirBuf (c parent : ℕ) : Buf :=
  setSlot (setSlot zeroBuf 0 (dotSlot c)) 1 (dotdotSlot parent)

/-- `fat32_mkdir`. -/
def fat32Mkdir (path : Name) : M Unit := do
  let (parent, name) ← fat32ResolvePath g path
  let new ← fatAllocCluster g
  if new = 0 then fail
  else do
    kmalloc
    match ← attempt (writeCluster g new (newDirBuf new parent)) with
    | none => do
      ignore (fatSetCluster g new 0)
      fail
    | some _ => fat32CreateEntry g name parent new 0 attrDirectory

/-! ### The current directory -/

/-- The text of the parent in `cd ..`: everything before the last slash, or the
root. -/
def parentPath (p : Name) : Name :=
  if 1 < p.length then
    let n := (p.reverse.dropWhile (· != 0x2F)).length - 1
    p.take (if n = 0 then 1 else n)
  else p

/-- The text of a new current directory, cut to the 255 characters of
`cwd_path`. -/
def extendPath (p name : Name) : Name :=
  if name.head? = some 0x2F then 0x2F :: (name.drop 1).take 254
  else
    let q := if 1 < p.length then p ++ [0x2F] else p
    q ++ name.take (255 - q.length)

/-- `fat32_cd`. -/
def fat32Cd (name : Name) : M Unit := do
  if name = [0x2E, 0x2E] then do
    kmalloc
    let cwd ← gets State.cwdCluster
    let b ← readCluster g cwd
    let parent := (slotAt b 1).cluster
    modify fun s =>
      { s with
        cwdCluster := if parent = 0 then g.rootCluster else parent
        cwdPath := parentPath s.cwdPath }
  else if name = [0x2F] then
    modify fun s => { s with cwdCluster := g.rootCluster, cwdPath := [0x2F] }
  else do
    let (parent, dirname) ← fat32ResolvePath g name
    kmalloc
    match ← dirScan g acceptDir dirname parent with
    | none => fail
    | some (_, _, e) =>
      modify fun s =>
        { s with
          cwdCluster := if e.cluster = 0 then g.rootCluster else e.cluster
          cwdPath := extendPath s.cwdPath name }

end

end GordOS.Fat32
