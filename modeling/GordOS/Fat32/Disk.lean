/-
The sector layer of the FAT32 driver (`fs/fat32.c`, `drivers/ata.c`).

* `Geom`: the BPB fields that `fat32_init` keeps, with `maxChainLength` and the
  addresses computed from them in 32-bit arithmetic;
* `State`: the disk as an array of sectors, the current directory, the outcomes
  of the coming `kmalloc` calls and sector transfers, and a log of the accesses;
* `fatNextCluster`, `fatSetCluster`, `fatFreeChain`, `fatAllocCluster`,
  `readCluster`, `writeCluster`: the accesses every other function goes through;
* `fatEntry`, `fatPut`, `clusterBuf`, `clusterPut`: what these accesses read and
  write while the transfers succeed (`fatNextCluster_eq`, `fatSetCluster_eq`,
  `readCluster_eq`, `writeCluster_eq`).
-/
import Mathlib.Tactic
import GordOS.Lib.Fallible

namespace GordOS.Fat32

open GordOS GordOS.Fallible

/-- A memory buffer: the byte at every offset. -/
abbrev Buf := ℕ → UInt8

/-- The disk: the byte at every offset (below `512`) of every sector. -/
abbrev Disk := ℕ → Buf

/-- A NUL-free C string. -/
abbrev Name := List UInt8

/-- The first end-of-chain value, `FAT32_EOC`. -/
def eoc : ℕ := 0x0FFFFFF8

/-- The BPB fields read by `fat32_init`, which only accepts 512-byte sectors. -/
structure Geom where
  sectorsPerCluster : ℕ
  reservedSectors : ℕ
  fatCount : ℕ
  totalSectors : ℕ
  fatSize : ℕ
  rootCluster : ℕ
  deriving DecidableEq, Repr

namespace Geom

variable (g : Geom)

/-- `fat_start`. -/
def fatStart : ℕ := g.reservedSectors

/-- `data_start`. -/
def dataStart : ℕ := (g.fatStart + g.fatCount * g.fatSize) % 2 ^ 32

/-- `max_chain_length`: the number of data clusters, in unsigned arithmetic. -/
def maxChainLength : ℕ :=
  (g.totalSectors + 2 ^ 32 - g.dataStart) % 2 ^ 32 / g.sectorsPerCluster

/-- The bytes of a cluster, `sectors_per_cluster * 512`. -/
def clusterBytes : ℕ := g.sectorsPerCluster * 512

/-- The 32-byte directory entries of a cluster. -/
def entriesPerCluster : ℕ := g.clusterBytes / 32

/-- `cluster_to_lba`. -/
def clusterToLba (c : ℕ) : ℕ :=
  if c < 2 then 0xFFFFFFFF
  else (g.dataStart + (c - 2) * g.sectorsPerCluster) % 2 ^ 32

/-- The sector of the first FAT that holds the entry of a cluster. -/
def fatSector (c : ℕ) : ℕ := (g.fatStart + c * 4 % 2 ^ 32 / 512) % 2 ^ 32

/-- The offset of the entry of a cluster in its FAT sector. -/
def fatOffset (c : ℕ) : ℕ := c * 4 % 2 ^ 32 % 512

end Geom

/-- An access to the disk: a call of `fat_next_cluster`, the write of
`fat_set_cluster`, a call of `read_cluster` or the write of `write_cluster`, with
the cluster it is for. -/
inductive Access where
  | next (c : ℕ)
  | set (c : ℕ)
  | read (c : ℕ)
  | write (c : ℕ)
  deriving DecidableEq, Repr

/-- The state the driver works on. The streams `mem` and `io` hold the outcomes
of the coming `kmalloc` calls and sector transfers: a transfer with outcome
`some k` fails after `k` sectors. The accesses made so far, the last one first,
are kept for the reader only. -/
structure State where
  disk : Disk
  cwdCluster : ℕ
  cwdPath : Name
  mem : ℕ → Bool
  io : ℕ → Option ℕ
  log : List Access := []

/-- The driver's computations. -/
abbrev M := Fallible State

/-! ### Memory and sector transfers -/

/-- `kmalloc` of a buffer: the driver only looks at whether it succeeds. -/
def kmalloc : M Unit := fun s =>
  (if s.mem 0 then some () else none, { s with mem := fun n => s.mem (n + 1) })

/-- The sectors `[lba, lba + n)` replaced by the contents of a buffer. -/
def writeSectors (d : Disk) (lba n : ℕ) (b : Buf) : Disk := fun s o =>
  if lba ≤ s ∧ s < lba + n then b (512 * (s - lba) + o) else d s o

/-- `n` sectors from `lba` on as one buffer. -/
def readSectors (d : Disk) (lba n : ℕ) : Buf := fun i =>
  if i < 512 * n then d (lba + i / 512) (i % 512) else 0

/-- `ata_read`. -/
def ataRead (lba count : ℕ) : M Buf := fun s =>
  if count = 0 then (none, s)
  else
    let s' := { s with io := fun n => s.io (n + 1) }
    match s.io 0 with
    | none => (some (readSectors s.disk lba count), s')
    | some _ => (none, s')

/-- `ata_write`. -/
def ataWrite (lba count : ℕ) (b : Buf) : M Unit := fun s =>
  if count = 0 then (none, s)
  else
    let s' := { s with io := fun n => s.io (n + 1) }
    match s.io 0 with
    | none => (some (), { s' with disk := writeSectors s.disk lba count b })
    | some k =>
      (none, { s' with disk := writeSectors s.disk lba (min k (count - 1)) b })

/-- An access enters the log. -/
def note (a : Access) : M Unit := modify fun s => { s with log := a :: s.log }

/-! ### The FAT -/

/-- `read16`. -/
def read16 (b : Buf) (o : ℕ) : ℕ := (b o).toNat + (b (o + 1)).toNat * 2 ^ 8

/-- `read32`. -/
def read32 (b : Buf) (o : ℕ) : ℕ :=
  (b o).toNat + (b (o + 1)).toNat * 2 ^ 8 + (b (o + 2)).toNat * 2 ^ 16
    + (b (o + 3)).toNat * 2 ^ 24

/-- A 32-bit value stored at an offset, low byte first. -/
def put32 (b : Buf) (o v : ℕ) : Buf := fun i =>
  if i = o then UInt8.ofNat v
  else if i = o + 1 then UInt8.ofNat (v / 2 ^ 8)
  else if i = o + 2 then UInt8.ofNat (v / 2 ^ 16)
  else if i = o + 3 then UInt8.ofNat (v / 2 ^ 24)
  else b i

section

variable (g : Geom)

/-- `fat_next_cluster`: the low 28 bits of the entry, `0` when the FAT cannot be
read. -/
def fatNextCluster (c : ℕ) : M ℕ := do
  note (.next c)
  match ← attempt (ataRead (g.fatSector c) 1) with
  | none => pure 0
  | some sector => pure (read32 sector (Geom.fatOffset c) % 2 ^ 28)

/-- `fat_set_cluster`: the top 4 bits of the entry stay. -/
def fatSetCluster (c value : ℕ) : M Unit := do
  let sector ← ataRead (g.fatSector c) 1
  let existing := read32 sector (Geom.fatOffset c)
  let newval := existing / 2 ^ 28 * 2 ^ 28 + value % 2 ^ 28
  note (.set c)
  ataWrite (g.fatSector c) 1 (put32 sector (Geom.fatOffset c) newval)

/-- The loop of `fat_free_chain`, with the steps left before the chain limit. -/
def fatFreeChainLoop : ℕ → ℕ → M Unit
  | 0, _ => pure ()
  | steps + 1, c =>
    if 2 ≤ c ∧ c < eoc then do
      let next ← fatNextCluster g c
      ignore (fatSetCluster g c 0)
      fatFreeChainLoop steps next
    else pure ()

/-- `fat_free_chain`. -/
def fatFreeChain (c : ℕ) : M Unit := fatFreeChainLoop g g.maxChainLength c

/-- The loop of `fat_alloc_cluster`, with the clusters left to look at. -/
def fatAllocLoop : ℕ → ℕ → M ℕ
  | 0, _ => pure 0
  | n + 1, c => do
    let val ← fatNextCluster g c
    if val = 0 then
      match ← attempt (fatSetCluster g c 0x0FFFFFFF) with
      | none => pure 0
      | some _ => pure c
    else fatAllocLoop n (c + 1)

/-- `fat_alloc_cluster`: the first free cluster, now marked as the end of a
chain; `0` when there is none. -/
def fatAllocCluster : M ℕ :=
  fatAllocLoop g ((g.maxChainLength + 2) % 2 ^ 32 - 2) 2

/-- `read_cluster`. -/
def readCluster (c : ℕ) : M Buf := do
  note (.read c)
  ataRead (g.clusterToLba c) g.sectorsPerCluster

/-- `write_cluster`. -/
def writeCluster (c : ℕ) (b : Buf) : M Unit :=
  if c < 2 then fail
  else do
    note (.write c)
    ataWrite (g.clusterToLba c) g.sectorsPerCluster b

/-- `fat32_init`: the geometry in the boot sector, and the root as the current
directory. -/
def fat32Init : M Geom := do
  let boot ← ataRead 0 1
  let g : Geom :=
    { sectorsPerCluster := (boot 13).toNat
      reservedSectors := read16 boot 14
      fatCount := (boot 16).toNat
      totalSectors := read32 boot 32
      fatSize := read32 boot 36
      rootCluster := read32 boot 44 }
  if read16 boot 11 ≠ 512 then fail
  else if g.sectorsPerCluster = 0 then fail
  else if g.fatCount = 0 then fail
  else do
    modify fun s => { s with cwdCluster := g.rootCluster, cwdPath := [0x2F] }
    pure g

/-! ### The accesses while the transfers succeed -/

/-- Every coming sector transfer succeeds. -/
def IoOk (s : State) : Prop := s.io = fun _ => none

/-- The value `fat_next_cluster` reads. -/
def fatEntry (d : Disk) (c : ℕ) : ℕ :=
  read32 (readSectors d (g.fatSector c) 1) (Geom.fatOffset c) % 2 ^ 28

/-- The disk `fat_set_cluster` leaves. -/
def fatPut (d : Disk) (c value : ℕ) : Disk :=
  let sector := readSectors d (g.fatSector c) 1
  let existing := read32 sector (Geom.fatOffset c)
  writeSectors d (g.fatSector c) 1
    (put32 sector (Geom.fatOffset c)
      (existing / 2 ^ 28 * 2 ^ 28 + value % 2 ^ 28))

/-- The buffer `read_cluster` fills. -/
def clusterBuf (d : Disk) (c : ℕ) : Buf :=
  readSectors d (g.clusterToLba c) g.sectorsPerCluster

/-- The disk `write_cluster` leaves. -/
def clusterPut (d : Disk) (c : ℕ) (b : Buf) : Disk :=
  writeSectors d (g.clusterToLba c) g.sectorsPerCluster b

end

/-- A state with its disk replaced. -/
def State.withDisk (s : State) (d : Disk) : State := { s with disk := d }

/-- A state with its coming `kmalloc` outcomes replaced. -/
def State.withMem (s : State) (m : ℕ → Bool) : State := { s with mem := m }

/-- A state with one more access in its log. -/
def State.noted (s : State) (a : Access) : State := { s with log := a :: s.log }

section

variable {g : Geom} {s : State}

@[simp] lemma withDisk_disk (d : Disk) : (s.withDisk d).disk = d := rfl
@[simp] lemma withMem_mem (m : ℕ → Bool) : (s.withMem m).mem = m := rfl
@[simp] lemma noted_disk (a : Access) : (s.noted a).disk = s.disk := rfl
@[simp] lemma noted_log (a : Access) : (s.noted a).log = a :: s.log := rfl

lemma IoOk.withMem (h : IoOk s) (m : ℕ → Bool) : IoOk (s.withMem m) := h

lemma IoOk.noted (h : IoOk s) (a : Access) : IoOk (s.noted a) := h

lemma note_eq (a : Access) : note a s = (some (), s.noted a) := rfl

/-- Taking one outcome off a stream of successes leaves the state as it is. -/
lemma IoOk.tick (h : IoOk s) : { s with io := fun n => s.io (n + 1) } = s := by
  cases s
  simp only [IoOk] at h
  subst h
  rfl

lemma ataRead_eq (h : IoOk s) {lba count : ℕ} (hc : count ≠ 0) :
    ataRead lba count s = (some (readSectors s.disk lba count), s) := by
  have h0 : s.io 0 = none := by rw [h]
  simp only [ataRead, hc, if_false, h0, h.tick]

lemma ataWrite_eq (h : IoOk s) {lba count : ℕ} (hc : count ≠ 0) (b : Buf) : ataWrite lba count b s
      = (some (), s.withDisk (writeSectors s.disk lba count b)) := by
  have h0 : s.io 0 = none := by rw [h]
  have hs : (fun n => s.io (n + 1)) = s.io := by rw [h]
  simp only [ataWrite, hc, if_false, h0, hs]
  rfl

lemma fatNextCluster_eq (h : IoOk s) (c : ℕ) :
    fatNextCluster g c s = (some (fatEntry g s.disk c), s.noted (.next c)) := by
  rw [fatNextCluster, bind_of_some (note_eq _),
    bind_of_some (attempt_of_eq (ataRead_eq (h.noted _) one_ne_zero))]
  rfl

lemma fatSetCluster_eq (h : IoOk s) (c value : ℕ) : fatSetCluster g c value s
      = (some (), (s.noted (.set c)).withDisk (fatPut g s.disk c value)) := by
  rw [fatSetCluster, bind_of_some (ataRead_eq h one_ne_zero), bind_of_some (note_eq _),
    ataWrite_eq (h.noted _) one_ne_zero]
  rfl

lemma readCluster_eq (h : IoOk s) (hg : g.sectorsPerCluster ≠ 0) (c : ℕ) :
    readCluster g c s = (some (clusterBuf g s.disk c), s.noted (.read c)) := by
  rw [readCluster, bind_of_some (note_eq _), ataRead_eq (h.noted _) hg]
  rfl

lemma writeCluster_eq (h : IoOk s) (hg : g.sectorsPerCluster ≠ 0) {c : ℕ} (hc : 2 ≤ c) (b : Buf) :
    writeCluster g c b s = (some (), (s.noted (.write c)).withDisk (clusterPut g s.disk c b)) := by
  rw [writeCluster, if_neg (by omega), bind_of_some (note_eq _), ataWrite_eq (h.noted _) hg]
  rfl

lemma kmalloc_eq : kmalloc s =
    (if s.mem 0 then some () else none, s.withMem fun n => s.mem (n + 1)) := rfl

end

end GordOS.Fat32
