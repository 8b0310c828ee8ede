/-
File descriptors and the file system interface (`fs/vfs.h`, `kernel/process.h`,
and the file part of `kernel/syscall.c`).

* `VfsOps`: the table of operations of a file system driver, and
  `fat32VfsOps`: the one of the FAT32 driver;
* `Fd`: `file_desc_t`;
* `userRangeOk`, `copyUserPath`: the checks of user pointers;
* `fileRead`: reading with a cached position in the cluster chain;
* `fileSeek`: the body of `sys_lseek`.
-/
import Mathlib.Tactic
import GordOS.Fat32.Ops

namespace GordOS.Kernel

open GordOS GordOS.Fallible

/-- A NUL-terminated string. -/
abbrev Name := Fat32.Name

/-- `vfs_ops_t`: the operations of a file system driver on its state. -/
structure VfsOps (FS : Type) where
  readFile : Name → ℕ → Fallible FS (List UInt8)
  writeFile : Name → List UInt8 → Fallible FS Unit
  deleteFile : Name → Fallible FS Unit
  rename : Name → Name → Fallible FS Unit
  mkdir : Name → Fallible FS Unit
  chdir : Name → Fallible FS Unit
  lookup : Name → Fallible FS (ℕ × ℕ)
  clusterSize : ℕ
  nextCluster : ℕ → Fallible FS ℕ
  readCluster : ℕ → Fallible FS (ℕ → UInt8)

/-- `fat32_vfs_ops`. -/
def fat32VfsOps (g : Fat32.Geom) : VfsOps Fat32.State where
  readFile := Fat32.fat32ReadFile g
  writeFile := Fat32.fat32WriteFile g
  deleteFile := Fat32.fat32DeleteFile g
  rename := Fat32.fat32RenameFile g
  mkdir := Fat32.fat32Mkdir g
  chdir := Fat32.fat32Cd g
  lookup := Fat32.fat32LookupFile g
  clusterSize := g.clusterBytes
  nextCluster := Fat32.fatNextCluster g
  readCluster := Fat32.readCluster g

/-- `VFS_CLUSTER_EOC`. -/
def vfsClusterEoc : ℕ := 0x0FFFFFF8

/-! ### File descriptors -/

/-- `FD_NONE` to `FD_PIPE_WRITE`. -/
inductive FdKind where
  | none | file | ttyIn | ttyOut | pipeRead | pipeWrite
deriving DecidableEq, Repr

/-- `file_desc_t`; write buffers and pipes are numbered in the order of their
creation. -/
structure Fd where
  kind : FdKind
  writable : Bool
  wbuf : Option ℕ
  pipe : Option ℕ
  firstCluster : ℕ
  curCluster : ℕ
  clusterOffset : ℕ
  pos : ℕ
  size : ℕ
deriving DecidableEq, Repr

/-- A free slot. -/
def fdNone : Fd := ⟨.none, false, none, none, 0, 0, 0, 0, 0⟩

/-- `MAX_FDS`. -/
def maxFds : ℕ := 8

/-- `fd_init_std`: the standard streams are open. -/
def fdInitStd (i : ℕ) : Fd :=
  match i with
  | 0 => { fdNone with kind := .ttyIn }
  | 1 => { fdNone with kind := .ttyOut }
  | 2 => { fdNone with kind := .ttyOut }
  | _ => fdNone

/-! ### User pointers -/

/-- The end of the user half of an address space. -/
def userTop : ℕ := 0xC0000000

/-- `user_range_ok`. -/
def userRangeOk (buf len : ℕ) : Bool :=
  decide (buf ≠ 0 ∧ buf < userTop ∧ len ≤ userTop - buf)

/-- `copy_user_path` into a buffer of 256 bytes, for the string that user memory
holds at the address. -/
def copyUserPath (upath : ℕ) (str : Name) : Option Name :=
  if upath ≠ 0 ∧ upath + str.length < userTop ∧ str.length < 255 then some str
  else none

/-! ### Reading files -/

section

variable {FS : Type} (ops : VfsOps FS)

/-- A descriptor moves on by `n` bytes inside its cluster. -/
def Fd.advance (f : Fd) (n : ℕ) : Fd :=
  { f with pos := f.pos + n, clusterOffset := f.clusterOffset + n }

/-- The end of a round of `file_read`: behind the last byte of a cluster the
next one is looked up. -/
def nextIfDone (f : Fd) : Fallible FS Fd :=
  if ops.clusterSize ≤ f.clusterOffset then do
    let c ← ops.nextCluster f.curCluster
    pure { f with curCluster := c, clusterOffset := 0 }
  else pure f

/-- The loop of `file_read` with the bytes still wanted, at most as many rounds
as there are bytes to read. -/
def fileReadLoop : ℕ → Fd → ℕ → Fallible FS (List UInt8 × Fd)
  | 0, f, _ => pure ([], f)
  | rounds + 1, f, want =>
    if 0 < want ∧ f.pos < f.size ∧ 2 ≤ f.curCluster ∧ f.curCluster < vfsClusterEoc then do
      match ← attempt (ops.readCluster f.curCluster) with
      | none => pure ([], f)
      | some b => do
        let n := min want (min (ops.clusterSize - f.clusterOffset) (f.size - f.pos))
        let chunk := (List.range n).map fun i => b (f.clusterOffset + i)
        let f ← nextIfDone ops (f.advance n)
        let rest ← fileReadLoop rounds f (want - n)
        pure (chunk ++ rest.1, rest.2)
    else pure ([], f)

/-- `file_read`: the return value, the bytes stored, and the descriptor then.
`mem` tells whether `kmalloc` finds memory for the cluster buffer. -/
def fileRead (mem : Bool) (f : Fd) (len : ℕ) : Fallible FS (ℤ × List UInt8 × Fd) :=
  if f.writable then pure (-1, [], f)
  else if mem then do
    let r ← fileReadLoop ops len f len
    pure (r.1.length, r.1, r.2)
  else pure (-1, [], f)

/-- A 32-bit integer as C computes it. -/
def int32 (x : ℤ) : ℤ := x.bmod (2 ^ 32)

/-- The walk of `sys_lseek` along the chain. -/
def seekWalk : ℕ → ℕ → Fallible FS ℕ
  | 0, c => pure c
  | i + 1, c => do
    let next ← ops.nextCluster c
    if vfsClusterEoc ≤ next then pure next else seekWalk i next

/-- The position `sys_lseek` is asked for. -/
def seekTarget (f : Fd) (offset whence : ℤ) : Option ℤ :=
  if whence = 0 then some offset
  else if whence = 1 then some (int32 (int32 f.pos + offset))
  else if whence = 2 then some (int32 (int32 f.size + offset))
  else none

/-- `sys_lseek` on a descriptor in use. -/
def fileSeek (f : Fd) (offset whence : ℤ) : Fallible FS (ℤ × Fd) :=
  if f.kind ≠ .file ∨ f.writable then pure (-1, f)
  else
    match seekTarget f offset whence with
    | none => pure (-1, f)
    | some newPos =>
      if newPos < 0 then pure (-1, f)
      else do
        let p := newPos.toNat
        let c ← seekWalk ops (p / ops.clusterSize) f.firstCluster
        pure (newPos,
          { f with
            curCluster := c
            clusterOffset := p % ops.clusterSize
            pos := p })

end

end GordOS.Kernel
