/-
The state of the kernel and the life of processes (`kernel/process.c`,
`kernel/wbuf.c`).

A process that sleeps in the middle of a system call has its place in the kernel
noted (`Cont`): the loop it goes on with when it runs again. Write buffers and
pipes are numbered in the order of their creation, and a number is never used
again, so that a pointer to a released object stays visible as such.

* `Kern`: the state, with the history of exits, waits and buffered writes;
* `wbufOpen`, `wbufRef`, `wbufUnref`, `wbufWrite`: write buffers;
* `closePipeEnd`, `releaseFd`, `fdCloseWritable`, `fdClosePipes`, `shareFd`: the
  resources behind file descriptors;
* `recordExit`, `processReapChild`: the table of exit records;
* `processCreate`, `processFork`, `processExit`, `processDestroy`, `reapTake`,
  `reapOne`: the life of a process.
-/
import Mathlib.Tactic
import GordOS.Kernel.Files
import GordOS.Kernel.Pipe
import GordOS.Kernel.Sched

namespace GordOS.Kernel

open GordOS

/-! ### The state -/

/-- `wbuf_t`. -/
structure Wbuf where
  buf : List UInt8
  refcount : ℤ
  path : Name
deriving DecidableEq

/-- An exit record: a pid, the pid of the parent, and the exit code. -/
structure ExitRecord where
  pid : ℕ
  parentPid : ℕ
  code : ℤ
deriving DecidableEq

/-- A wait that returned: the caller, the target it gave, and the record it
collected. -/
structure WaitReturn where
  caller : ℕ
  target : ℕ
  record : ExitRecord
deriving DecidableEq

/-- Where a process goes on in the kernel when it runs again. -/
inductive Cont where
  /-- The process is in user mode. -/
  | user
  | pipeRead (p len : ℕ)
  | pipeWrite (p : ℕ) (data : List UInt8) (written : ℕ)
  | wait (target status : ℕ)
  | ttyRead (len : ℕ)
deriving DecidableEq

/-- The state of the kernel, over the state of a file system. -/
structure Kern (FS : Type) where
  sched : Sched
  fds : ℕ → ℕ → Fd
  exitCode : ℕ → ℤ
  cont : ℕ → Cont
  /-- The process structures given back by `process_destroy`. -/
  freed : ℕ → Bool
  foreground : Option ℕ
  records : List (Option ExitRecord)
  nextPid : ℕ
  pipes : ℕ → Option Pipe
  pipeCount : ℕ
  wbufs : ℕ → Option Wbuf
  wbufCount : ℕ
  kbd : RingBuffer UInt8
  fs : FS
  /-- The exits of processes, in order. -/
  exits : List ExitRecord
  /-- The waits that returned a child, in order. -/
  waits : List WaitReturn
  /-- The bytes that write buffers accepted, in order. -/
  writes : List (ℕ × List UInt8)
  /-- The write buffers flushed to disk, in order. -/
  flushed : List ℕ

/-- What a system call hands back to the program: the return value and the bytes
stored in its buffer. -/
structure Reply where
  ret : ℤ
  bytes : List UInt8
deriving DecidableEq

section

variable {FS : Type} (ops : VfsOps FS) (k : Kern FS)

namespace Kern

/-- The process that runs. -/
def me : ℕ := k.sched.current

/-- A slot of the file table of a process changes. -/
def setFd (a i : ℕ) (f : Fd) : Kern FS :=
  { k with fds := Function.update k.fds a (Function.update (k.fds a) i f) }

/-- A pipe changes. -/
def setPipe (p : ℕ) (v : Option Pipe) : Kern FS :=
  { k with pipes := Function.update k.pipes p v }

/-- A write buffer changes. -/
def setWbuf (w : ℕ) (v : Option Wbuf) : Kern FS :=
  { k with wbufs := Function.update k.wbufs w v }

/-- `scheduler_wake` of a noted process, if there is one. -/
def wake (a : Option ℕ) : Kern FS :=
  match a with
  | none => k
  | some a => { k with sched := schedulerWake k.sched a }

/-- The running process sleeps, and goes on with `c` when it runs again. -/
def sleep (reason : BlockReason) (target : ℕ) (c : Cont) : Kern FS :=
  { k with
    cont := Function.update k.cont k.me c
    sched := blockSwitch k.sched reason target }

/-- The running process is back in user mode. -/
def resume : Kern FS := { k with cont := Function.update k.cont k.me .user }

end Kern

/-! ### Write buffers -/

/-- `WBUF_CAP`. -/
def wbufCap : ℕ := 65536

/-- `wbuf_open`: a new buffer, with its own copy of the path in 64 bytes. -/
def wbufOpen (path : Name) : Kern FS :=
  { k.setWbuf k.wbufCount (some ⟨[], 1, path.take 63⟩) with
    wbufCount := k.wbufCount + 1 }

/-- `wbuf_ref`. -/
def wbufRef (w : Option ℕ) : Kern FS :=
  match w with
  | none => k
  | some w => k.setWbuf w ((k.wbufs w).map fun b => { b with refcount := b.refcount + 1 })

/-- `wbuf_unref`: the last reference flushes the buffer to disk and frees it. -/
def wbufUnref (w : Option ℕ) : Kern FS :=
  match w with
  | none => k
  | some w =>
    match k.wbufs w with
    | none => k
    | some b =>
      if 0 < b.refcount - 1 then
        k.setWbuf w (some { b with refcount := b.refcount - 1 })
      else
        { k.setWbuf w none with
          fs := (ops.writeFile b.path b.buf k.fs).2
          flushed := k.flushed ++ [w] }

/-- `wbuf_write`: as many bytes as fit. -/
def wbufWrite (w : ℕ) (data : List UInt8) : ℤ × Kern FS :=
  match k.wbufs w with
  | none => (-1, k)
  | some b =>
    let chunk := data.take (wbufCap - b.buf.length)
    (chunk.length,
      { k.setWbuf w (some { b with buf := b.buf ++ chunk }) with
        writes := k.writes ++ [(w, chunk)] })

/-! ### The resources behind descriptors -/

/-- The two ends of a pipe. -/
inductive PipeEnd where
  | read | write
deriving DecidableEq

/-- The change of `read_open` or `write_open`. -/
def Pipe.addOpen (q : Pipe) (e : PipeEnd) (d : ℤ) : Pipe :=
  match e with
  | .read => { q with readOpen := q.readOpen + d }
  | .write => { q with writeOpen := q.writeOpen + d }

/-- The process waiting at the other end. -/
def Pipe.peer (q : Pipe) : PipeEnd → Option ℕ
  | .read => q.blockedWriter
  | .write => q.blockedReader

/-- The process waiting at the other end is forgotten. -/
def Pipe.clearPeer (q : Pipe) : PipeEnd → Pipe
  | .read => { q with blockedWriter := none }
  | .write => { q with blockedReader := none }

/-- The closing of a pipe end in `sys_close` and `fd_close_pipes`: the process
waiting at the other end is woken, and a pipe without open ends is destroyed. -/
def closePipeEnd (e : PipeEnd) (p : ℕ) : Kern FS :=
  match k.pipes p with
  | none => k
  | some q =>
    let q := q.addOpen e (-1)
    let k := (k.wake (q.peer e)).setPipe p (some (q.clearPeer e))
    if q.readOpen ≤ 0 ∧ q.writeOpen ≤ 0 then k.setPipe p none else k

/-- The end of the pipe a descriptor refers to. -/
def Fd.pipeEnd (f : Fd) : Option (PipeEnd × ℕ) :=
  match f.kind, f.pipe with
  | .pipeRead, some p => some (.read, p)
  | .pipeWrite, some p => some (.write, p)
  | _, _ => none

/-- The write buffer a descriptor refers to. -/
def Fd.buffer (f : Fd) : Option ℕ :=
  if f.kind = .file ∧ f.writable then f.wbuf else none

/-- What `sys_close` does for the resource behind a descriptor. -/
def releaseFd (f : Fd) : Kern FS :=
  let k := wbufUnref ops k f.buffer
  match f.pipeEnd with
  | none => k
  | some (e, p) => closePipeEnd k e p

/-- What `sys_dup2` and `process_fork` do for a copied descriptor: one more
reference to its resource. -/
def shareFd (f : Fd) : Kern FS :=
  let k := wbufRef k f.buffer
  match f.pipeEnd with
  | none => k
  | some (e, p) => k.setPipe p ((k.pipes p).map fun q => q.addOpen e 1)

/-- One round of `fd_close_writable`. -/
def fdCloseWritableSlot (a i : ℕ) : Kern FS :=
  let f := k.fds a i
  match f.buffer with
  | none => k
  | some w => (wbufUnref ops k (some w)).setFd a i { f with wbuf := none, kind := .none }

/-- `fd_close_writable`. -/
@[irreducible] def fdCloseWritable (a : ℕ) : Kern FS :=
  (List.range maxFds).foldl (fun k i => fdCloseWritableSlot ops k a i) k

/-- One round of `fd_close_pipes`. -/
def fdClosePipesSlot (a i : ℕ) : Kern FS :=
  let f := k.fds a i
  match f.pipeEnd with
  | none => k
  | some (e, p) => (closePipeEnd k e p).setFd a i { f with kind := .none, pipe := none }

/-- `fd_close_pipes`. -/
@[irreducible] def fdClosePipes (a : ℕ) : Kern FS :=
  (List.range maxFds).foldl (fun k i => fdClosePipesSlot k a i) k

/-! ### Exit records -/

/-- `record_exit`: the first free slot, or slot `0` of a full table. -/
def recordExit (r : ExitRecord) (l : List (Option ExitRecord)) :
    List (Option ExitRecord) :=
  l.set ((l.findIdx? Option.isNone).getD 0) (some r)

/-- The test of `process_reap_child`. -/
def ExitRecord.matches (parentPid target : ℕ) (r : ExitRecord) : Bool :=
  decide (r.parentPid = parentPid ∧ (target = 0 ∨ r.pid = target))

/-- `process_reap_child`: the record collected and the table then. -/
def processReapChild (parentPid target : ℕ) (l : List (Option ExitRecord)) :
    Option (ExitRecord × List (Option ExitRecord)) :=
  match l.findIdx? (fun r => r.any (ExitRecord.matches parentPid target)) with
  | none => none
  | some i => (l.getD i none).map fun r => (r, l.set i none)

/-! ### Processes -/

/-- `process_create`, if there is memory for it: the number of the new process is
the next one. -/
def processCreate : Kern FS :=
  let a := k.sched.size
  { k with
    sched := newProcess k.sched k.nextPid (k.sched.pid k.me)
    fds := Function.update k.fds a fdInitStd
    exitCode := Function.update k.exitCode a 0
    cont := Function.update k.cont a .user
    nextPid := (k.nextPid + 1) % 2 ^ 32 }

/-- `process_destroy`: the descriptors are closed, and the structure is freed. -/
def processDestroy (a : ℕ) : Kern FS :=
  if a = 0 then k
  else
    let k := fdClosePipes (fdCloseWritable ops k a) a
    { k with freed := Function.update k.freed a true }

/-- One round of the copy of the file table in `process_fork`. -/
def inheritFd (parent child i : ℕ) : Kern FS :=
  shareFd (k.setFd child i (k.fds parent i)) (k.fds parent i)

/-- The copy of the file table in `process_fork`. -/
@[irreducible] def inheritFds (parent child : ℕ) : Kern FS :=
  (List.range maxFds).foldl (fun k i => inheritFd k parent child i) k

/-- How the creation of an address space and the copy into it end. -/
inductive ForkOutcome where
  | noProcess | noCopy | done
deriving DecidableEq

/-- `process_fork` and the reply of `SYS_FORK`. -/
def processFork (o : ForkOutcome) : ℤ × Kern FS :=
  match o with
  | .noProcess => (-1, k)
  | .noCopy => (-1, processDestroy ops (inheritFds (processCreate k) k.me k.sched.size)
      k.sched.size)
  | .done =>
    let child := k.sched.size
    let k := inheritFds (processCreate k) k.me child
    (int32 (k.sched.pid child), { k with sched := schedulerAdd k.sched child })

/-- The hand-over of the keyboard in `process_exit`: back to the parent, if there
is one. -/
def exitForeground (a : ℕ) : Option ℕ :=
  if k.foreground = some a then
    if k.sched.parentPid a ≠ 0 then schedulerFindAny k.sched (k.sched.parentPid a)
    else none
  else k.foreground

/-- The end of `process_exit`: the exit is recorded unless the parent is the
kernel task, the parent is woken, and the process dies. -/
def exitTail (a : ℕ) : Kern FS :=
  let r : ExitRecord := ⟨k.sched.pid a, k.sched.parentPid a, k.exitCode a⟩
  { k with
    records := if k.sched.parentPid a ≠ 0 then recordExit r k.records else k.records
    exits := k.exits ++ [r]
    sched := exitSwitch k.sched }

/-- `process_exit`. -/
def processExit : Kern FS :=
  let a := k.me
  if a = 0 then k
  else
    let k := { k with foreground := exitForeground k a }
    exitTail (fdClosePipes (fdCloseWritable ops k a) a) a

/-- The start of `process_reap`: the zombie list is taken over. -/
def reapTake : Kern FS :=
  { k with sched := { k.sched with reapList := k.sched.zombieList, zombieList := none } }

/-- The pid that a round of `process_reap` announces with `shell_on_process_exit`,
which brings the prompt of the kernel shell back. -/
def reapNotice : Option ℕ :=
  k.sched.reapList.bind fun a =>
    if k.sched.parentPid a = 0 then some (k.sched.pid a) else none

/-- One round of `process_reap`. -/
def reapOne : Kern FS :=
  match k.sched.reapList with
  | none => k
  | some a =>
    processDestroy ops
      { k with sched := { k.sched with reapList := k.sched.next a } } a

end

end GordOS.Kernel
