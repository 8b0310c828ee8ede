/-
The system calls and the other events of the kernel (`kernel/syscall.c`,
`drivers/keyboard.c`, and `exec`, `bg` and `kill` of `kernel/shell.c`).

A call is answered at once, or the process sleeps and the answer comes when it
goes on. What a call finds in user memory, and whether the kernel finds memory
for it, are part of the call.

* `Syscall`, `Syscall.run`: the system calls of the running process;
* `Cont.run`: a process goes on in the kernel;
* `Event`, `Event.Enabled`, `Event.run`: one step of the machine; interrupts only
  come in user mode and in the idle loop of the kernel task;
* `KStep`: the steps that meet a condition.
-/
import Mathlib.Tactic
import GordOS.Kernel.Kern

namespace GordOS.Kernel

open GordOS

section

variable {FS : Type} (ops : VfsOps FS) (k : Kern FS)

/-- The return to user mode with a value. -/
def answer (ret : ℤ) : Option Reply × Kern FS := (some ⟨ret, []⟩, k.resume)

/-- The four bytes of an `int` in memory. -/
def intBytes (v : ℤ) : List UInt8 :=
  (List.range 4).map fun i => UInt8.ofNat ((v % 2 ^ 32).toNat / 256 ^ i)

/-! ### Reading and writing descriptors -/

/-- `pipe_read_fd`. -/
def pipeReadFd (p len : ℕ) : Option Reply × Kern FS :=
  match k.pipes p with
  | none => answer k (-1)
  | some q =>
    match pipeReadRound k.me q len with
    | (.got chunk, q') =>
      (some ⟨chunk.length, chunk⟩,
        ((k.wake q.blockedWriter).setPipe p (some q')).resume)
    | (.eof, _) => answer k 0
    | (.sleep, q') =>
      (none, (k.setPipe p (some q')).sleep .pipeRead 0 (.pipeRead p len))

/-- The loop of `pipe_write_fd`, with at least as many rounds as there are bytes
to write. -/
def pipeWriteLoop (p : ℕ) (data : List UInt8) :
    ℕ → ℕ → Kern FS → Option Reply × Kern FS
  | 0, written, k => answer k written
  | n + 1, written, k =>
    if written < data.length then
      match k.pipes p with
      | none => answer k (-1)
      | some q =>
        match pipeWriteRound k.me q data written with
        | (.more chunk, q') =>
          pipeWriteLoop p data n (written + chunk.length)
            ((k.wake q.blockedReader).setPipe p (some q'))
        | (.broken, _) => answer k written
        | (.sleep, q') =>
          (none, (k.setPipe p (some q')).sleep .pipeWrite 0
            (.pipeWrite p data written))
    else answer k written

/-- `pipe_write_fd`. -/
def pipeWriteFd (p : ℕ) (data : List UInt8) : Option Reply × Kern FS :=
  match k.pipes p with
  | none => answer k (-1)
  | some q =>
    if q.readOpen = 0 then answer k (-1)
    else pipeWriteLoop p data data.length 0 k

/-- `KBD_BUFFER_SIZE`. -/
def kbdBufferSize : ℕ := 256

/-- `tty_read` and the loop of `sys_readraw`. -/
def ttyRead (len : ℕ) : Option Reply × Kern FS :=
  let n := min len (k.kbd.used kbdBufferSize)
  if 0 < n then
    let r := RingBuffer.popN kbdBufferSize n k.kbd
    (some ⟨n, r.1⟩, { k with kbd := r.2 }.resume)
  else (none, k.sleep .read 0 (.ttyRead len))

/-- The descriptor behind a number, if it is in use. -/
def fdOf (fd : ℤ) : Option ℕ :=
  if fd < 0 ∨ (maxFds : ℤ) ≤ fd ∨ (k.fds k.me fd.toNat).kind = .none then none
  else some fd.toNat

/-- `do_fd_write` of the bytes at an address. -/
def doFdWrite (fd : ℤ) (buf : ℕ) (data : List UInt8) : Option Reply × Kern FS :=
  match fdOf k fd with
  | none => answer k (-1)
  | some i =>
    if ¬ userRangeOk buf data.length then answer k (-1)
    else
      let f := k.fds k.me i
      match f.kind with
      | .ttyOut => answer k data.length
      | .file =>
        match f.buffer with
        | none => answer k (-1)
        | some w =>
          let r := wbufWrite k w data
          answer r.2 r.1
      | .pipeWrite =>
        match f.pipe with
        | none => answer k (-1)
        | some p => pipeWriteFd k p data
      | _ => answer k (-1)

/-- `do_fd_read`. -/
def doFdRead (fd : ℤ) (buf len : ℕ) (mem : Bool) : Option Reply × Kern FS :=
  match fdOf k fd with
  | none => answer k (-1)
  | some i =>
    if ¬ userRangeOk buf len then answer k (-1)
    else if len = 0 then answer k 0
    else
      let f := k.fds k.me i
      match f.kind with
      | .ttyIn => ttyRead k len
      | .file =>
        match fileRead ops mem f len k.fs with
        | (none, fs) => answer { k with fs := fs } (-1)
        | (some (ret, bytes, f'), fs) =>
          (some ⟨ret, bytes⟩, ({ k with fs := fs }.setFd k.me i f').resume)
      | .pipeRead =>
        match f.pipe with
        | none => answer k (-1)
        | some p => pipeReadFd k p len
      | _ => answer k (-1)

/-- `sys_lseek`. -/
def sysLseek (fd offset whence : ℤ) : Option Reply × Kern FS :=
  match fdOf k fd with
  | none => answer k (-1)
  | some i =>
    match fileSeek ops (k.fds k.me i) offset whence k.fs with
    | (none, fs) => answer { k with fs := fs } (-1)
    | (some (ret, f'), fs) => answer ({ k with fs := fs }.setFd k.me i f') ret

/-! ### Opening and closing -/

/-- The first free slot of the running process. -/
def freeSlot : Option ℕ :=
  (List.range maxFds).find? fun i => decide ((k.fds k.me i).kind = .none)

/-- `sys_open`. -/
def sysOpen (upath : ℕ) (str : Name) (flags : ℕ) (mem : Bool) :
    Option Reply × Kern FS :=
  match copyUserPath upath str with
  | none => answer k (-1)
  | some path =>
    match freeSlot k with
    | none => answer k (-1)
    | some i =>
      let f := k.fds k.me i
      if flags % 2 = 1 then
        if mem then
          answer ((wbufOpen k path).setFd k.me i
            { f with kind := .file, writable := true, wbuf := some k.wbufCount }) i
        else answer k (-1)
      else
        match ops.lookup path k.fs with
        | (none, fs) => answer { k with fs := fs } (-1)
        | (some (cluster, size), fs) =>
          answer ({ k with fs := fs }.setFd k.me i
            { f with
              kind := .file
              writable := false
              wbuf := none
              firstCluster := cluster
              curCluster := cluster
              clusterOffset := 0
              pos := 0
              size := size }) i

/-- The release of a slot of the running process in `sys_close`. -/
def closeFd (i : ℕ) : Kern FS :=
  (releaseFd ops k (k.fds k.me i)).setFd k.me i
    { k.fds k.me i with kind := .none, writable := false, wbuf := none, pipe := none }

/-- `sys_close`. -/
def sysClose (fd : ℤ) : Option Reply × Kern FS :=
  match fdOf k fd with
  | none => answer k (-1)
  | some i => answer (closeFd ops k i) 0

/-- `sys_dup2`. -/
def sysDup2 (oldfd newfd : ℤ) : Option Reply × Kern FS :=
  match fdOf k oldfd with
  | none => answer k (-1)
  | some i =>
    if newfd < 0 ∨ (maxFds : ℤ) ≤ newfd then answer k (-1)
    else if oldfd = newfd then answer k newfd
    else
      let j := newfd.toNat
      let k := if (k.fds k.me j).kind = .none then k else closeFd ops k j
      answer (shareFd (k.setFd k.me j (k.fds k.me i)) (k.fds k.me i)) newfd

/-- `sys_pipe`: the numbers of the two descriptors go to user memory. -/
def sysPipe (userFds : ℕ) (mem : Bool) : Option Reply × Kern FS :=
  if ¬ userRangeOk userFds 8 then answer k (-1)
  else
    match (List.range maxFds).filter fun i => decide ((k.fds k.me i).kind = .none) with
    | r :: w :: _ =>
      if mem then
        let p := k.pipeCount
        let k := { k.setPipe p (some pipeCreate) with pipeCount := p + 1 }
        let k := k.setFd k.me r { k.fds k.me r with kind := .pipeRead, pipe := some p }
        let k := k.setFd k.me w { k.fds k.me w with kind := .pipeWrite, pipe := some p }
        (some ⟨0, intBytes r ++ intBytes w⟩, k.resume)
      else answer k (-1)
    | _ => answer k (-1)

/-! ### Processes -/

/-- The test of `sys_wait` for a child to wait on. -/
def hasWaitChild (target : ℕ) : Bool :=
  if target = 0 then schedulerHasChild k.sched (k.sched.pid k.me)
  else (schedulerFindAny k.sched target).any fun c =>
    decide (k.sched.parentPid c = k.sched.pid k.me)

/-- The loop of `sys_wait`. -/
def waitLoop (target status : ℕ) : Option Reply × Kern FS :=
  match processReapChild (k.sched.pid k.me) target k.records with
  | some (r, records) =>
    let k : Kern FS :=
      { k with records := records, waits := k.waits ++ [⟨k.me, target, r⟩] }
    (some ⟨int32 r.pid, if status ≠ 0 then intBytes r.code else []⟩, k.resume)
  | none =>
    if hasWaitChild k target then (none, k.sleep .wait target (.wait target status))
    else answer k (-1)

/-- `sys_wait` and `sys_waitpid`. -/
def sysWait (target status : ℕ) : Option Reply × Kern FS :=
  if status ≠ 0 ∧ ¬ userRangeOk status 4 then answer k (-1)
  else waitLoop k target status

/-- The part `sys_kill_pid` and `cmd_kill` share: the process of the ready ring
with that pid loses the keyboard and dies. -/
def killPid (pid : ℕ) : ℤ × Kern FS :=
  if pid = 0 then (-1, k)
  else
    match schedulerFind k.sched pid with
    | none => (-1, k)
    | some proc =>
      (0,
        { k with
          foreground := if k.foreground = some proc then none else k.foreground
          sched := markDead k.sched proc })

/-- `sys_kill_pid`. -/
def sysKillPid (pid : ℕ) : Option Reply × Kern FS :=
  answer (killPid k pid).2 (killPid k pid).1

/-- `sys_give_foreground`. -/
def sysGiveForeground (pid : ℕ) : Option Reply × Kern FS :=
  match schedulerFindAny k.sched pid with
  | none => answer k (-1)
  | some target => answer { k with foreground := some target } 0

/-- How `process_exec` ends: the caller goes on, the new program starts, or there
was no memory left for it. -/
inductive ExecOutcome where
  | refused | started | died
deriving DecidableEq

/-- `sys_exec`: the file is looked up and read. -/
def sysExec (upath : ℕ) (str : Name) (mem : Bool) (o : ExecOutcome) :
    Option Reply × Kern FS :=
  match copyUserPath upath str with
  | none => answer k (-1)
  | some path =>
    match ops.lookup path k.fs with
    | (none, fs) => answer { k with fs := fs } (-1)
    | (some (_, size), fs) =>
      if mem then
        match ops.readFile path size fs with
        | (none, fs) => answer { k with fs := fs } (-1)
        | (some _, fs) =>
          match o with
          | .refused => answer { k with fs := fs } (-1)
          | .started => (none, { k with fs := fs })
          | .died => (none, processExit ops { k with fs := fs })
      else answer { k with fs := fs } (-1)

/-! ### Whole files and directories -/

/-- The changes of the file system that the kernel shell makes. -/
inductive FsOp where
  | write (path : Name) (data : List UInt8)
  | delete (path : Name)
  | rename (oldpath newpath : Name)
  | mkdir (path : Name)
  | chdir (path : Name)

/-- The call of the driver. -/
def FsOp.run : FsOp → Fallible FS Unit
  | .write path data => ops.writeFile path data
  | .delete path => ops.deleteFile path
  | .rename oldpath newpath => ops.rename oldpath newpath
  | .mkdir path => ops.mkdir path
  | .chdir path => ops.chdir path

/-- The calls that go straight to the file system, with the strings and bytes
that user memory holds at the addresses. -/
inductive FsCall where
  | readfile (upath : ℕ) (str : Name) (buf max : ℕ)
  | writefile (upath : ℕ) (str : Name) (buf : ℕ) (data : List UInt8)
  | chdir (upath : ℕ) (str : Name)
  | mkdir (upath : ℕ) (str : Name)
  | rmfile (upath : ℕ) (str : Name)
  | rename (uold : ℕ) (old : Name) (unew : ℕ) (new : Name)

/-- A call of the driver that returns `0` or `-1`. -/
def fsAnswer (m : Fallible FS Unit) : Option Reply × Kern FS :=
  answer { k with fs := (m k.fs).2 } (if (m k.fs).1.isSome then 0 else -1)

/-- `sys_readfile`, `sys_writefile`, `sys_chdir`, `sys_mkdir_sc`, `sys_rmfile` and
`sys_rename_sc`. -/
def sysFs : FsCall → Option Reply × Kern FS
  | .readfile upath str buf max =>
    match copyUserPath upath str with
    | none => answer k (-1)
    | some path =>
      if ¬ userRangeOk buf max then answer k (-1)
      else
        match ops.readFile path max k.fs with
        | (none, fs) => answer { k with fs := fs } (-1)
        | (some bytes, fs) => (some ⟨bytes.length, bytes⟩, { k with fs := fs }.resume)
  | .writefile upath str buf data =>
    match copyUserPath upath str with
    | none => answer k (-1)
    | some path =>
      if ¬ userRangeOk buf data.length then answer k (-1)
      else fsAnswer k (ops.writeFile path data)
  | .chdir upath str =>
    match copyUserPath upath str with
    | none => answer k (-1)
    | some path => fsAnswer k (ops.chdir path)
  | .mkdir upath str =>
    match copyUserPath upath str with
    | none => answer k (-1)
    | some path => fsAnswer k (ops.mkdir path)
  | .rmfile upath str =>
    match copyUserPath upath str with
    | none => answer k (-1)
    | some path => fsAnswer k (ops.deleteFile path)
  | .rename uold old unew new =>
    match copyUserPath uold old, copyUserPath unew new with
    | some oldp, some newp => fsAnswer k (ops.rename oldp newp)
    | _, _ => answer k (-1)

/-! ### System calls -/

/-- The system calls; `other` stands for those that change nothing here. -/
inductive Syscall where
  | write (fd : ℤ) (buf : ℕ) (data : List UInt8)
  | read (fd : ℤ) (buf len : ℕ) (mem : Bool)
  | readraw (buf len : ℕ)
  | lseek (fd offset whence : ℤ)
  | open (upath : ℕ) (str : Name) (flags : ℕ) (mem : Bool)
  | close (fd : ℤ)
  | dup2 (oldfd newfd : ℤ)
  | pipe (userFds : ℕ) (mem : Bool)
  | exit (code : ℤ)
  | fork (o : ForkOutcome)
  | exec (upath : ℕ) (str : Name) (mem : Bool) (o : ExecOutcome)
  | wait (target status : ℕ)
  | giveForeground (pid : ℕ)
  | kill (pid : ℕ)
  | fs (c : FsCall)
  | other (ret : ℤ)

/-- `syscall_handler`: the answer, if it comes at once, and the state then. -/
def Syscall.run : Syscall → Option Reply × Kern FS
  | .write fd buf data => doFdWrite k fd buf data
  | .read fd buf len mem => doFdRead ops k fd buf len mem
  | .readraw buf len =>
    if ¬ userRangeOk buf len then answer k (-1)
    else if len = 0 then answer k 0
    else ttyRead k len
  | .lseek fd offset whence => sysLseek ops k fd offset whence
  | .open upath str flags mem => sysOpen ops k upath str flags mem
  | .close fd => sysClose ops k fd
  | .dup2 oldfd newfd => sysDup2 ops k oldfd newfd
  | .pipe userFds mem => sysPipe k userFds mem
  | .exit code =>
    (none, processExit ops { k with exitCode := Function.update k.exitCode k.me code })
  | .fork o => answer (processFork ops k o).2 (processFork ops k o).1
  | .exec upath str mem o => sysExec ops k upath str mem o
  | .wait target status => sysWait k target status
  | .giveForeground pid => sysGiveForeground k pid
  | .kill pid => sysKillPid k pid
  | .fs c => sysFs ops k c
  | .other ret => answer k ret

/-- The running process goes on in the kernel, behind the switch that put it to
sleep. -/
def Cont.run : Cont → Option Reply × Kern FS
  | .user => (none, k)
  | .pipeRead p len => pipeReadFd k p len
  | .pipeWrite p data written =>
    pipeWriteLoop p data (data.length - written) written k
  | .wait target status => waitLoop k target status
  | .ttyRead len => Kernel.ttyRead k len

/-! ### Interrupts and the kernel shell -/

/-- `deliver_char` for the foreground process. -/
def deliverChar (c : UInt8) : Kern FS :=
  match k.foreground with
  | none => k
  | some a =>
    let k :=
      if (k.kbd.head + 1) % kbdBufferSize ≠ k.kbd.tail then
        { k with kbd := k.kbd.push kbdBufferSize c }
      else k
    if k.sched.state a = .blocked ∧ k.sched.blockReason a = .read then k.wake (some a)
    else k

/-- How loading the image and mapping the stack of a new program end. -/
inductive LoadOutcome where
  | noProcess | noProgram | done
deriving DecidableEq

/-- `start_program` behind the reading of the file. -/
def startProgram (foreground : Bool) (o : LoadOutcome) : Kern FS :=
  match o with
  | .noProcess => k
  | .noProgram => processDestroy ops (processCreate k) k.sched.size
  | .done =>
    let a := k.sched.size
    let k := processCreate k
    { k with
      kbd := if foreground then { k.kbd with tail := k.kbd.head } else k.kbd
      foreground := if foreground then some a else k.foreground
      sched := schedulerAdd k.sched a }

/-- One step of the machine: a system call or a fault of the running process, a
process that goes on in the kernel, an interrupt, a command of the kernel shell,
or a round of the reaper. -/
inductive Event where
  | call (c : Syscall)
  | fault
  | resume
  | tick
  | key (c : UInt8)
  | shellStart (foreground : Bool) (o : LoadOutcome)
  | shellKill (pid : ℕ)
  | shellFs (op : FsOp)
  | reapTake
  | reapOne

/-- When an event can happen. A process in the middle of a system call can only
go on with it; the kernel shell has the keyboard when no process has it; the
reaper is the kernel task. -/
def Event.Enabled : Event → Prop
  | .call _ => k.cont k.me = .user ∧ k.me ≠ 0
  | .fault => k.cont k.me = .user ∧ k.me ≠ 0
  | .resume => k.cont k.me ≠ .user
  | .tick => k.cont k.me = .user
  | .key _ => k.cont k.me = .user ∧ k.foreground ≠ none
  | .shellStart _ _ => k.cont k.me = .user ∧ k.foreground = none
  | .shellKill _ => k.cont k.me = .user ∧ k.foreground = none
  | .shellFs _ => k.cont k.me = .user ∧ k.foreground = none
  | .reapTake => k.cont k.me = .user ∧ k.me = 0 ∧ k.sched.reapList = none
  | .reapOne => k.cont k.me = .user ∧ k.me = 0 ∧ k.sched.reapList ≠ none

instance (e : Event) : Decidable (e.Enabled k) := by
  cases e <;> unfold Event.Enabled <;> infer_instance

/-- What an event does, with the answer to the running process. -/
def Event.run : Event → Option Reply × Kern FS
  | .call c => c.run ops k
  | .fault =>
    (none, processExit ops { k with exitCode := Function.update k.exitCode k.me (-1) })
  | .resume => (k.cont k.me).run k
  | .tick => (none, { k with sched := schedulerTick k.sched })
  | .key c => (none, deliverChar k c)
  | .shellStart foreground o => (none, startProgram ops k foreground o)
  | .shellKill pid => (none, (killPid k pid).2)
  | .shellFs op => (none, { k with fs := (op.run ops k.fs).2 })
  | .reapTake => (none, Kernel.reapTake k)
  | .reapOne => (none, Kernel.reapOne ops k)

end

section

variable {FS : Type} (ops : VfsOps FS)

/-- A step by an event that can happen and meets a condition. -/
def KStep (P : Event → Kern FS → Prop) (k k' : Kern FS) : Prop :=
  ∃ e : Event, e.Enabled k ∧ P e k ∧ k' = (e.run ops k).2

/-- The kernel after `process_init`, with a file system mounted. -/
def kernInit (fs : FS) : Kern FS where
  sched := processInit
  fds := fun _ => fdInitStd
  exitCode := fun _ => 0
  cont := fun _ => .user
  freed := fun _ => false
  foreground := none
  records := List.replicate 16 none
  nextPid := 1
  pipes := fun _ => none
  pipeCount := 0
  wbufs := fun _ => none
  wbufCount := 0
  kbd := ⟨fun _ => 0, 0, 0⟩
  fs := fs
  exits := []
  waits := []
  writes := []
  flushed := []

end

end GordOS.Kernel
