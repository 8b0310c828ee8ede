/-
The scheduler (`kernel/scheduler.c`) and the process lists of `kernel/process.c`.

Process structures are numbered in the order of their creation, the kernel task
first; a pointer to one is its number, and the fields of `process_t` that the
scheduler reads are functions of it. The ready queue, the blocked list and the
zombie list share the single pointer `next`.

* `schedulerAdd`, `schedulerRemove`, `schedulerFind`, `schedulerFindAny`,
  `schedulerHasChild`: the ready ring and its searches;
* `schedulerBlock`, `schedulerWake`, `schedulerWakeWaiter`: sleeping processes;
* `schedulerSwitch`, `schedulerTick`: the context switch;
* `processZombieAdd`, `markDead`, `killProcess`, `exitSwitch`: the ways a process
  leaves the lists (`process_exit`, `sys_kill_pid`, `cmd_kill`);
* `schedulerInit`, `processInit`: the start of the system.
-/
import Mathlib.Tactic
import GordOS.Lib.Links

namespace GordOS.Kernel

open GordOS

/-- `PROCESS_READY` to `PROCESS_DEAD`. -/
inductive ProcState where
  | ready | running | blocked | dead
deriving DecidableEq, Repr

/-- `BLOCK_NONE` to `BLOCK_PIPE_WRITE`. -/
inductive BlockReason where
  | none | wait | read | pipeRead | pipeWrite
deriving DecidableEq, Repr

/-- The state of the scheduler: the fields of all process structures, the heads
of the lists, and the list that the reaper holds. -/
structure Sched where
  next : ℕ → Option ℕ
  state : ℕ → ProcState
  pid : ℕ → ℕ
  parentPid : ℕ → ℕ
  blockReason : ℕ → BlockReason
  waitTarget : ℕ → ℕ
  readyQueue : Option ℕ
  blockedList : Option ℕ
  zombieList : Option ℕ
  reapList : Option ℕ
  current : ℕ
  tickCount : ℕ
  /-- The number of process structures made so far. -/
  size : ℕ

namespace Sched

variable (s : Sched)

/-- `a->next = v`. -/
def setNext (a : ℕ) (v : Option ℕ) : Sched :=
  { s with next := Function.update s.next a v }

/-- `a->state = v`. -/
def setState (a : ℕ) (v : ProcState) : Sched :=
  { s with state := Function.update s.state a v }

/-- The cells of the loops `do … while (p != ready_queue)`. -/
def ringCells : List ℕ :=
  match s.readyQueue with
  | none => []
  | some h => h :: walk s.next (some h) s.size (s.next h)

/-- The cells of the loops `for (p = list; p; p = p->next)`. -/
def listCells (p : Option ℕ) : List ℕ := walk s.next none s.size p

/-- The cells of the blocked list. -/
def blockedCells : List ℕ := s.listCells s.blockedList

/-- The cells of the zombie list. -/
def zombieCells : List ℕ := s.listCells s.zombieList

end Sched

/-! ### The ready ring -/

/-- `TIMESLICE`. -/
def timeslice : ℕ := 10

/-- `scheduler_add`. -/
def schedulerAdd (s : Sched) (proc : ℕ) : Sched :=
  let s := s.setState proc .ready
  match s.readyQueue with
  | none => { s.setNext proc (some proc) with readyQueue := some proc }
  | some h => (s.setNext proc (s.next h)).setNext h (some proc)

/-- `scheduler_remove`. -/
def schedulerRemove (s : Sched) (proc : ℕ) : Sched :=
  match s.readyQueue with
  | none => s
  | some h =>
    match s.ringCells.find? fun q =>
        decide (s.next q = some proc ∨ s.next q = some h) with
    | none => s
    | some prev =>
      if s.next prev ≠ some proc then s
      else
        let s := s.setNext prev (s.next proc)
        let s : Sched :=
          if h = proc then
            { s with
              readyQueue :=
                if s.next proc = some proc then none else s.next proc }
          else s
        s.setNext proc none

/-- `scheduler_find`. -/
def schedulerFind (s : Sched) (pid : ℕ) : Option ℕ :=
  s.ringCells.find? fun p => decide (s.pid p = pid)

/-- `scheduler_find_any`. -/
def schedulerFindAny (s : Sched) (pid : ℕ) : Option ℕ :=
  match schedulerFind s pid with
  | some p => some p
  | none => s.blockedCells.find? fun p => decide (s.pid p = pid)

/-- `scheduler_has_child`. -/
def schedulerHasChild (s : Sched) (parentPid : ℕ) : Bool :=
  s.ringCells.any (fun p => decide (s.parentPid p = parentPid)) ||
    s.blockedCells.any fun p => decide (s.parentPid p = parentPid)

/-! ### Sleeping processes -/

/-- `scheduler_block`: the move to the blocked list is left to the switch. -/
def schedulerBlock (s : Sched) (reason : BlockReason) (target : ℕ) : Sched :=
  { s.setState s.current .blocked with
    blockReason := Function.update s.blockReason s.current reason
    waitTarget := Function.update s.waitTarget s.current target }

/-- The unlinking in `scheduler_wake`. -/
def unlinkBlocked (s : Sched) (proc : ℕ) : Sched :=
  if s.blockedList = some proc then { s with blockedList := s.next proc }
  else
    match s.blockedCells.find? fun p => decide (s.next p = some proc) with
    | some p => s.setNext p (s.next proc)
    | none => s

/-- `scheduler_wake`. -/
def schedulerWake (s : Sched) (proc : ℕ) : Sched :=
  if s.state proc ≠ .blocked then s
  else
    let s := (unlinkBlocked s proc).setNext proc none
    schedulerAdd
      { s with blockReason := Function.update s.blockReason proc .none } proc

/-- The test of `scheduler_wake_waiter`. -/
def waitsFor (s : Sched) (parentPid childPid p : ℕ) : Bool :=
  decide (s.blockReason p = .wait ∧ s.pid p = parentPid ∧
    (s.waitTarget p = 0 ∨ s.waitTarget p = childPid))

/-- `scheduler_wake_waiter`. -/
def schedulerWakeWaiter (s : Sched) (parentPid childPid : ℕ) : Sched :=
  match s.blockedCells.find? (waitsFor s parentPid childPid) with
  | some p => schedulerWake s p
  | none => s

/-! ### The context switch -/

/-- `process_zombie_add`. -/
def processZombieAdd (s : Sched) (proc : ℕ) : Sched :=
  { s.setNext proc s.zombieList with zombieList := some proc }

/-- `scheduler_switch`, up to the change of stacks: what runs next runs as
`current`. -/
def schedulerSwitch (s : Sched) : Sched :=
  match s.readyQueue with
  | none => s
  | some h =>
    match s.next h with
    | none => s
    | some next =>
      let prev := s.current
      if next = prev then s
      else
        let s := { s with current := next, readyQueue := some next }.setState
          next .running
        match s.state prev with
        | .dead => processZombieAdd (schedulerRemove s prev) prev
        | .blocked =>
          let s := schedulerRemove s prev
          { s.setNext prev s.blockedList with blockedList := some prev }
        | _ => s.setState prev .ready

/-- `scheduler_tick`. -/
def schedulerTick (s : Sched) : Sched :=
  match s.readyQueue with
  | none => s
  | some _ =>
    let s := { s with tickCount := (s.tickCount + 1) % 2 ^ 32 }
    if timeslice ≤ s.tickCount ∨ s.state s.current = .dead then
      schedulerSwitch { s with tickCount := 0 }
    else s

/-- A process that sleeps: `scheduler_block` and the switch behind it. -/
def blockSwitch (s : Sched) (reason : BlockReason) (target : ℕ) : Sched :=
  schedulerSwitch (schedulerBlock s reason target)

/-! ### The end of a process -/

/-- The end of `process_exit`: the waiting parent is woken, and the current
process dies. The kernel task never exits. -/
def exitSwitch (s : Sched) : Sched :=
  if s.current = 0 then s
  else
    let proc := s.current
    let s :=
      if s.parentPid proc ≠ 0 then
        schedulerWakeWaiter s (s.parentPid proc) (s.pid proc)
      else s
    schedulerSwitch (s.setState proc .dead)

/-- A killed process: the current one is only marked, any other one is handed to
the reaper at once. -/
def markDead (s : Sched) (proc : ℕ) : Sched :=
  if proc = s.current then s.setState proc .dead
  else processZombieAdd (schedulerRemove (s.setState proc .dead) proc) proc

/-- The search and the unlinking of `sys_kill_pid` and `cmd_kill`. -/
def killProcess (s : Sched) (pid : ℕ) : Sched :=
  if pid = 0 then s
  else
    match schedulerFind s pid with
    | none => s
    | some proc => markDead s proc

/-! ### Creation and the start of the system -/

/-- A new process structure of `process_create`, on no list yet. -/
def newProcess (s : Sched) (pid parentPid : ℕ) : Sched :=
  { s with
    next := Function.update s.next s.size none
    state := Function.update s.state s.size .ready
    pid := Function.update s.pid s.size pid
    parentPid := Function.update s.parentPid s.size parentPid
    blockReason := Function.update s.blockReason s.size .none
    waitTarget := Function.update s.waitTarget s.size 0
    size := s.size + 1 }

/-- The lists after `scheduler_init`, with the kernel task in place. -/
def schedulerInit : Sched where
  next := fun _ => none
  state := fun _ => .ready
  pid := fun _ => 0
  parentPid := fun _ => 0
  blockReason := fun _ => .none
  waitTarget := fun _ => 0
  readyQueue := none
  blockedList := none
  zombieList := none
  reapList := none
  current := 0
  tickCount := 0
  size := 1

/-- `process_init`: the kernel task is the only process, and runs. -/
def processInit : Sched :=
  (schedulerAdd (schedulerInit.setState 0 .running) 0).setState 0 .running

end GordOS.Kernel
