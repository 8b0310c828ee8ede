/-
Runs of the scheduler.

* `SchedStep`: the operations that change the lists;
* `SchedOk`: the ready queue is a ring through the kernel task headed by the
  current process, the blocked list ends, and every process is on exactly one
  list, in the state of that list;
* `schedOk_of_run`: **every run from `process_init` keeps the lists in order**;
* `turn_of_run`: **every ready process gets its turn**.
-/
import Mathlib.Tactic
import GordOS.Kernel.SchedLists

namespace GordOS.Kernel

open GordOS Relation

/-- One operation on the lists. Only a process other than the kernel task goes
to sleep. -/
inductive SchedStep (s : Sched) : Sched → Prop where
  | add (pid parentPid : ℕ) :
      SchedStep s (schedulerAdd (newProcess s pid parentPid) s.size)
  | tick : SchedStep s (schedulerTick s)
  | block (h0 : s.current ≠ 0) (reason : BlockReason) (target : ℕ) :
      SchedStep s (blockSwitch s reason target)
  | wake (p : ℕ) : SchedStep s (schedulerWake s p)
  | wakeWaiter (parentPid childPid : ℕ) :
      SchedStep s (schedulerWakeWaiter s parentPid childPid)
  | exit : SchedStep s (exitSwitch s)
  | kill (pid : ℕ) : SchedStep s (killProcess s pid)

/-- The ready queue is one simple cycle through `next` that contains the kernel
task and starts at the current process; the blocked list is simple and ends with
a null pointer; a process that is not a zombie is on exactly one of the two. -/
structure SchedOk (s : Sched) (ring blocked zombies : List ℕ) : Prop where
  queue : s.readyQueue = some s.current
  head : ring.head? = some s.current
  cycle : Links s.next ring s.readyQueue s.readyQueue
  simple : ring.Nodup
  kernel : 0 ∈ ring
  blockedList : Links s.next blocked s.blockedList none
  blockedSimple : blocked.Nodup
  zombieList : Links s.next zombies s.zombieList none
  one : ∀ a < s.size, a ∉ zombies →
    (a ∈ ring ∧ a ∉ blocked) ∨ (a ∈ blocked ∧ a ∉ ring)
  ready : ∀ a ∈ ring, a ≠ s.current → s.state a = .ready
  sleeps : ∀ a ∈ blocked, s.state a = .blocked
  gone : ∀ a ∈ zombies, a ∉ ring ∧ a ∉ blocked

/-- The lists are in order, nothing is with the reaper, and every process is on
one of them. -/
structure Tracked (s : Sched) (t b z : List ℕ) : Prop where
  lists : Lists s t b z []
  cover : ∀ a < s.size, a ∈ s.current :: t ∨ a ∈ b ∨ a ∈ z

section

variable {s s' : Sched} {t b z q : List ℕ}

/-- The first waiting process found is woken. -/
lemma Lists.wakeWaiter (h : Lists s t b z q) (parentPid childPid : ℕ) :
    (schedulerWakeWaiter s parentPid childPid = s ∧
      ∀ p ∈ b, waitsFor s parentPid childPid p = false) ∨
    ∃ b₁ p b₂, b = b₁ ++ p :: b₂ ∧ waitsFor s parentPid childPid p = true ∧
      schedulerWakeWaiter s parentPid childPid = schedulerWake s p := by
  cases hf : b.find? (waitsFor s parentPid childPid) with
  | none =>
    refine .inl ⟨?_, fun p hp => ?_⟩
    · rw [schedulerWakeWaiter, h.blockedCells, hf]
    · simpa using List.find?_eq_none.mp hf p hp
  | some p =>
    obtain ⟨hp, b₁, b₂, rfl, -⟩ := List.find?_eq_some_iff_append.mp hf
    refine .inr ⟨b₁, p, b₂, rfl, hp, ?_⟩
    rw [schedulerWakeWaiter, h.blockedCells, hf]

/-- A process found on the ring. -/
lemma Lists.find_mem (h : Lists s t b z q) {pid p : ℕ} (hf : schedulerFind s pid = some p) :
    p ∈ s.current :: t ∧ s.pid p = pid := by
  rw [schedulerFind, h.ringCells] at hf
  exact ⟨List.mem_of_find?_eq_some hf, by simpa using List.find?_some hf⟩

lemma Tracked.wake (h : Tracked s t b z) (p : ℕ) :
    ∃ t' b' z', Tracked (schedulerWake s p) t' b' z' ∧ (schedulerWake s p).current = s.current := by
  by_cases hp : s.state p = .blocked
  · obtain ⟨b₁, b₂, rfl⟩ := List.append_of_mem ((h.lists.sleeps p).mp hp)
    obtain ⟨hl, ht⟩ := h.lists.wake
    refine ⟨_, _, _, ⟨hl, fun a ha => ?_⟩, ht.current⟩
    have := h.cover a (ht.size ▸ ha)
    rw [ht.current]
    simp only [List.mem_cons, List.mem_append] at this ⊢
    tauto
  · rw [schedulerWake_of_ne hp]
    exact ⟨t, b, z, h, rfl⟩

lemma Tracked.wakeWaiter (h : Tracked s t b z) (parentPid childPid : ℕ) :
    ∃ t' b' z', Tracked (schedulerWakeWaiter s parentPid childPid) t' b' z' ∧
      (schedulerWakeWaiter s parentPid childPid).current = s.current := by
  rcases h.lists.wakeWaiter parentPid childPid with ⟨heq, -⟩ | ⟨_, p, _, -, -, heq⟩
  · rw [heq]
    exact ⟨t, b, z, h, rfl⟩
  · rw [heq]
    exact h.wake p

/-- The current process dies, whatever happened to the sleepers before. -/
lemma Tracked.die (h : Tracked s t b z) (h0 : s.current ≠ 0) :
    ∃ t' b' z', Tracked (schedulerSwitch (s.setState s.current .dead)) t' b' z' := by
  obtain ⟨n, t', rfl⟩ := h.lists.exists_cons h0
  obtain ⟨hl, ht⟩ := h.lists.die h0
  refine ⟨_, _, _, hl, fun a ha => ?_⟩
  have := h.cover a (ht.size ▸ ha)
  rw [ht.current]
  simp only [List.mem_cons] at this ⊢
  tauto

lemma Tracked.markDead (h : Tracked s t b z) {p : ℕ} (hp : p ∈ s.current :: t) (h0 : p ≠ 0) :
    ∃ t' b' z', Tracked (markDead s p) t' b' z' := by
  rcases List.mem_cons.mp hp with rfl | hp
  · rw [Kernel.markDead, if_pos rfl]
    exact ⟨t, b, z, h.lists.setDead h0, h.cover⟩
  · obtain ⟨t₁, t₂, rfl⟩ := List.append_of_mem hp
    obtain ⟨hl, ht⟩ := h.lists.markDead h0
    refine ⟨_, _, _, hl, fun a ha => ?_⟩
    have := h.cover a (ht.size ▸ ha)
    rw [ht.current]
    simp only [List.mem_cons, List.mem_append] at this ⊢
    tauto

/-- One operation keeps the lists in order. -/
lemma SchedStep.tracked (hs : SchedStep s s') (h : Tracked s t b z) :
    ∃ t' b' z', Tracked s' t' b' z' := by
  cases hs with
  | add pid parentPid =>
    obtain ⟨hl, hnot⟩ := h.lists.newProcess pid parentPid
    obtain ⟨hl, ht⟩ := hl.add hnot (Nat.lt_succ_self _)
    refine ⟨_, _, _, hl, fun a ha => ?_⟩
    rw [ht.size] at ha
    rw [ht.current]
    rcases Nat.lt_succ_iff_lt_or_eq.mp ha with ha | rfl
    · have := h.cover a ha
      simp only [newProcess, List.mem_cons] at this ⊢
      tauto
    · simp
  | tick =>
    rcases h.lists.tick with ⟨hl, -, ht⟩ | ⟨n, t', rfl, -, hl, ht⟩ | ⟨n, t', rfl, -, -, hl, ht⟩
    all_goals
      refine ⟨_, _, _, hl, fun a ha => ?_⟩
      have := h.cover a (ht.size ▸ ha)
      rw [ht.current]
      simp only [List.mem_cons, List.mem_append, List.not_mem_nil, or_false] at this ⊢
      tauto
  | block h0 reason target =>
    obtain ⟨n, t', rfl⟩ := h.lists.exists_cons h0
    obtain ⟨hl, ht⟩ := h.lists.blockSwitch h0 reason target
    refine ⟨_, _, _, hl, fun a ha => ?_⟩
    have := h.cover a (ht.size ▸ ha)
    rw [ht.current]
    simp only [List.mem_cons] at this ⊢
    tauto
  | wake p =>
    obtain ⟨t', b', z', h', -⟩ := h.wake p
    exact ⟨t', b', z', h'⟩
  | wakeWaiter parentPid childPid =>
    obtain ⟨t', b', z', h', -⟩ := h.wakeWaiter parentPid childPid
    exact ⟨t', b', z', h'⟩
  | exit =>
    by_cases h0 : s.current = 0
    · rw [exitSwitch, if_pos h0]
      exact ⟨t, b, z, h⟩
    · rw [exitSwitch, if_neg h0]
      dsimp only
      split
      · obtain ⟨t', b', z', h', hc⟩ :=
          h.wakeWaiter (s.parentPid s.current) (s.pid s.current)
        rw [← hc] at h0
        obtain hd := h'.die h0
        rwa [hc] at hd
      · exact h.die h0
  | kill pid =>
    rw [killProcess]
    split
    · exact ⟨t, b, z, h⟩
    · next hpid =>
      cases hf : schedulerFind s pid with
      | none => exact ⟨t, b, z, h⟩
      | some p =>
        obtain ⟨hp, hpp⟩ := h.lists.find_mem hf
        refine h.markDead hp fun e => hpid ?_
        rw [← hpp, e, h.lists.kernelPid]

/-- At the start only the kernel task is there. -/
lemma tracked_processInit : Tracked processInit [] [] [] := by
  refine ⟨⟨⟨rfl, by simp [processInit, schedulerAdd, Sched.setState, Sched.setNext,
    schedulerInit], rfl, rfl, rfl, by decide, by decide, by decide, rfl⟩, by simp, .inl rfl,
    fun a => ?_, by simp⟩, fun a ha => ?_⟩
  · by_cases ha : a = 0 <;>
      simp [processInit, schedulerAdd, Sched.setState, Sched.setNext, schedulerInit, ha]
  · exact .inl (by simpa [processInit, schedulerAdd, Sched.setState, Sched.setNext,
      schedulerInit] using ha)

/-- Lists in order are what the structure of the queues says. -/
lemma Tracked.schedOk (h : Tracked s t b z) : SchedOk s (s.current :: t) b z where
  queue := h.lists.queue
  head := rfl
  cycle := by
    rw [h.lists.queue]
    exact h.lists.ring
  simple := h.lists.nodup_ring
  kernel := h.lists.kernel
  blockedList := h.lists.blocked
  blockedSimple := (List.nodup_append'.mp h.lists.nodup_rest).1
  zombieList := h.lists.zombies
  one := fun a ha hz => by
    rcases h.cover a ha with hr | hb | hz'
    · exact .inl ⟨hr, (h.lists.ring_notMem hr).1⟩
    · exact .inr ⟨hb, fun hr => (h.lists.ring_notMem hr).1 hb⟩
    · exact absurd hz' hz
  ready := fun a ha hne =>
    h.lists.ready a ((List.mem_cons.mp ha).resolve_left hne)
  sleeps := fun a ha => (h.lists.sleeps a).mpr ha
  gone := fun a ha => by
    refine ⟨fun hr => (h.lists.ring_notMem hr).2.1 ha, fun hb => ?_⟩
    exact (List.nodup_append'.mp h.lists.nodup_rest).2.2 hb (List.mem_append_left _ ha)

/-- **The lists in every run**: after `process_init`, whatever operations follow,
the ready queue is a ring through the kernel task headed by the current process,
the blocked list ends, every process is on exactly one list until it is a zombie,
and every process has the state of its list. -/
theorem schedOk_of_run (h : ReflTransGen SchedStep processInit s) :
    ∃ ring blocked zombies, SchedOk s ring blocked zombies := by
  have hrun : ∃ t b z, Tracked s t b z := by
    induction h with
    | refl => exact ⟨_, _, _, tracked_processInit⟩
    | tail _ hstep ih =>
        obtain ⟨t, b, z, h⟩ := ih
        exact hstep.tracked h
  obtain ⟨t, b, z, h⟩ := hrun
  exact ⟨_, _, _, h.schedOk⟩

end

/-- Two processes are started; the one that runs first goes to sleep, and the
other one exits. -/
def sleepThenExit : Sched :=
  let s := schedulerAdd (newProcess processInit 1 0) 1
  let s := schedulerTick^[10] (schedulerAdd (newProcess s 2 0) 2)
  exitSwitch (blockSwitch s .read 0)

/-- The run to that state ends with the kernel task on the ring, one process
asleep and one zombie. -/
theorem schedOk_sleepThenExit :
    (sleepThenExit.ringCells = [0] ∧ sleepThenExit.blockedCells = [2] ∧
      sleepThenExit.zombieCells = [1]) ∧
    ∃ ring blocked zombies, SchedOk sleepThenExit ring blocked zombies := by
  have hticks : ∀ n s, ReflTransGen SchedStep s (schedulerTick^[n] s) := by
    intro n
    induction n with
    | zero => exact fun s => .refl
    | succ n ih => exact fun s => .head .tick (ih (schedulerTick s))
  refine ⟨by decide +kernel, schedOk_of_run ?_⟩
  refine .head (.add 1 0) (.head (.add 2 0) (.trans (hticks 10 _) ?_))
  exact .head (.block (by decide +kernel) .read 0) (.single .exit)

/-! ### Turns -/

/-- How long the time slice lasts at most, whatever the counter shows. -/
def Sched.slice (s : Sched) : ℕ :=
  if s.tickCount < timeslice then timeslice - s.tickCount else timeslice + 1

section

variable {s : Sched} {t b z q : List ℕ} {n a : ℕ}

lemma tickCount_schedulerSwitch : (schedulerSwitch s).tickCount = s.tickCount := by
  have hremove : ∀ s p, (schedulerRemove s p).tickCount = s.tickCount := by
    intro s p
    rw [schedulerRemove]
    dsimp only
    repeat' split
    all_goals rfl
  rw [schedulerSwitch]
  dsimp only
  repeat' split
  all_goals first | rfl | exact hremove _ _

lemma Sched.slice_bounds (s : Sched) : 0 < s.slice ∧ s.slice ≤ timeslice + 1 := by
  rw [slice]
  split <;> omega

lemma exists_tracked (hrun : ReflTransGen SchedStep processInit s) : ∃ t b z, Tracked s t b z := by
  induction hrun with
  | refl => exact ⟨_, _, _, tracked_processInit⟩
  | tail _ hstep ih =>
    obtain ⟨t, b, z, h⟩ := ih
    exact hstep.tracked h

/-- A tick is counted, or the next process runs. -/
lemma Lists.tick_turn (h : Lists s t b z q) (ht : t ≠ []) :
    (Lists (schedulerTick s) t b z q ∧ (schedulerTick s).slice < s.slice) ∨
    ∃ n t' u z', t = n :: t' ∧ (schedulerTick s).current = n ∧
      (schedulerTick s).slice = timeslice ∧ Lists (schedulerTick s) (t' ++ u) b z' q := by
  have hcount : ∀ c, Lists { s with tickCount := c } t b z q := fun c =>
    { h.toLinked.congr ⟨rfl, rfl, rfl, rfl⟩ rfl rfl rfl rfl rfl with
      ready := h.ready, running := h.running, sleeps := h.sleeps, dead := h.dead }
  rw [schedulerTick]
  split
  · next hq => exact absurd (hq.symm.trans h.queue) (by simp)
  dsimp only
  split
  · have hslice : (schedulerSwitch { s with tickCount := 0 }).slice = timeslice := by
      rw [Sched.slice, tickCount_schedulerSwitch]
      rfl
    obtain ⟨n, t', rfl⟩ := List.exists_cons_of_ne_nil ht
    rcases h.running with hst | ⟨h0, hst⟩
    · exact .inr ⟨n, t', [s.current], z, rfl, ((hcount 0).toLinked.switch_running hst).2.current,
        hslice, (hcount 0).switch_running hst⟩
    · refine .inr ⟨n, t', [], s.current :: z, rfl,
        ((hcount 0).toLinked.switch_dead h0 hst).2.current, hslice, ?_⟩
      rw [List.append_nil]
      exact (hcount 0).switch_dead h0 hst
  · next hsw =>
    have hlt : (s.tickCount + 1) % 2 ^ 32 < timeslice := by omega
    refine .inl ⟨hcount _, ?_⟩
    rw [Sched.slice, Sched.slice, if_pos hlt, timeslice]
    dsimp only
    split <;> omega

lemma Lists.exists_turn {l : List ℕ} (h : Lists s (l ++ a :: t) b z q) :
    ∃ m ≤ timeslice * l.length + s.slice, (schedulerTick^[m] s).current = a := by
  -- every tick takes away from the slice, or a process from those ahead
  generalize hN : timeslice * l.length + s.slice = N
  induction N using Nat.strong_induction_on generalizing s l t z with
  | _ N ih =>
    subst hN
    have hpos := s.slice_bounds.1
    rcases h.tick_turn (by simp) with ⟨h', hlt⟩ | ⟨n, t', u, z', ht, hcur, hslice, h'⟩
    · obtain ⟨m, hm, hturn⟩ := ih _ (Nat.add_lt_add_left hlt _) h' rfl
      exact ⟨m + 1, by omega, hturn⟩
    · cases l with
      | nil => exact ⟨1, by omega, hcur.trans (List.cons.inj ht).1.symm⟩
      | cons _ l =>
        rw [← (List.cons.inj ht).2, List.append_eq, List.append_assoc, List.cons_append] at h'
        rw [List.length_cons, Nat.mul_succ] at *
        obtain ⟨m, hm, hturn⟩ := ih _ (by omega) h' rfl
        exact ⟨m + 1, by omega, hturn⟩

/-- **Every ready process gets its turn**: in every state that the scheduler reaches, a process
with others ahead of it in the ready queue runs when as many time slices are over. -/
theorem turn_of_run (hrun : ReflTransGen SchedStep processInit s) {l r : List ℕ}
    (ha : s.ringCells = l ++ a :: r) :
    ∃ m ≤ timeslice * l.length + 1, (schedulerTick^[m] s).current = a := by
  obtain ⟨t, b, z, h⟩ := exists_tracked hrun
  rw [h.lists.ringCells] at ha
  cases l with
  | nil => exact ⟨0, Nat.zero_le _, (List.cons.inj ha).1⟩
  | cons n l =>
    obtain ⟨-, rfl⟩ := List.cons.inj ha
    obtain ⟨m, hm, hturn⟩ := h.lists.exists_turn
    have := s.slice_bounds.2
    rw [List.length_cons, Nat.mul_succ]
    exact ⟨m, by omega, hturn⟩

end

/-- Two processes behind the kernel task. -/
def twoReady : Sched :=
  schedulerAdd (newProcess (schedulerAdd (newProcess processInit 1 0) 1) 2 0) 2

/-- The second of them. -/
theorem turn_of_run_second : twoReady.ringCells = [0, 2, 1] ∧
    ∃ m ≤ timeslice * 2 + 1, (schedulerTick^[m] twoReady).current = 1 :=
  have hring : twoReady.ringCells = [0, 2] ++ [1] := by decide +kernel
  ⟨hring, turn_of_run (.head (.add 1 0) (.single (.add 2 0))) hring⟩

end GordOS.Kernel
