/-
Typed characters and the process that has the keyboard (`drivers/keyboard.c`,
`tty_read` and `sys_give_foreground` of `kernel/syscall.c`).

A process sleeps in `tty_read` only when the buffer of the keyboard is empty, and a
typed character wakes the process that has the keyboard. The keyboard itself moves
without a look at the buffer.

* `Mute`: the buffer is as before, and no process starts to wait for it; `Moves.mute`;
* `Typing`, `Event.typing`: what an event does to the buffer;
* `Effect.focus`: how a process comes to have the keyboard;
* `typed_of_run`: **no typed character is withheld** from the process that has the
  keyboard, as long as the keyboard does not go to a process asleep in a read while
  characters are waiting;
* `exit_withholds_typed`: a child that exits with a character typed ahead hands the
  keyboard to its sleeping parent.
-/
import Mathlib.Tactic
import GordOS.Kernel.Lives
import GordOS.Kernel.Moves

namespace GordOS.Kernel

open GordOS Relation

/-- The process sleeps in `tty_read`. -/
def SleepsInRead (s : Sched) (a : ℕ) : Prop :=
  s.state a = .blocked ∧ s.blockReason a = .read

instance (s : Sched) (a : ℕ) : Decidable (SleepsInRead s a) :=
  inferInstanceAs (Decidable (_ ∧ _))

section

variable {FS : Type} {ops : VfsOps FS} {k k' k'' : Kern FS} {e : Event} {a : ℕ}

/-! ### What an event does to the keyboard buffer -/

/-- The keyboard buffer is as before, and no process starts to wait for it. -/
structure Mute (k k' : Kern FS) : Prop where
  kbd : k'.kbd = k.kbd
  cont : ∀ a len, k'.cont a = .ttyRead len → k.cont a = .ttyRead len

lemma Mute.trans (h : Mute k k') (h' : Mute k' k'') : Mute k k'' :=
  ⟨h'.kbd.trans h.kbd, fun a len hc => h.cont a len (h'.cont a len hc)⟩

/-- Moves leave the keyboard buffer alone. -/
lemma Moves.mute (h : Moves ops k k') : Mute k k' := by
  induction h with
  | refl => exact ⟨rfl, fun _ _ hc => hc⟩
  | tail _ ha ih => exact ih.trans ⟨ha.kbd, ha.cont⟩
  | opened _ path ih => exact ih.trans ⟨rfl, fun _ _ hc => hc⟩
  | ref _ w ih => exact ih.trans ⟨rfl, fun _ _ hc => hc⟩
  | unref _ w ih =>
    refine ih.trans ?_
    rw [Kernel.wbufUnref]
    split
    · exact ⟨rfl, fun _ _ hc => hc⟩
    · split <;> exact ⟨rfl, fun _ _ hc => hc⟩

/-- What an event does to the keyboard buffer. -/
inductive Typing (k : Kern FS) : Event → Kern FS → Prop where
  | mute {e : Event} {k' : Kern FS} (hme : ∀ len, k.cont k.me ≠ .ttyRead len)
      (h : Mute k k') : Typing k e k'
  | read {e : Event} (len : ℕ) (hlen : 0 < len) : Typing k e (ttyRead k len).2
  | key (c : UInt8) : Typing k (.key c) (deliverChar k c)
  | flush {e : Event} {k' : Kern FS} (hkbd : k'.kbd = { k.kbd with tail := k.kbd.head })
      (hcont : ∀ a len, k'.cont a = .ttyRead len → k.cont a = .ttyRead len) :
      Typing k e k'

lemma Event.typing (he : e.Enabled k) (hlen : ∀ len, k.cont k.me = .ttyRead len → 0 < len) :
    Typing k e (e.run ops k).2 := by
  by_cases hme : ∃ len, k.cont k.me = .ttyRead len
  · -- a process in the middle of a read can only go on with it
    obtain ⟨len, hc⟩ := hme
    cases e with
    | resume =>
      rw [Event.run, hc]
      exact .read len (hlen len hc)
    | tick => exact absurd (hc.symm.trans he) (fun h => by cases h)
    | _ => exact absurd (hc.symm.trans he.1) (fun h => by cases h)
  · rw [not_exists] at hme
    have hdid : Did ops k e (e.run ops k) := e.did
    have hrefl : Moves ops k k := .refl
    generalize e.run ops k = r at hdid
    cases hdid with
    | moves h => exact .mute hme h.mute
    | read len h =>
      rcases h with h0 | ⟨-, hc⟩
      · exact .read len h0
      · exact absurd hc (hme len)
    | key c => exact .key c
    | start => exact .flush rfl hrefl.processCreate.mute.cont
    | write _ _ =>
      refine .mute hme (Mute.trans ?_ ((Moves.refl : Moves ops _ _).answer _).mute)
      rw [wbufWrite]
      split <;> exact ⟨rfl, fun _ _ hc => hc⟩

/-! ### Who has the keyboard -/

/-- How a process comes to have the keyboard: it had it before, it is new, it was
named in `sys_give_foreground`, or it is the parent of a process that exits. -/
lemma Effect.focus (he : Effect k e k') (ha : k'.foreground = some a) :
    k.foreground = some a ∨ a = k.sched.size ∨
      (∃ pid, e = .call (.giveForeground pid) ∧ schedulerFindAny k.sched pid = some a) ∨
      e.Exits ∧ k.foreground = some k.me ∧ exitForeground k k.me = some a := by
  cases he with
  | quiet hq => exact .inl (hq.foreground.symm.trans ha)
  | slept hq _ _ _ => exact .inl (hq.foreground.symm.trans ha)
  | exited code hexit _ hq =>
    have ha' : exitForeground k k.me = some a := hq.foreground.symm.trans ha
    by_cases hme : k.foreground = some k.me
    · exact .inr (.inr (.inr ⟨hexit, hme, ha'⟩))
    · rw [exitForeground, if_neg hme] at ha'
      exact .inl ha'
  | started fg _ hfg _ hq' =>
    have ha' : fg = some a := hq'.foreground.symm.trans ha
    rcases hfg with rfl | rfl
    · exact .inl ha'
    · exact .inr (.inl (Option.some.inj ha').symm)
  | aborted _ hq hq' =>
    exact .inl ((hq.foreground.symm.trans hq'.foreground.symm).trans ha)
  | collected _ _ _ _ hq => exact .inl (hq.foreground.symm.trans ha)
  | killed pid _ hq =>
    left
    have ha' := hq.foreground.symm.trans ha
    rw [killPid] at ha'
    split at ha'
    · exact ha'
    · split at ha'
      · exact ha'
      · dsimp only at ha'
        split at ha'
        · cases ha'
        · exact ha'
  | gave pid target hf hq =>
    obtain rfl : target = a := Option.some.inj (hq.foreground.symm.trans ha)
    exact .inr (.inr (.inl ⟨pid, rfl, hf⟩))
  | tick => exact .inl ha
  | reapTake _ => exact .inl ha
  | reapOne _ hq => exact .inl (hq.foreground.symm.trans ha)

/-- The process does not sleep in a read while characters are waiting. -/
def Served (k : Kern FS) (a : ℕ) : Prop :=
  SleepsInRead k.sched a → k.kbd.head = k.kbd.tail

instance (k : Kern FS) (a : ℕ) : Decidable (Served k a) :=
  inferInstanceAs (Decidable (_ → _))

/-- The keyboard does not go to a process asleep in a read while characters are
waiting, neither by `sys_give_foreground` nor by an exit. -/
def FocusSafe : Event → Kern FS → Prop
  | .call (.giveForeground pid), k => ∀ a ∈ schedulerFindAny k.sched pid, Served k a
  | e, k => e.Exits → k.foreground = some k.me → ∀ a ∈ exitForeground k k.me, Served k a

/-- The buffer of the keyboard is well formed, reads from it ask for some bytes, and
the process that has the keyboard does not sleep while characters are waiting. -/
structure Typed (k : Kern FS) : Prop where
  ring : k.kbd.Ok kbdBufferSize
  len : ∀ a len, k.cont a = .ttyRead len → 0 < len
  served : ∀ a, k.foreground = some a → Served k a

lemma FocusSafe.exits (h : FocusSafe e k) (he : e.Exits) (hme : k.foreground = some k.me)
    (ha : exitForeground k k.me = some a) : Served k a := by
  rw [FocusSafe.eq_def] at h
  split at h
  · exact absurd he id
  · exact h he hme a ha

/-- A process that slept before and sleeps with the keyboard. -/
lemma Typed.served_before (h : Typed k) (hk : KernOk k) (he : Effect k e k')
    (hsafe : FocusSafe e k) (ha : k'.foreground = some a) (hs : SleepsInRead k.sched a) :
    k.kbd.head = k.kbd.tail := by
  rcases he.focus ha with hfg | rfl | ⟨pid, rfl, hf⟩ | ⟨hexit, hme, hf⟩
  · exact h.served a hfg hs
  · exact absurd (hk.inOrder.lt (hk.inOrder.listed_of_blocked hs.1)) (lt_irrefl _)
  · exact hsafe a hf hs
  · exact hsafe.exits hexit hme hf hs

/-- An event that leaves the keyboard buffer alone. -/
lemma Typed.mute (h : Typed k) (hk : KernOk k) (he : Effect k e k') (hsafe : FocusSafe e k)
    (hme : ∀ len, k.cont k.me ≠ .ttyRead len) (hm : Mute k k') : Typed k' := by
  refine ⟨hm.kbd ▸ h.ring, fun a len hc => h.len a len (hm.cont a len hc), fun a ha hs => ?_⟩
  rw [hm.kbd]
  rcases he.sleeper hk hs.1 with hon | ⟨rfl, -, -, hfor⟩
  · exact h.served_before hk he hsafe ha ⟨hon.state, hon.reason.symm.trans hs.2⟩
  · -- a process that has just gone to sleep in a read is at `tty_read`
    have hc : ∃ len, k'.cont k.me = .ttyRead len := by
      rw [hs.2] at hfor
      generalize k'.sched.waitTarget k.me = w, k'.cont k.me = c at hfor
      cases hfor with
      | read len => exact ⟨len, rfl⟩
    obtain ⟨len, hc⟩ := hc
    exact absurd (hm.cont _ _ hc) (hme len)

lemma ok_popN {r : RingBuffer UInt8} {N : ℕ} (h : r.Ok N) (n : ℕ) :
    (RingBuffer.popN N n r).2.Ok N := by
  induction n generalizing r with
  | zero => exact h
  | succ n ih => exact ih h.pop

/-- A read from the keyboard takes characters or finds the buffer empty. -/
lemma Typed.read (h : Typed k) {len : ℕ} (hlen : 0 < len) : Typed (ttyRead k len).2 := by
  have hupd : ∀ (c : Cont), (∀ n, c = .ttyRead n → 0 < n) → ∀ a n,
      Function.update k.cont k.me c a = .ttyRead n → 0 < n := by
    intro c hc a n ha
    rw [Function.update_apply] at ha
    split at ha
    · exact hc n ha
    · exact h.len a n ha
  rw [ttyRead]
  dsimp only
  split
  · next hn =>
    refine ⟨ok_popN h.ring _, hupd .user (fun n hc => by cases hc), fun a ha hs => ?_⟩
    have he := h.served a ha hs
    have h0 : k.kbd.used kbdBufferSize = 0 := by
      rw [h.ring.used_eq, if_pos he.ge, he, Nat.sub_self]
    rw [h0, Nat.min_zero] at hn
    exact absurd hn (lt_irrefl 0)
  · next hn =>
    have h0 : k.kbd.used kbdBufferSize = 0 := by omega
    refine ⟨h.ring, hupd (.ttyRead len) (fun n hc => ?_), fun a _ _ => ?_⟩
    · cases hc
      exact hlen
    · have h₁ := h.ring.head_lt
      have h₂ := h.ring.tail_lt
      rw [h.ring.used_eq] at h0
      show k.kbd.head = k.kbd.tail
      split at h0 <;> omega

/-- A typed character wakes the process that has the keyboard. -/
lemma Typed.key (h : Typed k) (hk : KernOk k) (c : UInt8) : Typed (deliverChar k c) := by
  rw [deliverChar]
  split
  · exact h
  · next a hfg =>
    have hpush : ∃ r : RingBuffer UInt8, r.Ok kbdBufferSize ∧
        (if (k.kbd.head + 1) % kbdBufferSize ≠ k.kbd.tail then
          { k with kbd := k.kbd.push kbdBufferSize c } else k) = { k with kbd := r } := by
      split
      · exact ⟨_, h.ring.push c, rfl⟩
      · exact ⟨k.kbd, h.ring, rfl⟩
    obtain ⟨r, hr, heq⟩ := hpush
    rw [heq]
    dsimp only
    split
    · refine ⟨hr, h.len, fun b hb hs => ?_⟩
      obtain rfl : a = b := Option.some.inj (hfg.symm.trans hb)
      exact absurd hs.1 (hk.inOrder.wake a).2
    · next hns =>
      refine ⟨hr, h.len, fun b hb hs => ?_⟩
      obtain rfl : a = b := Option.some.inj (hfg.symm.trans hb)
      exact absurd hs hns

/-- **No typed character is withheld**: in every run in which the keyboard does not go
to a process asleep in a read while characters are waiting, the buffer of the keyboard
is empty whenever the process that has it sleeps in a read. -/
theorem typed_of_run {fs : FS} (hrun : ReflTransGen (KStep ops FocusSafe) (kernInit fs) k)
    (hfg : k.foreground = some a) (hs : SleepsInRead k.sched a) :
    k.kbd.head = k.kbd.tail := by
  have hinit : Typed (kernInit fs) :=
    ⟨⟨Nat.zero_lt_succ 255, Nat.zero_lt_succ 255⟩, (fun _ _ hc => by cases hc),
      (fun _ hc => by cases hc)⟩
  refine (kern_induction (I := Typed) (kernOk_init fs) hinit
    (fun k k' e hk hI hen hsafe heq heff _ => ?_) hrun).2.served a hfg hs
  have htyping : Typing k e k' := heq ▸ Event.typing hen (hI.len k.me)
  cases htyping with
  | mute hme hm => exact hI.mute hk heff hsafe hme hm
  | read len hlen => exact hI.read hlen
  | key c => exact hI.key hk c
  | flush hkbd hcont =>
      refine ⟨?_, fun a len hc => hI.len a len (hcont a len hc), fun a _ _ => ?_⟩
      · rw [hkbd]
        exact ⟨hI.ring.head_lt, hI.ring.head_lt⟩
      · rw [hkbd]

end

/-- The process to which an event gives the keyboard. -/
def Event.given : Event → Option ℕ
  | .call (.giveForeground pid) => some pid
  | _ => none

lemma focusSafe_iff {e : Event} {k : Kern FS} : FocusSafe e k ↔
    (∀ pid ∈ e.given, ∀ a ∈ schedulerFindAny k.sched pid, Served k a) ∧
      (e.given = none → e.Exits → k.foreground = some k.me →
        ∀ a ∈ exitForeground k k.me, Served k a) := by
  rw [FocusSafe.eq_def]
  split
  · simp [Event.given]
  · next hne =>
    have hnone : e.given = none := by
      rw [Event.given.eq_def]
      split
      · next pid => exact absurd rfl (hne pid)
      · rfl
    simp [hnone]

instance (e : Event) (k : Kern Fat32.State) : Decidable (FocusSafe e k) :=
  decidable_of_iff' _ focusSafe_iff

/-- The shell starts a program with the keyboard, process `1`, and it runs. -/
def startFocused : List Event := .shellStart true .done :: List.replicate 10 .tick

/-- A program waits for a key, and has typed nothing ahead. -/
theorem typed_of_run_waiting :
    let k := runAll smallOps (startFocused ++ [.key 97, .call (.readraw 4194304 8),
      .call (.readraw 4194304 8)]) smallKern
    k.foreground = some 1 ∧ SleepsInRead k.sched 1 ∧ k.kbd.head = k.kbd.tail := by
  have hrun : Allowed smallOps FocusSafe (startFocused ++ [.key 97, .call (.readraw 4194304 8),
      .call (.readraw 4194304 8)]) smallKern := by
    decide +kernel
  have hs : (runAll smallOps (startFocused ++ [.key 97, .call (.readraw 4194304 8),
      .call (.readraw 4194304 8)]) smallKern).foreground = some 1 ∧
      SleepsInRead (runAll smallOps (startFocused ++ [.key 97, .call (.readraw 4194304 8),
        .call (.readraw 4194304 8)]) smallKern).sched 1 := by
    decide +kernel
  exact ⟨hs.1, hs.2, typed_of_run (reflTransGen_runAll _ hrun) hs.1 hs.2⟩

/-- A program forks, gives the keyboard to its child and reads; a key is typed, and the
child exits without reading it: the parent has the keyboard and sleeps in its read,
with a character waiting. -/
theorem exit_withholds_typed :
    ∃ k, ReflTransGen (KStep smallOps fun _ _ => True) smallKern k ∧
      k.foreground = some 1 ∧ SleepsInRead k.sched 1 ∧ k.kbd.head ≠ k.kbd.tail := by
  refine ⟨_, reflTransGen_runAll (startFocused ++ [.call (.fork .done),
    .call (.giveForeground 2), .call (.readraw 4194304 8), .key 97, .call (.exit 0)])
    (by decide +kernel), ?_⟩
  decide +kernel

end GordOS.Kernel
