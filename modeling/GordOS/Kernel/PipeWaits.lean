/-
Processes asleep at a pipe.

A pipe notes one waiting reader and one waiting writer. As long as no process
starts to wait at an end where another one already waits, a process asleep at a
pipe is the one noted, and it has reason to sleep.

* `Pipe.Waits`: the noted process and the reason to sleep;
* `Calm`: a quiet change that wakes the noted process when its reason goes;
* `WaitStep`: what an event does to the sleepers; `Event.waitStep`;
* `SoleWaiter`: an end of a pipe is used only if nobody waits there;
* `pipeWaits_of_run`: **no wake-up is lost** in a run whose steps are `SoleWaiter`;
* `second_reader_forgotten`: two readers of one pipe, of which one sleeps on.
-/
import Mathlib.Tactic
import GordOS.Kernel.Lives
import GordOS.Kernel.RefRuns

namespace GordOS.Kernel

open GordOS Relation

/-- The process noted at an end of the pipe. -/
def Pipe.waiter (q : Pipe) : PipeEnd → Option ℕ
  | .read => q.blockedReader
  | .write => q.blockedWriter

/-- A process has reason to wait at an end of the pipe, and is noted there. -/
def Pipe.Waits (q : Pipe) (e : PipeEnd) (a : ℕ) : Prop :=
  q.waiter e = some a ∧
    match e with
    | .read => q.avail = 0 ∧ 0 < q.writeOpen
    | .write => q.space = 0 ∧ 0 < q.readOpen

/-- `BLOCK_PIPE_READ` and `BLOCK_PIPE_WRITE`. -/
def PipeEnd.reason : PipeEnd → BlockReason
  | .read => .pipeRead
  | .write => .pipeWrite

/-- The end of a pipe at which a process goes on. -/
def Cont.pipeEnd : Cont → Option (PipeEnd × ℕ)
  | .pipeRead p _ => some (.read, p)
  | .pipeWrite p _ _ => some (.write, p)
  | _ => none

/-- The process goes on at the end of a pipe that notes it. -/
def Noted {FS : Type} (k : Kern FS) (e : PipeEnd) (a : ℕ) : Prop :=
  ∃ p q, (k.cont a).pipeEnd = some (e, p) ∧ k.pipes p = some q ∧ q.Waits e a

section

variable {FS : Type} {ops : VfsOps FS} {k k' k'' k₁ : Kern FS} {p a : ℕ} {q q' : Pipe}

@[simp] lemma pipes_wake (o : Option ℕ) : (k.wake o).pipes = k.pipes := by
  cases o <;> rfl

/-! ### Rounds of the loops -/

lemma space_pos_of_avail (h : q.avail = 0) : 0 < q.space := by
  rw [Pipe.space, h]
  decide

lemma avail_of_got {me len : ℕ} {chunk : List UInt8}
    (h : pipeReadRound me q len = (.got chunk, q')) : 0 < q.avail := by
  unfold pipeReadRound at h
  split at h
  · assumption
  · split at h <;> cases h

lemma readRound_sleep {me len : ℕ} (h : pipeReadRound me q len = (.sleep, q')) :
    q.avail = 0 ∧ q.writeOpen ≠ 0 ∧ q' = { q with blockedReader := some me } := by
  unfold pipeReadRound at h
  split at h
  · cases h
  · next ha =>
    split at h
    · cases h
    · next hw => exact ⟨by omega, hw, (Prod.mk.inj h).2.symm⟩

lemma writeRound_more {me written : ℕ} {data chunk : List UInt8}
    (h : pipeWriteRound me q data written = (.more chunk, q')) :
    0 < q.space ∧ q'.readOpen = q.readOpen ∧ q'.waiter .write = q.waiter .write := by
  unfold pipeWriteRound at h
  split at h
  · next hs =>
    obtain rfl := (Prod.mk.inj h).2
    exact ⟨hs, rfl, rfl⟩
  · split at h <;> cases h

lemma writeRound_sleep {me written : ℕ} {data : List UInt8}
    (h : pipeWriteRound me q data written = (.sleep, q')) :
    q.space = 0 ∧ q.readOpen ≠ 0 ∧ q' = { q with blockedWriter := some me } := by
  unfold pipeWriteRound at h
  split at h
  · cases h
  · next hs =>
    split at h
    · cases h
    · next hr => exact ⟨by omega, hr, (Prod.mk.inj h).2.symm⟩

/-! ### Quiet changes -/

/-- A quiet change after which a noted process that still sleeps is still noted. -/
structure Calm (k k' : Kern FS) : Prop extends Quiet k k' where
  kept : ∀ e p q a, k.pipes p = some q → q.Waits e a → k'.sched.state a = .blocked →
    ∃ q', k'.pipes p = some q' ∧ q'.Waits e a

namespace Calm

lemma of_pipes (hq : Quiet k k') (hp : k'.pipes = k.pipes) : Calm k k' :=
  ⟨hq, fun _ _ q _ h hw _ => ⟨q, hp ▸ h, hw⟩⟩

lemma refl (h : InOrder k.sched) : Calm k k := of_pipes (.refl h) rfl

lemma trans (h : Calm k k') (h' : Calm k' k'') : Calm k k'' where
  toQuiet := h.toQuiet.trans h'.toQuiet
  kept := fun e p q a hp hw ha => by
    obtain ⟨q', hp', hw'⟩ := h.kept e p q a hp hw (h'.woke.blocked ha)
    exact h'.kept e p q' a hp' hw' ha

lemma resume (h : Calm k k') : Calm k k'.resume :=
  ⟨h.toQuiet.resume, h.kept⟩

/-- A pipe changes, and a process is woken. -/
lemma setPipe (h : InOrder k.sched) (o : Option ℕ) (hq : k.pipes p = some q)
    {v : Option Pipe} (hv : ∀ e a, q.Waits e a → o ≠ some a → ∃ q', v = some q' ∧ q'.Waits e a) :
    Calm k ((k.wake o).setPipe p v) := by
  have hwake : Quiet k (k.wake o) := .wake h o
  refine ⟨hwake.trans (quiet_setPipe hwake.woke.inOrder p v), fun e p' q' a hp' hw ha => ?_⟩
  rw [pipes_setPipe, pipes_wake, Function.update_apply]
  by_cases hpp : p' = p
  · subst hpp
    obtain rfl : q = q' := Option.some.inj (hq.symm.trans hp')
    rw [if_pos rfl]
    refine hv e a hw fun ho => ?_
    subst ho
    exact (h.wake a).2 ha
  · rw [if_neg hpp]
    exact ⟨q', hp', hw⟩

end Calm

section

variable (h : InOrder k.sched)

include h

lemma calm_wbufUnref (w : Option ℕ) : Calm k (wbufUnref ops k w) := by
  refine .of_pipes (quiet_wbufUnref h w) ?_
  unfold wbufUnref
  split
  · rfl
  · split
    · rfl
    · split <;> rfl

lemma calm_wbufRef (w : Option ℕ) : Calm k (wbufRef k w) := by
  refine .of_pipes (quiet_wbufRef h w) ?_
  cases w <;> rfl

lemma calm_setFd (a i : ℕ) (f : Fd) : Calm k (k.setFd a i f) :=
  .of_pipes (quiet_setFd h a i f) rfl

/-- Closing an end wakes the process at the other one; the process at the same end
has an open end opposite, so the pipe stays. -/
lemma calm_closePipeEnd (e : PipeEnd) (p : ℕ) : Calm k (closePipeEnd k e p) := by
  cases hq : k.pipes p with
  | none =>
    rw [closePipeEnd_of_none hq]
    exact .refl h
  | some q =>
    rw [closePipeEnd_eq hq]
    refine .setPipe h _ hq fun e' a hw ho => ?_
    obtain ⟨hn, hw⟩ := hw
    unfold Pipe.closed
    cases e <;> cases e'
    · rw [if_neg (by simp only [Pipe.addOpen]; omega)]
      exact ⟨_, rfl, hn, hw.1, hw.2⟩
    · exact absurd hn ho
    · exact absurd hn ho
    · rw [if_neg (by simp only [Pipe.addOpen]; omega)]
      exact ⟨_, rfl, hn, hw.1, hw.2⟩

lemma calm_addOpen (e : PipeEnd) (p : ℕ) :
    Calm k (k.setPipe p ((k.pipes p).map fun q => q.addOpen e 1)) := by
  cases hq : k.pipes p with
  | none =>
    refine .of_pipes (quiet_setPipe h p _) ?_
    rw [pipes_setPipe, Option.map_none, ← hq, Function.update_eq_self]
  | some q =>
    refine .setPipe h none hq fun e' a hw _ => ⟨_, rfl, ?_⟩
    obtain ⟨hn, hw⟩ := hw
    cases e <;> cases e' <;> refine ⟨hn, hw.1, ?_⟩ <;> simp only [Pipe.addOpen] <;> omega

/-- The calls on descriptors are calm. -/
lemma Works.calm (hw : Works ops k k') : Calm k k' := by
  induction hw with
  | refl => exact .refl h
  | setFd _ a i f ih => exact ih.trans (calm_setFd ih.woke.inOrder a i f)
  | ref _ w ih => exact ih.trans (calm_wbufRef ih.woke.inOrder (some w))
  | unref _ w ih => exact ih.trans (calm_wbufUnref ih.woke.inOrder (some w))
  | addEnd _ e p ih => exact ih.trans (calm_addOpen ih.woke.inOrder e p)
  | closeEnd _ e p ih => exact ih.trans (calm_closePipeEnd ih.woke.inOrder e p)

lemma calm_closeFds (ops : VfsOps FS) (a : ℕ) :
    Calm k (fdClosePipes (fdCloseWritable ops k a) a) :=
  (Works.refl.closeFds a).calm h

end

/-! ### What an event does to the sleepers -/

/-- A noted process that sleeps on is still noted, and so is the running process if
it goes to sleep at a pipe. -/
structure WaitStep (k k' : Kern FS) : Prop where
  kept : ∀ e p q a, a ≠ k.me → k.pipes p = some q → q.Waits e a →
    k'.sched.state a = .blocked → ∃ q', k'.pipes p = some q' ∧ q'.Waits e a
  slept : k'.sched.state k.me = .blocked →
    ∀ e : PipeEnd, k'.sched.blockReason k.me = e.reason → Noted k' e k.me

/-- The running process is not asleep. -/
lemma KernOk.not_blocked_me (hk : KernOk k) : k.sched.state k.me ≠ .blocked :=
  fun hb => hk.inOrder.ne_current_of_blocked hb rfl

/-- A calm change, and then one that leaves the pipes alone. -/
lemma Calm.step (hk : KernOk k) (h : Calm k k₁) (hp : k'.pipes = k₁.pipes)
    (hb : ∀ a, k'.sched.state a = .blocked → k₁.sched.state a = .blocked) :
    WaitStep k k' where
  kept := fun e p q a _ hq hw ha => hp ▸ h.kept e p q a hq hw (hb a ha)
  slept := fun ha => absurd (h.woke.blocked (hb _ ha)) hk.not_blocked_me

lemma Calm.waitStep (hk : KernOk k) (h : Calm k k') : WaitStep k k' :=
  h.step hk rfl fun _ => id

/-- A calm change, and then the running process goes to sleep. -/
lemma Calm.sleep (h : Calm k k₁) (hm : k.me ≠ 0) (r : BlockReason) (w : ℕ) (c : Cont)
    (hn : ∀ e : PipeEnd, r = e.reason →
      ∃ p q, c.pipeEnd = some (e, p) ∧ k₁.pipes p = some q ∧ q.Waits e k.me) :
    WaitStep k (k₁.sleep r w c) := by
  have hme : k₁.sched.current = k.me := h.woke.current
  obtain ⟨-, ⟨n, -, hne, -, ht⟩, -⟩ := h.woke.inOrder.sleep (by rw [hme]; exact hm) r w
  refine ⟨fun e p q a ha hq hw hb => h.kept e p q a hq hw ?_, fun _ e hr => ?_⟩
  · have hst := (congrFun ht.state a).symm.trans hb
    rw [hme, Function.update_apply, Function.update_of_ne ha] at hst
    split at hst
    · cases hst
    · exact hst
  · have hr' : (k₁.sleep r w c).sched.blockReason k.me = r :=
      (congrFun ht.blockReason _).trans (by rw [hme, Function.update_self])
    have hc : (k₁.sleep r w c).cont k.me = c := by
      rw [← hme]
      exact Function.update_self _ _ _
    obtain ⟨p, q, hcp, hq, hw⟩ := hn e (hr'.symm.trans hr)
    exact ⟨p, q, by rw [hc, hcp], hq, hw⟩

lemma Calm.answer (h : Calm k k') (ret : ℤ) : Calm k (answer k' ret).2 := h.resume

/-- A change of the file system, with an answer. -/
lemma Calm.answer_fs (h : InOrder k.sched) (fs : FS) (ret : ℤ) :
    Calm k (Kernel.answer { k with fs := fs } ret).2 :=
  .of_pipes (.answer_fs h fs ret) rfl

section

variable (hk : KernOk k)

include hk

lemma waitStep_answer (ret : ℤ) : WaitStep k (answer k ret).2 :=
  ((Calm.refl hk.inOrder).answer ret).waitStep hk

/-- The process that reads an empty pipe is the only one there. -/
lemma waitStep_pipeReadFd (hm : k.me ≠ 0) (p len : ℕ)
    (hopen : ∀ q, k.pipes p = some q → 0 ≤ q.writeOpen)
    (hsole : ∀ q, k.pipes p = some q → q.waiter .read = none) :
    WaitStep k (pipeReadFd k p len).2 := by
  unfold pipeReadFd
  cases hq : k.pipes p with
  | none => exact waitStep_answer hk _
  | some q =>
    dsimp only
    rcases hr : pipeReadRound k.me q len with ⟨_ | _ | _, q'⟩
    · have ha := avail_of_got hr
      refine ((Calm.setPipe hk.inOrder _ hq fun e a hw ho => ?_).resume).waitStep hk
      cases e with
      | read => exact absurd hw.2.1 ha.ne'
      | write => exact absurd hw.1 ho
    · exact waitStep_answer hk _
    · obtain ⟨ha, hwo, rfl⟩ := readRound_sleep hr
      have hcalm : Calm k (k.setPipe p (some { q with blockedReader := some k.me })) := by
        refine .setPipe hk.inOrder none hq fun e a hw _ => ?_
        cases e with
        | read => exact absurd (hw.1.symm.trans (hsole q hq)) (by simp)
        | write => exact absurd hw.2.1 (space_pos_of_avail ha).ne'
      refine hcalm.sleep hm _ _ _ fun e he => ?_
      cases e with
      | read =>
        have hpos : 0 < q.writeOpen := lt_of_le_of_ne (hopen q hq) (Ne.symm hwo)
        exact ⟨p, _, rfl, Function.update_self _ _ _, rfl, ha, hpos⟩
      | write => cases he

/-- The process that writes to a full pipe is the only one there. -/
lemma waitStep_pipeWriteLoop (hm : k.me ≠ 0) (p : ℕ) (data : List UInt8) (n : ℕ) :
    ∀ (written : ℕ) (k₁ : Kern FS), Calm k k₁ →
      (∀ q, k₁.pipes p = some q → 0 ≤ q.readOpen ∧ q.waiter .write = none) →
      WaitStep k (pipeWriteLoop p data n written k₁).2 := by
  induction n with
  | zero => exact fun written k₁ h _ => (h.answer _).waitStep hk
  | succ n ih =>
    intro written k₁ h hsole
    have h₁ := h.woke.inOrder
    have hme : k₁.me = k.me := h.me
    rw [pipeWriteLoop]
    split
    · cases hq : k₁.pipes p with
      | none => exact (h.answer _).waitStep hk
      | some q =>
        dsimp only
        rcases hr : pipeWriteRound k₁.me q data written with ⟨_ | _ | _, q'⟩
        · obtain ⟨hs, hro, hbw⟩ := writeRound_more hr
          refine ih _ _ (h.trans (Calm.setPipe h₁ _ hq fun e a hw ho => ?_)) ?_
          · cases e with
            | read => exact absurd hw.1 ho
            | write => exact absurd hw.2.1 hs.ne'
          · intro q₂ hq₂
            rw [pipes_setPipe, Function.update_self, Option.some.injEq] at hq₂
            subst hq₂
            rw [hro, hbw]
            exact hsole q hq
        · exact (h.answer _).waitStep hk
        · obtain ⟨hs, hro, rfl⟩ := writeRound_sleep hr
          obtain ⟨hopen, hnone⟩ := hsole q hq
          have hcalm : Calm k₁ (k₁.setPipe p (some { q with blockedWriter := some k₁.me })) := by
            refine .setPipe h₁ none hq fun e a hw _ => ?_
            cases e with
            | read => exact absurd hs (space_pos_of_avail hw.2.1).ne'
            | write => exact absurd (hw.1.symm.trans hnone) (by simp)
          refine (h.trans hcalm).sleep hm _ _ _ fun e he => ?_
          cases e with
          | read => cases he
          | write =>
            have hpos : 0 < q.readOpen := lt_of_le_of_ne hopen (Ne.symm hro)
            rw [← hme]
            exact ⟨p, _, rfl, Function.update_self _ _ _, rfl, hs, hpos⟩
    · exact (h.answer _).waitStep hk

lemma waitStep_ttyRead (hm : k.me ≠ 0) (len : ℕ) : WaitStep k (ttyRead k len).2 := by
  unfold ttyRead
  dsimp only
  split
  · refine Calm.waitStep hk (.of_pipes (Quiet.resume ?_) rfl)
    exact .of_eq hk.inOrder rfl rfl rfl rfl rfl rfl rfl rfl rfl
  · refine (Calm.refl hk.inOrder).sleep hm _ _ _ fun e he => ?_
    cases e <;> cases he

lemma waitStep_waitLoop (hm : k.me ≠ 0) (target status : ℕ) :
    WaitStep k (waitLoop k target status).2 := by
  unfold waitLoop
  split
  · exact (Calm.refl hk.inOrder).step hk rfl fun _ => id
  · split
    · refine (Calm.refl hk.inOrder).sleep hm _ _ _ fun e he => ?_
      cases e <;> cases he
    · exact waitStep_answer hk _

/-- The running process ends. -/
lemma waitStep_processExit (ops : VfsOps FS) (hm : k.me ≠ 0) (code : ℤ) (fs : FS) :
    WaitStep k (processExit ops
      { k with exitCode := Function.update k.exitCode k.me code, fs := fs }) := by
  have hc := calm_closeFds (k := { k with
    exitCode := Function.update k.exitCode k.me code
    fs := fs
    foreground := exitForeground k k.me }) hk.inOrder ops k.me
  have heq : processExit ops { k with exitCode := Function.update k.exitCode k.me code, fs := fs } =
      exitTail (fdClosePipes (fdCloseWritable ops { k with
          exitCode := Function.update k.exitCode k.me code
          fs := fs
          foreground := exitForeground k k.me } k.me) k.me) k.me := if_neg hm
  rw [heq]
  generalize fdClosePipes (fdCloseWritable ops { k with
    exitCode := Function.update k.exitCode k.me code
    fs := fs
    foreground := exitForeground k k.me } k.me) k.me = k₁ at hc ⊢
  have hb : ∀ a, (exitTail k₁ k.me).sched.state a = .blocked → k₁.sched.state a = .blocked :=
    fun a ha => hc.woke.inOrder.blocked_exitSwitch (by rw [hc.woke.current]; exact hm) ha
  exact ⟨fun e p q a _ hq hw ha => hc.kept e p q a hq hw (hb a ha),
    fun ha => absurd (hc.woke.blocked (hb _ ha)) hk.not_blocked_me⟩

/-- A new process is made, and what follows is calm. -/
lemma waitStep_create (hc : Calm (processCreate k) k₁) (hp : k'.pipes = k₁.pipes)
    (hb : ∀ a, k'.sched.state a = .blocked → k₁.sched.state a = .blocked) :
    WaitStep k k' := by
  have hme : k.me ≠ k.sched.size := (hk.inOrder.lt hk.inOrder.current).ne
  have hst : (processCreate k).sched.state k.me = k.sched.state k.me :=
    Function.update_of_ne hme _ _
  refine ⟨fun e p q a _ hq hw ha => hp ▸ hc.kept e p q a hq hw (hb a ha), fun ha => ?_⟩
  exact absurd (hst.symm.trans (hc.woke.blocked (hb _ ha))) hk.not_blocked_me

lemma waitStep_destroyNew (hc : Calm (processCreate k) k₁)
    (hp : k'.pipes = (processDestroy ops k₁ k.sched.size).pipes)
    (hs : k'.sched = (processDestroy ops k₁ k.sched.size).sched) : WaitStep k k' := by
  have hne : k.sched.size ≠ 0 :=
    (Nat.zero_lt_of_lt (hk.inOrder.lt hk.inOrder.current)).ne'
  rw [processDestroy, if_neg hne] at hp hs
  exact waitStep_create hk (hc.trans (calm_closeFds hc.woke.inOrder ops _)) hp fun a ha => hs ▸ ha

lemma waitStep_start (hc : Calm (processCreate k) k₁) (hp : k'.pipes = k₁.pipes)
    (hs : k'.sched = schedulerAdd k₁.sched k.sched.size) : WaitStep k k' := by
  obtain ⟨-, ht, -⟩ := start_spec hk.inOrder hc.toQuiet
  refine waitStep_create hk hc hp fun a ha => ?_
  rw [hs, ht.state, Function.update_apply] at ha
  split at ha
  · cases ha
  · exact ha

lemma waitStep_fork (o : ForkOutcome) :
    WaitStep k (answer (processFork ops k o).2 (processFork ops k o).1).2 := by
  have hw : Works ops (processCreate k) _ := .inheritFds .refl k.me k.sched.size
  have hc := hw.calm hk.create.inOrder
  cases o with
  | noProcess => exact waitStep_answer hk _
  | noCopy => exact waitStep_destroyNew hk hc rfl rfl
  | done => exact waitStep_start hk hc rfl rfl

lemma waitStep_startProgram (fg : Bool) (o : LoadOutcome) :
    WaitStep k (startProgram ops k fg o) := by
  have hc : Calm (processCreate k) (processCreate k) := .refl hk.create.inOrder
  cases o with
  | noProcess => exact (Calm.refl hk.inOrder).waitStep hk
  | noProgram => exact waitStep_destroyNew hk hc rfl rfl
  | done => exact waitStep_start hk hc rfl rfl

/-- A kill puts nobody to sleep. -/
lemma blocked_killPid {pid : ℕ} (ha : (killPid k pid).2.sched.state a = .blocked) :
    k.sched.state a = .blocked := by
  unfold killPid at ha
  split at ha
  · exact ha
  · next h0 =>
    split at ha
    · exact ha
    · next proc hf =>
      obtain ⟨-, ht, -⟩ := hk.inOrder.kill_found h0 hf
      rw [ht.state, Function.update_apply] at ha
      split at ha
      · cases ha
      · exact ha

omit hk

lemma pipes_killPid (pid : ℕ) : (killPid k pid).2.pipes = k.pipes := by
  unfold killPid
  split
  · rfl
  · split <;> rfl

lemma pipes_deliverChar (c : UInt8) : (deliverChar k c).pipes = k.pipes := by
  unfold deliverChar
  split
  · rfl
  · dsimp only
    split <;> split <;> rfl

end

/-- The end of a pipe that an event reads from or writes to. -/
def Event.pipeUse (k : Kern FS) : Event → Option (PipeEnd × ℕ)
  | .call (.read fd _ _ _) =>
    ((fdOf k fd).bind fun i => (k.fds k.me i).pipeEnd).filter fun x => x.1 = .read
  | .call (.write fd _ _) =>
    ((fdOf k fd).bind fun i => (k.fds k.me i).pipeEnd).filter fun x => x.1 = .write
  | .resume => (k.cont k.me).pipeEnd
  | _ => none

/-- Nobody waits at the end of the pipe that the event uses. -/
def SoleWaiter (e : Event) (k : Kern FS) : Prop :=
  ∀ x ∈ e.pipeUse k, ∀ q ∈ k.pipes x.2, q.waiter x.1 = none

instance (e : Event) (k : Kern FS) : Decidable (SoleWaiter e k) :=
  inferInstanceAs (Decidable (∀ x ∈ e.pipeUse k, ∀ q ∈ k.pipes x.2, q.waiter x.1 = none))

lemma RefsOk.opens_nonneg (hr : RefsOk k) (hq : k.pipes p = some q) (e : PipeEnd) :
    0 ≤ q.opens e := by
  rw [hr.opens_eq hq]
  exact Int.natCast_nonneg _

section

variable (hk : KernOk k) (hr : RefsOk k)

include hk hr

lemma waitStep_resume (hm : k.me ≠ 0) (hs : SoleWaiter .resume k) :
    WaitStep k ((k.cont k.me).run k).2 := by
  have huse : Event.pipeUse k .resume = (k.cont k.me).pipeEnd := rfl
  rw [SoleWaiter, huse] at hs
  cases hc : k.cont k.me with
  | user => exact (Calm.refl hk.inOrder).waitStep hk
  | pipeRead p len =>
    rw [hc] at hs
    exact waitStep_pipeReadFd hk hm p len (fun q hq => hr.opens_nonneg hq .write)
      fun q hq => hs _ rfl q hq
  | pipeWrite p data written =>
    rw [hc] at hs
    exact waitStep_pipeWriteLoop hk hm p data _ written k (.refl hk.inOrder)
      fun q hq => ⟨hr.opens_nonneg hq .read, hs _ rfl q hq⟩
  | wait target status => exact waitStep_waitLoop hk hm target status
  | ttyRead len => exact waitStep_ttyRead hk hm len

lemma waitStep_call (hm : k.me ≠ 0) (c : Syscall) (hs : SoleWaiter (.call c) k) :
    WaitStep k (c.run ops k).2 := by
  have h := hk.inOrder
  have hc : Outcome ops k c (c.run ops k) := c.outcome ops k
  generalize c.run ops k = r at hc
  cases hc with
  | answer fs ret => exact (Calm.answer_fs h fs ret).waitStep hk
  | readfile => exact (Calm.answer_fs h _ 0).waitStep hk
  | read | seek | opened | created =>
    refine Calm.waitStep hk (.of_pipes (Quiet.resume ?_) rfl)
    exact .of_eq h rfl rfl rfl rfl rfl rfl rfl rfl rfl
  | close => exact (((Works.refl.closeFd _).calm h).answer _).waitStep hk
  | dup _ _ hk₁ => exact (((Works.dup hk₁).calm h).answer _).waitStep hk
  | pipe =>
    -- The pipe that `sys_pipe` makes has a new number.
    refine Calm.waitStep hk (Calm.resume ⟨.of_eq h rfl rfl rfl rfl rfl rfl rfl rfl rfl, ?_⟩)
    intro e p q a hq hw _
    have hne : p ≠ k.pipeCount := by
      rintro rfl
      rw [hr.newPipe _ le_rfl] at hq
      cases hq
    exact ⟨q, (Function.update_of_ne hne _ _).trans hq, hw⟩
  | write =>
    refine Calm.waitStep hk (Calm.answer ?_ _)
    rw [wbufWrite]
    split
    · exact .refl h
    · exact .of_pipes (.of_eq h rfl rfl rfl rfl rfl rfl rfl rfl rfl) rfl
  | @pipeWrite fd buf i p data hi hp =>
    have huse : Event.pipeUse k (.call (.write fd buf data)) = some (.write, p) := by
      simp [Event.pipeUse, hi, hp]
    exact waitStep_pipeWriteLoop hk hm p data _ 0 k (.refl h) fun q hq =>
      ⟨hr.opens_nonneg hq .read, hs _ huse q hq⟩
  | @pipeRead fd buf len i p mem hi _ hp =>
    have huse : Event.pipeUse k (.call (.read fd buf len mem)) = some (.read, p) := by
      simp [Event.pipeUse, hi, hp]
    exact waitStep_pipeReadFd hk hm p len (fun q hq => hr.opens_nonneg hq .write)
      fun q hq => hs _ huse q hq
  | ttyRead | readraw => exact waitStep_ttyRead hk hm _
  | wait => exact waitStep_waitLoop hk hm _ _
  | @exit code => exact waitStep_processExit hk ops hm code k.fs
  | started =>
    refine Calm.waitStep hk (.of_pipes ?_ rfl)
    exact .of_eq h rfl rfl rfl rfl rfl rfl rfl rfl rfl
  | died fs =>
    have hx := waitStep_processExit hk ops hm (k.exitCode k.me) fs
    rw [Function.update_eq_self] at hx
    exact hx
  | fork => exact waitStep_fork hk _
  | gave => exact (Calm.refl h).step hk rfl fun _ => id
  | kill => exact (Calm.refl h).step hk (pipes_killPid _) fun a ha => blocked_killPid hk ha

/-- What an event does to the sleepers. -/
lemma Event.waitStep (e : Event) (he : e.Enabled k) (hs : SoleWaiter e k) :
    WaitStep k (e.run ops k).2 := by
  have h := hk.inOrder
  cases e with
  | call c => exact waitStep_call hk hr he.2 c hs
  | fault => exact waitStep_processExit hk ops he.2 (-1) k.fs
  | resume =>
    have hm : k.me ≠ 0 := fun e0 => he (by rw [e0, hk.idle])
    exact waitStep_resume hk hr hm hs
  | tick => exact (Calm.refl h).step hk rfl fun a ha => h.blocked_tick ha
  | key c => exact (Calm.of_pipes (quiet_deliverChar h c) (pipes_deliverChar c)).waitStep hk
  | shellStart fg o => exact waitStep_startProgram hk fg o
  | shellKill pid =>
    exact (Calm.refl h).step hk (pipes_killPid pid) fun a ha => blocked_killPid hk ha
  | shellFs op =>
    refine Calm.waitStep hk (.of_pipes ?_ rfl)
    exact .of_eq h rfl rfl rfl rfl rfl rfl rfl rfl rfl
  | reapTake => exact (Calm.refl h).step hk rfl fun _ => id
  | reapOne =>
    obtain ⟨a, ha⟩ := Option.ne_none_iff_exists'.mp he.2.2
    have hc := calm_closeFds (k := { k with sched := { k.sched with reapList := k.sched.next a } })
      (h.reapNext ha).1 ops a
    have heq : (Event.run ops k .reapOne).2 = processDestroy ops
        { k with sched := { k.sched with reapList := k.sched.next a } } a := by
      rw [Event.run, Kernel.reapOne, ha]
    rw [heq, processDestroy]
    split
    · exact (Calm.refl h).step hk rfl fun _ => id
    · exact ⟨fun e p q b _ => hc.kept e p q b,
        fun hb => absurd (hc.woke.blocked hb) hk.not_blocked_me⟩

end

/-! ### Runs -/

/-- Every process asleep at a pipe is noted there. -/
def PipeWaits (k : Kern FS) : Prop :=
  ∀ a, k.sched.state a = .blocked → ∀ e : PipeEnd, k.sched.blockReason a = e.reason →
    Noted k e a

lemma PipeWaits.step {e : Event} (hk : KernOk k) (h : PipeWaits k) (he : Effect k e k')
    (hs : WaitStep k k') : PipeWaits k' := by
  intro a ha d hr
  rcases he.sleeper hk ha with hon | ⟨rfl, -⟩
  · obtain ⟨p, q, hc, hq, hw⟩ := h a hon.state d (hon.reason ▸ hr)
    have hne : a ≠ k.me := hk.inOrder.ne_current_of_blocked hon.state
    obtain ⟨q', hq', hw'⟩ := hs.kept d p q a hne hq hw ha
    exact ⟨p, q', hon.cont ▸ hc, hq', hw'⟩
  · exact hs.slept ha d hr

/-- **No wake-up is lost** in a run in which no process uses an end of a pipe while
another one waits there. A process asleep in a read is noted as the reader of its pipe,
which is empty and has an open write end; one asleep in a write is noted as the writer,
and the pipe is full and has an open read end. -/
theorem pipeWaits_of_run {fs : FS}
    (hrun : ReflTransGen (KStep ops SoleWaiter) (kernInit fs) k) (a : ℕ)
    (ha : k.sched.state a = .blocked) :
    (k.sched.blockReason a = .pipeRead → ∃ p len q, k.cont a = .pipeRead p len ∧
      k.pipes p = some q ∧ q.avail = 0 ∧ 0 < q.writeOpen ∧ q.blockedReader = some a) ∧
    (k.sched.blockReason a = .pipeWrite → ∃ p data written q,
      k.cont a = .pipeWrite p data written ∧ k.pipes p = some q ∧ q.space = 0 ∧
      0 < q.readOpen ∧ q.blockedWriter = some a) := by
  have hinit : PipeWaits (kernInit fs) := by
    intro a _ e hr
    change BlockReason.none = e.reason at hr
    cases e <;> cases hr
  obtain ⟨-, -, h⟩ := kern_induction (I := fun k => RefsOk k ∧ PipeWaits k) (kernOk_init fs)
    ⟨refsOk_init fs, hinit⟩
    (fun k k' e hk hI he hs heq heff _ => ⟨heq ▸ hI.1.step hk e,
      hI.2.step hk heff (heq ▸ Event.waitStep hk hI.1 e he hs)⟩) hrun
  refine ⟨fun hr => ?_, fun hr => ?_⟩
  · obtain ⟨p, q, hc, hq, hn, hw⟩ := h a ha .read hr
    cases hcont : k.cont a with
    | pipeRead p' len =>
        rw [hcont] at hc
        obtain rfl : p' = p := by simpa [Cont.pipeEnd] using hc
        exact ⟨p', len, q, rfl, hq, hw.1, hw.2, hn⟩
    | _ => rw [hcont] at hc; simp [Cont.pipeEnd] at hc
  · obtain ⟨p, q, hc, hq, hn, hw⟩ := h a ha .write hr
    cases hcont : k.cont a with
    | pipeWrite p' data written =>
        rw [hcont] at hc
        obtain rfl : p' = p := by simpa [Cont.pipeEnd] using hc
        exact ⟨p', data, written, q, rfl, hq, hw.1, hw.2, hn⟩
    | _ => rw [hcont] at hc; simp [Cont.pipeEnd] at hc

end

/-- A program opens a pipe, makes two children and reads from the pipe. -/
def readEmpty : List Event :=
  startOne ++ [.call (.pipe 4096 true), .call (.fork .done), .call (.fork .done),
    .call (.read 3 4096 1 true)]

theorem pipeWaits_readEmpty :
    (runAll smallOps readEmpty smallKern).sched.state 1 = .blocked ∧
    (runAll smallOps readEmpty smallKern).sched.blockReason 1 = .pipeRead ∧
    ∃ p len q, (runAll smallOps readEmpty smallKern).cont 1 = .pipeRead p len ∧
      (runAll smallOps readEmpty smallKern).pipes p = some q ∧ q.avail = 0 ∧
      0 < q.writeOpen ∧ q.blockedReader = some 1 := by
  have hrun : Allowed smallOps SoleWaiter readEmpty smallKern := by
    decide +kernel
  have hb : (runAll smallOps readEmpty smallKern).sched.state 1 = .blocked := by
    decide +kernel
  have hr : (runAll smallOps readEmpty smallKern).sched.blockReason 1 = .pipeRead := by
    decide +kernel
  exact ⟨hb, hr, (pipeWaits_of_run (reflTransGen_runAll _ hrun) 1 hb).1 hr⟩

/-- The second child reads as well and takes the place of its parent in the pipe; the
first child writes a byte, which wakes its sibling only. The parent sleeps on at a pipe
that is not empty and notes nobody. -/
theorem second_reader_forgotten :
    ∃ k, ReflTransGen (KStep smallOps fun _ _ => True) smallKern k ∧
      k.sched.state 1 = .blocked ∧ k.sched.blockReason 1 = .pipeRead ∧
      k.cont 1 = .pipeRead 0 1 ∧
      (k.pipes 0).map (fun q => (q.avail, q.blockedReader)) = some (1, none) :=
  ⟨_, reflTransGen_runAll (readEmpty ++
    [.call (.read 3 4096 1 true), .call (.write 4 4096 [7])]) (by decide +kernel),
    by decide +kernel, by decide +kernel, by decide +kernel, by decide +kernel⟩

end GordOS.Kernel
