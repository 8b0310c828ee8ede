/-
What the events of the kernel do to processes.

* `Quiet`: processes were only woken, and no process started, slept or ended;
* `Effect`, `Event.effect`: every event is quiet, or puts the running process to
  sleep, ends it, starts a process, collects an exit record, kills, hands over the
  keyboard, switches, or reaps.
-/
import Mathlib.Tactic
import GordOS.Kernel.InOrder
import GordOS.Kernel.Outcomes

namespace GordOS.Kernel

open GordOS

section

variable {FS : Type} {ops : VfsOps FS} {k k' k'' : Kern FS}

/-! ### Quiet changes -/

/-- Processes were only woken; descriptors, pipes, write buffers and the file
system may have changed, and the running process may be back in user mode. -/
structure Quiet (k k' : Kern FS) : Prop where
  woke : Woke k.sched k'.sched
  cont : k'.cont = k.cont ∨ k'.cont = Function.update k.cont k.me .user
  foreground : k'.foreground = k.foreground
  records : k'.records = k.records
  nextPid : k'.nextPid = k.nextPid
  exitCode : k'.exitCode = k.exitCode
  freed : k'.freed = k.freed
  exits : k'.exits = k.exits
  waits : k'.waits = k.waits

namespace Quiet

lemma refl (h : InOrder k.sched) : Quiet k k :=
  ⟨.refl h, .inl rfl, rfl, rfl, rfl, rfl, rfl, rfl, rfl⟩

lemma me (h : Quiet k k') : k'.me = k.me := h.woke.current

lemma trans (h : Quiet k k') (h' : Quiet k' k'') : Quiet k k'' where
  woke := h.woke.trans h'.woke
  cont := by
    have hm := h.me
    rcases h'.cont with e' | e' <;> rcases h.cont with e | e <;> rw [e', e]
    · exact .inl rfl
    · exact .inr rfl
    · exact .inr (by rw [hm])
    · exact .inr (by rw [hm, Function.update_idem])
  foreground := h'.foreground.trans h.foreground
  records := h'.records.trans h.records
  nextPid := h'.nextPid.trans h.nextPid
  exitCode := h'.exitCode.trans h.exitCode
  freed := h'.freed.trans h.freed
  exits := h'.exits.trans h.exits
  waits := h'.waits.trans h.waits

lemma resume (h : Quiet k k') : Quiet k k'.resume :=
  h.trans ⟨.refl h.woke.inOrder, .inr rfl, rfl, rfl, rfl, rfl, rfl, rfl, rfl⟩

/-- A change of descriptors, pipes, write buffers, the keyboard buffer and the
file system. -/
lemma of_eq (h : InOrder k.sched) (sched : k'.sched = k.sched) (cont : k'.cont = k.cont)
    (foreground : k'.foreground = k.foreground) (records : k'.records = k.records)
    (nextPid : k'.nextPid = k.nextPid) (exitCode : k'.exitCode = k.exitCode)
    (freed : k'.freed = k.freed) (exits : k'.exits = k.exits) (waits : k'.waits = k.waits) :
    Quiet k k' :=
  ⟨by rw [sched]; exact .refl h, .inl cont, foreground, records, nextPid, exitCode, freed,
    exits, waits⟩

lemma wake (h : InOrder k.sched) (a : Option ℕ) : Quiet k (k.wake a) := by
  cases a with
  | none => exact .refl h
  | some a => exact ⟨(h.wake a).1, .inl rfl, rfl, rfl, rfl, rfl, rfl, rfl, rfl⟩

end Quiet

variable (h : InOrder k.sched)

include h

lemma quiet_wbufUnref (w : Option ℕ) : Quiet k (wbufUnref ops k w) := by
  unfold wbufUnref
  split
  · exact .refl h
  · split
    · exact .refl h
    · split <;> exact .of_eq h rfl rfl rfl rfl rfl rfl rfl rfl rfl

lemma quiet_wbufRef (w : Option ℕ) : Quiet k (wbufRef k w) := by
  unfold wbufRef
  split
  · exact .refl h
  · exact .of_eq h rfl rfl rfl rfl rfl rfl rfl rfl rfl

lemma quiet_setPipe (p : ℕ) (v : Option Pipe) : Quiet k (k.setPipe p v) :=
  .of_eq h rfl rfl rfl rfl rfl rfl rfl rfl rfl

lemma quiet_setFd (a i : ℕ) (f : Fd) : Quiet k (k.setFd a i f) :=
  .of_eq h rfl rfl rfl rfl rfl rfl rfl rfl rfl

lemma quiet_closePipeEnd (e : PipeEnd) (p : ℕ) : Quiet k (closePipeEnd k e p) := by
  unfold closePipeEnd
  split
  · exact .refl h
  · next q _ =>
    dsimp only
    have h₁ := Quiet.wake h ((q.addOpen e (-1)).peer e)
    have h₂ := h₁.trans (quiet_setPipe h₁.woke.inOrder p (some ((q.addOpen e (-1)).clearPeer e)))
    split
    · exact h₂.trans (quiet_setPipe h₂.woke.inOrder p none)
    · exact h₂

/-- The calls on descriptors are quiet. -/
lemma Works.quiet (hw : Works ops k k') : Quiet k k' := by
  induction hw with
  | refl => exact .refl h
  | setFd _ a i f ih => exact ih.trans (quiet_setFd ih.woke.inOrder a i f)
  | ref _ w ih => exact ih.trans (quiet_wbufRef ih.woke.inOrder (some w))
  | unref _ w ih => exact ih.trans (quiet_wbufUnref ih.woke.inOrder (some w))
  | addEnd _ e p ih => exact ih.trans (quiet_setPipe ih.woke.inOrder p _)
  | closeEnd _ e p ih => exact ih.trans (quiet_closePipeEnd ih.woke.inOrder e p)

lemma quiet_closeFds (ops : VfsOps FS) (a : ℕ) :
    Quiet k (fdClosePipes (fdCloseWritable ops k a) a) :=
  (Works.refl.closeFds a).quiet h

omit h

/-! ### The effects -/

/-- The events that can put the running process to sleep. -/
def Event.MaySleep : Event → Prop
  | .resume => True
  | .call (.read _ _ _ _) => True
  | .call (.write _ _ _) => True
  | .call (.readraw _ _) => True
  | .call (.wait _ _) => True
  | _ => False

/-- The events that create a process structure. -/
def Event.Creates : Event → Prop
  | .call (.fork _) => True
  | .shellStart _ _ => True
  | _ => False

/-- The events that end the running process. -/
def Event.Exits : Event → Prop
  | .fault => True
  | .call (.exit _) => True
  | .call (.exec _ _ _ .died) => True
  | _ => False

instance : DecidablePred Event.Creates := fun e => by
  rcases e with c | _ | _ | _ | _ | _ | _ | _ | _ | _ <;>
    first | exact .isTrue trivial | exact .isFalse not_false | skip
  cases c <;> first | exact .isTrue trivial | exact .isFalse not_false

instance (e : Event) : Decidable e.Exits := by
  unfold Event.Exits
  split <;> infer_instance

/-- What the running process sleeps for, and how it goes on. -/
inductive SleepFor (k : Kern FS) : BlockReason → ℕ → Cont → Prop where
  | pipeRead (p len : ℕ) : SleepFor k .pipeRead 0 (.pipeRead p len)
  | pipeWrite (p : ℕ) (data : List UInt8) (written : ℕ) :
      SleepFor k .pipeWrite 0 (.pipeWrite p data written)
  | read (len : ℕ) : SleepFor k .read 0 (.ttyRead len)
  | wait (target status : ℕ) (hc : hasWaitChild k target = true) :
      SleepFor k .wait target (.wait target status)

/-- What an event does to the processes. -/
inductive Effect (k : Kern FS) : Event → Kern FS → Prop where
  | quiet {e : Event} {k' : Kern FS} (hq : Quiet k k') : Effect k e k'
  | slept {e : Event} {k₁ : Kern FS} {r : BlockReason} {w : ℕ} {c : Cont}
      (hq : Quiet k k₁) (he : e.MaySleep) (hm : k.me ≠ 0) (hs : SleepFor k r w c) :
      Effect k e (k₁.sleep r w c)
  | exited {e : Event} {k₁ : Kern FS} (code : ℤ) (he : e.Exits) (hm : k.me ≠ 0)
      (hq : Quiet
        { k with
          exitCode := Function.update k.exitCode k.me code
          foreground := exitForeground k k.me } k₁) : Effect k e (exitTail k₁ k.me)
  | started {e : Event} {k₁ k' : Kern FS} (fg : Option ℕ) (he : e.Creates)
      (hfg : fg = k.foreground ∨ fg = some k.sched.size)
      (hq : Quiet (processCreate k) k₁)
      (hq' : Quiet
        { k₁ with
          foreground := fg
          sched := schedulerAdd k₁.sched k.sched.size } k') : Effect k e k'
  | aborted {e : Event} {k₁ k' : Kern FS} (he : e.Creates)
      (hq : Quiet (processCreate k) k₁)
      (hq' : Quiet
        { k₁ with freed := Function.update k₁.freed k.sched.size true } k') :
      Effect k e k'
  | collected {e : Event} {k' : Kern FS} (target : ℕ) (r : ExitRecord)
      (records : List (Option ExitRecord))
      (hr : processReapChild (k.sched.pid k.me) target k.records = some (r, records))
      (hq : Quiet
        { k with records := records, waits := k.waits ++ [⟨k.me, target, r⟩] } k') :
      Effect k e k'
  | killed {e : Event} {k' : Kern FS} (pid : ℕ)
      (he : e = .call (.kill pid) ∨ e = .shellKill pid)
      (hq : Quiet (killPid k pid).2 k') : Effect k e k'
  | gave {k' : Kern FS} (pid target : ℕ)
      (hf : schedulerFindAny k.sched pid = some target)
      (hq : Quiet { k with foreground := some target } k') :
      Effect k (.call (.giveForeground pid)) k'
  | tick : Effect k .tick { k with sched := schedulerTick k.sched }
  | reapTake (hr : k.sched.reapList = none) : Effect k .reapTake (reapTake k)
  | reapOne {a : ℕ} {k₁ : Kern FS} (hr : k.sched.reapList = some a)
      (hq : Quiet { k with sched := { k.sched with reapList := k.sched.next a } } k₁) :
      Effect k .reapOne { k₁ with freed := Function.update k₁.freed a true }

/-- A call that is answered, or puts the running process to sleep. -/
def Settles (k : Kern FS) (k' : Kern FS) : Prop :=
  Quiet k k' ∨ ∃ k₁ r w c, Quiet k k₁ ∧ SleepFor k r w c ∧ k' = k₁.sleep r w c

lemma Settles.effect {e : Event} (he : e.MaySleep) (hm : k.me ≠ 0) (hs : Settles k k') :
    Effect k e k' := by
  rcases hs with hq | ⟨k₁, r, w, c, hq, hs, rfl⟩
  · exact .quiet hq
  · exact .slept hq he hm hs

lemma Quiet.answer (h : Quiet k k') (ret : ℤ) : Quiet k (answer k' ret).2 := h.resume

/-- A change of the file system and the history of writes, with an answer. -/
lemma Quiet.answer_fs (h : InOrder k.sched) (fs : FS) (ret : ℤ) :
    Quiet k (Kernel.answer { k with fs := fs } ret).2 :=
  Quiet.resume (.of_eq h rfl rfl rfl rfl rfl rfl rfl rfl rfl)

/-- The loop of `pipe_write_fd`, behind a quiet change. -/
lemma settles_pipeWriteLoop (p : ℕ) (data : List UInt8) (n : ℕ) :
    ∀ (written : ℕ) (k' : Kern FS), Quiet k k' →
      Settles k (pipeWriteLoop p data n written k').2 := by
  induction n with
  | zero => exact fun written k' hq => .inl (hq.answer _)
  | succ n ih =>
    intro written k' hq
    rw [pipeWriteLoop]
    by_cases hw : written < data.length
    · rw [if_pos hw]
      cases hp : k'.pipes p with
      | none => exact .inl (hq.answer _)
      | some q =>
        dsimp only
        rcases hr : pipeWriteRound k'.me q data written with ⟨_ | _ | _, q'⟩
        · have h₁ := hq.trans (Quiet.wake hq.woke.inOrder q.blockedReader)
          exact ih _ _ (h₁.trans (quiet_setPipe h₁.woke.inOrder p (some q')))
        · exact .inl (hq.answer _)
        · exact .inr ⟨_, _, _, _, hq.trans (quiet_setPipe hq.woke.inOrder p (some q')),
            .pipeWrite p data written, rfl⟩
    · rw [if_neg hw]
      exact .inl (hq.answer _)

include h

lemma settles_pipeReadFd (p len : ℕ) : Settles k (pipeReadFd k p len).2 := by
  unfold pipeReadFd
  cases hp : k.pipes p with
  | none => exact .inl ((Quiet.refl h).answer _)
  | some q =>
    dsimp only
    rcases hr : pipeReadRound k.me q len with ⟨_ | _ | _, q'⟩
    · have h₁ := Quiet.wake h q.blockedWriter
      exact .inl (h₁.trans (quiet_setPipe h₁.woke.inOrder p (some q'))).resume
    · exact .inl ((Quiet.refl h).answer _)
    · exact .inr ⟨_, _, _, _, quiet_setPipe h p (some q'), .pipeRead p len, rfl⟩

lemma settles_ttyRead (len : ℕ) : Settles k (ttyRead k len).2 := by
  unfold ttyRead
  dsimp only
  split
  · refine .inl (Quiet.resume ?_)
    exact .of_eq h rfl rfl rfl rfl rfl rfl rfl rfl rfl
  · exact .inr ⟨k, _, _, _, .refl h, .read len, rfl⟩

/-- The loop of `sys_wait`. -/
lemma effect_waitLoop {e : Event} (he : e.MaySleep) (hm : k.me ≠ 0) (target status : ℕ) :
    Effect k e (waitLoop k target status).2 := by
  unfold waitLoop
  cases hr : processReapChild (k.sched.pid k.me) target k.records with
  | some p =>
    obtain ⟨r, records⟩ := p
    exact .collected target r records hr ((Quiet.refl (k := { k with
      records := records, waits := k.waits ++ [⟨k.me, target, r⟩] }) h).resume)
  | none =>
    dsimp only
    split
    · next hc => exact .slept (.refl h) he hm (.wait target status hc)
    · exact .quiet ((Quiet.refl h).answer _)

/-- The end of the running process. -/
lemma effect_processExit (ops : VfsOps FS) {e : Event} (he : e.Exits) (hm : k.me ≠ 0) (code : ℤ)
    (fs : FS) : Effect k e (processExit ops
      { k with exitCode := Function.update k.exitCode k.me code, fs := fs }) := by
  have hq := quiet_closeFds (k := { k with
    exitCode := Function.update k.exitCode k.me code
    fs := fs
    foreground := exitForeground k k.me }) h ops k.me
  have hsame : Quiet { k with
        exitCode := Function.update k.exitCode k.me code
        foreground := exitForeground k k.me }
      { k with
        exitCode := Function.update k.exitCode k.me code
        fs := fs
        foreground := exitForeground k k.me } :=
    .of_eq h rfl rfl rfl rfl rfl rfl rfl rfl rfl
  have heq : processExit ops { k with exitCode := Function.update k.exitCode k.me code, fs := fs } =
      exitTail (fdClosePipes (fdCloseWritable ops { k with
          exitCode := Function.update k.exitCode k.me code
          fs := fs
          foreground := exitForeground k k.me } k.me) k.me) k.me := if_neg hm
  rw [heq]
  exact .exited code he hm (hsame.trans hq)

omit h in
lemma inOrder_processCreate (h : InOrder k.sched) : InOrder (processCreate k).sched :=
  (h.create k.nextPid (k.sched.pid k.me)).1

/-- A new process joins the ready ring. -/
lemma start_spec {k₁ : Kern FS} (hq : Quiet (processCreate k) k₁) :
    InOrder (schedulerAdd k₁.sched k.sched.size) ∧
      Turn k₁.sched (schedulerAdd k₁.sched k.sched.size) k₁.sched.current
        (Function.update k₁.sched.state k.sched.size .ready) k₁.sched.blockReason
        k₁.sched.waitTarget ∧
      (∀ a, Listed (schedulerAdd k₁.sched k.sched.size) a ↔ a = k.sched.size ∨ Listed k₁.sched a) ∧
      ∀ a, Gone (schedulerAdd k₁.sched k.sched.size) a ↔ Gone k₁.sched a := by
  obtain ⟨-, hl, hg, hnl, hng⟩ := h.create k.nextPid (k.sched.pid k.me)
  refine hq.woke.inOrder.add ?_ ?_ ?_
  · rw [hq.woke.listed]
    exact fun hc => hnl ((hl _).mp hc)
  · rw [hq.woke.gone]
    exact fun hc => hng ((hg _).mp hc)
  · rw [hq.woke.size]
    exact Nat.lt_succ_self _

lemma inOrder_processDestroy (a : ℕ) : InOrder (processDestroy ops k a).sched := by
  unfold processDestroy
  split
  · exact h
  · have hd := quiet_closeFds h ops a
    exact hd.woke.inOrder

/-- A process structure that is made and given back at once. -/
lemma effect_destroyNew (ops : VfsOps FS) {e : Event} (he : e.Creates) {k₁ k' : Kern FS}
    (hq : Quiet (processCreate k) k₁) (hq' : Quiet (processDestroy ops k₁ k.sched.size) k') :
    Effect k e k' := by
  have hne : k.sched.size ≠ 0 := (Nat.zero_lt_of_lt (h.lt h.current)).ne'
  rw [processDestroy, if_neg hne] at hq'
  exact .aborted he (hq.trans (quiet_closeFds hq.woke.inOrder ops _)) hq'

lemma effect_fork (o : ForkOutcome) :
    Effect k (.call (.fork o)) (answer (processFork ops k o).2 (processFork ops k o).1).2 := by
  have hc := inOrder_processCreate h
  have hw : Works ops (processCreate k) _ := .inheritFds .refl k.me k.sched.size
  have hq := hw.quiet hc
  cases o with
  | noProcess => exact .quiet ((Quiet.refl h).answer _)
  | noCopy =>
    have hcr : Event.Creates (.call (.fork .noCopy)) := trivial
    exact effect_destroyNew h ops hcr hq
      (Quiet.answer (.refl (inOrder_processDestroy hq.woke.inOrder _)) _)
  | done =>
    refine .started k.foreground trivial (.inl rfl) hq (Quiet.answer ?_ _)
    exact .of_eq (start_spec h hq).1 rfl rfl hq.foreground rfl rfl rfl rfl rfl rfl

lemma effect_startProgram (fg : Bool) (o : LoadOutcome) :
    Effect k (.shellStart fg o) (startProgram ops k fg o) := by
  have hc := inOrder_processCreate h
  cases o with
  | noProcess => exact .quiet (.refl h)
  | noProgram =>
    have hcr : Event.Creates (.shellStart fg .noProgram) := trivial
    exact effect_destroyNew h ops hcr (.refl hc) (.refl (inOrder_processDestroy hc _))
  | done =>
    refine .started (if fg then some k.sched.size else k.foreground) trivial ?_ (.refl hc) ?_
    · cases fg
      · exact .inl rfl
      · exact .inr rfl
    · exact .of_eq (start_spec h (.refl hc)).1 rfl rfl rfl rfl rfl rfl rfl rfl rfl

lemma inOrder_killPid (pid : ℕ) : InOrder (killPid k pid).2.sched := by
  unfold killPid
  split
  · exact h
  · next hpid =>
    cases hf : schedulerFind k.sched pid with
    | none => exact h
    | some p => exact (h.kill_found hpid hf).1

lemma quiet_deliverChar (c : UInt8) : Quiet k (deliverChar k c) := by
  unfold deliverChar
  split
  · exact .refl h
  · next a _ =>
    dsimp only
    have hpush : Quiet k (if (k.kbd.head + 1) % kbdBufferSize ≠ k.kbd.tail then
        { k with kbd := k.kbd.push kbdBufferSize c } else k) := by
      split
      · exact .of_eq h rfl rfl rfl rfl rfl rfl rfl rfl rfl
      · exact .refl h
    generalize (if (k.kbd.head + 1) % kbdBufferSize ≠ k.kbd.tail then
      { k with kbd := k.kbd.push kbdBufferSize c } else k) = k₁ at hpush ⊢
    split
    · exact hpush.trans (Quiet.wake hpush.woke.inOrder (some a))
    · exact hpush

lemma effect_call (hm : k.me ≠ 0) (c : Syscall) : Effect k (.call c) (c.run ops k).2 := by
  have hc : Outcome ops k c (c.run ops k) := c.outcome ops k
  generalize c.run ops k = r at hc
  cases hc with
  | answer fs ret => exact .quiet (.answer_fs h fs ret)
  | readfile => exact .quiet (.answer_fs h _ 0)
  | read | seek | opened | created | pipe =>
    exact .quiet (Quiet.resume (.of_eq h rfl rfl rfl rfl rfl rfl rfl rfl rfl))
  | close => exact .quiet (((Works.refl.closeFd _).quiet h).answer _)
  | dup _ _ hk₁ => exact .quiet (((Works.dup hk₁).quiet h).answer _)
  | write =>
    refine .quiet (Quiet.answer ?_ _)
    rw [wbufWrite]
    split
    · exact .refl h
    · exact .of_eq h rfl rfl rfl rfl rfl rfl rfl rfl rfl
  | pipeWrite => exact (settles_pipeWriteLoop _ _ _ 0 k (.refl h)).effect trivial hm
  | pipeRead => exact (settles_pipeReadFd h _ _).effect trivial hm
  | ttyRead | readraw => exact (settles_ttyRead h _).effect trivial hm
  | @wait target status =>
    exact effect_waitLoop (e := .call (.wait target status)) h trivial hm target status
  | @exit code => exact effect_processExit (e := .call (.exit code)) h ops trivial hm code k.fs
  | started => exact .quiet (.of_eq h rfl rfl rfl rfl rfl rfl rfl rfl rfl)
  | @died upath str mem fs =>
    have he := effect_processExit (e := .call (.exec upath str mem .died)) h ops trivial hm
      (k.exitCode k.me) fs
    rw [Function.update_eq_self] at he
    exact he
  | fork => exact effect_fork h _
  | @gave pid target hf =>
    exact .gave pid target hf ((Quiet.refl (k := { k with foreground := some target }) h).answer _)
  | @kill pid => exact .killed pid (.inl rfl) ((Quiet.refl (inOrder_killPid h pid)).answer _)

omit h

/-- The lists are in order, the kernel task is never in a system call, and a freed
process is on no list. -/
structure KernOk (k : Kern FS) : Prop where
  inOrder : InOrder k.sched
  idle : k.cont 0 = .user
  freed : ∀ a, k.freed a = true →
    a < k.sched.size ∧ ¬ Listed k.sched a ∧ ¬ Gone k.sched a

/-- **The effect of an event** is one of these. -/
theorem Event.effect {e : Event} (hk : KernOk k) (he : e.Enabled k) :
    Effect k e (e.run ops k).2 := by
  have h := hk.inOrder
  cases e with
  | call c => exact effect_call h he.2 c
  | fault => exact effect_processExit (e := .fault) h ops trivial he.2 (-1) k.fs
  | resume =>
    have hm : k.me ≠ 0 := fun e0 => he (by rw [e0, hk.idle])
    rw [Event.run]
    cases k.cont k.me with
    | user => exact .quiet (.refl h)
    | pipeRead p len => exact (settles_pipeReadFd h p len).effect trivial hm
    | pipeWrite p data written =>
      exact (settles_pipeWriteLoop p data _ written k (.refl h)).effect trivial hm
    | wait target status =>
      exact effect_waitLoop (e := .resume) h trivial hm target status
    | ttyRead len => exact (settles_ttyRead h len).effect trivial hm
  | tick => exact .tick
  | key c => exact .quiet (quiet_deliverChar h c)
  | shellStart fg o => exact effect_startProgram h fg o
  | shellKill pid => exact .killed pid (.inr rfl) (.refl (inOrder_killPid h pid))
  | shellFs op =>
    refine .quiet ?_
    exact .of_eq h rfl rfl rfl rfl rfl rfl rfl rfl rfl
  | reapTake => exact .reapTake he.2.2
  | reapOne =>
    obtain ⟨a, ha⟩ := Option.ne_none_iff_exists'.mp he.2.2
    obtain ⟨h', hg, -, -⟩ := h.reapNext ha
    have ha0 : a ≠ 0 := fun e0 => h.not_gone h.kernel (e0 ▸ hg)
    have hd := quiet_closeFds
      (k := { k with sched := { k.sched with reapList := k.sched.next a } }) h' ops a
    have heq : (Event.run ops k .reapOne).2 = processDestroy ops
        { k with sched := { k.sched with reapList := k.sched.next a } } a := by
      rw [Event.run, Kernel.reapOne, ha]
    rw [heq, processDestroy, if_neg ha0]
    exact .reapOne ha hd

lemma Quiet.idle (hq : Quiet k k') (h : k.cont 0 = .user) : k'.cont 0 = .user := by
  rcases hq.cont with e | e
  · rw [e, h]
  · rw [e]
    by_cases h0 : 0 = k.me
    · rw [← h0, Function.update_self]
    · rw [Function.update_of_ne h0, h]

/-- A quiet change keeps freed processes off the lists. -/
lemma Quiet.freed_off (hq : Quiet k k')
    (h : ∀ a, k.freed a = true → a < k.sched.size ∧ ¬ Listed k.sched a ∧ ¬ Gone k.sched a) :
    ∀ a, k'.freed a = true → a < k'.sched.size ∧ ¬ Listed k'.sched a ∧ ¬ Gone k'.sched a := by
  intro a ha
  rw [hq.woke.size, hq.woke.listed, hq.woke.gone]
  exact h a (hq.freed ▸ ha)

lemma Quiet.kernOk (hq : Quiet k k') (hk : KernOk k) : KernOk k' :=
  ⟨hq.woke.inOrder, hq.idle hk.idle, hq.freed_off hk.freed⟩

/-- A new process structure. -/
lemma KernOk.create (hk : KernOk k) : KernOk (processCreate k) := by
  obtain ⟨hin, hl, hg, -⟩ := hk.inOrder.create k.nextPid (k.sched.pid k.me)
  have hne : 0 ≠ k.sched.size := (Nat.zero_lt_of_lt (hk.inOrder.lt hk.inOrder.current)).ne
  refine ⟨hin, (Function.update_of_ne hne _ _).trans hk.idle, fun a ha => ?_⟩
  obtain ⟨hlt, hnl, hng⟩ := hk.freed a ha
  exact ⟨hlt.trans (Nat.lt_succ_self _), fun hc => hnl ((hl a).mp hc), fun hc => hng ((hg a).mp hc)⟩

/-- An event keeps the lists in order. -/
lemma Effect.kernOk {e : Event} (hk : KernOk k) (he : Effect k e k') : KernOk k' := by
  have h := hk.inOrder
  cases he with
  | quiet hq => exact hq.kernOk hk
  | @slept _ k₁ _ _ _ hq _ hm _ =>
    obtain ⟨hin, ⟨n, -, -, -, ht⟩, hl, hg⟩ :=
      hq.woke.inOrder.sleep (by rw [hq.woke.current]; exact hm) _ _
    have hne : 0 ≠ k₁.me := by
      rw [hq.me]
      exact Ne.symm hm
    refine ⟨hin, (Function.update_of_ne hne _ _).trans (hq.idle hk.idle), fun a ha => ?_⟩
    obtain ⟨hlt, hnl, hng⟩ := hq.freed_off hk.freed a ha
    exact ⟨hlt.trans_le ht.size.ge, fun hc => hnl ((hl a).mp hc), fun hc => hng ((hg a).mp hc)⟩
  | @exited _ k₁ code _ hm hq =>
    have hk₁ : KernOk k₁ := hq.kernOk ⟨hk.inOrder, hk.idle, hk.freed⟩
    have hm₁ : k₁.sched.current ≠ 0 := by
      rw [hq.woke.current]
      exact hm
    obtain ⟨s', hw, heq, -⟩ := hk₁.inOrder.exit hm₁
    obtain ⟨hin, ⟨n, -, -, -, ht⟩, hl, hg⟩ := hw.inOrder.die (by rwa [hw.current])
    refine ⟨by rw [exitTail, heq]; exact hin, hk₁.idle, fun a ha => ?_⟩
    obtain ⟨hlt, hnl, hng⟩ := hk₁.freed a ha
    rw [exitTail, heq, hl, hg, hw.listed, hw.gone]
    refine ⟨(hw.size ▸ hlt).trans_le ht.size.ge, fun hc => hnl hc.1, ?_⟩
    rintro (hc | rfl)
    · exact hng hc
    · exact hnl (hw.current ▸ hk₁.inOrder.current)
  | @started _ k₁ _ fg _ _ hq hq' =>
    have hk₁ := hq.kernOk hk.create
    obtain ⟨hin, ht, hl', hg'⟩ := start_spec h hq
    refine hq'.kernOk ⟨hin, hk₁.idle, fun a ha => ?_⟩
    obtain ⟨hlt, hnla, hnga⟩ := hk₁.freed a ha
    have hold : a < k.sched.size := (hk.freed a (by rw [hq.freed] at ha; exact ha)).1
    refine ⟨hlt.trans_le ht.size.ge, fun hc => ?_, fun hc => hnga ((hg' a).mp hc)⟩
    exact hnla (((hl' a).mp hc).resolve_left hold.ne)
  | @aborted _ k₁ _ _ hq hq' =>
    have hk₁ := hq.kernOk hk.create
    obtain ⟨-, hl, hg, hnl, hng⟩ := h.create k.nextPid (k.sched.pid k.me)
    refine hq'.kernOk ⟨hk₁.inOrder, hk₁.idle, fun a ha => ?_⟩
    by_cases hs : a = k.sched.size
    · subst hs
      rw [hq.woke.listed, hq.woke.gone, hq.woke.size]
      exact ⟨Nat.lt_succ_self _, fun hc => hnl ((hl _).mp hc), fun hc => hng ((hg _).mp hc)⟩
    · exact hk₁.freed a ((Function.update_of_ne hs _ _).symm.trans ha)
  | collected _ _ _ _ hq => exact hq.kernOk ⟨hk.inOrder, hk.idle, hk.freed⟩
  | killed pid _ hq =>
    refine hq.kernOk ?_
    unfold killPid
    split
    · exact hk
    · next hpid =>
      cases hf : schedulerFind k.sched pid with
      | none => exact hk
      | some p =>
        obtain ⟨hin, ht, hl, hg⟩ := h.kill_found hpid hf
        refine ⟨hin, hk.idle, fun a ha => ?_⟩
        obtain ⟨hlt, hnl, hng⟩ := hk.freed a ha
        rw [hl, hg]
        refine ⟨hlt.trans_le ht.size.ge, fun hc => hnl hc.1, ?_⟩
        rintro (hc | ⟨rfl, -⟩)
        · exact hng hc
        · exact hnl (.inl (mem_of_find hf).1)
  | gave _ _ _ hq => exact hq.kernOk ⟨hk.inOrder, hk.idle, hk.freed⟩
  | tick =>
    obtain ⟨hin, hturn, hl, hg⟩ := h.tick
    have hs : (schedulerTick k.sched).size = k.sched.size := by
      rcases hturn with ⟨-, ht⟩ | ⟨_, -, -, -, -, ht⟩ | ⟨_, -, -, -, -, -, ht⟩ <;>
        exact ht.size
    refine ⟨hin, hk.idle, fun a ha => ?_⟩
    obtain ⟨hlt, hnl, hng⟩ := hk.freed a ha
    rw [hl, hg]
    refine ⟨hlt.trans_le hs.ge, fun hc => hnl hc.1, ?_⟩
    rintro (hc | ⟨-, rfl⟩)
    · exact hng hc
    · exact hnl h.current
  | reapTake hr =>
    obtain ⟨hin, hl, hg⟩ := h.reapTake hr
    refine ⟨hin, hk.idle, fun a ha => ?_⟩
    obtain ⟨hlt, hnl, hng⟩ := hk.freed a ha
    exact ⟨hlt, fun hc => hnl ((hl a).mp hc), fun hc => hng ((hg a).mp hc)⟩
  | @reapOne a k₁ hr hq =>
    obtain ⟨hin, hgone, hl, hg⟩ := h.reapNext hr
    refine ⟨hq.woke.inOrder, hq.idle hk.idle, fun b hb => ?_⟩
    rw [hq.woke.listed, hq.woke.gone, hq.woke.size, hl, hg]
    by_cases hba : b = a
    · subst hba
      exact ⟨h.gone_lt hgone, fun hc => h.not_gone hc hgone, fun hc => hc.2 rfl⟩
    · obtain ⟨hlt, hnl, hng⟩ := hk.freed b (by
        rw [← hq.freed]
        exact (Function.update_of_ne hba _ _).symm.trans hb)
      exact ⟨hlt, hnl, fun hc => hng hc.1⟩

/-! ### What every event keeps -/

/-- The processes there are keep their pids, no process comes back to the lists,
and only the running one gets an exit code. -/
structure Keeps (k k' : Kern FS) : Prop where
  size : k.sched.size ≤ k'.sched.size
  pid : ∀ a < k.sched.size, k'.sched.pid a = k.sched.pid a
  parentPid : ∀ a < k.sched.size, k'.sched.parentPid a = k.sched.parentPid a
  listed : ∀ a < k.sched.size, Listed k'.sched a → Listed k.sched a
  exitCode : ∀ a < k.sched.size, a ≠ k.me → k'.exitCode a = k.exitCode a

namespace Keeps

lemma refl (k : Kern FS) : Keeps k k :=
  ⟨le_rfl, fun _ _ => rfl, fun _ _ => rfl, fun _ _ h => h, fun _ _ _ => rfl⟩

/-- The same processes, with lists that lost some. -/
lemma of_sameProcs (hs : SameProcs k.sched k'.sched)
    (hl : ∀ a, Listed k'.sched a → Listed k.sched a)
    (he : ∀ a, a ≠ k.me → k'.exitCode a = k.exitCode a) : Keeps k k' :=
  ⟨hs.size.ge, fun a _ => by rw [hs.pid], fun a _ => by rw [hs.parentPid],
    fun a _ => hl a, fun a _ => he a⟩

lemma quiet (h : Keeps k k') (hq : Quiet k' k'') : Keeps k k'' where
  size := h.size.trans hq.woke.size.ge
  pid := fun a ha => by rw [hq.woke.pid, h.pid a ha]
  parentPid := fun a ha => by rw [hq.woke.parentPid, h.parentPid a ha]
  listed := fun a ha hl => h.listed a ha ((hq.woke.listed a).mp hl)
  exitCode := fun a ha hm => by rw [hq.exitCode, h.exitCode a ha hm]

/-- The switch of an exit. -/
lemma exit (h : Keeps k k') (hin : InOrder k'.sched) (hm : k'.sched.current ≠ 0) :
    Keeps k (exitTail k' k.me) ∧ ¬ Listed (exitTail k' k.me).sched k'.sched.current := by
  obtain ⟨s', hw, heq, -⟩ := hin.exit hm
  obtain ⟨-, ⟨n, -, -, -, ht⟩, hl, -⟩ := hw.inOrder.die (by rwa [hw.current])
  have hs : SameProcs k'.sched (exitSwitch k'.sched) := by
    rw [heq]
    exact hw.toSameProcs.trans ht.toSameProcs
  have hlist : ∀ a, Listed (exitSwitch k'.sched) a → Listed k'.sched a ∧ a ≠ s'.current := by
    intro a ha
    rw [heq, hl, hw.listed] at ha
    exact ha
  refine ⟨⟨h.size.trans hs.size.ge, fun a ha => ?_, fun a ha => ?_,
    fun a ha hla => h.listed a ha (hlist a hla).1, h.exitCode⟩,
    fun hla => (hlist _ hla).2 hw.current.symm⟩
  · rw [← h.pid a ha, ← hs.pid]
    rfl
  · rw [← h.parentPid a ha, ← hs.parentPid]
    rfl

end Keeps

lemma keeps_processCreate (h : InOrder k.sched) : Keeps k (processCreate k) := by
  obtain ⟨-, hl, -⟩ := h.create k.nextPid (k.sched.pid k.me)
  exact ⟨Nat.le_succ _, fun a ha => Function.update_of_ne ha.ne _ _,
    fun a ha => Function.update_of_ne ha.ne _ _, fun a _ => (hl a).mp,
    fun a ha _ => Function.update_of_ne ha.ne _ _⟩

lemma Effect.keeps {e : Event} (hk : KernOk k) (he : Effect k e k') : Keeps k k' := by
  have h := hk.inOrder
  cases he with
  | quiet hq => exact (Keeps.refl k).quiet hq
  | slept hq _ hm _ =>
    obtain ⟨-, ⟨n, -, -, -, ht⟩, hl, -⟩ :=
      hq.woke.inOrder.sleep (by rw [hq.woke.current]; exact hm) _ _
    have h₁ := (Keeps.refl k).quiet hq
    exact ⟨h₁.size.trans ht.size.ge, fun a ha => (congrFun ht.pid a).trans (h₁.pid a ha),
      fun a ha => (congrFun ht.parentPid a).trans (h₁.parentPid a ha),
      fun a ha hla => h₁.listed a ha ((hl a).mp hla), h₁.exitCode⟩
  | exited code _ hm hq =>
    have h₀ : Keeps k { k with
        exitCode := Function.update k.exitCode k.me code
        foreground := exitForeground k k.me } :=
      .of_sameProcs (.refl _) (fun _ => id) fun a ha => Function.update_of_ne ha _ _
    exact ((h₀.quiet hq).exit hq.woke.inOrder (by rw [hq.woke.current]; exact hm)).1
  | @started _ k₁ _ fg _ _ hq hq' =>
    have h₁ := (keeps_processCreate h).quiet hq
    have hadd := start_spec h hq
    refine Keeps.quiet ?_ hq'
    exact ⟨h₁.size.trans hadd.2.1.size.ge,
      fun a ha => (congrFun hadd.2.1.pid a).trans (h₁.pid a ha),
      fun a ha => (congrFun hadd.2.1.parentPid a).trans (h₁.parentPid a ha),
      fun a ha hla => h₁.listed a ha (((hadd.2.2.1 a).mp hla).resolve_left ha.ne),
      h₁.exitCode⟩
  | aborted _ hq hq' =>
    have h₁ := (keeps_processCreate h).quiet hq
    refine Keeps.quiet ?_ hq'
    exact ⟨h₁.size, h₁.pid, h₁.parentPid, h₁.listed, h₁.exitCode⟩
  | collected _ _ _ _ hq =>
    refine Keeps.quiet ?_ hq
    exact .of_sameProcs (.refl _) (fun _ => id) fun _ _ => rfl
  | killed pid _ hq =>
    refine Keeps.quiet ?_ hq
    unfold killPid
    split
    · exact .refl k
    · next hpid =>
      cases hf : schedulerFind k.sched pid with
      | none => exact .refl k
      | some p =>
        obtain ⟨-, ht, hl, -⟩ := h.kill_found hpid hf
        exact .of_sameProcs ht.toSameProcs (fun a ha => ((hl a).mp ha).1) fun _ _ => rfl
  | gave _ _ _ hq =>
    refine Keeps.quiet ?_ hq
    exact .of_sameProcs (.refl _) (fun _ => id) fun _ _ => rfl
  | tick =>
    obtain ⟨-, hturn, hl, -⟩ := h.tick
    refine .of_sameProcs ?_ (fun a ha => ((hl a).mp ha).1) fun _ _ => rfl
    rcases hturn with ⟨-, ht⟩ | ⟨_, -, -, -, -, ht⟩ | ⟨_, -, -, -, -, -, ht⟩ <;>
      exact ht.toSameProcs
  | reapTake hr =>
    exact ⟨le_rfl, fun _ _ => rfl, fun _ _ => rfl,
      fun a _ => ((h.reapTake hr).2.1 a).mp, fun _ _ _ => rfl⟩
  | @reapOne a k₁ hr hq =>
    have h₀ : Keeps k { k with sched := { k.sched with reapList := k.sched.next a } } :=
      ⟨le_rfl, fun _ _ => rfl, fun _ _ => rfl,
        fun a _ => ((h.reapNext hr).2.2.1 a).mp, fun _ _ _ => rfl⟩
    have h₁ := h₀.quiet hq
    exact ⟨h₁.size, h₁.pid, h₁.parentPid, h₁.listed, h₁.exitCode⟩

/-! ### Runs -/

variable {P : Event → Kern FS → Prop}

lemma kernOk_init (fs : FS) : KernOk (kernInit fs) :=
  ⟨inOrder_processInit, rfl, fun _ h => by cases h⟩

/-- **Invariants of runs**: what holds at first and is kept by every step, while
the lists are in order, holds in every state reached. -/
theorem kern_induction {I : Kern FS → Prop} (hk : KernOk k) (hI : I k)
    (hstep : ∀ k k' e, KernOk k → I k → e.Enabled k → P e k →
      k' = (e.run ops k).2 → Effect k e k' → KernOk k' → I k')
    (hrun : Relation.ReflTransGen (KStep ops P) k k') : KernOk k' ∧ I k' := by
  induction hrun with
  | refl => exact ⟨hk, hI⟩
  | tail _ hs ih =>
    obtain ⟨e, he, hP, heq⟩ := hs
    have heff : Effect _ e (e.run ops _).2 := Event.effect ih.1 he
    rw [← heq] at heff
    have hk' := heff.kernOk ih.1
    exact ⟨hk', hstep _ _ e ih.1 ih.2 he hP heq heff hk'⟩

/-- The events of a list, one after the other. -/
def runAll (ops : VfsOps FS) (es : List Event) (k : Kern FS) : Kern FS :=
  es.foldl (fun k e => (e.run ops k).2) k

/-- Each event of the list can happen in its turn and meets the condition. -/
def Allowed (ops : VfsOps FS) (P : Event → Kern FS → Prop) : List Event → Kern FS → Prop
  | [], _ => True
  | e :: es, k => (e.Enabled k ∧ P e k) ∧ Allowed ops P es (e.run ops k).2

instance Allowed.decidable [∀ e k, Decidable (P e k)] (es : List Event) (k : Kern FS) :
    Decidable (Allowed ops P es k) :=
  match es with
  | [] => .isTrue trivial
  | e :: es =>
    have := Allowed.decidable es (e.run ops k).2
    inferInstanceAs (Decidable ((e.Enabled k ∧ P e k) ∧ Allowed ops P es (e.run ops k).2))

/-- A list of events is a run. -/
lemma reflTransGen_runAll (es : List Event) (h : Allowed ops P es k) :
    Relation.ReflTransGen (KStep ops P) k (runAll ops es k) := by
  induction es generalizing k with
  | nil => exact .refl
  | cons e es ih => exact .head ⟨e, h.1.1, h.1.2, rfl⟩ (ih h.2)

end

end GordOS.Kernel
