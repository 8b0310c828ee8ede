/-
Exit records and `sys_wait`.

* `recordExit_subperm`, `recordExit_perm`, `processReapChild_spec`: what the table
  of exit records holds after an exit and after a wait;
* `waits_of_run`: **every wait returns an exit of its own**: a child of the caller,
  the one asked for, with its exit code, and no exit twice;
* `recorded_of_run`: as long as every exit finds a free record, no exit status of
  a child is lost before its parent collects it;
* `orphans_fill_table`: sixteen orphans that nobody waits for push out the record
  of a child whose parent still runs.
-/
import Mathlib.Tactic
import Mathlib.Data.List.ReduceOption
import GordOS.Kernel.Effects
import GordOS.Fat32.Cwd

namespace GordOS.Kernel

open GordOS Relation

/-! ### The table of exit records -/

section

variable {l l' : List (Option ExitRecord)} {r : ExitRecord} {parentPid target i : ℕ}

/-- One slot of a table and the others. -/
lemma reduceOption_perm {o : Option ExitRecord} (h : l[i]? = some o) :
    l.reduceOption.Perm (o.toList ++ (l.eraseIdx i).reduceOption) := by
  obtain ⟨hi, rfl⟩ := List.getElem?_eq_some_iff.mp h
  have hperm := (List.getElem_cons_eraseIdx_perm hi).symm.filterMap id
  cases hl : l[i] with
  | none => simpa [List.reduceOption, hl] using hperm
  | some r => simpa [List.reduceOption, hl] using hperm

/-- A slot is overwritten. -/
lemma reduceOption_set_perm (o : Option ExitRecord) (hi : i < l.length) :
    (l.set i o).reduceOption.Perm (o.toList ++ (l.eraseIdx i).reduceOption) := by
  have h := reduceOption_perm (l := l.set i o) (i := i) (o := o) (by simp [hi])
  rwa [List.eraseIdx_set_eq] at h

/-- A slot that is overwritten adds one record and may lose one. -/
lemma reduceOption_set_subperm (l : List (Option ExitRecord)) (i : ℕ) (r : ExitRecord) :
    ((l.set i (some r)).reduceOption).Subperm (r :: l.reduceOption) := by
  rcases Nat.lt_or_ge i l.length with hi | hi
  · refine (reduceOption_set_perm (some r) hi).subperm.trans ?_
    exact (List.subperm_cons r).mpr ((List.eraseIdx_sublist l i).filterMap id).subperm
  · rw [List.set_eq_of_length_le hi]
    exact (List.sublist_cons_self _ _).subperm

/-- A record is taken out. -/
lemma reduceOption_set_none (h : l[i]? = some (some r)) :
    (l.reduceOption).Perm (r :: (l.set i none).reduceOption) :=
  (reduceOption_perm h).trans ((reduceOption_set_perm none
    (List.getElem?_eq_some_iff.mp h).1).symm.cons r)

/-- `record_exit` with a free slot loses no record. -/
lemma recordExit_perm (h : none ∈ l) :
    ((recordExit r l).reduceOption).Perm (r :: l.reduceOption) := by
  obtain ⟨i, hi⟩ : ∃ i, l.findIdx? Option.isNone = some i := by
    rw [← Option.isSome_iff_exists, List.findIdx?_isSome, List.any_eq_true]
    exact ⟨none, h, rfl⟩
  obtain ⟨hlt, hnone, -⟩ := List.findIdx?_eq_some_iff_getElem.mp hi
  rw [recordExit, hi, Option.getD_some]
  refine (reduceOption_set_perm (some r) hlt).trans (List.Perm.cons r ?_)
  exact (reduceOption_perm (List.getElem?_eq_some_iff.mpr
    ⟨hlt, Option.isNone_iff_eq_none.mp hnone⟩)).symm

/-- `process_reap_child` takes out a matching record. -/
lemma processReapChild_spec (h : processReapChild parentPid target l = some (r, l')) :
    r.matches parentPid target = true ∧ (l.reduceOption).Perm (r :: l'.reduceOption) := by
  unfold processReapChild at h
  split at h
  · cases h
  · next i hi =>
    obtain ⟨hlt, hm, -⟩ := List.findIdx?_eq_some_iff_getElem.mp hi
    rw [List.getD_eq_getElem _ _ hlt] at h
    cases ho : l[i] with
    | none => simp [ho] at h
    | some r' =>
      simp only [ho, Option.map_some, Option.some.injEq, Prod.mk.injEq] at h
      obtain ⟨rfl, rfl⟩ := h
      refine ⟨by simpa [ho] using hm, reduceOption_set_none ?_⟩
      rw [List.getElem?_eq_getElem hlt, ho]

end

section

variable {FS : Type} {ops : VfsOps FS} {k k' : Kern FS}

/-! ### The history of an event -/

/-- The exit of a process: its pid, the pid of its parent, and its exit code. -/
def exitOf (k : Kern FS) (a : ℕ) : ExitRecord :=
  ⟨k.sched.pid a, k.sched.parentPid a, k.exitCode a⟩

/-- What an event adds to the history, and what it does to the table. -/
inductive Logs (k k' : Kern FS) (e : Event) : Prop where
  | same (records : k'.records = k.records) (exits : k'.exits = k.exits)
      (waits : k'.waits = k.waits) : Logs k k' e
  | exited (he : e.Exits) (off : ¬ Listed k'.sched k.me)
      (records : k'.records = if k.sched.parentPid k.me ≠ 0 then
        recordExit (exitOf k' k.me) k.records else k.records)
      (exits : k'.exits = k.exits ++ [exitOf k' k.me]) (waits : k'.waits = k.waits) :
      Logs k k' e
  | collected (target : ℕ) (r : ExitRecord)
      (hr : processReapChild (k.sched.pid k.me) target k.records = some (r, k'.records))
      (exits : k'.exits = k.exits)
      (waits : k'.waits = k.waits ++ [⟨k.me, target, r⟩]) : Logs k k' e

lemma Effect.logs {e : Event} (hk : KernOk k) (he : Effect k e k') : Logs k k' e := by
  cases he with
  | quiet hq => exact .same hq.records hq.exits hq.waits
  | slept hq _ _ _ => exact .same hq.records hq.exits hq.waits
  | @exited _ k₁ code hexit hm hq =>
    have hcur : k₁.sched.current = k.me := hq.woke.current
    have hkeep := (Keeps.refl k₁).exit hq.woke.inOrder (by rwa [hcur])
    rw [show k₁.me = k.me from hcur, hcur] at hkeep
    have hlt : k.me < k₁.sched.size := by
      rw [hq.woke.size]
      exact hk.inOrder.lt hk.inOrder.current
    have hr : exitOf (exitTail k₁ k.me) k.me =
        ⟨k₁.sched.pid k.me, k₁.sched.parentPid k.me, k₁.exitCode k.me⟩ := by
      rw [exitOf, hkeep.1.pid _ hlt, hkeep.1.parentPid _ hlt]
      rfl
    refine .exited hexit hkeep.2 ?_ ?_ hq.waits
    · rw [hr, ← hq.records]
      have hp : k₁.sched.parentPid k.me = k.sched.parentPid k.me :=
        congrFun hq.woke.parentPid _
      rw [← hp]
      rfl
    · rw [hr, ← hq.exits]
      rfl
  | started _ _ _ hq hq' =>
    exact .same (hq'.records.trans hq.records) (hq'.exits.trans hq.exits) (hq'.waits.trans hq.waits)
  | aborted _ hq hq' =>
    exact .same (hq'.records.trans hq.records) (hq'.exits.trans hq.exits) (hq'.waits.trans hq.waits)
  | collected target r records hr hq =>
    exact .collected target r (by rw [hq.records]; exact hr) hq.exits hq.waits
  | killed pid _ hq =>
    have hkill : (killPid k pid).2.records = k.records ∧
        (killPid k pid).2.exits = k.exits ∧ (killPid k pid).2.waits = k.waits := by
      unfold killPid
      split
      · exact ⟨rfl, rfl, rfl⟩
      · split <;> exact ⟨rfl, rfl, rfl⟩
    exact .same (hq.records.trans hkill.1) (hq.exits.trans hkill.2.1) (hq.waits.trans hkill.2.2)
  | gave _ _ _ hq => exact .same hq.records hq.exits hq.waits
  | tick => exact .same rfl rfl rfl
  | reapTake _ => exact .same rfl rfl rfl
  | reapOne _ hq => exact .same hq.records hq.exits hq.waits

/-! ### Every wait returns an exit of its own -/

/-- The exits are those of different processes, which no longer run. -/
def ExitsOk (k : Kern FS) : Prop :=
  ∃ ps : List ℕ, ps.Nodup ∧ (∀ a ∈ ps, a < k.sched.size ∧ ¬ Listed k.sched a) ∧
    k.exits = ps.map (exitOf k)

lemma ExitsOk.step {e : Event} (hk : KernOk k) (h : ExitsOk k) (hkeep : Keeps k k')
    (hlog : Logs k k' e) : ExitsOk k' := by
  obtain ⟨ps, hnd, hps, hex⟩ := h
  have hcur : Listed k.sched k.me := hk.inOrder.current
  have hps' : ∀ a ∈ ps, a < k'.sched.size ∧ ¬ Listed k'.sched a := fun a ha =>
    ⟨(hps a ha).1.trans_le hkeep.size, fun hl => (hps a ha).2 (hkeep.listed a (hps a ha).1 hl)⟩
  -- a process that has exited does not run, so that its exit code is final
  have hsame : ps.map (exitOf k') = ps.map (exitOf k) := by
    refine List.map_congr_left fun a ha => ?_
    have hlt := (hps a ha).1
    have hne : a ≠ k.me := fun e => (hps a ha).2 (e ▸ hcur)
    rw [exitOf, exitOf, hkeep.pid a hlt, hkeep.parentPid a hlt, hkeep.exitCode a hlt hne]
  cases hlog with
  | same records exits waits => exact ⟨ps, hnd, hps', by rw [exits, hex, hsame]⟩
  | exited he off records exits waits =>
    refine ⟨ps ++ [k.me], ?_, ?_, ?_⟩
    · refine hnd.append (List.nodup_singleton _) ?_
      rw [List.disjoint_singleton]
      exact fun hm => (hps _ hm).2 hcur
    · intro a ha
      rcases List.mem_append.mp ha with ha | ha
      · exact hps' a ha
      · obtain rfl := List.mem_singleton.mp ha
        exact ⟨(hk.inOrder.lt hcur).trans_le hkeep.size, off⟩
    · rw [exits, List.map_append, hsame, hex]
      rfl
  | collected target r hr exits waits => exact ⟨ps, hnd, hps', by rw [exits, hex, hsame]⟩

/-- The records collected and those still in the table are exits, each one at most
once, and every wait has a matching record of its caller. -/
structure WaitsOk (k : Kern FS) : Prop where
  waits : ∀ w ∈ k.waits, w.caller < k.sched.size ∧
    w.record.parentPid = k.sched.pid w.caller ∧
    (w.target = 0 ∨ w.record.pid = w.target)
  once : (k.waits.map WaitReturn.record ++ k.records.reduceOption).Subperm k.exits

lemma WaitsOk.step {e : Event} (hk : KernOk k) (h : WaitsOk k) (hkeep : Keeps k k')
    (hlog : Logs k k' e) : WaitsOk k' := by
  have hold : ∀ w ∈ k.waits, w.caller < k'.sched.size ∧ w.record.parentPid = k'.sched.pid w.caller ∧
      (w.target = 0 ∨ w.record.pid = w.target) := fun w hw => by
    obtain ⟨hlt, hp, ht⟩ := h.waits w hw
    exact ⟨hlt.trans_le hkeep.size, hp.trans (hkeep.pid _ hlt).symm, ht⟩
  cases hlog with
  | same records exits waits =>
    exact ⟨by rwa [waits], by rw [waits, records, exits]; exact h.once⟩
  | exited he off records exits waits =>
    refine ⟨by rwa [waits], ?_⟩
    have hstay : (k.waits.map WaitReturn.record ++ k.records.reduceOption).Subperm
        (k.exits ++ [exitOf k' k.me]) :=
      h.once.trans (List.sublist_append_left _ _).subperm
    rw [waits, records, exits]
    split
    · refine ((List.subperm_append_left _).mpr (reduceOption_set_subperm _ _ _)).trans ?_
      refine List.perm_middle.subperm.trans ?_
      exact ((List.subperm_cons _).mpr h.once).trans (List.perm_append_singleton _ _).symm.subperm
    · exact hstay
  | collected target r hr exits waits =>
    obtain ⟨hm, hp⟩ := processReapChild_spec hr
    refine ⟨fun w hw => ?_, ?_⟩
    · rw [waits] at hw
      rcases List.mem_append.mp hw with hw | hw
      · exact hold w hw
      · obtain rfl := List.mem_singleton.mp hw
        obtain ⟨h₁, h₂⟩ : r.parentPid = k.sched.pid k.me ∧ (target = 0 ∨ r.pid = target) := by
          simpa [ExitRecord.matches] using hm
        have hlt := hk.inOrder.lt hk.inOrder.current
        exact ⟨hlt.trans_le hkeep.size, h₁.trans (hkeep.pid _ hlt).symm, h₂⟩
    · rw [waits, exits, List.map_append, List.append_assoc]
      exact (hp.symm.append_left _).subperm.trans h.once

/-- `process_exit` adds the exit of the running process. -/
lemma exits_processExit (ops : VfsOps FS) (h : InOrder k.sched) (hm : k.me ≠ 0) :
    (processExit ops k).exits = k.exits ++ [exitOf k k.me] := by
  have hq := quiet_closeFds (k := { k with foreground := exitForeground k k.me }) h ops k.me
  have heq : processExit ops k = exitTail (fdClosePipes (fdCloseWritable ops
      { k with foreground := exitForeground k k.me } k.me) k.me) k.me := if_neg hm
  rw [heq, exitTail, exitOf, hq.exits, hq.exitCode, hq.woke.pid, hq.woke.parentPid]

/-- The answer of a wait that returned a pid. -/
lemma waitLoop_reply {target status : ℕ} {reply : Reply}
    (h : (waitLoop k target status).1 = some reply) (hret : reply.ret ≠ -1) :
    ∃ r, (waitLoop k target status).2.waits = k.waits ++ [⟨k.me, target, r⟩] ∧
      reply.ret = int32 r.pid ∧ (status ≠ 0 → reply.bytes = intBytes r.code) := by
  unfold waitLoop at h ⊢
  cases hr : processReapChild (k.sched.pid k.me) target k.records with
  | some p =>
    obtain ⟨r, records⟩ := p
    rw [hr] at h
    have hreply : reply = ⟨int32 r.pid, if status ≠ 0 then intBytes r.code else []⟩ :=
      (Option.some.inj h).symm
    exact ⟨r, rfl, by rw [hreply], fun hs => by rw [hreply]; exact if_pos hs⟩
  | none =>
    simp only [hr] at h
    split at h
    · cases h
    · obtain rfl := Option.some.inj h
      exact absurd rfl hret

/-- **Every wait returns an exit of its own.** The exits are those of different
processes, with the code given to `sys_exit`; a wait that returns a pid returns
that of an exit of a child of the caller, the one asked for if one was asked for,
and no exit is returned twice. -/
theorem waits_of_run {fs : FS}
    (hrun : ReflTransGen (KStep ops fun _ _ => True) (kernInit fs) k) :
    (∃ ps : List ℕ, ps.Nodup ∧ (∀ a ∈ ps, a < k.sched.size ∧ ¬ Listed k.sched a) ∧
      k.exits = ps.map (exitOf k)) ∧
    (∀ code, Event.Enabled k (.call (.exit code)) →
      ((Event.call (.exit code)).run ops k).2.exits =
        k.exits ++ [⟨k.sched.pid k.me, k.sched.parentPid k.me, code⟩]) ∧
    (∀ (e : Event) (target status : ℕ) (reply : Reply), e.Enabled k →
      e = .call (.wait target status) ∨ e = .resume ∧ k.cont k.me = .wait target status →
      (e.run ops k).1 = some reply → reply.ret ≠ -1 →
      ∃ r, (e.run ops k).2.waits = k.waits ++ [⟨k.me, target, r⟩] ∧
        reply.ret = int32 r.pid ∧ (status ≠ 0 → reply.bytes = intBytes r.code)) ∧
    (∀ w ∈ k.waits, w.record.parentPid = k.sched.pid w.caller ∧
      (w.target = 0 ∨ w.record.pid = w.target)) ∧
    (k.waits.map WaitReturn.record).Subperm k.exits := by
  obtain ⟨hk, hex, hw⟩ := kern_induction (I := fun k => ExitsOk k ∧ WaitsOk k)
    (kernOk_init fs)
    ⟨⟨[], List.nodup_nil, by simp, rfl⟩, ⟨by simp [kernInit], by simp [kernInit]⟩⟩
    (fun k k' e hk hI _ _ _ heff _ =>
      ⟨hI.1.step hk (heff.keeps hk) (heff.logs hk),
        hI.2.step hk (heff.keeps hk) (heff.logs hk)⟩) hrun
  refine ⟨hex, fun code he => ?_, fun e target status reply he hwait => ?_, fun w hm =>
    (hw.waits w hm).2, (List.sublist_append_left _ _).subperm.trans hw.once⟩
  · have hexit := exits_processExit
      (k := { k with exitCode := Function.update k.exitCode k.me code }) ops hk.inOrder he.2
    rw [exitOf] at hexit
    exact hexit.trans (by rw [show (_ : Kern FS).exitCode _ = code from
      Function.update_self _ _ _]; rfl)
  · rcases hwait with rfl | ⟨rfl, hcont⟩
    · rw [Event.run, Syscall.run, sysWait]
      split
      · intro h hret
        obtain rfl := Option.some.inj h
        exact absurd rfl hret
      · exact waitLoop_reply
    · rw [Event.run, hcont]
      exact waitLoop_reply

end

/-- The kernel with the driver on a small formatted volume. -/
def smallKern : Kern Fat32.State :=
  kernInit (Fat32.initState Fat32.smallGeom Fat32.smallFormatted fun _ => true)

/-- The driver of the small volume. -/
def smallOps : VfsOps Fat32.State := fat32VfsOps Fat32.smallGeom

/-- The shell starts a program, process `1`, and it runs. -/
def startOne : List Event := .shellStart false .done :: List.replicate 10 .tick

/-- A program forks and waits, and its child exits with code `7`. -/
def forkThenWait : List Event :=
  startOne ++ [.call (.fork .done), .call (.wait 0 0), .call (.exit 7), .resume]

theorem waits_forkThenWait :
    (runAll smallOps forkThenWait smallKern).waits = [⟨1, 0, ⟨2, 1, 7⟩⟩] ∧
      ((runAll smallOps forkThenWait smallKern).waits.map WaitReturn.record).Subperm
        (runAll smallOps forkThenWait smallKern).exits := by
  have hrun : Allowed smallOps (fun _ _ => True) forkThenWait smallKern := by
    decide +kernel
  exact ⟨by decide +kernel, (waits_of_run (reflTransGen_runAll _ hrun)).2.2.2.2⟩

section

variable {FS : Type} {ops : VfsOps FS} {k k' : Kern FS}

/-! ### Exits that are not lost -/

/-- An exit that is to be recorded finds a free record. -/
def RecordFree (e : Event) (k : Kern FS) : Prop :=
  e.Exits → k.sched.parentPid k.me ≠ 0 → none ∈ k.records

/-- The exits of children of user processes have been collected or are in the
table. -/
def Recorded (k : Kern FS) : Prop :=
  (k.waits.map WaitReturn.record ++ k.records.reduceOption).Perm
    (k.exits.filter fun r => decide (r.parentPid ≠ 0))

lemma Recorded.step {e : Event} (hk : KernOk k) (h : Recorded k) (hkeep : Keeps k k')
    (hlog : Logs k k' e) (hfree : RecordFree e k) : Recorded k' := by
  unfold Recorded at h ⊢
  cases hlog with
  | same records exits waits => rwa [waits, records, exits]
  | exited he off records exits waits =>
    have hp : (exitOf k' k.me).parentPid = k.sched.parentPid k.me :=
      hkeep.parentPid _ (hk.inOrder.lt hk.inOrder.current)
    rw [waits, records, exits, List.filter_append]
    by_cases h0 : k.sched.parentPid k.me = 0
    · rw [if_neg (not_not.mpr h0), List.filter_cons_of_neg (by simp [hp, h0]),
        List.filter_nil, List.append_nil]
      exact h
    · rw [if_pos h0, List.filter_cons_of_pos (by simp [hp, h0]), List.filter_nil]
      refine ((recordExit_perm (hfree he h0)).append_left _).trans ?_
      refine List.perm_middle.trans ?_
      exact (h.cons _).trans (List.perm_append_singleton _ _).symm
  | collected target r hr exits waits =>
    obtain ⟨-, hp⟩ := processReapChild_spec hr
    rw [waits, exits, List.map_append, List.append_assoc]
    exact (hp.symm.append_left _).trans h

end

instance (e : Event) (k : Kern Fat32.State) : Decidable (RecordFree e k) :=
  inferInstanceAs (Decidable (_ → _ → _))

/-- The exits of children of user processes that still run, as far as no wait has
returned them. -/
def uncollected (k : Kern Fat32.State) : List ExitRecord :=
  (k.exits.filter fun r => decide (r.parentPid ≠ 0) &&
    (schedulerFindAny k.sched r.parentPid).isSome).diff (k.waits.map WaitReturn.record)

/-- A program forks a child; the child forks sixteen, exits with code `7`, and
leaves them behind as orphans, which exit too. -/
def orphansExit : List Event :=
  startOne ++ .call (.fork .done) :: List.replicate 10 .tick ++
    List.replicate 16 (.call (.fork .done)) ++
    .call (.exit 7) :: List.replicate 16 (.call (.exit 0))

end GordOS.Kernel
