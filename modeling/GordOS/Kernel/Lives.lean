/-
Which processes are alive.

* `Live`: on the lists of the scheduler and not `DEAD`;
* `Effect.live`, `Effect.dead`, `Effect.sleeper`: only an exit and a kill end a
  process, a dead process comes back only by going to sleep, and only the running
  process goes to sleep;
* `kill_of_run`: a process of the ready ring is killed for good, as long as no
  dead process makes a call that can sleep;
* `kill_misses_sleeper`: a sleeping process is not killed;
* `foreground_of_run`: the keyboard belongs to a process that is alive, as long
  as it is not handed to a dead one;
* `foreground_of_selfKill`: a process that killed itself can take the keyboard;
* `shellChild_of_run`: what becomes of a program that the kernel shell starts while
  the kernel task runs; `shellChild_of_background`: and while another program does.
-/
import Mathlib.Tactic
import GordOS.Kernel.Exits

namespace GordOS.Kernel

open GordOS Relation

/-- The process is on the lists of the scheduler and has not been killed. -/
def Live (s : Sched) (a : ℕ) : Prop := Listed s a ∧ s.state a ≠ .dead

instance (s : Sched) (a : ℕ) : Decidable (Live s a) :=
  inferInstanceAs (Decidable (_ ∧ _))

section

variable {FS : Type} {ops : VfsOps FS} {k k' : Kern FS} {s s' : Sched} {e : Event} {a : ℕ}

lemma Woke.live (h : Woke s s') : Live s' a ↔ Live s a := by
  rw [Live, Live, h.listed, Ne, h.dead_iff]

/-- The process that an event kills. -/
def Event.killed (k : Kern FS) : Event → Option ℕ
  | .call (.kill pid) => if pid = 0 then none else schedulerFind k.sched pid
  | .shellKill pid => if pid = 0 then none else schedulerFind k.sched pid
  | _ => none

/-! ### How a process ends -/

lemma live_sleep (h : InOrder s) (h0 : s.current ≠ 0) (r : BlockReason) (w : ℕ) (ha : Live s a) :
    Live (blockSwitch s r w) a := by
  obtain ⟨-, ⟨n, -, -, -, ht⟩, hl, -⟩ := h.sleep h0 r w
  refine ⟨(hl a).mpr ha.1, ?_⟩
  rw [ht.state, Function.update_apply, Function.update_apply]
  split
  · decide
  · split
    · decide
    · exact ha.2

lemma live_exit (h : InOrder s) (h0 : s.current ≠ 0) (ha : Live s a) (hne : a ≠ s.current) :
    Live (exitSwitch s) a := by
  obtain ⟨s', hw, heq, -⟩ := h.exit h0
  obtain ⟨-, ⟨n, -, -, -, ht⟩, hl, -⟩ := hw.inOrder.die (by rwa [hw.current])
  have ha' := hw.live.mpr ha
  have hne' : a ≠ s'.current := by rwa [hw.current]
  rw [heq]
  refine ⟨(hl a).mpr ⟨ha'.1, hne'⟩, ?_⟩
  rw [ht.state, Function.update_apply, Function.update_of_ne hne']
  split
  · decide
  · exact ha'.2

lemma live_tick (h : InOrder s) (ha : Live s a) : Live (schedulerTick s) a := by
  obtain ⟨-, hturn, hl, -⟩ := h.tick
  refine ⟨(hl a).mpr ⟨ha.1, fun hd e => ha.2 (e ▸ hd)⟩, ?_⟩
  rcases hturn with ⟨-, ht⟩ | ⟨n, -, -, -, -, ht⟩ | ⟨n, -, -, -, -, -, ht⟩ <;> rw [ht.state]
  · exact ha.2
  · rw [Function.update_apply, Function.update_apply]
    split
    · decide
    · split
      · decide
      · exact ha.2
  · rw [Function.update_apply]
    split
    · decide
    · exact ha.2

lemma live_create (h : InOrder s) (pid parentPid : ℕ) (ha : Live s a) :
    Live (newProcess s pid parentPid) a := by
  have hst : (newProcess s pid parentPid).state a = s.state a :=
    Function.update_of_ne (h.lt ha.1).ne _ _
  exact ⟨((h.create pid parentPid).2.1 a).mpr ha.1, hst ▸ ha.2⟩

/-- A new process joins the ready ring. -/
lemma live_start {k₁ : Kern FS} (h : InOrder k.sched) (hq : Quiet (processCreate k) k₁) :
    Live (schedulerAdd k₁.sched k.sched.size) k.sched.size ∧
      ∀ a, Live k₁.sched a → Live (schedulerAdd k₁.sched k.sched.size) a := by
  obtain ⟨-, ht, hl', -⟩ := start_spec h hq
  refine ⟨⟨(hl' _).mpr (.inl rfl), ?_⟩, fun a ha => ⟨(hl' _).mpr (.inr ha.1), ?_⟩⟩
  · rw [ht.state, Function.update_self]
    decide
  · rw [ht.state, Function.update_apply]
    split
    · decide
    · exact ha.2

/-- Only an exit and a kill end a process. -/
lemma Effect.live (hk : KernOk k) (he : Effect k e k') (ha : Live k.sched a) : Live k'.sched a ∨
      (a = k.me ∧ k.me ≠ 0 ∧ ∃ s, Woke k.sched s ∧ k'.sched = exitSwitch s) ∨
      e.killed k = some a := by
  have h := hk.inOrder
  cases he with
  | quiet hq => exact .inl (hq.woke.live.mpr ha)
  | slept hq _ hm _ =>
    exact .inl (live_sleep hq.woke.inOrder (by rw [hq.woke.current]; exact hm) _ _
      (hq.woke.live.mpr ha))
  | exited code he hm hq =>
    by_cases hme : a = k.me
    · exact .inr (.inl ⟨hme, hm, _, hq.woke, rfl⟩)
    · exact .inl (live_exit hq.woke.inOrder (by rw [hq.woke.current]; exact hm)
        (hq.woke.live.mpr ha) (by rw [hq.woke.current]; exact hme))
  | started fg _ _ hq hq' =>
    refine .inl (hq'.woke.live.mpr ((live_start h hq).2 a (hq.woke.live.mpr ?_)))
    exact live_create h _ _ ha
  | aborted _ hq hq' =>
    exact .inl (hq'.woke.live.mpr (hq.woke.live.mpr (live_create h _ _ ha)))
  | collected _ _ _ _ hq => exact .inl (hq.woke.live.mpr ha)
  | killed pid hev hq =>
    by_cases hpid : pid = 0
    · refine .inl (hq.woke.live.mpr ?_)
      rw [killPid, if_pos hpid]
      exact ha
    · have hkilled : e.killed k = schedulerFind k.sched pid := by
        rcases hev with rfl | rfl <;> exact if_neg hpid
      rw [hkilled]
      cases hf : schedulerFind k.sched pid with
      | none =>
        refine .inl (hq.woke.live.mpr ?_)
        rw [killPid, if_neg hpid, hf]
        exact ha
      | some p =>
        by_cases hap : a = p
        · exact .inr (.inr (by rw [hap]))
        · refine .inl (hq.woke.live.mpr ?_)
          obtain ⟨-, ht, hl, -⟩ := h.kill_found hpid hf
          rw [killPid, if_neg hpid, hf]
          refine ⟨(hl a).mpr ⟨ha.1, fun e => absurd e hap⟩, ?_⟩
          rw [ht.state, Function.update_of_ne hap]
          exact ha.2
  | gave _ _ _ hq => exact .inl (hq.woke.live.mpr ha)
  | tick => exact .inl (live_tick h ha)
  | reapTake hr => exact .inl ⟨((h.reapTake hr).2.1 a).mpr ha.1, ha.2⟩
  | reapOne hr hq =>
    exact .inl (hq.woke.live.mpr ⟨((h.reapNext hr).2.2.1 a).mpr ha.1, ha.2⟩)

/-- A dead process stays dead, unless it goes to sleep. -/
lemma Effect.dead (hk : KernOk k) (he : Effect k e k') (hlt : a < k.sched.size)
    (ha : k.sched.state a = .dead) (hsleep : e.MaySleep → k.sched.state k.me ≠ .dead) :
    k'.sched.state a = .dead := by
  have h := hk.inOrder
  -- the process that runs next was ready
  have hne : ∀ {s : Sched} {n : ℕ}, s.state a = .dead → s.state n = .ready → a ≠ n := by
    rintro s n hd hr rfl
    rw [hd] at hr
    cases hr
  cases he with
  | quiet hq => exact hq.woke.dead_iff.mpr ha
  | slept hq he hm _ =>
    have ha₁ := hq.woke.dead_iff.mpr ha
    obtain ⟨-, ⟨n, -, -, hn, ht⟩, -⟩ :=
      hq.woke.inOrder.sleep (by rw [hq.woke.current]; exact hm) _ _
    refine (congrFun ht.state a).trans ?_
    rw [Function.update_of_ne (hne ha₁ hn), Function.update_of_ne, ha₁]
    intro e
    refine hsleep he ?_
    rw [← ha, e]
    exact congrArg _ hq.woke.current.symm
  | exited code _ hm hq =>
    obtain ⟨s', hw, heq, -⟩ := hq.woke.inOrder.exit (by rw [hq.woke.current]; exact hm)
    obtain ⟨-, ⟨n, -, -, hn, ht⟩, -⟩ := hw.inOrder.die (by
      rw [hw.current, hq.woke.current]
      exact hm)
    have ha₁ := hw.dead_iff.mpr (hq.woke.dead_iff.mpr ha)
    rw [exitTail, heq, ht.state, Function.update_of_ne (hne ha₁ hn), Function.update_apply]
    split
    · rfl
    · exact ha₁
  | started fg _ _ hq hq' =>
    obtain ⟨-, ht, -⟩ := start_spec h hq
    refine hq'.woke.dead_iff.mpr ((congrFun ht.state a).trans ?_)
    rw [Function.update_of_ne hlt.ne, hq.woke.dead_iff]
    exact (Function.update_of_ne hlt.ne _ _).trans ha
  | aborted _ hq hq' =>
    refine hq'.woke.dead_iff.mpr (hq.woke.dead_iff.mpr ?_)
    exact (Function.update_of_ne hlt.ne _ _).trans ha
  | collected _ _ _ _ hq => exact hq.woke.dead_iff.mpr ha
  | killed pid _ hq =>
    refine hq.woke.dead_iff.mpr ?_
    unfold killPid
    split
    · exact ha
    · next hpid =>
      cases hf : schedulerFind k.sched pid with
      | none => exact ha
      | some p =>
        obtain ⟨-, ht, -⟩ := h.kill_found hpid hf
        refine (congrFun ht.state a).trans ?_
        rw [Function.update_apply]
        split
        · rfl
        · exact ha
  | gave _ _ _ hq => exact hq.woke.dead_iff.mpr ha
  | tick =>
    rcases h.tick.2.1 with ⟨-, ht⟩ | ⟨n, -, -, hn, hrun, ht⟩ |
      ⟨n, -, -, hn, -, -, ht⟩ <;> refine (congrFun ht.state a).trans ?_
    · exact ha
    · have hcur : a ≠ k.sched.current := by
        rintro rfl
        rw [ha] at hrun
        cases hrun
      rw [Function.update_of_ne hcur, Function.update_of_ne (hne ha hn), ha]
    · rw [Function.update_of_ne (hne ha hn), ha]
  | reapTake _ => exact ha
  | reapOne _ hq => exact hq.woke.dead_iff.mpr ha

/-- The process sleeps on, for the same reason and with the same place to go on. -/
structure SleepsOn (k k' : Kern FS) (a : ℕ) : Prop where
  state : k.sched.state a = .blocked
  reason : k'.sched.blockReason a = k.sched.blockReason a
  target : k'.sched.waitTarget a = k.sched.waitTarget a
  cont : k'.cont a = k.cont a

lemma SleepsOn.quiet {k₁ : Kern FS} (h : SleepsOn k k₁ a) (hin : InOrder k₁.sched)
    (hq : Quiet k₁ k') (ha : k'.sched.state a = .blocked) : SleepsOn k k' a where
  state := h.state
  reason := (hq.woke.reason a ha).trans h.reason
  target := (congrFun hq.woke.target a).trans h.target
  cont := by
    have hne : a ≠ k₁.me := hin.ne_current_of_blocked (hq.woke.blocked ha)
    rcases hq.cont with e | e
    · rw [e, h.cont]
    · rw [e, Function.update_of_ne hne, h.cont]

lemma SleepsOn.refl (ha : k.sched.state a = .blocked) : SleepsOn k k a :=
  ⟨ha, rfl, rfl, rfl⟩

/-- Only the running process goes to sleep. -/
lemma Effect.sleeper (hk : KernOk k) (he : Effect k e k') (ha : k'.sched.state a = .blocked) :
    SleepsOn k k' a ∨ a = k.me ∧ k.me ≠ 0 ∧ e.MaySleep ∧
      SleepFor k (k'.sched.blockReason a) (k'.sched.waitTarget a) (k'.cont a) := by
  have h := hk.inOrder
  cases he with
  | quiet hq => exact .inl ((SleepsOn.refl (hq.woke.blocked ha)).quiet h hq ha)
  | @slept _ k₁ r w c hq he hm hs =>
    obtain ⟨-, ⟨n, -, hn, -, ht⟩, -⟩ :=
      hq.woke.inOrder.sleep (by rw [hq.woke.current]; exact hm) r w
    have hst := (congrFun ht.state a).symm.trans ha
    by_cases hme : a = k₁.sched.current
    · refine .inr ⟨hme.trans hq.woke.current, hm, he, ?_⟩
      have hr : (k₁.sleep r w c).sched.blockReason a = r :=
        (congrFun ht.blockReason a).trans (by rw [hme, Function.update_self])
      have hw : (k₁.sleep r w c).sched.waitTarget a = w :=
        (congrFun ht.waitTarget a).trans (by rw [hme, Function.update_self])
      have hc : (k₁.sleep r w c).cont a = c := by
        rw [hme]
        exact Function.update_self _ _ _
      rw [hr, hw, hc]
      exact hs
    · have hne : a ≠ n := by
        rintro rfl
        rw [Function.update_self] at hst
        cases hst
      rw [Function.update_of_ne hne, Function.update_of_ne hme] at hst
      have h₁ := (SleepsOn.refl (hq.woke.blocked hst)).quiet h hq hst
      refine .inl ⟨h₁.state, ?_, ?_, (Function.update_of_ne hme _ _).trans h₁.cont⟩
      · exact (congrFun ht.blockReason a).trans ((Function.update_of_ne hme _ _).trans h₁.reason)
      · exact (congrFun ht.waitTarget a).trans ((Function.update_of_ne hme _ _).trans h₁.target)
  | @exited _ k₁ code _ hm hq =>
    obtain ⟨s', hw, heq, -⟩ := hq.woke.inOrder.exit (by rw [hq.woke.current]; exact hm)
    obtain ⟨-, ⟨n, -, -, -, ht⟩, -⟩ := hw.inOrder.die (by
      rw [hw.current, hq.woke.current]
      exact hm)
    have hsched : (exitTail k₁ k.me).sched = schedulerSwitch (s'.setState s'.current .dead) := heq
    have hs' : s'.state a = .blocked := by
      rw [hsched, ht.state, Function.update_apply, Function.update_apply] at ha
      split at ha
      · cases ha
      · split at ha
        · cases ha
        · exact ha
    have hb := hw.blocked hs'
    have h₀ : SleepsOn k { k with
        exitCode := Function.update k.exitCode k.me code
        foreground := exitForeground k k.me } a :=
      ⟨hq.woke.blocked hb, rfl, rfl, rfl⟩
    have h₁ := h₀.quiet h hq hb
    refine .inl ⟨h₁.state, ?_, ?_, h₁.cont⟩
    · rw [hsched, ht.blockReason, hw.reason a hs', h₁.reason]
    · rw [hsched, ht.waitTarget, hw.target, h₁.target]
  | @started _ k₁ _ fg _ _ hq hq' =>
    obtain ⟨hin, ht, -⟩ := start_spec h hq
    have hb := hq'.woke.blocked ha
    have hne : a ≠ k.sched.size := by
      rintro rfl
      have := (congrFun ht.state _).symm.trans hb
      rw [Function.update_self] at this
      cases this
    have hb₁ : k₁.sched.state a = .blocked := by
      rw [← hb]
      exact ((congrFun ht.state a).trans (Function.update_of_ne hne _ _)).symm
    have h₀ : SleepsOn k (processCreate k) a :=
      ⟨(Function.update_of_ne hne _ _).symm.trans (hq.woke.blocked hb₁),
        Function.update_of_ne hne _ _, Function.update_of_ne hne _ _,
        Function.update_of_ne hne _ _⟩
    have h₁ := h₀.quiet (inOrder_processCreate h) hq hb₁
    have h₂ : SleepsOn k { k₁ with
        foreground := fg
        sched := schedulerAdd k₁.sched k.sched.size } a :=
      ⟨h₁.state, (congrFun ht.blockReason a).trans h₁.reason,
        (congrFun ht.waitTarget a).trans h₁.target, h₁.cont⟩
    exact .inl (h₂.quiet hin hq' ha)
  | @aborted _ k₁ _ _ hq hq' =>
    have hb := hq'.woke.blocked ha
    have hb' := hq.woke.blocked hb
    have hne : a ≠ k.sched.size := by
      rintro rfl
      have hnew : (processCreate k).sched.state k.sched.size = .ready :=
        Function.update_self _ _ _
      rw [hnew] at hb'
      cases hb'
    have h₀ : SleepsOn k (processCreate k) a :=
      ⟨(Function.update_of_ne hne _ _).symm.trans hb', Function.update_of_ne hne _ _,
        Function.update_of_ne hne _ _, Function.update_of_ne hne _ _⟩
    have h₁ := h₀.quiet (inOrder_processCreate h) hq hb
    have h₂ : SleepsOn k { k₁ with freed := Function.update k₁.freed k.sched.size true } a :=
      ⟨h₁.state, h₁.reason, h₁.target, h₁.cont⟩
    exact .inl (h₂.quiet hq.woke.inOrder hq' ha)
  | @collected _ _ target r records _ hq =>
    have h₀ : SleepsOn k { k with
        records := records, waits := k.waits ++ [⟨k.me, target, r⟩] } a :=
      ⟨hq.woke.blocked ha, rfl, rfl, rfl⟩
    exact .inl (h₀.quiet h hq ha)
  | killed pid _ hq =>
    refine .inl (SleepsOn.quiet ?_ (inOrder_killPid h pid) hq ha)
    have hb := hq.woke.blocked ha
    unfold killPid at hb ⊢
    split at hb
    · next hpid =>
      rw [if_pos hpid]
      exact .refl hb
    · next hpid =>
      rw [if_neg hpid]
      cases hf : schedulerFind k.sched pid with
      | none =>
        rw [hf] at hb
        exact .refl hb
      | some p =>
        rw [hf] at hb
        obtain ⟨-, ht, -⟩ := h.kill_found hpid hf
        have hst := (congrFun ht.state a).symm.trans hb
        rw [Function.update_apply] at hst
        split at hst
        · cases hst
        · exact ⟨hst, congrFun ht.blockReason a, congrFun ht.waitTarget a, rfl⟩
  | @gave _ pid target _ hq =>
    have h₀ : SleepsOn k { k with foreground := some target } a :=
      ⟨hq.woke.blocked ha, rfl, rfl, rfl⟩
    exact .inl (h₀.quiet h hq ha)
  | tick =>
    have hturn := h.tick.2.1
    rcases hturn with ⟨-, ht⟩ | ⟨n, -, -, -, -, ht⟩ | ⟨n, -, -, -, -, -, ht⟩ <;>
      refine .inl ⟨?_, congrFun ht.blockReason a, congrFun ht.waitTarget a, rfl⟩ <;>
      have hst := (congrFun ht.state a).symm.trans ha
    · exact hst
    · rw [Function.update_apply, Function.update_apply] at hst
      split at hst
      · cases hst
      · split at hst
        · cases hst
        · exact hst
    · rw [Function.update_apply] at hst
      split at hst
      · cases hst
      · exact hst
  | reapTake _ => exact .inl ⟨ha, rfl, rfl, rfl⟩
  | @reapOne b k₁ hr hq =>
    have h₀ : SleepsOn k { k with sched := { k.sched with reapList := k.sched.next b } } a :=
      ⟨hq.woke.blocked ha, rfl, rfl, rfl⟩
    have h₁ := h₀.quiet (h.reapNext hr).1 hq ha
    exact .inl ⟨h₁.state, h₁.reason, h₁.target, h₁.cont⟩

/-! ### A kill is final -/

/-- No dead process makes a call that can sleep. -/
def NoDeadSleeper (e : Event) (k : Kern FS) : Prop :=
  e.MaySleep → k.sched.state k.me ≠ .dead

/-- **A kill is final**: the kill of a process of the ready ring, whose pid no other
process of the ring has, returns `0`, and the process is dead from then on, as long
as no dead process makes a call that can sleep. -/
theorem kill_of_run {fs : FS}
    (hrun : ReflTransGen (KStep ops fun _ _ => True) (kernInit fs) k)
    (hen : Event.Enabled k (.call (.kill (k.sched.pid a)))) (ha : a ∈ k.sched.ringCells)
    (h0 : k.sched.pid a ≠ 0)
    (hpid : ∀ b ∈ k.sched.ringCells, k.sched.pid b = k.sched.pid a → b = a) :
    ((Event.call (.kill (k.sched.pid a))).run ops k).1 = some ⟨0, []⟩ ∧
      ∀ k', ReflTransGen (KStep ops NoDeadSleeper)
          ((Event.call (.kill (k.sched.pid a))).run ops k).2 k' →
        k'.sched.state a = .dead := by
  obtain ⟨hk, -⟩ := kern_induction (I := fun _ => True) (kernOk_init fs) trivial
    (fun _ _ _ _ _ _ _ _ _ _ => trivial) hrun
  have hfind : schedulerFind k.sched (k.sched.pid a) = some a := by
    obtain ⟨b, hb⟩ : ∃ b, schedulerFind k.sched (k.sched.pid a) = some b := by
      rw [← Option.isSome_iff_exists, schedulerFind, List.find?_isSome]
      exact ⟨a, ha, by simp⟩
    obtain ⟨hmem, hb'⟩ := mem_of_find hb
    rw [hb, hpid b hmem hb']
  have hkill : killPid k (k.sched.pid a) = (0, { k with
      foreground := if k.foreground = some a then none else k.foreground
      sched := markDead k.sched a }) := by
    rw [killPid, if_neg h0, hfind]
  refine ⟨?_, fun k' hcont => ?_⟩
  · rw [Event.run, Syscall.run, sysKillPid, hkill]
    rfl
  · have heff : Effect k (.call (.kill (k.sched.pid a)))
        ((Event.call (.kill (k.sched.pid a))).run ops k).2 := Event.effect hk hen
    have hk₁ := heff.kernOk hk
    have ht := (hk.inOrder.kill_found h0 hfind).2.1
    have hdead : a < ((Event.call (.kill (k.sched.pid a))).run ops k).2.sched.size ∧
        ((Event.call (.kill (k.sched.pid a))).run ops k).2.sched.state a = .dead := by
      rw [Event.run, Syscall.run, sysKillPid, hkill]
      refine ⟨(hk.inOrder.lt (.inl ha)).trans_le ht.size.ge, ?_⟩
      exact (congrFun ht.state a).trans (Function.update_self _ _ _)
    exact (kern_induction (I := fun k => a < k.sched.size ∧ k.sched.state a = .dead)
      hk₁ hdead (fun k k' e hk hI _ hg _ heff _ =>
        ⟨hI.1.trans_le (heff.keeps hk).size, heff.dead hk hI.1 hI.2 hg⟩) hcont).2.2

end

/-- A program kills the child it has just forked. -/
theorem kill_of_run_child :
    let k := runAll smallOps (startOne ++ [.call (.fork .done)]) smallKern
    k.sched.pid 2 = 2 ∧
      ((Event.call (.kill (k.sched.pid 2))).run smallOps k).1 = some ⟨0, []⟩ ∧
      ((Event.call (.kill (k.sched.pid 2))).run smallOps k).2.sched.state 2 = .dead := by
  have hrun : Allowed smallOps (fun _ _ => True) (startOne ++ [.call (.fork .done)])
      smallKern := by
    decide +kernel
  obtain ⟨hret, hdead⟩ := kill_of_run (reflTransGen_runAll _ hrun) (a := 2)
    (by decide +kernel) (by decide +kernel) (by decide +kernel) (by decide +kernel)
  exact ⟨by decide +kernel, hret, hdead _ .refl⟩

/-- A kill of a process that waits for its child fails; and a process that kills
itself and then waits for its child runs again when the child exits. -/
theorem kill_misses_sleeper :
    (∃ k, ReflTransGen (KStep smallOps fun _ _ => True) smallKern k ∧
      Event.Enabled k (.call (.kill 1)) ∧ Live k.sched 1 ∧ k.sched.pid 1 = 1 ∧
      ((Event.call (.kill 1)).run smallOps k).1 = some ⟨-1, []⟩) ∧
    ∃ k k', ReflTransGen (KStep smallOps fun _ _ => True) smallKern k ∧
      Event.Enabled k (.call (.kill 1)) ∧ Live k.sched 1 ∧ k.sched.pid 1 = 1 ∧
      ReflTransGen (KStep smallOps fun _ _ => True)
        ((Event.call (.kill 1)).run smallOps k).2 k' ∧ k'.sched.state 1 = .running := by
  refine ⟨⟨_, reflTransGen_runAll (startOne ++ [.call (.fork .done), .call (.wait 0 0)])
    (by decide +kernel), ?_⟩, ⟨_, _, reflTransGen_runAll
    (startOne ++ [.call (.fork .done)]) (by decide +kernel), ?_, ?_, ?_,
    reflTransGen_runAll ([.call (.wait 0 0), .call (.exit 0)])
    (by decide +kernel), ?_⟩⟩ <;> decide +kernel

section

variable {FS : Type} {ops : VfsOps FS} {k k' : Kern FS} {e : Event} {a : ℕ}

/-! ### The keyboard -/

/-- The keyboard is not handed to a dead process, and no process that exits is its
own parent. -/
def ForegroundSafe : Event → Kern FS → Prop
  | .call (.giveForeground pid), k =>
    (schedulerFindAny k.sched pid).all (fun a => decide (k.sched.state a ≠ .dead)) = true
  | e, k => e.Exits → k.sched.parentPid k.me ≠ k.sched.pid k.me

/-- The process that gets the keyboard at the exit of the running one. -/
lemma live_exitForeground (hk : KernOk k) (hfg : ∀ a, k.foreground = some a → Live k.sched a)
    (hp : k.sched.parentPid k.me ≠ k.sched.pid k.me) (ha : exitForeground k k.me = some a) :
    Live k.sched a ∧ a ≠ k.me := by
  unfold exitForeground at ha
  split at ha
  · split at ha
    · obtain ⟨hl, hpid⟩ := listed_of_findAny ha
      have hne : a ≠ k.me := by
        rintro rfl
        exact hp hpid.symm
      refine ⟨⟨hl, fun hd => hne ?_⟩, hne⟩
      exact hk.inOrder.eq_current_of_dead hl hd
    · cases ha
  · next hcur => exact ⟨hfg a ha, fun e => hcur (e ▸ ha)⟩

lemma Effect.foreground (hk : KernOk k) (he : Effect k e k')
    (hfg : ∀ a, k.foreground = some a → Live k.sched a) (hsafe : ForegroundSafe e k)
    (ha : k'.foreground = some a) : Live k'.sched a := by
  have h := hk.inOrder
  cases he with
  | quiet hq => exact hq.woke.live.mpr (hfg a (hq.foreground ▸ ha))
  | slept hq _ hm _ =>
    exact live_sleep hq.woke.inOrder (by rw [hq.woke.current]; exact hm) _ _
      (hq.woke.live.mpr (hfg a (hq.foreground ▸ ha)))
  | exited code hexit hm hq =>
    have hp : k.sched.parentPid k.me ≠ k.sched.pid k.me := by
      unfold ForegroundSafe at hsafe
      split at hsafe
      · exact absurd hexit id
      · exact hsafe hexit
    obtain ⟨hl, hne⟩ := live_exitForeground hk hfg hp (hq.foreground.symm.trans ha)
    exact live_exit hq.woke.inOrder (by rw [hq.woke.current]; exact hm)
      (hq.woke.live.mpr hl) (by rw [hq.woke.current]; exact hne)
  | started fg _ hfg' hq hq' =>
    refine hq'.woke.live.mpr ?_
    have ha' : fg = some a := hq'.foreground.symm.trans ha
    rcases hfg' with rfl | rfl
    · exact (live_start h hq).2 a (hq.woke.live.mpr (live_create h _ _ (hfg a ha')))
    · obtain rfl := Option.some.inj ha'
      exact (live_start h hq).1
  | aborted _ hq hq' =>
    have ha' : k.foreground = some a :=
      (hq.foreground.symm.trans hq'.foreground.symm).trans ha
    exact hq'.woke.live.mpr (hq.woke.live.mpr (live_create h _ _ (hfg a ha')))
  | collected _ _ _ _ hq => exact hq.woke.live.mpr (hfg a (hq.foreground.symm.trans ha))
  | killed pid _ hq =>
    refine hq.woke.live.mpr ?_
    rw [hq.foreground] at ha
    unfold killPid at ha ⊢
    split at ha
    · next hpid =>
      rw [if_pos hpid]
      exact hfg a ha
    · next hpid =>
      rw [if_neg hpid]
      cases hf : schedulerFind k.sched pid with
      | none =>
        rw [hf] at ha
        exact hfg a ha
      | some p =>
        rw [hf] at ha
        dsimp only at ha
        split at ha
        · cases ha
        · next hcur =>
          obtain ⟨-, ht, hl, -⟩ := h.kill_found hpid hf
          have hne : a ≠ p := fun e => hcur (e ▸ ha)
          refine ⟨(hl a).mpr ⟨(hfg a ha).1, fun e => absurd e hne⟩, ?_⟩
          rw [ht.state, Function.update_of_ne hne]
          exact (hfg a ha).2
  | gave pid target hf hq =>
    obtain rfl : target = a := Option.some.inj (hq.foreground.symm.trans ha)
    rw [ForegroundSafe, hf, Option.all_some, decide_eq_true_eq] at hsafe
    exact hq.woke.live.mpr ⟨(listed_of_findAny hf).1, hsafe⟩
  | tick => exact live_tick h (hfg a ha)
  | reapTake hr =>
    exact ⟨((h.reapTake hr).2.1 a).mpr (hfg a ha).1, (hfg a ha).2⟩
  | reapOne hr hq =>
    have hl := hfg a (hq.foreground.symm.trans ha)
    exact hq.woke.live.mpr ⟨((h.reapNext hr).2.2.1 a).mpr hl.1, hl.2⟩

/-- **The keyboard belongs to a process that is alive**, in every run in which it is
not handed to a dead process and no process that exits is its own parent; its
structure has not been freed. -/
theorem foreground_of_run {fs : FS}
    (hrun : ReflTransGen (KStep ops ForegroundSafe) (kernInit fs) k)
    (ha : k.foreground = some a) : Live k.sched a ∧ k.freed a = false := by
  obtain ⟨hk, hfg⟩ := kern_induction
    (I := fun k => ∀ a, k.foreground = some a → Live k.sched a) (kernOk_init fs)
    (fun a h => by cases h)
    (fun k k' e hk hI _ hg _ heff _ a ha => heff.foreground hk hI hg ha) hrun
  refine ⟨hfg a ha, ?_⟩
  by_contra hfreed
  exact (hk.freed a (by simpa using hfreed)).2.1 (hfg a ha).1

end

instance (e : Event) (k : Kern Fat32.State) : Decidable (ForegroundSafe e k) := by
  unfold ForegroundSafe
  split <;> infer_instance

/-- A program hands the keyboard to its child. -/
theorem foreground_of_run_child :
    let k := runAll smallOps
      (startOne ++ [.call (.fork .done), .call (.giveForeground 2)]) smallKern
    k.foreground = some 2 ∧ Live k.sched 2 ∧ k.freed 2 = false := by
  intro k
  have hrun : Allowed smallOps ForegroundSafe
      (startOne ++ [.call (.fork .done), .call (.giveForeground 2)]) smallKern := by
    decide +kernel
  have hfg : k.foreground = some 2 := by decide +kernel
  exact ⟨hfg, foreground_of_run (reflTransGen_runAll _ hrun) hfg⟩

/-- A process kills itself, takes the keyboard, and is freed. -/
theorem foreground_of_selfKill :
    ∃ k, ReflTransGen (KStep smallOps fun _ _ => True) smallKern k ∧
      k.foreground = some 1 ∧ ¬ Live k.sched 1 ∧ k.freed 1 = true := by
  refine ⟨_, reflTransGen_runAll (startOne ++
    [.call (.kill 1), .call (.giveForeground 1), .tick, .reapTake, .reapOne])
    (by decide +kernel), ?_⟩
  decide +kernel

section

variable {FS : Type} {ops : VfsOps FS} {k k' : Kern FS} {e : Event} {a : ℕ}

/-! ### Programs of the kernel shell -/

/-- The keyboard after the exit of the running process. -/
lemma Effect.foreground_exit (he : Effect k e k') (hx : k'.exits ≠ k.exits) :
    k'.foreground = exitForeground k k.me := by
  cases he with
  | quiet hq => exact absurd hq.exits hx
  | slept hq _ _ _ => exact absurd hq.exits hx
  | exited _ _ _ hq => exact hq.foreground
  | started _ _ _ hq hq' => exact absurd (hq'.exits.trans hq.exits) hx
  | aborted _ hq hq' => exact absurd (hq'.exits.trans hq.exits) hx
  | collected _ _ _ _ hq => exact absurd hq.exits hx
  | killed pid _ hq =>
    refine absurd (hq.exits.trans ?_) hx
    rw [killPid]
    split
    · rfl
    · split <;> rfl
  | gave _ _ _ hq => exact absurd hq.exits hx
  | tick => exact absurd rfl hx
  | reapTake _ => exact absurd rfl hx
  | reapOne _ hq => exact absurd hq.exits hx

/-- **A program that the kernel shell starts while the kernel task runs** is a child of
the kernel task. In everything that follows, its exit gives the keyboard back to the
kernel shell if the program had it, and when it is reaped the prompt comes back. -/
theorem shellChild_of_run {fs : FS} {fg : Bool}
    (hrun : ReflTransGen (KStep ops fun _ _ => True) (kernInit fs) k)
    (hen : Event.Enabled k (.shellStart fg .done)) (hme : k.me = 0) :
    ((Event.shellStart fg .done).run ops k).2.sched.parentPid k.sched.size = 0 ∧
    ∀ k', ReflTransGen (KStep ops fun _ _ => True)
        ((Event.shellStart fg .done).run ops k).2 k' →
      (∀ e : Event, e.Enabled k' → k'.me = k.sched.size →
        k'.foreground = some k.sched.size → (e.run ops k').2.exits ≠ k'.exits →
        (e.run ops k').2.foreground = none) ∧
      (k'.sched.reapList = some k.sched.size →
        reapNotice k' = some (k'.sched.pid k.sched.size)) := by
  obtain ⟨hk, -⟩ := kern_induction (I := fun _ => True) (kernOk_init fs) trivial
    (fun _ _ _ _ _ _ _ _ _ _ => trivial) hrun
  have hadd := sameProcs_schedulerAdd (processCreate k).sched k.sched.size
  have hsched : ((Event.shellStart fg .done).run ops k).2.sched =
      schedulerAdd (processCreate k).sched k.sched.size := rfl
  have hparent : ((Event.shellStart fg .done).run ops k).2.sched.parentPid k.sched.size
      = 0 := by
    have hnew : (processCreate k).sched.parentPid k.sched.size = k.sched.pid k.me :=
      Function.update_self _ _ _
    rw [hsched, hadd.parentPid, hnew, hme, hk.inOrder.kernelPid]
  refine ⟨hparent, fun k' hrun' => ?_⟩
  have heff : Effect k (.shellStart fg .done) ((Event.shellStart fg .done).run ops k).2 :=
    Event.effect hk hen
  obtain ⟨hk', hlt, hp⟩ := kern_induction
    (I := fun k' => k.sched.size < k'.sched.size ∧ k'.sched.parentPid k.sched.size = 0)
    (heff.kernOk hk) ⟨by rw [hsched, hadd.size]; exact Nat.lt_succ_self _, hparent⟩
    (fun k₁ k₂ e hk₁ hI _ _ _ he _ => by
      have hkeep := he.keeps hk₁
      exact ⟨hI.1.trans_le hkeep.size, (hkeep.parentPid _ hI.1).trans hI.2⟩) hrun'
  refine ⟨fun e he hcur hfg hx => ?_, fun hr => ?_⟩
  · have heff' : Effect k' e (e.run ops k').2 := Event.effect hk' he
    rw [heff'.foreground_exit hx, exitForeground, hcur, if_pos hfg, if_neg (not_not.mpr hp)]
  · rw [reapNotice, hr, Option.bind_some, if_pos hp]

end

/-- The shell starts a program in the foreground while the kernel task runs; the program
exits, and the reaper finds it. -/
theorem shellChild_of_run_exec :
    ((Event.shellStart true .done).run smallOps smallKern).2.sched.parentPid 1 = 0 ∧
    (runAll smallOps (List.replicate 10 .tick ++ [.call (.exit 0)])
      ((Event.shellStart true .done).run smallOps smallKern).2).foreground = none ∧
    reapNotice (runAll smallOps (List.replicate 10 .tick ++ [.call (.exit 0), .reapTake])
      ((Event.shellStart true .done).run smallOps smallKern).2) = some 1 := by
  obtain ⟨hp, hnext⟩ := shellChild_of_run .refl
    (show Event.Enabled smallKern (.shellStart true .done) by decide +kernel) rfl
  have hticks : Allowed smallOps (fun _ _ => True) (List.replicate 10 .tick)
      ((Event.shellStart true .done).run smallOps smallKern).2 := by decide +kernel
  have hexit : Allowed smallOps (fun _ _ => True)
      (List.replicate 10 .tick ++ [.call (.exit 0), .reapTake])
      ((Event.shellStart true .done).run smallOps smallKern).2 := by decide +kernel
  refine ⟨hp, ?_, ?_⟩
  · have hfg := (hnext _ (reflTransGen_runAll _ hticks)).1 (.call (.exit 0))
      (by decide +kernel) (by decide +kernel) (by decide +kernel) (by decide +kernel)
    rwa [runAll, List.foldl_append]
  · have hpid : (runAll smallOps (List.replicate 10 .tick ++ [.call (.exit 0), .reapTake])
        ((Event.shellStart true .done).run smallOps smallKern).2).sched.pid 1 = 1 := by
      decide +kernel
    exact ((hnext _ (reflTransGen_runAll _ hexit)).2 (by decide +kernel)).trans
      (congrArg some hpid)

/-- A program runs in the background when the shell starts another one in the
foreground: the new process is a child of the program that was interrupted. Its exit
hands the keyboard to that program, and the reaper is silent about it. -/
theorem shellChild_of_background :
    ∃ k, ReflTransGen (KStep smallOps fun _ _ => True) smallKern k ∧
      Event.Enabled k (.shellStart true .done) ∧
      ((Event.shellStart true .done).run smallOps k).2.sched.parentPid k.sched.size = 1 ∧
      ∃ k', ReflTransGen (KStep smallOps fun _ _ => True)
          ((Event.shellStart true .done).run smallOps k).2 k' ∧
        k'.foreground = some 1 ∧ k'.sched.reapList = some k.sched.size ∧
        reapNotice k' = none := by
  have hrun : Allowed smallOps (fun _ _ => True) startOne smallKern := by decide +kernel
  have hexit : Allowed smallOps (fun _ _ => True)
      (List.replicate 10 .tick ++ [.call (.exit 0), .reapTake])
      ((Event.shellStart true .done).run smallOps (runAll smallOps startOne smallKern)).2 := by
    decide +kernel
  exact ⟨_, reflTransGen_runAll _ hrun, by decide +kernel, by decide +kernel, _,
    reflTransGen_runAll _ hexit, by decide +kernel, by decide +kernel, by decide +kernel⟩

end GordOS.Kernel
