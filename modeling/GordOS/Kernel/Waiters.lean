/-
Processes that wait for their children.

* `Effect.newcomer`: the one process that can join the lists in a step;
* `Effect.awaited`: a process that sleeps in `sys_wait` keeps a child to wait for;
* `waiters_of_run`: **no waiter is left asleep**, as long as a kill leaves every
  waiter another child and pids are not given twice;
* `kill_strands_waiter`: a killed child leaves its waiting parent asleep.
-/
import Mathlib.Tactic
import GordOS.Kernel.Lives

namespace GordOS.Kernel

open GordOS Relation

/-- The process sleeps in `sys_wait`. -/
def SleepsInWait (s : Sched) (w : ℕ) : Prop :=
  s.state w = .blocked ∧ s.blockReason w = .wait

/-- The process is a child of `w` that `w` waits for. -/
def AwaitedBy (s : Sched) (w c : ℕ) : Prop :=
  s.parentPid c = s.pid w ∧ (s.waitTarget w = 0 ∨ s.pid c = s.waitTarget w)

instance (s : Sched) (w : ℕ) : Decidable (SleepsInWait s w) :=
  inferInstanceAs (Decidable (_ ∧ _))

instance (s : Sched) (w c : ℕ) : Decidable (AwaitedBy s w c) :=
  inferInstanceAs (Decidable (_ ∧ _))

section

variable {FS : Type} {ops : VfsOps FS} {k k' : Kern FS} {e : Event} {a : ℕ}

/-- The kernel task never sleeps. -/
lemma InOrder.kernel_awake {s : Sched} (h : InOrder s) : s.state 0 ≠ .blocked := by
  obtain ⟨t, b, z, q, h⟩ := h
  intro hb
  exact (h.ring_notMem h.kernel).1 ((h.sleeps 0).mp hb)

/-- Only a new process joins the lists. -/
lemma Effect.newcomer (hk : KernOk k) (he : Effect k e k') (hk' : KernOk k')
    (ha : Listed k'.sched a) (hnew : ¬ a < k.sched.size) :
    a = k.sched.size ∧ e.Creates ∧ k'.sched.pid a = k.nextPid ∧
      k'.sched.parentPid a = k.sched.pid k.me := by
  have h := hk.inOrder
  have hlt := hk'.inOrder.lt ha
  have hsame : k'.sched.size = k.sched.size → False := fun hs => hnew (hs ▸ hlt)
  cases he with
  | quiet hq => exact (hsame hq.woke.size).elim
  | slept hq _ hm _ =>
    obtain ⟨-, ⟨n, -, -, -, ht⟩, -⟩ :=
      hq.woke.inOrder.sleep (by rw [hq.woke.current]; exact hm) _ _
    exact (hsame (ht.size.trans hq.woke.size)).elim
  | exited code _ hm hq =>
    obtain ⟨s', hw, heq, -⟩ := hq.woke.inOrder.exit (by rw [hq.woke.current]; exact hm)
    obtain ⟨-, ⟨n, -, -, -, ht⟩, -⟩ := hw.inOrder.die (by
      rw [hw.current, hq.woke.current]
      exact hm)
    refine (hsame ?_).elim
    rw [exitTail, heq, ht.size, hw.size, hq.woke.size]
  | started fg hc _ hq hq' =>
    obtain ⟨-, ht, -⟩ := start_spec h hq
    have hsize : k'.sched.size = k.sched.size + 1 :=
      hq'.woke.size.trans (ht.size.trans hq.woke.size)
    obtain rfl : a = k.sched.size := by omega
    have hpid : ∀ b, k'.sched.pid b = (processCreate k).sched.pid b := fun b =>
      (congrFun hq'.woke.pid b).trans ((congrFun ht.pid b).trans (congrFun hq.woke.pid b))
    have hpar : ∀ b, k'.sched.parentPid b = (processCreate k).sched.parentPid b := fun b =>
      (congrFun hq'.woke.parentPid b).trans
        ((congrFun ht.parentPid b).trans (congrFun hq.woke.parentPid b))
    exact ⟨rfl, hc, (hpid _).trans (Function.update_self _ _ _),
      (hpar _).trans (Function.update_self _ _ _)⟩
  | aborted _ hq hq' =>
    have hl := (hq.woke.listed a).mp ((hq'.woke.listed a).mp ha)
    have hold := ((h.create k.nextPid (k.sched.pid k.me)).2.1 a).mp hl
    exact (hnew (h.lt hold)).elim
  | collected _ _ _ _ hq => exact (hsame hq.woke.size).elim
  | killed pid _ hq =>
    refine (hsame (hq.woke.size.trans ?_)).elim
    unfold killPid
    split
    · rfl
    · next hpid =>
      cases hf : schedulerFind k.sched pid with
      | none => rfl
      | some p => exact (h.kill_found hpid hf).2.1.size
  | gave _ _ _ hq => exact (hsame hq.woke.size).elim
  | tick =>
    refine (hsame ?_).elim
    rcases h.tick.2.1 with ⟨-, ht⟩ | ⟨_, -, -, -, -, ht⟩ | ⟨_, -, -, -, -, -, ht⟩ <;>
      exact ht.size
  | reapTake _ => exact (hsame rfl).elim
  | reapOne _ hq => exact (hsame hq.woke.size).elim

/-! ### Waiters -/

/-- A new pid is not in use, and a kill leaves every waiter another child. -/
def WaitersSafe (e : Event) (k : Kern FS) : Prop :=
  (e.Creates → ∀ a < k.sched.size, Listed k.sched a → k.sched.pid a ≠ k.nextPid) ∧
    ∀ x ∈ e.killed k, ∀ w < k.sched.size, SleepsInWait k.sched w →
      ∃ c < k.sched.size, c ≠ x ∧ Live k.sched c ∧ AwaitedBy k.sched w c

/-- Pids are not in use twice, no process is its own parent, and every waiter has a
child to wait for. -/
structure Waiters (k : Kern FS) : Prop where
  pids : ∀ a b, Listed k.sched a → Listed k.sched b → k.sched.pid a = k.sched.pid b → a = b
  parents : ∀ a, Listed k.sched a → a ≠ 0 → k.sched.parentPid a ≠ k.sched.pid a
  child : ∀ w, SleepsInWait k.sched w → ∃ c, Live k.sched c ∧ AwaitedBy k.sched w c

lemma Waiters.pids_step (hk : KernOk k) (h : Waiters k) (he : Effect k e k')
    (hk' : KernOk k') (hsafe : WaitersSafe e k) :
    (∀ a b, Listed k'.sched a → Listed k'.sched b → k'.sched.pid a = k'.sched.pid b → a = b) ∧
    ∀ a, Listed k'.sched a → a ≠ 0 → k'.sched.parentPid a ≠ k'.sched.pid a := by
  have hkeep := he.keeps hk
  have hlt : ∀ a, Listed k'.sched a → a < k.sched.size →
      Listed k.sched a := fun a ha hlt => hkeep.listed a hlt ha
  -- a new pid differs from those in use
  have hnew : ∀ a b, Listed k'.sched a → Listed k'.sched b → ¬ a < k.sched.size →
      b < k.sched.size → k'.sched.pid a ≠ k'.sched.pid b := by
    intro a b ha hb hna hlb heq
    obtain ⟨-, hc, hpid, -⟩ := he.newcomer hk hk' ha hna
    refine hsafe.1 hc b hlb (hlt b hb hlb) ?_
    rw [← hpid, heq, hkeep.pid b hlb]
  refine ⟨fun a b ha hb heq => ?_, fun a ha h0 => ?_⟩
  · by_cases hla : a < k.sched.size <;> by_cases hlb : b < k.sched.size
    · refine h.pids a b (hlt a ha hla) (hlt b hb hlb) ?_
      rwa [← hkeep.pid a hla, ← hkeep.pid b hlb]
    · exact absurd heq.symm (hnew b a hb ha hlb hla)
    · exact absurd heq (hnew a b ha hb hla hlb)
    · rw [(he.newcomer hk hk' ha hla).1, (he.newcomer hk hk' hb hlb).1]
  · by_cases hla : a < k.sched.size
    · rw [hkeep.pid a hla, hkeep.parentPid a hla]
      exact h.parents a (hlt a ha hla) h0
    · obtain ⟨-, hc, hpid, hpar⟩ := he.newcomer hk hk' ha hla
      rw [hpid, hpar]
      exact hsafe.1 hc k.me (hk.inOrder.lt hk.inOrder.current) hk.inOrder.current

/-- The child that `sys_wait` finds before it sleeps is another process, and alive. -/
lemma exists_live_of_hasWaitChild (hk : KernOk k) (hown : k.sched.parentPid k.me ≠ k.sched.pid k.me)
    {target : ℕ} (hc : hasWaitChild k target = true) :
    ∃ c, c ≠ k.me ∧ Live k.sched c ∧ k.sched.parentPid c = k.sched.pid k.me ∧
      (target = 0 ∨ k.sched.pid c = target) := by
  have hfound : ∃ c, Listed k.sched c ∧ k.sched.parentPid c = k.sched.pid k.me ∧
      (target = 0 ∨ k.sched.pid c = target) := by
    unfold hasWaitChild at hc
    split at hc
    · next h0 =>
      rw [schedulerHasChild, Bool.or_eq_true, List.any_eq_true, List.any_eq_true] at hc
      rcases hc with ⟨c, hmem, hp⟩ | ⟨c, hmem, hp⟩
      · exact ⟨c, .inl hmem, of_decide_eq_true hp, .inl h0⟩
      · exact ⟨c, .inr hmem, of_decide_eq_true hp, .inl h0⟩
    · cases hf : schedulerFindAny k.sched target with
      | none => simp [hf] at hc
      | some c =>
        obtain ⟨hl, hpid⟩ := listed_of_findAny hf
        rw [hf] at hc
        exact ⟨c, hl, of_decide_eq_true hc, .inr hpid⟩
  obtain ⟨c, hl, hp, ht⟩ := hfound
  have hne : c ≠ k.me := by
    rintro rfl
    exact hown hp
  exact ⟨c, hne, ⟨hl, fun hd => hne (hk.inOrder.eq_current_of_dead hl hd)⟩, hp, ht⟩

/-- A waiter of the exiting process is woken. -/
lemma not_blocked_of_exit {s s' : Sched} {w : ℕ} (h : InOrder s) (hpids : ∀ a b,
    Listed s a → Listed s b → s.pid a = s.pid b → a = b) (hw : Woke s s')
    (h0 : s.current ≠ 0) (hwait : SleepsInWait s w) (haw : AwaitedBy s w s.current) :
    (exitSwitch s').state w ≠ .blocked := by
  intro hb
  obtain ⟨s₁, hw₁, heq, hwake⟩ := hw.inOrder.exit (by rwa [hw.current])
  obtain ⟨-, ⟨n, -, -, -, ht⟩, -⟩ := hw₁.inOrder.die (by rwa [hw₁.current, hw.current])
  have hb₁ : s₁.state w = .blocked := by
    rw [heq, ht.state, Function.update_apply, Function.update_apply] at hb
    split at hb
    · cases hb
    · split at hb
      · cases hb
      · exact hb
  have hb' := hw₁.blocked hb₁
  have hlw := h.listed_of_blocked hwait.1
  have hpw : s.pid w ≠ 0 := fun e => by
    have hw0 := hpids w 0 hlw h.kernel (e.trans h.kernelPid.symm)
    exact h.kernel_awake (hw0 ▸ hwait.1)
  have hmatch : waitsFor s' (s'.parentPid s'.current) (s'.pid s'.current) w = true := by
    have hr := hw.reason w hb'
    rw [waitsFor, decide_eq_true_eq, hr, hw.pid, hw.parentPid, hw.current, hw.target]
    exact ⟨hwait.2, haw.1.symm, haw.2.imp_right Eq.symm⟩
  have hpar : s'.parentPid s'.current ≠ 0 := by
    rw [hw.parentPid, hw.current, haw.1]
    exact hpw
  rcases hwake hpar with hnone | ⟨p, hpb, hpn, hpm⟩
  · rw [hnone w hb'] at hmatch
    cases hmatch
  · have hp : p = w := by
      refine hpids p w (h.listed_of_blocked (hw.blocked hpb)) hlw ?_
      have h₁ := (of_decide_eq_true hpm).2.1
      have h₂ := (of_decide_eq_true hmatch).2.1
      rw [← hw.pid, h₁, h₂]
    exact hpn (hp ▸ hb₁)

/-- A process that sleeps in `sys_wait` keeps a child to wait for. -/
lemma Effect.awaited (hk : KernOk k) (h : Waiters k) (he : Effect k e k')
    (hsafe : WaitersSafe e k) (w : ℕ) (hw : SleepsInWait k'.sched w) :
    ∃ c, Live k'.sched c ∧ AwaitedBy k'.sched w c := by
  have hkeep := he.keeps hk
  have hmove : ∀ c, Live k.sched c → w < k.sched.size → k.sched.parentPid c = k.sched.pid w ∧
        (k'.sched.waitTarget w = 0 ∨ k.sched.pid c = k'.sched.waitTarget w) →
      AwaitedBy k'.sched w c := by
    intro c hc hlw hcw
    have hlc := hk.inOrder.lt hc.1
    rwa [AwaitedBy, hkeep.parentPid c hlc, hkeep.pid c hlc, hkeep.pid w hlw]
  rcases he.sleeper hk hw.1 with hs | ⟨rfl, hm, hmay, hs⟩
  · -- it slept before, for a child that is still alive
    have hlw := hk.inOrder.lt (hk.inOrder.listed_of_blocked hs.state)
    have hw₀ : SleepsInWait k.sched w := ⟨hs.state, hs.reason.symm.trans hw.2⟩
    have hkept : ∀ c, Live k'.sched c → Live k.sched c → AwaitedBy k.sched w c →
        ∃ c, Live k'.sched c ∧ AwaitedBy k'.sched w c := fun c hc' hc hcw =>
      ⟨c, hc', hmove c hc hlw (by rwa [hs.target])⟩
    obtain ⟨c, hc, hcw⟩ := h.child w hw₀
    rcases he.live hk hc with hc' | ⟨rfl, hm, s, hwoke, hsched⟩ | hkill
    · exact hkept c hc' hc hcw
    · rw [hsched] at hw
      exact absurd hw.1 (not_blocked_of_exit hk.inOrder h.pids hwoke hm hw₀ hcw)
    · obtain ⟨c', -, hne, hc', hcw'⟩ := hsafe.2 c hkill w hlw hw₀
      rcases he.live hk hc' with hl | ⟨rfl, hm, s, hwoke, hsched⟩ | hkill'
      · exact hkept c' hl hc' hcw'
      · rw [hsched] at hw
        exact absurd hw.1 (not_blocked_of_exit hk.inOrder h.pids hwoke hm hw₀ hcw')
      · rw [hkill] at hkill'
        exact absurd (Option.some.inj hkill').symm hne
  · -- it found a child just now
    have hlw := hk.inOrder.lt hk.inOrder.current
    obtain ⟨target, hhas, ht⟩ : ∃ target, hasWaitChild k target = true ∧
        k'.sched.waitTarget k.me = target := by
      rw [hw.2] at hs
      generalize k'.sched.waitTarget k.me = t, k'.cont k.me = c at hs
      cases hs with
      | wait target status hc => exact ⟨t, hc, rfl⟩
    obtain ⟨c, hne, hc, hcw⟩ := exists_live_of_hasWaitChild hk
      (h.parents k.me hk.inOrder.current hm) hhas
    refine ⟨c, ?_, hmove c hc hlw (by rwa [ht])⟩
    rcases he.live hk hc with hl | ⟨hme, -⟩ | hkill
    · exact hl
    · exact absurd hme hne
    · cases e with
      | call c => cases c <;> first | cases hkill | cases hmay
      | shellKill pid => cases hmay
      | _ => cases hkill

/-- **No waiter is left asleep**: in every run in which a new pid is not in use and a
kill leaves every waiter another child to wait for, each process that sleeps in
`sys_wait` has a child it waits for that is alive. -/
theorem waiters_of_run {fs : FS}
    (hrun : ReflTransGen (KStep ops WaitersSafe) (kernInit fs) k) (w : ℕ)
    (hw : SleepsInWait k.sched w) : ∃ c, Live k.sched c ∧ AwaitedBy k.sched w c := by
  have hinit : Waiters (kernInit fs) := by
    have hl : ∀ a, Listed (kernInit fs).sched a → a = 0 := fun a ha => by
      have := inOrder_processInit.lt (a := a) ha
      exact Nat.lt_one_iff.mp this
    refine ⟨fun a b ha hb _ => (hl a ha).trans (hl b hb).symm,
      fun a ha h0 => absurd (hl a ha) h0, fun w hw => ?_⟩
    have h0 := hl w (inOrder_processInit.listed_of_blocked hw.1)
    exact absurd (h0 ▸ hw.1) inOrder_processInit.kernel_awake
  refine (kern_induction (I := Waiters) (kernOk_init fs) hinit
    (fun k k' e hk hI _ hg _ heff hk' => ?_) hrun).2.child w hw
  obtain ⟨hp, hpar⟩ := hI.pids_step hk heff hk' hg
  exact ⟨hp, hpar, heff.awaited hk hI hg⟩

end

instance (e : Event) (k : Kern Fat32.State) : Decidable (WaitersSafe e k) :=
  inferInstanceAs (Decidable (_ ∧ _))

/-- A program waits for its child. -/
theorem waiters_of_run_child :
    let k := runAll smallOps
      (startOne ++ [.call (.fork .done), .call (.wait 2 0)]) smallKern
    SleepsInWait k.sched 1 ∧ ∃ c, Live k.sched c ∧ AwaitedBy k.sched 1 c := by
  have hrun : Allowed smallOps WaitersSafe
      (startOne ++ [.call (.fork .done), .call (.wait 2 0)]) smallKern := by
    decide +kernel
  have hw : SleepsInWait (runAll smallOps
      (startOne ++ [.call (.fork .done), .call (.wait 2 0)]) smallKern).sched 1 := by
    decide +kernel
  exact ⟨hw, waiters_of_run (reflTransGen_runAll _ hrun) 1 hw⟩

/-- A program forks two children and waits for the first one, and the second one
kills it: no child is left to wake the parent, and no exit record to collect. -/
theorem kill_strands_waiter :
    ∃ k, ReflTransGen (KStep smallOps fun _ _ => True) smallKern k ∧
      SleepsInWait k.sched 1 ∧ (∀ c < k.sched.size, AwaitedBy k.sched 1 c →
        k.sched.state c ≠ .ready ∧ k.sched.state c ≠ .running ∧
          k.sched.state c ≠ .blocked) ∧
      ∀ r ∈ k.records, r = none := by
  refine ⟨_, reflTransGen_runAll (startOne ++
    [.call (.fork .done), .call (.fork .done), .call (.wait 2 0), .call (.kill 2)])
    (by decide +kernel), ?_⟩
  decide +kernel

end GordOS.Kernel
