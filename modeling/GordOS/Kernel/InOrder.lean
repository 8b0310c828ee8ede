/-
The lists of the scheduler, without naming them.

* `InOrder`: the lists are in order; `Listed`: a process is on the ready ring or
  on the blocked list; `Gone`: it is with the reaper;
* `InOrder.of_listed`, `InOrder.dead_of_gone`: the state of a process by its list;
* `Woke`: some sleeping processes have been woken, and nothing else happened;
* `InOrder.create`, `InOrder.add`, `InOrder.sleep`, `InOrder.die`,
  `InOrder.switch`, `InOrder.kill`, `InOrder.reap`: what each operation does to the
  current process, the states and the lists.
-/
import Mathlib.Tactic
import GordOS.Kernel.SchedRuns

namespace GordOS.Kernel

open GordOS

/-- The lists of the scheduler are in order. -/
def InOrder (s : Sched) : Prop := ∃ t b z q, Lists s t b z q

/-- The process is on the ready ring or on the blocked list. -/
def Listed (s : Sched) (a : ℕ) : Prop := a ∈ s.ringCells ∨ a ∈ s.blockedCells

/-- The process is on the zombie list or on the reaper's list. -/
def Gone (s : Sched) (a : ℕ) : Prop := a ∈ s.zombieCells ∨ a ∈ s.listCells s.reapList

instance (s : Sched) (a : ℕ) : Decidable (Listed s a) :=
  inferInstanceAs (Decidable (_ ∨ _))

section

variable {s s' s'' : Sched} {t b z q : List ℕ} {a p : ℕ}

lemma Lists.listed (h : Lists s t b z q) : Listed s a ↔ a ∈ s.current :: t ∨ a ∈ b := by
  rw [Listed, h.ringCells, h.blockedCells]

lemma Lists.gone (h : Lists s t b z q) : Gone s a ↔ a ∈ z ∨ a ∈ q := by
  have hq : s.listCells s.reapList = q := by
    have hd := (List.nodup_append'.mp h.nodup_rest).2.1
    exact listCells_eq h.reaped (List.nodup_append'.mp hd).2.1 fun a ha =>
      h.lt a (List.mem_append_right _ (List.mem_append_right _ (List.mem_append_right _ ha)))
  rw [Gone, h.zombieCells, hq]

lemma Lists.notMem (h : Lists s t b z q) : a ∉ allCells s t b z q ↔ ¬ Listed s a ∧ ¬ Gone s a := by
  rw [h.listed, h.gone, notMem_allCells]
  tauto

/-! ### The state of a process -/

namespace InOrder

lemma current (h : InOrder s) : Listed s s.current := by
  obtain ⟨t, b, z, q, h⟩ := h
  exact h.listed.mpr (.inl List.mem_cons_self)

lemma kernel (h : InOrder s) : Listed s 0 := by
  obtain ⟨t, b, z, q, h⟩ := h
  exact h.listed.mpr (.inl h.kernel)

lemma kernelPid (h : InOrder s) : s.pid 0 = 0 := by
  obtain ⟨t, b, z, q, h⟩ := h
  exact h.kernelPid

lemma lt (h : InOrder s) (ha : Listed s a) : a < s.size := by
  obtain ⟨t, b, z, q, h⟩ := h
  rcases h.listed.mp ha with hr | hb
  · exact h.mem_ring_lt hr
  · exact h.lt a (List.mem_append_right _ (List.mem_append_left _ hb))

/-- A process that sleeps is on the blocked list. -/
lemma blocked_iff (h : InOrder s) : s.state a = .blocked ↔ a ∈ s.blockedCells := by
  obtain ⟨t, b, z, q, h⟩ := h
  rw [h.blockedCells, h.sleeps]

lemma listed_of_blocked (h : InOrder s) (ha : s.state a = .blocked) : Listed s a :=
  .inr (h.blocked_iff.mp ha)

/-- The current process runs, or has been killed. -/
lemma running (h : InOrder s) : s.state s.current = .running ∨
    s.current ≠ 0 ∧ s.state s.current = .dead := by
  obtain ⟨t, b, z, q, h⟩ := h
  exact h.running

/-- A process on the lists other than the current one is ready or sleeps. -/
lemma of_listed (h : InOrder s) (ha : Listed s a) (hne : a ≠ s.current) :
    s.state a = .ready ∨ s.state a = .blocked := by
  obtain ⟨t, b, z, q, h⟩ := h
  rcases h.listed.mp ha with hr | hb
  · exact .inl (h.ready a ((List.mem_cons.mp hr).resolve_left hne))
  · exact .inr ((h.sleeps a).mpr hb)

/-- A dead process on the lists is the current one. -/
lemma eq_current_of_dead (h : InOrder s) (ha : Listed s a) (hd : s.state a = .dead) :
    a = s.current := by
  by_contra hne
  rcases h.of_listed ha hne with e | e <;> rw [hd] at e <;> cases e

/-- A sleeping process does not run. -/
lemma ne_current_of_blocked (h : InOrder s) (ha : s.state a = .blocked) : a ≠ s.current := by
  rintro rfl
  rcases h.running with e | ⟨-, e⟩ <;> rw [ha] at e <;> cases e

lemma gone_lt (h : InOrder s) (ha : Gone s a) : a < s.size := by
  obtain ⟨t, b, z, q, h⟩ := h
  refine h.lt a (List.mem_append_right _ (List.mem_append_right _ ?_))
  exact List.mem_append.mpr (h.gone.mp ha)

lemma not_gone (h : InOrder s) (ha : Listed s a) : ¬ Gone s a := by
  obtain ⟨t, b, z, q, h⟩ := h
  have hd := (List.nodup_append'.mp h.nodup).2.2
  have hb := (List.nodup_append'.mp h.nodup_rest).2.2
  rw [h.gone]
  rcases h.listed.mp ha with hr | hbl
  · have := h.ring_notMem hr
    tauto
  · exact fun hz => hb hbl (List.mem_append.mpr hz)

end InOrder

/-- What `scheduler_find` finds is on the ready ring. -/
lemma mem_of_find {pid : ℕ} (hf : schedulerFind s pid = some p) :
    p ∈ s.ringCells ∧ s.pid p = pid := by
  rw [schedulerFind] at hf
  exact ⟨List.mem_of_find?_eq_some hf, by simpa using List.find?_some hf⟩

/-- What `scheduler_find_any` finds is on the lists. -/
lemma listed_of_findAny {pid : ℕ} (hf : schedulerFindAny s pid = some p) :
    Listed s p ∧ s.pid p = pid := by
  rw [schedulerFindAny] at hf
  cases hr : schedulerFind s pid with
  | some c =>
    rw [hr] at hf
    obtain rfl : c = p := by simpa using hf
    exact (mem_of_find hr).imp_left .inl
  | none =>
    rw [hr] at hf
    exact ⟨.inr (List.mem_of_find?_eq_some hf), by simpa using List.find?_some hf⟩

/-! ### Waking -/

/-- Some sleeping processes of `s` have been woken. -/
structure Woke (s s' : Sched) : Prop extends SameProcs s s' where
  inOrder : InOrder s'
  current : s'.current = s.current
  state : ∀ a, s'.state a = s.state a ∨ s.state a = .blocked ∧ s'.state a = .ready
  reason : ∀ a, s'.state a = .blocked → s'.blockReason a = s.blockReason a
  target : s'.waitTarget = s.waitTarget
  listed : ∀ a, Listed s' a ↔ Listed s a
  gone : ∀ a, Gone s' a ↔ Gone s a

namespace Woke

lemma refl (h : InOrder s) : Woke s s :=
  ⟨.refl s, h, rfl, fun _ => .inl rfl, fun _ _ => rfl, rfl, fun _ => .rfl, fun _ => .rfl⟩

/-- A process that sleeps was asleep before. -/
lemma blocked (h : Woke s s') (ha : s'.state a = .blocked) : s.state a = .blocked := by
  rcases h.state a with e | ⟨e, -⟩
  · exact e ▸ ha
  · exact e

/-- A dead process stays dead, and none dies. -/
lemma dead_iff (h : Woke s s') : s'.state a = .dead ↔ s.state a = .dead := by
  rcases h.state a with e | ⟨e, e'⟩
  · rw [e]
  · rw [e, e']
    decide

lemma trans (h : Woke s s') (h' : Woke s' s'') : Woke s s'' where
  toSameProcs := h.toSameProcs.trans h'.toSameProcs
  inOrder := h'.inOrder
  current := h'.current.trans h.current
  state := fun a => by
    rcases h'.state a with e' | ⟨e', r'⟩
    · rcases h.state a with e | ⟨e, r⟩
      · exact .inl (e'.trans e)
      · exact .inr ⟨e, e'.trans r⟩
    · exact .inr ⟨h.blocked e', r'⟩
  reason := fun a ha => (h'.reason a ha).trans (h.reason a (h'.blocked ha))
  target := h'.target.trans h.target
  listed := fun a => (h'.listed a).trans (h.listed a)
  gone := fun a => (h'.gone a).trans (h.gone a)

end Woke

namespace InOrder

/-- One process is woken, if it sleeps. -/
lemma wake (h : InOrder s) (p : ℕ) :
    Woke s (schedulerWake s p) ∧ (schedulerWake s p).state p ≠ .blocked := by
  obtain ⟨t, b, z, q, hl⟩ := h
  by_cases hp : s.state p = .blocked
  · obtain ⟨b₁, b₂, rfl⟩ := List.append_of_mem ((hl.sleeps p).mp hp)
    obtain ⟨hl', ht⟩ := hl.wake
    refine ⟨⟨ht.toSameProcs, ⟨_, _, _, _, hl'⟩, ht.current, fun a => ?_, fun a ha => ?_,
      ht.waitTarget, fun a => ?_, fun a => ?_⟩, ?_⟩
    · rw [ht.state]
      by_cases ha : a = p
      · subst ha
        exact .inr ⟨hp, Function.update_self _ _ _⟩
      · exact .inl (Function.update_of_ne ha _ _)
    · rw [ht.state] at ha
      rw [ht.blockReason]
      by_cases hap : a = p
      · subst hap
        rw [Function.update_self] at ha
        cases ha
      · exact Function.update_of_ne hap _ _
    · rw [hl'.listed, hl.listed, ht.current]
      simp only [List.mem_cons, List.mem_append]
      tauto
    · rw [hl'.gone, hl.gone]
    · rw [ht.state, Function.update_self]
      decide
  · rw [schedulerWake_of_ne hp]
    exact ⟨.refl ⟨t, b, z, q, hl⟩, hp⟩

/-! ### The other operations -/

/-- A new process structure is on no list. -/
lemma create (h : InOrder s) (pid parentPid : ℕ) : InOrder (newProcess s pid parentPid) ∧
      (∀ a, Listed (newProcess s pid parentPid) a ↔ Listed s a) ∧
      (∀ a, Gone (newProcess s pid parentPid) a ↔ Gone s a) ∧
      ¬ Listed s s.size ∧ ¬ Gone s s.size := by
  obtain ⟨t, b, z, q, h⟩ := h
  obtain ⟨h', hnot⟩ := h.newProcess pid parentPid
  have hnot' : s.size ∉ allCells s t b z q := hnot
  rw [h.notMem] at hnot'
  refine ⟨⟨t, b, z, q, h'⟩, fun a => ?_, fun a => ?_, hnot'⟩
  · rw [h'.listed, h.listed]
    rfl
  · rw [h'.gone, h.gone]

/-- A process on no list joins the ready ring. -/
lemma add (h : InOrder s) (hl : ¬ Listed s p) (hg : ¬ Gone s p) (hp : p < s.size) :
    InOrder (schedulerAdd s p) ∧
      Turn s (schedulerAdd s p) s.current (Function.update s.state p .ready)
        s.blockReason s.waitTarget ∧
      (∀ a, Listed (schedulerAdd s p) a ↔ a = p ∨ Listed s a) ∧
      ∀ a, Gone (schedulerAdd s p) a ↔ Gone s a := by
  obtain ⟨t, b, z, q, h⟩ := h
  obtain ⟨h', ht⟩ := h.add (h.notMem.mpr ⟨hl, hg⟩) hp
  refine ⟨⟨_, _, _, _, h'⟩, ht, fun a => ?_, fun a => ?_⟩
  · rw [h'.listed, h.listed, ht.current]
    simp only [List.mem_cons]
    tauto
  · rw [h'.gone, h.gone]

/-- The current process goes to sleep, and another one runs. -/
lemma sleep (h : InOrder s) (h0 : s.current ≠ 0) (r : BlockReason) (w : ℕ) :
    InOrder (blockSwitch s r w) ∧ (∃ n, Listed s n ∧ n ≠ s.current ∧ s.state n = .ready ∧
        Turn s (blockSwitch s r w) n
          (Function.update (Function.update s.state s.current .blocked) n .running)
          (Function.update s.blockReason s.current r)
          (Function.update s.waitTarget s.current w)) ∧
      (∀ a, Listed (blockSwitch s r w) a ↔ Listed s a) ∧
      ∀ a, Gone (blockSwitch s r w) a ↔ Gone s a := by
  obtain ⟨t, b, z, q, h⟩ := h
  obtain ⟨n, t', rfl⟩ := h.exists_cons h0
  obtain ⟨h', ht⟩ := h.blockSwitch h0 r w
  refine ⟨⟨_, _, _, _, h'⟩, ⟨n, h.listed.mpr (by simp), h.head_facts.1.1,
    h.ready n List.mem_cons_self, ht⟩, fun a => ?_, fun a => ?_⟩
  · rw [h'.listed, h.listed, ht.current]
    simp only [List.mem_cons]
    tauto
  · rw [h'.gone, h.gone]

/-- The current process dies, and another one runs. -/
lemma die (h : InOrder s) (h0 : s.current ≠ 0) :
    InOrder (schedulerSwitch (s.setState s.current .dead)) ∧
      (∃ n, Listed s n ∧ n ≠ s.current ∧ s.state n = .ready ∧
        Turn s (schedulerSwitch (s.setState s.current .dead)) n
          (Function.update (Function.update s.state s.current .dead) n .running)
          s.blockReason s.waitTarget) ∧
      (∀ a, Listed (schedulerSwitch (s.setState s.current .dead)) a ↔ Listed s a ∧ a ≠ s.current) ∧
      ∀ a, Gone (schedulerSwitch (s.setState s.current .dead)) a ↔ Gone s a ∨ a = s.current := by
  obtain ⟨t, b, z, q, h⟩ := h
  obtain ⟨n, t', rfl⟩ := h.exists_cons h0
  obtain ⟨h', ht⟩ := h.die h0
  obtain ⟨⟨hnc, -, hct⟩, -, hcb, -⟩ := h.head_facts
  refine ⟨⟨_, _, _, _, h'⟩, ⟨n, h.listed.mpr (by simp), hnc,
    h.ready n List.mem_cons_self, ht⟩, fun a => ?_, fun a => ?_⟩
  · rw [h'.listed, h.listed, ht.current]
    simp only [List.mem_cons]
    constructor
    · rintro ((rfl | ha) | ha)
      · exact ⟨.inl (.inr (.inl rfl)), hnc⟩
      · exact ⟨.inl (.inr (.inr ha)), ne_of_mem_of_not_mem ha hct⟩
      · exact ⟨.inr ha, ne_of_mem_of_not_mem ha hcb⟩
    · tauto
  · rw [h'.gone, h.gone]
    simp only [List.mem_cons]
    tauto

/-- The exit of the current process: a parent that waits for it is woken, and it
dies. -/
lemma exit (h : InOrder s) (h0 : s.current ≠ 0) :
    ∃ s', Woke s s' ∧ exitSwitch s = schedulerSwitch (s'.setState s'.current .dead) ∧
      (s.parentPid s.current ≠ 0 → (∀ p, s.state p = .blocked →
          waitsFor s (s.parentPid s.current) (s.pid s.current) p = false) ∨
        ∃ p, s.state p = .blocked ∧ s'.state p ≠ .blocked ∧
          waitsFor s (s.parentPid s.current) (s.pid s.current) p = true) := by
  by_cases hp : s.parentPid s.current = 0
  · refine ⟨s, .refl h, ?_, fun hne => absurd hp hne⟩
    rw [exitSwitch, if_neg h0]
    simp only [hp, ne_eq, not_true_eq_false, if_false]
  · have heq : exitSwitch s = schedulerSwitch
        ((schedulerWakeWaiter s (s.parentPid s.current) (s.pid s.current)).setState
          s.current .dead) := by
      rw [exitSwitch, if_neg h0]
      simp only [ne_eq, hp, not_false_eq_true, if_true]
    obtain ⟨t, b, z, q, hl⟩ := id h
    rcases hl.wakeWaiter (s.parentPid s.current) (s.pid s.current) with
      ⟨hw, hno⟩ | ⟨b₁, p, b₂, rfl, hpw, hw⟩
    · rw [hw] at heq
      exact ⟨s, .refl h, heq, fun _ => .inl fun p hb => hno p ((hl.sleeps p).mp hb)⟩
    · rw [hw] at heq
      obtain ⟨hwoke, hne⟩ := h.wake p
      rw [← hwoke.current] at heq
      exact ⟨_, hwoke, heq, fun _ => .inr ⟨p, (hl.sleeps p).mpr (by simp), hne, hpw⟩⟩

/-- A process asleep behind an exit slept before. -/
lemma blocked_exitSwitch (h : InOrder s) (h0 : s.current ≠ 0)
    (ha : (exitSwitch s).state a = .blocked) : s.state a = .blocked := by
  obtain ⟨s', hw, heq, -⟩ := h.exit h0
  obtain ⟨-, ⟨n, -, -, -, ht⟩, -⟩ := hw.inOrder.die (by rw [hw.current]; exact h0)
  rw [heq, ht.state, Function.update_apply, Function.update_apply] at ha
  refine hw.blocked ?_
  split at ha
  · cases ha
  · split at ha
    · cases ha
    · exact ha

/-- A timer tick: the current process goes on, another one runs, or a killed
process is handed to the reaper. -/
lemma tick (h : InOrder s) : InOrder (schedulerTick s) ∧ ((s.state s.current = .running ∧
        Turn s (schedulerTick s) s.current s.state s.blockReason s.waitTarget) ∨
      (∃ n, Listed s n ∧ n ≠ s.current ∧ s.state n = .ready ∧ s.state s.current = .running ∧
        Turn s (schedulerTick s) n
          (Function.update (Function.update s.state n .running) s.current .ready)
          s.blockReason s.waitTarget) ∨
      (∃ n, Listed s n ∧ n ≠ s.current ∧ s.state n = .ready ∧
        s.state s.current = .dead ∧ s.current ≠ 0 ∧
        Turn s (schedulerTick s) n (Function.update s.state n .running)
          s.blockReason s.waitTarget)) ∧
      (∀ a, Listed (schedulerTick s) a ↔ Listed s a ∧ (s.state s.current = .dead → a ≠ s.current)) ∧
      ∀ a, Gone (schedulerTick s) a ↔ Gone s a ∨ (s.state s.current = .dead ∧ a = s.current) := by
  obtain ⟨t, b, z, q, h⟩ := h
  rcases h.tick with ⟨h', hst, ht⟩ | ⟨n, t', rfl, hst, h', ht⟩ | ⟨n, t', rfl, hst, h0, h', ht⟩
  · refine ⟨⟨_, _, _, _, h'⟩, .inl ⟨hst, ht⟩, fun a => ?_, fun a => ?_⟩
    · rw [h'.listed, h.listed, ht.current, hst]
      simp
    · rw [h'.gone, h.gone, hst]
      simp
  · refine ⟨⟨_, _, _, _, h'⟩, .inr (.inl ⟨n, h.listed.mpr (by simp), h.head_facts.1.1,
      h.ready n List.mem_cons_self, hst, ht⟩), fun a => ?_, fun a => ?_⟩
    · rw [h'.listed, h.listed, ht.current, hst]
      simp only [List.mem_cons, List.mem_append, List.not_mem_nil, or_false, reduceCtorEq,
        false_implies, and_true]
      tauto
    · rw [h'.gone, h.gone, hst]
      simp
  · obtain ⟨⟨hnc, -, hct⟩, -, hcb, -⟩ := h.head_facts
    refine ⟨⟨_, _, _, _, h'⟩, .inr (.inr ⟨n, h.listed.mpr (by simp), hnc,
      h.ready n List.mem_cons_self, hst, h0, ht⟩), fun a => ?_, fun a => ?_⟩
    · rw [h'.listed, h.listed, ht.current, hst]
      simp only [List.mem_cons, true_implies]
      constructor
      · rintro ((rfl | ha) | ha)
        · exact ⟨.inl (.inr (.inl rfl)), hnc⟩
        · exact ⟨.inl (.inr (.inr ha)), ne_of_mem_of_not_mem ha hct⟩
        · exact ⟨.inr ha, ne_of_mem_of_not_mem ha hcb⟩
      · tauto
    · rw [h'.gone, h.gone, hst]
      simp only [List.mem_cons, true_and]
      tauto

/-- A process asleep behind a tick slept before. -/
lemma blocked_tick (h : InOrder s) (ha : (schedulerTick s).state a = .blocked) :
    s.state a = .blocked := by
  rcases h.tick.2.1 with ⟨-, ht⟩ | ⟨n, -, -, -, -, ht⟩ | ⟨n, -, -, -, -, -, ht⟩ <;>
    rw [ht.state] at ha
  · exact ha
  · rw [Function.update_apply, Function.update_apply] at ha
    split at ha
    · cases ha
    · split at ha
      · cases ha
      · exact ha
  · rw [Function.update_apply] at ha
    split at ha
    · cases ha
    · exact ha

/-- A process of the ready ring is killed: the current one stays on the ring until
the next tick. -/
lemma kill (h : InOrder s) (hp : p ∈ s.ringCells) (h0 : p ≠ 0) : InOrder (markDead s p) ∧
      Turn s (markDead s p) s.current (Function.update s.state p .dead) s.blockReason s.waitTarget ∧
      (∀ a, Listed (markDead s p) a ↔ Listed s a ∧ (a = p → p = s.current)) ∧
      ∀ a, Gone (markDead s p) a ↔ Gone s a ∨ (a = p ∧ p ≠ s.current) := by
  obtain ⟨t, b, z, q, h⟩ := h
  rw [h.ringCells] at hp
  by_cases hc : p = s.current
  · subst hc
    rw [markDead, if_pos rfl]
    have h' := h.setDead h0
    refine ⟨⟨_, _, _, _, h'⟩, ⟨⟨rfl, rfl, rfl, rfl⟩, rfl, rfl, rfl, rfl⟩, fun a => ?_, fun a => ?_⟩
    · rw [h'.listed, h.listed]
      simp [Sched.setState]
    · rw [h'.gone, h.gone]
      simp
  · obtain ⟨t₁, t₂, rfl⟩ := List.append_of_mem ((List.mem_cons.mp hp).resolve_left hc)
    obtain ⟨h', ht⟩ := h.markDead h0
    have hperm : (s.current :: t₁ ++ p :: t₂).Perm (p :: (s.current :: t₁ ++ t₂)) :=
      List.perm_middle
    have hn := hperm.nodup_iff.mp h.nodup_ring
    have hpt : p ∉ s.current :: (t₁ ++ t₂) := (List.nodup_cons.mp hn).1
    have hpb : p ∉ b := (h.ring_notMem hp).1
    refine ⟨⟨_, _, _, _, h'⟩, ht, fun a => ?_, fun a => ?_⟩
    · rw [h'.listed, h.listed, ht.current]
      constructor
      · rintro (ha | ha)
        · have hne : a ≠ p := ne_of_mem_of_not_mem ha hpt
          simp only [List.mem_cons, List.mem_append] at ha ⊢
          tauto
        · have hne : a ≠ p := ne_of_mem_of_not_mem ha hpb
          tauto
      · simp only [List.mem_cons, List.mem_append]
        tauto
    · rw [h'.gone, h.gone]
      simp only [List.mem_cons]
      tauto

/-- The process that a kill finds. -/
lemma kill_found {pid : ℕ} (h : InOrder s) (hpid : pid ≠ 0) (hf : schedulerFind s pid = some p) :
    InOrder (markDead s p) ∧ Turn s (markDead s p) s.current (Function.update s.state p .dead)
        s.blockReason s.waitTarget ∧
      (∀ a, Listed (markDead s p) a ↔ Listed s a ∧ (a = p → p = s.current)) ∧
      ∀ a, Gone (markDead s p) a ↔ Gone s a ∨ (a = p ∧ p ≠ s.current) := by
  obtain ⟨hp, hpp⟩ := mem_of_find hf
  refine h.kill hp ?_
  rintro rfl
  exact hpid (hpp.symm.trans h.kernelPid)

/-- The reaper takes over the zombie list. -/
lemma reapTake (h : InOrder s) (hr : s.reapList = none) :
    InOrder { s with reapList := s.zombieList, zombieList := none } ∧
      (∀ a, Listed { s with reapList := s.zombieList, zombieList := none } a ↔ Listed s a) ∧
      ∀ a, Gone { s with reapList := s.zombieList, zombieList := none } a ↔ Gone s a := by
  obtain ⟨t, b, z, q, h⟩ := h
  obtain rfl : q = [] := by
    have hq := h.reaped
    rw [hr] at hq
    cases q with
    | nil => rfl
    | cons x q => exact absurd hq.1 (by simp)
  have h' : Lists { s with reapList := s.zombieList, zombieList := none } t b [] z :=
    { queue := h.queue
      ring := h.ring
      blocked := h.blocked
      zombies := rfl
      reaped := h.zombies
      nodup := by simpa [allCells] using h.nodup
      lt := by simpa [allCells] using h.lt
      kernel := h.kernel
      kernelPid := h.kernelPid
      ready := h.ready
      running := h.running
      sleeps := h.sleeps
      dead := by simpa using h.dead }
  refine ⟨⟨_, _, _, _, h'⟩, fun a => ?_, fun a => ?_⟩
  · rw [h'.listed, h.listed]
  · rw [h'.gone, h.gone]
    simp

/-- The reaper takes the next process of its list. -/
lemma reapNext (h : InOrder s) (hr : s.reapList = some p) :
    InOrder { s with reapList := s.next p } ∧ Gone s p ∧
      (∀ a, Listed { s with reapList := s.next p } a ↔ Listed s a) ∧
      ∀ a, Gone { s with reapList := s.next p } a ↔ Gone s a ∧ a ≠ p := by
  obtain ⟨t, b, z, q, h⟩ := h
  have hq := h.reaped
  rw [hr] at hq
  cases q with
  | nil => exact absurd hq (by simp)
  | cons x q =>
    obtain rfl : p = x := Option.some.inj hq.1
    have hsub : (allCells s t b z q).Sublist (allCells s t b z (p :: q)) :=
      (((List.sublist_cons_self p q).append_left z).append_left b).append_left _
    have h' : Lists { s with reapList := s.next p } t b z q :=
      { queue := h.queue
        ring := h.ring
        blocked := h.blocked
        zombies := h.zombies
        reaped := hq.2
        nodup := h.nodup.sublist hsub
        lt := fun a ha => h.lt a (hsub.subset ha)
        kernel := h.kernel
        kernelPid := h.kernelPid
        ready := h.ready
        running := h.running
        sleeps := h.sleeps
        dead := fun a ha => h.dead a (by
          rcases List.mem_append.mp ha with ha | ha <;> simp [ha]) }
    have hd := (List.nodup_append'.mp h.nodup_rest).2.1
    have hpz : p ∉ z := fun hz =>
      (List.nodup_append'.mp hd).2.2 hz List.mem_cons_self
    have hpq : p ∉ q := (List.nodup_cons.mp (List.nodup_append'.mp hd).2.1).1
    refine ⟨⟨_, _, _, _, h'⟩, h.gone.mpr (by simp), fun a => ?_, fun a => ?_⟩
    · rw [h'.listed, h.listed]
    · rw [h'.gone, h.gone]
      constructor
      · rintro (ha | ha)
        · exact ⟨.inl ha, ne_of_mem_of_not_mem ha hpz⟩
        · exact ⟨.inr (List.mem_cons_of_mem _ ha), ne_of_mem_of_not_mem ha hpq⟩
      · simp only [List.mem_cons]
        tauto

end InOrder

lemma inOrder_processInit : InOrder processInit :=
  ⟨_, _, _, _, tracked_processInit.lists⟩

end

end GordOS.Kernel
