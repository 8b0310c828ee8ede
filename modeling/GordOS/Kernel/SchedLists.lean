/-
The lists of the scheduler.

The ready queue is a ring through the current process, the blocked list, the
zombie list and the reaper's list end with a null pointer, and no process is met
twice.

* `Linked s t b z q`: the pointers of `s` hold these lists, the ring being the
  current process followed by `t`;
* `Lists s t b z q`: moreover every process has the state of its list;
* `schedulerRemove_eq`: taking a process out of the ring;
* `Lists.add`, `Lists.wake`, `Lists.wakeWaiter`, `Lists.tick`,
  `Lists.blockSwitch`, `Lists.exitSwitch`, `Lists.markDead`: what each operation
  does to the lists.
-/
import Mathlib.Tactic
import GordOS.Kernel.Sched

namespace GordOS.Kernel

open GordOS

/-! ### What the operations leave alone -/

section Frame

variable (s : Sched) (a p : ℕ) (v : Option ℕ) (w : ProcState)

/-- The fields of the process structures that only the creation of a process
writes, the number of them, and the reaper's list. -/
structure SameProcs (s s' : Sched) : Prop where
  pid : s'.pid = s.pid
  parentPid : s'.parentPid = s.parentPid
  size : s'.size = s.size
  reapList : s'.reapList = s.reapList

lemma SameProcs.refl : SameProcs s s := ⟨rfl, rfl, rfl, rfl⟩

variable {s}

lemma SameProcs.trans {s' s'' : Sched} (h : SameProcs s s') (h' : SameProcs s' s'') :
    SameProcs s s'' :=
  ⟨h'.pid.trans h.pid, h'.parentPid.trans h.parentPid, h'.size.trans h.size,
    h'.reapList.trans h.reapList⟩

variable (s)

lemma sameProcs_schedulerAdd : SameProcs s (schedulerAdd s p) := by
  simp only [schedulerAdd]
  split <;> exact ⟨rfl, rfl, rfl, rfl⟩

lemma sameProcs_schedulerRemove : SameProcs s (schedulerRemove s p) := by
  unfold schedulerRemove
  split
  · exact .refl s
  · split
    · exact .refl s
    · split
      · exact .refl s
      · dsimp only
        split <;> exact ⟨rfl, rfl, rfl, rfl⟩

lemma sameProcs_schedulerWake : SameProcs s (schedulerWake s p) := by
  unfold schedulerWake
  split
  · exact .refl s
  · refine .trans ?_ (sameProcs_schedulerAdd _ p)
    unfold unlinkBlocked
    split
    · exact ⟨rfl, rfl, rfl, rfl⟩
    · split <;> exact ⟨rfl, rfl, rfl, rfl⟩

lemma sameProcs_schedulerWakeWaiter (c : ℕ) : SameProcs s (schedulerWakeWaiter s p c) := by
  unfold schedulerWakeWaiter
  split
  · exact sameProcs_schedulerWake s _
  · exact .refl s

lemma sameProcs_schedulerSwitch : SameProcs s (schedulerSwitch s) := by
  unfold schedulerSwitch
  split
  · exact .refl s
  · split
    · exact .refl s
    · dsimp only
      split
      · exact .refl s
      · split
        · obtain ⟨h₁, h₂, h₃, h₄⟩ := sameProcs_schedulerRemove _ s.current
          exact ⟨h₁, h₂, h₃, h₄⟩
        · obtain ⟨h₁, h₂, h₃, h₄⟩ := sameProcs_schedulerRemove _ s.current
          exact ⟨h₁, h₂, h₃, h₄⟩
        · exact ⟨rfl, rfl, rfl, rfl⟩

lemma sameProcs_blockSwitch (r : BlockReason) (t : ℕ) : SameProcs s (blockSwitch s r t) := by
  have hb : SameProcs s (schedulerBlock s r t) := ⟨rfl, rfl, rfl, rfl⟩
  exact hb.trans (sameProcs_schedulerSwitch _)

lemma sameProcs_markDead : SameProcs s (markDead s p) := by
  have hd : SameProcs s (s.setState p .dead) := ⟨rfl, rfl, rfl, rfl⟩
  unfold markDead
  split
  · exact hd
  · obtain ⟨h₁, h₂, h₃, h₄⟩ := hd.trans (sameProcs_schedulerRemove _ p)
    exact ⟨h₁, h₂, h₃, h₄⟩

lemma sameProcs_exitSwitch : SameProcs s (exitSwitch s) := by
  unfold exitSwitch
  split
  · exact .refl s
  · have hwake : SameProcs s (if s.parentPid s.current ≠ 0 then
        schedulerWakeWaiter s (s.parentPid s.current) (s.pid s.current) else s) := by
      split
      · exact sameProcs_schedulerWakeWaiter s _ _
      · exact .refl s
    obtain ⟨h₁, h₂, h₃, h₄⟩ := hwake
    have hd : SameProcs s (Sched.setState (if s.parentPid s.current ≠ 0 then
        schedulerWakeWaiter s (s.parentPid s.current) (s.pid s.current) else s)
        s.current .dead) := ⟨h₁, h₂, h₃, h₄⟩
    exact hd.trans (sameProcs_schedulerSwitch _)

lemma sameProcs_schedulerTick : SameProcs s (schedulerTick s) := by
  unfold schedulerTick
  split
  · exact .refl s
  · dsimp only
    split
    · obtain ⟨h₁, h₂, h₃, h₄⟩ := sameProcs_schedulerSwitch { s with tickCount := 0 }
      exact ⟨h₁, h₂, h₃, h₄⟩
    · exact ⟨rfl, rfl, rfl, rfl⟩

end Frame

/-! ### The lists -/

/-- The ring, the blocked list, the zombie list and the reaper's list, one behind
the other. -/
def allCells (s : Sched) (t b z q : List ℕ) : List ℕ :=
  (s.current :: t) ++ (b ++ (z ++ q))

/-- The pointers hold the ring of the current process followed by `t`, the
blocked list `b`, the zombie list `z` and the reaper's list `q`, and no process
is met twice. -/
structure Linked (s : Sched) (t b z q : List ℕ) : Prop where
  queue : s.readyQueue = some s.current
  ring : Links s.next (s.current :: t) (some s.current) (some s.current)
  blocked : Links s.next b s.blockedList none
  zombies : Links s.next z s.zombieList none
  reaped : Links s.next q s.reapList none
  nodup : (allCells s t b z q).Nodup
  lt : ∀ a ∈ allCells s t b z q, a < s.size
  kernel : 0 ∈ s.current :: t
  kernelPid : s.pid 0 = 0

/-- Moreover every process has the state of its list. -/
structure Lists (s : Sched) (t b z q : List ℕ) : Prop extends Linked s t b z q where
  ready : ∀ a ∈ t, s.state a = .ready
  running : s.state s.current = .running ∨
    s.current ≠ 0 ∧ s.state s.current = .dead
  sleeps : ∀ a, s.state a = .blocked ↔ a ∈ b
  dead : ∀ a ∈ z ++ q, s.state a = .dead

section

variable {s : Sched} {t b z q : List ℕ}

lemma notMem_allCells {a : ℕ} : a ∉ allCells s t b z q ↔
    a ∉ s.current :: t ∧ a ∉ b ∧ a ∉ z ∧ a ∉ q := by
  simp only [allCells, List.mem_append, not_or]

/-- A list without repetitions of numbers below a bound. -/
lemma length_le_of_nodup {l : List ℕ} {n : ℕ} (hl : l.Nodup) (h : ∀ a ∈ l, a < n) :
    l.length ≤ n := by
  simpa using (hl.subperm fun a ha => List.mem_range.mpr (h a ha)).length_le

lemma Linked.nodup_ring (h : Linked s t b z q) : (s.current :: t).Nodup :=
  (List.nodup_append'.mp h.nodup).1

lemma Linked.nodup_rest (h : Linked s t b z q) : (b ++ (z ++ q)).Nodup :=
  (List.nodup_append'.mp h.nodup).2.1

lemma Linked.length_ring (h : Linked s t b z q) : (s.current :: t).length ≤ s.size :=
  length_le_of_nodup h.nodup_ring fun a ha => h.lt a (List.mem_append_left _ ha)

/-- The loops over the ready queue visit the ring. -/
lemma ringCells_eq {h : ℕ} (hq : s.readyQueue = some h)
    (hr : Links s.next (h :: t) (some h) (some h)) (hn : (h :: t).Nodup) (hl : t.length ≤ s.size) :
    s.ringCells = h :: t := by
  have hw := hr.2.walk (fun x hx => ?_) hl
  · rw [Sched.ringCells, hq]
    exact congrArg (h :: ·) hw
  · rintro ⟨rfl⟩
    exact (List.nodup_cons.mp hn).1 hx

lemma Linked.ringCells (h : Linked s t b z q) : s.ringCells = s.current :: t := by
  have hl := h.length_ring
  rw [List.length_cons] at hl
  exact ringCells_eq h.queue h.ring h.nodup_ring (by omega)

/-- The loops over a list visit its cells. -/
lemma listCells_eq {l : List ℕ} {p : Option ℕ} (hl : Links s.next l p none)
    (hn : l.Nodup) (hlt : ∀ a ∈ l, a < s.size) : s.listCells p = l :=
  hl.walk (fun x _ => Option.some_ne_none x) (length_le_of_nodup hn hlt)

lemma Linked.mem_ring_lt (h : Linked s t b z q) {a : ℕ} (ha : a ∈ s.current :: t) :
    a < s.size := h.lt a (List.mem_append_left _ ha)

lemma Linked.blockedCells (h : Linked s t b z q) : s.blockedCells = b :=
  listCells_eq h.blocked (List.nodup_append'.mp h.nodup_rest).1 fun a ha =>
    h.lt a (List.mem_append_right _ (List.mem_append_left _ ha))

lemma Linked.zombieCells (h : Linked s t b z q) : s.zombieCells = z := by
  have hz := (List.nodup_append'.mp h.nodup_rest).2.1
  exact listCells_eq h.zombies (List.nodup_append'.mp hz).1 fun a ha =>
    h.lt a (List.mem_append_right _ (List.mem_append_right _ (List.mem_append_left _ ha)))

/-! ### Taking a process out of the ring -/

/-- `scheduler_remove` of a process behind the head of the ring: its predecessor
is linked to its successor. -/
lemma schedulerRemove_eq {h p : ℕ} {t₁ t₂ : List ℕ} (hq : s.readyQueue = some h)
    (hr : Links s.next (h :: t₁ ++ p :: t₂) (some h) (some h))
    (hn : (h :: t₁ ++ p :: t₂).Nodup) (hl : (t₁ ++ p :: t₂).length ≤ s.size) :
    ∃ x ∈ h :: t₁, schedulerRemove s p = (s.setNext x (s.next p)).setNext p none ∧
      Links (Function.update s.next x (s.next p)) (h :: t₁ ++ t₂) (some h) (some h) := by
  obtain ⟨l, x, hx⟩ : ∃ l x, h :: t₁ = l ++ [x] :=
    ⟨_, _, (List.dropLast_append_getLast (List.cons_ne_nil h t₁)).symm⟩
  have hcells : s.ringCells = l ++ [x] ++ p :: t₂ := by
    rw [← hx]
    exact ringCells_eq hq hr hn hl
  rw [hx] at hr hn
  have hfind := hr.find_pred hn (v := some h) fun a _ ha => .inr ha
  have hne : h ≠ p := by
    rintro rfl
    have : h ∈ l ++ [x] := hx ▸ List.mem_cons_self
    exact (List.nodup_append'.mp hn).2.2 this List.mem_cons_self
  have hxp : s.next x = some p := by
    obtain ⟨m, h₁, h₂⟩ := Links.append.mp hr
    rw [(Links.concat.mp h₁).2, h₂.1]
  refine ⟨x, by rw [hx]; simp, ?_, by rw [hx]; exact hr.unlink hn⟩
  simp only [schedulerRemove, hq, hcells, hfind, hxp, ne_eq, not_true_eq_false,
    if_false, if_neg hne]

/-! ### One step of the pointers -/

/-- A ring process is on no other list. -/
lemma Linked.ring_notMem (h : Linked s t b z q) {a : ℕ} (ha : a ∈ s.current :: t) :
    a ∉ b ∧ a ∉ z ∧ a ∉ q := by
  have hd := (List.nodup_append'.mp h.nodup).2.2 ha
  simpa [not_or] using hd

/-- Other lists with processes of the old ones. -/
lemma Linked.of_subperm (h : Linked s t b z q) {s' : Sched} {t' b' z' q' : List ℕ}
    (hp : (allCells s' t' b' z' q').Subperm (allCells s t b z q)) (hs : SameProcs s s')
    (queue : s'.readyQueue = some s'.current)
    (ring : Links s'.next (s'.current :: t') (some s'.current) (some s'.current))
    (blocked : Links s'.next b' s'.blockedList none) (zombies : Links s'.next z' s'.zombieList none)
    (reaped : Links s'.next q' s'.reapList none) (kernel : 0 ∈ s'.current :: t') :
    Linked s' t' b' z' q' where
  queue := queue
  ring := ring
  blocked := blocked
  zombies := zombies
  reaped := reaped
  nodup := by
    obtain ⟨l, hl, hsub⟩ := hp
    exact hl.nodup_iff.mp (h.nodup.sublist hsub)
  lt := fun a ha => hs.size ▸ h.lt a (hp.subset ha)
  kernel := kernel
  kernelPid := hs.pid ▸ h.kernelPid

/-- A change of the pointer of a process on no list. -/
lemma Linked.setNext (h : Linked s t b z q) {p : ℕ} (hp : p ∉ allCells s t b z q) (v : Option ℕ) :
    Linked (s.setNext p v) t b z q := by
  have hm := notMem_allCells.mp hp
  exact h.of_subperm (.refl _) ⟨rfl, rfl, rfl, rfl⟩ h.queue (h.ring.update hm.1 v)
    (h.blocked.update hm.2.1 v) (h.zombies.update hm.2.2.1 v)
    (h.reaped.update hm.2.2.2 v) h.kernel

/-- A change of states, reasons and targets. -/
lemma Linked.congr (h : Linked s t b z q) {s' : Sched} (hs : SameProcs s s')
    (next : s'.next = s.next) (queue : s'.readyQueue = s.readyQueue)
    (blocked : s'.blockedList = s.blockedList)
    (zombies : s'.zombieList = s.zombieList) (current : s'.current = s.current) :
    Linked s' t b z q := by
  refine h.of_subperm ?_ hs ?_ ?_ ?_ ?_ ?_ ?_
  · rw [allCells, current, allCells]
  · rw [queue, current, h.queue]
  · rw [next, current]
    exact h.ring
  · rw [next, blocked]
    exact h.blocked
  · rw [next, zombies]
    exact h.zombies
  · rw [next, hs.reapList]
    exact h.reaped
  · rw [current]
    exact h.kernel

lemma schedulerAdd_eq {h : ℕ} (hq : s.readyQueue = some h) (p : ℕ) : schedulerAdd s p =
      ((s.setState p .ready).setNext p (s.next h)).setNext h (some p) := by
  simp [schedulerAdd, Sched.setState, hq]

/-- A process on no list is added behind the head of the ring. -/
lemma Linked.add (h : Linked s t b z q) {p : ℕ} (hp : p ∉ allCells s t b z q) (hlt : p < s.size) :
    Linked (schedulerAdd s p) (p :: t) b z q := by
  have hm := notMem_allCells.mp hp
  have hc := h.ring_notMem List.mem_cons_self
  have hct : s.current ∉ t := (List.nodup_cons.mp h.nodup_ring).1
  have hpt : p ∉ t := fun hx => hm.1 (List.mem_cons_of_mem _ hx)
  have hpc : p ≠ s.current := fun e => hm.1 (e ▸ List.mem_cons_self)
  -- both changed cells are outside the other lists
  have hother : ∀ {l : List ℕ} {x y : Option ℕ}, Links s.next l x y → p ∉ l →
      s.current ∉ l → Links (schedulerAdd s p).next l x y := by
    intro l x y hl h₁ h₂
    rw [schedulerAdd_eq h.queue]
    exact (hl.update h₁ _).update h₂ _
  have hperm : (allCells (schedulerAdd s p) (p :: t) b z q).Perm (p :: allCells s t b z q) := by
    rw [schedulerAdd_eq h.queue]
    exact List.Perm.swap p s.current _
  have hsame := sameProcs_schedulerAdd s p
  have hadd := schedulerAdd_eq h.queue p
  exact {
    queue := by rw [hadd]; exact h.queue
    ring := by
      have ht := hother h.ring.2 hpt hct
      rw [hadd] at ht ⊢
      refine ⟨rfl, Function.update_self _ _ _, ?_⟩
      simpa [Sched.setNext, Sched.setState, Function.update_of_ne hpc] using ht
    blocked := by
      have hb := hother h.blocked hm.2.1 hc.1
      rw [hadd] at hb ⊢
      exact hb
    zombies := by
      have hz := hother h.zombies hm.2.2.1 hc.2.1
      rw [hadd] at hz ⊢
      exact hz
    reaped := by
      have hr := hother h.reaped hm.2.2.2 hc.2.2
      rw [hadd] at hr ⊢
      exact hr
    nodup := hperm.nodup_iff.mpr (List.nodup_cons.mpr ⟨hp, h.nodup⟩)
    lt := fun a ha => by
      rw [hsame.size]
      rcases List.mem_cons.mp (hperm.mem_iff.mp ha) with rfl | ha
      · exact hlt
      · exact h.lt a ha
    kernel := by
      rw [hadd]
      rcases List.mem_cons.mp h.kernel with h0 | h0
      · exact List.mem_cons.mpr (.inl h0)
      · exact List.mem_cons_of_mem _ (List.mem_cons_of_mem _ h0)
    kernelPid := by rw [hsame.pid]; exact h.kernelPid }

lemma unlinkBlocked_eq (s : Sched) (p : ℕ) :
    ∃ v l, unlinkBlocked s p = { s with next := v, blockedList := l } := by
  unfold unlinkBlocked
  split
  · exact ⟨_, _, rfl⟩
  · split <;> exact ⟨_, _, rfl⟩

/-- A blocked process is taken out of the blocked list. -/
lemma Linked.unlinkBlocked {b₁ b₂ : List ℕ} {p : ℕ} (h : Linked s t (b₁ ++ p :: b₂) z q) :
    Linked (unlinkBlocked s p) t (b₁ ++ b₂) z q := by
  have hbn := (List.nodup_append'.mp h.nodup_rest).1
  have hsub : (allCells s t (b₁ ++ b₂) z q).Subperm (allCells s t (b₁ ++ p :: b₂) z q) :=
    List.Sublist.subperm (((List.sublist_cons_self p b₂).append_left b₁
      |>.append_right (z ++ q)).append_left (s.current :: t))
  rcases List.eq_nil_or_concat b₁ with rfl | ⟨l, x, rfl⟩
  · -- the head of the blocked list
    obtain ⟨hb, hb₂⟩ := h.blocked
    have heq : Kernel.unlinkBlocked s p = { s with blockedList := s.next p } := by
      rw [Kernel.unlinkBlocked, if_pos hb]
    rw [heq]
    exact h.of_subperm hsub ⟨rfl, rfl, rfl, rfl⟩ h.queue h.ring hb₂ h.zombies h.reaped h.kernel
  · rw [List.concat_eq_append] at *
    have hxp : s.next x = some p := by
      obtain ⟨m, h₁, h₂⟩ := Links.append.mp h.blocked
      rw [(Links.concat.mp h₁).2, h₂.1]
    have hx : x ∈ l ++ [x] ++ p :: b₂ := by simp
    have hring : ∀ a ∈ s.current :: t, a ≠ x := fun a ha e =>
      (h.ring_notMem ha).1 (e ▸ hx)
    have hzq : ∀ a ∈ z ++ q, a ≠ x := fun a ha e =>
      (List.nodup_append'.mp h.nodup_rest).2.2 hx (e ▸ ha)
    have hhead : s.blockedList ≠ some p := by
      intro e
      have hb := h.blocked
      rw [e] at hb
      cases l with
      | nil => exact absurd (Option.some.inj hb.1) (by rintro rfl; simp at hbn)
      | cons y l => exact absurd (Option.some.inj hb.1) (by rintro rfl; simp at hbn)
    have hfind : s.blockedCells.find? (fun a => decide (s.next a = some p)) = some x := by
      have hf := h.blocked.find_pred hbn (v := some p) fun a _ e =>
        .inl (Option.some.inj e).symm
      rw [h.blockedCells]
      simpa only [or_self] using hf
    have heq : Kernel.unlinkBlocked s p = s.setNext x (s.next p) := by
      rw [Kernel.unlinkBlocked, if_neg hhead, hfind]
    rw [heq]
    exact h.of_subperm hsub ⟨rfl, rfl, rfl, rfl⟩ h.queue
      (h.ring.update (fun hm => hring x hm rfl) _) (h.blocked.unlink hbn)
      (h.zombies.update (fun hm => hzq x (List.mem_append_left _ hm) rfl) _)
      (h.reaped.update (fun hm => hzq x (List.mem_append_right _ hm) rfl) _) h.kernel

/-- The ring moves on by one process. -/
lemma Linked.rotate {n : ℕ} (h : Linked s (n :: t) b z q) :
    Linked { s with current := n, readyQueue := some n } (t ++ [s.current]) b z q := by
  have hperm : ((n :: (t ++ [s.current])) ++ (b ++ (z ++ q))).Perm
      ((s.current :: n :: t) ++ (b ++ (z ++ q))) :=
    (List.perm_append_singleton s.current (n :: t)).append_right _
  refine h.of_subperm hperm.subperm ⟨rfl, rfl, rfl, rfl⟩ rfl ?_ h.blocked h.zombies h.reaped ?_
  · obtain ⟨-, hn, ht⟩ := h.ring
    exact ⟨rfl, Links.concat.mpr ⟨ht, hn⟩⟩
  · exact (List.perm_append_singleton s.current (n :: t)).mem_iff.mpr h.kernel

/-- A process behind the head leaves the ring, and is on no list then. -/
lemma Linked.remove {p : ℕ} {t₁ t₂ : List ℕ} (h : Linked s (t₁ ++ p :: t₂) b z q) (h0 : p ≠ 0) :
    Linked (schedulerRemove s p) (t₁ ++ t₂) b z q ∧
      p ∉ allCells (schedulerRemove s p) (t₁ ++ t₂) b z q ∧
      ∃ v, schedulerRemove s p = { s with next := v } := by
  have hl := h.length_ring
  rw [List.length_cons] at hl
  obtain ⟨x, hx, heq, hring⟩ := schedulerRemove_eq h.queue (h.ring : Links _ (_ :: t₁ ++ p :: t₂) _ _)
    h.nodup_ring (by omega)
  have hperm : (s.current :: t₁ ++ p :: t₂).Perm (p :: (s.current :: t₁ ++ t₂)) :=
    List.perm_middle
  have hp : p ∈ s.current :: (t₁ ++ p :: t₂) := by simp
  have hxm : x ∈ s.current :: (t₁ ++ p :: t₂) := by
    rcases List.mem_cons.mp hx with rfl | hx
    · exact List.mem_cons_self
    · exact List.mem_cons_of_mem _ (List.mem_append_left _ hx)
  have hpn : p ∉ s.current :: (t₁ ++ t₂) := by
    exact (List.nodup_cons.mp (hperm.nodup_iff.mp h.nodup_ring)).1
  have hsub : (allCells s (t₁ ++ t₂) b z q).Subperm (allCells s (t₁ ++ p :: t₂) b z q) :=
    ((((List.sublist_cons_self p t₂).append_left t₁).cons_cons _).append_right _).subperm
  have hnot : p ∉ allCells s (t₁ ++ t₂) b z q := by
    have := h.ring_notMem hp
    exact notMem_allCells.mpr ⟨hpn, this⟩
  rw [heq]
  refine ⟨Linked.setNext (s := s.setNext x (s.next p)) ?_ hnot none, hnot, _, rfl⟩
  have hxo := h.ring_notMem hxm
  refine h.of_subperm hsub ⟨rfl, rfl, rfl, rfl⟩ h.queue hring (h.blocked.update hxo.1 _)
    (h.zombies.update hxo.2.1 _) (h.reaped.update hxo.2.2 _) ?_
  have hk := hperm.mem_iff.mp h.kernel
  exact (List.mem_cons.mp hk).resolve_left (Ne.symm h0)

/-- A process on no list becomes a zombie. -/
lemma Linked.zombieAdd (h : Linked s t b z q) {p : ℕ} (hp : p ∉ allCells s t b z q)
    (hlt : p < s.size) : Linked (processZombieAdd s p) t b (p :: z) q := by
  have hperm : (allCells s t b (p :: z) q).Perm (p :: allCells s t b z q) :=
    (List.perm_middle.append_left (s.current :: t)).trans List.perm_middle
  have h' := h.setNext hp s.zombieList
  exact { h' with
    zombies := ⟨rfl, by
      simpa [processZombieAdd, Sched.setNext] using h'.zombies⟩
    nodup := hperm.nodup_iff.mpr (List.nodup_cons.mpr ⟨hp, h.nodup⟩)
    lt := fun a ha => (List.mem_cons.mp (hperm.mem_iff.mp ha)).elim (· ▸ hlt) (h.lt a) }

/-- A process on no list goes to sleep. -/
lemma Linked.blockedAdd (h : Linked s t b z q) {p : ℕ} (hp : p ∉ allCells s t b z q)
    (hlt : p < s.size) :
    Linked { s.setNext p s.blockedList with blockedList := some p } t (p :: b) z q := by
  have hperm : (allCells s t (p :: b) z q).Perm (p :: allCells s t b z q) :=
    List.perm_middle
  have h' := h.setNext hp s.blockedList
  exact { h' with
    blocked := ⟨rfl, by simpa [Sched.setNext] using h'.blocked⟩
    nodup := hperm.nodup_iff.mpr (List.nodup_cons.mpr ⟨hp, h.nodup⟩)
    lt := fun a ha => (List.mem_cons.mp (hperm.mem_iff.mp ha)).elim (· ▸ hlt) (h.lt a) }

/-! ### The operations -/

/-- What an operation of the scheduler does to the current process and to the
fields `state`, `block_reason` and `wait_target`. -/
structure Turn (s s' : Sched) (current : ℕ) (state : ℕ → ProcState)
    (blockReason : ℕ → BlockReason) (waitTarget : ℕ → ℕ) : Prop
    extends SameProcs s s' where
  current : s'.current = current
  state : s'.state = state
  blockReason : s'.blockReason = blockReason
  waitTarget : s'.waitTarget = waitTarget

/-- A new process is added behind the head of the ring. -/
lemma Lists.add (h : Lists s t b z q) {p : ℕ} (hp : p ∉ allCells s t b z q) (hlt : p < s.size) :
    Lists (schedulerAdd s p) (p :: t) b z q ∧
      Turn s (schedulerAdd s p) s.current (Function.update s.state p .ready)
        s.blockReason s.waitTarget := by
  have hm := notMem_allCells.mp hp
  have hpc : s.current ≠ p := fun e => hm.1 (e ▸ List.mem_cons_self)
  have hadd := schedulerAdd_eq h.queue p
  have hturn : Turn s (schedulerAdd s p) s.current (Function.update s.state p .ready)
      s.blockReason s.waitTarget := by
    rw [hadd]
    exact ⟨⟨rfl, rfl, rfl, rfl⟩, rfl, rfl, rfl, rfl⟩
  have hne : ∀ {l : List ℕ} {a : ℕ}, a ∈ l → p ∉ l → (schedulerAdd s p).state a = s.state a :=
    fun ha hl => by
      rw [hturn.state, Function.update_of_ne (ne_of_mem_of_not_mem ha hl)]
  refine ⟨{ h.toLinked.add hp hlt with
    ready := fun a ha => ?_, running := ?_, sleeps := fun a => ?_, dead := fun a ha => ?_ },
    hturn⟩
  · rcases List.mem_cons.mp ha with rfl | ha
    · rw [hturn.state, Function.update_self]
    · rw [hne (List.mem_cons_of_mem _ ha) hm.1, h.ready a ha]
  · rw [hturn.current, hturn.state, Function.update_of_ne hpc]
    exact h.running
  · by_cases ha : a = p
    · subst ha
      rw [hturn.state, Function.update_self]
      exact ⟨fun e => absurd e (by decide), fun hb => absurd hb hm.2.1⟩
    · rw [hturn.state, Function.update_of_ne ha]
      exact h.sleeps a
  · rw [hne ha (by simpa [not_or] using hm.2.2), h.dead a ha]

/-- A sleeping process is woken. -/
lemma Lists.wake {b₁ b₂ : List ℕ} {p : ℕ} (h : Lists s t (b₁ ++ p :: b₂) z q) :
    Lists (schedulerWake s p) (p :: t) (b₁ ++ b₂) z q ∧
      Turn s (schedulerWake s p) s.current (Function.update s.state p .ready)
        (Function.update s.blockReason p .none) s.waitTarget := by
  have hst : s.state p = .blocked := (h.sleeps p).mpr (by simp)
  have hperm : (allCells s t (b₁ ++ p :: b₂) z q).Perm (p :: allCells s t (b₁ ++ b₂) z q) :=
    ((List.perm_middle.append_right _).append_left _).trans List.perm_middle
  have hnot : p ∉ allCells s t (b₁ ++ b₂) z q :=
    (List.nodup_cons.mp (hperm.nodup_iff.mp h.nodup)).1
  have hm := notMem_allCells.mp hnot
  have hne : ∀ {l : List ℕ} {a : ℕ}, a ∈ l → p ∉ l →
      Function.update s.state p .ready a = s.state a :=
    fun ha hl => Function.update_of_ne (ne_of_mem_of_not_mem ha hl) _ _
  obtain ⟨v, l, heq⟩ := unlinkBlocked_eq s p
  have hlink := h.toLinked.unlinkBlocked
  rw [heq] at hlink
  -- the process between the two lists
  obtain ⟨s₁, hs₁⟩ : ∃ s₁ : Sched, s₁ = { s with
      next := Function.update v p none
      blockedList := l
      state := Function.update s.state p .ready
      blockReason := Function.update s.blockReason p .none } := ⟨_, rfl⟩
  have hwake : schedulerWake s p = schedulerAdd s₁ p := by
    simp [schedulerWake, hst, heq, hs₁, schedulerAdd, Sched.setNext, Sched.setState]
  have h₁ : Lists s₁ t (b₁ ++ b₂) z q := by
    rw [hs₁]
    refine { (hlink.setNext hnot none).congr ⟨rfl, rfl, rfl, rfl⟩ rfl rfl rfl rfl rfl with
      ready := fun a ha => ?_, running := ?_, sleeps := fun a => ?_, dead := fun a ha => ?_ }
    · exact (hne (List.mem_cons_of_mem _ ha) hm.1).trans (h.ready a ha)
    · have hcur := hne List.mem_cons_self hm.1
      simpa only [hcur] using h.running
    · by_cases ha : a = p
      · subst ha
        simpa using hm.2.1
      · have := h.sleeps a
        simpa [Function.update_of_ne ha, ha] using this
    · exact (hne ha (by simpa [not_or] using hm.2.2)).trans (h.dead a ha)
  obtain ⟨hl, ht⟩ := h₁.add (p := p) (by rw [hs₁]; exact hnot) (by
    rw [hs₁]
    exact h.lt p (by simp [allCells]))
  rw [hwake]
  rw [hs₁] at ht ⊢
  exact ⟨by rwa [hs₁] at hl, ⟨ht.pid, ht.parentPid, ht.size, ht.reapList⟩, ht.current,
    by rw [ht.state, Function.update_idem], ht.blockReason, ht.waitTarget⟩

/-- A process that does not sleep is not woken. -/
lemma schedulerWake_of_ne {p : ℕ} (hp : s.state p ≠ .blocked) : schedulerWake s p = s := by
  rw [schedulerWake, if_pos hp]

/-- The switch with a single process in the ring does nothing. -/
lemma Lists.switch_nil (h : Lists s [] b z q) : schedulerSwitch s = s := by
  have hn : s.next s.current = some s.current := h.ring.2
  simp [schedulerSwitch, h.queue, hn]

/-- The state of the switch before the old process is taken care of. -/
def Sched.advance (s : Sched) (n : ℕ) : Sched :=
  { s with
    current := n
    readyQueue := some n
    state := Function.update s.state n .running }

lemma Linked.advance {n : ℕ} (h : Linked s (n :: t) b z q) :
    Linked (s.advance n) (t ++ [s.current]) b z q :=
  h.rotate.congr ⟨rfl, rfl, rfl, rfl⟩ rfl rfl rfl rfl rfl

lemma schedulerSwitch_cons {n : ℕ} (h : Linked s (n :: t) b z q) : schedulerSwitch s =
      match s.state s.current with
      | .dead => processZombieAdd (schedulerRemove (s.advance n) s.current) s.current
      | .blocked =>
        { (schedulerRemove (s.advance n) s.current).setNext s.current
            (schedulerRemove (s.advance n) s.current).blockedList with
          blockedList := some s.current }
      | _ => (s.advance n).setState s.current .ready := by
  have hn : s.next s.current = some n := h.ring.2.1
  have hne : n ≠ s.current := fun e => by
    have := h.nodup_ring
    simp [e] at this
  simp only [schedulerSwitch, h.queue, hn, if_neg hne, Sched.setState,
    Function.update_of_ne (Ne.symm hne)]
  rfl

/-- A running process goes to the end of the ring. -/
lemma Linked.switch_running {n : ℕ} (h : Linked s (n :: t) b z q)
    (hst : s.state s.current = .running) :
    Linked (schedulerSwitch s) (t ++ [s.current]) b z q ∧ Turn s (schedulerSwitch s) n
        (Function.update (Function.update s.state n .running) s.current .ready)
        s.blockReason s.waitTarget := by
  have heq : schedulerSwitch s = (s.advance n).setState s.current .ready := by
    rw [schedulerSwitch_cons h, hst]
  rw [heq]
  exact ⟨h.advance.congr ⟨rfl, rfl, rfl, rfl⟩ rfl rfl rfl rfl rfl,
    ⟨rfl, rfl, rfl, rfl⟩, rfl, rfl, rfl, rfl⟩

/-- A dead process is handed to the reaper. -/
lemma Linked.switch_dead {n : ℕ} (h : Linked s (n :: t) b z q) (h0 : s.current ≠ 0)
    (hst : s.state s.current = .dead) :
    Linked (schedulerSwitch s) t b (s.current :: z) q ∧
      Turn s (schedulerSwitch s) n (Function.update s.state n .running)
        s.blockReason s.waitTarget := by
  have hadv : Linked (s.advance n) (t ++ s.current :: []) b z q := h.advance
  obtain ⟨hlink, hnot, v, heq⟩ := hadv.remove h0
  rw [List.append_nil] at hlink hnot
  have hsw : schedulerSwitch s =
      processZombieAdd (schedulerRemove (s.advance n) s.current) s.current := by
    rw [schedulerSwitch_cons h, hst]
  have hlt := h.mem_ring_lt List.mem_cons_self
  rw [hsw]
  rw [heq] at hlink hnot ⊢
  exact ⟨hlink.zombieAdd hnot hlt, ⟨rfl, rfl, rfl, rfl⟩, rfl, rfl, rfl, rfl⟩

/-- A process marked as blocked goes to the blocked list. -/
lemma Linked.switch_blocked {n : ℕ} (h : Linked s (n :: t) b z q) (h0 : s.current ≠ 0)
    (hst : s.state s.current = .blocked) :
    Linked (schedulerSwitch s) t (s.current :: b) z q ∧
      Turn s (schedulerSwitch s) n (Function.update s.state n .running)
        s.blockReason s.waitTarget := by
  have hadv : Linked (s.advance n) (t ++ s.current :: []) b z q := h.advance
  obtain ⟨hlink, hnot, v, heq⟩ := hadv.remove h0
  rw [List.append_nil] at hlink hnot
  have hsw := schedulerSwitch_cons h
  simp only [hst] at hsw
  have hlt := h.mem_ring_lt List.mem_cons_self
  rw [hsw]
  rw [heq] at hlink hnot ⊢
  exact ⟨hlink.blockedAdd hnot hlt, ⟨rfl, rfl, rfl, rfl⟩, rfl, rfl, rfl, rfl⟩

/-- A process other than the kernel task leaves another one to run. -/
lemma Linked.exists_cons (h : Linked s t b z q) (h0 : s.current ≠ 0) : ∃ n t', t = n :: t' := by
  cases t with
  | nil => exact absurd (List.mem_singleton.mp h.kernel).symm h0
  | cons n t => exact ⟨n, t, rfl⟩

/-- The first two processes of the ring, and where they are not. -/
lemma Linked.head_facts {n : ℕ} (h : Linked s (n :: t) b z q) :
    (n ≠ s.current ∧ n ∉ t ∧ s.current ∉ t) ∧ (n ∉ b ∧ n ∉ z ++ q) ∧
      s.current ∉ b ∧ s.current ∉ z ++ q := by
  have hnd := h.nodup_ring
  have hn := h.ring_notMem (List.mem_cons_of_mem s.current List.mem_cons_self)
  have hc := h.ring_notMem List.mem_cons_self
  simp only [List.nodup_cons, List.mem_cons, not_or] at hnd
  refine ⟨⟨Ne.symm hnd.1.1, hnd.2.1, hnd.1.2⟩, ⟨hn.1, ?_⟩, hc.1, ?_⟩
  · simpa [not_or] using hn.2
  · simpa [not_or] using hc.2

/-- The switch away from a running process. -/
lemma Lists.switch_running {n : ℕ} (h : Lists s (n :: t) b z q)
    (hst : s.state s.current = .running) :
    Lists (schedulerSwitch s) (t ++ [s.current]) b z q := by
  obtain ⟨hlink, hturn⟩ := h.toLinked.switch_running hst
  obtain ⟨⟨hnc, hnt, hct⟩, ⟨hnb, hnz⟩, hcb, hcz⟩ := h.head_facts
  refine { hlink with
    ready := fun a ha => ?_, running := .inl ?_, sleeps := fun a => ?_,
    dead := fun a ha => ?_ }
  · rw [hturn.state]
    rcases List.mem_append.mp ha with ha | ha
    · rw [Function.update_of_ne (ne_of_mem_of_not_mem ha hct),
        Function.update_of_ne (ne_of_mem_of_not_mem ha hnt)]
      exact h.ready a (List.mem_cons_of_mem _ ha)
    · rw [List.mem_singleton.mp ha, Function.update_self]
  · rw [hturn.current, hturn.state, Function.update_of_ne hnc, Function.update_self]
  · rw [hturn.state]
    by_cases h₁ : a = s.current
    · simpa [h₁] using hcb
    · by_cases h₂ : a = n
      · simpa [h₂, hnc] using hnb
      · rw [Function.update_of_ne h₁, Function.update_of_ne h₂]
        exact h.sleeps a
  · rw [hturn.state, Function.update_of_ne (ne_of_mem_of_not_mem ha hcz),
      Function.update_of_ne (ne_of_mem_of_not_mem ha hnz)]
    exact h.dead a ha

/-- The switch away from a dead process. -/
lemma Lists.switch_dead {n : ℕ} (h : Lists s (n :: t) b z q) (h0 : s.current ≠ 0)
    (hst : s.state s.current = .dead) :
    Lists (schedulerSwitch s) t b (s.current :: z) q := by
  obtain ⟨hlink, hturn⟩ := h.toLinked.switch_dead h0 hst
  obtain ⟨⟨hnc, hnt, hct⟩, ⟨hnb, hnz⟩, -, -⟩ := h.head_facts
  refine { hlink with
    ready := fun a ha => ?_, running := .inl ?_, sleeps := fun a => ?_,
    dead := fun a ha => ?_ }
  · rw [hturn.state, Function.update_of_ne (ne_of_mem_of_not_mem ha hnt)]
    exact h.ready a (List.mem_cons_of_mem _ ha)
  · rw [hturn.current, hturn.state, Function.update_self]
  · rw [hturn.state]
    by_cases h₂ : a = n
    · simpa [h₂] using hnb
    · rw [Function.update_of_ne h₂]
      exact h.sleeps a
  · rw [hturn.state]
    rcases List.mem_cons.mp ha with rfl | ha
    · rw [Function.update_of_ne (Ne.symm hnc)]
      exact hst
    · rw [Function.update_of_ne (ne_of_mem_of_not_mem ha hnz)]
      exact h.dead a ha

/-- The current process goes to sleep. -/
lemma Lists.blockSwitch {n : ℕ} (h : Lists s (n :: t) b z q) (h0 : s.current ≠ 0)
    (r : BlockReason) (w : ℕ) :
    Lists (blockSwitch s r w) t (s.current :: b) z q ∧ Turn s (Kernel.blockSwitch s r w) n
        (Function.update (Function.update s.state s.current .blocked) n .running)
        (Function.update s.blockReason s.current r)
        (Function.update s.waitTarget s.current w) := by
  have h₀ : Linked (schedulerBlock s r w) (n :: t) b z q :=
    h.toLinked.congr ⟨rfl, rfl, rfl, rfl⟩ rfl rfl rfl rfl rfl
  obtain ⟨hlink, ht⟩ := h₀.switch_blocked h0 (Function.update_self _ _ _)
  have hturn : Turn s (Kernel.blockSwitch s r w) n
      (Function.update (Function.update s.state s.current .blocked) n .running)
      (Function.update s.blockReason s.current r)
      (Function.update s.waitTarget s.current w) :=
    ⟨⟨ht.pid, ht.parentPid, ht.size, ht.reapList⟩, ht.current, ht.state,
      ht.blockReason, ht.waitTarget⟩
  obtain ⟨⟨hnc, hnt, hct⟩, ⟨hnb, hnz⟩, hcb, hcz⟩ := h.head_facts
  refine ⟨{ hlink with
    ready := fun a ha => ?_, running := .inl ?_, sleeps := fun a => ?_,
    dead := fun a ha => ?_ }, hturn⟩
  · rw [hturn.state, Function.update_of_ne (ne_of_mem_of_not_mem ha hnt),
      Function.update_of_ne (ne_of_mem_of_not_mem ha hct)]
    exact h.ready a (List.mem_cons_of_mem _ ha)
  · rw [hturn.current, hturn.state, Function.update_self]
  · rw [hturn.state]
    by_cases h₂ : a = n
    · simpa [h₂, hnc] using hnb
    · rw [Function.update_of_ne h₂]
      by_cases h₁ : a = s.current
      · simp [h₁]
      · rw [Function.update_of_ne h₁, h.sleeps a]
        simp [h₁]
  · rw [hturn.state, Function.update_of_ne (ne_of_mem_of_not_mem ha hnz),
      Function.update_of_ne (ne_of_mem_of_not_mem ha hcz)]
    exact h.dead a ha

/-- The current process is marked as dead. -/
lemma Lists.setDead (h : Lists s t b z q) (h0 : s.current ≠ 0) :
    Lists (s.setState s.current .dead) t b z q := by
  have hct : s.current ∉ t := (List.nodup_cons.mp h.nodup_ring).1
  have hc := h.ring_notMem List.mem_cons_self
  refine { h.toLinked.congr ⟨rfl, rfl, rfl, rfl⟩ rfl rfl rfl rfl rfl with
    ready := fun a ha => ?_, running := .inr ⟨h0, Function.update_self _ _ _⟩,
    sleeps := fun a => ?_, dead := fun a ha => ?_ }
  · exact (Function.update_of_ne (ne_of_mem_of_not_mem ha hct) _ _).trans (h.ready a ha)
  · by_cases h₁ : a = s.current
    · simpa [Sched.setState, h₁] using hc.1
    · simpa [Sched.setState, h₁] using h.sleeps a
  · have hcz : s.current ∉ z ++ q := by simpa [not_or] using hc.2
    exact (Function.update_of_ne (ne_of_mem_of_not_mem ha hcz) _ _).trans (h.dead a ha)

/-- The current process dies. -/
lemma Lists.die {n : ℕ} (h : Lists s (n :: t) b z q) (h0 : s.current ≠ 0) :
    Lists (schedulerSwitch (s.setState s.current .dead)) t b (s.current :: z) q ∧
      Turn s (schedulerSwitch (s.setState s.current .dead)) n
        (Function.update (Function.update s.state s.current .dead) n .running)
        s.blockReason s.waitTarget := by
  have hd := h.setDead h0
  have hst : (s.setState s.current .dead).state s.current = .dead :=
    Function.update_self _ _ _
  obtain ⟨-, ht⟩ := hd.toLinked.switch_dead h0 hst
  exact ⟨hd.switch_dead h0 hst, ⟨ht.pid, ht.parentPid, ht.size, ht.reapList⟩, ht.current,
    ht.state, ht.blockReason, ht.waitTarget⟩

/-- A killed process other than the current one is handed to the reaper. -/
lemma Lists.markDead {p : ℕ} {t₁ t₂ : List ℕ} (h : Lists s (t₁ ++ p :: t₂) b z q) (h0 : p ≠ 0) :
    Lists (markDead s p) (t₁ ++ t₂) b (p :: z) q ∧
      Turn s (Kernel.markDead s p) s.current (Function.update s.state p .dead)
        s.blockReason s.waitTarget := by
  have hp : p ∈ s.current :: (t₁ ++ p :: t₂) := by simp
  have hpc : p ≠ s.current := by
    rintro e
    have := h.nodup_ring
    simp [e] at this
  have h₁ : Linked (s.setState p .dead) (t₁ ++ p :: t₂) b z q :=
    h.toLinked.congr ⟨rfl, rfl, rfl, rfl⟩ rfl rfl rfl rfl rfl
  obtain ⟨hlink, hnot, v, heq⟩ := h₁.remove h0
  have hlt := h.mem_ring_lt hp
  have hz := hlink.zombieAdd hnot (by rw [heq]; exact hlt)
  have hkill : Kernel.markDead s p =
      processZombieAdd (schedulerRemove (s.setState p .dead) p) p := by
    rw [Kernel.markDead, if_neg hpc]
  have hturn : Turn s (Kernel.markDead s p) s.current (Function.update s.state p .dead)
      s.blockReason s.waitTarget := by
    rw [hkill, heq]
    exact ⟨⟨rfl, rfl, rfl, rfl⟩, rfl, rfl, rfl, rfl⟩
  have hm := notMem_allCells.mp hnot
  rw [heq] at hm
  rw [← hkill] at hz
  refine ⟨{ hz with
    ready := fun a ha => ?_, running := ?_, sleeps := fun a => ?_, dead := fun a ha => ?_ },
    hturn⟩
  · have hpt : p ∉ t₁ ++ t₂ := fun hx => hm.1 (List.mem_cons_of_mem _ hx)
    have hat : a ∈ t₁ ++ p :: t₂ := by
      rcases List.mem_append.mp ha with ha | ha <;> simp [ha]
    rw [hturn.state, Function.update_of_ne (ne_of_mem_of_not_mem ha hpt)]
    exact h.ready a hat
  · rw [hturn.state, hturn.current, Function.update_of_ne (Ne.symm hpc)]
    exact h.running
  · rw [hturn.state]
    by_cases ha : a = p
    · simpa [ha] using hm.2.1
    · rw [Function.update_of_ne ha]
      exact h.sleeps a
  · rw [hturn.state]
    rcases List.mem_cons.mp ha with rfl | ha
    · exact Function.update_self _ _ _
    · have hpz : p ∉ z ++ q := by simpa [not_or] using hm.2.2
      rw [Function.update_of_ne (ne_of_mem_of_not_mem ha hpz)]
      exact h.dead a ha

/-- The outcomes of a timer tick: the time slice goes on, the running process
goes to the end of the ring, or a killed one is handed to the reaper. -/
lemma Lists.tick (h : Lists s t b z q) :
    (Lists (schedulerTick s) t b z q ∧ s.state s.current = .running ∧
      Turn s (schedulerTick s) s.current s.state s.blockReason s.waitTarget) ∨
    (∃ n t', t = n :: t' ∧ s.state s.current = .running ∧
      Lists (schedulerTick s) (t' ++ [s.current]) b z q ∧
      Turn s (schedulerTick s) n
        (Function.update (Function.update s.state n .running) s.current .ready)
        s.blockReason s.waitTarget) ∨
    (∃ n t', t = n :: t' ∧ s.state s.current = .dead ∧ s.current ≠ 0 ∧
      Lists (schedulerTick s) t' b (s.current :: z) q ∧
      Turn s (schedulerTick s) n (Function.update s.state n .running)
        s.blockReason s.waitTarget) := by
  have hcount : ∀ c, Lists { s with tickCount := c } t b z q := fun c =>
    { h.toLinked.congr ⟨rfl, rfl, rfl, rfl⟩ rfl rfl rfl rfl rfl with
      ready := h.ready, running := h.running, sleeps := h.sleeps, dead := h.dead }
  by_cases hsw : timeslice ≤ (s.tickCount + 1) % 2 ^ 32 ∨ s.state s.current = .dead
  · have heq : schedulerTick s = schedulerSwitch { s with tickCount := 0 } := by
      simp only [schedulerTick, h.queue, if_pos hsw]
    rw [heq]
    rcases h.running with hst | ⟨h0, hst⟩
    · cases t with
      | nil =>
        rw [(hcount 0).switch_nil]
        exact .inl ⟨hcount 0, hst, ⟨rfl, rfl, rfl, rfl⟩, rfl, rfl, rfl, rfl⟩
      | cons n t =>
        obtain ⟨-, ht⟩ := (hcount 0).toLinked.switch_running hst
        exact .inr (.inl ⟨n, t, rfl, hst, (hcount 0).switch_running hst,
          ⟨ht.pid, ht.parentPid, ht.size, ht.reapList⟩, ht.current, ht.state,
          ht.blockReason, ht.waitTarget⟩)
    · obtain ⟨n, t', rfl⟩ := h.exists_cons h0
      obtain ⟨-, ht⟩ := (hcount 0).toLinked.switch_dead h0 hst
      exact .inr (.inr ⟨n, t', rfl, hst, h0, (hcount 0).switch_dead h0 hst,
        ⟨ht.pid, ht.parentPid, ht.size, ht.reapList⟩, ht.current, ht.state,
        ht.blockReason, ht.waitTarget⟩)
  · have heq : schedulerTick s = { s with tickCount := (s.tickCount + 1) % 2 ^ 32 } := by
      simp only [schedulerTick, h.queue, if_neg hsw]
    rw [heq]
    have hst := h.running.resolve_right fun hd => hsw (.inr hd.2)
    exact .inl ⟨hcount _, hst, ⟨rfl, rfl, rfl, rfl⟩, rfl, rfl, rfl, rfl⟩

/-- A new process structure is on no list. -/
lemma Lists.newProcess (h : Lists s t b z q) (pid parentPid : ℕ) :
    Lists (newProcess s pid parentPid) t b z q ∧
      s.size ∉ allCells (newProcess s pid parentPid) t b z q := by
  have hnot : s.size ∉ allCells s t b z q := fun hm => lt_irrefl _ (h.lt _ hm)
  have hm := notMem_allCells.mp hnot
  have h0 : (0 : ℕ) ≠ s.size := (Nat.ne_of_gt (Nat.zero_lt_of_lt
    (h.mem_ring_lt List.mem_cons_self))).symm
  have hl := h.toLinked.setNext hnot none
  have hstate : ∀ {l : List ℕ} {a : ℕ}, a ∈ l → s.size ∉ l →
      Function.update s.state s.size .ready a = s.state a :=
    fun ha hl => Function.update_of_ne (ne_of_mem_of_not_mem ha hl) _ _
  refine ⟨?_, hnot⟩
  exact {
    queue := hl.queue
    ring := hl.ring
    blocked := hl.blocked
    zombies := hl.zombies
    reaped := hl.reaped
    nodup := hl.nodup
    lt := fun a ha => Nat.lt_succ_of_lt (h.lt a ha)
    kernel := hl.kernel
    kernelPid := (Function.update_of_ne h0 _ _).trans h.kernelPid
    ready := fun a ha => (hstate (List.mem_cons_of_mem _ ha) hm.1).trans (h.ready a ha)
    running := by
      have hc := hstate List.mem_cons_self hm.1
      simpa only [Kernel.newProcess, hc] using h.running
    sleeps := fun a => by
      by_cases ha : a = s.size
      · simpa [Kernel.newProcess, ha] using hm.2.1
      · simpa [Kernel.newProcess, ha] using h.sleeps a
    dead := fun a ha => (hstate ha (by simpa [not_or] using hm.2.2)).trans (h.dead a ha) }

end

end GordOS.Kernel
