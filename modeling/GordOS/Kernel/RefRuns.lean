/-
Reference counts in every run.

* `sameRefs_pipeReadFd`, `sameRefs_killPid`, ...: what touches no descriptor table;
* `RefsOk.dup`, `RefsOk.processFork`, ...: what does;
* `RefsOk.step`: **every event keeps the counts**;
* `refs_of_run`: **the counts of pipes and write buffers are right in every run**,
  an object exists exactly as long as a descriptor refers to it, and a buffer is
  flushed once; `refs_pipeToChild`, a pipe shared with a child.
-/
import Mathlib.Tactic
import GordOS.Kernel.Exits
import GordOS.Kernel.Refs

namespace GordOS.Kernel

open GordOS Relation

section

variable {FS : Type} {ops : VfsOps FS} {k k' : Kern FS}

/-! ### Events that leave the tables alone -/

namespace SameRefs

/-- A change of the scheduler, and of what no count depends on. -/
lemma of_eq (fds : k'.fds = k.fds) (freed : k'.freed = k.freed)
    (size : k'.sched.size = k.sched.size) (pipes : k'.pipes = k.pipes)
    (wbufs : k'.wbufs = k.wbufs) (pipeCount : k'.pipeCount = k.pipeCount)
    (wbufCount : k'.wbufCount = k.wbufCount) (flushed : k'.flushed = k.flushed) :
    SameRefs k k' :=
  ⟨fds, freed, size, fun p => by rw [pipes], fun w => by rw [wbufs], pipeCount, wbufCount, flushed⟩

lemma wake (k : Kern FS) (o : Option ℕ) : SameRefs k (k.wake o) := by
  obtain ⟨s, hs, hsize⟩ := wake_eq (k := k) o
  rw [hs]
  exact of_eq rfl rfl hsize rfl rfl rfl rfl rfl

lemma setPipe {p : ℕ} {q q' : Pipe} (hq : k.pipes p = some q) (ho : q'.opens = q.opens) :
    SameRefs k (k.setPipe p (some q')) := by
  refine ⟨rfl, rfl, rfl, fun p' => ?_, fun _ => rfl, rfl, rfl, rfl⟩
  rw [pipes_setPipe, Function.update_apply]
  split
  · next e => rw [e, hq, Option.map_some, Option.map_some, ho]
  · rfl

lemma sleep (k : Kern FS) (r : BlockReason) (w : ℕ) (c : Cont) : SameRefs k (k.sleep r w c) :=
  of_eq rfl rfl (sameProcs_blockSwitch k.sched r w).size rfl rfl rfl rfl rfl

lemma resume (h : SameRefs k k') : SameRefs k k'.resume :=
  h.trans (of_eq rfl rfl rfl rfl rfl rfl rfl rfl)

lemma answer (h : SameRefs k k') (ret : ℤ) : SameRefs k (answer k' ret).2 := h.resume

end SameRefs

/-- A round of a pipe does not change who has it open. -/
lemma opens_pipeReadRound {me len : ℕ} {q q' : Pipe} {r : ReadRound}
    (h : pipeReadRound me q len = (r, q')) : q'.opens = q.opens := by
  unfold pipeReadRound at h
  funext e
  split at h
  · obtain ⟨-, rfl⟩ := Prod.mk.inj h
    cases e <;> rfl
  · split at h <;> obtain ⟨-, rfl⟩ := Prod.mk.inj h <;> cases e <;> rfl

lemma opens_pipeWriteRound {me written : ℕ} {data : List UInt8} {q q' : Pipe} {r : WriteRound}
    (h : pipeWriteRound me q data written = (r, q')) : q'.opens = q.opens := by
  unfold pipeWriteRound at h
  funext e
  split at h
  · obtain ⟨-, rfl⟩ := Prod.mk.inj h
    cases e <;> rfl
  · split at h <;> obtain ⟨-, rfl⟩ := Prod.mk.inj h <;> cases e <;> rfl

/-- A pipe changes behind a wake-up. -/
lemma sameRefs_wake_setPipe {p : ℕ} {q q' : Pipe} (hq : k.pipes p = some q)
    (ho : q'.opens = q.opens) (o : Option ℕ) :
    SameRefs k ((k.wake o).setPipe p (some q')) := by
  have hp : (k.wake o).pipes = k.pipes := by
    obtain ⟨s, hs, -⟩ := wake_eq (k := k) o
    rw [hs]
  exact (SameRefs.wake k o).trans (.setPipe (by rw [hp, hq]) ho)

lemma sameRefs_pipeReadFd (p len : ℕ) : SameRefs k (pipeReadFd k p len).2 := by
  unfold pipeReadFd
  cases hq : k.pipes p with
  | none => exact (SameRefs.refl k).answer _
  | some q =>
    dsimp only
    rcases hr : pipeReadRound k.me q len with ⟨_ | _ | _, q'⟩
    · exact (sameRefs_wake_setPipe hq (opens_pipeReadRound hr) _).resume
    · exact (SameRefs.refl k).answer _
    · exact (SameRefs.setPipe hq (opens_pipeReadRound hr)).trans (.sleep _ _ _ _)

lemma sameRefs_pipeWriteLoop (p : ℕ) (data : List UInt8) (n : ℕ) :
    ∀ (written : ℕ) (k : Kern FS), SameRefs k (pipeWriteLoop p data n written k).2 := by
  induction n with
  | zero => exact fun written k => (SameRefs.refl k).answer _
  | succ n ih =>
    intro written k
    rw [pipeWriteLoop]
    split
    · cases hq : k.pipes p with
      | none => exact (SameRefs.refl k).answer _
      | some q =>
        dsimp only
        rcases hr : pipeWriteRound k.me q data written with ⟨_ | _ | _, q'⟩
        · exact (sameRefs_wake_setPipe hq (opens_pipeWriteRound hr) _).trans (ih _ _)
        · exact (SameRefs.refl k).answer _
        · exact (SameRefs.setPipe hq (opens_pipeWriteRound hr)).trans (.sleep _ _ _ _)
    · exact (SameRefs.refl k).answer _

lemma sameRefs_ttyRead (len : ℕ) : SameRefs k (ttyRead k len).2 := by
  unfold ttyRead
  dsimp only
  split
  · exact SameRefs.resume (.of_eq rfl rfl rfl rfl rfl rfl rfl rfl)
  · exact .sleep _ _ _ _

lemma sameRefs_wbufWrite (w : ℕ) (data : List UInt8) : SameRefs k (wbufWrite k w data).2 := by
  unfold wbufWrite
  cases hb : k.wbufs w with
  | none => exact .refl k
  | some b =>
    refine ⟨rfl, rfl, rfl, fun _ => rfl, fun w' => ?_, rfl, rfl, rfl⟩
    change (Function.update k.wbufs w _ w').map Wbuf.refcount = _
    rw [Function.update_apply]
    split
    · next e => rw [e, hb]; rfl
    · rfl

lemma sameRefs_waitLoop (target status : ℕ) : SameRefs k (waitLoop k target status).2 := by
  unfold waitLoop
  split
  · exact SameRefs.resume (.of_eq rfl rfl rfl rfl rfl rfl rfl rfl)
  · split
    · exact .sleep _ _ _ _
    · exact (SameRefs.refl k).answer _

lemma sameRefs_resume : SameRefs k ((k.cont k.me).run k).2 := by
  cases k.cont k.me with
  | user => exact .refl k
  | pipeRead p len => exact sameRefs_pipeReadFd p len
  | pipeWrite p data written => exact sameRefs_pipeWriteLoop p data _ written k
  | wait target status => exact sameRefs_waitLoop target status
  | ttyRead len => exact sameRefs_ttyRead len

lemma sameRefs_killPid (pid : ℕ) : SameRefs k (killPid k pid).2 := by
  unfold killPid
  split
  · exact .refl k
  · split
    · exact .refl k
    · exact .of_eq rfl rfl (sameProcs_markDead _ _).size rfl rfl rfl rfl rfl

lemma sameRefs_deliverChar (c : UInt8) : SameRefs k (deliverChar k c) := by
  unfold deliverChar
  split
  · exact .refl k
  · next a _ =>
    have h₁ : ∀ b : RingBuffer UInt8, SameRefs k { k with kbd := b } := fun b =>
      .of_eq rfl rfl rfl rfl rfl rfl rfl rfl
    dsimp only
    split
    · split
      · exact (h₁ _).trans (.wake _ _)
      · exact h₁ _
    · split
      · exact .wake k _
      · exact .refl k

/-! ### Events that change tables -/

lemma lt_of_fdOf {fd : ℤ} {i : ℕ} (h : fdOf k fd = some i) : i < maxFds := by
  unfold fdOf at h
  split at h
  · cases h
  · next hc =>
    obtain rfl := Option.some.inj h
    push Not at hc
    omega

/-- The number of the next process is not in use. -/
lemma KernOk.not_freed_size (hk : KernOk k) : k.freed k.sched.size = false := by
  by_contra hf
  exact absurd (hk.freed k.sched.size (by simpa using hf)).1 (lt_irrefl _)

/-- The slots of the running process. -/
lemma mem_slots_me (hk : KernOk k) {i : ℕ} (hi : i < maxFds) : (k.me, i) ∈ slots k := by
  have hl := hk.inOrder.current
  refine mem_slots.mpr ⟨⟨hk.inOrder.lt hl, ?_⟩, hi⟩
  by_contra hf
  exact (hk.freed k.me (by simpa using hf)).2.1 hl

/-- Reading moves a descriptor, but does not change its object. -/
lemma ref_fileReadLoop (rounds : ℕ) : ∀ (f : Fd) (want : ℕ),
    Fallible.Returns (fileReadLoop ops rounds f want) fun r => r.2.ref = f.ref := by
  induction rounds with
  | zero => exact fun f want => .pure rfl
  | succ rounds ih =>
    intro f want
    rw [fileReadLoop]
    split
    · refine .bind (.of_forall (P := fun _ => True) _ fun _ => trivial) fun o _ => ?_
      cases o with
      | none => exact .pure rfl
      | some b =>
        refine .bind (R := fun f' => f'.ref = f.ref) ?_ fun f' hf' => ?_
        · unfold nextIfDone
          split
          · refine .bind (.of_forall (P := fun _ => True) _ fun _ => trivial) fun c _ => ?_
            exact .pure rfl
          · exact .pure rfl
        · exact .bind (ih f' _) fun r hr => .pure (hr.trans hf')
    · exact .pure rfl

lemma ref_fileRead (ops : VfsOps FS) (mem : Bool) (f : Fd) (len : ℕ) :
    Fallible.Returns (fileRead ops mem f len) fun r => r.2.2.ref = f.ref := by
  unfold fileRead
  split
  · exact .pure rfl
  · split
    · exact .bind (ref_fileReadLoop len f len) fun r hr => .pure hr
    · exact .pure rfl

lemma ref_fileSeek (ops : VfsOps FS) (f : Fd) (offset whence : ℤ) :
    Fallible.Returns (fileSeek ops f offset whence) fun r => r.2.ref = f.ref := by
  unfold fileSeek
  split
  · exact .pure rfl
  · split
    · exact .pure rfl
    · split
      · exact .pure rfl
      · refine .bind (.of_forall (P := fun _ => True) _ fun _ => trivial) fun c _ => ?_
        exact .pure rfl

/-- What `sys_close` leaves in the slot. -/
lemma ref_closeFd (i : ℕ) : ((closeFd ops k i).fds k.me i).ref = none := by
  unfold Kernel.closeFd
  rw [fds_setFd_self]
  exact Fd.ref_of_none rfl

variable (hk : KernOk k) (h : RefsOk k)

include hk h

lemma RefsOk.closeFd {i : ℕ} (hi : i < maxFds) : RefsOk (closeFd ops k i) := by
  have hx := mem_slots_me hk hi
  unfold Kernel.closeFd
  rw [releaseFd_eq]
  cases hr : (k.fds k.me i).ref with
  | none => exact h.setFd hx (Fd.ref_of_none rfl |>.trans hr.symm)
  | some r => exact h.close hx hr (Fd.ref_of_none rfl)

lemma RefsOk.processExit : RefsOk (processExit ops k) := by
  unfold Kernel.processExit
  dsimp only
  split
  · exact h
  · have h₁ : RefsOk { k with foreground := exitForeground k k.me } :=
      h.same (.of_eq rfl rfl rfl rfl rfl rfl rfl rfl)
    have hc := closeFds_spec (k := { k with foreground := exitForeground k k.me }) ops k.me
    have h₂ := hc.ok h₁ fun i hi => mem_slots_me hk (List.mem_range.mp hi)
    exact h₂.same (.of_eq rfl rfl (sameProcs_exitSwitch _).size rfl rfl rfl rfl rfl)

/-- The new process of `process_fork` with its descriptors. -/
lemma RefsOk.fork : RefsOk (Kernel.inheritFds (Kernel.processCreate k) k.me k.sched.size) := by
  have hme := mem_slots.mp (mem_slots_me hk (i := 0) (by decide))
  have hsize : (Kernel.processCreate k).sched.size = k.sched.size + 1 := rfl
  have hnew := hk.not_freed_size
  have hold : k.me < k.sched.size := hme.1.1
  refine h.create.inheritFds ⟨by rw [hsize]; omega, hme.1.2⟩ ⟨by rw [hsize]; omega, hnew⟩ ?_
  intro i _
  have hfds : (Kernel.processCreate k).fds k.sched.size = fdInitStd :=
    Function.update_self _ _ _
  rw [hfds]
  exact ref_fdInitStd i

lemma RefsOk.processFork (o : ForkOutcome) : RefsOk (processFork ops k o).2 := by
  have h₁ := h.fork hk
  have hw : Works ops (Kernel.processCreate k) _ := .inheritFds .refl k.me k.sched.size
  have hq := hw.quiet hk.create.inOrder
  cases o with
  | noProcess => exact h
  | noCopy =>
    refine h₁.destroy ?_ ?_
    · rw [hq.woke.size]
      exact Nat.lt_succ_self _
    · exact (congrFun hq.freed _).trans hk.not_freed_size
  | done =>
    exact h₁.same (.of_eq rfl rfl (sameProcs_schedulerAdd _ _).size rfl rfl rfl rfl rfl)

lemma RefsOk.startProgram (fg : Bool) (o : LoadOutcome) : RefsOk (startProgram ops k fg o) := by
  cases o with
  | noProcess => exact h
  | noProgram => exact h.create.destroy (Nat.lt_succ_self _) hk.not_freed_size
  | done =>
    exact h.create.same (.of_eq rfl rfl (sameProcs_schedulerAdd _ _).size rfl rfl rfl rfl rfl)

lemma RefsOk.reapOne : RefsOk (reapOne ops k) := by
  unfold Kernel.reapOne
  split
  · exact h
  · next a ha =>
    obtain ⟨-, hgone, -, -⟩ := hk.inOrder.reapNext ha
    have h₁ : RefsOk { k with sched := { k.sched with reapList := k.sched.next a } } :=
      h.same (.of_eq rfl rfl rfl rfl rfl rfl rfl rfl)
    refine h₁.destroy (hk.inOrder.gone_lt hgone) ?_
    by_contra hf
    exact (hk.freed a (by simpa using hf)).2.2 hgone

/-- The copy of `sys_dup2`, after the slot is closed. -/
lemma RefsOk.dup {i j : ℕ} {k₁ : Kern FS} (hi : i < maxFds) (hj : j < maxFds)
    (hk₁ : k₁ = k ∧ k.FreeSlot j ∨ k₁ = Kernel.closeFd ops k j) :
    RefsOk (shareFd (k₁.setFd k₁.me j (k₁.fds k₁.me i)) (k₁.fds k₁.me i)) := by
  obtain ⟨hok, h₁, hr⟩ : KernOk k₁ ∧ RefsOk k₁ ∧ (k₁.fds k₁.me j).ref = none := by
    rcases hk₁ with ⟨rfl, -, hnone⟩ | rfl
    · exact ⟨hk, h, Fd.ref_of_none hnone⟩
    · have hw : Works ops k _ := .closeFd .refl j
      have hq := hw.quiet hk.inOrder
      refine ⟨hq.kernOk hk, h.closeFd hk hj, ?_⟩
      rw [hq.me]
      exact ref_closeFd j
  exact h₁.copy (mem_slots_me hok hj) hr fun r hr' => h₁.held_pos (mem_slots_me hok hi) hr'

/-- A system call keeps the counts. -/
lemma RefsOk.call (c : Syscall) : RefsOk (c.run ops k).2 := by
  have hfs : ∀ fs, RefsOk { k with fs := fs } := fun fs =>
    h.same (.of_eq rfl rfl rfl rfl rfl rfl rfl rfl)
  have hans : ∀ k' : Kern FS, RefsOk k' → RefsOk k'.resume := fun k' h' =>
    h'.same (SameRefs.refl k').resume
  have hc : Outcome ops k c (c.run ops k) := c.outcome ops k
  generalize c.run ops k = r at hc
  cases hc with
  | answer | readfile => exact hans _ (hfs _)
  | @read _ ret _ len i mem bytes f fs hi _ hread =>
    have href := ref_fileRead ops mem (k.fds k.me i) len k.fs _ (by rw [hread])
    exact hans _ ((hfs fs).setFd (mem_slots_me hk (lt_of_fdOf hi)) href)
  | @seek _ offset whence ret i f fs hi hseek =>
    have href := ref_fileSeek ops (k.fds k.me i) offset whence k.fs _ (by rw [hseek])
    exact hans _ ((hfs fs).setFd (mem_slots_me hk (lt_of_fdOf hi)) href)
  | @opened _ _ i _ _ f fs hi hf =>
    have hr : f.ref = none := by
      rcases f.ref_cases with ⟨hr, -⟩ | ⟨w, -, hw, -⟩ | ⟨e, p, -, -, hp⟩
      · exact hr
      · exact absurd (hf.1.symm.trans hw) (by simp)
      · exact absurd (hf.2.symm.trans hp) (by simp)
    exact hans _ ((hfs fs).setFd (mem_slots_me hk hi.1) (hr.trans (Fd.ref_of_none hi.2).symm))
  | created hi hf =>
    exact hans _ (h.openBuffer (mem_slots_me hk hi.1) (Fd.ref_of_none hi.2) _ (Fd.buffer_eq.mp hf))
  | close hi => exact hans _ (h.closeFd hk (lt_of_fdOf hi))
  | dup hi hj hk₁ => exact hans _ (h.dup hk (lt_of_fdOf hi) hj hk₁)
  | pipe _ hr hw hne hf hf' =>
    exact hans _ (h.openPipe (mem_slots_me hk hr.1) (mem_slots_me hk hw.1) hne
      (Fd.ref_of_none hr.2) (Fd.ref_of_none hw.2) (Fd.pipeEnd_eq.mp hf) (Fd.pipeEnd_eq.mp hf'))
  | write => exact h.same ((sameRefs_wbufWrite _ _).answer _)
  | pipeWrite => exact h.same (sameRefs_pipeWriteLoop _ _ _ 0 k)
  | pipeRead => exact h.same (sameRefs_pipeReadFd _ _)
  | ttyRead | readraw => exact h.same (sameRefs_ttyRead _)
  | wait => exact h.same (sameRefs_waitLoop _ _)
  | @exit code =>
    have h₁ : RefsOk { k with exitCode := Function.update k.exitCode k.me code } :=
      h.same (.of_eq rfl rfl rfl rfl rfl rfl rfl rfl)
    exact h₁.processExit ⟨hk.inOrder, hk.idle, hk.freed⟩
  | started fs => exact hfs fs
  | died fs => exact (hfs fs).processExit ⟨hk.inOrder, hk.idle, hk.freed⟩
  | fork => exact hans _ (h.processFork hk _)
  | gave => exact h.same (SameRefs.resume (.of_eq rfl rfl rfl rfl rfl rfl rfl rfl))
  | kill => exact h.same ((sameRefs_killPid _).answer _)

/-- **Every event keeps the counts.** -/
theorem RefsOk.step (e : Event) : RefsOk (e.run ops k).2 := by
  cases e with
  | call c => exact h.call hk c
  | fault =>
    have h₁ : RefsOk { k with exitCode := Function.update k.exitCode k.me (-1) } :=
      h.same (.of_eq rfl rfl rfl rfl rfl rfl rfl rfl)
    exact h₁.processExit ⟨hk.inOrder, hk.idle, hk.freed⟩
  | resume => exact h.same sameRefs_resume
  | tick => exact h.same (.of_eq rfl rfl (sameProcs_schedulerTick _).size rfl rfl rfl rfl rfl)
  | key c => exact h.same (sameRefs_deliverChar c)
  | shellStart fg o => exact h.startProgram hk fg o
  | shellKill pid => exact h.same (sameRefs_killPid pid)
  | shellFs op => exact h.same (.of_eq rfl rfl rfl rfl rfl rfl rfl rfl)
  | reapTake => exact h.same (.of_eq rfl rfl rfl rfl rfl rfl rfl rfl)
  | reapOne => exact h.reapOne hk

omit hk h

lemma refsOk_init (fs : FS) : RefsOk (kernInit fs) := by
  have hheld : ∀ r, held (kernInit fs) r = 0 := fun r => by cases r <;> rfl
  refine ⟨⟨fun r => (hheld r).ge, fun _ _ h => (by cases h), fun _ _ h => (by cases h),
    fun _ _ => rfl, fun _ _ => rfl, List.nodup_nil, fun w => ?_⟩, fun r => ?_⟩
  · exact ⟨fun h => (by cases h), fun h => absurd h.1 (Nat.not_lt_zero w)⟩
  · rw [hheld]
    by_contra hne
    obtain ⟨a, i, -, hx⟩ := exists_of_refCount_pos (k := kernInit fs) (r := r) (by omega)
    exact absurd ((ref_fdInitStd i).symm.trans hx) (by simp)

lemma RefsOk.opens_eq (h : RefsOk k) {p : ℕ} {q : Pipe} (hq : k.pipes p = some q) (e : PipeEnd) :
    q.opens e = refCount k (.pipe e p) := by
  rw [← h.count, held, hq, Option.elim_some]

lemma RefsOk.refcount_eq (h : RefsOk k) {w : ℕ} {b : Wbuf} (hb : k.wbufs w = some b) :
    b.refcount = refCount k (.wbuf w) := by
  rw [← h.count, held, hb, Option.elim_some]

/-- A pipe exists as long as a descriptor refers to it. -/
lemma RefsOk.pipe_isSome_iff (h : RefsOk k) (p : ℕ) : (k.pipes p).isSome ↔
    0 < refCount k (.pipe .read p) ∨ 0 < refCount k (.pipe .write p) := by
  cases hq : k.pipes p with
  | none =>
    have hr := h.count (.pipe .read p)
    have hw := h.count (.pipe .write p)
    rw [held, hq, Option.elim_none] at hr hw
    simp only [Option.isSome_none, Bool.false_eq_true, false_iff]
    omega
  | some q =>
    have hr : q.readOpen = refCount k (.pipe .read p) := h.opens_eq hq .read
    have hw : q.writeOpen = refCount k (.pipe .write p) := h.opens_eq hq .write
    have hpos := h.pipe p q hq
    simp only [Option.isSome_some, true_iff]
    omega

/-- A write buffer exists as long as a descriptor refers to it. -/
lemma RefsOk.wbuf_isSome_iff (h : RefsOk k) (w : ℕ) : (k.wbufs w).isSome ↔
    0 < refCount k (.wbuf w) := by
  cases hb : k.wbufs w with
  | none =>
    have hw := h.count (.wbuf w)
    rw [held, hb, Option.elim_none] at hw
    simp only [Option.isSome_none, Bool.false_eq_true, false_iff]
    omega
  | some b =>
    have hw := h.refcount_eq hb
    have hpos := h.wbuf w b hb
    simp only [Option.isSome_some, true_iff]
    omega

/-- **The counts are right in every run.** The counts of a pipe and of a write buffer
are the numbers of the descriptors that refer to them, in the tables of all processes
not yet freed; an object exists exactly as long as there is such a descriptor; and the
buffers flushed, each once, are those released. -/
theorem refs_of_run {fs : FS}
    (hrun : ReflTransGen (KStep ops fun _ _ => True) (kernInit fs) k) :
    (∀ p q, k.pipes p = some q → q.readOpen = refCount k (.pipe .read p) ∧
      q.writeOpen = refCount k (.pipe .write p)) ∧
    (∀ w b, k.wbufs w = some b → b.refcount = refCount k (.wbuf w)) ∧
    (∀ p, (k.pipes p).isSome ↔
      0 < refCount k (.pipe .read p) ∨ 0 < refCount k (.pipe .write p)) ∧
    (∀ w, (k.wbufs w).isSome ↔ 0 < refCount k (.wbuf w)) ∧
    (∀ a i, (a, i) ∈ slots k →
      (∀ e p, (k.fds a i).pipeEnd = some (e, p) → (k.pipes p).isSome) ∧
      ∀ w, (k.fds a i).buffer = some w → (k.wbufs w).isSome) ∧
    k.flushed.Nodup ∧ ∀ w, w ∈ k.flushed ↔ w < k.wbufCount ∧ k.wbufs w = none := by
  have h : RefsOk k := (kern_induction (I := RefsOk) (kernOk_init fs) (refsOk_init fs)
    (fun k k' e hk hI _ _ heq _ _ => heq ▸ hI.step hk e) hrun).2
  refine ⟨fun p q hq => ⟨h.opens_eq hq .read, h.opens_eq hq .write⟩,
    fun w b hb => h.refcount_eq hb, h.pipe_isSome_iff, h.wbuf_isSome_iff,
    fun a i hx => ⟨fun e p hp => ?_, fun w hw => ?_⟩, h.once, h.flushed⟩
  · have hpos := refCount_pos hx (Fd.pipeEnd_eq.mp hp)
    rw [h.pipe_isSome_iff]
    cases e with
    | read => exact .inl hpos
    | write => exact .inr hpos
  · rw [h.wbuf_isSome_iff]
    exact refCount_pos hx (Fd.buffer_eq.mp hw)

end

/-- A program opens a pipe and forks, copies the write end and closes the read end. -/
def pipeToChild : List Event :=
  startOne ++ [.call (.pipe 4096 true), .call (.fork .done), .call (.dup2 4 5),
    .call (.close 3)]

/-- The child has both ends, the parent has the write end twice. -/
theorem refs_pipeToChild : ∃ q, (runAll smallOps pipeToChild smallKern).pipes 0 = some q ∧
    refCount (runAll smallOps pipeToChild smallKern) (.pipe .write 0) = 3 ∧
    q.readOpen = refCount (runAll smallOps pipeToChild smallKern) (.pipe .read 0) ∧
    q.writeOpen = refCount (runAll smallOps pipeToChild smallKern) (.pipe .write 0) := by
  have hrun : Allowed smallOps (fun _ _ => True) pipeToChild smallKern := by
    decide +kernel
  have hq : ((runAll smallOps pipeToChild smallKern).pipes 0).isSome := by
    decide +kernel
  obtain ⟨q, hq⟩ := Option.isSome_iff_exists.mp hq
  obtain ⟨hr, hw⟩ := (refs_of_run (reflTransGen_runAll _ hrun)).1 0 q hq
  exact ⟨q, hq, by decide +kernel, hr, hw⟩

end GordOS.Kernel
