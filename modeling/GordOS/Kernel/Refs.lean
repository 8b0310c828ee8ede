/-
References to pipes and write buffers.

* `Ref`, `Fd.ref`: the object behind a descriptor; `refCount`: the descriptors
  that refer to it, in all tables of processes that have not been freed; `held`:
  the count the object itself keeps;
* `RefsOk`: the counts agree, an object that is referred to exists, and a buffer is
  flushed when it is released;
* `RefsOk.close`, `RefsOk.share`, `RefsOk.setFd`, `RefsOk.openBuffer`,
  `RefsOk.openPipe`: the changes of one slot;
* `RefsOk.create`, `RefsOk.inheritFds`, `RefsOk.closeFds`, `RefsOk.destroy`: the
  tables of new and of dying processes.
-/
import Mathlib.Tactic
import GordOS.Kernel.Effects

namespace GordOS.Kernel

open GordOS

/-! ### References -/

/-- An object a descriptor can refer to: an end of a pipe, or a write buffer. -/
inductive Ref where
  | pipe (e : PipeEnd) (p : ℕ)
  | wbuf (w : ℕ)
deriving DecidableEq

/-- The object behind a descriptor. -/
def Fd.ref (f : Fd) : Option Ref :=
  match f.kind with
  | .pipeRead => f.pipe.map (.pipe .read)
  | .pipeWrite => f.pipe.map (.pipe .write)
  | .file => if f.writable then f.wbuf.map .wbuf else none
  | _ => none

/-- The number of open descriptors of an end, as the pipe counts them. -/
def Pipe.opens (q : Pipe) : PipeEnd → ℤ
  | .read => q.readOpen
  | .write => q.writeOpen

section

variable {FS : Type}

/-- The slots of all tables of processes that have not been freed. -/
def slots (k : Kern FS) : Finset (ℕ × ℕ) :=
  (Finset.range k.sched.size).filter (fun a => k.freed a = false) ×ˢ Finset.range maxFds

/-- The number of descriptors that refer to an object. -/
def refCount (k : Kern FS) (r : Ref) : ℕ :=
  ((slots k).filter fun x => (k.fds x.1 x.2).ref = some r).card

/-- The count that the object itself keeps, `0` if it does not exist. -/
def held (k : Kern FS) : Ref → ℤ
  | .pipe e p => (k.pipes p).elim 0 fun q => q.opens e
  | .wbuf w => (k.wbufs w).elim 0 Wbuf.refcount

variable {ops : VfsOps FS} {k k' : Kern FS} {f f' : Fd} {r r' : Ref} {a i : ℕ}

lemma mem_slots : (a, i) ∈ slots k ↔ (a < k.sched.size ∧ k.freed a = false) ∧ i < maxFds := by
  simp [slots]

lemma Fd.ref_of_none (h : f.kind = .none) : f.ref = none := by
  rw [Fd.ref, h]

lemma Fd.buffer_eq {w : ℕ} : f.buffer = some w ↔ f.ref = some (.wbuf w) := by
  unfold Fd.buffer Fd.ref
  cases f.kind <;> cases f.writable <;> cases f.wbuf <;> cases f.pipe <;> simp

lemma Fd.pipeEnd_eq {e : PipeEnd} {p : ℕ} : f.pipeEnd = some (e, p) ↔ f.ref = some (.pipe e p) := by
  unfold Fd.pipeEnd Fd.ref
  cases f.kind <;> cases f.writable <;> cases f.wbuf <;> cases f.pipe <;> simp

/-- One more or one less. -/
def tally (r r' : Ref) : ℤ := if r' = r then 1 else 0

/-! ### Counting -/

/-- A change at one place changes the count by the difference there. -/
lemma card_filter_update {ι α : Type*} [DecidableEq ι] {s : Finset ι} {i : ι} (hi : i ∈ s)
    (t : ι → α) (v : α) (P : α → Prop) [DecidablePred P] :
    (s.filter fun x => P (Function.update t i v x)).card + (if P (t i) then 1 else 0) =
      (s.filter fun x => P (t x)).card + if P v then 1 else 0 := by
  rw [Finset.card_filter, Finset.card_filter, ← Finset.add_sum_erase s _ hi,
    ← Finset.add_sum_erase s (fun x => if P (t x) then 1 else 0) hi, Function.update_self]
  have hrest : ∑ x ∈ s.erase i, (if P (Function.update t i v x) then 1 else 0) =
      ∑ x ∈ s.erase i, if P (t x) then 1 else 0 :=
    Finset.sum_congr rfl fun x hx => by rw [Function.update_of_ne (Finset.ne_of_mem_erase hx)]
  rw [hrest]
  ring

lemma fds_setFd (a i : ℕ) (f : Fd) (x : ℕ × ℕ) : (k.setFd a i f).fds x.1 x.2 =
      Function.update (fun x : ℕ × ℕ => k.fds x.1 x.2) (a, i) f x := by
  obtain ⟨b, j⟩ := x
  by_cases hb : b = a
  · subst hb
    by_cases hj : j = i
    · subst hj
      simp [Kern.setFd]
    · simp [Kern.setFd, hj]
  · simp [Kern.setFd, hb]

lemma fds_setFd_of_ne {b j : ℕ} (f : Fd) (h : (b, j) ≠ (a, i)) :
    (k.setFd a i f).fds b j = k.fds b j := by
  rw [fds_setFd a i f (b, j), Function.update_of_ne h]

lemma fds_setFd_self (f : Fd) : (k.setFd a i f).fds a i = f := by
  rw [fds_setFd a i f (a, i), Function.update_self]

/-- A slot that changes. -/
lemma refCount_setFd (hx : (a, i) ∈ slots k) (f : Fd) (r : Ref) : (refCount (k.setFd a i f) r : ℤ) =
      refCount k r - (if (k.fds a i).ref = some r then 1 else 0) +
        if f.ref = some r then 1 else 0 := by
  have h := card_filter_update hx (fun x : ℕ × ℕ => k.fds x.1 x.2) f fun f => f.ref = some r
  have hcount : refCount (k.setFd a i f) r = ((slots k).filter fun x =>
      (Function.update (fun x : ℕ × ℕ => k.fds x.1 x.2) (a, i) f x).ref = some r).card := by
    unfold refCount
    congr 1
    exact Finset.filter_congr fun x _ => by rw [fds_setFd]
  rw [hcount]
  unfold refCount
  split_ifs at h ⊢ <;> push_cast at h ⊢ <;> omega

/-- A descriptor that refers to an object is counted. -/
lemma refCount_pos (hx : (a, i) ∈ slots k) (h : (k.fds a i).ref = some r) : 0 < refCount k r :=
  Finset.card_pos.mpr ⟨(a, i), Finset.mem_filter.mpr ⟨hx, h⟩⟩

lemma exists_of_refCount_pos (h : 0 < refCount k r) :
    ∃ a i, (a, i) ∈ slots k ∧ (k.fds a i).ref = some r := by
  obtain ⟨⟨a, i⟩, hx⟩ := Finset.card_pos.mp h
  obtain ⟨hs, hr⟩ := Finset.mem_filter.mp hx
  exact ⟨a, i, hs, hr⟩

/-! ### The books of the objects -/

/-- An object is released when its count falls to zero, new numbers are unused, and
the buffers flushed are those released. -/
structure BooksOk (k : Kern FS) : Prop where
  nonneg : ∀ r, 0 ≤ held k r
  pipe : ∀ p q, k.pipes p = some q → 0 < q.readOpen ∨ 0 < q.writeOpen
  wbuf : ∀ w b, k.wbufs w = some b → 0 < b.refcount
  newPipe : ∀ p, k.pipeCount ≤ p → k.pipes p = none
  newWbuf : ∀ w, k.wbufCount ≤ w → k.wbufs w = none
  once : k.flushed.Nodup
  flushed : ∀ w, w ∈ k.flushed ↔ w < k.wbufCount ∧ k.wbufs w = none

/-- The objects keep count of the descriptors that refer to them. -/
structure RefsOk (k : Kern FS) : Prop extends BooksOk k where
  count : ∀ r, held k r = refCount k r

/-- The counts, the tables and the history stay as they are. -/
structure SameRefs (k k' : Kern FS) : Prop where
  fds : k'.fds = k.fds
  freed : k'.freed = k.freed
  size : k'.sched.size = k.sched.size
  pipes : ∀ p, (k'.pipes p).map Pipe.opens = (k.pipes p).map Pipe.opens
  wbufs : ∀ w, (k'.wbufs w).map Wbuf.refcount = (k.wbufs w).map Wbuf.refcount
  pipeCount : k'.pipeCount = k.pipeCount
  wbufCount : k'.wbufCount = k.wbufCount
  flushed : k'.flushed = k.flushed

namespace SameRefs

lemma refl (k : Kern FS) : SameRefs k k :=
  ⟨rfl, rfl, rfl, fun _ => rfl, fun _ => rfl, rfl, rfl, rfl⟩

lemma trans {k'' : Kern FS} (h : SameRefs k k') (h' : SameRefs k' k'') : SameRefs k k'' :=
  ⟨h'.fds.trans h.fds, h'.freed.trans h.freed, h'.size.trans h.size,
    fun p => (h'.pipes p).trans (h.pipes p), fun w => (h'.wbufs w).trans (h.wbufs w),
    h'.pipeCount.trans h.pipeCount, h'.wbufCount.trans h.wbufCount,
    h'.flushed.trans h.flushed⟩

lemma held (h : SameRefs k k') (r : Ref) : Kernel.held k' r = Kernel.held k r := by
  cases r with
  | pipe e p =>
    have hp := h.pipes p
    unfold Kernel.held
    cases hk : k.pipes p <;> cases hk' : k'.pipes p <;> simp [hk, hk'] at hp ⊢
    rw [hp]
  | wbuf w =>
    have hw := h.wbufs w
    unfold Kernel.held
    cases hk : k.wbufs w <;> cases hk' : k'.wbufs w <;> simp [hk, hk'] at hw ⊢
    exact hw

lemma refCount (h : SameRefs k k') (r : Ref) : Kernel.refCount k' r = Kernel.refCount k r := by
  unfold Kernel.refCount slots
  rw [h.fds, h.freed, h.size]

end SameRefs

lemma RefsOk.same (h : RefsOk k) (hs : SameRefs k k') : RefsOk k' where
  nonneg := fun r => by rw [hs.held]; exact h.nonneg r
  pipe := fun p q hq => by
    have hp := hs.pipes p
    cases hk : k.pipes p with
    | none => simp [hk, hq] at hp
    | some q₀ =>
      rw [hk, hq] at hp
      have ho : q.opens = q₀.opens := by simpa using hp
      have hr : q.readOpen = q₀.readOpen := congrFun ho .read
      have hw : q.writeOpen = q₀.writeOpen := congrFun ho .write
      rw [hr, hw]
      exact h.pipe p q₀ hk
  wbuf := fun w b hb => by
    have hw := hs.wbufs w
    cases hk : k.wbufs w with
    | none => simp [hk, hb] at hw
    | some b₀ =>
      rw [hk, hb] at hw
      have ho : b.refcount = b₀.refcount := by simpa using hw
      rw [ho]
      exact h.wbuf w b₀ hk
  newPipe := fun p hp => by
    have hm := hs.pipes p
    rw [h.newPipe p (hs.pipeCount ▸ hp)] at hm
    simpa using hm
  newWbuf := fun w hw => by
    have hm := hs.wbufs w
    rw [h.newWbuf w (hs.wbufCount ▸ hw)] at hm
    simpa using hm
  once := hs.flushed ▸ h.once
  flushed := fun w => by
    have hm := hs.wbufs w
    have hnone : k'.wbufs w = none ↔ k.wbufs w = none := by
      cases hk : k.wbufs w <;> cases hk' : k'.wbufs w <;> simp [hk, hk'] at hm ⊢
    rw [hs.flushed, hs.wbufCount, hnone]
    exact h.flushed w
  count := fun r => by rw [hs.held, hs.refCount]; exact h.count r

/-! ### Dropping and adding a reference -/

/-- One reference less: `wbuf_unref`, or the closing of a pipe end. -/
def dropRef (ops : VfsOps FS) (k : Kern FS) : Ref → Kern FS
  | .pipe e p => closePipeEnd k e p
  | .wbuf w => wbufUnref ops k (some w)

/-- One reference more: `wbuf_ref`, or the count of a pipe end. -/
def addRef (k : Kern FS) : Ref → Kern FS
  | .pipe e p => k.setPipe p ((k.pipes p).map fun q => q.addOpen e 1)
  | .wbuf w => wbufRef k (some w)

lemma Fd.ref_cases (f : Fd) : (f.ref = none ∧ f.buffer = none ∧ f.pipeEnd = none) ∨
    (∃ w, f.ref = some (.wbuf w) ∧ f.buffer = some w ∧ f.pipeEnd = none) ∨
    ∃ e p, f.ref = some (.pipe e p) ∧ f.buffer = none ∧ f.pipeEnd = some (e, p) := by
  unfold Fd.ref Fd.buffer Fd.pipeEnd
  cases f.kind <;> cases f.writable <;> cases f.wbuf <;> cases f.pipe <;> simp

lemma releaseFd_eq : releaseFd ops k f = f.ref.elim k (dropRef ops k) := by
  rcases f.ref_cases with ⟨h, hb, hp⟩ | ⟨w, h, hb, hp⟩ | ⟨e, p, h, hb, hp⟩ <;>
    simp only [releaseFd, h, hb, hp, Option.elim, dropRef, wbufUnref]

lemma shareFd_eq : shareFd k f = f.ref.elim k (addRef k) := by
  rcases f.ref_cases with ⟨h, hb, hp⟩ | ⟨w, h, hb, hp⟩ | ⟨e, p, h, hb, hp⟩ <;>
    simp only [shareFd, h, hb, hp, Option.elim, addRef, wbufRef]

/-- The pipe after the closing of an end: released without open ends. -/
def Pipe.closed (q : Pipe) (e : PipeEnd) : Option Pipe :=
  if (q.addOpen e (-1)).readOpen ≤ 0 ∧ (q.addOpen e (-1)).writeOpen ≤ 0 then none
  else some ((q.addOpen e (-1)).clearPeer e)

lemma closePipeEnd_eq {e : PipeEnd} {p : ℕ} {q : Pipe} (hq : k.pipes p = some q) :
    closePipeEnd k e p = (k.wake (q.peer e)).setPipe p (q.closed e) := by
  have hpeer : (q.addOpen e (-1)).peer e = q.peer e := by cases e <;> rfl
  unfold closePipeEnd Pipe.closed
  simp only [hq, hpeer]
  split
  · simp only [Kern.setPipe, Function.update_idem]
  · rfl

lemma closePipeEnd_of_none {e : PipeEnd} {p : ℕ} (hq : k.pipes p = none) :
    closePipeEnd k e p = k := by
  simp only [closePipeEnd, hq]

lemma wbufUnref_eq {w : ℕ} {b : Wbuf} (hb : k.wbufs w = some b) : wbufUnref ops k (some w) =
      if 0 < b.refcount - 1 then k.setWbuf w (some { b with refcount := b.refcount - 1 })
      else
        { k.setWbuf w none with
          fs := (ops.writeFile b.path b.buf k.fs).2
          flushed := k.flushed ++ [w] } := by
  simp only [wbufUnref, hb]

lemma wbufUnref_of_none {w : ℕ} (hb : k.wbufs w = none) : wbufUnref ops k (some w) = k := by
  simp only [wbufUnref, hb]

/-- Waking a process leaves everything but the scheduler as it is. -/
lemma wake_eq (o : Option ℕ) : ∃ s, k.wake o = { k with sched := s } ∧ s.size = k.sched.size := by
  cases o with
  | none => exact ⟨k.sched, rfl, rfl⟩
  | some a => exact ⟨_, rfl, (sameProcs_schedulerWake _ _).size⟩

/-- What one reference less leaves as it is. -/
structure SameTables (k k' : Kern FS) : Prop where
  fds : k'.fds = k.fds
  freed : k'.freed = k.freed
  size : k'.sched.size = k.sched.size

lemma sameTables_dropRef (r : Ref) : SameTables k (dropRef ops k r) := by
  cases r with
  | pipe e p =>
    cases hq : k.pipes p with
    | none =>
      rw [dropRef, closePipeEnd_of_none hq]
      exact ⟨rfl, rfl, rfl⟩
    | some q =>
      obtain ⟨s, hs, hsize⟩ := wake_eq (k := k) (q.peer e)
      rw [dropRef, closePipeEnd_eq hq, hs]
      exact ⟨rfl, rfl, hsize⟩
  | wbuf w =>
    cases hb : k.wbufs w with
    | none =>
      rw [dropRef, wbufUnref_of_none hb]
      exact ⟨rfl, rfl, rfl⟩
    | some b =>
      rw [dropRef, wbufUnref_eq hb]
      split <;> exact ⟨rfl, rfl, rfl⟩

lemma sameTables_addRef (r : Ref) : SameTables k (addRef k r) := by
  cases r <;> exact ⟨rfl, rfl, rfl⟩

lemma SameTables.refCount (h : SameTables k k') (r : Ref) : refCount k' r = refCount k r := by
  unfold Kernel.refCount slots
  rw [h.fds, h.freed, h.size]

lemma SameTables.slots (h : SameTables k k') : slots k' = slots k := by
  unfold Kernel.slots
  rw [h.freed, h.size]

/-- A pipe end is held, so the pipe exists. -/
lemma exists_pipe {e : PipeEnd} {p : ℕ} (h : 0 < held k (.pipe e p)) : ∃ q, k.pipes p = some q := by
  rw [held] at h
  cases hp : k.pipes p with
  | none => simp [hp] at h
  | some q => exact ⟨q, rfl⟩

/-- A buffer is held, so it exists. -/
lemma exists_wbuf {w : ℕ} (h : 0 < held k (.wbuf w)) : ∃ b, k.wbufs w = some b := by
  rw [held] at h
  cases hw : k.wbufs w with
  | none => simp [hw] at h
  | some b => exact ⟨b, rfl⟩

lemma Pipe.opens_addOpen (q : Pipe) (e e' : PipeEnd) (d : ℤ) :
    (q.addOpen e d).opens e' = q.opens e' + if e' = e then d else 0 := by
  cases e <;> cases e' <;> simp [Pipe.addOpen, Pipe.opens]

lemma Pipe.opens_clearPeer (q : Pipe) (e e' : PipeEnd) : (q.clearPeer e).opens e' = q.opens e' := by
  cases e <;> cases e' <;> rfl

/-- A pipe with counts that are not negative is released when both fall to zero. -/
lemma Pipe.opens_closed {q : Pipe} {e : PipeEnd} (h : ∀ e', 0 ≤ q.opens e')
    (he : 0 < q.opens e) (e' : PipeEnd) :
    (q.closed e).elim 0 (fun q => q.opens e') = q.opens e' - if e' = e then 1 else 0 := by
  have hadd := q.opens_addOpen e
  unfold Pipe.closed
  split
  · next hc =>
    have hcr : (q.addOpen e (-1)).opens .read ≤ 0 := hc.1
    have hcw : (q.addOpen e (-1)).opens .write ≤ 0 := hc.2
    have hnr := h .read
    have hnw := h .write
    rw [hadd] at hcr hcw
    cases e <;> cases e' <;> simp at hcr hcw he ⊢ <;> omega
  · rw [Option.elim_some, Pipe.opens_clearPeer, hadd]
    split <;> ring

/-! ### Changes of one object -/

@[simp] lemma pipes_setPipe (p : ℕ) (v : Option Pipe) :
    (k.setPipe p v).pipes = Function.update k.pipes p v := rfl

@[simp] lemma wbufs_setPipe (p : ℕ) (v : Option Pipe) : (k.setPipe p v).wbufs = k.wbufs := rfl

@[simp] lemma wbufs_setWbuf (w : ℕ) (v : Option Wbuf) :
    (k.setWbuf w v).wbufs = Function.update k.wbufs w v := rfl

@[simp] lemma pipes_setWbuf (w : ℕ) (v : Option Wbuf) : (k.setWbuf w v).pipes = k.pipes := rfl

lemma held_setPipe {p : ℕ} {v : Option Pipe} {e : PipeEnd} {d : ℤ}
    (hv : ∀ e', v.elim 0 (fun q => q.opens e') = held k (.pipe e' p) + if e' = e then d else 0)
    (r' : Ref) :
    held (k.setPipe p v) r' = held k r' + if r' = .pipe e p then d else 0 := by
  cases r' with
  | wbuf w => simp [held]
  | pipe e' p' =>
    by_cases hp : p' = p
    · subst hp
      rw [held, pipes_setPipe, Function.update_self, hv e']
      simp
    · rw [held, pipes_setPipe, Function.update_of_ne hp, held]
      simp [hp]

lemma held_setWbuf {w : ℕ} {v : Option Wbuf} {d : ℤ}
    (hv : v.elim 0 Wbuf.refcount = held k (.wbuf w) + d) (r' : Ref) :
    held (k.setWbuf w v) r' = held k r' + if r' = .wbuf w then d else 0 := by
  cases r' with
  | pipe e p => simp [held]
  | wbuf w' =>
    by_cases hw : w' = w
    · subst hw
      rw [if_pos rfl, ← hv, held, wbufs_setWbuf, Function.update_self]
    · rw [if_neg (by simpa using hw), held, wbufs_setWbuf, Function.update_of_ne hw, held, add_zero]

/-- A pipe that exists changes. -/
lemma BooksOk.setPipe {p : ℕ} {v : Option Pipe} (h : BooksOk k) (hp : p < k.pipeCount)
    (hv : ∀ e, 0 ≤ v.elim 0 fun q => q.opens e)
    (hlive : ∀ q, v = some q → 0 < q.readOpen ∨ 0 < q.writeOpen) : BooksOk (k.setPipe p v) where
  nonneg := fun r' => by
    cases r' with
    | wbuf w => exact h.nonneg (.wbuf w)
    | pipe e p' =>
      by_cases hpp : p' = p
      · subst hpp
        rw [held, pipes_setPipe, Function.update_self]
        exact hv e
      · rw [held, pipes_setPipe, Function.update_of_ne hpp]
        exact h.nonneg (.pipe e p')
  pipe := fun p' q hq => by
    rw [pipes_setPipe, Function.update_apply] at hq
    split at hq
    · exact hlive q hq
    · exact h.pipe p' q hq
  wbuf := h.wbuf
  newPipe := fun p' hp' => by
    rw [pipes_setPipe, Function.update_of_ne (hp.trans_le hp').ne']
    exact h.newPipe p' hp'
  newWbuf := h.newWbuf
  once := h.once
  flushed := h.flushed

/-- A buffer that exists changes. -/
lemma BooksOk.setWbuf {w : ℕ} {b b' : Wbuf} (h : BooksOk k) (hb : k.wbufs w = some b)
    (hpos : 0 < b'.refcount) : BooksOk (k.setWbuf w (some b')) where
  nonneg := fun r' => by
    cases r' with
    | pipe e p => exact h.nonneg (.pipe e p)
    | wbuf w' =>
      by_cases hw : w' = w
      · subst hw
        rw [held, wbufs_setWbuf, Function.update_self]
        exact hpos.le
      · rw [held, wbufs_setWbuf, Function.update_of_ne hw]
        exact h.nonneg (.wbuf w')
  pipe := h.pipe
  wbuf := fun w' b'' hb'' => by
    rw [wbufs_setWbuf, Function.update_apply] at hb''
    split at hb''
    · obtain rfl := Option.some.inj hb''
      exact hpos
    · exact h.wbuf w' b'' hb''
  newPipe := h.newPipe
  newWbuf := fun w' hw' => by
    have hne : w' ≠ w := by
      rintro rfl
      rw [h.newWbuf _ hw'] at hb
      cases hb
    rw [wbufs_setWbuf, Function.update_of_ne hne]
    exact h.newWbuf w' hw'
  once := h.once
  flushed := fun w' => by
    refine (h.flushed w').trans (and_congr_right fun _ => ?_)
    rw [wbufs_setWbuf, Function.update_apply]
    split
    · next e => simp [e, hb]
    · rfl

lemma BooksOk.lt_pipeCount {p : ℕ} {q : Pipe} (h : BooksOk k) (hq : k.pipes p = some q) :
    p < k.pipeCount := by
  by_contra hc
  rw [h.newPipe p (not_lt.mp hc)] at hq
  cases hq

lemma BooksOk.lt_wbufCount {w : ℕ} {b : Wbuf} (h : BooksOk k) (hb : k.wbufs w = some b) :
    w < k.wbufCount := by
  by_contra hc
  rw [h.newWbuf w (not_lt.mp hc)] at hb
  cases hb

/-- The closing of a pipe end. -/
lemma BooksOk.closePipeEnd {e : PipeEnd} {p : ℕ} (h : BooksOk k) (hr : 0 < held k (.pipe e p)) :
    BooksOk (closePipeEnd k e p) ∧
      ∀ r', held (Kernel.closePipeEnd k e p) r' = held k r' - tally (.pipe e p) r' := by
  obtain ⟨q, hq⟩ := exists_pipe hr
  obtain ⟨s, hs, -⟩ := wake_eq (k := k) (q.peer e)
  have hheld : ∀ e', held k (.pipe e' p) = q.opens e' := fun e' => by rw [held, hq]; rfl
  have hnn : ∀ e', 0 ≤ q.opens e' := fun e' => hheld e' ▸ h.nonneg (.pipe e' p)
  have hopens := Pipe.opens_closed hnn (hheld e ▸ hr)
  have hb : BooksOk ({ k with sched := s } : Kern FS) :=
    ⟨h.nonneg, h.pipe, h.wbuf, h.newPipe, h.newWbuf, h.once, h.flushed⟩
  rw [closePipeEnd_eq hq, hs]
  refine ⟨hb.setPipe (h.lt_pipeCount hq) (fun e' => ?_) fun q' hq' => ?_, fun r' => ?_⟩
  · rw [hopens]
    have := hnn e'
    have := hheld e ▸ hr
    split
    · next he => rw [he]; omega
    · omega
  · unfold Pipe.closed at hq'
    split at hq'
    · cases hq'
    · next hc =>
      obtain rfl := Option.some.inj hq'
      have hr' : ((q.addOpen e (-1)).clearPeer e).readOpen = (q.addOpen e (-1)).readOpen :=
        Pipe.opens_clearPeer _ e .read
      have hw' : ((q.addOpen e (-1)).clearPeer e).writeOpen = (q.addOpen e (-1)).writeOpen :=
        Pipe.opens_clearPeer _ e .write
      rw [hr', hw']
      omega
  · have hset := held_setPipe (k := { k with sched := s }) (p := p) (v := q.closed e)
      (e := e) (d := -1) (fun e' => by
        rw [hopens, show held ({ k with sched := s } : Kern FS) (.pipe e' p) = q.opens e'
          from hheld e']
        split <;> ring) r'
    have hsame : held ({ k with sched := s } : Kern FS) r' = held k r' := by cases r' <;> rfl
    rw [hset, hsame, tally]
    split <;> ring

/-- One reference to a buffer less. -/
lemma BooksOk.wbufUnref {w : ℕ} (h : BooksOk k) (hr : 0 < held k (.wbuf w)) :
    BooksOk (wbufUnref ops k (some w)) ∧
      ∀ r', held (Kernel.wbufUnref ops k (some w)) r' = held k r' - tally (.wbuf w) r' := by
  obtain ⟨b, hb⟩ := exists_wbuf hr
  have hheld : held k (.wbuf w) = b.refcount := by rw [held, hb]; rfl
  have hminus : ∀ {v : Option Wbuf}, v.elim 0 Wbuf.refcount = b.refcount - 1 →
      ∀ r', held (k.setWbuf w v) r' = held k r' - tally (.wbuf w) r' := by
    intro v hv r'
    rw [held_setWbuf (d := -1) (by rw [hv, hheld]; ring) r', tally]
    split <;> ring
  rw [wbufUnref_eq hb]
  split
  · next hpos => exact ⟨h.setWbuf hb hpos, hminus rfl⟩
  · next hpos =>
    -- the last reference: the buffer is flushed and freed
    have hone : b.refcount = 1 := by
      have := h.wbuf w b hb
      omega
    have hdrop := hminus (v := none) (by rw [hone]; rfl)
    have hlt := h.lt_wbufCount hb
    have hnot : w ∉ k.flushed := fun hm => by
      rw [((h.flushed w).mp hm).2] at hb
      cases hb
    have hsome : ∀ w' b', (k.setWbuf w none).wbufs w' = some b' → k.wbufs w' = some b' := by
      intro w' b' hb'
      rw [wbufs_setWbuf, Function.update_apply] at hb'
      split at hb'
      · cases hb'
      · exact hb'
    refine ⟨⟨fun r' => ?_, h.pipe, fun w' b' hb' => h.wbuf w' b' (hsome w' b' hb'), h.newPipe,
      fun w' hw' => ?_, ?_, fun w' => ?_⟩, hdrop⟩
    · refine (hdrop r').symm ▸ ?_
      have := h.nonneg r'
      unfold tally
      split
      · next e => rw [e]; omega
      · omega
    · change (k.setWbuf w none).wbufs w' = none
      rw [wbufs_setWbuf, Function.update_of_ne (hlt.trans_le hw').ne']
      exact h.newWbuf w' hw'
    · refine h.once.append (List.nodup_singleton w) ?_
      rwa [List.disjoint_singleton]
    · change w' ∈ k.flushed ++ [w] ↔ w' < k.wbufCount ∧ (k.setWbuf w none).wbufs w' = none
      rw [wbufs_setWbuf, List.mem_append, List.mem_singleton, h.flushed w', Function.update_apply]
      split
      · next e => simp [e, hlt]
      · next e => simp [e]

/-- One reference less. -/
lemma BooksOk.dropRef (ops : VfsOps FS) (h : BooksOk k) (hr : 0 < held k r) :
    BooksOk (dropRef ops k r) ∧
      ∀ r', held (Kernel.dropRef ops k r) r' = held k r' - tally r r' := by
  cases r with
  | pipe e p => exact h.closePipeEnd hr
  | wbuf w => exact h.wbufUnref hr

/-- One reference more. -/
lemma BooksOk.addRef (h : BooksOk k) (hr : 0 < held k r) :
    BooksOk (addRef k r) ∧ ∀ r', held (Kernel.addRef k r) r' = held k r' + tally r r' := by
  cases r with
  | pipe e p =>
    obtain ⟨q, hq⟩ := exists_pipe hr
    have hheld : ∀ e', held k (.pipe e' p) = q.opens e' := fun e' => by rw [held, hq]; rfl
    have hopens : ∀ e', (some (q.addOpen e 1)).elim 0 (fun q => q.opens e') =
        held k (.pipe e' p) + if e' = e then 1 else 0 := fun e' => by
      rw [hheld, Option.elim_some, Pipe.opens_addOpen]
    have hmap : Kernel.addRef k (.pipe e p) = k.setPipe p (some (q.addOpen e 1)) := by
      rw [Kernel.addRef, hq]
      rfl
    rw [hmap]
    refine ⟨h.setPipe (h.lt_pipeCount hq) (fun e' => ?_) fun q' hq' => ?_, fun r' => ?_⟩
    · rw [hopens]
      have := h.nonneg (.pipe e' p)
      split <;> omega
    · obtain rfl := Option.some.inj hq'
      have := h.pipe p q hq
      cases e <;> simp only [Pipe.addOpen] <;> omega
    · rw [held_setPipe hopens r', tally]
  | wbuf w =>
    obtain ⟨b, hb⟩ := exists_wbuf hr
    have hmap : Kernel.addRef k (.wbuf w) =
        k.setWbuf w (some { b with refcount := b.refcount + 1 }) := by
      rw [Kernel.addRef, wbufRef, hb]
      rfl
    have hpos := h.wbuf w b hb
    rw [hmap]
    refine ⟨h.setWbuf hb (by change 0 < b.refcount + 1; omega), fun r' => ?_⟩
    rw [held_setWbuf (d := 1) (by rw [held, hb]; rfl) r', tally]

/-! ### Changes of one slot -/

lemma held_setFd (a i : ℕ) (f : Fd) (r : Ref) : held (k.setFd a i f) r = held k r := by
  cases r <;> rfl

lemma BooksOk.setFd (h : BooksOk k) (a i : ℕ) (f : Fd) : BooksOk (k.setFd a i f) where
  nonneg := fun r => by rw [held_setFd]; exact h.nonneg r
  pipe := h.pipe
  wbuf := h.wbuf
  newPipe := h.newPipe
  newWbuf := h.newWbuf
  once := h.once
  flushed := h.flushed

lemma RefsOk.held_pos (h : RefsOk k) (hx : (a, i) ∈ slots k) (hr : (k.fds a i).ref = some r) :
    0 < held k r := by
  rw [h.count]
  exact_mod_cast refCount_pos hx hr

/-- A descriptor is closed. -/
lemma RefsOk.close (h : RefsOk k) (hx : (a, i) ∈ slots k) (hr : (k.fds a i).ref = some r)
    (hf : f'.ref = none) : RefsOk ((dropRef ops k r).setFd a i f') := by
  obtain ⟨hb, hheld⟩ := h.toBooksOk.dropRef ops (h.held_pos hx hr)
  have ht : SameTables k (dropRef ops k r) := sameTables_dropRef r
  refine ⟨hb.setFd a i f', fun r' => ?_⟩
  rw [held_setFd, hheld, refCount_setFd (ht.slots ▸ hx), ht.refCount, ht.fds, hr, hf, h.count,
    tally]
  simp [eq_comm]

/-- A slot without an object gets a descriptor for an object that exists. -/
lemma RefsOk.share (h : RefsOk k) (hx : (a, i) ∈ slots k) (hr : (k.fds a i).ref = none)
    (hf : f'.ref = some r) (hpos : 0 < held k r) :
    RefsOk (addRef (k.setFd a i f') r) := by
  have hpos' : 0 < held (k.setFd a i f') r := by rwa [held_setFd]
  obtain ⟨hb, hheld⟩ := (h.toBooksOk.setFd a i f').addRef hpos'
  refine ⟨hb, fun r' => ?_⟩
  rw [hheld, held_setFd, (sameTables_addRef r).refCount, refCount_setFd hx, hr, hf, h.count, tally]
  simp [eq_comm]

/-- A descriptor changes, but not its object. -/
lemma RefsOk.setFd (h : RefsOk k) (hx : (a, i) ∈ slots k) (hf : f'.ref = (k.fds a i).ref) :
    RefsOk (k.setFd a i f') := by
  refine ⟨h.toBooksOk.setFd a i f', fun r' => ?_⟩
  rw [held_setFd, refCount_setFd hx, hf, h.count]
  ring

/-- A copy of a descriptor in a slot without an object. -/
lemma RefsOk.copy (h : RefsOk k) (hx : (a, i) ∈ slots k) (hr : (k.fds a i).ref = none)
    (hpos : ∀ r, f'.ref = some r → 0 < held k r) :
    RefsOk (shareFd (k.setFd a i f') f') := by
  rw [shareFd_eq]
  cases hf : f'.ref with
  | none => exact h.setFd hx (hf.trans hr.symm)
  | some r => exact h.share hx hr hf (hpos r hf)

/-- A new write buffer and its descriptor. -/
lemma RefsOk.openBuffer (h : RefsOk k) (hx : (a, i) ∈ slots k) (hr : (k.fds a i).ref = none)
    (path : Name) (hf : f'.ref = some (.wbuf k.wbufCount)) :
    RefsOk ((wbufOpen k path).setFd a i f') := by
  have hnew : k.wbufs k.wbufCount = none := h.newWbuf _ le_rfl
  have hheld : ∀ r', held (wbufOpen k path) r' = held k r' + tally (.wbuf k.wbufCount) r' := by
    intro r'
    rw [tally, ← held_setWbuf (v := some ⟨[], 1, path.take 63⟩) (d := 1) (by rw [held, hnew]; rfl)]
    cases r' <;> rfl
  have hsame : SameTables k (wbufOpen k path) := ⟨rfl, rfl, rfl⟩
  have hwb : (wbufOpen k path).wbufs =
      Function.update k.wbufs k.wbufCount (some ⟨[], 1, path.take 63⟩) := rfl
  have hbooks : BooksOk (wbufOpen k path) := by
    refine ⟨fun r' => ?_, h.pipe, fun w b hb => ?_, h.newPipe, fun w hw => ?_, h.once, fun w => ?_⟩
    · have := h.nonneg r'
      rw [hheld, tally]
      split <;> omega
    · rw [hwb, Function.update_apply] at hb
      split at hb
      · obtain rfl := Option.some.inj hb
        exact one_pos
      · exact h.wbuf w b hb
    · have hw' : k.wbufCount < w := hw
      rw [hwb, Function.update_of_ne hw'.ne']
      exact h.newWbuf w hw'.le
    · change w ∈ k.flushed ↔ w < k.wbufCount + 1 ∧ (wbufOpen k path).wbufs w = none
      rw [hwb, h.flushed w, Function.update_apply]
      split
      · next e => simp [e]
      · next e =>
        have : w < k.wbufCount + 1 ↔ w < k.wbufCount := by omega
        rw [this]
  refine ⟨hbooks.setFd a i f', fun r' => ?_⟩
  rw [held_setFd, hheld, refCount_setFd (hsame.slots ▸ hx), hsame.refCount,
      show (wbufOpen k path).fds = k.fds from rfl, hr, hf, h.count, tally]
  simp [eq_comm]

/-- A new pipe and its two descriptors. -/
lemma RefsOk.openPipe {j : ℕ} {f'' : Fd} (h : RefsOk k) (hx : (a, i) ∈ slots k)
    (hy : (a, j) ∈ slots k) (hij : j ≠ i) (hr : (k.fds a i).ref = none)
    (hr' : (k.fds a j).ref = none) (hf : f'.ref = some (.pipe .read k.pipeCount))
    (hf' : f''.ref = some (.pipe .write k.pipeCount)) :
    RefsOk ((({ k.setPipe k.pipeCount (some pipeCreate) with
      pipeCount := k.pipeCount + 1 } : Kern FS).setFd a i f').setFd a j f'') := by
  set k₁ : Kern FS := { k.setPipe k.pipeCount (some pipeCreate) with
    pipeCount := k.pipeCount + 1 } with hk₁
  have hnew : k.pipes k.pipeCount = none := h.newPipe _ le_rfl
  have hpipes : k₁.pipes = Function.update k.pipes k.pipeCount (some pipeCreate) := rfl
  have hheld : ∀ r', held k₁ r' = held k r' + tally (.pipe .read k.pipeCount) r' +
      tally (.pipe .write k.pipeCount) r' := by
    intro r'
    cases r' with
    | wbuf w => simp [held, tally, hk₁]
    | pipe e p =>
      by_cases hp : p = k.pipeCount
      · subst hp
        rw [held, hpipes, Function.update_self, held, hnew]
        cases e <;> simp [tally, pipeCreate, Pipe.opens]
      · rw [held, hpipes, Function.update_of_ne hp, held]
        simp [tally, hp]
  have hsame : SameTables k k₁ := ⟨rfl, rfl, rfl⟩
  have hx₁ : (a, i) ∈ slots k₁ := hsame.slots ▸ hx
  have hy₁ : (a, j) ∈ slots (k₁.setFd a i f') := hsame.slots ▸ hy
  have hbooks : BooksOk k₁ := by
    refine ⟨fun r' => ?_, fun p q hq => ?_, h.wbuf, fun p hp => ?_, h.newWbuf, h.once, h.flushed⟩
    · have := h.nonneg r'
      rw [hheld, tally, tally]
      split <;> split <;> omega
    · rw [hpipes, Function.update_apply] at hq
      split at hq
      · obtain rfl := Option.some.inj hq
        exact .inl one_pos
      · exact h.pipe p q hq
    · have hp' : k.pipeCount < p := hp
      rw [hpipes, Function.update_of_ne hp'.ne']
      exact h.newPipe p hp'.le
  have hne : ((a, j) : ℕ × ℕ) ≠ (a, i) := by simpa using hij
  refine ⟨(hbooks.setFd a i f').setFd a j f'', fun r' => ?_⟩
  rw [held_setFd, held_setFd, hheld, refCount_setFd hy₁, refCount_setFd hx₁, hsame.refCount,
    fds_setFd_of_ne f' hne, hsame.fds, hr, hr', hf, hf', h.count, tally, tally]
  simp [eq_comm]

/-! ### The tables of processes -/

/-- The table of a new process holds no object. -/
lemma ref_fdInitStd (i : ℕ) : (fdInitStd i).ref = none := by
  unfold fdInitStd
  split <;> rfl

/-- Two tables that differ in slots without an object only. -/
lemma refCount_congr (k k' : Kern FS) (h : ∀ b j, ((b, j) ∈ slots k' ∧ (k'.fds b j).ref = some r) ↔
    ((b, j) ∈ slots k ∧ (k.fds b j).ref = some r)) : refCount k' r = refCount k r := by
  unfold refCount
  congr 1
  ext ⟨b, j⟩
  rw [Finset.mem_filter, Finset.mem_filter]
  exact h b j

lemma RefsOk.create (h : RefsOk k) : RefsOk (processCreate k) := by
  have hheld : ∀ r, held (processCreate k) r = held k r := fun r => by cases r <;> rfl
  refine ⟨⟨fun r => (hheld r).symm ▸ h.nonneg r, h.pipe, h.wbuf, h.newPipe, h.newWbuf, h.once,
    h.flushed⟩, fun r => ?_⟩
  rw [hheld, h.count, refCount_congr k (processCreate k) fun b j => ?_]
  have hsize : (processCreate k).sched.size = k.sched.size + 1 := rfl
  have hfds : (processCreate k).fds b =
      if b = k.sched.size then fdInitStd else k.fds b := Function.update_apply _ _ _ _
  rw [mem_slots, mem_slots, hsize, hfds]
  by_cases hb : b = k.sched.size
  · rw [if_pos hb, ref_fdInitStd]
    simp [hb]
  · have hlt : b < k.sched.size + 1 ↔ b < k.sched.size := by omega
    rw [if_neg hb, hlt]
    rfl

/-- A process without objects is freed. -/
lemma RefsOk.free (h : RefsOk k) (hclean : ∀ i < maxFds, (k.fds a i).ref = none) :
    RefsOk { k with freed := Function.update k.freed a true } := by
  have hheld : ∀ r, held { k with freed := Function.update k.freed a true } r = held k r :=
    fun r => by cases r <;> rfl
  refine ⟨⟨fun r => (hheld r).symm ▸ h.nonneg r, h.pipe, h.wbuf, h.newPipe, h.newWbuf, h.once,
    h.flushed⟩, fun r => ?_⟩
  rw [hheld, h.count, refCount_congr k
    { k with freed := Function.update k.freed a true } fun b j => ?_]
  simp only [mem_slots, Function.update_apply]
  by_cases hb : b = a
  · subst hb
    constructor
    · simp
    · rintro ⟨⟨-, hj⟩, hr⟩
      rw [hclean j hj] at hr
      cases hr
  · rw [if_neg hb]

/-- A change of the table of one process, slot by slot: `g` tells what becomes of the
object of each slot of the list. -/
structure Rounds (g : Option Ref → Option Ref) (k k' : Kern FS) (a : ℕ) (l : List ℕ) :
    Prop where
  others : ∀ b, b ≠ a → k'.fds b = k.fds b
  ref : ∀ j, (k'.fds a j).ref = if j ∈ l then g (k.fds a j).ref else (k.fds a j).ref
  freed : k'.freed = k.freed
  size : k'.sched.size = k.sched.size
  ok : RefsOk k → (∀ i ∈ l, (a, i) ∈ slots k) → RefsOk k'

lemma Rounds.slots {g : Option Ref → Option Ref} {l : List ℕ} (h : Rounds g k k' a l) :
    slots k' = slots k := by
  unfold Kernel.slots
  rw [h.freed, h.size]

/-- Round after round. -/
lemma Rounds.foldl {g : Option Ref → Option Ref} {f : Kern FS → ℕ → Kern FS}
    (hg : ∀ o, g (g o) = g o) (hf : ∀ k i, Rounds g k (f k i) a [i]) (l : List ℕ) :
    Rounds g k (l.foldl f k) a l := by
  induction l generalizing k with
  | nil => exact ⟨fun _ _ => rfl, fun j => by simp, rfl, rfl, fun h _ => h⟩
  | cons i l ih =>
    have h₁ := hf k i
    have h₂ := ih (k := f k i)
    refine ⟨fun b hb => (h₂.others b hb).trans (h₁.others b hb), fun j => ?_,
      h₂.freed.trans h₁.freed, h₂.size.trans h₁.size, fun h hl => h₂.ok ?_ fun j hj => ?_⟩
    · rw [List.foldl_cons, h₂.ref j, h₁.ref j]
      by_cases hji : j = i <;> by_cases hjl : j ∈ l <;> simp [hji, hjl, hg]
    · exact h₁.ok h fun j hj => hl j (by simpa using .inl (List.mem_singleton.mp hj))
    · rw [h₁.slots]
      exact hl j (List.mem_cons_of_mem _ hj)

/-- One slot closed. -/
lemma Rounds.close (ops : VfsOps FS) {g : Option Ref → Option Ref} (hr : (k.fds a i).ref = some r)
    (hg : g (some r) = none) (hf : f'.ref = none) :
    Rounds g k ((dropRef ops k r).setFd a i f') a [i] := by
  have ht : SameTables k (dropRef ops k r) := sameTables_dropRef r
  refine ⟨fun b hb => ?_, fun j => ?_, ht.freed, ht.size, fun h hl => ?_⟩
  · rw [Kern.setFd, ht.fds]
    exact Function.update_of_ne hb _ _
  · by_cases hj : j = i
    · subst hj
      rw [fds_setFd_self, hf]
      simp [hr, hg]
    · rw [fds_setFd_of_ne f' (by simpa using hj), ht.fds]
      simp [hj]
  · exact h.close (hl i List.mem_cons_self) hr hf

/-- One slot left alone. -/
lemma Rounds.skip {g : Option Ref → Option Ref} (hg : g (k.fds a i).ref = (k.fds a i).ref) :
    Rounds g k k a [i] := by
  refine ⟨fun _ _ => rfl, fun j => ?_, rfl, rfl, fun h _ => h⟩
  by_cases hj : j = i
  · subst hj
    simp [hg]
  · simp [hj]

/-- The objects other than write buffers. -/
def noWbuf : Option Ref → Option Ref
  | some (.wbuf _) => none
  | o => o

/-- The objects other than pipe ends. -/
def noPipe : Option Ref → Option Ref
  | some (.pipe _ _) => none
  | o => o

lemma rounds_fdCloseWritable (a : ℕ) :
    Rounds noWbuf k (fdCloseWritable ops k a) a (List.range maxFds) := by
  unfold fdCloseWritable
  refine Rounds.foldl (fun o => by rcases o with _ | _ | _ <;> rfl) (fun k i => ?_) _
  unfold fdCloseWritableSlot
  rcases (k.fds a i).ref_cases with ⟨hr, hb, -⟩ | ⟨w, hr, hb, -⟩ | ⟨e, p, hr, hb, -⟩ <;>
    simp only [hb]
  · exact .skip (by rw [hr]; rfl)
  · exact .close ops (r := .wbuf w) hr rfl rfl
  · exact .skip (by rw [hr]; rfl)

lemma rounds_fdClosePipes (ops : VfsOps FS) (a : ℕ) :
    Rounds noPipe k (fdClosePipes k a) a (List.range maxFds) := by
  unfold fdClosePipes
  refine Rounds.foldl (fun o => by rcases o with _ | _ | _ <;> rfl) (fun k i => ?_) _
  unfold fdClosePipesSlot
  rcases (k.fds a i).ref_cases with ⟨hr, -, hp⟩ | ⟨w, hr, -, hp⟩ | ⟨e, p, hr, -, hp⟩ <;>
    simp only [hp]
  · exact .skip (by rw [hr]; rfl)
  · exact .skip (by rw [hr]; rfl)
  · exact .close ops (r := .pipe e p) hr rfl rfl

/-- After `fd_close_writable` and `fd_close_pipes` no object is left. -/
lemma closeFds_spec (ops : VfsOps FS) (a : ℕ) :
    Rounds (fun _ => none) k (fdClosePipes (fdCloseWritable ops k a) a) a (List.range maxFds) := by
  have h₁ : Rounds noWbuf k (fdCloseWritable ops k a) a _ := rounds_fdCloseWritable a
  have h₂ := rounds_fdClosePipes (k := fdCloseWritable ops k a) ops a
  refine ⟨fun b hb => (h₂.others b hb).trans (h₁.others b hb), fun j => ?_,
    h₂.freed.trans h₁.freed, h₂.size.trans h₁.size, fun h hl => h₂.ok (h₁.ok h hl) ?_⟩
  · rw [h₂.ref, h₁.ref]
    split
    · rcases (k.fds a j).ref with _ | _ | _ <;> rfl
    · rfl
  · rwa [h₁.slots]

/-- `process_destroy` of a process that has not been freed. -/
lemma RefsOk.destroy (h : RefsOk k) (hlt : a < k.sched.size) (hf : k.freed a = false) :
    RefsOk (processDestroy ops k a) := by
  unfold processDestroy
  split
  · exact h
  · have hc := closeFds_spec (k := k) ops a
    refine (hc.ok h fun i hi => mem_slots.mpr ⟨⟨hlt, hf⟩, List.mem_range.mp hi⟩).free fun i hi => ?_
    rw [hc.ref, if_pos (List.mem_range.mpr hi)]

/-- The copy of the table of the parent in `process_fork`. -/
lemma RefsOk.inheritFds {parent child : ℕ} (h : RefsOk k)
    (hp : parent < k.sched.size ∧ k.freed parent = false)
    (hc : child < k.sched.size ∧ k.freed child = false)
    (hempty : ∀ i < maxFds, (k.fds child i).ref = none) :
    RefsOk (inheritFds k parent child) := by
  unfold Kernel.inheritFds
  -- round by round, the slots still to come hold no object
  have hloop : ∀ (l : List ℕ) (k₁ : Kern FS), l.Nodup → (∀ i ∈ l, i < maxFds) → RefsOk k₁ →
      SameTables { k with fds := k₁.fds } k₁ → (∀ i ∈ l, (k₁.fds child i).ref = none) →
      RefsOk (l.foldl (fun k i => inheritFd k parent child i) k₁) := by
    intro l
    induction l with
    | nil => exact fun k₁ _ _ h₁ _ _ => h₁
    | cons i l ih =>
      intro k₁ hnd hl h₁ ht hnone
      have hslot : ∀ b, b < k.sched.size ∧ k.freed b = false → (b, i) ∈ slots k₁ := by
        intro b hb
        rw [mem_slots, ht.size, ht.freed]
        exact ⟨hb, hl i List.mem_cons_self⟩
      have hcopy : RefsOk (inheritFd k₁ parent child i) :=
        h₁.copy (hslot child hc) (hnone i List.mem_cons_self) fun r hr =>
          h₁.held_pos (hslot parent hp) hr
      have hshare : SameTables (k₁.setFd child i (k₁.fds parent i))
          (inheritFd k₁ parent child i) := by
        rw [inheritFd, shareFd_eq]
        cases (k₁.fds parent i).ref with
        | none => exact ⟨rfl, rfl, rfl⟩
        | some r => exact sameTables_addRef r
      refine ih _ (List.nodup_cons.mp hnd).2 (fun j hj => hl j (List.mem_cons_of_mem _ hj))
        hcopy ⟨rfl, hshare.freed.trans ht.freed, hshare.size.trans ht.size⟩ fun j hj => ?_
      have hji : j ≠ i := ne_of_mem_of_not_mem hj (List.nodup_cons.mp hnd).1
      rw [hshare.fds, fds_setFd_of_ne _ (by simpa using hji)]
      exact hnone j (List.mem_cons_of_mem _ hj)
  exact hloop _ k List.nodup_range (fun i hi => List.mem_range.mp hi) h ⟨rfl, rfl, rfl⟩
    fun i hi => hempty i (List.mem_range.mp hi)

end

end GordOS.Kernel
