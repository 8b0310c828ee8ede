/-
How the system calls end (`kernel/syscall.c`).

A call checks its arguments and then does one of a few things. What these are is said here
once, and each property of the calls is shown for them.

* `Works`: the changes that the calls on descriptors are made of, one after the other;
* `Outcome ops k c r`: the call `c`, made in the state `k`, can end with `r`;
* `Syscall.outcome`: **every call ends in one of these ways**.
-/
import Mathlib.Tactic
import GordOS.Kernel.Syscall

namespace GordOS.Kernel

open GordOS

section

variable {FS : Type} {ops : VfsOps FS} {k k' : Kern FS} {c : Syscall}

/-! ### Descriptors -/

/-- Slots are written, and what is behind them is shared and given back. -/
inductive Works (ops : VfsOps FS) (k : Kern FS) : Kern FS → Prop where
  | refl : Works ops k k
  | setFd {k' : Kern FS} (h : Works ops k k') (a i : ℕ) (f : Fd) : Works ops k (k'.setFd a i f)
  | ref {k' : Kern FS} (h : Works ops k k') (w : ℕ) : Works ops k (wbufRef k' (some w))
  | unref {k' : Kern FS} (h : Works ops k k') (w : ℕ) : Works ops k (wbufUnref ops k' (some w))
  | addEnd {k' : Kern FS} (h : Works ops k k') (e : PipeEnd) (p : ℕ) :
      Works ops k (k'.setPipe p ((k'.pipes p).map fun q => q.addOpen e 1))
  | closeEnd {k' : Kern FS} (h : Works ops k k') (e : PipeEnd) (p : ℕ) :
      Works ops k (closePipeEnd k' e p)

namespace Works

lemma shareFd (h : Works ops k k') (f : Fd) : Works ops k (shareFd k' f) := by
  have hw : Works ops k (wbufRef k' f.buffer) := by
    cases f.buffer with
    | none => exact h
    | some w => exact h.ref w
  rw [Kernel.shareFd]
  split
  · exact hw
  · exact hw.addEnd _ _

lemma closeFd (h : Works ops k k') (i : ℕ) : Works ops k (closeFd ops k' i) := by
  have hw : Works ops k (wbufUnref ops k' (k'.fds k'.me i).buffer) := by
    cases (k'.fds k'.me i).buffer with
    | none => exact h
    | some w => exact h.unref w
  refine Works.setFd ?_ _ _ _
  rw [releaseFd]
  split
  · exact hw
  · exact hw.closeEnd _ _

/-- A loop over the slots of a table. -/
lemma foldl {f : Kern FS → ℕ → Kern FS} (hf : ∀ k' i, Works ops k k' → Works ops k (f k' i))
    (h : Works ops k k') (l : List ℕ) : Works ops k (l.foldl f k') := by
  induction l generalizing k' with
  | nil => exact h
  | cons i l ih => exact ih (hf k' i h)

lemma closeFds (h : Works ops k k') (a : ℕ) :
    Works ops k (fdClosePipes (fdCloseWritable ops k' a) a) := by
  have hw : Works ops k (fdCloseWritable ops k' a) := by
    unfold fdCloseWritable
    refine foldl (fun k' i h => ?_) h _
    rw [fdCloseWritableSlot]
    split
    · exact h
    · next w _ => exact (h.unref w).setFd _ _ _
  unfold fdClosePipes
  refine foldl (fun k' i h => ?_) hw _
  rw [fdClosePipesSlot]
  split
  · exact h
  · exact (h.closeEnd _ _).setFd _ _ _

lemma inheritFds (h : Works ops k k') (parent child : ℕ) :
    Works ops k (inheritFds k' parent child) := by
  unfold Kernel.inheritFds
  exact foldl (fun k' i h => (h.setFd _ _ _).shareFd _) h _

/-- A copy of a descriptor in a slot that is free, or is closed before. -/
lemma dup {i j : ℕ} {k₁ : Kern FS} {P : Prop} (h : k₁ = k ∧ P ∨ k₁ = Kernel.closeFd ops k j) :
    Works ops k
      (Kernel.shareFd (k₁.setFd k₁.me j (k₁.fds k₁.me i)) (k₁.fds k₁.me i)) := by
  refine shareFd (setFd ?_ _ _ _) _
  rcases h with ⟨rfl, -⟩ | rfl
  · exact .refl
  · exact Works.refl.closeFd j

end Works

/-! ### System calls -/

/-- The slot of the running process is not in use. -/
def Kern.FreeSlot (k : Kern FS) (i : ℕ) : Prop := i < maxFds ∧ (k.fds k.me i).kind = .none

/-- **What a call comes to.** Calls that are refused, and those that only look at the file
system or change it, end with `answer`. -/
inductive Outcome (ops : VfsOps FS) (k : Kern FS) : Syscall → Option Reply × Kern FS → Prop where
  | answer {c : Syscall} (fs : FS) (ret : ℤ) : Outcome ops k c (answer { k with fs := fs } ret)
  | readfile {upath buf max : ℕ} {str path : Name} {bytes : List UInt8} {fs : FS}
      (hr : userRangeOk buf max = true) (hread : ops.readFile path max k.fs = (some bytes, fs)) :
      Outcome ops k (.fs (.readfile upath str buf max))
        (some ⟨bytes.length, bytes⟩, { k with fs := fs }.resume)
  | read {fd ret : ℤ} {buf len i : ℕ} {mem : Bool} {bytes : List UInt8} {f : Fd} {fs : FS}
      (hi : fdOf k fd = some i) (hr : userRangeOk buf len = true)
      (hread : fileRead ops mem (k.fds k.me i) len k.fs = (some (ret, bytes, f), fs)) :
      Outcome ops k (.read fd buf len mem)
        (some ⟨ret, bytes⟩, ({ k with fs := fs }.setFd k.me i f).resume)
  | seek {fd offset whence ret : ℤ} {i : ℕ} {f : Fd} {fs : FS} (hi : fdOf k fd = some i)
      (hseek : fileSeek ops (k.fds k.me i) offset whence k.fs = (some (ret, f), fs)) :
      Outcome ops k (.lseek fd offset whence) (Kernel.answer ({ k with fs := fs }.setFd k.me i f) ret)
  | opened {upath flags i : ℕ} {str : Name} {mem : Bool} {f : Fd} (fs : FS) (hi : k.FreeSlot i)
      (hf : f.buffer = none ∧ f.pipeEnd = none) :
      Outcome ops k (.open upath str flags mem) (Kernel.answer ({ k with fs := fs }.setFd k.me i f) i)
  | created {upath flags i : ℕ} {str path : Name} {mem : Bool} {f : Fd} (hi : k.FreeSlot i)
      (hf : f.buffer = some k.wbufCount) :
      Outcome ops k (.open upath str flags mem) (Kernel.answer ((wbufOpen k path).setFd k.me i f) i)
  | close {fd : ℤ} {i : ℕ} (hi : fdOf k fd = some i) :
      Outcome ops k (.close fd) (Kernel.answer (closeFd ops k i) 0)
  | dup {oldfd newfd : ℤ} {i j : ℕ} {k₁ : Kern FS} (hi : fdOf k oldfd = some i) (hj : j < maxFds)
      (hk₁ : k₁ = k ∧ k.FreeSlot j ∨ k₁ = closeFd ops k j) :
      Outcome ops k (.dup2 oldfd newfd)
        (Kernel.answer (shareFd (k₁.setFd k₁.me j (k₁.fds k₁.me i)) (k₁.fds k₁.me i)) newfd)
  | pipe {userFds r w : ℕ} {mem : Bool} {f f' : Fd} (hu : userRangeOk userFds 8 = true)
      (hr : k.FreeSlot r) (hw : k.FreeSlot w) (hne : w ≠ r)
      (hf : f.pipeEnd = some (.read, k.pipeCount)) (hf' : f'.pipeEnd = some (.write, k.pipeCount)) :
      Outcome ops k (.pipe userFds mem) (some ⟨0, intBytes r ++ intBytes w⟩,
        (({ k.setPipe k.pipeCount (some pipeCreate) with
          pipeCount := k.pipeCount + 1 }.setFd k.me r f).setFd k.me w f').resume)
  | write {fd : ℤ} {buf i w : ℕ} {data : List UInt8} (hi : fdOf k fd = some i)
      (hw : (k.fds k.me i).buffer = some w) : Outcome ops k (.write fd buf data)
        (Kernel.answer (wbufWrite k w data).2 (wbufWrite k w data).1)
  | pipeWrite {fd : ℤ} {buf i p : ℕ} {data : List UInt8} (hi : fdOf k fd = some i)
      (hp : (k.fds k.me i).pipeEnd = some (.write, p)) :
      Outcome ops k (.write fd buf data) (pipeWriteLoop p data data.length 0 k)
  | pipeRead {fd : ℤ} {buf len i p : ℕ} {mem : Bool} (hi : fdOf k fd = some i)
      (hr : userRangeOk buf len = true) (hp : (k.fds k.me i).pipeEnd = some (.read, p)) :
      Outcome ops k (.read fd buf len mem) (pipeReadFd k p len)
  | ttyRead {fd : ℤ} {buf len : ℕ} {mem : Bool} (hr : userRangeOk buf len = true)
      (hlen : 0 < len) : Outcome ops k (.read fd buf len mem) (ttyRead k len)
  | readraw {buf len : ℕ} (hr : userRangeOk buf len = true) (hlen : 0 < len) :
      Outcome ops k (.readraw buf len) (Kernel.ttyRead k len)
  | wait {target status : ℕ} (hs : status ≠ 0 → userRangeOk status 4 = true) :
      Outcome ops k (.wait target status) (waitLoop k target status)
  | exit {code : ℤ} : Outcome ops k (.exit code)
      (none, processExit ops { k with exitCode := Function.update k.exitCode k.me code })
  | started {upath : ℕ} {str : Name} {mem : Bool} (fs : FS) :
      Outcome ops k (.exec upath str mem .started) (none, { k with fs := fs })
  | died {upath : ℕ} {str : Name} {mem : Bool} (fs : FS) :
      Outcome ops k (.exec upath str mem .died) (none, processExit ops { k with fs := fs })
  | fork {o : ForkOutcome} :
      Outcome ops k (.fork o) (Kernel.answer (processFork ops k o).2 (processFork ops k o).1)
  | gave {pid target : ℕ} (hf : schedulerFindAny k.sched pid = some target) :
      Outcome ops k (.giveForeground pid) (Kernel.answer { k with foreground := some target } 0)
  | kill {pid : ℕ} :
      Outcome ops k (.kill pid) (Kernel.answer (killPid k pid).2 (killPid k pid).1)

namespace Outcome

lemma unchanged (ret : ℤ) : Outcome ops k c (Kernel.answer k ret) := .answer k.fs ret

lemma doFdWrite (fd : ℤ) (buf : ℕ) (data : List UInt8) :
    Outcome ops k (.write fd buf data) (doFdWrite k fd buf data) := by
  rw [Kernel.doFdWrite]
  split
  · exact .unchanged _
  · next i hi =>
    split
    · exact .unchanged _
    · dsimp only
      split
      · exact .unchanged _
      · split
        · exact .unchanged _
        · next w hw => exact .write hi hw
      · next hkind =>
        split
        · exact .unchanged _
        · next p hp =>
          rw [pipeWriteFd]
          split
          · exact .unchanged _
          · split
            · exact .unchanged _
            · exact .pipeWrite hi (by rw [Fd.pipeEnd, hkind, hp])
      · exact .unchanged _

lemma doFdRead (fd : ℤ) (buf len : ℕ) (mem : Bool) :
    Outcome ops k (.read fd buf len mem) (doFdRead ops k fd buf len mem) := by
  rw [Kernel.doFdRead]
  split
  · exact .unchanged _
  · next i hi =>
    split
    · exact .unchanged _
    · next hr =>
      replace hr := not_not.mp hr
      split
      · exact .unchanged _
      · next hlen =>
        dsimp only
        split
        · exact .ttyRead hr (Nat.pos_of_ne_zero hlen)
        · split
          · exact .answer _ _
          · next hread => exact .read hi hr hread
        · next hkind =>
          split
          · exact .unchanged _
          · next p hp => exact .pipeRead hi hr (by rw [Fd.pipeEnd, hkind, hp])
        · exact .unchanged _

lemma sysLseek (fd offset whence : ℤ) :
    Outcome ops k (.lseek fd offset whence) (sysLseek ops k fd offset whence) := by
  rw [Kernel.sysLseek]
  split
  · exact .unchanged _
  · next i hi =>
    split
    · exact .answer _ _
    · next hseek => exact .seek hi hseek

lemma sysOpen (upath : ℕ) (str : Name) (flags : ℕ) (mem : Bool) :
    Outcome ops k (.open upath str flags mem) (sysOpen ops k upath str flags mem) := by
  rw [Kernel.sysOpen]
  split
  · exact .unchanged _
  · cases hfree : freeSlot k with
    | none => exact .unchanged _
    | some i =>
      have hi : k.FreeSlot i := ⟨List.mem_range.mp (List.mem_of_find?_eq_some hfree),
        by simpa using List.find?_some hfree⟩
      dsimp only
      split
      · split
        · exact .created hi rfl
        · exact .unchanged _
      · split
        · exact .answer _ _
        · exact .opened _ hi ⟨rfl, rfl⟩

lemma sysDup2 (oldfd newfd : ℤ) :
    Outcome ops k (.dup2 oldfd newfd) (sysDup2 ops k oldfd newfd) := by
  rw [Kernel.sysDup2]
  split
  · exact .unchanged _
  · next i hi =>
    split
    · exact .unchanged _
    · split
      · exact .unchanged _
      · have hj : newfd.toNat < maxFds := by omega
        dsimp only
        split
        · next hnone => exact .dup hi hj (.inl ⟨rfl, hj, hnone⟩)
        · exact .dup hi hj (.inr rfl)

lemma sysPipe (userFds : ℕ) (mem : Bool) :
    Outcome ops k (.pipe userFds mem) (sysPipe k userFds mem) := by
  rw [Kernel.sysPipe]
  split
  · exact .unchanged _
  · next hu =>
    split
    · next r w rest hfree =>
      split
      · have hmem : ∀ i ∈ r :: w :: rest, k.FreeSlot i := by
          intro i hi
          rw [← hfree, List.mem_filter] at hi
          exact ⟨List.mem_range.mp hi.1, by simpa using hi.2⟩
        have hnd : (r :: w :: rest).Nodup := hfree ▸ List.nodup_range.filter _
        have hne : w ≠ r := fun e => (List.nodup_cons.mp hnd).1 (by simp [e])
        exact .pipe (not_not.mp hu) (hmem r List.mem_cons_self)
          (hmem w (List.mem_cons_of_mem _ List.mem_cons_self)) hne rfl rfl
      · exact .unchanged _
    · exact .unchanged _

lemma sysExec (upath : ℕ) (str : Name) (mem : Bool) (o : ExecOutcome) :
    Outcome ops k (.exec upath str mem o) (sysExec ops k upath str mem o) := by
  rw [Kernel.sysExec]
  split
  · exact .unchanged _
  · split
    · exact .answer _ _
    · split
      · split
        · exact .answer _ _
        · cases o with
          | refused => exact .answer _ _
          | started => exact .started _
          | died => exact .died _
      · exact .answer _ _

lemma sysFs (c : FsCall) : Outcome ops k (.fs c) (sysFs ops k c) := by
  cases c with
  | readfile upath str buf max =>
    rw [Kernel.sysFs]
    split
    · exact .unchanged _
    · split
      · exact .unchanged _
      · next hr =>
        split
        · exact .answer _ _
        · next hread => exact .readfile (not_not.mp hr) hread
  | writefile upath str buf data =>
    rw [Kernel.sysFs]
    split
    · exact .unchanged _
    · split
      · exact .unchanged _
      · exact .answer _ _
  | _ =>
    rw [Kernel.sysFs]
    split
    · first | exact .unchanged _ | exact .answer _ _
    · first | exact .unchanged _ | exact .answer _ _

end Outcome

/-- **Every call ends in one of these ways.** -/
theorem Syscall.outcome (ops : VfsOps FS) (k : Kern FS) (c : Syscall) :
    Outcome ops k c (c.run ops k) := by
  cases c with
  | write fd buf data => exact .doFdWrite fd buf data
  | read fd buf len mem => exact .doFdRead fd buf len mem
  | readraw buf len =>
    rw [Syscall.run]
    split
    · exact .unchanged _
    · next hr =>
      split
      · exact .unchanged _
      · next hlen => exact .readraw (not_not.mp hr) (Nat.pos_of_ne_zero hlen)
  | lseek fd offset whence => exact .sysLseek fd offset whence
  | «open» upath str flags mem => exact .sysOpen upath str flags mem
  | close fd =>
    rw [Syscall.run, sysClose]
    split
    · exact .unchanged _
    · next hi => exact .close hi
  | dup2 oldfd newfd => exact .sysDup2 oldfd newfd
  | pipe userFds mem => exact .sysPipe userFds mem
  | exit code => exact .exit
  | fork o => exact .fork
  | exec upath str mem o => exact .sysExec upath str mem o
  | wait target status =>
    rw [Syscall.run, sysWait]
    split
    · exact .unchanged _
    · next h => exact .wait fun hs => not_not.mp fun hr => h ⟨hs, hr⟩
  | giveForeground pid =>
    rw [Syscall.run, sysGiveForeground]
    split
    · exact .unchanged _
    · next hf => exact .gave hf
  | kill pid => exact .kill
  | fs c => exact .sysFs c
  | other ret => exact .unchanged ret

end

end GordOS.Kernel
