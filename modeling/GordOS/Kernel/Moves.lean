/-
What an event does to the keyboard buffer and to the write buffers.

Nearly everything the kernel does leaves the keyboard buffer alone and only takes and
gives back references to write buffers. The exceptions are the reads from the keyboard,
a typed character, the start of a program, and a write to a buffered file.

* `Aside`: a change of neither kind of buffer; `Moves`: such changes, new buffers, and
  references taken and given back, one after the other;
* `Moves.works`, `Moves.processExit`, `moves_pipeReadFd`, ...: what is made of them;
* `Event.did`: **every event is made of them, or is one of the exceptions**.
-/
import Mathlib.Tactic
import GordOS.Kernel.Outcomes

namespace GordOS.Kernel

open GordOS

section

variable {FS : Type} {ops : VfsOps FS} {k k' k'' : Kern FS}

/-! ### Moves -/

/-- The buffers are as before, and no process starts to wait for the keyboard. -/
structure Aside (k k' : Kern FS) : Prop where
  kbd : k'.kbd = k.kbd
  wbufs : k'.wbufs = k.wbufs
  wbufCount : k'.wbufCount = k.wbufCount
  cont : ∀ a len, k'.cont a = .ttyRead len → k.cont a = .ttyRead len

/-- Changes that leave the buffers alone, new write buffers, and references to write
buffers taken and given back. -/
inductive Moves (ops : VfsOps FS) (k : Kern FS) : Kern FS → Prop where
  | refl : Moves ops k k
  | tail {k' k'' : Kern FS} (h : Moves ops k k') (ha : Aside k' k'') : Moves ops k k''
  | opened {k' : Kern FS} (h : Moves ops k k') (path : Name) : Moves ops k (wbufOpen k' path)
  | ref {k' : Kern FS} (h : Moves ops k k') (w : ℕ) : Moves ops k (wbufRef k' (some w))
  | unref {k' : Kern FS} (h : Moves ops k k') (w : ℕ) :
      Moves ops k (wbufUnref ops k' (some w))

namespace Moves

lemma of_eq (h : Moves ops k k') (kbd : k''.kbd = k'.kbd) (wbufs : k''.wbufs = k'.wbufs)
    (wbufCount : k''.wbufCount = k'.wbufCount) (cont : k''.cont = k'.cont) :
    Moves ops k k'' :=
  h.tail ⟨kbd, wbufs, wbufCount, fun a len hc => by rwa [cont] at hc⟩

/-- A process goes on at another place than `tty_read`. -/
lemma update (h : Moves ops k k') {c : Cont} (hc : ∀ len, c ≠ .ttyRead len) (a : ℕ)
    (kbd : k''.kbd = k'.kbd) (wbufs : k''.wbufs = k'.wbufs)
    (wbufCount : k''.wbufCount = k'.wbufCount) (cont : k''.cont = Function.update k'.cont a c) :
    Moves ops k k'' := by
  refine h.tail ⟨kbd, wbufs, wbufCount, fun b len hb => ?_⟩
  rw [cont, Function.update_apply] at hb
  split at hb
  · exact absurd hb (hc len)
  · exact hb

lemma answer (h : Moves ops k k') (ret : ℤ) : Moves ops k (Kernel.answer k' ret).2 :=
  h.update (c := .user) (fun _ hc => by cases hc) k'.me rfl rfl rfl rfl

lemma resume (h : Moves ops k k') : Moves ops k k'.resume := h.answer 0

lemma sleep (h : Moves ops k k') (r : BlockReason) (w : ℕ) {c : Cont}
    (hc : ∀ len, c ≠ .ttyRead len) : Moves ops k (k'.sleep r w c) :=
  h.update hc k'.me rfl rfl rfl rfl

lemma wake (h : Moves ops k k') (a : Option ℕ) : Moves ops k (k'.wake a) := by
  cases a with
  | none => exact h
  | some a => exact h.of_eq rfl rfl rfl rfl

lemma setPipe (h : Moves ops k k') (p : ℕ) (v : Option Pipe) : Moves ops k (k'.setPipe p v) :=
  h.of_eq rfl rfl rfl rfl

lemma setFd (h : Moves ops k k') (a i : ℕ) (f : Fd) : Moves ops k (k'.setFd a i f) :=
  h.of_eq rfl rfl rfl rfl

lemma setFs (h : Moves ops k k') (fs : FS) : Moves ops k { k' with fs := fs } :=
  h.of_eq rfl rfl rfl rfl

lemma closePipeEnd (h : Moves ops k k') (e : PipeEnd) (p : ℕ) :
    Moves ops k (closePipeEnd k' e p) := by
  rw [Kernel.closePipeEnd]
  split
  · exact h
  · next q _ =>
    have h₁ := (h.wake ((q.addOpen e (-1)).peer e)).setPipe p
      (some ((q.addOpen e (-1)).clearPeer e))
    dsimp only
    split
    · exact h₁.setPipe p none
    · exact h₁

/-- The calls on descriptors are moves. -/
lemma works (h : Moves ops k k') (hw : Works ops k' k'') : Moves ops k k'' := by
  induction hw with
  | refl => exact h
  | setFd _ a i f ih => exact ih.setFd a i f
  | ref _ w ih => exact ih.ref w
  | unref _ w ih => exact ih.unref w
  | addEnd _ e p ih => exact ih.setPipe p _
  | closeEnd _ e p ih => exact ih.closePipeEnd e p

lemma processExit (h : Moves ops k k') : Moves ops k (processExit ops k') := by
  rw [Kernel.processExit]
  dsimp only
  split
  · exact h
  · have hfg : Moves ops k { k' with foreground := exitForeground k' k'.me } :=
      h.of_eq rfl rfl rfl rfl
    exact (hfg.works (.closeFds .refl k'.me)).of_eq rfl rfl rfl rfl

lemma processDestroy (h : Moves ops k k') (a : ℕ) : Moves ops k (processDestroy ops k' a) := by
  rw [Kernel.processDestroy]
  split
  · exact h
  · exact (h.works (.closeFds .refl a)).of_eq rfl rfl rfl rfl

lemma processCreate (h : Moves ops k k') : Moves ops k (processCreate k') :=
  h.update (c := .user) (fun _ hc => by cases hc) k'.sched.size rfl rfl rfl rfl

lemma killPid (h : Moves ops k k') (pid : ℕ) : Moves ops k (killPid k' pid).2 := by
  rw [Kernel.killPid]
  split
  · exact h
  · split
    · exact h
    · exact h.of_eq rfl rfl rfl rfl

end Moves

/-! ### System calls -/

lemma moves_pipeReadFd (p len : ℕ) : Moves ops k (pipeReadFd k p len).2 := by
  have h : Moves ops k k := .refl
  rw [pipeReadFd]
  split
  · exact h.answer _
  · next q _ =>
    rcases pipeReadRound k.me q len with ⟨_ | _ | _, q'⟩
    · exact ((h.wake _).setPipe _ _).resume
    · exact h.answer _
    · exact (h.setPipe _ _).sleep _ _ fun _ hc => by cases hc

lemma moves_pipeWriteLoop (p : ℕ) (data : List UInt8) (n : ℕ) :
    ∀ (written : ℕ) (k' : Kern FS), Moves ops k k' →
      Moves ops k (pipeWriteLoop p data n written k').2 := by
  induction n with
  | zero => exact fun written k' h => h.answer _
  | succ n ih =>
    intro written k' h
    rw [pipeWriteLoop]
    split
    · split
      · exact h.answer _
      · next q _ =>
        rcases pipeWriteRound k'.me q data written with ⟨_ | _ | _, q'⟩
        · exact ih _ _ ((h.wake _).setPipe _ _)
        · exact h.answer _
        · exact (h.setPipe _ _).sleep _ _ fun _ hc => by cases hc
    · exact h.answer _

lemma moves_waitLoop (target status : ℕ) : Moves ops k (waitLoop k target status).2 := by
  have h : Moves ops k k := .refl
  rw [waitLoop]
  split
  · next r records _ =>
    have hrec : Moves ops k { k with records := records, waits := k.waits ++ [⟨k.me, target, r⟩] } :=
      h.of_eq rfl rfl rfl rfl
    exact hrec.resume
  · split
    · exact h.sleep _ _ fun _ hc => by cases hc
    · exact h.answer _

lemma moves_processFork (o : ForkOutcome) : Moves ops k (processFork ops k o).2 := by
  have h : Moves ops k (processCreate k) := Moves.refl.processCreate
  cases o with
  | noProcess => exact .refl
  | noCopy => exact (h.works (.inheritFds .refl _ _)).processDestroy _
  | done => exact (h.works (.inheritFds .refl _ _)).of_eq rfl rfl rfl rfl

/-! ### Events -/

/-- What an event does: moves, or one of the things that are none. -/
inductive Did (ops : VfsOps FS) (k : Kern FS) : Event → Option Reply × Kern FS → Prop where
  | moves {e : Event} {r : Option Reply × Kern FS} (h : Moves ops k r.2) : Did ops k e r
  | read {e : Event} (len : ℕ) (hlen : 0 < len ∨ e = .resume ∧ k.cont k.me = .ttyRead len) :
      Did ops k e (ttyRead k len)
  | key (c : UInt8) : Did ops k (.key c) (none, deliverChar k c)
  | start : Did ops k (.shellStart true .done) (none, startProgram ops k true .done)
  | write {fd : ℤ} {buf i w : ℕ} {data : List UInt8} (hfd : fdOf k fd = some i)
      (hw : (k.fds k.me i).buffer = some w) :
      Did ops k (.call (.write fd buf data))
        (answer (wbufWrite k w data).2 (wbufWrite k w data).1)

lemma Syscall.did (c : Syscall) : Did ops k (.call c) (c.run ops k) := by
  have h : Moves ops k k := .refl
  have hc : Outcome ops k c (c.run ops k) := c.outcome ops k
  generalize c.run ops k = r at hc
  cases hc with
  | answer | readfile => exact .moves (h.setFs _).resume
  | read | seek | opened => exact .moves ((h.setFs _).setFd _ _ _).resume
  | created => exact .moves ((h.opened _).setFd _ _ _).resume
  | close => exact .moves (h.works (.closeFd .refl _)).resume
  | dup _ _ hk₁ => exact .moves (h.works (.dup hk₁)).resume
  | pipe =>
    have hp : Moves ops k
        { k.setPipe k.pipeCount (some pipeCreate) with pipeCount := k.pipeCount + 1 } :=
      h.of_eq rfl rfl rfl rfl
    exact .moves ((hp.setFd _ _ _).setFd _ _ _).resume
  | write hi hw => exact .write hi hw
  | pipeWrite => exact .moves (moves_pipeWriteLoop _ _ _ 0 k h)
  | pipeRead => exact .moves (moves_pipeReadFd _ _)
  | ttyRead _ hlen | readraw _ hlen => exact .read _ (.inl hlen)
  | wait => exact .moves (moves_waitLoop _ _)
  | @exit code =>
    have hx : Moves ops k { k with exitCode := Function.update k.exitCode k.me code } :=
      h.of_eq rfl rfl rfl rfl
    exact .moves hx.processExit
  | started fs => exact .moves (h.setFs fs)
  | died fs => exact .moves (h.setFs fs).processExit
  | fork => exact .moves ((moves_processFork _).answer _)
  | @gave _ target =>
    have hf : Moves ops k { k with foreground := some target } := h.of_eq rfl rfl rfl rfl
    exact .moves (hf.answer _)
  | kill => exact .moves ((h.killPid _).answer _)

/-- **What an event does**: moves, a read from the keyboard, a typed character, the start
of a program with the keyboard, or a write to a buffered file. -/
theorem Event.did (e : Event) : Did ops k e (e.run ops k) := by
  have h : Moves ops k k := .refl
  cases e with
  | call c => exact c.did
  | fault =>
    have hc : Moves ops k { k with exitCode := Function.update k.exitCode k.me (-1) } :=
      h.of_eq rfl rfl rfl rfl
    exact .moves hc.processExit
  | resume =>
    rw [Event.run]
    cases hc : k.cont k.me with
    | user => exact .moves h
    | pipeRead p len => exact .moves (moves_pipeReadFd p len)
    | pipeWrite p data written => exact .moves (moves_pipeWriteLoop p data _ written k h)
    | wait target status => exact .moves (moves_waitLoop target status)
    | ttyRead len => exact .read len (.inr ⟨rfl, hc⟩)
  | tick => exact .moves (h.of_eq rfl rfl rfl rfl)
  | key c => exact .key c
  | shellStart fg o =>
    cases o with
    | noProcess => exact .moves h
    | noProgram => exact .moves (h.processCreate.processDestroy _)
    | done =>
      cases fg with
      | false => exact .moves (h.processCreate.of_eq rfl rfl rfl rfl)
      | true => exact .start
  | shellKill pid => exact .moves (h.killPid pid)
  | shellFs op => exact .moves (h.setFs _)
  | reapTake => exact .moves (h.of_eq rfl rfl rfl rfl)
  | reapOne =>
    rw [Event.run, Kernel.reapOne]
    split
    · exact .moves h
    · next a _ =>
      have ht : Moves ops k { k with sched := { k.sched with reapList := k.sched.next a } } :=
        h.of_eq rfl rfl rfl rfl
      exact .moves (ht.processDestroy a)

end

end GordOS.Kernel
