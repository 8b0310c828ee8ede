/-
Pipes (`kernel/pipe.c`, and `pipe_read_fd` and `pipe_write_fd` of
`kernel/syscall.c`).

A process sleeps in the middle of the loops of `pipe_read_fd` and
`pipe_write_fd`, so each of them is given by one round of its loop: it goes on,
returns, or sleeps with the process noted as the waiting reader or writer.

* `Pipe`, `pipeCreate`;
* `pipeReadRound`, `pipeWriteRound`: one round of the loops;
* `pipeReadRound_cases`, `pipeWriteRound_cases`: what a round can do to the bytes
  in the pipe.
-/
import Mathlib.Tactic
import GordOS.Lib.RingBuffer

namespace GordOS.Kernel

open GordOS

/-- `PIPE_BUF_SIZE`. -/
def pipeBufSize : ℕ := 4096

/-- `pipe_t`. -/
structure Pipe extends RingBuffer UInt8 where
  readOpen : ℤ
  writeOpen : ℤ
  blockedReader : Option ℕ
  blockedWriter : Option ℕ

/-- `pipe_create`. -/
def pipeCreate : Pipe where
  buf := fun _ => 0
  head := 0
  tail := 0
  readOpen := 1
  writeOpen := 1
  blockedReader := none
  blockedWriter := none

namespace Pipe

/-- The number of bytes in the pipe. -/
def avail (p : Pipe) : ℕ := p.toRingBuffer.used pipeBufSize

/-- The number of bytes that can still be written. -/
def space (p : Pipe) : ℕ := pipeBufSize - 1 - p.avail

/-- The bytes from `tail` to `head`. -/
def bytes (p : Pipe) : List UInt8 := p.toRingBuffer.contents pipeBufSize

/-- The indices lie in the buffer. -/
def Ok (p : Pipe) : Prop := p.toRingBuffer.Ok pipeBufSize

end Pipe

/-- The end of a round of `pipe_read_fd`. -/
inductive ReadRound where
  | got (chunk : List UInt8)
  | eof
  | sleep
deriving DecidableEq

/-- One round of the loop of `pipe_read_fd` for the process `me`. The waiting
writer of the pipe before the round is woken when bytes were read. -/
def pipeReadRound (me : ℕ) (p : Pipe) (len : ℕ) : ReadRound × Pipe :=
  if 0 < p.avail then
    let r := RingBuffer.popN pipeBufSize (min p.avail len) p.toRingBuffer
    (.got r.1, { p with toRingBuffer := r.2, blockedWriter := none })
  else if p.writeOpen = 0 then (.eof, p)
  else (.sleep, { p with blockedReader := some me })

/-- The end of a round of `pipe_write_fd`. -/
inductive WriteRound where
  | more (chunk : List UInt8)
  | broken
  | sleep
deriving DecidableEq

/-- One round of the loop of `pipe_write_fd` for the process `me`, with the
number of bytes already written. The waiting reader of the pipe before the round
is woken when bytes were written. -/
def pipeWriteRound (me : ℕ) (p : Pipe) (data : List UInt8) (written : ℕ) :
    WriteRound × Pipe :=
  if 0 < p.space then
    let n := min p.space (data.length - written)
    let chunk := (data.drop written).take n
    (.more chunk,
      { p with
        toRingBuffer := p.toRingBuffer.pushAll pipeBufSize chunk
        blockedReader := none })
  else if p.readOpen = 0 then (.broken, p)
  else (.sleep, { p with blockedWriter := some me })

/-! ### The bytes in the pipe -/

section

variable {me len written : ℕ} {p : Pipe} {data : List UInt8}

@[simp] lemma Pipe.length_bytes : p.bytes.length = p.avail :=
  RingBuffer.length_contents

lemma Pipe.Ok.avail_lt (h : p.Ok) : p.avail < pipeBufSize := h.used_lt

lemma pipeCreate_ok : pipeCreate.Ok := ⟨by decide, by decide⟩

/-- A round of a read: the first bytes are taken out, or the pipe is empty. -/
lemma pipeReadRound_cases (me len : ℕ) (h : p.Ok) :
    (∃ chunk p', pipeReadRound me p len = (.got chunk, p') ∧ 0 < p.avail ∧ p'.Ok ∧
      p.bytes = chunk ++ p'.bytes ∧ chunk.length = min p.avail len) ∨
    (pipeReadRound me p len = (.eof, p) ∧ p.bytes = [] ∧ p.writeOpen = 0) ∨
    (pipeReadRound me p len = (.sleep, { p with blockedReader := some me }) ∧
      p.bytes = [] ∧ p.writeOpen ≠ 0) := by
  unfold pipeReadRound
  by_cases ha : 0 < p.avail
  · obtain ⟨hok, hlen, hc⟩ := RingBuffer.contents_popN h (min_le_left p.avail len)
    rw [if_pos ha]
    exact .inl ⟨_, _, rfl, ha, hok, hc, hlen⟩
  · have hb : p.bytes = [] := List.eq_nil_of_length_eq_zero (by
      rw [Pipe.length_bytes]
      omega)
    rw [if_neg ha]
    by_cases hw : p.writeOpen = 0
    · exact .inr (.inl ⟨if_pos hw, hb, hw⟩)
    · exact .inr (.inr ⟨if_neg hw, hb, hw⟩)

/-- A round of a write: the next bytes are put in, or the pipe is full. -/
lemma pipeWriteRound_cases (me written : ℕ) (data : List UInt8) (h : p.Ok) :
    (∃ chunk p', pipeWriteRound me p data written = (.more chunk, p') ∧ p'.Ok ∧
      p'.bytes = p.bytes ++ chunk ∧
      chunk = (data.drop written).take (min p.space (data.length - written)) ∧
      0 < p.space) ∨
    (pipeWriteRound me p data written = (.broken, p) ∧ p.avail = pipeBufSize - 1 ∧ p.readOpen = 0) ∨
    (pipeWriteRound me p data written = (.sleep, { p with blockedWriter := some me }) ∧
      p.avail = pipeBufSize - 1 ∧ p.readOpen ≠ 0) := by
  have hlt := h.avail_lt
  have hspace : p.space = pipeBufSize - 1 - p.avail := rfl
  unfold pipeWriteRound
  by_cases hs : 0 < p.space
  · rw [if_pos hs]
    obtain ⟨hok, hc⟩ := RingBuffer.contents_pushAll h
      (l := (data.drop written).take (min p.space (data.length - written))) (by
        have : p.toRingBuffer.used pipeBufSize = p.avail := rfl
        rw [List.length_take, this]
        omega)
    exact .inl ⟨_, _, rfl, hok, hc, rfl, hs⟩
  · rw [if_neg hs]
    by_cases hr : p.readOpen = 0
    · exact .inr (.inl ⟨if_pos hr, by omega, hr⟩)
    · exact .inr (.inr ⟨if_neg hr, by omega, hr⟩)

end

end GordOS.Kernel
