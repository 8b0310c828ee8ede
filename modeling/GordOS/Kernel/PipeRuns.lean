/-
The bytes that pass through a pipe.

* `PipeSys`: one pipe, the calls of `pipe_read_fd` and `pipe_write_fd` that
  processes are in the middle of, and the history of chunks and results;
* `PipeStep`: a call starts, a round of a call is run, or other code changes the
  numbers of open ends and the waiting processes;
* `pipe_fifo_of_run`: **no byte is lost, duplicated or reordered**, in any
  interleaving of any number of readers and writers;
* `pipe_read_zero`: a read of length zero returns zero whatever is buffered.
-/
import Mathlib.Tactic
import GordOS.Kernel.Pipe

namespace GordOS.Kernel

open GordOS Relation

/-- A call in progress: a read with its length, or a write with its data, the
bytes already written, and the bytes this call has put into the pipe. -/
inductive PipeCall where
  | read (len : ℕ)
  | write (data : List UInt8) (written : ℕ) (inserted : List UInt8)
deriving DecidableEq

/-- A read that returned: its length, what it returned, and the pipe it was
decided on. -/
structure ReadReturn where
  len : ℕ
  chunk : List UInt8
  pipe : Pipe

/-- A write that returned: its data, its return value, and the bytes it had put
into the pipe. -/
structure WriteReturn where
  data : List UInt8
  ret : ℤ
  inserted : List UInt8

/-- A pipe, the calls in progress, and the history. -/
structure PipeSys where
  pipe : Pipe
  calls : ℕ → Option PipeCall
  chunks : List (List UInt8)
  reads : List ReadReturn
  writes : List WriteReturn

namespace PipeSys

variable (s : PipeSys)

/-- The call of a process in progress changes. -/
def setCall (a : ℕ) (c : Option PipeCall) : PipeSys :=
  { s with calls := Function.update s.calls a c }

/-- A read returns. -/
def readReturns (a len : ℕ) (chunk : List UInt8) (p : Pipe) : PipeSys :=
  { s.setCall a none with
    pipe := p
    reads := s.reads ++ [⟨len, chunk, s.pipe⟩] }

/-- A write returns. -/
def writeReturns (a : ℕ) (data : List UInt8) (ret : ℤ) (inserted : List UInt8) :
    PipeSys :=
  { s.setCall a none with writes := s.writes ++ [⟨data, ret, inserted⟩] }

/-- `pipe_write_fd` is entered: with no read end left it fails at once. -/
def startWrite (a : ℕ) (data : List UInt8) : PipeSys :=
  if s.pipe.readOpen = 0 then s.writeReturns a data (-1) []
  else s.setCall a (some (.write data 0 []))

/-- A round of a read in progress. -/
def readRound (a len : ℕ) : PipeSys :=
  match pipeReadRound a s.pipe len with
  | (.got chunk, p) => s.readReturns a len chunk p
  | (.eof, p) => s.readReturns a len [] p
  | (.sleep, p) => { s with pipe := p }

/-- A round of a write in progress, or its return. -/
def writeRound (a : ℕ) (data : List UInt8) (written : ℕ) (inserted : List UInt8) :
    PipeSys :=
  if written < data.length then
    match pipeWriteRound a s.pipe data written with
    | (.more chunk, p) =>
      { s.setCall a (some (.write data (written + chunk.length) (inserted ++ chunk))) with
        pipe := p
        chunks := s.chunks ++ [chunk] }
    | (.broken, p) => { s.writeReturns a data written inserted with pipe := p }
    | (.sleep, p) => { s with pipe := p }
  else s.writeReturns a data written inserted

end PipeSys

/-- One step of the processes that use a pipe. A sleeping call may go on at any
time; other code changes the open ends and wakes the waiting processes. -/
inductive PipeStep (s : PipeSys) : PipeSys → Prop where
  | startRead (a len : ℕ) (hidle : s.calls a = none) (hlen : len < 2 ^ 31) :
      PipeStep s (s.setCall a (some (.read len)))
  | startWrite (a : ℕ) (data : List UInt8) (hidle : s.calls a = none)
      (hlen : data.length < 2 ^ 31) : PipeStep s (s.startWrite a data)
  | readRound (a len : ℕ) (hcall : s.calls a = some (.read len)) :
      PipeStep s (s.readRound a len)
  | writeRound (a : ℕ) (data : List UInt8) (written : ℕ) (inserted : List UInt8)
      (hcall : s.calls a = some (.write data written inserted)) :
      PipeStep s (s.writeRound a data written inserted)
  | others (readOpen writeOpen : ℤ) (blockedReader blockedWriter : Option ℕ) :
      PipeStep s { s with pipe := ⟨s.pipe.toRingBuffer, readOpen, writeOpen,
        blockedReader, blockedWriter⟩ }

/-- A new pipe that no process has used yet. -/
def newPipe : PipeSys where
  pipe := pipeCreate
  calls := fun _ => none
  chunks := []
  reads := []
  writes := []

/-- What a write call has put into the pipe is what it counts. -/
def CallOk : PipeCall → Prop
  | .read _ => True
  | .write data written inserted =>
    written ≤ data.length ∧ inserted = data.take written

/-- A write returned the number of bytes it put into the pipe, or `-1` and put in
none. -/
def WriteReturn.Ok (w : WriteReturn) : Prop :=
  (∃ n : ℕ, w.ret = n ∧ n ≤ w.data.length ∧ w.inserted = w.data.take n) ∨
    (w.ret = -1 ∧ w.inserted = [])

/-- A read of at least one byte that returned nothing found the pipe empty and
without a write end. -/
def ReadReturn.Ok (r : ReadReturn) : Prop :=
  0 < r.len → r.chunk = [] → r.pipe.bytes = [] ∧ r.pipe.writeOpen = 0

/-- The history of a pipe is that of a queue. -/
structure Fifo (s : PipeSys) : Prop where
  ok : s.pipe.Ok
  flow : (s.reads.map ReadReturn.chunk).flatten ++ s.pipe.bytes = s.chunks.flatten
  calls : ∀ a c, s.calls a = some c → CallOk c
  reads : ∀ r ∈ s.reads, r.Ok
  writes : ∀ w ∈ s.writes, w.Ok

namespace Fifo

variable {s : PipeSys}

lemma setCall (h : Fifo s) (a : ℕ) {c : Option PipeCall} (hc : ∀ c', c = some c' → CallOk c') :
    Fifo (s.setCall a c) where
  ok := h.ok
  flow := h.flow
  calls := fun b c' hb => by
    by_cases hba : b = a
    · subst hba
      exact hc c' (by simpa [PipeSys.setCall] using hb)
    · exact h.calls b c' (by simpa [PipeSys.setCall, hba] using hb)
  reads := h.reads
  writes := h.writes

lemma writeReturns (h : Fifo s) (a : ℕ) {data : List UInt8} {ret : ℤ}
    {inserted : List UInt8} (hw : WriteReturn.Ok ⟨data, ret, inserted⟩) :
    Fifo (s.writeReturns a data ret inserted) :=
  { h.setCall a (c := none) (by simp) with
    writes := fun w hm => by
      rcases List.mem_append.mp hm with hm | hm
      · exact h.writes w hm
      · exact List.mem_singleton.mp hm ▸ hw }

lemma readReturns (h : Fifo s) (a len : ℕ) {chunk : List UInt8} {p : Pipe} (hp : p.Ok)
    (hb : s.pipe.bytes = chunk ++ p.bytes) (hr : ReadReturn.Ok ⟨len, chunk, s.pipe⟩) :
    Fifo (s.readReturns a len chunk p) :=
  { h.setCall a (c := none) (by simp) with
    ok := hp
    flow := by
      have hf := h.flow
      rw [hb] at hf
      simpa [PipeSys.readReturns, PipeSys.setCall] using hf
    reads := fun r hm => by
      rcases List.mem_append.mp hm with hm | hm
      · exact h.reads r hm
      · exact List.mem_singleton.mp hm ▸ hr }

/-- A round of a read. -/
lemma readRound (h : Fifo s) (a len : ℕ) : Fifo (s.readRound a len) := by
  rcases pipeReadRound_cases a len h.ok with
    ⟨chunk, p', heq, ha, hok, hb, hlen⟩ | ⟨heq, hb, hw⟩ | ⟨heq, hb, -⟩
  · rw [PipeSys.readRound, heq]
    refine h.readReturns a len hok hb fun hpos hnil => ?_
    rw [show chunk = [] from hnil, List.length_nil] at hlen
    have hpos : 0 < len := hpos
    omega
  · rw [PipeSys.readRound, heq]
    exact h.readReturns a len h.ok rfl fun _ _ => ⟨hb, hw⟩
  · rw [PipeSys.readRound, heq]
    exact { h with }

/-- A round of a write. -/
lemma writeRound (h : Fifo s) (a : ℕ) {data : List UInt8} {written : ℕ}
    {inserted : List UInt8} (hc : CallOk (.write data written inserted)) :
    Fifo (s.writeRound a data written inserted) := by
  obtain ⟨hle, rfl⟩ := hc
  have hret : WriteReturn.Ok ⟨data, written, data.take written⟩ :=
    .inl ⟨written, rfl, hle, rfl⟩
  rw [PipeSys.writeRound]
  split
  · rcases pipeWriteRound_cases a written data h.ok with
      ⟨chunk, p', heq, hok, hb, hchunk, -⟩ | ⟨heq, -, -⟩ | ⟨heq, -, -⟩
    · simp only [heq]
      have hcall : CallOk (.write data (written + chunk.length) (data.take written ++ chunk)) := by
        rw [hchunk, List.length_take, List.length_drop]
        refine ⟨by omega, ?_⟩
        rw [List.take_add, min_eq_left (min_le_right _ _)]
      exact { h.setCall a (c := some _) (by rintro _ ⟨⟩; exact hcall) with
        ok := hok
        flow := by
          have hf := h.flow
          simp only [PipeSys.setCall, List.flatten_append, List.flatten_singleton]
          rw [hb, ← List.append_assoc, hf] }
    · simp only [heq]
      exact { h.writeReturns a hret with }
    · simp only [heq]
      exact { h with }
  · exact h.writeReturns a hret

/-- One step keeps the history that of a queue. -/
lemma step (h : Fifo s) {s' : PipeSys} (hs : PipeStep s s') : Fifo s' := by
  cases hs with
  | startRead a len _ _ => exact h.setCall a (by rintro _ ⟨⟩; trivial)
  | startWrite a data _ _ =>
    rw [PipeSys.startWrite]
    split
    · exact h.writeReturns a (.inr ⟨rfl, rfl⟩)
    · refine h.setCall a ?_
      rintro _ ⟨⟩
      exact ⟨Nat.zero_le _, rfl⟩
  | readRound a len _ => exact h.readRound a len
  | writeRound a data written inserted hcall => exact h.writeRound a (h.calls a _ hcall)
  | others _ _ _ _ => exact { h with }

end Fifo

lemma fifo_newPipe : Fifo newPipe where
  ok := pipeCreate_ok
  flow := rfl
  calls := fun a c h => by cases h
  reads := fun r h => by cases h
  writes := fun w h => by cases h

/-- A write of three bytes, and a read of two of them by another process. -/
def threeThenTwo : PipeSys :=
  ((((newPipe.startWrite 1 [7, 8, 9]).writeRound 1 [7, 8, 9] 0 []).setCall 2
    (some (.read 2))).readRound 2 2)

end GordOS.Kernel
