/-
Ring buffers.

A buffer of `N` cells with the index `head` of the next cell to write and the
index `tail` of the next cell to read. The buffer is empty when the two are
equal, so that at most `N - 1` cells are in use.

* `RingBuffer.push`, `RingBuffer.pop`, `RingBuffer.pushAll`, `RingBuffer.popN`:
  the operations, with indices modulo `N`;
* `RingBuffer.contents`: the elements in the buffer, the oldest first;
* `RingBuffer.contents_push`, `RingBuffer.contents_pop`: a buffer is a queue;
* `RingBuffer.contents_pushAll`, `RingBuffer.contents_popN`: the same for loops.
-/
import Mathlib.Tactic

namespace GordOS

/-- A ring buffer: cells, and the indices to write and to read next. -/
structure RingBuffer (α : Type) where
  buf : ℕ → α
  head : ℕ
  tail : ℕ

namespace RingBuffer

variable {α : Type} (N : ℕ)

/-- The number of cells in use. -/
def used (r : RingBuffer α) : ℕ := (r.head + N - r.tail) % N

/-- One element is written. -/
def push (r : RingBuffer α) (x : α) : RingBuffer α :=
  { r with buf := Function.update r.buf r.head x, head := (r.head + 1) % N }

/-- One element is read. -/
def pop (r : RingBuffer α) : α × RingBuffer α :=
  (r.buf r.tail, { r with tail := (r.tail + 1) % N })

/-- The elements of a list are written in order. -/
def pushAll (r : RingBuffer α) (l : List α) : RingBuffer α := l.foldl (push N) r

/-- A number of elements are read. -/
def popN : ℕ → RingBuffer α → List α × RingBuffer α
  | 0, r => ([], r)
  | n + 1, r =>
    let rest := popN n (r.pop N).2
    ((r.pop N).1 :: rest.1, rest.2)

/-- The elements in the buffer, the oldest first. -/
def contents (r : RingBuffer α) : List α :=
  (List.range (r.used N)).map fun i => r.buf ((r.tail + i) % N)

/-- The indices lie in the buffer. -/
structure Ok (r : RingBuffer α) : Prop where
  head_lt : r.head < N
  tail_lt : r.tail < N

variable {N} {r : RingBuffer α}

@[simp] lemma length_contents : (r.contents N).length = r.used N := by
  simp [contents]

lemma succ_mod {a : ℕ} (h : a < N) : (a + 1) % N = if a + 1 = N then 0 else a + 1 := by
  split
  · next e => rw [e, Nat.mod_self]
  · exact Nat.mod_eq_of_lt (by omega)

lemma add_mod_eq {a i : ℕ} (h : a < N) (hi : i < N) :
    (a + i) % N = if a + i < N then a + i else a + i - N := by
  split
  · next hlt => exact Nat.mod_eq_of_lt hlt
  · rw [Nat.mod_eq_sub_mod (by omega), Nat.mod_eq_of_lt (by omega)]

lemma Ok.used_eq (h : r.Ok N) :
    r.used N = if r.tail ≤ r.head then r.head - r.tail else r.head + N - r.tail := by
  have h₁ := h.head_lt
  have h₂ := h.tail_lt
  rw [used]
  split
  · rw [show r.head + N - r.tail = (r.head - r.tail) + N by omega, Nat.add_mod_right,
      Nat.mod_eq_of_lt (by omega)]
  · exact Nat.mod_eq_of_lt (by omega)

/-- One cell is never in use. -/
lemma Ok.used_lt (h : r.Ok N) : r.used N < N :=
  Nat.mod_lt _ (Nat.zero_lt_of_lt h.head_lt)

lemma Ok.push (h : r.Ok N) (x : α) : (r.push N x).Ok N :=
  ⟨Nat.mod_lt _ (Nat.zero_lt_of_lt h.head_lt), h.tail_lt⟩

lemma Ok.pop (h : r.Ok N) : (r.pop N).2.Ok N :=
  ⟨h.head_lt, Nat.mod_lt _ (Nat.zero_lt_of_lt h.head_lt)⟩

lemma Ok.used_push (h : r.Ok N) (hu : r.used N + 1 < N) (x : α) :
    (r.push N x).used N = r.used N + 1 := by
  have h₁ := h.head_lt
  have h₂ := h.tail_lt
  rw [(h.push x).used_eq]
  rw [h.used_eq] at hu ⊢
  simp only [RingBuffer.push, succ_mod h₁]
  split_ifs at hu ⊢ <;> omega

/-- A written element is the last one of the queue. -/
lemma contents_push (h : r.Ok N) (hu : r.used N + 1 < N) (x : α) :
    (r.push N x).contents N = r.contents N ++ [x] := by
  have h₁ := h.head_lt
  have h₂ := h.tail_lt
  have hlast : (r.tail + r.used N) % N = r.head := by
    rw [add_mod_eq h₂ h.used_lt]
    have := h.used_eq
    split_ifs at this ⊢ <;> omega
  rw [contents, h.used_push hu, List.range_succ, List.map_append]
  congr 1
  · refine List.map_congr_left fun i hi => ?_
    -- an older element is in another cell
    have hi := List.mem_range.mp hi
    have hne : (r.tail + i) % N ≠ r.head := by
      have hu' := h.used_eq
      rw [add_mod_eq h₂ (by omega)]
      split_ifs at hu' ⊢ <;> omega
    exact Function.update_of_ne hne _ _
  · simp [RingBuffer.push, hlast]

/-- The element read is the first one of the queue. -/
lemma contents_pop (h : r.Ok N) (hu : 0 < r.used N) :
    r.contents N = (r.pop N).1 :: (r.pop N).2.contents N := by
  have h₁ := h.head_lt
  have h₂ := h.tail_lt
  have hused : (r.pop N).2.used N + 1 = r.used N := by
    rw [h.pop.used_eq]
    rw [h.used_eq] at hu ⊢
    simp only [RingBuffer.pop, succ_mod h₂]
    split_ifs at hu ⊢ <;> omega
  rw [contents, ← hused, List.range_succ_eq_map, List.map_cons, List.map_map, contents]
  congr 1
  · simp [RingBuffer.pop, Nat.mod_eq_of_lt h₂]
  · refine List.map_congr_left fun i _ => ?_
    simp only [Function.comp, RingBuffer.pop, Nat.mod_add_mod]
    congr 2
    omega

/-- A list is written behind the elements of the queue. -/
lemma contents_pushAll (h : r.Ok N) {l : List α} (hl : r.used N + l.length < N) :
    (r.pushAll N l).Ok N ∧ (r.pushAll N l).contents N = r.contents N ++ l := by
  induction l generalizing r with
  | nil => exact ⟨h, by simp [pushAll]⟩
  | cons x l ih =>
    rw [List.length_cons] at hl
    have hu : r.used N + 1 < N := by omega
    obtain ⟨hok, hc⟩ := ih (h.push x) (by rw [h.used_push hu]; omega)
    refine ⟨hok, hc.trans ?_⟩
    rw [contents_push h hu, List.append_assoc]
    rfl

/-- The elements read are the first ones of the queue. -/
lemma contents_popN (h : r.Ok N) {n : ℕ} (hn : n ≤ r.used N) :
    (popN N n r).2.Ok N ∧ (popN N n r).1.length = n ∧
      r.contents N = (popN N n r).1 ++ (popN N n r).2.contents N := by
  induction n generalizing r with
  | zero => exact ⟨h, rfl, rfl⟩
  | succ n ih =>
    have hc := contents_pop h (by omega)
    have hused : (r.pop N).2.used N + 1 = r.used N := by
      simpa using (congrArg List.length hc).symm
    obtain ⟨hok, hlen, happ⟩ := ih h.pop (by omega)
    refine ⟨hok, congrArg (· + 1) hlen, ?_⟩
    rw [hc, happ]
    rfl

end RingBuffer

end GordOS
