/-
Copies between regions that may overlap (`memmove` and its neighbours in `user/string.c`).

A loop that copies byte by byte overwrites its own source if it runs in the wrong direction.

* `copyByte`, `copyUp`, `copyDown`: a round of the loops, from the first byte on and from the
  last one;
* `memmove`: the code, which chooses the direction;
* `foldl_copyByte`: bytes are moved as if at once, if no round loads what an earlier one has
  stored;
* `memmove_moves`: **`memmove` moves the bytes**, however the regions overlap.
-/
import Mathlib.Tactic
import GordOS.Lib.Bounded
import GordOS.User.Malloc

namespace GordOS.User

open GordOS
open GordOS.Fat32 (Buf)

/-! ### The code -/

/-- The address `p + i`. -/
def addrOf (p i : ℕ) : ℕ := (p + i) % 2 ^ 32

/-- One round: `d[i] = s[i]`. -/
def copyByte (d s : ℕ) (m : Buf) (i : ℕ) : Buf :=
  Function.update m (addrOf d i) (m (addrOf s i))

/-- The loop of `memcpy`, and the first one of `memmove`. -/
def copyUp (d s n : ℕ) (m : Buf) : Buf := (List.range n).foldl (copyByte d s) m

/-- The second loop of `memmove`, where `i - 1` goes from `n - 1` down to `0`. -/
def copyDown (d s n : ℕ) (m : Buf) : Buf := (List.range n).reverse.foldl (copyByte d s) m

/-- `memmove`: what it returns, and the memory behind it. -/
def memmove (dst src n : ℕ) (m : Buf) : ℕ × Buf :=
  if dst = src ∨ n = 0 then (dst, m)
  else if dst < src then (dst, copyUp dst src n m)
  else (dst, copyDown dst src n m)

/-! ### The loops -/

/-- The bytes of the source have moved to the destination, and the others are as before. -/
structure MovedBytes (dst src n : ℕ) (m m' : Buf) : Prop where
  moved : ∀ i < n, m' (dst + i) = m (src + i)
  others : ∀ a, a < dst ∨ dst + n ≤ a → m' a = m a

section

variable {dst src n : ℕ}

/-- Bytes are moved as if at once, if no round loads what an earlier one has stored. -/
lemma foldl_copyByte (hd : dst + n ≤ 2 ^ 32) (hs : src + n ≤ 2 ^ 32) {l : List ℕ}
    (hl : ∀ i, i ∈ l ↔ i < n) (hpw : l.Pairwise fun i j => i ≠ j ∧ src + j ≠ dst + i) (m : Buf) :
    MovedBytes dst src n m (l.foldl (copyByte dst src) m) := by
  have hmem : ∀ p ∈ l.map (fun i => (dst + i, src + i)), p.1 < 2 ^ 32 ∧ p.2 < 2 ^ 32 := by
    intro p hp
    obtain ⟨i, hi, rfl⟩ := List.mem_map.mp hp
    have := (hl i).mp hi
    exact ⟨by omega, by omega⟩
  -- no address wraps, so that the rounds are those of the library
  have hfold : l.foldl (copyByte dst src) m = (l.map fun i => (dst + i, src + i)).foldl
      (fun a p => Function.update a p.1 (a p.2)) m := by
    rw [List.foldl_map]
    refine List.foldl_ext _ _ _ fun a i hi => ?_
    have := (hl i).mp hi
    rw [copyByte, addrOf, addrOf, Nat.mod_eq_of_lt (by omega), Nat.mod_eq_of_lt (by omega)]
  obtain ⟨m', he, hin, hout⟩ := moveEach_spec (N := 2 ^ 32) (fun _ => none)
    (l.map fun i => (dst + i, src + i)) m (fun p hp => (hmem p hp).1)
    (fun p hp => by
      rw [readAt_eq (hmem p hp).2]
      exact Option.some_ne_none _)
    (List.pairwise_map.mpr (hpw.imp fun h => ⟨fun heq => h.1 (by omega), h.2⟩))
  rw [moveEach_eq_foldl _ _ _ hmem, ← hfold] at he
  obtain rfl := Option.some.inj he
  refine ⟨fun i hi => ?_, fun a ha => hout a fun p hp => ?_⟩
  · have hp : (dst + i, src + i) ∈ l.map (fun i => (dst + i, src + i)) :=
      List.mem_map.mpr ⟨i, (hl i).mpr hi, rfl⟩
    have hval := hin _ hp
    rw [readAt_eq (hmem _ hp).2] at hval
    exact (Option.some.inj hval).symm
  · obtain ⟨i, hi, rfl⟩ := List.mem_map.mp hp
    have := (hl i).mp hi
    dsimp only
    omega

/-- From the first byte on, unless the destination starts inside the source. -/
lemma moved_copyUp (hd : dst + n ≤ 2 ^ 32) (hs : src + n ≤ 2 ^ 32)
    (h : dst ≤ src ∨ src + n ≤ dst) (m : Buf) : MovedBytes dst src n m (copyUp dst src n m) := by
  refine foldl_copyByte hd hs (fun i => List.mem_range) ?_ m
  refine List.Pairwise.imp_of_mem ?_ List.pairwise_lt_range
  intro i j _ hj hlt
  rw [List.mem_range] at hj
  exact ⟨by omega, by omega⟩

/-- From the last byte on, if the destination starts behind the start of the source. -/
lemma moved_copyDown (hd : dst + n ≤ 2 ^ 32) (hs : src + n ≤ 2 ^ 32) (h : src ≤ dst) (m : Buf) :
    MovedBytes dst src n m (copyDown dst src n m) := by
  refine foldl_copyByte hd hs (fun i => List.mem_reverse.trans List.mem_range) ?_ m
  rw [List.pairwise_reverse]
  refine List.Pairwise.imp ?_ List.pairwise_lt_range
  intro i j hlt
  exact ⟨by omega, by omega⟩

lemma moved_refl (m : Buf) (h : dst = src ∨ n = 0) : MovedBytes dst src n m m := by
  refine ⟨fun i hi => ?_, fun _ _ => rfl⟩
  rcases h with rfl | rfl
  · rfl
  · exact absurd hi (Nat.not_lt_zero i)

lemma moved_memmove (hd : dst + n ≤ 2 ^ 32) (hs : src + n ≤ 2 ^ 32) (m : Buf) :
    MovedBytes dst src n m (memmove dst src n m).2 := by
  rw [memmove]
  split
  · next h => exact moved_refl m h
  · split
    · next h => exact moved_copyUp hd hs (.inl h.le) m
    · next h => exact moved_copyDown hd hs (Nat.le_of_not_lt h) m

/-- **`memmove` moves the bytes**: the destination holds what the source held at the start,
however the regions overlap, and every other byte is as before. -/
theorem memmove_moves (hd : dst + n ≤ 2 ^ 32) (hs : src + n ≤ 2 ^ 32) (m : Buf) :
    (∀ i < n, (memmove dst src n m).2 (dst + i) = m (src + i)) ∧
      ∀ a, a < dst ∨ dst + n ≤ a → (memmove dst src n m).2 a = m a :=
  ⟨(moved_memmove hd hs m).moved, (moved_memmove hd hs m).others⟩

/-- Six bytes are moved up by two. -/
theorem memmove_moves_six :
    (∀ i < 6, (memmove 0x2002 0x2000 6 fun a => UInt8.ofNat a).2 (0x2002 + i) =
        UInt8.ofNat (0x2000 + i)) ∧
      ∀ a, a < 0x2002 ∨ 0x2002 + 6 ≤ a →
        (memmove 0x2002 0x2000 6 fun a => UInt8.ofNat a).2 a = UInt8.ofNat a :=
  memmove_moves (by decide) (by decide) _

end

/-- The loop of `memcpy` repeats the first byte of a source that starts one byte earlier. -/
example : copyUp 0x2001 0x2000 3 (fun a => UInt8.ofNat a) 0x2003 = UInt8.ofNat 0x2000 := by
  decide +kernel

end GordOS.User
