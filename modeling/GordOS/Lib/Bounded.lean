/-
Arrays of a fixed size, with accesses that are checked.

An array is a function on the indices, of which those below the size belong to it. A store
at another index is refused; what a load at another index gives is a parameter, so that
it may be refused as well.

* `writeAt`, `readAt`, `readAll`, `storeAll`, `moveEach`, `seek`: single accesses, and the
  loops that read, store and move entries, and look for one;
* `readAll_eq`, `seek_eq`, `storeAll_spec`, `moveEach_spec`: what they do when the accesses are inside;
  `moveEach_up`, `moveEach_down`: entries that are shifted; `moveEach_eq_foldl`: the loop as a
  fold;
* `textOf a n`: the first `n` entries;
* `splice l lo hi new`: the entries from `lo` up to `hi` replaced by others; `textOf_spliced`.
-/
import Mathlib.Tactic

namespace GordOS

variable {α : Type} {N n lo hi i : ℕ} {a a' : ℕ → α} {out : ℕ → Option α}

/-! ### Accesses -/

/-- A store. -/
def writeAt (N i : ℕ) (v : α) (a : ℕ → α) : Option (ℕ → α) :=
  if i < N then some (Function.update a i v) else none

/-- A load; `out` is what lies outside. -/
def readAt (N : ℕ) (out : ℕ → Option α) (a : ℕ → α) (i : ℕ) : Option α :=
  if i < N then some (a i) else out i

/-- A loop that loads `n` entries, from an index on. -/
def readAll (N : ℕ) (out : ℕ → Option α) (a : ℕ → α) : ℕ → ℕ → Option (List α)
  | _, 0 => some []
  | i, n + 1 => (readAt N out a i).bind fun v => (readAll N out a (i + 1) n).map fun vs => v :: vs

/-- A loop that stores values, from an index on. -/
def storeAll (N : ℕ) : ℕ → List α → (ℕ → α) → Option (ℕ → α)
  | _, [], a => some a
  | i, v :: vs, a => (writeAt N i v a).bind fun a => storeAll N (i + 1) vs a

/-- A loop that copies entries inside the array: the destination and the source of each
round. -/
def moveEach (N : ℕ) (out : ℕ → Option α) : List (ℕ × ℕ) → (ℕ → α) → Option (ℕ → α)
  | [], a => some a
  | (dst, src) :: l, a =>
    (readAt N out a src).bind fun v => (writeAt N dst v a).bind fun a => moveEach N out l a

/-- A loop that looks for an entry, from an index on, in at most so many rounds. -/
def seek [DecidableEq α] (N : ℕ) (out : ℕ → Option α) (z : α) (a : ℕ → α) : ℕ → ℕ → Option ℕ
  | 0, _ => none
  | n + 1, i => (readAt N out a i).bind fun v =>
    if v = z then some i else seek N out z a n (i + 1)

lemma writeAt_eq (h : i < N) (v : α) (a : ℕ → α) :
    writeAt N i v a = some (Function.update a i v) := if_pos h

lemma readAt_eq (h : i < N) : readAt N out a i = some (a i) := if_pos h

lemma readAll_eq (out : ℕ → Option α) (a : ℕ → α) : ∀ n i, i + n ≤ N →
    readAll N out a i n = some ((List.range' i n).map a) := by
  intro n
  induction n with
  | zero => exact fun i _ => rfl
  | succ n ih =>
    intro i h
    rw [readAll, readAt_eq (by omega), Option.bind_some, ih (i + 1) (by omega)]
    rfl

/-- The loop stops at the first such entry. -/
lemma seek_eq [DecidableEq α] (out : ℕ → Option α) {z : α} {k : ℕ} (hk : k < N) (hz : a k = z)
    (hnz : ∀ j < k, a j ≠ z) : ∀ n i, i ≤ k → k < i + n → seek N out z a n i = some k := by
  intro n
  induction n with
  | zero => exact fun i hi hn => absurd hn (by omega)
  | succ n ih =>
    intro i hi hn
    rw [seek, readAt_eq (by omega), Option.bind_some]
    rcases Nat.lt_or_ge i k with hlt | hge
    · rw [if_neg (hnz i hlt)]
      exact ih (i + 1) hlt (by omega)
    · obtain rfl : i = k := by omega
      rw [if_pos hz]

lemma storeAll_spec : ∀ (vs : List α) (i : ℕ) (a : ℕ → α), i + vs.length ≤ N →
    ∃ a', storeAll N i vs a = some a' ∧ (∀ k < vs.length, some (a' (i + k)) = vs[k]?) ∧
      ∀ k, k < i ∨ i + vs.length ≤ k → a' k = a k := by
  intro vs
  induction vs with
  | nil => exact fun i a _ => ⟨a, rfl, fun k hk => absurd hk (Nat.not_lt_zero k), fun _ _ => rfl⟩
  | cons v vs ih =>
    intro i a h
    rw [List.length_cons] at h
    obtain ⟨a', he, hin, hout⟩ := ih (i + 1) (Function.update a i v) (by omega)
    refine ⟨a', ?_, ?_, ?_⟩
    · rw [storeAll, writeAt_eq (by omega), Option.bind_some, he]
    · intro k hk
      cases k with
      | zero =>
        rw [Nat.add_zero, hout i (by omega), Function.update_self]
        rfl
      | succ k =>
        rw [List.getElem?_cons_succ, ← hin k (by rw [List.length_cons] at hk; omega)]
        congr 2
        omega
    · intro k hk
      rw [List.length_cons] at hk
      rw [hout k (by omega), Function.update_of_ne (by omega)]

/-- Entries are moved as if at once, if no round loads or stores what an earlier one has
stored. -/
lemma moveEach_spec (out : ℕ → Option α) : ∀ (l : List (ℕ × ℕ)) (a : ℕ → α), (∀ p ∈ l, p.1 < N) →
    (∀ p ∈ l, readAt N out a p.2 ≠ none) →
    l.Pairwise (fun p q => q.1 ≠ p.1 ∧ q.2 ≠ p.1) →
    ∃ a', moveEach N out l a = some a' ∧ (∀ p ∈ l, readAt N out a p.2 = some (a' p.1)) ∧
      ∀ k, (∀ p ∈ l, p.1 ≠ k) → a' k = a k := by
  intro l
  induction l with
  | nil => exact fun a _ _ _ => ⟨a, rfl, fun p hp => absurd hp List.not_mem_nil, fun _ _ => rfl⟩
  | cons p l ih =>
    obtain ⟨dst, src⟩ := p
    intro a hdst hsrc hpw
    obtain ⟨hhead, htail⟩ := List.pairwise_cons.mp hpw
    obtain ⟨v, hv⟩ := Option.ne_none_iff_exists'.mp (hsrc (dst, src) List.mem_cons_self)
    -- the later rounds load what was there at the start
    have hkeep : ∀ q ∈ l, readAt N out (Function.update a dst v) q.2 = readAt N out a q.2 := by
      intro q hq
      rw [readAt, readAt, Function.update_of_ne (hhead q hq).2]
    obtain ⟨a', he, hin, hout⟩ := ih (Function.update a dst v)
      (fun q hq => hdst q (List.mem_cons_of_mem _ hq))
      (fun q hq => hkeep q hq ▸ hsrc q (List.mem_cons_of_mem _ hq)) htail
    refine ⟨a', ?_, ?_, ?_⟩
    · rw [moveEach, hv, Option.bind_some, writeAt_eq (hdst (dst, src) List.mem_cons_self),
        Option.bind_some, he]
    · intro q hq
      rcases List.mem_cons.mp hq with rfl | hq
      · rw [hout dst fun q hq => (hhead q hq).1, Function.update_self]
        exact hv
      · rw [← hkeep q hq]
        exact hin q hq
    · intro k hk
      rw [hout k fun q hq => hk q (List.mem_cons_of_mem _ hq),
        Function.update_of_ne (hk (dst, src) List.mem_cons_self).symm]

/-- With all accesses inside, the loop is a fold. -/
lemma moveEach_eq_foldl (out : ℕ → Option α) : ∀ (l : List (ℕ × ℕ)) (a : ℕ → α),
    (∀ p ∈ l, p.1 < N ∧ p.2 < N) →
    moveEach N out l a = some (l.foldl (fun a p => Function.update a p.1 (a p.2)) a) := by
  intro l
  induction l with
  | nil => exact fun a _ => rfl
  | cons p l ih =>
    obtain ⟨dst, src⟩ := p
    intro a h
    obtain ⟨hdst, hsrc⟩ := h (dst, src) List.mem_cons_self
    rw [moveEach, readAt_eq hsrc, Option.bind_some, writeAt_eq hdst, Option.bind_some,
      ih _ fun q hq => h q (List.mem_cons_of_mem _ hq)]
    rfl

/-- A loop from the last entry to the first moves `n` entries up by `d`. -/
lemma moveEach_up (out : ℕ → Option α) (a : ℕ → α) (lo : ℕ) {n d : ℕ} (hd : 0 < d)
    (hN : lo + n + d ≤ N) : ∃ a',
    moveEach N out ((List.range' lo n).reverse.map fun i => (i + d, i)) a = some a' ∧
      (∀ k < n, a' (lo + d + k) = a (lo + k)) ∧
      ∀ k, k < lo + d ∨ lo + d + n ≤ k → a' k = a k := by
  have hmem : ∀ i, i ∈ (List.range' lo n).reverse ↔ lo ≤ i ∧ i < lo + n := fun i => by
    rw [List.mem_reverse, List.mem_range'_1]
  have hpw : ((List.range' lo n).reverse.map fun i => (i + d, i)).Pairwise
      fun p q => q.1 ≠ p.1 ∧ q.2 ≠ p.1 := by
    rw [List.pairwise_map, List.pairwise_reverse]
    exact (@List.pairwise_lt_range' lo n 1 Nat.one_pos).imp fun hij => ⟨by omega, by omega⟩
  obtain ⟨a', he, hin, hout⟩ := moveEach_spec out _ a
    (List.forall_mem_map.mpr fun i hi => show i + d < N by have := (hmem i).mp hi; omega)
    (List.forall_mem_map.mpr fun i hi => by
      have := (hmem i).mp hi
      rw [readAt_eq (show i < N by omega)]
      exact Option.some_ne_none _) hpw
  rw [List.forall_mem_map] at hin
  refine ⟨a', he, fun k hk => ?_, fun k hk => hout k (List.forall_mem_map.mpr fun i hi => ?_)⟩
  · have hval := hin (lo + k) ((hmem _).mpr ⟨by omega, by omega⟩)
    rw [readAt_eq (show lo + k < N by omega), Option.some.injEq, Nat.add_right_comm] at hval
    exact hval.symm
  · have := (hmem i).mp hi
    show i + d ≠ k
    omega

/-- A loop from the first entry to the last moves `n` entries down by `d`, to `lo` and
behind; the last of them may be loaded from outside. -/
lemma moveEach_down (out : ℕ → Option α) (a : ℕ → α) (lo : ℕ) {n d : ℕ} (hd : 0 < d)
    (hN : lo + n ≤ N) (hout : ∀ k < n, N ≤ lo + k + d → out (lo + k + d) ≠ none) : ∃ a',
    moveEach N out ((List.range' lo n).map fun i => (i, i + d)) a = some a' ∧
      (∀ k < n, lo + k + d < N → a' (lo + k) = a (lo + k + d)) ∧
      ∀ k, k < lo ∨ lo + n ≤ k → a' k = a k := by
  have hpw : ((List.range' lo n).map fun i => (i, i + d)).Pairwise
      fun p q => q.1 ≠ p.1 ∧ q.2 ≠ p.1 := by
    rw [List.pairwise_map]
    exact (@List.pairwise_lt_range' lo n 1 Nat.one_pos).imp fun hij => ⟨by omega, by omega⟩
  obtain ⟨a', he, hin, hkeep⟩ := moveEach_spec out _ a
    (List.forall_mem_map.mpr fun i hi => show i < N by have := List.mem_range'_1.mp hi; omega)
    (List.forall_mem_map.mpr fun i hi => by
      have hi := List.mem_range'_1.mp hi
      rw [readAt]
      split
      · exact Option.some_ne_none _
      · obtain ⟨k, rfl⟩ := Nat.exists_eq_add_of_le hi.1
        exact hout k (by omega) (by omega)) hpw
  rw [List.forall_mem_map] at hin
  refine ⟨a', he, fun k hk hin' => ?_, fun k hk => hkeep k (List.forall_mem_map.mpr fun i hi => ?_)⟩
  · have hval := hin (lo + k) (List.mem_range'_1.mpr ⟨by omega, by omega⟩)
    rw [readAt_eq (by omega), Option.some.injEq] at hval
    exact hval.symm
  · have := List.mem_range'_1.mp hi
    show i ≠ k
    omega

/-! ### The first entries -/

/-- The first entries of an array. -/
def textOf (a : ℕ → α) (n : ℕ) : List α := (List.range n).map a

@[simp] lemma length_textOf (a : ℕ → α) (n : ℕ) : (textOf a n).length = n := by
  rw [textOf, List.length_map, List.length_range]

lemma textOf_congr (h : ∀ k < n, a' k = a k) : textOf a' n = textOf a n :=
  List.map_congr_left fun k hk => h k (List.mem_range.mp hk)

lemma getElem?_textOf (a : ℕ → α) (h : i < n) : (textOf a n)[i]? = some (a i) := by
  rw [textOf, List.getElem?_map, List.getElem?_range h, Option.map_some]

lemma textOf_add (a : ℕ → α) (m n : ℕ) :
    textOf a (m + n) = textOf a m ++ textOf (fun k => a (m + k)) n := by
  rw [textOf, List.range_add, List.map_append, List.map_map]
  rfl

lemma textOf_eq {l : List α} (h : ∀ k < l.length, some (a k) = l[k]?) : textOf a l.length = l := by
  refine List.ext_getElem? fun k => ?_
  by_cases hk : k < l.length
  · rw [getElem?_textOf a hk, h k hk]
  · rw [List.getElem?_eq_none (by rw [length_textOf]; omega), List.getElem?_eq_none (by omega)]

lemma take_textOf (a : ℕ → α) (h : i ≤ n) : (textOf a n).take i = textOf a i := by
  obtain ⟨m, rfl⟩ : ∃ m, n = i + m := ⟨n - i, by omega⟩
  rw [textOf_add, List.take_left' (length_textOf a i)]

lemma drop_textOf (a : ℕ → α) (h : i ≤ n) :
    (textOf a n).drop i = textOf (fun k => a (i + k)) (n - i) := by
  obtain ⟨m, rfl⟩ : ∃ m, n = i + m := ⟨n - i, by omega⟩
  rw [textOf_add, List.drop_left' (length_textOf a i), Nat.add_sub_cancel_left]

lemma map_range' (a : ℕ → α) (h : lo ≤ hi) :
    (List.range' lo (hi - lo)).map a = (textOf a hi).drop lo := by
  rw [drop_textOf a h, List.range'_eq_map_range, List.map_map]
  rfl

/-- The entries from `lo` up to `hi` replaced by others. -/
def splice (l : List α) (lo hi : ℕ) (new : List α) : List α := l.take lo ++ (new ++ l.drop hi)

lemma length_splice {l : List α} (hlo : lo ≤ hi) (hhi : hi ≤ l.length) (new : List α) :
    (splice l lo hi new).length = lo + (new.length + (l.length - hi)) := by
  rw [splice, List.length_append, List.length_append, List.length_take, List.length_drop]
  omega

/-- An array whose entries were replaced. -/
lemma textOf_spliced (a a' : ℕ → α) (new : List α) (hlo : lo ≤ hi) (hhi : hi ≤ n)
    (hbelow : ∀ k < lo, a' k = a k) (hnew : ∀ k < new.length, some (a' (lo + k)) = new[k]?)
    (habove : ∀ k < n - hi, a' (lo + (new.length + k)) = a (hi + k)) :
    textOf a' (lo + (new.length + (n - hi))) = splice (textOf a n) lo hi new := by
  rw [textOf_add, textOf_add, splice, take_textOf a (hlo.trans hhi), drop_textOf a hhi,
    textOf_congr hbelow, textOf_eq hnew, textOf_congr habove]

end GordOS
