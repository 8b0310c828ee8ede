/-
Arrays whose entries are moved about inside a segment.

An array is a function on the indices, a segment is given by its first index and the
index behind its last one.

* `Rearranged lo hi a b`: `b` arises from `a` by a permutation of the indices that moves
  only those from `lo` up to `hi`; `Rearranged.trans`, `Rearranged.swap`;
* `Rearranged.perm`: the list of the entries is permuted;
* `SortedOn le lo hi a`: the entries of the segment stand in order; `SortedOn.glue`: two
  sorted parts around a pivot.
-/
import Mathlib.Tactic

namespace GordOS

variable {α : Type} {lo hi lo' hi' : ℕ} {a b c : ℕ → α} {le : α → α → Prop}

/-! ### Rearrangements -/

/-- `b` arises from `a` by moving the entries from `lo` up to `hi` among themselves. -/
def Rearranged (lo hi : ℕ) (a b : ℕ → α) : Prop :=
  ∃ p : Equiv.Perm ℕ, (∀ i, ¬ (lo ≤ i ∧ i < hi) → p i = i) ∧ b = a ∘ p

namespace Rearranged

lemma refl (lo hi : ℕ) (a : ℕ → α) : Rearranged lo hi a a := ⟨1, fun _ _ => rfl, rfl⟩

lemma trans (hab : Rearranged lo hi a b) (hbc : Rearranged lo hi b c) : Rearranged lo hi a c := by
  obtain ⟨p, hp, rfl⟩ := hab
  obtain ⟨q, hq, rfl⟩ := hbc
  refine ⟨p * q, fun i hout => ?_, rfl⟩
  rw [Equiv.Perm.mul_apply, hq i hout, hp i hout]

lemma mono (h : Rearranged lo hi a b) (hlo : lo' ≤ lo) (hhi : hi ≤ hi') :
    Rearranged lo' hi' a b := by
  obtain ⟨p, hp, rfl⟩ := h
  exact ⟨p, fun i _ => hp i (by omega), rfl⟩

lemma swap (a : ℕ → α) {i j : ℕ} (hloi : lo ≤ i) (hihi : i < hi) (hloj : lo ≤ j) (hjhi : j < hi) :
    Rearranged lo hi a (a ∘ Equiv.swap i j) :=
  ⟨Equiv.swap i j, fun _ hk => Equiv.swap_apply_of_ne_of_ne (by omega) (by omega), rfl⟩

/-- The entries outside stay. -/
lemma outside (h : Rearranged lo hi a b) {i : ℕ} (hout : i < lo ∨ hi ≤ i) : b i = a i := by
  obtain ⟨p, hp, rfl⟩ := h
  rw [Function.comp_apply, hp i (by omega)]

/-- A permutation that keeps the outside of a segment keeps the segment. -/
lemma mem_segment {p : Equiv.Perm ℕ} (hp : ∀ i, ¬ (lo ≤ i ∧ i < hi) → p i = i) {i : ℕ}
    (hin : lo ≤ i ∧ i < hi) : lo ≤ p i ∧ p i < hi := by
  by_contra hout
  have hfix : p (p i) = p i := hp (p i) hout
  rw [p.injective hfix] at hout
  exact hout hin

/-- What holds of all entries of the segment holds of them afterwards. -/
lemma forall_segment (h : Rearranged lo hi a b) {P : α → Prop}
    (hP : ∀ i, lo ≤ i → i < hi → P (a i)) : ∀ i, lo ≤ i → i < hi → P (b i) := by
  obtain ⟨p, hp, rfl⟩ := h
  intro i hlo hhi
  obtain ⟨hlo', hhi'⟩ := mem_segment hp ⟨hlo, hhi⟩
  exact hP (p i) hlo' hhi'

/-- The list of the entries is permuted. -/
lemma perm {n : ℕ} (h : Rearranged 0 n a b) :
    ((List.range n).map b).Perm ((List.range n).map a) := by
  obtain ⟨p, hp, rfl⟩ := h
  have hrange : ((List.range n).map p).Perm (List.range n) := by
    refine (List.perm_ext_iff_of_nodup (List.nodup_range.map p.injective)
      List.nodup_range).mpr fun k => ?_
    rw [List.mem_map, List.mem_range]
    constructor
    · rintro ⟨i, hi, rfl⟩
      exact (mem_segment hp ⟨Nat.zero_le i, List.mem_range.mp hi⟩).2
    · intro hk
      have hinv : ∀ i, ¬ (0 ≤ i ∧ i < n) → p.symm i = i := fun i hi =>
        p.symm_apply_eq.mpr (hp i hi).symm
      exact ⟨p.symm k, List.mem_range.mpr (mem_segment hinv ⟨Nat.zero_le k, hk⟩).2,
        p.apply_symm_apply k⟩
  rw [← List.map_map]
  exact hrange.map a

end Rearranged

/-! ### Sorted segments -/

/-- The entries from `lo` up to `hi` stand in order. -/
def SortedOn (le : α → α → Prop) (lo hi : ℕ) (a : ℕ → α) : Prop :=
  ∀ i j, lo ≤ i → i < j → j < hi → le (a i) (a j)

namespace SortedOn

lemma of_short (h : hi ≤ lo + 1) : SortedOn le lo hi a := fun i j _ _ _ => by omega

lemma congr (h : SortedOn le lo hi a) (heq : ∀ i, lo ≤ i → i < hi → b i = a i) :
    SortedOn le lo hi b := by
  intro i j hi hij hj
  rw [heq i hi (hij.trans hj), heq j (hi.trans hij.le) hj]
  exact h i j hi hij hj

/-- Two sorted parts around a pivot. -/
lemma glue (htrans : ∀ x y z, le x y → le y z → le x z) {k : ℕ} (hl : SortedOn le lo k a)
    (hr : SortedOn le (k + 1) hi a) (hbelow : ∀ i, lo ≤ i → i < k → le (a i) (a k))
    (habove : ∀ i, k + 1 ≤ i → i < hi → le (a k) (a i)) : SortedOn le lo hi a := by
  intro i j hi hij hj
  rcases lt_trichotomy j k with hjk | rfl | hkj
  · exact hl i j hi hij hjk
  · exact hbelow i hi hij
  · rcases lt_trichotomy i k with hik | rfl | hki
    · exact htrans _ _ _ (hbelow i hi hik) (habove j hkj hj)
    · exact habove j hkj hj
    · exact hr i j hki hij hj

/-- The list of a sorted segment. -/
lemma pairwise {n : ℕ} (h : SortedOn le 0 n a) : ((List.range n).map a).Pairwise le := by
  rw [List.pairwise_map]
  refine List.pairwise_lt_range.imp_of_mem fun hi hj hij => ?_
  exact h _ _ (Nat.zero_le _) hij (List.mem_range.mp hj)

end SortedOn

end GordOS
