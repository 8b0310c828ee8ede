/-
Sorting in user programs (`qsort` of `user/stdlib.c`).

The memory is a function from addresses to bytes. The comparison function of the caller
is any function of the memory and of the two addresses, with a state of its own, so that
it may answer one question differently at different times; it does not write to the
array.

* `qsortSwap`, `partitionLoop`, `qsortRecurse`, `qsort`: the code; the fuel bounds the
  rounds and calls of `qsort_recurse` that are nested in each other;
* `Moved`: the elements of a segment are moved as wholes, and no other byte changes;
* `partitionLoop_moved`, `partitionLoop_split`: the scan;
* `qsortRecurse_spec`, by induction on the fuel;
* `qsort_sorts`: **`qsort` returns a permutation of the array**, sorted if the comparison
  is a total preorder; `qsort_huge`: for `2 ^ 31` elements and more the cast to `long`
  goes wrong.
-/
import Mathlib.Tactic
import GordOS.Lib.Rearrange
import GordOS.Fat32.Disk
import GordOS.User.Strtol

namespace GordOS.User

open GordOS.Fat32 (Buf)

/-! ### The code -/

/-- `qsort_swap`. -/
def qsortSwap (a b : ℕ) : ℕ → Buf → Buf
  | 0, m => m
  | i + 1, m =>
    let m := qsortSwap a b i m
    Function.update (Function.update m (a + i) (m (b + i))) (b + i) (m (a + i))

/-- A comparison function with a state: it gets the memory and two addresses. -/
abbrev Compar (σ : Type) := σ → Buf → ℕ → ℕ → ℤ × σ

/-- The address of an element. -/
def elemAddr (base size : ℕ) (i : ℤ) : ℕ := base + i.toNat * size

section

variable {σ : Type} (compar : Compar σ) (base size : ℕ)

/-- The `for` loop of `qsort_recurse`, with `n` rounds to go: `store` at the end, the
state of the comparison function and the memory. -/
def partitionLoop (hi : ℤ) : ℕ → ℤ → ℤ → σ → Buf → ℤ × σ × Buf
  | 0, _, store, s, m => (store, s, m)
  | n + 1, i, store, s, m =>
    match compar s m (elemAddr base size i) (elemAddr base size hi) with
    | (c, s) =>
      if c < 0 then
        partitionLoop hi n (i + 1) (store + 1) s
          (qsortSwap (elemAddr base size i) (elemAddr base size store) size m)
      else partitionLoop hi n (i + 1) store s m

/-- `qsort_recurse`: a round of the `while` loop, and the rounds behind it. -/
def qsortRecurse : ℕ → ℤ → ℤ → σ → Buf → Option (σ × Buf)
  | 0, _, _, _, _ => none
  | fuel + 1, lo, hi, s, m =>
    if lo < hi then
      match partitionLoop compar base size hi (hi - lo).toNat lo lo s m with
      | (store, s, m) =>
        let m := qsortSwap (elemAddr base size store) (elemAddr base size hi) size m
        if store - lo < hi - store then
          (qsortRecurse fuel lo (long (store - 1)) s m).bind fun r =>
            qsortRecurse fuel (long (store + 1)) hi r.1 r.2
        else
          (qsortRecurse fuel (long (store + 1)) hi s m).bind fun r =>
            qsortRecurse fuel lo (long (store - 1)) r.1 r.2
    else some (s, m)

/-- `qsort`. -/
def qsort (fuel nmemb : ℕ) (s : σ) (m : Buf) : Option (σ × Buf) :=
  if nmemb < 2 ∨ size = 0 then some (s, m)
  else qsortRecurse compar base size fuel 0 (long ((nmemb : ℤ) - 1)) s m

end

/-! ### Elements -/

/-- The bytes of an object. -/
def objectAt (m : Buf) (size a : ℕ) : List UInt8 := (List.range size).map fun k => m (a + k)

/-- The element with an index. -/
def elemAt (base size : ℕ) (m : Buf) (i : ℕ) : List UInt8 := objectAt m size (base + i * size)

/-- The elements of an array. -/
def elems (base size nmemb : ℕ) (m : Buf) : List (List UInt8) :=
  (List.range nmemb).map (elemAt base size m)

section

variable {base size a b n i j : ℕ} {m m' m'' : Buf}

lemma elemAddr_natCast (base size i : ℕ) : elemAddr base size (i : ℤ) = base + i * size := rfl

/-- The objects are exchanged, byte by byte. -/
lemma qsortSwap_apply (a b : ℕ) (m : Buf) (x : ℕ) :
    ∀ n, (a = b ∨ a + n ≤ b ∨ b + n ≤ a) → qsortSwap a b n m x =
      if a ≤ x ∧ x < a + n then m (b + (x - a))
      else if b ≤ x ∧ x < b + n then m (a + (x - b)) else m x := by
  intro n
  induction n generalizing x with
  | zero =>
    intro _
    rw [if_neg (by omega), if_neg (by omega), qsortSwap]
  | succ n ih =>
    intro hab
    have hn : a = b ∨ a + n ≤ b ∨ b + n ≤ a := by omega
    have ha : qsortSwap a b n m (a + n) = m (a + n) := by
      rw [ih _ hn, if_neg (by omega), if_neg (by omega)]
    have hb : qsortSwap a b n m (b + n) = m (b + n) := by
      rw [ih _ hn, if_neg (by omega), if_neg (by omega)]
    rw [qsortSwap, Function.update_apply, Function.update_apply, ha, hb, ih x hn]
    by_cases hxb : x = b + n
    · subst hxb
      rw [if_pos rfl]
      by_cases hab' : a = b
      · rw [if_pos (by omega)]
        congr 1
        omega
      · rw [if_neg (by omega), if_pos (by omega)]
        congr 1
        omega
    · rw [if_neg hxb]
      by_cases hxa : x = a + n
      · rw [if_pos hxa, if_pos (by omega)]
        congr 1
        omega
      · rw [if_neg hxa]
        split_ifs <;> first | rfl | omega

lemma rows_disjoint (size : ℕ) (hij : i < j) : i * size + size ≤ j * size := by
  rw [← Nat.succ_mul]
  exact Nat.mul_le_mul_right size hij

lemma rows_apart (base size i j : ℕ) : base + i * size = base + j * size ∨
    base + i * size + size ≤ base + j * size ∨ base + j * size + size ≤ base + i * size := by
  rcases lt_trichotomy i j with hij | rfl | hij
  · have := rows_disjoint size hij
    omega
  · exact Or.inl rfl
  · have := rows_disjoint size hij
    omega

/-- Two elements change places. -/
lemma elemAt_qsortSwap (base size : ℕ) (m : Buf) (i j : ℕ) :
    elemAt base size (qsortSwap (base + i * size) (base + j * size) size m) =
      elemAt base size m ∘ Equiv.swap i j := by
  funext k
  refine List.map_congr_left fun o ho => ?_
  have ho : o < size := List.mem_range.mp ho
  rw [qsortSwap_apply _ _ _ _ _ (rows_apart base size i j)]
  rcases eq_or_ne k i with rfl | hki
  · rw [Equiv.swap_apply_left, if_pos (by omega)]
    congr 1
    omega
  · have hi := rows_apart base size k i
    have hi' : base + k * size ≠ base + i * size ∨ size = 0 := by
      rcases lt_or_gt_of_ne hki with h | h <;> have := rows_disjoint size h <;> omega
    rw [if_neg (by omega)]
    rcases eq_or_ne k j with rfl | hkj
    · rw [Equiv.swap_apply_right, if_pos (by omega)]
      congr 1
      omega
    · have hj := rows_apart base size k j
      have hj' : base + k * size ≠ base + j * size ∨ size = 0 := by
        rcases lt_or_gt_of_ne hkj with h | h <;> have := rows_disjoint size h <;> omega
      rw [Equiv.swap_apply_of_ne_of_ne hki hkj, if_neg (by omega)]

/-- The elements from `lo` up to `hi` are moved as wholes, and no other byte changes. -/
structure Moved (base size lo hi : ℕ) (m m' : Buf) : Prop where
  elems : Rearranged lo hi (elemAt base size m) (elemAt base size m')
  outside : ∀ x, x < base + lo * size ∨ base + hi * size ≤ x → m' x = m x

namespace Moved

variable {lo hi lo' hi' : ℕ}

lemma refl (m : Buf) : Moved base size lo hi m m := ⟨.refl _ _ _, fun _ _ => rfl⟩

lemma trans (h : Moved base size lo hi m m') (h' : Moved base size lo hi m' m'') :
    Moved base size lo hi m m'' :=
  ⟨h.elems.trans h'.elems, fun x hx => (h'.outside x hx).trans (h.outside x hx)⟩

lemma mono (h : Moved base size lo hi m m') (hlo : lo' ≤ lo) (hhi : hi ≤ hi') :
    Moved base size lo' hi' m m' := by
  have hl := Nat.mul_le_mul_right size hlo
  have hh := Nat.mul_le_mul_right size hhi
  exact ⟨h.elems.mono hlo hhi, fun x hx => h.outside x (by omega)⟩

lemma swap (m : Buf) (hloi : lo ≤ i) (hihi : i < hi) (hloj : lo ≤ j) (hjhi : j < hi) :
    Moved base size lo hi m (qsortSwap (base + i * size) (base + j * size) size m) := by
  refine ⟨elemAt_qsortSwap base size m i j ▸ .swap _ hloi hihi hloj hjhi, fun x hx => ?_⟩
  have hli := Nat.mul_le_mul_right size hloi
  have hlj := Nat.mul_le_mul_right size hloj
  have hih := rows_disjoint size hihi
  have hjh := rows_disjoint size hjhi
  rw [qsortSwap_apply _ _ _ _ _ (rows_apart base size i j), if_neg (by omega), if_neg (by omega)]

end Moved

/-! ### The scan -/

variable {σ : Type} {compar : Compar σ} {lo p : ℕ}

/-- The scan moves the elements before the pivot, whatever the comparison answers. -/
lemma partitionLoop_moved (compar : Compar σ) (base size lo p : ℕ) :
    ∀ (n i store : ℕ) (s : σ) (m : Buf), lo ≤ store → store ≤ i → i + n = p →
    ∃ k : ℕ, (partitionLoop compar base size p n i store s m).1 = k ∧ lo ≤ k ∧ k ≤ p ∧
      Moved base size lo p m (partitionLoop compar base size p n i store s m).2.2 := by
  intro n
  induction n with
  | zero => exact fun i store s m hlo hst hp => ⟨store, rfl, hlo, by omega, .refl m⟩
  | succ n ih =>
    intro i store s m hlo hst hp
    rw [partitionLoop]
    generalize compar s m _ _ = r
    obtain ⟨c, s⟩ := r
    dsimp only
    split
    · have hswap : Moved base size lo p m
          (qsortSwap (base + i * size) (base + store * size) size m) :=
        .swap m (hlo.trans hst) (by omega) hlo (by omega)
      obtain ⟨k, hk, hlk, hkp, hmoved⟩ := ih (i + 1) (store + 1) s
        (qsortSwap (base + i * size) (base + store * size) size m) (by omega) (by omega)
        (by omega)
      push_cast at hk hmoved
      exact ⟨k, hk, hlk, hkp, hswap.trans hmoved⟩
    · obtain ⟨k, hk, hlk, hkp, hmoved⟩ := ih (i + 1) store s m hlo (by omega) (by omega)
      push_cast at hk hmoved
      exact ⟨k, hk, hlk, hkp, hmoved⟩

/-- The comparison function compares the contents of the elements. -/
def Orders (compar : Compar σ) (size : ℕ) (cmp : List UInt8 → List UInt8 → ℤ) : Prop :=
  ∀ s m a b, (compar s m a b).1 = cmp (objectAt m size a) (objectAt m size b)

/-- A comparison that is a total preorder: it answers consistently when its arguments
change places, and it is transitive. -/
structure Comparison (cmp : List UInt8 → List UInt8 → ℤ) : Prop where
  swap : ∀ x y, cmp x y < 0 ↔ 0 < cmp y x
  trans : ∀ x y z, cmp x y ≤ 0 → cmp y z ≤ 0 → cmp x z ≤ 0

/-- Before `store` stand elements that are less than the pivot, from `store` up to `i`
those that are not. -/
structure Scanned (cmp : List UInt8 → List UInt8 → ℤ) (e : ℕ → List UInt8)
    (lo store i p : ℕ) : Prop where
  below : ∀ x, lo ≤ x → x < store → cmp (e x) (e p) < 0
  rest : ∀ x, store ≤ x → x < i → ¬ cmp (e x) (e p) < 0

variable {cmp : List UInt8 → List UInt8 → ℤ}

lemma Scanned.swap {e : ℕ → List UInt8} {store : ℕ} (h : Scanned cmp e lo store i p)
    (hst : store ≤ i) (hip : i < p) (hlt : cmp (e i) (e p) < 0) :
    Scanned cmp (e ∘ Equiv.swap i store) lo (store + 1) (i + 1) p := by
  have hp : Equiv.swap i store p = p :=
    Equiv.swap_apply_of_ne_of_ne (by omega) (by omega)
  refine ⟨fun x hx hxs => ?_, fun x hx hxi => ?_⟩
  · rw [Function.comp_apply, Function.comp_apply, hp]
    rcases eq_or_ne x store with rfl | hne
    · rw [Equiv.swap_apply_right]
      exact hlt
    · rw [Equiv.swap_apply_of_ne_of_ne (by omega) hne]
      exact h.below x hx (by omega)
  · rw [Function.comp_apply, Function.comp_apply, hp]
    rcases eq_or_ne x i with rfl | hne
    · rw [Equiv.swap_apply_left]
      exact h.rest store le_rfl (by omega)
    · rw [Equiv.swap_apply_of_ne_of_ne hne (by omega)]
      exact h.rest x (by omega) (by omega)

/-- At the end of the scan the elements before the pivot are split. -/
lemma partitionLoop_split (hord : Orders compar size cmp) :
    ∀ (n i store : ℕ) (s : σ) (m : Buf), store ≤ i → i + n = p →
    Scanned cmp (elemAt base size m) lo store i p →
    ∃ k : ℕ, (partitionLoop compar base size p n i store s m).1 = k ∧
      Scanned cmp (elemAt base size (partitionLoop compar base size p n i store s m).2.2)
        lo k p p := by
  intro n
  induction n with
  | zero =>
    intro i store s m _ hp h
    obtain rfl : i = p := hp
    exact ⟨_, rfl, h⟩
  | succ n ih =>
    intro i store s m hst hp h
    rw [partitionLoop]
    have hc := hord s m (elemAddr base size i) (elemAddr base size p)
    generalize compar s m _ _ = r at hc
    obtain ⟨c, s⟩ := r
    dsimp only at hc ⊢
    subst hc
    split
    · next hlt =>
      have hswap := h.swap hst (by omega) hlt
      rw [← elemAt_qsortSwap] at hswap
      have hnext := ih (i + 1) (store + 1) s
        (qsortSwap (base + i * size) (base + store * size) size m) (by omega) (by omega) hswap
      push_cast at hnext
      exact hnext
    · next hge =>
      have hnext := ih (i + 1) store s m (by omega) (by omega) ⟨h.below, fun x hx hxi => by
          rcases Nat.lt_succ_iff_lt_or_eq.mp hxi with hlt | rfl
          · exact h.rest x hx hlt
          · exact hge⟩
      push_cast at hnext
      exact hnext

/-! ### The rounds -/

/-- The pivot stands at `k`, between the elements that are not greater and those that are
not less. -/
structure Split (cmp : List UInt8 → List UInt8 → ℤ) (e : ℕ → List UInt8)
    (lo k hi : ℕ) : Prop where
  below : ∀ x, lo ≤ x → x < k → cmp (e x) (e k) ≤ 0
  above : ∀ x, k + 1 ≤ x → x < hi → cmp (e k) (e x) ≤ 0

/-- The last exchange of a round puts the pivot between the two parts. -/
lemma Scanned.split {e : ℕ → List UInt8} {k : ℕ} (hcmp : Comparison cmp)
    (h : Scanned cmp e lo k p p) (hkp : k ≤ p) :
    Split cmp (e ∘ Equiv.swap k p) lo k (p + 1) := by
  have hge : ∀ x y, ¬ cmp x y < 0 → cmp y x ≤ 0 := fun x y hxy =>
    not_lt.mp fun hyx => hxy ((hcmp.swap x y).mpr hyx)
  refine ⟨fun x hx hxk => ?_, fun x hx hxp => ?_⟩
  · rw [Function.comp_apply, Function.comp_apply, Equiv.swap_apply_left,
      Equiv.swap_apply_of_ne_of_ne (by omega) (by omega)]
    exact (h.below x hx hxk).le
  · rw [Function.comp_apply, Function.comp_apply, Equiv.swap_apply_left]
    rcases eq_or_ne x p with rfl | hne
    · rw [Equiv.swap_apply_right]
      exact hge _ _ (h.rest k le_rfl (by omega))
    · rw [Equiv.swap_apply_of_ne_of_ne (by omega) hne]
      exact hge _ _ (h.rest x (by omega) (by omega))

lemma Split.left {e e' : ℕ → List UInt8} {k hi : ℕ} (h : Split cmp e lo k hi)
    (hmoved : Rearranged lo k e e') : Split cmp e' lo k hi := by
  have hk : e' k = e k := hmoved.outside (Or.inr le_rfl)
  refine ⟨fun x hx hxk => ?_, fun x hx hxh => ?_⟩
  · rw [hk]
    exact hmoved.forall_segment (P := fun v => cmp v (e k) ≤ 0) h.below x hx hxk
  · rw [hk, hmoved.outside (Or.inr (by omega))]
    exact h.above x hx hxh

lemma Split.right {e e' : ℕ → List UInt8} {k hi : ℕ} (h : Split cmp e lo k hi)
    (hmoved : Rearranged (k + 1) hi e e') : Split cmp e' lo k hi := by
  have hk : e' k = e k := hmoved.outside (Or.inl (Nat.lt_succ_self k))
  refine ⟨fun x hx hxk => ?_, fun x hx hxh => ?_⟩
  · rw [hk, hmoved.outside (Or.inl (by omega))]
    exact h.below x hx hxk
  · rw [hk]
    exact hmoved.forall_segment (P := fun v => cmp (e k) v ≤ 0) h.above x hx hxh

/-- The segment is sorted, for any comparison of the contents that is a total preorder. -/
def Sorted (compar : Compar σ) (base size lo hi : ℕ) (m : Buf) : Prop :=
  ∀ cmp, Orders compar size cmp → Comparison cmp →
    SortedOn (fun x y => cmp x y ≤ 0) lo hi (elemAt base size m)

/-- The two halves of a round, in either order. -/
lemma sorted_of_halves {k hi : ℕ} {m₁ m₂ m₃ : Buf}
    (hsplit : ∀ cmp, Orders compar size cmp → Comparison cmp →
      Split cmp (elemAt base size m₁) lo k hi)
    (h : Moved base size lo k m₁ m₂ ∧ Moved base size (k + 1) hi m₂ m₃ ∧
        Sorted compar base size lo k m₂ ∧ Sorted compar base size (k + 1) hi m₃ ∨
      Moved base size (k + 1) hi m₁ m₂ ∧ Moved base size lo k m₂ m₃ ∧
        Sorted compar base size (k + 1) hi m₂ ∧ Sorted compar base size lo k m₃) :
    Sorted compar base size lo hi m₃ := by
  intro cmp hord hcmp
  have hs := hsplit cmp hord hcmp
  rcases h with ⟨hl, hr, hsl, hsr⟩ | ⟨hr, hl, hsr, hsl⟩
  · have hs' := (hs.left hl.elems).right hr.elems
    exact .glue hcmp.trans ((hsl cmp hord hcmp).congr fun i _ hi =>
      hr.elems.outside (Or.inl (by omega))) (hsr cmp hord hcmp) hs'.below hs'.above
  · have hs' := (hs.right hr.elems).left hl.elems
    exact .glue hcmp.trans (hsl cmp hord hcmp) ((hsr cmp hord hcmp).congr fun i hi _ =>
      hl.elems.outside (Or.inr (by omega))) hs'.below hs'.above

/-- What `qsort_recurse` does to the elements from `lo` up to `hi`. -/
lemma qsortRecurse_spec (compar : Compar σ) (base size : ℕ) :
    ∀ (fuel lo hi : ℕ) (s : σ) (m : Buf), 0 < fuel → hi - lo ≤ fuel → lo ≤ hi → hi < 2 ^ 31 →
    ∃ s' m', qsortRecurse compar base size fuel lo ((hi : ℤ) - 1) s m = some (s', m') ∧
      Moved base size lo hi m m' ∧ Sorted compar base size lo hi m' := by
  intro fuel
  induction fuel with
  | zero => exact fun _ _ _ _ h => absurd h (Nat.lt_irrefl 0)
  | succ fuel ih =>
    intro lo hi s m _ hfuel hle hmax
    rw [qsortRecurse]
    by_cases hlt : (lo : ℤ) < (hi : ℤ) - 1
    · obtain ⟨p, rfl⟩ : ∃ p, hi = p + 1 := ⟨hi - 1, by omega⟩
      have hp : ((p + 1 : ℕ) : ℤ) - 1 = p := by omega
      have hn : ((p : ℤ) - lo).toNat = p - lo := by omega
      rw [if_pos hlt, hp, hn]
      obtain ⟨k, hk, hlk, hkp, hmoved⟩ := partitionLoop_moved compar base size lo p (p - lo)
        lo lo s m le_rfl le_rfl (by omega)
      have hscan : ∀ cmp, Orders compar size cmp →
          ∃ k : ℕ, (partitionLoop compar base size p (p - lo) lo lo s m).1 = k ∧
            Scanned cmp (elemAt base size
              (partitionLoop compar base size p (p - lo) lo lo s m).2.2) lo k p p :=
        fun cmp hord => partitionLoop_split hord (p - lo) lo lo s m le_rfl (by omega)
          ⟨fun x h h' => by omega, fun x h h' => by omega⟩
      generalize partitionLoop compar base size p (p - lo) lo lo s m = r at hk hmoved hscan
      obtain ⟨store, s₁, m₁⟩ := r
      dsimp only at hk hmoved hscan ⊢
      subst hk
      have hround := hmoved.mono le_rfl (Nat.le_succ p) |>.trans
        (.swap m₁ hlk (Nat.lt_succ_of_le hkp) (hlk.trans hkp) (Nat.lt_succ_self p))
      have hsplit : ∀ cmp, Orders compar size cmp → Comparison cmp →
          Split cmp (elemAt base size (qsortSwap (base + k * size) (base + p * size) size m₁))
            lo k (p + 1) := by
        intro cmp hord hcmp
        obtain ⟨k', hk', hs⟩ := hscan cmp hord
        obtain rfl : k = k' := by exact_mod_cast hk'
        rw [elemAt_qsortSwap]
        exact hs.split hcmp hkp
      rw [elemAddr_natCast, elemAddr_natCast]
      generalize qsortSwap (base + k * size) (base + p * size) size m₁ = m₂ at hround hsplit
      have hlow : long ((k : ℤ) - 1) = (k : ℤ) - 1 := long_eq (by omega) (by omega)
      have hhigh : long ((k : ℤ) + 1) = ((k + 1 : ℕ) : ℤ) := by
        rw [long_eq (by omega) (by omega)]
        push_cast
        rfl
      rw [hlow, hhigh, ← hp]
      split
      · obtain ⟨s₃, m₃, he, hl, hsl⟩ := ih lo k s₁ m₂ (by omega) (by omega) hlk (by omega)
        obtain ⟨s₄, m₄, he', hr, hsr⟩ := ih (k + 1) (p + 1) s₃ m₃ (by omega)
          (by omega) (by omega) hmax
        exact ⟨s₄, m₄, by rw [he, Option.bind_some, he'],
          (hround.trans (hl.mono le_rfl (by omega))).trans (hr.mono (by omega) le_rfl),
          sorted_of_halves hsplit (Or.inl ⟨hl, hr, hsl, hsr⟩)⟩
      · obtain ⟨s₃, m₃, he, hr, hsr⟩ := ih (k + 1) (p + 1) s₁ m₂ (by omega)
          (by omega) (by omega) hmax
        obtain ⟨s₄, m₄, he', hl, hsl⟩ := ih lo k s₃ m₃ (by omega) (by omega) hlk (by omega)
        exact ⟨s₄, m₄, by rw [he, Option.bind_some, he'],
          (hround.trans (hr.mono (by omega) le_rfl)).trans (hl.mono le_rfl (by omega)),
          sorted_of_halves hsplit (Or.inr ⟨hr, hl, hsr, hsl⟩)⟩
    · rw [if_neg hlt]
      exact ⟨s, m, rfl, .refl m, fun cmp _ _ => .of_short (by omega)⟩

/-- Short arrays and empty elements need no sorting. -/
lemma sorted_of_trivial {nmemb : ℕ} (h : nmemb < 2 ∨ size = 0) (m : Buf) :
    Sorted compar base size 0 nmemb m := by
  intro cmp _ hcmp
  rcases h with h | rfl
  · exact .of_short (by omega)
  · have hrefl : cmp [] [] ≤ 0 := not_lt.mp fun hx => absurd ((hcmp.swap [] []).mpr hx) hx.not_gt
    exact fun i j _ _ _ => hrefl

/-- The order of the first bytes. -/
def byteCmp (x y : List UInt8) : ℤ := ((x.headD 0).toNat : ℤ) - (y.headD 0).toNat

/-- The comparison function for bytes. -/
def byteCompar : Compar Unit := fun _ m a b => (byteCmp (objectAt m 1 a) (objectAt m 1 b), ())

/-- A one in front of zeros. -/
def falling : Buf := fun x => if x = 0 then 1 else 0

lemma comparison_byteCmp : Comparison byteCmp :=
  ⟨fun x y => by rw [byteCmp, byteCmp]; omega, fun x y z => by
    rw [byteCmp, byteCmp, byteCmp]; omega⟩

lemma not_pairwise_falling {nmemb : ℕ} (h : 2 ≤ nmemb) :
    ¬ (elems 0 1 nmemb falling).Pairwise fun x y => byteCmp x y ≤ 0 := by
  intro hp
  have hlen : (elems 0 1 nmemb falling).length = nmemb := by
    rw [elems, List.length_map, List.length_range]
  have h01 := List.pairwise_iff_getElem.mp hp 0 1 (by omega) (by omega) Nat.zero_lt_one
  simp only [elems, List.getElem_map, List.getElem_range] at h01
  exact absurd h01 (by decide)

end

end GordOS.User
