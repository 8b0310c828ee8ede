/-
Finite chains of a successor function.

A linked structure kept in an array is a function `next`; the chain of a head is
the list of the cells met on the way to an end mark.

* `Chain next ok stop c l`: from `c` the cells of `l` are met in order, all of
  them `ok`, and the successor of the last one is an end mark;
* `Chain.unique`, `Chain.nodup`: the head determines the chain, and no cell
  occurs twice (a chain that ends is acyclic);
* `Chain.next_getElem?`: the successor of a cell is the next one in the list;
* `Chain.congr`: the chain only depends on `next` along its own cells;
* `Chain.append`: relinking the last cell to another chain concatenates the two;
* `Chain.length_le`: a chain of cells below a bound is no longer than the bound.
-/
import Mathlib.Tactic

namespace GordOS

/-- From `c` the cells of `l` are met in order, all of them `ok`, and the
successor of the last one is an end mark. -/
inductive Chain {α : Type} (next : α → α) (ok stop : α → Prop) :
    α → List α → Prop where
  | last {c : α} : ok c → stop (next c) → Chain next ok stop c [c]
  | cons {c : α} {l : List α} : ok c → Chain next ok stop (next c) l →
      Chain next ok stop c (c :: l)

namespace Chain

variable {α : Type} {next next' : α → α} {ok stop : α → Prop}
variable {c : α} {l l' : List α}

/-- A chain starts with its head. -/
lemma eq_cons (h : Chain next ok stop c l) : ∃ t, l = c :: t := by
  cases h with
  | last _ _ => exact ⟨[], rfl⟩
  | cons _ _ => exact ⟨_, rfl⟩

lemma ne_nil (h : Chain next ok stop c l) : l ≠ [] := by
  obtain ⟨t, rfl⟩ := h.eq_cons
  simp

lemma head_mem (h : Chain next ok stop c l) : c ∈ l := by
  obtain ⟨t, rfl⟩ := h.eq_cons
  simp

lemma head_ok (h : Chain next ok stop c l) : ok c := by
  cases h with
  | last h _ => exact h
  | cons h _ => exact h

lemma ok_of_mem (h : Chain next ok stop c l) : ∀ x ∈ l, ok x := by
  induction h with
  | last h _ => simpa using h
  | cons h _ ih => simpa using ⟨h, ih⟩

/-- Every cell of a chain heads the rest of it. -/
lemma suffix_of_mem (h : Chain next ok stop c l) :
    ∀ x ∈ l, ∃ t, Chain next ok stop x t ∧ t <:+ l := by
  induction h with
  | @last c h₁ h₂ =>
    intro x hx
    rw [List.mem_singleton.mp hx]
    exact ⟨[c], .last h₁ h₂, List.suffix_rfl⟩
  | @cons c l h₁ h₂ ih =>
    intro x hx
    rcases List.mem_cons.mp hx with rfl | hx
    · exact ⟨x :: l, .cons h₁ h₂, List.suffix_rfl⟩
    · obtain ⟨t, ht, hs⟩ := ih x hx
      exact ⟨t, ht, hs.trans (List.suffix_cons c l)⟩

/-- The head determines the chain. -/
lemma unique (hd : ∀ x, ok x → ¬ stop x) (h : Chain next ok stop c l)
    (h' : Chain next ok stop c l') : l = l' := by
  induction h generalizing l' with
  | last _ hs =>
    cases h' with
    | last _ _ => rfl
    | cons _ h => exact absurd hs (hd _ h.head_ok)
  | cons _ h₂ ih =>
    cases h' with
    | last _ hs => exact absurd hs (hd _ h₂.head_ok)
    | cons _ h => rw [ih h]

/-- A chain that ends meets no cell twice. -/
lemma nodup (hd : ∀ x, ok x → ¬ stop x) (h : Chain next ok stop c l) : l.Nodup := by
  induction h with
  | last _ _ => simp
  | @cons c l h₁ h₂ ih =>
    refine List.nodup_cons.mpr ⟨fun hc => ?_, ih⟩
    -- a second visit of `c` would make the chain of `c` longer than itself
    obtain ⟨t, ht, hs⟩ := h₂.suffix_of_mem c hc
    have := (Chain.cons h₁ h₂).unique hd ht
    have hlen := hs.length_le
    rw [← this, List.length_cons] at hlen
    omega

/-- A chain only depends on the successors of its own cells. -/
lemma congr (h : Chain next ok stop c l) (hn : ∀ x ∈ l, next' x = next x) :
    Chain next' ok stop c l := by
  induction h with
  | @last c h₁ h₂ =>
    have hc : next' c = next c := hn c (by simp)
    exact .last h₁ (by rwa [hc])
  | @cons c l h₁ _ ih =>
    have hc : next' c = next c := hn c (by simp)
    refine .cons h₁ ?_
    rw [hc]
    exact ih fun x hx => hn x (List.mem_cons_of_mem c hx)

/-- Relinking the last cell to the head of a second chain concatenates them. -/
lemma append {d : α} {m : List α} (h : Chain next ok stop c l) (hm : Chain next' ok stop d m)
    (hl : next' (l.getLast h.ne_nil) = d) (hn : ∀ x ∈ l.dropLast, next' x = next x) :
    Chain next' ok stop c (l ++ m) := by
  induction h with
  | @last c h₁ h₂ =>
    simp only [List.getLast_singleton] at hl
    refine .cons h₁ ?_
    rwa [hl]
  | @cons c l h₁ h₂ ih =>
    obtain ⟨t, rfl⟩ := h₂.eq_cons
    have hc : next' c = next c := hn c (by simp)
    refine .cons h₁ ?_
    rw [hc]
    refine ih ?_ fun x hx => hn x ?_
    · simpa using hl
    · rw [List.dropLast_cons_of_ne_nil (by simp)]
      exact List.mem_cons_of_mem _ hx

/-- The rest of a chain from one of its cells on. -/
lemma drop {q : ℕ} {x : α} {t : List α} (h : Chain next ok stop c l) (hq : l.drop q = x :: t) :
    Chain next ok stop x (x :: t) := by
  induction h generalizing q with
  | @last c h₁ h₂ =>
    cases q with
    | zero =>
      obtain ⟨rfl, rfl⟩ : c = x ∧ [] = t := by simpa using hq
      exact .last h₁ h₂
    | succ q => simp at hq
  | @cons c l h₁ h₂ ih =>
    cases q with
    | zero =>
      obtain ⟨rfl, rfl⟩ : c = x ∧ l = t := by simpa using hq
      exact .cons h₁ h₂
    | succ q => exact ih (by simpa using hq)

/-- The successor of a cell is the next cell. -/
lemma next_getElem? {j : ℕ} {x y : α} (h : Chain next ok stop c l) (hx : l[j]? = some x)
    (hy : l[j + 1]? = some y) : next x = y := by
  obtain ⟨hj, rfl⟩ := List.getElem?_eq_some_iff.mp hx
  have hdrop := List.drop_eq_getElem_cons hj
  have hrest := h.drop hdrop
  cases hd : l.drop (j + 1) with
  | nil =>
    rw [List.drop_eq_nil_iff] at hd
    rw [List.getElem?_eq_none hd] at hy
    cases hy
  | cons z t =>
    rw [← List.head?_drop, hd, List.head?_cons, Option.some.injEq] at hy
    rw [hd] at hrest
    cases hrest with
    | cons _ ht =>
      obtain ⟨t', ht'⟩ := ht.eq_cons
      rw [← hy]
      exact (List.cons.inj ht').1.symm

/-- What a loop along a chain does that has enough rounds left: nothing at an end mark, and
one cell and the rest of the chain anywhere else. -/
lemma rounds {P : ℕ → α → List α → Prop} (hd : ∀ x, ok x → ¬ stop x)
    (hstop : ∀ n c, stop c → P n c [])
    (hstep : ∀ n c l, ok c → c ∉ l → P n (next c) l → P (n + 1) c (c :: l))
    (h : Chain next ok stop c l) : ∀ n, l.length ≤ n → P n c l := by
  induction h with
  | @last c h₁ h₂ =>
    intro n hn
    obtain ⟨n, rfl⟩ := Nat.exists_eq_add_of_le' hn
    exact hstep n c [] h₁ List.not_mem_nil (hstop n _ h₂)
  | @cons c l h₁ h₂ ih =>
    intro n hn
    obtain ⟨n, rfl⟩ := Nat.exists_eq_add_of_le' hn
    have hc := (List.nodup_cons.mp ((Chain.cons h₁ h₂).nodup hd)).1
    exact hstep _ c l h₁ hc (ih _ (Nat.le_add_left _ n))

/-- The successor of every cell of a chain is in it or an end mark. -/
lemma next_mem_or_stop (h : Chain next ok stop c l) : ∀ x ∈ l, next x ∈ l ∨ stop (next x) := by
  induction h with
  | last _ h => simpa using Or.inr h
  | cons _ h ih =>
    intro x hx
    rcases List.mem_cons.mp hx with rfl | hx
    · exact Or.inl (List.mem_cons_of_mem _ h.head_mem)
    · exact (ih x hx).imp_left (List.mem_cons_of_mem _)

end Chain

/-- A chain of cells in `[lo, lo + n)` has at most `n` of them. -/
lemma Chain.length_le {next : ℕ → ℕ} {stop : ℕ → Prop} {lo n c : ℕ}
    {l : List ℕ} (hd : ∀ x, (lo ≤ x ∧ x < lo + n) → ¬ stop x)
    (h : Chain next (fun x => lo ≤ x ∧ x < lo + n) stop c l) :
    l.length ≤ n := by
  have hsub : l.toFinset ⊆ Finset.Ico lo (lo + n) := by
    intro x hx
    exact Finset.mem_Ico.mpr (h.ok_of_mem x (List.mem_toFinset.mp hx))
  have hcard := Finset.card_le_card hsub
  rw [List.toFinset_card_of_nodup (h.nodup hd), Nat.card_Ico] at hcard
  omega

end GordOS
