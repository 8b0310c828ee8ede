/-
Linked lists in a memory of cells.

Cells are linked by a successor function `next` with null pointers; a list is
known by the pointer to its first cell, and a ring is a list that leads back to
its first cell.

* `Links next l p q`: from the pointer `p` the cells of `l` are met in order, and
  the last of them leads to `q`;
* `Links.append`, `Links.concat`, `Links.congr`: lists compose, and they only
  depend on `next` at their own cells;
* `Links.redirect`, `Links.unlink`: the last cell gets another successor, and a
  cell is taken out by its predecessor;
* `walk`, `Links.walk`: the loop that visits the cells up to a pointer, with a
  bound on its steps, meets exactly the cells of the list;
* `Links.find_pred`: the search for the cell before a given one.
-/
import Mathlib.Tactic

namespace GordOS

variable {α : Type}

/-- From `p` the cells of `l` are met in order, and the last one leads to `q`. -/
def Links (next : α → Option α) : List α → Option α → Option α → Prop
  | [], p, q => p = q
  | x :: l, p, q => p = some x ∧ Links next l (next x) q

/-- The cells a loop visits from a pointer up to the pointer `stop`, with a
bound on its steps. -/
def walk [DecidableEq α] (next : α → Option α) (stop : Option α) :
    ℕ → Option α → List α
  | 0, _ => []
  | n + 1, p =>
    if p = stop then []
    else match p with
      | none => []
      | some x => x :: walk next stop n (next x)

namespace Links

variable {next next' : α → Option α} {l l₁ l₂ : List α} {p q m : Option α}
variable {x y : α}

@[simp] lemma nil_iff : Links next [] p q ↔ p = q := Iff.rfl

@[simp] lemma cons_iff :
    Links next (x :: l) p q ↔ p = some x ∧ Links next l (next x) q := Iff.rfl

/-- Two lists one behind the other. -/
lemma append : Links next (l₁ ++ l₂) p q ↔ ∃ m, Links next l₁ p m ∧ Links next l₂ m q := by
  induction l₁ generalizing p with
  | nil => simp
  | cons x l ih => simp [ih, and_assoc]

/-- A list with a last cell. -/
lemma concat : Links next (l ++ [x]) p q ↔ Links next l p (some x) ∧ next x = q := by
  rw [append]
  constructor
  · rintro ⟨m, hl, rfl, hq⟩
    exact ⟨hl, hq⟩
  · rintro ⟨hl, hq⟩
    exact ⟨some x, hl, rfl, hq⟩

/-- A list only depends on the successors of its own cells. -/
lemma congr (h : Links next l p q) (heq : ∀ a ∈ l, next' a = next a) : Links next' l p q := by
  induction l generalizing p with
  | nil => exact h
  | cons x l ih =>
    obtain ⟨hp, hl⟩ := h
    refine ⟨hp, ih ?_ fun a ha => heq a (List.mem_cons_of_mem _ ha)⟩
    rwa [heq x List.mem_cons_self]

variable [DecidableEq α]

/-- Another successor for a cell outside the list. -/
lemma update (h : Links next l p q) (hx : x ∉ l) (v : Option α) :
    Links (Function.update next x v) l p q :=
  h.congr fun a ha => Function.update_of_ne (fun e : a = x => hx (e ▸ ha)) _ _

/-- The last cell gets another successor. -/
lemma redirect (h : Links next (l ++ [x]) p q) (hx : x ∉ l) (v : Option α) :
    Links (Function.update next x v) (l ++ [x]) p v := by
  rw [concat] at h ⊢
  exact ⟨h.1.update hx v, Function.update_self x v next⟩

/-- A cell is taken out by its predecessor. -/
lemma unlink (h : Links next (l₁ ++ [x] ++ y :: l₂) p q) (hn : (l₁ ++ [x] ++ y :: l₂).Nodup) :
    Links (Function.update next x (next y)) (l₁ ++ [x] ++ l₂) p q := by
  obtain ⟨m, h₁, -, h₂⟩ := append.mp h
  have hd := List.nodup_append'.mp hn
  have hx₁ : x ∉ l₁ := by
    have := List.nodup_append'.mp hd.1
    exact fun hx => this.2.2 hx List.mem_cons_self
  have hx₂ : x ∉ l₂ := fun hx =>
    hd.2.2 (List.mem_append_right _ List.mem_cons_self) (List.mem_cons_of_mem _ hx)
  exact append.mpr ⟨next y, h₁.redirect hx₁ _, h₂.update hx₂ _⟩

/-- The loop up to the end pointer meets the cells of the list. -/
lemma walk (h : Links next l p q) (hq : ∀ x ∈ l, some x ≠ q) {n : ℕ} (hn : l.length ≤ n) :
    walk next q n p = l := by
  induction l generalizing p n with
  | nil =>
    cases n with
    | zero => rfl
    | succ n => simp only [GordOS.walk, if_pos (show p = q from h)]
  | cons x l ih =>
    obtain ⟨rfl, hl⟩ := h
    cases n with
    | zero => simp at hn
    | succ n =>
      have htail := ih hl (fun a ha => hq a (List.mem_cons_of_mem _ ha)) (Nat.le_of_succ_le_succ hn)
      simp only [GordOS.walk, if_neg (hq x List.mem_cons_self), htail]

/-- The search for the cell before `y`, which may also stop at the end of a
ring. -/
lemma find_pred (h : Links next (l₁ ++ [x] ++ y :: l₂) p q) (hn : (l₁ ++ [x] ++ y :: l₂).Nodup)
    {v : Option α} (hv : ∀ a ∈ l₁ ++ [x] ++ y :: l₂, v = some a → a = y ∨ p = some a) :
    (l₁ ++ [x] ++ y :: l₂).find? (fun a => decide (next a = some y ∨ next a = v)) = some x := by
  induction l₁ generalizing p with
  | nil =>
    obtain ⟨-, hy, -⟩ := h
    simp [hy]
  | cons a l ih =>
    -- the successor of `a` is the next cell: neither `y` nor the first one
    obtain ⟨rfl, hl⟩ := h
    obtain ⟨b, hb, hbl, hby⟩ : ∃ b, next a = some b ∧ b ∈ l ++ [x] ++ y :: l₂ ∧ b ≠ y := by
      have hn' := (List.nodup_cons.mp hn).2
      cases l with
      | nil =>
        refine ⟨x, hl.1, by simp, fun e => ?_⟩
        simp [e] at hn'
      | cons b l =>
        refine ⟨b, hl.1, by simp, fun e => ?_⟩
        simp [e] at hn'
    have hne : ¬ (next a = some y ∨ next a = v) := by
      rintro (e | e)
      · exact hby (Option.some.inj (hb.symm.trans e))
      · rcases hv b (List.mem_cons_of_mem _ hbl) (e.symm.trans hb) with e | e
        · exact hby e
        · exact (List.nodup_cons.mp hn).1 (Option.some.inj e ▸ hbl)
    have htail := ih (p := next a) hl (List.nodup_cons.mp hn).2 fun c hc hvc =>
      (hv c (List.mem_cons_of_mem _ hc) hvc).imp_right fun e => by
        rw [Option.some.inj e] at hn
        exact absurd hc (List.nodup_cons.mp hn).1
    simpa [List.find?_cons, hne] using htail

end Links

end GordOS
