/-
Stateful code whose error exits keep the state.

A C function that returns `-1` half way has already changed the memory and the
disk, so the failure of a computation must not roll its state back.

* `Fallible σ α`: a computation on the state `σ` that ends with a value or with
  the error return, in both cases in some state;
* `attempt`, `ignore`: a caller that looks at the error return of a callee, and
  one that drops it;
* `bind_of_some`, `bind_of_none`, `attempt_of_some`, ...: symbolic execution,
  one callee at a time;
* `Returns m P`: whatever the computation returns satisfies `P`;
* `Steady T m P`: a call that returned a value with `P` does the same after the change `T`
  of the state;
* `Leads I J m Q`: from every state with `I` the computation ends in a state with `J`,
  and what it returns satisfies `Q`;
* `Spec I abs m v Q`: from every state that satisfies `I` and has the abstract
  value `v`, the computation `m` keeps `I` and ends as `Q` says of its outcome
  and of the abstract value then; with the rules for the parts of a program
  (`Spec.bind`, `Spec.attempt`, `Spec.ignore`, ...), and `Det` for a computation
  that ends in one way;
* `Refines R m a`: from states related by `R` the computation `m` and the abstract one `a`
  end alike, in states related by `R`; with `Refines.bind`, `Refines.forM`, ...;
* `forM_stay`, `forM_first`, `forM_range_mul`: loops.
-/
import Mathlib.Tactic

namespace GordOS

/-- A computation on a state `σ`: `none` is the error return, and both exits
come with the state the computation ended in. -/
def Fallible (σ α : Type) : Type := σ → Option α × σ

namespace Fallible

variable {σ α β : Type}

/-- Two computations in a row; the error return of the first ends both. -/
@[irreducible] def andThen (m : Fallible σ α) (f : α → Fallible σ β) :
    Fallible σ β := fun s =>
  match m s with
  | (some a, s') => f a s'
  | (none, s') => (none, s')

instance : Monad (Fallible σ) where
  pure a := fun s => (some a, s)
  bind := andThen

/-- The error return. -/
def fail : Fallible σ α := fun s => (none, s)

/-- Read something off the state. -/
def gets (f : σ → α) : Fallible σ α := fun s => (some (f s), s)

/-- Change the state. -/
def modify (f : σ → σ) : Fallible σ Unit := fun s => (some (), f s)

/-- Call and look at the outcome, the error return included. -/
def attempt (m : Fallible σ α) : Fallible σ (Option α) := fun s =>
  (some (m s).1, (m s).2)

/-- Call and drop the outcome, the error return included. -/
def ignore (m : Fallible σ α) : Fallible σ Unit := fun s => (some (), (m s).2)

/-! ### Symbolic execution -/

@[simp] lemma pure_apply (a : α) (s : σ) :
    (pure a : Fallible σ α) s = (some a, s) := rfl

@[simp] lemma fail_apply (s : σ) : (fail : Fallible σ α) s = (none, s) := rfl

@[simp] lemma gets_apply (f : σ → α) (s : σ) : gets f s = (some (f s), s) := rfl

@[simp] lemma modify_apply (f : σ → σ) (s : σ) :
    modify f s = (some (), f s) := rfl

lemma bind_apply (m : Fallible σ α) (f : α → Fallible σ β) (s : σ) : (m >>= f) s =
      match m s with
      | (some a, s') => f a s'
      | (none, s') => (none, s') := by
  show andThen m f s = _
  rw [andThen]

lemma bind_of_some {m : Fallible σ α} {f : α → Fallible σ β} {s s' : σ} {a : α}
    (h : m s = (some a, s')) : (m >>= f) s = f a s' := by
  rw [bind_apply, h]

lemma bind_of_none {m : Fallible σ α} {f : α → Fallible σ β} {s s' : σ} (h : m s = (none, s')) :
    (m >>= f) s = (none, s') := by
  rw [bind_apply, h]

/-- The error return behind a last change of the state. -/
lemma modify_fail (f : σ → σ) (s : σ) :
    (modify f >>= fun _ => (fail : Fallible σ α)) s = (none, f s) :=
  bind_of_some (modify_apply f s)

lemma attempt_of_eq {m : Fallible σ α} {s s' : σ} {r : Option α} (h : m s = (r, s')) :
    attempt m s = (some r, s') := by
  rw [attempt, h]

lemma ignore_of_eq {m : Fallible σ α} {s s' : σ} {r : Option α} (h : m s = (r, s')) :
    ignore m s = (some (), s') := by
  rw [ignore, h]

instance : LawfulMonad (Fallible σ) := LawfulMonad.mk' _
  (fun m => by
    funext s
    show (m >>= pure) s = m s
    rw [bind_apply]
    rcases m s with ⟨_ | a, s'⟩ <;> rfl)
  (fun a f => by
    funext s
    exact bind_of_some (pure_apply a s))
  (fun m f k => by
    funext s
    rw [bind_apply, bind_apply, bind_apply]
    rcases m s with ⟨_ | a, s'⟩
    · rfl
    · exact (bind_apply (f a) k s').symm)

/-! ### What a computation can return -/

/-- Whatever the computation returns, from whatever state, satisfies `P`. -/
def Returns (m : Fallible σ α) (P : α → Prop) : Prop := ∀ s a, (m s).1 = some a → P a

lemma Returns.pure {a : α} {P : α → Prop} (h : P a) : Returns (pure a : Fallible σ α) P := by
  intro s b hb
  obtain rfl : a = b := by simpa using hb
  exact h

lemma Returns.fail {P : α → Prop} : Returns (fail : Fallible σ α) P := fun _ _ h => nomatch h

lemma Returns.of_forall {P : α → Prop} (m : Fallible σ α) (h : ∀ a, P a) : Returns m P :=
  fun _ a _ => h a

lemma Returns.mono {m : Fallible σ α} {P Q : α → Prop} (h : Returns m P) (hPQ : ∀ a, P a → Q a) :
    Returns m Q := fun s a hs => hPQ a (h s a hs)

lemma Returns.bind {m : Fallible σ α} {f : α → Fallible σ β} {R : α → Prop} {P : β → Prop}
    (hm : Returns m R) (hf : ∀ a, R a → Returns (f a) P) : Returns (m >>= f) P := by
  intro s b hb
  rcases hms : m s with ⟨r, s'⟩
  cases r with
  | none =>
    rw [bind_of_none hms] at hb
    cases hb
  | some a =>
    rw [bind_of_some hms] at hb
    exact hf a (hm s a (by rw [hms])) s' b hb

/-! ### Calls that a change of the state does not disturb -/

/-- A call that returned a value with `P` returns it, and ends in the changed state, after
the change `T` of the state as well. -/
def Steady (T : σ → σ) (m : Fallible σ α) (P : α → Prop) : Prop :=
  ∀ s a s', m s = (some a, s') → P a → m (T s) = (some a, T s')

section

variable {T : σ → σ} {m : Fallible σ α} {P Q : α → Prop} {R : β → Prop}

lemma Steady.pure (a : α) : Steady T (pure a : Fallible σ α) P := by
  intro s b s' h _
  rw [pure_apply, Prod.mk.injEq] at h ⊢
  exact ⟨h.1, by rw [h.2]⟩

lemma Steady.fail : Steady T (fail : Fallible σ α) P := by
  intro s b s' h _
  rw [fail_apply, Prod.mk.injEq] at h
  exact nomatch h.1

/-- The rule for a sequence: the second part must not return a value with `R` unless the
first one did so with `Q`. -/
lemma Steady.bind {f : α → Fallible σ β} (hm : Steady T m Q) (hf : ∀ a, Steady T (f a) R)
    (hret : ∀ a, ¬ Q a → Returns (f a) fun b => ¬ R b) : Steady T (m >>= f) R := by
  intro s b s' h hR
  rcases hms : m s with ⟨_ | a, s₁⟩
  · rw [bind_of_none hms] at h
    cases h
  · rw [bind_of_some hms] at h
    have hQ : Q a := by
      by_contra hQ
      exact hret a hQ s₁ b (by rw [h]) hR
    rw [bind_of_some (hm s a s₁ hms hQ)]
    exact hf a s₁ b s' h hR

/-- The rule for a first part that is never disturbed. -/
lemma Steady.then {f : α → Fallible σ β} (hm : Steady T m fun _ => True)
    (hf : ∀ a, Steady T (f a) R) : Steady T (m >>= f) R :=
  hm.bind hf fun _ h => absurd trivial h

lemma Steady.attempt (hm : Steady T m fun _ => True) :
    Steady T (Fallible.attempt m) fun r => r ≠ none := by
  intro s r s' h hr
  rcases hms : m s with ⟨_ | a, s₁⟩
  · rw [attempt_of_eq hms, Prod.mk.injEq, Option.some.injEq] at h
    exact absurd h.1.symm hr
  · rw [attempt_of_eq hms, Prod.mk.injEq, Option.some.injEq] at h
    rw [attempt_of_eq (hm s a s₁ hms trivial), h.1, h.2]

end

/-! ### From invariant to invariant -/

section

variable {I J K : σ → Prop} {Q : α → Prop} {R : β → Prop} {m : Fallible σ α}

/-- From every state with `I` the computation ends in a state with `J`, and what it
returns satisfies `Q`. -/
def Leads (I J : σ → Prop) (m : Fallible σ α) (Q : α → Prop) : Prop :=
  ∀ s, I s → J (m s).2 ∧ ∀ a, (m s).1 = some a → Q a

lemma Leads.pure {a : α} (h : Q a) : Leads I I (pure a) Q := fun _ hs =>
  ⟨hs, fun _ hb => Option.some.inj hb ▸ h⟩

lemma Leads.fail : Leads I I (fail : Fallible σ α) Q := fun _ hs => ⟨hs, fun _ hb => nomatch hb⟩

lemma Leads.strengthen (h : Leads J K m Q) (hI : ∀ s, I s → J s) : Leads I K m Q :=
  fun s hs => h s (hI s hs)

/-- The rule for a sequence: the error return of the first part ends both. -/
lemma Leads.bind {f : α → Fallible σ β} (hm : Leads I J m Q)
    (hf : ∀ a, Q a → Leads J K (f a) R) (hJ : ∀ s, J s → K s) : Leads I K (m >>= f) R := by
  intro s hs
  obtain ⟨hs', hret⟩ := hm s hs
  rcases hms : m s with ⟨_ | a, s'⟩
  · rw [hms] at hs'
    rw [bind_of_none hms]
    exact ⟨hJ s' hs', fun _ hb => nomatch hb⟩
  · rw [hms] at hs' hret
    rw [bind_of_some hms]
    exact hf a (hret a rfl) s' hs'

/-- The rule for a sequence that keeps one invariant. -/
lemma Leads.then {f : α → Fallible σ β} (hm : Leads I I m Q) (hf : ∀ a, Q a → Leads I I (f a) R) :
    Leads I I (m >>= f) R := hm.bind hf fun _ h => h

lemma Leads.attempt (h : Leads I J m Q) :
    Leads I J (Fallible.attempt m) fun r => ∀ a, r = some a → Q a := fun s hs =>
  ⟨(h s hs).1, fun _ hr => Option.some.inj hr ▸ (h s hs).2⟩

lemma Leads.ignore (h : Leads I J m Q) : Leads I J (Fallible.ignore m) fun _ => True :=
  fun s hs => ⟨(h s hs).1, fun _ _ => trivial⟩

/-- The rule for a loop. -/
lemma Leads.forM {ι : Type} {f : ι → Fallible σ Unit} (l : List ι)
    (hf : ∀ i ∈ l, Leads I I (f i) fun _ => True) : Leads I I (l.forM f) fun _ => True := by
  induction l with
  | nil => exact Leads.pure trivial
  | cons i l ih =>
    exact (hf i List.mem_cons_self).then fun _ _ =>
      ih fun j hj => hf j (List.mem_cons_of_mem i hj)

/-- The rule for a loop with a variable. -/
lemma Leads.foldlM {ι : Type} {f : β → ι → Fallible σ β} (l : List ι)
    (hf : ∀ b, ∀ i ∈ l, Leads I I (f b i) fun _ => True) (b : β) :
    Leads I I (l.foldlM f b) fun _ => True := by
  induction l generalizing b with
  | nil => exact Leads.pure trivial
  | cons i l ih =>
    exact (hf b i List.mem_cons_self).then fun c _ =>
      ih (fun c j hj => hf c j (List.mem_cons_of_mem i hj)) c

end

/-! ### Specifications through an abstraction -/

variable {V : Type} {I : σ → Prop} {abs : σ → V} {v w : V}

/-- From every state with the invariant `I` and the abstract value `v`, the
computation keeps `I`, and `Q` holds of its outcome and its last abstract
value. -/
def Spec (I : σ → Prop) (abs : σ → V) (m : Fallible σ α) (v : V)
    (Q : Option α → V → Prop) : Prop :=
  ∀ s, I s → abs s = v → I (m s).2 ∧ Q (m s).1 (abs (m s).2)

/-- The computation returns `a` with the abstract value `w`. -/
def Det (I : σ → Prop) (abs : σ → V) (m : Fallible σ α) (v : V) (a : α)
    (w : V) : Prop :=
  Spec I abs m v fun r v' => r = some a ∧ v' = w

lemma Spec.mono {m : Fallible σ α} {Q Q' : Option α → V → Prop}
    (h : Spec I abs m v Q) (hQ : ∀ r v', Q r v' → Q' r v') :
    Spec I abs m v Q' := fun s hI hs =>
  ⟨(h s hI hs).1, hQ _ _ (h s hI hs).2⟩

lemma Spec.pure {a : α} {Q : Option α → V → Prop} (h : Q (some a) v) :
    Spec I abs (pure a) v Q := fun _ hI hs => ⟨hI, hs ▸ h⟩

lemma Spec.fail {Q : Option α → V → Prop} (h : Q none v) :
    Spec I abs (fail : Fallible σ α) v Q := fun _ hI hs => ⟨hI, hs ▸ h⟩

/-- The rule for a sequence of two computations. -/
lemma Spec.bind {m : Fallible σ α} {f : α → Fallible σ β} {R : Option α → V → Prop}
    {Q : Option β → V → Prop} (hm : Spec I abs m v R)
    (hsome : ∀ a v', R (some a) v' → Spec I abs (f a) v' Q) (hnone : ∀ v', R none v' → Q none v') :
    Spec I abs (m >>= f) v Q := by
  intro s hI hs
  obtain ⟨hI', hR⟩ := hm s hI hs
  rcases hms : m s with ⟨r, s'⟩
  rw [hms] at hI' hR
  cases r with
  | none =>
    rw [bind_of_none hms]
    exact ⟨hI', hnone _ hR⟩
  | some a =>
    rw [bind_of_some hms]
    exact hsome a _ hR s' hI' rfl

lemma Spec.attempt {m : Fallible σ α} {Q : Option (Option α) → V → Prop}
    (h : Spec I abs m v fun r v' => Q (some r) v') :
    Spec I abs (Fallible.attempt m) v Q := h

lemma Spec.ignore {m : Fallible σ α} {Q : Option Unit → V → Prop}
    (h : Spec I abs m v fun _ v' => Q (some ()) v') :
    Spec I abs (Fallible.ignore m) v Q := h

/-- The rule for a caller that looks at the outcome of a callee. -/
lemma Spec.attempt_bind {m : Fallible σ α} {f : Option α → Fallible σ β}
    {R : Option α → V → Prop} {Q : Option β → V → Prop} (hm : Spec I abs m v R)
    (hf : ∀ r v', R r v' → Spec I abs (f r) v' Q) :
    Spec I abs (Fallible.attempt m >>= f) v Q := by
  intro s hI hs
  rw [bind_of_some (show Fallible.attempt m s = (some (m s).1, (m s).2) from rfl)]
  exact hf _ _ (hm s hI hs).2 _ (hm s hI hs).1 rfl

/-- A computation that ends in one way, and what comes behind it. -/
lemma Det.bind {m : Fallible σ α} {f : α → Fallible σ β} {a : α} {Q : Option β → V → Prop}
    (hm : Det I abs m v a w) (hf : Spec I abs (f a) w Q) : Spec I abs (m >>= f) v Q := by
  refine Spec.bind hm ?_ ?_
  · rintro b v' ⟨hb, rfl⟩
    rw [Option.some.injEq] at hb
    exact hb ▸ hf
  · rintro v' ⟨hb, -⟩
    cases hb

lemma Det.spec {m : Fallible σ α} {a : α} {Q : Option α → V → Prop}
    (hm : Det I abs m v a w) (h : Q (some a) w) : Spec I abs m v Q := by
  refine Spec.mono hm ?_
  rintro r v' ⟨rfl, rfl⟩
  exact h

lemma Det.pure (a : α) : Det I abs (Pure.pure a) v a v := Spec.pure ⟨rfl, rfl⟩

lemma Det.attempt {m : Fallible σ α} {a : α} (hm : Det I abs m v a w) :
    Det I abs (Fallible.attempt m) v (some a) w :=
  Spec.attempt (hm.spec ⟨rfl, rfl⟩)

lemma Det.ignore {m : Fallible σ α} {a : α} (hm : Det I abs m v a w) :
    Det I abs (Fallible.ignore m) v () w :=
  Spec.ignore (hm.spec ⟨rfl, rfl⟩)

/-! ### Loops -/

/-- Rounds that do nothing. -/
lemma forM_stay {ι : Type} {f : ι → Fallible σ Unit} {s : σ} (l : List ι)
    (h : ∀ i ∈ l, f i s = (some (), s)) : l.forM f s = (some (), s) := by
  induction l with
  | nil => rfl
  | cons i l ih =>
    exact (bind_of_some (h i List.mem_cons_self)).trans
      (ih fun j hj => h j (List.mem_cons_of_mem i hj))

/-- A loop of which only the first round does something. -/
lemma forM_first {ι : Type} {f : ι → Fallible σ Unit} {s s' : σ} {i : ι} {l : List ι}
    (hfirst : f i s = (some (), s')) (h : ∀ j ∈ l, f j s' = (some (), s')) :
    (i :: l).forM f s = (some (), s') := (bind_of_some hfirst).trans (forM_stay l h)

/-- Two loops in one another are one loop. -/
lemma forM_range_mul {m : Type → Type} [Monad m] [LawfulMonad m] (f : ℕ → m Unit) (n k : ℕ) :
    ((List.range n).forM fun i => (List.range k).forM fun j => f (i * k + j)) =
      (List.range (n * k)).forM f := by
  have happ : ∀ (l l' : List ℕ) (g : ℕ → m Unit),
      (l ++ l').forM g = l.forM g >>= fun _ => l'.forM g := fun l l' g => List.forM_append
  induction n with
  | zero =>
    rw [Nat.zero_mul]
    rfl
  | succ n ih =>
    have hone : ([n].forM fun i => (List.range k).forM fun j => f (i * k + j)) =
        (List.range k).forM fun j => f (n * k + j) :=
      (List.forM_cons (a := n)).trans bind_pure_unit
    have hmap : ((List.range k).map (n * k + ·)).forM f =
        (List.range k).forM fun j => f (n * k + j) := List.forM_map
    rw [List.range_succ, happ, ih, hone, Nat.succ_mul, List.range_add, happ, hmap]

/-! ### Refinement -/

section

variable {R : σ → V → Prop}

/-- From related states both computations return the same and end in related states. -/
def Refines (R : σ → V → Prop) (m : Fallible σ α) (a : Fallible V α) : Prop :=
  ∀ s v, R s v → (m s).1 = (a v).1 ∧ R (m s).2 (a v).2

lemma Refines.pure (x : α) : Refines R (Pure.pure x) (Pure.pure x) := fun _ _ h => ⟨rfl, h⟩

lemma Refines.fail : Refines R (fail : Fallible σ α) fail := fun _ _ h => ⟨rfl, h⟩

/-- The rule for a sequence of two computations. -/
lemma Refines.bind {m : Fallible σ α} {a : Fallible V α} {f : α → Fallible σ β}
    {g : α → Fallible V β} (hm : Refines R m a) (hf : ∀ x, Refines R (f x) (g x)) :
    Refines R (m >>= f) (a >>= g) := by
  intro s v h
  obtain ⟨hret, hR⟩ := hm s v h
  rcases hms : m s with ⟨r, s'⟩
  rcases hav : a v with ⟨r', v'⟩
  rw [hms, hav] at hret hR
  obtain rfl : r = r' := hret
  cases r with
  | none =>
    rw [bind_of_none hms, bind_of_none hav]
    exact ⟨rfl, hR⟩
  | some x =>
    rw [bind_of_some hms, bind_of_some hav]
    exact hf x s' v' hR

/-- The rule for a loop with a variable. -/
lemma Refines.foldlM {ι : Type} {f : β → ι → Fallible σ β} {g : β → ι → Fallible V β}
    (l : List ι) (hf : ∀ b, ∀ x ∈ l, Refines R (f b x) (g b x)) (b : β) :
    Refines R (l.foldlM f b) (l.foldlM g b) := by
  induction l generalizing b with
  | nil => exact Refines.pure b
  | cons x l ih =>
    exact (hf b x List.mem_cons_self).bind fun c =>
      ih (fun c y hy => hf c y (List.mem_cons_of_mem x hy)) c

/-- The rule for a loop. -/
lemma Refines.forM {ι : Type} {f : ι → Fallible σ Unit} {g : ι → Fallible V Unit} (l : List ι)
    (hf : ∀ x ∈ l, Refines R (f x) (g x)) : Refines R (l.forM f) (l.forM g) := by
  induction l with
  | nil => exact Refines.pure ()
  | cons x l ih =>
    exact (hf x List.mem_cons_self).bind fun _ => ih fun y hy => hf y (List.mem_cons_of_mem x hy)

end

end Fallible

end GordOS
