/-
Objects in a forest of directories.

An object has a head: the cell where it starts and whether it is a directory. It
is held by a location: a root, or a slot of a directory. The slots are a function
`sub` from a directory and an index to the head held there, the roots a list.

* `Ref sub R loc h`: the location `loc`, reached from the roots `R`, holds `h`;
* `Ref.congr`: what is reached only depends on the slots of reached directories;
* `Reach.of_eq_off`: whether a directory is reached does not depend on its own
  slots;
* `Moved.ref_iff`: taking an object out of a slot and making it a root keeps all
  other locations, and what is below the object; read backwards, this is putting a
  root into a slot;
* `ref_concat_iff`: a new root without anything below it;
* `Separated`: objects at different locations own disjoint cells; kept by moves.
-/
import Mathlib.Tactic

namespace GordOS

/-- Where an object starts, and whether it is a directory. -/
structure Head (α : Type) where
  cell : α
  isDir : Bool
deriving DecidableEq

/-- A place that holds an object: a root, or a slot of a directory. -/
inductive Loc (α : Type) where
  | root (j : ℕ)
  | slot (d : α) (i : ℕ)
deriving DecidableEq

variable {α β : Type}

/-- The location `loc`, reached from the roots `R`, holds the object `h`. -/
inductive Ref (sub : α → ℕ → Option (Head α)) (R : List (Head α)) :
    Loc α → Head α → Prop where
  | root {j : ℕ} {h : Head α} : R[j]? = some h → Ref sub R (.root j) h
  | slot {p : Loc α} {d : α} {i : ℕ} {h : Head α} : Ref sub R p ⟨d, true⟩ →
      sub d i = some h → Ref sub R (.slot d i) h

/-- The directory `d` is reached. -/
def Reach (sub : α → ℕ → Option (Head α)) (R : List (Head α)) (d : α) : Prop :=
  ∃ loc, Ref sub R loc ⟨d, true⟩

section

variable {sub sub' : α → ℕ → Option (Head α)} {R : List (Head α)}
variable {loc : Loc α} {h h' : Head α} {d : α} {i k : ℕ}

/-- A location holds one object. -/
lemma Ref.unique (h₁ : Ref sub R loc h) (h₂ : Ref sub R loc h') : h = h' := by
  cases h₁ with
  | root h₁ =>
    cases h₂ with
    | root h₂ => exact Option.some.inj (h₁.symm.trans h₂)
  | slot _ h₁ =>
    cases h₂ with
    | slot _ h₂ => exact Option.some.inj (h₁.symm.trans h₂)

lemma Reach.slot (hd : Reach sub R d) (hs : sub d i = some h) : Ref sub R (.slot d i) h := by
  obtain ⟨p, hp⟩ := hd
  exact .slot hp hs

lemma Ref.sub_eq (hr : Ref sub R (.slot d i) h) : sub d i = some h := by
  cases hr with
  | slot _ hs => exact hs

/-- More roots reach more. -/
lemma Ref.append_roots (R' : List (Head α)) (hr : Ref sub R loc h) : Ref sub (R ++ R') loc h := by
  induction hr with
  | @root j h hj =>
    refine .root ?_
    rw [List.getElem?_append_left (List.getElem?_eq_some_iff.mp hj).1]
    exact hj
  | slot _ hi ih => exact .slot ih hi

lemma Reach.append_roots (R' : List (Head α)) (hd : Reach sub R d) : Reach sub (R ++ R') d := by
  obtain ⟨loc, hr⟩ := hd
  exact ⟨loc, hr.append_roots R'⟩

/-- What is reached only depends on the slots of reached directories. -/
lemma Ref.mono (hs : ∀ d, Reach sub R d → sub' d = sub d) (hr : Ref sub R loc h) :
    Ref sub' R loc h := by
  induction hr with
  | root hj => exact .root hj
  | @slot p d i h hp hi ih =>
    refine .slot ih ?_
    rw [hs d ⟨p, hp⟩]
    exact hi

lemma Ref.congr (hs : ∀ d, Reach sub R d → sub' d = sub d) :
    Ref sub' R loc h ↔ Ref sub R loc h := by
  refine ⟨fun hr => ?_, Ref.mono hs⟩
  induction hr with
  | root hj => exact .root hj
  | @slot p d i h hp hi ih =>
    refine .slot ih ?_
    rw [← hs d ⟨p, ih⟩]
    exact hi

/-- Whether a directory is reached does not depend on its own slots. -/
lemma Reach.of_eq_off (hs : ∀ x, x ≠ d → Reach sub R x → sub' x = sub x) (hd : Reach sub R d) :
    Reach sub' R d := by
  obtain ⟨loc, hr⟩ := hd
  -- follow the path until it meets `d` for the first time
  have key : ∀ {loc h}, Ref sub R loc h → Ref sub' R loc h ∨ Reach sub' R d := by
    intro loc h hr
    induction hr with
    | root hj => exact Or.inl (.root hj)
    | @slot p x i h hp hi ih =>
      rcases ih with ih | ih
      · by_cases hx : x = d
        · exact Or.inr ⟨p, hx ▸ ih⟩
        · refine Or.inl (.slot ih ?_)
          rw [hs x hx ⟨p, hp⟩]
          exact hi
      · exact Or.inr ih
  rcases key hr with h | h
  · exact ⟨loc, h⟩
  · exact h

/-! ### Moving an object between a slot and the roots -/

/-- On the directories reached, the slots `sub'` are those of `sub` without the
object `h` in slot `k` of the directory `d`. -/
structure Moved (sub sub' : α → ℕ → Option (Head α)) (R : List (Head α)) (d : α)
    (k : ℕ) (h : Head α) : Prop where
  reach : Reach sub R d
  held : sub d k = some h
  gone : sub' d k = none
  other : ∀ x i, Reach sub R x → (x ≠ d ∨ i ≠ k) → sub' x i = sub x i

/-- **A moved object** and everything below it are still reached, and nothing
else changes. -/
lemma Moved.ref_iff (hm : Moved sub sub' R d k h) : Ref sub' (R ++ [h]) loc h' ↔
      (loc = .root R.length ∧ h' = h) ∨ (loc ≠ .slot d k ∧ Ref sub R loc h') := by
  constructor
  · intro hr
    induction hr with
    | @root j h' hj =>
      rcases Nat.lt_trichotomy j R.length with hlt | rfl | hgt
      · rw [List.getElem?_append_left hlt] at hj
        exact Or.inr ⟨by simp, .root hj⟩
      · rw [List.getElem?_append_right le_rfl] at hj
        exact Or.inl ⟨rfl, by simpa using hj.symm⟩
      · rw [List.getElem?_eq_none (by simp; omega)] at hj
        cases hj
    | @slot p x i h' hp hi ih =>
      have hne : x ≠ d ∨ i ≠ k := by
        by_contra hc
        rw [not_or, not_not, not_not] at hc
        rw [hc.1, hc.2, hm.gone] at hi
        cases hi
      have hloc : Loc.slot x i ≠ Loc.slot d k := by
        intro he
        rw [Loc.slot.injEq] at he
        rcases hne with hne | hne
        · exact hne he.1
        · exact hne he.2
      refine Or.inr ⟨hloc, ?_⟩
      have hx : Reach sub R x := by
        rcases ih with ⟨-, heq⟩ | ⟨-, ih⟩
        · exact ⟨_, heq ▸ hm.reach.slot hm.held⟩
        · exact ⟨p, ih⟩
      rw [hm.other x i hx hne] at hi
      exact hx.slot hi
  · have key : ∀ {loc h'}, Ref sub R loc h' → loc ≠ .slot d k → Ref sub' (R ++ [h]) loc h' := by
      intro loc h' hr
      induction hr with
      | @root j h' hj =>
        intro _
        refine .root ?_
        have hlt := (List.getElem?_eq_some_iff.mp hj).1
        rw [List.getElem?_append_left hlt]
        exact hj
      | @slot p x i h' hp hi ih =>
        intro hne
        have hne' : x ≠ d ∨ i ≠ k := by
          by_contra hc
          rw [not_or, not_not, not_not] at hc
          exact hne (by rw [hc.1, hc.2])
        rw [← hm.other x i ⟨p, hp⟩ hne'] at hi
        by_cases hp' : p = .slot d k
        · subst hp'
          have heq : (⟨x, true⟩ : Head α) = h :=
            Option.some.inj (hp.sub_eq.symm.trans hm.held)
          have hroot : Ref sub' (R ++ [h]) (.root R.length) ⟨x, true⟩ :=
            .root (by rw [heq]; simp)
          exact .slot hroot hi
        · exact .slot (ih hp') hi
    rintro (⟨rfl, rfl⟩ | ⟨hne, hr⟩)
    · exact .root (by simp)
    · exact key hr hne

/-- The same move, seen from the side where the object is a root. -/
lemma Moved.of_root (hd : Reach sub R d) (hk : sub d k = some h) (hk' : sub' d k = none)
    (ho : ∀ x i, Reach sub' (R ++ [h]) x → (x ≠ d ∨ i ≠ k) → sub' x i = sub x i) :
    Moved sub sub' R d k h := by
  -- every location reached on the side of the slot is reached on this side
  have key : ∀ {loc h'}, Ref sub R loc h' →
      (loc = .slot d k ∧ h' = h) ∨ Ref sub' (R ++ [h]) loc h' := by
    intro loc h' hr
    induction hr with
    | @root j h' hj =>
      refine Or.inr (.root ?_)
      rw [List.getElem?_append_left (List.getElem?_eq_some_iff.mp hj).1]
      exact hj
    | @slot p x i h' hp hi ih =>
      have hx : Reach sub' (R ++ [h]) x := by
        rcases ih with ⟨-, heq⟩ | ih
        · exact ⟨.root R.length, .root (by rw [heq]; simp)⟩
        · exact ⟨p, ih⟩
      by_cases hne : x ≠ d ∨ i ≠ k
      · rw [← ho x i hx hne] at hi
        exact Or.inr (hx.slot hi)
      · rw [not_or, not_not, not_not] at hne
        rw [hne.1, hne.2, hk] at hi
        exact Or.inl ⟨by rw [hne.1, hne.2], (Option.some.inj hi).symm⟩
  refine ⟨hd, hk, hk', fun x i ⟨p, hx⟩ hne => ho x i ?_ hne⟩
  rcases key hx with ⟨-, heq⟩ | hx
  · exact ⟨.root R.length, .root (by rw [heq]; simp)⟩
  · exact ⟨p, hx⟩

/-- A directory is reached after a move exactly if it was before. -/
lemma Moved.reach_iff (hm : Moved sub sub' R d k h) {x : α} :
    Reach sub' (R ++ [h]) x ↔ Reach sub R x := by
  constructor
  · rintro ⟨loc, hr⟩
    rcases hm.ref_iff.mp hr with ⟨-, heq⟩ | ⟨-, hr⟩
    · exact ⟨_, heq ▸ hm.reach.slot hm.held⟩
    · exact ⟨loc, hr⟩
  · rintro ⟨loc, hr⟩
    by_cases hloc : loc = .slot d k
    · subst hloc
      have heq : (⟨x, true⟩ : Head α) = h :=
        Option.some.inj (hr.sub_eq.symm.trans hm.held)
      exact ⟨_, hm.ref_iff.mpr (Or.inl ⟨rfl, heq⟩)⟩
    · exact ⟨loc, hm.ref_iff.mpr (Or.inr ⟨hloc, hr⟩)⟩

lemma root_length_not_ref : ¬ Ref sub R (.root R.length) h := by
  intro hr
  cases hr with
  | root hj => simp at hj

/-- **A new root** with nothing below it. -/
lemma ref_concat_iff (hh : h.isDir = true → ∀ i, sub h.cell i = none) : Ref sub (R ++ [h]) loc h' ↔
      (loc = .root R.length ∧ h' = h) ∨ Ref sub R loc h' := by
  constructor
  · intro hr
    induction hr with
    | @root j h' hj =>
      rcases Nat.lt_trichotomy j R.length with hlt | rfl | hgt
      · rw [List.getElem?_append_left hlt] at hj
        exact Or.inr (.root hj)
      · rw [List.getElem?_append_right le_rfl] at hj
        exact Or.inl ⟨rfl, by simpa using hj.symm⟩
      · rw [List.getElem?_eq_none (by simp; omega)] at hj
        cases hj
    | @slot p x i h' hp hi ih =>
      rcases ih with ⟨-, heq⟩ | ih
      · rw [← heq] at hh
        rw [hh rfl i] at hi
        cases hi
      · exact Or.inr (.slot ih hi)
  · rintro (⟨rfl, rfl⟩ | hr)
    · exact .root (by simp)
    · exact hr.append_roots [h]

/-! ### Separation -/

/-- Objects at different locations own disjoint cells. -/
def Separated (sub : α → ℕ → Option (Head α)) (R : List (Head α))
    (cells : Head α → List β) : Prop :=
  ∀ loc h loc' h', Ref sub R loc h → Ref sub R loc' h' → loc ≠ loc' →
    (cells h).Disjoint (cells h')

/-- Separation only depends on the cells of the objects and on an injection of
their locations. -/
lemma Separated.of_map {R' : List (Head α)} {cells cells' : Head α → List β}
    (hs : Separated sub R cells) (f : Loc α → Loc α)
    (hf : ∀ loc h, Ref sub' R' loc h → Ref sub R (f loc) h)
    (hinj : ∀ loc h loc' h', Ref sub' R' loc h → Ref sub' R' loc' h' → f loc = f loc' → loc = loc')
    (hc : ∀ loc h, Ref sub' R' loc h → cells' h = cells h) :
    Separated sub' R' cells' := by
  intro loc h loc' h' hr hr' hne
  rw [hc loc h hr, hc loc' h' hr']
  exact hs _ _ _ _ (hf _ _ hr) (hf _ _ hr') fun he => hne (hinj _ _ _ _ hr hr' he)

variable [DecidableEq α]

/-- Separation survives taking an object out of a slot. -/
lemma Moved.separated (hm : Moved sub sub' R d k h) {cells : Head α → List β}
    (hs : Separated sub R cells) : Separated sub' (R ++ [h]) cells := by
  refine hs.of_map (fun loc => if loc = .root R.length then .slot d k else loc)
    ?_ ?_ fun _ _ _ => rfl
  · intro loc h' hr
    rcases hm.ref_iff.mp hr with ⟨rfl, rfl⟩ | ⟨-, hr⟩
    · rw [if_pos rfl]
      exact hm.reach.slot hm.held
    · rw [if_neg (fun he => root_length_not_ref (he ▸ hr))]
      exact hr
  · intro loc h₁ loc' h₂ hr hr' he
    rcases hm.ref_iff.mp hr with ⟨rfl, -⟩ | ⟨hn, hs₁⟩ <;>
      rcases hm.ref_iff.mp hr' with ⟨rfl, -⟩ | ⟨hn', hs₂⟩
    · rfl
    · rw [if_pos rfl, if_neg (fun he => root_length_not_ref (he ▸ hs₂))] at he
      exact absurd he.symm hn'
    · rw [if_pos rfl, if_neg (fun he => root_length_not_ref (he ▸ hs₁))] at he
      exact absurd he hn
    · rwa [if_neg (fun he => root_length_not_ref (he ▸ hs₁)),
        if_neg (fun he => root_length_not_ref (he ▸ hs₂))] at he

/-- Separation survives putting a root into a slot. -/
lemma Moved.separated_symm (hm : Moved sub sub' R d k h) {cells : Head α → List β}
    (hs : Separated sub' (R ++ [h]) cells) : Separated sub R cells := by
  refine hs.of_map (fun loc => if loc = .slot d k then .root R.length else loc)
    ?_ ?_ fun _ _ _ => rfl
  · intro loc h' hr
    by_cases hloc : loc = .slot d k
    · subst hloc
      rw [if_pos rfl]
      exact hm.ref_iff.mpr (Or.inl ⟨rfl, Option.some.inj (hr.sub_eq.symm.trans hm.held)⟩)
    · rw [if_neg hloc]
      exact hm.ref_iff.mpr (Or.inr ⟨hloc, hr⟩)
  · intro loc h₁ loc' h₂ hr hr' he
    by_cases h1 : loc = .slot d k <;> by_cases h2 : loc' = .slot d k
    · rw [h1, h2]
    · rw [if_pos h1, if_neg h2] at he
      exact absurd (he ▸ hr') root_length_not_ref
    · rw [if_neg h1, if_pos h2] at he
      exact absurd (he ▸ hr) root_length_not_ref
    · rwa [if_neg h1, if_neg h2] at he

end

end GordOS
