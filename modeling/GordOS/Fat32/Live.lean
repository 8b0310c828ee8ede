/-
The live objects of a volume, as the directory scans see them.

* `liveSub`, `Live`, `LiveDir`: the root and the live entries not called `.` or
  `..`, each at its location;
* `ChainsOk`: the chains of the live objects are proper, disjoint and not free;
* `WellFormed`: in addition no slot behind the end of a directory is in use, and
  the entries `.` and `..` are directory entries that lead to live directories;
* `WellFormed.inv`, `Inv.chainsOk`: the invariant of the driver, and back;
* `Formatted`: a freshly formatted volume, which is well-formed.
-/
import Mathlib.Tactic
import GordOS.Fat32.Effects

namespace GordOS.Fat32

open GordOS GordOS.Fallible

section

variable (g : Geom) (v : Vol)

/-- The object of the live entry in slot `i` of the directory `d`. -/
def liveSub (d i : ℕ) : Option (Head ℕ) :=
  ((entries g v d).find? fun en => en.idx == i).bind fun en => slotHead en.slot

/-- The root directory as an object. -/
def rootHead : Head ℕ := ⟨g.rootCluster, true⟩

/-- The live objects: the root directory, and the live entries, not called `.` or
`..`, of live directories. -/
def Live (loc : Loc ℕ) (h : Head ℕ) : Prop := Ref (liveSub g v) [rootHead g] loc h

/-- The directory at `d` is live. -/
def LiveDir (d : ℕ) : Prop := Reach (liveSub g v) [rootHead g] d

/-- The object has a chain: all but the empty files do. -/
def HasChain (h : Head ℕ) : Prop := h.isDir = true ∨ h.cell ≠ 0

instance (h : Head ℕ) : Decidable (HasChain h) :=
  inferInstanceAs (Decidable (_ ∨ _))

/-- The chains of the live objects are acyclic, in range and terminated, none of
their clusters is free, and the chains of different objects are disjoint. -/
structure ChainsOk : Prop where
  chain : ∀ loc h, Live g v loc h → HasChain h →
    ∃ l, IsChain g v h.cell l ∧ l.Nodup ∧ (∀ c ∈ l, g.InRange c) ∧
      ∀ c ∈ l, v.next c ≠ 0
  disjoint : ∀ loc h loc' h' l l', Live g v loc h → Live g v loc' h' → loc ≠ loc' →
    IsChain g v h.cell l → IsChain g v h'.cell l' → l.Disjoint l'

/-- A well-formed volume. -/
structure WellFormed : Prop where
  chains : ChainsOk g v
  tail : ∀ d, LiveDir g v d → TailOk g v d
  dots : ∀ d, LiveDir g v d → ∀ i e, (dirSlots g v d)[i]? = some e →
    e.live = true → e.isDot →
    e.isDir = true ∧ LiveDir g v (e.target g) ∧
      ∀ j e', i = j + 1 → (dirSlots g v d)[j]? = some e' → e'.isLfn = false

end

section

variable {g : Geom} {v : Vol} {R : List (Head ℕ)} {d : ℕ}

lemma liveSub_eq_some {i : ℕ} {h : Head ℕ} (hs : liveSub g v d i = some h) :
    ∃ en ∈ entries g v d, en.idx = i ∧ slotHead en.slot = some h := by
  obtain ⟨en, hf, he⟩ := Option.bind_eq_some_iff.mp hs
  exact ⟨en, List.mem_of_find?_eq_some hf, by simpa using List.find?_some hf, he⟩

/-- A live object stands in a slot in use. -/
lemma subOf_of_liveSub {i : ℕ} {h : Head ℕ} (hs : liveSub g v d i = some h) :
    subOf g v d i = some h := by
  obtain ⟨en, hen, rfl, he⟩ := liveSub_eq_some hs
  rw [subOf, (mem_entries hen).1, Option.bind_some, he]

/-- Every slot in use before the end of a directory is an entry. -/
lemma entry_of_slot {i : ℕ} {e : Slot} (he : (dirSlots g v d)[i]? = some e)
    (hl : e.live = true) (hi : i < endIndex (dirSlots g v d)) :
    ∃ en ∈ entries g v d, en.idx = i ∧ en.slot = e := by
  have hz : ∀ k ≤ i, ∀ e', (dirSlots g v d)[k]? = some e' → e' 0 ≠ 0 :=
    fun k hk e' he' => ne_zero_of_lt_endIndex (lt_of_le_of_lt hk hi) he'
  have hmem := entryAt_mem_decodeFrom 0 .init he hl hz
  exact ⟨_, hmem, Nat.zero_add i, rfl⟩

/-- In a directory without slots in use behind its end, the slots in use and the
live entries are the same. -/
lemma liveSub_eq_subOf (ht : TailOk g v d) : liveSub g v d = subOf g v d := by
  funext i
  cases hs : subOf g v d i with
  | none =>
    cases hl : liveSub g v d i with
    | none => rfl
    | some h =>
      rw [subOf_of_liveSub hl] at hs
      cases hs
  | some h =>
    obtain ⟨e, he, hh⟩ := Option.bind_eq_some_iff.mp hs
    have hl := Slot.live_of_head hh
    obtain ⟨en, hen, hidx, -⟩ := entry_of_slot he hl (lt_endIndex_of_live ht he hl)
    rw [liveSub]
    cases hf : (entries g v d).find? fun en => en.idx == i with
    | none =>
      have := List.find?_eq_none.mp hf en hen
      simp [hidx] at this
    | some en' =>
      have hidx' : en'.idx = i := by simpa using List.find?_some hf
      have hslot := (mem_entries (List.mem_of_find?_eq_some hf)).1
      rw [hidx', he, Option.some.injEq] at hslot
      rw [Option.bind_some, ← hslot, hh]

/-- What is live is reached. -/
lemma Live.ref {loc : Loc ℕ} {h : Head ℕ} (hl : Live g v loc h) :
    Ref (subOf g v) [rootHead g] loc h := by
  induction hl with
  | root hj => exact .root hj
  | slot _ hi ih => exact .slot ih (subOf_of_liveSub hi)

lemma LiveDir.reach (hl : LiveDir g v d) : Reach (subOf g v) [rootHead g] d := by
  obtain ⟨loc, hr⟩ := hl
  exact ⟨loc, Live.ref hr⟩

/-- On a well-formed volume the live objects are those in the slots in use. -/
lemma WellFormed.live_iff (hw : WellFormed g v) {loc : Loc ℕ} {h : Head ℕ} :
    Ref (subOf g v) [rootHead g] loc h ↔ Live g v loc h :=
  Ref.congr fun d hd => (liveSub_eq_subOf (hw.tail d hd)).symm

lemma WellFormed.liveDir_iff (hw : WellFormed g v) :
    Reach (subOf g v) [rootHead g] d ↔ LiveDir g v d :=
  exists_congr fun _ => hw.live_iff

/-- A well-formed volume has the invariant of the driver. -/
lemma WellFormed.inv (hg : g.Valid) (hw : WellFormed g v) : Inv g v [rootHead g] := by
  have hchain : ∀ loc h, Ref (subOf g v) [rootHead g] loc h → HasChain h →
      IsChain g v h.cell (cellsOf g v h) := by
    intro loc h hr h0
    obtain ⟨l, hl, -⟩ := hw.chains.chain loc h (hw.live_iff.mp hr) h0
    rwa [cellsOf, hl.chainOf_eq hg]
  refine ⟨hchain, ?_, ?_, ?_⟩
  · intro loc h loc' h' hr hr' hne
    by_cases h0 : HasChain h
    · by_cases h0' : HasChain h'
      · exact hw.chains.disjoint loc h loc' h' _ _ (hw.live_iff.mp hr)
          (hw.live_iff.mp hr') hne (hchain loc h hr h0) (hchain loc' h' hr' h0')
      · rw [cellsOf_eq_nil (h := h') h0']
        simp
    · rw [cellsOf_eq_nil (h := h) h0]
      simp
  · exact fun d hd => hw.tail d (hw.liveDir_iff.mp hd)
  · intro d hd i e he hl hdot
    obtain ⟨h1, h2, h3⟩ := hw.dots d (hw.liveDir_iff.mp hd) i e he hl hdot
    exact ⟨h1, hw.liveDir_iff.mpr h2, h3⟩

/-- The invariant of the driver is about all live objects, whatever else it is
about. -/
lemma Inv.chainsOk (hg : g.Valid) {X : List (Head ℕ)} (hI : Inv g v (rootHead g :: X)) :
    ChainsOk g v := by
  have href : ∀ {loc h}, Live g v loc h → Ref (subOf g v) (rootHead g :: X) loc h :=
    fun hl => (Live.ref hl).append_roots X
  refine ⟨fun loc h hl h0 => ?_, ?_⟩
  · have hc := hI.chain loc h (href hl) h0
    exact ⟨_, hc, hc.nodup hg, hc.inRange, hc.next_ne_zero⟩
  · intro loc h loc' h' l l' hl hl' hne hc hc'
    have hs := hI.sep loc h loc' h' (href hl) (href hl') hne
    rwa [cellsOf, cellsOf, hc.chainOf_eq hg, hc'.chainOf_eq hg] at hs

end

/-! ### A freshly formatted volume -/

/-- Only the root directory has a cluster, marked as the end of its chain, and
its slots are empty. -/
structure Formatted (g : Geom) (v : Vol) : Prop where
  root : g.InRange g.rootCluster
  eoc : eoc ≤ v.next g.rootCluster
  free : ∀ c, g.InRange c → c ≠ g.rootCluster → v.next c = 0
  empty : v.data g.rootCluster = zeroBuf

section

variable {g : Geom} {v : Vol}

lemma Formatted.chain (hf : Formatted g v) :
    IsChain g v g.rootCluster [g.rootCluster] := Chain.last hf.root hf.eoc

lemma Formatted.slots (hg : g.Valid) (hf : Formatted g v) :
    dirSlots g v g.rootCluster = List.replicate g.entriesPerCluster zeroSlot := by
  rw [dirSlots, hf.chain.chainOf_eq hg, slotsIn_cons, slotsIn_nil, List.append_nil,
    hf.empty, slotsOf_zeroBuf]

lemma Formatted.slot_zero (hg : g.Valid) (hf : Formatted g v) {i : ℕ} {e : Slot}
    (he : (dirSlots g v g.rootCluster)[i]? = some e) : e 0 = 0 := by
  rw [hf.slots hg] at he
  rw [List.eq_of_mem_replicate (List.mem_of_getElem? he)]
  rfl

/-- The root directory is the only object. -/
lemma Formatted.ref (hg : g.Valid) (hf : Formatted g v) {loc : Loc ℕ} {h : Head ℕ}
    (hr : Ref (subOf g v) [rootHead g] loc h) : loc = .root 0 ∧ h = rootHead g := by
  induction hr with
  | @root j h hj =>
    obtain ⟨hlt, rfl⟩ := List.getElem?_eq_some_iff.mp hj
    have : j = 0 := by simpa using hlt
    subst this
    exact ⟨rfl, rfl⟩
  | @slot p d i h _ hi ih =>
    obtain rfl : d = g.rootCluster := congrArg Head.cell ih.2
    obtain ⟨e, he, hh⟩ := Option.bind_eq_some_iff.mp hi
    rw [slotHead_of_not_live (Slot.not_live_of_zero (hf.slot_zero hg he))] at hh
    cases hh

/-- A freshly formatted volume is well-formed. -/
lemma Formatted.wellFormed (hg : g.Valid) (hf : Formatted g v) : WellFormed g v := by
  have hlive : ∀ {loc h}, Live g v loc h → loc = .root 0 ∧ h = rootHead g :=
    fun hl => hf.ref hg (Live.ref hl)
  have hdir : ∀ {d}, LiveDir g v d → d = g.rootCluster := by
    rintro d ⟨loc, hl⟩
    exact congrArg Head.cell (hlive hl).2
  refine ⟨⟨?_, ?_⟩, ?_, ?_⟩
  · intro loc h hl _
    obtain ⟨-, rfl⟩ := hlive hl
    exact ⟨_, hf.chain, hf.chain.nodup hg, hf.chain.inRange, hf.chain.next_ne_zero⟩
  · intro loc h loc' h' l l' hl hl' hne
    exact absurd ((hlive hl).1.trans (hlive hl').1.symm) hne
  · intro d hd i e he _
    rw [hdir hd] at he
    exact hf.slot_zero hg he
  · intro d hd i e he hl
    rw [hdir hd] at he
    rw [Slot.not_live_of_zero (hf.slot_zero hg he)] at hl
    cases hl

end

/-- A volume whose root directory holds only files, each of at most one cluster. -/
structure Flat (g : Geom) (v : Vol) : Prop where
  root : g.InRange g.rootCluster
  eoc : eoc ≤ v.next g.rootCluster
  tail : ∀ e ∈ (dirSlots g v g.rootCluster).drop (endIndex (dirSlots g v g.rootCluster)),
    e 0 = 0
  file : ∀ en ∈ entries g v g.rootCluster, en.slot.isDir = false ∧ ¬ en.slot.isDot
  cluster : ∀ en ∈ entries g v g.rootCluster, en.slot.cluster ≠ 0 →
    g.InRange en.slot.cluster ∧ Fat32.eoc ≤ v.next en.slot.cluster ∧
      en.slot.cluster ≠ g.rootCluster
  distinct : ∀ en ∈ entries g v g.rootCluster, ∀ en' ∈ entries g v g.rootCluster,
    en.slot.cluster ≠ 0 → en.slot.cluster = en'.slot.cluster → en.idx = en'.idx

section

variable {g : Geom} {v : Vol}

lemma Flat.live (hf : Flat g v) {loc : Loc ℕ} {h : Head ℕ} (hl : Live g v loc h) :
    (loc = .root 0 ∧ h = rootHead g) ∨ ∃ en ∈ entries g v g.rootCluster,
      loc = .slot g.rootCluster en.idx ∧ h = ⟨en.slot.cluster, false⟩ := by
  induction hl with
  | @root j h hj =>
    obtain ⟨hlt, rfl⟩ := List.getElem?_eq_some_iff.mp hj
    obtain rfl : j = 0 := by simpa using hlt
    exact Or.inl ⟨rfl, rfl⟩
  | @slot p d i h _ hi ih =>
    rcases ih with ⟨-, heq⟩ | ⟨en, -, -, heq⟩
    · obtain rfl : d = g.rootCluster := congrArg Head.cell heq
      obtain ⟨en, hen, rfl, hh⟩ := liveSub_eq_some hi
      exact Or.inr ⟨en, hen, rfl, by rw [Slot.head_eq hh, (hf.file en hen).1]⟩
    · exact absurd (congrArg Head.isDir heq) (by simp)

lemma Flat.chain (hf : Flat g v) {loc : Loc ℕ} {h : Head ℕ} (hl : Live g v loc h)
    (h0 : HasChain h) : IsChain g v h.cell [h.cell] := by
  rcases hf.live hl with ⟨-, rfl⟩ | ⟨en, hen, -, rfl⟩
  · exact Chain.last hf.root hf.eoc
  · have hne : en.slot.cluster ≠ 0 := h0.resolve_left (by simp)
    exact Chain.last (hf.cluster en hen hne).1 (hf.cluster en hen hne).2.1

lemma Flat.liveDir (hf : Flat g v) {d : ℕ} (hd : LiveDir g v d) : d = g.rootCluster := by
  obtain ⟨loc, hl⟩ := hd
  rcases hf.live hl with ⟨-, heq⟩ | ⟨en, -, -, heq⟩
  · exact congrArg Head.cell heq
  · exact absurd (congrArg Head.isDir heq) (by simp)

lemma Flat.tailOk (hf : Flat g v) : TailOk g v g.rootCluster := by
  intro i e he hi
  refine hf.tail e (List.mem_of_getElem? (i := i - endIndex (dirSlots g v g.rootCluster)) ?_)
  rw [List.getElem?_drop, Nat.add_sub_cancel' hi, he]

/-- Such a volume is well formed. -/
lemma Flat.wellFormed (hg : g.Valid) (hf : Flat g v) : WellFormed g v := by
  refine ⟨⟨fun loc h hl h0 => ?_, fun loc h loc' h' l l' hl hl' hne hc hc' => ?_⟩,
    fun d hd => ?_, fun d hd i e he hlive hdot => ?_⟩
  · have hc := hf.chain hl h0
    exact ⟨_, hc, hc.nodup hg, hc.inRange, hc.next_ne_zero⟩
  · -- a chain begins with a cluster in range, so the object has one
    have h0 : HasChain h :=
      Or.inr fun hz => absurd (hc.inRange _ (Chain.head_mem hc)).1 (by omega)
    have h0' : HasChain h' :=
      Or.inr fun hz => absurd (hc'.inRange _ (Chain.head_mem hc')).1 (by omega)
    rw [hc.unique hg (hf.chain hl h0), hc'.unique hg (hf.chain hl' h0'),
      List.disjoint_singleton, List.mem_singleton]
    intro heq
    refine hne ?_
    rcases hf.live hl with ⟨rfl, rfl⟩ | ⟨en, hen, rfl, rfl⟩ <;>
      rcases hf.live hl' with ⟨rfl, rfl⟩ | ⟨en', hen', rfl, rfl⟩
    · rfl
    · exact absurd heq (hf.cluster en' hen' (h0'.resolve_left (by simp))).2.2
    · exact absurd heq.symm (hf.cluster en hen (h0.resolve_left (by simp))).2.2
    · rw [hf.distinct en hen en' hen' (h0.resolve_left (by simp)) heq.symm]
  · rw [hf.liveDir hd]
    exact hf.tailOk
  · rw [hf.liveDir hd] at he
    obtain ⟨en, hen, -, rfl⟩ := entry_of_slot he hlive (lt_endIndex_of_live hf.tailOk he hlive)
    exact absurd hdot (hf.file en hen).2

end

end GordOS.Fat32
