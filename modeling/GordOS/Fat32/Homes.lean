/-
The entries `.` and `..`, and what a search for a directory still finds.

* `SlotStep`: how the slots of a directory change: an entry other than `.` and `..` is
  removed, or a new one stands at the end;
* `Homed`: the entries `.` and `..` of a directory lead to it and to its parent, `..`
  in slot 1;
* `TreeInv`: the invariant of the volume, with these entries and with a start for every
  run; `Changed.treeInv`: it survives every change of the directories by such steps;
* `Changed.finds`: a search finds what it found unless that entry was removed;
* `WriteEff.outcome`, `DeleteEff.outcome`, `MkdirEff.outcome`, `RenameEff.outcome`:
  **the operations change the directories in this way**;
* `Op.outcome`: one call.
-/
import Mathlib.Tactic
import GordOS.Fat32.DirNames

namespace GordOS.Fat32

open GordOS GordOS.Fallible

/-! ### The slots of one directory -/

/-- How the slots of a directory change. -/
inductive SlotStep (E : Env) (ss : List Slot) : Option ℕ → List Slot → Prop where
  | same : SlotStep E ss none ss
  | kill {k K e} : Marks E ss k K → ss[k]? = some e → e.live = true → ¬ e.isDot →
      k < endIndex ss → SlotStep E ss (some k) (killAt K ss)
  | grow {name c z a n ss'} : IsPath name → a ≠ 0x0F →
      Grown ss (entrySlots name c z a) n ss' → SlotStep E ss none ss'

/-- The entries `.` and `..` of the directory `x` in the directory `p`: they lead to
these two, and slot 1 is `..`. -/
structure Homed (g : Geom) (p x : ℕ) (ss : List Slot) : Prop where
  up : ∃ e : Slot, ss[1]? = some e ∧ e.live = true ∧ e.isDot ∧ e.target g = p
  dots : ∀ (i : ℕ) (e : Slot), ss[i]? = some e → e.live = true → e.isDot →
    e.target g = x ∨ e.target g = p

section

variable {E : Env} {ss ss' : List Slot} {gone : Option ℕ} {g : Geom} {p x : ℕ}

lemma Tidy.step (h : Tidy ss) (hs : SlotStep E ss gone ss') : Tidy ss' := by
  cases hs with
  | same => exact h
  | kill hM hk hl _ hlt => exact h.killAt hM hk hl hlt
  | grow hp ha hG => exact h.grown hp ha hG

/-- A search finds what it found unless that is gone. -/
lemma SlotStep.find? (h : Tidy ss) (hs : SlotStep E ss gone ss') {q : Entry → Bool}
    {en : Entry} (hf : (decode ss).find? q = some en) (hg : ∀ k ∈ gone, en.idx ≠ k) :
    (decode ss').find? q = some en := by
  cases hs with
  | same => exact hf
  | kill hM hk hl _ hlt =>
    rw [decode_killAt hM hk hl h.1 hlt, List.find?_filter]
    obtain ⟨hq, as, bs, heq, has⟩ := List.find?_eq_some_iff_append.mp hf
    refine List.find?_eq_some_iff_append.mpr ⟨?_, as, bs, heq, fun a ha => ?_⟩
    · simp [hq, hg _ rfl]
    · have := has a ha
      simp only [Bool.not_eq_true'] at this
      simp [this]
  | grow hp _ hG =>
    rw [hG.decode_eq (entrySlots_spec hp _ _ _), List.find?_append, hf, Option.some_or]

/-- The live entries `.` and `..` stay where they are, and there are no new ones. -/
lemma SlotStep.dot_iff (ht : ∀ i e, ss[i]? = some e → endIndex ss ≤ i → e 0 = 0)
    (hs : SlotStep E ss gone ss') {i : ℕ} {e : Slot} (hl : e.live = true) (hd : e.isDot) :
    ss'[i]? = some e ↔ ss[i]? = some e := by
  cases hs with
  | same => rfl
  | @kill k K ek hM hk hlk hdk hlt =>
    rw [killAt_getElem?]
    constructor
    · intro h
      obtain ⟨e', he', heq⟩ := Option.map_eq_some_iff.mp h
      by_cases hi : i ∈ K
      · rw [if_pos hi] at heq
        rw [← heq, Slot.dead_live] at hl
        cases hl
      · rw [if_neg hi] at heq
        rw [he', heq]
    · intro h
      have hne : i ≠ k := by
        rintro rfl
        exact hdk (Option.some.inj (h.symm.trans hk) ▸ hd)
      rw [h, Option.map_some, if_neg (hM.outside hk h hl hne).1]
  | @grow name c z a n _ hp ha hG =>
    have hsp := entrySlots_spec hp c z a
    constructor
    · intro h
      rcases Nat.lt_or_ge i (endIndex ss) with hi | hi
      · rwa [hG.lt i hi] at h
      · rcases Nat.lt_or_ge i (endIndex ss + n) with hin | hin
        · -- a slot of the new entry
          obtain ⟨j, rfl⟩ := Nat.exists_eq_add_of_le hi
          rw [hG.mid j (by omega)] at h
          by_cases hj : j + 1 = (entrySlots name c z a).length
          · have hlast := hsp.last
            rw [List.getLast?_eq_getElem?, ← hj, Nat.add_sub_cancel, h] at hlast
            exact absurd (Option.some.inj hlast ▸ hd) hsp.not_dot
          · have hmem : e ∈ (entrySlots name c z a).dropLast := by
              have hlen := (List.getElem?_eq_some_iff.mp h).1
              refine List.mem_of_getElem? (i := j) ?_
              rw [List.getElem?_dropLast, if_pos (by omega), h]
            have := Slot.not_live_of_isLfn (hsp.lfn e hmem)
            rw [hl] at this
            cases this
        · have := Slot.not_live_of_zero (hG.ge i e hin h)
          rw [hl] at this
          cases this
    · intro h
      have hi : i < endIndex ss := by
        by_contra hge
        exact Slot.ne_zero_of_live hl (ht i e h (by omega))
      rw [hG.lt i hi, h]

lemma Homed.step (ht : ∀ i e, ss[i]? = some e → endIndex ss ≤ i → e 0 = 0)
    (hs : SlotStep E ss gone ss') (h : Homed g p x ss) : Homed g p x ss' := by
  refine ⟨?_, fun i e he hl hd => h.dots i e ((hs.dot_iff ht hl hd).mp he) hl hd⟩
  obtain ⟨e, he, hl, hd, hp⟩ := h.up
  exact ⟨e, (hs.dot_iff ht hl hd).mpr he, hl, hd, hp⟩

end

/-! ### The directories of a volume -/

section

variable {g : Geom} {E : Env} {v w : Vol} {R R' : List (Head ℕ)} {d : ℕ} {en : Entry}
variable {h : Head ℕ} {name : Name} {S : Set (ℕ × ℕ)}

/-- The invariant of the volume, with a start for every run and with proper entries `.`
and `..`. -/
structure TreeInv (g : Geom) (v : Vol) (R : List (Head ℕ)) : Prop where
  inv : Inv g v R
  tidy : ∀ x, Reach (subOf g v) R x → Tidy (dirSlots g v x)
  homes : ∀ p i x, Ref (subOf g v) R (.slot p i) ⟨x, true⟩ →
    Homed g p x (dirSlots g v x)
  root : ∀ (i : ℕ) (e : Slot), (dirSlots g v g.rootCluster)[i]? = some e →
    e.live = true → e.isDot → e.target g = g.rootCluster

/-- A change of the directories by steps that only remove entries in `S`. -/
structure Changed (g : Geom) (E : Env) (v : Vol) (R : List (Head ℕ)) (S : Set (ℕ × ℕ))
    (R' : List (Head ℕ)) (w : Vol) : Prop where
  inv : Inv g w R'
  reach : ∀ x, Reach (subOf g w) R' x ↔ Reach (subOf g v) R x
  slots : ∀ x, Reach (subOf g v) R x →
    ∃ gone, SlotStep E (dirSlots g v x) gone (dirSlots g w x) ∧ ∀ k ∈ gone, (x, k) ∈ S
  homes : ∀ p i x, Ref (subOf g w) R' (.slot p i) ⟨x, true⟩ →
    Homed g p x (dirSlots g v x)

/-- **Such a change keeps the invariant.** -/
lemma Changed.treeInv (hT : TreeInv g v R) (hroot : Reach (subOf g v) R g.rootCluster)
    (hc : Changed g E v R S R' w) : TreeInv g w R' where
  inv := hc.inv
  tidy x hx := by
    obtain ⟨gone, hs, -⟩ := hc.slots x ((hc.reach x).mp hx)
    exact (hT.tidy x ((hc.reach x).mp hx)).step hs
  homes p i x hr := by
    have hx := (hc.reach x).mp ⟨_, hr⟩
    obtain ⟨gone, hs, -⟩ := hc.slots x hx
    exact (hc.homes p i x hr).step (hT.inv.tail x hx) hs
  root i e he hl hd := by
    obtain ⟨gone, hs, -⟩ := hc.slots _ hroot
    exact hT.root i e ((hs.dot_iff (hT.inv.tail _ hroot) hl hd).mp he) hl hd

/-- A search finds what it found unless that is in `S`. -/
def Finds (g : Geom) (v : Vol) (R : List (Head ℕ)) (S : Set (ℕ × ℕ)) (w : Vol) : Prop :=
  ∀ x accept name en, Reach (subOf g v) R x → lookup g v accept x name = some en →
    (x, en.idx) ∉ S → lookup g w accept x name = some en

lemma Changed.finds (hT : TreeInv g v R) (hc : Changed g E v R S R' w) : Finds g v R S w := by
  intro x accept name en hx hf hS
  obtain ⟨gone, hs, hgone⟩ := hc.slots x hx
  refine hs.find? (hT.tidy x hx) hf fun k hk heq => hS ?_
  rw [heq]
  exact hgone k hk

/-- A change, and then one that removes nothing. -/
lemma Finds.trans {u : Vol} (h₁ : Finds g v R S u)
    (hr : ∀ x, Reach (subOf g v) R x → Reach (subOf g u) R' x) (h₂ : Finds g u R' ∅ w) :
    Finds g v R S w :=
  fun x accept name en hx hf hS =>
    h₂ x accept name en (hr x hx) (h₁ x accept name en hx hf hS) (Set.notMem_empty _)

lemma Changed.of_same (hg : g.Valid) (hT : TreeInv g v R) (hs : Same g v w R) :
    Changed g E v R ∅ R w where
  inv := hT.inv.frame hg hs
  reach _ := hs.reach_iff hg hT.inv
  slots x hx := ⟨none, by rw [hs.slots hg hT.inv hx]; exact .same, by simp⟩
  homes p i x hr := hT.homes p i x ((hs.ref_iff hg hT.inv).mp hr)

/-- The removal of a file. -/
lemma Changed.of_cleared (hg : g.Valid) (hT : TreeInv g v R) (hd : Reach (subOf g v) R d)
    (hen : en ∈ entries g v d) (hf : en.slot.isDir = false) (hc : Cleared g E v d en w) :
    Changed g E v R {(d, en.idx)} R w := by
  have hI := hT.inv
  obtain ⟨K, hK, hs, hoff⟩ := hI.cleared_slots hg hd hen hf hc
  obtain ⟨hk, hl⟩ := mem_entries hen
  refine ⟨hI.cleared hg hd hen hf hc, fun _ => hI.cleared_reach hg hd hen hf hc,
    fun x hx => ?_, fun p i x hr => hT.homes p i x ((hI.cleared_ref hg hd hen hf hc).mp hr).2⟩
  by_cases hxd : x = d
  · subst hxd
    refine ⟨some en.idx, ?_, by simp⟩
    rw [hs]
    exact .kill hK hk hl (hI.file_not_dot hd hen hf) (lt_endIndex_of_live (hI.tail x hd) hk hl)
  · rw [hoff x hx hxd]
    exact ⟨none, .same, by simp⟩

/-- An entry taken out of its directory. -/
lemma Changed.of_kill (hg : g.Valid) (hT : TreeInv g v R) (hd : Reach (subOf g v) R d)
    (hen : en ∈ entries g v d) {K : List ℕ} (hK : Marks E (dirSlots g v d) en.idx K)
    (hdot : ¬ en.slot.isDot) :
    Changed g E v R {(d, en.idx)} (R ++ [⟨en.slot.cluster, en.slot.isDir⟩]) (v.killIn g d K) := by
  have hI := hT.inv
  obtain ⟨hk, hl⟩ := mem_entries hen
  have hhead : slotHead en.slot = some ⟨en.slot.cluster, en.slot.isDir⟩ :=
    if_pos ⟨hl, hdot⟩
  have hm := hI.kill_moved hg hd hk hK hhead
  refine ⟨hI.kill hg hd hk hK hhead, fun _ => hm.reach_iff, fun x hx => ?_, fun p i x hr => ?_⟩
  · by_cases hxd : x = d
    · subst hxd
      refine ⟨some en.idx, ?_, by simp⟩
      rw [hI.killIn_slots hg hd hk hK]
      exact .kill hK hk hl hdot (lt_endIndex_of_live (hI.tail x hd) hk hl)
    · rw [hI.killIn_slots_ne hg hd hk hK hx hxd]
      exact ⟨none, .same, by simp⟩
  · rcases hm.ref_iff.mp hr with ⟨hloc, -⟩ | ⟨-, hr'⟩
    · cases hloc
    · exact hT.homes p i x hr'

/-- A new directory. -/
lemma TreeInv.newDir (hg : g.Valid) (hT : TreeInv g v R) {new : ℕ} (hr : g.InRange new)
    (h0 : v.next new = 0) (hd : Reach (subOf g v) R d) (hroot : Reach (subOf g v) R g.rootCluster) :
    TreeInv g (Vol.newDir g v new d) (R ++ [⟨new, true⟩]) ∧
      Homed g d new (dirSlots g (Vol.newDir g v new d) new) := by
  have hI := hT.inv
  have hT' := (Changed.of_same (E := ⟨0, [], False⟩) hg hT (hI.newDir_same h0 d)).treeInv hT hroot
  have hsub := newDir_sub (v := v) hg hr d
  have hdR := (hI.dir_chain hd).inRange d (Chain.head_mem (hI.dir_chain hd))
  have hslot := fun i e => newDir_slot (v := v) hg hr d (i := i) (e := e)
  refine ⟨⟨hI.newDir hg hr h0 hd, ?_, fun p i x hx => ?_, hT'.root⟩, ?_, ?_⟩
  · rintro x ⟨loc, hx⟩
    rcases (ref_concat_iff fun _ => hsub).mp hx with ⟨-, heq⟩ | hx
    · obtain rfl : x = new := congrArg Head.cell heq
      exact (newDir_dirOk hg hr d).tidy
    · exact hT'.tidy x ⟨loc, hx⟩
  · rcases (ref_concat_iff fun _ => hsub).mp hx with ⟨hloc, -⟩ | hx
    · cases hloc
    · exact hT'.homes p i x hx
  · have hlen : 1 < (dirSlots g (Vol.newDir g v new d) new).length := by
      rw [dirSlots_length, (newDir_chain hr d).chainOf_eq hg, List.length_singleton, one_mul]
      exact hg.one_lt_entriesPerCluster
    have h1 := List.getElem?_eq_getElem hlen
    refine ⟨_, h1, ?_⟩
    rw [hslot _ _ h1, if_pos rfl]
    exact ⟨rfl, dotdotSlot_isDot d, sfnSlot_target hg hdR _ _ _⟩
  · intro i e he hl _
    rw [hslot i e he] at hl ⊢
    split_ifs with h1 h2
    · exact Or.inr (sfnSlot_target hg hdR _ _ _)
    · exact Or.inl (sfnSlot_target hg hr _ _ _)
    · rw [if_neg h1, if_neg h2] at hl
      cases hl

/-- A new entry; its object is in its slot, or lost. -/
lemma Changed.of_created (hg : g.Valid) (hT : TreeInv g v (R ++ [h]))
    (hd : Reach (subOf g v) R d) (hp : IsPath name) {c z : ℕ} {a : UInt8}
    {r : Option Unit} (hcl : c < 2 ^ 32) (hh : h = ⟨c, Slot.isDirAttr a⟩) (ha : a ≠ 0x0F)
    (hhome : h.isDir = true → Homed g d h.cell (dirSlots g v h.cell))
    (hc : Created g E v d name c z a r w) :
    ∃ X, Changed g E v (R ++ [h]) ∅ (R ++ X) w := by
  have hd' := hd.append_roots [h]
  obtain ⟨⟨n, hG⟩, hoff⟩ := hc.grown hg hT.inv hd'
  have hslots : ∀ x, Reach (subOf g v) (R ++ [h]) x → ∃ gone,
      SlotStep E (dirSlots g v x) gone (dirSlots g w x) ∧
        ∀ k ∈ gone, (x, k) ∈ (∅ : Set (ℕ × ℕ)) := by
    intro x hx
    by_cases hxd : x = d
    · subst hxd
      exact ⟨none, .grow hp ha hG, by simp⟩
    · rw [hoff x hx hxd]
      exact ⟨none, .same, by simp⟩
  rcases hc.outcome hg hT.inv hd hp hcl hh with ⟨-, -, ht⟩ | ⟨-, hl⟩
  · obtain ⟨k, hm⟩ := ht.moved
    refine ⟨[], ?_⟩
    rw [List.append_nil]
    refine ⟨ht.inv, fun _ => hm.reach_iff.symm, hslots, fun p i x hr => ?_⟩
    by_cases hloc : (Loc.slot p i : Loc ℕ) = .slot d k
    · obtain ⟨rfl, rfl⟩ := Loc.slot.inj hloc
      have heq : (⟨x, true⟩ : Head ℕ) = h := Option.some.inj (hr.sub_eq.symm.trans hm.held)
      rw [← heq] at hhome
      exact hhome rfl
    · exact hT.homes p i x (hm.ref_iff.mpr (Or.inr ⟨hloc, hr⟩))
  · have href : ∀ {loc h'}, Ref (subOf g w) (R ++ [h]) loc h' ↔
        Ref (subOf g v) (R ++ [h]) loc h' := Ref.congr fun _ hy => hl.sub _ hy
    exact ⟨[h], hl.inv, fun _ => exists_congr fun _ => href, hslots,
      fun p i x hr => hT.homes p i x (href.mp hr)⟩

/-! ### The operations -/

/-- The invariant behind a call that removed entries in `S` at most. -/
def Outcome (g : Geom) (v : Vol) (R : List (Head ℕ)) (S : Set (ℕ × ℕ)) (w : Vol) : Prop :=
  (∃ X, TreeInv g w (R ++ X)) ∧ Finds g v R S w

lemma Outcome.refl (hT : TreeInv g v R) : Outcome g v R S v :=
  ⟨⟨[], by rwa [List.append_nil]⟩, fun _ _ _ _ _ hf _ => hf⟩

lemma Changed.outcome (hT : TreeInv g v R) (hroot : Reach (subOf g v) R g.rootCluster)
    (hc : Changed g E v R S R w) : Outcome g v R S w :=
  ⟨⟨[], by rw [List.append_nil]; exact hc.treeInv hT hroot⟩, hc.finds hT⟩

/-- A change, and then a new entry. -/
lemma Changed.created {u : Vol} (hg : g.Valid) (hT : TreeInv g v R)
    (hroot : Reach (subOf g v) R g.rootCluster) (hc : Changed g E v R S (R ++ [h]) u)
    (hd : Reach (subOf g u) R d) (hp : IsPath name) {c z : ℕ} {a : UInt8}
    {r : Option Unit} (hcl : c < 2 ^ 32) (hh : h = ⟨c, Slot.isDirAttr a⟩) (ha : a ≠ 0x0F)
    (hhome : h.isDir = true → Homed g d h.cell (dirSlots g u h.cell))
    (hcr : Created g E u d name c z a r w) : Outcome g v R S w := by
  have hTu := hc.treeInv hT hroot
  obtain ⟨X, hX⟩ := Changed.of_created hg hTu hd hp hcl hh ha hhome hcr
  exact ⟨⟨X, hX.treeInv hTu ((hc.reach _).mpr hroot)⟩,
    (hc.finds hT).trans (fun x hx => (hc.reach x).mpr hx) (hX.finds hTu)⟩

/-- The entry that a call removes. -/
def Op.removed (g : Geom) (v : Vol) (cwd : ℕ) : Op → Set (ℕ × ℕ)
  | .write path _ | .delete path =>
    {p | ∃ name en, resolve g v cwd path = some (p.1, name) ∧
      lookup g v acceptFile p.1 name = some en ∧ en.idx = p.2}
  | .mkdir _ => ∅
  | .rename oldpath _ =>
    {p | ∃ name en, resolve g v cwd oldpath = some (p.1, name) ∧
      lookup g v acceptAny p.1 name = some en ∧ en.idx = p.2}

section

variable (hg : g.Valid) (hT : TreeInv g v R)
variable (hroot : Reach (subOf g v) R g.rootCluster)
variable (hcwd : Reach (subOf g v) R E.cwd) {path : Name} {r : Option Unit}

include hg hT hroot

/-- The new file of a write. -/
lemma Created.outcome_file (hd : Reach (subOf g v) R d) (hp : IsPath name) {c z : ℕ}
    (hI : Inv g v (R ++ [⟨c, false⟩])) (hcl : c < 2 ^ 32)
    (hcr : Created g E v d name c z attrArchive r w) : Outcome g v R ∅ w := by
  have hsub : (⟨c, false⟩ : Head ℕ).isDir = true → ∀ i, subOf g v c i = none := by simp
  have hadd : Changed g E v R ∅ (R ++ [⟨c, false⟩]) v := by
    have href : ∀ {loc x}, Ref (subOf g v) (R ++ [⟨c, false⟩]) loc ⟨x, true⟩ ↔
        Ref (subOf g v) R loc ⟨x, true⟩ := by
      intro loc x
      rw [ref_concat_iff hsub]
      simp
    exact ⟨hI, fun _ => exists_congr fun _ => href, fun _ _ => ⟨none, .same, by simp⟩,
      fun p i x hr => hT.homes p i x (href.mp hr)⟩
  exact hadd.created hg hT hroot hd hp hcl rfl (by decide) (by simp) hcr

/-- The second half of a write. -/
lemma WriteTail.outcome (hd : Reach (subOf g v) R d) (hp : IsPath name)
    {data : List UInt8} (ht : WriteTail g E v d name data r w) : Outcome g v R ∅ w := by
  have hI := hT.inv
  cases ht with
  | empty _ hc => exact hc.outcome_file hg hT hroot hd hp hI.addEmpty (by decide)
  | noMemory _ _ => exact .refl hT
  | full _ hw _ =>
    exact (Changed.of_same (E := E) hg hT (hI.wrote_same hw)).outcome hT hroot
  | stored _ hw _ hchain hc =>
    have hs := hI.wrote_same hw
    have hsame := Changed.of_same (E := E) hg hT hs
    obtain ⟨hX, hfinds⟩ := hc.outcome_file hg (hsame.treeInv hT hroot)
      ((hs.reach_iff hg hI).mpr hroot) ((hs.reach_iff hg hI).mpr hd) hp
      (hI.wrote hg hw hchain) ((hchain.inRange _ (Chain.head_mem hchain)).lt hg)
    exact ⟨hX, (hsame.finds hT).trans (fun x hx => (hsame.reach x).mpr hx) hfinds⟩

include hcwd

lemma WriteEff.outcome {data : List UInt8} (hp : IsPath path) (he : WriteEff g E v path data r w) :
    Outcome g v R ((Op.write path data).removed g v E.cwd) w := by
  cases he with
  | early _ => exact .refl hT
  | @write d name u _ _ hres hrep ht =>
    have hI := hT.inv
    have hd := hI.resolve_reach hroot hcwd hres
    have hname := resolve_name hres ▸ hp.last
    rcases hrep with ⟨-, rfl⟩ | ⟨en, hf, hc⟩
    · obtain ⟨hX, hfinds⟩ := ht.outcome hg hT hroot hd hname
      exact ⟨hX, fun x accept n en' hx hl _ =>
        hfinds x accept n en' hx hl (Set.notMem_empty _)⟩
    · obtain ⟨hen, hacc, -⟩ := lookup_mem hf
      have hch := Changed.of_cleared hg hT hd hen (acceptFile_isDir hacc) hc
      obtain ⟨hX, hfinds⟩ := ht.outcome hg (hch.treeInv hT hroot)
        ((hch.reach _).mpr hroot) ((hch.reach _).mpr hd) hname
      refine ⟨hX, fun x accept n en' hx hl hS => ?_⟩
      refine (hch.finds hT).trans (fun x hx => (hch.reach x).mpr hx) hfinds
        x accept n en' hx hl fun hmem => hS ?_
      obtain ⟨rfl, hidx⟩ := Prod.mk.inj (Set.mem_singleton_iff.mp hmem)
      exact ⟨name, en, hres, hf, hidx.symm⟩

lemma DeleteEff.outcome (he : DeleteEff g E v path r w) :
    Outcome g v R ((Op.delete path).removed g v E.cwd) w := by
  cases he with
  | early _ => exact .refl hT
  | @delete d name en _ hres hf hc =>
    have hd := hT.inv.resolve_reach hroot hcwd hres
    obtain ⟨hen, hacc, -⟩ := lookup_mem hf
    obtain ⟨hX, hfinds⟩ :=
      (Changed.of_cleared hg hT hd hen (acceptFile_isDir hacc) hc).outcome hT hroot
    refine ⟨hX, fun x accept n en' hx hl hS => hfinds x accept n en' hx hl fun hmem => hS ?_⟩
    obtain ⟨rfl, hidx⟩ := Prod.mk.inj (Set.mem_singleton_iff.mp hmem)
    exact ⟨name, en, hres, hf, hidx.symm⟩

lemma MkdirEff.outcome (hp : IsPath path) (he : MkdirEff g E v path r w) :
    Outcome g v R ((Op.mkdir path).removed g v E.cwd) w := by
  have hI := hT.inv
  cases he with
  | early _ => exact .refl hT
  | noMemory _ _ h0 =>
    exact (Changed.of_same (E := E) hg hT (hI.setNext_same h0 endMark)).outcome hT hroot
  | @mkdir d name new _ _ hres hr h0 hc =>
    have hd := hI.resolve_reach hroot hcwd hres
    have hs := hI.newDir_same h0 d
    have hsame := Changed.of_same (E := E) hg hT hs
    obtain ⟨hT', hhome⟩ := hT.newDir hg hr h0 hd hroot
    obtain ⟨X, hX⟩ := Changed.of_created hg hT' ((hs.reach_iff hg hI).mpr hd)
      (resolve_name hres ▸ hp.last) (hr.lt hg) rfl (by decide) (fun _ => hhome) hc
    have hfwd : ∀ x, Reach (subOf g v) R x →
        Reach (subOf g (Vol.newDir g v new d)) (R ++ [⟨new, true⟩]) x :=
      fun x hx => ((hs.reach_iff hg hI).mpr hx).append_roots _
    exact ⟨⟨X, hX.treeInv hT' (hfwd _ hroot)⟩, (hsame.finds hT).trans hfwd (hX.finds hT')⟩

lemma RenameEff.outcome {newname : Name} (hold : ¬ IsDotName (pathParts path).2)
    (hnew : IsPath newname) (he : RenameEff g E v path newname r w) :
    Outcome g v R ((Op.rename path newname).removed g v E.cwd) w := by
  have hI := hT.inv
  cases he with
  | early _ => exact .refl hT
  | @rename d name en K _ _ hres hf hK hc =>
    obtain ⟨hd, hen, hdot, hhead⟩ := hI.old_entry hroot hcwd hres hf hold
    obtain ⟨hk, hl⟩ := mem_entries hen
    have hch := Changed.of_kill hg hT hd hen hK hdot
    have hd₁ := hI.kill_reach hg hd hk hK hhead
    -- a directory that is renamed stays in its parent
    have hhome : en.slot.isDir = true →
        Homed g d en.slot.cluster (dirSlots g (v.killIn g d K) en.slot.cluster) := by
      intro hdir
      have hr := ref_entry hd hen hdot
      rw [hdir] at hr
      have hx : Reach (subOf g v) R en.slot.cluster := ⟨_, hr⟩
      obtain ⟨gone, hs, -⟩ := hch.slots _ hx
      exact (hT.homes d en.idx en.slot.cluster hr).step (hI.tail _ hx) hs
    obtain ⟨hX, hfinds⟩ := hch.created hg hT hroot hd₁ hnew en.slot.cluster_lt rfl
      (Slot.attr_of_live hl).1 hhome hc
    refine ⟨hX, fun x accept n en' hx hl hS => hfinds x accept n en' hx hl fun hmem => hS ?_⟩
    obtain ⟨rfl, hidx⟩ := Prod.mk.inj (Set.mem_singleton_iff.mp hmem)
    exact ⟨name, en, hres, hf, hidx.symm⟩

end

/-- **One call** keeps the invariant and what the searches find. -/
theorem Op.outcome (hg : g.Valid) {s : State} {X : List (Head ℕ)}
    (hT : TreeInv g (vol g s.disk) (rootHead g :: X)) {op : Op} (hop : op.Ok) (hio : IoOk s)
    (hcwd : Reach (subOf g (vol g s.disk)) [rootHead g] s.cwdCluster) :
    (s.env False).Holds (op.run g s).2 ∧
      Outcome g (vol g s.disk) (rootHead g :: X) (op.removed g (vol g s.disk) s.cwdCluster)
        (vol g (op.run g s).2.disk) := by
  have hI := hT.inv
  have hroot : Reach (subOf g (vol g s.disk)) (rootHead g :: X) g.rootCluster :=
    ⟨.root 0, .root rfl⟩
  have hcwd' : Reach (subOf g (vol g s.disk)) (rootHead g :: X) (s.env False).cwd :=
    hcwd.append_roots X
  cases op with
  | write path data =>
    obtain ⟨hE, he⟩ := spec_writeFile hg hI hroot hcwd' path data s hio.holds rfl
    exact ⟨hE, he.outcome hg hT hroot hcwd' hop⟩
  | delete path =>
    obtain ⟨hE, he⟩ := spec_deleteFile hg hI hroot hcwd' path s hio.holds rfl
    exact ⟨hE, he.outcome hg hT hroot hcwd'⟩
  | mkdir path =>
    obtain ⟨hE, he⟩ := spec_mkdir hg hI hroot hcwd' path s hio.holds rfl
    exact ⟨hE, he.outcome hg hT hroot hcwd' hop⟩
  | rename oldpath newname =>
    obtain ⟨hE, he⟩ := spec_renameFile hg hI hroot hcwd' oldpath newname s hio.holds rfl
    exact ⟨hE, he.outcome hg hT hroot hcwd' hop.2.2 hop.2.1⟩

end

end GordOS.Fat32
