/-
The operations keep the invariant.

* `Inv.cleared`, `Inv.cleared_ref`: the removal of a file;
* `Inv.wrote`: the data of a new file;
* `Inv.newDir`: the first cluster of a new directory;
* `Created.outcome`: the new entry takes its object, or the object is lost.
-/
import Mathlib.Tactic
import GordOS.Fat32.Live

namespace GordOS.Fat32

open GordOS GordOS.Fallible

section

variable {g : Geom} {E : Env} {v w : Vol} {R : List (Head ℕ)} {d : ℕ} {en : Entry}
variable {loc : Loc ℕ} {h h' : Head ℕ}

/-! ### Removing a file -/

/-- The object of a file entry. -/
lemma Inv.file_head (hI : Inv g v R) (hd : Reach (subOf g v) R d)
    (hen : en ∈ entries g v d) (hf : en.slot.isDir = false) :
    slotHead en.slot = some ⟨en.slot.cluster, false⟩ := by
  rw [slotHead, if_pos ⟨(mem_entries hen).2, hI.file_not_dot hd hen hf⟩, hf]

/-- **The removal of a file** keeps the invariant. -/
lemma Inv.cleared (hg : g.Valid) (hI : Inv g v R) (hd : Reach (subOf g v) R d)
    (hen : en ∈ entries g v d) (hf : en.slot.isDir = false) (hc : Cleared g E v d en w) :
    Inv g w R := by
  obtain ⟨K, hK, rfl⟩ := hc
  have hI' := hI.kill hg hd (mem_entries hen).1 hK (hI.file_head hd hen hf)
  have := hI'.free hg rfl
  rwa [cellsOf_killIn] at this

lemma Inv.cleared_ref (hg : g.Valid) (hI : Inv g v R) (hd : Reach (subOf g v) R d)
    (hen : en ∈ entries g v d) (hf : en.slot.isDir = false) (hc : Cleared g E v d en w) :
    Ref (subOf g w) R loc h ↔ loc ≠ .slot d en.idx ∧ Ref (subOf g v) R loc h := by
  obtain ⟨K, hK, rfl⟩ := hc
  have hh := hI.file_head hd hen hf
  have hm := hI.kill_moved hg hd (mem_entries hen).1 hK hh
  have hI' := hI.kill hg hd (mem_entries hen).1 hK hh
  have hs := hI'.free_same
  rw [cellsOf_killIn] at hs
  refine (hs.ref_iff hg (hI'.dropRoot rfl)).trans ?_
  -- the roots without the removed file
  have hroot : Ref (subOf g (v.killIn g d K)) (R ++ [⟨en.slot.cluster, false⟩]) loc h ↔
      (loc = .root R.length ∧ h = ⟨en.slot.cluster, false⟩) ∨
        Ref (subOf g (v.killIn g d K)) R loc h := ref_concat_iff (by simp)
  constructor
  · intro hr
    rcases hm.ref_iff.mp (hroot.mpr (Or.inr hr)) with ⟨rfl, -⟩ | hr'
    · exact absurd hr root_length_not_ref
    · exact hr'
  · intro hr
    rcases hroot.mp (hm.ref_iff.mpr (Or.inr hr)) with ⟨rfl, -⟩ | hr'
    · exact absurd hr.2 root_length_not_ref
    · exact hr'

lemma Inv.cleared_reach (hg : g.Valid) (hI : Inv g v R) (hd : Reach (subOf g v) R d)
    (hen : en ∈ entries g v d) (hf : en.slot.isDir = false) (hc : Cleared g E v d en w) {x : ℕ} :
    Reach (subOf g w) R x ↔ Reach (subOf g v) R x := by
  constructor
  · rintro ⟨loc, hr⟩
    exact ⟨loc, ((hI.cleared_ref hg hd hen hf hc).mp hr).2⟩
  · rintro ⟨loc, hr⟩
    refine ⟨loc, (hI.cleared_ref hg hd hen hf hc).mpr ⟨?_, hr⟩⟩
    rintro rfl
    have := hr.unique (ref_entry hd hen (hI.file_not_dot hd hen hf))
    rw [Head.mk.injEq, hf] at this
    exact absurd this.2 (by simp)

/-! ### New objects -/

/-- No object owns a free cluster. -/
lemma Inv.not_free (hI : Inv g v R) (hr : Ref (subOf g v) R loc h) {x : ℕ}
    (hx : x ∈ cellsOf g v h) : v.next x ≠ 0 := by
  by_cases h0 : h.isDir = true ∨ h.cell ≠ 0
  · exact (hI.chain loc h hr h0).next_ne_zero x hx
  · rw [cellsOf_eq_nil h0] at hx
    simp at hx

/-- Writing data to free clusters leaves the objects alone. -/
lemma Inv.wrote_same (hI : Inv g v R) {ds : List (List UInt8)} {new : List ℕ}
    (hw : Wrote g v [] ds w new) : Same g v w R := by
  have hnew : ∀ {loc h x}, Ref (subOf g v) R loc h → x ∈ cellsOf g v h → x ∉ new :=
    fun hr hx hx' => hI.not_free hr hx (hw.fresh _ hx').2
  exact ⟨fun loc h x hr hx => hw.next_eq x (by simp) (hnew hr hx),
    fun loc h x hr hx => hw.data_eq x (hnew hr hx)⟩

/-- **The data of a new file.** -/
lemma Inv.wrote (hg : g.Valid) (hI : Inv g v R) {ds : List (List UInt8)}
    {new : List ℕ} {a : ℕ} (hw : Wrote g v [] ds w new) (hc : IsChain g w a new) :
    Inv g w (R ++ [⟨a, false⟩]) := by
  have hs := hI.wrote_same hw
  have hcells : cellsOf g w ⟨a, false⟩ = new := hc.chainOf_eq hg
  refine (hI.frame hg hs).addRoot (fun _ => hcells ▸ hc) ?_ (by simp) (by simp) (by simp)
  intro loc h x hr hx
  rw [hs.ref_iff hg hI] at hr
  rw [hs.cells hg hI hr] at hx
  rw [hcells]
  exact fun hx' => hI.not_free hr hx (hw.fresh x hx').2

/-- An object without a chain. -/
lemma Inv.addEmpty (hI : Inv g v R) : Inv g v (R ++ [⟨0, false⟩]) := by
  have hcells : cellsOf g v ⟨0, false⟩ = [] := chainOf_zero
  refine hI.addRoot (by simp) ?_ (by simp) (by simp) (by simp)
  intro loc h x _ _
  rw [hcells]
  simp

lemma slotAt_newDirBuf (c p i : ℕ) : slotAt (newDirBuf c p) i
    = if i = 1 then dotdotSlot p else if i = 0 then dotSlot c else zeroSlot := by
  rw [newDirBuf, slotAt_setSlot, slotAt_setSlot]
  rfl

lemma Geom.InRange.lt (hg : g.Valid) {c : ℕ} (hc : g.InRange c) : c < 2 ^ 32 := by
  have := (hg.lt_eoc hc).2
  rw [eoc] at this
  omega

lemma dotSlot_isDot (c : ℕ) : (dotSlot c).isDot := Or.inl rfl

lemma dotdotSlot_isDot (c : ℕ) : (dotdotSlot c).isDot := Or.inr rfl

/-- The entry of a directory for itself or its parent leads there. -/
lemma sfnSlot_target (hg : g.Valid) {c : ℕ} (hc : g.InRange c) (sfn : List UInt8) (n : ℕ)
    (a : UInt8) : (sfnSlot sfn c n a).target g = c := by
  have h2 := hc.1
  rw [Slot.target, sfnSlot_cluster _ _ _ _ (hc.lt hg), if_neg (by omega)]

section

variable {new : ℕ}

/-- The objects do not see the entry of a free cluster. -/
lemma Inv.setNext_same (hI : Inv g v R) (h0 : v.next new = 0) (n : ℕ) :
    Same g v (v.setNext new n) R := by
  refine ⟨fun loc h x hx hxc => ?_, fun _ _ _ _ _ => rfl⟩
  rw [Vol.setNext_next_ne]
  rintro rfl
  exact hI.not_free hx hxc h0

lemma Inv.newDir_same (hI : Inv g v R) (h0 : v.next new = 0) (p : ℕ) :
    Same g v (Vol.newDir g v new p) R := by
  have hne : ∀ {loc h x}, Ref (subOf g v) R loc h → x ∈ cellsOf g v h → x ≠ new := by
    rintro loc h x hr hx rfl
    exact hI.not_free hr hx h0
  refine ⟨fun loc h x hr hx => ?_, fun loc h x hr hx => ?_⟩
  · rw [Vol.newDir, Vol.setData_next, Vol.setNext_next_ne _ _ _ _ (hne hr hx)]
  · rw [Vol.newDir, Vol.setData_data_ne _ _ _ _ (hne hr hx)]
    rfl

lemma newDir_chain (hr : g.InRange new) (p : ℕ) : IsChain g (Vol.newDir g v new p) new [new] := by
  refine Chain.last hr ?_
  rw [Vol.newDir, Vol.setData_next, Vol.setNext_next_same]
  decide

lemma newDir_slot (hg : g.Valid) (hr : g.InRange new) (p : ℕ) {i : ℕ} {e : Slot}
    (he : (dirSlots g (Vol.newDir g v new p) new)[i]? = some e) :
    e = if i = 1 then dotdotSlot p else if i = 0 then dotSlot new else zeroSlot := by
  rw [dirSlots, (newDir_chain hr p).chainOf_eq hg, slotsIn_cons, slotsIn_nil, List.append_nil] at he
  have hi := (List.getElem?_eq_some_iff.mp he).1
  rw [slotsOf_length] at hi
  rw [slotsOf_getElem? _ hi, Option.some.injEq, Vol.newDir, Vol.setData_data_same,
    slotAt_trim _ hi, slotAt_newDirBuf] at he
  exact he.symm

/-- Nothing is below a new directory. -/
lemma newDir_sub (hg : g.Valid) (hr : g.InRange new) (p i : ℕ) :
    subOf g (Vol.newDir g v new p) new i = none := by
  rw [subOf]
  cases he : (dirSlots g (Vol.newDir g v new p) new)[i]? with
  | none => rfl
  | some e =>
    rw [Option.bind_some, newDir_slot hg hr p he]
    split_ifs
    · simp [slotHead, dotdotSlot_isDot]
    · simp [slotHead, dotSlot_isDot]
    · rfl

/-- **A new directory.** -/
lemma Inv.newDir (hg : g.Valid) (hI : Inv g v R) (hr : g.InRange new)
    (h0 : v.next new = 0) {p : ℕ} (hp : Reach (subOf g v) R p) :
    Inv g (Vol.newDir g v new p) (R ++ [⟨new, true⟩]) := by
  have hs := hI.newDir_same h0 p
  have hchain := newDir_chain (v := v) hr p
  have hcells : cellsOf g (Vol.newDir g v new p) ⟨new, true⟩ = [new] :=
    hchain.chainOf_eq hg
  have hslot := fun i e => newDir_slot (v := v) hg hr p (i := i) (e := e)
  have hsub := newDir_sub (v := v) hg hr p
  refine (hI.frame hg hs).addRoot (fun _ => hcells ▸ hchain) ?_ (fun _ => hsub)
    (fun _ => ?_) (fun _ => ?_)
  · intro loc h x hr' hx
    rw [hs.ref_iff hg hI] at hr'
    rw [hs.cells hg hI hr'] at hx
    rw [hcells, List.mem_singleton]
    rintro rfl
    exact hI.not_free hr' hx h0
  · intro i e he hle
    rcases Nat.lt_or_ge i 2 with hi | hi
    · -- the end of the new directory is behind its two entries
      have hlen := (List.getElem?_eq_some_iff.mp he).1
      have hend : endIndex (dirSlots g (Vol.newDir g v new p) new)
          < (dirSlots g (Vol.newDir g v new p) new).length := by
        simp only at hle hlen ⊢
        omega
      have hz := endIndex_zero hend (List.getElem?_eq_getElem hend)
      rw [hslot _ _ (List.getElem?_eq_getElem hend)] at hz
      simp only at hle
      split_ifs at hz with h1 h2
      · exact absurd hz (by simp [dotdotSlot, sfnSlot, pad])
      · exact absurd hz (by simp [dotSlot, sfnSlot, pad])
      · omega
    · rw [hslot i e he, if_neg (by omega), if_neg (by omega)]
      rfl
  · intro i e he hl hdot
    rw [hslot i e he]
    split_ifs with h1 h2
    · -- the entry `..` leads to the parent
      have hpR := (hI.dir_chain hp).inRange p (Chain.head_mem (hI.dir_chain hp))
      refine ⟨by simp [dotdotSlot]; decide, ?_, fun j e' hj he' => ?_⟩
      · rw [dotdotSlot, sfnSlot_target hg hpR]
        exact ((hs.reach_iff hg hI).mpr hp).append_roots _
      · rw [hslot j e' he', if_neg (by omega), if_pos (by omega)]
        rfl
    · refine ⟨by simp [dotSlot]; decide, ?_, fun j e' hj => by omega⟩
      rw [dotSlot, sfnSlot_target hg hr]
      exact ⟨.root R.length, .root (by simp)⟩
    · rw [hslot i e he, if_neg h1, if_neg h2] at hl
      exact absurd hl (by decide)

end

/-! ### New entries -/

lemma slotHead_sfnSlot {name : Name} (hn : IsPath name) {c : ℕ} (n : ℕ) (a : UInt8)
    (hc : c < 2 ^ 32) : slotHead (sfnSlot (newSfn name) c n a)
      = if (sfnSlot (newSfn name) c n a).live then some ⟨c, Slot.isDirAttr a⟩
        else none := by
  rw [slotHead, sfnSlot_cluster _ _ _ _ hc, sfnSlot_isDir]
  simp [newSfn_not_dot hn.1]

/-- The object `h` is now in a slot of the directory `d`. -/
structure Taken (g : Geom) (v : Vol) (R : List (Head ℕ)) (d : ℕ) (h : Head ℕ)
    (w : Vol) : Prop where
  inv : Inv g w R
  moved : ∃ k, Moved (subOf g w) (subOf g v) R d k h

/-- The object `h` is in no slot. -/
structure Lost (g : Geom) (v : Vol) (R : List (Head ℕ)) (h : Head ℕ) (w : Vol) :
    Prop where
  inv : Inv g w (R ++ [h])
  sub : ∀ x, Reach (subOf g v) (R ++ [h]) x → subOf g w x = subOf g v x

section

variable {name : Name} {c n : ℕ} {a : UInt8} {r : Option Unit}

/-- **A new entry** takes the object, or the object is lost. -/
lemma Created.outcome (hg : g.Valid) (hI : Inv g v (R ++ [h]))
    (hd : Reach (subOf g v) R d) (hn : IsPath name) (hc : c < 2 ^ 32)
    (hh : h = ⟨c, Slot.isDirAttr a⟩) (hcr : Created g E v d name c n a r w) :
    (r = some () ∧ (sfnSlot (newSfn name) c n a).live = true ∧ Taken g v R d h w) ∨
      ((r = none ∨ (sfnSlot (newSfn name) c n a).live = false) ∧ Lost g v R h w) := by
  rcases hcr with ⟨hr, rfl, -⟩ | ⟨ext, m, ha, hr⟩
  · exact Or.inr ⟨Or.inl hr, hI, fun _ _ => rfl⟩
  · have hs := entrySlots_spec hn c n a
    have hhead := slotHead_sfnSlot hn n a hc
    have hd' := hd.append_roots [h]
    have hle := ha.le
    by_cases hm : m = (entrySlots name c n a).length
    · have hrs : r = some () := by
        cases r with
        | none => exact absurd (hr.mp rfl) (by omega)
        | some _ => rfl
      cases hl : (sfnSlot (newSfn name) c n a).live with
      | true =>
        rw [hl, if_pos rfl, ← hh] at hhead
        exact Or.inl ⟨hrs, rfl, hI.append hg hd ha hs hm hhead,
          _, hI.append_moved hg hd ha hs hm hhead⟩
      | false =>
        rw [hl] at hhead
        exact Or.inr ⟨Or.inr rfl, hI.append_lost hg hd' ha hs (Or.inr hhead),
          fun x hx => hI.append_lost_sub hg hd' ha hs (Or.inr hhead) hx⟩
    · exact Or.inr ⟨Or.inl (hr.mpr (by omega)), hI.append_lost hg hd' ha hs (Or.inl (by omega)),
        fun x hx => hI.append_lost_sub hg hd' ha hs (Or.inl (by omega)) hx⟩

/-- What was referred to without the object still is. -/
lemma Created.ref (hg : g.Valid) (hI : Inv g v (R ++ [h])) (hd : Reach (subOf g v) R d)
    (hn : IsPath name) (hc : c < 2 ^ 32) (hh : h = ⟨c, Slot.isDirAttr a⟩)
    (hcr : Created g E v d name c n a r w) (hr : Ref (subOf g v) R loc h') :
    Ref (subOf g w) R loc h' := by
  rcases hcr.outcome hg hI hd hn hc hh with ⟨-, -, ht⟩ | ⟨-, hl⟩
  · obtain ⟨k, hm⟩ := ht.moved
    rcases hm.ref_iff.mp (hr.append_roots [h]) with ⟨rfl, -⟩ | ⟨-, hr'⟩
    · exact absurd hr root_length_not_ref
    · exact hr'
  · exact hr.mono fun x hx => hl.sub x (hx.append_roots [h])

/-- The creation of an entry keeps the invariant. -/
lemma Created.inv (hg : g.Valid) (hI : Inv g v (R ++ [h]))
    (hd : Reach (subOf g v) R d) (hn : IsPath name) (hc : c < 2 ^ 32)
    (hh : h = ⟨c, Slot.isDirAttr a⟩) (hcr : Created g E v d name c n a r w) :
    Inv g w R ∨ Inv g w (R ++ [h]) := by
  rcases hcr.outcome hg hI hd hn hc hh with ⟨-, -, ht⟩ | ⟨-, hl⟩
  · exact Or.inl ht.inv
  · exact Or.inr hl.inv

end

end

end GordOS.Fat32
