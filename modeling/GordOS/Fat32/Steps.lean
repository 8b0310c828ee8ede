/-
The steps of the operations on the objects of a volume.

* `Inv.kill_moved`, `Inv.kill`: an entry marked as deleted becomes a root;
* `Inv.dropRoot`, `Inv.free`: a file that is a root, and its chain given back;
* `Inv.addRoot`: a new object on clusters that no object owns;
* `Inv.append_moved`, `Inv.append`, `Inv.append_lost`: a root put into a new slot,
  or not.
-/
import Mathlib.Tactic
import GordOS.Fat32.Tree

namespace GordOS.Fat32

open GordOS GordOS.Fallible

section

variable {g : Geom} {E : Env} {v w : Vol} {R : List (Head ℕ)} {loc loc' : Loc ℕ}
variable {h h' : Head ℕ} {d k : ℕ} {K : List ℕ} {e : Slot}

/-! ### Removal -/

lemma Slot.dead_live (e : Slot) : e.dead.live = false := by
  simp [Slot.live, Slot.dead]

lemma Slot.dead_isLfn (e : Slot) : e.dead.isLfn = false := by
  simp [Slot.isLfn, Slot.dead]

lemma Slot.dead_ne_zero (e : Slot) : e.dead 0 ≠ 0 := by
  simp [Slot.dead]

lemma Slot.live_of_head (he : slotHead e = some h) : e.live = true := by
  rw [slotHead] at he
  split_ifs at he with hc
  exact hc.1

lemma Slot.not_dot_of_head (he : slotHead e = some h) : ¬ e.isDot := by
  rw [slotHead] at he
  split_ifs at he with hc
  exact hc.2

lemma Slot.head_eq (he : slotHead e = some h) : h = ⟨e.cluster, e.isDir⟩ := by
  rw [slotHead] at he
  split_ifs at he with hc
  exact (Option.some.inj he).symm

lemma slotHead_of_not_live (hl : e.live = false) : slotHead e = none := by
  simp [slotHead, hl]

lemma Slot.not_live_of_isLfn (hl : e.isLfn = true) : e.live = false := by
  rw [Slot.isLfn, Bool.and_eq_true, beq_iff_eq] at hl
  simp [Slot.live, hl.2]

lemma Slot.not_live_of_zero (h0 : e 0 = 0) : e.live = false := by
  simp [Slot.live, h0]

lemma Slot.ne_zero_of_live (hl : e.live = true) : e 0 ≠ 0 := by
  intro h0
  rw [Slot.not_live_of_zero h0] at hl
  cases hl

lemma chainOf_of_next_eq (hn : w.next = v.next) (c : ℕ) : chainOf g w c = chainOf g v c := by
  rw [chainOf, chainOf]
  generalize g.count = n
  induction n generalizing c with
  | zero => rfl
  | succ n ih => rw [chainWalk, chainWalk, hn, ih]

/-- The end of a directory only depends on which slots are `0x00`. -/
lemma firstZero_congr {ss ss' : List Slot} (hl : ss.length = ss'.length)
    (hz : ∀ (i : ℕ) (e e' : Slot), ss[i]? = some e → ss'[i]? = some e' → (e 0 = 0 ↔ e' 0 = 0)) :
    firstZero ss = firstZero ss' := by
  have hmap : ss.map (fun e => e 0 == 0) = ss'.map (fun e => e 0 == 0) := by
    refine List.ext_getElem? fun i => ?_
    rw [List.getElem?_map, List.getElem?_map]
    rcases Nat.lt_or_ge i ss.length with hi | hi
    · have hi' : i < ss'.length := hl ▸ hi
      rw [List.getElem?_eq_getElem hi, List.getElem?_eq_getElem hi', Option.map_some,
        Option.map_some, Option.some.injEq, Bool.eq_iff_iff, beq_iff_eq, beq_iff_eq]
      exact hz i _ _ (List.getElem?_eq_getElem hi) (List.getElem?_eq_getElem hi')
    · rw [List.getElem?_eq_none hi, List.getElem?_eq_none (hl ▸ hi)]
  have hfind : ∀ l : List Slot, firstZero l = (l.map (fun e => e 0 == 0)).findIdx? id := by
    intro l
    rw [firstZero, List.findIdx?_map]
    rfl
  rw [hfind, hfind, hmap]

lemma endIndex_congr {ss ss' : List Slot} (hl : ss.length = ss'.length)
    (hz : ∀ (i : ℕ) (e e' : Slot), ss[i]? = some e → ss'[i]? = some e' → (e 0 = 0 ↔ e' 0 = 0)) :
    endIndex ss = endIndex ss' := by
  rw [endIndex, endIndex, firstZero_congr hl hz, hl]

/-- The slots before the end are not `0x00`. -/
lemma ne_zero_of_lt_endIndex {ss : List Slot} {i : ℕ} (hi : i < endIndex ss)
    (he : ss[i]? = some e) : e 0 ≠ 0 := by
  intro h0
  rw [endIndex] at hi
  cases hz : firstZero ss with
  | none =>
    have := List.findIdx?_eq_none_iff.mp hz e (List.mem_of_getElem? he)
    rw [h0] at this
    exact absurd this (by simp)
  | some k =>
    rw [hz, Option.getD_some] at hi
    obtain ⟨hk, -, hmin⟩ := List.findIdx?_eq_some_iff_getElem.mp hz
    have := hmin i hi
    rw [List.getElem?_eq_some_iff] at he
    obtain ⟨_, rfl⟩ := he
    exact this (by simpa using h0)

/-- A live slot stands before the end of its directory. -/
lemma lt_endIndex_of_live (ht : TailOk g v d)
    (hk : (dirSlots g v d)[k]? = some e) (hl : e.live = true) :
    k < endIndex (dirSlots g v d) := by
  by_contra hge
  exact Slot.ne_zero_of_live hl (ht k e hk (by omega))

/-- The volume with the entry at index `k` of the directory `d` removed. -/
def Vol.killIn (g : Geom) (v : Vol) (d : ℕ) (K : List ℕ) : Vol :=
  v.kill (K.map (posIn g (chainOf g v d)))

@[simp] lemma Vol.killIn_next : (v.killIn g d K).next = v.next := rfl

@[simp] lemma chainOf_killIn (c : ℕ) :
    chainOf g (v.killIn g d K) c = chainOf g v c :=
  chainOf_of_next_eq Vol.killIn_next c

@[simp] lemma cellsOf_killIn : cellsOf g (v.killIn g d K) h = cellsOf g v h :=
  chainOf_killIn _

lemma dirSlots_length : (dirSlots g v d).length
    = (chainOf g v d).length * g.entriesPerCluster := slotsIn_length _

lemma Marks.lt (hM : Marks E (dirSlots g v d) k K) (hk : (dirSlots g v d)[k]? = some e) :
    ∀ j ∈ K, j < (chainOf g v d).length * g.entriesPerCluster := by
  intro j hj
  have h1 := hM.le j hj
  have h2 := (List.getElem?_eq_some_iff.mp hk).1
  rw [dirSlots_length] at h2
  omega

/-- A marked slot other than the entry itself is an LFN slot. -/
lemma Marks.isLfn {ss : List Slot} (hM : Marks E ss k K) {j : ℕ} {e' : Slot}
    (hk : k < ss.length) (hj : j ∈ K) (hne : j ≠ k) (he : ss[j]? = some e') :
    e'.isLfn = true := by
  rcases hM.sub j hj with rfl | hj
  · exact absurd rfl hne
  · obtain ⟨h1, h2⟩ := mem_runIndices hj
    exact isLfn_of_mem_run h1 h2 hk.le he

section

variable (hg : g.Valid) (hI : Inv g v R) (hd : Reach (subOf g v) R d)
variable (hk : (dirSlots g v d)[k]? = some e)
variable (hM : Marks E (dirSlots g v d) k K)

include hg hI hd hk hM

lemma Inv.killIn_slots : dirSlots g (v.killIn g d K) d = killAt K (dirSlots g v d) := by
  have hc := hI.dir_chain hd
  rw [dirSlots, chainOf_killIn, Vol.killIn, slotsIn_kill hg (hc.nodup hg) (hM.lt hk)]
  rfl

omit hg hI hd in
lemma Inv.killIn_agree : AgreeOff g v (v.killIn g d K) R d := by
  intro loc h x _ _ hxd
  exact ⟨rfl, kill_data_of_notMem_chain (hM.lt hk) hxd⟩

lemma Inv.killIn_slots_ne {d' : ℕ} (hd' : Reach (subOf g v) R d') (hne : d' ≠ d) :
    dirSlots g (v.killIn g d K) d' = dirSlots g v d' :=
  hI.slots_off hg hd (Inv.killIn_agree hk hM) hd' hne

variable (he : slotHead e = some h)

include he

/-- The removed entry becomes a root. -/
lemma Inv.kill_moved : Moved (subOf g v) (subOf g (v.killIn g d K)) R d k h where
  reach := hd
  held := by rw [subOf, hk, Option.bind_some, he]
  gone := by
    rw [subOf, hI.killIn_slots hg hd hk hM, killAt_getElem?, hk, Option.map_some,
      if_pos hM.self, Option.bind_some]
    exact slotHead_of_not_live e.dead_live
  other := by
    intro x i hx hne
    by_cases hxd : x = d
    · subst hxd
      have hik : i ≠ k := hne.resolve_left (by simp)
      rw [subOf, hI.killIn_slots hg hd hk hM, killAt_getElem?, subOf]
      cases hi : (dirSlots g v x)[i]? with
      | none => rfl
      | some e' =>
        rw [Option.map_some, Option.bind_some, Option.bind_some]
        by_cases hiK : i ∈ K
        · have hlfn := hM.isLfn (List.getElem?_eq_some_iff.mp hk).1 hiK hik hi
          rw [if_pos hiK, slotHead_of_not_live e'.dead_live,
            slotHead_of_not_live (Slot.not_live_of_isLfn hlfn)]
        · rw [if_neg hiK]
    · rw [subOf_congr (hI.killIn_slots_ne hg hd hk hM hx hxd)]

/-- The directory is still reached without the removed entry. -/
lemma Inv.kill_reach : Reach (subOf g (v.killIn g d K)) R d :=
  Reach.of_eq_off (fun x hx hxr => funext fun i =>
    (hI.kill_moved hg hd hk hM he).other x i hxr (Or.inl hx)) hd

/-- **Removal** keeps the invariant. -/
lemma Inv.kill : Inv g (v.killIn g d K) (R ++ [h]) := by
  have hm := hI.kill_moved hg hd hk hM he
  have hlive := Slot.live_of_head he
  refine ⟨?_, ?_, ?_, ?_⟩
  · intro loc h' hr h0
    rw [cellsOf_killIn]
    rcases hm.ref_iff.mp hr with ⟨-, rfl⟩ | ⟨-, hr⟩
    · exact (hI.chain _ _ (hd.slot hm.held) h0).congr fun _ _ => rfl
    · exact (hI.chain _ _ hr h0).congr fun _ _ => rfl
  · have := hm.separated hI.sep
    intro loc h₁ loc' h₂ hr hr' hne
    rw [cellsOf_killIn, cellsOf_killIn]
    exact this loc h₁ loc' h₂ hr hr' hne
  · intro d' hd'
    rw [hm.reach_iff] at hd'
    by_cases hdd : d' = d
    · -- the end of the directory stays where it is
      subst hdd
      have hend := lt_endIndex_of_live (hI.tail d' hd) hk hlive
      have hslots := hI.killIn_slots hg hd hk hM
      have hsame : endIndex (killAt K (dirSlots g v d')) = endIndex (dirSlots g v d') := by
        refine endIndex_congr (killAt_length _ _) fun i e₁ e₂ h₁ h₂ => ?_
        rw [killAt_getElem?, h₂, Option.map_some, Option.some.injEq] at h₁
        subst h₁
        split_ifs with hiK
        · have hlt := lt_of_le_of_lt (hM.le i hiK) hend
          simp [e₂.dead_ne_zero, ne_zero_of_lt_endIndex hlt h₂]
        · rfl
      intro i e' hi hle
      rw [hslots] at hi hle
      rw [hsame] at hle
      rw [killAt_getElem?] at hi
      obtain ⟨e₀, he₀, rfl⟩ := Option.map_eq_some_iff.mp hi
      have hiK : i ∉ K := fun hm => by
        have := hM.le i hm
        omega
      rw [if_neg hiK]
      exact hI.tail d' hd i e₀ he₀ hle
    · exact (hI.tail d' hd').congr (hI.killIn_slots_ne hg hd hk hM hd' hdd)
  · intro d' hd'
    rw [hm.reach_iff] at hd'
    by_cases hdd : d' = d
    · subst hdd
      have hslots := hI.killIn_slots hg hd hk hM
      intro i e' hi hl hdot
      rw [hslots, killAt_getElem?] at hi
      obtain ⟨e₀, he₀, rfl⟩ := Option.map_eq_some_iff.mp hi
      by_cases hiK : i ∈ K
      · rw [if_pos hiK, e₀.dead_live] at hl
        cases hl
      · rw [if_neg hiK] at hl hdot ⊢
        obtain ⟨h1, h2, h3⟩ := hI.dots d' hd i e₀ he₀ hl hdot
        refine ⟨h1, hm.reach_iff.mpr h2, fun j e₁ hj he₁ => ?_⟩
        rw [hslots, killAt_getElem?] at he₁
        obtain ⟨e₂, he₂, rfl⟩ := Option.map_eq_some_iff.mp he₁
        split_ifs
        · exact e₂.dead_isLfn
        · exact h3 j e₂ hj he₂
    · exact (hI.dots d' hd').mono (hI.killIn_slots_ne hg hd hk hM hd' hdd)
        fun x hx => hm.reach_iff.mpr hx

end

/-! ### Roots that come and go -/

/-- A file that is a root may be forgotten. -/
lemma Inv.dropRoot (hI : Inv g v (R ++ [h])) (hf : h.isDir = false) : Inv g v R where
  chain := fun loc h' hr => hI.chain loc h' (hr.append_roots [h])
  sep := fun loc h₁ loc' h₂ hr hr' =>
    hI.sep loc h₁ loc' h₂ (hr.append_roots [h]) (hr'.append_roots [h])
  tail := fun d hd => hI.tail d (hd.append_roots [h])
  dots := by
    intro d hd
    refine (hI.dots d (hd.append_roots [h])).mono rfl fun x ⟨loc, hr⟩ => ?_
    rcases (ref_concat_iff (by simp [hf])).mp hr with ⟨-, heq⟩ | hr
    · rw [← heq] at hf
      cases hf
    · exact ⟨loc, hr⟩

/-- The chain of a file that is a root, given back. -/
lemma Inv.free_same (hI : Inv g v (R ++ [h])) : Same g v (v.free (cellsOf g v h)) R := by
  have hroot : Ref (subOf g v) (R ++ [h]) (.root R.length) h := .root (by simp)
  refine ⟨fun loc h' x hr hx => Vol.free_next_of_notMem _ fun hx' => ?_, fun _ _ _ _ _ => rfl⟩
  have heq := hI.loc_eq (hr.append_roots [h]) hroot hx hx'
  exact root_length_not_ref (heq ▸ hr)

lemma Inv.free (hg : g.Valid) (hI : Inv g v (R ++ [h])) (hf : h.isDir = false) :
    Inv g (v.free (cellsOf g v h)) R :=
  (hI.dropRoot hf).frame hg hI.free_same

/-- **A new object** on clusters that no object owns. -/
lemma Inv.addRoot (hI : Inv g v R)
    (hc : h.isDir = true ∨ h.cell ≠ 0 → IsChain g v h.cell (cellsOf g v h))
    (hfree : ∀ loc h' x, Ref (subOf g v) R loc h' → x ∈ cellsOf g v h' → x ∉ cellsOf g v h)
    (hsub : h.isDir = true → ∀ i, subOf g v h.cell i = none)
    (htail : h.isDir = true → TailOk g v h.cell)
    (hdots : h.isDir = true → DotsOk g v (R ++ [h]) h.cell) :
    Inv g v (R ++ [h]) where
  chain := by
    intro loc h' hr h0
    rcases (ref_concat_iff hsub).mp hr with ⟨-, rfl⟩ | hr
    · exact hc h0
    · exact hI.chain loc h' hr h0
  sep := by
    intro loc h₁ loc' h₂ hr hr' hne
    rcases (ref_concat_iff hsub).mp hr with ⟨rfl, rfl⟩ | hs <;>
      rcases (ref_concat_iff hsub).mp hr' with ⟨rfl, rfl⟩ | hs'
    · exact absurd rfl hne
    · exact fun x hx hx' => hfree loc' h₂ x hs' hx' hx
    · exact fun x hx hx' => hfree loc h₁ x hs hx hx'
    · exact hI.sep loc h₁ loc' h₂ hs hs' hne
  tail := by
    rintro d ⟨loc, hr⟩
    rcases (ref_concat_iff hsub).mp hr with ⟨-, rfl⟩ | hr
    · exact htail rfl
    · exact hI.tail d ⟨loc, hr⟩
  dots := by
    rintro d ⟨loc, hr⟩
    rcases (ref_concat_iff hsub).mp hr with ⟨-, rfl⟩ | hr
    · exact hdots rfl
    · exact (hI.dots d ⟨loc, hr⟩).mono rfl fun x hx => hx.append_roots [h]

/-! ### New slots -/

lemma endIndex_le_length (ss : List Slot) : endIndex ss ≤ ss.length := by
  rw [endIndex]
  cases hz : firstZero ss with
  | none => exact le_rfl
  | some k => exact (List.findIdx?_eq_some_iff_getElem.mp hz).1.le

/-- The end of a directory is a `0x00` slot, or behind the last slot. -/
lemma endIndex_zero {ss : List Slot} (hlt : endIndex ss < ss.length)
    (he : ss[endIndex ss]? = some e) : e 0 = 0 := by
  rw [endIndex] at hlt he
  cases hz : firstZero ss with
  | none => rw [hz, Option.getD_none] at hlt; omega
  | some k =>
    rw [hz, Option.getD_some, List.getElem?_eq_some_iff] at he
    obtain ⟨_, rfl⟩ := he
    simpa using (List.findIdx?_eq_some_iff_getElem.mp hz).2.1

/-- The slots of a new entry: LFN slots, and a short entry that is not called `.`
or `..`. -/
structure EntrySlots (es : List Slot) (s : Slot) : Prop where
  ne_zero : ∀ e ∈ es, e 0 ≠ 0
  last : es.getLast? = some s
  lfn : ∀ e ∈ es.dropLast, e.isLfn = true
  not_dot : ¬ s.isDot

lemma entrySlots_spec {name : Name} (hn : IsPath name) (c n : ℕ) (a : UInt8) :
    EntrySlots (entrySlots name c n a) (sfnSlot (newSfn name) c n a) where
  ne_zero := by
    intro e he
    rcases List.mem_append.mp he with he | he
    · exact (lfnSlots_spec hn.2 _ e he).2
    · rw [List.mem_singleton.mp he]
      exact newSfn_zero hn.1 c n a
  last := by simp [entrySlots]
  lfn := by
    intro e he
    rw [entrySlots, List.dropLast_concat] at he
    exact (lfnSlots_spec hn.2 _ e he).1
  not_dot := newSfn_not_dot hn.1 c n a

lemma EntrySlots.ne_nil {es : List Slot} {s : Slot} (hs : EntrySlots es s) : es ≠ [] := by
  rintro rfl
  have := hs.last
  simp at this

/-- What the slots of a new entry hold. -/
lemma EntrySlots.head {es : List Slot} {s : Slot} (hs : EntrySlots es s) {i : ℕ}
    {e : Slot} (hi : es[i]? = some e) :
    slotHead e = if i + 1 = es.length then slotHead s else none := by
  have hlt := (List.getElem?_eq_some_iff.mp hi).1
  split_ifs with hl
  · have := hs.last
    rw [List.getLast?_eq_getElem?, show es.length - 1 = i by omega, hi, Option.some.injEq] at this
    rw [this]
  · refine slotHead_of_not_live (Slot.not_live_of_isLfn (hs.lfn e ?_))
    have hd : es.dropLast[i]? = some e := by
      rw [List.getElem?_dropLast, if_pos (by omega)]
      exact hi
    exact List.mem_of_getElem? hd

section

variable {ext : List ℕ} {n : ℕ} {es : List Slot} {s : Slot}
variable (hg : g.Valid) (hI : Inv g v R) (hd : Reach (subOf g v) R d)
variable (ha : Appended g v d (chainOf g v d) (endIndex (dirSlots g v d)) es w ext n)

section

/-- The new clusters of the directory belong to no object. -/
lemma Inv.append_fresh (hI : Inv g v R)
    (ha : Appended g v d (chainOf g v d) (endIndex (dirSlots g v d)) es w ext n)
    (hr : Ref (subOf g v) R loc h) : ∀ x ∈ cellsOf g v h, x ∉ ext := by
  intro x hx hxe
  by_cases h0 : h.isDir = true ∨ h.cell ≠ 0
  · exact (hI.chain loc h hr h0).next_ne_zero x hx (ha.fresh x hxe).2
  · rw [cellsOf_eq_nil h0] at hx
    simp at hx

include hI ha in
lemma Inv.append_agree : AgreeOff g v w R d := by
  intro loc h x hr hx hxd
  have hnot : x ∉ chainOf g v d ++ ext := by
    simp [hxd, hI.append_fresh ha hr x hx]
  exact ⟨ha.next_eq x hnot, ha.data_eq x hnot⟩

include hg ha

lemma append_chainOf : chainOf g w d = chainOf g v d ++ ext :=
  ha.chain.chainOf_eq hg

/-- The slots of the directory: the old ones, the new ones, and `0x00` slots. -/
lemma append_slot_lt {i : ℕ} (hi : i < endIndex (dirSlots g v d)) :
    (dirSlots g w d)[i]? = (dirSlots g v d)[i]? := by
  obtain ⟨z, hz⟩ := ha.slots
  have hle := endIndex_le_length (dirSlots g v d)
  rw [dirSlots, append_chainOf hg ha, hz, List.append_assoc, List.getElem?_append_left]
  · rw [List.getElem?_take, if_pos hi]
    rfl
  · rw [List.length_take]
    change i < min _ (dirSlots g v d).length
    omega

lemma append_slot_mid {i : ℕ} (hi : i < n) :
    (dirSlots g w d)[endIndex (dirSlots g v d) + i]? = es[i]? := by
  obtain ⟨z, hz⟩ := ha.slots
  have hle := endIndex_le_length (dirSlots g v d)
  have hlen : ((slotsIn g v (chainOf g v d)).take
      (endIndex (dirSlots g v d))).length = endIndex (dirSlots g v d) := by
    rw [List.length_take]
    change min _ (dirSlots g v d).length = _
    omega
  have hn := ha.le
  rw [dirSlots, append_chainOf hg ha, hz, List.append_assoc,
    List.getElem?_append_right (by rw [hlen]; omega), hlen, Nat.add_sub_cancel_left,
    List.getElem?_append_left (by rw [List.length_take]; omega), List.getElem?_take,
    if_pos hi]

/-- Behind the new slots stand old ones from behind the end, and zeros. -/
lemma append_slot_tail {P : Slot → Prop} (hzero : P zeroSlot)
    (htail : ∀ i e, endIndex (dirSlots g v d) ≤ i → (dirSlots g v d)[i]? = some e → P e) {i : ℕ}
    {e : Slot} (hi : endIndex (dirSlots g v d) + n ≤ i) (he : (dirSlots g w d)[i]? = some e) :
    P e := by
  obtain ⟨z, hz⟩ := ha.slots
  have hle := endIndex_le_length (dirSlots g v d)
  have hlen : ((slotsIn g v (chainOf g v d)).take (endIndex (dirSlots g v d)) ++ es.take n).length
      = endIndex (dirSlots g v d) + n := by
    rw [List.length_append, List.length_take, List.length_take]
    have := ha.le
    change min _ (dirSlots g v d).length + _ = _
    omega
  rw [dirSlots, append_chainOf hg ha, hz,
    List.getElem?_append_right (by rw [hlen]; exact hi), hlen] at he
  rcases List.mem_append.mp (List.mem_of_getElem? he) with hm | hm
  · obtain ⟨j, hj⟩ := List.mem_iff_getElem?.mp hm
    rw [List.getElem?_drop] at hj
    exact htail _ e (by omega) hj
  · rw [List.eq_of_mem_replicate hm]
    exact hzero

include hI hd

lemma Inv.append_slot_ge {i : ℕ} {e : Slot}
    (hi : endIndex (dirSlots g v d) + n ≤ i) (he : (dirSlots g w d)[i]? = some e) :
    e 0 = 0 :=
  append_slot_tail hg ha (P := fun e => e 0 = 0) rfl (fun i e h h' => hI.tail d hd i e h' h) hi he

variable (hs : EntrySlots es s)

include hs

/-- What the slots of the directory hold. -/
lemma Inv.append_sub (i : ℕ) : subOf g w d i
    = if n = es.length ∧ i + 1 = endIndex (dirSlots g v d) + es.length
      then slotHead s else subOf g v d i := by
  have hne := List.length_pos_iff.mpr hs.ne_nil
  have hn := ha.le
  have hold : endIndex (dirSlots g v d) ≤ i → subOf g v d i = none := by
    intro hle
    rw [subOf]
    cases he : (dirSlots g v d)[i]? with
    | none => rfl
    | some e =>
      exact slotHead_of_not_live (Slot.not_live_of_zero (hI.tail d hd i e he hle))
  rcases Nat.lt_or_ge i (endIndex (dirSlots g v d)) with hi | hi
  · rw [if_neg (by omega), subOf, append_slot_lt hg ha hi, subOf]
  · rw [hold hi]
    rcases Nat.lt_or_ge i (endIndex (dirSlots g v d) + n) with hi' | hi'
    · obtain ⟨j, rfl⟩ := Nat.exists_eq_add_of_le hi
      rw [subOf, append_slot_mid hg ha (by omega)]
      have hj : j < es.length := by omega
      rw [List.getElem?_eq_getElem hj, Option.bind_some, hs.head (List.getElem?_eq_getElem hj)]
      by_cases hl : j + 1 = es.length
      · rw [if_pos hl, if_pos (by omega)]
      · rw [if_neg hl, if_neg (by omega)]
    · rw [if_neg (by omega), subOf]
      cases he : (dirSlots g w d)[i]? with
      | none => rfl
      | some e =>
        exact slotHead_of_not_live (Slot.not_live_of_zero (hI.append_slot_ge hg hd ha hi' he))

lemma Inv.append_tail : TailOk g w d := by
  intro i e he hle
  rcases Nat.lt_or_ge i (endIndex (dirSlots g v d) + n) with hi | hi
  · -- the slots before the new end are all in use
    have hlen := (List.getElem?_eq_some_iff.mp he).1
    have hend : endIndex (dirSlots g w d) < (dirSlots g w d).length := by omega
    have hz := endIndex_zero hend (List.getElem?_eq_getElem hend)
    have hne : ∀ j e', j < endIndex (dirSlots g v d) + n →
        (dirSlots g w d)[j]? = some e' → e' 0 ≠ 0 := by
      intro j e' hj he'
      rcases Nat.lt_or_ge j (endIndex (dirSlots g v d)) with hj' | hj'
      · rw [append_slot_lt hg ha hj'] at he'
        exact ne_zero_of_lt_endIndex hj' he'
      · obtain ⟨m, rfl⟩ := Nat.exists_eq_add_of_le hj'
        rw [append_slot_mid hg ha (by omega)] at he'
        exact hs.ne_zero e' (List.mem_of_getElem? he')
    exact absurd hz (hne _ _ (by omega) (List.getElem?_eq_getElem hend))
  · exact hI.append_slot_ge hg hd ha hi he

/-- The entries `.` and `..` of the directory are the old ones. -/
lemma Inv.append_dots {R' : List (Head ℕ)}
    (hr : ∀ x, Reach (subOf g v) R x → Reach (subOf g w) R' x) : DotsOk g w R' d := by
  intro i e he hl hdot
  have hn := ha.le
  have hi : i < endIndex (dirSlots g v d) := by
    by_contra hge
    rcases Nat.lt_or_ge i (endIndex (dirSlots g v d) + n) with hi | hi
    · obtain ⟨j, rfl⟩ := Nat.exists_eq_add_of_le (Nat.le_of_not_lt hge)
      rw [append_slot_mid hg ha (by omega)] at he
      by_cases hj : j + 1 = es.length
      · have := hs.last
        rw [List.getLast?_eq_getElem?, show es.length - 1 = j by omega, he,
          Option.some.injEq] at this
        exact hs.not_dot (this ▸ hdot)
      · have hd' : es.dropLast[j]? = some e := by
          rw [List.getElem?_dropLast, if_pos (by omega)]
          exact he
        have := Slot.not_live_of_isLfn (hs.lfn e (List.mem_of_getElem? hd'))
        rw [this] at hl
        cases hl
    · rw [Slot.not_live_of_zero (hI.append_slot_ge hg hd ha hi he)] at hl
      cases hl
  rw [append_slot_lt hg ha hi] at he
  obtain ⟨h1, h2, h3⟩ := hI.dots d hd i e he hl hdot
  refine ⟨h1, hr _ h2, fun j e' hj he' => h3 j e' hj ?_⟩
  rwa [append_slot_lt hg ha (by omega)] at he'

/-! ### The clusters of the objects behind an append -/

omit hs

/-- The clusters of an object: those of the directory have grown. -/
lemma Inv.append_cells (hr : Ref (subOf g v) R loc h) :
    cellsOf g w h = if h.cell = d then chainOf g v d ++ ext else cellsOf g v h := by
  split_ifs with hc
  · rw [cellsOf, hc, append_chainOf hg ha]
  · exact hI.cells_off hg hd (hI.append_agree ha) hr hc

lemma Inv.append_isChain (hr : Ref (subOf g v) R loc h) (h0 : h.isDir = true ∨ h.cell ≠ 0) :
    IsChain g w h.cell (cellsOf g w h) := by
  rw [hI.append_cells hg hd ha hr]
  split_ifs with hc
  · rw [hc]
    exact ha.chain
  · refine (hI.chain loc h hr h0).congr fun x hx => ?_
    exact (hI.append_agree ha loc h x hr hx (hI.disjoint_dir hd hr hc x hx)).1

lemma Inv.append_separated : Separated (subOf g v) R (cellsOf g w) := by
  obtain ⟨ld, hld⟩ := hd
  have hdr : Reach (subOf g v) R d := ⟨ld, hld⟩
  -- an object that starts where the directory does is the directory
  have hsame : ∀ {loc h}, Ref (subOf g v) R loc h → h.cell = d → loc = ld := by
    intro loc h hr hc
    have hd0 : d ≠ 0 := by
      have := (hI.dir_chain hdr).inRange d (Chain.head_mem (hI.dir_chain hdr))
      have := this.1
      omega
    refine hI.loc_eq hr hld (hI.cell_mem hr (Or.inr (hc ▸ hd0))) ?_
    rw [hc]
    exact hI.cell_mem hld (Or.inl rfl)
  intro loc h loc' h' hr hr' hne
  rw [hI.append_cells hg hdr ha hr, hI.append_cells hg hdr ha hr']
  have hgrown : ∀ {loc h}, Ref (subOf g v) R loc h → loc ≠ ld →
      (chainOf g v d ++ ext).Disjoint (cellsOf g v h) := by
    intro loc h hr hne x hx hx'
    rcases List.mem_append.mp hx with hx | hx
    · exact hI.sep _ _ _ _ hld hr hne.symm hx hx'
    · exact hI.append_fresh ha hr x hx' hx
  split_ifs with h1 h2 h2
  · exact absurd ((hsame hr h1).trans (hsame hr' h2).symm) hne
  · exact hgrown hr' fun heq => hne ((hsame hr h1).trans heq.symm)
  · exact (hgrown hr fun heq => hne (heq.trans (hsame hr' h2).symm)).symm
  · exact hI.sep _ _ _ _ hr hr' hne

end

include hg hI hd ha

/-- The other directories keep their slots. -/
lemma Inv.append_slots_ne {d' : ℕ} (hd' : Reach (subOf g v) R d') (hne : d' ≠ d) :
    dirSlots g w d' = dirSlots g v d' :=
  hI.slots_off hg hd (hI.append_agree ha) hd' hne

variable (hs : EntrySlots es s)

include hs

/-- New slots that hold no object leave the objects in all directories. -/
lemma Inv.append_lost_sub (hl : n < es.length ∨ slotHead s = none) {x : ℕ}
    (hx : Reach (subOf g v) R x) : subOf g w x = subOf g v x := by
  by_cases hxd : x = d
  · subst hxd
    funext i
    rw [hI.append_sub hg hd ha hs]
    split_ifs with hc
    · have hnone : slotHead s = none := hl.resolve_left (by omega)
      rw [hnone, subOf]
      cases he : (dirSlots g v x)[i]? with
      | none => rfl
      | some e =>
        have hne := List.length_pos_iff.mpr hs.ne_nil
        have h0 := hI.tail x hx i e he (by omega)
        exact (slotHead_of_not_live (Slot.not_live_of_zero h0)).symm
    · rfl
  · exact subOf_congr (hI.append_slots_ne hg hd ha hx hxd)

/-- **New slots that hold no object** keep the invariant. -/
lemma Inv.append_lost (hl : n < es.length ∨ slotHead s = none) : Inv g w R := by
  have hiff : ∀ {loc h}, Ref (subOf g w) R loc h ↔ Ref (subOf g v) R loc h :=
    Ref.congr fun x hx => hI.append_lost_sub hg hd ha hs hl hx
  have hreach : ∀ x, Reach (subOf g w) R x ↔ Reach (subOf g v) R x :=
    fun x => exists_congr fun _ => hiff
  refine ⟨fun loc h hr => hI.append_isChain hg hd ha (hiff.mp hr), ?_, ?_, ?_⟩
  · exact (hI.append_separated hg hd ha).of_map id (fun _ _ hr => hiff.mp hr)
      (fun _ _ _ _ _ _ he => he) fun _ _ _ => rfl
  · intro d' hd'
    rw [hreach] at hd'
    by_cases hdd : d' = d
    · subst hdd
      exact hI.append_tail hg hd ha hs
    · exact (hI.tail d' hd').congr (hI.append_slots_ne hg hd ha hd' hdd)
  · intro d' hd'
    rw [hreach] at hd'
    by_cases hdd : d' = d
    · subst hdd
      exact hI.append_dots hg hd ha hs fun x hx => (hreach x).mpr hx
    · exact (hI.dots d' hd').mono (hI.append_slots_ne hg hd ha hd' hdd)
        fun x hx => (hreach x).mpr hx

end

section

variable {ext : List ℕ} {n : ℕ} {es : List Slot} {s : Slot}
variable (hg : g.Valid) (hI : Inv g v (R ++ [h])) (hd : Reach (subOf g v) R d)
variable (ha : Appended g v d (chainOf g v d) (endIndex (dirSlots g v d)) es w ext n)
variable (hs : EntrySlots es s) (hn : n = es.length) (hh : slotHead s = some h)

include hg hI hd ha hs hn hh

/-- A root put into a new slot. -/
lemma Inv.append_moved : Moved (subOf g w) (subOf g v) R d
    (endIndex (dirSlots g v d) + es.length - 1) h := by
  have hd' : Reach (subOf g v) (R ++ [h]) d := hd.append_roots [h]
  have hne := List.length_pos_iff.mpr hs.ne_nil
  refine Moved.of_root ?_ ?_ ?_ ?_
  · refine Reach.of_eq_off (fun x hx hxr => ?_) hd
    exact subOf_congr (hI.append_slots_ne hg hd' ha (hxr.append_roots [h]) hx)
  · rw [hI.append_sub hg hd' ha hs, if_pos ⟨hn, by omega⟩, hh]
  · rw [subOf]
    cases he : (dirSlots g v d)[endIndex (dirSlots g v d) + es.length - 1]? with
    | none => rfl
    | some e =>
      have h0 := hI.tail d hd' _ e he (by omega)
      exact slotHead_of_not_live (Slot.not_live_of_zero h0)
  · intro x i hx hxi
    by_cases hxd : x = d
    · subst hxd
      have hik := hxi.resolve_left (by simp)
      rw [hI.append_sub hg hd' ha hs, if_neg (by omega)]
    · rw [subOf_congr (hI.append_slots_ne hg hd' ha hx hxd)]

/-- **A root put into a new slot** keeps the invariant. -/
lemma Inv.append : Inv g w R := by
  have hm := hI.append_moved hg hd ha hs hn hh
  have hd' : Reach (subOf g v) (R ++ [h]) d := hd.append_roots [h]
  -- every object of the new volume was one of the old
  have hold : ∀ {loc h'}, Ref (subOf g w) R loc h' →
      ∃ loc', Ref (subOf g v) (R ++ [h]) loc' h' := by
    intro loc h' hr
    by_cases hloc : loc = .slot d (endIndex (dirSlots g v d) + es.length - 1)
    · subst hloc
      have heq := Option.some.inj (hr.sub_eq.symm.trans hm.held)
      exact ⟨_, hm.ref_iff.mpr (Or.inl ⟨rfl, heq⟩)⟩
    · exact ⟨loc, hm.ref_iff.mpr (Or.inr ⟨hloc, hr⟩)⟩
  refine ⟨?_, hm.separated_symm (hI.append_separated hg hd' ha), ?_, ?_⟩
  · intro loc h' hr
    obtain ⟨loc', hr'⟩ := hold hr
    exact hI.append_isChain hg hd' ha hr'
  · intro d₁ hd₁
    rw [← hm.reach_iff] at hd₁
    by_cases hdd : d₁ = d
    · subst hdd
      exact hI.append_tail hg hd' ha hs
    · exact (hI.tail d₁ hd₁).congr (hI.append_slots_ne hg hd' ha hd₁ hdd)
  · intro d₁ hd₁
    rw [← hm.reach_iff] at hd₁
    by_cases hdd : d₁ = d
    · subst hdd
      exact hI.append_dots hg hd' ha hs fun x hx => hm.reach_iff.mp hx
    · exact (hI.dots d₁ hd₁).mono (hI.append_slots_ne hg hd' ha hd₁ hdd)
        fun x hx => hm.reach_iff.mp hx

end

end

end GordOS.Fat32
