/-
Adding slots to a directory: what `dir_write_entries` does to the volume.

* `Vol.grow`: a zeroed cluster linked behind the last one of a chain;
* `Appended`: some slots of a directory overwritten by the first of the new ones,
  on a chain that may have grown by free clusters;
* `spec_dirWriteLoop`: the writing loop; it stops early only on a volume without
  free clusters;
* `spec_dirWriteEntries`, `spec_createEntry`: the new slots stand behind the last
  used one.
-/
import Mathlib.Data.List.GetD
import Mathlib.Tactic
import GordOS.Fat32.Removal

namespace GordOS.Fat32

open GordOS GordOS.Fallible

/-- A slot of zeros. -/
def zeroSlot : Slot := fun _ => 0

/-- The zeroed cluster `new` linked behind the cluster `c`. -/
def Vol.grow (v : Vol) (c new : ℕ) : Vol :=
  ((v.setNext new endMark).setNext c new).setData new zeroBuf

section

variable {g : Geom} {E : Env} {v : Vol}

/-! ### Buffers and slots -/

lemma mem_of_drop_eq_cons {L post : List ℕ} {q c : ℕ} (h : L.drop q = c :: post) : c ∈ L := by
  refine List.mem_of_mem_drop (i := q) ?_
  rw [h]
  exact List.mem_cons_self

/-- A cluster number fits into the 28 bits of a FAT entry. -/
lemma Geom.Valid.mod_eq (hg : g.Valid) {c : ℕ} (hc : g.InRange c) : c % 2 ^ 28 = c := by
  have := (hg.lt_eoc hc).2
  rw [eoc] at this
  omega

@[simp] lemma trim_zeroBuf : g.trim zeroBuf = zeroBuf := by
  funext i
  simp [Geom.trim, zeroBuf]

lemma Trimmed.trim_data (h : Trimmed g v) (c : ℕ) : g.trim (v.data c) = v.data c := by
  funext i
  rw [Geom.trim]
  split_ifs with hi
  · rfl
  · rw [h c i (by omega)]

lemma slotAt_trim (b : Buf) {i : ℕ} (hi : i < g.entriesPerCluster) :
    slotAt (g.trim b) i = slotAt b i := by
  funext j
  have hj := j.isLt
  have : 32 * i + (j : ℕ) < g.clusterBytes := by
    rw [Geom.entriesPerCluster] at hi
    omega
  simp [slotAt, Geom.trim, this]

lemma slotAt_setSlot (b : Buf) (i k : ℕ) (e : Slot) :
    slotAt (setSlot b i e) k = if k = i then e else slotAt b k := by
  funext j
  have hj := j.isLt
  by_cases hk : k = i
  · subst hk
    simp [slotAt, setSlot]
  · have h : ¬ (32 * i ≤ 32 * k + (j : ℕ) ∧ 32 * k + (j : ℕ) < 32 * i + 32) := by
      omega
    simp only [slotAt, setSlot, dif_neg h, if_neg hk]

lemma slotsOf_zeroBuf (n : ℕ) : slotsOf n zeroBuf = List.replicate n zeroSlot := by
  refine List.ext_getElem? fun j => ?_
  rcases Nat.lt_or_ge j n with hj | hj
  · rw [slotsOf_getElem? _ hj, List.getElem?_replicate, if_pos hj]
    rfl
  · rw [List.getElem?_eq_none (by simpa using hj), List.getElem?_eq_none (by simpa using hj)]

/-- Copying an entry to the buffer of one cluster sets one slot of the chain. -/
lemma slotsIn_setSlot {L post : List ℕ} (hL : L.Nodup) {q c i : ℕ} (b : Buf)
    (e : Slot) (hq : L.drop q = c :: post) (hi : i < g.entriesPerCluster) :
    slotsIn g (v.setData c (g.trim (setSlot b i e))) L = (slotsIn g (v.setData c (g.trim b)) L).set
          (q * g.entriesPerCluster + i) e := by
  have hqc : L[q]? = some c := by rw [← List.head?_drop, hq]; rfl
  obtain ⟨hql, hqg⟩ := List.getElem?_eq_some_iff.mp hqc
  have hpos : 0 < g.entriesPerCluster := by omega
  have hkl : q * g.entriesPerCluster + i < L.length * g.entriesPerCluster := by
    have := Nat.mul_le_mul_right g.entriesPerCluster (Nat.succ_le_of_lt hql)
    rw [Nat.succ_mul] at this
    omega
  refine List.ext_getElem? fun j => ?_
  rcases Nat.lt_or_ge j (L.length * g.entriesPerCluster) with hj | hj
  · rw [List.getElem?_set, slotsIn_getElem? hj, slotsIn_getElem? hj, slotsIn_length, if_pos hkl]
    have hj' : j / g.entriesPerCluster < L.length :=
      (Nat.div_lt_iff_lt_mul hpos).mpr hj
    have hlt : j % g.entriesPerCluster < g.entriesPerCluster := Nat.mod_lt _ hpos
    have hjd := Nat.div_add_mod j g.entriesPerCluster
    rw [Nat.mul_comm] at hjd
    rw [posIn, List.getD_eq_getElem _ _ hj']
    by_cases hc : L[j / g.entriesPerCluster] = c
    · -- a slot of the cluster written
      have hjq : j / g.entriesPerCluster = q := by
        rw [← hqg] at hc
        exact (List.Nodup.getElem_inj_iff hL).mp hc
      simp only [hc, Vol.setData_data_same]
      rw [slotAt_trim _ hlt, slotAt_trim _ hlt, slotAt_setSlot]
      rw [hjq] at hjd
      by_cases hji : j % g.entriesPerCluster = i
      · rw [if_pos hji, if_pos (by omega)]
      · rw [if_neg hji, if_neg (by omega)]
    · have hne : q * g.entriesPerCluster + i ≠ j := by
        intro h
        apply hc
        have : j / g.entriesPerCluster = q := by
          rw [← h, Nat.add_comm, Nat.add_mul_div_right _ _ hpos, Nat.div_eq_of_lt hi, Nat.zero_add]
        simp only [this, hqg]
      simp only [Vol.setData_data_ne _ _ _ _ hc, if_neg hne]
  · rw [List.getElem?_eq_none (by simpa using hj), List.getElem?_eq_none (by simpa using hj)]

/-! ### Growing a chain -/

lemma IsChain.drop {d q c : ℕ} {L post : List ℕ} (h : IsChain g v d L) (hq : L.drop q = c :: post) :
    IsChain g v c (c :: post) := Chain.drop h hq

@[simp] lemma Vol.grow_next_new {c new : ℕ} (h : c ≠ new) :
    (v.grow c new).next new = endMark := by
  simp [Vol.grow, Vol.setNext, Function.update, h.symm]

@[simp] lemma Vol.grow_next_last (c new : ℕ) : (v.grow c new).next c = new := by
  simp [Vol.grow, Vol.setNext]

lemma Vol.grow_next_ne {c new x : ℕ} (hc : x ≠ c) (hn : x ≠ new) :
    (v.grow c new).next x = v.next x := by
  simp [Vol.grow, Vol.setNext, Function.update, hc, hn]

@[simp] lemma Vol.grow_data_new (c new : ℕ) : (v.grow c new).data new = zeroBuf := by
  simp [Vol.grow]

lemma Vol.grow_data_ne {c new x : ℕ} (hn : x ≠ new) : (v.grow c new).data x = v.data x := by
  simp [Vol.grow, Vol.setData, Function.update, hn]

lemma IsChain.grow (hg : g.Valid) {d q c new : ℕ} {L : List ℕ} (h : IsChain g v d L)
    (hq : L.drop q = [c]) (hr : g.InRange new) (h0 : v.next new = 0) :
    IsChain g (v.grow c new) d (L ++ [new]) := by
  have hnew : new ∉ L := fun hm => h.next_ne_zero new hm h0
  have hsplit : L = L.take q ++ [c] := by rw [← hq, List.take_append_drop]
  have hcL : c ∈ L := by rw [hsplit]; simp
  have hcn : c ≠ new := fun hc => hnew (hc ▸ hcL)
  refine Chain.append h (d := new) (.last hr ?_) ?_ ?_
  · rw [Vol.grow_next_new hcn]
    decide
  · have : L.getLast (Chain.ne_nil h) = c := by
      have hne : L ≠ [] := Chain.ne_nil h
      rw [List.getLast_congr hne (by simp) hsplit]
      simp
    rw [this, Vol.grow_next_last]
  · intro x hx
    have hxL : x ∈ L := List.mem_of_mem_dropLast hx
    have hxc : x ≠ c := by
      rintro rfl
      have hnd := h.nodup hg
      rw [hsplit] at hnd hx
      rw [List.dropLast_concat] at hx
      rw [List.nodup_append] at hnd
      exact hnd.2.2 x hx x (by simp) rfl
    exact Vol.grow_next_ne hxc fun hxn => hnew (hxn ▸ hxL)

lemma slotsIn_grow {c new : ℕ} {L : List ℕ} (hn : new ∉ L) : slotsIn g (v.grow c new) (L ++ [new])
      = slotsIn g v L ++ List.replicate g.entriesPerCluster zeroSlot := by
  rw [slotsIn_append, slotsIn_cons, slotsIn_nil, List.append_nil, Vol.grow_data_new,
    slotsOf_zeroBuf]
  congr 1
  refine slotsIn_congr fun x hx => Vol.grow_data_ne fun h => hn (h ▸ hx)

/-! ### The writing loop -/

/-- The first `n` of the slots `es` written at index `k` of the directory `d` with
the chain `L`; the chain has grown by `ext`, free before. If some are missing, the
volume and the directory are full. -/
structure Appended (g : Geom) (v : Vol) (d : ℕ) (L : List ℕ) (k : ℕ)
    (es : List Slot) (v' : Vol) (ext : List ℕ) (n : ℕ) : Prop where
  le : n ≤ es.length
  fresh : ∀ x ∈ ext, g.InRange x ∧ v.next x = 0
  chain : IsChain g v' d (L ++ ext)
  next_eq : ∀ x, x ∉ L ++ ext → v'.next x = v.next x
  data_eq : ∀ x, x ∉ L ++ ext → v'.data x = v.data x
  slots : ∃ z, slotsIn g v' (L ++ ext)
    = (slotsIn g v L).take k ++ es.take n
      ++ ((slotsIn g v L).drop (k + n) ++ List.replicate z zeroSlot)
  full : n < es.length →
    firstFree g v' = none ∧ (L ++ ext).length * g.entriesPerCluster = k + n

/-- Nothing to write. -/
lemma Appended.nil {d k : ℕ} {L : List ℕ} {es : List Slot} (h : IsChain g v d L)
    (hf : 0 < es.length → firstFree g v = none ∧ L.length * g.entriesPerCluster = k) :
    Appended g v d L k es v [] 0 where
  le := Nat.zero_le _
  fresh := by simp
  chain := by simpa using h
  next_eq := fun _ _ => rfl
  data_eq := fun _ _ => rfl
  slots := ⟨0, by simp⟩
  full := by simpa using hf

/-- One slot set, and the others written behind it. -/
lemma Appended.cons {w v' : Vol} {d k n : ℕ} {L ext : List ℕ} {e : Slot} {es : List Slot}
    (h : Appended g w d L (k + 1) es v' ext n) (hk : k < L.length * g.entriesPerCluster)
    (hn : w.next = v.next) (hd : ∀ x ∉ L, w.data x = v.data x)
    (hs : slotsIn g w L = (slotsIn g v L).set k e) :
    Appended g v d L k (e :: es) v' ext (n + 1) where
  le := by simpa using h.le
  fresh := fun x hx => hn ▸ h.fresh x hx
  chain := h.chain
  next_eq := fun x hx => by rw [h.next_eq x hx, hn]
  data_eq := fun x hx => by
    rw [h.data_eq x hx, hd x fun hL => hx (List.mem_append_left _ hL)]
  slots := by
    obtain ⟨z, hz⟩ := h.slots
    have hlen : k < (slotsIn g v L).length := by simpa using hk
    have htake : ((slotsIn g v L).set k e).take (k + 1) = (slotsIn g v L).take k ++ [e] := by
      rw [List.take_add_one, List.getElem?_set_self hlen, List.take_set_of_le le_rfl]
      rfl
    have hdrop : ((slotsIn g v L).set k e).drop (k + 1 + n)
        = (slotsIn g v L).drop (k + (n + 1)) := by
      rw [List.drop_set_of_lt (by omega), show k + 1 + n = k + (n + 1) by omega]
    refine ⟨z, ?_⟩
    rw [hz, hs, htake, hdrop]
    simp
  full := fun hlt => by
    obtain ⟨h1, h2⟩ := h.full (by simpa using hlt)
    exact ⟨h1, by omega⟩

/-- The chain grown by one cluster, and the slots written from its start on. -/
lemma Appended.of_grow {v' : Vol} {d q c new n : ℕ} {L ext : List ℕ} {es : List Slot}
    (hL : IsChain g v d L) (hq : L.drop q = [c]) (hr : g.InRange new) (h0 : v.next new = 0)
    (h : Appended g (v.grow c new) d (L ++ [new]) (L.length * g.entriesPerCluster) es v' ext n) :
    Appended g v d L (L.length * g.entriesPerCluster) es v' (new :: ext) n := by
  have hnew : new ∉ L := fun hm => hL.next_ne_zero new hm h0
  have hsplit : L = L.take q ++ [c] := by rw [← hq, List.take_append_drop]
  have hcL : c ∈ L := by rw [hsplit]; simp
  have hcn : c ≠ new := fun hc => hnew (hc ▸ hcL)
  have hassoc : L ++ new :: ext = L ++ [new] ++ ext := by simp
  refine ⟨h.le, ?_, hassoc ▸ h.chain, ?_, ?_, ?_, ?_⟩
  · intro x hx
    rcases List.mem_cons.mp hx with rfl | hx
    · exact ⟨hr, h0⟩
    · obtain ⟨h1, h2⟩ := h.fresh x hx
      have hxn : x ≠ new := by
        rintro rfl
        rw [Vol.grow_next_new hcn] at h2
        exact absurd h2 (by decide)
      have hxc : x ≠ c := by
        rintro rfl
        rw [Vol.grow_next_last] at h2
        have := hr.1
        omega
      exact ⟨h1, by rw [← h2, Vol.grow_next_ne hxc hxn]⟩
  · intro x hx
    rw [hassoc] at hx
    rw [h.next_eq x hx]
    refine Vol.grow_next_ne ?_ ?_
    · rintro rfl
      exact hx (by simp [hcL])
    · rintro rfl
      exact hx (by simp)
  · intro x hx
    rw [hassoc] at hx
    rw [h.data_eq x hx]
    refine Vol.grow_data_ne ?_
    rintro rfl
    exact hx (by simp)
  · obtain ⟨z, hz⟩ := h.slots
    have hlen : (slotsIn g v L).length = L.length * g.entriesPerCluster :=
      slotsIn_length L
    refine ⟨(g.entriesPerCluster - n) + z, ?_⟩
    rw [hassoc, hz, slotsIn_grow hnew, ← hlen, List.take_left, List.take_length,
      List.drop_append, List.drop_of_length_le (by omega), Nat.add_sub_cancel_left,
      List.drop_replicate, List.nil_append, List.replicate_add, List.nil_append]
  · intro hlt
    obtain ⟨h1, h2⟩ := h.full hlt
    exact ⟨h1, by rw [hassoc]; exact h2⟩

/-- What an allocation behind a full directory does: no free cluster, or the
chain grown by one. -/
lemma det_alloc (hg : g.Valid) : VSpec g E (fatAllocCluster g) v fun r v' =>
      (r = some 0 ∧ v' = v ∧ firstFree g v = none) ∨
      ∃ new, r = some new ∧ g.InRange new ∧ v.next new = 0 ∧ v' = v.setNext new endMark := by
  cases hf : firstFree g v with
  | none => exact (det_fatAllocCluster_none hg hf).spec (Or.inl ⟨rfl, rfl, rfl⟩)
  | some c =>
    obtain ⟨h1, h2⟩ := firstFree_mem hf
    exact (det_fatAllocCluster_some hg hf).spec (Or.inr ⟨c, rfl, h1, h2, rfl⟩)

/-- The postcondition of the writing loop. -/
def AppendPost (g : Geom) (v : Vol) (d : ℕ) (L : List ℕ) (k : ℕ)
    (es : List Slot) (r : Option Unit) (v' : Vol) : Prop :=
  ∃ ext n, Appended g v d L k es v' ext n ∧ (r = none ↔ n < es.length)

/-- What the step to the next cluster does behind the cluster number `q`: it
fails on a full volume, goes on along the chain, or grows it. -/
def AdvancePost (g : Geom) (v : Vol) (L post : List ℕ) (q c : ℕ)
    (r : Option (ℕ × Buf)) (v' : Vol) : Prop :=
  (r = none ∧ v' = v ∧ post = [] ∧ firstFree g v = none) ∨
  (∃ c' t, r = some (c', v.data c') ∧ v' = v ∧ L.drop (q + 1) = c' :: t) ∨
  ∃ new, r = some (new, zeroBuf) ∧ v' = v.grow c new ∧ post = [] ∧
    g.InRange new ∧ v.next new = 0

lemma spec_dirAdvance (hg : g.Valid) {d q c : ℕ} {L post : List ℕ}
    (hL : IsChain g v d L) (hq : L.drop q = c :: post) :
    VSpec g E (dirAdvance g c) v (AdvancePost g v L post q c) := by
  have hc : g.InRange c := hL.inRange c (mem_of_drop_eq_cons hq)
  rw [dirAdvance]
  refine (det_fatNextCluster hc).bind ?_
  cases hL.drop hq with
  | last _ hs =>
    rw [if_pos (Or.inr hs)]
    refine (det_alloc hg).bind ?_ ?_
    · rintro new w (⟨h, rfl, hf⟩ | ⟨new', h, hr, h0, rfl⟩)
      · obtain rfl : new = 0 := by simpa using h
        rw [if_pos rfl]
        exact Spec.fail (Or.inl ⟨rfl, rfl, rfl, hf⟩)
      · obtain rfl : new = new' := by simpa using h
        have hn0 : new ≠ 0 := by
          have := hr.1
          omega
        rw [if_neg hn0]
        refine (det_fatSetCluster hg new hc).ignore.bind ?_
        refine (det_writeCluster hg zeroBuf hr).ignore.bind ?_
        rw [hg.mod_eq hr, trim_zeroBuf]
        exact Spec.pure (Or.inr (Or.inr ⟨new, rfl, rfl, rfl, hr, h0⟩))
    · rintro w (⟨h, -⟩ | ⟨_, h, -⟩) <;> cases h
  | cons _ hrest =>
    have hnR := hrest.head_ok
    obtain ⟨t, rfl⟩ := hrest.eq_cons
    have hnext := hg.lt_eoc hnR
    rw [if_neg (by omega)]
    refine (det_readCluster hg hnR).bind (Spec.pure (Or.inr (Or.inl ?_)))
    refine ⟨v.next c, t, rfl, rfl, ?_⟩
    rw [← List.tail_drop, hq, List.tail_cons]

lemma Vol.setData_self (c : ℕ) : v.setData c (v.data c) = v := by
  ext x i
  · rfl
  · simp [Vol.setData]

/-- The writing loop, with the buffer of the current cluster not yet written
back. -/
lemma spec_dirWriteLoop (hg : g.Valid) {d : ℕ} (es : List Slot) :
    ∀ (v : Vol) (L post : List ℕ) (q c i : ℕ) (b : Buf),
      IsChain g v d L → L.drop q = c :: post → i ≤ g.entriesPerCluster →
      VSpec g E (dirWriteLoop g es c b i) v (AppendPost g (v.setData c (g.trim b)) d L
          (q * g.entriesPerCluster + i) es) := by
  induction es with
  | nil =>
    intro v L post q c i b hL hq hi
    have hc : g.InRange c := hL.inRange c (mem_of_drop_eq_cons hq)
    rw [dirWriteLoop]
    refine (det_writeCluster hg b hc).spec ⟨[], 0, ?_, by simp⟩
    exact Appended.nil (hL.congr fun _ _ => rfl) (by simp)
  | cons e es ih =>
    -- the slot fits into the current cluster
    have put : ∀ (v : Vol) (L post : List ℕ) (q c i : ℕ) (b : Buf),
        IsChain g v d L → L.drop q = c :: post → i < g.entriesPerCluster →
        VSpec g E (dirWriteLoop g es c (setSlot b i e) (i + 1)) v
          (AppendPost g (v.setData c (g.trim b)) d L (q * g.entriesPerCluster + i) (e :: es)) := by
      intro v L post q c i b hL hq hi
      refine (ih v L post q c (i + 1) (setSlot b i e) hL hq hi).mono ?_
      rintro r v' ⟨ext, n, ha, hr⟩
      refine ⟨ext, n + 1, ?_, by simpa using hr⟩
      have hcL : c ∈ L := mem_of_drop_eq_cons hq
      have hql : q < L.length := by
        by_contra hge
        rw [List.drop_of_length_le (by omega)] at hq
        simp at hq
      refine Appended.cons ha ?_ rfl ?_ (slotsIn_setSlot (hL.nodup hg) b e hq hi)
      · have := Nat.mul_le_mul_right g.entriesPerCluster (Nat.succ_le_of_lt hql)
        rw [Nat.succ_mul] at this
        omega
      · intro x hx
        have hxc : x ≠ c := fun h => hx (h ▸ hcL)
        rw [Vol.setData_data_ne _ _ _ _ hxc, Vol.setData_data_ne _ _ _ _ hxc]
    intro v L post q c i b hL hq hi
    rcases Nat.lt_or_ge i g.entriesPerCluster with hlt | hge
    · rw [dirWriteLoop, if_neg (by omega)]
      exact put v L post q c i b hL hq hlt
    obtain rfl : i = g.entriesPerCluster := by omega
    have hpos := hg.entriesPerCluster_pos
    have hc : g.InRange c := hL.inRange c (mem_of_drop_eq_cons hq)
    set w := v.setData c (g.trim b) with hw
    have hwL : IsChain g w d L := hL.congr fun _ _ => rfl
    rw [dirWriteLoop, if_pos le_rfl, show q * g.entriesPerCluster
      + g.entriesPerCluster = (q + 1) * g.entriesPerCluster from (Nat.succ_mul _ _).symm]
    refine (det_writeCluster hg b hc).bind ?_
    rw [← hw]
    have hlast : post = [] → q + 1 = L.length := by
      rintro rfl
      have := congrArg List.length hq
      rw [List.length_drop, List.length_singleton] at this
      omega
    refine spec_of_trimmed fun ht => ?_
    refine (spec_dirAdvance hg hwL hq).bind ?_ ?_
    · rintro ⟨c', b'⟩ w' (⟨h, -⟩ | ⟨x, t, h, rfl, hqt⟩ | ⟨x, h, rfl, rfl, hr, h0⟩)
      · cases h
      · -- the next cluster of the chain
        simp only [Option.some.injEq, Prod.mk.injEq] at h
        obtain ⟨rfl, rfl⟩ := h
        have hput := put w L t (q + 1) c' 0 (w.data c') hwL hqt hpos
        rw [ht.trim_data, Nat.add_zero, Vol.setData_self] at hput
        exact hput
      · -- a new cluster
        simp only [Option.some.injEq, Prod.mk.injEq] at h
        obtain ⟨rfl, rfl⟩ := h
        have hput := put (w.grow c c') (L ++ [c']) [] L.length c' 0 zeroBuf
          (hwL.grow hg hq hr h0) (by simp) hpos
        have hsame : (w.grow c c').setData c' (g.trim zeroBuf) = w.grow c c' := by
          conv_rhs => rw [← Vol.setData_self (v := w.grow c c') c']
          rw [trim_zeroBuf, Vol.grow_data_new]
        rw [hsame, Nat.add_zero] at hput
        rw [hlast rfl]
        refine hput.mono ?_
        rintro r v' ⟨ext, n, ha, hr'⟩
        exact ⟨c' :: ext, n, ha.of_grow hwL hq hr h0, hr'⟩
    · rintro w' (⟨-, rfl, rfl, hf⟩ | ⟨_, _, h, -⟩ | ⟨_, h, -⟩)
      · refine ⟨[], 0, Appended.nil hwL fun _ => ⟨hf, ?_⟩, by simp⟩
        rw [hlast rfl]
      · cases h
      · cases h

/-! ### The end of the directory -/

/-- The index where new slots go: the first `0x00` slot, or behind all slots. -/
def endIndex (ss : List Slot) : ℕ := (firstZero ss).getD ss.length

/-- Where the search for a `0x00` slot in the clusters `l` from number `q` of `L`
on ends. -/
def startAt (g : Geom) (v : Vol) (L l : List ℕ) (q : ℕ) : ℕ ⊕ ℕ × ℕ :=
  match firstZero (slotsIn g v l) with
  | some k => .inr (posIn g L (q * g.entriesPerCluster + k))
  | none => .inl (l.getLastD 0)

lemma firstZero_append (a b : List Slot) : firstZero (a ++ b)
      = (firstZero a).or ((firstZero b).map (· + a.length)) := by
  simp only [firstZero]
  exact List.findIdx?_append

lemma dirFindStart_det (hg : g.Valid) (L : List ℕ) {c : ℕ} {l : List ℕ} (h : IsChain g v c l) :
    ∀ (n q prev : ℕ), l.length ≤ n → L.drop q = l →
      VDet g E (dirFindStart g n c prev) v (startAt g v L l q) v := by
  have step : ∀ {c n q prev : ℕ} {cs : List ℕ}, g.InRange c → L.drop q = c :: cs →
      (firstZero (slotsOf g.entriesPerCluster (v.data c)) = none →
        VDet g E (dirFindStart g n (v.next c) c) v (startAt g v L (c :: cs) q) v) →
      VDet g E (dirFindStart g (n + 1) c prev) v (startAt g v L (c :: cs) q) v := by
    intro c n q prev cs hc hq hrest
    rw [dirFindStart, if_pos (hg.lt_eoc hc)]
    refine (det_readCluster hg hc).attempt.bind ?_
    dsimp only
    cases hz : firstZero (slotsOf g.entriesPerCluster (v.data c)) with
    | none => exact (det_fatNextCluster hc).bind (hrest hz)
    | some i =>
      have hi : i < g.entriesPerCluster := by
        have := (List.findIdx?_eq_some_iff_getElem.mp hz).1
        simpa using this
      have hqc : L.getD q 0 = c := by
        rw [List.getD_eq_getElem?_getD, ← List.head?_drop, hq]
        rfl
      rw [startAt, slotsIn_cons, firstZero_append, hz, Option.some_or]
      simp only [posIn_mul_add hi, hqc]
      exact Det.pure _
  induction h with
  | @last c hc hs =>
    intro n q prev hn hq
    obtain ⟨n, rfl⟩ : ∃ m, n = m + 1 := ⟨n - 1, by simp at hn; omega⟩
    refine step hc hq fun hz => ?_
    have hval : startAt g v L [c] q = .inl c := by
      rw [startAt, slotsIn_cons, slotsIn_nil, List.append_nil, hz]
      rfl
    rw [hval]
    cases n with
    | zero => exact Det.pure _
    | succ n =>
      rw [dirFindStart, if_neg (by omega)]
      exact Det.pure _
  | @cons c l hc h ih =>
    intro n q prev hn hq
    obtain ⟨n, rfl⟩ : ∃ m, n = m + 1 := ⟨n - 1, by simp at hn; omega⟩
    refine step hc hq fun hz => ?_
    have hval : startAt g v L (c :: l) q = startAt g v L l (q + 1) := by
      obtain ⟨t, rfl⟩ := h.eq_cons
      simp only [startAt, slotsIn_cons c, firstZero_append, hz, Option.none_or]
      cases firstZero (slotsIn g v (v.next c :: t)) with
      | none => rfl
      | some k =>
        simp only [Option.map_some, slotsOf_length]
        congr 2
        rw [Nat.succ_mul]
        omega
    rw [hval]
    refine ih n (q + 1) c (by simpa using hn) ?_
    rw [← List.tail_drop, hq, List.tail_cons]

/-- What `dir_write_entries` does to the directory `d` with the chain `L`: an
early failure for lack of memory, or the new slots at its end. -/
def EntriesPost (g : Geom) (E : Env) (v : Vol) (d : ℕ) (L : List ℕ)
    (es : List Slot) (r : Option Unit) (v' : Vol) : Prop :=
  (r = none ∧ v' = v ∧ ¬ E.memOk) ∨
  AppendPost g v d L (endIndex (slotsIn g v L)) es r v'

/-- **New slots** go to the end of a directory. -/
theorem spec_dirWriteEntries (hg : g.Valid) {d : ℕ} {L : List ℕ} {es : List Slot}
    (hL : IsChain g v d L) (hes : es ≠ []) :
    VSpec g E (dirWriteEntries g d es) v (EntriesPost g E v d L es) := by
  have hpos := hg.entriesPerCluster_pos
  rw [dirWriteEntries, if_neg (by simpa using hes)]
  refine spec_kmalloc.bind ?_ fun v' h => Or.inl ⟨rfl, h.1, fun hm => ?_⟩
  swap
  · exact absurd (h.2 hm) (by simp)
  rintro - v' ⟨rfl, -⟩
  refine spec_of_trimmed fun ht => ?_
  have hstart := dirFindStart_det (E := E) hg L hL g.maxChainLength 0 0 (hL.length_le hg) rfl
  refine hstart.bind ?_
  have hlen : (slotsIn g v' L).length = L.length * g.entriesPerCluster :=
    slotsIn_length L
  cases hz : firstZero (slotsIn g v' L) with
  | some k =>
    -- a `0x00` slot: the writing starts there
    have hk : k < L.length * g.entriesPerCluster := by
      have := (List.findIdx?_eq_some_iff_getElem.mp hz).1
      omega
    have hk' : k / g.entriesPerCluster < L.length :=
      (Nat.div_lt_iff_lt_mul hpos).mpr hk
    have hdrop := List.drop_eq_getElem_cons hk'
    rw [startAt, hz]
    simp only [Nat.zero_mul, Nat.zero_add, posIn, List.getD_eq_getElem _ _ hk']
    have hc := hL.inRange _ (List.getElem_mem hk')
    refine (det_readCluster hg hc).bind ?_
    have hloop := spec_dirWriteLoop (E := E) hg es v' L _ _ _
      (k % g.entriesPerCluster) (v'.data L[k / g.entriesPerCluster]) hL hdrop
      (Nat.mod_lt _ hpos).le
    rw [ht.trim_data, Vol.setData_self, Nat.mul_comm, Nat.div_add_mod] at hloop
    refine hloop.mono fun r w h => Or.inr ?_
    rw [endIndex, hz]
    exact h
  | none =>
    -- a full directory grows before the loop starts
    obtain ⟨pre, c, rfl⟩ : ∃ pre c, L = pre ++ [c] :=
      ⟨L.dropLast, L.getLast (Chain.ne_nil hL),
        (List.dropLast_append_getLast (Chain.ne_nil hL)).symm⟩
    have hq : (pre ++ [c]).drop pre.length = [c] := by simp
    have hcL : c ∈ pre ++ [c] := by simp
    have hc := hL.inRange c hcL
    have hend : endIndex (slotsIn g v' (pre ++ [c]))
        = (pre ++ [c]).length * g.entriesPerCluster := by
      rw [endIndex, hz, Option.getD_none, hlen]
    rw [startAt, hz]
    simp only [List.getLastD_concat]
    have hgrow : VSpec g E (dirGrow g c) v' fun r w =>
        (r = none ∧ w = v' ∧ firstFree g v' = none) ∨
        ∃ new, r = some new ∧ g.InRange new ∧ v'.next new = 0 ∧ w = v'.grow c new := by
      rw [dirGrow]
      refine (det_alloc hg).bind ?_ ?_
      · rintro new w (⟨h, rfl, hf⟩ | ⟨new', h, hr, h0, rfl⟩)
        · obtain rfl : new = 0 := by simpa using h
          rw [if_pos rfl]
          exact Spec.fail (Or.inl ⟨rfl, rfl, hf⟩)
        · obtain rfl : new = new' := by simpa using h
          have hn0 : new ≠ 0 := by
            have := hr.1
            omega
          have hc0 : c ≠ 0 := by
            have := hc.1
            omega
          rw [if_neg hn0]
          refine (det_writeCluster hg zeroBuf hr).ignore.bind ?_
          rw [if_pos hc0]
          refine (det_fatSetCluster hg new hc).ignore.bind ?_
          rw [hg.mod_eq hr, trim_zeroBuf]
          exact Spec.pure (Or.inr ⟨new, rfl, hr, h0, rfl⟩)
      · rintro w (⟨h, -⟩ | ⟨_, h, -⟩) <;> cases h
    refine hgrow.bind ?_ ?_
    · rintro new w (⟨h, -⟩ | ⟨new', h, hr, h0, rfl⟩)
      · cases h
      · obtain rfl : new = new' := by simpa using h
        have hchain := hL.grow hg hq hr h0
        refine (det_readCluster hg hr).bind ?_
        rw [Vol.grow_data_new]
        have hloop := spec_dirWriteLoop (E := E) hg es (v'.grow c new) _ []
          (pre ++ [c]).length new 0 zeroBuf hchain (by simp) (Nat.zero_le _)
        have hsame : (v'.grow c new).setData new (g.trim zeroBuf) = v'.grow c new := by
          conv_rhs => rw [← Vol.setData_self (v := v'.grow c new) new]
          rw [trim_zeroBuf, Vol.grow_data_new]
        rw [hsame, Nat.add_zero] at hloop
        refine hloop.mono ?_
        rintro r w ⟨ext, n, ha, hr'⟩
        refine Or.inr ⟨new :: ext, n, ?_, hr'⟩
        rw [hend]
        exact ha.of_grow hL hq hr h0
    · rintro w (⟨-, rfl, hf⟩ | ⟨_, h, -⟩)
      · refine Or.inr ⟨[], 0, ?_, by simpa [List.length_pos_iff] using hes⟩
        rw [hend]
        exact Appended.nil hL fun _ => ⟨hf, rfl⟩
      · cases h

end

end GordOS.Fat32
