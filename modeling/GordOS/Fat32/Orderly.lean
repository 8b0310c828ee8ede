/-
Well-formed directories.

* `Complete`, `Orderly`: every run of LFN slots is complete and stands directly before its
  short entry, and only zeros stand behind the first `0x00` slot;
* `Orderly.headed`: every long name has its start then;
* `Orderly.grown`, `Orderly.killAt`: **new entries and removals keep directories well
  formed**, the latter as long as no run is longer than the driver tracks;
* `listing`: what `fat32_list_dir` reads;
* `listing_create_delete`: **a new entry is appended, a deleted one is taken out, and all
  others stay**; `long_run_leaves_orphan`.
-/
import Mathlib.Tactic
import GordOS.Fat32.DirNames
import GordOS.Fat32.Overwrite

namespace GordOS.Fat32

open GordOS GordOS.Fallible

/-! ### Runs of LFN slots -/

/-- The run holds the slots of one long name, the last part first, and belongs to the short
entry `e`; it has at most `m` slots. -/
structure Complete (m : ℕ) (run : List Slot) (e : Slot) : Prop where
  length_le : run.length ≤ m
  seq : ∀ p ∈ run.zipIdx, (p.1 0).toNat = run.length - p.2 + if p.2 = 0 then 0x40 else 0
  chk : ∀ b ∈ run, b 13 = sfnChecksum e.sfn

instance (m : ℕ) (run : List Slot) (e : Slot) : Decidable (Complete m run e) :=
  decidable_of_iff
    (run.length ≤ m ∧
      (∀ p ∈ run.zipIdx, (p.1 0).toNat = run.length - p.2 + if p.2 = 0 then 0x40 else 0) ∧
      ∀ b ∈ run, b 13 = sfnChecksum e.sfn)
    ⟨fun h => ⟨h.1, h.2.1, h.2.2⟩, fun h => ⟨h.length_le, h.seq, h.chk⟩⟩

/-- The slots of a well-formed directory. -/
structure Orderly (m : ℕ) (ss : List Slot) : Prop where
  slot : ∀ p ∈ ss.zipIdx, p.2 < endIndex ss →
    if p.1.live then Complete m (runOf ss p.2) p.1
    else p.1.isLfn = true ∨ runOf ss p.2 = []
  last : runOf ss (endIndex ss) = []
  zero : ∀ e ∈ ss.drop (endIndex ss), e = zeroSlot

instance (m : ℕ) (ss : List Slot) : Decidable (Orderly m ss) :=
  decidable_of_iff
    ((∀ p ∈ ss.zipIdx, p.2 < endIndex ss →
        if p.1.live then Complete m (runOf ss p.2) p.1
        else p.1.isLfn = true ∨ runOf ss p.2 = []) ∧
      runOf ss (endIndex ss) = [] ∧ ∀ e ∈ ss.drop (endIndex ss), e = zeroSlot)
    ⟨fun h => ⟨h.1, h.2.1, h.2.2⟩, fun h => ⟨h.slot, h.last, h.zero⟩⟩

section

variable {m k : ℕ} {ss ss' : List Slot} {e : Slot}

lemma Orderly.complete (ho : Orderly m ss) (he : ss[k]? = some e) (hk : k < endIndex ss)
    (hl : e.live = true) : Complete m (runOf ss k) e := by
  have h := ho.slot (e, k) (List.mem_zipIdx_iff_getElem?.mpr he) hk
  rwa [if_pos hl] at h

lemma Orderly.alone (ho : Orderly m ss) (he : ss[k]? = some e) (hk : k < endIndex ss)
    (hl : e.live = false) (hlfn : e.isLfn = false) : runOf ss k = [] := by
  have h := ho.slot (e, k) (List.mem_zipIdx_iff_getElem?.mpr he) hk
  rw [if_neg (by simp [hl])] at h
  exact h.resolve_left (by simp [hlfn])

lemma Orderly.tail (ho : Orderly m ss) (he : ss[k]? = some e) (hk : endIndex ss ≤ k) :
    e = zeroSlot := by
  refine ho.zero e (List.mem_of_getElem? (i := k - endIndex ss) ?_)
  rw [List.getElem?_drop, Nat.add_sub_cancel' hk, he]

/-- The directory as statements about its slots. -/
lemma orderly_of_slots (hcomplete : ∀ k e, ss[k]? = some e → k < endIndex ss → e.live = true →
      Complete m (runOf ss k) e)
    (halone : ∀ k e, ss[k]? = some e → k < endIndex ss → e.live = false → e.isLfn = false →
      runOf ss k = [])
    (hlast : runOf ss (endIndex ss) = [])
    (hzero : ∀ k e, ss[k]? = some e → endIndex ss ≤ k → e = zeroSlot) : Orderly m ss where
  slot := by
    rintro ⟨e, k⟩ hp hk
    have he := List.mem_zipIdx_iff_getElem?.mp hp
    split_ifs with hl
    · exact hcomplete k e he hk hl
    · cases hlfn : e.isLfn with
      | true => exact .inl rfl
      | false => exact .inr (halone k e he hk (Bool.eq_false_of_not_eq_true hl) hlfn)
  last := hlast
  zero := by
    intro e he
    obtain ⟨j, hj⟩ := List.mem_iff_getElem?.mp he
    rw [List.getElem?_drop] at hj
    exact hzero _ e hj (Nat.le_add_right _ _)

/-- The first slot of a complete run is marked as the start of a long name. -/
lemma Complete.isFirst {run : List Slot} (hc : Complete m run e) (hm : m ≤ 63) {b : Slot}
    (hb : run.head? = some b) : b.isFirst = true := by
  have hseq := hc.seq (b, 0) (List.mem_zipIdx_iff_getElem?.mpr (by rwa [← List.head?_eq_getElem?]))
  have hle := hc.length_le
  have hbits : ∀ n ≤ 63, UInt8.ofNat (n + 0x40) &&& 0x40 != 0 := by decide
  rw [Slot.isFirst, ← UInt8.ofNat_toNat (x := b 0), hseq, if_pos rfl]
  exact hbits _ (by omega)

/-- Every entry of a well-formed directory stands behind a run with its start. -/
lemma Orderly.headed (ho : Orderly m ss) (hm : m ≤ 63) : Headed ss := by
  intro k e he hl
  rcases Nat.lt_or_ge k (endIndex ss) with hk | hk
  · rw [headedAt, Option.all_eq_true]
    exact fun b hb => (ho.complete he hk hl).isFirst hm hb
  · rw [ho.tail he hk] at hl
    exact absurd hl (by decide)

/-! ### New entries -/

/-- The LFN slots of a new entry are complete. -/
lemma complete_writeLfnEntries {name : Name} (hp : IsPath name) (c z : ℕ) (a : UInt8) :
    Complete maxLfnTrack (writeLfnEntries name (sfnChecksum (newSfn name)) (lfnEntriesNeeded name))
      (sfnSlot (newSfn name) c z a) := by
  have hle : lfnEntriesNeeded name ≤ 20 := lfnEntriesNeeded_le hp.2
  have hlen : (writeLfnEntries name (sfnChecksum (newSfn name)) (lfnEntriesNeeded name)).length
      = lfnEntriesNeeded name := by
    rw [writeLfnEntries, List.length_map, List.length_range]
  refine ⟨hlen.trans_le hle, ?_, ?_⟩
  · rintro ⟨b, i⟩ hb
    have hb' : (writeLfnEntries _ _ _)[i]? = some b := List.mem_zipIdx_iff_getElem?.mp hb
    rw [writeLfnEntries, List.getElem?_map, Option.map_eq_some_iff] at hb'
    obtain ⟨j, hj, rfl⟩ := hb'
    obtain ⟨hlt, hij⟩ := List.getElem?_eq_some_iff.mp hj
    rw [List.length_range] at hlt
    rw [List.getElem_range] at hij
    subst hij
    rw [hlen]
    dsimp only
    rw [lfnSlot_zero]
    have hfirst : ∀ n ≤ 20, (UInt8.ofNat n ||| 0x40).toNat = n + 0x40 := by decide
    have hrest : ∀ n ≤ 20, (UInt8.ofNat n).toNat = n := by decide
    by_cases hi : i = 0
    · rw [if_pos (by omega), if_pos hi, hfirst _ (by omega)]
    · rw [if_neg (by omega), if_neg hi, hrest _ (by omega), Nat.add_zero]
  · intro b hb
    obtain ⟨i, -, rfl⟩ := List.mem_map.mp hb
    rw [sfnSlot_sfn _ _ _ (newSfn_length hp.1)]
    rfl

/-- **A new entry** keeps a directory well formed. -/
theorem Orderly.grown {es : List Slot} (ho : Orderly m ss) (hs : EntrySlots es e)
    (hG : Grown ss es es.length ss') (hl : e.live = true) (hc : Complete m es.dropLast e)
    (hzero : ∀ k e', ss'[k]? = some e' → endIndex ss + es.length ≤ k → e' = zeroSlot) :
    Orderly m ss' := by
  have hpos : 0 < es.length := List.length_pos_iff.mpr hs.ne_nil
  have hend := hG.endIndex_eq hs
  have hnl : e.isLfn = false := by
    by_contra h
    rw [Slot.not_live_of_isLfn (Bool.eq_true_of_not_eq_false h)] at hl
    cases hl
  have hold : ∀ k < endIndex ss, runOf ss' k = runOf ss k := fun k hk =>
    runOf_prefix fun j hj => hG.lt j (by omega)
  -- a slot among the new ones is an LFN slot or the short entry
  have hnew : ∀ i e', i < es.length → ss'[endIndex ss + i]? = some e' →
      e'.isLfn = true ∨ i = es.length - 1 ∧ e' = e := by
    intro i e' hi he'
    rw [hG.mid i hi] at he'
    rcases Nat.lt_or_ge (i + 1) es.length with hlt | hge
    · refine .inl (hs.lfn e' (List.mem_of_getElem? (i := i) ?_))
      rwa [List.getElem?_dropLast, if_pos (by omega)]
    · obtain rfl : i = es.length - 1 := by omega
      rw [← List.getLast?_eq_getElem?, hs.last, Option.some.injEq] at he'
      exact .inr ⟨rfl, he'.symm⟩
  refine orderly_of_slots ?_ ?_ ?_ fun k e' he' hk => hzero k e' he' (hend ▸ hk)
  · intro k e' he' hk hl'
    rcases Nat.lt_or_ge k (endIndex ss) with hlt | hge
    · rw [hold k hlt]
      exact ho.complete ((hG.lt k hlt).symm.trans he') hlt hl'
    · obtain ⟨i, rfl⟩ := Nat.exists_eq_add_of_le hge
      rcases hnew i e' (by omega) he' with hlfn | ⟨rfl, rfl⟩
      · rw [Slot.not_live_of_isLfn hlfn] at hl'
        cases hl'
      · rw [hG.runOf_mid hs (by omega) (by omega), ho.last, List.nil_append,
          ← List.dropLast_eq_take]
        exact hc
  · intro k e' he' hk hl' hlfn'
    rcases Nat.lt_or_ge k (endIndex ss) with hlt | hge
    · rw [hold k hlt]
      exact ho.alone ((hG.lt k hlt).symm.trans he') hlt hl' hlfn'
    · obtain ⟨i, rfl⟩ := Nat.exists_eq_add_of_le hge
      rcases hnew i e' (by omega) he' with hlfn | ⟨rfl, rfl⟩
      · rw [hlfn] at hlfn'
        cases hlfn'
      · rw [hl] at hl'
        cases hl'
  · have hlast : ss'[endIndex ss + (es.length - 1)]? = some e := by
      rw [hG.mid _ (by omega), ← List.getLast?_eq_getElem?, hs.last]
    rw [hend, show endIndex ss + es.length = endIndex ss + (es.length - 1) + 1 by omega,
      runOf_succ hlast, hnl]
    rfl

/-! ### Removals -/

/-- Before the start of a run there is no other one. -/
lemma runOf_start (hk : k ≤ ss.length) : runOf ss (k - runBefore ss k) = [] := by
  induction k with
  | zero => exact runOf_zero ss
  | succ k ih =>
    have he : ss[k]? = some ss[k] := List.getElem?_eq_getElem (by omega)
    rw [runBefore_succ he]
    cases hl : ss[k].isLfn with
    | true =>
      rw [if_pos rfl, Nat.add_sub_add_right]
      exact ih (by omega)
    | false => rw [if_neg Bool.false_ne_true, Nat.sub_zero, runOf_succ he, hl, if_neg Bool.false_ne_true]

section

variable {E : Env} {K : List ℕ}

/-- With memory, and if all of the run is tracked, the run and the entry are marked. -/
lemma Marks.mem_iff (hM : Marks E ss k K) (hmem : E.memOk) (hle : runBefore ss k ≤ maxLfnTrack)
    {j : ℕ} : j ∈ K ↔ k - runBefore ss k ≤ j ∧ j ≤ k := by
  have hrun := runBefore_le ss k
  refine ⟨fun hj => ⟨hM.ge hj, hM.le j hj⟩, fun ⟨h1, h2⟩ => ?_⟩
  rcases Nat.eq_or_lt_of_le h2 with rfl | hlt
  · exact hM.self
  · refine hM.all hmem j ?_
    rw [runIndices, Nat.min_eq_left hle, List.mem_range'_1]
    omega

/-- **The removal of an entry** keeps a directory well formed: no slot of its run is left. -/
theorem Orderly.killAt (ho : Orderly m ss) (hm : m ≤ maxLfnTrack) (hM : Marks E ss k K)
    (hmem : E.memOk) (hk : ss[k]? = some e) (hl : e.live = true) (hlt : k < endIndex ss) :
    Orderly m (killAt K ss) := by
  have hlen := endIndex_le_length ss
  have hrun : runBefore ss k ≤ maxLfnTrack := by
    have := (ho.complete hk hlt hl).length_le
    rw [runOf_length] at this
    omega
  have hiff : ∀ {j}, j ∈ K ↔ k - runBefore ss k ≤ j ∧ j ≤ k := hM.mem_iff hmem hrun
  have hend : endIndex (Fat32.killAt K ss) = endIndex ss := endIndex_killAt hM hlt
  -- a marked slot has no run before it
  have hgone : ∀ j ∈ K, runOf (Fat32.killAt K ss) j = [] := by
    intro j hj
    obtain ⟨h1, h2⟩ := hiff.mp hj
    rcases Nat.eq_or_lt_of_le h1 with rfl | h1
    · rw [runOf_killAt hM hk hl (by omega) (.inl le_rfl)]
      exact runOf_start (by omega)
    · obtain ⟨i, rfl⟩ : ∃ i, j = i + 1 := ⟨j - 1, by omega⟩
      have hi : ss[i]? = some ss[i] := List.getElem?_eq_getElem (by omega)
      have hdead : (Fat32.killAt K ss)[i]? = some ss[i].dead := by
        rw [killAt_getElem?, hi, Option.map_some, if_pos (hiff.mpr ⟨by omega, by omega⟩)]
      rw [runOf_succ hdead, Slot.dead_isLfn]
      rfl
  have hkept : ∀ j e', j ∉ K → (Fat32.killAt K ss)[j]? = some e' → ss[j]? = some e' ∧
      runOf (Fat32.killAt K ss) j = runOf ss j := by
    intro j e' hj he'
    have hjs : ss[j]? = some e' := by
      rw [killAt_getElem?] at he'
      simpa [hj] using he'
    have hjl := (List.getElem?_eq_some_iff.mp hjs).1
    have hout : ¬ (k - runBefore ss k ≤ j ∧ j ≤ k) := fun h => hj (hiff.mpr h)
    exact ⟨hjs, runOf_killAt hM hk hl hjl.le (by omega)⟩
  have hdead : ∀ j e', j ∈ K → (Fat32.killAt K ss)[j]? = some e' → e'.live = false := by
    intro j e' hj he'
    rw [killAt_getElem?] at he'
    obtain ⟨b, -, rfl⟩ := Option.map_eq_some_iff.mp he'
    rw [if_pos hj]
    exact b.dead_live
  refine orderly_of_slots ?_ ?_ ?_ ?_
  · intro j e' he' hj hl'
    have hjK : j ∉ K := fun h => by
      rw [hdead j e' h he'] at hl'
      cases hl'
    obtain ⟨hjs, hr⟩ := hkept j e' hjK he'
    rw [hr]
    exact ho.complete hjs (hend ▸ hj) hl'
  · intro j e' he' hj hl' hlfn
    by_cases hjK : j ∈ K
    · exact hgone j hjK
    · obtain ⟨hjs, hr⟩ := hkept j e' hjK he'
      rw [hr]
      exact ho.alone hjs (hend ▸ hj) hl' hlfn
  · rw [hend, runOf_killAt hM hk hl hlen (.inr hlt)]
    exact ho.last
  · intro j e' he' hj
    rw [hend] at hj
    have hjK : j ∉ K := fun h => by
      have := (hiff.mp h).2
      omega
    exact ho.tail (hkept j e' hjK he').1 hj

end

end

/-! ### Creating and deleting entries -/

/-- What `fat32_list_dir` reads of a directory: the name shown, the attribute, the first
cluster and the size of each entry. -/
def listing (g : Geom) (v : Vol) (d : ℕ) : List (Name × UInt8 × ℕ × ℕ) :=
  (entries g v d).map fun en => (en.display, en.slot.attr, en.slot.cluster, en.slot.size)

lemma decode_idx_nodup (ss : List Slot) : ((decode ss).map Entry.idx).Nodup := by
  rw [decode_eq, List.map_filterMap]
  refine List.nodup_range.filterMap fun i j k hi hj => ?_
  obtain ⟨a, ha, rfl⟩ := Option.map_eq_some_iff.mp hi
  obtain ⟨b, hb, hab⟩ := Option.map_eq_some_iff.mp hj
  rw [← (slotEntry_idx ha).1, ← (slotEntry_idx hb).1, hab]

/-- Taking out an entry by its index. -/
lemma filter_idx {l₁ l₂ : List Entry} {en : Entry} (hn : ((l₁ ++ en :: l₂).map Entry.idx).Nodup) :
    (l₁ ++ en :: l₂).filter (fun x => x.idx != en.idx) = l₁ ++ l₂ := by
  rw [List.map_append, List.map_cons, List.nodup_append] at hn
  obtain ⟨-, hn₂, hdis⟩ := hn
  have h₁ : l₁.filter (fun x => x.idx != en.idx) = l₁ := List.filter_eq_self.mpr fun x hx => by
    have := hdis _ (List.mem_map_of_mem hx) en.idx List.mem_cons_self
    simpa using this
  have h₂ : l₂.filter (fun x => x.idx != en.idx) = l₂ := List.filter_eq_self.mpr fun x hx => by
    have : x.idx ≠ en.idx := fun h =>
      (List.nodup_cons.mp hn₂).1 (h ▸ List.mem_map_of_mem hx)
    simpa using this
  rw [List.filter_append, h₁, List.filter_cons_of_neg (by simp), h₂]

section

variable {g : Geom} {E : Env} {v w : Vol} {d : ℕ} {name : Name} {c z : ℕ} {a : UInt8}

/-- The creation of an entry in a well-formed directory. -/
lemma Created.listing_eq (hg : g.Valid) (ho : Orderly maxLfnTrack (dirSlots g v d))
    (hp : IsPath name) (hl : (sfnSlot (newSfn name) c z a).live = true) (hc : c < 2 ^ 32)
    (hz : z < 2 ^ 32) (h : Created g E v d name c z a (some ()) w) :
    listing g w d = listing g v d ++ [(shownName name, a, c, z)] ∧
      Orderly maxLfnTrack (dirSlots g w d) := by
  have hs := entrySlots_spec hp c z a
  rcases h with ⟨h, -⟩ | ⟨ext, n, ha, hr⟩
  · cases h
  · obtain rfl : n = (entrySlots name c z a).length := by
      have h1 : ¬ n < (entrySlots name c z a).length := by simp [← hr]
      have h2 := ha.le
      omega
    have hzero : ∀ k e', (dirSlots g w d)[k]? = some e' →
        endIndex (dirSlots g v d) + (entrySlots name c z a).length ≤ k → e' = zeroSlot :=
      fun k e' he' hk => append_slot_tail hg ha (P := fun e => e = zeroSlot) rfl
        (fun i e hi he => ho.tail he hi) hk he'
    have hG : Grown (dirSlots g v d) (entrySlots name c z a) (entrySlots name c z a).length
        (dirSlots g w d) :=
      ⟨ha.le, fun _ hi => append_slot_lt hg ha hi, fun _ hi => append_slot_mid hg ha hi,
        fun k e' hk he' => by rw [hzero k e' he' hk]; rfl⟩
    obtain ⟨en, hen, hslot, -⟩ := hG.new_entry hp rfl hl
    refine ⟨?_, ho.grown hs hG hl ?_ hzero⟩
    · rw [listing, entries, hG.decode_eq hs, if_pos rfl, hen, Option.toList_some, List.map_append,
        List.map_singleton, hG.shown hp (fun _ => ho.last) rfl hen, hslot, sfnSlot_attr,
        sfnSlot_cluster _ _ _ _ hc, sfnSlot_size _ _ _ _ hz]
      rfl
    · rw [entrySlots, List.dropLast_concat]
      exact complete_writeLfnEntries hp c z a

/-- The removal of a file from a well-formed directory. -/
lemma DeleteEff.listing_eq {R : List (Head ℕ)} (hg : g.Valid) (hI : Inv g v R)
    (hroot : Reach (subOf g v) R g.rootCluster) (hcwd : Reach (subOf g v) R E.cwd)
    (hmem : E.memOk) {path : Name} (hres : resolve g v E.cwd path = some (d, name))
    (ho : Orderly maxLfnTrack (dirSlots g v d)) (he : DeleteEff g E v path (some ()) w) :
    (∃ l₁ en l₂, entries g v d = l₁ ++ en :: l₂ ∧
      (∀ x ∈ l₁, x.wanted acceptFile name = false) ∧ en.wanted acceptFile name = true ∧
      entries g w d = l₁ ++ l₂) ∧ Orderly maxLfnTrack (dirSlots g w d) := by
  cases he with
  | @delete d' name' en _ hres' hf hc =>
    rw [hres, Option.some.injEq, Prod.mk.injEq] at hres'
    obtain ⟨rfl, rfl⟩ := hres'
    have hd := hI.resolve_reach hroot hcwd hres
    obtain ⟨hen, hacc, -⟩ := lookup_mem hf
    have hfile := acceptFile_isDir hacc
    obtain ⟨hk, hl⟩ := mem_entries hen
    have hlt := lt_endIndex_of_live (hI.tail d hd) hk hl
    obtain ⟨hw, l₁, l₂, heq, hl₁⟩ := List.find?_eq_some_iff_append.mp hf
    have hent := hI.cleared_entries hg hd hen hfile hc (ho.headed (by decide))
    obtain ⟨K, hK, hslots, -⟩ := hI.cleared_slots hg hd hen hfile hc
    refine ⟨⟨l₁, en, l₂, heq, fun x hx => by simpa using hl₁ x hx, hw, ?_⟩, ?_⟩
    · have hn := decode_idx_nodup (dirSlots g v d)
      rw [show decode (dirSlots g v d) = l₁ ++ en :: l₂ from heq] at hn
      rw [hent, heq, filter_idx hn]
    · rw [hslots]
      exact ho.killAt le_rfl hK hmem hk hl hlt

end

/-- **Creating and deleting entries** in a well-formed directory, whose runs the driver can
track: a new long name is appended to the listing, a deleted file is taken out, all others
stay, and the directory is well formed. -/
theorem listing_create_delete (g : Geom) (s : State) (hg : g.Valid) (hio : IoOk s)
    (hmem : s.mem = fun _ => true) :
    (∀ d name c z a, IsChain g (vol g s.disk) d (chainOf g (vol g s.disk) d) →
      Orderly maxLfnTrack (dirSlots g (vol g s.disk) d) →
      1 ≤ name.length → name.length ≤ 254 → (∀ x ∈ name, 0x01 ≤ x ∧ x ≤ 0x7F) →
      isValid83 name = false → a ≠ 0x08 → a ≠ 0x0F → c < 2 ^ 32 → z < 2 ^ 32 →
      (fat32CreateEntry g name d c z a s).1 = some () →
      listing g (vol g (fat32CreateEntry g name d c z a s).2.disk) d
          = listing g (vol g s.disk) d ++ [(name, a, c, z)] ∧
        Orderly maxLfnTrack (dirSlots g (vol g (fat32CreateEntry g name d c z a s).2.disk) d)) ∧
    ∀ path d name, WellFormed g (vol g s.disk) → LiveDir g (vol g s.disk) s.cwdCluster →
      resolve g (vol g s.disk) s.cwdCluster path = some (d, name) →
      Orderly maxLfnTrack (dirSlots g (vol g s.disk) d) →
      (fat32DeleteFile g path s).1 = some () →
      (∃ l₁ en l₂, entries g (vol g s.disk) d = l₁ ++ en :: l₂ ∧
        (∀ x ∈ l₁, x.wanted acceptFile name = false) ∧ en.wanted acceptFile name = true ∧
        entries g (vol g (fat32DeleteFile g path s).2.disk) d = l₁ ++ l₂) ∧
      Orderly maxLfnTrack (dirSlots g (vol g (fat32DeleteFile g path s).2.disk) d) := by
  refine ⟨fun d name c z a hchain ho hpos hlen hascii hlong ha8 haF hc hz hok => ?_,
    fun path d name hw hcwd hres ho hok => ?_⟩
  · have h0 : 0 ∉ name := fun h => absurd (hascii 0 h).1 (by decide)
    have hp : IsPath name := ⟨h0, hlen.trans (by omega)⟩
    have h80 : ∀ x ∈ name, x < 0x80 := fun x hx => UInt8.lt_of_le_of_lt (hascii x hx).2 (by decide)
    have hlive := sfnSlot_live h0 (newSfn_ne_E5 h0 h80) c z ⟨haF, ha8⟩
    have hshown : shownName name = name := by
      have hne : lfnEntriesNeeded name ≠ 0 := by
        rw [lfnEntriesNeeded, hlong, if_neg Bool.false_ne_true]
        omega
      rw [shownName, if_neg hne, map_lfnAscii h80, List.take_of_length_le hlen]
    have heff := (spec_createEntry hg hchain name c z a s (hio.holds_mem hmem) rfl).2
    rw [hok] at heff
    have h := heff.listing_eq hg ho hp hlive hc hz
    rwa [hshown] at h
  · have hI := hw.inv hg
    have heff := (spec_deleteFile (E := s.env True) hg hI ⟨.root 0, .root rfl⟩ hcwd.reach path s
      (hio.holds_mem hmem) rfl).2
    rw [hok] at heff
    exact heff.listing_eq hg hI ⟨.root 0, .root rfl⟩ hcwd.reach trivial hres ho

/-- A new file `a` in an empty root directory, and the removal of the only file. -/
theorem listing_create_delete_small :
    listing smallGeom (vol smallGeom
        (fat32CreateEntry smallGeom [0x61] 2 0 0 attrArchive (smallState smallFormatted)).2.disk) 2
      = listing smallGeom (vol smallGeom smallFormatted) 2 ++ [([0x61], attrArchive, 0, 0)] ∧
    ∃ l₁ en l₂, entries smallGeom (vol smallGeom fullDisk) 2 = l₁ ++ en :: l₂ ∧
      entries smallGeom
        (vol smallGeom (fat32DeleteFile smallGeom [0x41] (smallState fullDisk)).2.disk) 2
          = l₁ ++ l₂ := by
  have hchain : IsChain smallGeom (vol smallGeom smallFormatted) 2 [2] :=
    .last (by decide) (by decide +kernel)
  have hres : resolve smallGeom (vol smallGeom fullDisk) 2 [0x41] = some (2, [0x41]) := by
    decide +kernel
  refine ⟨((listing_create_delete smallGeom (smallState smallFormatted) smallGeom_valid rfl
    rfl).1 2 [0x61] 0 0 attrArchive ?_ (by decide +kernel) (by decide) (by decide) (by decide)
    (by decide) (by decide) (by decide) (by decide) (by decide) (by decide +kernel)).1, ?_⟩
  · exact hchain.chainOf_eq smallGeom_valid ▸ hchain
  · obtain ⟨⟨l₁, en, l₂, h₁, -, -, h₂⟩, -⟩ := (listing_create_delete smallGeom
      (smallState fullDisk) smallGeom_valid rfl rfl).2 [0x41] 2 [0x41]
      (fullDisk_flat.wellFormed smallGeom_valid) (rootDir_live _) hres (by decide +kernel)
      (by decide +kernel)
    exact ⟨l₁, en, l₂, h₁, h₂⟩

/-- A volume with clusters of two sectors. -/
def wideGeom : Geom := ⟨2, 1, 1, 14, 1, 2⟩

/-- The file `A` behind a complete run of 21 LFN slots. -/
def longRunSlots : List Slot :=
  writeLfnEntries (List.replicate 273 0x61) (sfnChecksum (pad 11 [0x41])) 21 ++
    [sfnSlot (pad 11 [0x41]) 0 0 attrArchive]

/-- A root directory with this file. -/
def longRunDisk : Disk := smallDisk [0, 0, endMark] fun lba =>
  if lba = 2 then dirBuf longRunSlots
  else if lba = 3 then fun o => dirBuf longRunSlots (512 + o)
  else fun _ => 0

/-- **A long run leaves an orphan**: of 21 LFN slots the driver tracks and marks 20, and the
last one stays in front of the deleted entry. -/
theorem long_run_leaves_orphan :
    Orderly 63 (dirSlots wideGeom (vol wideGeom longRunDisk) 2) ∧
      (fat32DeleteFile wideGeom [0x41] (smallState longRunDisk)).1 = some () ∧
      ¬ Orderly 63 (dirSlots wideGeom
        (vol wideGeom (fat32DeleteFile wideGeom [0x41] (smallState longRunDisk)).2.disk) 2) := by
  decide +kernel

end GordOS.Fat32
