/-
Each entry is decoded from its own run of LFN slots.

* `runOf`, `headedAt`: the LFN slots directly before an index, and whether the
  first of them is marked as the start of a long name;
* `entryAt_run`: the entry behind such a run depends on the run alone;
* `slotEntry`, `decode_eq`: the entries of a directory, slot by slot;
* `slotEntry_killAt`: what marking an entry as deleted does to the others;
* `slotEntry_prefix`, `slotEntry_new`: what new slots behind the last one do.
-/
import Mathlib.Tactic
import GordOS.Fat32.LongNames
import GordOS.Fat32.Steps

namespace GordOS.Fat32

open GordOS

/-! ### Runs -/

/-- The LFN slots that directly precede index `k`. -/
def runOf (ss : List Slot) (k : ℕ) : List Slot :=
  ((ss.take k).reverse.takeWhile Slot.isLfn).reverse

/-- The slot is marked as the start of a long name. -/
def Slot.isFirst (e : Slot) : Bool := e 0 &&& 0x40 != 0

/-- The run before index `k` is empty or begins with the start of a long name. -/
def headedAt (ss : List Slot) (k : ℕ) : Bool := (runOf ss k).head?.all Slot.isFirst

/-- The decoder before index `k`. -/
def stateAt (ss : List Slot) (k : ℕ) : LfnState := (ss.take k).foldl lfnStep .init

section

variable {ss ss' : List Slot} {k : ℕ} {e : Slot}

lemma runOf_length (ss : List Slot) (k : ℕ) : (runOf ss k).length = runBefore ss k := by
  rw [runOf, runBefore, List.length_reverse]

lemma runOf_succ (h : ss[k]? = some e) :
    runOf ss (k + 1) = if e.isLfn then runOf ss k ++ [e] else [] := by
  rw [runOf, List.take_add_one, h, Option.toList_some, List.reverse_append,
    List.reverse_singleton, List.singleton_append, List.takeWhile_cons, runOf]
  cases e.isLfn <;> simp

lemma stateAt_succ (h : ss[k]? = some e) : stateAt ss (k + 1) = lfnStep (stateAt ss k) e := by
  rw [stateAt, List.take_add_one, h, Option.toList_some, List.foldl_append,
    List.foldl_cons, List.foldl_nil, stateAt]

lemma runOf_zero (ss : List Slot) : runOf ss 0 = [] := by simp [runOf]

/-- The start of a long name clears the decoder. -/
lemma lfnAccumulate_first (h : e.isFirst = true) (st st' : LfnState) :
    lfnAccumulate e st = lfnAccumulate e st' := by
  rw [Slot.isFirst] at h
  rw [lfnAccumulate, lfnAccumulate, if_pos h, if_pos h]

lemma headedAt_of_succ (h : ss[k]? = some e) (hl : e.isLfn = true)
    (hh : headedAt ss (k + 1) = true) : headedAt ss k = true := by
  rw [headedAt, runOf_succ h, if_pos hl] at hh
  rw [headedAt]
  cases hr : runOf ss k with
  | nil => rfl
  | cons a as => simpa [hr] using hh

/-- Behind a run with its start the decoder depends on the run alone, and without a
run it holds no name. -/
lemma stateAt_run (hk : k ≤ ss.length) (hh : headedAt ss k = true) :
    (runOf ss k = [] ∧ (stateAt ss k).buf 0 = 0) ∨
      stateAt ss k = (runOf ss k).foldl lfnStep .init := by
  induction k with
  | zero => exact Or.inr (by simp [stateAt, runOf_zero])
  | succ k ih =>
    have he : ss[k]? = some ss[k] := List.getElem?_eq_getElem (by omega)
    rw [stateAt_succ he, runOf_succ he]
    cases hl : ss[k].isLfn with
    | false =>
      refine Or.inl ⟨by simp, ?_⟩
      simp [lfnStep, hl, LfnState.reset]
    | true =>
      refine Or.inr ?_
      have hstep : ∀ st, lfnStep st ss[k] = lfnAccumulate ss[k] st := fun st => by
        rw [lfnStep, hl, if_pos rfl]
      rw [if_pos rfl, List.foldl_append, List.foldl_cons, List.foldl_nil, hstep, hstep]
      rcases ih (by omega) (headedAt_of_succ he hl hh) with ⟨hnil, -⟩ | heq
      · -- the slot is the start
        have hf : ss[k].isFirst = true := by
          rw [headedAt, runOf_succ he, hl, if_pos rfl, hnil] at hh
          simpa using hh
        exact lfnAccumulate_first hf _ _
      · rw [heq]

lemma stateAt_of_no_run (hk : k ≤ ss.length) (hr : runOf ss k = []) : (stateAt ss k).buf 0 = 0 := by
  rcases stateAt_run hk (by rw [headedAt, hr]; rfl) with ⟨-, h0⟩ | heq
  · exact h0
  · rw [heq, hr]
    rfl

/-- **An entry depends on its own run alone.** -/
theorem entryAt_run (hk : k ≤ ss.length) (hh : headedAt ss k = true) (i : ℕ) (e : Slot) :
    entryAt i e (stateAt ss k) = entryAt i e ((runOf ss k).foldl lfnStep .init) := by
  rcases stateAt_run hk hh with ⟨hnil, h0⟩ | heq
  · rw [hnil, entryAt, entryAt]
    have h1 : (stateAt ss k).valid e = false := by simp [LfnState.valid, h0]
    have h2 : LfnState.init.valid e = false := by simp [LfnState.valid, LfnState.init]
    simp only [List.foldl_nil, h1, h2]
    rfl
  · rw [heq]

/-! ### Entries slot by slot -/

/-- The entry in the slot at index `i`. -/
def slotEntry (ss : List Slot) (i : ℕ) : Option Entry :=
  (ss[i]?).bind fun e => if e.live then some (entryAt i e (stateAt ss i)) else none

lemma slotEntry_of_live (h : ss[k]? = some e) (hl : e.live = true) :
    slotEntry ss k = some (entryAt k e (stateAt ss k)) := by
  rw [slotEntry, h, Option.bind_some, if_pos hl]

lemma slotEntry_of_not_live (h : ∀ e, ss[k]? = some e → e.live = false) :
    slotEntry ss k = none := by
  rw [slotEntry]
  cases hk : ss[k]? with
  | none => rfl
  | some e => rw [Option.bind_some, h e hk]; rfl

lemma endIndex_cons (e : Slot) (es : List Slot) :
    endIndex (e :: es) = if e 0 = 0 then 0 else endIndex es + 1 := by
  rw [endIndex, firstZero, List.findIdx?_cons, endIndex, firstZero]
  by_cases h : e 0 = 0
  · simp [h]
  · cases List.findIdx? (fun e => e 0 == 0) es <;> simp [h]

lemma decodeFrom_eq (ss : List Slot) : ∀ (i : ℕ) (st : LfnState),
    decodeFrom ss i st = (List.range (endIndex ss)).filterMap fun j =>
      (ss[j]?).bind fun e =>
        if e.live then some (entryAt (i + j) e ((ss.take j).foldl lfnStep st))
        else none := by
  induction ss with
  | nil => intro i st; rfl
  | cons a as ih =>
    intro i st
    rw [decodeFrom, endIndex_cons]
    by_cases h0 : a 0 = 0
    · simp [h0]
    · rw [if_neg h0, if_neg h0, ih, List.range_succ_eq_map, List.filterMap_cons, List.filterMap_map]
      have hfun : (fun j => (as[j]?).bind fun e =>
          if e.live then some (entryAt (i + 1 + j) e
            ((as.take j).foldl lfnStep (lfnStep st a))) else none)
          = (fun j => ((a :: as)[j]?).bind fun e =>
              if e.live then some (entryAt (i + j) e
                (((a :: as).take j).foldl lfnStep st)) else none) ∘ Nat.succ := by
        funext j
        simp only [Function.comp_apply, Nat.succ_eq_add_one, List.getElem?_cons_succ,
          List.take_succ_cons, List.foldl_cons, Nat.add_assoc, Nat.add_comm 1 j]
      rw [hfun]
      cases hl : a.live <;> simp [hl]

/-- **The entries of a directory, slot by slot.** -/
theorem decode_eq (ss : List Slot) :
    decode ss = (List.range (endIndex ss)).filterMap (slotEntry ss) := by
  rw [decode, decodeFrom_eq]
  simp only [Nat.zero_add]
  rfl

lemma slotEntry_idx {en : Entry} (h : slotEntry ss k = some en) :
    en.idx = k ∧ ss[k]? = some en.slot ∧ en.slot.live = true := by
  rw [slotEntry] at h
  obtain ⟨e, he, h⟩ := Option.bind_eq_some_iff.mp h
  split_ifs at h with hl
  rw [Option.some.injEq] at h
  subst h
  exact ⟨rfl, he, hl⟩

lemma mem_decode {en : Entry} :
    en ∈ decode ss ↔ en.idx < endIndex ss ∧ slotEntry ss en.idx = some en := by
  rw [decode_eq, List.mem_filterMap]
  constructor
  · rintro ⟨j, hj, h⟩
    rw [(slotEntry_idx h).1]
    exact ⟨List.mem_range.mp hj, h⟩
  · rintro ⟨hj, h⟩
    exact ⟨_, List.mem_range.mpr hj, h⟩

lemma take_eq_of_getElem? {i : ℕ} (h : ∀ j < i, ss'[j]? = ss[j]?) : ss'.take i = ss.take i := by
  refine List.ext_getElem? fun j => ?_
  rw [List.getElem?_take, List.getElem?_take]
  split_ifs with hj
  · exact h j hj
  · rfl

/-- Two directories whose slots up to an index agree. -/
lemma slotEntry_prefix {i : ℕ} (h : ∀ j ≤ i, ss'[j]? = ss[j]?) :
    slotEntry ss' i = slotEntry ss i := by
  rw [slotEntry, slotEntry, h i (le_refl i), stateAt, stateAt,
    take_eq_of_getElem? fun j hj => h j hj.le]

lemma runOf_prefix {i : ℕ} (h : ∀ j < i, ss'[j]? = ss[j]?) : runOf ss' i = runOf ss i := by
  rw [runOf, runOf, take_eq_of_getElem? h]

/-- Every entry stands behind a run with its start. -/
def Headed (ss : List Slot) : Prop :=
  ∀ i e, ss[i]? = some e → e.live = true → headedAt ss i = true

end

/-! ### Deleted slots -/

section

variable {E : Env} {ss : List Slot} {k : ℕ} {K : List ℕ} {e : Slot}
variable (hM : Marks E ss k K) (hk : ss[k]? = some e) (hl : e.live = true)

include hM

/-- The marked slots are those of the run and the entry. -/
lemma Marks.ge {j : ℕ} (hj : j ∈ K) : k - runBefore ss k ≤ j := by
  rcases hM.sub j hj with rfl | hj
  · omega
  · exact (mem_runIndices hj).1

/-- The end of the directory stays. -/
lemma endIndex_killAt (hlt : k < endIndex ss) : endIndex (killAt K ss) = endIndex ss := by
  refine endIndex_congr (killAt_length K ss) fun i a b ha hb => ?_
  rw [killAt_getElem?, hb, Option.map_some, Option.some.injEq] at ha
  by_cases hi : i ∈ K
  · rw [if_pos hi] at ha
    have hb0 := ne_zero_of_lt_endIndex (lt_of_le_of_lt (hM.le i hi) hlt) hb
    exact ⟨fun h => absurd (ha ▸ h) (Slot.dead_ne_zero b), fun h => absurd h hb0⟩
  · rw [if_neg hi] at ha
    rw [ha]

include hk

/-- A live slot other than the entry is outside its run. -/
lemma Marks.outside {j : ℕ} {e' : Slot} (hj : ss[j]? = some e') (hl' : e'.live = true)
    (hne : j ≠ k) : j ∉ K ∧ (j ≤ k - runBefore ss k ∨ k < j) := by
  have hkl := (List.getElem?_eq_some_iff.mp hk).1
  refine ⟨fun hjK => ?_, ?_⟩
  · have := Slot.not_live_of_isLfn (hM.isLfn hkl hjK hne hj)
    rw [hl'] at this
    cases this
  · by_contra hout
    have := Slot.not_live_of_isLfn (isLfn_of_mem_run (k := k) (by omega) (by omega) hkl.le hj)
    rw [hl'] at this
    cases this

include hl

/-- The runs of the other entries stay. -/
lemma runOf_killAt {j : ℕ} (hj : j ≤ ss.length) (hout : j ≤ k - runBefore ss k ∨ k < j) :
    runOf (killAt K ss) j = runOf ss j := by
  rcases hout with h | h
  · refine runOf_prefix fun i hi => ?_
    have hiK : i ∉ K := fun hiK => by
      have := hM.ge hiK
      omega
    rw [killAt_getElem?]
    simp [hiK]
  · induction j with
    | zero => omega
    | succ j ih =>
      have hj' : ss[j]? = some ss[j] := List.getElem?_eq_getElem (by omega)
      have hkj : (killAt K ss)[j]? = some (if j ∈ K then ss[j].dead else ss[j]) := by
        rw [killAt_getElem?, hj', Option.map_some]
      rw [runOf_succ hj', runOf_succ hkj]
      rcases Nat.lt_or_ge k j with hlt | hge
      · have hjK : j ∉ K := fun h => absurd (hM.le j h) (by omega)
        rw [if_neg hjK, ih (by omega) hlt]
      · -- neither the entry nor the deleted slot is a part of a run
        obtain rfl : j = k := by omega
        have hnl : ss[j].isLfn = false := by
          rw [hj', Option.some.injEq] at hk
          rw [hk]
          by_contra hn
          have := Slot.not_live_of_isLfn (Bool.eq_true_of_not_eq_false hn)
          rw [hl] at this
          cases this
        rw [if_pos hM.self, hnl, Slot.dead_isLfn]
        rfl

/-- The other entries stay when an entry is deleted. -/
lemma slotEntry_killAt (hh : Headed ss) (j : ℕ) :
    slotEntry (killAt K ss) j = if j = k then none else slotEntry ss j := by
  split_ifs with hjk
  · subst hjk
    refine slotEntry_of_not_live fun e' he' => ?_
    rw [killAt_getElem?, hk, Option.map_some, if_pos hM.self, Option.some.injEq] at he'
    rw [← he', Slot.dead_live]
  · cases hj : ss[j]? with
    | none =>
      rw [slotEntry, slotEntry, killAt_getElem?, hj]
      rfl
    | some e' =>
      have hj' : (killAt K ss)[j]? = some (if j ∈ K then e'.dead else e') := by
        rw [killAt_getElem?, hj, Option.map_some]
      cases hl' : e'.live with
      | false =>
        have hold : slotEntry ss j = none := slotEntry_of_not_live fun a ha => by
          rw [hj, Option.some.injEq] at ha
          rw [← ha, hl']
        rw [hold, slotEntry_of_not_live fun a ha => ?_]
        rw [hj', Option.some.injEq] at ha
        rw [← ha]
        split_ifs
        · exact Slot.dead_live e'
        · exact hl'
      | true =>
        obtain ⟨hjK, hout⟩ := hM.outside hk hj hl' hjk
        have hlen := (List.getElem?_eq_some_iff.mp hj).1
        have hrun := runOf_killAt hM hk hl hlen.le hout
        have hhead := hh j e' hj hl'
        have hhead' : headedAt (killAt K ss) j = true := by
          rwa [headedAt, hrun]
        rw [if_neg hjK] at hj'
        rw [slotEntry_of_live hj' hl', slotEntry_of_live hj hl', entryAt_run hlen.le hhead,
          entryAt_run (by rw [killAt_length]; exact hlen.le) hhead', hrun]

lemma Headed.killAt (hh : Headed ss) : Headed (killAt K ss) := by
  intro j e' hj hl'
  rw [killAt_getElem?] at hj
  obtain ⟨a, ha, rfl⟩ := Option.map_eq_some_iff.mp hj
  by_cases hjK : j ∈ K
  · rw [if_pos hjK, Slot.dead_live] at hl'
    cases hl'
  · rw [if_neg hjK] at hl'
    have hjk : j ≠ k := fun h => hjK (h ▸ hM.self)
    obtain ⟨-, hout⟩ := hM.outside hk ha hl' hjk
    have hlen := (List.getElem?_eq_some_iff.mp ha).1
    rw [headedAt, runOf_killAt hM hk hl hlen.le hout]
    exact hh j a ha hl'

/-- **Deleting an entry** takes it out of the entries and leaves the others. -/
theorem decode_killAt (hh : Headed ss) (hlt : k < endIndex ss) :
    decode (killAt K ss) = (decode ss).filter fun en => en.idx != k := by
  rw [decode_eq, decode_eq, List.filter_filterMap, endIndex_killAt hM hlt]
  refine List.filterMap_congr fun j _ => ?_
  rw [slotEntry_killAt hM hk hl hh]
  cases hj : slotEntry ss j with
  | none => simp
  | some en =>
    rw [Option.filter_some, (slotEntry_idx hj).1]
    by_cases hjk : j = k <;> simp [hjk]

end

/-! ### New slots -/

lemma endIndex_eq {ss : List Slot} {m : ℕ} (hlt : ∀ i < m, ∃ e, ss[i]? = some e ∧ e 0 ≠ 0)
    (hz : ∀ e, ss[m]? = some e → e 0 = 0) : endIndex ss = m := by
  rcases Nat.lt_trichotomy (endIndex ss) m with h | h | h
  · obtain ⟨e, he, h0⟩ := hlt _ h
    exact absurd (endIndex_zero (List.getElem?_eq_some_iff.mp he).1 he) h0
  · exact h
  · have hle := endIndex_le_length ss
    have hm : ss[m]? = some ss[m] := List.getElem?_eq_getElem (by omega)
    exact absurd (hz _ hm) (ne_zero_of_lt_endIndex h hm)

/-- The first `n` of the slots `es` are added behind the last used one. -/
structure Grown (ss : List Slot) (es : List Slot) (n : ℕ) (ss' : List Slot) : Prop where
  le : n ≤ es.length
  lt : ∀ i < endIndex ss, ss'[i]? = ss[i]?
  mid : ∀ i < n, ss'[endIndex ss + i]? = es[i]?
  ge : ∀ i e, endIndex ss + n ≤ i → ss'[i]? = some e → e 0 = 0

section

variable {ss es ss' : List Slot} {n : ℕ} {s : Slot}
variable (hG : Grown ss es n ss') (hs : EntrySlots es s)

include hG hs

/-- The end of the directory moves behind them. -/
lemma Grown.endIndex_eq : endIndex ss' = endIndex ss + n := by
  have hle := endIndex_le_length ss
  have hle' := hG.le
  refine Fat32.endIndex_eq (fun i hi => ?_) fun e he => hG.ge _ e (le_refl _) he
  rcases Nat.lt_or_ge i (endIndex ss) with h | h
  · have hi' : ss[i]? = some ss[i] := List.getElem?_eq_getElem (by omega)
    exact ⟨_, (hG.lt i h).trans hi', ne_zero_of_lt_endIndex h hi'⟩
  · obtain ⟨j, rfl⟩ := Nat.exists_eq_add_of_le h
    have hj : es[j]? = some es[j] := List.getElem?_eq_getElem (by omega)
    exact ⟨_, (hG.mid j (by omega)).trans hj, hs.ne_zero _ (List.mem_of_getElem? hj)⟩

/-- The slots before the last are no entries. -/
lemma Grown.slotEntry_mid {i : ℕ} (hi : i < n) (hi' : i + 1 < es.length) :
    slotEntry ss' (endIndex ss + i) = none := by
  refine slotEntry_of_not_live fun e he => ?_
  rw [hG.mid i hi, List.getElem?_eq_getElem (by omega)] at he
  refine Slot.not_live_of_isLfn (hs.lfn e (List.mem_of_getElem? (i := i) ?_))
  rw [List.getElem?_eq_getElem (by rw [List.length_dropLast]; omega), List.getElem_dropLast]
  exact he

/-- **New slots** add an entry if the last of them, the short entry, is among them
and in use; the other entries stay. -/
theorem Grown.decode_eq : decode ss' = decode ss
    ++ if n = es.length then (slotEntry ss' (endIndex ss + (n - 1))).toList else [] := by
  have hpos : 0 < es.length := List.length_pos_iff.mpr hs.ne_nil
  have hle := hG.le
  rw [Fat32.decode_eq, Fat32.decode_eq, hG.endIndex_eq hs, List.range_add,
    List.filterMap_append, List.filterMap_map]
  congr 1
  · exact List.filterMap_congr fun j hj =>
      slotEntry_prefix fun i hi => hG.lt i (by have := List.mem_range.mp hj; omega)
  · have hnone : ∀ m ≤ n, m < es.length →
        (List.range m).filterMap (slotEntry ss' ∘ fun x => endIndex ss + x) = [] := by
      intro m hm hlt
      rw [List.filterMap_eq_nil_iff]
      intro i hi
      have hi := List.mem_range.mp hi
      exact hG.slotEntry_mid hs (by omega) (by omega)
    split_ifs with hn
    · obtain ⟨m, rfl⟩ : ∃ m, n = m + 1 := ⟨n - 1, by omega⟩
      rw [List.range_succ, List.filterMap_append, hnone m (by omega) (by omega),
        List.nil_append, Nat.add_sub_cancel]
      cases h : slotEntry ss' (endIndex ss + m) <;> simp [h]
    · exact hnone n (le_refl n) (by omega)

omit hs in
/-- The decoder among the new slots. -/
lemma Grown.stateAt_mid {m : ℕ} (hm : m ≤ n) :
    stateAt ss' (endIndex ss + m) = (es.take m).foldl lfnStep (stateAt ss (endIndex ss)) := by
  have hle := hG.le
  induction m with
  | zero =>
    rw [Nat.add_zero, List.take_zero, List.foldl_nil, stateAt, stateAt, take_eq_of_getElem? hG.lt]
  | succ m ih =>
    have hm' : es[m]? = some es[m] := List.getElem?_eq_getElem (by omega)
    rw [← Nat.add_assoc, stateAt_succ ((hG.mid m (by omega)).trans hm'), ih (by omega),
      List.take_add_one, hm', Option.toList_some, List.foldl_append, List.foldl_cons,
      List.foldl_nil]

/-- The run among the new slots. -/
lemma Grown.runOf_mid {m : ℕ} (hm : m ≤ n) (hm' : m < es.length) :
    runOf ss' (endIndex ss + m) = runOf ss (endIndex ss) ++ es.take m := by
  induction m with
  | zero => rw [Nat.add_zero, List.take_zero, List.append_nil, runOf_prefix hG.lt]
  | succ m ih =>
    have he : es[m]? = some es[m] := List.getElem?_eq_getElem (by omega)
    have hl : es[m].isLfn = true := by
      refine hs.lfn _ (List.mem_of_getElem? (i := m) ?_)
      rw [List.getElem?_eq_getElem (by rw [List.length_dropLast]; omega), List.getElem_dropLast]
    rw [← Nat.add_assoc, runOf_succ ((hG.mid m (by omega)).trans he), if_pos hl,
      ih (by omega) (by omega), List.take_add_one, he, Option.toList_some,
      List.append_assoc]

/-- Every entry, and the end of the directory, stand behind a run with its start. -/
def Tidy (ss : List Slot) : Prop := Headed ss ∧ headedAt ss (endIndex ss) = true

/-- The runs among the new slots begin with a start if the run before them does. -/
lemma Grown.headed_mid (hf : ∀ e, es.dropLast.head? = some e → e.isFirst = true)
    (ht : headedAt ss (endIndex ss) = true) {m : ℕ} (hm : m ≤ n) (hm' : m < es.length) :
    headedAt ss' (endIndex ss + m) = true := by
  rw [headedAt, hG.runOf_mid hs hm hm']
  rw [headedAt] at ht
  cases hr : runOf ss (endIndex ss) with
  | cons a as => simpa [hr] using ht
  | nil =>
    rw [List.nil_append]
    cases m with
    | zero => rfl
    | succ m =>
      obtain ⟨a, b, t, rfl⟩ : ∃ a b t, es = a :: b :: t := by
        match es, hm' with
        | a :: b :: t, _ => exact ⟨a, b, t, rfl⟩
      simpa using hf a rfl

/-- New slots keep the runs in order. -/
lemma Grown.tidy (hf : ∀ e, es.dropLast.head? = some e → e.isFirst = true)
    (hsl : s.isLfn = false) (ht : Tidy ss) : Tidy ss' := by
  have hle := hG.le
  have hpos : 0 < es.length := List.length_pos_iff.mpr hs.ne_nil
  refine ⟨fun i e he hl => ?_, ?_⟩
  · rcases Nat.lt_or_ge i (endIndex ss) with hi | hi
    · have hp : runOf ss' i = runOf ss i := runOf_prefix fun j hj => hG.lt j (by omega)
      rw [headedAt, hp]
      exact ht.1 i e ((hG.lt i hi).symm.trans he) hl
    · obtain ⟨m, rfl⟩ := Nat.exists_eq_add_of_le hi
      rcases Nat.lt_or_ge m n with hm | hm
      · exact hG.headed_mid hs hf ht.2 hm.le (by omega)
      · rw [Slot.not_live_of_zero (hG.ge _ e (by omega) he)] at hl
        cases hl
  · rw [hG.endIndex_eq hs]
    rcases Nat.lt_or_ge n es.length with hn | hn
    · exact hG.headed_mid hs hf ht.2 (le_refl n) hn
    · -- the short entry ends the run
      obtain ⟨m, rfl⟩ : ∃ m, n = m + 1 := ⟨n - 1, by omega⟩
      have hlast : es[m]? = some s := by
        rw [← hs.last, List.getLast?_eq_getElem?, show es.length - 1 = m from by omega]
      rw [headedAt, ← Nat.add_assoc, runOf_succ ((hG.mid m (by omega)).trans hlast), hsl]
      rfl

end

/-! ### The new entry -/

lemma entrySlots_first {name : Name} (hn : IsPath name) (c z : ℕ) (a : UInt8) {e : Slot}
    (he : (entrySlots name c z a).dropLast.head? = some e) : e.isFirst = true := by
  rw [entrySlots, List.dropLast_concat, writeLfnEntries, List.head?_map] at he
  obtain ⟨i, hi, rfl⟩ := Option.map_eq_some_iff.mp he
  cases hm : lfnEntriesNeeded name with
  | zero => simp [hm] at hi
  | succ m =>
    obtain rfl : i = 0 := by
      rw [hm, List.head?_range, if_neg (by omega), Option.some.injEq] at hi
      exact hi.symm
    have hle := lfnEntriesNeeded_le hn.2
    exact (lfnSlot_seq name _ (by omega)).2.mpr rfl

section

variable {ss ss' : List Slot} {name : Name} {c z : ℕ} {a : UInt8} {n : ℕ}

/-- The entry that a complete creation adds. -/
lemma Grown.new_entry (hp : IsPath name) (hG : Grown ss (entrySlots name c z a) n ss')
    (hn : n = (entrySlots name c z a).length) (hl : (sfnSlot (newSfn name) c z a).live = true) :
    ∃ en, slotEntry ss' (endIndex ss + (n - 1)) = some en ∧ en.slot = sfnSlot (newSfn name) c z a ∧
      (lfnEntriesNeeded name ≠ 0 → en.long = some (name.map lfnAscii)) ∧
      (lfnEntriesNeeded name = 0 → runOf ss (endIndex ss) = [] → en.long = none) := by
  have hs := entrySlots_spec hp c z a
  set es := entrySlots name c z a with hes
  set s := sfnSlot (newSfn name) c z a with hss
  have hlen : es.length = lfnEntriesNeeded name + 1 := by
    simp [hes, entrySlots, writeLfnEntries]
  have hm : n - 1 = lfnEntriesNeeded name := by omega
  have hlast : ss'[endIndex ss + (n - 1)]? = some s := by
    rw [hG.mid _ (by omega), ← hs.last, List.getLast?_eq_getElem?, hn]
  have htake : es.take (n - 1) = writeLfnEntries name (sfnChecksum (newSfn name))
      (lfnEntriesNeeded name) := by
    rw [hm, hes, entrySlots, List.take_left']
    simp [writeLfnEntries]
  have hst := hG.stateAt_mid (m := n - 1) (by omega)
  rw [htake] at hst
  refine ⟨_, slotEntry_of_live hlast hl, rfl, fun h0 => ?_, fun h0 hr => ?_⟩
  · rw [hst, foldl_writeLfnEntries hp _ h0, entryAt]
    have hne : name ≠ [] := by
      rintro rfl
      exact h0 rfl
    obtain ⟨x, xs, rfl⟩ := List.exists_cons_of_ne_nil hne
    have hx : lfnAscii x ≠ 0 := lfnAscii_ne_zero fun h => hp.1 (h ▸ List.mem_cons_self)
    have hv : LfnState.valid ⟨fun i => ((x :: xs).map lfnAscii).getD i 0,
        sfnChecksum (newSfn (x :: xs)), 0⟩ s = true := by
      rw [LfnState.valid, hss, sfnSlot_sfn _ _ _ (newSfn_length hp.1)]
      simpa using hx
    rw [hv, if_pos rfl, lfnState_name hp]
  · rw [hm, h0, Nat.add_zero] at hst ⊢
    have hz : (stateAt ss' (endIndex ss)).buf 0 = 0 := by
      rw [hst, writeLfnEntries]
      exact stateAt_of_no_run (endIndex_le_length ss) hr
    rw [entryAt]
    simp [LfnState.valid, hz]

end

end GordOS.Fat32
