/-
A directory as the list of its entries.

* `Slot.live`, `lfnStep`, `decode`: the entries of a list of slots, each with its
  index and its long name if it has one, as every scan of the driver reads them;
* `scanSlots_found`, `scanSlots_none`: a scan of one cluster is a search in the
  decoded list;
* `dirSlots`, `entries`: the slots and the entries of a directory of a volume;
* `trackAt`, `det_trackScan`: the scans of write, delete and rename are searches in the
  entries, and find the run of LFN slots before an entry as well;
* `dirScanLoop_eq`: without these slots the scans are the same; `det_dirScan`.
-/
import Mathlib.Tactic
import GordOS.Fat32.Exec

namespace GordOS.Fat32

open GordOS GordOS.Fallible

/-! ### Decoding a list of slots -/

/-- The slot is one of the entries the scans look at: neither free nor deleted,
no part of a long name, no volume label. -/
def Slot.live (e : Slot) : Bool :=
  e 0 != 0 && e 0 != 0xE5 && e.attr != 0x0F && e.attr != 0x08

lemma Slot.attr_of_live {e : Slot} (h : e.live = true) : e.attr ≠ 0x0F ∧ e.attr ≠ 0x08 := by
  simp only [Slot.live, Bool.and_eq_true, bne_iff_ne] at h
  exact ⟨h.1.2, h.2⟩

/-- The slot is a part of a long name. -/
def Slot.isLfn (e : Slot) : Bool := e 0 != 0xE5 && e.attr == 0x0F

/-- The decoder of long names behind a slot. -/
def lfnStep (st : LfnState) (e : Slot) : LfnState :=
  if e.isLfn then lfnAccumulate e st else st.reset

/-- A directory entry: its index among the slots, its slot, and its long name if
a complete run of LFN slots belongs to it. -/
structure Entry where
  idx : ℕ
  slot : Slot
  long : Option Name

namespace Entry

/-- The test of the scans. -/
def hit (en : Entry) (name : Name) : Bool :=
  (match en.long with
    | some l => nameMatch l name
    | none => false) || nameMatch (sfnToName en.slot) name

/-- The display name. -/
def display (en : Entry) : Name :=
  match en.long with
  | some l => l.take 254
  | none => sfnToName en.slot

/-- The same entry at a later index. -/
def shift (k : ℕ) (en : Entry) : Entry := { en with idx := en.idx + k }

end Entry

/-- The entry in a slot. -/
def entryAt (i : ℕ) (e : Slot) (st : LfnState) : Entry :=
  ⟨i, e, if st.valid e then some st.name else none⟩

lemma entryAt_hit (i : ℕ) (e : Slot) (st : LfnState) (name : Name) :
    (entryAt i e st).hit name = entryMatches st e name := by
  rw [Entry.hit, entryMatches, entryAt]
  cases st.valid e <;> simp

/-- The entries of a list of slots, up to the first `0x00` slot. -/
def decodeFrom : List Slot → ℕ → LfnState → List Entry
  | [], _, _ => []
  | e :: es, i, st =>
    if e 0 = 0 then []
    else if e.live then entryAt i e st :: decodeFrom es (i + 1) (lfnStep st e)
    else decodeFrom es (i + 1) (lfnStep st e)

/-- The entries of a list of slots. -/
def decode (ss : List Slot) : List Entry := decodeFrom ss 0 .init

/-- There is a `0x00` slot. -/
def hasZero (ss : List Slot) : Bool := ss.any fun e => e 0 == 0

lemma decodeFrom_shift (ss : List Slot) (i k : ℕ) (st : LfnState) :
    decodeFrom ss (i + k) st = (decodeFrom ss i st).map (Entry.shift k) := by
  induction ss generalizing i st with
  | nil => rfl
  | cons e es ih =>
    have h := ih (i + 1) (lfnStep st e)
    rw [show i + 1 + k = i + k + 1 from by omega] at h
    rw [decodeFrom, decodeFrom, h]
    split_ifs <;> simp [Entry.shift, entryAt]

/-- The entries of two lists of slots in a row. -/
lemma decodeFrom_append (a b : List Slot) (i : ℕ) (st : LfnState) : decodeFrom (a ++ b) i st =
      if hasZero a then decodeFrom a i st
      else decodeFrom a i st ++ decodeFrom b (i + a.length) (a.foldl lfnStep st) := by
  induction a generalizing i st with
  | nil => simp [hasZero, decodeFrom]
  | cons e es ih =>
    rw [List.cons_append, decodeFrom, decodeFrom, ih]
    by_cases h0 : e 0 = 0
    · simp [h0, hasZero]
    · have hz : hasZero (e :: es) = hasZero es := by simp [hasZero, h0]
      rw [hz, List.length_cons, List.foldl_cons,
        show i + 1 + es.length = i + (es.length + 1) from by omega]
      cases hasZero es <;> cases e.live <;> simp [h0]

/-- The entries stand at their indices, at live slots before the first `0x00`
slot. -/
lemma mem_decodeFrom {ss : List Slot} {i : ℕ} {st : LfnState} {en : Entry} :
    en ∈ decodeFrom ss i st → ∃ j, en.idx = i + j ∧ ss[j]? = some en.slot
      ∧ en.slot.live = true ∧ (∀ k ≤ j, ∀ e, ss[k]? = some e → e 0 ≠ 0)
      ∧ en = entryAt en.idx en.slot ((ss.take j).foldl lfnStep st) := by
  induction ss generalizing i st with
  | nil => simp [decodeFrom]
  | cons e es ih =>
    intro h
    rw [decodeFrom] at h
    split_ifs at h with h0 hl
    · simp at h
    · rcases List.mem_cons.mp h with rfl | h
      · refine ⟨0, rfl, rfl, hl, fun k hk e' he' => ?_, rfl⟩
        obtain rfl : k = 0 := by omega
        simp only [List.getElem?_cons_zero, Option.some.injEq] at he'
        exact he' ▸ h0
      · obtain ⟨j, h1, h2, h3, h4, h5⟩ := ih h
        refine ⟨j + 1, by omega, by simpa using h2, h3, fun k hk e' he' => ?_, by simpa using h5⟩
        cases k with
        | zero => simp only [List.getElem?_cons_zero, Option.some.injEq] at he'
                  exact he' ▸ h0
        | succ k => exact h4 k (by omega) e' (by simpa using he')
    · obtain ⟨j, h1, h2, h3, h4, h5⟩ := ih h
      refine ⟨j + 1, by omega, by simpa using h2, h3, fun k hk e' he' => ?_, by simpa using h5⟩
      cases k with
      | zero => simp only [List.getElem?_cons_zero, Option.some.injEq] at he'
                exact he' ▸ h0
      | succ k => exact h4 k (by omega) e' (by simpa using he')

/-- Every live slot before the first `0x00` slot is an entry. -/
lemma entryAt_mem_decodeFrom {ss : List Slot} {j : ℕ} {e : Slot} (i : ℕ) (st : LfnState)
    (hj : ss[j]? = some e) (hl : e.live = true) (hz : ∀ k ≤ j, ∀ e', ss[k]? = some e' → e' 0 ≠ 0) :
    entryAt (i + j) e ((ss.take j).foldl lfnStep st) ∈ decodeFrom ss i st := by
  induction ss generalizing i j st with
  | nil => simp at hj
  | cons a as ih =>
    have ha : a 0 ≠ 0 := hz 0 (by omega) a rfl
    rw [decodeFrom, if_neg ha]
    cases j with
    | zero =>
      simp only [List.getElem?_cons_zero, Option.some.injEq] at hj
      subst hj
      rw [if_pos hl]
      exact List.mem_cons_self
    | succ j =>
      have h := ih (i + 1) (lfnStep st a) (by simpa using hj)
        fun k hk e' he' => hz (k + 1) (by omega) e' (by simpa using he')
      rw [show i + 1 + j = i + (j + 1) from by omega] at h
      split_ifs
      · exact List.mem_cons_of_mem _ h
      · exact h

/-! ### The scan of one cluster -/

/-- What a scan with a given attribute test and name looks for. -/
def Entry.wanted (accept : UInt8 → Bool) (name : Name) (en : Entry) : Bool :=
  accept en.slot.attr && en.hit name

/-- The branches of the scan loop, from the slot and the decoder. -/
lemma scanSlots_cons (accept : UInt8 → Bool) (name : Name) (e : Slot)
    (es : List Slot) (i : ℕ) (st : LfnState) :
    scanSlots accept name (e :: es) i st =
      if e 0 = 0 then .stop
      else if e.live && (entryAt i e st).wanted accept name then .found i e st
      else scanSlots accept name es (i + 1) (lfnStep st e) := by
  rw [scanSlots, Entry.wanted, entryAt_hit]
  simp only [Slot.live, lfnStep, Slot.isLfn, entryAt]
  by_cases h0 : e 0 = 0
  · simp [h0]
  by_cases h1 : e 0 = 0xE5
  · simp [h1]
  by_cases h2 : e.attr = 0x0F
  · simp [h0, h1, h2]
  by_cases h3 : e.attr = 0x08
  · simp [h0, h1, h3]
  rcases Bool.eq_false_or_eq_true (accept e.attr) with h4 | h4 <;>
    simp [h0, h1, h2, h3, h4]

/-- A scan finds the first wanted entry. -/
lemma scanSlots_found {accept : UInt8 → Bool} {name : Name} {ss : List Slot} {i : ℕ} {st : LfnState}
    {en : Entry} (h : (decodeFrom ss i st).find? (Entry.wanted accept name) = some en) :
    ∃ st', scanSlots accept name ss i st = .found en.idx en.slot st' := by
  induction ss generalizing i st with
  | nil => simp [decodeFrom] at h
  | cons e es ih =>
    rw [scanSlots_cons]
    rw [decodeFrom] at h
    split_ifs at h with h0 hl
    · simp at h
    · rw [List.find?_cons] at h
      rw [if_neg h0, hl, Bool.true_and]
      cases hw : (entryAt i e st).wanted accept name with
      | true =>
        rw [hw, Option.some.injEq] at h
        subst h
        exact ⟨st, rfl⟩
      | false =>
        rw [hw] at h
        exact ih h
    · rw [if_neg h0, Bool.eq_false_iff.mpr hl]
      exact ih h

/-- A scan without a hit stops at a `0x00` slot or goes on to the next
cluster. -/
lemma scanSlots_none {accept : UInt8 → Bool} {name : Name} {ss : List Slot} {i : ℕ} {st : LfnState}
    (h : (decodeFrom ss i st).find? (Entry.wanted accept name) = none) :
    scanSlots accept name ss i st =
      if hasZero ss then .stop else .more (ss.foldl lfnStep st) := by
  induction ss generalizing i st with
  | nil => rfl
  | cons e es ih =>
    rw [scanSlots_cons]
    rw [decodeFrom] at h
    split_ifs at h with h0 hl
    · simp [h0, hasZero]
    · rw [List.find?_cons] at h
      have hz : hasZero (e :: es) = hasZero es := by simp [hasZero, h0]
      rw [if_neg h0, hl, Bool.true_and, hz, List.foldl_cons]
      cases hw : (entryAt i e st).wanted accept name with
      | true => rw [hw] at h; simp at h
      | false =>
        rw [hw] at h
        exact ih h
    · have hz : hasZero (e :: es) = hasZero es := by simp [hasZero, h0]
      rw [if_neg h0, Bool.eq_false_iff.mpr hl, hz, List.foldl_cons]
      exact ih h

/-! ### The scan of a directory -/

section

variable (g : Geom)

/-- The slots of some clusters, in order. -/
def slotsIn (v : Vol) (l : List ℕ) : List Slot :=
  l.flatMap fun c => slotsOf g.entriesPerCluster (v.data c)

/-- The slots of the directory at `d`. -/
def dirSlots (v : Vol) (d : ℕ) : List Slot := slotsIn g v (chainOf g v d)

/-- The entries of the directory at `d`. -/
def entries (v : Vol) (d : ℕ) : List Entry := decode (dirSlots g v d)

/-- The cluster and the index in it of a slot of the clusters `l`. -/
def posIn (l : List ℕ) (k : ℕ) : ℕ × ℕ :=
  (l.getD (k / g.entriesPerCluster) 0, k % g.entriesPerCluster)

/-- The scan of the clusters `l` from number `q` on, as the loop over a chain
makes it: the number of the cluster, the index in it and the slot found. -/
def scanChain (accept : UInt8 → Bool) (name : Name) (v : Vol) :
    List ℕ → ℕ → LfnState → Option (ℕ × ℕ × Slot)
  | [], _, _ => none
  | c :: cs, q, st =>
    match scanSlots accept name (slotsOf g.entriesPerCluster (v.data c)) 0 st with
    | .stop => none
    | .found i e _ => some (q, i, e)
    | .more st' => scanChain accept name v cs (q + 1) st'

end

section

variable {g : Geom} {E : Env} {v : Vol}

@[simp] lemma slotsOf_length (n : ℕ) (b : Buf) : (slotsOf n b).length = n := by
  simp [slotsOf]

lemma slotsOf_getElem? {n i : ℕ} (b : Buf) (h : i < n) : (slotsOf n b)[i]? = some (slotAt b i) := by
  simp [slotsOf, h]

@[simp] lemma slotsIn_nil : slotsIn g v [] = [] := rfl

@[simp] lemma slotsIn_cons (c : ℕ) (l : List ℕ) :
    slotsIn g v (c :: l) = slotsOf g.entriesPerCluster (v.data c) ++ slotsIn g v l := rfl

@[simp] lemma slotsIn_append (l l' : List ℕ) :
    slotsIn g v (l ++ l') = slotsIn g v l ++ slotsIn g v l' := by
  simp [slotsIn]

@[simp] lemma slotsIn_length (l : List ℕ) :
    (slotsIn g v l).length = l.length * g.entriesPerCluster := by
  simp [slotsIn]

/-- The slots only depend on the bytes of the clusters. -/
lemma slotsIn_congr {w : Vol} {l : List ℕ} (h : ∀ c ∈ l, w.data c = v.data c) :
    slotsIn g w l = slotsIn g v l := by
  induction l with
  | nil => rfl
  | cons c l ih =>
    rw [slotsIn_cons, slotsIn_cons, h c (by simp), ih fun x hx => h x (List.mem_cons_of_mem c hx)]

/-- The slot at an index stands in the cluster of that index. -/
lemma slotsIn_getElem? {l : List ℕ} {k : ℕ} (hk : k < l.length * g.entriesPerCluster) :
    (slotsIn g v l)[k]? = some (slotAt (v.data (posIn g l k).1) (posIn g l k).2) := by
  induction l generalizing k with
  | nil => simp at hk
  | cons c l ih =>
    have hpos : 0 < g.entriesPerCluster := by
      rcases Nat.eq_zero_or_pos g.entriesPerCluster with h | h
      · rw [h] at hk; omega
      · exact h
    rw [slotsIn_cons, posIn]
    by_cases h : k < g.entriesPerCluster
    · rw [List.getElem?_append_left (by simpa using h), slotsOf_getElem? _ h,
        Nat.div_eq_of_lt h, Nat.mod_eq_of_lt h]
      rfl
    · have hk' : k - g.entriesPerCluster < l.length * g.entriesPerCluster := by
        rw [List.length_cons, Nat.add_mul, Nat.one_mul] at hk
        omega
      rw [List.getElem?_append_right (by simpa using h), slotsOf_length, ih hk', posIn]
      have hd : k / g.entriesPerCluster = (k - g.entriesPerCluster) / g.entriesPerCluster + 1 := by
        rw [Nat.div_eq_sub_div hpos (by omega)]
      have hm : k % g.entriesPerCluster = (k - g.entriesPerCluster) % g.entriesPerCluster := by
        rw [Nat.mod_eq_sub_mod (by omega)]
      rw [hd, hm, List.getD_cons_succ]

lemma wanted_shift (accept : UInt8 → Bool) (name : Name) (k : ℕ) :
    Entry.wanted accept name ∘ Entry.shift k = Entry.wanted accept name := rfl

/-- A search among the entries of slots that stand at a later index. -/
lemma find?_decodeFrom_shift (accept : UInt8 → Bool) (name : Name)
    (ss : List Slot) (k : ℕ) (st : LfnState) :
    (decodeFrom ss k st).find? (Entry.wanted accept name)
      = ((decodeFrom ss 0 st).find? (Entry.wanted accept name)).map (Entry.shift k) := by
  have h := decodeFrom_shift ss 0 k st
  rw [Nat.zero_add] at h
  rw [h, List.find?_map, wanted_shift]

/-- The loop over a chain is a search in the entries of its slots. -/
lemma scanChain_eq (accept : UInt8 → Bool) (name : Name) (l : List ℕ) : ∀ (q : ℕ) (st : LfnState),
      scanChain g accept name v l q st
        = ((decodeFrom (slotsIn g v l) (q * g.entriesPerCluster) st).find?
            (Entry.wanted accept name)).map
          fun en => (en.idx / g.entriesPerCluster, en.idx % g.entriesPerCluster, en.slot) := by
  induction l with
  | nil => intro q st; rfl
  | cons c cs ih =>
    intro q st
    rw [scanChain, slotsIn_cons, decodeFrom_append]
    set ss := slotsOf g.entriesPerCluster (v.data c) with hss
    have hlen : ss.length = g.entriesPerCluster := slotsOf_length _ _
    have hshift := find?_decodeFrom_shift accept name ss (q * g.entriesPerCluster) st
    cases hf : (decodeFrom ss 0 st).find? (Entry.wanted accept name) with
    | some en =>
      obtain ⟨st', hscan⟩ := scanSlots_found hf
      obtain ⟨j, hj, hj', -⟩ := mem_decodeFrom (List.mem_of_find?_eq_some hf)
      have hlt : en.idx < g.entriesPerCluster := by
        have := (List.getElem?_eq_some_iff.mp hj').1
        omega
      have hfind : (if hasZero ss = true
          then decodeFrom ss (q * g.entriesPerCluster) st
          else decodeFrom ss (q * g.entriesPerCluster) st ++ decodeFrom (slotsIn g v cs)
              (q * g.entriesPerCluster + ss.length)
              (ss.foldl lfnStep st)).find? (Entry.wanted accept name)
          = some (en.shift (q * g.entriesPerCluster)) := by
        rw [hf, Option.map_some] at hshift
        split_ifs
        · exact hshift
        · rw [List.find?_append, hshift]
          rfl
      have hidx : (en.shift (q * g.entriesPerCluster)).idx = en.idx + q * g.entriesPerCluster := rfl
      rw [hscan, hfind, Option.map_some, hidx,
        Nat.add_mul_div_right _ _ (by omega), Nat.div_eq_of_lt hlt,
        Nat.zero_add, Nat.add_mul_mod_self_right, Nat.mod_eq_of_lt hlt]
      rfl
    | none =>
      rw [hf, Option.map_none] at hshift
      rw [scanSlots_none hf]
      by_cases hz : hasZero ss = true
      · simp only [hz, if_true, hshift, Option.map_none]
      · have hrest := ih (q + 1) (ss.foldl lfnStep st)
        rw [Nat.add_mul, Nat.one_mul] at hrest
        rw [if_neg hz, if_neg hz, List.find?_append, hshift, Option.none_or, hlen]
        exact hrest

/-- The head and the rest of a part of a list. -/
lemma getD_of_drop {L cs : List ℕ} {q c : ℕ} (h : L.drop q = c :: cs) :
    L.getD q 0 = c ∧ L.drop (q + 1) = cs := by
  rw [← List.tail_drop, List.getD_eq_getElem?_getD, ← List.head?_drop, h]
  exact ⟨rfl, rfl⟩

end

/-! ### The scans that track LFN slots -/

/-- The number of LFN slots that directly precede index `k`. -/
def runBefore (ss : List Slot) (k : ℕ) : ℕ :=
  ((ss.take k).reverse.takeWhile Slot.isLfn).length

/-- The indices that a scan tracks before index `k`: the LFN slots that directly
precede it, at most `MAX_LFN_TRACK` of them. -/
def runIndices (ss : List Slot) (k : ℕ) : List ℕ :=
  List.range' (k - runBefore ss k) (min (runBefore ss k) maxLfnTrack)

/-- The tracked positions before index `k` of the slots of the clusters `l`. -/
def trackAt (g : Geom) (l : List ℕ) (ss : List Slot) (k : ℕ) : List (ℕ × ℕ) :=
  (runIndices ss k).map (posIn g l)

section

variable {g : Geom} {E : Env} {v : Vol}

lemma runBefore_le (ss : List Slot) (k : ℕ) : runBefore ss k ≤ k := by
  have h1 := (List.takeWhile_prefix Slot.isLfn (l := (ss.take k).reverse)).length_le
  rw [List.length_reverse, List.length_take] at h1
  rw [runBefore]
  omega

lemma runBefore_succ {ss : List Slot} {k : ℕ} {e : Slot} (h : ss[k]? = some e) :
    runBefore ss (k + 1) = if e.isLfn then runBefore ss k + 1 else 0 := by
  rw [runBefore, List.take_add_one, h, Option.toList_some, List.reverse_append,
    List.reverse_singleton, List.singleton_append, List.takeWhile_cons, runBefore]
  cases e.isLfn <;> simp

/-- The slots in the run before an index are LFN slots. -/
lemma isLfn_of_mem_run {ss : List Slot} {k j : ℕ} {e : Slot} (h1 : k - runBefore ss k ≤ j)
    (h2 : j < k) (h3 : k ≤ ss.length) (he : ss[j]? = some e) : e.isLfn = true := by
  induction k with
  | zero => omega
  | succ k ih =>
    obtain ⟨a, ha⟩ : ∃ a, ss[k]? = some a :=
      ⟨ss[k], List.getElem?_eq_getElem (by omega)⟩
    rw [runBefore_succ ha] at h1
    cases hl : a.isLfn with
    | false => simp [hl] at h1; omega
    | true =>
      simp only [hl, if_true] at h1
      rcases Nat.lt_or_ge j k with hj | hj
      · exact ih (by omega) hj (by omega)
      · obtain rfl : j = k := by omega
        rw [ha, Option.some.injEq] at he
        exact he ▸ hl

lemma trackAt_zero (l : List ℕ) (ss : List Slot) : trackAt g l ss 0 = [] := by
  have := runBefore_le ss 0
  simp [trackAt, runIndices, show runBefore ss 0 = 0 from by omega]

/-- The tracked positions behind an LFN slot. -/
lemma trackAt_succ_lfn {l : List ℕ} {ss : List Slot} {k : ℕ} {e : Slot}
    (h : ss[k]? = some e) (hl : e.isLfn = true) :
    trackAt g l ss (k + 1) =
      if (trackAt g l ss k).length < maxLfnTrack
      then trackAt g l ss k ++ [posIn g l k] else trackAt g l ss k := by
  have hle := runBefore_le ss k
  simp only [trackAt, runIndices, runBefore_succ h, hl, if_true, List.length_map,
    List.length_range']
  rw [show k + 1 - (runBefore ss k + 1) = k - runBefore ss k from by omega]
  by_cases hr : runBefore ss k < maxLfnTrack
  · rw [if_pos (by omega), Nat.min_eq_left (by omega), Nat.min_eq_left (by omega),
      List.range'_concat, List.map_append, List.map_singleton,
      show k - runBefore ss k + 1 * runBefore ss k = k from by omega]
  · rw [if_neg (by omega), Nat.min_eq_right (by omega), Nat.min_eq_right (by omega)]

/-- Nothing is tracked behind another slot. -/
lemma trackAt_succ_other {l : List ℕ} {ss : List Slot} {k : ℕ} {e : Slot}
    (h : ss[k]? = some e) (hl : e.isLfn = false) :
    trackAt g l ss (k + 1) = [] := by
  simp [trackAt, runIndices, runBefore_succ h, hl]

/-- The position of an index that is `i` slots into cluster number `q`. -/
lemma posIn_mul_add {l : List ℕ} {q i : ℕ} (hi : i < g.entriesPerCluster) :
    posIn g l (q * g.entriesPerCluster + i) = (l.getD q 0, i) := by
  rw [posIn, Nat.add_comm, Nat.add_mul_div_right _ _ (by omega),
    Nat.div_eq_of_lt hi, Nat.zero_add, Nat.add_mul_mod_self_right,
    Nat.mod_eq_of_lt hi]

/-- The branches of the tracking scan loop. -/
lemma trackSlots_cons (accept : UInt8 → Bool) (name : Name) (c : ℕ) (e : Slot)
    (es : List Slot) (i : ℕ) (st : TrackState) :
    trackSlots accept name c (e :: es) i st =
      if e 0 = 0 then .stop
      else if e.live && (entryAt i e st.lfn).wanted accept name then .found i e st
      else trackSlots accept name c es (i + 1) (if e.isLfn then st.push e c i else st.reset) := by
  rw [trackSlots, Entry.wanted, entryAt_hit]
  simp only [Slot.live, Slot.isLfn, entryAt]
  by_cases h0 : e 0 = 0
  · simp [h0]
  by_cases h1 : e 0 = 0xE5
  · simp [h1]
  by_cases h2 : e.attr = 0x0F
  · simp [h0, h1, h2]
  by_cases h3 : e.attr = 0x08
  · simp [h0, h1, h3]
  rcases Bool.eq_false_or_eq_true (accept e.attr) with h4 | h4 <;>
    simp [h0, h1, h2, h3, h4]

/-- The tracking scan of one cluster behaves as the plain scan, and its tracked
positions are those of the run before the current slot. -/
lemma trackSlots_eq (accept : UInt8 → Bool) (name : Name) {l : List ℕ}
    (ss : List Slot) {q : ℕ} (es : List Slot) :
    ∀ (i : ℕ) (st : TrackState), i + es.length = g.entriesPerCluster →
      (∀ j, es[j]? = ss[q * g.entriesPerCluster + i + j]? ∨ es.length ≤ j) →
      st.track = trackAt g l ss (q * g.entriesPerCluster + i) →
      match scanSlots accept name es i st.lfn with
      | .stop => trackSlots accept name (l.getD q 0) es i st = .stop
      | .found i' e st' =>
        trackSlots accept name (l.getD q 0) es i st
          = .found i' e ⟨st', trackAt g l ss (q * g.entriesPerCluster + i')⟩
      | .more st' =>
        trackSlots accept name (l.getD q 0) es i st
          = .more ⟨st', trackAt g l ss ((q + 1) * g.entriesPerCluster)⟩ := by
  induction es with
  | nil =>
    intro i st hi _ ht
    rw [List.length_nil, Nat.add_zero] at hi
    rw [hi] at ht
    rw [scanSlots, trackSlots, Nat.add_mul, Nat.one_mul, ← ht]
  | cons e es ih =>
    intro i st hi hes ht
    have he : ss[q * g.entriesPerCluster + i]? = some e := by
      rcases hes 0 with h | h
      · simpa using h.symm
      · simp at h
    have hlt : i < g.entriesPerCluster := by simp at hi; omega
    rw [scanSlots_cons, trackSlots_cons]
    by_cases h0 : e 0 = 0
    · simp [h0]
    · rw [if_neg h0, if_neg h0]
      cases hw : e.live && (entryAt i e st.lfn).wanted accept name with
      | true =>
        rw [if_pos rfl, if_pos rfl]
        show Scan.found i e st = _
        rw [← ht]
      | false =>
        rw [if_neg (by simp), if_neg (by simp)]
        -- the state behind this slot satisfies the hypotheses again
        set st' := if e.isLfn then st.push e (l.getD q 0) i else st.reset
          with hst'
        have hlfn : st'.lfn = lfnStep st.lfn e := by
          rw [hst', lfnStep]
          cases e.isLfn <;> rfl
        have htrack : st'.track = trackAt g l ss (q * g.entriesPerCluster + (i + 1)) := by
          rw [← Nat.add_assoc, hst']
          cases hl : e.isLfn with
          | true =>
            rw [trackAt_succ_lfn he hl, ← ht, if_pos rfl]
            rw [posIn_mul_add hlt]
            rfl
          | false =>
            rw [trackAt_succ_other he hl]
            rfl
        rw [← hlfn]
        refine ih (i + 1) st' (by simp at hi; omega) (fun j => ?_) htrack
        rcases hes (j + 1) with h | h
        · refine Or.inl ?_
          rw [show q * g.entriesPerCluster + (i + 1) + j
            = q * g.entriesPerCluster + i + (j + 1) from by omega, ← h]
          rfl
        · exact Or.inr (by simpa using h)

/-- What the tracking scans return for the entry at cluster number `q` and index
`i` of the chain `L`. -/
def foundAt (g : Geom) (v : Vol) (L : List ℕ) (q i : ℕ) (e : Slot) : Found where
  cluster := L.getD q 0
  buf := v.data (L.getD q 0)
  idx := i
  slot := e
  track := trackAt g L (slotsIn g v L) (q * g.entriesPerCluster + i)

/-- The slots of cluster number `q` among those of all clusters. -/
lemma slotsIn_drop_getElem? {L cs : List ℕ} {q c j : ℕ} (hL : L.drop q = c :: cs)
    (hj : j < g.entriesPerCluster) :
    (slotsIn g v L)[q * g.entriesPerCluster + j]?
      = (slotsOf g.entriesPerCluster (v.data c))[j]? := by
  have hsplit : L = L.take q ++ c :: cs := by rw [← hL, List.take_append_drop]
  have hq : (L.take q).length = q := by
    have hlen := congrArg List.length hL
    rw [List.length_drop, List.length_cons] at hlen
    rw [List.length_take]
    omega
  rw [hsplit, slotsIn_append, slotsIn_cons,
    List.getElem?_append_right (by rw [slotsIn_length, hq]; omega),
    slotsIn_length, hq, Nat.add_sub_cancel_left,
    List.getElem?_append_left (by simpa using hj)]

/-- A scan along the part of the chain `L` from cluster number `q` on, with
enough steps left. -/
lemma trackScanLoop_det (hg : g.Valid) (accept : UInt8 → Bool) (name : Name)
    (L : List ℕ) {c : ℕ} {l : List ℕ} (h : IsChain g v c l) :
    ∀ n, l.length ≤ n → ∀ (q : ℕ) (st : TrackState), L.drop q = l →
      st.track = trackAt g L (slotsIn g v L) (q * g.entriesPerCluster) →
      VDet g E (trackScanLoop g accept name n c st) v ((scanChain g accept name v l q st.lfn).map
          fun p => foundAt g v L p.1 p.2.1 p.2.2) v := by
  intro n hn
  refine IsChain.rounds hg h n hn (fun n c hc q st _ _ => ?_) fun n c cs hc _ ih q st hL ht => ?_
  · cases n with
    | zero => exact Det.pure _
    | succ n =>
      rw [trackScanLoop, if_neg hc]
      exact Det.pure _
  · obtain ⟨hq, hrest⟩ := getD_of_drop hL
    have heq := trackSlots_eq (g := g) accept name (l := L) (slotsIn g v L)
      (q := q) (slotsOf g.entriesPerCluster (v.data c)) 0 st (by simp)
      (fun j => by
        rcases Nat.lt_or_ge j g.entriesPerCluster with hj | hj
        · exact Or.inl (slotsIn_drop_getElem? hL hj).symm
        · exact Or.inr (by simpa using hj))
      (by rw [Nat.add_zero]; exact ht)
    rw [hq] at heq
    rw [trackScanLoop, if_pos (hg.lt_eoc hc), scanChain]
    refine (det_readCluster hg hc).attempt.bind ?_
    dsimp only
    cases hscan : scanSlots accept name (slotsOf g.entriesPerCluster (v.data c)) 0 st.lfn with
    | stop =>
      rw [hscan] at heq
      rw [heq]
      exact Det.pure _
    | found i e st' =>
      rw [hscan] at heq
      rw [heq]
      simp only [Option.map_some, foundAt, hq]
      exact Det.pure _
    | more st' =>
      rw [hscan] at heq
      rw [heq]
      exact (det_fatNextCluster hc).bind (ih (q + 1) _ hrest rfl)

/-- **The scans of write, delete and rename** find the first wanted entry and the run of
LFN slots before it. -/
theorem det_trackScan (hg : g.Valid) (accept : UInt8 → Bool) (name : Name)
    {d : ℕ} {l : List ℕ} (h : IsChain g v d l) :
    VDet g E (trackScan g accept name d) v (((entries g v d).find? (Entry.wanted accept name)).map
        fun en => foundAt g v l (en.idx / g.entriesPerCluster)
          (en.idx % g.entriesPerCluster) en.slot) v := by
  have hs := scanChain_eq (g := g) (v := v) accept name l 0 .init
  have hd := trackScanLoop_det (E := E) hg accept name l h _ (h.length_le hg) 0 .init
    rfl (by rw [Nat.zero_mul, trackAt_zero]; rfl)
  rw [show TrackState.init.lfn = LfnState.init from rfl, hs, Nat.zero_mul, Option.map_map] at hd
  rw [entries, dirSlots, h.chainOf_eq hg]
  exact hd

end

/-! ### The scans that only read the entry -/

/-- The outcome of a scan with the state of the decoder only. -/
def Scan.forget : Scan TrackState → Scan LfnState
  | .stop => .stop
  | .found i e st => .found i e st.lfn
  | .more st => .more st.lfn

/-- The cluster, the index and the slot that were found. -/
def Found.entry (f : Found) : ℕ × ℕ × Slot := (f.cluster, f.idx, f.slot)

section

variable {g : Geom} {E : Env} {v : Vol} {accept : UInt8 → Bool} {name : Name}

lemma trackSlots_forget (c : ℕ) (es : List Slot) : ∀ (i : ℕ) (st : TrackState),
    (trackSlots accept name c es i st).forget = scanSlots accept name es i st.lfn := by
  induction es with
  | nil => exact fun i st => rfl
  | cons e es ih =>
    intro i st
    rw [trackSlots_cons, scanSlots_cons]
    split
    · rfl
    · split
      · rfl
      · rw [ih, lfnStep]
        split <;> rfl

/-- **The two scans of a directory** make the same accesses and find the same entry. -/
lemma dirScanLoop_eq (n : ℕ) : ∀ (c : ℕ) (st : TrackState) (s : State),
    dirScanLoop g accept name n c st.lfn s = Prod.map (Option.map (Option.map Found.entry)) id
        (trackScanLoop g accept name n c st s) := by
  induction n with
  | zero => exact fun c st s => rfl
  | succ n ih =>
    intro c st s
    rw [dirScanLoop, trackScanLoop]
    split
    · rw [bind_apply, bind_apply]
      rcases hread : readCluster g c s with ⟨_ | b, s₁⟩
      · rw [attempt_of_eq hread]
        rfl
      · rw [attempt_of_eq hread]
        dsimp only
        rw [← trackSlots_forget c (slotsOf g.entriesPerCluster b) 0 st]
        cases trackSlots accept name c (slotsOf g.entriesPerCluster b) 0 st with
        | stop => rfl
        | found i e st' => rfl
        | more st' =>
          dsimp only [Scan.forget]
          rw [bind_apply, bind_apply]
          rcases fatNextCluster g c s₁ with ⟨_ | next, s₂⟩
          · rfl
          · exact ih next st' s₂
    · rfl

lemma dirScan_eq (accept : UInt8 → Bool) (name : Name) (c : ℕ) (s : State) :
    dirScan g accept name c s = Prod.map (Option.map (Option.map Found.entry)) id
      (trackScan g accept name c s) := dirScanLoop_eq _ c .init s

/-- **A scan of a directory is a search in its entries.** -/
theorem det_dirScan (hg : g.Valid) (accept : UInt8 → Bool) (name : Name)
    {d : ℕ} {l : List ℕ} (h : IsChain g v d l) :
    VDet g E (dirScan g accept name d) v (((entries g v d).find? (Entry.wanted accept name)).map
        fun en => ((posIn g l en.idx).1, (posIn g l en.idx).2, en.slot)) v := by
  intro s hI hs
  have hd := det_trackScan (E := E) hg accept name h s hI hs
  rw [dirScan_eq]
  generalize trackScan g accept name d s = r at hd ⊢
  obtain ⟨o, s'⟩ := r
  obtain ⟨hI', hr, hw⟩ := hd
  refine ⟨hI', ?_, hw⟩
  dsimp only at hr
  rw [Prod.map_fst, hr, Option.map_some, Option.map_map]
  rfl

end

end GordOS.Fat32
