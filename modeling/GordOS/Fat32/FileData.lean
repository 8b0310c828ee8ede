/-
The contents of a file: writing a chain of clusters and reading it back.

* `Wrote`: clusters, free before, that hold the first parts of some data;
* `spec_writeDataLoop`: the loop of `fat32_write_file` builds such a chain and
  stops early only on a volume without free clusters;
* `fileBytes`, `det_readFileLoop`: reading returns the bytes of the chain, cut to
  the size;
* `take_chunkBytes`: the parts of the data, put together again.
-/
import Mathlib.Data.List.GetD
import Mathlib.Tactic
import GordOS.Fat32.Ops
import GordOS.Fat32.Append

namespace GordOS.Fat32

open GordOS GordOS.Fallible

section

variable {g : Geom} {E : Env} {v : Vol}

/-! ### Writing -/

/-- The chain built so far: none, or the clusters `P` from `first` to `prev`. -/
def Built (g : Geom) (v : Vol) (P : List ℕ) (first prev : ℕ) : Prop :=
  (P = [] ∧ first = 0 ∧ prev = 0) ∨
  (IsChain g v first P ∧ ∃ q, P.drop q = [prev])

/-- The clusters `new`, free in `v`, hold the first of the parts `ds`; if some are
missing, the volume is full. Only these clusters and the links of `P` change. -/
structure Wrote (g : Geom) (v : Vol) (P : List ℕ) (ds : List (List UInt8))
    (v' : Vol) (new : List ℕ) : Prop where
  le : new.length ≤ ds.length
  fresh : ∀ x ∈ new, g.InRange x ∧ v.next x = 0
  next_eq : ∀ x, x ∉ P → x ∉ new → v'.next x = v.next x
  data_eq : ∀ x, x ∉ new → v'.data x = v.data x
  data : new.map v'.data
    = (ds.take new.length).map fun d => g.trim (bufOfBytes d)
  full : new.length < ds.length → firstFree g v' = none

lemma Wrote.nil {P : List ℕ} {ds : List (List UInt8)} (h : 0 < ds.length → firstFree g v = none) :
    Wrote g v P ds v [] where
  le := Nat.zero_le _
  fresh := by simp
  next_eq := fun _ _ _ => rfl
  data_eq := fun _ _ => rfl
  data := by simp
  full := by simpa using h

/-- One more part: the volume behind the step of the loop. -/
def Vol.addPart (g : Geom) (v : Vol) (prev c : ℕ) (d : List UInt8) : Vol :=
  (if prev ≠ 0 then (v.setNext c endMark).setNext prev c
    else v.setNext c endMark).setData c (g.trim (bufOfBytes d))

lemma Vol.addPart_next_self {prev c : ℕ} (d : List UInt8) (h : prev ≠ c) :
    (v.addPart g prev c d).next c = endMark := by
  rw [Vol.addPart]
  split_ifs <;> simp [Vol.setNext, Function.update, h.symm]

lemma Vol.addPart_next_ne {prev c x : ℕ} (d : List UInt8) (hp : x ≠ prev) (hc : x ≠ c) :
    (v.addPart g prev c d).next x = v.next x := by
  rw [Vol.addPart]
  split_ifs <;> simp [Vol.setNext, Function.update, hp, hc]

lemma Vol.addPart_data_self (prev c : ℕ) (d : List UInt8) :
    (v.addPart g prev c d).data c = g.trim (bufOfBytes d) := by
  rw [Vol.addPart, Vol.setData_data_same]

lemma Vol.addPart_data_ne {prev c x : ℕ} (d : List UInt8) (hc : x ≠ c) :
    (v.addPart g prev c d).data x = v.data x := by
  rw [Vol.addPart, Vol.setData_data_ne _ _ _ _ hc]
  split_ifs <;> rfl

lemma Built.mem {P : List ℕ} {first prev : ℕ} (h : Built g v P first prev) (h0 : prev ≠ 0) :
    prev ∈ P := by
  rcases h with ⟨-, -, rfl⟩ | ⟨-, q, hq⟩
  · exact absurd rfl h0
  · exact mem_of_drop_eq_cons hq

lemma Built.notMem {P : List ℕ} {first prev c : ℕ} (h : Built g v P first prev)
    (h0 : v.next c = 0) : c ∉ P := by
  rcases h with ⟨rfl, -⟩ | ⟨h, -⟩
  · simp
  · exact fun hc => h.next_ne_zero c hc h0

/-- The chain built, with one more part. -/
lemma Built.addPart (hg : g.Valid) {P : List ℕ} {first prev c : ℕ} (d : List UInt8)
    (h : Built g v P first prev) (hr : g.InRange c) (h0 : v.next c = 0) :
    Built g (v.addPart g prev c d) (P ++ [c]) (if prev ≠ 0 then first else c) c := by
  refine Or.inr ⟨?_, P.length, by simp⟩
  have hc0 : c ≠ 0 := by
    have := hr.1
    omega
  rcases h with ⟨rfl, rfl, rfl⟩ | ⟨hP, q, hq⟩
  · rw [if_neg (by simp)]
    refine Chain.last hr ?_
    rw [Vol.addPart_next_self d hc0.symm]
    decide
  · have hprev : prev ≠ 0 := by
      have := (hP.inRange prev (mem_of_drop_eq_cons hq)).1
      omega
    rw [if_pos hprev]
    refine (hP.grow hg hq hr h0).congr fun x _ => ?_
    rw [Vol.addPart, if_pos hprev]
    rfl

lemma spec_writeDataStep (hg : g.Valid) {P : List ℕ} {first prev : ℕ}
    (d : List UInt8) (h : Built g v P first prev) :
    VSpec g E (writeDataStep g d prev) v fun r v' =>
      (r = none ∧ v' = v ∧ firstFree g v = none) ∨
      ∃ c, r = some c ∧ g.InRange c ∧ v.next c = 0 ∧ v' = v.addPart g prev c d := by
  rw [writeDataStep]
  refine (det_alloc hg).bind ?_ ?_
  · rintro c w (⟨h', rfl, hf⟩ | ⟨c', h', hr, h0, rfl⟩)
    · obtain rfl : c = 0 := by simpa using h'
      rw [if_pos rfl]
      exact Spec.fail (Or.inl ⟨rfl, rfl, hf⟩)
    · obtain rfl : c = c' := by simpa using h'
      have hn0 : c ≠ 0 := by
        have := hr.1
        omega
      rw [if_neg hn0]
      by_cases hp : prev ≠ 0
      · rw [if_pos hp]
        have hpR : g.InRange prev := by
          rcases h with ⟨-, -, h⟩ | ⟨hP, q, hq⟩
          · exact absurd h hp
          · exact hP.inRange _ (mem_of_drop_eq_cons hq)
        refine (det_fatSetCluster hg c hpR).ignore.bind ?_
        refine (det_writeCluster hg _ hr).bind (Spec.pure (Or.inr ?_))
        refine ⟨c, rfl, hr, h0, ?_⟩
        rw [Vol.addPart, if_pos hp, hg.mod_eq hr]
      · rw [if_neg hp]
        refine (det_writeCluster hg _ hr).bind (Spec.pure (Or.inr ?_))
        exact ⟨c, rfl, hr, h0, by rw [Vol.addPart, if_neg hp]⟩
  · rintro w (⟨h, -⟩ | ⟨_, h, -⟩) <;> cases h

lemma writeDataLoop_spec (hg : g.Valid) (ds : List (List UInt8)) :
    ∀ (v : Vol) (P : List ℕ) (first prev : ℕ), Built g v P first prev →
      VSpec g E (writeDataLoop g ds first prev) v fun r v' =>
        ∃ new, Wrote g v P ds v' new ∧ (r = none ↔ new.length < ds.length) ∧
          ∀ a, r = some a → ∃ last, Built g v' (P ++ new) a last := by
  induction ds with
  | nil =>
    intro v P first prev h
    rw [writeDataLoop]
    refine Spec.pure ⟨[], Wrote.nil (by simp), by simp, ?_⟩
    rintro a ha
    obtain rfl : first = a := by simpa using ha
    exact ⟨prev, by simpa using h⟩
  | cons d ds ih =>
    intro v P first prev h
    rw [writeDataLoop]
    refine (spec_writeDataStep hg d h).bind ?_ ?_
    · rintro c w (⟨h', -⟩ | ⟨c', h', hr, h0, rfl⟩)
      · cases h'
      · obtain rfl : c = c' := by simpa using h'
        have hcP : c ∉ P := h.notMem h0
        have hprev : prev ≠ c := by
          rintro rfl
          have := hr.1
          exact hcP (h.mem (by omega))
        refine (ih _ _ _ _ (h.addPart hg d hr h0)).mono ?_
        rintro r v' ⟨new, hw, hn, hb⟩
        -- the clusters of the later parts are free, so `c` is not among them
        have hcn : c ∉ new := by
          intro hc
          have := (hw.fresh c hc).2
          rw [Vol.addPart_next_self d hprev] at this
          exact absurd this (by decide)
        refine ⟨c :: new, ⟨by simpa using hw.le, ?_, ?_, ?_, ?_, ?_⟩, by simpa using hn, ?_⟩
        · intro x hx
          rcases List.mem_cons.mp hx with rfl | hx
          · exact ⟨hr, h0⟩
          · obtain ⟨h1, h2⟩ := hw.fresh x hx
            refine ⟨h1, ?_⟩
            have hxc : x ≠ c := fun h => hcn (h ▸ hx)
            have hxp : x ≠ prev := by
              rintro rfl
              have hx0 : x ≠ 0 := by
                have := h1.1
                omega
              have hxP : x ∈ P ++ [c] := List.mem_append_left _ (h.mem hx0)
              exact (h.addPart hg d hr h0).notMem h2 hxP
            rwa [Vol.addPart_next_ne d hxp hxc] at h2
        · intro x hxP hx
          rw [List.mem_cons, not_or] at hx
          rw [hw.next_eq x (by simp [hxP, hx.1]) hx.2]
          by_cases hx0 : x = 0
          · have hc2 := hr.1
            by_cases hp : prev = 0
            · rw [Vol.addPart, hp, if_neg (by simp), Vol.setData_next,
                Vol.setNext_next_ne _ _ _ _ hx.1]
            · exact Vol.addPart_next_ne d (by omega) hx.1
          · refine Vol.addPart_next_ne d ?_ hx.1
            rintro rfl
            exact hxP (h.mem hx0)
        · intro x hx
          rw [List.mem_cons, not_or] at hx
          rw [hw.data_eq x hx.2, Vol.addPart_data_ne d hx.1]
        · rw [List.map_cons, hw.data, hw.data_eq c hcn, Vol.addPart_data_self]
          rfl
        · intro hlt
          exact hw.full (by simpa using hlt)
        · intro a ha
          obtain ⟨last, hl⟩ := hb a ha
          exact ⟨last, by simpa using hl⟩
    · rintro w (⟨-, rfl, hf⟩ | ⟨_, h', -⟩)
      · exact ⟨[], Wrote.nil fun _ => hf, by simp, by simp⟩
      · cases h'

/-- **Writing the data** of a file to a new chain. -/
theorem spec_writeDataLoop (hg : g.Valid) {ds : List (List UInt8)} (hds : ds ≠ []) :
    VSpec g E (writeDataLoop g ds 0 0) v fun r v' =>
      ∃ new, Wrote g v [] ds v' new ∧ (r = none ↔ new.length < ds.length) ∧
        ∀ a, r = some a → IsChain g v' a new := by
  refine (writeDataLoop_spec hg ds v [] 0 0 (Or.inl ⟨rfl, rfl, rfl⟩)).mono ?_
  rintro r v' ⟨new, hw, hn, hb⟩
  refine ⟨new, hw, hn, fun a ha => ?_⟩
  obtain ⟨last, ⟨h, -⟩ | ⟨h, -⟩⟩ := hb a ha
  · -- all parts were written, so the chain is not empty
    have hlt : ¬ new.length < ds.length := fun h => by simp [hn.mpr h] at ha
    obtain rfl : new = [] := by simpa using h
    exact absurd (List.length_pos_iff.mpr hds) hlt
  · simpa using h

/-! ### Reading -/

/-- The bytes of the clusters of a file of some size. -/
def fileBytes (g : Geom) (v : Vol) (l : List ℕ) (size : ℕ) : List UInt8 :=
  (l.flatMap fun c => bytesOf (v.data c) g.clusterBytes).take size

@[simp] lemma bytesOf_length (b : Buf) (n : ℕ) : (bytesOf b n).length = n := by
  simp [bytesOf]

lemma bytesOf_take (b : Buf) (n m : ℕ) : (bytesOf b n).take m = bytesOf b (min m n) := by
  rw [bytesOf, ← List.map_take, List.take_range, bytesOf]

/-- The file only depends on the bytes of its clusters. -/
lemma fileBytes_congr {w : Vol} {l : List ℕ} (n : ℕ) (h : ∀ c ∈ l, w.data c = v.data c) :
    fileBytes g w l n = fileBytes g v l n := by
  rw [fileBytes, fileBytes]
  congr 1
  refine List.flatMap_congr fun c hc => ?_
  rw [h c hc]

lemma fileBytes_cons (c : ℕ) (l : List ℕ) (n : ℕ) : fileBytes g v (c :: l) n
      = bytesOf (v.data c) (min n g.clusterBytes)
        ++ fileBytes g v l (n - min n g.clusterBytes) := by
  rw [fileBytes, List.flatMap_cons, List.take_append, bytesOf_take, bytesOf_length,
    fileBytes, show n - g.clusterBytes = n - min n g.clusterBytes by omega]

lemma readFileLoop_zero (n c : ℕ) : VDet g E (readFileLoop g n c 0) v [] v := by
  cases n with
  | zero =>
    rw [readFileLoop]
    exact Det.pure _
  | succ n =>
    rw [readFileLoop, if_neg (by omega)]
    exact Det.pure _

/-- **Reading a chain** returns its bytes, cut to the size. -/
theorem det_readFileLoop (hg : g.Valid) {c : ℕ} {l : List ℕ} (h : IsChain g v c l) :
    ∀ n, l.length ≤ n → ∀ left, VDet g E (readFileLoop g n c left) v (fileBytes g v l left) v := by
  intro n hn
  refine IsChain.rounds hg h n hn (fun n c hc left => ?_) fun n c cs hc _ ih left => ?_
  · rw [show fileBytes g v [] left = [] from List.take_nil]
    cases n with
    | zero =>
      rw [readFileLoop]
      exact Det.pure _
    | succ n =>
      rw [readFileLoop, if_neg fun h => hc ⟨h.1, h.2.1⟩]
      exact Det.pure _
  · by_cases h0 : left = 0
    · subst h0
      rw [show fileBytes g v (c :: cs) 0 = [] from rfl]
      exact readFileLoop_zero _ _
    · have hlt := hg.lt_eoc hc
      rw [readFileLoop, if_pos ⟨hlt.1, hlt.2, by omega⟩]
      refine (det_readCluster hg hc).attempt.bind ?_
      refine (det_fatNextCluster hc).bind ((ih _).bind ?_)
      rw [fileBytes_cons]
      exact Det.pure _

/-! ### The parts of the data -/

/-- A part of the data as the bytes of its cluster. -/
lemma bytesOf_bufOfBytes {d : List UInt8} (hd : d.length ≤ g.clusterBytes) :
    bytesOf (g.trim (bufOfBytes d)) g.clusterBytes
      = d ++ List.replicate (g.clusterBytes - d.length) 0 := by
  refine List.ext_getElem? fun i => ?_
  rcases Nat.lt_or_ge i g.clusterBytes with hi | hi
  · have h1 : (bytesOf (g.trim (bufOfBytes d)) g.clusterBytes)[i]? = some (d.getD i 0) := by
      simp [bytesOf, hi, Geom.trim, bufOfBytes]
    rw [h1]
    rcases Nat.lt_or_ge i d.length with hid | hid
    · rw [List.getElem?_append_left hid, List.getElem?_eq_getElem hid, List.getD_eq_getElem _ _ hid]
    · rw [List.getElem?_append_right hid, List.getElem?_replicate,
        if_pos (by omega), List.getD_eq_default _ _ hid]
  · rw [List.getElem?_eq_none (by simpa using hi), List.getElem?_eq_none (by simp; omega)]

/-- The parts put together again, with the padding of the last one. -/
lemma flatMap_parts (data : List UInt8) (n : ℕ) : ((List.range n).flatMap fun i =>
        bytesOf (g.trim (bufOfBytes
          ((data.drop (i * g.clusterBytes)).take g.clusterBytes))) g.clusterBytes)
      = data.take (n * g.clusterBytes) ++ List.replicate (n * g.clusterBytes - data.length) 0 := by
  induction n with
  | zero => simp
  | succ n ih =>
    have hlen : ((data.drop (n * g.clusterBytes)).take g.clusterBytes).length
        = min g.clusterBytes (data.length - n * g.clusterBytes) := by simp
    rw [List.range_succ, List.flatMap_append, ih, List.flatMap_singleton,
      bytesOf_bufOfBytes (by omega), hlen, Nat.succ_mul]
    rcases Nat.lt_or_ge data.length (n * g.clusterBytes) with h | h
    · rw [List.drop_of_length_le h.le, List.take_nil, List.nil_append,
        List.append_assoc, ← List.replicate_add, List.take_of_length_le h.le,
        List.take_of_length_le (by omega)]
      congr 2
      omega
    · rw [Nat.sub_eq_zero_of_le h, List.replicate_zero, List.append_nil,
        ← List.append_assoc, List.take_add]
      congr 2
      omega

lemma fileChunks_ne_nil (hg : g.Valid) {data : List UInt8} (h : data ≠ []) :
    fileChunks g data ≠ [] := by
  have h1 := List.length_pos_iff.mpr h
  have h2 := hg.clusterBytes_pos
  have h3 : 0 < (data.length + g.clusterBytes - 1) / g.clusterBytes :=
    Nat.div_pos (by omega) h2
  intro h0
  have := congrArg List.length h0
  simp only [fileChunks, List.length_map, List.length_range, List.length_nil] at this
  omega

/-- **Reading back** the clusters that hold all parts of some data. -/
theorem fileBytes_of_wrote (hg : g.Valid) {v' : Vol} {data : List UInt8} {new : List ℕ}
    (hd : new.map v'.data = (fileChunks g data).map fun d => g.trim (bufOfBytes d)) :
    fileBytes g v' new data.length = data := by
  have hpos := hg.clusterBytes_pos
  have hle : data.length
      ≤ (data.length + g.clusterBytes - 1) / g.clusterBytes * g.clusterBytes := by
    have h1 := Nat.div_add_mod (data.length + g.clusterBytes - 1) g.clusterBytes
    have h2 := Nat.mod_lt (data.length + g.clusterBytes - 1) hpos
    rw [Nat.mul_comm] at h1
    omega
  have hflat : (new.flatMap fun c => bytesOf (v'.data c) g.clusterBytes)
      = (new.map v'.data).flatMap fun b => bytesOf b g.clusterBytes := by
    rw [List.flatMap_map]
  rw [fileBytes, hflat, hd, fileChunks, List.map_map, List.flatMap_map]
  have hparts := flatMap_parts (g := g) data ((data.length + g.clusterBytes - 1) / g.clusterBytes)
  simp only [Function.comp_def]
  rw [hparts, List.take_of_length_le hle, List.take_left]

end

end GordOS.Fat32
