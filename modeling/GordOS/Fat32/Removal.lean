/-
Removing an entry: which slots `markDeleted` marks.

* `Vol.kill`: the slots at some positions marked as deleted;
* `spec_markDeleted`: the found entry is marked, tracked LFN slots are marked
  (all of them if every `kmalloc` call succeeds), and nothing else changes;
* `killAt`, `slotsIn_kill`: the same on the slots of a directory.
-/
import Mathlib.Data.List.GetD
import Mathlib.Tactic
import GordOS.Fat32.Entries

namespace GordOS.Fat32

open GordOS GordOS.Fallible

/-- A slot marked as deleted. -/
def Slot.dead (e : Slot) : Slot := Function.update e 0 0xE5

/-- The slots at some positions (cluster and index) marked as deleted. -/
def Vol.kill (v : Vol) (ps : List (ℕ × ℕ)) : Vol :=
  { v with
    data := fun c a =>
      if a % 32 = 0 ∧ (c, a / 32) ∈ ps then 0xE5 else v.data c a }

/-- The bytes behind the end of a cluster are not part of it. -/
def Trimmed (g : Geom) (v : Vol) : Prop :=
  ∀ c i, g.clusterBytes ≤ i → v.data c i = 0

section

variable {g : Geom} {E : Env} {v : Vol}

lemma Vol.kill_kill (ps qs : List (ℕ × ℕ)) : (v.kill ps).kill qs = v.kill (ps ++ qs) := by
  ext c a
  · rfl
  · simp only [Vol.kill, List.mem_append]
    split_ifs <;> simp_all

/-- The clusters without a marked slot keep their bytes. -/
lemma Vol.kill_data_of_notMem {ps : List (ℕ × ℕ)} {c : ℕ} (h : ∀ i, (c, i) ∉ ps) :
    (v.kill ps).data c = v.data c := by
  funext a
  exact if_neg fun hc => h _ hc.2

lemma slotAt_kill (ps : List (ℕ × ℕ)) (c i : ℕ) : slotAt ((v.kill ps).data c) i
      = if (c, i) ∈ ps then (slotAt (v.data c) i).dead
        else slotAt (v.data c) i := by
  funext j
  have hj := j.isLt
  have hd : (32 * i + (j : ℕ)) / 32 = i := by omega
  have hm : (32 * i + (j : ℕ)) % 32 = j := by omega
  simp only [slotAt, Vol.kill, hd, hm]
  by_cases hp : (c, i) ∈ ps
  · by_cases h0 : j = 0
    · subst h0
      simp [hp, Slot.dead]
    · have h0' : (j : ℕ) ≠ 0 := fun h => h0 (Fin.ext h)
      simp [hp, h0, h0', Slot.dead, slotAt]
  · simp [hp, slotAt]

/-- A specification may assume what holds of every volume read off a disk. -/
lemma spec_of_trimmed {α : Type} {m : M α} {Q : Option α → Vol → Prop}
    (h : Trimmed g v → VSpec g E m v Q) : VSpec g E m v Q := by
  intro s hs hv
  refine h (fun c i hi => ?_) s hs hv
  rw [← hv]
  simp only [vol]
  split_ifs with hc
  · rw [clusterBuf, readSectors, if_neg]
    rw [Geom.clusterBytes] at hi
    omega
  · rfl

lemma markTracked_eq (c : ℕ) (track : List (ℕ × ℕ)) (b : Buf) : markTracked c track b
      = fun a => if a % 32 = 0 ∧ (c, a / 32) ∈ track then 0xE5 else b a := by
  induction track generalizing b with
  | nil => simp [markTracked]
  | cons p ps ih =>
    obtain ⟨pc, pi⟩ := p
    rw [markTracked, List.foldl_cons, ← markTracked, ih]
    funext a
    by_cases hpc : pc = c
    · subst hpc
      simp only [if_true, List.mem_cons, Prod.mk.injEq, true_and]
      by_cases ha : a = pi * 32
      · subst ha
        simp
      · have : ¬ (a % 32 = 0 ∧ a / 32 = pi) := by omega
        by_cases hm : a % 32 = 0 ∧ (pc, a / 32) ∈ ps
        · simp [hm]
        · rw [if_neg hm, if_neg (by tauto), Function.update_of_ne ha]
    · have : c ≠ pc := fun h => hpc h.symm
      simp [hpc, this]

/-- Writing back a cluster with tracked slots marked. -/
lemma setData_mark (ht : Trimmed g v) (c : ℕ) {ps : List (ℕ × ℕ)}
    (hps : ∀ p ∈ ps, p.2 < g.entriesPerCluster) :
    v.setData c (g.trim fun a =>
        if a % 32 = 0 ∧ (c, a / 32) ∈ ps then 0xE5 else v.data c a)
      = v.kill (ps.filter fun p => p.1 == c) := by
  ext c' a
  · rfl
  · simp only [Vol.kill, List.mem_filter, beq_iff_eq]
    by_cases hc : c' = c
    · subst hc
      rw [Vol.setData_data_same, Geom.trim]
      simp only [and_true]
      by_cases ha : a < g.clusterBytes
      · rw [if_pos ha]
      · rw [if_neg ha, if_neg, ht _ _ (by omega)]
        rintro ⟨-, hm⟩
        have h1 := hps _ hm
        rw [Geom.entriesPerCluster] at h1
        have h2 : g.clusterBytes % 32 = 0 := by
          rw [Geom.clusterBytes]
          omega
        simp only at h1
        omega
    · rw [Vol.setData_data_ne _ _ _ _ hc, if_neg]
      rintro ⟨-, -, h⟩
      exact hc h

/-- The loop over the tracked slots in other clusters. -/
lemma spec_markOthers (hg : g.Valid) (c : ℕ) (ks : List ℕ) : ∀ (track : List (ℕ × ℕ)) (v : Vol),
      (∀ p ∈ track, p.1 ≠ 0 → g.InRange p.1) →
      (∀ p ∈ track, p.2 < g.entriesPerCluster) →
      VSpec g E (markOthers g c ks track) v fun r v' =>
        r = some () ∧ ∃ ps, v' = v.kill ps ∧ (∀ p ∈ ps, p ∈ track ∧ p.1 ≠ 0) ∧
          (E.memOk → ∀ k ∈ ks, ∀ p, track[k]? = some p → p.1 ≠ c → p.1 ≠ 0 → p ∈ ps) := by
  induction ks with
  | nil =>
    intro track v _ _
    refine Spec.pure ⟨rfl, [], ?_, by simp, by simp⟩
    simp [Vol.kill]
  | cons k ks ih =>
    intro track v hr hi
    rw [markOthers]
    set lc := (track.getD k (0, 0)).1 with hlc
    have hlc_of : ∀ p, track[k]? = some p → p.1 = lc := by
      intro p hp
      rw [hlc, List.getD_eq_getElem?_getD, hp, Option.getD_some]
    split_ifs with hskip
    · refine (ih track v hr hi).mono ?_
      rintro r v' ⟨rfl, ps, hv', hps, hmem⟩
      refine ⟨rfl, ps, hv', hps, fun hm k' hk' p hp hc h0 => ?_⟩
      rcases List.mem_cons.mp hk' with rfl | hk'
      · have := hlc_of p hp
        omega
      · exact hmem hm k' hk' p hp hc h0
    · rw [not_or] at hskip
      refine spec_kmalloc.attempt_bind ?_
      rintro a v' ⟨rfl, hm⟩
      cases a with
      | none =>
        -- no memory for the buffer: the cluster is left as it is
        refine (ih track v' hr hi).mono ?_
        rintro r v'' ⟨rfl, ps, hv'', hps, -⟩
        exact ⟨rfl, ps, hv'', hps, fun h => absurd (hm h) (by simp)⟩
      | some _ =>
        have hmem : ∃ p ∈ track, p.1 = lc := by
          rcases hp : track[k]? with _ | p
          · exact absurd (by rw [hlc, List.getD_eq_getElem?_getD, hp]; rfl) hskip.2
          · exact ⟨p, List.mem_of_getElem? hp, hlc_of p hp⟩
        obtain ⟨p₀, hp₀, hp₀c⟩ := hmem
        have hlcR : g.InRange lc := hp₀c ▸ hr p₀ hp₀ (by omega)
        refine spec_of_trimmed fun ht => ?_
        refine (det_readCluster hg hlcR).attempt.bind ?_
        refine (det_writeCluster hg _ hlcR).ignore.bind ?_
        rw [markTracked_eq, setData_mark ht lc hi]
        have htrack' : ∀ p, p ∈ (track.mapIdx fun m p =>
            if k ≤ m ∧ p.1 = lc then (0, p.2) else p) →
            (p.1 ≠ 0 → p ∈ track) ∧ p.2 < g.entriesPerCluster := by
          intro p hp
          obtain ⟨m, hm', rfl⟩ := List.mem_mapIdx.mp hp
          have hmem := List.getElem_mem (l := track) hm'
          have hlt := hi _ hmem
          split_ifs with hcond
          · exact ⟨fun h => absurd rfl h, hlt⟩
          · exact ⟨fun _ => hmem, hlt⟩
        refine (ih _ _ (fun p hp h0 => hr p ((htrack' p hp).1 h0) h0)
          fun p hp => (htrack' p hp).2).mono ?_
        rintro r v'' ⟨rfl, ps, rfl, hps, hall⟩
        refine ⟨rfl, (track.filter fun p => p.1 == lc) ++ ps, Vol.kill_kill _ _, ?_, ?_⟩
        · intro p hp
          rcases List.mem_append.mp hp with hp | hp
          · rw [List.mem_filter, beq_iff_eq] at hp
            exact ⟨hp.1, by rw [hp.2]; exact hskip.2⟩
          · obtain ⟨h1, h2⟩ := hps p hp
            exact ⟨(htrack' p h1).1 h2, h2⟩
        · intro hmo k' hk' p hp hc h0
          by_cases hpl : p.1 = lc
          · refine List.mem_append_left _ ?_
            rw [List.mem_filter, beq_iff_eq]
            exact ⟨List.mem_of_getElem? hp, hpl⟩
          · rcases List.mem_cons.mp hk' with rfl | hk'
            · exact absurd (hlc_of p hp) hpl
            · refine List.mem_append_right _ (hall hmo k' hk' p ?_ hc h0)
              rw [List.getElem?_mapIdx, hp, Option.map_some, if_neg]
              exact fun h => hpl h.2

/-! ### The slots of the directory -/

lemma Vol.kill_congr {ps qs : List (ℕ × ℕ)} (h : ∀ p, p ∈ ps ↔ p ∈ qs) : v.kill ps = v.kill qs := by
  simp [Vol.kill, h]

lemma posIn_fst_mem {l : List ℕ} {k : ℕ} (hk : k < l.length * g.entriesPerCluster) :
    (posIn g l k).1 ∈ l := by
  have hpos : 0 < g.entriesPerCluster := by
    rcases Nat.eq_zero_or_pos g.entriesPerCluster with h | h
    · rw [h] at hk; omega
    · exact h
  have hlt : k / g.entriesPerCluster < l.length :=
    (Nat.div_lt_iff_lt_mul hpos).mpr hk
  rw [posIn, List.getD_eq_getElem _ _ hlt]
  exact List.getElem_mem hlt

lemma posIn_snd_lt (hg : g.Valid) (l : List ℕ) (k : ℕ) : (posIn g l k).2 < g.entriesPerCluster :=
  Nat.mod_lt _ hg.entriesPerCluster_pos

/-- Different slots of a chain have different positions. -/
lemma posIn_inj (hg : g.Valid) {l : List ℕ} (hl : l.Nodup) {j k : ℕ}
    (hj : j < l.length * g.entriesPerCluster) (hk : k < l.length * g.entriesPerCluster)
    (h : posIn g l j = posIn g l k) : j = k := by
  have hpos := hg.entriesPerCluster_pos
  have hj' : j / g.entriesPerCluster < l.length :=
    (Nat.div_lt_iff_lt_mul hpos).mpr hj
  have hk' : k / g.entriesPerCluster < l.length :=
    (Nat.div_lt_iff_lt_mul hpos).mpr hk
  simp only [posIn, Prod.mk.injEq, List.getD_eq_getElem _ _ hj', List.getD_eq_getElem _ _ hk'] at h
  have hdiv := (List.Nodup.getElem_inj_iff hl).mp h.1
  calc j = g.entriesPerCluster * (j / g.entriesPerCluster)
        + j % g.entriesPerCluster := (Nat.div_add_mod _ _).symm
    _ = g.entriesPerCluster * (k / g.entriesPerCluster)
        + k % g.entriesPerCluster := by rw [hdiv, h.2]
    _ = k := Nat.div_add_mod _ _

/-- The slots with the indices in `K` marked as deleted. -/
def killAt (K : List ℕ) (ss : List Slot) : List Slot :=
  ss.mapIdx fun j e => if j ∈ K then e.dead else e

@[simp] lemma killAt_length (K : List ℕ) (ss : List Slot) :
    (killAt K ss).length = ss.length := by
  simp [killAt]

lemma killAt_getElem? (K : List ℕ) (ss : List Slot) (j : ℕ) :
    (killAt K ss)[j]? = ss[j]?.map fun e => if j ∈ K then e.dead else e := by
  simp [killAt]

lemma slotsIn_kill (hg : g.Valid) {l : List ℕ} (hl : l.Nodup) {K : List ℕ}
    (hK : ∀ k ∈ K, k < l.length * g.entriesPerCluster) :
    slotsIn g (v.kill (K.map (posIn g l))) l = killAt K (slotsIn g v l) := by
  refine List.ext_getElem? fun j => ?_
  rw [killAt_getElem?]
  rcases Nat.lt_or_ge j (l.length * g.entriesPerCluster) with hj | hj
  · rw [slotsIn_getElem? hj, slotsIn_getElem? hj, slotAt_kill, Option.map_some]
    have hmem : posIn g l j ∈ K.map (posIn g l) ↔ j ∈ K := by
      rw [List.mem_map]
      refine ⟨fun ⟨k, hk, h⟩ => ?_, fun h => ⟨j, h, rfl⟩⟩
      rwa [← posIn_inj hg hl (hK k hk) hj h]
    simp only [Prod.mk.eta, hmem]
  · rw [List.getElem?_eq_none (by simpa using hj),
      List.getElem?_eq_none (by simpa using hj), Option.map_none]

/-- A removal only changes clusters of the directory. -/
lemma kill_data_of_notMem_chain {l : List ℕ} {K : List ℕ} {c : ℕ}
    (hK : ∀ k ∈ K, k < l.length * g.entriesPerCluster) (hc : c ∉ l) :
    (v.kill (K.map (posIn g l))).data c = v.data c := by
  refine Vol.kill_data_of_notMem fun i hi => ?_
  obtain ⟨k, hk, h⟩ := List.mem_map.mp hi
  have := posIn_fst_mem (hK k hk)
  rw [h] at this
  exact hc this

lemma mem_runIndices {ss : List Slot} {j k : ℕ} : j ∈ runIndices ss k →
      k - runBefore ss k ≤ j ∧ j < k := by
  intro h
  have hle := runBefore_le ss k
  simp only [runIndices, List.mem_range'_1] at h
  omega

/-- The indices that the removal of the entry at index `k` marks: its own, and
some of the run before it; the whole tracked run if no `kmalloc` call fails. -/
structure Marks (E : Env) (ss : List Slot) (k : ℕ) (K : List ℕ) : Prop where
  self : k ∈ K
  sub : ∀ j ∈ K, j = k ∨ j ∈ runIndices ss k
  all : E.memOk → ∀ j ∈ runIndices ss k, j ∈ K

lemma Marks.le {ss : List Slot} {k : ℕ} {K : List ℕ} (h : Marks E ss k K) : ∀ j ∈ K, j ≤ k := by
  intro j hj
  rcases h.sub j hj with rfl | hj
  · exact le_rfl
  · exact (mem_runIndices hj).2.le

/-- **The removal of an entry** marks its slot and slots of the run of LFN slots
before it. -/
theorem spec_markDeleted (hg : g.Valid) {d k : ℕ} {l : List ℕ} (e : Slot)
    (h : IsChain g v d l) (hk : k < l.length * g.entriesPerCluster) :
    VSpec g E (markDeleted g (foundAt g v l (k / g.entriesPerCluster)
        (k % g.entriesPerCluster) e)) v fun r v' =>
      r = some () ∧ ∃ K, Marks E (slotsIn g v l) k K ∧ v' = v.kill (K.map (posIn g l)) := by
  set ss := slotsIn g v l with hss
  set c := l.getD (k / g.entriesPerCluster) 0 with hc
  set i := k % g.entriesPerCluster with hi
  have hpos : posIn g l k = (c, i) := rfl
  have hcl : c ∈ l := by
    have := posIn_fst_mem hk
    rwa [hpos] at this
  have hcR : g.InRange c := h.inRange c hcl
  have hki : k / g.entriesPerCluster * g.entriesPerCluster + i = k := by
    rw [hi, Nat.mul_comm, Nat.div_add_mod]
  have htrack : trackAt g l ss (k / g.entriesPerCluster * g.entriesPerCluster + i)
      = (runIndices ss k).map (posIn g l) := by rw [hki, trackAt]
  set track := (runIndices ss k).map (posIn g l) with htr
  have hrun : ∀ j ∈ runIndices ss k, j < l.length * g.entriesPerCluster :=
    fun j hj => lt_of_lt_of_le (mem_runIndices hj).2 hk.le
  have hr : ∀ p ∈ track, p.1 ≠ 0 → g.InRange p.1 := by
    intro p hp _
    obtain ⟨j, hj, rfl⟩ := List.mem_map.mp hp
    exact h.inRange _ (posIn_fst_mem (hrun j hj))
  have hlt : ∀ p ∈ track, p.2 < g.entriesPerCluster := by
    intro p hp
    obtain ⟨j, -, rfl⟩ := List.mem_map.mp hp
    exact posIn_snd_lt hg l j
  refine spec_of_trimmed fun ht => ?_
  rw [markDeleted, foundAt]
  dsimp only
  rw [← hss, ← hc, htrack]
  refine (det_writeCluster hg _ hcR).ignore.bind ?_
  -- the first write marks the short entry and the run in the same cluster
  have hfirst : markTracked c track (Function.update (v.data c) (i * 32) 0xE5)
      = fun a => if a % 32 = 0 ∧ (c, a / 32) ∈ (c, i) :: track then 0xE5
          else v.data c a := by
    have hm := markTracked_eq c ((c, i) :: track) (v.data c)
    rw [markTracked, List.foldl_cons, if_pos rfl, ← markTracked] at hm
    exact hm
  rw [hfirst, setData_mark ht c (by
    intro p hp
    rcases List.mem_cons.mp hp with rfl | hp
    · exact hi ▸ posIn_snd_lt hg l k
    · exact hlt p hp)]
  refine (spec_markOthers hg c _ track _ hr hlt).mono ?_
  rintro r v' ⟨rfl, ps, rfl, hps, hall⟩
  refine ⟨rfl, (k :: runIndices ss k).filter fun j =>
    decide ((posIn g l j).1 = c ∨ posIn g l j ∈ ps), ⟨?_, ?_, ?_⟩, ?_⟩
  · simp [hpos]
  · intro j hj
    exact List.mem_cons.mp (List.mem_filter.mp hj).1
  · intro hm j hj
    refine List.mem_filter.mpr ⟨List.mem_cons_of_mem k hj, ?_⟩
    rw [decide_eq_true_iff]
    by_cases hjc : (posIn g l j).1 = c
    · exact Or.inl hjc
    · obtain ⟨m, hm', hjm⟩ := List.mem_iff_getElem.mp hj
      refine Or.inr (hall hm m ?_ _ ?_ hjc ?_)
      · rw [List.mem_range, htr, List.length_map]
        exact hm'
      · rw [htr, List.getElem?_map, List.getElem?_eq_getElem hm', hjm, Option.map_some]
      · have := (h.inRange _ (posIn_fst_mem (hrun j hj))).1
        omega
  · rw [Vol.kill_kill]
    refine Vol.kill_congr fun p => ?_
    rw [List.mem_append, List.mem_filter, List.mem_map, beq_iff_eq]
    constructor
    · rintro (⟨hp, hpc⟩ | hp)
      · rcases List.mem_cons.mp hp with rfl | hp
        · exact ⟨k, by simp [hpos], hpos⟩
        · obtain ⟨j, hj, rfl⟩ := List.mem_map.mp hp
          exact ⟨j, by simp [hj, hpc], rfl⟩
      · obtain ⟨j, hj, rfl⟩ := List.mem_map.mp (hps p hp).1
        exact ⟨j, by simp [hj, hp], rfl⟩
    · rintro ⟨j, hj, rfl⟩
      obtain ⟨hj, hor⟩ := List.mem_filter.mp hj
      rw [decide_eq_true_iff] at hor
      rcases hor with hor | hor
      · refine Or.inl ⟨?_, hor⟩
        rcases List.mem_cons.mp hj with rfl | hj
        · rw [hpos]; exact List.mem_cons_self
        · exact List.mem_cons_of_mem _ (List.mem_map_of_mem hj)
      · exact Or.inr hor

end

end GordOS.Fat32
