/-
What the accesses of the driver do to the volume.

* `Env`, `Env.Holds`: what is fixed during a call: the transfers succeed, the
  current directory, and whether all `kmalloc` calls succeed;
* `spec_kmalloc`, `det_fatNextCluster`, `det_fatSetCluster`, `det_readCluster`,
  `det_writeCluster`: one rule for each access;
* `IsChain`, `chainOf`: the cluster chains of a volume, and the walk that lists
  one;
* `det_fatFreeChain`: freeing a chain clears its entries;
* `firstFree`, `det_fatAllocCluster`: allocation takes the first free cluster.
-/
import Mathlib.Tactic
import GordOS.Lib.Chain
import GordOS.Fat32.Volume

namespace GordOS.Fat32

open GordOS GordOS.Fallible

/-! ### The rules of the accesses -/

/-- What is fixed during a call: the current directory, and whether every
`kmalloc` call succeeds. -/
structure Env where
  cwd : ℕ
  path : Name
  memOk : Prop

/-- The states an environment describes. -/
structure Env.Holds (E : Env) (s : State) : Prop where
  io : IoOk s
  cwd : s.cwdCluster = E.cwd
  path : s.cwdPath = E.path
  mem : E.memOk → s.mem = fun _ => true

lemma Env.Holds.withDisk {E : Env} {s : State} (h : E.Holds s) (d : Disk) :
    E.Holds (s.withDisk d) := ⟨h.io, h.cwd, h.path, h.mem⟩

lemma Env.Holds.noted {E : Env} {s : State} (h : E.Holds s) (a : Access) :
    E.Holds (s.noted a) := ⟨h.io, h.cwd, h.path, h.mem⟩

/-- The specification of a computation of the driver on the volume `v`. -/
abbrev VSpec (g : Geom) (E : Env) {α : Type} (m : M α) (v : Vol)
    (Q : Option α → Vol → Prop) : Prop :=
  Spec E.Holds (fun s => vol g s.disk) m v Q

/-- The computation returns `a` and leaves the volume `w`. -/
abbrev VDet (g : Geom) (E : Env) {α : Type} (m : M α) (v : Vol) (a : α)
    (w : Vol) : Prop :=
  Det E.Holds (fun s => vol g s.disk) m v a w

section

variable {g : Geom} {E : Env} {v : Vol}

lemma spec_kmalloc : VSpec g E kmalloc v fun r v' =>
    v' = v ∧ (E.memOk → r = some ()) := by
  intro s hs hv
  refine ⟨⟨hs.io, hs.cwd, hs.path, fun h => ?_⟩, hv, fun h => ?_⟩
  · rw [kmalloc_eq, withMem_mem, hs.mem h]
  · rw [kmalloc_eq, hs.mem h]
    rfl

lemma det_cwd : VDet g E (gets State.cwdCluster) v E.cwd v := by
  intro s hs hv
  exact ⟨hs, congrArg some hs.cwd, hv⟩

lemma det_fatNextCluster {c : ℕ} (hc : g.InRange c) :
    VDet g E (fatNextCluster g c) v (v.next c) v := by
  intro s hs hv
  rw [fatNextCluster_eq hs.io]
  exact ⟨hs.noted _, by rw [← hv, vol_next hc], hv⟩

lemma det_fatSetCluster (hg : g.Valid) {c : ℕ} (x : ℕ) (hc : g.InRange c) :
    VDet g E (fatSetCluster g c x) v () (v.setNext c (x % 2 ^ 28)) := by
  intro s hs hv
  rw [fatSetCluster_eq hs.io]
  exact ⟨(hs.noted _).withDisk _, rfl, by rw [← hv]; exact vol_fatPut hg _ x hc⟩

lemma det_readCluster (hg : g.Valid) {c : ℕ} (hc : g.InRange c) :
    VDet g E (readCluster g c) v (v.data c) v := by
  intro s hs hv
  rw [readCluster_eq hs.io hg.spc_pos.ne']
  exact ⟨hs.noted _, by rw [← hv, vol_data hc], hv⟩

lemma det_writeCluster (hg : g.Valid) {c : ℕ} (b : Buf) (hc : g.InRange c) :
    VDet g E (writeCluster g c b) v () (v.setData c (g.trim b)) := by
  intro s hs hv
  rw [writeCluster_eq hs.io hg.spc_pos.ne' hc.1]
  exact ⟨(hs.noted _).withDisk _, rfl, by rw [← hv]; exact vol_clusterPut hg _ b hc⟩

end

/-! ### Chains -/

/-- `l` is the list of the clusters of the chain that starts at `c`: data
clusters, the last of them marked as the end. -/
def IsChain (g : Geom) (v : Vol) (c : ℕ) (l : List ℕ) : Prop :=
  Chain v.next g.InRange (fun x => eoc ≤ x) c l

/-- The walk along a chain, as the loops of the driver make it. -/
def chainWalk (v : Vol) : ℕ → ℕ → List ℕ
  | 0, _ => []
  | n + 1, c => if 2 ≤ c ∧ c < eoc then c :: chainWalk v n (v.next c) else []

/-- The clusters a walk from `c` meets. -/
@[irreducible] def chainOf (g : Geom) (v : Vol) (c : ℕ) : List ℕ := chainWalk v g.count c

section

variable {g : Geom} {v w : Vol} {c : ℕ} {l l' : List ℕ}

lemma IsChain.unique (hg : g.Valid) (h : IsChain g v c l) (h' : IsChain g v c l') : l = l' :=
  Chain.unique (fun _ hx => hg.not_eoc hx) h h'

lemma IsChain.nodup (hg : g.Valid) (h : IsChain g v c l) : l.Nodup :=
  Chain.nodup (fun _ hx => hg.not_eoc hx) h

lemma IsChain.length_le (hg : g.Valid) (h : IsChain g v c l) : l.length ≤ g.count :=
  Chain.length_le (fun _ hx => hg.not_eoc hx) h

lemma IsChain.inRange (h : IsChain g v c l) : ∀ x ∈ l, g.InRange x :=
  Chain.ok_of_mem h

lemma IsChain.congr (h : IsChain g v c l) (hn : ∀ x ∈ l, w.next x = v.next x) :
    IsChain g w c l := Chain.congr h hn

@[elab_as_elim]
lemma IsChain.rounds {P : ℕ → ℕ → List ℕ → Prop} (hg : g.Valid) (h : IsChain g v c l) (n : ℕ)
    (hn : l.length ≤ n) (hstop : ∀ n c, ¬ (2 ≤ c ∧ c < eoc) → P n c [])
    (hstep : ∀ n c l, g.InRange c → c ∉ l → P n (v.next c) l → P (n + 1) c (c :: l)) :
    P n c l :=
  Chain.rounds (fun _ hx => hg.not_eoc hx)
    (fun n c hc => hstop n c fun hlt => absurd hc (Nat.not_le.mpr hlt.2)) hstep h n hn

/-- No cluster of a chain is free. -/
lemma IsChain.next_ne_zero (h : IsChain g v c l) : ∀ x ∈ l, v.next x ≠ 0 := by
  intro x hx h0
  rcases Chain.next_mem_or_stop h x hx with h1 | h1
  · have := (h.inRange _ h1).1
    omega
  · rw [h0, eoc] at h1
    omega

lemma chainWalk_eq (hg : g.Valid) (h : IsChain g v c l) :
    ∀ n, l.length ≤ n → chainWalk v n c = l := by
  intro n hn
  refine IsChain.rounds hg h n hn (fun n c hc => ?_) fun n c l hc _ ih => ?_
  · cases n with
    | zero => rfl
    | succ n => rw [chainWalk, if_neg hc]
  · rw [chainWalk, if_pos (hg.lt_eoc hc), ih]

/-- The walk lists the chain: the chain limit never cuts it short. -/
lemma IsChain.chainOf_eq (hg : g.Valid) (h : IsChain g v c l) : chainOf g v c = l := by
  rw [chainOf]
  exact chainWalk_eq hg h _ (h.length_le hg)

end

/-! ### Freeing and allocating -/

/-- The FAT entries of some clusters cleared. -/
def Vol.free (v : Vol) (l : List ℕ) : Vol :=
  { v with next := fun c => if c ∈ l then 0 else v.next c }

lemma Vol.free_next_of_mem (v : Vol) {l : List ℕ} {c : ℕ} (h : c ∈ l) :
    (v.free l).next c = 0 := if_pos h

lemma Vol.free_next_of_notMem (v : Vol) {l : List ℕ} {c : ℕ} (h : c ∉ l) :
    (v.free l).next c = v.next c := if_neg h

lemma Vol.free_nil (v : Vol) : v.free [] = v := by
  simp [Vol.free]

lemma Vol.setNext_free (v : Vol) (c : ℕ) (l : List ℕ) :
    (v.setNext c 0).free l = v.free (c :: l) := by
  ext x i
  · simp only [Vol.free, Vol.setNext, List.mem_cons]
    by_cases hx : x = c
    · subst hx
      simp
    · simp [hx]
  · rfl

/-- The free clusters, lowest first. -/
def freeClusters (g : Geom) (v : Vol) : List ℕ :=
  (List.range' 2 g.count).filter fun c => v.next c == 0

/-- The cluster the next allocation takes. -/
def firstFree (g : Geom) (v : Vol) : Option ℕ := (freeClusters g v).head?

/-- The mark of a newly allocated cluster. -/
def endMark : ℕ := 0x0FFFFFFF

section

variable {g : Geom} {E : Env} {v : Vol}

lemma mem_freeClusters {c : ℕ} : c ∈ freeClusters g v ↔ g.InRange c ∧ v.next c = 0 := by
  simp [freeClusters, Geom.InRange, List.mem_range'_1]

lemma firstFree_mem {c : ℕ} (h : firstFree g v = some c) : g.InRange c ∧ v.next c = 0 :=
  mem_freeClusters.mp (List.mem_of_mem_head? h)

lemma fatFreeChainLoop_det (hg : g.Valid) {c : ℕ} {l : List ℕ} (h : IsChain g v c l) :
    ∀ n, l.length ≤ n → ∀ w : Vol, (∀ x ∈ l, w.next x = v.next x) →
      VDet g E (fatFreeChainLoop g n c) w () (w.free l) := by
  intro n hn
  refine IsChain.rounds hg h n hn (fun n c hc w _ => ?_) fun n c l hc hnot ih w hw => ?_
  · rw [Vol.free_nil]
    cases n with
    | zero => exact Det.pure ()
    | succ n =>
      rw [fatFreeChainLoop, if_neg hc]
      exact Det.pure ()
  · rw [fatFreeChainLoop, if_pos (hg.lt_eoc hc)]
    refine (det_fatNextCluster hc).bind ((det_fatSetCluster hg 0 hc).ignore.bind ?_)
    rw [hw c List.mem_cons_self, ← Vol.setNext_free]
    refine ih _ fun x hx => ?_
    have hne : x ≠ c := fun h => hnot (h ▸ hx)
    rw [Vol.setNext_next_ne _ _ _ _ hne]
    exact hw x (List.mem_cons_of_mem c hx)

/-- `fat_free_chain` clears the entries of the whole chain. -/
lemma det_fatFreeChain (hg : g.Valid) {c : ℕ} {l : List ℕ} (h : IsChain g v c l) :
    VDet g E (fatFreeChain g c) v () (v.free l) :=
  fatFreeChainLoop_det hg h _ (h.length_le hg) v fun _ _ => rfl

/-- The allocation loop over the clusters from `c` on. -/
lemma fatAllocLoop_det (hg : g.Valid) : ∀ (n c : ℕ), 2 ≤ c → c + n ≤ 2 + g.count →
    VDet g E (fatAllocLoop g n c) v
      ((((List.range' c n).filter fun x => v.next x == 0).head?).getD 0)
      (match ((List.range' c n).filter fun x => v.next x == 0).head? with
        | none => v
        | some x => v.setNext x endMark) := by
  intro n
  induction n with
  | zero => exact fun c _ _ => Det.pure 0
  | succ n ih =>
    intro c h2 hle
    have hc : g.InRange c := ⟨h2, by omega⟩
    rw [fatAllocLoop]
    refine (det_fatNextCluster hc).bind ?_
    by_cases h0 : v.next c = 0
    · rw [if_pos h0]
      refine (det_fatSetCluster hg _ hc).attempt.bind ?_
      simp only [List.range'_succ, List.filter_cons, h0, beq_self_eq_true,
        if_true, List.head?_cons, Option.getD_some]
      exact Det.pure c
    · rw [if_neg h0]
      have hb : (v.next c == 0) = false := by simpa using h0
      simp only [List.range'_succ, List.filter_cons, hb, Bool.false_eq_true, if_false]
      exact ih (c + 1) (by omega) (by omega)

/-- `fat_alloc_cluster` on a volume without free clusters. -/
lemma det_fatAllocCluster_none (hg : g.Valid) (h : firstFree g v = none) :
    VDet g E (fatAllocCluster g) v 0 v := by
  have hd := fatAllocLoop_det (E := E) (v := v) hg g.count 2 le_rfl le_rfl
  rw [show ((List.range' 2 g.count).filter fun x => v.next x == 0).head? = none
    from h] at hd
  rw [fatAllocCluster, hg.allocCount]
  exact hd

/-- `fat_alloc_cluster` takes the first free cluster. -/
lemma det_fatAllocCluster_some (hg : g.Valid) {c : ℕ} (h : firstFree g v = some c) :
    VDet g E (fatAllocCluster g) v c (v.setNext c endMark) := by
  have hd := fatAllocLoop_det (E := E) (v := v) hg g.count 2 le_rfl le_rfl
  rw [show ((List.range' 2 g.count).filter fun x => v.next x == 0).head? = some c
    from h] at hd
  rw [fatAllocCluster, hg.allocCount]
  exact hd

end

end GordOS.Fat32
