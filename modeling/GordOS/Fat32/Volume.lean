/-
The volume behind the sectors: a FAT array and an array of clusters.

* `Geom.Valid`: the first FAT has an entry for every data cluster, the FATs lie
  before the data area, and no cluster number is an end mark;
* `Vol`, `vol`: the FAT entry and the bytes of every data cluster, read off the
  sectors;
* `vol_fatPut`, `vol_clusterPut`: on a valid geometry a FAT write changes one
  entry and nothing else, and a cluster write the bytes of one cluster and
  nothing else.
-/
import Mathlib.Tactic
import GordOS.Fat32.Ops

namespace GordOS.Fat32

/-- The number of data clusters, `max_chain_length()`. -/
abbrev Geom.count (g : Geom) : ℕ := g.maxChainLength

/-- A data cluster. -/
def Geom.InRange (g : Geom) (c : ℕ) : Prop := 2 ≤ c ∧ c < 2 + g.count

instance (g : Geom) (c : ℕ) : Decidable (g.InRange c) :=
  inferInstanceAs (Decidable (2 ≤ c ∧ c < 2 + g.count))

/-- A valid geometry. -/
structure Geom.Valid (g : Geom) : Prop where
  spc_pos : 0 < g.sectorsPerCluster
  total_lt : g.totalSectors < 2 ^ 32
  data_le : g.reservedSectors + g.fatCount * g.fatSize ≤ g.totalSectors
  fatCount_pos : 0 < g.fatCount
  fat_fits : (g.count + 2) * 4 ≤ g.fatSize * 512
  count_lt : g.count + 2 ≤ eoc

namespace Geom.Valid

variable {g : Geom} (hg : g.Valid)
include hg

lemma dataStart_eq : g.dataStart = g.reservedSectors + g.fatCount * g.fatSize := by
  have := hg.data_le
  have := hg.total_lt
  rw [Geom.dataStart, Geom.fatStart, Nat.mod_eq_of_lt (by omega)]

/-- The clusters fill the data area. -/
lemma count_mul_le : g.dataStart + g.count * g.sectorsPerCluster ≤ g.totalSectors := by
  have h1 := hg.data_le
  have h2 := hg.total_lt
  have hd := hg.dataStart_eq
  have hm : (g.totalSectors + 2 ^ 32 - g.dataStart) % 2 ^ 32 = g.totalSectors - g.dataStart := by
    rw [show g.totalSectors + 2 ^ 32 - g.dataStart
        = g.totalSectors - g.dataStart + 2 ^ 32 from by omega,
      Nat.add_mod_right, Nat.mod_eq_of_lt (by omega)]
  have hle := Nat.div_mul_le_self (g.totalSectors - g.dataStart) g.sectorsPerCluster
  rw [Geom.count, Geom.maxChainLength, hm]
  omega

/-- The first FAT ends before the data area. -/
lemma fat_le_data : g.fatStart + g.fatSize ≤ g.dataStart := by
  rw [hg.dataStart_eq, Geom.fatStart]
  have := Nat.le_mul_of_pos_left g.fatSize hg.fatCount_pos
  omega

/-- The clusters are laid out one behind the other. -/
lemma clusterToLba_eq {c : ℕ} (hc : g.InRange c) :
    g.clusterToLba c = g.dataStart + (c - 2) * g.sectorsPerCluster := by
  obtain ⟨h2, hlt⟩ := hc
  have hle := hg.count_mul_le
  have ht := hg.total_lt
  have hmul : (c - 2) * g.sectorsPerCluster ≤ g.count * g.sectorsPerCluster :=
    Nat.mul_le_mul_right _ (by omega)
  rw [Geom.clusterToLba, if_neg (by omega), Nat.mod_eq_of_lt (by omega)]

/-- The sectors of two data clusters do not overlap. -/
lemma clusterToLba_lt {c c' : ℕ} (hc : g.InRange c) (hc' : g.InRange c') (h : c < c') :
    g.clusterToLba c + g.sectorsPerCluster ≤ g.clusterToLba c' := by
  rw [hg.clusterToLba_eq hc, hg.clusterToLba_eq hc']
  have hmul : (c - 2 + 1) * g.sectorsPerCluster ≤ (c' - 2) * g.sectorsPerCluster :=
    Nat.mul_le_mul_right _ (by have := hc.1; omega)
  rw [Nat.add_mul, Nat.one_mul] at hmul
  omega

/-- A cluster number times the entry size does not wrap. -/
lemma mul_four {c : ℕ} (hc : g.InRange c) : c * 4 % 2 ^ 32 = c * 4 := by
  have h1 := hc.2
  have h2 := hg.count_lt
  rw [eoc] at h2
  exact Nat.mod_eq_of_lt (by omega)

/-- The FAT entry of a data cluster lies in the first FAT. -/
lemma fatSector_eq {c : ℕ} (hc : g.InRange c) :
    g.fatSector c = g.fatStart + c * 4 / 512 ∧ c * 4 / 512 < g.fatSize := by
  have h1 := hc.2
  have h2 := hg.fat_fits
  have h3 := hg.fat_le_data
  have h4 := hg.count_mul_le
  have h5 := hg.total_lt
  have hlt : c * 4 / 512 < g.fatSize := by omega
  refine ⟨?_, hlt⟩
  rw [Geom.fatSector, hg.mul_four hc, Nat.mod_eq_of_lt (by omega)]

lemma fatOffset_eq {c : ℕ} (hc : g.InRange c) : Geom.fatOffset c = c * 4 % 512 := by
  rw [Geom.fatOffset, hg.mul_four hc]

/-- The FAT sectors come before the clusters. -/
lemma fatSector_lt_lba {c c' : ℕ} (hc : g.InRange c) (hc' : g.InRange c') :
    g.fatSector c < g.clusterToLba c' := by
  obtain ⟨h1, h2⟩ := hg.fatSector_eq hc
  rw [hg.clusterToLba_eq hc', h1]
  have := hg.fat_le_data
  omega

/-- No data cluster is an end mark. -/
lemma not_eoc {c : ℕ} (hc : g.InRange c) : ¬ eoc ≤ c := by
  have := hg.count_lt
  have := hc.2
  omega

lemma lt_eoc {c : ℕ} (hc : g.InRange c) : 2 ≤ c ∧ c < eoc := by
  have := hg.not_eoc hc
  exact ⟨hc.1, by omega⟩

/-- The allocation loop looks at every data cluster. -/
lemma allocCount : (g.count + 2) % 2 ^ 32 - 2 = g.count := by
  have h := hg.count_lt
  rw [eoc] at h
  rw [Nat.mod_eq_of_lt (by omega)]
  omega

lemma one_lt_entriesPerCluster : 1 < g.entriesPerCluster := by
  have := hg.spc_pos
  rw [Geom.entriesPerCluster, Geom.clusterBytes]
  omega

lemma entriesPerCluster_pos : 0 < g.entriesPerCluster :=
  Nat.zero_lt_of_lt hg.one_lt_entriesPerCluster

lemma clusterBytes_pos : 0 < g.clusterBytes := by
  have := hg.spc_pos
  rw [Geom.clusterBytes]
  omega

end Geom.Valid

/-! ### Bytes and words -/

/-- A stored 32-bit value is read back. -/
lemma read32_put32 (b : Buf) (o v : ℕ) (hv : v < 2 ^ 32) : read32 (put32 b o v) o = v := by
  simp only [read32, put32, if_true, Nat.add_eq_left, Nat.add_left_cancel_iff]
  norm_num
  omega

/-- A stored 32-bit value leaves the values at other aligned offsets alone. -/
lemma read32_put32_of_disjoint (b : Buf) {o o' : ℕ} (v : ℕ) (h : o' + 4 ≤ o ∨ o + 4 ≤ o') :
    read32 (put32 b o v) o' = read32 b o' := by
  have key : ∀ i, i < o ∨ o + 4 ≤ i → put32 b o v i = b i := by
    intro i hi
    rw [put32, if_neg (by omega), if_neg (by omega), if_neg (by omega), if_neg (by omega)]
  simp only [read32]
  rw [key o' (by omega), key (o' + 1) (by omega), key (o' + 2) (by omega), key (o' + 3) (by omega)]

lemma read32_lt (b : Buf) (o : ℕ) : read32 b o < 2 ^ 32 := by
  have h0 := (b o).toNat_lt
  have h1 := (b (o + 1)).toNat_lt
  have h2 := (b (o + 2)).toNat_lt
  have h3 := (b (o + 3)).toNat_lt
  rw [read32]
  omega

/-- `read32` only reads four bytes. -/
lemma read32_congr {a b : Buf} {o : ℕ} (h : ∀ i < 4, a (o + i) = b (o + i)) :
    read32 a o = read32 b o := by
  have h0 := h 0 (by omega)
  rw [Nat.add_zero] at h0
  rw [read32, read32, h0, h 1 (by omega), h 2 (by omega), h 3 (by omega)]

/-- A sector outside the written ones is read as before. -/
lemma readSectors_writeSectors_of_disjoint (d : Disk) {lba n lba' n' : ℕ}
    (b : Buf) (h : lba' + n' ≤ lba ∨ lba + n ≤ lba') :
    readSectors (writeSectors d lba n b) lba' n' = readSectors d lba' n' := by
  funext i
  rw [readSectors, readSectors]
  by_cases hi : i < 512 * n'
  · rw [if_pos hi, if_pos hi, writeSectors, if_neg (by omega)]
  · rw [if_neg hi, if_neg hi]

/-- Written sectors are read back. -/
lemma readSectors_writeSectors (d : Disk) (lba n : ℕ) (b : Buf) :
    readSectors (writeSectors d lba n b) lba n = fun i => if i < 512 * n then b i else 0 := by
  funext i
  rw [readSectors]
  by_cases hi : i < 512 * n
  · rw [if_pos hi, if_pos hi, writeSectors, if_pos (by omega)]
    congr 1
    omega
  · rw [if_neg hi, if_neg hi]

/-! ### The volume -/

/-- A FAT array and an array of clusters. -/
@[ext] structure Vol where
  next : ℕ → ℕ
  data : ℕ → Buf

namespace Vol

/-- One FAT entry replaced. -/
def setNext (v : Vol) (c x : ℕ) : Vol := { v with next := Function.update v.next c x }

/-- The bytes of one cluster replaced. -/
def setData (v : Vol) (c : ℕ) (b : Buf) : Vol :=
  { v with data := Function.update v.data c b }

variable (v : Vol) (c c' x : ℕ) (b : Buf)

@[simp] lemma setNext_next_same : (v.setNext c x).next c = x := by simp [setNext]
@[simp] lemma setNext_next_ne (h : c' ≠ c) :
    (v.setNext c x).next c' = v.next c' := by simp [setNext, h]
@[simp] lemma setNext_data : (v.setNext c x).data = v.data := rfl
@[simp] lemma setData_next : (v.setData c b).next = v.next := rfl
@[simp] lemma setData_data_same : (v.setData c b).data c = b := by simp [setData]
@[simp] lemma setData_data_ne (h : c' ≠ c) :
    (v.setData c b).data c' = v.data c' := by simp [setData, h]

end Vol

section

variable (g : Geom)

/-- A buffer cut to the bytes of a cluster. -/
def Geom.trim (b : Buf) : Buf := fun i => if i < g.clusterBytes then b i else 0

/-- The volume on a disk. -/
def vol (d : Disk) : Vol where
  next c := if g.InRange c then fatEntry g d c else 0
  data c := if g.InRange c then clusterBuf g d c else fun _ => 0

end

variable {g : Geom}

lemma vol_next {d : Disk} {c : ℕ} (hc : g.InRange c) :
    (vol g d).next c = fatEntry g d c := if_pos hc

lemma vol_data {d : Disk} {c : ℕ} (hc : g.InRange c) :
    (vol g d).data c = clusterBuf g d c := if_pos hc

/-- The stored entry of a cluster, with its top 4 bits. -/
def fatRaw (g : Geom) (d : Disk) (c : ℕ) : ℕ :=
  read32 (readSectors d (g.fatSector c) 1) (Geom.fatOffset c)

lemma fatEntry_eq (d : Disk) (c : ℕ) : fatEntry g d c = fatRaw g d c % 2 ^ 28 := rfl

/-- The stored entry after a FAT write. -/
lemma fatRaw_fatPut_same (hg : g.Valid) (d : Disk) {c : ℕ} (x : ℕ) (hc : g.InRange c) :
    fatRaw g (fatPut g d c x) c = fatRaw g d c / 2 ^ 28 * 2 ^ 28 + x % 2 ^ 28 := by
  rw [fatRaw, fatRaw, fatPut, readSectors_writeSectors]
  have ho := hg.fatOffset_eq hc
  set o := Geom.fatOffset c with hodef
  set sec := readSectors d (g.fatSector c) 1
  have hlt := read32_lt sec o
  have hr : ∀ w, read32 (fun i => if i < 512 * 1 then put32 sec o w i else 0) o
      = read32 (put32 sec o w) o := by
    intro w
    refine read32_congr fun i hi => ?_
    rw [if_pos (by omega)]
  rw [hr, read32_put32 sec o _ (by omega)]

/-- A FAT write leaves every other stored entry alone. -/
lemma fatRaw_fatPut_ne (hg : g.Valid) (d : Disk) {c c' : ℕ} (x : ℕ)
    (hc : g.InRange c) (hc' : g.InRange c') (h : c' ≠ c) :
    fatRaw g (fatPut g d c x) c' = fatRaw g d c' := by
  obtain ⟨hs, -⟩ := hg.fatSector_eq hc
  obtain ⟨hs', -⟩ := hg.fatSector_eq hc'
  have ho := hg.fatOffset_eq hc
  have ho' := hg.fatOffset_eq hc'
  rw [fatRaw, fatRaw, fatPut]
  by_cases hsec : g.fatSector c' = g.fatSector c
  · -- the same sector: the two entries are at different offsets
    rw [hsec, readSectors_writeSectors]
    rw [read32_congr (b := put32 (readSectors d (g.fatSector c) 1)
      (Geom.fatOffset c) (read32 (readSectors d (g.fatSector c) 1)
        (Geom.fatOffset c) / 2 ^ 28 * 2 ^ 28 + x % 2 ^ 28))]
    · exact read32_put32_of_disjoint _ _ (by omega)
    · intro i hi
      rw [if_pos (by omega)]
  · rw [readSectors_writeSectors_of_disjoint _ _ (by omega)]

/-- The FAT entry that was written is read back, without its top 4 bits. -/
lemma fatEntry_fatPut_same (hg : g.Valid) (d : Disk) {c : ℕ} (x : ℕ) (hc : g.InRange c) :
    fatEntry g (fatPut g d c x) c = x % 2 ^ 28 := by
  rw [fatEntry_eq, fatRaw_fatPut_same hg d x hc]
  omega

/-- A FAT write leaves every other entry alone. -/
lemma fatEntry_fatPut_ne (hg : g.Valid) (d : Disk) {c c' : ℕ} (x : ℕ)
    (hc : g.InRange c) (hc' : g.InRange c') (h : c' ≠ c) :
    fatEntry g (fatPut g d c x) c' = fatEntry g d c' := by
  rw [fatEntry_eq, fatEntry_eq, fatRaw_fatPut_ne hg d x hc hc' h]

/-- A FAT write leaves the clusters alone. -/
lemma clusterBuf_fatPut (hg : g.Valid) (d : Disk) {c c' : ℕ} (x : ℕ)
    (hc : g.InRange c) (hc' : g.InRange c') :
    clusterBuf g (fatPut g d c x) c' = clusterBuf g d c' := by
  have := hg.fatSector_lt_lba hc hc'
  rw [clusterBuf, clusterBuf, fatPut, readSectors_writeSectors_of_disjoint _ _ (by omega)]

/-- A cluster write leaves the FAT alone. -/
lemma fatEntry_clusterPut (hg : g.Valid) (d : Disk) {c c' : ℕ} (b : Buf)
    (hc : g.InRange c) (hc' : g.InRange c') :
    fatEntry g (clusterPut g d c b) c' = fatEntry g d c' := by
  have := hg.fatSector_lt_lba hc' hc
  rw [fatEntry, fatEntry, clusterPut, readSectors_writeSectors_of_disjoint _ _ (by omega)]

lemma clusterBuf_clusterPut_same (d : Disk) (c : ℕ) (b : Buf) :
    clusterBuf g (clusterPut g d c b) c = g.trim b := by
  rw [clusterBuf, clusterPut, readSectors_writeSectors]
  funext i
  rw [Geom.trim, Geom.clusterBytes, Nat.mul_comm]

lemma clusterBuf_clusterPut_ne (hg : g.Valid) (d : Disk) {c c' : ℕ} (b : Buf)
    (hc : g.InRange c) (hc' : g.InRange c') (h : c' ≠ c) :
    clusterBuf g (clusterPut g d c b) c' = clusterBuf g d c' := by
  rw [clusterBuf, clusterBuf, clusterPut, readSectors_writeSectors_of_disjoint]
  rcases Nat.lt_or_gt_of_ne h with h | h
  · exact Or.inl (hg.clusterToLba_lt hc' hc h)
  · exact Or.inr (hg.clusterToLba_lt hc hc' h)

/-- **A FAT write changes one entry.** -/
theorem vol_fatPut (hg : g.Valid) (d : Disk) {c : ℕ} (x : ℕ) (hc : g.InRange c) :
    vol g (fatPut g d c x) = (vol g d).setNext c (x % 2 ^ 28) := by
  ext c' i
  · by_cases hc' : g.InRange c'
    · rw [vol_next hc']
      by_cases h : c' = c
      · subst h
        rw [fatEntry_fatPut_same hg d x hc, Vol.setNext_next_same]
      · rw [fatEntry_fatPut_ne hg d x hc hc' h, Vol.setNext_next_ne _ _ _ _ h, vol_next hc']
    · have h : c' ≠ c := fun h => hc' (h ▸ hc)
      rw [Vol.setNext_next_ne _ _ _ _ h]
      simp only [vol, if_neg hc']
  · rw [Vol.setNext_data]
    by_cases hc' : g.InRange c'
    · rw [vol_data hc', vol_data hc', clusterBuf_fatPut hg d x hc hc']
    · simp only [vol, if_neg hc']

/-- **A cluster write changes the bytes of one cluster.** -/
theorem vol_clusterPut (hg : g.Valid) (d : Disk) {c : ℕ} (b : Buf) (hc : g.InRange c) :
    vol g (clusterPut g d c b) = (vol g d).setData c (g.trim b) := by
  ext c' i
  · rw [Vol.setData_next]
    by_cases hc' : g.InRange c'
    · rw [vol_next hc', vol_next hc', fatEntry_clusterPut hg d b hc hc']
    · simp only [vol, if_neg hc']
  · by_cases hc' : g.InRange c'
    · rw [vol_data hc']
      by_cases h : c' = c
      · subst h
        rw [clusterBuf_clusterPut_same, Vol.setData_data_same]
      · rw [clusterBuf_clusterPut_ne hg d b hc hc' h, Vol.setData_data_ne _ _ _ _ h, vol_data hc']
    · have h : c' ≠ c := fun h => hc' (h ▸ hc)
      rw [Vol.setData_data_ne _ _ _ _ h]
      simp only [vol, if_neg hc']

end GordOS.Fat32
