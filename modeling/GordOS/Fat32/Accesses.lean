/-
The accesses of the FAT32 driver, whatever the outcome of their sector transfers.

* `Quiet`: nothing but reads happened between two states;
* `ataRead_any`, `ataWrite_any`: a read leaves the disk alone, a write replaces the first
  sectors of its range, all of them if it succeeds;
* `fatNextCluster_any`, `fatSetCluster_any`, `readCluster_any`, `writeCluster_any`: what
  each access returns, what it leaves on the disk and in the log.
-/
import Mathlib.Tactic
import GordOS.Fat32.Disk

namespace GordOS.Fat32

open GordOS GordOS.Fallible

/-- A write to the disk. -/
def Access.isWrite : Access → Bool
  | .set _ => true
  | .write _ => true
  | _ => false

/-- From the first state to the second, the driver only read. -/
structure Quiet (s s' : State) : Prop where
  disk : s'.disk = s.disk
  cwd : s'.cwdCluster = s.cwdCluster
  io : IoOk s → IoOk s'
  mem : (s.mem = fun _ => true) → s'.mem = fun _ => true
  log : ∀ a ∈ s'.log, a ∈ s.log ∨ a.isWrite = false

namespace Quiet

variable {s s' s'' : State}

lemma refl (s : State) : Quiet s s := ⟨rfl, rfl, fun h => h, fun h => h, fun _ h => .inl h⟩

lemma trans (h : Quiet s s') (h' : Quiet s' s'') : Quiet s s'' where
  disk := h'.disk.trans h.disk
  cwd := h'.cwd.trans h.cwd
  io := fun hs => h'.io (h.io hs)
  mem := fun hs => h'.mem (h.mem hs)
  log := fun a ha => (h'.log a ha).elim (h.log a) .inr

lemma noted (s : State) {a : Access} (ha : a.isWrite = false) : Quiet s (s.noted a) where
  disk := rfl
  cwd := rfl
  io := fun h => h
  mem := fun h => h
  log := fun b hb => by
    rcases List.mem_cons.mp hb with rfl | hb
    · exact .inr ha
    · exact .inl hb

end Quiet

lemma quiet_kmalloc (s : State) : Quiet s (kmalloc s).2 :=
  ⟨rfl, rfl, fun h => h, fun h => by rw [kmalloc_eq, withMem_mem, h], fun _ ha => .inl ha⟩

variable {g : Geom}

lemma ataRead_any (lba n : ℕ) (s : State) : ∃ s' r, ataRead lba n s = (r, s') ∧ Quiet s s' ∧
    s'.log = s.log ∧ (r = none ∨ r = some (readSectors s.disk lba n)) := by
  have htick : Quiet s { s with io := fun n => s.io (n + 1) } :=
    ⟨rfl, rfl, fun h => by rw [h.tick]; exact h, fun h => h, fun _ ha => .inl ha⟩
  rw [ataRead]
  split
  · exact ⟨s, none, rfl, .refl s, rfl, .inl rfl⟩
  · cases hio : s.io 0 with
    | none => exact ⟨_, _, rfl, htick, rfl, .inr rfl⟩
    | some k => exact ⟨_, _, rfl, htick, rfl, .inl rfl⟩

lemma ataWrite_any (lba n : ℕ) (b : Buf) (s : State) : ∃ s' r k,
    ataWrite lba n b s = (r, s') ∧ s'.disk = writeSectors s.disk lba k b ∧ s'.log = s.log ∧
      k ≤ n := by
  have hnone : s.disk = writeSectors s.disk lba 0 b := by
    funext x o
    rw [writeSectors, if_neg (by omega)]
  rw [ataWrite]
  split
  · exact ⟨s, none, 0, rfl, hnone, rfl, Nat.zero_le n⟩
  · next hn =>
    cases hio : s.io 0 with
    | none => exact ⟨_, _, n, rfl, rfl, rfl, le_rfl⟩
    | some k => exact ⟨_, _, min k (n - 1), rfl, rfl, rfl, by omega⟩

/-- A FAT entry that cannot be read counts as `0`. -/
lemma fatNextCluster_any (c : ℕ) (s : State) : ∃ s' x,
    fatNextCluster g c s = (some x, s') ∧ Quiet s s' ∧ s'.log = .next c :: s.log ∧
      (x = fatEntry g s.disk c ∨ x = 0) := by
  obtain ⟨s', r, hr, hq, hl, hcase⟩ := ataRead_any (g.fatSector c) 1 (s.noted (.next c))
  have hq' := (Quiet.noted s rfl).trans hq
  rw [fatNextCluster, bind_of_some (note_eq _), bind_of_some (attempt_of_eq hr)]
  rcases hcase with rfl | rfl
  · exact ⟨s', 0, rfl, hq', hl, .inr rfl⟩
  · exact ⟨s', _, rfl, hq', hl, .inl rfl⟩

lemma readCluster_any (c : ℕ) (s : State) : ∃ s' r,
    readCluster g c s = (r, s') ∧ Quiet s s' ∧ s'.log = .read c :: s.log ∧
      (r = none ∨ r = some (clusterBuf g s.disk c)) := by
  obtain ⟨s', r, hr, hq, hl, hcase⟩ :=
    ataRead_any (g.clusterToLba c) g.sectorsPerCluster (s.noted (.read c))
  rw [readCluster, bind_of_some (note_eq _), hr]
  exact ⟨s', r, rfl, (Quiet.noted s rfl).trans hq, hl, hcase⟩

/-- A FAT entry is replaced or stays, and at most one write enters the log. -/
lemma fatSetCluster_any (c x : ℕ) (s : State) : ∃ s' r, fatSetCluster g c x s = (r, s') ∧
      (s'.disk = s.disk ∨ s'.disk = fatPut g s.disk c x) ∧
      (s'.log = s.log ∨ s'.log = .set c :: s.log) := by
  obtain ⟨s₁, r, hr, hq, hl, hcase⟩ := ataRead_any (g.fatSector c) 1 s
  rw [fatSetCluster]
  rcases hcase with rfl | rfl
  · rw [bind_of_none hr]
    exact ⟨s₁, none, rfl, .inl hq.disk, .inl hl⟩
  · rw [bind_of_some hr, bind_of_some (note_eq _)]
    obtain ⟨s₂, r, k, hr₂, hd₂, hl₂, hk⟩ := ataWrite_any (g.fatSector c) 1
      (put32 (readSectors s.disk (g.fatSector c) 1) (Geom.fatOffset c)
        (read32 (readSectors s.disk (g.fatSector c) 1) (Geom.fatOffset c) / 2 ^ 28 * 2 ^ 28
          + x % 2 ^ 28)) (s₁.noted (.set c))
    refine ⟨s₂, r, hr₂, ?_, .inr (by rw [hl₂, noted_log, hl])⟩
    rw [hd₂, noted_disk, hq.disk]
    obtain rfl | rfl : k = 1 ∨ k = 0 := by omega
    · exact .inr rfl
    · left
      funext y o
      rw [writeSectors, if_neg (by omega)]

/-- The first sectors of a cluster are replaced, and at most one write enters the log. -/
lemma writeCluster_any (c : ℕ) (b : Buf) (s : State) : ∃ s' r, writeCluster g c b s = (r, s') ∧
      (s'.disk = s.disk ∧ s'.log = s.log ∨ 2 ≤ c ∧ s'.log = .write c :: s.log ∧
        ∃ k ≤ g.sectorsPerCluster, s'.disk = writeSectors s.disk (g.clusterToLba c) k b) := by
  rw [writeCluster]
  split
  · exact ⟨s, none, rfl, .inl ⟨rfl, rfl⟩⟩
  · next hc =>
    rw [bind_of_some (note_eq _)]
    obtain ⟨s', r, k, hr, hd, hl, hk⟩ := ataWrite_any (g.clusterToLba c)
      g.sectorsPerCluster b (s.noted (.write c))
    exact ⟨s', r, hr, .inr ⟨by omega, hl, k, hk, hd⟩⟩

end GordOS.Fat32
