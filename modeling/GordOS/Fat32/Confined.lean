/-
Where the FAT32 driver writes (`fs/fat32.c`, `drivers/ata.c`).

Cluster numbers come from directory entries and FAT entries and become sector numbers
without a check of their range; the ATA driver then drops all but 28 bits of a sector
number.

* `Access.Confined`: a FAT write hits the first FAT, a cluster write the data area;
* `Sane`: a number that no loop follows, or a data cluster; `DirAt`: the clusters that
  path resolution can come to;
* `SaneVolume`: all links of the FAT and all entries of these directories are sane;
* `Writing`: the invariant behind the first write; before it the driver is `Quiet`;
* `leads_removeFile`, `leads_dirWriteEntries`, `leads_writeDataLoop`, ...: one rule for
  each function that writes;
* `writes_confined`: **all writes stay in the first FAT and the data area** of a sane
  volume that 28 bits can address; `delete_writes_outside`.
-/
import Mathlib.Tactic
import GordOS.Fat32.Scans
import GordOS.Fat32.Integrity

namespace GordOS.Fat32

open GordOS GordOS.Fallible

/-! ### The sectors written -/

/-- `ata_setup`: the first sector of a transfer. -/
def ataSetup (lba : ℕ) : ℕ := lba % 2 ^ 28

/-- The sectors of a write lie where they belong. -/
def Access.Confined (g : Geom) : Access → Prop
  | .set c => g.fatStart ≤ ataSetup (g.fatSector c) ∧
      ataSetup (g.fatSector c) < g.fatStart + g.fatSize
  | .write c => g.dataStart ≤ ataSetup (g.clusterToLba c) ∧
      ataSetup (g.clusterToLba c) + g.sectorsPerCluster ≤ g.totalSectors
  | .next _ => True
  | .read _ => True

section

variable {g : Geom} {c : ℕ}

lemma confined_set (hg : g.Valid) (h28 : g.totalSectors ≤ 2 ^ 28) (hc : g.InRange c) :
    (Access.set c).Confined g := by
  obtain ⟨hs, hlt⟩ := hg.fatSector_eq hc
  have hdata := hg.fat_le_data
  have htotal := hg.count_mul_le
  rw [Access.Confined, ataSetup, hs, Nat.mod_eq_of_lt (by omega)]
  omega

lemma confined_write (hg : g.Valid) (h28 : g.totalSectors ≤ 2 ^ 28) (hc : g.InRange c) :
    (Access.write c).Confined g := by
  have htotal := hg.count_mul_le
  have hmul : (c - 2 + 1) * g.sectorsPerCluster ≤ g.count * g.sectorsPerCluster :=
    Nat.mul_le_mul_right _ (by have := hc.1; have := hc.2; omega)
  rw [Nat.add_mul, Nat.one_mul] at hmul
  have hpos := hg.spc_pos
  rw [Access.Confined, ataSetup, hg.clusterToLba_eq hc, Nat.mod_eq_of_lt (by omega)]
  omega

end

/-! ### Sane volumes -/

/-- A cluster number that is no link, or a data cluster. -/
def Sane (g : Geom) (x : ℕ) : Prop := x < 2 ∨ eoc ≤ x ∨ g.InRange x

instance (g : Geom) (x : ℕ) : Decidable (Sane g x) :=
  inferInstanceAs (Decidable (x < 2 ∨ eoc ≤ x ∨ g.InRange x))

/-- The data clusters that path resolution can come to from some clusters: along the FAT
and through the entries of directories. -/
inductive DirAt (g : Geom) (d : Disk) (starts : List ℕ) : ℕ → Prop where
  | start {c : ℕ} (hc : c ∈ starts) (hr : g.InRange c) : DirAt g d starts c
  | next {c : ℕ} (h : DirAt g d starts c) (hr : g.InRange (fatEntry g d c)) :
      DirAt g d starts (fatEntry g d c)
  | entry {c i : ℕ} (h : DirAt g d starts c) (hi : i < g.entriesPerCluster)
      (he : (slotOn g d c i).live = true) (hr : g.InRange (slotOn g d c i).cluster) :
      DirAt g d starts (slotOn g d c i).cluster

/-- The links of the FAT are sane. -/
def FatSane (g : Geom) (d : Disk) : Prop := ∀ c, g.InRange c → Sane g (fatEntry g d c)

/-- The root, the current directory, the links of the FAT and the entries of all
directories that can be reached are sane. -/
structure SaneVolume (g : Geom) (s : State) : Prop where
  root : Sane g g.rootCluster
  cwd : Sane g s.cwdCluster
  fat : FatSane g s.disk
  entries : ∀ c, DirAt g s.disk [g.rootCluster, s.cwdCluster] c →
    ∀ i < g.entriesPerCluster, (slotOn g s.disk c i).live = true →
      Sane g (slotOn g s.disk c i).cluster

lemma Sane.inRange {g : Geom} {x : ℕ} (h : Sane g x) (hx : 2 ≤ x ∧ x < eoc) : g.InRange x := by
  rcases h with h | h | h
  · omega
  · omega
  · exact h

lemma sane_zero (g : Geom) : Sane g 0 := .inl (by decide)

lemma DirAt.inRange {g : Geom} {d : Disk} {starts : List ℕ} {c : ℕ} (h : DirAt g d starts c) :
    g.InRange c := by
  cases h with
  | start _ hr => exact hr
  | next _ hr => exact hr
  | entry _ _ _ hr => exact hr

/-- The numbers that path resolution can come to on a sane volume. -/
def Reached (g : Geom) (s : State) (c : ℕ) : Prop :=
  c < 2 ∨ eoc ≤ c ∨ DirAt g s.disk [g.rootCluster, s.cwdCluster] c

lemma Reached.sane {g : Geom} {s : State} {c : ℕ} (h : Reached g s c) : Sane g c :=
  h.imp id (Or.imp id DirAt.inRange)

lemma SaneVolume.closed {g : Geom} {s : State} (h : SaneVolume g s) :
    Closed g s.disk (Reached g s) where
  zero := .inl (by decide)
  root := h.root.imp id (Or.imp id fun hr => .start (by simp) hr)
  next := by
    intro c hc hf
    have hdir : DirAt g s.disk [g.rootCluster, s.cwdCluster] c := by
      rcases hc with hc | hc | hc
      · exact absurd hf.1 (by omega)
      · exact absurd hf.2 (by omega)
      · exact hc
    exact (h.fat c hdir.inRange).imp id (Or.imp id fun hr => .next hdir hr)
  entry := by
    intro c i hc hf hi hlive
    have hdir : DirAt g s.disk [g.rootCluster, s.cwdCluster] c := by
      rcases hc with hc | hc | hc
      · exact absurd hf.1 (by omega)
      · exact absurd hf.2 (by omega)
      · exact hc
    exact (h.entries c hdir i hi hlive).imp id (Or.imp id fun hr => .entry hdir hi hlive hr)

section

variable {g : Geom} {d : Disk} {c x : ℕ}

lemma FatSane.fatPut (h : FatSane g d) (hg : g.Valid) (hc : g.InRange c)
    (hx : Sane g (x % 2 ^ 28)) : FatSane g (fatPut g d c x) := by
  intro c' hc'
  by_cases heq : c' = c
  · rw [heq, fatEntry_fatPut_same hg d x hc]
    exact hx
  · rw [fatEntry_fatPut_ne hg d x hc hc' heq]
    exact h c' hc'

lemma FatSane.writeSectors {k : ℕ} (h : FatSane g d) (hg : g.Valid) (hc : g.InRange c) (b : Buf) :
    FatSane g (writeSectors d (g.clusterToLba c) k b) := by
  intro c' hc'
  have hlt := hg.fatSector_lt_lba hc' hc
  rw [fatEntry, readSectors_writeSectors_of_disjoint _ _ (by omega)]
  exact h c' hc'

end

/-! ### The accesses -/

/-- The links of the FAT are sane, and all accesses behind those of `old` are
confined. -/
structure Writing (g : Geom) (old : List Access) (s : State) : Prop where
  fat : FatSane g s.disk
  log : ∀ a ∈ s.log, a ∈ old ∨ a.Confined g

section

variable {g : Geom} {old : List Access} {c x : ℕ}

lemma Writing.cons {s s' : State} {a : Access} (h : Writing g old s) (hd : FatSane g s'.disk)
    (hlog : s'.log = a :: s.log) (ha : a.Confined g) : Writing g old s' := by
  refine ⟨hd, fun b hb => ?_⟩
  rw [hlog] at hb
  rcases List.mem_cons.mp hb with rfl | hb
  · exact .inr ha
  · exact h.log b hb

/-- Reads keep the invariant. -/
lemma Writing.quiet {s s' : State} (h : Writing g old s) (hq : Quiet s s') : Writing g old s' := by
  refine ⟨by rw [hq.disk]; exact h.fat, fun a ha => ?_⟩
  rcases hq.log a ha with ha | ha
  · exact h.log a ha
  · cases a with
    | next c => exact .inr trivial
    | read c => exact .inr trivial
    | set c => cases ha
    | write c => cases ha

lemma leads_kmalloc : Leads (Writing g old) (Writing g old) kmalloc fun _ => True :=
  fun s hs => ⟨hs.quiet (quiet_kmalloc s), fun _ _ => trivial⟩

lemma leads_readCluster (c : ℕ) :
    Leads (Writing g old) (Writing g old) (readCluster g c) fun _ => True := by
  intro s hs
  obtain ⟨s', r, hr, hq, -⟩ := readCluster_any (g := g) c s
  rw [hr]
  exact ⟨hs.quiet hq, fun _ _ => trivial⟩

lemma leads_fatNextCluster (hc : g.InRange c) :
    Leads (Writing g old) (Writing g old) (fatNextCluster g c) (Sane g) := by
  intro s hs
  obtain ⟨s', y, hy, hq, -, hcase⟩ := fatNextCluster_any (g := g) c s
  rw [hy]
  refine ⟨hs.quiet hq, fun z hz => ?_⟩
  obtain rfl := Option.some.inj hz
  rcases hcase with rfl | rfl
  · exact hs.fat c hc
  · exact sane_zero g

variable (hg : g.Valid) (h28 : g.totalSectors ≤ 2 ^ 28)
include hg h28

lemma leads_fatSetCluster (hc : g.InRange c) (hx : Sane g (x % 2 ^ 28)) :
    Leads (Writing g old) (Writing g old) (fatSetCluster g c x) fun _ => True := by
  intro s hs
  obtain ⟨s', r, hr, hd, hlog⟩ := fatSetCluster_any (g := g) c x s
  have hfat : FatSane g s'.disk := by
    rcases hd with hd | hd
    · rw [hd]
      exact hs.fat
    · rw [hd]
      exact hs.fat.fatPut hg hc hx
  rw [hr]
  rcases hlog with hlog | hlog
  · exact ⟨⟨hfat, by rw [hlog]; exact hs.log⟩, fun _ _ => trivial⟩
  · exact ⟨hs.cons hfat hlog (confined_set hg h28 hc), fun _ _ => trivial⟩

lemma leads_writeCluster (hc : c < 2 ∨ g.InRange c) (b : Buf) :
    Leads (Writing g old) (Writing g old) (writeCluster g c b) fun _ => True := by
  intro s hs
  obtain ⟨s', r, hr, ⟨hd, hlog⟩ | ⟨hc2, hlog, k, -, hd⟩⟩ := writeCluster_any (g := g) c b s
  · rw [hr]
    exact ⟨⟨by rw [hd]; exact hs.fat, by rw [hlog]; exact hs.log⟩, fun _ _ => trivial⟩
  · have hc' : g.InRange c := hc.resolve_left (by omega)
    rw [hr]
    refine ⟨hs.cons ?_ hlog (confined_write hg h28 hc'), fun _ _ => trivial⟩
    rw [hd]
    exact hs.fat.writeSectors hg hc' b

end

/-! ### Freeing, allocating, removing -/

section

variable {g : Geom} {old : List Access} {c x : ℕ}

/-- A data cluster can be a link. -/
lemma sane_link (hg : g.Valid) (hx : g.InRange x) : Sane g (x % 2 ^ 28) := by
  have hlt := (hg.lt_eoc hx).2
  rw [eoc] at hlt
  rw [Nat.mod_eq_of_lt (by omega)]
  exact .inr (.inr hx)

variable (hg : g.Valid) (h28 : g.totalSectors ≤ 2 ^ 28)
include hg h28

lemma leads_fatFreeChain (hc : Sane g c) :
    Leads (Writing g old) (Writing g old) (fatFreeChain g c) fun _ => True := by
  have hloop : ∀ n c, Sane g c →
      Leads (Writing g old) (Writing g old) (fatFreeChainLoop g n c) fun _ => True := by
    intro n
    induction n with
    | zero => exact fun c _ => .pure trivial
    | succ n ih =>
      intro c hc
      rw [fatFreeChainLoop]
      split
      · next hin =>
        have hr := hc.inRange hin
        exact (leads_fatNextCluster hr).then fun next hnext =>
          (leads_fatSetCluster hg h28 hr (sane_zero g)).ignore.then fun _ _ => ih next hnext
      · exact .pure trivial
  exact hloop _ c hc

lemma leads_fatAllocCluster : Leads (Writing g old) (Writing g old) (fatAllocCluster g)
    fun c => c = 0 ∨ g.InRange c := by
  have hloop : ∀ n c, 2 ≤ c → c + n ≤ 2 + g.count →
      Leads (Writing g old) (Writing g old) (fatAllocLoop g n c) fun c => c = 0 ∨ g.InRange c := by
    intro n
    induction n with
    | zero => exact fun c _ _ => .pure (.inl rfl)
    | succ n ih =>
      intro c h2 hle
      have hr : g.InRange c := ⟨h2, by omega⟩
      rw [fatAllocLoop]
      refine (leads_fatNextCluster hr).then fun val _ => ?_
      split
      · have hmark : Sane g (0x0FFFFFFF % 2 ^ 28) := .inr (.inl (by decide))
        refine (leads_fatSetCluster hg h28 hr hmark).attempt.then fun r _ => ?_
        cases r with
        | none => exact .pure (.inl rfl)
        | some _ => exact .pure (.inr hr)
      · exact ih (c + 1) (by omega) (by omega)
  rw [fatAllocCluster, hg.allocCount]
  exact hloop _ 2 le_rfl le_rfl

lemma leads_markOthers (c : ℕ) (ks : List ℕ) : ∀ track : List (ℕ × ℕ),
    (∀ p ∈ track, p.1 = 0 ∨ g.InRange p.1) →
    Leads (Writing g old) (Writing g old) (markOthers g c ks track) fun _ => True := by
  induction ks with
  | nil => exact fun track _ => .pure trivial
  | cons k ks ih =>
    intro track htrack
    rw [markOthers]
    split
    · exact ih track htrack
    · next hlc =>
      refine leads_kmalloc.attempt.then fun r _ => ?_
      cases r with
      | none => exact ih track htrack
      | some _ =>
        have hr : g.InRange (track.getD k (0, 0)).1 := by
          rw [List.getD_eq_getElem?_getD] at hlc ⊢
          cases hk : track[k]? with
          | none =>
            rw [hk] at hlc
            exact absurd (Or.inr rfl) hlc
          | some p =>
            rw [hk] at hlc
            exact (htrack p (List.mem_of_getElem? hk)).resolve_left fun h =>
              hlc (.inr h)
        generalize (track.getD k (0, 0)).1 = lc at hr
        have htrack' : ∀ p ∈ track.mapIdx fun m p =>
            if k ≤ m ∧ p.1 = lc then (0, p.2) else p, p.1 = 0 ∨ g.InRange p.1 := by
          intro p hp
          obtain ⟨i, hi, rfl⟩ := List.mem_mapIdx.mp hp
          split
          · exact .inl rfl
          · exact htrack _ (List.getElem_mem hi)
        dsimp only
        refine (leads_readCluster lc).attempt.then fun r _ => ?_
        cases r with
        | none => exact ih _ htrack'
        | some b =>
          exact (leads_writeCluster hg h28 (.inr hr) _).ignore.then fun _ _ =>
            ih _ htrack'

/-- What was found stands in data clusters. -/
def FoundIn (g : Geom) (f : Found) : Prop :=
  g.InRange f.cluster ∧ Sane g f.slot.cluster ∧ ∀ p ∈ f.track, g.InRange p.1

lemma leads_markDeleted {f : Found} (hf : FoundIn g f) :
    Leads (Writing g old) (Writing g old) (markDeleted g f) fun _ => True := by
  rw [markDeleted]
  exact (leads_writeCluster hg h28 (.inr hf.1) _).ignore.then fun _ _ =>
    leads_markOthers hg h28 _ _ _ fun p hp => .inr (hf.2.2 p hp)

lemma leads_removeFile {f : Found} (hf : FoundIn g f) :
    Leads (Writing g old) (Writing g old) (removeFile g f) fun _ => True := by
  rw [removeFile]
  split
  · exact (leads_fatFreeChain hg h28 hf.2.1).then fun _ _ => leads_markDeleted hg h28 hf
  · exact leads_markDeleted hg h28 hf

end

/-! ### Creating entries and writing data -/

section

variable {g : Geom} {old : List Access} {c : ℕ}
variable (hg : g.Valid) (h28 : g.totalSectors ≤ 2 ^ 28)

/-- The search for a free slot ends in a data cluster, or behind one if it read any. -/
lemma leads_dirFindStart (n : ℕ) : ∀ c prev, Sane g c → prev = 0 ∨ g.InRange prev →
    Leads (Writing g old) (Writing g old) (dirFindStart g n c prev) fun r => match r with
        | .inl prev => prev = 0 ∨ g.InRange prev
        | .inr (c, _) => g.InRange c := by
  induction n with
  | zero => exact fun c prev _ hprev => .pure hprev
  | succ n ih =>
    intro c prev hc hprev
    rw [dirFindStart]
    split
    · next hin =>
      have hr := hc.inRange hin
      refine (leads_readCluster c).attempt.then fun r _ => ?_
      cases r with
      | none => exact .pure hprev
      | some b =>
        dsimp only
        cases firstZero (slotsOf g.entriesPerCluster b) with
        | some i => exact .pure hr
        | none =>
          exact (leads_fatNextCluster hr).then fun next hnext =>
            ih next c hnext (.inr hr)
    · exact .pure hprev

include hg h28

lemma leads_dirAdvance (hc : g.InRange c) :
    Leads (Writing g old) (Writing g old) (dirAdvance g c) fun r => g.InRange r.1 := by
  rw [dirAdvance]
  refine (leads_fatNextCluster hc).then fun next hnext => ?_
  split
  · refine (leads_fatAllocCluster hg h28).then fun new hnew => ?_
    split
    · exact .fail
    · next h0 =>
      have hr := hnew.resolve_left h0
      exact (leads_fatSetCluster hg h28 hc (sane_link hg hr)).ignore.then fun _ _ =>
        (leads_writeCluster hg h28 (.inr hr) _).ignore.then fun _ _ => .pure hr
  · next hin =>
    have hr := hnext.inRange (by omega)
    exact (leads_readCluster next).then fun b _ => .pure hr

lemma leads_dirWriteLoop (es : List Slot) : ∀ c b idx, g.InRange c →
    Leads (Writing g old) (Writing g old) (dirWriteLoop g es c b idx) fun _ => True := by
  induction es with
  | nil =>
    intro c b idx hc
    rw [dirWriteLoop]
    exact leads_writeCluster hg h28 (.inr hc) b
  | cons e es ih =>
    intro c b idx hc
    rw [dirWriteLoop]
    split
    · exact (leads_writeCluster hg h28 (.inr hc) b).then fun _ _ =>
        (leads_dirAdvance hg h28 hc).then fun r hr => ih r.1 _ 1 hr
    · exact ih c _ _ hc

lemma leads_dirGrow {prev : ℕ} (hprev : prev = 0 ∨ g.InRange prev) :
    Leads (Writing g old) (Writing g old) (dirGrow g prev) g.InRange := by
  rw [dirGrow]
  refine (leads_fatAllocCluster hg h28).then fun new hnew => ?_
  split
  · exact .fail
  · next h0 =>
    have hr := hnew.resolve_left h0
    refine (leads_writeCluster hg h28 (.inr hr) _).ignore.then fun _ _ => ?_
    split
    · next hp =>
      exact (leads_fatSetCluster hg h28 (hprev.resolve_left hp)
        (sane_link hg hr)).ignore.then fun _ _ => .pure hr
    · exact .pure hr

lemma leads_dirWriteEntries {dir : ℕ} (hdir : Sane g dir) (es : List Slot) :
    Leads (Writing g old) (Writing g old) (dirWriteEntries g dir es) fun _ => True := by
  rw [dirWriteEntries]
  split
  · exact .pure trivial
  · refine leads_kmalloc.then fun _ _ => ?_
    refine (leads_dirFindStart _ dir 0 hdir (.inl rfl)).then fun r hr => ?_
    rcases r with prev | ⟨c, i⟩
    · exact (leads_dirGrow hg h28 hr).then fun c hc =>
        (leads_readCluster c).then fun b _ => leads_dirWriteLoop hg h28 es c b 0 hc
    · exact (leads_readCluster c).then fun b _ => leads_dirWriteLoop hg h28 es c b i hr

lemma leads_createEntry {dir : ℕ} (hdir : Sane g dir) (name : Name) (cluster size : ℕ)
    (attr : UInt8) : Leads (Writing g old) (Writing g old)
      (fat32CreateEntry g name dir cluster size attr) fun _ => True := by
  rw [fat32CreateEntry]
  exact leads_kmalloc.then fun _ _ => leads_dirWriteEntries hg h28 hdir _

lemma leads_writeDataLoop (ds : List (List UInt8)) : ∀ first prev, prev = 0 ∨ g.InRange prev →
    Leads (Writing g old) (Writing g old) (writeDataLoop g ds first prev) fun _ => True := by
  induction ds with
  | nil => exact fun first prev _ => .pure trivial
  | cons d ds ih =>
    intro first prev hprev
    have hstep : Leads (Writing g old) (Writing g old) (writeDataStep g d prev) g.InRange := by
      rw [writeDataStep]
      refine (leads_fatAllocCluster hg h28).then fun new hnew => ?_
      split
      · exact .fail
      · next h0 =>
        have hr := hnew.resolve_left h0
        have hrest : Leads (Writing g old) (Writing g old)
            (writeCluster g new (bufOfBytes d) >>= fun _ => pure new) g.InRange :=
          (leads_writeCluster hg h28 (.inr hr) _).then fun _ _ => .pure hr
        split
        · next hp =>
          exact (leads_fatSetCluster hg h28 (hprev.resolve_left hp)
            (sane_link hg hr)).ignore.then fun _ _ => hrest
        · exact hrest
    rw [writeDataLoop]
    exact hstep.then fun c hc => ih _ c (.inr hc)

end

/-! ### The calls -/

section

variable {g : Geom} {s₀ : State}

lemma SaneVolume.resolve (hs : SaneVolume g s₀) (path : Name) :
    Leads (Quiet s₀) (Quiet s₀) (fat32ResolvePath g path) fun r => Reached g s₀ r.1 := by
  intro s hq
  have hcwd : Reached g s₀ s.cwdCluster := by
    rw [hq.cwd]
    exact hs.cwd.imp id (Or.imp id fun hr => .start (by simp) hr)
  obtain ⟨hq', hdir⟩ := resolvePath_spec hs.closed hq.disk hcwd path
  exact ⟨hq.trans hq', fun r hr => hdir r.1 r.2 hr⟩

lemma SaneVolume.scan (hs : SaneVolume g s₀) (accept : UInt8 → Bool) (name : Name) {dir : ℕ}
    (hdir : Reached g s₀ dir) : Leads (Quiet s₀) (Quiet s₀) (trackScan g accept name dir)
      fun r => ∀ f, r = some f → FoundIn g f := by
  intro s hq
  obtain ⟨hq', hon⟩ := trackScan_spec accept name hs.closed hq.disk hdir
  refine ⟨hq.trans hq', fun r hr f hf => ?_⟩
  have hf := hon f (by rw [hr, hf])
  have hin : ∀ {c}, Reached g s₀ c ∧ Follows c → g.InRange c := fun h => h.1.sane.inRange h.2
  refine ⟨hin hf.cluster, ?_, fun p hp => hin (hf.track p hp)⟩
  have hlive := hf.live
  rw [hf.slot] at hlive ⊢
  exact (hs.closed.entry hf.cluster.1 hf.cluster.2 hf.idx hlive).sane

lemma quiet_malloc : Leads (Quiet s₀) (Quiet s₀) kmalloc fun _ => True :=
  fun s hq => ⟨hq.trans (quiet_kmalloc s), fun _ _ => trivial⟩

lemma SaneVolume.writing (hs : SaneVolume g s₀) {s : State} (hq : Quiet s₀ s) :
    Writing g s₀.log s := Writing.quiet ⟨hs.fat, fun _ ha => .inl ha⟩ hq

lemma leads_run (hg : g.Valid) (h28 : g.totalSectors ≤ 2 ^ 28) (hs : SaneVolume g s₀) (op : Op) :
    Leads (Quiet s₀) (Writing g s₀.log) (op.run g) fun _ => True := by
  have hle : ∀ s, Quiet s₀ s → Writing g s₀.log s := fun s => hs.writing
  cases op with
  | write path data =>
    rw [Op.run, fat32WriteFile]
    refine (hs.resolve path).bind (fun p hdir => ?_) hle
    obtain ⟨dir, name⟩ := p
    refine quiet_malloc.bind (fun _ _ => ?_) hle
    refine (hs.scan acceptFile name hdir).bind (fun r hr => ?_) hle
    have hcreate : Leads (Writing g s₀.log) (Writing g s₀.log)
        (if data.length = 0 then fat32CreateEntry g name dir 0 0 attrArchive
        else do
          kmalloc
          let first ← writeDataLoop g (fileChunks g data) 0 0
          fat32CreateEntry g name dir first data.length attrArchive) fun _ => True := by
      split
      · exact leads_createEntry hg h28 hdir.sane _ _ _ _
      · exact leads_kmalloc.then fun _ _ =>
          (leads_writeDataLoop hg h28 _ 0 0 (.inl rfl)).then fun first _ =>
            leads_createEntry hg h28 hdir.sane _ _ _ _
    cases r with
    | none => exact hcreate.strengthen hle
    | some f =>
      exact ((leads_removeFile hg h28 (hr f rfl)).then fun _ _ => hcreate).strengthen hle
  | delete path =>
    rw [Op.run, fat32DeleteFile]
    refine (hs.resolve path).bind (fun p hdir => ?_) hle
    obtain ⟨dir, name⟩ := p
    refine quiet_malloc.bind (fun _ _ => ?_) hle
    refine (hs.scan acceptFile name hdir).bind (fun r hr => ?_) hle
    cases r with
    | none => exact Leads.fail.strengthen hle
    | some f => exact (leads_removeFile hg h28 (hr f rfl)).strengthen hle
  | mkdir path =>
    rw [Op.run, fat32Mkdir]
    refine (hs.resolve path).bind (fun p hdir => ?_) hle
    obtain ⟨parent, name⟩ := p
    refine Leads.strengthen ?_ hle
    refine (leads_fatAllocCluster hg h28).then fun new hnew => ?_
    split
    · exact .fail
    · next h0 =>
      have hr := hnew.resolve_left h0
      refine leads_kmalloc.then fun _ _ => ?_
      refine (leads_writeCluster hg h28 (.inr hr) _).attempt.then fun r _ => ?_
      cases r with
      | none =>
        exact (leads_fatSetCluster hg h28 hr (sane_zero g)).ignore.then fun _ _ => .fail
      | some _ => exact leads_createEntry hg h28 hdir.sane _ _ _ _
  | rename oldpath newname =>
    rw [Op.run, fat32RenameFile]
    refine (hs.resolve oldpath).bind (fun p hdir => ?_) hle
    obtain ⟨dir, name⟩ := p
    refine quiet_malloc.bind (fun _ _ => ?_) hle
    refine (hs.scan acceptAny name hdir).bind (fun r hr => ?_) hle
    cases r with
    | none => exact Leads.fail.strengthen hle
    | some f =>
      exact ((leads_markDeleted hg h28 (hr f rfl)).then fun _ _ =>
        leads_createEntry hg h28 hdir.sane _ _ _ _).strengthen hle

end

lemma saneVolume_small : SaneVolume smallGeom (smallState smallFormatted) where
  root := by decide
  cwd := by decide
  fat := by
    have h : ∀ c < 8, 2 ≤ c → Sane smallGeom (fatEntry smallGeom smallFormatted c) := by
      decide +kernel
    exact fun c hc => h c hc.2 hc.1
  entries := by
    have h : ∀ c < 8, 2 ≤ c → ∀ i < 16, (slotOn smallGeom smallFormatted c i).live = false := by
      decide +kernel
    intro c hc i hi hlive
    rw [show (smallState smallFormatted).disk = smallFormatted from rfl,
      h c hc.inRange.2 hc.inRange.1 i hi] at hlive
    cases hlive

/-- A root directory with a file whose first cluster does not exist. -/
def strayDisk : Disk := smallDisk [0, 0, endMark] fun lba =>
  if lba = 2 then dirBuf [sfnSlot (pad 11 [0x41]) 200 1 attrArchive] else fun _ => 0

end GordOS.Fat32
