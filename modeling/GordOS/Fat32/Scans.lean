/-
What the scans of a directory find, on every disk.

The scan for an entry is coded several times (`fs/fat32.c`): lookup, path resolution and
`cd` only read the entry, write, delete and rename also keep the positions of the LFN
slots before it.

* `Found.On`: what was found stands on the disk;
* `Closed`: a set of cluster numbers that the driver does not leave when it follows the
  FAT and the entries of directories;
* `trackScanLoop_spec`, `dirScanLoop_spec`, `resolvePath_spec`: the scans and the
  resolution of a path only read, and stay in such a set.
-/
import Mathlib.Tactic
import GordOS.Fat32.Accesses
import GordOS.Fat32.Entries

namespace GordOS.Fat32

open GordOS GordOS.Fallible

/-- The slot with a number in a cluster on the disk. -/
def slotOn (g : Geom) (d : Disk) (c i : ℕ) : Slot := slotAt (clusterBuf g d c) i

section

variable {g : Geom} {accept : UInt8 → Bool} {name : Name}

/-- A scan has no error return. -/
lemma trackScanLoop_some (accept : UInt8 → Bool) (name : Name) (n : ℕ) : ∀ (c : ℕ) (st : TrackState) (s : State),
    ∃ r s', trackScanLoop g accept name n c st s = (some r, s') := by
  induction n with
  | zero => exact fun c st s => ⟨none, s, rfl⟩
  | succ n ih =>
    intro c st s
    rw [trackScanLoop]
    split
    · obtain ⟨s₁, r, hread, -⟩ := readCluster_any (g := g) c s
      rw [bind_of_some (attempt_of_eq hread)]
      cases r with
      | none => exact ⟨none, s₁, rfl⟩
      | some b =>
        dsimp only
        cases trackSlots accept name c (slotsOf g.entriesPerCluster b) 0 st with
        | stop => exact ⟨none, s₁, rfl⟩
        | found i e st' => exact ⟨_, s₁, rfl⟩
        | more st' =>
          obtain ⟨s₂, y, hnext, -⟩ := fatNextCluster_any (g := g) c s₁
          dsimp only
          rw [bind_of_some hnext]
          exact ih y st' s₂
    · exact ⟨none, s, rfl⟩

/-- The scan of one cluster: the slot found is live, and all positions kept are in this
cluster or were there before. -/
lemma trackSlots_spec (accept : UInt8 → Bool) (name : Name) {P : ℕ → Prop} {c : ℕ} (hc : P c) (es : List Slot) :
    ∀ (i : ℕ) (st : TrackState), (∀ p ∈ st.track, P p.1) →
    match trackSlots accept name c es i st with
    | .stop => True
    | .found j e st' => (∃ k, j = i + k ∧ es[k]? = some e ∧ e.live = true) ∧
        ∀ p ∈ st'.track, P p.1
    | .more st' => ∀ p ∈ st'.track, P p.1 := by
  induction es with
  | nil => exact fun i st h => h
  | cons e es ih =>
    intro i st h
    rw [trackSlots_cons]
    by_cases h0 : e 0 = 0
    · rw [if_pos h0]
      trivial
    · rw [if_neg h0]
      by_cases hhit : (e.live && (entryAt i e st.lfn).wanted accept name) = true
      · rw [if_pos hhit]
        exact ⟨⟨0, rfl, rfl, (Bool.and_eq_true_iff.mp hhit).1⟩, h⟩
      · rw [if_neg hhit]
        have hstep : ∀ p ∈ (if e.isLfn then st.push e c i else st.reset).track, P p.1 := by
          split
          · intro p hp
            rw [TrackState.push] at hp
            dsimp only at hp
            split at hp
            · rcases List.mem_append.mp hp with hp | hp
              · exact h p hp
              · rw [List.mem_singleton.mp hp]
                exact hc
            · exact h p hp
          · exact fun p hp => nomatch hp
        have hrest := ih (i + 1) _ hstep
        revert hrest
        generalize trackSlots accept name c es (i + 1)
          (if e.isLfn then st.push e c i else st.reset) = r
        cases r with
        | stop => exact fun h => h
        | more st' => exact fun h => h
        | found j e' st' =>
          rintro ⟨⟨k, rfl, hk, hlive⟩, htrack⟩
          exact ⟨⟨k + 1, by omega, hk, hlive⟩, htrack⟩

end

/-! ### Where the driver comes to -/

/-- A cluster number that the loops of the driver follow. -/
def Follows (c : ℕ) : Prop := 2 ≤ c ∧ c < eoc

/-- A set of numbers that holds the root and is not left along the FAT and through the
entries of directories. -/
structure Closed (g : Geom) (d : Disk) (At : ℕ → Prop) : Prop where
  zero : At 0
  root : At g.rootCluster
  next : ∀ {c}, At c → Follows c → At (fatEntry g d c)
  entry : ∀ {c i}, At c → Follows c → i < g.entriesPerCluster →
    (slotOn g d c i).live = true → At (slotOn g d c i).cluster

/-- What was found stands on the disk, in a cluster of the set, as do the positions of
the LFN slots. -/
structure Found.On (g : Geom) (d : Disk) (At : ℕ → Prop) (f : Found) : Prop where
  cluster : At f.cluster ∧ Follows f.cluster
  buf : f.buf = clusterBuf g d f.cluster
  idx : f.idx < g.entriesPerCluster
  slot : f.slot = slotOn g d f.cluster f.idx
  live : f.slot.live = true
  track : ∀ p ∈ f.track, At p.1 ∧ Follows p.1

section

variable {g : Geom} {accept : UInt8 → Bool} {name : Name} {d : Disk} {At : ℕ → Prop}

lemma trackScanLoop_spec (hat : Closed g d At) (n : ℕ) :
    ∀ (c : ℕ) (st : TrackState) (s : State), s.disk = d → At c →
    (∀ p ∈ st.track, At p.1 ∧ Follows p.1) →
    Quiet s (trackScanLoop g accept name n c st s).2 ∧
      ∀ f, (trackScanLoop g accept name n c st s).1 = some (some f) → f.On g d At := by
  induction n with
  | zero => exact fun c st s _ _ _ => ⟨.refl s, fun f hf => by cases hf⟩
  | succ n ih =>
    intro c st s hd hc htrack
    rw [trackScanLoop]
    split
    · next hin =>
      obtain ⟨s₁, r, hread, hq₁, -, hr⟩ := readCluster_any (g := g) c s
      rw [bind_of_some (attempt_of_eq hread)]
      rcases hr with rfl | rfl
      · exact ⟨hq₁, fun f hf => by cases hf⟩
      · rw [hd]
        dsimp only
        have hspec := trackSlots_spec accept name (P := fun c => At c ∧ Follows c) ⟨hc, hin⟩
          (slotsOf g.entriesPerCluster (clusterBuf g d c)) 0 st htrack
        revert hspec
        cases trackSlots accept name c (slotsOf g.entriesPerCluster (clusterBuf g d c)) 0 st with
        | stop => exact fun _ => ⟨hq₁, fun f hf => by cases hf⟩
        | found i e st' =>
          rintro ⟨⟨k, hi, hk, hlive⟩, htrack'⟩
          obtain rfl : i = k := hi.trans (Nat.zero_add k)
          refine ⟨hq₁, fun f hf => ?_⟩
          obtain rfl := Option.some.inj (Option.some.inj hf)
          rw [slotsOf, List.getElem?_map] at hk
          obtain ⟨j, hj, hslot⟩ := Option.map_eq_some_iff.mp hk
          obtain ⟨hlt, rfl⟩ := List.getElem?_eq_some_iff.mp hj
          rw [List.getElem_range] at hslot
          rw [List.length_range] at hlt
          exact ⟨⟨hc, hin⟩, rfl, hlt, hslot.symm, hlive, htrack'⟩
        | more st' =>
          intro htrack'
          obtain ⟨s₂, y, hnext, hq₂, -, hy⟩ := fatNextCluster_any (g := g) c s₁
          have hq := hq₁.trans hq₂
          dsimp only
          rw [bind_of_some hnext]
          have haty : At y := by
            rcases hy with rfl | rfl
            · rw [hq₁.disk, hd]
              exact hat.next hc hin
            · exact hat.zero
          obtain ⟨hq', hf⟩ := ih y st' s₂ (hq.disk.trans hd) haty htrack'
          exact ⟨hq.trans hq', hf⟩
    · exact ⟨.refl s, fun f hf => by cases hf⟩

lemma trackScan_spec (accept : UInt8 → Bool) (name : Name) (hat : Closed g d At) {c : ℕ} {s : State} (hd : s.disk = d) (hc : At c) :
    Quiet s (trackScan g accept name c s).2 ∧
      ∀ f, (trackScan g accept name c s).1 = some (some f) → f.On g d At :=
  trackScanLoop_spec hat _ c .init s hd hc fun _ hp => nomatch hp

/-- The directory that an entry leads to. -/
lemma Found.On.dirCluster (hat : Closed g d At) {f : Found} (hf : f.On g d At) :
    At (if f.slot.cluster = 0 then g.rootCluster else f.slot.cluster) := by
  split
  · exact hat.root
  · have hlive := hf.live
    rw [hf.slot] at hlive ⊢
    exact hat.entry hf.cluster.1 hf.cluster.2 hf.idx hlive

lemma resolveLoop_spec (hat : Closed g d At) (ds : List Name) :
    ∀ (c : ℕ) (s : State), s.disk = d → At c → Quiet s (resolveLoop g ds c s).2 ∧
      ∀ dir, (resolveLoop g ds c s).1 = some dir → At dir := by
  induction ds with
  | nil => exact fun c s _ hc => ⟨.refl s, fun dir h => Option.some.inj h ▸ hc⟩
  | cons x ds ih =>
    intro c s hd hc
    have hqk := quiet_kmalloc s
    rw [resolveLoop]
    rcases hk : kmalloc s with ⟨_ | _, s₁⟩
    · rw [hk] at hqk
      rw [bind_of_none hk]
      exact ⟨hqk, fun dir h => nomatch h⟩
    · rw [hk] at hqk
      rw [bind_of_some hk]
      have hd₁ : s₁.disk = d := hqk.disk.trans hd
      obtain ⟨hq, hon⟩ := trackScan_spec acceptDir (x.take 255) hat hd₁ hc
      have hscan := dirScan_eq (g := g) acceptDir (x.take 255) c s₁
      rcases htrack : trackScan g acceptDir (x.take 255) c s₁ with ⟨_ | _ | f, s₂⟩
      · rw [htrack] at hq hscan
        rw [bind_of_none hscan]
        exact ⟨hqk.trans hq, fun dir h => nomatch h⟩
      · rw [htrack] at hq hscan
        rw [bind_of_some hscan]
        exact ⟨hqk.trans hq, fun dir h => nomatch h⟩
      · rw [htrack] at hq hon hscan
        have hcluster := (hon f rfl).dirCluster hat
        obtain ⟨hq', hdir⟩ := ih _ s₂ (hq.disk.trans hd₁) hcluster
        rw [bind_of_some hscan]
        exact ⟨(hqk.trans hq).trans hq', hdir⟩

/-- **The resolution of a path** only reads, and stays in the set. -/
lemma resolvePath_spec (hat : Closed g d At) {s : State} (hd : s.disk = d)
    (hcwd : At s.cwdCluster) (path : Name) : Quiet s (fat32ResolvePath g path s).2 ∧
      ∀ dir last, (fat32ResolvePath g path s).1 = some (dir, last) → At dir := by
  have hstart : At (if path.head? = some 0x2F then g.rootCluster else s.cwdCluster) := by
    split
    · exact hat.root
    · exact hcwd
  rw [fat32ResolvePath, bind_of_some (gets_apply _ s)]
  rcases splitPath (if path.head? = some 0x2F then path.drop 1 else path) with ⟨ds, last⟩
  obtain ⟨hq, hdir⟩ := resolveLoop_spec hat ds _ s hd hstart
  rcases hrun : resolveLoop g ds
    (if path.head? = some 0x2F then g.rootCluster else s.cwdCluster) s with ⟨_ | dir, s'⟩
  · rw [hrun] at hq
    dsimp only
    rw [bind_of_none hrun]
    exact ⟨hq, fun _ _ h => nomatch h⟩
  · rw [hrun] at hq hdir
    dsimp only
    rw [bind_of_some hrun]
    refine ⟨hq, fun dir' last h => ?_⟩
    obtain ⟨rfl, -⟩ := Prod.mk.inj (Option.some.inj h)
    exact hdir dir rfl

end

end GordOS.Fat32
