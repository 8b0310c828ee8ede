/-
Clusters that no live object owns.

* `Covered`: every cluster in use belongs to an object, with one lemma for each part
  of an operation (`Inv.cleared_covered`, `Inv.wrote_covered`, `Created.covered`, ...);
* `Room`, `created_of_room`, `stored_of_free`: how many free clusters an operation
  needs, and that it then does not run out of them;
* `noLost_of_run`: **no cluster is lost** in a run in which every call finds the memory
  and the clusters it needs;
* `mkdir_loses_cluster`: a call that runs out of memory loses one.
-/
import Mathlib.Tactic
import GordOS.Fat32.Overwrite

namespace GordOS.Fat32

open GordOS GordOS.Fallible

section

variable {g : Geom} {E : Env} {v w : Vol} {R : List (Head ℕ)} {d : ℕ} {en : Entry}
variable {loc : Loc ℕ} {h : Head ℕ} {name : Name}

/-! ### Counting free clusters -/

/-- The number of free clusters. -/
def freeCount (g : Geom) (v : Vol) : ℕ := (freeClusters g v).length

lemma freeClusters_nodup (g : Geom) (v : Vol) : (freeClusters g v).Nodup :=
  List.Nodup.filter _ List.nodup_range'

lemma freeCount_congr (h : w.next = v.next) : freeCount g w = freeCount g v := by
  rw [freeCount, freeCount, freeClusters, freeClusters, h]

/-- The clusters that were free still are, some apart. -/
lemma freeCount_le_add {l : List ℕ} (h : ∀ x, v.next x = 0 → x ∉ l → w.next x = 0) :
    freeCount g v ≤ freeCount g w + l.length := by
  have hsub : freeClusters g v ⊆ freeClusters g w ++ l := by
    intro x hx
    obtain ⟨hr, h0⟩ := mem_freeClusters.mp hx
    by_cases hl : x ∈ l
    · exact List.mem_append_right _ hl
    · exact List.mem_append_left _ (mem_freeClusters.mpr ⟨hr, h x h0 hl⟩)
  have := ((freeClusters_nodup g v).subperm hsub).length_le
  rwa [List.length_append] at this

lemma freeCount_of_full (hfull : firstFree g w = none) : freeCount g w = 0 :=
  List.length_eq_zero_iff.mpr (List.head?_eq_none_iff.mp hfull)

/-- The removal of a file adds its clusters to the free ones. -/
lemma freeCount_cleared {l : List ℕ} (hl : ∀ x ∈ l, g.InRange x)
    (hn : l.Nodup) (hu : ∀ x ∈ l, v.next x ≠ 0) :
    freeCount g v + l.length ≤ freeCount g (v.free l) := by
  have hnd : (freeClusters g v ++ l).Nodup :=
    List.nodup_append.mpr ⟨freeClusters_nodup g v, hn, fun x hx y hy hxy =>
      hu y hy (hxy ▸ (mem_freeClusters.mp hx).2)⟩
  have hsub : freeClusters g v ++ l ⊆ freeClusters g (v.free l) := by
    intro x hx
    rw [mem_freeClusters]
    by_cases hxl : x ∈ l
    · exact ⟨hl x hxl, Vol.free_next_of_mem _ hxl⟩
    · obtain ⟨hr, h0⟩ := mem_freeClusters.mp ((List.mem_append.mp hx).resolve_right hxl)
      exact ⟨hr, (Vol.free_next_of_notMem _ hxl).trans h0⟩
  have := (hnd.subperm hsub).length_le
  rwa [List.length_append] at this

/-! ### Clusters in use -/

/-- Every cluster in use belongs to an object. -/
def Covered (g : Geom) (v : Vol) (R : List (Head ℕ)) : Prop :=
  ∀ c, g.InRange c → v.next c ≠ 0 →
    ∃ loc h, Ref (subOf g v) R loc h ∧ c ∈ cellsOf g v h

lemma Covered.addEmpty (hC : Covered g v R) : Covered g v (R ++ [⟨0, false⟩]) := by
  intro c hc h0
  obtain ⟨loc, h, hr, hm⟩ := hC c hc h0
  exact ⟨loc, h, hr.append_roots _, hm⟩

/-- The removal of a file frees its clusters. -/
lemma Inv.cleared_covered (hg : g.Valid) (hI : Inv g v R) (hC : Covered g v R)
    (hd : Reach (subOf g v) R d) (hen : en ∈ entries g v d) (hf : en.slot.isDir = false)
    (hc : Cleared g E v d en w) : Covered g w R := by
  obtain ⟨K, hK, hI', hs, hmono⟩ := hI.cleared_via hg hd hen hf hc
  intro c hcr h0
  obtain ⟨h1, hnot⟩ : v.next c ≠ 0 ∧ c ∉ chainOf g v en.slot.cluster := by
    obtain ⟨K', -, rfl⟩ := hc
    have hnot : c ∉ chainOf g v en.slot.cluster := fun hm =>
      h0 (Vol.free_next_of_mem _ hm)
    rw [Vol.free_next_of_notMem _ hnot] at h0
    exact ⟨h0, hnot⟩
  obtain ⟨loc, h, hr, hm⟩ := hC c hcr h1
  have hne : loc ≠ .slot d en.idx := by
    rintro rfl
    rw [hr.unique (ref_entry hd hen (hI.file_not_dot hd hen hf))] at hm
    exact hnot hm
  have hr' := hmono loc h hr hne
  refine ⟨loc, h, (hs.ref_iff hg hI').mpr hr', ?_⟩
  rwa [hs.cells hg hI' hr', cellsOf_killIn]

/-- A change of free clusters that become the clusters of a new object. -/
lemma Covered.of_same (hg : g.Valid) (hI : Inv g v R) (hC : Covered g v R) (hs : Same g v w R)
    {l : List ℕ} (hn : ∀ x, x ∉ l → w.next x = v.next x) (hl : cellsOf g w h = l) :
    Covered g w (R ++ [h]) := by
  intro c hc h0
  by_cases hm : c ∈ l
  · exact ⟨.root R.length, h, .root (by simp), by rwa [hl]⟩
  · rw [hn c hm] at h0
    obtain ⟨loc, h', hr, hm'⟩ := hC c hc h0
    refine ⟨loc, h', ((hs.ref_iff hg hI).mpr hr).append_roots _, ?_⟩
    rwa [hs.cells hg hI hr]

lemma Inv.wrote_covered (hg : g.Valid) (hI : Inv g v R) (hC : Covered g v R)
    {ds : List (List UInt8)} {new : List ℕ} {a : ℕ} (hw : Wrote g v [] ds w new)
    (hc : IsChain g w a new) : Covered g w (R ++ [⟨a, false⟩]) :=
  hC.of_same hg hI (hI.wrote_same hw) (fun x hx => hw.next_eq x (by simp) hx) (hc.chainOf_eq hg)

lemma Inv.newDir_covered (hg : g.Valid) (hI : Inv g v R) (hC : Covered g v R) {new : ℕ}
    (hr : g.InRange new) (h0 : v.next new = 0) (p : ℕ) :
    Covered g (Vol.newDir g v new p) (R ++ [⟨new, true⟩]) := by
  refine hC.of_same hg hI (hI.newDir_same h0 p) (l := [new]) (fun x hx => ?_)
    ((newDir_chain hr p).chainOf_eq hg)
  rw [Vol.newDir, Vol.setData_next, Vol.setNext_next_ne _ _ _ _ (by simpa using hx)]

/-- An entry taken out of its directory. -/
lemma Inv.kill_covered (hg : g.Valid) (hI : Inv g v R) (hC : Covered g v R)
    (hd : Reach (subOf g v) R d) {k : ℕ} {K : List ℕ} {e : Slot}
    (hk : (dirSlots g v d)[k]? = some e) (hK : Marks E (dirSlots g v d) k K)
    (hh : slotHead e = some h) : Covered g (v.killIn g d K) (R ++ [h]) := by
  have hm := hI.kill_moved hg hd hk hK hh
  intro c hc h0
  obtain ⟨loc, h', hr, hmem⟩ := hC c hc h0
  by_cases hloc : loc = .slot d k
  · subst hloc
    have heq := Option.some.inj (hr.sub_eq.symm.trans hm.held)
    exact ⟨_, h, hm.ref_iff.mpr (Or.inl ⟨rfl, rfl⟩), by rw [cellsOf_killIn]; exact heq ▸ hmem⟩
  · exact ⟨loc, h', hm.ref_iff.mpr (Or.inr ⟨hloc, hr⟩), by rwa [cellsOf_killIn]⟩

/-- A new entry that takes its object, and the clusters its directory gained. -/
lemma Created.covered (hg : g.Valid) (hI : Inv g v (R ++ [h]))
    (hC : Covered g v (R ++ [h])) (hd : Reach (subOf g v) R d) {c n : ℕ} {a : UInt8}
    {r : Option Unit} (hcr : Created g E v d name c n a r w) (ht : Taken g v R d h w) :
    Covered g w R := by
  rcases hcr with ⟨-, rfl, -⟩ | ⟨ext, m, ha, -⟩
  · -- the object cannot be in a slot of the unchanged volume
    obtain ⟨k, hm⟩ := ht.moved
    exact absurd (hm.held.symm.trans hm.gone) (by simp)
  · obtain ⟨k, hm⟩ := ht.moved
    have hd' := hd.append_roots [h]
    intro x hx h0
    by_cases hmem : x ∈ chainOf g v d ++ ext
    · obtain ⟨ld, hld⟩ := hm.reach
      refine ⟨ld, ⟨d, true⟩, hld, ?_⟩
      rw [cellsOf, append_chainOf hg ha]
      exact hmem
    · rw [ha.next_eq x hmem] at h0
      obtain ⟨loc, h', hr, hx'⟩ := hC x hx h0
      have hcell : h'.cell ≠ d := by
        rintro rfl
        exact hmem (List.mem_append_left _ hx')
      have hcells := (hI.append_kept hg hd' ha hr hcell).cells
      rcases hm.ref_iff.mp hr with ⟨-, rfl⟩ | ⟨-, hr'⟩
      · exact ⟨_, h', hm.reach.slot hm.held, by rwa [hcells]⟩
      · exact ⟨loc, h', hr', by rwa [hcells]⟩

/-! ### Enough free clusters -/

/-- The directory has room for a new entry, with `f` free clusters to grow by. -/
def Room (g : Geom) (v : Vol) (d : ℕ) (name : Name) (f : ℕ) : Prop :=
  endIndex (dirSlots g v d) + (lfnEntriesNeeded name + 1)
    ≤ ((chainOf g v d).length + f) * g.entriesPerCluster

instance (f : ℕ) : Decidable (Room g v d name f) := inferInstanceAs (Decidable (_ ≤ _))

lemma Room.congr {f f' : ℕ} (hr : Room g v d name f) (hc : chainOf g w d = chainOf g v d)
    (he : endIndex (dirSlots g w d) = endIndex (dirSlots g v d)) (hf : f ≤ f') :
    Room g w d name f' := by
  rw [Room, hc, he]
  exact hr.trans (Nat.mul_le_mul_right _ (by omega))

/-- With room for it and memory, an entry is created. -/
lemma created_of_room (hm : E.memOk) (hd : IsChain g v d (chainOf g v d)) {c n : ℕ}
    {a : UInt8} {r : Option Unit} (hr : Room g v d name (freeCount g v))
    (hcr : Created g E v d name c n a r w) : r = some () := by
  rcases hcr with ⟨-, -, hnm⟩ | ⟨ext, m, ha, hiff⟩
  · exact absurd hm hnm
  · cases r with
    | some _ => rfl
    | none =>
      have hlt := hiff.mp rfl
      obtain ⟨hfull, hlen⟩ := ha.full hlt
      -- the directory has taken all clusters that were free
      have hext : freeCount g v ≤ ext.length := by
        have hle := freeCount_le_add (g := g) (v := v) (w := w) (l := ext) ?_
        · rw [freeCount_of_full hfull] at hle
          omega
        · intro x h0 hx
          have hxL : x ∉ chainOf g v d := fun h => hd.next_ne_zero x h h0
          rw [ha.next_eq x (by simp [hxL, hx]), h0]
      have hes : (entrySlots name c n a).length = lfnEntriesNeeded name + 1 := by
        simp [entrySlots, writeLfnEntries]
      have hmul : ((chainOf g v d).length + freeCount g v) * g.entriesPerCluster
          ≤ (chainOf g v d ++ ext).length * g.entriesPerCluster := by
        rw [List.length_append]
        exact Nat.mul_le_mul_right _ (by omega)
      rw [Room] at hr
      omega

/-- With enough free clusters all data is written. -/
lemma Wrote.length_eq {ds : List (List UInt8)} {new : List ℕ}
    (hw : Wrote g v [] ds w new) (hf : ds.length ≤ freeCount g v) :
    new.length = ds.length := by
  by_contra hne
  have hlt : new.length < ds.length := lt_of_le_of_ne hw.le hne
  have hle := freeCount_le_add (g := g) (v := v) (w := w) (l := new) fun x h0 hx =>
    (hw.next_eq x (by simp) hx).trans h0
  rw [freeCount_of_full (hw.full hlt)] at hle
  omega

/-! ### The operations -/

/-- The invariant, with every cluster in use covered. -/
structure Sound (g : Geom) (v : Vol) (R : List (Head ℕ)) : Prop where
  inv : Inv g v R
  covered : Covered g v R

section

variable (hg : g.Valid) (hm : E.memOk) {r : Option Unit}

include hg hm

/-- With room for it the new entry takes its object. -/
lemma Created.sound (hS : Sound g v (R ++ [h])) (hd : Reach (subOf g v) R d) (hn : IsPath name)
    {c n : ℕ} {a : UInt8} (hc : c < 2 ^ 32) (hh : h = ⟨c, Slot.isDirAttr a⟩)
    (hE : (newSfn name).getD 0 0 ≠ 0xE5) (ha : a ≠ 0x0F ∧ a ≠ 0x08)
    (hr : Room g v d name (freeCount g v)) (hcr : Created g E v d name c n a r w) :
    Sound g w R := by
  have hsome := created_of_room hm (hS.inv.dir_chain (hd.append_roots [h])) hr hcr
  have hlive := sfnSlot_live hn.1 hE c n ha
  rcases hcr.outcome hg hS.inv hd hn hc hh with ⟨-, -, ht⟩ | ⟨hno, -⟩
  · exact ⟨ht.inv, hcr.covered hg hS.inv hS.covered hd ht⟩
  · rw [hsome, hlive] at hno
    simp at hno

/-- The second half of a write that finds the clusters it needs. -/
lemma WriteTail.sound (hS : Sound g v R) (hd : Reach (subOf g v) R d) (hn : IsPath name)
    {data : List UInt8} (hE : (newSfn name).getD 0 0 ≠ 0xE5)
    (hf : (fileChunks g data).length ≤ freeCount g v)
    (hr : Room g v d name (freeCount g v - (fileChunks g data).length))
    (ht : WriteTail g E v d name data r w) : Sound g w R := by
  have hI := hS.inv
  cases ht with
  | empty _ hc =>
    have hr' := hr.congr (w := v) rfl rfl (Nat.sub_le _ _)
    exact hc.sound hg hm ⟨hI.addEmpty, hS.covered.addEmpty⟩ hd hn (by decide) rfl hE (by decide) hr'
  | noMemory _ hno => exact absurd hm hno
  | full _ hw hlt => exact absurd (hw.length_eq hf) (by omega)
  | @stored u new a _ _ _ hw hlen hchain hc =>
    have hs := hI.wrote_same hw
    have hd' := (hs.reach_iff hg hI).mpr hd
    obtain ⟨ld, hld⟩ := hd
    have hfree := freeCount_le_add (g := g) (v := v) (w := u) (l := new) fun x h0 hx =>
      (hw.next_eq x (by simp) hx).trans h0
    refine hc.sound hg hm ⟨hI.wrote hg hw hchain, hI.wrote_covered hg hS.covered hw hchain⟩
      hd' hn ((hchain.inRange _ (Chain.head_mem hchain)).lt hg) rfl hE (by decide) ?_
    exact hr.congr (hs.cells hg hI hld) (by rw [hs.slots hg hI ⟨ld, hld⟩]) (by omega)

end

/-- The number of clusters of the file that a write replaces. -/
def oldClusters (g : Geom) (v : Vol) (d : ℕ) (name : Name) : ℕ :=
  ((lookup g v acceptFile d name).map fun en =>
    (chainOf g v en.slot.cluster).length).getD 0

/-- The clusters of the old file are free behind its removal. -/
lemma Replaced.freeCount_le (hg : g.Valid) (hI : Inv g v R) (hd : Reach (subOf g v) R d)
    (hr : Replaced g E v d name w) :
    freeCount g v + oldClusters g v d name ≤ freeCount g w := by
  rcases hr with ⟨hnone, rfl⟩ | ⟨en, hf, K, -, rfl⟩
  · simp [oldClusters, hnone]
  · obtain ⟨hen, hacc, -⟩ := lookup_mem hf
    rw [oldClusters, hf, Option.map_some, Option.getD_some]
    rcases hI.file_chain hd hen (acceptFile_isDir hacc) with h0 | hc
    · rw [h0, chainOf_zero, Vol.free_nil, freeCount_congr Vol.killIn_next,
        List.length_nil, Nat.add_zero]
    · have hle := freeCount_cleared (v := v.killIn g d K) hc.inRange (hc.nodup hg) hc.next_ne_zero
      rwa [freeCount_congr Vol.killIn_next] at hle

lemma Replaced.room (hg : g.Valid) (hI : Inv g v R) (hd : Reach (subOf g v) R d)
    (hr : Replaced g E v d name w) {f f' : ℕ} (hroom : Room g v d name f) (hf : f ≤ f') :
    Room g w d name f' := by
  rcases hr with ⟨-, rfl⟩ | ⟨en, hfind, hc⟩
  · exact hroom.congr rfl rfl hf
  · obtain ⟨hen, hacc, -⟩ := lookup_mem hfind
    have hfile := acceptFile_isDir hacc
    have hchain := (hI.cleared_chain hd hen hfile hc).chainOf_eq hg
    obtain ⟨K, hK, hs, -⟩ := hI.cleared_slots hg hd hen hfile hc
    obtain ⟨hk, hl⟩ := mem_entries hen
    refine hroom.congr hchain ?_ hf
    rw [hs, endIndex_killAt hK (lt_endIndex_of_live (hI.tail d hd) hk hl)]

/-- What a call needs: a short name that is not the mark of a deleted slot, and free
clusters for its data and for the growth of the directory. -/
def Op.Fits (g : Geom) (v : Vol) (cwd : ℕ) : Op → Prop
  | .write path data => ∀ d name, resolve g v cwd path = some (d, name) →
      (newSfn name).getD 0 0 ≠ 0xE5 ∧
      (fileChunks g data).length ≤ freeCount g v + oldClusters g v d name ∧
      Room g v d name
        (freeCount g v + oldClusters g v d name - (fileChunks g data).length)
  | .delete _ => True
  | .mkdir path => ∀ d name, resolve g v cwd path = some (d, name) →
      firstFree g v ≠ none →
      (newSfn name).getD 0 0 ≠ 0xE5 ∧ Room g v d name (freeCount g v - 1)
  | .rename oldpath newname => ∀ d name, resolve g v cwd oldpath = some (d, name) →
      lookup g v acceptAny d name ≠ none →
      (newSfn newname).getD 0 0 ≠ 0xE5 ∧ Room g v d newname (freeCount g v)

/-- The second half of a write that finds the clusters it needs succeeds. -/
lemma WriteTail.succeeds (hg : g.Valid) (hm : E.memOk) (hI : Inv g v R) (hd : Reach (subOf g v) R d)
    {data : List UInt8} {r : Option Unit} (hf : (fileChunks g data).length ≤ freeCount g v)
    (hr : Room g v d name (freeCount g v - (fileChunks g data).length))
    (ht : WriteTail g E v d name data r w) : r = some () := by
  cases ht with
  | empty _ hc =>
    exact created_of_room hm (hI.dir_chain hd) (hr.congr (w := v) rfl rfl (Nat.sub_le _ _)) hc
  | noMemory _ hno => exact absurd hm hno
  | full _ hw hlt => exact absurd (hw.length_eq hf) (by omega)
  | @stored u new a _ _ _ hw hlen hchain hc =>
    have hs := hI.wrote_same hw
    have hd' := (hs.reach_iff hg hI).mpr hd
    obtain ⟨ld, hld⟩ := hd
    have hfree := freeCount_le_add (g := g) (v := v) (w := u) (l := new) fun x h0 hx =>
      (hw.next_eq x (by simp) hx).trans h0
    refine created_of_room hm ((hI.frame hg hs).dir_chain hd') ?_ hc
    exact hr.congr (hs.cells hg hI hld) (by rw [hs.slots hg hI ⟨ld, hld⟩]) (by omega)

/-- **A write that finds the clusters it needs succeeds.** -/
lemma WriteEff.succeeds (hg : g.Valid) (hm : E.memOk) (hI : Inv g v R)
    (hroot : Reach (subOf g v) R g.rootCluster) (hcwd : Reach (subOf g v) R E.cwd) {path : Name}
    {data : List UInt8} {r : Option Unit} (hres : resolve g v E.cwd path ≠ none)
    (hfit : (Op.write path data).Fits g v E.cwd) (he : WriteEff g E v path data r w) :
    r = some () := by
  cases he with
  | early hno => exact absurd (hno hm) hres
  | @write d name u _ _ hres' hrep ht =>
    have hd := hI.resolve_reach hroot hcwd hres'
    obtain ⟨-, hlen, hroom⟩ := hfit d name hres'
    have hfree := hrep.freeCount_le hg hI hd
    obtain ⟨hIu, hdu⟩ := Replaced.inv hg hI hd hrep
    exact ht.succeeds hg hm hIu hdu (by omega) (hrep.room hg hI hd hroom (by omega))

section

variable (hg : g.Valid) (hm : E.memOk) (hS : Sound g v R)
variable (hroot : Reach (subOf g v) R g.rootCluster)
variable (hcwd : Reach (subOf g v) R E.cwd) {path : Name} {r : Option Unit}

include hg hS hroot hcwd

lemma DeleteEff.sound (he : DeleteEff g E v path r w) : Sound g w R := by
  cases he with
  | early _ => exact hS
  | delete hres hf hc =>
    have hd := hS.inv.resolve_reach hroot hcwd hres
    obtain ⟨hen, hacc, -⟩ := lookup_mem hf
    have hfile := acceptFile_isDir hacc
    exact ⟨hS.inv.cleared hg hd hen hfile hc, hS.inv.cleared_covered hg hS.covered hd hen hfile hc⟩

include hm

lemma WriteEff.sound {data : List UInt8} (hp : IsPath path)
    (hfit : (Op.write path data).Fits g v E.cwd) (he : WriteEff g E v path data r w) :
    Sound g w R := by
  cases he with
  | early _ => exact hS
  | @write d name u _ _ hres hrep ht =>
    have hI := hS.inv
    have hd := hI.resolve_reach hroot hcwd hres
    obtain ⟨hE, hlen, hroom⟩ := hfit d name hres
    have hfree := hrep.freeCount_le hg hI hd
    obtain ⟨hIu, hdu⟩ := Replaced.inv hg hI hd hrep
    have hSu : Sound g u R := by
      refine ⟨hIu, ?_⟩
      rcases hrep with ⟨-, rfl⟩ | ⟨en, hf, hc⟩
      · exact hS.covered
      · obtain ⟨hen, hacc, -⟩ := lookup_mem hf
        exact hI.cleared_covered hg hS.covered hd hen (acceptFile_isDir hacc) hc
    exact ht.sound hg hm hSu hdu (resolve_name hres ▸ hp.last) hE (by omega)
      (hrep.room hg hI hd hroom (by omega))

lemma MkdirEff.sound (hp : IsPath path) (hfit : (Op.mkdir path).Fits g v E.cwd)
    (he : MkdirEff g E v path r w) : Sound g w R := by
  cases he with
  | early _ => exact hS
  | noMemory hno _ _ => exact absurd hm hno
  | @mkdir d name new _ _ hres hr h0 hc =>
    have hI := hS.inv
    have hd := hI.resolve_reach hroot hcwd hres
    have hne : firstFree g v ≠ none := by
      intro hnone
      have hmem := mem_freeClusters.mpr ⟨hr, h0⟩
      rw [List.head?_eq_none_iff.mp hnone] at hmem
      cases hmem
    obtain ⟨hE, hroom⟩ := hfit d name hres hne
    have hs := hI.newDir_same h0 d
    have hfree := freeCount_le_add (g := g) (v := v) (w := Vol.newDir g v new d)
      (l := [new]) fun x hx0 hx => by
        rw [Vol.newDir, Vol.setData_next, Vol.setNext_next_ne _ _ _ _ (by simpa using hx), hx0]
    have hd' := (hs.reach_iff hg hI).mpr hd
    obtain ⟨ld, hld⟩ := hd
    refine hc.sound hg hm
      ⟨hI.newDir hg hr h0 ⟨ld, hld⟩, hI.newDir_covered hg hS.covered hr h0 d⟩ hd'
      (resolve_name hres ▸ hp.last) (hr.lt hg) rfl hE (by decide) ?_
    exact hroom.congr (hs.cells hg hI hld) (by rw [hs.slots hg hI ⟨ld, hld⟩])
      (by rw [List.length_singleton] at hfree; omega)

lemma RenameEff.sound {newname : Name} (hold : ¬ IsDotName (pathParts path).2)
    (hnew : IsPath newname) (hfit : (Op.rename path newname).Fits g v E.cwd)
    (he : RenameEff g E v path newname r w) : Sound g w R := by
  cases he with
  | early _ => exact hS
  | @rename d name en K _ _ hres hf hK hc =>
    have hI := hS.inv
    obtain ⟨hd, hen, hdot, hhead⟩ := hI.old_entry hroot hcwd hres hf hold
    obtain ⟨hk, hl⟩ := mem_entries hen
    obtain ⟨hE, hroom⟩ := hfit d name hres (by rw [hf]; simp)
    have hd₁ := hI.kill_reach hg hd hk hK hhead
    refine hc.sound hg hm
      ⟨hI.kill hg hd hk hK hhead, hI.kill_covered hg hS.covered hd hk hK hhead⟩ hd₁ hnew
      en.slot.cluster_lt rfl hE (Slot.attr_of_live hl) ?_
    refine hroom.congr (chainOf_killIn d) ?_ (freeCount_congr Vol.killIn_next).ge
    rw [hI.killIn_slots hg hd hk hK, endIndex_killAt hK (lt_endIndex_of_live (hI.tail d hd) hk hl)]

end

/-! ### Runs -/

/-- No cluster is lost: each cluster in use is in the chain of a live object. -/
def NoLost (g : Geom) (v : Vol) : Prop :=
  ∀ c, g.InRange c → v.next c ≠ 0 → ∃ loc h, Live g v loc h ∧ c ∈ chainOf g v h.cell

/-- One call that finds the memory and the clusters it needs. -/
def FitStep (g : Geom) (d d' : Disk) : Prop :=
  ∃ (op : Op) (s : State), op.Ok ∧ op.Fits g (vol g d) s.cwdCluster ∧ s.disk = d ∧
    IoOk s ∧ (s.mem = fun _ => true) ∧ LiveDir g (vol g d) s.cwdCluster ∧
    d' = (op.run g s).2.disk

lemma Formatted.sound (hg : g.Valid) (hf : Formatted g v) : Sound g v [rootHead g] := by
  refine ⟨(hf.wellFormed hg).inv hg, fun c hc h0 => ?_⟩
  obtain rfl : c = g.rootCluster := by
    by_contra hne
    exact h0 (hf.free c hc hne)
  refine ⟨.root 0, rootHead g, .root rfl, ?_⟩
  rw [cellsOf, rootHead, hf.chain.chainOf_eq hg]
  exact List.mem_singleton_self _

lemma Sound.noLost (hS : Sound g v [rootHead g]) : NoLost g v := by
  intro c hc h0
  obtain ⟨loc, h, hr, hm⟩ := hS.covered c hc h0
  exact ⟨loc, h, hS.inv.live_iff.mp hr, hm⟩

/-- One such call loses no cluster. -/
lemma FitStep.sound (hg : g.Valid) {d d' : Disk} (hS : Sound g (vol g d) [rootHead g])
    (hs : FitStep g d d') : Sound g (vol g d') [rootHead g] := by
  obtain ⟨op, s, hop, hfit, rfl, hio, hmem, hcwd, rfl⟩ := hs
  have hI := hS.inv
  have hroot : Reach (subOf g (vol g s.disk)) [rootHead g] g.rootCluster :=
    ⟨.root 0, .root rfl⟩
  have hE := hio.holds_mem hmem
  cases op with
  | write path data =>
    have h := (spec_writeFile hg hI hroot hcwd.reach path data s hE rfl).2
    exact h.sound hg trivial hS hroot hcwd.reach hop hfit
  | delete path =>
    have h := (spec_deleteFile hg hI hroot hcwd.reach path s hE rfl).2
    exact h.sound hg hS hroot hcwd.reach
  | mkdir path =>
    have h := (spec_mkdir hg hI hroot hcwd.reach path s hE rfl).2
    exact h.sound hg trivial hS hroot hcwd.reach hop hfit
  | rename oldpath newname =>
    have h := (spec_renameFile hg hI hroot hcwd.reach oldpath newname s hE rfl).2
    exact h.sound hg trivial hS hroot hcwd.reach hop.2.2 hop.2.1 hfit

/-- **No cluster is lost** from a freshly formatted volume on, in a run in which every
call finds the memory and the clusters it needs. -/
theorem noLost_of_run (hg : g.Valid) {d d' : Disk} (hf : Formatted g (vol g d))
    (hrun : Relation.ReflTransGen (FitStep g) d d') : NoLost g (vol g d') := by
  have hS : Sound g (vol g d') [rootHead g] := by
    induction hrun with
    | refl => exact hf.sound hg
    | tail _ hs ih => exact hs.sound hg ih
  exact hS.noLost

/-- A file written to a freshly formatted volume. -/
theorem noLost_of_run_small :
    NoLost smallGeom (vol smallGeom
      ((Op.write [0x41] [7]).run smallGeom (smallState smallFormatted)).2.disk) := by
  have hres : resolve smallGeom (vol smallGeom smallFormatted) 2 [0x41]
      = some (2, [0x41]) := by decide +kernel
  have hfit : (Op.write [0x41] [7]).Fits smallGeom (vol smallGeom smallFormatted) 2 := by
    intro d name hres'
    obtain ⟨rfl, rfl⟩ := Prod.mk.inj (Option.some.inj (hres.symm.trans hres'))
    decide +kernel
  exact noLost_of_run smallGeom_valid smallFormatted_formatted
    (.single ⟨.write [0x41] [7], smallState smallFormatted, by decide, hfit, rfl, rfl, rfl,
      rootDir_live _, rfl⟩)

/-- **A cluster is lost** when `fat32_mkdir` runs out of memory behind its
allocation. -/
theorem mkdir_loses_cluster :
    ¬ ∀ (g : Geom) (d d' : Disk), g.Valid → Formatted g (vol g d) →
      Relation.ReflTransGen (Step g) d d' → NoLost g (vol g d') := by
  intro hall
  let s : State := (smallState smallFormatted).withMem fun _ => false
  let d' := ((Op.mkdir [0x44]).run smallGeom s).2.disk
  have hlost := hall smallGeom smallFormatted d' smallGeom_valid smallFormatted_formatted
    (.single ⟨.mkdir [0x44], s, by decide, rfl, rfl, rootDir_live _, rfl⟩)
  -- the root directory is still empty, and cluster 3 is in use
  have hflat : Flat smallGeom (vol smallGeom d') := by
    refine ⟨by decide, ?_, ?_, ?_, ?_, ?_⟩ <;> decide +kernel
  obtain ⟨loc, h, hl, hm⟩ := hlost 3 (by decide) (by decide +kernel)
  have hnil : (entries smallGeom (vol smallGeom d') smallGeom.rootCluster).length = 0 := by
    decide +kernel
  have hroot : 3 ∉ chainOf smallGeom (vol smallGeom d') 2 := by decide +kernel
  rcases hflat.live hl with ⟨-, rfl⟩ | ⟨en, hen, -⟩
  · exact hroot hm
  · rw [List.length_eq_zero_iff.mp hnil] at hen
    cases hen

end

end GordOS.Fat32
