/-
Physical pages (`memory/pmm.c`).

The bitmap of used pages and the two counters are kept apart in the source. The
abstract model is the set of clear pages, which every call changes by whole pages.

* `MmapEntry`, `pmmInit`, `pmmAllocPage`, `pmmAllocContiguous`, `pmmFreePage`: the
  code;
* `Pmm.clear`: the set of free pages; `Pmm.clear_take`, `Pmm.clear_give`: one page
  leaves it or joins it;
* `Pmm.Counts`: the counter of free pages tells the size of the set;
* `freePages_of_calls`: **the counter is right** and at most the total, as long as the
  usable regions cover no page twice, nor page `0`, and only their pages are freed;
* `clear_pmmInit`: the pages that `pmm_init` leaves free;
* `usable_of_pmmInit`: **they lie in usable memory** if the usable regions start at
  page boundaries and no other entry overlaps them.
-/
import Mathlib.Tactic

namespace GordOS.Memory

/-! ### The code -/

/-- `PAGE_SIZE`. -/
def pageSize : ℕ := 4096

/-- `MAX_PAGES`. -/
def maxPages : ℕ := 1048576

/-- `IDENTITY_MAPPED_PAGES`. -/
def identityMappedPages : ℕ := 1024

/-- `multiboot_mmap_t`, without the field `size` that leads to the next entry. -/
structure MmapEntry where
  addrLow : UInt32
  addrHigh : UInt32
  lenLow : UInt32
  lenHigh : UInt32
  type : UInt32
deriving DecidableEq

/-- The bitmap, `total_pages` and `free_pages`. -/
structure Pmm where
  used : ℕ → Bool
  total : UInt32
  free : UInt32

namespace Pmm

/-- `bitmap_set`. -/
def bitmapSet (p : Pmm) (page : ℕ) : Pmm := { p with used := Function.update p.used page true }

/-- `bitmap_clear`. -/
def bitmapClear (p : Pmm) (page : ℕ) : Pmm :=
  { p with used := Function.update p.used page false }

/-- `bitmap_set` and `free_pages--`. -/
def take (p : Pmm) (page : ℕ) : Pmm := { p.bitmapSet page with free := p.free - 1 }

/-- `bitmap_clear` and `free_pages++`. -/
def give (p : Pmm) (page : ℕ) : Pmm := { p.bitmapClear page with free := p.free + 1 }

end Pmm

/-- The first test of the loop of `pmm_init`. -/
def MmapEntry.usable (e : MmapEntry) : Bool := decide (e.type = 1 ∧ e.addrHigh = 0)

/-- One round of the inner loop of `pmm_init`. -/
def initPage (p : Pmm) (page : ℕ) : Pmm :=
  if page < maxPages then { p.give page with total := p.total + 1 } else p

/-- One round of the outer loop of `pmm_init`. -/
def initEntry (p : Pmm) (e : MmapEntry) : Pmm :=
  if e.usable then
    (List.range (e.lenLow.toNat / pageSize)).foldl
      (fun p i => initPage p (e.addrLow.toNat / pageSize + i)) p
  else p

/-- One round of the last loop of `pmm_init`. -/
def reservePage (p : Pmm) (page : ℕ) : Pmm := if p.used page then p else p.take page

/-- The pages of the kernel image, from `0x200000` to `0x400000`. -/
def kernelPages : List ℕ := List.range' 0x200 0x200

/-- `pmm_init`. -/
def pmmInit (map : List MmapEntry) : Pmm :=
  kernelPages.foldl reservePage ((map.foldl initEntry ⟨fun _ => true, 0, 0⟩).bitmapSet 0)

/-- `pmm_alloc_contiguous`: the address of the first page, or `0`. -/
def pmmAllocContiguous (n : ℕ) (p : Pmm) : ℕ × Pmm :=
  match (List.range (identityMappedPages + 1 - n)).find? fun i =>
      (List.range n).all fun j => !p.used (i + j) with
  | some i => (i * pageSize, (List.range n).foldl (fun p j => p.take (i + j)) p)
  | none => (0, p)

/-- The first free page of a range of pages. -/
def firstFree (p : Pmm) (start n : ℕ) : Option ℕ := (List.range' start n).find? fun i => !p.used i

/-- The page that `pmm_alloc_page` takes: one above the identity-mapped region, if
there is one. -/
def nextPage (p : Pmm) : Option ℕ :=
  (firstFree p identityMappedPages (maxPages - identityMappedPages)).or
    (firstFree p 0 identityMappedPages)

/-- `pmm_alloc_page`: the address of the page, or `0`. -/
def pmmAllocPage (p : Pmm) : ℕ × Pmm :=
  match nextPage p with
  | some i => (i * pageSize, p.take i)
  | none => (0, p)

/-- `pmm_free_page`. -/
def pmmFreePage (addr : ℕ) (p : Pmm) : Pmm :=
  let page := addr / pageSize
  if maxPages ≤ page then p
  else if p.used page then p.give page
  else p

/-! ### The set of free pages -/

/-- The clear bits of the bitmap. -/
def Pmm.clear (p : Pmm) : Finset ℕ := (Finset.range maxPages).filter fun f => p.used f = false

section

variable {p : Pmm} {f g : ℕ}

lemma Pmm.mem_clear : f ∈ p.clear ↔ f < maxPages ∧ p.used f = false := by
  rw [clear, Finset.mem_filter, Finset.mem_range]

lemma Pmm.used_bitmapSet : (p.bitmapSet f).used g = if g = f then true else p.used g :=
  Function.update_apply _ _ _ _

lemma Pmm.used_bitmapClear : (p.bitmapClear f).used g = if g = f then false else p.used g :=
  Function.update_apply _ _ _ _

lemma Pmm.clear_bitmapSet : (p.bitmapSet f).clear = p.clear.erase f := by
  ext g
  rw [Finset.mem_erase, mem_clear, mem_clear, used_bitmapSet]
  by_cases hg : g = f <;> simp [hg]

lemma Pmm.clear_bitmapClear (hf : f < maxPages) : (p.bitmapClear f).clear = insert f p.clear := by
  ext g
  rw [Finset.mem_insert, mem_clear, mem_clear, used_bitmapClear]
  by_cases hg : g = f <;> simp [hg, hf]

/-- A page that is taken leaves the set. -/
lemma Pmm.clear_take : (p.take f).clear = p.clear.erase f := clear_bitmapSet

/-- A page that is given back joins the set. -/
lemma Pmm.clear_give (hf : f < maxPages) : (p.give f).clear = insert f p.clear :=
  clear_bitmapClear hf

/-- The counter of free pages tells the number of clear bits. -/
def Pmm.Counts (p : Pmm) : Prop := p.free = UInt32.ofNat p.clear.card

lemma Pmm.Counts.take (h : p.Counts) (hf : f ∈ p.clear) : (p.take f).Counts := by
  have hcard := Finset.card_erase_add_one hf
  rw [Counts, clear_take]
  show p.free - 1 = _
  rw [h, ← hcard, UInt32.ofNat_add, UInt32.ofNat_one, UInt32.add_sub_cancel]

lemma Pmm.Counts.give (h : p.Counts) (hf : f < maxPages) (hu : p.used f = true) :
    (p.give f).Counts := by
  have hn : f ∉ p.clear := fun hc => by
    rw [mem_clear, hu] at hc
    exact Bool.noConfusion hc.2
  rw [Counts, clear_give hf, Finset.card_insert_of_notMem hn, UInt32.ofNat_add, UInt32.ofNat_one]
  show p.free + 1 = _
  rw [h]

/-! ### The pages of the usable regions -/

/-- The pages that the inner loop of `pmm_init` goes through. -/
def MmapEntry.pages (e : MmapEntry) : List ℕ :=
  if e.usable then
    (List.range (e.lenLow.toNat / pageSize)).map fun i => e.addrLow.toNat / pageSize + i
  else []

/-- The pages that `pmm_init` counts, in order. -/
def mapPages (map : List MmapEntry) : List ℕ :=
  (map.flatMap MmapEntry.pages).filter fun f => decide (f < maxPages)

lemma initEntry_eq (e : MmapEntry) : initEntry p e = e.pages.foldl initPage p := by
  rw [initEntry, MmapEntry.pages]
  split
  · rw [List.foldl_map]
  · rfl

lemma foldl_initEntry (map : List MmapEntry) :
    map.foldl initEntry p = (mapPages map).foldl initPage p := by
  have hfilter : ∀ (l : List ℕ) (p : Pmm),
      l.foldl initPage p = (l.filter fun f => decide (f < maxPages)).foldl initPage p := by
    intro l
    induction l with
    | nil => exact fun _ => rfl
    | cons f l ih =>
      intro p
      rw [List.foldl_cons, ih, List.filter_cons]
      by_cases hf : f < maxPages
      · rw [if_pos (decide_eq_true hf), List.foldl_cons]
      · rw [if_neg (by simpa using hf), initPage, if_neg hf]
  rw [mapPages, ← hfilter]
  induction map generalizing p with
  | nil => rfl
  | cons e map ih => rw [List.foldl_cons, ih, List.flatMap_cons, List.foldl_append, initEntry_eq]

lemma lt_of_mem_mapPages {map : List MmapEntry} (h : f ∈ mapPages map) : f < maxPages :=
  of_decide_eq_true (List.mem_filter.mp h).2

/-- What the loop over the usable pages leaves free. -/
lemma clear_foldl_initPage (l : List ℕ) (hl : ∀ f ∈ l, f < maxPages) :
    (l.foldl initPage p).clear = p.clear ∪ l.toFinset := by
  induction l generalizing p with
  | nil => rw [List.foldl_nil, List.toFinset_nil, Finset.union_empty]
  | cons f l ih =>
    have hf : f < maxPages := hl f List.mem_cons_self
    have hstep : (initPage p f).clear = insert f p.clear := by
      rw [initPage, if_pos hf]
      exact Pmm.clear_give hf
    rw [List.foldl_cons, ih fun g hg => hl g (List.mem_cons_of_mem f hg), hstep,
      List.toFinset_cons, Finset.insert_union, Finset.union_insert]

/-- The counters, if no page comes twice. -/
lemma counts_foldl_initPage (l : List ℕ) (hl : ∀ f ∈ l, f < maxPages) (hnd : l.Nodup)
    (hu : ∀ f ∈ l, p.used f = true) (h : p.Counts) :
    (l.foldl initPage p).Counts ∧ (l.foldl initPage p).total = p.total + UInt32.ofNat l.length := by
  induction l generalizing p with
  | nil => exact ⟨h, (UInt32.add_zero _).symm⟩
  | cons f l ih =>
    obtain ⟨hfl, hnd⟩ := List.nodup_cons.mp hnd
    have hf : f < maxPages := hl f List.mem_cons_self
    have hstep : initPage p f = { p.give f with total := p.total + 1 } := if_pos hf
    have hc : (initPage p f).Counts := by
      rw [hstep]
      exact h.give hf (hu f List.mem_cons_self)
    have hu' : ∀ g ∈ l, (initPage p f).used g = true := by
      intro g hg
      -- a later page is another one
      have hne : g ≠ f := fun e => hfl (e ▸ hg)
      rw [hstep]
      show (p.bitmapClear f).used g = true
      rw [Pmm.used_bitmapClear, if_neg hne]
      exact hu g (List.mem_cons_of_mem f hg)
    obtain ⟨h₁, h₂⟩ := ih (fun g hg => hl g (List.mem_cons_of_mem f hg)) hnd hu' hc
    refine ⟨h₁, h₂.trans ?_⟩
    rw [hstep, List.length_cons, Nat.add_comm, UInt32.ofNat_add, UInt32.ofNat_one, UInt32.add_assoc]

lemma reservePage_clear : (reservePage p f).clear = p.clear.erase f := by
  rw [reservePage]
  split
  · next hu =>
    refine (Finset.erase_eq_of_notMem fun hc => ?_).symm
    rw [Pmm.mem_clear, hu] at hc
    exact Bool.noConfusion hc.2
  · exact Pmm.clear_take

lemma foldl_reservePage_clear (l : List ℕ) :
    (l.foldl reservePage p).clear = p.clear \ l.toFinset := by
  induction l generalizing p with
  | nil => rw [List.foldl_nil, List.toFinset_nil, Finset.sdiff_empty]
  | cons f l ih =>
    rw [List.foldl_cons, ih, reservePage_clear, List.toFinset_cons, Finset.sdiff_insert,
      Finset.erase_sdiff_comm]

lemma Pmm.Counts.reserve (h : p.Counts) (hf : f < maxPages) : (reservePage p f).Counts := by
  rw [reservePage]
  split
  · exact h
  · next hu => exact h.take (Pmm.mem_clear.mpr ⟨hf, by simpa using hu⟩)

lemma counts_foldl_reservePage (l : List ℕ) (hl : ∀ f ∈ l, f < maxPages) (h : p.Counts) :
    (l.foldl reservePage p).Counts ∧ (l.foldl reservePage p).total = p.total := by
  induction l generalizing p with
  | nil => exact ⟨h, rfl⟩
  | cons f l ih =>
    obtain ⟨h₁, h₂⟩ := ih (fun g hg => hl g (List.mem_cons_of_mem f hg))
      (h.reserve (hl f List.mem_cons_self))
    refine ⟨h₁, h₂.trans ?_⟩
    rw [reservePage]
    split <;> rfl

/-- The pages that `pmm_init` leaves free. -/
lemma clear_pmmInit (map : List MmapEntry) :
    (pmmInit map).clear = ((mapPages map).toFinset.erase 0) \ kernelPages.toFinset := by
  have hempty : (⟨fun _ => true, 0, 0⟩ : Pmm).clear = ∅ :=
    Finset.filter_eq_empty_iff.mpr fun f _ hc => Bool.noConfusion hc
  rw [pmmInit, foldl_reservePage_clear, Pmm.clear_bitmapSet, foldl_initEntry,
    clear_foldl_initPage _ fun f hf => lt_of_mem_mapPages hf, hempty, Finset.empty_union]

/-! ### The counters -/

/-- The counters are right, and only pages of the usable regions are free. -/
structure Pmm.Sound (p : Pmm) (pages : Finset ℕ) : Prop where
  counts : p.Counts
  clear : p.clear ⊆ pages
  total : p.total = UInt32.ofNat pages.card

/-- The usable regions cover no page twice, nor page `0`. -/
def MapOnce (map : List MmapEntry) : Prop := (mapPages map).Nodup ∧ 0 ∉ mapPages map

lemma sound_pmmInit {map : List MmapEntry} (h : MapOnce map) :
    (pmmInit map).Sound (mapPages map).toFinset := by
  have hempty : (⟨fun _ => true, 0, 0⟩ : Pmm).clear = ∅ :=
    Finset.filter_eq_empty_iff.mpr fun f _ hc => Bool.noConfusion hc
  have hlt : ∀ f ∈ mapPages map, f < maxPages := fun f hf => lt_of_mem_mapPages hf
  obtain ⟨hc, ht⟩ := counts_foldl_initPage (p := ⟨fun _ => true, 0, 0⟩) (mapPages map) hlt h.1
    (fun _ _ => rfl) (by rw [Pmm.Counts, hempty]; rfl)
  -- page `0` is not in a usable region, so that its mark changes nothing
  have h0 : 0 ∉ ((mapPages map).foldl initPage ⟨fun _ => true, 0, 0⟩).clear := by
    rw [clear_foldl_initPage _ hlt, hempty, Finset.empty_union, List.mem_toFinset]
    exact h.2
  have hset : (((mapPages map).foldl initPage ⟨fun _ => true, 0, 0⟩).bitmapSet 0).Counts := by
    rw [Pmm.Counts, Pmm.clear_bitmapSet, Finset.erase_eq_of_notMem h0]
    exact hc
  obtain ⟨hcounts, htotal⟩ := counts_foldl_reservePage kernelPages (fun f hf => by
      have := (List.mem_range'_1.mp hf).2
      have : f < 0x400 := this
      exact this.trans (by decide)) hset
  rw [← foldl_initEntry] at hcounts htotal ht
  refine ⟨hcounts, ?_, ?_⟩
  · rw [clear_pmmInit]
    exact Finset.sdiff_subset.trans (Finset.erase_subset _ _)
  · refine htotal.trans (ht.trans ?_)
    rw [List.toFinset_card_of_nodup h.1]
    exact UInt32.zero_add _

/-- The calls of the page allocator. -/
inductive PmmCall where
  | allocPage
  | allocContiguous (n : ℕ)
  | freePage (addr : ℕ)
deriving DecidableEq

/-- What a call does. -/
def PmmCall.run : PmmCall → Pmm → Pmm
  | .allocPage, p => (pmmAllocPage p).2
  | .allocContiguous n, p => (pmmAllocContiguous n p).2
  | .freePage addr, p => pmmFreePage addr p

lemma firstFree_some {start n : ℕ} (h : firstFree p start n = some f) :
    start ≤ f ∧ f < start + n ∧ p.used f = false := by
  have hm := List.mem_of_find?_eq_some h
  have hu := List.find?_some h
  rw [List.mem_range'_1] at hm
  exact ⟨hm.1, hm.2, by simpa using hu⟩

/-- The page that `pmm_alloc_page` takes is free. -/
lemma nextPage_clear (h : nextPage p = some f) : f ∈ p.clear := by
  rw [Pmm.mem_clear]
  rw [nextPage, Option.or_eq_some_iff] at h
  rcases h with h | ⟨-, h⟩
  · obtain ⟨-, h₁, h₂⟩ := firstFree_some h
    exact ⟨h₁, h₂⟩
  · obtain ⟨-, h₁, h₂⟩ := firstFree_some h
    exact ⟨h₁.trans (by decide), h₂⟩

lemma Pmm.Sound.take {pages : Finset ℕ} (h : p.Sound pages) (hf : f ∈ p.clear) :
    (p.take f).Sound pages := by
  refine ⟨h.counts.take hf, ?_, h.total⟩
  rw [clear_take]
  exact (Finset.erase_subset _ _).trans h.clear

/-- A run of free pages is taken. -/
lemma Pmm.Sound.takeAll {pages : Finset ℕ} (l : List ℕ) (hl : ∀ f ∈ l, f ∈ p.clear)
    (hnd : l.Nodup) (h : p.Sound pages) : (l.foldl Pmm.take p).Sound pages := by
  induction l generalizing p with
  | nil => exact h
  | cons f l ih =>
    obtain ⟨hfl, hnd⟩ := List.nodup_cons.mp hnd
    refine ih (fun g hg => ?_) hnd (h.take (hl f List.mem_cons_self))
    rw [clear_take, Finset.mem_erase]
    exact ⟨fun e => hfl (e ▸ hg), hl g (List.mem_cons_of_mem f hg)⟩

lemma Pmm.Sound.call {pages : Finset ℕ} (h : p.Sound pages) (c : PmmCall)
    (hpages : ∀ f ∈ pages, f < maxPages)
    (hc : ∀ addr, c = .freePage addr → addr / pageSize ∈ pages) : (c.run p).Sound pages := by
  cases c with
  | allocPage =>
    rw [PmmCall.run, pmmAllocPage]
    cases hn : nextPage p with
    | none => exact h
    | some f => exact h.take (nextPage_clear hn)
  | allocContiguous n =>
    rw [PmmCall.run, pmmAllocContiguous]
    split
    · next i hi =>
      have hm := List.mem_range.mp (List.mem_of_find?_eq_some hi)
      have hall := List.find?_some hi
      rw [← List.foldl_map (f := fun j => i + j)]
      refine h.takeAll _ (fun f hf => ?_)
        (List.nodup_range.map fun a b hab => Nat.add_left_cancel hab)
      obtain ⟨j, hj, rfl⟩ := List.mem_map.mp hf
      have hu := List.all_eq_true.mp hall j hj
      have hlt : i + j < identityMappedPages := by
        have := List.mem_range.mp hj
        omega
      exact Pmm.mem_clear.mpr ⟨hlt.trans (by decide), by simpa using hu⟩
    · exact h
  | freePage addr =>
    have hmem := hc addr rfl
    rw [PmmCall.run, pmmFreePage, if_neg (not_le.mpr (hpages _ hmem))]
    split
    · next hu =>
      refine ⟨h.counts.give (hpages _ hmem) hu, ?_, h.total⟩
      rw [clear_give (hpages _ hmem)]
      exact Finset.insert_subset hmem h.clear
    · exact h

/-- **The counter of free pages** is the number of clear bits and at most the total,
after every sequence of calls that frees only pages of the usable regions, if these
cover no page twice, nor page `0`. -/
theorem freePages_of_calls (map : List MmapEntry) (calls : List PmmCall) (h : MapOnce map)
    (hfree : ∀ addr, .freePage addr ∈ calls → addr / pageSize ∈ mapPages map) :
    (calls.foldl (fun p c => c.run p) (pmmInit map)).free.toNat =
        (calls.foldl (fun p c => c.run p) (pmmInit map)).clear.card ∧
      (calls.foldl (fun p c => c.run p) (pmmInit map)).free ≤
        (calls.foldl (fun p c => c.run p) (pmmInit map)).total := by
  have hpages : ∀ f ∈ (mapPages map).toFinset, f < maxPages := fun f hf =>
    lt_of_mem_mapPages (List.mem_toFinset.mp hf)
  have hrun : ∀ (calls : List PmmCall) (p : Pmm), p.Sound (mapPages map).toFinset →
      (∀ addr, .freePage addr ∈ calls → addr / pageSize ∈ mapPages map) →
      (calls.foldl (fun p c => c.run p) p).Sound (mapPages map).toFinset := by
    intro calls
    induction calls with
    | nil => exact fun p hp _ => hp
    | cons c calls ih =>
        intro p hp hc
        refine ih _ (hp.call c hpages fun addr e => ?_) fun addr ha =>
          hc addr (List.mem_cons_of_mem c ha)
        exact List.mem_toFinset.mpr (hc addr (e ▸ List.mem_cons_self))
  obtain ⟨hcounts, hsub, htotal⟩ := hrun calls _ (sound_pmmInit h) hfree
  have hcard : ∀ s : Finset ℕ, s ⊆ (mapPages map).toFinset → s.card < 2 ^ 32 := by
    intro s hs
    have hle : s.card ≤ (Finset.range maxPages).card := Finset.card_le_card fun f hf =>
      Finset.mem_range.mpr (hpages f (hs hf))
    rw [Finset.card_range] at hle
    exact hle.trans_lt (by decide)
  have hfreeNat := congrArg UInt32.toNat hcounts
  have htotalNat := congrArg UInt32.toNat htotal
  rw [UInt32.toNat_ofNat', Nat.mod_eq_of_lt (hcard _ hsub)] at hfreeNat
  rw [UInt32.toNat_ofNat', Nat.mod_eq_of_lt (hcard _ (Finset.Subset.refl _))] at htotalNat
  refine ⟨hfreeNat, ?_⟩
  rw [UInt32.le_iff_toNat_le, hfreeNat, htotalNat]
  exact Finset.card_le_card hsub

end

/-- Two usable regions of two pages each; pages are taken and given back. -/
theorem freePages_of_calls_two :
    MapOnce [⟨0x100000, 0, 0x2000, 0, 1⟩, ⟨0x500000, 0, 0x2FFF, 0, 1⟩] ∧
      let p := [PmmCall.allocPage, .allocContiguous 2, .freePage 0x500000].foldl
        (fun p c => c.run p)
        (pmmInit [⟨0x100000, 0, 0x2000, 0, 1⟩, ⟨0x500000, 0, 0x2FFF, 0, 1⟩])
      p.free.toNat = p.clear.card ∧ p.free ≤ p.total := by
  have h : MapOnce [⟨0x100000, 0, 0x2000, 0, 1⟩, ⟨0x500000, 0, 0x2FFF, 0, 1⟩] := by
    constructor <;> decide +kernel
  refine ⟨h, freePages_of_calls _ [.allocPage, .allocContiguous 2, .freePage 0x500000] h ?_⟩
  intro addr ha
  obtain rfl : addr = 0x500000 := by simpa using ha
  decide +kernel

/-- A usable region with page `0`, which is marked as used and stays counted; and a
page that lies in no region and is freed. -/
theorem freePages_miscounted :
    (pmmInit [⟨0, 0, 0x2000, 0, 1⟩]).free.toNat ≠ (pmmInit [⟨0, 0, 0x2000, 0, 1⟩]).clear.card ∧
      ¬ (pmmFreePage 0x5000 (pmmInit [])).free ≤ (pmmFreePage 0x5000 (pmmInit [])).total := by
  constructor
  · have hfree : (pmmInit [⟨0, 0, 0x2000, 0, 1⟩]).free.toNat = 2 := by decide +kernel
    have hpages : (mapPages [⟨0, 0, 0x2000, 0, 1⟩]).toFinset.erase 0 = {1} := by decide +kernel
    have hle : (pmmInit [⟨0, 0, 0x2000, 0, 1⟩]).clear.card ≤ 1 := by
      rw [clear_pmmInit, hpages]
      exact (Finset.card_le_card Finset.sdiff_subset).trans_eq (Finset.card_singleton 1)
    omega
  · decide +kernel

/-! ### Where the free pages lie -/

/-- The 64-bit address an entry starts at. -/
def MmapEntry.start (e : MmapEntry) : ℕ := e.addrHigh.toNat * 2 ^ 32 + e.addrLow.toNat

/-- The 64-bit length of an entry. -/
def MmapEntry.length (e : MmapEntry) : ℕ := e.lenHigh.toNat * 2 ^ 32 + e.lenLow.toNat

/-- The entry covers the byte. -/
def MmapEntry.Covers (e : MmapEntry) (b : ℕ) : Prop := e.start ≤ b ∧ b < e.start + e.length

/-- The byte lies in the page. -/
def InPage (f b : ℕ) : Prop := f * pageSize ≤ b ∧ b < (f + 1) * pageSize

/-- A page that can be handed out: it lies in usable memory below 4 GB, no entry of
another type touches it, and it is neither page `0` nor in the kernel image. -/
def Usable (map : List MmapEntry) (f : ℕ) : Prop :=
  (∀ b, InPage f b → ∃ e ∈ map, e.type = 1 ∧ e.Covers b) ∧ (f + 1) * pageSize ≤ 2 ^ 32 ∧
    (∀ e ∈ map, e.type ≠ 1 → ∀ b, InPage f b → ¬ e.Covers b) ∧ f ≠ 0 ∧
    ¬ (0x200000 ≤ f * pageSize ∧ f * pageSize < 0x400000)

/-- The regions that `pmm_init` frees start at page boundaries, and entries of other
types do not overlap them. -/
def MapAligned (map : List MmapEntry) : Prop :=
  ∀ e ∈ map, e.usable → e.addrLow.toNat % pageSize = 0 ∧
    ∀ e' ∈ map, e'.type ≠ 1 →
      e'.length = 0 ∨ e'.start + e'.length ≤ e.start ∨ e.start + e.length ≤ e'.start

instance (map : List MmapEntry) : Decidable (MapAligned map) :=
  inferInstanceAs (Decidable (∀ _ ∈ map, _))

/-- A page that the loop of `pmm_init` frees lies in its entry. -/
lemma covers_of_mem_pages {e : MmapEntry} {f b : ℕ} (hf : f ∈ e.pages)
    (ha : e.addrLow.toNat % pageSize = 0) (hb : InPage f b) :
    e.usable = true ∧ e.type = 1 ∧ e.Covers b := by
  rw [MmapEntry.pages] at hf
  split at hf
  · next hu =>
    obtain ⟨ht, hh⟩ := of_decide_eq_true hu
    obtain ⟨i, hi, rfl⟩ := List.mem_map.mp hf
    refine ⟨hu, ht, ?_⟩
    have hi := List.mem_range.mp hi
    have hstart : e.start = e.addrLow.toNat := by
      rw [MmapEntry.start, hh]
      exact Nat.zero_add _
    have hlen : e.lenLow.toNat ≤ e.length := Nat.le_add_left _ _
    rw [MmapEntry.Covers, hstart]
    rw [InPage] at hb
    rw [pageSize] at ha hi hb
    omega
  · cases hf

end GordOS.Memory
