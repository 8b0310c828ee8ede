/-
The copy of an address space (`paging_copy_address_space` of `memory/paging.c`).

Each page of the source is copied to a page that was free, and the loop stops at the first
page for which there is no memory. What has been copied by then is a part of the whole.

* `PartCopy`: some pages of an address space have been copied to an empty one;
* `PartCopy.copyPage`, `PartCopy.copyPages`: one round, and any number of rounds;
* `partCopy_copy`: the whole loop; `PartCopy.free_clear`: the end of the copy gives
  back all pages;
* `WellFormed`: the memory holds address spaces, and no mapped page is free;
* `pagingCopyAddressSpace_copies`: **the memory after the call**, whether it ended well or
  not.
-/
import Mathlib.Tactic
import GordOS.Memory.Refine

namespace GordOS.Memory

open GordOS Fallible
open GordOS.Fat32 (Buf read32 put32)

/-! ### Address spaces -/

section

variable {s s' s'' : Space} {src dst v w f : ℕ}

/-- Some pages of the address space `src` have been copied to pages that were free, and are
mapped at the same places of the address space `dst`. -/
structure PartCopy (src dst : ℕ) (s s' : Space) : Prop where
  other : ∀ d v, d ≠ dst → s'.entry d v = s.entry d v
  page : ∀ v w', s'.entry dst v = some w' → ∃ w, s.entry src v = some w ∧
    w' % pageSize = w % pageSize ∧ s'.bytes (frame w') = s.bytes (frame w)
  distinct : ∀ v w v' w', s'.entry dst v = some w → s'.entry dst v' = some w' →
    frame w = frame w' → v = v'
  taken : ∀ v w, s'.entry dst v = some w → frame w ∉ s'.free
  free : ∀ f, f ∈ s.free ↔ f ∈ s'.free ∨ s'.Maps dst f
  bytes : ∀ f, f ∉ s.free → s'.bytes f = s.bytes f

lemma partCopy_self (h : ∀ v, s.entry dst v = none) : PartCopy src dst s s := by
  have hno : ∀ {v w : ℕ} {p : Prop}, s.entry dst v = some w → p := fun {v w p} hw => by
    rw [h v] at hw
    cases hw
  refine ⟨fun _ _ _ => rfl, fun v w hw => hno hw, fun v w v' w' hw => hno hw,
    fun v w hw => hno hw, fun f => ⟨.inl, ?_⟩, fun _ _ => rfl⟩
  rintro (hf | ⟨v, w, hw, -⟩)
  · exact hf
  · exact hno hw

/-- The low bits of an entry that is present. -/
lemma mod_or_one (h : Present w) : w % pageSize ||| 1 = w % pageSize := by
  have hodd : w % pageSize % 2 = 1 := by
    rw [Present] at h
    rw [pageSize]
    omega
  refine Nat.eq_of_testBit_eq fun i => ?_
  rw [Nat.testBit_or]
  cases i with
  | zero => simp [hodd]
  | succ i => simp [Nat.testBit_one_eq_true_iff_self_eq_zero]

/-- One more page is copied. -/
lemma PartCopy.newPage (h : PartCopy src dst s s') (hsrc : s.entry src v = some w)
    (hp : Present w) (hnew : Space.NewPage dst v (w % pageSize) f (s'.bytes (frame w)) s' s'')
    (hused : frame w ∉ s.free) (hnone : s'.entry dst v = none) : PartCopy src dst s s'' := by
  have hflags : w % pageSize < pageSize := Nat.mod_lt _ (by decide)
  have hold : ∀ v' w', s'.entry dst v' = some w' → frame w' ≠ f := fun v' w' hw' e =>
    h.taken v' w' hw' (e ▸ hnew.mem)
  have hf : f ∈ s.free := (h.free f).mpr (.inl hnew.mem)
  refine
    { other := fun d v' hd => ?_
      page := fun v' w' hw' => ?_
      distinct := fun v₁ w₁ v₂ w₂ hw₁ hw₂ he => ?_
      taken := fun v' w' hw' hfree => ?_
      free := fun g => ?_
      bytes := fun g hg => ?_ }
  · rw [hnew.entry_ne fun e => hd e.1, h.other d v' hd]
  · rcases hnew.entry_cases hflags hw' with ⟨-, rfl, hframe, hmod⟩ | ⟨-, hw'⟩
    · refine ⟨w, hsrc, hmod.trans (mod_or_one hp), ?_⟩
      rw [hframe, hnew.bytes_self, h.bytes _ hused]
    · obtain ⟨w₀, hw₀, hmod, hbytes⟩ := h.page v' w' hw'
      exact ⟨w₀, hw₀, hmod, by rw [hnew.bytes_ne (hold v' w' hw'), hbytes]⟩
  · rcases hnew.entry_cases hflags hw₁ with ⟨-, rfl, hf₁, -⟩ | ⟨-, hw₁⟩
    · rcases hnew.entry_cases hflags hw₂ with ⟨-, rfl, -, -⟩ | ⟨-, hw₂⟩
      · rfl
      · exact absurd (he.symm.trans hf₁) (hold v₂ w₂ hw₂)
    · rcases hnew.entry_cases hflags hw₂ with ⟨-, rfl, hf₂, -⟩ | ⟨-, hw₂⟩
      · exact absurd (he.trans hf₂) (hold v₁ w₁ hw₁)
      · exact h.distinct v₁ w₁ v₂ w₂ hw₁ hw₂ he
  · obtain ⟨hne, hfree⟩ := hnew.mem_free.mp hfree
    rcases hnew.entry_cases hflags hw' with ⟨-, -, hframe, -⟩ | ⟨-, hw'⟩
    · exact hne hframe
    · exact h.taken v' w' hw' hfree
  · rw [h.free g, hnew.mem_free, hnew.maps_iff hflags hnone]
    by_cases hgf : g = f
    · rw [hgf]
      exact iff_of_true (.inl hnew.mem) (.inr (.inl ⟨rfl, rfl⟩))
    · simp [hgf]
  · have hgf : g ≠ f := fun e => hg (e ▸ hf)
    rw [hnew.bytes_ne hgf, h.bytes g hg]

/-- **One round**: the page is copied, or there is none at this place, or no memory. -/
lemma PartCopy.copyPage (h : PartCopy src dst s s') (hne : src ≠ dst) (hzero : 0 ∉ s.free)
    (hsrc : ∀ w, s.entry src v = some w → Present w ∧ frame w ∉ s.free)
    (hnone : s'.entry dst v = none) :
    ∃ r s'', Space.copyPage src dst v s' = (r, s'') ∧ PartCopy src dst s s'' ∧
      (∀ v', v' ≠ v → s''.entry dst v' = s'.entry dst v') ∧
      (r = some () → (s''.entry dst v).isSome = (s.entry src v).isSome) := by
  have hentry : s'.entry src v = s.entry src v := h.other src v hne
  rw [Space.copyPage, hentry]
  cases hw : s.entry src v with
  | none => exact ⟨_, s', rfl, h, fun _ _ => rfl, fun _ => by rw [hnone]⟩
  | some w =>
    obtain ⟨hp, hused⟩ := hsrc w hw
    have hzero' : 0 ∉ s'.free := fun hz => hzero ((h.free 0).mpr (.inl hz))
    rcases Space.addPage_spec hzero' dst v (w % pageSize) (s'.bytes (frame w)) with
      hadd | ⟨f, s'', hadd, hnew⟩
    · exact ⟨none, s', hadd, h, fun _ _ => rfl, fun hr => absurd hr.symm (Option.some_ne_none _)⟩
    · refine ⟨some (), s'', hadd, h.newPage hw hp hnew hused hnone, fun v' hv' => ?_, fun _ => ?_⟩
      · rw [hnew.entry_ne fun e => hv' e.2]
      · rw [hnew.entry_self]
        rfl

/-- **Any number of rounds**, for different places. -/
lemma PartCopy.copyPages (hne : src ≠ dst) (hzero : 0 ∉ s.free)
    (hsrc : ∀ v w, s.entry src v = some w → Present w ∧ frame w ∉ s.free) (l : List ℕ)
    (hl : l.Nodup) (h : PartCopy src dst s s') (hnone : ∀ v ∈ l, s'.entry dst v = none) :
    ∃ r s'', l.forM (Space.copyPage src dst) s' = (r, s'') ∧ PartCopy src dst s s'' ∧
      (∀ v, v ∉ l → s''.entry dst v = s'.entry dst v) ∧
      (r = some () → ∀ v ∈ l, (s''.entry dst v).isSome = (s.entry src v).isSome) := by
  induction l generalizing s' with
  | nil => exact ⟨_, s', rfl, h, fun _ _ => rfl, fun _ _ hv => nomatch hv⟩
  | cons v l ih =>
    obtain ⟨hv, hl⟩ := List.nodup_cons.mp hl
    obtain ⟨r, s₁, hrun, h₁, hother, hcopied⟩ :=
      h.copyPage hne hzero (hsrc v) (hnone v List.mem_cons_self)
    have hforM : (v :: l).forM (Space.copyPage src dst) s' =
        (Space.copyPage src dst v >>= fun _ => l.forM (Space.copyPage src dst)) s' := rfl
    rw [hforM]
    cases r with
    | none =>
      refine ⟨none, s₁, bind_of_none hrun, h₁, fun v' hv' => ?_, nofun⟩
      exact hother v' fun e => hv' (e ▸ List.mem_cons_self)
    | some =>
      obtain ⟨r, s₂, hrun₂, h₂, hother₂, hcopied₂⟩ := ih hl h₁ fun v' hv' => by
        rw [hother v' fun e => hv (e ▸ hv'), hnone v' (List.mem_cons_of_mem v hv')]
      refine ⟨r, s₂, (bind_of_some hrun).trans hrun₂, h₂, fun v' hv' => ?_, fun hr v' hv' => ?_⟩
      · rw [hother₂ v' fun e => hv' (List.mem_cons_of_mem v e),
          hother v' fun e => hv' (e ▸ List.mem_cons_self)]
      · rcases List.mem_cons.mp hv' with rfl | hv'
        · rw [hother₂ v' hv, hcopied rfl]
        · exact hcopied₂ hr v' hv'

/-- **The whole loop.** -/
lemma partCopy_copy (hne : src ≠ dst) (hzero : 0 ∉ s.free)
    (hsrc : ∀ v w, s.entry src v = some w → Present w ∧ frame w ∉ s.free)
    (hempty : ∀ v, s.entry dst v = none) :
    ∃ r s', Space.copy src dst s = (r, s') ∧ PartCopy src dst s s' ∧
      (r = some () → ∀ v < userPages, (s'.entry dst v).isSome = (s.entry src v).isSome) := by
  have hself : PartCopy src dst s s := partCopy_self hempty
  obtain ⟨r, s', hrun, h, -, hcopied⟩ := hself.copyPages hne hzero hsrc (List.range userPages)
    List.nodup_range fun v _ => hempty v
  rw [Space.copy, forM_range_mul (Space.copyPage src dst)]
  exact ⟨r, s', hrun, h, fun hr v hv => hcopied hr v (List.mem_range.mpr hv)⟩

/-- **The end of the copy gives back all pages.** -/
lemma PartCopy.free_clear (h : PartCopy src dst s s') (hcov : s'.Covered) :
    (s'.clear dst).free = s.free := by
  ext f
  rw [Space.free_clear hcov, h.free]
  rfl

end

/-! ### Memory -/

/-- The memory between two calls: the tables are in order, and neither the page `0` nor a
mapped page is free. -/
structure WellFormed (L : Layout) (m : Mem) (dirs : List ℕ) : Prop where
  tables : ∃ o, Tables L m dirs o
  zero : 0 ∉ m.pmm.clear
  used : ∀ d ∈ dirs, ∀ v < userPages, ∀ w, m.entry d v = some w → frame w ∉ m.pmm.clear

/-- The memory `m'` holds in `dst` copies of pages that `src` has in `m`: they lie on pages
that were free, and the pages of `src` are as they were. -/
structure CopyOf (src dst : ℕ) (m m' : Mem) : Prop where
  source : ∀ v < userPages, m'.entry src v = m.entry src v
  contents : ∀ v < userPages, ∀ w, m.entry src v = some w → m'.ram (frame w) = m.ram (frame w)
  page : ∀ v < userPages, ∀ w', m'.entry dst v = some w' → ∃ w, m.entry src v = some w ∧
    w' % pageSize = w % pageSize ∧ m'.ram (frame w') = m.ram (frame w) ∧ frame w' ∈ m.pmm.clear
  distinct : ∀ v < userPages, ∀ v' < userPages, ∀ w w', m'.entry dst v = some w →
    m'.entry dst v' = some w' → frame w = frame w' → v = v'

section

variable {L : Layout} {m m' : Mem} {dirs : List ℕ} {s s' : Space} {src dst : ℕ}

lemma WellFormed.shows (h : WellFormed L m dirs) : Shows True L dirs m (m.space dirs) := by
  obtain ⟨o, ho⟩ := h.tables
  exact shows_space ho (fun _ => h.zero) fun _ => h.used

lemma Shows.wellFormed (h : Shows True L dirs m s) : WellFormed L m dirs where
  tables := h.tables
  zero := h.free ▸ h.zero trivial
  used d hd v hv w hw := by
    rw [← h.entry d hd v hv] at hw
    exact h.free ▸ h.used trivial d v w hw

/-- The copies of the maps are copies in memory. -/
lemma PartCopy.copyOf (h : PartCopy src dst s s') (hm : Shows True L dirs m s)
    (hm' : Shows True L dirs m' s') (hsrc : src ∈ dirs) (hdst : dst ∈ dirs) (hne : src ≠ dst) :
    CopyOf src dst m m' where
  source v hv := by rw [← hm'.entry src hsrc v hv, ← hm.entry src hsrc v hv, h.other src v hne]
  contents v hv w hw := by
    rw [← hm.entry src hsrc v hv] at hw
    have hw' := (h.other src v hne).trans hw
    rw [← hm'.bytes trivial _ (hm'.frame_notMem hw') (hm'.used trivial _ _ _ hw'),
      ← hm.bytes trivial _ (hm.frame_notMem hw) (hm.used trivial _ _ _ hw),
      h.bytes _ (hm.used trivial _ _ _ hw)]
  page v hv w' hw' := by
    rw [← hm'.entry dst hdst v hv] at hw'
    obtain ⟨w, hw, hmod, hbytes⟩ := h.page v w' hw'
    refine ⟨w, by rw [← hm.entry src hsrc v hv, hw], hmod, ?_, ?_⟩
    · rw [← hm'.bytes trivial _ (hm'.frame_notMem hw') (hm'.used trivial _ _ _ hw'),
        ← hm.bytes trivial _ (hm.frame_notMem hw) (hm.used trivial _ _ _ hw), hbytes]
    · rw [← hm.free, h.free]
      exact .inr ⟨v, w', hw', rfl⟩
  distinct v hv v' hv' w w' hw hw' he := by
    rw [← hm'.entry dst hdst _ hv] at hw
    rw [← hm'.entry dst hdst _ hv'] at hw'
    exact h.distinct v w v' w' hw hw' he

/-- **`paging_copy_address_space` copies an address space**: if the call ends well, all of
it, with the same flags and the same contents; and if it does not, the end of the copy
gives back the pages that were taken for it. -/
theorem pagingCopyAddressSpace_copies (h : WellFormed L m dirs) (hsrc : src ∈ dirs)
    (hdst : dst ∈ dirs) (hne : src ≠ dst) (hempty : ∀ v < userPages, m.entry dst v = none) :
    CopyOf src dst m (pagingCopyAddressSpace L src dst m).2 ∧
    ((pagingCopyAddressSpace L src dst m).1 = some () → ∀ v < userPages,
      ((pagingCopyAddressSpace L src dst m).2.entry dst v).isSome = (m.entry src v).isSome) ∧
    ((pagingCopyAddressSpace L src dst m).1 = none →
      (pagingDestroyAddressSpace L dst (pagingCopyAddressSpace L src dst m).2).pmm.clear =
        m.pmm.clear) := by
  have hm := h.shows
  have hempty' : ∀ v, (m.space dirs).entry dst v = none := fun v => by
    by_cases hv : v < userPages
    · rw [hm.entry dst hdst v hv, hempty v hv]
    · exact hm.entryOut dst v fun e => hv e.2
  have hsrc' : ∀ v w, (m.space dirs).entry src v = some w →
      Present w ∧ frame w ∉ (m.space dirs).free := by
    intro v w hw
    refine ⟨?_, hm.used trivial src v w hw⟩
    rw [hm.entry src hsrc v (hm.entry_in hw).2] at hw
    exact Mem.entry_present hw
  obtain ⟨r, s', hrun, hpart, hall⟩ := partCopy_copy hne (hm.zero trivial) hsrc' hempty'
  obtain ⟨hret, hm'⟩ := refines_copy hsrc hdst m _ hm
  rw [hrun] at hret hm'
  refine ⟨hpart.copyOf hm hm' hsrc hdst hne, fun hr v hv => ?_, fun _ => ?_⟩
  · rw [← hm'.entry dst hdst v hv, ← hm.entry src hsrc v hv]
    exact hall (hret.symm.trans hr) v hv
  · have hend := (hm'.mono False.elim).destroy hdst False.elim
    rw [← hend.free, Space.destroy, hpart.free_clear hm'.covered]
    exact hm.free

lemma firstPage_mem : 0x200 ∈ kernelPages := mem_kernelPages.mpr ⟨le_rfl, by decide⟩

lemma secondPage_mem : 0x201 ∈ kernelPages := mem_kernelPages.mpr ⟨by decide, by decide⟩

lemma poolPage_mem (k : ℕ) (hk : k < userTablePool) : 0x202 + k ∈ kernelPages := by
  rw [userTablePool] at hk
  exact mem_kernelPages.mpr ⟨by omega, by omega⟩

lemma firstPage_ne (k : ℕ) (_ : k < userTablePool) : 0x200 ≠ 0x202 + k := by omega

lemma secondPage_ne (k : ℕ) (_ : k < userTablePool) : 0x201 ≠ 0x202 + k := by omega

lemma firstPage_ne_second : 0x200 ≠ 0x201 := by decide

/-- A kernel image with the tables at its beginning. -/
def sampleLayout : Layout where
  bootDir := 0x200
  bootTable := 0x201
  pool := 0x202
  bootDir_mem := firstPage_mem
  bootTable_mem := secondPage_mem
  pool_mem := poolPage_mem
  bootDir_ne := firstPage_ne_second
  bootDir_pool := firstPage_ne
  bootTable_pool := secondPage_ne

/-- Three pages of memory behind the kernel image. -/
def sampleMap : List MmapEntry := [⟨0x400000, 0, 0x3000, 0, 1⟩]

/-- Pages outside the kernel image keep their contents when an address space is created. -/
lemma Tables.ram_create {o : ℕ → Owner} (h : Tables L m dirs o) {f : ℕ} (hf : f ∉ kernelPages) :
    (pagingCreateAddressSpace L m).2.ram f = m.ram f := by
  cases hts : m.freeTables with
  | nil =>
    have hnone : allocPageTable m = (none, m) := by rw [allocPageTable, hts]
    rw [pagingCreateAddressSpace, bind_of_none hnone]
  | cons t ts =>
    obtain ⟨m', hrun, -, -, -, -, hapart, -⟩ := create_spec h hts
    rw [hrun]
    exact hapart f (.inl fun hin => hf hin.mem_kernelPages)

/-- With a free table there is a new address space. -/
lemma Shows.exists_create (h : Shows True L dirs m s) (hpool : s.pool ≠ []) :
    ∃ d m' s', pagingCreateAddressSpace L m = (some d, m') ∧ d ∉ dirs ∧
      Shows True L (d :: dirs) m' s' ∧ s'.pool = s.pool.tail ∧ s'.entry = s.entry ∧
      s'.free = s.free := by
  obtain ⟨d, ts, hts⟩ := List.exists_cons_of_ne_nil hpool
  have hs : Space.create s = (some d, { s with pool := ts }) := by rw [Space.create, hts]
  rcases h.create with ⟨-, hc⟩ | ⟨d', m', s', hrun, hc, hd, -, h'⟩
  · cases hc.symm.trans hs
  · obtain ⟨-, rfl⟩ := Prod.mk.inj (hc.symm.trans hs)
    refine ⟨d', m', _, hrun, hd, h', ?_, rfl, rfl⟩
    rw [hts, List.tail_cons]

/-- With a free page and a free table a page is mapped. -/
lemma Space.exists_addPage (hzero : 0 ∉ s.free) (hpool : s.pool ≠ []) {f : ℕ} (hf : f ∈ s.free)
    (hlt : f < maxPages) (d v flags : ℕ) (b : Buf) :
    ∃ g s', Space.addPage d v flags b s = (some (), s') ∧ Space.NewPage d v flags g b s s' := by
  obtain ⟨g, hg⟩ := Option.ne_none_iff_exists'.mp fun hn => nextFree_none hn hlt hf
  rcases Space.ensured_or s d (v / 1024) with ⟨-, hp, -⟩ | ⟨s', he⟩
  · exact absurd hp hpool
  · rcases Space.addPage_spec hzero d v flags b with hnone | hsome
    · rw [Space.addPage_page hg (fun e => hzero (e ▸ nextFree_mem hg)) he] at hnone
      cases hnone
    · exact hsome

/-- An address space after `paging_init`, with three free pages. -/
lemma exists_empty_space (ram : ℕ → Buf) : ∃ m d s, Shows True sampleLayout [d] m s ∧
    (∀ d v, s.entry d v = none) ∧ s.pool = sampleLayout.freePool.tail ∧
    s.free = {0x400, 0x401, 0x402} ∧ ∀ f, f ∉ kernelPages → m.ram f = ram f := by
  obtain ⟨m₀, hinit, hpmm, hpool, h₀⟩ := shows_pagingInit sampleLayout sampleMap ram
  have hpool₀ : (m₀.space []).pool = sampleLayout.freePool := h₀.pool.trans hpool
  obtain ⟨d, m₁, s₁, hrun₁, -, h₁, hpool₁, hentry₁, hfree₁⟩ :=
    h₀.exists_create (by rw [hpool₀]; exact List.cons_ne_nil _ _)
  have hmap : mapPages sampleMap = [0x400, 0x401, 0x402] := by decide
  refine ⟨m₁, d, s₁, h₁, fun d v => ?_, by rw [hpool₁, hpool₀], Finset.ext fun f => ?_,
    fun f hf => ?_⟩
  · rw [hentry₁, h₀.entryOut d v nofun]
  · rw [hfree₁, h₀.free, hpmm, mem_clear_pmmInit, hmap]
    simp only [List.mem_cons, List.not_mem_nil, or_false, Finset.mem_insert, Finset.mem_singleton]
    refine ⟨fun hf => hf.1.2, fun hf => ⟨⟨by omega, hf⟩, fun hk => ?_⟩⟩
    have hlow := kernelPages_lt hk
    omega
  · obtain ⟨o, ho⟩ := h₀.tables
    have hram := ho.ram_create hf
    rw [hrun₁] at hram
    have hram₀ := ram_pagingInit sampleLayout sampleMap ram hf
    rw [hinit] at hram₀
    exact hram.trans hram₀

/-- Two address spaces, one of them with a page. -/
lemma exists_two_spaces : ∃ m src dst s, Shows True sampleLayout [dst, src] m s ∧ src ≠ dst ∧
    (∀ v, s.entry dst v = none) ∧ (s.entry src 1).isSome := by
  obtain ⟨m₁, src, s₁, h₁, hnone, hpool₁, hfree₁, -⟩ := exists_empty_space fun _ _ => 0
  obtain ⟨dst, m₂, s₂, -, hdst, h₂, hpool₂, hentry₂, hfree₂⟩ :=
    h₁.exists_create (by rw [hpool₁]; exact List.cons_ne_nil _ _)
  have hfree : 0x400 ∈ s₂.free := by
    rw [hfree₂, hfree₁]
    exact Finset.mem_insert_self _ _
  have hpool₂ : s₂.pool ≠ [] := by
    rw [hpool₂, hpool₁]
    exact List.cons_ne_nil _ _
  obtain ⟨g, s₃, hadd, hnew⟩ := Space.exists_addPage (h₂.zero trivial) hpool₂
    hfree (by decide) src 1 7 fun _ => 0
  have hne : src ≠ dst := fun e => hdst (e ▸ List.mem_cons_self)
  have hsrc : src ∈ [dst, src] := List.mem_cons_of_mem _ List.mem_cons_self
  rcases h₂.mapNewPage hsrc (show pageSize / pageSize < userPages by decide)
    (show 7 < pageSize by decide) with ⟨m₃, s', -, -, hadd'⟩ | ⟨f, m₃, -, -, -, -, hadd'⟩
  · cases hadd.symm.trans (hadd' fun _ => 0)
  · obtain ⟨s', hs', -, h₃⟩ := hadd' fun _ => 0
    obtain ⟨-, rfl⟩ := Prod.mk.inj (hadd.symm.trans hs')
    refine ⟨_, src, dst, s₃, h₃, hne, fun v => ?_, ?_⟩
    · rw [hnew.entry_ne fun e => hne e.1.symm, hentry₂, hnone]
    · rw [hnew.entry_self]
      rfl

/-- A page and its copy. -/
theorem pagingCopyAddressSpace_copies_page : ∃ m src dst, WellFormed sampleLayout m [dst, src] ∧
    (m.entry src 1).isSome ∧
    CopyOf src dst m (pagingCopyAddressSpace sampleLayout src dst m).2 := by
  obtain ⟨m, src, dst, s, h, hne, hdst, hsrc⟩ := exists_two_spaces
  have hmem : src ∈ [dst, src] := List.mem_cons_of_mem _ List.mem_cons_self
  refine ⟨m, src, dst, h.wellFormed, ?_, ?_⟩
  · rwa [← h.entry src hmem 1 (by decide)]
  · refine (pagingCopyAddressSpace_copies h.wellFormed hmem List.mem_cons_self hne fun v hv => ?_).1
    rw [← h.entry dst List.mem_cons_self v hv, hdst v]

end

end GordOS.Memory
