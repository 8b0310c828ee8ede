/-
The page tables show address spaces (`memory/paging.c`).

The memory of the page tables is related to the maps of `Space.lean`, and each call of
`paging.c` does to the memory what its counterpart there does to the maps.

* `throughWindow_eq`: a page that is written through a window of the kernel half;
* `Shows c L dirs m s`: the memory `m`, with the directories `dirs` in use, shows the address
  spaces `s`; if `c` holds, the contents of the pages in use as well;
* `Shows.mapIn`, `Shows.mapNewPage`, `Shows.copy`, `Shows.create`, `Shows.clear`,
  `Shows.destroy`: **the calls follow the maps**;
* `shows_pagingInit`: so does the memory after `paging_init`.
-/
import Mathlib.Tactic
import GordOS.Memory.Tables

namespace GordOS.Memory

open GordOS Fallible
open GordOS.Fat32 (Buf read32 put32)

section

variable {L : Layout} {m : Mem} {dirs : List ℕ} {o : ℕ → Owner} {d i virt phys flags : ℕ}

/-! ### The scratch windows -/

lemma read32_eq_zero {b : Buf} {n : ℕ} (h : read32 b n = 0) {j : ℕ} (hj : j < 4) :
    b (n + j) = 0 := by
  have hb : ∀ c : UInt8, c.toNat = 0 → c = 0 := fun c hc => UInt8.toNat_inj.mp hc
  rw [read32] at h
  interval_cases j
  · exact hb _ (by simp only [Nat.add_zero]; omega)
  · exact hb _ (by omega)
  · exact hb _ (by omega)
  · exact hb _ (by omega)

/-- A word that is written and then cleared. -/
lemma put32_put32_zero {b : Buf} {n : ℕ} (w : ℕ) (h : read32 b n = 0) :
    put32 (put32 b n w) n 0 = b := by
  funext i
  by_cases hi : n ≤ i ∧ i < n + 4
  · obtain ⟨j, rfl⟩ := Nat.exists_eq_add_of_le hi.1
    have hj : j < 4 := by omega
    rw [read32_eq_zero h hj]
    interval_cases j <;> simp [put32]
  · rw [put32_outside _ (by omega), put32_outside _ (by omega)]

-- equations of the functions, not of their values: the kernel would run the calls
lemma pagingMapPage_eq : pagingMapPage =
    fun L virt phys flags m => (pagingMapPageIn L.bootDir virt phys flags m).2 := rfl

lemma pagingUnmapPage_eq : pagingUnmapPage = fun L virt m =>
    if Present (m.word L.bootDir (dirIndex virt)) then
      m.setWord (frame (m.word L.bootDir (dirIndex virt))) (tableIndex virt) 0
    else m := rfl

lemma throughWindow_def : throughWindow = fun L virt phys b m =>
    pagingUnmapPage L virt ((pagingMapPage L virt phys (1 ||| pageWriteable) m).setPage
      ((pagingMapPage L virt phys (1 ||| pageWriteable) m).frameAt L.bootDir virt)
      (b (pagingMapPage L virt phys (1 ||| pageWriteable) m))) := rfl

lemma ensureTable_of_present {bits : ℕ} (hp : Present (m.word d i)) :
    ensureTable d i bits m = (some (), m) := by
  rw [ensureTable, bind_of_some (gets_apply _ _), if_pos hp, pure_apply]

lemma pagingMapPageIn_of_present (hp : Present (m.word d (dirIndex virt))) :
    pagingMapPageIn d virt phys flags m = (some (), installEntry d virt phys flags m) := by
  rw [pagingMapPageIn, bind_of_some (ensureTable_of_present hp), modify_apply]

lemma installEntry_supervisor (hflags : flags &&& pageUser = 0) : installEntry d virt phys flags m =
      m.setWord (frame (m.word d (dirIndex virt))) (tableIndex virt) (entryWord phys flags) := by
  rw [installEntry]
  simp only [hflags, if_true]

lemma Mem.setPage_comm {f g : ℕ} (hfg : f ≠ g) (a b : Buf) :
    (m.setPage f a).setPage g b = (m.setPage g b).setPage f a :=
  congrArg (fun r => { m with ram := r }) (Function.update_comm hfg a b m.ram)

lemma Mem.setPage_setPage (f : ℕ) (a b : Buf) : (m.setPage f a).setPage f b = m.setPage f b :=
  congrArg (fun r => { m with ram := r }) (Function.update_idem a b m.ram)

lemma Mem.setPage_ram (f : ℕ) : m.setPage f (m.ram f) = m :=
  congrArg (fun r => { m with ram := r }) (Function.update_eq_self f m.ram)

/-- The window is opened. -/
lemma pagingMapPage_window (hr : m.Refers L.bootDir 769 L.kernelTable)
    (hvirt : dirIndex virt = 769) :
    pagingMapPage L virt phys (1 ||| pageWriteable) m =
      m.setWord L.kernelTable (tableIndex virt) (entryWord phys (1 ||| pageWriteable)) := by
  rw [← hvirt] at hr
  rw [pagingMapPage_eq]
  dsimp only
  rw [pagingMapPageIn_of_present hr.1, installEntry_supervisor (by decide), hr.2]

lemma bootDir_ne_kernelTable (L : Layout) : L.bootDir ≠ L.kernelTable :=
  L.inPool_kernelTable.ne_bootDir.symm

/-- A page other than the tables of the kernel half, written through a window. -/
lemma throughWindow_apply (hr : m.Refers L.bootDir 769 L.kernelTable) (hvirt : dirIndex virt = 769)
    (hphys : phys < 2 ^ 32) (hd : phys / pageSize ≠ L.bootDir) (b : Mem → Buf) :
    throughWindow L virt phys b m =
      ((m.setWord L.kernelTable (tableIndex virt) (entryWord phys (1 ||| pageWriteable))).setPage
        (phys / pageSize) (b (m.setWord L.kernelTable (tableIndex virt)
          (entryWord phys (1 ||| pageWriteable))))).setWord L.kernelTable (tableIndex virt) 0 := by
  have hopen : pagingMapPage L virt phys (1 ||| pageWriteable) m = _ :=
    pagingMapPage_window hr hvirt
  rw [← hvirt] at hr
  have hflags : 1 ||| pageWriteable < pageSize := by decide
  have hframe : (m.setWord L.kernelTable (tableIndex virt)
      (entryWord phys (1 ||| pageWriteable))).frameAt L.bootDir virt = phys / pageSize := by
    rw [Mem.frameAt, Mem.word_setWord_ne (bootDir_ne_kernelTable L), hr.2,
      Mem.word_setWord_self (entryWord_lt hphys (by decide)), frame_entryWord hflags]
  have hword : ∀ c, ((m.setWord L.kernelTable (tableIndex virt)
      (entryWord phys (1 ||| pageWriteable))).setPage (phys / pageSize) c).word L.bootDir
        (dirIndex virt) = m.word L.bootDir (dirIndex virt) := fun c => by
    rw [Mem.word_setPage_ne hd.symm, Mem.word_setWord_ne (bootDir_ne_kernelTable L)]
  rw [throughWindow_def]
  dsimp only
  rw [hopen, hframe, pagingUnmapPage_eq]
  dsimp only
  rw [hword, if_pos hr.1, hr.2]

/-- The pages of an address space are the same while a window is open. -/
lemma Tables.frameAt_window (h : Tables L m dirs o) (hd : d ∈ dirs) {t k x : ℕ}
    (ht : m.Refers d (dirIndex virt) t) (hi : dirIndex virt < 768) :
    (m.setWord L.kernelTable k x).frameAt d virt = frame (m.word t (tableIndex virt)) := by
  obtain ⟨-, htk, -⟩ := h.table_ne hd hi ht
  rw [Mem.frameAt, Mem.word_setWord_ne (h.dir_ne_kernel hd), ht.2, Mem.word_setWord_ne htk]

/-- **A page that is written through a window**: the window is closed afterwards, and only
the page has changed. -/
lemma throughWindow_eq (h : Tables L m dirs o) (hvirt : dirIndex virt = 769)
    (hf : phys / pageSize ∉ kernelPages) (hphys : phys < 2 ^ 32) (b : Mem → Buf) :
    throughWindow L virt phys b m = m.setPage (phys / pageSize)
      (b (m.setWord L.kernelTable (tableIndex virt) (entryWord phys (1 ||| pageWriteable)))) := by
  have hfk : L.kernelTable ≠ phys / pageSize := fun e =>
    hf (e ▸ L.inPool_kernelTable.mem_kernelPages)
  have hclosed : read32 (m.ram L.kernelTable) (4 * tableIndex virt) = 0 :=
    h.windows _ (Nat.mod_lt _ (by decide))
  rw [throughWindow_apply h.boot_refers hvirt hphys fun e => hf (e ▸ L.bootDir_mem), Mem.setWord,
    Mem.ram_setPage_ne hfk]
  generalize b (m.setWord L.kernelTable (tableIndex virt) _) = c
  rw [Mem.setWord, Mem.ram_setPage_self, put32_put32_zero _ hclosed, Mem.setPage_comm hfk.symm,
    Mem.setPage_setPage, Mem.setPage_ram]

end

/-! ### Address spaces in memory -/

/-- The memory `m`, with the directories `dirs` in use, shows the address spaces `s`. If `c`
holds, neither the page `0` nor a mapped page is free, and the contents of the pages in use
are shown as well. -/
structure Shows (c : Prop) (L : Layout) (dirs : List ℕ) (m : Mem) (s : Space) : Prop where
  tables : ∃ o, Tables L m dirs o
  pool : s.pool = m.freeTables
  tab : ∀ d ∈ dirs, ∀ i < 768, s.tab d i = m.tab d i
  tabOut : ∀ d i, ¬ (d ∈ dirs ∧ i < 768) → s.tab d i = none
  entry : ∀ d ∈ dirs, ∀ v < userPages, s.entry d v = m.entry d v
  entryOut : ∀ d v, ¬ (d ∈ dirs ∧ v < userPages) → s.entry d v = none
  free : s.free = m.pmm.clear
  zero : c → 0 ∉ s.free
  used : c → ∀ d v w, s.entry d v = some w → frame w ∉ s.free
  bytes : c → ∀ f, f ∉ kernelPages → f ∉ s.free → s.bytes f = m.ram f

/-- The address spaces that the memory holds. -/
def Mem.space (m : Mem) (dirs : List ℕ) : Space where
  pool := m.freeTables
  tab d i := if d ∈ dirs ∧ i < 768 then m.tab d i else none
  entry d v := if d ∈ dirs ∧ v < userPages then m.entry d v else none
  free := m.pmm.clear
  bytes := m.ram

section

variable {c : Prop} {L : Layout} {m m' : Mem} {dirs : List ℕ} {o : ℕ → Owner} {s s' : Space}
  {d i v w f virt phys flags : ℕ}

lemma shows_space (h : Tables L m dirs o) (hzero : c → 0 ∉ m.pmm.clear)
    (hused : c → ∀ d ∈ dirs, ∀ v < userPages, ∀ w, m.entry d v = some w → frame w ∉ m.pmm.clear) :
    Shows c L dirs m (m.space dirs) where
  tables := ⟨o, h⟩
  pool := rfl
  tab d hd i hi := if_pos ⟨hd, hi⟩
  tabOut d i hn := if_neg hn
  entry d hd v hv := if_pos ⟨hd, hv⟩
  entryOut d v hn := if_neg hn
  free := rfl
  zero := hzero
  used hc d v w hw := by
    have hw : (if d ∈ dirs ∧ v < userPages then m.entry d v else none) = some w := hw
    split at hw
    · next hin => exact hused hc d hin.1 v hin.2 w hw
    · cases hw
  bytes _ _ _ _ := rfl

namespace Shows

lemma mono {c' : Prop} (h : Shows c L dirs m s) (hc : c' → c) : Shows c' L dirs m s :=
  { h with
    zero := fun h' => h.zero (hc h')
    used := fun h' => h.used (hc h')
    bytes := fun h' => h.bytes (hc h') }

lemma entry_in (h : Shows c L dirs m s) (hw : s.entry d v = some w) : d ∈ dirs ∧ v < userPages := by
  by_contra hn
  rw [h.entryOut d v hn] at hw
  cases hw

lemma covered (h : Shows c L dirs m s) : s.Covered := by
  intro d v w hw
  obtain ⟨hd, hv⟩ := h.entry_in hw
  rw [h.entry d hd v hv] at hw
  obtain ⟨f, hf, -, -⟩ := Mem.entry_eq_some.mp hw
  exact ⟨hv, f, by rw [h.tab d hd _ (dirIndex_lt hv), Mem.tab_eq_some]; exact hf⟩

lemma frame_notMem (h : Shows c L dirs m s) (hw : s.entry d v = some w) :
    frame w ∉ kernelPages := by
  obtain ⟨o, ho⟩ := h.tables
  obtain ⟨hd, hv⟩ := h.entry_in hw
  rw [h.entry d hd v hv] at hw
  exact ho.pages d hd v hv w hw

lemma free_notMem (h : Shows c L dirs m s) (hf : f ∈ s.free) : f ∉ kernelPages := fun hk => by
  obtain ⟨o, ho⟩ := h.tables
  exact ho.image f hk (h.free ▸ hf)

/-! ### Pages -/

/-- A page is written, outside the kernel image. -/
lemma write (h : Shows c L dirs m s) (hf : f ∉ kernelPages) {b b' : Buf} (hb : c → b' = b) :
    Shows c L dirs (m.setPage f b) { s with bytes := Function.update s.bytes f b' } := by
  obtain ⟨o, ho⟩ := h.tables
  have hram : ∀ g ∈ kernelPages, (m.setPage f b).ram g = m.ram g := fun g hg =>
    Mem.ram_setPage_ne fun e => hf (e ▸ hg)
  exact
    { h with
      tables := ⟨o, ho.congr rfl hram ho.image⟩
      tab := fun d hd i hi => by
        have hword : (m.setPage f b).word d i = m.word d i := by
          rw [Mem.word, Mem.word, hram d (ho.inPool hd).mem_kernelPages]
        rw [h.tab d hd i hi, Mem.tab, Mem.tab, hword]
      entry := fun d hd v hv => by
        rw [h.entry d hd v hv, ho.entry_congr hd hv fun g hg _ => hram g hg]
      bytes := fun hc g hg hfree => by
        by_cases hgf : g = f
        · rw [hgf, hb hc, Mem.ram_setPage_self]
          exact Function.update_self _ _ _
        · rw [Mem.ram_setPage_ne hgf, ← h.bytes hc g hg hfree]
          exact Function.update_of_ne hgf _ _ }

/-- A program stores a byte. -/
lemma store (h : Shows c L dirs m s) (hd : d ∈ dirs) {a : ℕ} (ha : a / pageSize < userPages)
    (x : UInt8) : Shows c L dirs (m.store d a x) (s.store d a x) := by
  rw [Mem.store, Space.store, h.entry d hd _ ha]
  cases hw : m.entry d (a / pageSize) with
  | none => exact h
  | some w =>
    rw [← h.entry d hd _ ha] at hw
    rw [Option.elim_some, Option.elim_some]
    refine h.write (h.frame_notMem hw) fun hc => ?_
    rw [h.bytes hc _ (h.frame_notMem hw) (h.used hc _ _ _ hw)]

/-- The byte at an address. -/
lemma byteAt (h : Shows True L dirs m s) (hd : d ∈ dirs) {a : ℕ} (ha : a / pageSize < userPages) :
    m.byteAt d a = (s.entry d (a / pageSize)).map fun w => s.bytes (frame w) (a % pageSize) := by
  rw [Mem.byteAt, ← h.entry d hd _ ha]
  cases hw : s.entry d (a / pageSize) with
  | none => rfl
  | some w =>
    rw [Option.map_some, Option.map_some,
      h.bytes trivial _ (h.frame_notMem hw) (h.used trivial _ _ _ hw)]

/-- The bitmap of pages changes. -/
lemma withPmm (h : Shows c L dirs m s) {p : Pmm} {b : ℕ → Buf}
    (himage : ∀ f ∈ kernelPages, f ∉ p.clear) (hzero : c → 0 ∉ p.clear)
    (hused : c → ∀ d v w, s.entry d v = some w → frame w ∉ p.clear)
    (hbytes : c → ∀ f, f ∉ kernelPages → f ∉ p.clear → b f = m.ram f) :
    Shows c L dirs (m.withPmm p) { s with free := p.clear, bytes := b } := by
  obtain ⟨o, ho⟩ := h.tables
  exact
    { tables := ⟨o, ho.congr rfl (fun _ _ => rfl) himage⟩
      pool := h.pool
      tab := h.tab
      tabOut := h.tabOut
      entry := h.entry
      entryOut := h.entryOut
      free := rfl
      zero := hzero
      used := hused
      bytes := hbytes }

/-- A free page is taken. -/
lemma take (h : Shows c L dirs m s) (f : ℕ) :
    Shows c L dirs (m.withPmm (m.pmm.take f)) (s.take f (m.ram f)) := by
  have hclear : (m.pmm.take f).clear = s.free.erase f := by rw [Pmm.clear_take, h.free]
  have hsub : ∀ g, g ∉ s.free → g ∉ (m.pmm.take f).clear := fun g hg hc => by
    rw [hclear] at hc
    exact hg (Finset.mem_of_mem_erase hc)
  obtain ⟨o, ho⟩ := h.tables
  have htake := h.withPmm (p := m.pmm.take f) (b := Function.update s.bytes f (m.ram f))
    (fun g hg => hsub g (h.free ▸ ho.image g hg)) (fun hc => hsub 0 (h.zero hc))
    (fun hc d v w hw => hsub _ (h.used hc d v w hw)) (fun hc g hg hfree => ?_)
  · rw [hclear] at htake
    exact htake
  · by_cases hgf : g = f
    · rw [hgf]
      exact Function.update_self _ _ _
    · rw [hclear, Finset.mem_erase, not_and] at hfree
      rw [← h.bytes hc g hg (hfree hgf)]
      exact Function.update_of_ne hgf _ _

/-- A page that was free before is free again. -/
lemma giveBack (h : Shows c L dirs m s) {b : Buf} (h' : Shows c L dirs m' (s.take f b))
    (hf : f ∈ s.free) : Shows c L dirs (m'.freePage (f * pageSize)) s := by
  have hlt : f < maxPages := by
    rw [h.free] at hf
    exact (Pmm.mem_clear.mp hf).1
  have hclear : (pmmFreePage (f * pageSize) m'.pmm).clear = s.free := by
    rw [clear_pmmFreePage hlt, ← h'.free]
    exact Finset.insert_erase hf
  have hgive := h'.withPmm (p := pmmFreePage (f * pageSize) m'.pmm) (b := s.bytes)
    (fun g hg hc => h.free_notMem (hclear ▸ hc) hg) (fun hc => hclear ▸ h.zero hc)
    (fun hc d v w hw => hclear ▸ h.used hc d v w hw) (fun hc g hg hfree => ?_)
  · rw [hclear] at hgive
    exact hgive
  · rw [hclear] at hfree
    have hgf : g ≠ f := fun e => hfree (e ▸ hf)
    have hb : (s.take f b).bytes g = m'.ram g :=
      h'.bytes hc g hg fun hc => hfree (Finset.mem_of_mem_erase hc)
    rw [← hb]
    exact (Function.update_of_ne hgf _ _).symm

end Shows

/-! ### The next free page -/

lemma nextFree_clear (p : Pmm) : nextFree p.clear = nextPage p := by
  have hfind : ∀ start n, start + n ≤ maxPages →
      (List.range' start n).find? (fun f => decide (f ∈ p.clear)) = firstFree p start n := by
    intro start n hn
    refine List.find?_congr fun f hf => ?_
    have hlt := (List.mem_range'_1.mp hf).2
    have hiff : f ∈ p.clear ↔ p.used f = false := by
      rw [Pmm.mem_clear]
      exact and_iff_right (by omega)
    have hdec : decide (f ∈ p.clear) = decide (p.used f = false) := decide_eq_decide.mpr hiff
    rw [hdec]
    cases p.used f <;> rfl
  rw [nextFree, nextPage, hfind _ _ (by decide), hfind _ _ (by decide)]

lemma allocPage_eq : allocPage = fun m =>
    (if (pmmAllocPage m.pmm).1 = 0 then none else some (pmmAllocPage m.pmm).1,
      m.withPmm (pmmAllocPage m.pmm).2) := rfl

/-- **How the allocation of a page ends.** -/
lemma Shows.allocPage (h : Shows c L dirs m s) :
    (nextFree s.free = none ∧ allocPage m = (none, m)) ∨
    (nextFree s.free = some 0 ∧ ∃ m', Memory.allocPage m = (none, m') ∧
      Shows c L dirs m' { s with free := s.free.erase 0 }) ∨
    ∃ f, nextFree s.free = some f ∧ f ≠ 0 ∧ f ∈ s.free ∧ f ∉ kernelPages ∧ f < maxPages ∧
      ∃ m', Memory.allocPage m = (some (f * pageSize), m') ∧ m'.ram = m.ram ∧
        Shows c L dirs m' (s.take f (m.ram f)) := by
  have hnext : nextFree s.free = nextPage m.pmm := by rw [h.free, nextFree_clear]
  rw [hnext, allocPage_eq]
  dsimp only
  cases hp : nextPage m.pmm with
  | none =>
    have ha : pmmAllocPage m.pmm = (0, m.pmm) := by rw [pmmAllocPage, hp]
    rw [ha]
    exact .inl ⟨rfl, rfl⟩
  | some f =>
    have ha : pmmAllocPage m.pmm = (f * pageSize, m.pmm.take f) := by rw [pmmAllocPage, hp]
    have hmem : f ∈ s.free := nextFree_mem (hnext.trans hp)
    rw [ha]
    by_cases hf : f = 0
    · subst hf
      refine .inr (.inl ⟨rfl, _, rfl, ?_⟩)
      exact { h.take 0 with bytes := fun hc => absurd hmem (h.zero hc) }
    · have hlt : f < maxPages := (Pmm.mem_clear.mp (h.free ▸ hmem)).1
      refine .inr (.inr ⟨f, rfl, hf, hmem, h.free_notMem hmem, hlt, m.withPmm (m.pmm.take f), ?_,
        rfl, h.take f⟩)
      rw [if_neg (Nat.mul_ne_zero hf (by decide))]

/-! ### Mapping -/

/-- A directory entry has a table then, or there is none free. -/
lemma Shows.ensureTable (h : Shows c L dirs m s) (hd : d ∈ dirs) (hi : i < 768) :
    (s.tab d i = none ∧ s.pool = [] ∧
      Memory.ensureTable d i (1 ||| pageWriteable ||| pageUser) m = (none, m)) ∨
    ∃ m' s', Memory.ensureTable d i (1 ||| pageWriteable ||| pageUser) m = (some (), m') ∧
      Space.Ensured d i s s' ∧ Shows c L dirs m' s' ∧ Present (m'.word d i) := by
  obtain ⟨o, ho⟩ := h.tables
  by_cases hp : Present (m.word d i)
  · have htab : s.tab d i = some (frame (m.word d i)) := by
      rw [h.tab d hd i hi, Mem.tab, if_pos hp]
    have hens : Space.ensure d i s = (some (), s) := by rw [Space.ensure, htab]
    exact .inr ⟨m, s, ensureTable_of_present hp, ⟨hens, ⟨_, htab⟩, fun _ _ _ => rfl, fun _ ht => ht,
      rfl, rfl, rfl⟩, h, hp⟩
  · have htab : s.tab d i = none := by rw [h.tab d hd i hi, Mem.tab, if_neg hp]
    cases hts : m.freeTables with
    | nil =>
      refine .inl ⟨htab, h.pool.trans hts, ?_⟩
      have hnone : allocPageTable m = (none, m) := by rw [allocPageTable, hts]
      rw [Memory.ensureTable, bind_of_some (gets_apply _ _), if_neg hp, bind_of_none hnone]
    | cons t ts =>
      obtain ⟨hrun, htables, hapart, htabs, hentry⟩ := ensureTable_new ho hd hi hp hts
      have hens : Space.ensure d i s =
          (some (), { s with pool := ts, tab := setAt s.tab d i (some t) }) := by
        rw [Space.ensure, htab, h.pool, hts]
      have hother : ∀ d' k, ¬ (d' = d ∧ k = i) → setAt s.tab d i (some t) d' k = s.tab d' k :=
        fun d' k hk => setAt_of_ne _ _ hk
      have hnew : (m.withTable d i t ts).Refers d i t := by
        rw [← Mem.tab_eq_some, htabs d hd, setAt_self]
      refine .inr ⟨_, _, hrun, ⟨hens, ⟨t, setAt_self _ _ _ _⟩, hother, fun t' ht' => ?_, rfl, rfl,
        rfl⟩, ?_, hnew.1⟩
      · rw [htab] at ht'
        cases ht'
      · exact
          { tables := htables
            pool := rfl
            tab := fun d' hd' k hk => by
              rw [htabs d' hd']
              show setAt s.tab d i (some t) d' k = _
              by_cases hk' : d' = d ∧ k = i
              · rw [hk'.1, hk'.2, setAt_self, setAt_self]
              · rw [setAt_of_ne _ _ hk', setAt_of_ne _ _ hk', h.tab d' hd' k hk]
            tabOut := fun d' k hn =>
              (hother d' k fun e => hn ⟨e.1 ▸ hd, e.2 ▸ hi⟩).trans (h.tabOut d' k hn)
            entry := fun d' hd' v hv => (h.entry d' hd' v hv).trans (hentry d' hd' v hv).symm
            entryOut := h.entryOut
            free := h.free
            zero := h.zero
            used := h.used
            bytes := fun hc f hf hfree => by
              rw [hapart f (.inl fun hin => hf hin.mem_kernelPages)]
              exact h.bytes hc f hf hfree }

/-- An entry of a table that is there. -/
lemma Shows.installEntry (h : Shows c L dirs m s) (hd : d ∈ dirs) (hv : virt / pageSize < userPages)
    (hp : Present (m.word d (dirIndex virt))) (hphys : phys < 2 ^ 32) (hflags : flags < 2 ^ 32)
    (himage : frame (entryWord phys flags) ∉ kernelPages)
    (hfree : c → frame (entryWord phys flags) ∉ s.free) :
    Shows c L dirs (Memory.installEntry d virt phys flags m)
      (s.setEntry d (virt / pageSize) (entryWord phys flags)) := by
  obtain ⟨o, ho⟩ := h.tables
  obtain ⟨htables, hapart, hpmm, hfreeTables, htab, hentry⟩ :=
    installEntry_spec ho hd hv hp hphys hflags himage
  have hset : ∀ d' v, (s.setEntry d (virt / pageSize) (entryWord phys flags)).entry d' v =
      if d' = d ∧ v = virt / pageSize then some (entryWord phys flags) else s.entry d' v :=
    fun _ _ => rfl
  exact
    { tables := ⟨o, htables⟩
      pool := h.pool.trans hfreeTables.symm
      tab := fun d' hd' i hi => (h.tab d' hd' i hi).trans (htab d' hd' i).symm
      tabOut := h.tabOut
      entry := fun d' hd' v hv' => by
        rw [hset, hentry d' hd' v hv', h.entry d' hd' v hv']
      entryOut := fun d' v hn => by
        have hne : ¬ (d' = d ∧ v = virt / pageSize) := fun e => hn ⟨e.1 ▸ hd, e.2 ▸ hv⟩
        rw [hset, if_neg hne]
        exact h.entryOut d' v hn
      free := h.free.trans (congrArg Pmm.clear hpmm.symm)
      zero := h.zero
      used := fun hc d' v w hw => by
        rw [hset] at hw
        split at hw
        · exact Option.some.inj hw ▸ hfree hc
        · exact h.used hc d' v w hw
      bytes := fun hc f hf hf' => by
        rw [hapart f (.inl fun hin => hf hin.mem_kernelPages)]
        exact h.bytes hc f hf hf' }

/-- **`paging_map_page_in`.** -/
lemma Shows.mapIn (h : Shows c L dirs m s) (hd : d ∈ dirs) (hv : virt / pageSize < userPages)
    (hphys : phys < 2 ^ 32) (hflags : flags < 2 ^ 32)
    (himage : frame (entryWord phys flags) ∉ kernelPages)
    (hfree : c → frame (entryWord phys flags) ∉ s.free) :
    (s.tab d (virt / pageSize / 1024) = none ∧ s.pool = [] ∧
      pagingMapPageIn d virt phys flags m = (none, m)) ∨
    ∃ m' s', pagingMapPageIn d virt phys flags m = (some (), m') ∧
      Space.Ensured d (virt / pageSize / 1024) s s' ∧
      Shows c L dirs m' (s'.setEntry d (virt / pageSize) (entryWord phys flags)) := by
  rw [← dirIndex_eq, pagingMapPageIn]
  rcases h.ensureTable hd (dirIndex_eq ▸ dirIndex_lt hv) with
    ⟨ht, hp, he⟩ | ⟨m', s', he, hs', h', hp⟩
  · exact .inl ⟨ht, hp, bind_of_none he⟩
  · refine .inr ⟨_, s', (bind_of_some he).trans (modify_apply _ _), hs', ?_⟩
    exact h'.installEntry hd hv hp hphys hflags himage fun hc => hs'.free ▸ hfree hc

lemma page_lt (hf : f < maxPages) : f * pageSize < 2 ^ 32 := by
  rw [maxPages] at hf
  rw [pageSize]
  omega

/-- A page that has been taken is mapped, or given back. -/
lemma Shows.mapTaken (h : Shows c L dirs m s) {b : Buf} (h' : Shows c L dirs m' (s.take f b))
    (hmem : f ∈ s.free) (hd : d ∈ dirs) (hv : virt / pageSize < userPages)
    (hflags : flags < pageSize) :
    (Space.ensure d (virt / pageSize / 1024) s = (none, s) ∧
      pagingMapPageIn d virt (f * pageSize) flags m' = (none, m') ∧
      Shows c L dirs (m'.freePage (f * pageSize)) s) ∨
    ∃ m'' s', pagingMapPageIn d virt (f * pageSize) flags m' = (some (), m'') ∧
      Space.Ensured d (virt / pageSize / 1024) s s' ∧
      Shows c L dirs m''
        ((s'.setEntry d (virt / pageSize) (entryWord (f * pageSize) flags)).take f b) := by
  have hlt : f < maxPages := (Pmm.mem_clear.mp (h.free ▸ hmem)).1
  have hframe := frame_newPage f hflags
  have hmap := h'.mapIn hd hv (page_lt hlt) (hflags.trans (by decide))
    (by rw [hframe]; exact h.free_notMem hmem)
    (fun _ => by rw [hframe]; exact Finset.notMem_erase f s.free)
  rcases Space.ensured_or s d (virt / pageSize / 1024) with ⟨ht, hp, he⟩ | ⟨s', he⟩
  · rcases hmap with ⟨-, -, hrun⟩ | ⟨m'', s'', -, hs'', -⟩
    · exact .inl ⟨he, hrun, h.giveBack h' hmem⟩
    · have := hs''.ensure
      rw [Space.ensure_take, he] at this
      cases this
  · rcases hmap with ⟨ht, hp, -⟩ | ⟨m'', s'', hrun, hs'', hshows⟩
    · have hnone : Space.ensure d (virt / pageSize / 1024) s = (none, s) := by
        rw [Space.ensure, show s.tab d (virt / pageSize / 1024) = none from ht,
          show s.pool = [] from hp]
      have := he.ensure
      rw [hnone] at this
      cases this
    · have := hs''.ensure
      rw [Space.ensure_take, he.ensure] at this
      obtain rfl : Space.take f b s' = s'' := (Prod.mk.inj this).2
      exact .inr ⟨m'', s', hrun, he, hshows⟩

lemma Space.write_take (s : Space) (f : ℕ) (b b' : Buf) :
    { s.take f b with bytes := Function.update (s.take f b).bytes f b' } = s.take f b' :=
  congrArg (fun r => { s.take f b with bytes := r }) (Function.update_idem b b' s.bytes)

/-- The page that was just taken is written. -/
lemma Shows.writeTaken {b b' b₀ : Buf} (h : Shows c L dirs m (s.take f b₀)) (hf : f ∉ kernelPages)
    (hb : c → b' = b) : Shows c L dirs (m.setPage f b) (s.take f b') := by
  rw [← Space.write_take s f b₀ b']
  exact h.write hf hb

/-- Pages outside the kernel image keep their contents when a page is mapped. -/
lemma Tables.ram_mapIn {o : ℕ → Owner} (h : Tables L m dirs o) (hd : d ∈ dirs)
    (hv : virt / pageSize < userPages) (hf : f ∉ kernelPages) :
    (pagingMapPageIn d virt phys flags m).2.ram f = m.ram f := by
  have hi : dirIndex virt < 768 := dirIndex_eq ▸ dirIndex_lt hv
  have hinstall : ∀ {m : Mem} {o : ℕ → Owner}, Tables L m dirs o →
      Present (m.word d (dirIndex virt)) → (Memory.installEntry d virt phys flags m).ram f =
        m.ram f := by
    intro m o h hp
    obtain ⟨m₁, heq, -, -, hram, -⟩ := installEntry_eq m d virt phys flags
    have htable := ((h.table d hd _ hi _).mp ⟨hp, rfl⟩).1.mem_kernelPages
    have hne : f ≠ d := fun e => hf (e ▸ (h.inPool hd).mem_kernelPages)
    have hne' : f ≠ frame (m.word d (dirIndex virt)) := fun e => hf (e ▸ htable)
    rw [heq, Mem.ram_setWord_ne hne', hram f hne]
  by_cases hp : Present (m.word d (dirIndex virt))
  · rw [pagingMapPageIn_of_present hp]
    exact hinstall h hp
  · cases hts : m.freeTables with
    | nil =>
      have hnone : allocPageTable m = (none, m) := by rw [allocPageTable, hts]
      have hens : Memory.ensureTable d (dirIndex virt) (1 ||| pageWriteable ||| pageUser) m =
          (none, m) := by
        rw [Memory.ensureTable, bind_of_some (gets_apply _ _), if_neg hp, bind_of_none hnone]
      rw [pagingMapPageIn, bind_of_none hens]
    | cons t ts =>
      obtain ⟨hrun, ⟨o', h'⟩, hapart, htab, -⟩ := ensureTable_new h hd hi hp hts
      have hnew : (m.withTable d (dirIndex virt) t ts).Refers d (dirIndex virt) t := by
        rw [← Mem.tab_eq_some, htab d hd, setAt_self]
      rw [pagingMapPageIn, bind_of_some hrun, modify_apply]
      exact (hinstall h' hnew.1).trans (hapart f (.inl fun hin => hf hin.mem_kernelPages))

/-- **How a process gets a new page**: as in `addPage`, for whatever is written to the page
then. -/
lemma Shows.mapNewPage (h : Shows c L dirs m s) (hd : d ∈ dirs)
    (hv : virt / pageSize < userPages) (hflags : flags < pageSize) :
    (∃ m' s', mapNewPage d virt flags m = (none, m') ∧ Shows c L dirs m' s' ∧
      ∀ b, Space.addPage d (virt / pageSize) flags b s = (none, s')) ∨
    ∃ f m', Memory.mapNewPage d virt flags m = (some (f * pageSize), m') ∧ f ∉ kernelPages ∧
      f < maxPages ∧ (∀ g, g ∉ kernelPages → m'.ram g = m.ram g) ∧
      ∀ b, ∃ s', Space.addPage d (virt / pageSize) flags b s = (some (), s') ∧
        Space.NewPage d (virt / pageSize) flags f b s s' ∧
        Shows c L dirs (m'.setPage f b) s' := by
  rw [Memory.mapNewPage]
  rcases h.allocPage with ⟨hn, ha⟩ | ⟨hn, m₁, ha, h₁⟩ |
    ⟨f, hn, hf, hmem, hker, hlt, m₁, ha, hram, h₁⟩
  · exact .inl ⟨m, s, bind_of_none ha, h, fun b => Space.addPage_full hn⟩
  · exact .inl ⟨m₁, _, bind_of_none ha, h₁, fun b => Space.addPage_zero hn⟩
  · rw [bind_of_some ha]
    rcases h.mapTaken h₁ hmem hd hv hflags with ⟨he, hrun, h₂⟩ | ⟨m₂, s', hrun, he, h₂⟩
    · refine .inl ⟨m₁.freePage (f * pageSize), s, ?_, h₂, fun b => Space.addPage_noTable hn hf he⟩
      rw [bind_of_some (attempt_of_eq hrun)]
      exact modify_fail _ _
    · refine .inr ⟨f, m₂, ?_, hker, hlt, fun g hg => ?_, fun b => ⟨_,
        Space.addPage_page hn hf he, Space.newPage_of_ensured hmem hf he, ?_⟩⟩
      · rw [bind_of_some (attempt_of_eq hrun)]
        exact pure_apply _ _
      · obtain ⟨o, ho⟩ := h₁.tables
        have hmap : (pagingMapPageIn d virt (f * pageSize) flags m₁).2.ram g = m₁.ram g :=
          ho.ram_mapIn hd hv hg
        rwa [hrun, hram] at hmap
      · exact h₂.writeTaken hker fun _ => rfl

/-! ### Copying -/

lemma vaddr_div (i j : ℕ) : (i * 2 ^ 22 + j * 2 ^ 12) / pageSize = i * 1024 + j := by
  have hmul : i * 2 ^ 22 + j * 2 ^ 12 = (i * 1024 + j) * pageSize := by
    rw [pageSize]
    ring
  rw [hmul, Nat.mul_div_cancel _ (by decide)]

/-- One page is copied, or there is none at this place. -/
lemma refines_copyEntry {src dst t j : ℕ} (hsrc : src ∈ dirs) (hdst : dst ∈ dirs)
    (hi : i < 768) (hj : j < 1024) :
    Refines (fun m s => Shows c L dirs m s ∧ s.tab src i = some t) (copyEntry L src dst t i j)
      (Space.copyPage src dst (i * 1024 + j)) := by
  rintro m s ⟨h, htab⟩
  obtain ⟨o, ho⟩ := h.tables
  have hv : i * 1024 + j < userPages := lt_userPages hi hj
  have hdiv : (i * 1024 + j) / 1024 = i := by omega
  have hmod : (i * 1024 + j) % 1024 = j := by omega
  have hrefers : m.Refers src i t := by rwa [h.tab src hsrc i hi, Mem.tab_eq_some] at htab
  have hentry : s.entry src (i * 1024 + j) =
      if Present (m.word t j) then some (m.word t j) else none := by
    rw [h.entry src hsrc _ hv, Mem.entry_of_refers (f := t) (by rw [hdiv]; exact hrefers), hmod]
  rw [copyEntry, bind_of_some (gets_apply _ _), Space.copyPage, hentry]
  by_cases hp : Present (m.word t j)
  swap
  · rw [if_neg hp, if_neg hp, pure_apply]
    exact ⟨rfl, h, htab⟩
  rw [if_pos hp, if_pos hp]
  dsimp only
  rw [if_pos hp] at hentry
  generalize hw : m.word t j = w at hentry
  have hflags : w % pageSize < pageSize := Nat.mod_lt _ (by decide)
  have hvirt := vaddr_div i j
  rcases h.allocPage with ⟨hn, ha⟩ | ⟨hn, m₁, ha, h₁⟩ |
    ⟨f, hn, hf, hmem, hker, hlt, m₁, ha, hram, h₁⟩
  · rw [bind_of_none ha, Space.addPage_full hn]
    exact ⟨rfl, h, htab⟩
  · rw [bind_of_none ha, Space.addPage_zero hn]
    exact ⟨rfl, h₁, htab⟩
  · obtain ⟨o₁, ho₁⟩ := h₁.tables
    have hword : ∀ g k, m₁.word g k = m.word g k := fun g k => by rw [Mem.word, Mem.word, hram]
    have hdir : dirIndex (i * 2 ^ 22 + j * 2 ^ 12) = i := by rw [dirIndex_eq, hvirt, hdiv]
    have hindex : tableIndex (i * 2 ^ 22 + j * 2 ^ 12) = j := by rw [tableIndex_eq, hvirt, hmod]
    -- the source page is read while the window is open
    have hread : ∀ k x, c → s.bytes (frame w) = (m₁.setWord L.kernelTable k x).ram
        ((m₁.setWord L.kernelTable k x).frameAt src (i * 2 ^ 22 + j * 2 ^ 12)) := by
      intro k x hc
      have hframe : frame w ≠ L.kernelTable := fun e =>
        h.frame_notMem hentry (e ▸ L.inPool_kernelTable.mem_kernelPages)
      rw [ho₁.frameAt_window hsrc (t := t) (by rw [Mem.Refers, hdir, hword]; exact hrefers)
        (by rwa [hdir]), hindex, hword, hw, Mem.ram_setWord_ne hframe, hram]
      exact h.bytes hc _ (h.frame_notMem hentry) (h.used hc _ _ _ hentry)
    have hdivf : f * pageSize / pageSize = f := Nat.mul_div_cancel _ (by decide)
    have hwin := throughWindow_eq ho₁ (show dirIndex forkScratchVirt = 769 by decide)
      (by rwa [hdivf]) (page_lt hlt) fun m => m.ram (m.frameAt src (i * 2 ^ 22 + j * 2 ^ 12))
    rw [hdivf] at hwin
    have h₂ : Shows c L dirs (throughWindow L forkScratchVirt (f * pageSize)
        (fun m => m.ram (m.frameAt src (i * 2 ^ 22 + j * 2 ^ 12))) m₁)
        (s.take f (s.bytes (frame w))) := by
      rw [hwin]
      exact h₁.writeTaken hker (hread _ _)
    rw [bind_of_some ha, bind_of_some (modify_apply _ _)]
    rcases h.mapTaken h₂ hmem hdst (by rwa [hvirt]) hflags with
      ⟨he, hrun, h₃⟩ | ⟨m₃, s', hrun, he, h₃⟩
    · rw [hvirt] at he
      rw [bind_of_some (attempt_of_eq hrun), Space.addPage_noTable hn hf he]
      dsimp only
      rw [modify_fail]
      exact ⟨rfl, h₃, htab⟩
    · rw [hvirt] at he h₃
      rw [bind_of_some (attempt_of_eq hrun), Space.addPage_page hn hf he]
      refine ⟨rfl, h₃, ?_⟩
      rw [hdiv] at he
      by_cases hsd : src = dst
      · subst hsd
        exact he.keep t htab
      · exact (he.other src i fun e => hsd e.1).trans htab

/-- Nothing is copied where there are no pages. -/
lemma Space.forM_copyPage_of_none {src dst : ℕ} (l : List ℕ)
    (h : ∀ j ∈ l, s.entry src (i * 1024 + j) = none) :
    (l.forM fun j => Space.copyPage src dst (i * 1024 + j)) s = (some (), s) :=
  forM_stay l fun j hj => by rw [Space.copyPage, h j hj]

/-- The pages of one directory entry are copied. -/
lemma refines_copyTable {src dst : ℕ} (hsrc : src ∈ dirs) (hdst : dst ∈ dirs) (hi : i < 768) :
    Refines (Shows c L dirs) (copyTable L src dst i)
      ((List.range 1024).forM fun j => Space.copyPage src dst (i * 1024 + j)) := by
  intro m s h
  rw [copyTable, bind_of_some (gets_apply _ _)]
  by_cases hp : Present (m.word src i)
  · have htab : s.tab src i = some (frame (m.word src i)) := by
      rw [h.tab src hsrc i hi, Mem.tab_eq_some]
      exact ⟨hp, rfl⟩
    rw [if_pos hp]
    obtain ⟨hret, hR, -⟩ := Refines.forM (R := fun m' s' => Shows c L dirs m' s' ∧
      s'.tab src i = some (frame (m.word src i))) (List.range 1024)
      (fun j hj => refines_copyEntry hsrc hdst hi (List.mem_range.mp hj)) m s ⟨h, htab⟩
    exact ⟨hret, hR⟩
  · have hnone : ∀ j ∈ List.range 1024, s.entry src (i * 1024 + j) = none := by
      intro j hj
      have hj := List.mem_range.mp hj
      have hdiv : (i * 1024 + j) / 1024 = i := by omega
      rw [h.entry src hsrc _ (lt_userPages hi hj), Mem.entry_of_absent (by rwa [hdiv])]
    rw [if_neg hp, Space.forM_copyPage_of_none _ hnone, pure_apply]
    exact ⟨rfl, h⟩

/-- **`paging_copy_address_space`.** -/
lemma refines_copy {src dst : ℕ} (hsrc : src ∈ dirs) (hdst : dst ∈ dirs) :
    Refines (Shows c L dirs) (pagingCopyAddressSpace L src dst) (Space.copy src dst) :=
  Refines.forM _ fun _ hi => refines_copyTable hsrc hdst (List.mem_range.mp hi)

/-! ### Address spaces that begin and end -/

/-- **`paging_create_address_space`.** -/
lemma Shows.create (h : Shows c L dirs m s) :
    (pagingCreateAddressSpace L m = (none, m) ∧ Space.create s = (none, s)) ∨
    ∃ d m' s', pagingCreateAddressSpace L m = (some d, m') ∧ Space.create s = (some d, s') ∧
      d ∉ dirs ∧ L.InPool d ∧ Shows c L (d :: dirs) m' s' := by
  obtain ⟨o, ho⟩ := h.tables
  cases hts : m.freeTables with
  | nil =>
    have hnone : allocPageTable m = (none, m) := by rw [allocPageTable, hts]
    refine .inl ⟨bind_of_none hnone, ?_⟩
    rw [Space.create, h.pool, hts]
  | cons t ts =>
    obtain ⟨m', hrun, htd, htables, hpmm, hfree, hapart, htab, htabs, hentry, hentries⟩ :=
      create_spec ho hts
    have hs : Space.create s = (some t, { s with pool := ts }) := by
      rw [Space.create, h.pool, hts]
    have hin : L.InPool t := ((ho.free t).mp (hts ▸ List.mem_cons_self)).1
    refine .inr ⟨t, m', _, hrun, hs, htd, hin, ?_⟩
    exact
      { tables := htables
        pool := hfree.symm
        tab := fun d hd i hi => by
          rcases List.mem_cons.mp hd with rfl | hd
          · rw [htab i hi]
            exact h.tabOut d i fun e => htd e.1
          · exact (h.tab d hd i hi).trans (htabs d hd i).symm
        tabOut := fun d i hn => h.tabOut d i fun e => hn ⟨List.mem_cons_of_mem t e.1, e.2⟩
        entry := fun d hd v hv => by
          rcases List.mem_cons.mp hd with rfl | hd
          · rw [hentry v hv]
            exact h.entryOut d v fun e => htd e.1
          · exact (h.entry d hd v hv).trans (hentries d hd v hv).symm
        entryOut := fun d v hn => h.entryOut d v fun e => hn ⟨List.mem_cons_of_mem t e.1, e.2⟩
        free := h.free.trans (congrArg Pmm.clear hpmm.symm)
        zero := h.zero
        used := h.used
        bytes := fun hc f hf hf' => by
          rw [hapart f (.inl fun hin => hf hin.mem_kernelPages)]
          exact h.bytes hc f hf hf' }

/-- One entry of a directory is cleared. -/
lemma Shows.clearEntry (h : Shows c L dirs m s) (hd : d ∈ dirs) (hi : i < 768) (hs : c → s.Sound) :
    Shows c L dirs (clearEntry L d m i) (s.clearTab d i) := by
  obtain ⟨o, ho⟩ := h.tables
  by_cases hp : Present (m.word d i)
  swap
  · have htab : s.tab d i = none := by
      rw [h.tab d hd i hi, Mem.tab_eq_none]
      exact hp
    rw [Memory.clearEntry, if_neg hp, Space.clearTab, htab]
    exact h
  have hrefers : m.Refers d i (frame (m.word d i)) := ⟨hp, rfl⟩
  generalize frame (m.word d i) = t at hrefers
  have htab : s.tab d i = some t := by
    rw [h.tab d hd i hi, Mem.tab_eq_some]
    exact hrefers
  obtain ⟨htables, hapart, hpool, htabs, hentry, hclear⟩ := clearEntry_spec ho hd hi hrefers
  have hfree : (s.clearTab d i).free = (Memory.clearEntry L d m i).pmm.clear := by
    ext f
    rw [hclear f, Space.clearTab, htab, ← h.free]
    dsimp only
    rw [Finset.mem_union, Space.mem_framesIn]
    refine or_congr_right (exists_congr fun j => and_congr_right fun hj => ?_)
    rw [h.entry d hd _ (lt_userPages hi hj)]
  have hnotFree : ∀ f, f ∉ (s.clearTab d i).free → f ∉ s.free := fun f hf hc => hf (by
    rw [Space.free_clearTab h.covered]
    exact .inl hc)
  have hentryIn : ∀ d' ∈ dirs, ∀ v < userPages,
      (s.clearTab d i).entry d' v = (Memory.clearEntry L d m i).entry d' v := by
    intro d' hd' v hv
    rw [Space.entry_clearTab h.covered, hentry d' hd' v hv, h.entry d' hd' v hv]
  exact
    { tables := htables
      pool := by
        rw [Space.clearTab, htab, hpool, ← h.pool]
      tab := fun d' hd' k hk => by
        rw [Space.tab_clearTab, htabs d' hd']
        by_cases hk' : d' = d ∧ k = i
        · rw [hk'.1, hk'.2, setAt_self, setAt_self]
        · rw [setAt_of_ne _ _ hk', setAt_of_ne _ _ hk', h.tab d' hd' k hk]
      tabOut := fun d' k hn => by
        rw [Space.tab_clearTab, setAt_of_ne]
        · exact h.tabOut d' k hn
        · exact fun e => hn ⟨e.1 ▸ hd, e.2 ▸ hi⟩
      entry := hentryIn
      entryOut := fun d' v hn => by
        rw [Space.entry_clearTab h.covered, h.entryOut d' v hn, ite_self]
      free := hfree
      zero := fun hc hz => by
        rcases (Space.free_clearTab h.covered).mp hz with hz | ⟨v, -, w, hw, hz⟩
        · exact h.zero hc hz
        · exact (hs hc).nonzero d v w hw hz
      used := fun hc d' v w hw hz => by
        obtain ⟨hk, hw⟩ := Space.entry_of_clearTab h.covered hw
        rcases (Space.free_clearTab h.covered).mp hz with hz | ⟨v', hv', w', hw', hz⟩
        · exact h.used hc d' v w hw hz
        · obtain ⟨rfl, rfl⟩ := (hs hc).distinct d v' w' d' v w hw' hw hz
          exact hk ⟨rfl, hv'⟩
      bytes := fun hc f hf hf' => by
        rw [Space.bytes_clearTab, hapart f (.inl fun hin => hf hin.mem_kernelPages)]
        exact h.bytes hc f hf (hnotFree f hf') }

/-- **`paging_clear_user_space`.** -/
lemma Shows.clear (h : Shows c L dirs m s) (hd : d ∈ dirs) (hs : c → s.Sound) :
    Shows c L dirs (pagingClearUserSpace L d m) (s.clear d) := by
  have hfold : ∀ (l : List ℕ) (m : Mem) (s : Space), (∀ i ∈ l, i < 768) → Shows c L dirs m s →
      (c → s.Sound) → Shows c L dirs (l.foldl (Memory.clearEntry L d) m)
        (l.foldl (Space.clearTab d) s) := by
    intro l
    induction l with
    | nil => exact fun m s _ h _ => h
    | cons i l ih =>
      intro m s hl h hs
      refine ih _ _ (fun k hk => hl k (List.mem_cons_of_mem i hk))
        (h.clearEntry hd (hl i List.mem_cons_self) hs) fun hc => ?_
      exact (hs hc).anti fun d' v w hw => (Space.entry_of_clearTab h.covered hw).2
  exact hfold _ m s (fun i hi => List.mem_range.mp hi) h hs

/-- **`paging_destroy_address_space`.** -/
lemma Shows.destroy (h : Shows c L dirs m s) (hd : d ∈ dirs) (hs : c → s.Sound) :
    Shows c L (dirs.erase d) (pagingDestroyAddressSpace L d m) (s.destroy d) := by
  have h' := h.clear hd hs
  have htab : ∀ i < 768, (s.clear d).tab d i = none := fun i hi => by
    rw [Space.tab_clear h.covered, if_pos ⟨rfl, hi⟩]
  have hentry : ∀ v, (s.clear d).entry d v = none := fun v => by
    rw [Space.entry_clear h.covered, if_pos rfl]
  rw [pagingDestroyAddressSpace, Space.destroy]
  generalize pagingClearUserSpace L d m = m₁ at h'
  generalize s.clear d = s₁ at h' htab hentry
  obtain ⟨o, ho⟩ := h'.tables
  have habsent : ∀ i < 768, ¬ Present (m₁.word d i) := by
    intro i hi
    rw [← Mem.tab_eq_none, ← h'.tab d hd i hi, htab i hi]
  have hmem : ∀ d', d' ∈ dirs.erase d ↔ d' ≠ d ∧ d' ∈ dirs := fun d' =>
    ho.dirs_nodup.mem_erase_iff
  have hne : o d ≠ .free := by
    rw [ho.owner_dir hd]
    exact Owner.noConfusion
  exact
    { tables := ⟨_, ho.freeDir hd habsent⟩
      pool := by
        rw [freePageTable, if_pos ⟨ho.inPool hd, ho.length_lt (ho.inPool hd) hne⟩, h'.pool]
      tab := fun d' hd' i hi => by
        rw [Mem.tab, freePageTable_word, ← Mem.tab]
        exact h'.tab d' ((hmem d').mp hd').2 i hi
      tabOut := fun d' i hn => by
        by_cases hin : d' ∈ dirs ∧ i < 768
        · have hdd : d' = d := by_contra fun hdd => hn ⟨(hmem d').mpr ⟨hdd, hin.1⟩, hin.2⟩
          rw [hdd]
          exact htab i hin.2
        · exact h'.tabOut d' i hin
      entry := fun d' hd' v hv => by
        rw [freePageTable_entry]
        exact h'.entry d' ((hmem d').mp hd').2 v hv
      entryOut := fun d' v hn => by
        by_cases hin : d' ∈ dirs ∧ v < userPages
        · have hdd : d' = d := by_contra fun hdd => hn ⟨(hmem d').mpr ⟨hdd, hin.1⟩, hin.2⟩
          rw [hdd]
          exact hentry v
        · exact h'.entryOut d' v hin
      free := by
        rw [freePageTable_pmm]
        exact h'.free
      zero := h'.zero
      used := h'.used
      bytes := fun hc f hf hf' => by
        rw [freePageTable_ram]
        exact h'.bytes hc f hf hf' }

/-! ### The first state -/

/-- What `boot.s` and `pmm_init` leave: the first 4 MB of physical memory are mapped at
their own addresses and at the kernel's, and no page of the kernel image is free. -/
structure Booted (L : Layout) (m : Mem) : Prop where
  dir : ∀ i < 1024, m.word L.bootDir i =
    if i = 0 ∨ i = 768 then L.bootTable * pageSize ||| 3 else 0
  low : ∀ k < 1024, m.word L.bootTable k = k * pageSize ||| 3
  image : ∀ f ∈ kernelPages, f ∉ m.pmm.clear

/-- The tables that are free after `paging_init`. -/
def Layout.freePool (L : Layout) : List ℕ := ((List.range 31).map (L.pool + ·)).reverse

/-- The memory after `paging_init`. -/
def Mem.initialised (m : Mem) (L : Layout) : Mem :=
  Mem.setWord { m.setPage L.kernelTable fun _ => 0 with freeTables := L.freePool } L.bootDir 769
    (L.kernelTable * pageSize ||| 3)

lemma Mem.initialised_pmm : (m.initialised L).pmm = m.pmm := rfl

lemma Mem.initialised_freeTables : (m.initialised L).freeTables = L.freePool := rfl

lemma Mem.initialised_ram (hd : f ≠ L.bootDir) (hk : f ≠ L.kernelTable) :
    (m.initialised L).ram f = m.ram f := (Mem.ram_setWord_ne hd).trans (Mem.ram_setPage_ne hk)

lemma pagingInit_apply (h : Booted L m) : pagingInit L m = (some (), m.initialised L) := by
  have hpool : (List.range userTablePool).foldl (fun ts i => (L.pool + i) :: ts) [] =
      L.kernelTable :: L.freePool := rfl
  have habsent : ¬ Present (m.word L.bootDir 769) := by
    rw [h.dir 769 (by decide), if_neg (by decide)]
    decide
  rw [pagingInit, bind_of_some (modify_apply _ _), hpool]
  refine ignore_of_eq (r := some ()) ?_
  have hindex : dirIndex elfScratchVirt = 769 := by decide
  rw [ensureKernelTable, hindex, Memory.ensureTable, bind_of_some (gets_apply _ _)]
  rw [if_neg (show ¬ Present (Mem.word { m with freeTables := L.kernelTable :: L.freePool }
    L.bootDir 769) from habsent)]
  have halloc : allocPageTable { m with freeTables := L.kernelTable :: L.freePool } =
      (some L.kernelTable, { m.setPage L.kernelTable fun _ => 0 with freeTables := L.freePool }) :=
    rfl
  rw [bind_of_some halloc, modify_apply]
  rfl

/-- **`paging_init`**: all tables but the kernel's own are free. -/
lemma tables_pagingInit (h : Booted L m) : Tables L (m.initialised L) []
    fun f => if f = L.kernelTable then .kernel else .free := by
  have hlt := table_word_lt L.inPool_kernelTable.mem_kernelPages (show 3 < pageSize by decide)
  have hword : ∀ g k, (m.initialised L).word g k = if g = L.bootDir ∧ k = 769 then
      L.kernelTable * pageSize ||| 3 else if g = L.kernelTable then 0 else m.word g k := by
    intro g k
    refine (Mem.word_setWord hlt).trans ?_
    rw [← read32_zero (4 * k)]
    exact congrArg _ Mem.word_setPage
  have hfree : ∀ f, f ∈ L.freePool ↔ L.pool ≤ f ∧ f < L.pool + 31 := by
    intro f
    rw [Layout.freePool, List.mem_reverse, List.mem_map]
    constructor
    · rintro ⟨i, hi, rfl⟩
      have := List.mem_range.mp hi
      omega
    · exact fun hf => ⟨f - L.pool, List.mem_range.mpr (by omega), by omega⟩
  have hnot : L.bootTable ≠ L.kernelTable := L.inPool_kernelTable.ne_bootTable.symm
  refine
    { nodup := ?_
      free := fun f => ?_
      dirs_nodup := List.nodup_nil
      dir := fun d => ?_
      table := fun d hd => absurd hd List.not_mem_nil
      owner := fun f d i _ ho => ?_
      kernel := fun f => ?_
      boot := fun i hi => ?_
      half := fun d hd => absurd hd List.not_mem_nil
      low := fun k hk => ?_
      windows := fun k hk => ?_
      image := h.image
      pages := fun d hd => absurd hd List.not_mem_nil }
  · show L.freePool.Nodup
    exact List.nodup_reverse.mpr (List.nodup_range.map fun _ _ => Nat.add_left_cancel)
  · show f ∈ L.freePool ↔ _
    rw [hfree, Layout.InPool, Layout.kernelTable, userTablePool]
    by_cases hf : f = L.pool + 31
    · rw [if_pos hf]
      exact iff_of_false (by omega) fun e => Owner.noConfusion e.2
    · rw [if_neg hf]
      exact ⟨fun e => ⟨by omega, rfl⟩, fun e => by omega⟩
  · refine iff_of_false List.not_mem_nil fun e => ?_
    have ho := e.2
    split at ho <;> cases ho
  · split at ho <;> cases ho
  · constructor
    · rintro ⟨-, ho⟩
      by_contra hf
      rw [if_neg hf] at ho
      cases ho
    · rintro rfl
      exact ⟨L.inPool_kernelTable, if_pos rfl⟩
  · rw [hword, Layout.bootEntry]
    by_cases hi' : i = 769
    · rw [if_pos ⟨rfl, hi'⟩, if_pos hi']
    · rw [if_neg fun e => hi' e.2, if_neg (bootDir_ne_kernelTable L), if_neg hi', h.dir i hi]
  · rw [hword, if_neg fun e => L.bootDir_ne e.1.symm, if_neg hnot]
    exact h.low k hk
  · rw [hword, if_neg fun e => bootDir_ne_kernelTable L e.1.symm, if_pos rfl]

/-- A page of entries. -/
def wordPage (w : ℕ → ℕ) : Buf := fun o => UInt8.ofNat (w (o / 4) / 2 ^ (8 * (o % 4)))

lemma read32_wordPage {w : ℕ → ℕ} {i : ℕ} (h : w i < 2 ^ 32) :
    read32 (wordPage w) (4 * i) = w i := by
  have hbyte : ∀ j < 4, (wordPage w (4 * i + j)).toNat = w i / 2 ^ (8 * j) % 2 ^ 8 := by
    intro j hj
    have hdiv : (4 * i + j) / 4 = i := by omega
    have hmod : (4 * i + j) % 4 = j := by omega
    rw [wordPage, hdiv, hmod]
    exact UInt8.toNat_ofNat'
  have h₀ := hbyte 0 (by decide)
  rw [Nat.add_zero] at h₀
  rw [read32, h₀, hbyte 1 (by decide), hbyte 2 (by decide), hbyte 3 (by decide)]
  omega

/-- The memory that `boot.s` and `pmm_init` leave, from what is in the memory and the map
that the boot loader hands over. -/
def bootMem (L : Layout) (map : List MmapEntry) (ram : ℕ → Buf) : Mem :=
  Mem.setPage
    (Mem.setPage ⟨pmmInit map, ram, []⟩ L.bootTable (wordPage fun k => k * pageSize ||| 3))
    L.bootDir (wordPage fun i => if i = 0 ∨ i = 768 then L.bootTable * pageSize ||| 3 else 0)

lemma bootMem_pmm (L : Layout) (map : List MmapEntry) (ram : ℕ → Buf) :
    (bootMem L map ram).pmm = pmmInit map := by
  rw [bootMem, Mem.pmm_setPage, Mem.pmm_setPage]

lemma mem_clear_pmmInit {map : List MmapEntry} :
    f ∈ (pmmInit map).clear ↔ (f ≠ 0 ∧ f ∈ mapPages map) ∧ f ∉ kernelPages := by
  rw [clear_pmmInit, Finset.mem_sdiff, Finset.mem_erase, List.mem_toFinset, List.mem_toFinset]

lemma booted_bootMem (L : Layout) (map : List MmapEntry) (ram : ℕ → Buf) :
    Booted L (bootMem L map ram) where
  dir i hi := by
    have hlt := table_word_lt L.bootTable_mem (show 3 < pageSize by decide)
    rw [bootMem, Mem.word_setPage, if_pos rfl, read32_wordPage]
    split
    · exact hlt
    · decide
  low k hk := by
    rw [bootMem, Mem.word_setPage_ne L.bootDir_ne.symm, Mem.word_setPage, if_pos rfl,
      read32_wordPage]
    rw [page_or k (by decide), pageSize]
    omega
  image f hf hc := by
    rw [bootMem_pmm] at hc
    exact (mem_clear_pmmInit.mp hc).2 hf

/-- Pages outside the kernel image hold what they held before. -/
lemma ram_pagingInit (L : Layout) (map : List MmapEntry) (ram : ℕ → Buf) (hf : f ∉ kernelPages) :
    (pagingInit L (bootMem L map ram)).2.ram f = ram f := by
  have hne : ∀ g ∈ kernelPages, f ≠ g := fun g hg e => hf (e ▸ hg)
  rw [pagingInit_apply (booted_bootMem L map ram), Mem.initialised_ram (hne _ L.bootDir_mem)
    (hne _ L.inPool_kernelTable.mem_kernelPages), bootMem, Mem.ram_setPage_ne (hne _ L.bootDir_mem),
    Mem.ram_setPage_ne (hne _ L.bootTable_mem)]

/-- **`paging_init`**: there are no address spaces, and all tables but one are free. -/
lemma shows_pagingInit (L : Layout) (map : List MmapEntry) (ram : ℕ → Buf) :
    ∃ m, pagingInit L (bootMem L map ram) = (some (), m) ∧ m.pmm = pmmInit map ∧
      m.freeTables = L.freePool ∧ Shows True L [] m (m.space []) := by
  have hboot := booted_bootMem L map ram
  have hpmm := (Mem.initialised_pmm (L := L)).trans (bootMem_pmm L map ram)
  refine ⟨_, pagingInit_apply hboot, hpmm, Mem.initialised_freeTables,
    shows_space (tables_pagingInit hboot) (fun _ hc => ?_) fun _ d hd => absurd hd List.not_mem_nil⟩
  rw [hpmm] at hc
  exact (mem_clear_pmmInit.mp hc).1.1 rfl

end

end GordOS.Memory
