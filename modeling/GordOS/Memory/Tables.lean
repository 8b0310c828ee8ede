/-
Who holds the page tables of the pool (`memory/paging.c`).

Every table of the pool is free, a directory, a table of one entry of one directory, or
the kernel's own. The calls change that for one table at a time, and what they do to the
address spaces is told in terms of the map from virtual pages to entries.

* `Mem.entry`, `Mem.tab`, `Mem.byteAt`, `Mem.store`: the entry of a virtual page in an address
  space, the table of a directory entry, and the byte at an address;
* `Owner`, `Tables`: who holds each table, and what the memory says of it;
* `Tables.congr`: writes outside the tables change nothing;
* `Tables.change`: one table changes hands;
* `ensureTable_new`, `installEntry_spec`, `create_spec`, `clearEntry_spec`,
  `Tables.freeDir`: what the parts of the calls do.
-/
import Mathlib.Tactic
import GordOS.Memory.Space

namespace GordOS.Memory

open GordOS Fallible
open GordOS.Fat32 (Buf read32 put32)

/-! ### Address spaces -/

/-- The entry of a virtual page, if it is present. -/
def Mem.entry (m : Mem) (d v : ℕ) : Option ℕ :=
  if Present (m.word d (v / 1024)) then
    if Present (m.word (frame (m.word d (v / 1024))) (v % 1024)) then
      some (m.word (frame (m.word d (v / 1024))) (v % 1024))
    else none
  else none

/-- Entry `i` of a directory is present and names the table on page `f`. -/
def Mem.Refers (m : Mem) (d i f : ℕ) : Prop := Present (m.word d i) ∧ frame (m.word d i) = f

/-- The table of entry `i` of a directory, if the entry is present. -/
def Mem.tab (m : Mem) (d i : ℕ) : Option ℕ :=
  if Present (m.word d i) then some (frame (m.word d i)) else none

/-- The byte at an address of an address space, if there is a page. -/
def Mem.byteAt (m : Mem) (d a : ℕ) : Option UInt8 :=
  (m.entry d (a / pageSize)).map fun w => m.ram (frame w) (a % pageSize)

/-- A program stores a byte; without a page at the address it does not get that far. -/
def Mem.store (m : Mem) (d a : ℕ) (x : UInt8) : Mem :=
  (m.entry d (a / pageSize)).elim m fun w =>
    m.setPage (frame w) (Function.update (m.ram (frame w)) (a % pageSize) x)

section

variable {m m' : Mem} {d v w i f virt : ℕ}

lemma Mem.tab_eq_some : m.tab d i = some f ↔ m.Refers d i f := by
  rw [tab, Refers]
  split
  · next h => rw [Option.some.injEq, and_iff_right h]
  · next h => exact ⟨(by rintro ⟨⟩), fun e => absurd e.1 h⟩

lemma Mem.tab_eq_none : m.tab d i = none ↔ ¬ Present (m.word d i) := by
  rw [tab]
  split
  · next h => exact ⟨(by rintro ⟨⟩), fun e => absurd h e⟩
  · next h => exact ⟨fun _ => h, fun _ => rfl⟩

lemma Mem.tab_congr (h : ∀ f, m'.Refers d i f ↔ m.Refers d i f) : m'.tab d i = m.tab d i :=
  Option.ext fun f => by
    rw [tab_eq_some, tab_eq_some]
    exact h f

lemma Mem.entry_of_absent (h : ¬ Present (m.word d (v / 1024))) : m.entry d v = none := if_neg h

lemma Mem.entry_of_refers (h : m.Refers d (v / 1024) f) :
    m.entry d v = if Present (m.word f (v % 1024)) then some (m.word f (v % 1024)) else none := by
  rw [entry, if_pos h.1, h.2]

lemma Mem.entry_eq_some :
    m.entry d v = some w ↔ ∃ f, m.Refers d (v / 1024) f ∧ m.word f (v % 1024) = w ∧ Present w := by
  constructor
  · intro h
    by_cases hp : Present (m.word d (v / 1024))
    · rw [entry_of_refers ⟨hp, rfl⟩] at h
      split at h
      · next hw => exact ⟨_, ⟨hp, rfl⟩, Option.some.inj h, Option.some.inj h ▸ hw⟩
      · cases h
    · rw [entry_of_absent hp] at h
      cases h
  · rintro ⟨f, hf, rfl, hw⟩
    rw [entry_of_refers hf, if_pos hw]

lemma Mem.entry_present (h : m.entry d v = some w) : Present w := by
  obtain ⟨f, -, -, hw⟩ := entry_eq_some.mp h
  exact hw

/-- The entry depends on the directory entry and on its table. -/
lemma Mem.entry_congr (hd : m'.word d (v / 1024) = m.word d (v / 1024))
    (ht : ∀ f, m.Refers d (v / 1024) f → m'.word f (v % 1024) = m.word f (v % 1024)) :
    m'.entry d v = m.entry d v := by
  by_cases hp : Present (m.word d (v / 1024))
  · rw [entry, entry, hd, ht _ ⟨hp, rfl⟩]
  · rw [entry_of_absent hp, entry_of_absent (hd ▸ hp)]

lemma dirIndex_eq : dirIndex virt = virt / pageSize / 1024 := by
  rw [dirIndex, pageSize, Nat.div_div_eq_div_mul]
  norm_num

lemma tableIndex_eq : tableIndex virt = virt / pageSize % 1024 := by
  rw [tableIndex, pageSize]
  norm_num

lemma dirIndex_lt (h : v < userPages) : v / 1024 < 768 := by
  rw [userPages] at h
  omega

end

/-! ### The owners of the tables -/

/-- Who holds a table of the pool. -/
inductive Owner where
  | free
  | dir
  | table (d i : ℕ)
  | kernel
deriving DecidableEq

/-- The table that `paging_init` takes for the scratch windows. -/
def Layout.kernelTable (L : Layout) : ℕ := L.pool + 31

/-- The entries of the boot directory after `paging_init`. -/
def Layout.bootEntry (L : Layout) (i : ℕ) : ℕ :=
  if i = 769 then L.kernelTable * pageSize ||| 3
  else if i = 0 ∨ i = 768 then L.bootTable * pageSize ||| 3
  else 0

/-- The owners `o` of the tables, with the directories `dirs` in use: the memory says the
same, no page of the kernel image is free or mapped in a user half, and the kernel half of
a directory is that of the boot directory, with the scratch windows closed. -/
structure Tables (L : Layout) (m : Mem) (dirs : List ℕ) (o : ℕ → Owner) : Prop where
  nodup : m.freeTables.Nodup
  free : ∀ f, f ∈ m.freeTables ↔ L.InPool f ∧ o f = .free
  dirs_nodup : dirs.Nodup
  dir : ∀ d, d ∈ dirs ↔ L.InPool d ∧ o d = .dir
  table : ∀ d ∈ dirs, ∀ i < 768, ∀ f, m.Refers d i f ↔ L.InPool f ∧ o f = .table d i
  owner : ∀ f d i, L.InPool f → o f = .table d i → d ∈ dirs ∧ i < 768
  kernel : ∀ f, L.InPool f ∧ o f = .kernel ↔ f = L.kernelTable
  boot : ∀ i < 1024, m.word L.bootDir i = L.bootEntry i
  half : ∀ d ∈ dirs, ∀ i, 768 ≤ i → i < 1024 → m.word d i = L.bootEntry i
  low : ∀ k < 1024, m.word L.bootTable k = k * pageSize ||| 3
  windows : ∀ k < 1024, m.word L.kernelTable k = 0
  image : ∀ f ∈ kernelPages, f ∉ m.pmm.clear
  pages : ∀ d ∈ dirs, ∀ v < userPages, ∀ w, m.entry d v = some w → frame w ∉ kernelPages

section

variable {L : Layout} {f g t : ℕ}

lemma Layout.InPool.mem_kernelPages (h : L.InPool f) : f ∈ kernelPages := by
  have := L.pool_mem (f - L.pool) (by have := h.2; have := h.1; omega)
  rwa [Nat.add_sub_cancel' h.1] at this

lemma Layout.InPool.ne_bootDir (h : L.InPool f) : f ≠ L.bootDir := fun e => by
  refine L.bootDir_pool (f - L.pool) (by have := h.2; have := h.1; omega) ?_
  rw [Nat.add_sub_cancel' h.1, e]

lemma Layout.InPool.ne_bootTable (h : L.InPool f) : f ≠ L.bootTable := fun e => by
  refine L.bootTable_pool (f - L.pool) (by have := h.2; have := h.1; omega) ?_
  rw [Nat.add_sub_cancel' h.1, e]

lemma Layout.inPool_kernelTable (L : Layout) : L.InPool L.kernelTable :=
  ⟨Nat.le_add_right _ _, Nat.add_lt_add_left (by decide) _⟩

lemma mem_kernelPages : f ∈ kernelPages ↔ 0x200 ≤ f ∧ f < 0x400 := List.mem_range'_1

lemma kernelPages_lt (h : f ∈ kernelPages) : f < 1024 := (mem_kernelPages.mp h).2

/-- A page number next to low bits that are present. -/
lemma refers_of_word {m : Mem} {d i bits : ℕ} (hw : m.word d i = t * pageSize ||| bits)
    (hb : bits < pageSize) (hp : bits % 2 = 1) : m.Refers d i t := by
  rw [page_or t hb] at hw
  refine ⟨?_, ?_⟩
  · rw [hw, Present, pageSize]
    omega
  · rw [hw, frame, Nat.add_comm, Nat.add_mul_div_right _ _ (by decide), Nat.div_eq_of_lt hb,
      Nat.zero_add]

lemma table_word_lt (hf : f ∈ kernelPages) {bits : ℕ} (hb : bits < pageSize) :
    f * pageSize ||| bits < 2 ^ 32 := by
  have := kernelPages_lt hf
  rw [page_or f hb, pageSize] at *
  omega

lemma Mem.Refers.unique {m : Mem} {d i : ℕ} (h : m.Refers d i f) (h' : m.Refers d i g) : f = g :=
  h.2.symm.trans h'.2

/-- Only tables of the pool have changed, and not the kernel's own. -/
def Mem.Apart (L : Layout) (m m' : Mem) : Prop :=
  ∀ f, ¬ L.InPool f ∨ f = L.kernelTable → m'.ram f = m.ram f

section

variable {m m' : Mem} {k : ℕ}

lemma Mem.Apart.word (h : m.Apart L m') (hf : ¬ L.InPool f ∨ f = L.kernelTable) :
    m'.word f k = m.word f k := by
  rw [Mem.word, Mem.word, h f hf]

lemma Mem.Apart.word_bootDir (h : m.Apart L m') : m'.word L.bootDir k = m.word L.bootDir k :=
  h.word (.inl fun hp => hp.ne_bootDir rfl)

lemma Mem.Apart.word_bootTable (h : m.Apart L m') : m'.word L.bootTable k = m.word L.bootTable k :=
  h.word (.inl fun hp => hp.ne_bootTable rfl)

lemma Mem.Apart.word_kernelTable (h : m.Apart L m') :
    m'.word L.kernelTable k = m.word L.kernelTable k := h.word (.inr rfl)

end

namespace Tables

variable {m m' : Mem} {dirs dirs' : List ℕ} {o : ℕ → Owner} {d i : ℕ}

lemma inPool (h : Tables L m dirs o) (hd : d ∈ dirs) : L.InPool d := ((h.dir d).mp hd).1

lemma owner_dir (h : Tables L m dirs o) (hd : d ∈ dirs) : o d = .dir := ((h.dir d).mp hd).2

lemma kernel_owner (h : Tables L m dirs o) : o L.kernelTable = .kernel := ((h.kernel _).mpr rfl).2

/-- A table that an address space uses is neither a directory nor the kernel's. -/
lemma table_ne (h : Tables L m dirs o) (hd : d ∈ dirs) (hi : i < 768) (hf : m.Refers d i f) :
    f ∉ dirs ∧ f ≠ L.kernelTable ∧ L.InPool f := by
  obtain ⟨hp, ho⟩ := (h.table d hd i hi f).mp hf
  refine ⟨fun hfd => ?_, fun e => ?_, hp⟩
  · rw [h.owner_dir hfd] at ho
    cases ho
  · rw [e, h.kernel_owner] at ho
    cases ho

lemma boot_refers (h : Tables L m dirs o) : m.Refers L.bootDir 769 L.kernelTable :=
  refers_of_word (h.boot 769 (by decide)) (by decide) rfl

lemma dir_ne_kernel (h : Tables L m dirs o) (hd : d ∈ dirs) : d ≠ L.kernelTable := fun e => by
  have := h.owner_dir hd
  rw [e, h.kernel_owner] at this
  cases this

/-- The entries of an address space lie in the pool, outside the kernel's table. -/
lemma entry_congr (h : Tables L m dirs o) (hd : d ∈ dirs) {v : ℕ} (hv : v < userPages)
    (hram : ∀ f ∈ kernelPages, f ≠ L.kernelTable → m'.ram f = m.ram f) :
    m'.entry d v = m.entry d v := by
  have hword : ∀ f, L.InPool f → f ≠ L.kernelTable → ∀ i, m'.word f i = m.word f i := by
    intro f hf hne i
    rw [Mem.word, Mem.word, hram f hf.mem_kernelPages hne]
  refine Mem.entry_congr (hword d (h.inPool hd) (h.dir_ne_kernel hd) _) fun f hf => ?_
  obtain ⟨-, hne, hp⟩ := h.table_ne hd (dirIndex_lt hv) hf
  exact hword f hp hne _

/-- Writes outside the kernel image change nothing. -/
lemma congr (h : Tables L m dirs o) (hfree : m'.freeTables = m.freeTables)
    (hram : ∀ f ∈ kernelPages, m'.ram f = m.ram f) (himage : ∀ f ∈ kernelPages, f ∉ m'.pmm.clear) :
    Tables L m' dirs o := by
  have hword : ∀ f ∈ kernelPages, ∀ i, m'.word f i = m.word f i := by
    intro f hf i
    rw [Mem.word, Mem.word, hram f hf]
  have hdir : ∀ d ∈ dirs, ∀ i, m'.word d i = m.word d i := fun d hd =>
    hword d (h.inPool hd).mem_kernelPages
  exact
    { nodup := hfree ▸ h.nodup
      free := hfree ▸ h.free
      dirs_nodup := h.dirs_nodup
      dir := h.dir
      table := fun d hd i hi f => by
        rw [Mem.Refers, hdir d hd]
        exact h.table d hd i hi f
      owner := h.owner
      kernel := h.kernel
      boot := fun i hi => by
        rw [hword _ L.bootDir_mem]
        exact h.boot i hi
      half := fun d hd i hi hi' => by
        rw [hdir d hd]
        exact h.half d hd i hi hi'
      low := fun k hk => by
        rw [hword _ L.bootTable_mem]
        exact h.low k hk
      windows := fun k hk => by
        rw [hword _ L.inPool_kernelTable.mem_kernelPages]
        exact h.windows k hk
      image := himage
      pages := fun d hd v hv w hw => by
        rw [h.entry_congr hd hv fun f hf _ => hram f hf] at hw
        exact h.pages d hd v hv w hw }

/-- **One table changes hands.** -/
lemma change (h : Tables L m dirs o) {x : Owner} (ht : L.InPool t) (htk : o t ≠ .kernel)
    (hx : x ≠ .kernel) (hnodup : m'.freeTables.Nodup)
    (hfree : ∀ f, f ∈ m'.freeTables ↔ f = t ∧ x = .free ∨ f ≠ t ∧ f ∈ m.freeTables)
    (hnodup' : dirs'.Nodup) (hdirs : ∀ d, d ∈ dirs' ↔ d = t ∧ x = .dir ∨ d ≠ t ∧ d ∈ dirs)
    (htable : ∀ d ∈ dirs', ∀ i < 768, ∀ f,
      m'.Refers d i f ↔ f = t ∧ x = .table d i ∨ f ≠ t ∧ L.InPool f ∧ o f = .table d i)
    (howner : ∀ d i, x = .table d i → d ∈ dirs' ∧ i < 768)
    (hgone : ∀ f i, L.InPool f → f ≠ t → o f ≠ .table t i)
    (hapart : m.Apart L m')
    (hhalf : ∀ d ∈ dirs', ∀ i, 768 ≤ i → i < 1024 → m'.word d i = L.bootEntry i)
    (himage : ∀ f ∈ kernelPages, f ∉ m'.pmm.clear)
    (hpages : ∀ d ∈ dirs', ∀ v < userPages, ∀ w, m'.entry d v = some w → frame w ∉ kernelPages) :
    Tables L m' dirs' (Function.update o t x) := by
  have key : ∀ f y, (f = t ∧ x = y ∨ f ≠ t ∧ L.InPool f ∧ o f = y) ↔
      L.InPool f ∧ Function.update o t x f = y := by
    intro f y
    by_cases hf : f = t
    · subst hf
      simp [ht]
    · simp [hf]
  exact
    { nodup := hnodup
      free := fun f => by
        rw [hfree, h.free]
        exact key f _
      dirs_nodup := hnodup'
      dir := fun f => by
        rw [hdirs, h.dir]
        exact key f _
      table := fun d hd i hi f => (htable d hd i hi f).trans (key f _)
      owner := fun f d i hp ho => by
        rcases (key f _).mpr ⟨hp, ho⟩ with ⟨-, hx⟩ | ⟨hf, -, ho⟩
        · exact howner d i hx
        · obtain ⟨hd, hi⟩ := h.owner f d i hp ho
          exact ⟨(hdirs d).mpr (Or.inr ⟨fun e => hgone f i hp hf (e ▸ ho), hd⟩), hi⟩
      kernel := fun f => by
        rw [← key, ← h.kernel]
        constructor
        · rintro (⟨-, hx'⟩ | ⟨-, ho⟩)
          · exact absurd hx' hx
          · exact ho
        · rintro ⟨hp, ho⟩
          exact Or.inr ⟨fun e => htk (e ▸ ho), hp, ho⟩
      boot := fun i hi => by
        rw [hapart.word_bootDir]
        exact h.boot i hi
      half := hhalf
      low := fun k hk => by
        rw [hapart.word_bootTable]
        exact h.low k hk
      windows := fun k hk => by
        rw [hapart.word_kernelTable]
        exact h.windows k hk
      image := himage
      pages := hpages }

end Tables

/-! ### A table for a directory entry -/

variable {m m' : Mem} {dirs dirs' : List ℕ} {o : ℕ → Owner} {d i : ℕ}

lemma read32_zero (n : ℕ) : read32 (fun _ => 0) n = 0 := by simp [read32]

/-- The memory after `ensureTable` has taken the table on page `t`. -/
def Mem.withTable (m : Mem) (d i t : ℕ) (ts : List ℕ) : Mem :=
  Mem.setWord { m.setPage t fun _ => 0 with freeTables := ts } d i
    (t * pageSize ||| (1 ||| pageWriteable ||| pageUser))

lemma word_withTable {ts : List ℕ} (ht : L.InPool t) {g k : ℕ} : (m.withTable d i t ts).word g k =
      if g = d ∧ k = i then t * pageSize ||| 7 else if g = t then 0 else m.word g k := by
  have hlt := table_word_lt ht.mem_kernelPages (show 7 < pageSize by decide)
  refine (Mem.word_setWord hlt).trans ?_
  rw [← read32_zero (4 * k)]
  exact congrArg _ Mem.word_setPage

/-- **A table for a directory entry**: the entry refers to it then, and the address spaces
are as before. -/
lemma ensureTable_new (h : Tables L m dirs o) (hd : d ∈ dirs) (hi : i < 768)
    (hp : ¬ Present (m.word d i)) {ts : List ℕ} (hts : m.freeTables = t :: ts) :
    ensureTable d i (1 ||| pageWriteable ||| pageUser) m = (some (), m.withTable d i t ts) ∧
      (∃ o', Tables L (m.withTable d i t ts) dirs o') ∧ m.Apart L (m.withTable d i t ts) ∧
      (∀ d' ∈ dirs, ∀ k, (m.withTable d i t ts).tab d' k = setAt m.tab d i (some t) d' k) ∧
      ∀ d' ∈ dirs, ∀ v < userPages, (m.withTable d i t ts).entry d' v = m.entry d' v := by
  obtain ⟨ht, ho⟩ := (h.free t).mp (hts ▸ List.mem_cons_self)
  have hnd := h.nodup
  rw [hts] at hnd
  have hnot := (List.nodup_cons.mp hnd).1
  have hrun : ensureTable d i (1 ||| pageWriteable ||| pageUser) m
      = (some (), m.withTable d i t ts) := by
    have hsome : allocPageTable m = (some t, { m.setPage t fun _ => 0 with freeTables := ts }) := by
      rw [allocPageTable, hts]
    rw [ensureTable, bind_of_some (gets_apply _ _), if_neg hp, bind_of_some hsome]
    rfl
  have htd : ∀ d ∈ dirs, d ≠ t := fun d hd e => by
    have := h.owner_dir hd
    rw [e, ho] at this
    cases this
  have hword : ∀ g k, (m.withTable d i t ts).word g k =
      if g = d ∧ k = i then t * pageSize ||| 7 else if g = t then 0 else m.word g k :=
    fun g k => word_withTable ht
  have hnew : (m.withTable d i t ts).Refers d i t :=
    refers_of_word (by rw [hword, if_pos ⟨rfl, rfl⟩]) (by decide) rfl
  have hother : ∀ d' ∈ dirs, ∀ k, ¬ (d' = d ∧ k = i) →
      (m.withTable d i t ts).word d' k = m.word d' k := fun d' hd' k hk => by
    rw [hword, if_neg hk, if_neg (htd d' hd')]
  have hentry : ∀ d' ∈ dirs, ∀ v < userPages, (m.withTable d i t ts).entry d' v = m.entry d' v := by
    intro d' hd' v hv
    by_cases hk : d' = d ∧ v / 1024 = i
    · -- the new table is empty
      obtain ⟨rfl, hvi⟩ := hk
      subst hvi
      have hzero : (m.withTable d' (v / 1024) t ts).word t (v % 1024) = 0 := by
        rw [hword, if_neg fun e => htd _ hd e.1.symm, if_pos rfl]
      rw [Mem.entry_of_absent hp, Mem.entry_of_refers hnew, hzero, if_neg (by decide)]
    · refine Mem.entry_congr (hother d' hd' _ hk) fun f hf => ?_
      have hft : f ≠ t := fun e => by
        have := ((h.table d' hd' _ (dirIndex_lt hv) f).mp hf).2
        rw [e, ho] at this
        cases this
      have hfd : f ≠ d := fun e => (h.table_ne hd' (dirIndex_lt hv) hf).1 (e ▸ hd)
      rw [hword, if_neg fun e => hfd e.1, if_neg hft]
  have hapart : m.Apart L (m.withTable d i t ts) := fun f hf => by
    have hne : ∀ g, L.InPool g → g ≠ L.kernelTable → f ≠ g := fun g hg hgk e =>
      hf.elim (fun hn => hn (e ▸ hg)) fun hk => hgk (e ▸ hk)
    have htk : t ≠ L.kernelTable := fun e => by
      rw [e, h.kernel_owner] at ho
      cases ho
    exact (Mem.ram_setWord_ne (hne d (h.inPool hd) (h.dir_ne_kernel hd))).trans
      (Mem.ram_setPage_ne (hne t ht htk))
  have htab : ∀ d' ∈ dirs, ∀ k,
      (m.withTable d i t ts).tab d' k = setAt m.tab d i (some t) d' k := by
    intro d' hd' k
    by_cases hk : d' = d ∧ k = i
    · rw [hk.1, hk.2, setAt_self, Mem.tab_eq_some]
      exact hnew
    · rw [setAt_of_ne _ _ hk, Mem.tab, Mem.tab, hother d' hd' k hk]
  refine ⟨hrun, ⟨Function.update o t (.table d i), ?_⟩, hapart, htab, hentry⟩
  refine h.change ht (by rw [ho]; exact Owner.noConfusion) Owner.noConfusion
    (List.nodup_cons.mp hnd).2 (fun f => ?_) h.dirs_nodup (fun d' => ?_) (fun d' hd' k hk f => ?_)
    (fun d' k e => ?_) (fun f k hf hft hk => htd t (h.owner f t k hf hk).1 rfl)
    hapart (fun d' hd' k hk hk' => ?_) h.image
    (fun d' hd' v hv w hw => h.pages d' hd' v hv w (hentry d' hd' v hv ▸ hw))
  · show f ∈ ts ↔ _
    rw [hts, List.mem_cons]
    by_cases hf : f = t
    · simp [hf, hnot]
    · simp [hf]
  · by_cases hdt : d' = t
    · simp only [hdt, true_and, ne_eq, not_true_eq_false, false_and, or_false]
      exact iff_of_false (fun hd' => htd t hd' rfl) Owner.noConfusion
    · simp [hdt]
  · by_cases hdk : d' = d ∧ k = i
    · obtain ⟨rfl, rfl⟩ := hdk
      constructor
      · intro hf
        exact Or.inl ⟨hf.unique hnew, rfl⟩
      · rintro (⟨rfl, -⟩ | ⟨-, hf⟩)
        · exact hnew
        · exact absurd ((h.table d' hd' k hk f).mpr hf).1 hp
    · rw [Mem.Refers, hother d' hd' k hdk, ← Mem.Refers, h.table d' hd' k hk]
      constructor
      · rintro ⟨hf, hof⟩
        have hft : f ≠ t := fun e => by
          rw [e, ho] at hof
          cases hof
        exact Or.inr ⟨hft, hf, hof⟩
      · rintro (⟨-, e⟩ | ⟨-, hf⟩)
        · obtain ⟨rfl, rfl⟩ := Owner.table.inj e
          exact absurd ⟨rfl, rfl⟩ hdk
        · exact hf
  · obtain ⟨rfl, rfl⟩ := Owner.table.inj e
    exact ⟨hd, hi⟩
  · rw [hother d' hd' k fun e => by omega]
    exact h.half d' hd' k hk hk'

/-! ### A page mapped in an address space -/

/-- The user bit of a directory entry leaves what it refers to. -/
lemma refers_setUser {g k : ℕ} :
    (m.setWord d i (m.word d i ||| pageUser)).Refers g k f ↔ m.Refers g k f := by
  rw [Mem.Refers, Mem.Refers, Mem.word_setWord (or_user_lt Mem.word_lt)]
  split
  · next h => rw [present_or_user, frame_or_user, h.1, h.2]
  · exact Iff.rfl

/-- Both parts of `installEntry`: the directory `m₁` after the first one refers to the same
tables, and the second one writes the entry. -/
lemma installEntry_eq (m : Mem) (d virt phys flags : ℕ) : ∃ m₁ : Mem,
    installEntry d virt phys flags m =
      m₁.setWord (frame (m.word d (dirIndex virt))) (tableIndex virt) (entryWord phys flags) ∧
    (∀ g k f, m₁.Refers g k f ↔ m.Refers g k f) ∧
    (∀ g k, ¬ (g = d ∧ k = dirIndex virt) → m₁.word g k = m.word g k) ∧
    (∀ g, g ≠ d → m₁.ram g = m.ram g) ∧ m₁.pmm = m.pmm ∧ m₁.freeTables = m.freeTables := by
  rw [installEntry]
  split
  · exact ⟨m, rfl, fun _ _ _ => Iff.rfl, fun _ _ _ => rfl, fun _ _ => rfl, rfl, rfl⟩
  · refine ⟨m.setWord d (dirIndex virt) (m.word d (dirIndex virt) ||| pageUser), ?_,
      fun _ _ _ => refers_setUser, fun g k h => ?_, fun g h => Mem.ram_setWord_ne h, rfl, rfl⟩
    · show Mem.setWord _ (frame (Mem.word _ d (dirIndex virt))) _ _ = _
      rw [Mem.word_setWord_self (or_user_lt Mem.word_lt), frame_or_user]
    · rw [Mem.word_setWord (or_user_lt Mem.word_lt), if_neg h]

/-- **An entry of a table that is there.** -/
lemma installEntry_spec {virt phys flags : ℕ} (h : Tables L m dirs o) (hd : d ∈ dirs)
    (hv : virt / pageSize < userPages) (hp : Present (m.word d (dirIndex virt)))
    (hphys : phys < 2 ^ 32) (hflags : flags < 2 ^ 32)
    (himage : frame (entryWord phys flags) ∉ kernelPages) :
    Tables L (installEntry d virt phys flags m) dirs o ∧
      m.Apart L (installEntry d virt phys flags m) ∧
      (installEntry d virt phys flags m).pmm = m.pmm ∧
      (installEntry d virt phys flags m).freeTables = m.freeTables ∧
      (∀ d' ∈ dirs, ∀ k, (installEntry d virt phys flags m).tab d' k = m.tab d' k) ∧
      ∀ d' ∈ dirs, ∀ v < userPages, (installEntry d virt phys flags m).entry d' v =
        if d' = d ∧ v = virt / pageSize then some (entryWord phys flags) else m.entry d' v := by
  obtain ⟨m₁, heq, hrefers, hword, hram, hpmm, hfree⟩ := installEntry_eq m d virt phys flags
  have hi : dirIndex virt < 768 := dirIndex_eq ▸ dirIndex_lt hv
  obtain ⟨htd, htk, htp⟩ := h.table_ne hd hi ⟨hp, rfl⟩
  rw [heq]
  set t := frame (m.word d (dirIndex virt)) with ht
  set m' := m₁.setWord t (tableIndex virt) (entryWord phys flags) with hm'
  have hne : ∀ d' ∈ dirs, d' ≠ t := fun d' hd' e => htd (e ▸ hd')
  have hrefers' : ∀ d' ∈ dirs, ∀ k f, m'.Refers d' k f ↔ m.Refers d' k f := by
    intro d' hd' k f
    rw [← hrefers, Mem.Refers, Mem.Refers, Mem.word_setWord_ne (hne d' hd')]
  have hentry : ∀ d' ∈ dirs, ∀ v < userPages, m'.entry d' v =
      if d' = d ∧ v = virt / pageSize then some (entryWord phys flags) else m.entry d' v := by
    intro d' hd' v hv'
    by_cases hpv : Present (m.word d' (v / 1024))
    · obtain ⟨hfd, -, -⟩ := h.table_ne hd' (dirIndex_lt hv') ⟨hpv, rfl⟩
      set f := frame (m.word d' (v / 1024)) with hf
      have hw : m'.word f (v % 1024) = if d' = d ∧ v = virt / pageSize then entryWord phys flags
          else m.word f (v % 1024) := by
        rw [hm', Mem.word_setWord (entryWord_lt hphys hflags)]
        by_cases hk : d' = d ∧ v = virt / pageSize
        · rw [if_pos hk, if_pos]
          rw [hf, ht, hk.1, hk.2, dirIndex_eq, tableIndex_eq]
          exact ⟨rfl, rfl⟩
        · -- a table is used by one entry of one directory
          rw [if_neg hk, if_neg, hword f _ fun e => hfd (e.1 ▸ hd)]
          rintro ⟨hft, hj⟩
          have h₁ := ((h.table d' hd' _ (dirIndex_lt hv') _).mp ⟨hpv, hf.symm⟩).2
          have h₂ := ((h.table d hd _ hi _).mp ⟨hp, ht.symm⟩).2
          rw [hft, h₂] at h₁
          obtain ⟨rfl, hi'⟩ := Owner.table.inj h₁
          rw [dirIndex_eq] at hi'
          rw [tableIndex_eq] at hj
          exact hk ⟨rfl, by omega⟩
      rw [Mem.entry_of_refers ((hrefers' d' hd' _ _).mpr ⟨hpv, hf.symm⟩),
        Mem.entry_of_refers (m := m) ⟨hpv, hf.symm⟩, hw]
      by_cases hk : d' = d ∧ v = virt / pageSize
      · rw [if_pos hk, if_pos hk, if_pos present_entryWord]
      · rw [if_neg hk, if_neg hk]
    · rw [Mem.entry_of_absent hpv, Mem.entry_of_absent, if_neg]
      · rintro ⟨rfl, rfl⟩
        exact hpv (dirIndex_eq ▸ hp)
      · exact fun hc => hpv ((hrefers' d' hd' _ _).mp ⟨hc, rfl⟩).1
  have hapart : m.Apart L m' := fun f hf => by
    have hne : ∀ g, L.InPool g → g ≠ L.kernelTable → f ≠ g := fun g hg hgk e =>
      hf.elim (fun hn => hn (e ▸ hg)) fun hk => hgk (e ▸ hk)
    exact (Mem.ram_setWord_ne (hne t htp htk)).trans
      (hram f (hne d (h.inPool hd) (h.dir_ne_kernel hd)))
  refine ⟨?_, hapart, hpmm, hfree, fun d' hd' k => Mem.tab_congr (hrefers' d' hd' k), hentry⟩
  exact
    { nodup := hfree ▸ h.nodup
      free := hfree ▸ h.free
      dirs_nodup := h.dirs_nodup
      dir := h.dir
      table := fun d' hd' k hk f => (hrefers' d' hd' k f).trans (h.table d' hd' k hk f)
      owner := h.owner
      kernel := h.kernel
      boot := fun k hk => by
        rw [hapart.word_bootDir]
        exact h.boot k hk
      half := fun d' hd' k hk hk' => by
        rw [hm', Mem.word_setWord_ne (hne d' hd'), hword d' k fun e => by omega]
        exact h.half d' hd' k hk hk'
      low := fun k hk => by
        rw [hapart.word_bootTable]
        exact h.low k hk
      windows := fun k hk => by
        rw [hapart.word_kernelTable]
        exact h.windows k hk
      image := hpmm ▸ h.image
      pages := fun d' hd' v hv' w hw => by
        rw [hentry d' hd' v hv'] at hw
        split at hw
        · exact Option.some.inj hw ▸ himage
        · exact h.pages d' hd' v hv' w hw }

/-! ### A new address space -/

/-- **`paging_create_address_space`**: a free table becomes the directory of an empty address
space. -/
lemma create_spec (h : Tables L m dirs o) {ts : List ℕ} (hts : m.freeTables = t :: ts) :
    ∃ m', pagingCreateAddressSpace L m = (some t, m') ∧ t ∉ dirs ∧
      (∃ o', Tables L m' (t :: dirs) o') ∧ m'.pmm = m.pmm ∧ m'.freeTables = ts ∧
      m.Apart L m' ∧ (∀ k < 768, m'.tab t k = none) ∧
      (∀ d' ∈ dirs, ∀ k, m'.tab d' k = m.tab d' k) ∧
      (∀ v < userPages, m'.entry t v = none) ∧
      ∀ d' ∈ dirs, ∀ v < userPages, m'.entry d' v = m.entry d' v := by
  obtain ⟨ht, ho⟩ := (h.free t).mp (hts ▸ List.mem_cons_self)
  have hnd := h.nodup
  rw [hts] at hnd
  have hnot := (List.nodup_cons.mp hnd).1
  have hsome : allocPageTable m = (some t, { m.setPage t fun _ => 0 with freeTables := ts }) := by
    rw [allocPageTable, hts]
  rw [pagingCreateAddressSpace, bind_of_some hsome, bind_of_some (modify_apply _ _)]
  have htd : ∀ d ∈ dirs, d ≠ t := fun d hd e => by
    have := h.owner_dir hd
    rw [e, ho] at this
    cases this
  set m₁ : Mem := { m.setPage t fun _ => 0 with freeTables := ts } with hm₁
  set m' := m₁.setPage t fun n => if 4 * 768 ≤ n then m₁.ram L.bootDir n else 0 with hm'
  have hram : ∀ f, f ≠ t → m'.ram f = m.ram f := fun f hf =>
    (Mem.ram_setPage_ne hf).trans (Mem.ram_setPage_ne hf)
  have hword : ∀ f, f ≠ t → ∀ k, m'.word f k = m.word f k := fun f hf k => by
    rw [Mem.word, Mem.word, hram f hf]
  have hlow : ∀ k < 768, m'.word t k = 0 := fun k hk => by
    rw [hm', Mem.word_setPage, if_pos rfl, ← read32_zero (4 * k)]
    exact Fat32.read32_congr fun i hi => if_neg (by omega)
  have hhigh : ∀ k, 768 ≤ k → m'.word t k = m.word L.bootDir k := fun k hk => by
    have hb : m₁.ram L.bootDir = m.ram L.bootDir := Mem.ram_setPage_ne ht.ne_bootDir.symm
    rw [hm', Mem.word_setPage, if_pos rfl, Mem.word, ← hb]
    exact Fat32.read32_congr fun i hi => if_pos (by omega)
  have hentry : ∀ d' ∈ dirs, ∀ v < userPages, m'.entry d' v = m.entry d' v := by
    intro d' hd' v hv
    refine Mem.entry_congr (hword d' (htd d' hd') _) fun f hf => hword f (fun e => ?_) _
    have := ((h.table d' hd' _ (dirIndex_lt hv) f).mp hf).2
    rw [e, ho] at this
    cases this
  have habsent : ∀ k < 768, ¬ Present (m'.word t k) := fun k hk => by
    rw [hlow k hk]
    decide
  have hnew : ∀ v < userPages, m'.entry t v = none := fun v hv =>
    Mem.entry_of_absent (habsent _ (dirIndex_lt hv))
  have hapart : m.Apart L m' := fun f hf => hram f fun e => hf.elim (fun hn => hn (e ▸ ht))
    fun hk => by
      rw [← e, hk, h.kernel_owner] at ho
      cases ho
  refine ⟨m', rfl, fun hd => htd t hd rfl, ⟨Function.update o t .dir, ?_⟩, rfl, rfl, hapart,
    fun k hk => Mem.tab_eq_none.mpr (habsent k hk), fun d' hd' k => ?_, hnew, hentry⟩
  swap
  · rw [Mem.tab, Mem.tab, hword d' (htd d' hd')]
  refine h.change ht (by rw [ho]; exact Owner.noConfusion) Owner.noConfusion
    (List.nodup_cons.mp hnd).2 (fun f => ?_)
    (List.nodup_cons.mpr ⟨fun hd => htd t hd rfl, h.dirs_nodup⟩) (fun d' => ?_)
    (fun d' hd' k hk f => ?_) (fun d' k e => Owner.noConfusion e)
    (fun f k hf hft hk => htd t (h.owner f t k hf hk).1 rfl) hapart
    (fun d' hd' k hk hk' => ?_) h.image (fun d' hd' v hv w hw => ?_)
  · show f ∈ ts ↔ _
    rw [hts, List.mem_cons]
    by_cases hf : f = t
    · simp [hf, hnot]
    · simp [hf]
  · rw [List.mem_cons]
    by_cases hdt : d' = t
    · simp [hdt]
    · simp [hdt]
  · rcases List.mem_cons.mp hd' with rfl | hd'
    · refine iff_of_false (fun hc => habsent k hk hc.1) ?_
      rintro (⟨-, e⟩ | ⟨-, hf, e⟩)
      · cases e
      · exact htd d' (h.owner f d' k hf e).1 rfl
    · rw [Mem.Refers, hword d' (htd d' hd'), ← Mem.Refers, h.table d' hd' k hk]
      constructor
      · rintro ⟨hf, hof⟩
        have hft : f ≠ t := fun e => by
          rw [e, ho] at hof
          cases hof
        exact Or.inr ⟨hft, hf, hof⟩
      · rintro (⟨-, e⟩ | ⟨-, hf⟩)
        · cases e
        · exact hf
  · rcases List.mem_cons.mp hd' with rfl | hd'
    · rw [hhigh k hk]
      exact h.boot k hk'
    · rw [hword d' (htd d' hd')]
      exact h.half d' hd' k hk hk'
  · rcases List.mem_cons.mp hd' with rfl | hd'
    · rw [hnew v hv] at hw
      cases hw
    · rw [hentry d' hd' v hv] at hw
      exact h.pages d' hd' v hv w hw

/-! ### The end of an address space -/

/-- A page that is freed joins the free ones. -/
lemma clear_pmmFreePage {p : Pmm} (hf : f < maxPages) :
    (pmmFreePage (f * pageSize) p).clear = insert f p.clear := by
  rw [pmmFreePage, Nat.mul_div_cancel _ (by decide), if_neg (not_le.mpr hf)]
  split
  · exact Pmm.clear_give hf
  · next hu =>
    rw [Finset.insert_eq_of_mem]
    exact Pmm.mem_clear.mpr ⟨hf, by simpa using hu⟩

/-- The pages of a table are freed. -/
lemma foldl_freeEntry (t : ℕ) (l : List ℕ) (m : Mem) :
    ∃ p, l.foldl (freeEntry t) m = m.withPmm p ∧ ∀ f, f ∈ p.clear ↔
      f ∈ m.pmm.clear ∨ ∃ j ∈ l, Present (m.word t j) ∧ frame (m.word t j) = f := by
  induction l generalizing m with
  | nil => exact ⟨m.pmm, rfl, fun f => by simp⟩
  | cons j l ih =>
    rw [List.foldl_cons]
    by_cases hp : Present (m.word t j)
    · have hstep : freeEntry t m j = m.freePage (frame (m.word t j) * pageSize) := by
        rw [freeEntry, if_pos hp]
      obtain ⟨p, heq, hclear⟩ := ih (freeEntry t m j)
      rw [hstep, Mem.freePage] at heq hclear ⊢
      rw [Mem.withPmm_withPmm] at heq
      refine ⟨p, heq, fun f => ?_⟩
      rw [hclear, Mem.pmm_withPmm, clear_pmmFreePage (frame_lt Mem.word_lt), Finset.mem_insert]
      simp only [Mem.word_withPmm, List.mem_cons, exists_eq_or_imp]
      constructor
      · rintro ((rfl | h) | h)
        · exact Or.inr (Or.inl ⟨hp, rfl⟩)
        · exact Or.inl h
        · exact Or.inr (Or.inr h)
      · rintro (h | ⟨-, rfl⟩ | h)
        · exact Or.inl (Or.inr h)
        · exact Or.inl (Or.inl rfl)
        · exact Or.inr h
    · have hstep : freeEntry t m j = m := by rw [freeEntry, if_neg hp]
      rw [hstep]
      obtain ⟨p, heq, hclear⟩ := ih m
      refine ⟨p, heq, fun f => ?_⟩
      simp [hclear, hp]

/-- A table that is not in the free list fits into it. -/
lemma Tables.length_lt (h : Tables L m dirs o) (ht : L.InPool t) (ho : o t ≠ .free) :
    m.freeTables.length < userTablePool := by
  have hnd : (t :: m.freeTables).Nodup :=
    List.nodup_cons.mpr ⟨fun hc => ho ((h.free t).mp hc).2, h.nodup⟩
  have hsub : (t :: m.freeTables) ⊆ List.range' L.pool userTablePool := by
    intro f hf
    rw [List.mem_range'_1]
    rcases List.mem_cons.mp hf with rfl | hf
    · exact ht
    · exact ((h.free f).mp hf).1
  have := (hnd.subperm hsub).length_le
  rw [List.length_range', List.length_cons] at this
  exact this

/-- **One entry of a directory is cleared**: its table and the pages of its table are
free. -/
lemma clearEntry_spec (h : Tables L m dirs o) (hd : d ∈ dirs) (hi : i < 768)
    (hdt : m.Refers d i t) :
    (∃ o', Tables L (clearEntry L d m i) dirs o') ∧ m.Apart L (clearEntry L d m i) ∧
    (clearEntry L d m i).freeTables = t :: m.freeTables ∧
    (∀ d' ∈ dirs, ∀ k, (clearEntry L d m i).tab d' k = setAt m.tab d i none d' k) ∧
    (∀ d' ∈ dirs, ∀ v < userPages, (clearEntry L d m i).entry d' v =
      if d' = d ∧ v / 1024 = i then none else m.entry d' v) ∧
    ∀ f, f ∈ (clearEntry L d m i).pmm.clear ↔ f ∈ m.pmm.clear ∨
      ∃ j < 1024, ∃ w, m.entry d (i * 1024 + j) = some w ∧ frame w = f := by
  have hp := hdt.1
  obtain ⟨htp, hto⟩ := (h.table d hd i hi t).mp hdt
  obtain ⟨htd, htk, -⟩ := h.table_ne hd hi hdt
  obtain ⟨p, hfold, hclear⟩ := foldl_freeEntry t (List.range 1024) m
  have heq : clearEntry L d m i =
      Mem.setWord { m.withPmm p with freeTables := t :: m.freeTables } d i 0 := by
    rw [clearEntry, if_pos hp, hdt.2]
    show (freePageTable L t ((List.range 1024).foldl (freeEntry t) m)).setWord d i 0 = _
    rw [hfold, freePageTable, if_pos ⟨htp, h.length_lt htp (by rw [hto]; exact Owner.noConfusion)⟩]
    rfl
  rw [heq]
  set m' := Mem.setWord { m.withPmm p with freeTables := t :: m.freeTables } d i 0 with hm'
  have hword : ∀ g k, m'.word g k = if g = d ∧ k = i then 0 else m.word g k := fun g k =>
    Mem.word_setWord (by decide)
  have hapart : m.Apart L m' := fun f hf => Mem.ram_setWord_ne fun e =>
    hf.elim (fun hn => hn (e ▸ h.inPool hd)) fun hk => h.dir_ne_kernel hd (e ▸ hk)
  have hrefers : ∀ d' ∈ dirs, ∀ k < 768, ∀ f, m'.Refers d' k f ↔
      m.Refers d' k f ∧ ¬ (d' = d ∧ k = i) := by
    intro d' _ k _ f
    rw [Mem.Refers, hword]
    by_cases hk : d' = d ∧ k = i
    · rw [if_pos hk]
      exact iff_of_false (fun hc => absurd hc.1 (by decide)) fun hc => hc.2 hk
    · rw [if_neg hk, ← Mem.Refers]
      exact ⟨fun hf => ⟨hf, hk⟩, fun hf => hf.1⟩
  have hentry : ∀ d' ∈ dirs, ∀ v < userPages, m'.entry d' v =
      if d' = d ∧ v / 1024 = i then none else m.entry d' v := by
    intro d' hd' v hv
    by_cases hk : d' = d ∧ v / 1024 = i
    · rw [if_pos hk, Mem.entry_of_absent]
      rw [hword, if_pos hk]
      decide
    · rw [if_neg hk]
      refine Mem.entry_congr (by rw [hword, if_neg hk]) fun f hf => ?_
      have hfd : f ≠ d := fun e => (h.table_ne hd' (dirIndex_lt hv) hf).1 (e ▸ hd)
      rw [hword, if_neg fun e => hfd e.1]
  have hpages : ∀ f, f ∈ p.clear ↔ f ∈ m.pmm.clear ∨
      ∃ j < 1024, ∃ w, m.entry d (i * 1024 + j) = some w ∧ frame w = f := by
    intro f
    rw [hclear]
    refine or_congr_right (exists_congr fun j => ?_)
    rw [List.mem_range]
    refine and_congr_right fun hj => ?_
    have hdiv : (i * 1024 + j) / 1024 = i := by omega
    have hmod : (i * 1024 + j) % 1024 = j := by omega
    rw [Mem.entry_of_refers (f := t) (by rw [hdiv]; exact hdt), hmod]
    by_cases hpj : Present (m.word t j)
    · simp [hpj]
    · simp [hpj]
  have htab : ∀ d' ∈ dirs, ∀ k, m'.tab d' k = setAt m.tab d i none d' k := by
    intro d' hd' k
    by_cases hk : d' = d ∧ k = i
    · rw [hk.1, hk.2, setAt_self, Mem.tab_eq_none, hword, if_pos ⟨rfl, rfl⟩]
      decide
    · rw [setAt_of_ne _ _ hk, Mem.tab, Mem.tab, hword, if_neg hk]
  refine ⟨⟨Function.update o t .free, ?_⟩, hapart, rfl, htab, hentry, hpages⟩
  refine h.change htp (by rw [hto]; exact Owner.noConfusion) Owner.noConfusion
    (List.nodup_cons.mpr ⟨fun hc => ?_, h.nodup⟩) (fun f => ?_) h.dirs_nodup (fun d' => ?_)
    (fun d' hd' k hk f => ?_) (fun d' k e => Owner.noConfusion e)
    (fun f k hf hft hk => htd (h.owner f t k hf hk).1) hapart
    (fun d' hd' k hk hk' => ?_) (fun f hf hc => ?_) (fun d' hd' v hv w hw => ?_)
  · have := ((h.free t).mp hc).2
    rw [hto] at this
    cases this
  · show f ∈ t :: m.freeTables ↔ _
    rw [List.mem_cons]
    by_cases hf : f = t
    · simp [hf]
    · simp [hf]
  · by_cases hdt' : d' = t
    · simp only [hdt', true_and, ne_eq, not_true_eq_false, false_and, or_false]
      exact iff_of_false htd Owner.noConfusion
    · simp [hdt']
  · rw [hrefers d' hd' k hk, h.table d' hd' k hk]
    constructor
    · rintro ⟨⟨hf, hof⟩, hk⟩
      refine Or.inr ⟨fun e => hk ?_, hf, hof⟩
      rw [e, hto] at hof
      obtain ⟨rfl, rfl⟩ := Owner.table.inj hof
      exact ⟨rfl, rfl⟩
    · rintro (⟨-, e⟩ | ⟨hft, hf, hof⟩)
      · cases e
      · refine ⟨⟨hf, hof⟩, ?_⟩
        rintro ⟨rfl, rfl⟩
        exact hft (((h.table d' hd' k hk f).mpr ⟨hf, hof⟩).unique hdt)
  · rw [hword, if_neg fun e => by omega]
    exact h.half d' hd' k hk hk'
  · rcases (hpages f).mp hc with hc | ⟨j, hj, w, hw, rfl⟩
    · exact h.image f hf hc
    · exact h.pages d hd _ (lt_userPages hi hj) w hw hf
  · rw [hentry d' hd' v hv] at hw
    split at hw
    · cases hw
    · exact h.pages d' hd' v hv w hw

lemma freePageTable_ram : (freePageTable L t m).ram = m.ram := by
  rw [freePageTable]
  split
  · rfl
  · rfl

lemma freePageTable_pmm : (freePageTable L t m).pmm = m.pmm := by
  rw [freePageTable]
  split
  · rfl
  · rfl

lemma freePageTable_word {g k : ℕ} : (freePageTable L t m).word g k = m.word g k := by
  rw [Mem.word, freePageTable_ram, Mem.word]

lemma freePageTable_entry {v : ℕ} : (freePageTable L t m).entry d v = m.entry d v :=
  Mem.entry_congr freePageTable_word fun _ _ => freePageTable_word

/-- An empty directory becomes free. -/
lemma Tables.freeDir (h : Tables L m dirs o) (hd : d ∈ dirs)
    (habsent : ∀ i < 768, ¬ Present (m.word d i)) :
    Tables L (freePageTable L d m) (dirs.erase d) (Function.update o d .free) := by
  have hp := h.inPool hd
  have ho := h.owner_dir hd
  have hne : o d ≠ .free := by
    rw [ho]
    exact Owner.noConfusion
  have hmem : ∀ d', d' ∈ dirs.erase d ↔ d' ≠ d ∧ d' ∈ dirs := fun d' =>
    h.dirs_nodup.mem_erase_iff
  have hfree : (freePageTable L d m).freeTables = d :: m.freeTables := by
    rw [freePageTable, if_pos ⟨hp, h.length_lt hp hne⟩]
  refine h.change hp (by rw [ho]; exact Owner.noConfusion) Owner.noConfusion
    (hfree ▸ List.nodup_cons.mpr ⟨fun hc => hne ((h.free d).mp hc).2, h.nodup⟩) (fun f => ?_)
    (h.dirs_nodup.erase d) (fun d' => ?_) (fun d' hd' k hk f => ?_)
    (fun d' k e => Owner.noConfusion e) (fun f k hf _ hk => ?_)
    (fun f _ => congrFun freePageTable_ram f) (fun d' hd' k hk hk' => ?_) (fun f hf => ?_)
    (fun d' hd' v hv w hw => ?_)
  · rw [hfree, List.mem_cons]
    by_cases hf : f = d
    · simp [hf]
    · simp [hf]
  · rw [hmem]
    simp
  · rw [Mem.Refers, freePageTable_word, ← Mem.Refers, h.table d' ((hmem d').mp hd').2 k hk]
    constructor
    · rintro ⟨hf, hof⟩
      have hfd : f ≠ d := fun e => by
        rw [e, ho] at hof
        cases hof
      exact Or.inr ⟨hfd, hf, hof⟩
    · rintro (⟨-, e⟩ | ⟨-, hf⟩)
      · cases e
      · exact hf
  · -- a directory without entries has no tables
    obtain ⟨-, hk'⟩ := h.owner f d k hf hk
    exact habsent k hk' ((h.table d hd k hk' f).mpr ⟨hf, hk⟩).1
  · rw [freePageTable_word]
    exact h.half d' ((hmem d').mp hd').2 k hk hk'
  · rw [freePageTable_pmm]
    exact h.image f hf
  · rw [freePageTable_entry] at hw
    exact h.pages d' ((hmem d').mp hd').2 v hv w hw

end

end GordOS.Memory
