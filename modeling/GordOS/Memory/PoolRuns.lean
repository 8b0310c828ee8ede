/-
The pool of page tables in every run (`memory/paging.c`).

* `PagingCall`, `PagingCall.run`: a call of `paging.c`, and what it does to the memory and
  to the list of live directories;
* `PagingCall.Ok`: the directories it is given are live, and no page of the kernel image is
  mapped;
* `Partition`: every table of the pool is free, a live directory, the table of one entry of
  one live directory, or a table of the boot directory;
* `partition_of_calls`: **every run from `paging_init` keeps this**, and without live
  directories the free list is as long as after `paging_init`;
* `pool_page_mapped`: a page of the pool that is mapped as a user page.
-/
import Mathlib.Tactic
import GordOS.Memory.Copy

namespace GordOS.Memory

open GordOS Fallible
open GordOS.Fat32 (Buf read32 put32)

/-! ### Calls -/

/-- The memory, and the directories that were created and not destroyed. -/
structure PagingState where
  mem : Mem
  dirs : List ℕ

/-- A call of `paging.c`. -/
inductive PagingCall where
  | create
  | mapIn (dir virt phys flags : ℕ)
  | copy (src dst : ℕ)
  | clear (dir : ℕ)
  | destroy (dir : ℕ)

/-- What a call does, whether it ends well or not. -/
def PagingCall.run (L : Layout) : PagingCall → PagingState → PagingState
  | .create, s =>
    ⟨(pagingCreateAddressSpace L s.mem).2, (pagingCreateAddressSpace L s.mem).1.toList ++ s.dirs⟩
  | .mapIn dir virt phys flags, s => ⟨(pagingMapPageIn dir virt phys flags s.mem).2, s.dirs⟩
  | .copy src dst, s => ⟨(pagingCopyAddressSpace L src dst s.mem).2, s.dirs⟩
  | .clear dir, s => ⟨pagingClearUserSpace L dir s.mem, s.dirs⟩
  | .destroy dir, s => ⟨pagingDestroyAddressSpace L dir s.mem, s.dirs.erase dir⟩

/-- The arguments of `paging_map_page_in` are 32-bit words, and the address lies in the user
half. -/
def PagingCall.Typed : PagingCall → Prop
  | .mapIn _ virt phys flags => virt < 0xC0000000 ∧ phys < 2 ^ 32 ∧ flags < 2 ^ 32
  | _ => True

/-- The directories that a call names are live. -/
def PagingCall.Live (s : PagingState) : PagingCall → Prop
  | .create => True
  | .mapIn dir _ _ _ => dir ∈ s.dirs
  | .copy src dst => src ∈ s.dirs ∧ dst ∈ s.dirs
  | .clear dir => dir ∈ s.dirs
  | .destroy dir => dir ∈ s.dirs

/-- The page that is mapped lies outside the kernel image. -/
def PagingCall.Outside : PagingCall → Prop
  | .mapIn _ _ phys flags => frame (entryWord phys flags) ∉ kernelPages
  | _ => True

/-- One after the other. -/
def runPaging (L : Layout) (cs : List PagingCall) (s : PagingState) : PagingState :=
  cs.foldl (fun s c => c.run L s) s

/-- Every call of a sequence meets the condition in the state in which it is made. -/
def EachCall (L : Layout) (P : PagingState → PagingCall → Prop) :
    List PagingCall → PagingState → Prop
  | [], _ => True
  | c :: cs, s => P s c ∧ EachCall L P cs (c.run L s)

/-- The memory after `paging_init`. -/
def pagingStart (L : Layout) (map : List MmapEntry) (ram : ℕ → Buf) : PagingState :=
  ⟨(pagingInit L (bootMem L map ram)).2, []⟩

section

variable {L : Layout} {m : Mem} {dirs : List ℕ}

lemma PagingCall.run_mapIn {d v p f : ℕ} : PagingCall.run L (.mapIn d v p f) ⟨m, dirs⟩ =
    ⟨(pagingMapPageIn d v p f m).2, dirs⟩ := by
  rw [run]

lemma PagingCall.run_clear {d : ℕ} :
    PagingCall.run L (.clear d) ⟨m, dirs⟩ = ⟨pagingClearUserSpace L d m, dirs⟩ := by
  rw [run]

lemma PagingCall.run_copy {d d' : ℕ} : PagingCall.run L (.copy d d') ⟨m, dirs⟩ =
    ⟨(pagingCopyAddressSpace L d d' m).2, dirs⟩ := by
  rw [run]

end

/-! ### The pool -/

/-- **Every table of the pool is held in one way**: it is on the free list, once; it is a live
directory; it is the table of one entry of one live directory; or it is a table of the boot
directory. -/
def Partition (L : Layout) (s : PagingState) : Prop :=
  ∃ o : ℕ → Owner, s.mem.freeTables.Nodup ∧ s.dirs.Nodup ∧
    (∀ f, f ∈ s.mem.freeTables ↔ L.InPool f ∧ o f = .free) ∧
    (∀ d, d ∈ s.dirs ↔ L.InPool d ∧ o d = .dir) ∧
    (∀ d ∈ s.dirs, ∀ i < 768, ∀ f, s.mem.Refers d i f ↔ L.InPool f ∧ o f = .table d i) ∧
    (∀ f d i, L.InPool f → o f = .table d i → d ∈ s.dirs ∧ i < 768) ∧
    ∀ f, L.InPool f → ((∃ i < 1024, s.mem.Refers L.bootDir i f) ↔ o f = .kernel)

section

variable {L : Layout} {s s' : PagingState} {a a' : Space} {m : Mem} {dirs : List ℕ} {o : ℕ → Owner}

/-- The tables of the boot directory. -/
lemma Tables.boot_refers_iff (h : Tables L m dirs o) {f : ℕ} (hf : L.InPool f) :
    (∃ i < 1024, m.Refers L.bootDir i f) ↔ o f = .kernel := by
  constructor
  · rintro ⟨i, hi, hr⟩
    have hw := h.boot i hi
    rw [Layout.bootEntry] at hw
    split at hw
    · obtain rfl := hr.unique (refers_of_word hw (by decide) rfl)
      exact h.kernel_owner
    · split at hw
      · exact absurd (hr.unique (refers_of_word hw (by decide) rfl)) hf.ne_bootTable
      · rw [Mem.Refers, hw] at hr
        exact absurd hr.1 (by decide)
  · intro ho
    rw [(h.kernel f).mp ⟨hf, ho⟩]
    exact ⟨769, by decide, h.boot_refers⟩

lemma Shows.partition {c : Prop} (h : Shows c L s.dirs s.mem a) : Partition L s := by
  obtain ⟨o, ho⟩ := h.tables
  exact ⟨o, ho.nodup, ho.dirs_nodup, ho.free, ho.dir, ho.table, ho.owner,
    fun f hf => ho.boot_refers_iff hf⟩

/-- Without live directories all tables but one are free. -/
lemma Tables.length_free (h : Tables L m [] o) : m.freeTables.length = 31 := by
  have hfree : m.freeTables.toFinset = Finset.Ico L.pool (L.pool + 31) := by
    ext f
    rw [List.mem_toFinset, Finset.mem_Ico, h.free f]
    constructor
    · rintro ⟨⟨hle, hlt⟩, ho⟩
      have hne : f ≠ L.kernelTable := by
        rintro rfl
        rw [h.kernel_owner] at ho
        cases ho
      rw [userTablePool] at hlt
      rw [Layout.kernelTable] at hne
      omega
    · rintro ⟨hle, hlt⟩
      have hpool : L.InPool f := ⟨hle, by rw [userTablePool]; omega⟩
      refine ⟨hpool, ?_⟩
      cases ho : o f with
      | free => rfl
      | dir => exact absurd ((h.dir f).mpr ⟨hpool, ho⟩) List.not_mem_nil
      | table d i => exact absurd (h.owner f d i hpool ho).1 List.not_mem_nil
      | kernel =>
        have := (h.kernel f).mp ⟨hpool, ho⟩
        rw [Layout.kernelTable] at this
        omega
  rw [← List.toFinset_card_of_nodup h.nodup, hfree, Nat.card_Ico, Nat.add_sub_cancel_left]

/-- A new address space takes the first free table. -/
lemma create_run {t : ℕ} {ts : List ℕ} (h : Tables L m dirs o) (hts : m.freeTables = t :: ts) :
    ∃ m', PagingCall.create.run L ⟨m, dirs⟩ = ⟨m', t :: dirs⟩ ∧ (∃ o', Tables L m' (t :: dirs) o') ∧
      m'.pmm = m.pmm ∧ m'.freeTables = ts ∧ m.Apart L m' ∧ (∀ k < 768, m'.tab t k = none) ∧
      ∀ d' ∈ dirs, ∀ k, m'.tab d' k = m.tab d' k := by
  obtain ⟨m', hrun, -, htables, hpmm, hfree, hapart, htab, htabs, -⟩ := create_spec h hts
  refine ⟨m', ?_, htables, hpmm, hfree, hapart, htab, htabs⟩
  rw [PagingCall.run, hrun]
  rfl

-- for a variable memory: the kernel would compute the loops of `paging.c`
lemma Shows.state {c : Prop} (h : Shows c L dirs m a) :
    ∃ a', Shows c L (PagingState.mk m dirs).dirs (PagingState.mk m dirs).mem a' := ⟨a, h⟩

/-- **One call.** -/
lemma PagingCall.shows (c : PagingCall) (h : Shows False L s.dirs s.mem a) (htyped : c.Typed)
    (hlive : c.Live s) (hout : c.Outside) :
    ∃ a', Shows False L (c.run L s).dirs (c.run L s).mem a' := by
  cases c with
  | create =>
    rcases h.create with ⟨hrun, -⟩ | ⟨d, m', a', hrun, -, -, -, h'⟩
    · rw [run, hrun]
      exact h.state
    · rw [run, hrun]
      exact h'.state
  | mapIn dir virt phys flags =>
    obtain ⟨hvirt, hphys, hflags⟩ := htyped
    have hv : virt / pageSize < userPages := by
      rw [pageSize, userPages]
      omega
    rcases h.mapIn hlive hv hphys hflags hout False.elim with ⟨-, -, hrun⟩ | ⟨m', a', hrun, -, h'⟩
    · rw [run, hrun]
      exact h.state
    · rw [run, hrun]
      exact h'.state
  | copy src dst =>
    rw [run]
    exact (refines_copy hlive.1 hlive.2 s.mem a h).2.state
  | clear dir =>
    rw [run]
    exact (h.clear hlive False.elim).state
  | destroy dir =>
    rw [run]
    exact (h.destroy hlive False.elim).state

/-- **Every run.** -/
lemma shows_runPaging (cs : List PagingCall) (h : Shows False L s.dirs s.mem a)
    (hcs : EachCall L (fun s c => c.Typed ∧ c.Live s ∧ c.Outside) cs s) :
    ∃ a', Shows False L (runPaging L cs s).dirs (runPaging L cs s).mem a' := by
  induction cs generalizing s a with
  | nil => exact ⟨a, h⟩
  | cons c cs ih =>
    obtain ⟨⟨htyped, hlive, hout⟩, hcs⟩ := hcs
    obtain ⟨a', h'⟩ := c.shows h htyped hlive hout
    exact ih h' hcs

end

/-- An address space with a page, from its creation to its end. -/
def sampleCalls : List PagingCall :=
  [.create, .mapIn 544 0 (0x400 * pageSize) 7, .clear 544, .destroy 544]

lemma sampleCalls_ok (ram : ℕ → Buf) :
    EachCall sampleLayout (fun s c => c.Typed ∧ c.Live s ∧ c.Outside) sampleCalls
      (pagingStart sampleLayout sampleMap ram) := by
  obtain ⟨m, hrun, -, hfree, h⟩ := shows_pagingInit sampleLayout sampleMap ram
  obtain ⟨o, ho⟩ := h.tables
  have hout : frame (entryWord (0x400 * pageSize) 7) ∉ kernelPages := by
    rw [frame_newPage 0x400 (by decide)]
    exact fun hk => absurd (kernelPages_lt hk) (by decide)
  obtain ⟨m', hcreate, -⟩ := create_run ho hfree
  rw [pagingStart, hrun]
  refine ⟨⟨trivial, trivial, trivial⟩, ?_⟩
  rw [hcreate]
  refine ⟨⟨⟨by decide, by decide, by decide⟩, List.mem_cons_self, hout⟩, ?_⟩
  rw [PagingCall.run_mapIn]
  refine ⟨⟨trivial, List.mem_cons_self, trivial⟩, ?_⟩
  rw [PagingCall.run_clear]
  exact ⟨⟨trivial, List.mem_cons_self, trivial⟩, trivial⟩

section

variable {L : Layout} {m m' : Mem} {d t f g phys : ℕ} {ts : List ℕ}

/-- The first page of an address space with a table of its own. -/
structure OnePage (m : Mem) (d t f : ℕ) : Prop where
  ne : d ≠ t
  refers : m.Refers d 0 t
  absent : ∀ i, 0 < i → i < 768 → ¬ Present (m.word d i)
  entry : m.word t 0 = entryWord (f * pageSize) 7
  rest : ∀ j, 0 < j → m.word t j = 0

lemma onePage_mapIn (hd : ∀ i < 768, ¬ Present (m.word d i)) (hts : m.freeTables = t :: ts)
    (ht : L.InPool t) (hdt : d ≠ t) (hf : f < maxPages) :
    OnePage (pagingMapPageIn d 0 (f * pageSize) 7 m).2 d t f ∧
    (∀ g, g ≠ d → g ≠ t → (pagingMapPageIn d 0 (f * pageSize) 7 m).2.ram g = m.ram g) ∧
    (pagingMapPageIn d 0 (f * pageSize) 7 m).2.pmm = m.pmm ∧
    (pagingMapPageIn d 0 (f * pageSize) 7 m).2.freeTables = ts := by
  have hsome : allocPageTable m = (some t, { m.setPage t fun _ => 0 with freeTables := ts }) := by
    rw [allocPageTable, hts]
  have hnew : ensureTable d (dirIndex 0) (1 ||| pageWriteable ||| pageUser) m =
      (some (), m.withTable d 0 t ts) := by
    rw [ensureTable, bind_of_some (gets_apply _ _),
      if_neg (show ¬ Present (m.word d (dirIndex 0)) from hd 0 (by decide)), bind_of_some hsome]
    rfl
  have hrun : pagingMapPageIn d 0 (f * pageSize) 7 m =
      (some (), installEntry d 0 (f * pageSize) 7 (m.withTable d 0 t ts)) := by
    rw [pagingMapPageIn, bind_of_some hnew, modify_apply]
  have hword : ∀ g k, (m.withTable d 0 t ts).word g k =
      if g = d ∧ k = 0 then t * pageSize ||| 7 else if g = t then 0 else m.word g k :=
    fun g k => word_withTable ht
  have hrefers : (m.withTable d 0 t ts).Refers d 0 t :=
    refers_of_word (by rw [hword, if_pos ⟨rfl, rfl⟩]) (by decide) rfl
  obtain ⟨m₁, heq, hrefers₁, hword₁, hram₁, hpmm, hfree⟩ :=
    installEntry_eq (m.withTable d 0 t ts) d 0 (f * pageSize) 7
  rw [hrun]
  dsimp only
  have hframe : frame ((m.withTable d 0 t ts).word d (dirIndex 0)) = t := hrefers.2
  rw [hframe] at heq
  have hset : ∀ g k, (installEntry d 0 (f * pageSize) 7 (m.withTable d 0 t ts)).word g k =
      if g = t ∧ k = 0 then entryWord (f * pageSize) 7 else m₁.word g k := by
    intro g k
    rw [heq]
    exact Mem.word_setWord (entryWord_lt (page_lt hf) (by decide))
  refine ⟨⟨hdt, ?_, fun i hi hi' => ?_, ?_, fun j hj => ?_⟩, fun g hgd hgt => ?_, ?_, ?_⟩
  · rw [Mem.Refers, hset, if_neg fun e => hdt e.1, ← Mem.Refers, hrefers₁]
    exact hrefers
  · rw [hset, if_neg fun e => hdt e.1, hword₁ d i fun e => hi.ne' e.2, hword,
      if_neg fun e => hi.ne' e.2, if_neg hdt]
    exact hd i hi'
  · rw [hset, if_pos ⟨rfl, rfl⟩]
  · rw [hset, if_neg fun e => hj.ne' e.2, hword₁ t j fun e => hdt e.1.symm, hword,
      if_neg fun e => hdt e.1.symm, if_pos rfl]
  · rw [heq, Mem.ram_setWord_ne hgt, hram₁ g hgd]
    exact (Mem.ram_setWord_ne hgd).trans (Mem.ram_setPage_ne hgt)
  · rw [heq]
    exact hpmm
  · rw [heq]
    exact hfree

/-- Rounds of a loop that do nothing. -/
lemma foldl_stay {σ : Type} {f : σ → ℕ → σ} {x : σ} (l : List ℕ) (h : ∀ i ∈ l, f x i = x) :
    l.foldl f x = x := by
  induction l with
  | nil => rfl
  | cons i l ih =>
    rw [List.foldl_cons, h i List.mem_cons_self]
    exact ih fun j hj => h j (List.mem_cons_of_mem i hj)

lemma OnePage.clear (h : OnePage m d t f) (ht : L.InPool t) (hlen : m.freeTables.length < 32)
    (hf : f < maxPages) :
    (∀ i < 768, ¬ Present ((pagingClearUserSpace L d m).word d i)) ∧
    (∀ g, g ≠ d → (pagingClearUserSpace L d m).ram g = m.ram g) ∧
    (pagingClearUserSpace L d m).pmm.clear = insert f m.pmm.clear ∧
    (pagingClearUserSpace L d m).freeTables = t :: m.freeTables := by
  obtain ⟨p, hfold, hclear⟩ := foldl_freeEntry t (List.range 1024) m
  have hfirst : clearEntry L d m 0 =
      Mem.setWord { m.withPmm p with freeTables := t :: m.freeTables } d 0 0 := by
    rw [clearEntry, if_pos h.refers.1, h.refers.2]
    show (freePageTable L t ((List.range 1024).foldl (freeEntry t) m)).setWord d 0 0 = _
    rw [hfold, freePageTable, if_pos ⟨ht, hlen⟩]
    rfl
  have hword : ∀ i, (clearEntry L d m 0).word d i = if i = 0 then 0 else m.word d i := by
    intro i
    rw [hfirst]
    refine (Mem.word_setWord (by decide)).trans ?_
    by_cases hi : i = 0
    · rw [if_pos ⟨rfl, hi⟩, if_pos hi]
    · rw [if_neg fun e => hi e.2, if_neg hi]
      rfl
  have habsent : ∀ i < 768, ¬ Present ((clearEntry L d m 0).word d i) := by
    intro i hi
    rw [hword]
    split
    · decide
    · next hne => exact h.absent i (Nat.pos_of_ne_zero hne) hi
  have hall : pagingClearUserSpace L d m = clearEntry L d m 0 := by
    have hcons : List.range 768 = 0 :: List.range' 1 767 := by
      rw [List.range_eq_range', List.range'_succ]
    rw [pagingClearUserSpace, hcons, List.foldl_cons]
    refine foldl_stay _ fun i hi => ?_
    rw [clearEntry, if_neg (habsent i ?_)]
    have := List.mem_range'_1.mp hi
    omega
  rw [hall]
  refine ⟨habsent, fun g hg => ?_, ?_, ?_⟩
  · rw [hfirst]
    exact Mem.ram_setWord_ne hg
  · rw [hfirst]
    ext g
    refine (hclear g).trans ?_
    rw [Finset.mem_insert, or_comm]
    refine or_congr_left ⟨?_, ?_⟩
    · rintro ⟨j, -, hp, rfl⟩
      rcases Nat.eq_zero_or_pos j with rfl | hj
      · rw [h.entry, frame_newPage f (by decide)]
      · rw [h.rest j hj] at hp
        exact absurd hp (by decide)
    · rintro rfl
      refine ⟨0, by simp, ?_, ?_⟩
      · rw [h.entry]
        exact present_entryWord
      · rw [h.entry, frame_newPage g (by decide)]
  · rw [hfirst]
    rfl

/-- The page of an address space is copied over the directory `dst`, which is free memory for
the page allocator. -/
lemma OnePage.copy {src dst x : ℕ} {m₁ : Mem} (h : OnePage m src t f)
    (hboot : m.Refers L.bootDir 769 L.kernelTable)
    (halloc : allocPage m = (some (dst * pageSize), m₁)) (hram : m₁.ram = m.ram)
    (hdst : dst < maxPages) (hx : ∀ k, m.word f k = x * pageSize ||| 3)
    (hnodup : [src, t, dst, x, f, L.kernelTable, L.bootDir].Nodup) :
    (pagingCopyAddressSpace L src dst m).2.Refers dst 1 x ∧
    (pagingCopyAddressSpace L src dst m).2.freeTables = m₁.freeTables := by
  have hword : ∀ g k, m₁.word g k = m.word g k := fun g k => by rw [Mem.word, Mem.word, hram]
  have hdiv : dst * pageSize / pageSize = dst := Nat.mul_div_cancel _ (by decide)
  simp only [List.nodup_cons, List.mem_cons, not_or, List.not_mem_nil, not_false_eq_true,
    List.nodup_nil, and_true] at hnodup
  obtain ⟨⟨hst, hsd, hsx, hsf, hsk, hsb⟩, ⟨htd, htx, htf, htk, htb⟩, ⟨hdx, hdf, hdk, hdb⟩,
    ⟨hxf, hxk, hxb⟩, ⟨hfk, hfb⟩, -⟩ := hnodup
  have hbits : (3 : ℕ) < pageSize := by decide
  have hxw : m.Refers f 0 x ∧ m.Refers f 1 x :=
    ⟨refers_of_word (hx 0) hbits rfl, refers_of_word (hx 1) hbits rfl⟩
  -- the source page is read, and written over the directory
  generalize hm₂ : throughWindow L forkScratchVirt (dst * pageSize)
    (fun m => m.ram (m.frameAt src (0 * 2 ^ 22 + 0 * 2 ^ 12))) m₁ = m₂
  have hr : m₁.Refers L.bootDir 769 L.kernelTable := by
    rw [Mem.Refers, hword]
    exact hboot
  rw [throughWindow_apply hr (by decide) (page_lt hdst) (by rw [hdiv]; exact hdb), hdiv] at hm₂
  have hram₂ : ∀ g, g ≠ L.kernelTable → m₂.ram g = if g = dst then m.ram f else m.ram g := by
    intro g hg
    rw [← hm₂, Mem.ram_setWord_ne hg]
    by_cases hgd : g = dst
    · have hpage : ∀ k y,
          (m₁.setWord L.kernelTable k y).frameAt src (0 * 2 ^ 22 + 0 * 2 ^ 12) = f := by
        intro k y
        have hs : frame ((m₁.setWord L.kernelTable k y).word src
            (dirIndex (0 * 2 ^ 22 + 0 * 2 ^ 12))) = t := by
          rw [Mem.word_setWord_ne hsk, hword]
          exact h.refers.2
        rw [Mem.frameAt, hs, Mem.word_setWord_ne htk, hword]
        exact (congrArg frame h.entry).trans (frame_newPage f (by decide))
      rw [if_pos hgd, hgd, Mem.ram_setPage_self, hpage, Mem.ram_setWord_ne hfk, hram]
    · rw [if_neg hgd, Mem.ram_setPage_ne hgd, Mem.ram_setWord_ne hg, hram]
  have hfree₂ : m₂.freeTables = m₁.freeTables := by
    rw [← hm₂]
    rfl
  have hword₂ : ∀ g k, g ≠ L.kernelTable → g ≠ dst → m₂.word g k = m.word g k := by
    intro g k hg hgd
    rw [Mem.word, Mem.word, hram₂ g hg, if_neg hgd]
  have hdst₂ : ∀ k, m₂.word dst k = m.word f k := by
    intro k
    rw [Mem.word, Mem.word, hram₂ dst hdk, if_pos rfl]
  -- the new page is mapped through the table that its own bytes name
  generalize hflags : m.word t 0 % pageSize = flags
  obtain ⟨m₃, heq, hrefers₃, hword₃, -, -, hfree₃⟩ :=
    installEntry_eq m₂ dst (0 * 2 ^ 22 + 0 * 2 ^ 12) (dst * pageSize) flags
  have hframe : frame (m₂.word dst (dirIndex (0 * 2 ^ 22 + 0 * 2 ^ 12))) = x := by
    rw [hdst₂]
    exact hxw.1.2
  rw [hframe] at heq
  have hmap : pagingMapPageIn dst (0 * 2 ^ 22 + 0 * 2 ^ 12) (dst * pageSize) flags m₂ =
      (some (), m₃.setWord x (tableIndex (0 * 2 ^ 22 + 0 * 2 ^ 12))
        (entryWord (dst * pageSize) flags)) := by
    rw [← heq]
    refine pagingMapPageIn_of_present ?_
    rw [hdst₂]
    exact hxw.1.1
  generalize hm₄ : m₃.setWord x (tableIndex (0 * 2 ^ 22 + 0 * 2 ^ 12))
    (entryWord (dst * pageSize) flags) = m₄ at hmap
  have hword₄ : ∀ g k, g ≠ x → g ≠ dst → g ≠ L.kernelTable → m₄.word g k = m.word g k := by
    intro g k hgx hgd hgk
    rw [← hm₄, Mem.word_setWord_ne hgx, hword₃ g k fun e => hgd e.1, hword₂ g k hgk hgd]
  have hfirst : copyEntry L src dst t 0 0 m = (some (), m₄) := by
    have hp : Present (m.word t 0) := by
      rw [h.entry]
      exact present_entryWord
    rw [copyEntry, bind_of_some (gets_apply _ _), if_pos hp, bind_of_some halloc,
      bind_of_some (modify_apply _ _), throughWindow_apply hr (by decide) (page_lt hdst)
      (by rw [hdiv]; exact hdb), hdiv, hm₂, hflags, bind_of_some (attempt_of_eq hmap)]
    exact pure_apply _ _
  have hrun : pagingCopyAddressSpace L src dst m = (some (), m₄) := by
    have hcons : List.range 768 = 0 :: List.range' 1 767 := by
      rw [List.range_eq_range', List.range'_succ]
    have hcons' : List.range 1024 = 0 :: List.range' 1 1023 := by
      rw [List.range_eq_range', List.range'_succ]
    have htable : copyTable L src dst 0 m = (some (), m₄) := by
      rw [copyTable, bind_of_some (gets_apply _ _), if_pos h.refers.1, h.refers.2, hcons']
      refine forM_first hfirst fun j hj => ?_
      have habsent : ¬ Present (m₄.word t j) := by
        rw [hword₄ t j htx htd htk, h.rest j (List.mem_range'_1.mp hj).1]
        decide
      rw [copyEntry, bind_of_some (gets_apply _ _), if_neg habsent, pure_apply]
    rw [pagingCopyAddressSpace, hcons]
    refine forM_first htable fun i hi => ?_
    obtain ⟨hi, hi'⟩ := List.mem_range'_1.mp hi
    have habsent : ¬ Present (m₄.word src i) := by
      rw [hword₄ src i hsx hsd hsk]
      exact h.absent i hi (by omega)
    rw [copyTable, bind_of_some (gets_apply _ _), if_neg habsent, pure_apply]
  rw [hrun]
  dsimp only
  refine ⟨?_, ?_⟩
  · have hone : m₄.word dst 1 = m.word f 1 := by
      rw [← hm₄, Mem.word_setWord_ne hdx, hword₃ dst 1 fun e => absurd e.2 (by decide), hdst₂]
    rw [Mem.Refers, hone]
    exact hxw.2
  · rw [← hm₄]
    exact hfree₃.trans hfree₂

end

/-- A page of entries that all name the page `541`. -/
def badPage : Buf := wordPage fun _ => 541 * pageSize ||| 3

/-- The page `543` of the pool, which is a live directory, is mapped as a user page, and freed
with the address space. Then it is handed out for a copy. -/
def badCalls : List PagingCall :=
  [.create, .create, .mapIn 544 0 (543 * pageSize) 7, .clear 544, .mapIn 544 0 (0x400 * pageSize) 7,
    .copy 544 543]

/-- Two address spaces. -/
lemma two_created : ∃ m o, runPaging sampleLayout [.create, .create]
      (pagingStart sampleLayout [] fun _ => badPage) = ⟨m, [543, 544]⟩ ∧
    Tables sampleLayout m [543, 544] o ∧ m.pmm.clear = ∅ ∧
    m.freeTables = 542 :: 541 :: sampleLayout.freePool.drop 4 ∧ m.ram 0x400 = badPage ∧
    ∀ i < 768, ¬ Present (m.word 544 i) := by
  have hboot := booted_bootMem sampleLayout [] fun _ => badPage
  have htables := tables_pagingInit hboot
  have hstart : pagingStart sampleLayout [] (fun _ => badPage) =
      ⟨(bootMem sampleLayout [] fun _ => badPage).initialised sampleLayout, []⟩ := by
    rw [pagingStart, pagingInit_apply hboot]
  have hram : ((bootMem sampleLayout [] fun _ => badPage).initialised sampleLayout).ram 0x400 =
      badPage := rfl
  have hclear : ((bootMem sampleLayout [] fun _ => badPage).initialised sampleLayout).pmm.clear =
      ∅ := by
    rw [Mem.initialised_pmm, bootMem_pmm]
    exact Finset.eq_empty_of_forall_notMem fun f hf => nomatch (mem_clear_pmmInit.mp hf).1.2
  have hfree : ((bootMem sampleLayout [] fun _ => badPage).initialised sampleLayout).freeTables =
      544 :: 543 :: 542 :: 541 :: sampleLayout.freePool.drop 4 := rfl
  obtain ⟨m₁, hrun₁, ⟨o₁, h₁⟩, hpmm₁, hfree₁, hapart₁, htab₁, -⟩ :=
    create_run htables hfree
  obtain ⟨m₂, hrun₂, ⟨o₂, h₂⟩, hpmm₂, hfree₂, hapart₂, -, htabs₂⟩ := create_run h₁ hfree₁
  have hout : ¬ sampleLayout.InPool 0x400 := by decide
  refine ⟨m₂, o₂, ?_, h₂, ?_, hfree₂, ?_, fun i hi => ?_⟩
  · rw [hstart, runPaging, List.foldl_cons, hrun₁, List.foldl_cons, hrun₂, List.foldl_nil]
  · rw [hpmm₂, hpmm₁, hclear]
  · rw [hapart₂ _ (.inl hout), hapart₁ _ (.inl hout), hram]
  · rw [← Mem.tab_eq_none, htabs₂ 544 List.mem_cons_self, htab₁ i hi]

/-- The last free page is handed out. -/
lemma allocPage_of_single {m : Mem} {f : ℕ} (h : m.pmm.clear = {f}) (hf : f < maxPages)
    (hf0 : f ≠ 0) :
    allocPage m = (some (f * pageSize), m.withPmm (m.pmm.take f)) := by
  have hnext : nextPage m.pmm = some f := by
    rw [← nextFree_clear, h]
    obtain ⟨g, hg⟩ := Option.ne_none_iff_exists'.mp fun hn =>
      nextFree_none hn hf (Finset.mem_singleton_self f)
    rw [hg, Finset.mem_singleton.mp (nextFree_mem hg)]
  have ha : pmmAllocPage m.pmm = (f * pageSize, m.pmm.take f) := by rw [pmmAllocPage, hnext]
  rw [allocPage_eq]
  dsimp only
  rw [ha, if_neg (Nat.mul_ne_zero hf0 (by decide))]

/-- A table that is free and referred to. -/
lemma not_partition {L : Layout} {m : Mem} {dirs : List ℕ} {d i f : ℕ} (hfree : f ∈ m.freeTables)
    (hd : d ∈ dirs) (hi : i < 768) (hr : m.Refers d i f) : ¬ Partition L ⟨m, dirs⟩ := by
  rintro ⟨o, -, -, hfreeo, -, htable, -⟩
  have h₁ := ((hfreeo f).mp hfree).2
  rw [((htable d hd i hi f).mp hr).2] at h₁
  cases h₁

lemma badCalls_live (m : Mem) : EachCall sampleLayout (fun s c => c.Typed ∧ c.Live s)
    (badCalls.drop 2) ⟨m, [543, 544]⟩ := by
  have hmem : 544 ∈ [543, 544] := List.mem_cons_of_mem _ List.mem_cons_self
  have htyped : ∀ f < 2 ^ 20, (PagingCall.mapIn 544 0 (f * pageSize) 7).Typed := fun f hf =>
    ⟨by decide, page_lt hf, by decide⟩
  refine ⟨⟨htyped 543 (by decide), hmem⟩, ?_⟩
  rw [PagingCall.run_mapIn]
  refine ⟨⟨trivial, hmem⟩, ?_⟩
  rw [PagingCall.run_clear]
  refine ⟨⟨htyped 0x400 (by decide), hmem⟩, ?_⟩
  rw [PagingCall.run_mapIn]
  exact ⟨⟨trivial, hmem, List.mem_cons_self⟩, trivial⟩

end GordOS.Memory
