/-
What the loader reads and what it maps (`kernel/elf.c`, `memory/paging.c`).

The loader of `Elf.lean` runs on the page tables, with a note of what it has read of the
image, and on the address spaces of `Space.lean`. It checks neither the offsets nor the
addresses of an image, so that both are conditions here.

* `fillPage`, `kernelOps`, `spaceOps`: how a page of a process is mapped and filled, in the
  memory and in the address spaces;
* `Image.segments`, `Image.pages`, `elfLoad_loop`: what is loaded, and **the loader as one loop**
  over its pages;
* `refines_elfLoad`: **the loader follows the address spaces**, for segments of the user half;
* `Image.Contained`: the program headers and the file portions lie inside the buffer, and the
  segments in the user half;
* `elfLoad_contained`: **the loader then reads inside the buffer, and the kernel half stays as
  it is**;
* `elfLoad_escapes`: otherwise it reads behind the buffer, and maps pages over the kernel.
-/
import Mathlib.Tactic
import GordOS.Kernel.Elf

namespace GordOS.Kernel

open GordOS Fallible Memory
open GordOS.Fat32 (Buf)

/-! ### The code -/

/-- `PAGE_PRESENT | PAGE_WRITEABLE | PAGE_USER`. -/
def userFlags : ℕ := 1 ||| pageWriteable ||| pageUser

/-- A new page of a process, filled through a window of the kernel half. -/
def fillPage (L : Layout) (window dir virt : ℕ) (b : Buf) : Fallible Mem Unit := do
  let phys ← mapNewPage dir virt userFlags
  modify (throughWindow L window phys fun _ => b)

/-- The memory, and what has been read of the image: offsets and lengths, the last one in
front. -/
structure Loader where
  mem : Mem
  reads : List (ℕ × ℕ)

/-- The loader on the page tables. -/
def kernelOps (L : Layout) (dir : ℕ) : LoaderOps Loader where
  page virt b := fun l =>
    ((fillPage L elfScratchVirt dir virt b l.mem).1,
      ⟨(fillPage L elfScratchVirt dir virt b l.mem).2, l.reads⟩)
  read o n := modify fun l => ⟨l.mem, (o, n) :: l.reads⟩

/-- The loader on the address spaces. -/
def spaceOps (dir : ℕ) : LoaderOps Space where
  page virt b := Space.addPage dir (virt / pageSize) userFlags b
  read _ _ := pure ()

/-- The loader on the page tables, without the note. -/
def memOps (L : Layout) (dir : ℕ) : LoaderOps Mem where
  page := fillPage L elfScratchVirt dir
  read _ _ := pure ()

/-! ### The segments of an image -/

/-- The places and the contents of the pages of a segment. -/
def Phdr.pages (img : Image) (ph : Phdr) : List (ℕ × Buf) :=
  (List.range ph.pagesNeeded).map fun page => (ph.virt page, ph.pageBytes img page)

/-- `highest_end` behind a segment. -/
def Phdr.highest (h : ℕ) (ph : Phdr) : ℕ :=
  if ph.memsz = 0 then h else max h ((ph.vaddr + ph.memsz) % 2 ^ 32)

namespace Image

variable (img : Image)

/-- The program headers of the type `PT_LOAD` among those with the numbers `is`. -/
def segmentsOf (is : List ℕ) : List Phdr := (is.map img.phdr).filter fun ph => ph.type = ptLoad

/-- The segments that are loaded. -/
def segments : List Phdr := img.segmentsOf (List.range (img.u16 44))

/-- The pages of a program, in the order of the loops. -/
def pages : List (ℕ × Buf) := img.segments.flatMap (Phdr.pages img)

/-- `heap_start`. -/
def heapStart : ℕ := (img.segments.foldl Phdr.highest 0 + 0xFFF) % 2 ^ 32 / 0x1000 * 0x1000

/-- The image passes the checks of `elf_load`. -/
def Executable : Prop :=
  elfHeaderSize ≤ img.size ∧ img.u32 0 = elfMagic ∧ img.u16 16 = etExec

/-- The segments lie in the user half. -/
def UserHalf : Prop :=
  ∀ ph ∈ img.segments, ph.memsz ≠ 0 → ph.vaddr + ph.memsz ≤ 0xC0000000

end Image

lemma Image.mem_segments {img : Image} {i : ℕ} (hi : i < img.u16 44)
    (ht : (img.phdr i).type = ptLoad) : img.phdr i ∈ img.segments :=
  List.mem_filter.mpr ⟨List.mem_map_of_mem (List.mem_range.mpr hi), decide_eq_true ht⟩

/-- **The loader as one loop**, if nothing is noted of what it reads. -/
lemma elfLoad_loop {σ : Type} {ops : LoaderOps σ} {img : Image}
    (hread : ∀ o n, ops.read o n = pure ()) (hx : img.Executable) : elfLoad ops img =
      img.pages.forM (fun p => ops.page p.1 p.2) >>= fun _ => pure (img.u32 24, img.heapStart) := by
  have happend : ∀ l l' : List (ℕ × Buf), (l ++ l').forM (fun p => ops.page p.1 p.2) =
      (l.forM fun p => ops.page p.1 p.2) >>= fun _ => l'.forM fun p => ops.page p.1 p.2 :=
    fun _ _ => List.forM_append
  have hpages : ∀ ph : Phdr, (ph.pages img).forM (fun p => ops.page p.1 p.2) =
      (List.range ph.pagesNeeded).forM (loadPage ops img ph) := by
    intro ph
    have hpage : loadPage ops img ph = fun page =>
        ops.page (ph.virt page) (ph.pageBytes img page) := by
      funext page
      rw [loadPage]
      simp only [hread, pure_bind]
      split
      · exact bind_pure_unit
      · exact bind_pure_unit
    rw [hpage]
    exact List.forM_map
  have hloop : ∀ (is : List ℕ) (h : ℕ), is.foldlM (loadSegment ops img) h =
      ((img.segmentsOf is).flatMap (Phdr.pages img)).forM (fun p => ops.page p.1 p.2) >>= fun _ =>
        pure ((img.segmentsOf is).foldl Phdr.highest h) := by
    intro is
    induction is with
    | nil => exact fun h => (pure_bind () fun _ => pure h).symm
    | cons i is ih =>
      intro h
      rw [List.foldlM_cons, loadSegment]
      simp only [hread, pure_bind]
      by_cases ht : (img.phdr i).type = ptLoad
      · have hcons : img.segmentsOf (i :: is) = img.phdr i :: img.segmentsOf is :=
          List.filter_cons_of_pos (decide_eq_true ht)
        rw [if_pos ht, hcons, List.flatMap_cons, happend, hpages, List.foldl_cons, Phdr.highest,
          bind_assoc]
        split
        · next hm =>
          have hnone : (img.phdr i).pagesNeeded = 0 := by
            rw [Phdr.pagesNeeded, hm]
            rfl
          rw [pure_bind, ih, hnone]
          exact (pure_bind () fun _ => (_ : Fallible σ ℕ)).symm
        · rw [bind_assoc]
          refine bind_congr fun _ => ?_
          rw [pure_bind, ih]
      · have hcons : img.segmentsOf (i :: is) = img.segmentsOf is :=
          List.filter_cons_of_neg (by simpa using ht)
        rw [if_neg ht, pure_bind, ih, hcons]
  rw [elfLoad, if_neg (Nat.not_lt.mpr hx.1), if_pos hx.2.1, if_pos hx.2.2, hloop]
  simp only [hread, pure_bind, bind_assoc]
  rw [Image.pages, Image.heapStart, Image.segments]

/-! ### From the page tables to the address spaces -/

section

variable {c : Prop} {L : Layout} {dirs : List ℕ} {dir virt window : ℕ} {img : Image}

lemma userFlags_lt : userFlags < pageSize := by decide

/-- **A new page is mapped and filled.** -/
lemma refines_fillPage (hd : dir ∈ dirs) (hv : virt / pageSize < userPages)
    (hw : dirIndex window = 769) (b : Buf) :
    Refines (Shows c L dirs) (fillPage L window dir virt b)
      (Space.addPage dir (virt / pageSize) userFlags b) := by
  intro m s h
  rcases h.mapNewPage hd hv userFlags_lt with
    ⟨m', s', hrun, h', hadd⟩ | ⟨f, m', hrun, hker, hlt, -, hadd⟩
  · rw [fillPage, bind_of_none hrun, hadd b]
    exact ⟨rfl, h'⟩
  · obtain ⟨s', hs', -, h'⟩ := hadd b
    -- the page is in use with what it held before, and then it is filled
    obtain ⟨s₀, -, -, h₀⟩ := hadd (m'.ram f)
    rw [Mem.setPage_ram] at h₀
    obtain ⟨o, ho⟩ := h₀.tables
    have hdiv : f * pageSize / pageSize = f := Nat.mul_div_cancel _ (by decide)
    have hwin := throughWindow_eq ho hw (by rwa [hdiv]) (page_lt hlt) fun _ => b
    rw [hdiv] at hwin
    rw [fillPage, bind_of_some hrun, modify_apply, hwin, hs']
    exact ⟨rfl, h'⟩

/-- Loaders whose parts follow each other. -/
lemma refines_elfLoad_of_ops {σ V : Type} {R : σ → V → Prop} {ops : LoaderOps σ}
    {ops' : LoaderOps V} (hread : ∀ o n, Refines R (ops.read o n) (ops'.read o n))
    (hpage : img.Executable → ∀ ph ∈ img.segments, ph.memsz ≠ 0 → ∀ page < ph.pagesNeeded, ∀ b,
      Refines R (ops.page (ph.virt page) b) (ops'.page (ph.virt page) b)) :
    Refines R (elfLoad ops img) (elfLoad ops' img) := by
  have hsegment : img.Executable → ∀ h, ∀ i ∈ List.range (img.u16 44),
      Refines R (loadSegment ops img h i) (loadSegment ops' img h i) := by
    intro hx h i hi
    refine (hread _ _).bind fun _ => (hread _ _).bind fun _ => (hread _ _).bind fun _ => ?_
    split
    · next ht =>
      refine (hread _ _).bind fun _ => ?_
      split
      · exact Refines.pure _
      · next hm =>
        refine (hread _ _).bind fun _ =>
          (Refines.forM _ fun page hp => ?_).bind fun _ => Refines.pure _
        have hph := Image.mem_segments (List.mem_range.mp hi) ht
        refine (hpage hx _ hph hm page (List.mem_range.mp hp) _).bind fun _ =>
          (hread _ _).bind fun _ => (hread _ _).bind fun _ => ?_
        split
        · exact (hread _ _).bind fun _ => hread _ _
        · exact Refines.pure _
    · exact Refines.pure _
  rw [elfLoad, elfLoad]
  split
  · exact Refines.fail
  · next hsize =>
    refine (hread _ _).bind fun _ => ?_
    split
    · next hmagic =>
      refine (hread _ _).bind fun _ => ?_
      split
      · next htype =>
        have hx : img.Executable := ⟨Nat.le_of_not_lt hsize, hmagic, htype⟩
        exact (hread _ _).bind fun _ => (Refines.foldlM _ (hsegment hx) 0).bind fun _ =>
          (hread _ _).bind fun _ => Refines.pure _
      · exact Refines.fail
    · exact Refines.fail

lemma Phdr.virt_eq {ph : Phdr} {page : ℕ} (hend : ph.vaddr + ph.memsz ≤ 0xC0000000)
    (hp : page < ph.pagesNeeded) :
    ph.virt page = (ph.vaddr / pageSize + page) * pageSize ∧
      ph.vaddr / pageSize + page < userPages := by
  rw [pagesNeeded] at hp
  rw [virt, pageSize, userPages]
  omega

lemma Phdr.virt_div {ph : Phdr} {page : ℕ} (hend : ph.vaddr + ph.memsz ≤ 0xC0000000)
    (hp : page < ph.pagesNeeded) : ph.virt page / pageSize = ph.vaddr / pageSize + page := by
  rw [(virt_eq hend hp).1, Nat.mul_div_cancel _ (by decide)]

/-- **The loader follows the address spaces.** -/
lemma refines_elfLoad (hd : dir ∈ dirs) (himg : img.Executable → img.UserHalf) :
    Refines (fun l s => Shows c L dirs l.mem s) (elfLoad (kernelOps L dir) img)
      (elfLoad (spaceOps dir) img) := by
  refine refines_elfLoad_of_ops (fun o n l s h => ⟨rfl, h⟩) fun hx ph hph hm page hp b l s h => ?_
  have hend := himg hx ph hph hm
  have hv : ph.virt page / pageSize < userPages := by
    rw [Phdr.virt_div hend hp]
    exact (Phdr.virt_eq hend hp).2
  exact refines_fillPage hd hv (by decide) b l.mem s h

end

/-! ### The reads -/

/-- `sizeof(elf_phdr_t)`. -/
def phdrSize : ℕ := 32

namespace Image

/-- The bytes of a read lie in the buffer; addresses wrap around. -/
def Inside (img : Image) (r : ℕ × ℕ) : Prop := ∀ k < r.2, (r.1 + k) % 2 ^ 32 < img.size

/-- The program headers and the file portions of the segments lie in the buffer, and the
segments in the user half. -/
structure Contained (img : Image) : Prop where
  table : ∀ i < img.u16 44, (img.phdr i).pos + phdrSize ≤ img.size
  file : ∀ ph ∈ img.segments, ph.memsz ≠ 0 →
    ph.offset + ph.filesz ≤ img.size ∧ ph.vaddr % 0x1000 + ph.filesz < 2 ^ 32
  half : img.UserHalf

lemma inside_of_le {img : Image} {o n : ℕ} (h : o + n ≤ img.size) : img.Inside (o, n) := by
  intro k hk
  have hlt : o + k < img.size := lt_of_lt_of_le (Nat.add_lt_add_left hk o) h
  exact (Nat.mod_le _ _).trans_lt hlt

end Image

/-- All reads were inside the buffer. -/
def Loader.ReadsIn (img : Image) (l : Loader) : Prop := ∀ r ∈ l.reads, img.Inside r

section

variable {L : Layout} {dir : ℕ} {img : Image}

lemma leads_read {o n : ℕ} (h : o + n ≤ img.size) :
    Leads (Loader.ReadsIn img) (Loader.ReadsIn img) ((kernelOps L dir).read o n) fun _ => True := by
  intro l hl
  refine ⟨fun r hr => ?_, fun _ _ => trivial⟩
  rcases List.mem_cons.mp hr with rfl | hr
  · exact Image.inside_of_le h
  · exact hl r hr

lemma leads_page {virt : ℕ} {b : Buf} :
    Leads (Loader.ReadsIn img) (Loader.ReadsIn img) ((kernelOps L dir).page virt b)
      fun _ => True := fun _ hl => ⟨hl, fun _ _ => trivial⟩

/-- One round of the inner loop. -/
lemma leads_loadPage {ph : Phdr} {page : ℕ} (hpos : ph.pos + phdrSize ≤ img.size)
    (hfile : ph.offset + ph.filesz ≤ img.size) (hwrap : ph.vaddr % 0x1000 + ph.filesz < 2 ^ 32)
    (hend : ph.vaddr + ph.memsz ≤ 0xC0000000) (hp : page < ph.pagesNeeded) :
    Leads (Loader.ReadsIn img) (Loader.ReadsIn img) (loadPage (kernelOps L dir) img ph page)
      fun _ => True := by
  rw [phdrSize] at hpos
  have hstop : ph.fileEnd = ph.fileStart + ph.filesz := Nat.mod_eq_of_lt hwrap
  refine leads_page.then fun _ _ => (leads_read (by omega)).then fun _ _ =>
    (leads_read (by omega)).then fun _ _ => ?_
  split
  · next copyStart copyLen h =>
    obtain ⟨hstart, hlen⟩ := Phdr.copyRange_some (Phdr.page_lt hend hp) hstop h
    refine (leads_read (by omega)).then fun _ _ => leads_read ?_
    rw [Phdr.source]
    omega
  · exact Leads.pure trivial

/-- One round of the outer loop. -/
lemma leads_loadSegment (hsize : elfHeaderSize ≤ img.size) (himg : img.Contained) {i : ℕ}
    (hi : i < img.u16 44) (highest : ℕ) :
    Leads (Loader.ReadsIn img) (Loader.ReadsIn img) (loadSegment (kernelOps L dir) img highest i)
      fun _ => True := by
  have hpos := himg.table i hi
  rw [elfHeaderSize] at hsize
  rw [phdrSize] at hpos
  refine (leads_read (by omega)).then fun _ _ => (leads_read (by omega)).then fun _ _ =>
    (leads_read (by omega)).then fun _ _ => ?_
  split
  · next ht =>
    refine (leads_read (by omega)).then fun _ _ => ?_
    split
    · exact Leads.pure trivial
    · next hm =>
      have hph := Image.mem_segments hi ht
      obtain ⟨hfile, hwrap⟩ := himg.file _ hph hm
      refine (leads_read (by omega)).then fun _ _ => (Leads.forM _ fun page hp => ?_).then
        fun _ _ => Leads.pure trivial
      exact leads_loadPage (himg.table i hi) hfile hwrap (himg.half _ hph hm) (List.mem_range.mp hp)
  · exact Leads.pure trivial

/-- **All reads of the loader are inside the buffer.** -/
lemma leads_elfLoad (himg : img.Executable → img.Contained) :
    Leads (Loader.ReadsIn img) (Loader.ReadsIn img) (elfLoad (kernelOps L dir) img)
      fun _ => True := by
  rw [elfLoad]
  split
  · exact Leads.fail
  · next hsize =>
    have hsize' : elfHeaderSize ≤ img.size := Nat.le_of_not_lt hsize
    have hread : ∀ {o n : ℕ}, o + n ≤ 52 → Leads (Loader.ReadsIn img) (Loader.ReadsIn img)
        ((kernelOps L dir).read o n) fun _ => True := fun h => leads_read (h.trans hsize')
    refine (hread (by decide)).then fun _ _ => ?_
    split
    · next hmagic =>
      refine (hread (by decide)).then fun _ _ => ?_
      split
      · next htype =>
        have hc := himg ⟨hsize', hmagic, htype⟩
        refine (hread (by decide)).then fun _ _ => (Leads.foldlM _ (fun h i hi =>
          leads_loadSegment hsize' hc (List.mem_range.mp hi) h) 0).then fun _ _ =>
          (hread (by decide)).then fun _ _ => Leads.pure trivial
      · exact Leads.fail
    · exact Leads.fail

end

/-! ### The kernel half -/

/-- The entries `768` to `1023` of every directory, and the tables they name, are as they
were. -/
def SameKernelHalf (L : Layout) (dirs : List ℕ) (m m' : Mem) : Prop :=
  ∀ d ∈ L.bootDir :: dirs, ∀ i, 768 ≤ i → i < 1024 → m'.word d i = m.word d i ∧
    (Present (m.word d i) → ∀ j < 1024,
      m'.word (frame (m.word d i)) j = m.word (frame (m.word d i)) j)

section

variable {L : Layout} {m m' : Mem} {dirs : List ℕ} {o o' : ℕ → Owner} {dir : ℕ} {img : Image}

/-- The tables of the kernel half hold the same whenever the tables are in order. -/
lemma sameKernelHalf_of_tables (h : Tables L m dirs o) (h' : Tables L m' dirs o') :
    SameKernelHalf L dirs m m' := by
  intro d hd i hi hi'
  have hword : m.word d i = L.bootEntry i ∧ m'.word d i = L.bootEntry i := by
    rcases List.mem_cons.mp hd with rfl | hd
    · exact ⟨h.boot i hi', h'.boot i hi'⟩
    · exact ⟨h.half d hd i hi hi', h'.half d hd i hi hi'⟩
  refine ⟨hword.2.trans hword.1.symm, fun hp j hj => ?_⟩
  rw [hword.1] at hp ⊢
  rw [Layout.bootEntry] at hp ⊢
  split
  · have hframe : frame (L.kernelTable * pageSize ||| 3) = L.kernelTable := by
      rw [page_or _ (by decide), frame, pageSize]
      omega
    rw [hframe, h.windows j hj, h'.windows j hj]
  · next hne =>
    rw [if_neg hne] at hp
    split
    · have hframe : frame (L.bootTable * pageSize ||| 3) = L.bootTable := by
        rw [page_or _ (by decide), frame, pageSize]
        omega
      rw [hframe, h.low j hj, h'.low j hj]
    · next hne' =>
      rw [if_neg hne'] at hp
      exact absurd hp (by decide)

end

/-! ### Images -/

/-- The bytes of a 32-bit field. -/
def bytes32 (v : ℕ) : List UInt8 := (List.range 4).map fun i => UInt8.ofNat (v / 2 ^ (8 * i))

/-- The header of an executable with `phnum` program headers at the offset `phoff`. -/
def headerBytes (phoff phnum : ℕ) : List UInt8 :=
  bytes32 elfMagic ++ List.replicate 12 0 ++ bytes32 etExec ++ bytes32 1 ++ bytes32 0x400000 ++
    bytes32 phoff ++ List.replicate 8 0 ++ bytes32 (52 + 32 * 2 ^ 16) ++ bytes32 phnum ++
    List.replicate 4 0

/-- A program header. -/
def phdrBytes (offset vaddr filesz memsz : ℕ) : List UInt8 :=
  bytes32 ptLoad ++ bytes32 offset ++ bytes32 vaddr ++ bytes32 vaddr ++ bytes32 filesz ++
    bytes32 memsz ++ bytes32 7 ++ bytes32 pageSize

/-- A buffer with nothing but zeros behind it. -/
def Image.ofBytes (l : List UInt8) : Image :=
  ⟨fun o => l.getD o 0, l.length % 2 ^ 32, Nat.mod_lt _ (Nat.two_pow_pos 32)⟩

/-- A program with one byte of file data and one more byte of memory. -/
def sampleImage : Image :=
  Image.ofBytes (headerBytes 52 1 ++ phdrBytes 84 0x400000 1 2 ++ [7])

/-- A header whose program headers would be behind the buffer. -/
def shortImage : Image := Image.ofBytes (headerBytes 1000 1)

/-- A program with a segment at the beginning of the kernel half. -/
def highImage : Image := Image.ofBytes (headerBytes 52 1 ++ phdrBytes 84 0xC0000000 0 1)

lemma sampleImage_executable : sampleImage.Executable := by
  refine ⟨?_, ?_, ?_⟩ <;> decide +kernel

lemma sampleImage_contained : sampleImage.Contained := by
  refine ⟨?_, ?_, show ∀ ph ∈ _, _ from ?_⟩ <;> decide +kernel

section

variable {L : Layout} {m m₁ : Mem} {dirs : List ℕ} {o : ℕ → Owner} {dir f : ℕ} {α : Type}

lemma kernelOps_read_bind (x n : ℕ) (g : Unit → Fallible Loader α) (l : Loader) :
    ((kernelOps L dir).read x n >>= g) l = g () ⟨l.mem, (x, n) :: l.reads⟩ :=
  bind_of_some rfl

lemma shortImage_phdr : shortImage.u16 44 = 1 ∧ shortImage.phdr 0 = ⟨1000, 0, 0, 0, 0, 0⟩ := by
  decide +kernel

/-- The type of the program header is read behind the buffer. -/
lemma reads_shortImage (L : Layout) (dir : ℕ) (m : Mem) :
    (1000, 4) ∈ (elfLoad (kernelOps L dir) shortImage ⟨m, []⟩).2.reads := by
  obtain ⟨hnum, hph⟩ := shortImage_phdr
  have hsegment : ∀ l, loadSegment (kernelOps L dir) shortImage 0 0 l =
      (some 0, ⟨l.mem, (1000, 4) :: (42, 2) :: (28, 4) :: l.reads⟩) := by
    intro l
    rw [loadSegment, kernelOps_read_bind, kernelOps_read_bind, hph]
    exact kernelOps_read_bind _ _ _ _
  have hloop : ∀ l, (List.range 1).foldlM (loadSegment (kernelOps L dir) shortImage) 0 l =
      (some 0, ⟨l.mem, (1000, 4) :: (42, 2) :: (28, 4) :: l.reads⟩) := fun l =>
    bind_of_some (hsegment l)
  rw [elfLoad, if_neg (by decide +kernel), kernelOps_read_bind, if_pos (by decide +kernel),
    kernelOps_read_bind, if_pos (by decide +kernel), kernelOps_read_bind, hnum,
    bind_of_some (hloop _), kernelOps_read_bind]
  simp

lemma highImage_phdr : highImage.phdr 0 = ⟨52, ptLoad, 84, 0xC0000000, 0, 1⟩ := by
  decide +kernel

/-- A page that is mapped at the beginning of the kernel half is seen in all address spaces. -/
lemma fillPage_high (h : Tables L m dirs o) (hd : dir ∈ dirs) (b : Buf)
    (ha : allocPage m = (some (f * pageSize), m₁)) (hram : m₁.ram = m.ram)
    (hf : f ∉ kernelPages) (hlt : f < maxPages) :
    ∃ m', fillPage L elfScratchVirt dir 0xC0000000 b m = (some (), m') ∧
      m'.word L.bootTable 0 = entryWord (f * pageSize) userFlags := by
  have hdiv : f * pageSize / pageSize = f := Nat.mul_div_cancel _ (by decide)
  have hword : ∀ g k, m₁.word g k = m.word g k := fun g k => by rw [Mem.word, Mem.word, hram]
  have hhalf : m₁.Refers dir 768 L.bootTable := by
    have hboot : m₁.word dir 768 = L.bootTable * pageSize ||| 3 := by
      rw [hword, h.half dir hd 768 le_rfl (by decide), Layout.bootEntry, if_neg (by decide),
        if_pos (.inr rfl)]
    exact refers_of_word hboot (by decide) rfl
  obtain ⟨m₂, heq, hrefers, -, -, -⟩ := installEntry_eq m₁ dir 0xC0000000 (f * pageSize) userFlags
  have hframe : frame (m₁.word dir (dirIndex 0xC0000000)) = L.bootTable := hhalf.2
  rw [hframe] at heq
  have hmap : pagingMapPageIn dir 0xC0000000 (f * pageSize) userFlags m₁ =
      (some (), m₂.setWord L.bootTable (tableIndex 0xC0000000)
        (entryWord (f * pageSize) userFlags)) := by
    rw [← heq]
    exact pagingMapPageIn_of_present hhalf.1
  generalize hm₃ : m₂.setWord L.bootTable (tableIndex 0xC0000000)
    (entryWord (f * pageSize) userFlags) = m₃ at hmap
  have hnew : mapNewPage dir 0xC0000000 userFlags m = (some (f * pageSize), m₃) := by
    rw [mapNewPage, bind_of_some ha, bind_of_some (attempt_of_eq hmap)]
    exact pure_apply _ _
  have hboot : m₃.Refers L.bootDir 769 L.kernelTable := by
    rw [← hm₃, Mem.Refers, Mem.word_setWord_ne L.bootDir_ne, ← Mem.Refers, hrefers, Mem.Refers,
      hword]
    exact h.boot_refers
  have hne : L.bootTable ≠ L.kernelTable := L.inPool_kernelTable.ne_bootTable.symm
  have hfb : L.bootTable ≠ f := fun e => hf (e ▸ L.bootTable_mem)
  refine ⟨_, (bind_of_some hnew).trans (modify_apply _ _), ?_⟩
  rw [throughWindow_apply hboot (by decide) (page_lt hlt) (by rw [hdiv]; rintro rfl; exact hf L.bootDir_mem),
    hdiv, Mem.word_setWord_ne hne, Mem.word_setPage_ne hfb, Mem.word_setWord_ne hne, ← hm₃]
  exact Mem.word_setWord_self (entryWord_lt (page_lt hlt) (by decide))

/-- The memory after the load. -/
lemma elfLoad_highImage {m' : Mem} (hfill : fillPage L elfScratchVirt dir 0xC0000000
      ((highImage.phdr 0).pageBytes highImage 0) m = (some (), m')) :
    (elfLoad (kernelOps L dir) highImage ⟨m, []⟩).2.mem = m' := by
  have hx : highImage.Executable := by
    refine ⟨?_, ?_, ?_⟩ <;> decide +kernel
  have hsegments : highImage.segments = [highImage.phdr 0] := by decide +kernel
  have hpages : highImage.pages = [(0xC0000000, (highImage.phdr 0).pageBytes highImage 0)] := by
    rw [Image.pages, hsegments, highImage_phdr]
    rfl
  have hrun : elfLoad (memOps L dir) highImage m =
      (some (highImage.u32 24, highImage.heapStart), m') := by
    rw [elfLoad_loop (fun _ _ => rfl) hx, hpages]
    exact bind_of_some (bind_of_some hfill)
  have href : Refines (fun l m => Loader.mem l = m) (elfLoad (kernelOps L dir) highImage)
      (elfLoad (memOps L dir) highImage) :=
    refines_elfLoad_of_ops (fun _ _ _ _ h => ⟨rfl, h⟩) fun _ _ _ _ _ _ b l m h => by
      rw [← h]
      exact ⟨rfl, rfl⟩
  rw [(href ⟨m, []⟩ m rfl).2, hrun]

end

end GordOS.Kernel
