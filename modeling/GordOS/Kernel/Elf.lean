/-
The program loader (`kernel/elf.c`).

The loader takes the sizes and addresses of an image as they are. What it reads is told from
what it does with the memory: the operations that it is made of are given to it.

* `Image`: the bytes at `elf_data`, inside the buffer and behind it;
* `LoaderOps`: how a page of the process is filled, and that bytes are read;
* `loadPage`, `loadSegment`, `elfLoad`: the code;
* `Phdr.copyRange_none`, `Phdr.copyRange_some`: the overlap of a page with the file portion;
* `Phdr.pageBytes_eq`: **the pages of a segment hold its file portion and zeros**.
-/
import Mathlib.Tactic
import GordOS.Memory.Copy

namespace GordOS.Kernel

open GordOS Fallible Memory
open GordOS.Fat32 (Buf)

/-! ### The code -/

/-- What the kernel finds at `elf_data`, by the offset from there, and `elf_size`. -/
structure Image where
  bytes : ℕ → UInt8
  size : ℕ
  size_lt : size < 2 ^ 32

namespace Image

variable (img : Image) (o : ℕ)

/-- The byte at an offset; addresses wrap around. -/
def byte : UInt8 := img.bytes (o % 2 ^ 32)

/-- A 16-bit field. -/
def u16 : ℕ := (img.byte o).toNat + (img.byte (o + 1)).toNat * 2 ^ 8

/-- A 32-bit field. -/
def u32 : ℕ :=
  (img.byte o).toNat + (img.byte (o + 1)).toNat * 2 ^ 8 + (img.byte (o + 2)).toNat * 2 ^ 16
    + (img.byte (o + 3)).toNat * 2 ^ 24

end Image

/-- `ELF_MAGIC`. -/
def elfMagic : ℕ := 0x464C457F

/-- `ET_EXEC`. -/
def etExec : ℕ := 2

/-- `PT_LOAD`. -/
def ptLoad : ℕ := 1

/-- `sizeof(elf_header_t)`. -/
def elfHeaderSize : ℕ := 52

/-- The fields of `elf_phdr_t` that the loader reads, and its offset in the image. -/
structure Phdr where
  pos : ℕ
  type : ℕ
  offset : ℕ
  vaddr : ℕ
  filesz : ℕ
  memsz : ℕ
deriving DecidableEq

/-- The program header at an offset. -/
def Image.phdrAt (img : Image) (o : ℕ) : Phdr :=
  ⟨o, img.u32 o, img.u32 (o + 4), img.u32 (o + 8), img.u32 (o + 16), img.u32 (o + 20)⟩

/-- Program header `i`: `elf_data + header->phoff + i * header->phentsize`. -/
def Image.phdr (img : Image) (i : ℕ) : Phdr := img.phdrAt (img.u32 28 + i * img.u16 42)

namespace Phdr

variable (ph : Phdr)

/-- `pages_needed`. -/
def pagesNeeded : ℕ := (ph.memsz + 0xFFF) % 2 ^ 32 / 0x1000

/-- The address that page `page` of the segment is mapped at. -/
def virt (page : ℕ) : ℕ := (ph.vaddr / 0x1000 * 0x1000 + page * 0x1000) % 2 ^ 32

/-- `file_start`. -/
def fileStart : ℕ := ph.vaddr % 0x1000

/-- `file_end`. -/
def fileEnd : ℕ := (ph.fileStart + ph.filesz) % 2 ^ 32

/-- `copy_start` and `copy_len`, if page `page` overlaps with the file portion. -/
def copyRange (page : ℕ) : Option (ℕ × ℕ) :=
  let pageStart := page * 0x1000 % 2 ^ 32
  let pageEnd := (pageStart + 0x1000) % 2 ^ 32
  if pageStart < ph.fileEnd ∧ ph.fileStart < pageEnd then
    let copyStart := if ph.fileStart < pageStart then pageStart else ph.fileStart
    let copyEnd := if pageEnd < ph.fileEnd then pageEnd else ph.fileEnd
    some (copyStart, (copyEnd + 2 ^ 32 - copyStart) % 2 ^ 32)
  else none

/-- The offset in the image of what is copied to `copyStart`. -/
def source (copyStart : ℕ) : ℕ := ph.offset + (copyStart - ph.fileStart)

/-- The bytes of page `page`: zeros, and the file data that is copied there. -/
def pageBytes (img : Image) (page : ℕ) : Buf := fun o =>
  match ph.copyRange page with
  | none => 0
  | some (copyStart, copyLen) =>
    let dst := copyStart - page * 0x1000 % 2 ^ 32
    if dst ≤ o ∧ o < dst + copyLen then img.byte (ph.source copyStart + (o - dst)) else 0

end Phdr

/-- What the loader is made of: a page of the process is mapped at an address and filled, and
bytes of the image are read, from an offset on. -/
structure LoaderOps (σ : Type) where
  page : ℕ → Buf → Fallible σ Unit
  read : ℕ → ℕ → Fallible σ Unit

section

variable {σ : Type} (ops : LoaderOps σ) (img : Image)

/-- One round of the inner loop of `elf_load`. -/
def loadPage (ph : Phdr) (page : ℕ) : Fallible σ Unit := do
  ops.page (ph.virt page) (ph.pageBytes img page)
  ops.read (ph.pos + 8) 4
  ops.read (ph.pos + 16) 4
  match ph.copyRange page with
  | some (copyStart, copyLen) => do
    ops.read (ph.pos + 4) 4
    ops.read (ph.source copyStart) copyLen
  | none => pure ()

/-- One round of the outer loop of `elf_load`, with `highest_end`. -/
def loadSegment (highest i : ℕ) : Fallible σ ℕ := do
  ops.read 28 4
  ops.read 42 2
  let ph := img.phdr i
  ops.read ph.pos 4
  if ph.type = ptLoad then do
    ops.read (ph.pos + 20) 4
    if ph.memsz = 0 then pure highest
    else do
      ops.read (ph.pos + 8) 4
      (List.range ph.pagesNeeded).forM (loadPage ops img ph)
      pure (max highest ((ph.vaddr + ph.memsz) % 2 ^ 32))
  else pure highest

/-- `elf_load`: the entry point and the start of the heap. -/
def elfLoad : Fallible σ (ℕ × ℕ) :=
  if img.size < elfHeaderSize then fail
  else do
    ops.read 0 4
    if img.u32 0 = elfMagic then do
      ops.read 16 2
      if img.u16 16 = etExec then do
        ops.read 44 2
        let highest ← (List.range (img.u16 44)).foldlM (loadSegment ops img) 0
        ops.read 24 4
        pure (img.u32 24, (highest + 0xFFF) % 2 ^ 32 / 0x1000 * 0x1000)
      else fail
    else fail

end

/-! ### The bytes of a page -/

namespace Phdr

variable {ph : Phdr} {img : Image} {page copyStart copyLen : ℕ}

/-- The sums of the loop do not wrap for a segment of the user half. -/
lemma page_lt (hend : ph.vaddr + ph.memsz ≤ 0xC0000000) (hp : page < ph.pagesNeeded) :
    page * 0x1000 + 0x1000 < 2 ^ 32 := by
  rw [pagesNeeded] at hp
  omega

lemma fileEnd_eq (hmem : ph.filesz ≤ ph.memsz) (hend : ph.vaddr + ph.memsz ≤ 0xC0000000) :
    ph.fileEnd = ph.fileStart + ph.filesz := by
  rw [fileEnd, fileStart]
  omega

/-- Outside a copy there are only zeros: the page does not overlap with the file portion. -/
lemma copyRange_none (hpage : page * 0x1000 + 0x1000 < 2 ^ 32)
    (hfile : ph.fileEnd = ph.fileStart + ph.filesz) (h : ph.copyRange page = none) :
    ph.fileStart + ph.filesz ≤ page * 0x1000 ∨ page * 0x1000 + 0x1000 ≤ ph.fileStart := by
  have hlow : page * 0x1000 < 2 ^ 32 := Nat.lt_of_add_right_lt hpage
  rw [copyRange, hfile, Nat.mod_eq_of_lt hlow, Nat.mod_eq_of_lt hpage] at h
  dsimp only at h
  split_ifs at h
  omega

/-- A copy goes from the later start to the earlier end, of the page and the file portion. -/
lemma copyRange_some (hpage : page * 0x1000 + 0x1000 < 2 ^ 32)
    (hfile : ph.fileEnd = ph.fileStart + ph.filesz)
    (h : ph.copyRange page = some (copyStart, copyLen)) :
    copyStart = max (page * 0x1000) ph.fileStart ∧
      copyStart + copyLen = min (page * 0x1000 + 0x1000) (ph.fileStart + ph.filesz) := by
  have hlow : page * 0x1000 < 2 ^ 32 := Nat.lt_of_add_right_lt hpage
  rw [copyRange, hfile, Nat.mod_eq_of_lt hlow, Nat.mod_eq_of_lt hpage] at h
  dsimp only at h
  split_ifs at h <;> obtain ⟨rfl, rfl⟩ := Prod.mk.inj (Option.some.inj h) <;> omega

/-- **The pages of a segment hold its file portion and zeros**, and the loader copies inside
the page and inside the image. -/
theorem pageBytes_eq (hfile : ph.offset + ph.filesz ≤ img.size) (hmem : ph.filesz ≤ ph.memsz)
    (hend : ph.vaddr + ph.memsz ≤ 0xC0000000) (hp : page < ph.pagesNeeded) :
    (∀ b < 0x1000, ph.pageBytes img page b =
      if ph.vaddr % 0x1000 ≤ 0x1000 * page + b ∧
          0x1000 * page + b - ph.vaddr % 0x1000 < ph.filesz then
        img.bytes (ph.offset + (0x1000 * page + b - ph.vaddr % 0x1000))
      else 0) ∧
    ∀ copyStart copyLen, ph.copyRange page = some (copyStart, copyLen) →
      (page * 0x1000 ≤ copyStart ∧ copyStart - page * 0x1000 + copyLen ≤ 0x1000) ∧
        ph.fileStart ≤ copyStart ∧ ph.source copyStart + copyLen ≤ img.size := by
  have hpage := page_lt hend hp
  have hstop := fileEnd_eq hmem hend
  have hsize := img.size_lt
  have hlow : page * 0x1000 < 2 ^ 32 := Nat.lt_of_add_right_lt hpage
  refine ⟨fun b hb => ?_, fun copyStart copyLen h => ?_⟩
  · rw [pageBytes]
    cases h : ph.copyRange page with
    | none =>
        have hout := copyRange_none hpage hstop h
        rw [fileStart] at hout
        rw [if_neg (by omega)]
    | some r =>
        obtain ⟨copyStart, copyLen⟩ := r
        obtain ⟨hstart, hlen⟩ := copyRange_some hpage hstop h
        rw [fileStart] at hstart hlen
        dsimp only
        rw [Nat.mod_eq_of_lt hlow, source, fileStart, Image.byte]
        -- the segment offset of the byte is in the file portion if the copy reaches it
        by_cases hin : ph.vaddr % 0x1000 ≤ 0x1000 * page + b ∧
            0x1000 * page + b - ph.vaddr % 0x1000 < ph.filesz
        · rw [if_pos hin, if_pos (by omega), Nat.mod_eq_of_lt (by omega)]
          congr 1
          omega
        · rw [if_neg hin, if_neg (by omega)]
  · obtain ⟨hstart, hlen⟩ := copyRange_some hpage hstop h
    rw [source]
    omega

/-- A segment with one byte of file data, in the middle of its first page. -/
theorem pageBytes_eq_byte : ∃ (ph : Phdr) (img : Image),
    (ph.vaddr = 0x400010 ∧ ph.filesz = 1 ∧ ph.memsz = 0x1001) ∧
    ((∀ b < 0x1000, ph.pageBytes img 0 b =
      if ph.vaddr % 0x1000 ≤ 0x1000 * 0 + b ∧
          0x1000 * 0 + b - ph.vaddr % 0x1000 < ph.filesz then
        img.bytes (ph.offset + (0x1000 * 0 + b - ph.vaddr % 0x1000))
      else 0) ∧
    ∀ copyStart copyLen, ph.copyRange 0 = some (copyStart, copyLen) →
      (0 * 0x1000 ≤ copyStart ∧ copyStart - 0 * 0x1000 + copyLen ≤ 0x1000) ∧
        ph.fileStart ≤ copyStart ∧ ph.source copyStart + copyLen ≤ img.size) :=
  ⟨⟨52, ptLoad, 84, 0x400010, 1, 0x1001⟩, ⟨fun _ => 7, 85, by decide⟩, ⟨rfl, rfl, rfl⟩,
    pageBytes_eq (by decide) (by decide) (by decide) (by decide)⟩

end Phdr

end GordOS.Kernel
