/-
Page tables (`memory/paging.c`, `boot/boot.s`).

Directories and tables are pages of physical memory, so that a table that is written as
data, or data that is read as a table, is what the model says it is. Tables and directories
come from one pool in the kernel image, whose free pages form a stack.

* `Mem`: the bitmap of used pages, the contents of the physical pages, and the stack of
  free tables;
* `Layout`: where the linker puts the boot directory, the boot table and the pool;
* `allocPageTable`, `freePageTable`, `pagingInit`, `pagingMapPage`, `pagingMapPageIn`,
  `pagingCreateAddressSpace`, `pagingClearUserSpace`, `pagingDestroyAddressSpace`,
  `pagingCopyAddressSpace`: the code;
* `Mem.word_setWord`, `Mem.word_setPage`: what a write leaves of the entries;
* `present_entryWord`, `frame_entryWord`: what an entry says.

The TLB is left out: a mapping holds as soon as it is written.
-/
import Mathlib.Tactic
import GordOS.Lib.Fallible
import GordOS.Fat32.Volume
import GordOS.Memory.Kmalloc

namespace GordOS.Memory

open GordOS Fallible
open GordOS.Fat32 (Buf read32 put32)

/-! ### Physical memory -/

/-- `USER_TABLE_POOL`. -/
def userTablePool : ℕ := 32

/-- The page numbers of `boot_page_directory`, `boot_page_table` and `user_page_tables`,
which the linker puts on different pages of the kernel image. -/
structure Layout where
  bootDir : ℕ
  bootTable : ℕ
  pool : ℕ
  bootDir_mem : bootDir ∈ kernelPages
  bootTable_mem : bootTable ∈ kernelPages
  pool_mem : ∀ k < userTablePool, pool + k ∈ kernelPages
  bootDir_ne : bootDir ≠ bootTable
  bootDir_pool : ∀ k < userTablePool, bootDir ≠ pool + k
  bootTable_pool : ∀ k < userTablePool, bootTable ≠ pool + k

/-- The test of `free_page_table`. -/
def Layout.InPool (L : Layout) (f : ℕ) : Prop := L.pool ≤ f ∧ f < L.pool + userTablePool

instance (L : Layout) (f : ℕ) : Decidable (L.InPool f) := inferInstanceAs (Decidable (_ ∧ _))

/-- The page allocator, the bytes of every physical page, and `table_free_list` with the
next table to be handed out in front. -/
structure Mem where
  pmm : Pmm
  ram : ℕ → Buf
  freeTables : List ℕ

namespace Mem

/-- Entry `i` of the table or directory on page `f`. -/
def word (m : Mem) (f i : ℕ) : ℕ := read32 (m.ram f) (4 * i)

/-- The bytes of a page replaced. -/
def setPage (m : Mem) (f : ℕ) (b : Buf) : Mem := { m with ram := Function.update m.ram f b }

/-- Entry `i` of the table or directory on page `f` replaced. -/
def setWord (m : Mem) (f i w : ℕ) : Mem := m.setPage f (put32 (m.ram f) (4 * i) w)

/-- The page allocator replaced. -/
def withPmm (m : Mem) (p : Pmm) : Mem := { m with pmm := p }

end Mem

/-- `PAGE_WRITEABLE`. -/
def pageWriteable : ℕ := 2

/-- `PAGE_USER`. -/
def pageUser : ℕ := 4

/-- `w & PAGE_PRESENT`. -/
def Present (w : ℕ) : Prop := w % 2 = 1

instance (w : ℕ) : Decidable (Present w) := inferInstanceAs (Decidable (_ = _))

/-- The page of `w & ~0xFFF`. -/
def frame (w : ℕ) : ℕ := w / pageSize

/-- `virt >> 22`. -/
def dirIndex (virt : ℕ) : ℕ := virt / 2 ^ 22

/-- `(virt >> 12) & 0x3FF`. -/
def tableIndex (virt : ℕ) : ℕ := virt / 2 ^ 12 % 1024

/-- `(phys & ~0xFFF) | flags | PAGE_PRESENT`. -/
def entryWord (phys flags : ℕ) : ℕ := phys / pageSize * pageSize ||| flags ||| 1

/-- The page that a mapped address of an address space lies on. -/
def Mem.frameAt (m : Mem) (dir virt : ℕ) : ℕ :=
  frame (m.word (frame (m.word dir (dirIndex virt))) (tableIndex virt))

/-- `ELF_SCRATCH_VIRT`. -/
def elfScratchVirt : ℕ := 0xC0400000

/-- `FORK_SCRATCH_VIRT`. -/
def forkScratchVirt : ℕ := 0xC0401000

/-- `STACK_SCRATCH_VIRT`. -/
def stackScratchVirt : ℕ := 0xC0402000

/-! ### The code -/

/-- `pmm_alloc_page`, with the error return for the address `0`. -/
def allocPage : Fallible Mem ℕ := fun m =>
  let r := pmmAllocPage m.pmm
  (if r.1 = 0 then none else some r.1, m.withPmm r.2)

/-- `pmm_free_page`. -/
def Mem.freePage (addr : ℕ) (m : Mem) : Mem := m.withPmm (pmmFreePage addr m.pmm)

/-- `alloc_page_table`. -/
def allocPageTable : Fallible Mem ℕ := fun m =>
  match m.freeTables with
  | [] => (none, m)
  | t :: ts => (some t, { m.setPage t fun _ => 0 with freeTables := ts })

/-- `free_page_table`. -/
def freePageTable (L : Layout) (t : ℕ) (m : Mem) : Mem :=
  if L.InPool t ∧ m.freeTables.length < userTablePool then
    { m with freeTables := t :: m.freeTables }
  else m

/-- The first part of `ensure_kernel_table`, `paging_map_page` and `paging_map_page_in`: a
directory entry that is not present gets a new table. -/
def ensureTable (dir i bits : ℕ) : Fallible Mem Unit := do
  if Present (← gets fun m => m.word dir i) then pure ()
  else do
    let t ← allocPageTable
    modify fun m => m.setWord dir i (t * pageSize ||| bits)

/-- `ensure_kernel_table`. -/
def ensureKernelTable (L : Layout) (virt : ℕ) : Fallible Mem Unit :=
  ensureTable L.bootDir (dirIndex virt) (1 ||| pageWriteable)

/-- `paging_init`. -/
def pagingInit (L : Layout) : Fallible Mem Unit := do
  modify fun m =>
    { m with freeTables := (List.range userTablePool).foldl (fun ts i => (L.pool + i) :: ts) [] }
  ignore (ensureKernelTable L elfScratchVirt)

/-- The second part of `paging_map_page` and `paging_map_page_in`. -/
def installEntry (dir virt phys flags : ℕ) (m : Mem) : Mem :=
  let m := if flags &&& pageUser = 0 then m
    else m.setWord dir (dirIndex virt) (m.word dir (dirIndex virt) ||| pageUser)
  m.setWord (frame (m.word dir (dirIndex virt))) (tableIndex virt) (entryWord phys flags)

/-- `paging_map_page_in`. -/
def pagingMapPageIn (dir virt phys flags : ℕ) : Fallible Mem Unit := do
  ensureTable dir (dirIndex virt) (1 ||| pageWriteable ||| pageUser)
  modify (installEntry dir virt phys flags)

/-- `paging_map_page`, which does the same in the boot directory. -/
def pagingMapPage (L : Layout) (virt phys flags : ℕ) (m : Mem) : Mem :=
  (pagingMapPageIn L.bootDir virt phys flags m).2

/-- `paging_unmap_page`. -/
def pagingUnmapPage (L : Layout) (virt : ℕ) (m : Mem) : Mem :=
  if Present (m.word L.bootDir (dirIndex virt)) then
    m.setWord (frame (m.word L.bootDir (dirIndex virt))) (tableIndex virt) 0
  else m

/-- The bytes of a page written through a window of the kernel half: `paging_map_page`, the
writes, and `paging_unmap_page`. -/
def throughWindow (L : Layout) (virt phys : ℕ) (b : Mem → Buf) (m : Mem) : Mem :=
  let m := pagingMapPage L virt phys (1 ||| pageWriteable) m
  pagingUnmapPage L virt (m.setPage (m.frameAt L.bootDir virt) (b m))

/-- `paging_create_address_space`. -/
def pagingCreateAddressSpace (L : Layout) : Fallible Mem ℕ := do
  let d ← allocPageTable
  modify fun m => m.setPage d fun o => if 4 * 768 ≤ o then m.ram L.bootDir o else 0
  pure d

/-- The way in which `elf_load`, `sys_sbrk` and the stack set-up get a page: `pmm_alloc_page`,
`paging_map_page_in`, and `pmm_free_page` if there is no table for it. -/
def mapNewPage (dir virt flags : ℕ) : Fallible Mem ℕ := do
  let phys ← allocPage
  match ← attempt (pagingMapPageIn dir virt phys flags) with
  | some _ => pure phys
  | none => do
    modify (Mem.freePage phys)
    fail

/-- One round of the inner loop of `paging_clear_user_space`. -/
def freeEntry (t : ℕ) (m : Mem) (j : ℕ) : Mem :=
  if Present (m.word t j) then m.freePage (frame (m.word t j) * pageSize) else m

/-- One round of the outer loop of `paging_clear_user_space`. -/
def clearEntry (L : Layout) (dir : ℕ) (m : Mem) (i : ℕ) : Mem :=
  if Present (m.word dir i) then
    let t := frame (m.word dir i)
    (freePageTable L t ((List.range 1024).foldl (freeEntry t) m)).setWord dir i 0
  else m

/-- `paging_clear_user_space`. -/
def pagingClearUserSpace (L : Layout) (dir : ℕ) (m : Mem) : Mem :=
  (List.range 768).foldl (clearEntry L dir) m

/-- `paging_destroy_address_space`. -/
def pagingDestroyAddressSpace (L : Layout) (dir : ℕ) (m : Mem) : Mem :=
  freePageTable L dir (pagingClearUserSpace L dir m)

/-- One round of the inner loop of `paging_copy_address_space`, on entry `j` of the table on
page `t`. The source page is read at its own address, in the address space `src`. -/
def copyEntry (L : Layout) (src dst t i j : ℕ) : Fallible Mem Unit := do
  let w ← gets fun m => m.word t j
  if Present w then do
    let vaddr := i * 2 ^ 22 + j * 2 ^ 12
    let phys ← allocPage
    modify (throughWindow L forkScratchVirt phys fun m => m.ram (m.frameAt src vaddr))
    match ← attempt (pagingMapPageIn dst vaddr phys (w % pageSize)) with
    | some _ => pure ()
    | none => do
      modify (Mem.freePage phys)
      fail
  else pure ()

/-- One round of the outer loop of `paging_copy_address_space`. -/
def copyTable (L : Layout) (src dst i : ℕ) : Fallible Mem Unit := do
  let w ← gets fun m => m.word src i
  if Present w then (List.range 1024).forM (copyEntry L src dst (frame w) i)
  else pure ()

/-- `paging_copy_address_space`. -/
def pagingCopyAddressSpace (L : Layout) (src dst : ℕ) : Fallible Mem Unit :=
  (List.range 768).forM (copyTable L src dst)

/-! ### Entries -/

section

variable {m : Mem} {f g i j w phys flags : ℕ} {b : Buf}

namespace Mem

lemma word_lt : m.word f i < 2 ^ 32 := Fat32.read32_lt _ _

lemma ram_setPage_ne (h : g ≠ f) : (m.setPage f b).ram g = m.ram g := Function.update_of_ne h _ _

lemma ram_setPage_self : (m.setPage f b).ram f = b := Function.update_self _ _ _

lemma word_setPage : (m.setPage f b).word g j = if g = f then read32 b (4 * j) else m.word g j := by
  rw [word, word]
  by_cases hg : g = f
  · rw [if_pos hg, hg, ram_setPage_self]
  · rw [if_neg hg, ram_setPage_ne hg]

lemma word_setPage_ne (h : g ≠ f) : (m.setPage f b).word g j = m.word g j := by
  rw [word_setPage, if_neg h]

lemma word_setWord (hw : w < 2 ^ 32) :
    (m.setWord f i w).word g j = if g = f ∧ j = i then w else m.word g j := by
  rw [setWord, word_setPage]
  by_cases hg : g = f
  · subst hg
    by_cases hj : j = i
    · rw [if_pos rfl, if_pos ⟨rfl, hj⟩, hj, Fat32.read32_put32 _ _ _ hw]
    · rw [if_pos rfl, if_neg fun h => hj h.2, Fat32.read32_put32_of_disjoint _ _ (by omega), word]
  · rw [if_neg hg, if_neg fun h => hg h.1]

lemma word_setWord_self (hw : w < 2 ^ 32) : (m.setWord f i w).word f i = w := by
  rw [word_setWord hw, if_pos ⟨rfl, rfl⟩]

lemma word_setWord_ne (h : g ≠ f) : (m.setWord f i w).word g j = m.word g j := word_setPage_ne h

-- not by definition for `simp`: the kernel would compare the two allocators first
lemma withPmm_withPmm (p q : Pmm) : (m.withPmm p).withPmm q = m.withPmm q := (rfl)

lemma pmm_setPage : (m.setPage f b).pmm = m.pmm := (rfl)

lemma pmm_withPmm (p : Pmm) : (m.withPmm p).pmm = p := (rfl)

lemma ram_withPmm (p : Pmm) : (m.withPmm p).ram = m.ram := (rfl)

lemma freeTables_withPmm (p : Pmm) : (m.withPmm p).freeTables = m.freeTables := (rfl)

lemma word_withPmm (p : Pmm) : (m.withPmm p).word f i = m.word f i := (rfl)

lemma ram_setWord_ne (h : g ≠ f) : (m.setWord f i w).ram g = m.ram g := ram_setPage_ne h

end Mem

/-- Low bits next to a page number. -/
lemma page_or (f : ℕ) (h : flags < pageSize) : f * pageSize ||| flags = f * pageSize + flags := by
  have := Nat.shiftLeft_add_eq_or_of_lt (show flags < 2 ^ 12 from h) f
  rw [Nat.shiftLeft_eq] at this
  exact this.symm

lemma present_or_one (w : ℕ) : Present (w ||| 1) := by
  rw [Present, Nat.or_mod_two_eq_one]
  exact Or.inr rfl

lemma present_entryWord : Present (entryWord phys flags) := present_or_one _

/-- The user bit changes neither the presence nor the page of an entry. -/
lemma frame_or_user (w : ℕ) : frame (w ||| pageUser) = frame w := by
  have h : (w ||| 4) >>> 12 = w >>> 12 ||| 4 >>> 12 := Nat.shiftRight_or_distrib
  rw [Nat.shiftRight_eq_div_pow, Nat.shiftRight_eq_div_pow] at h
  rw [frame, frame, pageUser]
  exact h.trans (Nat.or_zero _)

lemma present_or_user (w : ℕ) : Present (w ||| pageUser) ↔ Present w := by
  rw [Present, Present, Nat.or_mod_two_eq_one]
  exact or_iff_left (by decide)

lemma or_user_lt (h : w < 2 ^ 32) : w ||| pageUser < 2 ^ 32 := Nat.or_lt_two_pow h (by decide)

lemma entryWord_eq (h : flags < pageSize) :
    entryWord phys flags = phys / pageSize * pageSize + (flags ||| 1) := by
  rw [entryWord, Nat.or_assoc, page_or]
  exact Nat.or_lt_two_pow (n := 12) h (by decide)

lemma frame_entryWord (h : flags < pageSize) : frame (entryWord phys flags) = phys / pageSize := by
  have hlt : flags ||| 1 < pageSize := Nat.or_lt_two_pow (n := 12) h (by decide)
  rw [entryWord_eq h, frame, Nat.add_comm, Nat.add_mul_div_right _ _ (by decide),
    Nat.div_eq_of_lt hlt, Nat.zero_add]

lemma frame_newPage (f : ℕ) (hflags : flags < pageSize) :
    frame (entryWord (f * pageSize) flags) = f := by
  rw [frame_entryWord hflags, Nat.mul_div_cancel _ (by decide)]

/-- The low bits of the entry of a page. -/
lemma mod_newPage (f : ℕ) (hflags : flags < pageSize) :
    entryWord (f * pageSize) flags % pageSize = flags ||| 1 := by
  have hlt : flags ||| 1 < pageSize := Nat.or_lt_two_pow (n := 12) hflags (by decide)
  rw [entryWord_eq hflags, Nat.mul_div_cancel _ (by decide), Nat.mul_add_mod_self_right,
    Nat.mod_eq_of_lt hlt]

lemma entryWord_lt (hp : phys < 2 ^ 32) (hf : flags < 2 ^ 32) : entryWord phys flags < 2 ^ 32 :=
  Nat.or_lt_two_pow (Nat.or_lt_two_pow ((Nat.div_mul_le_self _ _).trans_lt hp) hf) (by decide)

lemma frame_lt (h : w < 2 ^ 32) : frame w < maxPages := by
  rw [frame, pageSize, maxPages]
  omega

end

end GordOS.Memory
