/-
The kernel heap (`memory/kmalloc.c`).

* `kmalloc`, `kfree`: the code, with the answer of `pmm_alloc_contiguous` given;
* `KmStep`: the calls, on pointers that were returned and not freed since;
* `Alloc.used`, `Release.used`: what the calls do to the blocks in use;
* `KmOk`, `KmOk.step`: the invariant of the heap;
* `kmalloc_of_run`: **the blocks tile the pages**, every pointer that was returned and not
  freed is the start of a block in use, and freeing one leaves the others in use.
-/
import Mathlib.Tactic
import GordOS.Memory.BlockHeap
import GordOS.Memory.Pmm

namespace GordOS.Memory

open Relation
open GordOS.Fat32 (Buf)

/-- `KERNEL_VIRTUAL_BASE`. -/
def kernelVirtualBase : ℕ := 0xC0000000

/-- `kmalloc`, where `pmm_alloc_contiguous` returns `phys`: the address of the data,
or `0`. -/
def kmalloc (phys : Option ℕ) (n : ℕ) (h : Heap) : ℕ × Heap :=
  allocBlock (fun _ => phys.map (· + kernelVirtualBase)) n h

/-- `kfree`. -/
def kfree (ptr : ℕ) (h : Heap) : Heap := releaseBlock ptr h

/-- What `pmm_alloc_contiguous` can return for a number of pages: nothing, or a run of
identity-mapped pages behind page `0`, none of which was returned before. -/
def PageRun (h : Heap) (pages : ℕ) (phys : Option ℕ) : Prop :=
  ∀ a, phys = some a → 0 < pages ∧ a % pageSize = 0 ∧ 0 < a ∧
    a + pages * pageSize ≤ identityMappedPages * pageSize ∧
    ∀ run ∈ h.runs, run.1 + run.2 * pageSize ≤ a + kernelVirtualBase ∨
      a + kernelVirtualBase + pages * pageSize ≤ run.1

/-- The heap, and the pointers that were returned and not freed since. -/
structure KmState where
  heap : Heap
  live : List ℕ

/-- The calls of the kernel heap. -/
inductive KmStep : KmState → KmState → Prop where
  | kmalloc {s : KmState} (n : ℕ) (phys : Option ℕ) (hn : n < 2 ^ 32)
      (hphys : PageRun s.heap (pagesNeeded (roundUp n)) phys) :
      KmStep s ⟨(Memory.kmalloc phys n s.heap).2,
        if (Memory.kmalloc phys n s.heap).1 = 0 then s.live
        else (Memory.kmalloc phys n s.heap).1 :: s.live⟩
  | kfree {s : KmState} (ptr : ℕ) (hptr : ptr ∈ s.live) :
      KmStep s ⟨Memory.kfree ptr s.heap, s.live.erase ptr⟩

section

variable {grow : ℕ → Option ℕ} {h : Heap} {bs bs' : List Block} {b c : Block} {size : ℕ}

/-- Blocks in use stay. -/
lemma Alloc.used (ha : Alloc grow bs size bs' b) (hc : c ∈ bs) (hused : c.free = false) :
    c ∈ bs' := by
  have hmid : ∀ {l r : List Block} (new : List Block) {d : Block}, bs = l ++ d :: r → d.free = true →
      c ∈ l ++ new ++ r := by
    rintro l r new d rfl hfree
    simp only [List.mem_append, List.mem_cons] at hc ⊢
    rcases hc with hc | rfl | hc
    · exact .inl (.inl hc)
    · rw [hused] at hfree
      cases hfree
    · exact .inr hc
  cases ha with
  | whole d hbs hfree _ => simpa using hmid [⟨d.addr, d.size, false⟩] hbs hfree
  | split d hbs hfree _ =>
    simpa using hmid [⟨d.addr, size, false⟩,
      ⟨d.addr + headerSize + size, d.size - size - headerSize, true⟩] hbs hfree
  | grown a ha => exact List.mem_append_left _ hc

/-- The block handed out is in use. -/
lemma Alloc.mem (ha : Alloc grow bs size bs' b) : b ∈ bs' ∧ b.free = false := by
  cases ha <;> simp

lemma addr_ne_of_apart (h : bs.Pairwise Block.Apart) (hb : b ∈ bs) (hc : c ∈ bs) (hne : b ≠ c) :
    b.addr ≠ c.addr := by
  intro heq
  have hsymm : Std.Symm Block.Apart := ⟨fun _ _ => Or.symm⟩
  have hap := h.forall hb hc hne
  have h₁ := b.lt_stop
  have h₂ := c.lt_stop
  rcases hap with h | h <;> omega

/-- It was not in use before. -/
lemma Alloc.addr_ne (ha : Alloc grow bs size bs' b) (hap : bs.Pairwise Block.Apart)
    (hap' : bs'.Pairwise Block.Apart) (hc : c ∈ bs) (hused : c.free = false) :
    c.addr ≠ b.addr := by
  have hold : ∀ {l r : List Block} {d : Block}, bs = l ++ d :: r → d.free = true →
      c.addr ≠ d.addr := by
    intro l r d hbs hfree
    refine addr_ne_of_apart hap hc (by simp [hbs]) ?_
    rintro rfl
    rw [hused] at hfree
    cases hfree
  cases ha with
  | whole d hbs hfree _ => exact hold (d := d) hbs hfree
  | split d hbs hfree _ => exact hold (d := d) hbs hfree
  | grown a ha =>
    have hsep := (List.pairwise_append.mp hap').2.2 c hc _ (List.mem_singleton_self _)
    intro heq
    have h₁ := c.lt_stop
    rcases hsep with h | h
    · dsimp only at h heq
      omega
    · have h₂ := Block.lt_stop ⟨a, pagesNeeded size * 4096 - headerSize, false⟩
      dsimp only at h h₂ heq
      omega

/-- The other blocks in use stay when one is given back. -/
lemma Release.used (hr : Release bs b bs') (hc : c ∈ bs) (hused : c.free = false) (hne : c ≠ b) :
    c ∈ bs' := by
  cases hr with
  | mark hbs =>
    subst hbs
    simp only [List.mem_append, List.mem_cons] at hc ⊢
    tauto
  | merge d hbs hfree _ =>
    subst hbs
    have hnd : c ≠ d := by
      rintro rfl
      rw [hused] at hfree
      cases hfree
    simp only [List.mem_append, List.mem_cons] at hc ⊢
    tauto

/-- Blocks start and end at multiples of four. -/
def Block.Aligned (b : Block) : Prop := b.addr % 4 = 0 ∧ b.size % 4 = 0

lemma roundUp_mod (n : ℕ) : roundUp n % 4 = 0 := Nat.mul_mod_left _ _

lemma Alloc.aligned {n : ℕ} (ha : Alloc grow bs (roundUp n) bs' b)
    (h : ∀ c ∈ bs, c.Aligned) (hgrow : ∀ a, grow (pagesNeeded (roundUp n)) = some a →
      0 < pagesNeeded (roundUp n) ∧ a % 4 = 0) : ∀ c ∈ bs', c.Aligned := by
  have hr := roundUp_mod n
  intro c hc
  cases ha with
  | whole d hbs _ _ =>
    subst hbs
    have hd := h d (by simp)
    simp only [List.mem_append, List.mem_cons] at hc
    rcases hc with hc | rfl | hc
    · exact h c (by simp [hc])
    · exact hd
    · exact h c (by simp [hc])
  | split d hbs _ hfit =>
    subst hbs
    have hd := h d (by simp)
    rw [headerSize] at hfit
    rw [Block.Aligned] at hd
    simp only [List.mem_append, List.mem_cons] at hc
    rcases hc with hc | rfl | rfl | hc
    · exact h c (by simp [hc])
    · exact ⟨hd.1, hr⟩
    · rw [Block.Aligned, headerSize]
      dsimp only
      omega
    · exact h c (by simp [hc])
  | grown a ha =>
    rcases List.mem_append.mp hc with hc | hc
    · exact h c hc
    · obtain rfl := List.mem_singleton.mp hc
      have hpos := (hgrow a ha).1
      refine ⟨(hgrow a ha).2, ?_⟩
      rw [headerSize]
      dsimp only
      omega

lemma Release.aligned (hr : Release bs b bs') (h : ∀ c ∈ bs, c.Aligned) : ∀ c ∈ bs', c.Aligned := by
  intro c hc
  cases hr with
  | mark hbs =>
    subst hbs
    have hb := h b (by simp)
    simp only [List.mem_append, List.mem_cons] at hc
    rcases hc with hc | rfl | hc
    · exact h c (by simp [hc])
    · exact hb
    · exact h c (by simp [hc])
  | merge d hbs _ _ =>
    subst hbs
    have hb := h b (by simp)
    have hd := h d (by simp)
    rw [Block.Aligned] at hb hd
    simp only [List.mem_append, List.mem_cons] at hc
    rcases hc with hc | rfl | hc
    · exact h c (by simp [hc])
    · rw [Block.Aligned, headerSize]
      dsimp only
      omega
    · exact h c (by simp [hc])

/-! ### Runs -/

/-- The heap is in order, its blocks start at multiples of four, and the pointers in the
hands of callers are those of different blocks in use. -/
structure KmOk (s : KmState) (bs : List Block) : Prop where
  heap : HeapOk s.heap bs
  aligned : ∀ b ∈ bs, b.Aligned
  live : s.live.Nodup
  used : ∀ ptr ∈ s.live, ∃ b ∈ bs, b.free = false ∧ ptr = b.addr + headerSize

lemma PageRun.fresh {phys : Option ℕ} {pages a : ℕ} (hp : PageRun h pages phys)
    (ha : phys.map (· + kernelVirtualBase) = some a) : Fresh h.runs a pages ∧ a % 4 = 0 := by
  obtain ⟨p, hphys, rfl⟩ := Option.map_eq_some_iff.mp ha
  obtain ⟨hpos, hmod, h0, hstop, hnew⟩ := hp p hphys
  rw [pageSize, identityMappedPages] at hstop
  rw [pageSize] at hmod hnew
  rw [kernelVirtualBase] at hnew ⊢
  exact ⟨⟨hpos, by omega, by omega, hnew⟩, by omega⟩

/-- A pointer that is given back. -/
lemma KmOk.free {s : KmState} (hs : KmOk s bs) (hb : b ∈ bs) (hptr : b.addr + headerSize ∈ s.live) :
    ∃ bs', Release bs b bs' ∧
      KmOk ⟨kfree (b.addr + headerSize) s.heap, s.live.erase (b.addr + headerSize)⟩ bs' := by
  obtain ⟨bs', hr, hok, -, -⟩ := releaseBlock_spec hs.heap hb
  refine ⟨bs', hr, hok, hr.aligned hs.aligned, hs.live.erase _, fun ptr hp => ?_⟩
  obtain ⟨c, hc, hused, rfl⟩ := hs.used ptr (List.mem_of_mem_erase hp)
  refine ⟨c, hr.used hc hused ?_, hused, rfl⟩
  rintro rfl
  exact hs.live.not_mem_erase hp

lemma KmOk.step {s s' : KmState} (hs : KmOk s bs) (hstep : KmStep s s') : ∃ bs', KmOk s' bs' := by
  cases hstep with
  | kmalloc n phys hn hphys =>
    have hfresh : ∀ a, phys.map (· + kernelVirtualBase) = some a →
        Fresh s.heap.runs a (pagesNeeded (roundUp n)) ∧ a % 4 = 0 := fun a ha =>
      hphys.fresh ha
    rcases allocBlock_spec (fun _ => phys.map (· + kernelVirtualBase)) hs.heap
      (fun a ha => (hfresh a ha).1) with heq | ⟨bs', b, halloc, hret, hok, -⟩
    · have heq' : kmalloc phys n s.heap = (0, s.heap) := heq
      rw [heq', if_pos rfl]
      exact ⟨bs, hs⟩
    · have hret' : (kmalloc phys n s.heap).1 = b.addr + headerSize := hret
      have hok' : HeapOk (kmalloc phys n s.heap).2 bs' := hok
      rw [hret', if_neg (by rw [headerSize]; omega)]
      refine ⟨bs', hok', ?_, List.nodup_cons.mpr ⟨fun hin => ?_, hs.live⟩, ?_⟩
      · exact halloc.aligned hs.aligned fun a ha => ⟨(hfresh a ha).1.pos, (hfresh a ha).2⟩
      · obtain ⟨c, hc, hused, heq⟩ := hs.used _ hin
        exact halloc.addr_ne hs.heap.apart hok'.apart hc hused (by omega)
      · intro ptr hp
        rcases List.mem_cons.mp hp with rfl | hp
        · exact ⟨b, halloc.mem.1, halloc.mem.2, rfl⟩
        · obtain ⟨c, hc, hused, rfl⟩ := hs.used ptr hp
          exact ⟨c, halloc.used hc hused, hused, rfl⟩
  | kfree ptr hptr =>
    obtain ⟨b, hb, -, rfl⟩ := hs.used ptr hptr
    obtain ⟨bs', -, hok⟩ := hs.free hb hptr
    exact ⟨bs', hok⟩

/-- The heap after `kmalloc_init`. -/
def kmInit (mem : Buf) : KmState := ⟨⟨mem, 0, []⟩, []⟩

lemma kmOk_init (mem : Buf) : KmOk (kmInit mem) [] where
  heap := ⟨rfl, .nil, (fun _ hb => by cases hb), fun x => by simp [kmInit]⟩
  aligned := fun _ hb => by cases hb
  live := List.nodup_nil
  used := fun _ hp => by cases hp

lemma kmOk_of_run {mem : Buf} {s : KmState} (hrun : ReflTransGen KmStep (kmInit mem) s) :
    ∃ bs, KmOk s bs := by
  induction hrun with
  | refl => exact ⟨[], kmOk_init mem⟩
  | tail _ hstep ih =>
    obtain ⟨bs, hs⟩ := ih
    exact hs.step hstep

/-- **The kernel heap tiles its pages**: after every sequence of calls, the blocks of the
chain do not overlap and fill the page runs obtained. The pointers that were returned and
not freed are the aligned data starts of different blocks in use, and freeing one of them
leaves the other blocks in use as they are. -/
theorem kmalloc_of_run {mem : Buf} {s : KmState}
    (hrun : ReflTransGen KmStep (kmInit mem) s) :
    ∃ bs, Seg s.heap.mem bs s.heap.head 0 ∧ bs.Pairwise Block.Apart ∧
      (∀ x, InBlocks bs x ↔ ∃ run ∈ s.heap.runs, InRun run x) ∧ s.live.Nodup ∧
      (∀ ptr ∈ s.live, ptr % 4 = 0 ∧ ∃ b ∈ bs, b.free = false ∧ ptr = b.addr + headerSize) ∧
      ∀ ptr ∈ s.live, ∃ bs', Seg (kfree ptr s.heap).mem bs' (kfree ptr s.heap).head 0 ∧
        ∀ c ∈ bs, c.free = false → c.addr + headerSize ≠ ptr → c ∈ bs' := by
  obtain ⟨bs, hs⟩ := kmOk_of_run hrun
  refine ⟨bs, hs.heap.linked, hs.heap.apart, hs.heap.tiles, hs.live, fun ptr hp => ?_,
    fun ptr hp => ?_⟩
  · obtain ⟨b, hb, hused, rfl⟩ := hs.used ptr hp
    have hmod := (hs.aligned b hb).1
    exact ⟨by rw [headerSize]; omega, b, hb, hused, rfl⟩
  · obtain ⟨b, hb, -, rfl⟩ := hs.used ptr hp
    obtain ⟨bs', hr, hok⟩ := hs.free hb hp
    refine ⟨bs', hok.heap.linked, fun c hc hused hne => hr.used hc hused ?_⟩
    rintro rfl
    exact hne rfl

end

/-- A block is freed and its front is handed out again. -/
theorem kmalloc_of_run_front :
    ∃ s : KmState, s.live = [0xC000100C] ∧ s.heap.runs = [(0xC0001000, 1)] ∧
      ∃ bs, Seg s.heap.mem bs s.heap.head 0 ∧ bs.Pairwise Block.Apart ∧
        (∀ x, InBlocks bs x ↔ ∃ run ∈ s.heap.runs, InRun run x) ∧ s.live.Nodup ∧
        (∀ ptr ∈ s.live, ptr % 4 = 0 ∧
          ∃ b ∈ bs, b.free = false ∧ ptr = b.addr + headerSize) ∧
        ∀ ptr ∈ s.live, ∃ bs', Seg (kfree ptr s.heap).mem bs' (kfree ptr s.heap).head 0 ∧
          ∀ c ∈ bs, c.free = false → c.addr + headerSize ≠ ptr → c ∈ bs' := by
  have hphys : PageRun (kmInit fun _ => 0).heap (pagesNeeded (roundUp 10)) (some 0x1000) := by
    intro a ha
    obtain rfl := Option.some.inj ha
    exact ⟨by decide, by decide, by decide, by decide, fun _ hr => by cases hr⟩
  have hptr : (kmalloc (some 0x1000) 10 (kmInit fun _ => 0).heap).1 = 0xC000100C := by
    decide +kernel
  have h₁ := KmStep.kmalloc (s := kmInit fun _ => 0) 10 (some 0x1000) (by decide) hphys
  rw [hptr, if_neg (by decide)] at h₁
  have h₂ := KmStep.kfree (s := ⟨(kmalloc (some 0x1000) 10 (kmInit fun _ => 0).heap).2,
    [0xC000100C]⟩) 0xC000100C (List.mem_singleton_self _)
  rw [List.erase_cons_head] at h₂
  have h₃ := KmStep.kmalloc (s := ⟨kfree 0xC000100C
    (kmalloc (some 0x1000) 10 (kmInit fun _ => 0).heap).2, []⟩) 20 none (by decide)
    (fun _ ha => by cases ha)
  exact ⟨_, by decide +kernel, by decide +kernel,
    kmalloc_of_run (.tail (.tail (.tail .refl h₁) h₂) h₃)⟩

end GordOS.Memory
