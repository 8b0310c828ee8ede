/-
Runs of the heap of a user program (`user/stdlib.c`).

A program calls `malloc`, `calloc`, `realloc` and `free` and writes to the blocks it was
given; `sys_sbrk` hands out successive regions of whole pages, or fails.

* `UState`, `UStep`: the heap, the blocks in the hands of the program, and its steps;
* `UOk`, `UOk.step`: the invariant of a run;
* `malloc_of_run`: **the blocks of a program are its own**: they do not overlap, lie in
  memory obtained from `sys_sbrk`, and keep their bytes whatever is called; `calloc`
  returns zeros, `realloc` keeps the bytes, and a failing call changes nothing.
-/
import Mathlib.Tactic
import GordOS.User.Malloc

namespace GordOS.User

open Relation
open GordOS.Memory
open GordOS.Fat32 (Buf)

/-! ### Steps of a program -/

/-- The heap, and the blocks in the hands of the program: pointers with the sizes that
were asked for. -/
structure UState where
  heap : Heap
  live : List (ℕ × ℕ)

/-- The end of the memory obtained so far. -/
def breakOf (start : ℕ) (h : Heap) : ℕ := start + (h.runs.map fun run => run.2 * 4096).sum

/-- The answer of `sys_sbrk` to a request for pages: the old break, unless it fails or
the new break would come close to the stack. -/
def sbrk (start : ℕ) (h : Heap) (pages : ℕ) (ok : Bool) : Option ℕ :=
  if ok ∧ breakOf start h + pages * 4096 < 0xBFFFE000 then some (breakOf start h) else none

/-- The answer of `sys_sbrk` in a request for some bytes. -/
def brkFor (start : ℕ) (h : Heap) (n : ℕ) (ok : Bool) : Option ℕ :=
  sbrk start h (pagesNeeded (roundUp n)) ok

/-- The program no longer has the block. -/
def dropPtr (live : List (ℕ × ℕ)) (ptr : ℕ) : List (ℕ × ℕ) := live.filter fun e => e.1 ≠ ptr

/-- The steps of a program, for requests below `2 ^ 30` bytes. -/
inductive UStep (start : ℕ) : UState → UState → Prop where
  | malloc {s : UState} {r : ℕ × Heap} (n : ℕ) (ok : Bool) (hn : n < 2 ^ 30)
      (hr : r = User.malloc (brkFor start s.heap n ok) n s.heap) :
      UStep start s ⟨r.2, if r.1 = 0 then s.live else (r.1, n) :: s.live⟩
  | calloc {s : UState} {r : ℕ × Heap} (nmemb size : ℕ) (ok : Bool)
      (hn : nmemb * size < 2 ^ 30)
      (hr : r = User.calloc (brkFor start s.heap (nmemb * size) ok) nmemb size s.heap) :
      UStep start s ⟨r.2, if r.1 = 0 then s.live else (r.1, nmemb * size) :: s.live⟩
  | realloc {s : UState} {r : ℕ × Heap} (ptr n : ℕ) (ok : Bool)
      (hp : ptr = 0 ∨ ∃ k, (ptr, k) ∈ s.live) (hn : n < 2 ^ 30)
      (hr : r = User.realloc (brkFor start s.heap n ok) ptr n s.heap) :
      UStep start s ⟨r.2, if n = 0 then dropPtr s.live ptr
        else if r.1 = 0 then s.live else (r.1, n) :: dropPtr s.live ptr⟩
  | free {s : UState} (ptr k : ℕ) (hp : (ptr, k) ∈ s.live) :
      UStep start s ⟨User.free ptr s.heap, dropPtr s.live ptr⟩
  | write {s : UState} (ptr k i : ℕ) (v : UInt8) (hp : (ptr, k) ∈ s.live) (hi : i < k) :
      UStep start s
        ⟨{ s.heap with mem := Function.update s.heap.mem (ptr + i) v }, s.live⟩

/-! ### The invariant -/

/-- The heap is in order, its pages lie between the start and the break, and the program
has different blocks in use, each as big as it asked for. -/
structure UOk (start : ℕ) (s : UState) (bs : List Block) : Prop where
  heap : HeapOk s.heap bs
  runs : ∀ run ∈ s.heap.runs,
    start ≤ run.1 ∧ run.1 + run.2 * 4096 ≤ breakOf start s.heap
  live : (s.live.map Prod.fst).Nodup
  used : ∀ e ∈ s.live, ∃ b ∈ bs, b.free = false ∧ e.1 = b.addr + headerSize ∧ e.2 ≤ b.size

section

variable {start : ℕ} {s s' : UState} {h : Heap} {bs : List Block} {b : Block} {n : ℕ}
variable {ok : Bool}

lemma pagesNeeded_pos (hn : n < 2 ^ 30) : 0 < pagesNeeded (roundUp n) := by
  rw [pagesNeeded, roundUp, u32, u32, headerSize]
  omega

/-- The region that `sys_sbrk` returns is new. -/
lemma UOk.fresh (hs : UOk start s bs) (hstart : 4096 ≤ start) (hn : n < 2 ^ 30) {a : ℕ}
    (ha : brkFor start s.heap n ok = some a) :
    Fresh s.heap.runs a (pagesNeeded (roundUp n)) ∧ a = breakOf start s.heap := by
  rw [brkFor, sbrk] at ha
  split at ha
  · next hok =>
    obtain rfl := Option.some.inj ha
    refine ⟨⟨pagesNeeded_pos hn, ?_, ?_, fun run hrun => .inl (hs.runs run hrun).2⟩, rfl⟩
    · exact hstart.trans (Nat.le_add_right _ _)
    · omega
  · cases ha

/-- The pages still lie between the start and the break. -/
lemma runs_within (ok : Bool) (hs : UOk start s bs) (hstart : 4096 ≤ start) (hn : n < 2 ^ 30)
    (hruns : h.runs = s.heap.runs ∨ ∃ a, brkFor start s.heap n ok = some a ∧
      h.runs = s.heap.runs ++ [(a, pagesNeeded (roundUp n))]) :
    ∀ run ∈ h.runs, start ≤ run.1 ∧ run.1 + run.2 * 4096 ≤ breakOf start h := by
  rcases hruns with he | ⟨a, ha, he⟩
  · rw [breakOf, he]
    exact hs.runs
  · obtain ⟨-, rfl⟩ := hs.fresh hstart hn ha
    have hbrk : breakOf start h = breakOf start s.heap + pagesNeeded (roundUp n) * 4096 := by
      rw [breakOf, he, List.map_append, List.sum_append, breakOf]
      simp [Nat.add_assoc]
    intro run hrun
    rw [he, List.mem_append, List.mem_singleton] at hrun
    rw [hbrk]
    rcases hrun with hrun | rfl
    · have := hs.runs run hrun
      omega
    · exact ⟨Nat.le_add_right _ _, le_rfl⟩

/-- The bytes of the blocks are as before. -/
def Untouched (live : List (ℕ × ℕ)) (m m' : Buf) : Prop :=
  ∀ e ∈ live, ∀ i < e.2, m' (e.1 + i) = m (e.1 + i)

lemma UOk.untouched (hs : UOk start s bs) {m' : Buf} (hk : KeepsData bs s.heap.mem m') :
    Untouched s.live s.heap.mem m' := by
  intro e he i hi
  obtain ⟨b, hb, hused, hptr, hsize⟩ := hs.used e he
  refine hk b hb hused _ ?_
  rw [Block.Holds, Block.stop, hptr]
  omega

/-- A new block in the hands of the program. -/
lemma UOk.alloc (ok : Bool) (hs : UOk start s bs) (hstart : 4096 ≤ start) (hn : n < 2 ^ 30) :
    malloc (brkFor start s.heap n ok) n s.heap = (0, s.heap) ∨
      ∃ bs' c, c ∈ bs' ∧ c.free = false ∧ n ≤ c.size ∧
        (malloc (brkFor start s.heap n ok) n s.heap).1 = c.addr + headerSize ∧
        (∀ d ∈ bs, d.free = false → d ∈ bs' ∧ d ≠ c) ∧
        KeepsData bs s.heap.mem (malloc (brkFor start s.heap n ok) n s.heap).2.mem ∧
        UOk start ⟨(malloc (brkFor start s.heap n ok) n s.heap).2,
          (c.addr + headerSize, n) :: s.live⟩ bs' := by
  have hruns := allocBlock_runs (fun _ => brkFor start s.heap n ok) n s.heap
  rcases allocBlock_spec (fun _ => brkFor start s.heap n ok) (n := n) hs.heap
    (fun a ha => (hs.fresh hstart hn ha).1) with heq | ⟨bs', c, ha, hret, hok, hkeep⟩
  · exact .inl heq
  · have hne : ∀ d ∈ bs, d.free = false → d.addr ≠ c.addr := fun d hd hdu =>
      ha.addr_ne hs.heap.apart hok.apart hd hdu
    have hsize : n ≤ c.size := (le_roundUp (by omega)).trans (ha.le_size (roundUp_le (by omega)))
    refine .inr ⟨bs', c, ha.mem.1, ha.mem.2, hsize, hret,
      fun d hd hdu => ⟨ha.used hd hdu, fun e => hne d hd hdu (e ▸ rfl)⟩, hkeep, hok,
      runs_within ok hs hstart hn hruns, ?_, ?_⟩
    · refine List.nodup_cons.mpr ⟨fun hin => ?_, hs.live⟩
      obtain ⟨e, he, hptr⟩ := List.mem_map.mp hin
      obtain ⟨d, hd, hdu, hd', -⟩ := hs.used e he
      exact hne d hd hdu (by dsimp only at hptr; omega)
    · intro e he
      rcases List.mem_cons.mp he with rfl | he
      · exact ⟨c, ha.mem.1, ha.mem.2, rfl, hsize⟩
      · obtain ⟨d, hd, hdu, hptr, hle⟩ := hs.used e he
        exact ⟨d, ha.used hd hdu, hdu, hptr, hle⟩

lemma mem_dropPtr {live : List (ℕ × ℕ)} {ptr : ℕ} {e : ℕ × ℕ} :
    e ∈ dropPtr live ptr ↔ e ∈ live ∧ e.1 ≠ ptr := by
  rw [dropPtr, List.mem_filter, decide_eq_true_eq]

lemma nodup_dropPtr {live : List (ℕ × ℕ)} (h : (live.map Prod.fst).Nodup) (ptr : ℕ) :
    ((dropPtr live ptr).map Prod.fst).Nodup :=
  h.sublist (List.filter_sublist.map _)

/-- A write to the data of a block. -/
lemma UOk.write (hs : UOk start s bs) (hb : b ∈ bs) {m' : Buf}
    (hm : ∀ x, ¬ b.Holds x → m' x = s.heap.mem x) :
    UOk start ⟨{ s.heap with mem := m' }, s.live⟩ bs :=
  ⟨hs.heap.write hb hm, hs.runs, hs.live, hs.used⟩

/-- A block that the program gives back. -/
lemma UOk.release (hs : UOk start s bs) {ptr k : ℕ} (hp : (ptr, k) ∈ s.live) :
    (∃ bs', UOk start ⟨free ptr s.heap, dropPtr s.live ptr⟩ bs') ∧
      Untouched s.live s.heap.mem (free ptr s.heap).mem := by
  obtain ⟨b, hb, -, hptr, -⟩ := hs.used _ hp
  dsimp only at hptr
  subst hptr
  obtain ⟨bs', hr, hok, hkeep, hruns⟩ := releaseBlock_spec hs.heap hb
  refine ⟨⟨bs', hok, ?_, nodup_dropPtr hs.live _, fun e he => ?_⟩, hs.untouched hkeep⟩
  · rw [breakOf]
    change (free _ s.heap).runs = _ at hruns
    rw [hruns]
    exact hs.runs
  · obtain ⟨he, hne⟩ := mem_dropPtr.mp he
    obtain ⟨d, hd, hdu, hptr, hle⟩ := hs.used e he
    refine ⟨d, hr.used hd hdu ?_, hdu, hptr, hle⟩
    rintro rfl
    exact hne hptr

/-- `calloc` is `malloc` and `memset`; for such requests the product does not wrap. -/
lemma calloc_eq (brk : Option ℕ) {nmemb size : ℕ} (hn : nmemb * size < 2 ^ 30) (h : Heap) :
    calloc brk nmemb size h = (0, h) ∨ calloc brk nmemb size h =
      if (malloc brk (nmemb * size) h).1 = 0 then (0, (malloc brk (nmemb * size) h).2)
      else ((malloc brk (nmemb * size) h).1, { (malloc brk (nmemb * size) h).2 with
        mem := memzero (malloc brk (nmemb * size) h).2.mem
          (malloc brk (nmemb * size) h).1 (nmemb * size) }) := by
  rw [calloc]
  split
  · exact .inl rfl
  · next h0 =>
    have htotal : u32 (nmemb * size) = nmemb * size := u32_of_lt (by omega)
    have hdiv : nmemb * size / nmemb = size :=
      Nat.mul_div_cancel_left size (Nat.pos_of_ne_zero fun e => h0 (.inl e))
    rw [htotal]
    dsimp only
    rw [hdiv, if_neg (not_not.mpr rfl)]
    exact .inr rfl

/-- A block of zeros in the hands of the program. -/
lemma UOk.calloc (hs : UOk start s bs) (hstart : 4096 ≤ start) {nmemb size : ℕ}
    (hn : nmemb * size < 2 ^ 30) {r : ℕ × Heap}
    (hr : r = User.calloc (brkFor start s.heap (nmemb * size) ok) nmemb size s.heap) :
    r = (0, s.heap) ∨ r.1 ≠ 0 ∧ Untouched s.live s.heap.mem r.2.mem ∧
      (∀ i < nmemb * size, r.2.mem (r.1 + i) = 0) ∧
      ∃ bs', UOk start ⟨r.2, (r.1, nmemb * size) :: s.live⟩ bs' := by
  rcases calloc_eq (brkFor start s.heap (nmemb * size) ok) hn s.heap with heq | heq
  · exact .inl (hr.trans heq)
  rw [heq] at hr
  rcases hs.alloc ok hstart hn with hm | ⟨bs', c, hc, hcu, hsize, hret, hold, hkeep, hok⟩
  · rw [hm, if_pos rfl] at hr
    exact .inl hr
  · have h0 : c.addr + headerSize ≠ 0 := by rw [headerSize]; omega
    rw [hret, if_neg h0] at hr
    generalize malloc (brkFor start s.heap (nmemb * size) ok) (nmemb * size) s.heap = r₁ at *
    subst hr
    have hin : ∀ x, ¬ c.Holds x →
        memzero r₁.2.mem (c.addr + headerSize) (nmemb * size) x = r₁.2.mem x := by
      intro x hx
      rw [Block.Holds, Block.stop] at hx
      exact if_neg (by omega)
    have hok' := hok.write hc hin
    refine .inr ⟨h0, fun e he i hi => ?_, fun i hi => if_pos (by dsimp only; omega), bs', hok'⟩
    obtain ⟨d, hd, hdu, hptr, hle⟩ := hs.used e he
    have hdx : d.Holds (e.1 + i) := by
      rw [Block.Holds, Block.stop, hptr]
      omega
    obtain ⟨hd', hdc⟩ := hold d hd hdu
    exact (hin _ (hok.heap.holds_ne hc hd' hdc hdx)).trans (hkeep d hd hdu _ hdx)

/-- A block that changes its size, in place or by a move. -/
lemma UOk.realloc (hs : UOk start s bs) (hstart : 4096 ≤ start) {ptr k : ℕ}
    (hp : (ptr, k) ∈ s.live) (hn0 : n ≠ 0) (hn : n < 2 ^ 30) {r : ℕ × Heap}
    (hr : r = User.realloc (brkFor start s.heap n ok) ptr n s.heap) :
    r = (0, s.heap) ∨ r.1 ≠ 0 ∧ Untouched (dropPtr s.live ptr) s.heap.mem r.2.mem ∧
      (∀ i < min k n, r.2.mem (r.1 + i) = s.heap.mem (ptr + i)) ∧
      ∃ bs', UOk start ⟨r.2, (r.1, n) :: dropPtr s.live ptr⟩ bs' := by
  obtain ⟨b, hb, hused, hptr, hk⟩ := hs.used _ hp
  dsimp only at hptr hk
  have hround : n ≤ roundUp n := le_roundUp (by omega)
  have hspec := realloc_spec (brkFor start s.heap n ok) hs.heap hb hused hn0 (by omega)
    (fun a ha => (hs.fresh hstart hn ha).1)
  rw [← hptr, ← hr] at hspec
  clear hr
  have hnotin : ptr ∉ (dropPtr s.live ptr).map Prod.fst := fun hin => by
    obtain ⟨e, he, heq⟩ := List.mem_map.mp hin
    exact (mem_dropPtr.mp he).2 heq
  have hother : ∀ e ∈ dropPtr s.live ptr, ∃ d ∈ bs, d.free = false ∧ d ≠ b ∧
      e.1 = d.addr + headerSize ∧ e.2 ≤ d.size := by
    intro e he
    obtain ⟨he, hne⟩ := mem_dropPtr.mp he
    obtain ⟨d, hd, hdu, hdptr, hle⟩ := hs.used e he
    refine ⟨d, hd, hdu, ?_, hdptr, hle⟩
    rintro rfl
    exact hne (hdptr.trans hptr.symm)
  cases hspec with
  | same hfit =>
    rw [hptr]
    refine .inr ⟨by rw [headerSize]; dsimp only; omega, fun _ _ _ _ => rfl,
      fun _ _ => rfl, bs, hs.heap, hs.runs, ?_, fun e he => ?_⟩
    · rw [← hptr]
      exact List.nodup_cons.mpr ⟨hnotin, nodup_dropPtr hs.live _⟩
    · rw [← hptr] at he
      rcases List.mem_cons.mp he with rfl | he
      · exact ⟨b, hb, hused, hptr, hround.trans hfit⟩
      · obtain ⟨d, hd, hdu, -, hrest⟩ := hother e he
        exact ⟨d, hd, hdu, hrest⟩
  | failed => exact .inl rfl
  | @moved h' bs₁ bs₂ c ha hrel hok hbs hnew hruns hkeep hcopy =>
    have hc : c ∈ bs₂ := hrel.used ha.mem.1 ha.mem.2 (hnew b hb hused).symm
    have hcsize := ha.le_size (roundUp_le (by omega))
    refine .inr ⟨by rw [headerSize]; dsimp only; omega, fun e he i hi => ?_,
      fun i hi => ?_, bs₂, hok, ?_, ?_, fun e he => ?_⟩
    · obtain ⟨d, hd, hdu, hdb, hdptr, hle⟩ := hother e he
      refine hkeep d hd hdu hdb _ ?_
      rw [Block.Holds, Block.stop, hdptr]
      omega
    · rw [hptr]
      exact hcopy i (by omega)
    · refine runs_within ok hs hstart hn ?_
      have h₁ := allocBlock_runs (fun _ => brkFor start s.heap n ok) (roundUp n) s.heap
      rw [roundUp_roundUp] at h₁
      rw [hruns]
      exact h₁
    · refine List.nodup_cons.mpr ⟨fun hin => ?_, nodup_dropPtr hs.live _⟩
      obtain ⟨e, he, heq⟩ := List.mem_map.mp hin
      obtain ⟨d, hd, hdu, hdb, hdptr, -⟩ := hother e he
      have hd₂ := hrel.used (ha.used hd hdu) hdu hdb
      have hne := addr_ne_of_apart hok.apart hd₂ hc (hnew d hd hdu)
      dsimp only at heq
      omega
    · rcases List.mem_cons.mp he with rfl | he
      · exact ⟨c, hc, ha.mem.2, rfl, hround.trans hcsize⟩
      · obtain ⟨d, hd, hdu, hdb, hrest⟩ := hother e he
        exact ⟨d, hrel.used (ha.used hd hdu) hdu hdb, hdu, hrest⟩

/-! ### Runs -/

lemma UOk.ptr_ne_zero (hs : UOk start s bs) {e : ℕ × ℕ} (he : e ∈ s.live) : e.1 ≠ 0 := by
  obtain ⟨b, -, -, hptr, -⟩ := hs.used e he
  rw [hptr, headerSize]
  omega

/-- After a request, by `malloc` or `realloc` of a null pointer. -/
lemma UOk.malloc (hs : UOk start s bs) (hstart : 4096 ≤ start) (hn : n < 2 ^ 30)
    {r : ℕ × Heap} (hr : r = User.malloc (brkFor start s.heap n ok) n s.heap) :
    r = (0, s.heap) ∨ r.1 ≠ 0 ∧ Untouched s.live s.heap.mem r.2.mem ∧
      ∃ bs', UOk start ⟨r.2, (r.1, n) :: s.live⟩ bs' := by
  subst hr
  rcases hs.alloc ok hstart hn with heq | ⟨bs', c, -, -, -, hret, -, hkeep, hok⟩
  · exact .inl heq
  · refine .inr ⟨by rw [hret, headerSize]; omega, hs.untouched hkeep, bs', ?_⟩
    rw [hret]
    exact hok

lemma UOk.step (hs : UOk start s bs) (hstart : 4096 ≤ start) (hstep : UStep start s s') :
    ∃ bs', UOk start s' bs' := by
  cases hstep with
  | malloc n ok hn hr =>
    rcases hs.malloc hstart hn hr with rfl | ⟨h0, -, hok⟩
    · exact ⟨bs, hs⟩
    · rwa [if_neg h0]
  | calloc nmemb size ok hn hr =>
    rcases hs.calloc hstart hn hr with rfl | ⟨h0, -, -, hok⟩
    · exact ⟨bs, hs⟩
    · rwa [if_neg h0]
  | realloc ptr n ok hp hn hr =>
    rcases hp with rfl | ⟨k, hp⟩
    · have hdrop : dropPtr s.live 0 = s.live :=
        List.filter_eq_self.mpr fun e he => decide_eq_true (hs.ptr_ne_zero he)
      rw [hdrop]
      rcases hs.malloc hstart hn hr with rfl | ⟨h0, -, hok⟩
      · rw [if_pos rfl, ite_self]
        exact ⟨bs, hs⟩
      · have hn0 : n ≠ 0 := by
          rintro rfl
          exact h0 (congrArg Prod.fst hr)
        rwa [if_neg hn0, if_neg h0]
    · by_cases hn0 : n = 0
      · subst hn0
        rw [if_pos rfl]
        have hfree : User.realloc (brkFor start s.heap 0 ok) ptr 0 s.heap =
            (0, User.free ptr s.heap) := by
          rw [User.realloc, if_neg (hs.ptr_ne_zero hp), if_pos rfl]
        rw [hr, hfree]
        exact (hs.release hp).1
      · rw [if_neg hn0]
        rcases hs.realloc hstart hp hn0 hn hr with rfl | ⟨h0, -, -, hok⟩
        · exact ⟨bs, hs⟩
        · rwa [if_neg h0]
  | free ptr k hp => exact (hs.release hp).1
  | write ptr k i v hp hi =>
    obtain ⟨b, hb, -, hptr, hk⟩ := hs.used _ hp
    dsimp only at hptr hk
    refine ⟨bs, hs.write hb fun x hx => Function.update_of_ne ?_ _ _⟩
    rintro rfl
    rw [Block.Holds, Block.stop, hptr] at hx
    omega

/-- The program has no block yet. -/
def uInit (mem : Buf) : UState := ⟨⟨mem, 0, []⟩, []⟩

lemma uOk_of_run {mem : Buf} (hstart : 4096 ≤ start)
    (hrun : ReflTransGen (UStep start) (uInit mem) s) : ∃ bs, UOk start s bs := by
  induction hrun with
  | refl =>
    refine ⟨[], ⟨rfl, .nil, (fun _ hb => by cases hb), fun x => by simp [uInit]⟩,
      (fun _ hr => by cases hr), List.nodup_nil, fun _ he => by cases he⟩
  | tail _ hstep ih =>
    obtain ⟨bs, hs⟩ := ih
    exact hs.step hstart hstep

/-- The blocks in the hands of the program do not overlap. -/
lemma UOk.disjoint (hs : UOk start s bs) :
    s.live.Pairwise fun e f => e.1 + e.2 ≤ f.1 ∨ f.1 + f.2 ≤ e.1 := by
  refine (List.pairwise_map.mp hs.live).imp_of_mem fun {e f} he hf hne => ?_
  obtain ⟨b, hb, -, hbptr, hbsize⟩ := hs.used e he
  obtain ⟨c, hc, -, hcptr, hcsize⟩ := hs.used f hf
  have hbc : b ≠ c := by
    rintro rfl
    exact hne (hbptr.trans hcptr.symm)
  have hsymm : Std.Symm Block.Apart := ⟨fun _ _ => Or.symm⟩
  have hap := hs.heap.apart.forall hb hc hbc
  rw [Block.Apart, Block.stop, Block.stop] at hap
  omega

/-- **The blocks of a program are its own.** After every sequence of calls and writes, the
blocks do not overlap and lie in memory obtained from `sys_sbrk`. Every further call
leaves the bytes of the other blocks alone; `calloc` returns zeros, `realloc` keeps the
bytes up to the smaller of the two sizes, and a call that fails changes nothing. -/
theorem malloc_of_run {mem : Buf} (hstart : 4096 ≤ start)
    (hrun : ReflTransGen (UStep start) (uInit mem) s) :
    s.live.Pairwise (fun e f => e.1 + e.2 ≤ f.1 ∨ f.1 + f.2 ≤ e.1) ∧
    (∀ e ∈ s.live, ∀ i < e.2, ∃ run ∈ s.heap.runs, InRun run (e.1 + i)) ∧
    (∀ n ok r, n < 2 ^ 30 → r = malloc (brkFor start s.heap n ok) n s.heap ∨
        r = realloc (brkFor start s.heap n ok) 0 n s.heap →
      Untouched s.live s.heap.mem r.2.mem ∧ (r.1 = 0 → r.2 = s.heap)) ∧
    (∀ nmemb size ok r, nmemb * size < 2 ^ 30 →
        r = calloc (brkFor start s.heap (nmemb * size) ok) nmemb size s.heap →
      Untouched s.live s.heap.mem r.2.mem ∧ (r.1 = 0 → r.2 = s.heap) ∧
        (r.1 ≠ 0 → ∀ i < nmemb * size, r.2.mem (r.1 + i) = 0)) ∧
    (∀ ptr k n ok r, (ptr, k) ∈ s.live → n < 2 ^ 30 →
        r = realloc (brkFor start s.heap n ok) ptr n s.heap →
      Untouched (dropPtr s.live ptr) s.heap.mem r.2.mem ∧
        (r.1 = 0 → n ≠ 0 → r.2 = s.heap) ∧
        (r.1 ≠ 0 → ∀ i < min k n, r.2.mem (r.1 + i) = s.heap.mem (ptr + i))) ∧
    ∀ ptr k, (ptr, k) ∈ s.live →
      Untouched (dropPtr s.live ptr) s.heap.mem (free ptr s.heap).mem := by
  obtain ⟨bs, hs⟩ := uOk_of_run hstart hrun
  have hsub : ∀ {m : Buf} (ptr : ℕ), Untouched s.live s.heap.mem m →
      Untouched (dropPtr s.live ptr) s.heap.mem m := fun ptr h e he =>
    h e (mem_dropPtr.mp he).1
  refine ⟨hs.disjoint, fun e he i hi => ?_, fun n ok r hn hr => ?_,
    fun nmemb size ok r hn hr => ?_, fun ptr k n ok r hp hn hr => ?_,
    fun ptr k hp => hsub ptr (hs.release hp).2⟩
  · obtain ⟨b, hb, -, hptr, hle⟩ := hs.used e he
    refine (hs.heap.tiles _).mp ⟨b, hb, ?_⟩
    rw [Block.Owns, Block.stop, hptr]
    omega
  · have hr' : r = malloc (brkFor start s.heap n ok) n s.heap := hr.elim id id
    rcases hs.malloc hstart hn hr' with rfl | ⟨h0, hun, -⟩
    · exact ⟨fun _ _ _ _ => rfl, fun _ => rfl⟩
    · exact ⟨hun, fun h => absurd h h0⟩
  · rcases hs.calloc hstart hn hr with rfl | ⟨h0, hun, hzero, -⟩
    · exact ⟨fun _ _ _ _ => rfl, fun _ => rfl, fun h => absurd rfl h⟩
    · exact ⟨hun, fun h => absurd h h0, fun _ => hzero⟩
  · by_cases hn0 : n = 0
    · subst hn0
      rw [User.realloc, if_neg (hs.ptr_ne_zero hp), if_pos rfl] at hr
      subst hr
      exact ⟨hsub ptr (hs.release hp).2, fun _ h => absurd rfl h, fun h => absurd rfl h⟩
    · rcases hs.realloc hstart hp hn0 hn hr with rfl | ⟨h0, hun, hcopy, -⟩
      · exact ⟨fun _ _ _ _ => rfl, fun _ _ => rfl, fun h => absurd rfl h⟩
      · exact ⟨hun, fun h => absurd h h0, fun _ => hcopy⟩

end

/-- A program got a block of ten bytes and wrote to it. -/
def tenBytes : UState :=
  let h := (malloc (some 0x400000) 10 ⟨fun _ => 0, 0, []⟩).2
  ⟨{ h with mem := Function.update h.mem (0x40000C + 1) 7 }, [(0x40000C, 10)]⟩

lemma run_tenBytes : ReflTransGen (UStep 0x400000) (uInit fun _ => 0) tenBytes := by
  have hptr : (malloc (some 0x400000) 10 ⟨fun _ => 0, 0, []⟩).1 = 0x40000C := by
    decide +kernel
  have hbrk : brkFor 0x400000 (uInit fun _ => 0).heap 10 true = some 0x400000 := by
    decide +kernel
  have h₁ : UStep 0x400000 (uInit fun _ => 0) ⟨_, _⟩ := .malloc 10 true (by decide) rfl
  rw [hbrk, uInit, hptr, if_neg (by decide)] at h₁
  exact .tail (.tail .refl h₁) (.write 0x40000C 10 1 7 (List.mem_singleton_self _) (by decide))

/-- The block moves to new pages with its bytes. -/
theorem malloc_of_run_moved :
    (realloc (some 0x401000) 0x40000C 5000 tenBytes.heap).1 = 0x40100C ∧
      ∀ i < 10, (realloc (some 0x401000) 0x40000C 5000 tenBytes.heap).2.mem (0x40100C + i) =
        tenBytes.heap.mem (0x40000C + i) := by
  have hret : (realloc (some 0x401000) 0x40000C 5000 tenBytes.heap).1 = 0x40100C := by
    decide +kernel
  have hbrk : brkFor 0x400000 tenBytes.heap 5000 true = some 0x401000 := by decide +kernel
  have hcopy := ((malloc_of_run (by decide) run_tenBytes).2.2.2.2.1 0x40000C 10 5000 true
    (realloc (some 0x401000) 0x40000C 5000 tenBytes.heap) (List.mem_singleton_self _)
    (by decide) (by rw [hbrk])).2.2
  rw [hret] at hcopy
  exact ⟨hret, hcopy (by decide)⟩

end GordOS.User
