/-
A heap of blocks with headers in memory: the code that `memory/kmalloc.c` and
`user/stdlib.c` share.

In front of the data of every block stands a header with its size, its free flag and
the address of the next block. The abstract model is the list of blocks in the order
of the chain.

* `findFit`, `takeBlock`, `newBlock`, `allocBlock`, `releaseBlock`: the code, over a
  function that says where new pages lie;
* `Block`, `Seg`, `HeapOk`: the blocks, the chain of their headers in memory, and a heap
  of blocks that do not overlap;
* `Alloc`, `Release`: what the two calls do to the list of blocks;
* `findFit_spec`: the walk along the chain;
* `allocBlock_spec`, `releaseBlock_spec`: **the code refines the list of blocks**, and
  the data of the blocks in use stay as they are.
-/
import Mathlib.Tactic
import GordOS.Fat32.Volume

namespace GordOS.Memory

open GordOS.Fat32 (Buf read32 put32)

/-! ### The code -/

/-- `HEADER_SIZE`. -/
def headerSize : ℕ := 12

/-- The value of 32-bit arithmetic. -/
def u32 (x : ℕ) : ℕ := x % 2 ^ 32

/-- The memory, the address of the first block of the chain, and the runs of pages
obtained so far, each with its address and its number of pages. -/
structure Heap where
  mem : Buf
  head : ℕ
  runs : List (ℕ × ℕ)

/-- The field `size` of the header at an address. -/
def hdrSize (m : Buf) (a : ℕ) : ℕ := read32 m a

/-- The field `free` of the header at an address. -/
def hdrFree (m : Buf) (a : ℕ) : ℕ := read32 m (a + 4)

/-- The field `next` of the header at an address. -/
def hdrNext (m : Buf) (a : ℕ) : ℕ := read32 m (a + 8)

/-- Where the walk along the chain ends: at a block that fits, or behind the last
one. -/
inductive Fit where
  | found (current : ℕ)
  | none (previous : ℕ)
deriving DecidableEq

/-- The loop that looks for a free block that is big enough, with a bound on its
rounds. -/
def findFit (m : Buf) (size : ℕ) : ℕ → ℕ → ℕ → Fit
  | 0, previous, _ => .none previous
  | n + 1, previous, current =>
    if current = 0 then .none previous
    else if hdrFree m current ≠ 0 ∧ size ≤ hdrSize m current then .found current
    else findFit m size n current (hdrNext m current)

/-- The rest of a block becomes a free block of its own. -/
def splitBlock (m : Buf) (current size : ℕ) : Buf :=
  let split := u32 (current + headerSize + size)
  let m := put32 m split (u32 (hdrSize m current - size + 2 ^ 32 - headerSize))
  let m := put32 m (split + 4) 1
  let m := put32 m (split + 8) (hdrNext m current)
  let m := put32 m current size
  put32 m (current + 8) split

/-- A block that fits is taken, and split if there is room for another header and
four bytes. -/
def takeBlock (m : Buf) (current size : ℕ) : Buf :=
  put32 (if u32 (size + headerSize + 4) ≤ hdrSize m current then splitBlock m current size
    else m) (current + 4) 0

/-- The pages for a block and its header. -/
def pagesNeeded (size : ℕ) : ℕ := u32 (size + headerSize + 4095) / 4096

/-- `new_block`, over the function that says where so many new pages lie. -/
def newBlock (grow : ℕ → Option ℕ) (m : Buf) (size : ℕ) : Option (ℕ × Buf) :=
  match grow (pagesNeeded size) with
  | none => none
  | some block =>
    let m := put32 m block (u32 (pagesNeeded size * 4096 + 2 ^ 32 - headerSize))
    let m := put32 m (block + 4) 0
    some (block, put32 m (block + 8) 0)

/-- The request, rounded up to a multiple of four. -/
def roundUp (n : ℕ) : ℕ := u32 (n + 3) / 4 * 4

/-- The body of `kmalloc` and `malloc`: the address of the data, or `0`. A chain has
fewer than `2 ^ 32` blocks. -/
def allocBlock (grow : ℕ → Option ℕ) (n : ℕ) (h : Heap) : ℕ × Heap :=
  if n = 0 then (0, h)
  else
    match findFit h.mem (roundUp n) (2 ^ 32) 0 h.head with
    | .found current =>
      (current + headerSize, { h with mem := takeBlock h.mem current (roundUp n) })
    | .none previous =>
      match newBlock grow h.mem (roundUp n) with
      | none => (0, h)
      | some (block, m) =>
        let runs := h.runs ++ [(block, pagesNeeded (roundUp n))]
        if h.head = 0 then (block + headerSize, ⟨m, block, runs⟩)
        else (block + headerSize, ⟨put32 m (previous + 8) block, h.head, runs⟩)

/-- The body of `kfree` and `free`: the block is marked free and merged with the next
one, if that is free and lies right behind it. -/
def releaseBlock (ptr : ℕ) (h : Heap) : Heap :=
  if ptr = 0 then h
  else
    let block := ptr - headerSize
    let m := put32 h.mem (block + 4) 1
    if hdrNext m block ≠ 0 ∧ hdrFree m (hdrNext m block) ≠ 0 ∧
        u32 (block + headerSize + hdrSize m block) = hdrNext m block then
      let m := put32 m block
        (u32 (hdrSize m block + (headerSize + hdrSize m (hdrNext m block))))
      { h with mem := put32 m (block + 8) (hdrNext m (hdrNext m block)) }
    else { h with mem := m }

/-! ### Lists of blocks -/

/-- A block: the address of its header, the size of its data, and its free flag. -/
structure Block where
  addr : ℕ
  size : ℕ
  free : Bool
deriving DecidableEq

namespace Block

/-- The end of the data. -/
def stop (b : Block) : ℕ := b.addr + headerSize + b.size

/-- The byte lies in the block, header or data. -/
def Owns (b : Block) (x : ℕ) : Prop := b.addr ≤ x ∧ x < b.stop

/-- The byte lies in the data of the block. -/
def Holds (b : Block) (x : ℕ) : Prop := b.addr + headerSize ≤ x ∧ x < b.stop

/-- The blocks do not overlap. -/
def Apart (b c : Block) : Prop := b.stop ≤ c.addr ∨ c.stop ≤ b.addr

end Block

/-- What a request does to the list of blocks, and the block it gets: a free block
that fits, the front of one, or a block on new pages. -/
inductive Alloc (grow : ℕ → Option ℕ) (bs : List Block) (size : ℕ) :
    List Block → Block → Prop where
  | whole {l r : List Block} (b : Block) (hbs : bs = l ++ b :: r) (hfree : b.free = true)
      (hfit : size ≤ b.size) :
      Alloc grow bs size (l ++ ⟨b.addr, b.size, false⟩ :: r) ⟨b.addr, b.size, false⟩
  | split {l r : List Block} (b : Block) (hbs : bs = l ++ b :: r) (hfree : b.free = true)
      (hfit : size + headerSize + 4 ≤ b.size) :
      Alloc grow bs size
        (l ++ ⟨b.addr, size, false⟩ ::
          ⟨b.addr + headerSize + size, b.size - size - headerSize, true⟩ :: r)
        ⟨b.addr, size, false⟩
  | grown (a : ℕ) (ha : grow (pagesNeeded size) = some a) :
      Alloc grow bs size (bs ++ [⟨a, pagesNeeded size * 4096 - headerSize, false⟩])
        ⟨a, pagesNeeded size * 4096 - headerSize, false⟩

/-- What giving a block back does to the list of blocks. -/
inductive Release (bs : List Block) (b : Block) : List Block → Prop where
  | mark {l r : List Block} (hbs : bs = l ++ b :: r) :
      Release bs b (l ++ ⟨b.addr, b.size, true⟩ :: r)
  | merge {l r : List Block} (c : Block) (hbs : bs = l ++ b :: c :: r) (hc : c.free = true)
      (hadj : b.stop = c.addr) :
      Release bs b (l ++ ⟨b.addr, b.size + (headerSize + c.size), true⟩ :: r)

/-! ### The chain in memory -/

/-- The header of the block stands in memory. -/
structure Header (m : Buf) (b : Block) : Prop where
  size : hdrSize m b.addr = b.size
  free : hdrFree m b.addr = if b.free then 1 else 0

/-- From the address `p` the headers of the blocks are met in order, and the last one
leads to `q`. -/
def Seg (m : Buf) : List Block → ℕ → ℕ → Prop
  | [], p, q => p = q
  | b :: l, p, q => p = b.addr ∧ Header m b ∧ Seg m l (hdrNext m b.addr) q

/-- The blocks that are met from an address on, with a bound on their number. -/
def chainFrom (m : Buf) : ℕ → ℕ → List Block
  | 0, _ => []
  | n + 1, p =>
    if p = 0 then []
    else ⟨p, hdrSize m p, decide (hdrFree m p ≠ 0)⟩ :: chainFrom m n (hdrNext m p)

/-- The chain of the heap. -/
def Heap.chain (h : Heap) : List Block := chainFrom h.mem (2 ^ 32) h.head

/-- The byte lies in a run of pages. -/
def InRun (run : ℕ × ℕ) (x : ℕ) : Prop := run.1 ≤ x ∧ x < run.1 + run.2 * 4096

/-- The chain of the heap consists of these blocks, which do not overlap and fill the
runs of pages. -/
structure HeapOk (h : Heap) (bs : List Block) : Prop where
  linked : Seg h.mem bs h.head 0
  apart : bs.Pairwise Block.Apart
  room : ∀ b ∈ bs, 4096 ≤ b.addr ∧ b.stop ≤ 2 ^ 32
  tiles : ∀ x, (∃ b ∈ bs, b.Owns x) ↔ ∃ run ∈ h.runs, InRun run x

section

variable {m m' : Buf} {l r bs : List Block} {b c : Block} {p q x : ℕ}

lemma put32_outside (m : Buf) {o v i : ℕ} (h : i < o ∨ o + 4 ≤ i) : put32 m o v i = m i := by
  rw [put32, if_neg (by omega), if_neg (by omega), if_neg (by omega), if_neg (by omega)]

/-- The memories agree on the header at an address. -/
def SameHeader (m m' : Buf) (a : ℕ) : Prop := ∀ i < headerSize, m' (a + i) = m (a + i)

lemma SameHeader.word {a : ℕ} (h : SameHeader m m' a) {o : ℕ} (ho : o + 4 ≤ headerSize) :
    read32 m' (a + o) = read32 m (a + o) :=
  Fat32.read32_congr fun i hi => by
    rw [Nat.add_assoc]
    exact h (o + i) (by omega)

lemma SameHeader.header (h : SameHeader m m' b.addr) (hb : Header m b) : Header m' b :=
  ⟨(h.word (o := 0) (by decide)).trans hb.size, (h.word (o := 4) (by decide)).trans hb.free⟩

lemma SameHeader.next {a : ℕ} (h : SameHeader m m' a) : hdrNext m' a = hdrNext m a :=
  h.word (o := 8) (by decide)

lemma seg_append : Seg m (l ++ r) p q ↔ ∃ x, Seg m l p x ∧ Seg m r x q := by
  induction l generalizing p with
  | nil => simp [Seg]
  | cons b l ih => simp only [List.cons_append, Seg, ih, exists_and_left, and_assoc]

/-- A chain only depends on its own headers. -/
lemma Seg.congr (h : Seg m l p q) (hs : ∀ b ∈ l, SameHeader m m' b.addr) : Seg m' l p q := by
  induction l generalizing p with
  | nil => exact h
  | cons b l ih =>
    obtain ⟨hp, hb, hl⟩ := h
    have hsb := hs b List.mem_cons_self
    refine ⟨hp, hsb.header hb, ?_⟩
    rw [hsb.next]
    exact ih hl fun c hc => hs c (List.mem_cons_of_mem b hc)

/-- The walk along the chain stops at a free block that is big enough, or behind the
last block. -/
lemma findFit_spec (size n : ℕ) (hn : bs.length < n) (previous : ℕ)
    (hseg : Seg m bs p 0) (haddr : ∀ b ∈ bs, b.addr ≠ 0) :
    (∃ l b r, bs = l ++ b :: r ∧ b.free = true ∧ size ≤ b.size ∧
        findFit m size n previous p = .found b.addr) ∨
      (bs = [] ∧ p = 0 ∧ findFit m size n previous p = .none previous) ∨
      ∃ l b, bs = l ++ [b] ∧ p ≠ 0 ∧ findFit m size n previous p = .none b.addr := by
  induction bs generalizing p n previous with
  | nil =>
    obtain ⟨n, rfl⟩ : ∃ k, n = k + 1 := ⟨n - 1, by rw [List.length_nil] at hn; omega⟩
    obtain rfl : p = 0 := hseg
    exact .inr (.inl ⟨rfl, rfl, by rw [findFit, if_pos rfl]⟩)
  | cons b bs ih =>
    obtain ⟨n, rfl⟩ : ∃ k, n = k + 1 := ⟨n - 1, by omega⟩
    obtain ⟨rfl, hb, hseg⟩ := hseg
    have h0 : b.addr ≠ 0 := haddr b List.mem_cons_self
    rw [findFit, if_neg h0]
    by_cases hfit : hdrFree m b.addr ≠ 0 ∧ size ≤ hdrSize m b.addr
    · have hfree : b.free = true := by
        by_contra hf
        exact hfit.1 (hb.free.trans (if_neg hf))
      rw [if_pos hfit]
      exact .inl ⟨[], b, bs, rfl, hfree, hb.size ▸ hfit.2, rfl⟩
    · rw [if_neg hfit]
      rcases ih n (by rw [List.length_cons] at hn; omega) b.addr hseg
        (fun c hc => haddr c (List.mem_cons_of_mem b hc)) with
        ⟨l, c, r, rfl, hc⟩ | ⟨rfl, -, hr⟩ | ⟨l, c, rfl, -, hr⟩
      · exact .inl ⟨b :: l, c, r, rfl, hc⟩
      · exact .inr (.inr ⟨[], b, rfl, h0, hr⟩)
      · exact .inr (.inr ⟨b :: l, c, rfl, h0, hr⟩)

/-- The walk does not pass a free block that is big enough. -/
lemma findFit_ne_none {size : ℕ} : ∀ (n previous : ℕ), bs.length < n → Seg m bs p 0 →
    (∀ b ∈ bs, b.addr ≠ 0) → b ∈ bs → b.free = true → size ≤ b.size →
    ∃ current, findFit m size n previous p = .found current := by
  induction bs generalizing p with
  | nil => exact fun _ _ _ _ _ hb => absurd hb List.not_mem_nil
  | cons c bs ih =>
    intro n previous hn hseg haddr hb hfree hfit
    obtain ⟨n, rfl⟩ : ∃ k, n = k + 1 := ⟨n - 1, by omega⟩
    obtain ⟨rfl, hc, hseg⟩ := hseg
    rw [findFit, if_neg (haddr c List.mem_cons_self)]
    split
    · exact ⟨_, rfl⟩
    · next hno =>
      rcases List.mem_cons.mp hb with rfl | hb
      · refine absurd ⟨?_, hc.size.symm ▸ hfit⟩ hno
        rw [hc.free, if_pos hfree]
        decide
      · exact ih n c.addr (by rw [List.length_cons] at hn; omega) hseg
          (fun d hd => haddr d (List.mem_cons_of_mem c hd)) hb hfree hfit

lemma chainFrom_eq : ∀ n, bs.length < n → Seg m bs p 0 → (∀ b ∈ bs, b.addr ≠ 0) →
    chainFrom m n p = bs := by
  induction bs generalizing p with
  | nil =>
    intro n hn hseg _
    obtain ⟨n, rfl⟩ : ∃ k, n = k + 1 := ⟨n - 1, by omega⟩
    exact if_pos hseg
  | cons b bs ih =>
    intro n hn hseg haddr
    obtain ⟨n, rfl⟩ : ∃ k, n = k + 1 := ⟨n - 1, by omega⟩
    obtain ⟨rfl, hb, hseg⟩ := hseg
    have hfree : decide (hdrFree m b.addr ≠ 0) = b.free := by
      rw [hb.free]
      cases b.free <;> rfl
    rw [chainFrom, if_neg (haddr b List.mem_cons_self), hb.size, hfree,
      ih n (by rw [List.length_cons] at hn; omega) hseg
        fun c hc => haddr c (List.mem_cons_of_mem b hc)]

/-- There are fewer than `2 ^ 32` blocks. -/
lemma HeapOk.length_lt {h : Heap} (hok : HeapOk h bs) : bs.length < 2 ^ 32 := by
  have hnd : (bs.map Block.addr).Nodup := by
    refine List.pairwise_map.mpr (hok.apart.imp fun {b c} hbc heq => ?_)
    rcases hbc with h₁ | h₁ <;> rw [Block.stop, headerSize] at h₁ <;> omega
  have hsub : (bs.map Block.addr).toFinset ⊆ Finset.Ico 4096 (2 ^ 32) := by
    intro a ha
    obtain ⟨b, hb, rfl⟩ := List.mem_map.mp (List.mem_toFinset.mp ha)
    obtain ⟨h₁, h₂⟩ := hok.room b hb
    rw [Block.stop, headerSize] at h₂
    exact Finset.mem_Ico.mpr ⟨h₁, by omega⟩
  have hcard := Finset.card_le_card hsub
  rw [List.toFinset_card_of_nodup hnd, List.length_map, Nat.card_Ico] at hcard
  omega

lemma HeapOk.addr_ne {h : Heap} (hok : HeapOk h bs) (hb : b ∈ bs) : b.addr ≠ 0 := by
  have := (hok.room b hb).1
  omega

lemma HeapOk.chain_eq {h : Heap} (hok : HeapOk h bs) : h.chain = bs :=
  chainFrom_eq _ hok.length_lt hok.linked fun _ hb => hok.addr_ne hb

/-! ### Some blocks among the others -/

lemma Block.lt_stop (b : Block) : b.addr < b.stop := by
  rw [Block.stop, headerSize]
  omega

/-- Blocks lie apart if they have no byte in common. -/
lemma Block.apart_iff : b.Apart c ↔ ∀ x, b.Owns x → ¬ c.Owns x := by
  have h₁ := b.lt_stop
  have h₂ := c.lt_stop
  constructor
  · intro h x hb hc
    rw [Block.Owns] at hb hc
    rcases h with h | h <;> omega
  · intro h
    by_contra hcon
    rw [Block.Apart] at hcon
    by_cases ha : b.addr ≤ c.addr
    · exact h c.addr ⟨ha, by omega⟩ ⟨le_rfl, h₂⟩
    · exact h b.addr ⟨le_rfl, h₁⟩ ⟨by omega, by omega⟩

lemma Block.owns_header (b : Block) {i : ℕ} (hi : i < headerSize) : b.Owns (b.addr + i) :=
  ⟨by omega, by rw [Block.stop]; omega⟩

/-- The byte lies in one of the blocks. -/
def InBlocks (bs : List Block) (x : ℕ) : Prop := ∃ b ∈ bs, b.Owns x

variable {old new : List Block}

lemma inBlocks_append : InBlocks (l ++ r) x ↔ InBlocks l x ∨ InBlocks r x := by
  simp only [InBlocks, List.mem_append, or_and_right, exists_or]

/-- The blocks around a part of the chain lie apart from it. -/
lemma not_inBlocks_of_apart (h : (l ++ old ++ r).Pairwise Block.Apart) (hc : c ∈ l ++ r)
    (hx : c.Owns x) : ¬ InBlocks old x := by
  rintro ⟨b, hb, hbx⟩
  rw [List.append_assoc, List.pairwise_append, List.pairwise_append] at h
  rcases List.mem_append.mp hc with hc | hc
  · exact Block.apart_iff.mp (h.2.2 c hc b (List.mem_append_left r hb)) x hx hbx
  · exact Block.apart_iff.mp (h.2.1.2.2 b hb c hc) x hbx hx

/-- Blocks that fill the same space as a part of the chain, in its place. -/
lemma pairwise_replace (h : (l ++ old ++ r).Pairwise Block.Apart)
    (hnew : new.Pairwise Block.Apart) (hfill : ∀ x, InBlocks new x ↔ InBlocks old x) :
    (l ++ new ++ r).Pairwise Block.Apart := by
  have hne : ∀ c ∈ new, ∀ d ∈ l ++ r, c.Apart d := fun c hc d hd =>
    Block.apart_iff.mpr fun x hx hdx =>
      not_inBlocks_of_apart h hd hdx ((hfill x).mp ⟨c, hc, hx⟩)
  rw [List.append_assoc, List.pairwise_append, List.pairwise_append] at h ⊢
  refine ⟨h.1, ⟨hnew, h.2.1.2.1, fun c hc d hd => ?_⟩, fun c hc d hd => ?_⟩
  · exact hne c hc d (List.mem_append_right l hd)
  · rcases List.mem_append.mp hd with hd | hd
    · exact (hne d hd c (List.mem_append_left r hc)).symm
    · exact h.2.2 c hc d (List.mem_append_right old hd)

/-- **Rebuilding the chain**: a part of it is replaced by blocks that fill the same
space, whose headers lead from its start to its end. -/
lemma HeapOk.replace {h : Heap} (hok : HeapOk h (l ++ old ++ r)) (hnew : new.Pairwise Block.Apart)
    (hfill : ∀ x, InBlocks new x ↔ InBlocks old x) (hm : ∀ x, ¬ InBlocks old x → m' x = h.mem x)
    (hseg : ∀ p q, Seg h.mem old p q → Seg m' new p q) :
    HeapOk { h with mem := m' } (l ++ new ++ r) where
  linked := by
    have hsame : ∀ c ∈ l ++ r, SameHeader h.mem m' c.addr := fun c hc i hi =>
      hm _ (not_inBlocks_of_apart hok.apart hc (c.owns_header hi))
    have hlinked := hok.linked
    rw [List.append_assoc, seg_append] at hlinked ⊢
    obtain ⟨p, hl, hr⟩ := hlinked
    obtain ⟨q, hold, hr⟩ := seg_append.mp hr
    exact ⟨p, hl.congr fun c hc => hsame c (List.mem_append_left r hc),
      seg_append.mpr ⟨q, hseg p q hold, hr.congr fun c hc => hsame c (List.mem_append_right l hc)⟩⟩
  apart := pairwise_replace hok.apart hnew hfill
  room := by
    have hold : ∀ b ∈ old, 4096 ≤ b.addr ∧ b.stop ≤ 2 ^ 32 := fun b hb =>
      hok.room b (by simp [hb])
    intro c hc
    rw [List.append_assoc, List.mem_append, List.mem_append] at hc
    rcases hc with hc | hc | hc
    · exact hok.room c (by simp [hc])
    · -- the first and the last byte lie in old blocks
      have hlt := c.lt_stop
      obtain ⟨b, hb, hbx⟩ := (hfill c.addr).mp ⟨c, hc, le_rfl, hlt⟩
      obtain ⟨d, hd, hdx⟩ := (hfill (c.stop - 1)).mp ⟨c, hc, by omega, by omega⟩
      have h₁ := hold b hb
      have h₂ := hold d hd
      rw [Block.Owns] at hbx hdx
      omega
    · exact hok.room c (by simp [hc])
  tiles := by
    intro x
    have h := hok.tiles x
    change InBlocks _ x ↔ _ at h ⊢
    rw [inBlocks_append, inBlocks_append] at h ⊢
    rw [hfill x]
    exact h

lemma inBlocks_singleton : InBlocks [b] x ↔ b.Owns x := by simp [InBlocks]

lemma inBlocks_pair : InBlocks [b, c] x ↔ b.Owns x ∨ c.Owns x := by simp [InBlocks]

/-! ### Taking a block -/

lemma u32_of_lt {x : ℕ} (h : x < 2 ^ 32) : u32 x = x := Nat.mod_eq_of_lt h

/-- The headers after the split of a block. -/
lemma splitBlock_spec {size : ℕ} (hb : Header m b) (hstop : b.stop ≤ 2 ^ 32)
    (hfit : size + headerSize + 4 ≤ b.size) :
    (∀ x, ¬ b.Owns x → splitBlock m b.addr size x = m x) ∧
      hdrSize (splitBlock m b.addr size) b.addr = size ∧
      hdrNext (splitBlock m b.addr size) b.addr = b.addr + headerSize + size ∧
      hdrSize (splitBlock m b.addr size) (b.addr + headerSize + size) = b.size - size - headerSize ∧
      hdrFree (splitBlock m b.addr size) (b.addr + headerSize + size) = 1 ∧
      hdrNext (splitBlock m b.addr size) (b.addr + headerSize + size) = hdrNext m b.addr := by
  have hnext : hdrNext m b.addr < 2 ^ 32 := Fat32.read32_lt _ _
  have hs := hb.size
  rw [Block.stop, headerSize] at hstop
  rw [headerSize] at hfit
  have hsplit : u32 (b.addr + headerSize + size) = b.addr + 12 + size :=
    u32_of_lt (by rw [headerSize]; omega)
  have hrest : u32 (b.size - size + 2 ^ 32 - headerSize) = b.size - size - 12 := by
    rw [u32, headerSize]
    omega
  rw [splitBlock, hsplit]
  simp only [hdrSize, hdrFree, hdrNext, headerSize] at hs hrest hnext ⊢
  rw [hs, hrest]
  refine ⟨fun x hx => ?_, ?_, ?_, ?_, ?_, ?_⟩
  · rw [Block.Owns, Block.stop, headerSize] at hx
    simp (disch := omega) only [put32_outside]
  all_goals
    simp (disch := omega) only [Fat32.read32_put32_of_disjoint, Fat32.read32_put32]

/-- The headers after a block was taken. -/
lemma takeBlock_spec (size : ℕ) (hb : Header m b) (hstart : 4096 ≤ b.addr)
    (hstop : b.stop ≤ 2 ^ 32) (hfit : size ≤ b.size) :
    (∀ x, ¬ b.Owns x → takeBlock m b.addr size x = m x) ∧
      (Seg (takeBlock m b.addr size) [⟨b.addr, b.size, false⟩] b.addr (hdrNext m b.addr) ∨
        size + headerSize + 4 ≤ b.size ∧ Seg (takeBlock m b.addr size) [⟨b.addr, size, false⟩,
            ⟨b.addr + headerSize + size, b.size - size - headerSize, true⟩] b.addr
            (hdrNext m b.addr)) := by
  have hsum : u32 (size + headerSize + 4) = size + headerSize + 4 := by
    rw [Block.stop, headerSize] at hstop
    exact u32_of_lt (by rw [headerSize]; omega)
  have hout : ∀ m : Buf, ∀ x, ¬ b.Owns x → put32 m (b.addr + 4) 0 x = m x := by
    intro m x hx
    rw [Block.Owns, Block.stop, headerSize] at hx
    exact put32_outside m (by omega)
  have hkeep : ∀ (m : Buf) o, o + 4 ≤ b.addr + 4 ∨ b.addr + 8 ≤ o →
      read32 (put32 m (b.addr + 4) 0) o = read32 m o := fun m o ho =>
    Fat32.read32_put32_of_disjoint _ _ (by omega)
  rw [takeBlock, hsum, hb.size]
  split
  · next hsplit =>
    obtain ⟨hx, h₁, h₂, h₃, h₄, h₅⟩ := splitBlock_spec hb hstop hsplit
    refine ⟨fun x hbx => (hout _ x hbx).trans (hx x hbx), .inr ⟨hsplit, ?_⟩⟩
    generalize splitBlock m b.addr size = m₁ at *
    simp only [Seg, hdrSize, hdrFree, hdrNext, headerSize] at h₁ h₂ h₃ h₄ h₅ ⊢
    exact ⟨trivial, ⟨(hkeep m₁ b.addr (by omega)).trans h₁,
      Fat32.read32_put32 _ _ _ (by decide)⟩, (hkeep m₁ (b.addr + 8) (by omega)).trans h₂,
      ⟨(hkeep m₁ (b.addr + 12 + size) (by omega)).trans h₃,
        (hkeep m₁ (b.addr + 12 + size + 4) (by omega)).trans h₄⟩,
      (hkeep m₁ (b.addr + 12 + size + 8) (by omega)).trans h₅⟩
  · exact ⟨fun x hbx => hout _ x hbx, .inl ⟨rfl, ⟨(hkeep m b.addr (by omega)).trans hb.size,
      Fat32.read32_put32 _ _ _ (by decide)⟩, hkeep m (b.addr + 8) (by omega)⟩⟩

/-! ### A block on new pages -/

/-- A run of new pages: it lies in the address space, and no page of it was obtained
before. -/
structure Fresh (runs : List (ℕ × ℕ)) (a pages : ℕ) : Prop where
  pos : 0 < pages
  start : 4096 ≤ a
  stop : a + pages * 4096 ≤ 2 ^ 32
  new : ∀ run ∈ runs, run.1 + run.2 * 4096 ≤ a ∨ a + pages * 4096 ≤ run.1

/-- New pages lie apart from the blocks. -/
lemma HeapOk.apart_fresh {h : Heap} (hok : HeapOk h bs) {a pages : ℕ}
    (hf : Fresh h.runs a pages) (hb : b ∈ bs) : b.stop ≤ a ∨ a + pages * 4096 ≤ b.addr := by
  -- a common byte would lie in an earlier run
  have hno : ∀ x, b.Owns x → ¬ (a ≤ x ∧ x < a + pages * 4096) := by
    intro x hx hin
    obtain ⟨run, hrun, hxr⟩ := (hok.tiles x).mp ⟨b, hb, hx⟩
    have := hf.new run hrun
    rw [InRun] at hxr
    omega
  have hpos := hf.pos
  by_contra hcon
  have hlt := b.lt_stop
  by_cases ha : b.addr ≤ a
  · exact hno a ⟨ha, by omega⟩ (by omega)
  · exact hno b.addr ⟨le_rfl, hlt⟩ (by omega)

/-- The header of a block on new pages. -/
lemma newBlock_spec {grow : ℕ → Option ℕ} {size a : ℕ} {runs : List (ℕ × ℕ)}
    (hg : grow (pagesNeeded size) = some a) (hf : Fresh runs a (pagesNeeded size)) :
    ∃ m', newBlock grow m size = some (a, m') ∧
      Header m' ⟨a, pagesNeeded size * 4096 - headerSize, false⟩ ∧ hdrNext m' a = 0 ∧
      ∀ x, x < a ∨ a + headerSize ≤ x → m' x = m x := by
  have hpos := hf.pos
  have hstop := hf.stop
  have hstart := hf.start
  have hsize : u32 (pagesNeeded size * 4096 + 2 ^ 32 - headerSize) =
      pagesNeeded size * 4096 - headerSize := by
    rw [u32, headerSize]
    omega
  have hlt : pagesNeeded size * 4096 - headerSize < 2 ^ 32 := by omega
  rw [newBlock, hg]
  refine ⟨_, rfl, ⟨?_, ?_⟩, ?_, fun x hx => ?_⟩
  · rw [hsize]
    simp (disch := omega) only [hdrSize, Fat32.read32_put32_of_disjoint, Fat32.read32_put32]
  · simp (disch := omega) only [hdrFree, Fat32.read32_put32_of_disjoint, Fat32.read32_put32]
    rfl
  · simp (disch := omega) only [hdrNext, Fat32.read32_put32]
  · rw [headerSize] at hx
    simp (disch := omega) only [put32_outside]

/-- A block on new pages at the end of the chain, with the headers of the others as
they were. -/
lemma HeapOk.grow {h : Heap} (hok : HeapOk h bs) {a pages head : ℕ} (hf : Fresh h.runs a pages)
    (hb : Header m' ⟨a, pages * 4096 - headerSize, false⟩) (hnext : hdrNext m' a = 0)
    (hseg : Seg m' bs head a) :
    HeapOk ⟨m', head, h.runs ++ [(a, pages)]⟩ (bs ++ [⟨a, pages * 4096 - headerSize, false⟩]) where
  linked := seg_append.mpr ⟨a, hseg, rfl, hb, hnext⟩
  apart := by
    have hpos := hf.pos
    refine List.pairwise_append.mpr ⟨hok.apart, List.pairwise_singleton _ _, ?_⟩
    intro b hbs c hc
    obtain rfl := List.mem_singleton.mp hc
    refine (hok.apart_fresh hf hbs).imp id fun h₁ => ?_
    rw [Block.stop, headerSize]
    dsimp only
    omega
  room := by
    intro b hbs
    rcases List.mem_append.mp hbs with hbs | hbs
    · exact hok.room b hbs
    · obtain rfl := List.mem_singleton.mp hbs
      refine ⟨hf.start, ?_⟩
      have h₁ := hf.stop
      have h₂ := hf.pos
      rw [Block.stop, headerSize]
      dsimp only
      omega
  tiles := by
    intro x
    have hpos := hf.pos
    have hnew : Block.Owns ⟨a, pages * 4096 - headerSize, false⟩ x ↔ InRun (a, pages) x := by
      rw [Block.Owns, Block.stop, InRun, headerSize]
      dsimp only
      omega
    simp only [List.mem_append, List.mem_singleton, or_and_right, exists_or, exists_eq_left,
      hok.tiles x, hnew]

/-! ### The two calls -/

/-- The data of the blocks in use are as before. -/
def KeepsData (bs : List Block) (m m' : Buf) : Prop :=
  ∀ c ∈ bs, c.free = false → ∀ x, c.Holds x → m' x = m x

lemma Block.Holds.owns (h : b.Holds x) : b.Owns x := by
  rw [Block.Holds, headerSize] at h
  exact ⟨by omega, h.2⟩

/-- A change inside a free block leaves the data of the blocks in use alone. -/
lemma keepsData_of_free {h : Heap} (hok : HeapOk h (l ++ [b] ++ r)) (hfree : b.free = true)
    (hm : ∀ x, ¬ InBlocks [b] x → m' x = h.mem x) : KeepsData (l ++ [b] ++ r) h.mem m' := by
  intro c hc hused x hx
  have hcr : c ∈ l ++ r := by
    simp only [List.mem_append, List.mem_singleton] at hc ⊢
    rcases hc with (hc | rfl) | hc
    · exact .inl hc
    · rw [hfree] at hused
      cases hused
    · exact .inr hc
  exact hm x (not_inBlocks_of_apart hok.apart hcr hx.owns)

/-- A free block that fits is taken. -/
lemma takeBlock_ok {h : Heap} {size : ℕ} (grow : ℕ → Option ℕ) (hok : HeapOk h (l ++ [b] ++ r))
    (hfree : b.free = true) (hfit : size ≤ b.size) :
    ∃ bs' c, Alloc grow (l ++ [b] ++ r) size bs' c ∧ c.addr = b.addr ∧
      HeapOk { h with mem := takeBlock h.mem b.addr size } bs' ∧
      KeepsData (l ++ [b] ++ r) h.mem (takeBlock h.mem b.addr size) := by
  have hbs : l ++ [b] ++ r = l ++ b :: r := by simp
  obtain ⟨hstart, hstop⟩ := hok.room b (by simp)
  have hlinked := hok.linked
  rw [hbs] at hlinked
  obtain ⟨x, -, -, hb, -⟩ := seg_append.mp hlinked
  obtain ⟨hm, hseg⟩ := takeBlock_spec size hb hstart hstop hfit
  have hm' : ∀ x, ¬ InBlocks [b] x → takeBlock h.mem b.addr size x = h.mem x := fun x hx =>
    hm x fun hbx => hx (inBlocks_singleton.mpr hbx)
  have hkeep := keepsData_of_free hok hfree hm'
  rcases hseg with hseg | ⟨hsplit, hseg⟩
  · refine ⟨_, _, .whole b hbs hfree hfit, rfl, ?_, hkeep⟩
    have hnew := hok.replace (List.pairwise_singleton _ ⟨b.addr, b.size, false⟩)
      (fun x => ?_) hm' ?_
    · rwa [List.append_assoc] at hnew
    · rw [inBlocks_singleton, inBlocks_singleton]
      rfl
    · rintro p q ⟨rfl, -, rfl⟩
      exact hseg
  · refine ⟨_, _, .split b hbs hfree hsplit, rfl, ?_, hkeep⟩
    rw [headerSize] at hsplit
    have hpair : [⟨b.addr, size, false⟩, ⟨b.addr + headerSize + size,
        b.size - size - headerSize, true⟩].Pairwise Block.Apart :=
      List.pairwise_pair.mpr (.inl le_rfl)
    have hnew := hok.replace hpair ?_ hm' ?_
    · rwa [List.append_assoc] at hnew
    · intro x
      rw [inBlocks_pair, inBlocks_singleton]
      simp only [Block.Owns, Block.stop, headerSize]
      omega
    · rintro p q ⟨rfl, -, rfl⟩
      exact hseg

/-- The last block gets a successor. -/
lemma seg_relink {h : Heap} {a : ℕ} (hok : HeapOk h (l ++ [b]))
    (hsame : ∀ c ∈ l ++ [b], SameHeader h.mem m' c.addr) (ha : a < 2 ^ 32) :
    Seg (put32 m' (b.addr + 8) a) (l ++ [b]) h.head a := by
  obtain ⟨x, hl, rfl, hb, -⟩ := seg_append.mp hok.linked
  have hb' : Header m' b := (hsame b (by simp)).header hb
  refine seg_append.mpr ⟨b.addr, hl.congr fun c hc => ?_, rfl, ⟨?_, ?_⟩, ?_⟩
  · intro i hi
    have hno := Block.apart_iff.mp
      ((List.pairwise_append.mp hok.apart).2.2 c hc b (List.mem_singleton_self b)) _
      (c.owns_header hi)
    rw [Block.Owns, Block.stop, headerSize] at hno
    exact (put32_outside m' (by omega)).trans (hsame c (List.mem_append_left _ hc) i hi)
  · exact (Fat32.read32_put32_of_disjoint m' a (.inl (by omega))).trans hb'.size
  · exact (Fat32.read32_put32_of_disjoint m' a (.inl (by omega))).trans hb'.free
  · exact Fat32.read32_put32 m' _ a ha

/-- **A request refines `Alloc`**, and leaves the data of the blocks in use alone; if it
fails, it changes nothing. -/
lemma allocBlock_spec {h : Heap} (grow : ℕ → Option ℕ) {n : ℕ} (hok : HeapOk h bs)
    (hf : ∀ a, grow (pagesNeeded (roundUp n)) = some a → Fresh h.runs a (pagesNeeded (roundUp n))) :
    allocBlock grow n h = (0, h) ∨ ∃ bs' b, Alloc grow bs (roundUp n) bs' b ∧
        (allocBlock grow n h).1 = b.addr + headerSize ∧
        HeapOk (allocBlock grow n h).2 bs' ∧
        KeepsData bs h.mem (allocBlock grow n h).2.mem := by
  rw [allocBlock]
  split
  · exact .inl rfl
  have haddr : ∀ b ∈ bs, b.addr ≠ 0 := fun b hb => by
    have := (hok.room b hb).1
    omega
  have hwalk := findFit_spec (roundUp n) (2 ^ 32) hok.length_lt 0 hok.linked haddr
  generalize findFit h.mem (roundUp n) (2 ^ 32) 0 h.head = walk at hwalk ⊢
  rcases hwalk with ⟨l, b, r, rfl, hfree, hfit, rfl⟩ | hlast
  · have hbs : l ++ b :: r = l ++ [b] ++ r := by simp
    rw [hbs] at hok ⊢
    obtain ⟨bs', c, halloc, haddr, hok', hkeep⟩ := takeBlock_ok grow hok hfree hfit
    exact .inr ⟨bs', c, halloc, by rw [haddr], hok', hkeep⟩
  · obtain ⟨previous, rfl⟩ : ∃ previous, walk = .none previous := by
      rcases hlast with ⟨-, -, rfl⟩ | ⟨l, b, -, -, rfl⟩ <;> exact ⟨_, rfl⟩
    dsimp only
    cases hg : grow (pagesNeeded (roundUp n)) with
    | none =>
      have hnone : newBlock grow h.mem (roundUp n) = none := by rw [newBlock, hg]
      rw [hnone]
      exact .inl rfl
    | some a =>
      obtain ⟨m', hnew, hhdr, hnext, hm⟩ := newBlock_spec (m := h.mem) hg (hf a hg)
      have hsame : ∀ c ∈ bs, SameHeader h.mem m' c.addr := by
        intro c hc i hi
        have h₁ := hok.apart_fresh (hf a hg) hc
        have h₂ := (hf a hg).pos
        refine hm _ ?_
        rw [Block.stop] at h₁
        rw [headerSize] at *
        omega
      have hdata : ∀ c ∈ bs, ∀ x, c.Holds x → m' x = h.mem x := by
        intro c hc x hx
        have h₁ := hok.apart_fresh (hf a hg) hc
        have h₂ := (hf a hg).pos
        refine hm _ ?_
        rw [Block.Holds] at hx
        rw [headerSize] at *
        omega
      rw [hnew]
      dsimp only
      rcases hlast with ⟨rfl, h0, -⟩ | ⟨l, b, rfl, h0, hprev⟩
      · rw [if_pos h0]
        exact .inr ⟨_, _, .grown a hg, rfl, hok.grow (hf a hg) hhdr hnext rfl,
          fun c hc => by cases hc⟩
      · obtain rfl : previous = b.addr := (Fit.none.inj hprev)
        rw [if_neg h0]
        have hbm : b ∈ l ++ [b] := by simp
        have hroom := hok.apart_fresh (hf a hg) hbm
        have hpos := (hf a hg).pos
        have hstop := (hf a hg).stop
        rw [Block.stop, headerSize] at hroom
        -- the link is written inside the header of the last block
        have hout : ∀ x, ¬ (b.addr + 8 ≤ x ∧ x < b.addr + 12) →
            put32 m' (b.addr + 8) a x = m' x := fun x hx => put32_outside m' (by omega)
        have hfar : SameHeader m' (put32 m' (b.addr + 8) a) a := by
          intro i hi
          rw [headerSize] at hi
          exact hout _ (by omega)
        refine .inr ⟨_, _, .grown a hg, rfl, ?_, ?_⟩
        · exact hok.grow (hf a hg) (hfar.header hhdr) (hfar.next.trans hnext)
            (seg_relink hok hsame (by omega))
        · intro c hc hused x hx
          refine (hout x fun hbx => ?_).trans (hdata c hc x hx)
          rw [Block.Holds, headerSize] at hx
          rcases List.mem_append.mp hc with hcl | hcb
          · have hap := Block.apart_iff.mp ((List.pairwise_append.mp hok.apart).2.2 c hcl b
              (List.mem_singleton_self b)) x ⟨by omega, hx.2⟩
            rw [Block.Owns, Block.stop, headerSize] at hap
            omega
          · obtain rfl := List.mem_singleton.mp hcb
            omega

/-- The runs after a request. -/
lemma allocBlock_runs (grow : ℕ → Option ℕ) (n : ℕ) (h : Heap) :
    (allocBlock grow n h).2.runs = h.runs ∨ ∃ a, grow (pagesNeeded (roundUp n)) = some a ∧
        (allocBlock grow n h).2.runs = h.runs ++ [(a, pagesNeeded (roundUp n))] := by
  rw [allocBlock]
  split
  · exact .inl rfl
  · split
    · exact .inl rfl
    · cases hg : grow (pagesNeeded (roundUp n)) with
      | none =>
        have hnone : newBlock grow h.mem (roundUp n) = none := by rw [newBlock, hg]
        rw [hnone]
        exact .inl rfl
      | some a =>
        obtain ⟨m', hnew⟩ : ∃ m', newBlock grow h.mem (roundUp n) = some (a, m') := by
          rw [newBlock, hg]
          exact ⟨_, rfl⟩
        rw [hnew]
        refine .inr ⟨a, rfl, ?_⟩
        dsimp only
        split <;> rfl

/-- A request that a free block is big enough for needs no new pages. -/
lemma allocBlock_ne_zero {h : Heap} (grow : ℕ → Option ℕ) {n : ℕ} (hok : HeapOk h bs)
    (hn : n ≠ 0) (hb : b ∈ bs) (hfree : b.free = true) (hfit : roundUp n ≤ b.size) :
    (allocBlock grow n h).1 ≠ 0 := by
  obtain ⟨current, hfound⟩ := findFit_ne_none (2 ^ 32) 0 hok.length_lt hok.linked
    (fun _ hc => hok.addr_ne hc) hb hfree hfit
  rw [allocBlock, if_neg hn, hfound]
  exact Nat.ne_of_gt (Nat.lt_of_lt_of_le (by decide) (Nat.le_add_left headerSize current))

/-- The byte lies in the header of the block. -/
def Block.InHeader (b : Block) (x : ℕ) : Prop := b.addr ≤ x ∧ x < b.addr + headerSize

lemma Block.InHeader.owns (h : b.InHeader x) : b.Owns x :=
  ⟨h.1, h.2.trans_le (Nat.le_add_right _ _)⟩

/-- A change inside a header leaves all data alone. -/
lemma keepsData_of_header (hap : (l ++ b :: r).Pairwise Block.Apart)
    (hm : ∀ x, ¬ b.InHeader x → m' x = m x) : KeepsData (l ++ b :: r) m m' := by
  intro c hc _ x hx
  refine hm x fun hbx => ?_
  by_cases hcb : c = b
  · subst hcb
    rw [Block.Holds] at hx
    rw [Block.InHeader] at hbx
    omega
  · have hcr : c ∈ l ++ r := by
      simp only [List.mem_append, List.mem_cons] at hc ⊢
      tauto
    rw [← List.singleton_append, ← List.append_assoc] at hap
    exact not_inBlocks_of_apart hap hcr hx.owns (inBlocks_singleton.mpr hbx.owns)

/-- The header after the block was marked free. -/
lemma header_mark (hb : Header m b) : Header (put32 m (b.addr + 4) 1) ⟨b.addr, b.size, true⟩ ∧
      hdrNext (put32 m (b.addr + 4) 1) b.addr = hdrNext m b.addr ∧
      ∀ x, ¬ b.InHeader x → put32 m (b.addr + 4) 1 x = m x := by
  refine ⟨⟨?_, ?_⟩, ?_, fun x hx => ?_⟩
  · exact (Fat32.read32_put32_of_disjoint m 1 (.inl le_rfl)).trans hb.size
  · exact Fat32.read32_put32 m _ 1 (by decide)
  · exact Fat32.read32_put32_of_disjoint m 1 (.inr (by omega))
  · rw [Block.InHeader, headerSize] at hx
    exact put32_outside m (by omega)

/-- The header after the block was merged with the next one. -/
lemma header_merge {n next : ℕ} (hb : Header m ⟨b.addr, b.size, true⟩) (hn : n < 2 ^ 32)
    (hnext : next < 2 ^ 32) :
    Header (put32 (put32 m b.addr n) (b.addr + 8) next) ⟨b.addr, n, true⟩ ∧
      hdrNext (put32 (put32 m b.addr n) (b.addr + 8) next) b.addr = next ∧
      ∀ x, ¬ b.InHeader x → put32 (put32 m b.addr n) (b.addr + 8) next x = m x := by
  have hfree : read32 m (b.addr + 4) = 1 := hb.free
  refine ⟨⟨?_, ?_⟩, ?_, fun x hx => ?_⟩
  · simp (disch := omega) only [hdrSize, Fat32.read32_put32_of_disjoint, Fat32.read32_put32]
  · simp (disch := omega) only [hdrFree, Fat32.read32_put32_of_disjoint, hfree]
    rfl
  · exact Fat32.read32_put32 _ _ next hnext
  · rw [Block.InHeader, headerSize] at hx
    simp (disch := omega) only [put32_outside]

/-- **Giving a block back refines `Release`**, and leaves all data alone. -/
lemma releaseBlock_spec {h : Heap} (hok : HeapOk h bs) (hb : b ∈ bs) :
    ∃ bs', Release bs b bs' ∧ HeapOk (releaseBlock (b.addr + headerSize) h) bs' ∧
      KeepsData bs h.mem (releaseBlock (b.addr + headerSize) h).mem ∧
      (releaseBlock (b.addr + headerSize) h).runs = h.runs := by
  obtain ⟨l, r, rfl⟩ := List.append_of_mem hb
  obtain ⟨hstart, hstop⟩ := hok.room b hb
  obtain ⟨p, -, rfl, hhdr, hr⟩ := seg_append.mp hok.linked
  obtain ⟨hmark, hnext, hm⟩ := header_mark hhdr
  rw [releaseBlock, if_neg (by rw [headerSize]; omega), Nat.add_sub_cancel]
  dsimp only
  generalize put32 h.mem (b.addr + 4) 1 = m₁ at hmark hnext hm ⊢
  rw [hnext]
  split
  · next hmerge =>
    obtain ⟨h0, hfree, hadj⟩ := hmerge
    cases r with
    | nil => exact absurd hr h0
    | cons c r =>
      obtain ⟨hc, hchdr, hr⟩ := hr
      have hbs : l ++ b :: c :: r = l ++ [b, c] ++ r := by simp
      have hcb : b.Apart c := by
        have hap := (List.pairwise_append.mp hok.apart).2.1
        exact (List.pairwise_cons.mp hap).1 c List.mem_cons_self
      -- the header of the next block is as before
      have hsame : SameHeader h.mem m₁ c.addr := fun i hi => hm _ fun hx =>
        Block.apart_iff.mp hcb _ hx.owns (c.owns_header hi)
      have hcroom := hok.room c (by simp)
      rw [hc, hmark.size] at hadj
      rw [hc] at hfree ⊢
      have hstop' : b.stop = c.addr := by
        rw [Block.stop, headerSize] at hstop hcroom ⊢
        rw [u32, headerSize] at hadj
        dsimp only at hadj
        omega
      have hcfree : c.free = true := by
        by_contra hf
        exact hfree ((hsame.header hchdr).free.trans (if_neg hf))
      have hsum : u32 (b.size + (headerSize + c.size)) = b.size + (headerSize + c.size) := by
        rw [Block.stop, headerSize] at hstop' hcroom
        exact u32_of_lt (by rw [headerSize]; omega)
      have hlt : b.size + (headerSize + c.size) < 2 ^ 32 := by
        rw [← hsum]
        exact Nat.mod_lt _ (by decide)
      have hnext₁ : ∀ v, hdrNext (put32 m₁ b.addr v) b.addr = c.addr := fun v =>
        (Fat32.read32_put32_of_disjoint m₁ v (.inr (by omega))).trans (hnext.trans hc)
      have hnext₂ : ∀ v, hdrNext (put32 m₁ b.addr v) c.addr = hdrNext h.mem c.addr := by
        intro v
        rw [Block.stop, headerSize] at hstop'
        exact (Fat32.read32_put32_of_disjoint m₁ v (.inr (by omega))).trans hsame.next
      rw [hmark.size, (hsame.header hchdr).size, hsum, hnext₁, hnext₂]
      obtain ⟨hhdr', hnext', hm'⟩ := header_merge (b := b) hmark hlt
        (Fat32.read32_lt h.mem (c.addr + 8))
      have hmem : ∀ x, ¬ b.InHeader x → put32 (put32 m₁ b.addr
          (b.size + (headerSize + c.size))) (b.addr + 8) (hdrNext h.mem c.addr) x =
          h.mem x := fun x hx => (hm' x hx).trans (hm x hx)
      refine ⟨_, .merge c rfl hcfree hstop', ?_, keepsData_of_header hok.apart hmem, rfl⟩
      rw [hbs] at hok
      have hnew := hok.replace
        (List.pairwise_singleton _ ⟨b.addr, b.size + (headerSize + c.size), true⟩)
        (fun x => ?_) (fun x hx => hmem x fun hbx => hx (inBlocks_pair.mpr (.inl hbx.owns)))
        ?_
      · rwa [List.append_assoc] at hnew
      · rw [inBlocks_singleton, inBlocks_pair]
        rw [Block.stop, headerSize] at hstop'
        simp only [Block.Owns, Block.stop, headerSize]
        omega
      · rintro p q ⟨rfl, -, -, -, rfl⟩
        exact ⟨rfl, hhdr', hnext'⟩
  · refine ⟨_, .mark rfl, ?_, keepsData_of_header hok.apart hm, rfl⟩
    have hbs : l ++ b :: r = l ++ [b] ++ r := by simp
    rw [hbs] at hok
    have hnew := hok.replace (List.pairwise_singleton _ ⟨b.addr, b.size, true⟩)
      (fun x => ?_) (fun x hx => hm x fun hbx => hx (inBlocks_singleton.mpr hbx.owns)) ?_
    · rwa [List.append_assoc] at hnew
    · rw [inBlocks_singleton, inBlocks_singleton]
      rfl
    · rintro p q ⟨rfl, -, rfl⟩
      exact ⟨rfl, hmark, hnext⟩

lemma HeapOk.header {h : Heap} (hok : HeapOk h bs) (hb : b ∈ bs) : Header h.mem b := by
  obtain ⟨l, r, rfl⟩ := List.append_of_mem hb
  obtain ⟨p, -, -, hhdr, -⟩ := seg_append.mp hok.linked
  exact hhdr

/-- The branch of the code that merges. -/
lemma releaseBlock_merge {h : Heap} {block : ℕ} (hmark : put32 h.mem (block + 4) 1 = m)
    (hmerge : hdrNext m block ≠ 0 ∧ hdrFree m (hdrNext m block) ≠ 0 ∧
      u32 (block + headerSize + hdrSize m block) = hdrNext m block) :
    ∃ next, releaseBlock (block + headerSize) h = { h with mem := put32 (put32 m block
      (u32 (hdrSize m block + (headerSize + hdrSize m (hdrNext m block))))) (block + 8) next } := by
  subst hmark
  rw [releaseBlock, if_neg (by rw [headerSize]; omega), Nat.add_sub_cancel]
  exact ⟨_, if_pos hmerge⟩

/-- The size in memory, after a block was merged with the next one. -/
lemma hdrSize_releaseBlock {h : Heap} (hok : HeapOk h (l ++ b :: c :: r)) (hfree : c.free = true)
    (hadj : b.stop = c.addr) :
    hdrSize (releaseBlock (b.addr + headerSize) h).mem b.addr = b.size + (headerSize + c.size) := by
  obtain ⟨p, -, rfl, hhdr, hc, hchdr, -⟩ := seg_append.mp hok.linked
  obtain ⟨hmark, hnext, hm⟩ := header_mark hhdr
  obtain ⟨hcstart, hcstop⟩ := hok.room c (by simp)
  obtain ⟨m₁, hm₁⟩ : ∃ m₁, put32 h.mem (b.addr + 4) 1 = m₁ := ⟨_, rfl⟩
  rw [hm₁] at hmark hnext hm
  have hsame : SameHeader h.mem m₁ c.addr := by
    intro i hi
    refine hm _ fun hx => ?_
    rw [Block.InHeader] at hx
    rw [Block.stop] at hadj
    omega
  have hcfree : hdrFree m₁ c.addr ≠ 0 := by
    rw [(hsame.header hchdr).free, if_pos hfree]
    decide
  have hsize : hdrSize m₁ b.addr = b.size := hmark.size
  rw [Block.stop, headerSize] at hadj hcstop
  have hlt : b.size + (headerSize + c.size) < 2 ^ 32 := by
    rw [headerSize]
    omega
  have hmeets : u32 (b.addr + headerSize + hdrSize m₁ b.addr) = hdrNext m₁ b.addr := by
    rw [hsize, hnext, hc, headerSize, u32_of_lt (by omega), hadj]
  obtain ⟨next, hrel⟩ := releaseBlock_merge hm₁
    ⟨by rw [hnext, hc]; omega, by rw [hnext, hc]; exact hcfree, hmeets⟩
  rw [hsize, hnext, hc, (hsame.header hchdr).size, u32_of_lt hlt] at hrel
  rw [hrel]
  exact (Fat32.read32_put32_of_disjoint _ _ (.inl (by omega))).trans (Fat32.read32_put32 _ _ _ hlt)

/-- A block is only marked if the next one is in use or lies elsewhere. -/
lemma stop_ne_of_marked {h : Heap} (hok : HeapOk h (l ++ b :: c :: r))
    (hok' : HeapOk (releaseBlock (b.addr + headerSize) h) (l ++ ⟨b.addr, b.size, true⟩ :: c :: r))
    (hfree : c.free = true) : b.stop ≠ c.addr := by
  intro hadj
  have hsize := (hok'.header (b := ⟨b.addr, b.size, true⟩) (by simp)).size
  rw [hdrSize_releaseBlock hok hfree hadj, headerSize] at hsize
  dsimp only at hsize
  omega

/-! ### Writes to the data, and sizes -/

/-- A byte of one block lies in no other. -/
lemma HeapOk.eq_of_owns {h : Heap} (hok : HeapOk h bs) (hb : b ∈ bs) (hc : c ∈ bs)
    (hbx : b.Owns x) (hcx : c.Owns x) : b = c := by
  have hsymm : Std.Symm Block.Apart := ⟨fun _ _ => Or.symm⟩
  by_contra hne
  exact Block.apart_iff.mp (hok.apart.forall hb hc hne) x hbx hcx

/-- A write to the data of a block keeps the chain. -/
lemma HeapOk.write {h : Heap} (hok : HeapOk h bs) (hb : b ∈ bs)
    (hm : ∀ x, ¬ b.Holds x → m' x = h.mem x) : HeapOk { h with mem := m' } bs where
  linked := by
    refine hok.linked.congr fun c hc i hi => hm _ fun hx => ?_
    obtain rfl := hok.eq_of_owns hb hc hx.owns (c.owns_header hi)
    rw [Block.Holds] at hx
    omega
  apart := hok.apart
  room := hok.room
  tiles := hok.tiles

lemma HeapOk.holds_ne {h : Heap} (hok : HeapOk h bs) (hb : b ∈ bs) (hc : c ∈ bs)
    (hne : c ≠ b) (hx : c.Holds x) : ¬ b.Holds x := fun hbx =>
  hne (hok.eq_of_owns hc hb hx.owns hbx.owns)

lemma le_roundUp {n : ℕ} (hn : n ≤ 0xFFFFFFFC) : n ≤ roundUp n := by
  rw [roundUp, u32]
  omega

/-- The pages obtained for a block have room for it, unless the sum wraps. -/
lemma le_pagesNeeded {size : ℕ} (hs : size ≤ 0xFFFFEFF4) :
    size ≤ pagesNeeded size * 4096 - headerSize := by
  rw [pagesNeeded, u32, headerSize]
  omega

/-- The block of a request is big enough, unless a sum wraps. -/
lemma Alloc.le_size {grow : ℕ → Option ℕ} {bs' : List Block} {size : ℕ}
    (ha : Alloc grow bs size bs' b) (hs : size ≤ 0xFFFFEFF4) : size ≤ b.size := by
  cases ha with
  | whole d _ _ hfit => exact hfit
  | split d _ _ _ => exact le_rfl
  | grown a _ => exact le_pagesNeeded hs

end

end GordOS.Memory
