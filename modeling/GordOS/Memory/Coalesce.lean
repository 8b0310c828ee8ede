/-
Free blocks of the kernel heap that lie side by side (`kfree` in `memory/kmalloc.c`).

A block that is freed is merged with the next one of the chain, but not with the one before it.

* `Merged`: no two consecutive blocks of the chain are both free and adjacent;
* `Laid`: the blocks of a run of pages follow each other in the chain, as they lie in memory;
* `Alloc.laid`, `Release.laid`, `Alloc.merged`, `Release.merged`: what the calls keep;
* `NoFreeBefore`, `GuardedStep`: blocks are not freed behind a free one;
* `merged_of_run`: **freed runs become one block again**, if no block is freed behind a free
  one; `freed_in_order`: the blocks of a page are freed from the first to the last.
-/
import Mathlib.Tactic
import GordOS.Memory.Kmalloc

namespace GordOS.Memory

open Relation
open GordOS.Fat32 (Buf)

/-! ### Neighbours in the chain -/

/-- The blocks are free, and the second one starts where the first one ends. -/
def Mergeable (b c : Block) : Prop := b.free = true ∧ c.free = true ∧ b.stop = c.addr

instance (b c : Block) : Decidable (Mergeable b c) :=
  inferInstanceAs (Decidable (b.free = true ∧ c.free = true ∧ b.stop = c.addr))

/-- No two consecutive blocks are free and adjacent. -/
def Merged (bs : List Block) : Prop := bs.IsChain fun b c => ¬ Mergeable b c

/-- The address of the first block, or what comes behind it. -/
def firstAddr : List Block → Option ℕ → Option ℕ
  | [], q => q
  | b :: _, _ => some b.addr

/-- Each block ends where the next one starts, or where `ends` holds; `q` is the address
behind the last one. -/
def Laid (ends : ℕ → Prop) : List Block → Option ℕ → Prop
  | [], _ => True
  | b :: r, q => (ends b.stop ∨ firstAddr r q = some b.stop) ∧ Laid ends r q

section

variable {ends ends' : ℕ → Prop} {l r bs bs' : List Block} {b c : Block} {q : Option ℕ}

lemma firstAddr_append : firstAddr (l ++ r) q = firstAddr l (firstAddr r q) := by
  cases l <;> rfl

lemma laid_append : Laid ends (l ++ r) q ↔ Laid ends l (firstAddr r q) ∧ Laid ends r q := by
  induction l with
  | nil => exact ⟨fun h => ⟨trivial, h⟩, fun h => h.2⟩
  | cons b l ih => rw [List.cons_append, Laid, Laid, ih, firstAddr_append, and_assoc]

lemma Laid.imp (h : Laid ends bs q) (himp : ∀ x, ends x → ends' x) : Laid ends' bs q := by
  induction bs with
  | nil => trivial
  | cons b bs ih => exact ⟨h.1.imp_left (himp _), ih h.2⟩

/-- A part of the chain is replaced by blocks in the same place. -/
lemma Laid.replace (old new : List Block) (h : Laid ends (l ++ (old ++ r)) q)
    (hfirst : firstAddr new (firstAddr r q) = firstAddr old (firstAddr r q))
    (hnew : Laid ends old (firstAddr r q) → Laid ends new (firstAddr r q)) :
    Laid ends (l ++ (new ++ r)) q := by
  rw [laid_append, laid_append, firstAddr_append] at h ⊢
  rw [hfirst]
  exact ⟨h.1, hnew h.2.1, h.2.2⟩

/-- A block that does not end a run has a successor in the chain. -/
lemma Laid.next (h : Laid ends (l ++ b :: r) none) (hb : ¬ ends b.stop) :
    ∃ c r', r = c :: r' ∧ b.stop = c.addr := by
  have hnext := ((laid_append.mp h).2.1).resolve_left hb
  cases r with
  | nil => cases hnext
  | cons c r => exact ⟨c, r, rfl, (Option.some.inj hnext).symm⟩

/-- Something may follow the last block. -/
lemma Laid.extend (h : Laid ends bs none) (q : Option ℕ) : Laid ends bs q := by
  induction bs with
  | nil => trivial
  | cons b r ih =>
    refine ⟨h.1.imp_right fun hnext => ?_, ih h.2⟩
    cases r with
    | nil => cases hnext
    | cons c r => exact hnext

/-! ### What the calls keep -/

lemma Alloc.laid {grow : ℕ → Option ℕ} {size : ℕ} (ha : Alloc grow bs size bs' b)
    (h : Laid ends bs none)
    (hgrow : ∀ a, grow (pagesNeeded size) = some a →
      ⟨a, pagesNeeded size * 4096 - headerSize, false⟩ ∈ bs' →
      0 < pagesNeeded size ∧ ends (a + pagesNeeded size * 4096)) : Laid ends bs' none := by
  cases ha with
  | whole d hbs _ _ =>
    subst hbs
    exact Laid.replace [d] [⟨d.addr, d.size, false⟩] h rfl fun hd => hd
  | split d hbs _ hfit =>
    subst hbs
    refine Laid.replace [d] [⟨d.addr, size, false⟩,
      ⟨d.addr + headerSize + size, d.size - size - headerSize, true⟩] h rfl fun hd => ?_
    have hstop : Block.stop
        ⟨d.addr + headerSize + size, d.size - size - headerSize, true⟩ = d.stop := by
      rw [Block.stop, Block.stop]
      dsimp only
      omega
    refine ⟨.inr rfl, ?_⟩
    rw [Laid, hstop]
    exact hd
  | grown a ha =>
    obtain ⟨hpos, hends⟩ := hgrow a ha (by simp)
    refine laid_append.mpr ⟨h.extend _, .inl ?_, trivial⟩
    have hstop : Block.stop ⟨a, pagesNeeded size * 4096 - headerSize, false⟩ =
        a + pagesNeeded size * 4096 := by
      rw [Block.stop, headerSize]
      dsimp only
      omega
    rw [hstop]
    exact hends

lemma Release.laid (hr : Release bs b bs') (h : Laid ends bs none) : Laid ends bs' none := by
  cases hr with
  | mark hbs =>
    subst hbs
    exact Laid.replace [b] [⟨b.addr, b.size, true⟩] h rfl fun hd => hd
  | merge d hbs _ hadj =>
    subst hbs
    refine Laid.replace [b, d] [⟨b.addr, b.size + (headerSize + d.size), true⟩] h rfl
      fun hd => ?_
    have hstop : Block.stop ⟨b.addr, b.size + (headerSize + d.size), true⟩ = d.stop := by
      rw [Block.stop] at hadj ⊢
      rw [Block.stop]
      dsimp only
      omega
    rw [Laid, hstop]
    exact hd.2

lemma Merged.cons_imp (h : Merged (b :: r)) (himp : ∀ y, Mergeable c y → Mergeable b y) :
    Merged (c :: r) :=
  List.IsChain.imp_head (fun hb hc => hb (himp _ hc)) h

/-- Blocks behind others: the last one before them must not be mergeable. -/
lemma Merged.append_cons (h : Merged l) (hnew : Merged (c :: r))
    (hbefore : ∀ x ∈ l.getLast?, ¬ Mergeable x c) : Merged (l ++ c :: r) :=
  List.IsChain.append h hnew fun x hx _ hy => Option.some.inj hy ▸ hbefore x hx

lemma Merged.left (h : Merged (l ++ r)) : Merged l := List.IsChain.left_of_append h

lemma not_mergeable_used (hc : c.free = false) : ¬ Mergeable b c := by
  rintro ⟨-, h, -⟩
  rw [hc] at h
  cases h

lemma not_used_mergeable (hb : b.free = false) : ¬ Mergeable b c := by
  rintro ⟨h, -, -⟩
  rw [hb] at h
  cases h

lemma Alloc.merged {grow : ℕ → Option ℕ} {size : ℕ} (ha : Alloc grow bs size bs' b)
    (h : Merged bs) : Merged bs' := by
  cases ha with
  | whole d hbs _ _ =>
    subst hbs
    refine h.left.append_cons ?_ fun x _ => not_mergeable_used rfl
    exact Merged.cons_imp (List.IsChain.right_of_append h) fun y hy =>
      absurd hy (not_used_mergeable rfl)
  | split d hbs hfree hfit =>
    subst hbs
    refine h.left.append_cons ?_ fun x _ => not_mergeable_used rfl
    refine List.isChain_cons_cons.mpr ⟨not_used_mergeable rfl, ?_⟩
    -- the rest of the block ends where the block ended
    refine Merged.cons_imp (List.IsChain.right_of_append h) fun y hy => ⟨hfree, hy.2.1, ?_⟩
    rw [← hy.2.2, Block.stop, Block.stop]
    dsimp only
    omega
  | grown a ha =>
    exact h.append_cons (List.isChain_singleton _) fun x _ => not_mergeable_used rfl

lemma Release.merged (hr : Release bs b bs') (h : Merged bs)
    (hbefore : ∀ l c r, bs = l ++ c :: b :: r → c.free = true → c.stop ≠ b.addr)
    (hnext : ∀ l c r, bs = l ++ b :: c :: r → bs' = l ++ ⟨b.addr, b.size, true⟩ :: c :: r →
      c.free = true → b.stop ≠ c.addr) : Merged bs' := by
  have hfirst : ∀ {l r : List Block} {d : Block}, bs = l ++ b :: r → d.addr = b.addr →
      ∀ x ∈ l.getLast?, ¬ Mergeable x d := by
    intro l r d hbs hd x hx hm
    obtain ⟨l', rfl⟩ := List.getLast?_eq_some_iff.mp hx
    exact hbefore l' x r (by rw [hbs, List.append_assoc]; rfl) hm.1 (hm.2.2.trans hd)
  cases hr with
  | @mark l r hbs =>
    have hl := hfirst (d := ⟨b.addr, b.size, true⟩) hbs rfl
    subst hbs
    refine h.left.append_cons (List.isChain_cons.mpr ⟨fun c hc hm => ?_, ?_⟩) hl
    · cases r with
      | nil => cases hc
      | cons d r =>
        obtain rfl := Option.some.inj hc
        exact hnext l d r rfl rfl hm.2.1 hm.2.2
    · exact (List.IsChain.right_of_append h).tail
  | @merge l r d hbs hfree hadj =>
    have hl := hfirst (d := ⟨b.addr, b.size + (headerSize + d.size), true⟩) hbs rfl
    subst hbs
    refine h.left.append_cons ?_ hl
    refine Merged.cons_imp (List.IsChain.right_of_append h).tail fun y hy =>
      ⟨hfree, hy.2.1, ?_⟩
    rw [← hy.2.2]
    rw [Block.stop] at hadj ⊢
    rw [Block.stop]
    dsimp only
    omega

end

/-! ### Runs of pages -/

/-- The address behind a run of pages. -/
def runStop (run : ℕ × ℕ) : ℕ := run.1 + run.2 * 4096

/-- A run of pages ends at the address. -/
def EndsRun (runs : List (ℕ × ℕ)) (x : ℕ) : Prop := ∃ run ∈ runs, runStop run = x

/-- The runs do not overlap. -/
def RunsApart (p q : ℕ × ℕ) : Prop := runStop p ≤ q.1 ∨ runStop q ≤ p.1

/-- The heap is in order, the blocks follow each other as they lie in memory, and no two
neighbours are mergeable. -/
structure Tidy (s : KmState) (bs : List Block) : Prop where
  ok : KmOk s bs
  laid : Laid (EndsRun s.heap.runs) bs none
  runs : s.heap.runs.Pairwise RunsApart
  pos : ∀ run ∈ s.heap.runs, 0 < run.2
  merged : Merged bs

/-- Blocks are not freed behind a free one: the block before the one at `ptr` is in use, or
lies elsewhere. -/
def NoFreeBefore (h : Heap) (ptr : ℕ) : Prop :=
  h.chain.IsChain fun b c => ptr = c.addr + headerSize → b.free = true → b.stop ≠ c.addr

/-- The calls of the kernel heap, where no block is freed behind a free one. -/
inductive GuardedStep : KmState → KmState → Prop where
  | kmalloc {s : KmState} (n : ℕ) (phys : Option ℕ) (hn : n < 2 ^ 32)
      (hphys : PageRun s.heap (pagesNeeded (roundUp n)) phys) :
      GuardedStep s ⟨(Memory.kmalloc phys n s.heap).2,
        if (Memory.kmalloc phys n s.heap).1 = 0 then s.live
        else (Memory.kmalloc phys n s.heap).1 :: s.live⟩
  | kfree {s : KmState} (ptr : ℕ) (hptr : ptr ∈ s.live) (hbefore : NoFreeBefore s.heap ptr) :
      GuardedStep s ⟨Memory.kfree ptr s.heap, s.live.erase ptr⟩

section

variable {s s' : KmState} {bs : List Block} {run : ℕ × ℕ}

lemma GuardedStep.step (h : GuardedStep s s') : KmStep s s' := by
  cases h with
  | kmalloc n phys hn hphys => exact .kmalloc n phys hn hphys
  | kfree ptr hptr _ => exact .kfree ptr hptr

lemma Tidy.of_run (hs : Tidy s bs) (hrun : run ∈ s.heap.runs) {q : ℕ × ℕ}
    (hq : q ∈ s.heap.runs) (hne : q ≠ run) : RunsApart q run := by
  have hsymm : Std.Symm RunsApart := ⟨fun _ _ => Or.symm⟩
  exact hs.runs.forall hq hrun hne

/-- The runs after a request, and the pages of a new block among them. -/
lemma Tidy.kmalloc_runs (hs : Tidy s bs) {n : ℕ} {phys : Option ℕ}
    (hphys : PageRun s.heap (pagesNeeded (roundUp n)) phys) :
    let s' := (kmalloc phys n s.heap).2
    (∀ run ∈ s.heap.runs, run ∈ s'.runs) ∧ s'.runs.Pairwise RunsApart ∧
      (∀ run ∈ s'.runs, 0 < run.2) ∧
      ∀ run ∈ s'.runs, run ∈ s.heap.runs ∨
        phys.map (· + kernelVirtualBase) = some run.1 ∧ run.2 = pagesNeeded (roundUp n) := by
  intro s'
  have hcases := allocBlock_runs (fun _ => phys.map (· + kernelVirtualBase)) n s.heap
  rcases hcases with heq | ⟨a, ha, heq⟩
  · have heq' : s'.runs = s.heap.runs := heq
    rw [heq']
    exact ⟨fun _ h => h, hs.runs, hs.pos, fun _ h => .inl h⟩
  · have heq' : s'.runs = s.heap.runs ++ [(a, pagesNeeded (roundUp n))] := heq
    obtain ⟨hfresh, -⟩ := hphys.fresh ha
    rw [heq']
    refine ⟨fun _ h => List.mem_append_left _ h, ?_, fun run hrun => ?_, fun run hrun => ?_⟩
    · refine List.pairwise_append.mpr ⟨hs.runs, List.pairwise_singleton _ _, ?_⟩
      intro q hq r hr
      obtain rfl := List.mem_singleton.mp hr
      exact hfresh.new q hq
    · rcases List.mem_append.mp hrun with hrun | hrun
      · exact hs.pos run hrun
      · obtain rfl := List.mem_singleton.mp hrun
        exact hfresh.pos
    · rcases List.mem_append.mp hrun with hrun | hrun
      · exact .inl hrun
      · obtain rfl := List.mem_singleton.mp hrun
        exact .inr ⟨ha, rfl⟩

lemma Tidy.kmalloc (hs : Tidy s bs) {n : ℕ} {phys : Option ℕ} (hn : n < 2 ^ 32)
    (hphys : PageRun s.heap (pagesNeeded (roundUp n)) phys) :
    ∃ bs', Tidy ⟨(Memory.kmalloc phys n s.heap).2,
      if (Memory.kmalloc phys n s.heap).1 = 0 then s.live
      else (Memory.kmalloc phys n s.heap).1 :: s.live⟩ bs' := by
  obtain ⟨bs₁, hok⟩ := hs.ok.step (.kmalloc n phys hn hphys)
  obtain ⟨hkeep, hapart, hpos, hold⟩ := hs.kmalloc_runs hphys
  have hfresh : ∀ a, phys.map (· + kernelVirtualBase) = some a →
      Fresh s.heap.runs a (pagesNeeded (roundUp n)) := fun a ha => (hphys.fresh ha).1
  rcases allocBlock_spec (fun _ => phys.map (· + kernelVirtualBase)) hs.ok.heap hfresh with
    heq | ⟨bs', b, halloc, -, hok', -⟩
  · have heq' : Memory.kmalloc phys n s.heap = (0, s.heap) := heq
    rw [heq', if_pos rfl]
    exact ⟨bs, hs⟩
  · have hok'' : HeapOk (Memory.kmalloc phys n s.heap).2 bs' := hok'
    obtain rfl : bs₁ = bs' := hok.heap.chain_eq.symm.trans hok''.chain_eq
    refine ⟨bs₁, hok, halloc.laid (hs.laid.imp fun x hx => ?_) fun a ha hmem => ?_, hapart, hpos,
      halloc.merged hs.merged⟩
    · obtain ⟨run, hrun, hstop⟩ := hx
      exact ⟨run, hkeep run hrun, hstop⟩
    · -- the first byte of the new block lies in a run, which is not an earlier one
      have hf := hfresh a ha
      have hpages := hf.pos
      obtain ⟨run, hrun, hin⟩ := (hok''.tiles a).mp
        ⟨_, hmem, le_rfl, Block.lt_stop ⟨a, pagesNeeded (roundUp n) * 4096 - headerSize, false⟩⟩
      rw [InRun] at hin
      rcases hold run hrun with hrun' | ⟨hstart, hlen⟩
      · have := hf.new run hrun'
        omega
      · obtain rfl : a = run.1 := Option.some.inj (ha.symm.trans hstart)
        exact ⟨hpages, run, hrun, by rw [runStop, hlen]⟩

lemma Tidy.kfree (hs : Tidy s bs) {ptr : ℕ} (hptr : ptr ∈ s.live)
    (hbefore : NoFreeBefore s.heap ptr) :
    ∃ bs', Tidy ⟨Memory.kfree ptr s.heap, s.live.erase ptr⟩ bs' := by
  obtain ⟨b, hb, -, rfl⟩ := hs.ok.used ptr hptr
  obtain ⟨bs', hr, hok⟩ := hs.ok.free hb hptr
  have hruns : (Memory.kfree (b.addr + headerSize) s.heap).runs = s.heap.runs := by
    obtain ⟨-, -, -, -, hruns⟩ := releaseBlock_spec hs.ok.heap hb
    exact hruns
  refine ⟨bs', hok, ?_, ?_, ?_, hr.merged hs.merged ?_ ?_⟩
  · rw [hruns]
    exact hr.laid hs.laid
  · rw [hruns]
    exact hs.runs
  · rw [hruns]
    exact hs.pos
  · rintro l c r rfl hfree
    rw [NoFreeBefore, hs.ok.heap.chain_eq, List.isChain_append_cons_cons] at hbefore
    exact hbefore.2.1 rfl hfree
  · rintro l c r rfl rfl hfree
    exact stop_ne_of_marked hs.ok.heap hok.heap hfree

lemma tidy_of_run {mem : Buf} (hrun : ReflTransGen GuardedStep (kmInit mem) s) :
    ∃ bs, Tidy s bs := by
  induction hrun with
  | refl =>
    exact ⟨[], kmOk_init mem, trivial, List.Pairwise.nil, fun _ h => absurd h List.not_mem_nil,
      List.isChain_nil⟩
  | tail _ hstep ih =>
    obtain ⟨bs, hs⟩ := ih
    cases hstep with
    | kmalloc n phys hn hphys => exact hs.kmalloc hn hphys
    | kfree ptr hptr hbefore => exact hs.kfree hptr hbefore

/-! ### Freed runs -/

/-- A run without blocks in use lies in one free block. -/
lemma Tidy.covered (hs : Tidy s bs) (hrun : run ∈ s.heap.runs)
    (hfree : ∀ b ∈ bs, (∃ x, InRun run x ∧ b.Owns x) → b.free = true) :
    ∃ b ∈ bs, b.free = true ∧ b.addr ≤ run.1 ∧ runStop run ≤ b.stop := by
  have hpos := hs.pos run hrun
  have hin : InRun run run.1 := ⟨le_rfl, by omega⟩
  obtain ⟨b, hb, hown⟩ := (hs.ok.heap.tiles run.1).mpr ⟨run, hrun, hin⟩
  have hbfree := hfree b hb ⟨run.1, hin, hown⟩
  refine ⟨b, hb, hbfree, hown.1, Nat.le_of_not_lt fun hlt => ?_⟩
  rw [Block.Owns] at hown
  -- the block ends inside the run, so that the next one starts there
  have hends : ¬ EndsRun s.heap.runs b.stop := by
    rintro ⟨q, hq, hstop⟩
    by_cases hne : q = run
    · rw [← hne, hstop] at hlt
      exact Nat.lt_irrefl _ hlt
    · have hap := hs.of_run hrun hq hne
      have hle : q.1 ≤ runStop q := Nat.le_add_right _ _
      rcases hap with hap | hap <;> omega
  obtain ⟨l, r, rfl⟩ := List.append_of_mem hb
  obtain ⟨c, r, rfl, hadj⟩ := hs.laid.next hends
  have hcfree : c.free = true := by
    refine hfree c (by simp) ⟨c.addr, ⟨by omega, ?_⟩, le_rfl, c.lt_stop⟩
    rw [runStop] at hlt
    omega
  have hno := hs.merged
  rw [Merged, List.isChain_append_cons_cons] at hno
  exact hno.2.1 ⟨hbfree, hcfree, hadj⟩

/-- A block that covers a run is the run, if no other one touches it. -/
lemma Tidy.exact (hs : Tidy s bs) (hrun : run ∈ s.heap.runs) {b : Block} (hb : b ∈ bs)
    (hlo : b.addr ≤ run.1) (hhi : runStop run ≤ b.stop)
    (halone : ∀ q ∈ s.heap.runs, runStop q ≠ run.1 ∧ q.1 ≠ runStop run) :
    b.addr = run.1 ∧ b.stop = runStop run := by
  have hpos := hs.pos run hrun
  -- a byte of the block outside the run would lie in a run that touches it
  have hin : ∀ x, b.Owns x → x + 1 = run.1 ∨ x = runStop run → False := by
    intro x hx hout
    obtain ⟨q, hq, hxq⟩ := (hs.ok.heap.tiles x).mp ⟨b, hb, hx⟩
    have hal := halone q hq
    rw [InRun] at hxq
    by_cases hne : q = run
    · subst hne
      rw [runStop] at hout
      omega
    · have hap := hs.of_run hrun hq hne
      simp only [RunsApart, runStop] at hap hal hout
      omega
  constructor
  · by_contra hne
    have hlt : run.1 < runStop run := by
      rw [runStop]
      omega
    exact hin (run.1 - 1) ⟨by omega, by omega⟩ (.inl (by omega))
  · by_contra hne
    have hle : run.1 ≤ runStop run := Nat.le_add_right _ _
    exact hin (runStop run) ⟨by omega, by omega⟩ (.inr rfl)

/-- **Freed runs become one block again**, if no block is freed behind a free one: no two
consecutive blocks are free and adjacent, and a run of pages without blocks in use lies in one
free block, which serves every request that the pages have room for. -/
theorem merged_of_run {mem : Buf} (hrun : ReflTransGen GuardedStep (kmInit mem) s) :
    (∀ l b c r, s.heap.chain = l ++ b :: c :: r →
      ¬ (b.free = true ∧ c.free = true ∧ b.stop = c.addr)) ∧
    ∀ run ∈ s.heap.runs,
      (∀ b ∈ s.heap.chain, (∃ x, InRun run x ∧ b.Owns x) → b.free = true) →
      (∃ b ∈ s.heap.chain, b.free = true ∧ (∀ x, InRun run x → b.Owns x) ∧
        ((∀ q ∈ s.heap.runs, runStop q ≠ run.1 ∧ q.1 ≠ runStop run) →
          b.addr = run.1 ∧ b.stop = runStop run)) ∧
      ∀ phys n, 0 < n → n ≤ run.2 * 4096 - headerSize → (kmalloc phys n s.heap).1 ≠ 0 := by
  obtain ⟨bs, hs⟩ := tidy_of_run hrun
  rw [hs.ok.heap.chain_eq]
  refine ⟨?_, fun run hrun hfree => ?_⟩
  · rintro l b c r rfl
    have hno := hs.merged
    rw [Merged, List.isChain_append_cons_cons] at hno
    exact hno.2.1
  · obtain ⟨b, hb, hbfree, hlo, hhi⟩ := hs.covered hrun hfree
    refine ⟨⟨b, hb, hbfree, fun x hx => ⟨hlo.trans hx.1, hx.2.trans_le hhi⟩,
      hs.exact hrun hb hlo hhi⟩, fun phys n hn hsize => ?_⟩
    refine allocBlock_ne_zero _ hs.ok.heap (Nat.ne_of_gt hn) hb hbfree ?_
    rw [runStop, Block.stop] at hhi
    rw [roundUp, u32, headerSize] at *
    omega

end

/-- The heap after the first page was taken and given back. -/
def onePage : Heap := kfree 0xC000100C (kmalloc (some 0x1000) 10 (kmInit fun _ => 0).heap).2

/-- Two blocks are cut from the page. -/
def twoBlocks : KmState :=
  ⟨(kmalloc none 20 (kmalloc none 10 onePage).2).2, [0xC0001024, 0xC000100C]⟩

/-- A request that gets a block. -/
lemma GuardedStep.of_kmalloc {h : Heap} {live : List ℕ} {n ptr : ℕ} {phys : Option ℕ}
    (hn : n < 2 ^ 32) (hphys : PageRun h (pagesNeeded (roundUp n)) phys)
    (hptr : (Memory.kmalloc phys n h).1 = ptr) (h0 : ptr ≠ 0) :
    GuardedStep ⟨h, live⟩ ⟨(Memory.kmalloc phys n h).2, ptr :: live⟩ := by
  subst hptr
  have hstep := GuardedStep.kmalloc (s := ⟨h, live⟩) n phys hn hphys
  rwa [if_neg h0] at hstep

/-- The block that was handed out last is freed. -/
lemma GuardedStep.of_kfree {h : Heap} {live : List ℕ} {ptr : ℕ} (hbefore : NoFreeBefore h ptr) :
    GuardedStep ⟨h, ptr :: live⟩ ⟨Memory.kfree ptr h, live⟩ := by
  have hstep := GuardedStep.kfree (s := ⟨h, ptr :: live⟩) ptr List.mem_cons_self hbefore
  rwa [List.erase_cons_head] at hstep

lemma guarded_twoBlocks : ReflTransGen GuardedStep (kmInit fun _ => 0) twoBlocks := by
  have hphys : PageRun (kmInit fun _ => 0).heap (pagesNeeded (roundUp 10)) (some 0x1000) := by
    intro a ha
    obtain rfl := Option.some.inj ha
    exact ⟨by decide, by decide, by decide, by decide, fun _ hr => by cases hr⟩
  have hnone : ∀ h n, PageRun h n none := fun _ _ _ ha => by cases ha
  have h₁ : GuardedStep (kmInit fun _ => 0)
      ⟨(kmalloc (some 0x1000) 10 (kmInit fun _ => 0).heap).2, [0xC000100C]⟩ :=
    .of_kmalloc (by decide) hphys (by decide +kernel) (by decide)
  have h₂ : GuardedStep ⟨(kmalloc (some 0x1000) 10 (kmInit fun _ => 0).heap).2, [0xC000100C]⟩
      ⟨onePage, []⟩ := .of_kfree (by rw [NoFreeBefore]; decide +kernel)
  have h₃ : GuardedStep ⟨onePage, []⟩ ⟨(kmalloc none 10 onePage).2, [0xC000100C]⟩ :=
    .of_kmalloc (by decide) (hnone _ _) (by decide +kernel) (by decide)
  have h₄ : GuardedStep ⟨(kmalloc none 10 onePage).2, [0xC000100C]⟩ twoBlocks :=
    .of_kmalloc (by decide) (hnone _ _) (by decide +kernel) (by decide)
  exact .tail (.tail (.tail (.tail .refl h₁) h₂) h₃) h₄

/-- The blocks of a page are freed from the last to the first. -/
theorem merged_of_run_page :
    ∃ s : KmState, s.live = [] ∧ s.heap.runs = [(0xC0001000, 1)] ∧
      ((∀ l b c r, s.heap.chain = l ++ b :: c :: r →
        ¬ (b.free = true ∧ c.free = true ∧ b.stop = c.addr)) ∧
      ∀ run ∈ s.heap.runs,
        (∀ b ∈ s.heap.chain, (∃ x, InRun run x ∧ b.Owns x) → b.free = true) →
        (∃ b ∈ s.heap.chain, b.free = true ∧ (∀ x, InRun run x → b.Owns x) ∧
          ((∀ q ∈ s.heap.runs, runStop q ≠ run.1 ∧ q.1 ≠ runStop run) →
            b.addr = run.1 ∧ b.stop = runStop run)) ∧
        ∀ phys n, 0 < n → n ≤ run.2 * 4096 - headerSize → (kmalloc phys n s.heap).1 ≠ 0) := by
  have h₁ : GuardedStep twoBlocks ⟨kfree 0xC0001024 twoBlocks.heap, [0xC000100C]⟩ :=
    .of_kfree (by rw [NoFreeBefore]; decide +kernel)
  have h₂ : GuardedStep ⟨kfree 0xC0001024 twoBlocks.heap, [0xC000100C]⟩
      ⟨kfree 0xC000100C (kfree 0xC0001024 twoBlocks.heap), []⟩ :=
    .of_kfree (by rw [NoFreeBefore]; decide +kernel)
  exact ⟨_, rfl, by decide +kernel, merged_of_run (.tail (.tail guarded_twoBlocks h₁) h₂)⟩

/-- **A page falls apart**: its two blocks are freed from the first to the last, and stay apart
though they are free and adjacent. A request that an empty page has room for is refused. -/
theorem freed_in_order :
    ∃ s : KmState, ReflTransGen KmStep (kmInit fun _ => 0) s ∧ s.live = [] ∧
      s.heap.runs = [(0xC0001000, 1)] ∧
      s.heap.chain = [⟨0xC0001000, 12, true⟩, ⟨0xC0001018, 4060, true⟩] ∧
      Mergeable ⟨0xC0001000, 12, true⟩ ⟨0xC0001018, 4060, true⟩ ∧
      (kmalloc none 4084 s.heap).1 = 0 := by
  have hfree : ∀ {h live rest ptr}, ptr ∈ live → live.erase ptr = rest →
      KmStep ⟨h, live⟩ ⟨kfree ptr h, rest⟩ := fun hptr hrest => hrest ▸ .kfree _ hptr
  have h₁ : KmStep twoBlocks ⟨kfree 0xC000100C twoBlocks.heap, [0xC0001024]⟩ :=
    hfree (by decide) (by decide)
  have h₂ : KmStep ⟨kfree 0xC000100C twoBlocks.heap, [0xC0001024]⟩
      ⟨kfree 0xC0001024 (kfree 0xC000100C twoBlocks.heap), []⟩ := hfree (by decide) (by decide)
  have hstart : ReflTransGen KmStep (kmInit fun _ => 0) twoBlocks :=
    ReflTransGen.mono (fun _ _ h => GuardedStep.step h) _ _ guarded_twoBlocks
  exact ⟨_, .tail (.tail hstart h₁) h₂, rfl, by decide +kernel, by decide +kernel, by decide,
    by decide +kernel⟩

end GordOS.Memory
