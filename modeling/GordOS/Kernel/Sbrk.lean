/-
The heap of a process (`sys_sbrk` of `kernel/syscall.c`).

Growth maps whole pages from the break on and gives up at the first page for which there is
no memory, without taking back the pages mapped before. The break moves back by bytes, and
pages stay mapped.

* `Proc`, `sysSbrk`: the code;
* `shows_sbrkPage`, `growEnds_sbrkGrow`: the loop follows the address spaces;
* `sbrkEnds`: how a call ends;
* `HeapStep`, `Orderly`: calls and stores of the process, and the condition on calls: the
  break moves back by whole pages, and a growth by several pages has room;
* `sysSbrk_of_run`: **the break and the heap in every orderly run**;
* `sysSbrk_loses`: a byte of the heap that is lost when the break is not at a page boundary.
-/
import Mathlib.Tactic
import GordOS.Kernel.Files
import GordOS.Kernel.Program

namespace GordOS.Kernel

open GordOS Fallible Memory
open GordOS.Fat32 (Buf)

/-! ### The code -/

/-- The fields of `process_t` that say what memory a process has. -/
structure Proc where
  dir : ℕ
  heapStart : ℕ
  heapEnd : ℕ
deriving DecidableEq

/-- One round of the loop of `sys_sbrk`. -/
def sbrkPage (dir oldBreak page : ℕ) : Fallible Mem Unit := do
  let _ ← mapNewPage dir ((oldBreak + page * 0x1000) % 2 ^ 32) userFlags
  pure ()

/-- The loop of `sys_sbrk`. -/
def sbrkGrow (dir oldBreak pages : ℕ) : Fallible Mem Unit :=
  (List.range pages).forM (sbrkPage dir oldBreak)

/-- `pages_needed`. -/
def sbrkPages (increment : ℤ) : ℕ := (increment.toNat + 0xFFF) / 0x1000

/-- `new_break`. -/
def newBreak (increment : ℤ) (p : Proc) : ℕ :=
  (p.heapEnd + sbrkPages increment * 0x1000) % 2 ^ 32

/-- `sys_sbrk`. -/
def sysSbrk (increment : ℤ) (p : Proc) (m : Mem) : ℤ × Proc × Mem :=
  if p.heapEnd = 0 then (-1, p, m)
  else if increment = 0 then (int32 p.heapEnd, p, m)
  else if increment < 0 then
    if (p.heapEnd + 2 ^ 32 - p.heapStart) % 2 ^ 32 < (-increment).toNat then (-1, p, m)
    else
      (int32 p.heapEnd,
        { p with heapEnd := (p.heapEnd + 2 ^ 32 - (-increment).toNat) % 2 ^ 32 }, m)
  else if newBreak increment p < p.heapEnd ∨ userStackPage - 0x1000 ≤ newBreak increment p then
    (-1, p, m)
  else
    let r := sbrkGrow p.dir p.heapEnd (sbrkPages increment) m
    if r.1 = none then (-1, p, r.2)
    else (int32 p.heapEnd, { p with heapEnd := newBreak increment p }, r.2)

/-! ### Growth -/

/-- The places of the pages that `sys_sbrk` maps. -/
def sbrkPlaces (oldBreak pages : ℕ) : List ℕ := (List.range pages).map (oldBreak / pageSize + ·)

section

variable {L : Layout} {m : Mem} {dirs : List ℕ} {s : Space} {d virt oldBreak pages : ℕ}

lemma sbrk_virt {page : ℕ} (hbreak : oldBreak + pages * 0x1000 ≤ 0xC0000000) (hp : page < pages) :
    (oldBreak + page * 0x1000) % 2 ^ 32 / pageSize = oldBreak / pageSize + page ∧
      oldBreak / pageSize + page < userPages := by
  rw [pageSize, userPages]
  omega

/-- **One round**: a new page is mapped with what it holds, or nothing happens. -/
lemma shows_sbrkPage {page : ℕ} (h : Shows True L dirs m s) (hd : d ∈ dirs)
    (hbreak : oldBreak + pages * 0x1000 ≤ 0xC0000000) (hp : page < pages) :
    (∃ m', sbrkPage d oldBreak page m = (none, m') ∧ Shows True L dirs m' s ∧
      ∀ b, Space.addPage d (oldBreak / pageSize + page) userFlags b s = (none, s)) ∨
    ∃ m' f s', sbrkPage d oldBreak page m = (some (), m') ∧
      (∀ g, g ∉ kernelPages → m'.ram g = m.ram g) ∧
      Space.addPage d (oldBreak / pageSize + page) userFlags (m.ram f) s = (some (), s') ∧
      Space.NewPage d (oldBreak / pageSize + page) userFlags f (m.ram f) s s' ∧
      Shows True L dirs m' s' := by
  obtain ⟨hplace, hlt⟩ := sbrk_virt hbreak hp
  have hmap := h.mapNewPage hd (hplace ▸ hlt) userFlags_lt
  rw [hplace] at hmap
  generalize oldBreak / pageSize + page = v at hmap
  rcases hmap with ⟨m', s', hrun, h', hadd⟩ | ⟨f, m', hrun, hker, -, hram, hadd⟩
  · refine .inl ⟨m', bind_of_none hrun, ?_⟩
    rcases Space.addPage_spec (h.zero trivial) d v userFlags fun _ => 0 with
      hnone | ⟨f, s'', hsome, -⟩
    · obtain ⟨-, rfl⟩ := Prod.mk.inj (hnone.symm.trans (hadd _))
      exact ⟨h', hadd⟩
    · cases hsome.symm.trans (hadd _)
  · obtain ⟨s', hs', hnew, h'⟩ := hadd (m'.ram f)
    rw [Mem.setPage_ram] at h'
    rw [hram f hker] at hs' hnew
    exact .inr ⟨m', f, s', (bind_of_some hrun).trans (pure_apply _ _), hram, hs', hnew, h'⟩

/-- How a loop that maps new pages at the places `vs` ends: all of them are mapped, or, without
room, the first ones. -/
structure GrowEnds (L : Layout) (dirs : List ℕ) (d : ℕ) (vs : List ℕ) (s : Space)
    (r : Option Unit × Mem) : Prop where
  pages : ∃ l s', l.map Prod.fst <+: vs ∧ (r.1 = some () ↔ l.map Prod.fst = vs) ∧
    Space.Adds d userFlags l s s' ∧ Shows True L dirs r.2 s'
  room : s.Room d vs → r.1 = some ()

/-- **The loop of `sys_sbrk`.** -/
lemma growEnds_sbrkGrow (h : Shows True L dirs m s) (hd : d ∈ dirs)
    (hbreak : oldBreak + pages * 0x1000 ≤ 0xC0000000) :
    GrowEnds L dirs d (sbrkPlaces oldBreak pages) s (sbrkGrow d oldBreak pages m) := by
  have hloop : ∀ (is : List ℕ) (m : Mem) (s : Space), (∀ i ∈ is, i < pages) →
      Shows True L dirs m s → GrowEnds L dirs d (is.map (oldBreak / pageSize + ·)) s
        (is.forM (sbrkPage d oldBreak) m) := by
    intro is
    induction is with
    | nil =>
      exact fun m s _ h => ⟨⟨[], s, List.nil_prefix, iff_of_true rfl rfl, .nil s, h⟩, fun _ => rfl⟩
    | cons i is ih =>
      intro m s his h
      have hzero := h.zero trivial
      have hmax : ∀ f ∈ s.free, f < maxPages := fun f hf => (Pmm.mem_clear.mp (h.free ▸ hf)).1
      have hforM : (i :: is).forM (sbrkPage d oldBreak) =
          (sbrkPage d oldBreak i >>= fun _ => is.forM (sbrkPage d oldBreak)) := rfl
      rw [List.map_cons, hforM]
      rcases shows_sbrkPage h hd hbreak (his i List.mem_cons_self) with
        ⟨m₁, hrun, h₁, hnone⟩ | ⟨m₁, f, s₁, hrun, -, hadd, hnew, h₁⟩
      · rw [bind_of_none hrun]
        refine ⟨⟨[], s, List.nil_prefix, iff_of_false (Option.some_ne_none _).symm
          (List.cons_ne_nil _ _).symm, .nil s, h₁⟩, fun hroom => ?_⟩
        obtain ⟨f, s', hsome, -⟩ := Space.addPage_of_room hzero hmax hroom userFlags fun _ => 0
        cases (hnone _).symm.trans hsome
      · rw [bind_of_some hrun]
        obtain ⟨⟨l, s', hl, hall, hadds, h'⟩, hroom'⟩ :=
          ih m₁ s₁ (fun j hj => his j (List.mem_cons_of_mem i hj)) h₁
        refine ⟨⟨(_, m.ram f) :: l, s', List.cons_prefix_cons.mpr ⟨rfl, hl⟩,
          hall.trans (List.cons_inj_right _).symm, .cons hnew hadds, h'⟩, fun hroom => ?_⟩
        obtain ⟨g, s'', hsome, -, hroom''⟩ :=
          Space.addPage_of_room hzero hmax hroom userFlags (m.ram f)
        obtain ⟨-, rfl⟩ := Prod.mk.inj (hadd.symm.trans hsome)
        exact hroom' hroom''
  exact hloop _ m s (fun i hi => List.mem_range.mp hi) h

end

/-! ### How a call ends -/

/-- The arguments are signed 32-bit numbers. -/
def IsInt32 (x : ℤ) : Prop := -2 ^ 31 ≤ x ∧ x < 2 ^ 31

/-- The pages that a growing call maps lie between the old break and the stack. -/
def Grows (increment : ℤ) (p : Proc) : Prop :=
  0 < increment ∧ p.heapEnd + sbrkPages increment * 0x1000 < userStackPage - 0x1000

/-- **How a call ends.** -/
inductive SbrkEnds (increment : ℤ) (p : Proc) (m : Mem) : ℤ × Proc × Mem → Prop where
  | refused : SbrkEnds increment p m (-1, p, m)
  | query (h : increment = 0) : SbrkEnds increment p m (int32 p.heapEnd, p, m)
  | shrunk (h : increment < 0) (hle : (-increment).toNat ≤ p.heapEnd - p.heapStart) :
      SbrkEnds increment p m
        (int32 p.heapEnd, { p with heapEnd := p.heapEnd - (-increment).toNat }, m)
  | grown {m' : Mem} (h : Grows increment p)
      (hrun : sbrkGrow p.dir p.heapEnd (sbrkPages increment) m = (some (), m')) :
      SbrkEnds increment p m
        (int32 p.heapEnd, { p with heapEnd := p.heapEnd + sbrkPages increment * 0x1000 }, m')
  | exhausted {m' : Mem} (h : Grows increment p)
      (hrun : sbrkGrow p.dir p.heapEnd (sbrkPages increment) m = (none, m')) :
      SbrkEnds increment p m (-1, p, m')

lemma sbrkEnds {increment : ℤ} {p : Proc} (hinc : IsInt32 increment)
    (hle : p.heapStart ≤ p.heapEnd) (hlt : p.heapEnd < 2 ^ 32) (m : Mem) :
    SbrkEnds increment p m (sysSbrk increment p m) := by
  obtain ⟨hmin, hmax⟩ := hinc
  rw [sysSbrk]
  split
  · exact .refused
  split
  · next h => exact .query h
  split
  · next h =>
    split
    · exact .refused
    · next hshrink =>
      have hend : (p.heapEnd + 2 ^ 32 - (-increment).toNat) % 2 ^ 32 =
          p.heapEnd - (-increment).toNat := by omega
      rw [hend]
      exact .shrunk h (by omega)
  split
  · exact .refused
  · next h hbreak =>
    rw [not_or] at hbreak
    have hpages : sbrkPages increment * 0x1000 ≤ 2 ^ 31 := by
      rw [sbrkPages]
      omega
    have hnew : newBreak increment p = p.heapEnd + sbrkPages increment * 0x1000 := by
      rw [newBreak] at hbreak ⊢
      generalize sbrkPages increment * 0x1000 = grow at hpages hbreak ⊢
      omega
    rw [hnew] at hbreak ⊢
    have hgrows : Grows increment p := ⟨by omega, Nat.lt_of_not_le hbreak.2⟩
    rcases hrun : sbrkGrow p.dir p.heapEnd (sbrkPages increment) m with ⟨_ | _, m'⟩
    · exact .exhausted hgrows hrun
    · exact .grown hgrows hrun

/-! ### Runs -/

/-- The memory, the directories in use, and the process that calls. -/
structure HeapState where
  mem : Mem
  dirs : List ℕ
  proc : Proc

namespace HeapState

/-- The process calls `sys_sbrk`. -/
def sbrk (s : HeapState) (increment : ℤ) : HeapState :=
  ⟨(sysSbrk increment s.proc s.mem).2.2, s.dirs, (sysSbrk increment s.proc s.mem).2.1⟩

/-- The process stores a byte. -/
def store (s : HeapState) (a : ℕ) (x : UInt8) : HeapState :=
  ⟨s.mem.store s.proc.dir a x, s.dirs, s.proc⟩

end HeapState

/-- The break moves back by whole pages, and there is room for a growth by several pages. -/
structure Orderly (s : HeapState) (increment : ℤ) : Prop where
  aligned : increment < 0 → (-increment).toNat % pageSize = 0
  room : Grows increment s.proc → sbrkPages increment ≤ 1 ∨
    (s.mem.space s.dirs).Room s.proc.dir (sbrkPlaces s.proc.heapEnd (sbrkPages increment))

/-- Calls that meet a condition, and stores. -/
inductive HeapStep (P : HeapState → ℤ → Prop) : HeapState → HeapState → Prop where
  | sbrk (s : HeapState) (increment : ℤ) (hinc : IsInt32 increment) (h : P s increment) :
      HeapStep P s (s.sbrk increment)
  | store (s : HeapState) (a : ℕ) (x : UInt8) (ha : a < 0xC0000000) : HeapStep P s (s.store a x)

/-- The memory is in order, and the break is at a page boundary behind the start of the heap. -/
structure BreakOk (L : Layout) (s : HeapState) : Prop where
  mem : WellFormed L s.mem s.dirs
  dir : s.proc.dir ∈ s.dirs
  le : s.proc.heapStart ≤ s.proc.heapEnd
  page : s.proc.heapEnd % pageSize = 0
  lt : s.proc.heapEnd < 2 ^ 32

section

variable {L : Layout} {s s' s₀ : HeapState} {increment : ℤ} {m' : Mem} {r : Option Unit}

lemma Grows.le {p : Proc} (h : Grows increment p) :
    p.heapEnd + sbrkPages increment * 0x1000 ≤ 0xC0000000 := by
  have hbound := h.2
  rw [userStackPage] at hbound
  omega

/-- The loop of a growing call. -/
lemma BreakOk.growEnds (h : BreakOk L s) (hgrows : Grows increment s.proc)
    (hrun : sbrkGrow s.proc.dir s.proc.heapEnd (sbrkPages increment) s.mem = (r, m')) :
    GrowEnds L s.dirs s.proc.dir (sbrkPlaces s.proc.heapEnd (sbrkPages increment))
      (s.mem.space s.dirs) (r, m') := hrun ▸ growEnds_sbrkGrow h.mem.shows h.dir hgrows.le

/-- **One call.** -/
lemma BreakOk.sbrk (h : BreakOk L s) (hinc : IsInt32 increment) (ho : Orderly s increment) :
    BreakOk L (s.sbrk increment) := by
  have hends := sbrkEnds hinc h.le h.lt s.mem
  rw [HeapState.sbrk]
  generalize sysSbrk increment s.proc s.mem = res at hends
  have hpage := h.page
  have hlt := h.lt
  have hle := h.le
  cases hends with
  | refused => exact h
  | query _ => exact h
  | shrunk hneg hshrink =>
    have haligned := ho.aligned hneg
    refine ⟨h.mem, h.dir, ?_, ?_, ?_⟩
    · show s.proc.heapStart ≤ s.proc.heapEnd - (-increment).toNat
      omega
    · show (s.proc.heapEnd - (-increment).toNat) % pageSize = 0
      rw [pageSize] at haligned hpage ⊢
      omega
    · show s.proc.heapEnd - (-increment).toNat < 2 ^ 32
      omega
  | grown hgrows hrun =>
    obtain ⟨l, s', -, -, -, h'⟩ := (h.growEnds hgrows hrun).pages
    have hbound := hgrows.le
    refine ⟨h'.wellFormed, h.dir, ?_, ?_, ?_⟩
    · show s.proc.heapStart ≤ s.proc.heapEnd + sbrkPages increment * 0x1000
      omega
    · show (s.proc.heapEnd + sbrkPages increment * 0x1000) % pageSize = 0
      rw [pageSize] at hpage ⊢
      omega
    · show s.proc.heapEnd + sbrkPages increment * 0x1000 < 2 ^ 32
      omega
  | exhausted hgrows hrun =>
    obtain ⟨l, s', -, -, -, h'⟩ := (h.growEnds hgrows hrun).pages
    exact ⟨h'.wellFormed, h.dir, h.le, h.page, h.lt⟩

/-- **One step.** -/
lemma BreakOk.step (h : BreakOk L s) (hstep : HeapStep Orderly s s') : BreakOk L s' := by
  cases hstep with
  | sbrk increment hinc ho => exact h.sbrk hinc ho
  | store a x ha =>
    have hv : a / pageSize < userPages := by
      rw [pageSize, userPages]
      omega
    have h' := h.mem.shows.store h.dir hv x
    rw [HeapState.store]
    generalize s.mem.store s.proc.dir a x = m' at h' ⊢
    exact ⟨h'.wellFormed, h.dir, h.le, h.page, h.lt⟩

/-- The break of a call that ended well is no error return. -/
lemma int32_ne (h : BreakOk L s) : int32 s.proc.heapEnd ≠ -1 := by
  have hpage := h.page
  have hlt := h.lt
  rw [pageSize] at hpage
  rw [int32, Int.bmod]
  split <;> omega

/-- **A failing call changes nothing.** -/
lemma BreakOk.failing (h : BreakOk L s) (hinc : IsInt32 increment) (ho : Orderly s increment)
    (hret : (sysSbrk increment s.proc s.mem).1 = -1) :
    (s.sbrk increment).proc = s.proc ∧ ∀ d ∈ s.dirs, ∀ v < userPages,
      (s.sbrk increment).mem.entry d v = s.mem.entry d v := by
  have hends := sbrkEnds hinc h.le h.lt s.mem
  rw [HeapState.sbrk]
  generalize sysSbrk increment s.proc s.mem = res at hends hret
  cases hends with
  | refused => exact ⟨rfl, fun _ _ _ _ => rfl⟩
  | query _ => exact ⟨rfl, fun _ _ _ _ => rfl⟩
  | shrunk _ _ =>
    dsimp only at hret
    exact absurd hret (int32_ne h)
  | grown _ _ =>
    dsimp only at hret
    exact absurd hret (int32_ne h)
  | exhausted hgrows hrun =>
    have hs := h.mem.shows
    obtain ⟨⟨l, s', hl, hall, hadds, h'⟩, hroom⟩ := h.growEnds hgrows hrun
    rcases ho.room hgrows with hone | hr
    · -- the loop has failed at its only page
      have hlen : (l.map Prod.fst).length < 1 := by
        refine (lt_of_le_of_ne hl.length_le fun e => ?_).trans_le ?_
        · exact absurd (hall.mpr (hl.eq_of_length e)) (Option.some_ne_none _).symm
        · rw [sbrkPlaces, List.length_map, List.length_range]
          exact hone
      obtain rfl : l = [] := by
        rw [List.length_map, Nat.lt_one_iff, List.length_eq_zero_iff] at hlen
        exact hlen
      cases hadds
      exact ⟨rfl, fun d hd v hv => by rw [← h'.entry d hd v hv, hs.entry d hd v hv]⟩
    · exact absurd (hroom hr) (Option.some_ne_none _).symm

/-- **A growing call keeps the heap.** -/
lemma BreakOk.growing (h : BreakOk L s) (hinc : IsInt32 increment) (hpos : 0 < increment) {a : ℕ}
    (ha : a < s.proc.heapEnd) :
    (s.sbrk increment).mem.byteAt s.proc.dir a = s.mem.byteAt s.proc.dir a := by
  have hends := sbrkEnds hinc h.le h.lt s.mem
  have hkeep : ∀ {r m'}, Grows increment s.proc →
      sbrkGrow s.proc.dir s.proc.heapEnd (sbrkPages increment) s.mem = (r, m') →
      m'.byteAt s.proc.dir a = s.mem.byteAt s.proc.dir a := by
    intro r m' hgrows hrun
    have hs := h.mem.shows
    obtain ⟨l, s', hl, -, hadds, h'⟩ := (h.growEnds hgrows hrun).pages
    have hbound := hgrows.le
    have hpage := h.page
    have hv : a / pageSize < userPages := by
      rw [pageSize, userPages]
      omega
    have hplace : a / pageSize ∉ l.map Prod.fst := fun hin => by
      obtain ⟨k, -, hk⟩ := List.mem_map.mp (hl.subset hin)
      rw [pageSize] at hpage hk
      omega
    rw [h'.byteAt h.dir hv, hs.byteAt h.dir hv, hadds.entry_of_ne fun _ => hplace]
    refine Option.map_congr fun w hw => ?_
    rw [hadds.bytes_of_notMem (hs.used trivial _ _ _ hw)]
  rw [HeapState.sbrk]
  generalize sysSbrk increment s.proc s.mem = res at hends
  cases hends with
  | refused => rfl
  | query _ => rfl
  | shrunk hneg _ => exact absurd hneg (Int.not_lt.mpr hpos.le)
  | grown hgrows hrun => exact hkeep hgrows hrun
  | exhausted hgrows hrun => exact hkeep hgrows hrun

/-- **The break and the heap in every run of orderly calls and stores**: the break stays at a
page boundary behind the start of the heap, a failing call changes neither the break nor the
mappings, and a growing call keeps what the heap holds. -/
theorem sysSbrk_of_run (h₀ : BreakOk L s₀) (hrun : Relation.ReflTransGen (HeapStep Orderly) s₀ s) :
    s.proc.heapStart ≤ s.proc.heapEnd ∧ s.proc.heapEnd % pageSize = 0 ∧
    ∀ increment, IsInt32 increment → Orderly s increment →
      ((sysSbrk increment s.proc s.mem).1 = -1 →
        (s.sbrk increment).proc.heapEnd = s.proc.heapEnd ∧ ∀ d ∈ s.dirs, ∀ v < userPages,
          (s.sbrk increment).mem.entry d v = s.mem.entry d v) ∧
      (0 < increment → ∀ a, s.proc.heapStart ≤ a → a < s.proc.heapEnd →
        (s.sbrk increment).mem.byteAt s.proc.dir a = s.mem.byteAt s.proc.dir a) := by
  have h : BreakOk L s := by
    induction hrun with
    | refl => exact h₀
    | tail _ hstep ih => exact ih.step hstep
  refine ⟨h.le, h.page, fun increment hinc ho => ⟨fun hret => ?_, fun hpos a _ ha => ?_⟩⟩
  · obtain ⟨hproc, hentry⟩ := h.failing hinc ho hret
    exact ⟨by rw [hproc], hentry⟩
  · exact h.growing hinc hpos ha

end

/-! ### A heap of one page -/

section

variable {L : Layout} {m : Mem} {dirs : List ℕ} {s : Space} {d : ℕ}

/-- The break moves back. -/
lemma sysSbrk_back {increment : ℤ} {start stop : ℕ} (hneg : increment < 0) (hstop : stop ≠ 0)
    (hlt : stop < 2 ^ 32) (hle : start + (-increment).toNat ≤ stop) :
    sysSbrk increment ⟨d, start, stop⟩ m =
      (int32 stop, ⟨d, start, stop - (-increment).toNat⟩, m) := by
  have hshrink : ¬ (stop + 2 ^ 32 - start) % 2 ^ 32 < (-increment).toNat := by omega
  have hend : (stop + 2 ^ 32 - (-increment).toNat) % 2 ^ 32 = stop - (-increment).toNat := by omega
  rw [sysSbrk, if_neg hstop, if_neg hneg.ne, if_pos hneg, if_neg hshrink, hend]

/-- The heap grows by one page. -/
lemma sysSbrk_one (increment : ℤ) (start stop : ℕ) {vs : List ℕ} (h : Shows True L dirs m s)
    (hd : d ∈ dirs) (hpages : sbrkPages increment = 1) (hpos : 0 < increment) (hstop : stop ≠ 0)
    (hbound : stop + 0x1000 < userStackPage - 0x1000) (hroom : s.Room d (stop / pageSize :: vs)) :
    ∃ m' f s', sysSbrk increment ⟨d, start, stop⟩ m = (int32 stop, ⟨d, start, stop + 0x1000⟩, m') ∧
      (∀ g, g ∉ kernelPages → m'.ram g = m.ram g) ∧
      Space.NewPage d (stop / pageSize) userFlags f (m.ram f) s s' ∧
      Shows True L dirs m' s' ∧ s'.Room d vs := by
  have hstack : stop + 0x1000 < 2 ^ 32 := hbound.trans (by decide)
  have hhalf : stop + 1 * 0x1000 ≤ 0xC0000000 := by
    rw [userStackPage] at hbound
    omega
  have hnew : newBreak increment ⟨d, start, stop⟩ = stop + 0x1000 := by
    rw [newBreak, hpages, Nat.one_mul]
    exact Nat.mod_eq_of_lt hstack
  have hrun : ∀ r m', sbrkPage d stop 0 m = (r, m') → sbrkGrow d stop 1 m = (r, m') := by
    rintro (_ | _) m' hr
    · exact bind_of_none hr
    · exact bind_of_some hr
  have hzero := h.zero trivial
  have hmax : ∀ f ∈ s.free, f < maxPages := fun f hf => (Pmm.mem_clear.mp (h.free ▸ hf)).1
  rcases shows_sbrkPage h hd hhalf Nat.zero_lt_one with
    ⟨m', -, -, hnone⟩ | ⟨m', f, s', hr, hram, hadd, hpage, h'⟩
  · obtain ⟨f, s', hsome, -⟩ := Space.addPage_of_room hzero hmax hroom userFlags fun _ => 0
    cases (hnone _).symm.trans hsome
  · obtain ⟨g, s'', hsome, -, hroom'⟩ := Space.addPage_of_room hzero hmax hroom userFlags (m.ram f)
    obtain ⟨-, rfl⟩ := Prod.mk.inj (hadd.symm.trans hsome)
    refine ⟨m', f, s', ?_, hram, hpage, h', hroom'⟩
    have hok : ¬ (stop + 0x1000 < stop ∨ userStackPage - 0x1000 ≤ stop + 0x1000) := by omega
    rw [sysSbrk, if_neg hstop, if_neg hpos.ne', if_neg hpos.not_gt, hnew, if_neg hok, hpages]
    dsimp only
    rw [hrun _ _ hr, if_neg (Option.some_ne_none _)]

lemma sbrk_eq {increment r : ℤ} {p p' : Proc} {m' : Mem}
    (hrun : sysSbrk increment p m = (r, p', m')) :
    HeapState.sbrk ⟨m, dirs, p⟩ increment = ⟨m', dirs, p'⟩ := by
  rw [HeapState.sbrk]
  dsimp only
  rw [hrun]

lemma heapStep_of_run {P : HeapState → ℤ → Prop} {increment r : ℤ} {p p' : Proc} {m' : Mem}
    (hinc : IsInt32 increment) (hP : P ⟨m, dirs, p⟩ increment)
    (hrun : sysSbrk increment p m = (r, p', m')) : HeapStep P ⟨m, dirs, p⟩ ⟨m', dirs, p'⟩ :=
  sbrk_eq hrun ▸ HeapStep.sbrk ⟨m, dirs, p⟩ increment hinc hP

/-- The heap that `elf_load` leaves. -/
lemma breakOk_start {start : ℕ} (h : Shows True L dirs m s) (hd : d ∈ dirs)
    (hpage : start % pageSize = 0) (hlt : start < 2 ^ 32) :
    BreakOk L ⟨m, dirs, ⟨d, start, start⟩⟩ := ⟨h.wellFormed, hd, le_rfl, hpage, hlt⟩

end

/-- The heap of a process after its first growth. -/
theorem sysSbrk_of_run_page : ∃ s₀ s, BreakOk sampleLayout s₀ ∧
    Relation.ReflTransGen (HeapStep Orderly) s₀ s ∧ s.proc.heapEnd = 0x401000 ∧
    s.proc.heapStart ≤ s.proc.heapEnd ∧
    ((sysSbrk 4096 s.proc s.mem).1 = -1 → (s.sbrk 4096).proc.heapEnd = s.proc.heapEnd) := by
  obtain ⟨m, d, s, h, -, hpool, hfree, -⟩ := exists_empty_space fun _ _ => 0
  have hd : d ∈ [d] := List.mem_cons_self
  have hcard : s.free.card = 3 := by
    rw [hfree]
    rfl
  have hroom : s.Room d [0x400] :=
    Space.room_of_length (by rw [hcard]; decide) (by rw [hpool]; decide)
  have horderly : ∀ s, Orderly s 4096 := fun s =>
    ⟨fun hneg => absurd hneg (by decide), fun _ => .inl (by decide)⟩
  have hinc : IsInt32 4096 := by
    constructor <;> decide
  obtain ⟨m₁, -, -, hrun, -⟩ := sysSbrk_one 4096 0x400000 0x400000 h hd (by decide) (by decide)
    (by decide) (by decide) hroom
  have hstart := breakOk_start h hd (show 0x400000 % pageSize = 0 by decide) (by decide)
  have hstep : HeapStep Orderly ⟨m, [d], _⟩ _ := heapStep_of_run hinc (horderly _) hrun
  have hsteps := Relation.ReflTransGen.single hstep
  obtain ⟨hle, -, hcall⟩ := sysSbrk_of_run hstart hsteps
  exact ⟨_, _, hstart, hsteps, rfl, hle, fun hret => ((hcall 4096 hinc (horderly _)).1 hret).1⟩

/-- **A byte of the heap that is lost**: the break moves back by one byte, and the heap grows
again. -/
theorem sysSbrk_loses : ∃ s₀ s, BreakOk sampleLayout s₀ ∧
    Relation.ReflTransGen (HeapStep fun _ _ => True) s₀ s ∧
    s.proc.heapStart ≤ 0x400000 ∧ 0x400000 < s.proc.heapEnd ∧ s.proc.heapEnd % pageSize ≠ 0 ∧
    s.mem.byteAt s.proc.dir 0x400000 = some 7 ∧
    (s.sbrk 1).mem.byteAt s.proc.dir 0x400000 = some 0 := by
  obtain ⟨m, d, s, h, -, hpool, hfree, hram⟩ := exists_empty_space fun _ _ => 0
  have hd : d ∈ [d] := List.mem_cons_self
  have hcard : s.free.card = 3 := by
    rw [hfree]
    rfl
  have hroom : s.Room d [0x400, 0x400] :=
    Space.room_of_length (by rw [hcard]; decide) (by rw [hpool]; decide)
  -- one page, with a byte stored in it
  obtain ⟨m₁, f₁, s₁, hrun₁, hram₁, hnew₁, h₁, hroom₁⟩ := sysSbrk_one 4096 0x400000 0x400000 h hd
    (by decide) (by decide) (by decide) (by decide) hroom
  have h₂ := h₁.store hd (show 0x400000 / pageSize < userPages by decide) 7
  have hbyte₂ : (m₁.store d 0x400000 7).byteAt d 0x400000 = some 7 := by
    rw [h₂.byteAt hd (by decide), Space.store]
    dsimp only
    rw [show s₁.entry d (0x400000 / pageSize) = _ from hnew₁.entry_self, Option.map_some,
      Option.elim_some, Function.update_self, Function.update_self]
  -- the break moves back by one byte, and the page is replaced
  have hrun₃ : sysSbrk (-1) ⟨d, 0x400000, 0x401000⟩ (m₁.store d 0x400000 7) =
      (int32 0x401000, ⟨d, 0x400000, 0x400FFF⟩, m₁.store d 0x400000 7) :=
    sysSbrk_back (by decide) (by decide) (by decide) (by decide)
  have hroom₂ : (s₁.store d 0x400000 7).Room d [0x400] := ⟨hroom₁.pages, hroom₁.tables⟩
  obtain ⟨m₄, f₄, s₄, hrun₄, -, hnew₄, h₄, -⟩ := sysSbrk_one 1 0x400000 0x400FFF h₂ hd
    (by decide) (by decide) (by decide) (by decide) hroom₂
  have hker : f₄ ∉ kernelPages := h₁.free_notMem hnew₄.mem
  have hne : f₄ ≠ f₁ := (hnew₁.mem_free.mp hnew₄.mem).1
  have hzero : (m₁.store d 0x400000 7).ram f₄ = fun _ => 0 := by
    rw [Mem.store, ← h₁.entry d hd _ (by decide),
      show s₁.entry d (0x400000 / pageSize) = _ from hnew₁.entry_self, Option.elim_some,
      frame_newPage f₁ userFlags_lt, Mem.ram_setPage_ne hne, hram₁ f₄ hker, hram f₄ hker]
  have hbyte₄ : m₄.byteAt d 0x400000 = some 0 := by
    rw [h₄.byteAt hd (by decide),
      show s₄.entry d (0x400000 / pageSize) = _ from hnew₄.entry_self, Option.map_some,
      frame_newPage f₄ userFlags_lt, hnew₄.bytes_self, hzero]
  have hstore : HeapStep (fun _ _ => True) ⟨m₁, [d], ⟨d, 0x400000, 0x401000⟩⟩
      ⟨m₁.store d 0x400000 7, [d], ⟨d, 0x400000, 0x401000⟩⟩ :=
    HeapStep.store ⟨m₁, [d], ⟨d, 0x400000, 0x401000⟩⟩ 0x400000 7 (by decide)
  generalize m₁.store d 0x400000 7 = m₂ at *
  have hint : IsInt32 4096 ∧ IsInt32 (-1) := by
    constructor <;> constructor <;> decide
  refine ⟨⟨m, [d], ⟨d, 0x400000, 0x400000⟩⟩, ⟨m₂, [d], ⟨d, 0x400000, 0x400FFF⟩⟩,
    breakOk_start h hd (by decide) (by decide), ?_, le_rfl,
    show 0x400000 < 0x400FFF by decide, show 0x400FFF % pageSize ≠ 0 by decide, hbyte₂, ?_⟩
  · exact ((Relation.ReflTransGen.single (heapStep_of_run hint.1 trivial hrun₁)).tail hstore).tail
      (heapStep_of_run hint.2 trivial hrun₃)
  · rw [sbrk_eq hrun₄]
    exact hbyte₄

end GordOS.Kernel
