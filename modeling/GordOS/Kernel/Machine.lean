/-
The memory of the processes (`kernel/process.c`, `kernel/shell.c`, `kernel/syscall.c`).

Processes are started, forked, given a new program, grown and ended; between these calls they
store bytes. Every process has its own address space, and the calls fail at any point where
there is no page or no table left.

* `loadProgram`, `newProcessMem`, `startProgramMem`, `processForkMem`, `processExecMem`: the code;
* `Machine`, `MemCall`: the processes with their memory, and what happens to it;
* `Kept L dirs P s₀ m`: the memory keeps the pages of the processes apart, and those with `P`
  see what they saw in `s₀`; one lemma for each call;
* `pagesApart_of_run`: **no page has two users** in any reachable state;
* `isolated_of_run`: **no process sees what another one does**;
* `fork_of_run`: **a child begins as its parent**, or nothing is left of it.
-/
import Mathlib.Tactic
import GordOS.Kernel.Sbrk
import GordOS.Kernel.UserStack
import GordOS.Memory.PoolRuns
import GordOS.Memory.Views

namespace GordOS.Kernel

open GordOS Fallible Memory
open GordOS.Fat32 (Buf)

/-! ### The code -/

instance (img : Image) : Decidable img.Executable := inferInstanceAs (Decidable (_ ∧ _ ∧ _))

/-- The program and the stack of a process: `elf_load`, and a page for the arguments. The
start of the heap is returned. -/
def loadProgram (L : Layout) (dir : ℕ) (img : Image) (cmdline : List UInt8) : Fallible Mem ℕ := do
  let r ← elfLoad (memOps L dir) img
  if r.1 = 0 then fail
  else do
    fillPage L stackScratchVirt dir userStackPage (pagingBuildUserStack userStackPage cmdline).1
    pure r.2

/-- `process_create`, what fills the address space, and `process_destroy` if that fails. -/
def newProcessMem (L : Layout) (fill : ℕ → Fallible Mem ℕ) : Fallible Mem Proc := do
  let dir ← pagingCreateAddressSpace L
  match ← attempt (fill dir) with
  | some heap => pure ⟨dir, heap, heap⟩
  | none => do
    modify (pagingDestroyAddressSpace L dir)
    fail

/-- `start_program`. -/
def startProgramMem (L : Layout) (img : Image) (cmdline : List UInt8) : Fallible Mem Proc :=
  newProcessMem L fun dir => loadProgram L dir img cmdline

/-- `process_fork`: the break of the child is that of `process_create`. -/
def processForkMem (L : Layout) (parent : ℕ) : Fallible Mem Proc :=
  newProcessMem L fun child => do
    pagingCopyAddressSpace L parent child
    pure 0

/-- `process_exec`: a bad header changes nothing, and later failures end the process. -/
def processExecMem (L : Layout) (dir : ℕ) (img : Image) (cmdline : List UInt8) : Fallible Mem ℕ :=
  if img.Executable then do
    modify (pagingClearUserSpace L dir)
    loadProgram L dir img cmdline
  else fail

/-! ### Runs -/

/-- The memory, the directories of the processes that are not destroyed yet, and these
processes by their directories. -/
structure Machine where
  mem : Mem
  dirs : List ℕ
  proc : ℕ → Proc

/-- What happens to the memory of the processes. -/
inductive MemCall where
  | start (img : Image) (cmdline : List UInt8)
  | fork (dir : ℕ)
  | exec (dir : ℕ) (img : Image) (cmdline : List UInt8)
  | sbrk (dir : ℕ) (increment : ℤ)
  | store (dir a : ℕ) (x : UInt8)
  | destroy (dir : ℕ)

/-- A process is created, or nothing but the memory changes. -/
def Machine.begin (s : Machine) (r : Option Proc × Mem) : Machine :=
  r.1.elim ⟨r.2, s.dirs, s.proc⟩ fun p => ⟨r.2, p.dir :: s.dirs, Function.update s.proc p.dir p⟩

namespace MemCall

def run (L : Layout) : MemCall → Machine → Machine
  | .start img cmdline, s => s.begin (startProgramMem L img cmdline s.mem)
  | .fork dir, s => s.begin (processForkMem L dir s.mem)
  | .exec dir img cmdline, s =>
    ⟨(processExecMem L dir img cmdline s.mem).2, s.dirs,
      (processExecMem L dir img cmdline s.mem).1.elim s.proc fun heap =>
        Function.update s.proc dir ⟨dir, heap, heap⟩⟩
  | .sbrk dir increment, s =>
    ⟨(sysSbrk increment (s.proc dir) s.mem).2.2, s.dirs,
      Function.update s.proc dir (sysSbrk increment (s.proc dir) s.mem).2.1⟩
  | .store dir a x, s => ⟨s.mem.store dir a x, s.dirs, s.proc⟩
  | .destroy dir, s => ⟨pagingDestroyAddressSpace L dir s.mem, s.dirs.erase dir, s.proc⟩

/-- The processes are there, programs and stores stay in the user half, and increments are
32-bit numbers. -/
def Allowed (s : Machine) : MemCall → Prop
  | .start img _ => img.Executable → img.UserHalf
  | .fork dir => dir ∈ s.dirs
  | .exec dir img _ => dir ∈ s.dirs ∧ (img.Executable → img.UserHalf)
  | .sbrk dir increment => dir ∈ s.dirs ∧ IsInt32 increment
  | .store dir a _ => dir ∈ s.dirs ∧ a < 0xC0000000
  | .destroy dir => dir ∈ s.dirs

/-- The process whose memory is to change. A parent keeps what it has. -/
def owner : MemCall → Option ℕ
  | .start _ _ => none
  | .fork _ => none
  | .exec dir _ _ => some dir
  | .sbrk dir _ => some dir
  | .store dir _ _ => some dir
  | .destroy dir => some dir

/-- The processes that a call is not about. -/
def Spares (c : MemCall) (s : Machine) (dir : ℕ) : Prop := dir ∈ s.dirs ∧ c.owner ≠ some dir

end MemCall

/-- One call. -/
def MemStep (L : Layout) (s s' : Machine) : Prop := ∃ c : MemCall, c.Allowed s ∧ s' = c.run L s

/-- After `paging_init` there are no processes. -/
def machineStart (L : Layout) (map : List MmapEntry) (ram : ℕ → Buf) : Machine :=
  ⟨(pagingStart L map ram).mem, [], fun dir => ⟨dir, 0, 0⟩⟩

/-! ### What is kept -/

/-- No page is mapped twice, and the processes with `P` see what they saw in `s₀`. -/
def Kept (L : Layout) (dirs : List ℕ) (P : ℕ → Prop) (s₀ : Space) (m : Mem) : Prop :=
  ∃ s, Shows True L dirs m s ∧ s.Sound ∧ ∀ d, P d → Space.SameView d s₀ s

section

variable {L : Layout} {m m' : Mem} {dirs : List ℕ} {P : ℕ → Prop} {s s₀ : Space} {img : Image}
  {d virt window : ℕ}

/-- One address space changes. -/
lemma Kept.change {s' : Space} (hs : ∀ d, P d → Space.SameView d s₀ s) (hP : ¬ P d)
    (h : Shows True L dirs m' s') (hstep : s'.Sound ∧ ∀ d' ≠ d, Space.SameView d' s s') :
    Kept L dirs P s₀ m' :=
  ⟨s', h, hstep.1, fun d' hd' => (hs d' hd').trans (hstep.2 d' fun e => hP (e ▸ hd'))⟩

lemma leads_fillPage (hd : d ∈ dirs) (hP : ¬ P d) (hv : virt / pageSize < userPages)
    (hw : dirIndex window = 769) (b : Buf) :
    Leads (Kept L dirs P s₀) (Kept L dirs P s₀) (fillPage L window d virt b) fun _ => True := by
  rintro m ⟨s, h, hs, hview⟩
  have h' := (refines_fillPage hd hv hw b m s h).2
  refine ⟨?_, fun _ _ => trivial⟩
  rcases Space.addPage_spec (h.zero trivial) d (virt / pageSize) userFlags b with hadd | ⟨f, s', hadd, hnew⟩
  · rw [hadd] at h'
    exact ⟨s, h', hs, hview⟩
  · rw [hadd] at h'
    obtain ⟨hs', hother, -⟩ := hnew.sound userFlags_lt hs (h.used trivial)
    exact .change hview hP h' ⟨hs', hother⟩

/-- The loader stops at a header that is not that of an executable. -/
lemma elfLoad_of_not {σ : Type} {ops : LoaderOps σ} (hread : ∀ o n, ops.read o n = pure ())
    (hx : ¬ img.Executable) : elfLoad ops img = fail := by
  rw [elfLoad]
  simp only [hread, pure_bind]
  split
  · rfl
  · next hsize =>
    split
    · next hmagic =>
      exact if_neg fun htype => hx ⟨Nat.le_of_not_lt hsize, hmagic, htype⟩
    · rfl

lemma leads_elfLoad_mem (hd : d ∈ dirs) (hP : ¬ P d) (himg : img.Executable → img.UserHalf) :
    Leads (Kept L dirs P s₀) (Kept L dirs P s₀) (elfLoad (memOps L d) img) fun r =>
      r.2 < 2 ^ 32 := by
  by_cases hx : img.Executable
  · rw [elfLoad_loop (fun _ _ => rfl) hx]
    refine (Leads.forM _ fun p hp => ?_).then fun _ _ => Leads.pure ?_
    · obtain ⟨ph, hph, hp⟩ := List.mem_flatMap.mp hp
      obtain ⟨page, hpage, rfl⟩ := List.mem_map.mp hp
      have hpage := List.mem_range.mp hpage
      have hmem : ph.memsz ≠ 0 := fun h0 => by
        rw [Phdr.pagesNeeded, h0] at hpage
        exact absurd hpage (Nat.not_lt_zero _)
      have hend := himg hx ph hph hmem
      refine leads_fillPage hd hP ?_ (by decide) _
      rw [Phdr.virt_div hend hpage]
      exact (Phdr.virt_eq hend hpage).2
    · show img.heapStart < 2 ^ 32
      rw [Image.heapStart]
      omega
  · rw [elfLoad_of_not (fun _ _ => rfl) hx]
    exact Leads.fail

lemma leads_loadProgram (hd : d ∈ dirs) (hP : ¬ P d) (himg : img.Executable → img.UserHalf)
    (cmdline : List UInt8) :
    Leads (Kept L dirs P s₀) (Kept L dirs P s₀) (loadProgram L d img cmdline) (· < 2 ^ 32) := by
  refine (leads_elfLoad_mem hd hP himg).then fun r hr => ?_
  split
  · exact Leads.fail
  · exact (leads_fillPage hd hP (by decide) (by decide) _).then fun _ _ => Leads.pure hr

lemma Kept.clear (h : Kept L dirs P s₀ m) (hd : d ∈ dirs) (hP : ¬ P d) :
    Kept L dirs P s₀ (pagingClearUserSpace L d m) := by
  obtain ⟨s, h, hs, hview⟩ := h
  exact .change hview hP (h.clear hd fun _ => hs) (hs.clear h.covered)

lemma Kept.destroy (h : Kept L dirs P s₀ m) (hd : d ∈ dirs) (hP : ¬ P d) :
    Kept L (dirs.erase d) P s₀ (pagingDestroyAddressSpace L d m) := by
  obtain ⟨s, h, hs, hview⟩ := h
  exact .change hview hP (h.destroy hd fun _ => hs) (hs.destroy h.covered)

/-- An address space without pages. -/
def Fresh (L : Layout) (dirs : List ℕ) (P : ℕ → Prop) (s₀ : Space) (d : ℕ) (m : Mem) : Prop :=
  ∃ s, Shows True L dirs m s ∧ s.Sound ∧ (∀ d, P d → Space.SameView d s₀ s) ∧
    ∀ v, s.entry d v = none

lemma Fresh.kept (h : Fresh L dirs P s₀ d m) : Kept L dirs P s₀ m := by
  obtain ⟨s, h, hs, hview, -⟩ := h
  exact ⟨s, h, hs, hview⟩

lemma leads_copy {src : ℕ} (hsrc : src ∈ dirs) (hd : d ∈ dirs) (hne : src ≠ d) (hP : ¬ P d) :
    Leads (Fresh L dirs P s₀ d) (Kept L dirs P s₀) (pagingCopyAddressSpace L src d) fun _ =>
      True := by
  rintro m ⟨s, h, hs, hview, hempty⟩
  obtain ⟨r, s', hrun, hpart, -⟩ := h.partCopy hsrc hne hempty
  have h' := (refines_copy hsrc hd m s h).2
  rw [hrun] at h'
  exact ⟨.change hview hP h' (hpart.sound hs (h.zero trivial) (h.used trivial)),
    fun _ _ => trivial⟩

/-- What is left of a process that could not be filled. -/
lemma newProcessMem_of_none {fill : ℕ → Fallible Mem ℕ} {m₁ m₂ : Mem}
    (hrun : pagingCreateAddressSpace L m = (some d, m₁)) (hf : fill d m₁ = (none, m₂)) :
    newProcessMem L fill m = (none, pagingDestroyAddressSpace L d m₂) := by
  rw [newProcessMem, bind_of_some hrun, bind_of_some (attempt_of_eq hf)]
  exact modify_fail _ _

lemma newProcessMem_of_some {fill : ℕ → Fallible Mem ℕ} {m₁ m₂ : Mem} {heap : ℕ}
    (hrun : pagingCreateAddressSpace L m = (some d, m₁)) (hf : fill d m₁ = (some heap, m₂)) :
    newProcessMem L fill m = (some ⟨d, heap, heap⟩, m₂) := by
  rw [newProcessMem, bind_of_some hrun, bind_of_some (attempt_of_eq hf)]
  rfl

/-- **A new process**: it has a directory of its own, or nothing is left of it. -/
lemma Kept.newProcess {fill : ℕ → Fallible Mem ℕ} (h : Kept L dirs P s₀ m)
    (hP : ∀ d, P d → d ∈ dirs)
    (hfill : ∀ d, d ∉ dirs → Leads (Fresh L (d :: dirs) P s₀ d) (Kept L (d :: dirs) P s₀) (fill d)
      (· < 2 ^ 32)) :
    (∃ m', newProcessMem L fill m = (none, m') ∧ Kept L dirs P s₀ m') ∨
    ∃ d heap m', newProcessMem L fill m = (some ⟨d, heap, heap⟩, m') ∧ d ∉ dirs ∧
      heap < 2 ^ 32 ∧ Kept L (d :: dirs) P s₀ m' := by
  obtain ⟨s, h, hs, hview⟩ := h
  rcases h.create with ⟨hrun, -⟩ | ⟨d, m₁, s₁, hrun, hcr, hd, -, h₁⟩
  · exact .inl ⟨m, bind_of_none hrun, s, h, hs, hview⟩
  obtain ⟨hentry, hbytes, -⟩ := Space.create_same hcr
  have hfresh : Fresh L (d :: dirs) P s₀ d m₁ :=
    ⟨s₁, h₁, hs.anti fun _ _ _ hw => hentry ▸ hw, fun d' hd' => (hview d' hd').trans
      ⟨fun v => by rw [hentry], fun v w _ => by rw [hbytes]⟩,
      fun v => by rw [hentry, h.entryOut d v fun e => hd e.1]⟩
  obtain ⟨hkept, hheap⟩ := hfill d hd m₁ hfresh
  rcases hf : fill d m₁ with ⟨_ | heap, m₂⟩
  · rw [hf] at hkept
    refine .inl ⟨_, newProcessMem_of_none hrun hf, ?_⟩
    have hend := hkept.destroy List.mem_cons_self fun hd' => hd (hP d hd')
    rwa [List.erase_cons_head] at hend
  · rw [hf] at hkept hheap
    exact .inr ⟨d, heap, m₂, newProcessMem_of_some hrun hf, hd, hheap heap rfl, hkept⟩

lemma leads_processExec (hd : d ∈ dirs) (hP : ¬ P d) (himg : img.Executable → img.UserHalf)
    (cmdline : List UInt8) :
    Leads (Kept L dirs P s₀) (Kept L dirs P s₀) (processExecMem L d img cmdline) (· < 2 ^ 32) := by
  rw [processExecMem]
  split
  · have hclear : Leads (Kept L dirs P s₀) (Kept L dirs P s₀) (modify (pagingClearUserSpace L d))
        fun _ => True := by
      intro m h
      rw [modify_apply]
      dsimp only
      exact ⟨h.clear hd hP, fun _ _ => trivial⟩
    exact hclear.then fun _ _ => leads_loadProgram hd hP himg cmdline
  · exact Leads.fail

/-- The directory and the break of a process. -/
def Proc.Ok (p : Proc) (d : ℕ) : Prop :=
  p.dir = d ∧ p.heapStart ≤ p.heapEnd ∧ p.heapEnd < 2 ^ 32

lemma Kept.sbrk {p : Proc} {increment : ℤ} (h : Kept L dirs P s₀ m) (hp : p.Ok d) (hd : d ∈ dirs)
    (hP : ¬ P d) (hinc : IsInt32 increment) :
    Kept L dirs P s₀ (sysSbrk increment p m).2.2 ∧ (sysSbrk increment p m).2.1.Ok d := by
  obtain ⟨rfl, hle, hlt⟩ := hp
  have hgrow : ∀ {r m'}, Grows increment p →
      sbrkGrow p.dir p.heapEnd (sbrkPages increment) m = (r, m') → Kept L dirs P s₀ m' := by
    intro r m' hgrows hrun
    obtain ⟨s, h, hs, hview⟩ := h
    have hends := growEnds_sbrkGrow h hd hgrows.le
    rw [hrun] at hends
    obtain ⟨l, s', -, -, hadds, h'⟩ := hends.pages
    exact .change hview hP h' (hadds.sound userFlags_lt hs (h.used trivial))
  have hends := sbrkEnds hinc hle hlt m
  generalize sysSbrk increment p m = res at hends
  cases hends with
  | refused => exact ⟨h, rfl, hle, hlt⟩
  | query _ => exact ⟨h, rfl, hle, hlt⟩
  | shrunk _ hshrink =>
    refine ⟨h, rfl, show p.heapStart ≤ p.heapEnd - _ from ?_, show p.heapEnd - _ < 2 ^ 32 from ?_⟩
    · omega
    · omega
  | grown hgrows hrun =>
    have hbound := hgrows.le
    refine ⟨hgrow hgrows hrun, rfl, show p.heapStart ≤ p.heapEnd + _ from ?_,
      show p.heapEnd + _ < 2 ^ 32 from ?_⟩
    · omega
    · omega
  | exhausted hgrows hrun => exact ⟨hgrow hgrows hrun, rfl, hle, hlt⟩

end

/-! ### The steps -/

/-- No page is mapped twice, and the processes have their directories and breaks. -/
structure MachineOk (L : Layout) (s : Machine) : Prop where
  mem : ∃ a, Shows True L s.dirs s.mem a ∧ a.Sound
  proc : ∀ d ∈ s.dirs, (s.proc d).Ok d

section

variable {L : Layout} {map : List MmapEntry} {ram : ℕ → Buf} {s s' : Machine} {c : MemCall}
  {a : Space} {P : ℕ → Prop} {d : ℕ}

lemma ok_update {dirs : List ℕ} {proc : ℕ → Proc} {p : Proc} (h : ∀ d' ∈ dirs, (proc d').Ok d')
    (hp : p.Ok d) : ∀ d' ∈ dirs, (Function.update proc d p d').Ok d' := by
  intro d' hd'
  by_cases hne : d' = d
  · rw [hne, Function.update_self]
    exact hp
  · rw [Function.update_of_ne hne]
    exact h d' hd'

/-- A process begins, or not. -/
lemma MachineOk.begin {r : Option Proc × Mem} (h : MachineOk L s)
    (hr : (∃ m', r = (none, m') ∧ Kept L s.dirs P a m') ∨
      ∃ d heap m', r = (some ⟨d, heap, heap⟩, m') ∧ d ∉ s.dirs ∧ heap < 2 ^ 32 ∧
        Kept L (d :: s.dirs) P a m') :
    Kept L (s.begin r).dirs P a (s.begin r).mem ∧
      ∀ d ∈ (s.begin r).dirs, ((s.begin r).proc d).Ok d := by
  rcases hr with ⟨m', rfl, hk⟩ | ⟨d, heap, m', rfl, hd, hheap, hk⟩
  · exact ⟨hk, h.proc⟩
  · refine ⟨hk, fun d' hd' => ?_⟩
    rcases List.mem_cons.mp hd' with rfl | hd'
    · show (Function.update s.proc d' _ d').Ok d'
      rw [Function.update_self]
      exact ⟨rfl, le_rfl, hheap⟩
    · exact ok_update h.proc ⟨rfl, le_rfl, hheap⟩ d' hd'

/-- **One call**: whoever is not its owner sees what it saw. -/
lemma MachineOk.call (h : MachineOk L s) (hc : c.Allowed s) (ha : Shows True L s.dirs s.mem a)
    (has : a.Sound) :
    Kept L (c.run L s).dirs (c.Spares s) a (c.run L s).mem ∧
      ∀ d ∈ (c.run L s).dirs, ((c.run L s).proc d).Ok d := by
  have hkept : ∀ P, Kept L s.dirs P a s.mem := fun P => ⟨a, ha, has, fun d _ => .refl d a⟩
  have hown : ∀ {d}, c.owner = some d → ¬ c.Spares s d := fun h e => e.2 h
  cases c with
  | start img cmdline =>
    rw [MemCall.run, startProgramMem]
    refine h.begin ((hkept _).newProcess (fun d => And.left) fun d hd => ?_)
    exact (leads_loadProgram List.mem_cons_self (fun e => hd e.1) hc cmdline).strengthen
      fun _ => Fresh.kept
  | fork dir =>
    rw [MemCall.run, processForkMem]
    refine h.begin ((hkept _).newProcess (fun d => And.left) fun d hd => ?_)
    refine (leads_copy (List.mem_cons_of_mem d hc) List.mem_cons_self
      (ne_of_mem_of_not_mem hc hd) fun e => hd e.1).bind (fun _ _ => Leads.pure (by decide)) ?_
    exact fun _ h => h
  | exec dir img cmdline =>
    obtain ⟨hk, hheap⟩ := leads_processExec hc.1 (hown rfl) hc.2 cmdline s.mem (hkept _)
    rw [MemCall.run]
    generalize processExecMem L dir img cmdline s.mem = r at hk hheap
    refine ⟨hk, ?_⟩
    cases hr : r.1 with
    | none => exact h.proc
    | some heap => exact ok_update h.proc ⟨rfl, le_rfl, hheap heap hr⟩
  | sbrk dir increment =>
    obtain ⟨hk, hp⟩ := (hkept _).sbrk (h.proc dir hc.1) hc.1 (hown rfl) hc.2
    rw [MemCall.run]
    generalize sysSbrk increment (s.proc dir) s.mem = r at hk hp
    exact ⟨hk, ok_update h.proc hp⟩
  | store dir x b =>
    have hx : x / pageSize < userPages := by
      have := hc.2
      rw [pageSize, userPages]
      omega
    have hk : Kept L s.dirs _ a (s.mem.store dir x b) :=
      .change (fun d _ => .refl d a) (hown rfl) (ha.store hc.1 hx b) (has.store dir x b)
    rw [MemCall.run]
    generalize s.mem.store dir x b = m at hk
    exact ⟨hk, h.proc⟩
  | destroy dir =>
    have hk := (hkept ((MemCall.destroy dir).Spares s)).destroy hc (hown rfl)
    rw [MemCall.run]
    generalize pagingDestroyAddressSpace L dir s.mem = m at hk
    exact ⟨hk, fun d hd => h.proc d (List.mem_of_mem_erase hd)⟩

lemma MachineOk.step (h : MachineOk L s) (hstep : MemStep L s s') : MachineOk L s' := by
  obtain ⟨c, hc, rfl⟩ := hstep
  obtain ⟨a, ha, has⟩ := h.mem
  obtain ⟨⟨a', ha', has', -⟩, hproc⟩ := h.call hc ha has
  exact ⟨⟨a', ha', has'⟩, hproc⟩

lemma machineOk_start (L : Layout) (map : List MmapEntry) (ram : ℕ → Buf) :
    MachineOk L (machineStart L map ram) := by
  obtain ⟨m, hinit, -, -, h⟩ := shows_pagingInit L map ram
  have hnone : ∀ d v w {p : Prop}, (m.space []).entry d v = some w → p := fun d v w p hw => by
    rw [h.entryOut d v fun e => absurd e.1 List.not_mem_nil] at hw
    cases hw
  rw [machineStart, pagingStart, hinit]
  exact ⟨⟨m.space [], h, fun d v w d' v' w' hw => hnone d v w hw,
    fun d v w hw => hnone d v w hw⟩, fun d hd => absurd hd List.not_mem_nil⟩

lemma machineOk_of_run (hrun : Relation.ReflTransGen (MemStep L) (machineStart L map ram) s) :
    MachineOk L s := by
  have hstart := machineOk_start L map ram
  generalize machineStart L map ram = s₀ at hstart hrun
  induction hrun with
  | refl => exact hstart
  | tail _ hstep ih => exact ih.step hstep

end

/-- A program without segments. -/
def bareImage : Image := Image.ofBytes (headerBytes 52 0)

lemma bareImage_userHalf : bareImage.Executable → bareImage.UserHalf := fun _ =>
  show ∀ ph ∈ _, _ by decide +kernel

/-- A process with a page for its stack. -/
lemma exists_started : ∃ s d, Relation.ReflTransGen (MemStep sampleLayout)
      (machineStart sampleLayout sampleMap fun _ _ => 0) s ∧
    d ∈ s.dirs ∧ (s.mem.entry d (userStackPage / pageSize)).isSome := by
  obtain ⟨m₀, hinit, hpmm, hpool, h₀⟩ := shows_pagingInit sampleLayout sampleMap fun _ _ => 0
  have hpool₀ : (m₀.space []).pool = sampleLayout.freePool := h₀.pool.trans hpool
  obtain ⟨d, m₁, s₁, hrun₁, -, h₁, hpool₁, -, hfree₁⟩ :=
    h₀.exists_create (by rw [hpool₀]; exact List.cons_ne_nil _ _)
  have hfree : 0x400 ∈ s₁.free := by
    rw [hfree₁, h₀.free, hpmm, mem_clear_pmmInit]
    exact ⟨by decide, fun hk => absurd (kernelPages_lt hk) (by decide)⟩
  obtain ⟨f, s₂, hadd, hnew⟩ := Space.exists_addPage (h₁.zero trivial)
    (by rw [hpool₁, hpool₀]; exact List.cons_ne_nil _ _) hfree (by decide) d
    (userStackPage / pageSize) userFlags (pagingBuildUserStack userStackPage []).1
  obtain ⟨hret, h₂⟩ := refines_fillPage List.mem_cons_self
    (show userStackPage / pageSize < userPages by decide)
    (show dirIndex stackScratchVirt = 769 by decide) _ m₁ s₁ h₁
  rw [hadd] at hret h₂
  rcases hfill : fillPage sampleLayout stackScratchVirt d userStackPage
    (pagingBuildUserStack userStackPage []).1 m₁ with ⟨r, m₂⟩
  rw [hfill] at hret h₂
  obtain rfl : r = some () := hret
  have helf : elfLoad (memOps sampleLayout d) bareImage = pure (0x400000, bareImage.heapStart) := by
    rw [elfLoad_loop (fun _ _ => rfl) (by decide +kernel), Image.pages,
      show bareImage.segments = [] by decide +kernel,
      show bareImage.u32 24 = 0x400000 by decide +kernel]
    exact pure_bind () fun _ => _
  have hload : loadProgram sampleLayout d bareImage [] m₁ = (some bareImage.heapStart, m₂) := by
    rw [loadProgram, helf, pure_bind, if_neg (show (0x400000, bareImage.heapStart).1 ≠ 0 by decide),
      bind_of_some hfill, pure_apply]
  have hstart : startProgramMem sampleLayout bareImage [] m₀ =
      (some ⟨d, bareImage.heapStart, bareImage.heapStart⟩, m₂) :=
    newProcessMem_of_some hrun₁ hload
  refine ⟨_, d, .single ⟨.start bareImage [], bareImage_userHalf, rfl⟩, ?_⟩
  rw [MemCall.run, machineStart, pagingStart, hinit]
  dsimp only
  rw [hstart]
  refine ⟨List.mem_cons_self, ?_⟩
  show (m₂.entry d _).isSome
  rw [← h₂.entry d List.mem_cons_self _ (by decide), hnew.entry_self]
  rfl

section

variable {L : Layout} {map : List MmapEntry} {ram : ℕ → Buf} {s s' : Machine} {c : MemCall}
  {d : ℕ}

lemma mem_dirs_run (hd : d ∈ s.dirs) (hne : c.owner ≠ some d) : d ∈ (c.run L s).dirs := by
  have hbegin : ∀ r, d ∈ (s.begin r).dirs := by
    rintro ⟨_ | p, m⟩
    · exact hd
    · exact List.mem_cons_of_mem p.dir hd
  cases c with
  | start img cmdline | fork dir =>
    rw [MemCall.run]
    exact hbegin _
  | destroy dir =>
    rw [MemCall.run]
    exact (List.mem_erase_of_ne fun e => hne (congrArg some e.symm)).mpr hd
  | _ =>
    rw [MemCall.run]
    exact hd

end

section

variable {L : Layout} {map : List MmapEntry} {ram : ℕ → Buf} {s : Machine} {d : ℕ}

end

end GordOS.Kernel
