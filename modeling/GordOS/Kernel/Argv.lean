/-
The arguments of a program (`sys_exec` of `kernel/syscall.c`).

The argument vector is flattened into one command line, with a space between the
strings, and the command line is cut into tokens again when the stack page of the new
program is built (`UserStack.lean`).

* `execCmdline`: the command line;
* `stackArgs`: the strings that the program finds there;
* `stackArgs_pagingBuildUserStack`: they are the tokens that fit;
* `tokens_execCmdline`: cutting undoes flattening for strings that are not empty and
  hold no space;
* `execArgs_roundTrip`: **the program gets the vector that `sys_exec` was given**, for
  such strings; `execArgs_split`.
-/
import Mathlib.Tactic
import GordOS.Kernel.UserStack

namespace GordOS.Kernel

open GordOS

/-! ### The command line -/

/-- The loops of `sys_exec` that append the bytes of a string to `cmdline`. -/
def appendBytes : Name → List UInt8 → List UInt8
  | [], cmdline => cmdline
  | c :: str, cmdline =>
    if cmdline.length < 510 then appendBytes str (cmdline ++ [c]) else cmdline

/-- One round of the loop over the argument vector. -/
def appendArg (cmdline : List UInt8) (arg : Name) : List UInt8 :=
  appendBytes arg
    (if 0 < cmdline.length ∧ cmdline.length < 510 then cmdline ++ [0x20] else cmdline)

/-- The `cmdline` of `sys_exec`: the path stands for an empty one. -/
def execCmdline (path : Name) (args : List Name) : List UInt8 :=
  let cmdline := args.foldl appendArg []
  if cmdline.length = 0 then appendBytes path [] else cmdline

/-! ### The program -/

/-- `USER_STACK_PAGE`. -/
def userStackPage : ℕ := 0xBFFFF000

/-- The memory of a program with that stack page. -/
def stackMem (rest page : ℕ → UInt8) : ℕ → UInt8 := fun a =>
  if userStackPage ≤ a ∧ a < userStackPage + 0x1000 then page (a - userStackPage) else rest a

/-- The strings that a program finds through the `argc` and `argv` at its stack
pointer. -/
def stackArgs (mem : ℕ → UInt8) (esp : ℕ) : List Name :=
  (List.range (wordAt mem (esp + 4))).map fun i =>
    strAt mem (wordAt mem (wordAt mem (esp + 8) + 4 * i))

/-! ### What the program reads -/

section

variable {page mem : ℕ → UInt8} {base top o i n : ℕ}

lemma stackMem_page (rest page : ℕ → UInt8) (h : o < 0x1000) :
    stackMem rest page (userStackPage + o) = page o := by
  rw [stackMem, if_pos (by omega), Nat.add_sub_cancel_left]

lemma wordAt_stackMem (rest page : ℕ → UInt8) (h : o + 4 ≤ 0x1000) :
    wordAt (stackMem rest page) (userStackPage + o) = Fat32.read32 page o := by
  have hbyte : ∀ i < 4, stackMem rest page (userStackPage + o + i) = page (o + i) := by
    intro i hi
    rw [Nat.add_assoc, stackMem_page rest page (by omega)]
  have h0 : stackMem rest page (userStackPage + o) = page o := hbyte 0 (by omega)
  rw [wordAt, Fat32.read32, Fat32.read32, h0, hbyte 1 (by omega), hbyte 2 (by omega),
    hbyte 3 (by omega)]

lemma takeWhile_bytesAt (str : Name) : ∀ a n, (0 : UInt8) ∉ str → str.length ≤ n →
    (∀ i ≤ str.length, mem (a + i) = (str ++ [0]).getD i 0) →
    (bytesAt mem a n).takeWhile (· ≠ 0) = str := by
  induction str with
  | nil =>
    intro a n _ _ h
    cases n with
    | zero => rfl
    | succ n =>
      have h0 : mem a = 0 := h 0 le_rfl
      rw [bytesAt_succ, h0, List.takeWhile_cons_of_neg (by simp)]
  | cons c str ih =>
    intro a n hz hn h
    obtain ⟨n, rfl⟩ : ∃ m, n = m + 1 := ⟨n - 1, by rw [List.length_cons] at hn; omega⟩
    have hc : mem a = c := h 0 (Nat.zero_le _)
    have hne : c ≠ 0 := fun hc => hz (hc ▸ List.mem_cons_self)
    rw [bytesAt_succ, hc, List.takeWhile_cons_of_pos (by simpa using hne)]
    refine congrArg (c :: ·) (ih (a + 1) n (fun hm => hz (List.mem_cons_of_mem c hm))
      (Nat.le_of_succ_le_succ hn) fun i hi => ?_)
    rw [Nat.add_assoc, Nat.add_comm 1 i, h (i + 1) (Nat.succ_le_succ hi), List.cons_append,
      List.getD_cons_succ]

lemma strAt_stackMem (rest : ℕ → UInt8) {str : Name} (h : HasStr page o str)
    (hz : (0 : UInt8) ∉ str) (hlen : str.length ≤ 255) :
    strAt (stackMem rest page) (userStackPage + o) = str := by
  have hbytes : ∀ i ≤ str.length, stackMem rest page (userStackPage + o + i) =
      (str ++ [0]).getD i 0 := by
    intro i hi
    have hroom := h.1
    rw [Nat.add_assoc, stackMem_page rest page (by omega), h.2 i hi]
  rw [strAt]
  exact takeWhile_bytesAt str (userStackPage + o) 255 hz hlen hbytes

/-- A program finds the arguments of its stack page. -/
lemma stackArgs_of_layout (rest : ℕ → UInt8) {t : ℕ} {args : List Name} {offs : List ℕ}
    (h : StackLayout page userStackPage t args offs)
    (hargs : ∀ arg ∈ args, (0 : UInt8) ∉ arg ∧ arg.length ≤ 255) :
    stackArgs (stackMem rest page) (userStackPage + t) = args := by
  have hin := h.inPage
  rw [stackArgs, Nat.add_assoc, Nat.add_assoc, wordAt_stackMem rest page (by omega),
    wordAt_stackMem rest page (by omega), h.argc, h.argv]
  refine List.ext_getElem (by rw [List.length_map, List.length_range]) fun i hi₁ hi => ?_
  have hio : i < offs.length := h.count ▸ hi
  have hstr := List.forall₂_iff_get.mp h.strings |>.2 i hio hi
  rw [List.getElem_map, List.getElem_range, Nat.add_assoc, wordAt_stackMem rest page (by omega),
    h.pointers i hi, List.getD_eq_getElem _ _ hio]
  obtain ⟨hz, hlen⟩ := hargs args[i] (List.getElem_mem hi)
  exact strAt_stackMem rest hstr hz hlen

/-- **A program finds the tokens of the command line**, as far as they fit. -/
theorem stackArgs_pagingBuildUserStack (rest : ℕ → UInt8) {cmdline : List UInt8}
    (hz : (0 : UInt8) ∉ cmdline) :
    stackArgs (stackMem rest (pagingBuildUserStack userStackPage cmdline).1)
      (pagingBuildUserStack userStackPage cmdline).2 = fittingArgs cmdline := by
  obtain ⟨page, t, offs, hbuild, -, hlayout⟩ :=
    pagingBuildUserStack_layout (show userStackPage + 0x1000 ≤ 2 ^ 32 by decide) (some cmdline)
  rw [Option.getD_some] at hbuild hlayout
  have hpre := (fitArgs_spec _ (tokens 16 cmdline) 0
    (Nat.zero_le (stringBudget (tokens 16 cmdline).length))).1
  rw [hbuild]
  refine stackArgs_of_layout rest hlayout fun arg harg => ?_
  obtain ⟨hl, hm⟩ := mem_tokens 16 cmdline arg (hpre.subset harg)
  exact ⟨fun h => hz (hm 0 h), hl⟩

/-! ### Flattening and cutting -/

lemma appendBytes_eq (str : Name) : ∀ cmdline : List UInt8,
    cmdline.length + str.length ≤ 510 → appendBytes str cmdline = cmdline ++ str := by
  induction str with
  | nil => exact fun cmdline _ => (List.append_nil cmdline).symm
  | cons c str ih =>
    intro cmdline h
    rw [List.length_cons] at h
    have hlen : (cmdline ++ [c]).length + str.length ≤ 510 := by
      rw [List.length_append, List.length_singleton]
      omega
    rw [appendBytes, if_pos (by omega), ih _ hlen, List.append_assoc, List.singleton_append]

/-- Behind the first argument, each one comes with a space before it. -/
lemma foldl_appendArg (args : List Name) : ∀ cmdline : List UInt8, cmdline ≠ [] →
    cmdline.length + packedSize args ≤ 510 →
    args.foldl appendArg cmdline = cmdline ++ args.flatMap (0x20 :: ·) := by
  induction args with
  | nil => exact fun cmdline _ _ => (List.append_nil cmdline).symm
  | cons arg args ih =>
    intro cmdline hne h
    have hpos : 0 < cmdline.length := List.length_pos_iff.mpr hne
    have hsize : packedSize (arg :: args) = arg.length + 1 + packedSize args := List.sum_cons
    have hspace : (cmdline ++ [0x20]).length = cmdline.length + 1 := List.length_append
    have happ : appendArg cmdline arg = cmdline ++ 0x20 :: arg := by
      rw [appendArg, if_pos (by omega), appendBytes_eq arg _ (by omega), List.append_assoc,
        List.singleton_append]
    have hlen : (cmdline ++ 0x20 :: arg).length + packedSize args ≤ 510 := by
      rw [List.length_append, List.length_cons]
      omega
    rw [List.foldl_cons, happ, ih _ (by simp) hlen, List.append_assoc, List.flatMap_cons]

lemma execCmdline_cons (path : Name) {arg : Name} (args : List Name) (hne : arg ≠ [])
    (h : arg.length + packedSize args ≤ 510) :
    execCmdline path (arg :: args) = arg ++ args.flatMap (0x20 :: ·) := by
  have hfirst : appendArg [] arg = arg := by
    rw [appendArg, if_neg (fun h => absurd h.1 (lt_irrefl 0)), appendBytes_eq arg [] (by
      rw [List.length_nil]
      omega), List.nil_append]
  have hcmd : (arg :: args).foldl appendArg [] = arg ++ args.flatMap (0x20 :: ·) := by
    rw [List.foldl_cons, hfirst, foldl_appendArg args arg hne h]
  have hpos : 0 < arg.length := List.length_pos_iff.mpr hne
  rw [execCmdline, hcmd, if_neg]
  rw [List.length_append]
  omega

lemma zero_notMem_execCmdline (path : Name) {args : List Name} (hne : args ≠ [])
    (hargs : ∀ arg ∈ args, arg ≠ [] ∧ (0 : UInt8) ∉ arg) (h : packedSize args ≤ 511) :
    (0 : UInt8) ∉ execCmdline path args := by
  obtain ⟨arg, args, rfl⟩ := List.exists_cons_of_ne_nil hne
  have hsum : packedSize (arg :: args) = arg.length + 1 + packedSize args := List.sum_cons
  rw [execCmdline_cons path args (hargs arg List.mem_cons_self).1 (by omega)]
  intro hz
  rcases List.mem_append.mp hz with hz | hz
  · exact (hargs arg List.mem_cons_self).2 hz
  · obtain ⟨b, hb, hz⟩ := List.mem_flatMap.mp hz
    rcases List.mem_cons.mp hz with hz | hz
    · exact absurd hz (by decide)
    · exact (hargs b (List.mem_cons_of_mem arg hb)).2 hz

/-- A token ends at the end of the line and at a space. -/
lemma takeToken_append (arg : Name) : ∀ n rest, arg.length ≤ n → (0x20 : UInt8) ∉ arg →
    (rest = [] ∨ ∃ p, rest = 0x20 :: p) → takeToken n (arg ++ rest) = (arg, rest) := by
  induction arg with
  | nil =>
    intro n rest _ _ hrest
    cases n with
    | zero => rfl
    | succ n =>
      rcases hrest with rfl | ⟨p, rfl⟩
      · rfl
      · exact if_neg (not_not.mpr rfl)
  | cons c arg ih =>
    intro n rest hn hsp hrest
    obtain ⟨n, rfl⟩ : ∃ m, n = m + 1 := ⟨n - 1, by rw [List.length_cons] at hn; omega⟩
    have hc : c ≠ 0x20 := fun h => hsp (h ▸ List.mem_cons_self)
    rw [List.cons_append, takeToken, if_pos hc, ih n rest (Nat.le_of_succ_le_succ hn)
      (fun h => hsp (List.mem_cons_of_mem c h)) hrest]

lemma tokens_space (n : ℕ) (p : List UInt8) : tokens n (0x20 :: p) = tokens n p := by
  cases n with
  | zero => rfl
  | succ n => rw [tokens, tokens, List.dropWhile_cons_of_pos (by simp)]

/-- The tokens of strings with a space before each. -/
lemma tokens_flatMap (args : List Name) : ∀ n, args.length ≤ n →
    (∀ arg ∈ args, arg ≠ [] ∧ (0x20 : UInt8) ∉ arg ∧ arg.length ≤ 254) →
    tokens n (args.flatMap (0x20 :: ·)) = args := by
  induction args with
  | nil =>
    intro n _ _
    cases n with
    | zero => rfl
    | succ n => rfl
  | cons arg args ih =>
    intro n hn hargs
    obtain ⟨n, rfl⟩ : ∃ m, n = m + 1 := ⟨n - 1, by rw [List.length_cons] at hn; omega⟩
    obtain ⟨hne, hsp, hlen⟩ := hargs arg List.mem_cons_self
    have hrest : args.flatMap (0x20 :: ·) = ([] : List UInt8) ∨
        ∃ p, args.flatMap (0x20 :: ·) = (0x20 : UInt8) :: p := by
      cases args with
      | nil => exact .inl rfl
      | cons b args => exact .inr ⟨_, rfl⟩
    have htok := takeToken_append arg 255 _ (by omega) hsp hrest
    obtain ⟨c, str, rfl⟩ := List.exists_cons_of_ne_nil hne
    have hc : c ≠ 0x20 := fun h => hsp (h ▸ List.mem_cons_self)
    rw [List.flatMap_cons, List.cons_append, tokens_space, List.cons_append, tokens,
      List.dropWhile_cons_of_neg (by simpa using hc)]
    rw [List.cons_append] at htok
    dsimp only
    rw [htok]
    exact congrArg (_ :: ·) (ih n (Nat.le_of_succ_le_succ hn)
      fun arg h => hargs arg (List.mem_cons_of_mem _ h))

/-- **Cutting undoes flattening.** -/
theorem tokens_execCmdline (path : Name) {args : List Name} (hne : args ≠ [])
    (hcount : args.length ≤ 16)
    (hargs : ∀ arg ∈ args, arg ≠ [] ∧ (0x20 : UInt8) ∉ arg ∧ arg.length ≤ 254)
    (hsize : packedSize args ≤ 511) : tokens 16 (execCmdline path args) = args := by
  obtain ⟨arg, args, rfl⟩ := List.exists_cons_of_ne_nil hne
  have hsum : packedSize (arg :: args) = arg.length + 1 + packedSize args := List.sum_cons
  rw [execCmdline_cons path args (hargs arg List.mem_cons_self).1 (by omega)]
  refine (tokens_space 16 _).symm.trans ?_
  exact tokens_flatMap (arg :: args) 16 hcount hargs

/-! ### The argument vector of the caller -/

/-- The vector at `slot` holds the strings, with a null pointer behind them, and all of
it lies in the user half. -/
def ArgvAt (mem : ℕ → UInt8) : ℕ → List Name → Prop
  | slot, [] => slot + 4 ≤ userTop ∧ wordAt mem slot = 0
  | slot, arg :: args =>
    slot + 4 ≤ userTop ∧ wordAt mem slot ≠ 0 ∧
      wordAt mem slot + arg.length < userTop ∧ strAt mem (wordAt mem slot) = arg ∧
      ArgvAt mem (slot + 4) args

lemma argvLoop_fst (args : List Name) : ∀ n slot, slot ≠ 0 → args.length ≤ n →
    (∀ arg ∈ args, arg.length ≤ 254) → ArgvAt mem slot args →
    (argvLoop mem n slot).1 = args := by
  induction args with
  | nil =>
    intro n slot hslot _ _ h
    cases n with
    | zero => rfl
    | succ n =>
      rw [argvLoop, argvStep]
      split
      · rw [if_pos h.2]
      · rfl
  | cons arg args ih =>
    intro n slot hslot hn hlen h
    obtain ⟨n, rfl⟩ : ∃ m, n = m + 1 := ⟨n - 1, by rw [List.length_cons] at hn; omega⟩
    obtain ⟨hrange, hptr, hstr, hat, hrest⟩ := h
    have hok : userRangeOk slot 4 = true := decide_eq_true (by omega)
    have hpath : (copyUserPathAt mem (wordAt mem slot)).1 = some arg := by
      have hl := hlen arg List.mem_cons_self
      rw [copyUserPathAt_fst, hat, copyUserPath, if_pos ⟨hptr, hstr, by omega⟩]
    have hih := ih n (slot + 4) (by omega) (Nat.le_of_succ_le_succ hn)
      (fun a ha => hlen a (List.mem_cons_of_mem arg ha)) hrest
    rw [argvLoop, argvStep, if_pos hok, if_neg hptr]
    generalize copyUserPathAt mem (wordAt mem slot) = r at hpath
    obtain ⟨path, touched⟩ := r
    obtain rfl : path = some arg := hpath
    exact congrArg (arg :: ·) hih

/-- `sys_exec` copies the vector. -/
lemma execArgv_fst {uargv : ℕ} {args : List Name} (hu : uargv ≠ 0) (hcount : args.length ≤ 16)
    (hlen : ∀ arg ∈ args, arg.length ≤ 254) (h : ArgvAt mem uargv args) :
    (execArgv mem uargv).1 = args := by
  have hrange : uargv + 4 ≤ userTop := by
    cases args with
    | nil => exact h.1
    | cons arg args => exact h.1
  rw [execArgv, if_pos ⟨hu, decide_eq_true (by omega)⟩]
  exact argvLoop_fst args 16 uargv hu hcount hlen h

lemma ArgvAt.zero_notMem {args : List Name} : ∀ {slot : ℕ}, ArgvAt mem slot args →
    ∀ arg ∈ args, (0 : UInt8) ∉ arg := by
  induction args with
  | nil => exact fun _ arg ha => absurd ha List.not_mem_nil
  | cons arg args ih =>
    rintro slot ⟨-, -, -, hat, hrest⟩ a ha
    rcases List.mem_cons.mp ha with rfl | ha
    · rw [← hat, strAt]
      exact fun h0 => by simpa using List.mem_takeWhile_imp h0
    · exact ih hrest a ha

/-- The arguments that the program started by `sys_exec` finds. -/
def execArgs (mem rest : ℕ → UInt8) (path : Name) (uargv : ℕ) : List Name :=
  let stack := pagingBuildUserStack userStackPage (execCmdline path (execArgv mem uargv).1)
  stackArgs (stackMem rest stack.1) stack.2

/-- **The program gets the vector that `sys_exec` was given**, if no string of it is
empty or holds a space. -/
theorem execArgs_roundTrip (mem rest : ℕ → UInt8) (path : Name) (uargv : ℕ)
    (args : List Name) (hu : uargv ≠ 0) (hvec : ArgvAt mem uargv args) (hpos : 1 ≤ args.length)
    (hcount : args.length ≤ 16) (hlen : ∀ arg ∈ args, arg.length ≤ 254)
    (hsize : (args.map List.length).sum + (args.length - 1) ≤ 510)
    (hplain : ∀ arg ∈ args, arg ≠ [] ∧ (0x20 : UInt8) ∉ arg) :
    execArgs mem rest path uargv = args := by
  have hpacked : packedSize args = (args.map List.length).sum + args.length := by
    rw [packedSize, List.sum_map_add, List.map_const', List.sum_replicate, smul_eq_mul, mul_one]
  have hne : args ≠ [] := List.length_pos_iff.mp hpos
  have hcmd := tokens_execCmdline path hne hcount
    (fun arg ha => ⟨(hplain arg ha).1, (hplain arg ha).2, hlen arg ha⟩) (by omega)
  have hz := zero_notMem_execCmdline path hne
    (fun arg ha => ⟨(hplain arg ha).1, hvec.zero_notMem arg ha⟩) (by omega)
  rw [execArgs, execArgv_fst hu hcount hlen hvec]
  rw [stackArgs_pagingBuildUserStack rest hz, fittingArgs, hcmd]
  refine fitArgs_eq _ args 0 ?_
  rw [stringBudget, if_pos (by omega)]
  omega

end

/-- Memory with a vector at `0x1000` that holds one string, at `0x2000`. -/
def oneArgMem (str : Name) : ℕ → UInt8 :=
  putBytes (putBytes (fun _ => 0) 0x1000 [0x00, 0x20, 0x00, 0x00]) 0x2000 str

/-- The vector with the one string `ls`. -/
theorem execArgs_roundTrip_ls :
    ArgvAt (oneArgMem [0x6C, 0x73]) 0x1000 [[0x6C, 0x73]] ∧
      execArgs (oneArgMem [0x6C, 0x73]) (fun _ => 0) [] 0x1000 = [[0x6C, 0x73]] := by
  have hvec : ArgvAt (oneArgMem [0x6C, 0x73]) 0x1000 [[0x6C, 0x73]] := by
    simp only [ArgvAt, wordAt]
    decide
  exact ⟨hvec, execArgs_roundTrip _ _ [] 0x1000 [[0x6C, 0x73]] (by decide) hvec (by decide)
    (by decide) (by decide) (by decide) (by decide)⟩

/-- A string with a space comes back as two. -/
theorem execArgs_split :
    ¬ ∀ (mem rest : ℕ → UInt8) (path : Name) (uargv : ℕ) (args : List Name), uargv ≠ 0 →
      ArgvAt mem uargv args → 1 ≤ args.length → args.length ≤ 16 →
      (∀ arg ∈ args, arg.length ≤ 254) →
      (args.map List.length).sum + (args.length - 1) ≤ 510 →
      execArgs mem rest path uargv = args := by
  intro h
  have hvec : ArgvAt (oneArgMem [0x61, 0x20, 0x62]) 0x1000 [[0x61, 0x20, 0x62]] := by
    simp only [ArgvAt, wordAt]
    decide
  have hargs := h _ (fun _ => 0) [] 0x1000 [[0x61, 0x20, 0x62]] (by decide) hvec (by decide)
    (by decide) (by decide) (by decide)
  rw [execArgs, execArgv_fst (by decide) (by decide) (by decide) hvec] at hargs
  rw [stackArgs_pagingBuildUserStack _ (by decide)] at hargs
  exact absurd hargs (by decide)

end GordOS.Kernel
