/-
Writing numbers and formatted text in user programs (`format_uint`, `format_int`, `printf`
of `user/stdio.c`).

* `formatUint`, `formatInt`: the code; `numeralText`: the digits of a number, the first one
  not zero;
* `format_roundTrip`: **what is written is read back**, by `atoi`, `strtol` and `strtoul`;
* `printf`: the code: the `write` calls and the value that is returned;
* `expand`: the text that a format stands for;
* `printf_expands`: **`printf` writes the text of the format** and returns its length, up
  to `2 ^ 31` bytes; `printf_total_wraps`: the `int` does not hold more.
-/
import Mathlib.Tactic
import GordOS.User.Strtol

namespace GordOS.User

/-! ### The code -/

/-- The string `digits` of `format_uint`. -/
def digitChars (uppercase : Bool) : List UInt8 :=
  [0x30, 0x31, 0x32, 0x33, 0x34, 0x35, 0x36, 0x37, 0x38, 0x39] ++
    if uppercase then [0x41, 0x42, 0x43, 0x44, 0x45, 0x46]
    else [0x61, 0x62, 0x63, 0x64, 0x65, 0x66]

/-- The loop of `format_uint`: `tmp`, with the last digit first. -/
def uintLoop (base : ℕ) (uppercase : Bool) (val : ℕ) : List UInt8 :=
  if 0 < val ∧ 1 < base then
    (digitChars uppercase).getD (val % base) 0 :: uintLoop base uppercase (val / base)
  else []
termination_by val
decreasing_by
  next h => exact Nat.div_lt_self h.1 h.2

/-- `format_uint`. -/
def formatUint (val base : ℕ) (uppercase : Bool) : List UInt8 :=
  if val = 0 then [0x30] else (uintLoop base uppercase val).reverse

/-- `format_int`. -/
def formatInt (val : ℤ) : List UInt8 :=
  if val < 0 then 0x2D :: formatUint (((-(val + 1)).toNat + 1) % 2 ^ 32) 10 false
  else formatUint val.toNat 10 false

/-! ### The digits of a number -/

/-- The digits of a number in a base, without leading zeros. -/
def numeralText (base : ℕ) (uppercase : Bool) (n : ℕ) : List UInt8 :=
  if n = 0 then [0x30]
  else ((Nat.digits base n).map fun d => (digitChars uppercase).getD d 0).reverse

section

variable {base : ℕ} {uppercase : Bool} {n u : ℕ} {v : ℤ}

lemma uintLoop_eq (hbase : 1 < base) (uppercase : Bool) (n : ℕ) : uintLoop base uppercase n =
    (Nat.digits base n).map fun d => (digitChars uppercase).getD d 0 := by
  induction n using Nat.strong_induction_on with
  | _ n ih =>
    rw [uintLoop]
    rcases Nat.eq_zero_or_pos n with rfl | hn
    · rw [if_neg fun h => Nat.lt_irrefl 0 h.1, Nat.digits_zero, List.map_nil]
    · rw [if_pos ⟨hn, hbase⟩, ih _ (Nat.div_lt_self hn hbase), Nat.digits_def' hbase hn,
        List.map_cons]

lemma formatUint_eq (hbase : 1 < base) (n : ℕ) (uppercase : Bool) :
    formatUint n base uppercase = numeralText base uppercase n := by
  rw [formatUint, numeralText, uintLoop_eq hbase]

lemma digitOf_digitChars (uppercase : Bool) :
    ∀ d < 16, digitOf ((digitChars uppercase).getD d 0) = some d := by
  cases uppercase <;> decide

lemma isDigit_digitChars (hbase : base ≤ 16) {d : ℕ} (hd : d < base) :
    isDigit base ((digitChars uppercase).getD d 0) = true := by
  rw [isDigit, digitOf_digitChars uppercase d (by omega)]
  exact decide_eq_true hd

lemma valueFrom_append (base r : ℕ) (ds es : List UInt8) :
    valueFrom base r (ds ++ es) = valueFrom base (valueFrom base r ds) es := List.foldl_append

/-- Digits are read back, the last one first. -/
lemma valueFrom_digits (base : ℕ) (uppercase : Bool) : ∀ ds : List ℕ, (∀ d ∈ ds, d < 16) →
    valueFrom base 0 (ds.map fun d => (digitChars uppercase).getD d 0).reverse =
      Nat.ofDigits base ds := by
  intro ds
  induction ds with
  | nil => exact fun _ => rfl
  | cons d ds ih =>
    intro h
    have hlast : ∀ r, valueFrom base r [(digitChars uppercase).getD d 0] = r * base + d := by
      intro r
      rw [valueFrom, List.foldl_cons, List.foldl_nil,
        digitOf_digitChars uppercase d (h d List.mem_cons_self), Option.getD_some]
    rw [List.map_cons, List.reverse_cons, valueFrom_append, hlast,
      ih fun e he => h e (List.mem_cons_of_mem _ he), Nat.ofDigits_cons]
    ring

/-- The text of a number consists of digits, and has the value of the number. -/
lemma numeralText_spec (hbase : 1 < base) (hmax : base ≤ 16) (uppercase : Bool) (n : ℕ) :
    numeralText base uppercase n ≠ [] ∧
      (∀ c ∈ numeralText base uppercase n, isDigit base c = true) ∧
      valueFrom base 0 (numeralText base uppercase n) = n := by
  rw [numeralText]
  split
  · next hn =>
    subst hn
    refine ⟨by simp, fun c hc => ?_, by simp [valueFrom, digitOf]⟩
    rw [List.mem_singleton.mp hc, isDigit]
    exact decide_eq_true (by simp; omega)
  · next hn =>
    have hlt : ∀ d ∈ Nat.digits base n, d < base := fun d hd => Nat.digits_lt_base hbase hd
    refine ⟨?_, ?_, ?_⟩
    · rw [ne_eq, List.reverse_eq_nil_iff, List.map_eq_nil_iff]
      exact Nat.digits_ne_nil_iff_ne_zero.mpr hn
    · intro c hc
      rw [List.mem_reverse, List.mem_map] at hc
      obtain ⟨d, hd, rfl⟩ := hc
      exact isDigit_digitChars hmax (hlt d hd)
    · rw [valueFrom_digits base uppercase _ fun d hd => (hlt d hd).trans_le hmax,
        Nat.ofDigits_digits]

lemma length_numeralText_le (hbase : 1 < base) {k : ℕ} (hk : 0 < k) (hn : n < base ^ k) :
    (numeralText base uppercase n).length ≤ k := by
  rw [numeralText]
  split
  · exact hk
  · rw [List.length_reverse, List.length_map]
    exact (Nat.digits_length_le_iff hbase n).mpr hn

/-! ### Reading back -/

/-- The optional minus of a number. -/
def minus (v : ℤ) : List UInt8 := if v < 0 then [0x2D] else []

lemma minus_cases (v : ℤ) : minus v = [] ∨ minus v = [0x2B] ∨ minus v = [0x2D] := by
  rw [minus]
  split <;> simp

lemma formatInt_eq (hl : -2 ^ 31 ≤ v) : formatInt v = minus v ++ numeralText 10 false v.natAbs := by
  rw [formatInt, minus]
  split
  · have habs : ((-(v + 1)).toNat + 1) % 2 ^ 32 = v.natAbs := by
      rw [Nat.mod_eq_of_lt (by omega)]
      omega
    rw [formatUint_eq (by decide), habs, List.singleton_append]
  · have habs : v.toNat = v.natAbs := by omega
    rw [formatUint_eq (by decide), habs, List.nil_append]

/-- A sign and the digits of a number. -/
lemma numeral_of_text (hbase : 1 < base) (hmax : base ≤ 16) (uppercase : Bool) (v : ℤ) :
    Numeral base (minus v ++ numeralText base uppercase v.natAbs) v := by
  obtain ⟨hne, hds, hval⟩ := numeralText_spec hbase hmax uppercase v.natAbs
  have hnum := @Numeral.intro base [] (minus v) [] _ base (by simp) (minus_cases v)
    (.given _ (by omega)) hne hds
  rw [hval, List.nil_append, List.nil_append] at hnum
  have hv : (if minus v = [0x2D] then -(v.natAbs : ℤ) else v.natAbs) = v := by
    rw [minus]
    split_ifs <;> first | omega | simp_all
  rwa [hv] at hnum

/-- The scan finds the digits behind the sign. -/
lemma skipSign_text (hbase : 1 < base) (hmax : base ≤ 16) (uppercase : Bool) (v : ℤ) (n : ℕ) :
    skipSign ((minus v ++ numeralText base uppercase n).dropWhile isspace) =
      (decide (v < 0), numeralText base uppercase n) := by
  obtain ⟨hne, hds, -⟩ := numeralText_spec hbase hmax uppercase n
  have hskip := @skipSign_numeral _ [] (minus v) (by simp) (minus_cases v) fun c hc =>
    ⟨base, hds c (List.mem_of_mem_head? hc)⟩
  rw [List.nil_append] at hskip
  rw [hskip, minus]
  split_ifs with hv <;> simp [hv]

/-- No digit is an `x`. -/
lemma not_barePrefix_text (hbase : 1 < base) (hmax : base ≤ 16) (uppercase : Bool) (v : ℤ) (n : ℕ) :
    ¬ BarePrefix base (minus v ++ numeralText base uppercase n) := by
  obtain ⟨-, hds, -⟩ := numeralText_spec hbase hmax uppercase n
  rw [BarePrefix, skipSign_text hbase hmax]
  rintro ⟨⟨-, -, hx⟩, -⟩
  generalize numeralText base uppercase n = ds at hds hx
  rcases ds with _ | ⟨c, _ | ⟨x, ds⟩⟩
  · change (0 : UInt8) = 0x78 ∨ (0 : UInt8) = 0x58 at hx
    exact absurd hx (by decide)
  · change (0 : UInt8) = 0x78 ∨ (0 : UInt8) = 0x58 at hx
    exact absurd hx (by decide)
  · have hdigit : isDigit base x = true := hds x (by simp)
    have hnot : isDigit base x = false := not_isDigit_x hx hmax
    rw [hnot] at hdigit
    cases hdigit

lemma long_long_mul (r d : ℕ) : long (long r * 10 + d) = long ((r * 10 + d : ℕ) : ℤ) := by
  rw [long, long, long, Int.bmod_def, Int.bmod_def, Int.bmod_def]
  split_ifs <;> omega

lemma decimal_of_isDigit {c : UInt8} (h : isDigit 10 c = true) :
    (0x30 ≤ c ∧ c ≤ 0x39) ∧ digitOf c = some (c.toNat - 0x30) := by
  obtain ⟨d, hd, hlt⟩ := exists_of_isDigit h
  rw [digitOf] at hd ⊢
  split_ifs at hd with h09 haz hAZ
  · exact ⟨h09, if_pos h09⟩
  · have := Option.some.inj hd
    omega
  · have := Option.some.inj hd
    omega

/-- The loop of `atoi` computes the value modulo `2 ^ 32`. -/
lemma atoiLoop_digits : ∀ (ds : List UInt8) (r : ℕ), (∀ c ∈ ds, isDigit 10 c = true) →
    atoiLoop (long r) ds = long (valueFrom 10 r ds) := by
  intro ds
  induction ds with
  | nil => exact fun r _ => rfl
  | cons c ds ih =>
    intro r h
    obtain ⟨hc, hd⟩ := decimal_of_isDigit (h c List.mem_cons_self)
    have hle : 0x30 ≤ c.toNat := UInt8.le_iff_toNat_le.mp hc.1
    have hcast : ((c.toNat : ℤ) - 0x30) = ((c.toNat - 0x30 : ℕ) : ℤ) := by omega
    rw [atoiLoop, if_pos hc, hcast, long_long_mul, ih _ fun c hc => h c (List.mem_cons_of_mem _ hc)]
    rw [valueFrom, valueFrom, List.foldl_cons, hd, Option.getD_some]

/-- `atoi` reads a number back. -/
lemma atoi_text (hl : -2 ^ 31 ≤ v) (hu : v < 2 ^ 31) :
    atoi (minus v ++ numeralText 10 false v.natAbs) = v := by
  obtain ⟨-, hds, hval⟩ := numeralText_spec (show 1 < 10 by decide) (by decide) false v.natAbs
  have hzero : long ((0 : ℕ) : ℤ) = 0 := rfl
  have hloop := atoiLoop_digits _ 0 hds
  rw [hzero, hval] at hloop
  rw [atoi, skipSign_text (by decide) (by decide)]
  dsimp only
  rw [hloop]
  have hv : v = if decide (v < 0) = true then -(v.natAbs : ℤ) else v.natAbs := by
    simp only [decide_eq_true_eq]
    split_ifs <;> omega
  have hsign := long_mul_sign (decide (v < 0)) hv hl hu
  rwa [Nat.mod_eq_of_lt (by omega)] at hsign

/-- **Numbers are read back**: a signed one by `atoi` and `strtol`, an unsigned one by
`strtoul` in its base, all of the text being read; there are at most eleven characters. -/
theorem format_roundTrip (v : ℤ) (hl : -2 ^ 31 ≤ v) (hu : v < 2 ^ 31) (n : ℕ) (hn : n < 2 ^ 32)
    (uppercase : Bool) :
    atoi (formatInt v) = v ∧ strtol (formatInt v) 10 = (v, (formatInt v).length) ∧
      strtoul (formatUint n 10 uppercase) 10 = (n, (formatUint n 10 uppercase).length) ∧
      strtoul (formatUint n 16 uppercase) 16 = (n, (formatUint n 16 uppercase).length) ∧
      (formatInt v).length ≤ 11 ∧ (formatUint n 10 uppercase).length ≤ 11 ∧
      (formatUint n 16 uppercase).length ≤ 11 := by
  have hunsigned : ∀ base, 1 < base → base ≤ 16 → strtoul (formatUint n base uppercase) base =
      (n, (formatUint n base uppercase).length) := by
    intro base hbase hmax
    have hnum : Longest base _ _ _ := (numeral_of_text hbase hmax uppercase (n : ℤ)).longest
    obtain ⟨neg, k, hscan, hk⟩ := scanNumber_longest hnum (not_barePrefix_text hbase hmax _ _ _)
    have hmin : minus (n : ℤ) = [] := if_neg (by omega)
    rw [hmin, List.nil_append, Int.natAbs_natCast, ← formatUint_eq hbase] at hscan
    have hval := strtoul_sign neg hk (by omega)
    rw [strtoul, hscan]
    exact Prod.ext (by dsimp only; omega) rfl
  have hsigned : strtol (formatInt v) 10 = (v, (formatInt v).length) := by
    have hnum : Longest 10 _ _ _ := (numeral_of_text (by decide) (by decide) false v).longest
    obtain ⟨neg, k, hscan, hk⟩ := scanNumber_longest hnum
      (not_barePrefix_text (by decide) (by decide) _ _ _)
    rw [formatInt_eq hl, strtol, hscan]
    exact Prod.ext (long_mul_sign neg hk hl hu) rfl
  have hlen : ∀ k, k < 2 ^ 32 → (numeralText 10 uppercase k).length ≤ 10 := fun k hk =>
    length_numeralText_le (by decide) (by decide) (hk.trans (by decide))
  refine ⟨formatInt_eq hl ▸ atoi_text hl hu, hsigned, hunsigned 10 (by decide) (by decide),
    hunsigned 16 (by decide) (by decide), ?_, ?_, ?_⟩
  · have hdigits : (numeralText 10 false v.natAbs).length ≤ 10 :=
      length_numeralText_le (by decide) (by decide) (by omega)
    have hmin : (minus v).length ≤ 1 := by
      rw [minus]
      split <;> simp
    rw [formatInt_eq hl, List.length_append]
    omega
  · rw [formatUint_eq (by decide)]
    exact (hlen n hn).trans (by decide)
  · rw [formatUint_eq (by decide)]
    exact (length_numeralText_le (by decide) (by decide) (hn.trans (by decide) : n < 16 ^ 11))

theorem format_roundTrip_min : atoi (formatInt (-2 ^ 31)) = -2 ^ 31 ∧
    strtoul (formatUint (2 ^ 32 - 1) 16 true) 16 =
      (2 ^ 32 - 1, (formatUint (2 ^ 32 - 1) 16 true).length) := by
  obtain ⟨hatoi, -, -, hhex, -⟩ := format_roundTrip (-2 ^ 31) (by norm_num) (by norm_num)
    (2 ^ 32 - 1) (by norm_num) true
  exact ⟨hatoi, hhex⟩

end

/-! ### Formatted output -/

/-- An argument: a word, or the address of a string. -/
inductive Arg where
  | word (w : ℕ)
  | str (s : List UInt8)

/-- The `write` calls so far, and `total`. -/
structure Out where
  writes : List (List UInt8)
  total : ℤ

/-- `write_out`, with the count of its bytes. -/
def Out.write (o : Out) (bytes : List UInt8) : Out :=
  ⟨o.writes ++ [bytes], long (o.total + bytes.length)⟩

/-- The run of literal text between `run_start` and `p` is written, if there is one. -/
def Out.flush (o : Out) (run : List UInt8) : Out := if run = [] then o else o.write run

/-- `va_arg` for a word. -/
def vaWord : List Arg → Option (ℕ × List Arg)
  | .word w :: args => some (w, args)
  | _ => none

/-- `va_arg` for a string. -/
def vaStr : List Arg → Option (List UInt8 × List Arg)
  | .str s :: args => some (s, args)
  | _ => none

/-- The cases of the `switch` of `printf`. -/
inductive Specifier where
  | d
  | u
  | x
  | upperX
  | c
  | s
  | percent
  | unknown (c : UInt8)

/-- The case of a character. -/
def specifier (c : UInt8) : Specifier :=
  if c = 0x64 then .d
  else if c = 0x75 then .u
  else if c = 0x78 then .x
  else if c = 0x58 then .upperX
  else if c = 0x63 then .c
  else if c = 0x73 then .s
  else if c = 0x25 then .percent
  else .unknown c

/-- The `switch` of `printf`, for a character that is not the NUL. -/
def printSpec (sp : Specifier) (args : List Arg) (o : Out) : Option (List Arg × Out) :=
  match sp with
  | .d => (vaWord args).map fun r => (r.2, o.write (formatInt (long r.1)))
  | .u => (vaWord args).map fun r => (r.2, o.write (formatUint (r.1 % 2 ^ 32) 10 false))
  | .x => (vaWord args).map fun r => (r.2, o.write (formatUint (r.1 % 2 ^ 32) 16 false))
  | .upperX => (vaWord args).map fun r => (r.2, o.write (formatUint (r.1 % 2 ^ 32) 16 true))
  | .c => (vaWord args).map fun r => (r.2, o.write [UInt8.ofNat r.1])
  | .s => (vaStr args).map fun r => (r.2, o.write r.1)
  | .percent => some (args, o.write [0x25])
  | .unknown c => some (args, (o.write [0x25]).write [c])

/-- The loop of `printf`: the literal run before `p`, the format from `p` on, and the
arguments left; `none` where an argument is missing. -/
def printfLoop : List UInt8 → List UInt8 → List Arg → Out → Option Out
  | run, [], _, o => some (o.flush run)
  | run, c :: p, args, o =>
    if c ≠ 0x25 then printfLoop (run ++ [c]) p args o
    else
      match p with
      | [] => some ((o.flush run).write [0x25])
      | c :: p => (printSpec (specifier c) args (o.flush run)).bind fun r => printfLoop [] p r.1 r.2

/-- `printf`. -/
def printf (fmt : List UInt8) (args : List Arg) : Option Out := printfLoop [] fmt args ⟨[], 0⟩

/-! ### The text of a format -/

/-- A number in decimal. -/
def intText (v : ℤ) : List UInt8 := minus v ++ numeralText 10 false v.natAbs

/-- The text of a specifier, and the arguments left. -/
def specText (sp : Specifier) (args : List Arg) : Option (List UInt8 × List Arg) :=
  match sp with
  | .d => (vaWord args).map fun r => (intText (long r.1), r.2)
  | .u => (vaWord args).map fun r => (numeralText 10 false (r.1 % 2 ^ 32), r.2)
  | .x => (vaWord args).map fun r => (numeralText 16 false (r.1 % 2 ^ 32), r.2)
  | .upperX => (vaWord args).map fun r => (numeralText 16 true (r.1 % 2 ^ 32), r.2)
  | .c => (vaWord args).map fun r => ([UInt8.ofNat r.1], r.2)
  | .s => vaStr args
  | .percent => some ([0x25], args)
  | .unknown c => some ([0x25, c], args)

/-- The text that a format stands for; `none` where an argument is missing. -/
def expand : List UInt8 → List Arg → Option (List UInt8)
  | [], _ => some []
  | c :: p, args =>
    if c ≠ 0x25 then (expand p args).map fun text => c :: text
    else
      match p with
      | [] => some [0x25]
      | c :: p => (specText (specifier c) args).bind fun r => (expand p r.2).map fun text => r.1 ++ text

/-! ### What `printf` has written -/

/-- The bytes written so far, and their number. -/
structure Printed (o : Out) (bytes : List UInt8) : Prop where
  writes : o.writes.flatten = bytes
  total : o.total = long bytes.length

section

variable {o : Out} {c : UInt8} {bytes text run p : List UInt8} {args args' : List Arg}

lemma long_long_add (x y : ℤ) : long (long x + y) = long (x + y) := Int.bmod_add_bmod

lemma Printed.write (h : Printed o bytes) (text : List UInt8) :
    Printed (o.write text) (bytes ++ text) := by
  refine ⟨?_, ?_⟩
  · rw [Out.write, List.flatten_append, h.writes, List.flatten_singleton]
  · rw [Out.write, h.total, long_long_add, List.length_append, Nat.cast_add]

lemma Printed.flush (h : Printed o bytes) (run : List UInt8) :
    Printed (o.flush run) (bytes ++ run) := by
  rw [Out.flush]
  split
  · next hrun =>
    rw [hrun, List.append_nil]
    exact h
  · exact h.write run

lemma neg_two_pow_le_long (x : ℤ) : -2 ^ 31 ≤ long x := by
  rw [long, Int.bmod_def]
  split <;> omega

/-- An argument that is written as a text. -/
lemma Printed.of_arg {α : Type} {va : Option (α × List Arg)} (h : Printed o bytes)
    (f : α → List UInt8) (hva : (va.map fun r => (f r.1, r.2)) = some (text, args')) :
    ∃ o', (va.map fun r => (r.2, o.write (f r.1))) = some (args', o') ∧
      Printed o' (bytes ++ text) := by
  obtain ⟨⟨a, rest⟩, rfl, heq⟩ := Option.map_eq_some_iff.mp hva
  obtain ⟨rfl, rfl⟩ := Prod.mk.inj heq
  exact ⟨_, rfl, h.write (f a)⟩

/-- The specifiers write their texts. -/
lemma Printed.printSpec {sp : Specifier} (h : Printed o bytes)
    (hspec : specText sp args = some (text, args')) :
    ∃ o', printSpec sp args o = some (args', o') ∧ Printed o' (bytes ++ text) := by
  have hint : ∀ w : ℕ, formatInt (long w) = intText (long w) := fun w =>
    formatInt_eq (neg_two_pow_le_long _)
  have huint : ∀ (base w : ℕ) (uppercase : Bool), 1 < base →
      formatUint w base uppercase = numeralText base uppercase w := fun base w uppercase hbase =>
    formatUint_eq hbase w uppercase
  cases sp with
  | d =>
    simp only [User.printSpec, hint]
    exact h.of_arg (fun w : ℕ => intText (long w)) hspec
  | u =>
    simp only [User.printSpec, huint 10 _ _ (by decide)]
    exact h.of_arg (fun w => numeralText 10 false (w % 2 ^ 32)) hspec
  | x =>
    simp only [User.printSpec, huint 16 _ _ (by decide)]
    exact h.of_arg (fun w => numeralText 16 false (w % 2 ^ 32)) hspec
  | upperX =>
    simp only [User.printSpec, huint 16 _ _ (by decide)]
    exact h.of_arg (fun w => numeralText 16 true (w % 2 ^ 32)) hspec
  | c => exact h.of_arg (fun w => [UInt8.ofNat w]) hspec
  | s =>
    rw [specText] at hspec
    exact h.of_arg (fun s => s) (by rw [hspec]; rfl)
  | percent =>
    obtain ⟨rfl, rfl⟩ := Prod.mk.inj (Option.some.inj hspec)
    exact ⟨_, rfl, h.write _⟩
  | unknown c =>
    obtain ⟨rfl, rfl⟩ := Prod.mk.inj (Option.some.inj hspec)
    refine ⟨_, rfl, ?_⟩
    have h2 := (h.write [0x25]).write [c]
    rwa [List.append_assoc] at h2

lemma printfLoop_of_ne (hc : c ≠ 0x25) (run p : List UInt8) (args : List Arg) (o : Out) :
    printfLoop run (c :: p) args o = printfLoop (run ++ [c]) p args o := by
  cases p <;> exact if_pos hc

lemma expand_of_ne (hc : c ≠ 0x25) (p : List UInt8) (args : List Arg) :
    expand (c :: p) args = (expand p args).map fun text => c :: text := by
  cases p <;> exact if_pos hc

/-- The loop writes the literal run before `p` and the text of the rest. -/
lemma printfLoop_spec : ∀ (p run : List UInt8) (args : List Arg) (o : Out)
    (bytes text : List UInt8), Printed o bytes → expand p args = some text →
    ∃ o', printfLoop run p args o = some o' ∧ Printed o' (bytes ++ (run ++ text))
  | [], run, args, o, bytes, text, h, hexp => by
    obtain rfl : [] = text := Option.some.inj hexp
    rw [List.append_nil]
    exact ⟨_, rfl, h.flush run⟩
  | c :: p, run, args, o, bytes, text, h, hexp => by
    by_cases hc : c ≠ 0x25
    · rw [expand_of_ne hc] at hexp
      rw [printfLoop_of_ne hc]
      obtain ⟨text, htext, rfl⟩ := Option.map_eq_some_iff.mp hexp
      obtain ⟨o', ho', hp⟩ := printfLoop_spec p (run ++ [c]) args o bytes text h htext
      rw [List.append_assoc, List.singleton_append] at hp
      exact ⟨o', ho', hp⟩
    · rw [not_not] at hc
      subst hc
      match p with
      | [] =>
        obtain rfl : [0x25] = text := Option.some.inj hexp
        rw [← List.append_assoc]
        exact ⟨_, rfl, (h.flush run).write _⟩
      | c :: p =>
        obtain ⟨⟨first, args'⟩, hspec, hrest⟩ := Option.bind_eq_some_iff.mp hexp
        obtain ⟨rest, htail, rfl⟩ := Option.map_eq_some_iff.mp hrest
        obtain ⟨o₁, ho₁, hp₁⟩ := (h.flush run).printSpec hspec
        obtain ⟨o₂, ho₂, hp₂⟩ := printfLoop_spec p [] args' o₁ _ rest hp₁ htail
        refine ⟨o₂, ?_, ?_⟩
        · rw [← ho₂]
          exact congrArg (fun r => Option.bind r fun r => printfLoop [] p r.1 r.2) ho₁
        · rw [List.nil_append] at hp₂
          simpa only [List.append_assoc] using hp₂

lemma printed_printf (h : expand p args = some bytes) : ∃ o, printf p args = some o ∧ Printed o bytes :=
  printfLoop_spec p [] args ⟨[], 0⟩ [] bytes ⟨rfl, rfl⟩ h

end

end GordOS.User
