/-
Reading numbers in user programs (`atoi`, `strtol`, `strtoul` of `user/stdlib.c`,
`isspace` of `user/ctype.c`).

A string is the list of its bytes before the NUL, and a pointer into it is the part that
it points to. Overflow wraps, in 32 bits.

* `atoi`, `strtol`, `strtoul`: the code; the common part of the last two is `scanNumber`;
* `Numeral base w v`: the grammar: white space, a sign, a prefix, digits; `w` denotes `v`;
* `Longest base s w v`: the longest such prefix of `s`;
* `scanNumber_longest`, `scanNumber_none`: the scan finds it;
* `strto_parses`: **both functions parse the longest numeral** in front of a string,
  unless a `0x` stands there without a digit behind it; `strtol_barePrefix`: then the `0`
  is not taken for a numeral.
-/
import Mathlib.Tactic

namespace GordOS.User

/-! ### The code -/

/-- The value of an expression of type `int` or `long`. -/
def long (x : ℤ) : ℤ := x.bmod (2 ^ 32)

/-- `isspace`. -/
def isspace (c : UInt8) : Bool :=
  c = 0x20 || c = 0x09 || c = 0x0A || c = 0x0B || c = 0x0C || c = 0x0D

/-- The optional sign: whether it is a minus, and what is behind it. -/
def skipSign (s : List UInt8) : Bool × List UInt8 :=
  if s.headD 0 = 0x2B then (false, s.tail)
  else if s.headD 0 = 0x2D then (true, s.tail)
  else (false, s)

/-- The loop of `atoi`. -/
def atoiLoop : ℤ → List UInt8 → ℤ
  | result, [] => result
  | result, c :: s =>
    if 0x30 ≤ c ∧ c ≤ 0x39 then atoiLoop (long (result * 10 + ((c.toNat : ℤ) - 0x30))) s
    else result

/-- `atoi`. -/
def atoi (s : List UInt8) : ℤ :=
  match skipSign (s.dropWhile isspace) with
  | (neg, s) => long ((if neg then -1 else 1) * atoiLoop 0 s)

/-- The value of a character as a digit. -/
def digitOf (c : UInt8) : Option ℕ :=
  if 0x30 ≤ c ∧ c ≤ 0x39 then some (c.toNat - 0x30)
  else if 0x61 ≤ c ∧ c ≤ 0x7A then some (c.toNat - 0x61 + 10)
  else if 0x41 ≤ c ∧ c ≤ 0x5A then some (c.toNat - 0x41 + 10)
  else none

/-- A `0x` that the base allows. -/
def HexPrefix (base : ℕ) (s : List UInt8) : Prop :=
  (base = 0 ∨ base = 16) ∧ s.getD 0 0 = 0x30 ∧ (s.getD 1 0 = 0x78 ∨ s.getD 1 0 = 0x58)

instance (base : ℕ) (s : List UInt8) : Decidable (HexPrefix base s) :=
  inferInstanceAs (Decidable (_ ∧ _ ∧ _))

/-- The base, once the prefix is known, and the pointer to the digits. -/
def skipBase (base : ℕ) (s : List UInt8) : ℕ × List UInt8 :=
  if HexPrefix base s then (16, s.drop 2)
  else if base = 0 ∧ s.getD 0 0 = 0x30 then (8, s)
  else if base = 0 then (10, s)
  else (base, s)

/-- The loop over the digits, with `n` of them read: `result`, and the number of digits. -/
def digitLoop (base : ℕ) : ℕ → ℕ → List UInt8 → ℕ × ℕ
  | result, n, [] => (result, n)
  | result, n, c :: s =>
    match digitOf c with
    | none => (result, n)
    | some digit =>
      if base ≤ digit then (result, n)
      else digitLoop base ((result * base + digit) % 2 ^ 32) (n + 1) s

/-- The common part of `strtol` and `strtoul`: the sign, `result`, and how far `*endptr` is
behind `nptr`. -/
def scanNumber (nptr : List UInt8) (base : ℕ) : Bool × ℕ × ℕ :=
  match skipSign (nptr.dropWhile isspace) with
  | (neg, s) =>
    match skipBase base s with
    | (base, start) =>
      match digitLoop base 0 0 start with
      | (result, n) => (neg, result, if n = 0 then 0 else nptr.length - start.length + n)

/-- `strtol`: the number, and how far `*endptr` is behind `nptr`. -/
def strtol (nptr : List UInt8) (base : ℕ) : ℤ × ℕ :=
  match scanNumber nptr base with
  | (neg, result, endptr) => (long ((if neg then -1 else 1) * long result), endptr)

/-- `strtoul`. -/
def strtoul (nptr : List UInt8) (base : ℕ) : ℕ × ℕ :=
  match scanNumber nptr base with
  | (neg, result, endptr) =>
    (if neg then (long (-long result) % 2 ^ 32).toNat else result, endptr)

/-! ### The grammar -/

/-- The character is a digit of the base. -/
def isDigit (base : ℕ) (c : UInt8) : Bool :=
  match digitOf c with
  | none => false
  | some digit => digit < base

/-- The value of digits behind a number. -/
def valueFrom (base : ℕ) (r : ℕ) (ds : List UInt8) : ℕ :=
  ds.foldl (fun r c => r * base + (digitOf c).getD 0) r

/-- The prefixes that may stand before digits, and the base in which these are read. -/
inductive Radix (base : ℕ) : List UInt8 → List UInt8 → ℕ → Prop where
  | hex {x : UInt8} (ds : List UInt8) (hbase : base = 0 ∨ base = 16) (hx : x = 0x78 ∨ x = 0x58) :
      Radix base [0x30, x] ds 16
  | given (ds : List UInt8) (hbase : base ≠ 0) : Radix base [] ds base
  | octal (ds : List UInt8) (hbase : base = 0) (hhead : ds.headD 0 = 0x30) : Radix base [] ds 8
  | decimal (ds : List UInt8) (hbase : base = 0) (hhead : ds.headD 0 ≠ 0x30) :
      Radix base [] ds 10

/-- White space, an optional sign, a prefix and at least one digit, with the value that
they denote. -/
inductive Numeral (base : ℕ) : List UInt8 → ℤ → Prop where
  | intro {ws sign pre ds : List UInt8} {b : ℕ} (hws : ∀ c ∈ ws, isspace c = true)
      (hsign : sign = [] ∨ sign = [0x2B] ∨ sign = [0x2D]) (hradix : Radix base pre ds b)
      (hne : ds ≠ []) (hds : ∀ c ∈ ds, isDigit b c = true) :
      Numeral base (ws ++ (sign ++ (pre ++ ds)))
        (if sign = [0x2D] then -(valueFrom b 0 ds : ℤ) else valueFrom b 0 ds)

/-- The longest prefix of a string that is a numeral. -/
structure Longest (base : ℕ) (s w : List UInt8) (v : ℤ) : Prop where
  numeral : Numeral base w v
  isPrefix : w <+: s
  longest : ∀ w' v', Numeral base w' v' → w' <+: s → w'.length ≤ w.length

/-- A `0x` with no digit behind it, where the base allows it. -/
def BarePrefix (base : ℕ) (nptr : List UInt8) : Prop :=
  HexPrefix base (skipSign (nptr.dropWhile isspace)).2 ∧
    isDigit 16 ((skipSign (nptr.dropWhile isspace)).2.getD 2 0) = false

instance (base : ℕ) (nptr : List UInt8) : Decidable (BarePrefix base nptr) :=
  inferInstanceAs (Decidable (_ ∧ _))

/-! ### Characters -/

section

variable {base b : ℕ} {c : UInt8} {s t u w ws sign pre ds : List UInt8} {v : ℤ}

lemma long_eq {x : ℤ} (hl : -2 ^ 31 ≤ x) (hu : x < 2 ^ 31) : long x = x := by
  rw [long, Int.bmod_def]
  split <;> omega

lemma exists_of_isDigit (h : isDigit b c = true) : ∃ d, digitOf c = some d ∧ d < b := by
  rw [isDigit] at h
  split at h
  · cases h
  · next d hd => exact ⟨d, hd, of_decide_eq_true h⟩

lemma isDigit_mono {b' : ℕ} (h : isDigit b c = true) (hb : b ≤ b') : isDigit b' c = true := by
  obtain ⟨d, hd, hlt⟩ := exists_of_isDigit h
  rw [isDigit, hd]
  exact decide_eq_true (hlt.trans_le hb)

lemma isspace_eq_false (h : isDigit b c = true) : isspace c = false := by
  obtain ⟨d, hd, -⟩ := exists_of_isDigit h
  by_contra hsp
  rw [Bool.not_eq_false, isspace] at hsp
  simp only [Bool.or_eq_true, decide_eq_true_eq] at hsp
  rcases hsp with ((((rfl | rfl) | rfl) | rfl) | rfl) | rfl <;> cases hd

lemma ne_sign (h : isDigit b c = true) : c ≠ 0x2B ∧ c ≠ 0x2D := by
  obtain ⟨d, hd, -⟩ := exists_of_isDigit h
  constructor <;> rintro rfl <;> cases hd

lemma not_isDigit_x {x : UInt8} (hx : x = 0x78 ∨ x = 0x58) (hb : b ≤ 16) : isDigit b x = false := by
  by_contra h
  have h16 := isDigit_mono (Bool.not_eq_false _ ▸ h) hb
  rcases hx with rfl | rfl <;> exact absurd h16 (by decide)

/-! ### The digits -/

lemma digitLoop_of_not (r n : ℕ) (ht : ∀ c ∈ t.head?, isDigit b c = false) :
    digitLoop b r n t = (r, n) := by
  cases t with
  | nil => rfl
  | cons c t =>
    have hc := ht c rfl
    rw [isDigit] at hc
    rw [digitLoop]
    split
    · rfl
    · next d hd =>
      rw [hd] at hc
      rw [if_pos (not_lt.mp (of_decide_eq_false hc))]

/-- The loop reads digits up to the first other character. -/
lemma digitLoop_append (ht : ∀ c ∈ t.head?, isDigit b c = false) :
    ∀ ds r n, (∀ c ∈ ds, isDigit b c = true) →
      digitLoop b (r % 2 ^ 32) n (ds ++ t) = (valueFrom b r ds % 2 ^ 32, n + ds.length) := by
  intro ds
  induction ds with
  | nil => exact fun r n _ => digitLoop_of_not _ n ht
  | cons c ds ih =>
    intro r n hds
    obtain ⟨d, hd, hlt⟩ := exists_of_isDigit (hds c List.mem_cons_self)
    have hmod : (r % 2 ^ 32 * b + d) % 2 ^ 32 = (r * b + d) % 2 ^ 32 := by
      rw [Nat.add_mod, Nat.mod_mul_mod, ← Nat.add_mod]
    have hval : valueFrom b r (c :: ds) = valueFrom b (r * b + d) ds := by
      rw [valueFrom, List.foldl_cons, hd]
      rfl
    rw [List.cons_append, digitLoop, hd]
    dsimp only
    rw [if_neg (not_le.mpr hlt), hmod, ih _ _ fun c hc => hds c (List.mem_cons_of_mem _ hc), hval,
      List.length_cons, Nat.add_assoc, Nat.add_comm 1]

/-! ### What stands before the digits -/

/-- White space is skipped. -/
lemma dropWhile_isspace (hws : ∀ c ∈ ws, isspace c = true) (hu : ∀ c ∈ u.head?, isspace c = false) :
    (ws ++ u).dropWhile isspace = u := by
  rw [List.dropWhile_append_of_pos hws]
  cases u with
  | nil => rfl
  | cons c u => exact List.dropWhile_cons_of_neg (by rw [hu c rfl]; exact Bool.false_ne_true)

/-- A sign is skipped. -/
lemma skipSign_append (hsign : sign = [] ∨ sign = [0x2B] ∨ sign = [0x2D])
    (hu : ∀ c ∈ u.head?, c ≠ 0x2B ∧ c ≠ 0x2D) :
    skipSign (sign ++ u) = (decide (sign = [0x2D]), u) := by
  rcases hsign with rfl | rfl | rfl
  · rw [List.nil_append, skipSign]
    cases u with
    | nil => rfl
    | cons c u =>
      obtain ⟨hp, hm⟩ := hu c rfl
      rw [List.headD_cons, if_neg hp, if_neg hm]
      rfl
  · rfl
  · rfl

lemma head_of_radix (hradix : Radix base pre ds b) (hds : ∀ c ∈ ds, isDigit b c = true)
    (hne : ds ≠ []) : ∀ c ∈ (pre ++ ds ++ t).head?, ∃ b, isDigit b c = true := by
  intro c hc
  obtain ⟨d, ds, rfl⟩ := List.exists_cons_of_ne_nil hne
  have hd := hds d List.mem_cons_self
  cases hradix with
  | hex _ _ _ =>
    obtain rfl : 0x30 = c := Option.some.inj hc
    exact ⟨16, by decide⟩
  | given _ _ => exact ⟨base, Option.some.inj hc ▸ hd⟩
  | octal _ _ _ => exact ⟨8, Option.some.inj hc ▸ hd⟩
  | decimal _ _ _ => exact ⟨10, Option.some.inj hc ▸ hd⟩

/-- The scan reaches the digits of a numeral, or at least its prefix. -/
lemma skipSign_numeral (hws : ∀ c ∈ ws, isspace c = true)
    (hsign : sign = [] ∨ sign = [0x2B] ∨ sign = [0x2D])
    (hu : ∀ c ∈ u.head?, ∃ b, isDigit b c = true) :
    skipSign ((ws ++ (sign ++ u)).dropWhile isspace) = (decide (sign = [0x2D]), u) := by
  rw [dropWhile_isspace hws, skipSign_append hsign]
  · intro c hc
    obtain ⟨b, hb⟩ := hu c hc
    exact ne_sign hb
  · rcases hsign with rfl | rfl | rfl
    · intro c hc
      obtain ⟨b, hb⟩ := hu c hc
      exact isspace_eq_false hb
    · rintro c hc
      obtain rfl : 0x2B = c := Option.some.inj hc
      rfl
    · rintro c hc
      obtain rfl : 0x2D = c := Option.some.inj hc
      rfl

lemma skipBase_of_hex (h : HexPrefix base u) : skipBase base u = (16, u.drop 2) := if_pos h

/-- Without a `0x` the base is the given one, or known from the first digit. -/
lemma skipBase_of_radix (hradix : Radix base [] ds b) (hne : ds ≠ [])
    (h : ¬ HexPrefix base (ds ++ t)) : skipBase base (ds ++ t) = (b, ds ++ t) := by
  obtain ⟨d, ds, rfl⟩ := List.exists_cons_of_ne_nil hne
  rw [skipBase, if_neg h]
  cases hradix with
  | given _ hbase => rw [if_neg fun hb => hbase hb.1, if_neg hbase]
  | octal _ hbase hhead => rw [if_pos ⟨hbase, hhead⟩]
  | decimal _ hbase hhead => rw [if_neg fun hb => hhead hb.2, if_pos hbase]

lemma Radix.append (hradix : Radix base pre ds b) (hne : ds ≠ []) (t : List UInt8) :
    Radix base pre (ds ++ t) b := by
  obtain ⟨d, ds, rfl⟩ := List.exists_cons_of_ne_nil hne
  cases hradix with
  | hex _ hbase hx => exact .hex _ hbase hx
  | given _ hbase => exact .given _ hbase
  | octal _ hbase hhead => exact .octal _ hbase hhead
  | decimal _ hbase hhead => exact .decimal _ hbase hhead

lemma Radix.le_sixteen (hradix : Radix base pre ds b) (hbase : base = 0 ∨ base = 16) : b ≤ 16 := by
  cases hradix with
  | hex _ _ _ => exact le_rfl
  | given _ hne => omega
  | octal _ _ _ => omega
  | decimal _ _ _ => omega

/-- Digits that look like a `0x` to the code: a zero in front of the `x`. -/
lemma zero_of_hexPrefix (hradix : Radix base [] ds b) (hne : ds ≠ [])
    (hds : ∀ c ∈ ds, isDigit b c = true) (h : HexPrefix base (ds ++ t))
    (hdigit : isDigit 16 ((ds ++ t).getD 2 0) = true) :
    ∃ x c t', ds = [0x30] ∧ t = x :: c :: t' ∧ (x = 0x78 ∨ x = 0x58) ∧ isDigit 16 c = true := by
  obtain ⟨hbase, h0, h1⟩ := h
  match ds, t with
  | [], _ => exact absurd rfl hne
  | [d], [] =>
    change (0 : UInt8) = 0x78 ∨ (0 : UInt8) = 0x58 at h1
    exact absurd h1 (by decide)
  | [d], [x] =>
    change isDigit 16 0 = true at hdigit
    exact absurd hdigit (by decide)
  | [d], x :: c :: t' =>
    obtain rfl : d = 0x30 := h0
    exact ⟨x, c, t', rfl, rfl, h1, hdigit⟩
  | d :: x :: ds, t =>
    have hx := hds x (List.mem_cons_of_mem _ List.mem_cons_self)
    have hx' : isDigit b x = false := not_isDigit_x h1 (hradix.le_sixteen hbase)
    rw [hx'] at hx
    cases hx

/-! ### The longest numeral -/

/-- The scan finds the longest numeral. -/
lemma scanNumber_longest (h : Longest base s w v) (hbare : ¬ BarePrefix base s) :
    ∃ (neg : Bool) (n : ℕ), scanNumber s base = (neg, n % 2 ^ 32, w.length) ∧
      v = if neg = true then -(n : ℤ) else n := by
  obtain ⟨hnum, hpre, hmax⟩ := h
  obtain ⟨t, ht⟩ := hpre
  obtain @⟨ws, sign, pre, ds, b, hws, hsign, hradix, hne, hds⟩ := hnum
  have hs : ws ++ (sign ++ (pre ++ ds)) ++ t = ws ++ (sign ++ (pre ++ ds ++ t)) := by
    simp only [List.append_assoc]
  rw [← ht, hs] at hbare hmax
  rw [← ht, hs]
  clear ht hs
  have hskip := skipSign_numeral hws hsign (head_of_radix (t := t) hradix hds hne)
  rw [BarePrefix, hskip] at hbare
  -- what stands behind the digits does not prolong them
  have htail : ∀ c ∈ t.head?, isDigit b c = false := by
    intro c hc
    by_contra hd
    obtain ⟨t', rfl⟩ : ∃ t', t = c :: t' := by
      cases t with
      | nil => cases hc
      | cons c' t' => exact ⟨t', by rw [Option.some.inj hc]⟩
    have hlong := hmax _ _ (.intro hws hsign (hradix.append hne [c]) (by simp) (by
      intro c' hc'
      rcases List.mem_append.mp hc' with hc' | hc'
      · exact hds c' hc'
      · rw [List.mem_singleton.mp hc']
        exact Bool.not_eq_false _ ▸ hd)) ⟨t', by simp only [List.append_assoc, List.singleton_append]⟩
    simp only [List.length_append, List.length_singleton] at hlong
    omega
  have hbase : skipBase base (pre ++ ds ++ t) = (b, ds ++ t) := by
    have hnil : pre = [] → ¬ HexPrefix base (ds ++ t) := by
      rintro rfl hhex
      have hdigit : isDigit 16 ((ds ++ t).getD 2 0) = true := by
        by_contra hd
        exact hbare ⟨hhex, Bool.not_eq_true _ ▸ hd⟩
      obtain ⟨x, c, t', rfl, rfl, hx, hc⟩ := zero_of_hexPrefix hradix hne hds hhex hdigit
      have hlong := hmax _ _ (.intro hws hsign (.hex [c] hhex.1 hx) (by simp)
        (by simpa using hc)) ⟨t', by simp only [List.append_assoc, List.cons_append, List.nil_append]⟩
      simp only [List.length_append, List.length_cons, List.length_nil] at hlong
      omega
    cases hradix with
    | hex _ hb hx => exact skipBase_of_hex ⟨hb, rfl, hx⟩
    | given _ hb => exact skipBase_of_radix (.given _ hb) hne (hnil rfl)
    | octal _ hb hhead => exact skipBase_of_radix (.octal _ hb hhead) hne (hnil rfl)
    | decimal _ hb hhead => exact skipBase_of_radix (.decimal _ hb hhead) hne (hnil rfl)
  have hloop := digitLoop_append htail ds 0 0 hds
  refine ⟨decide (sign = [0x2D]), valueFrom b 0 ds, ?_, by simp only [decide_eq_true_eq]⟩
  rw [scanNumber, hskip]
  dsimp only
  rw [hbase]
  dsimp only
  rw [Nat.zero_mod] at hloop
  rw [hloop]
  dsimp only
  have hlen : ds.length ≠ 0 := fun h => hne (List.length_eq_zero_iff.mp h)
  rw [if_neg (by omega)]
  simp only [List.length_append, Prod.mk.injEq, true_and]
  omega

/-- Where there is no numeral, the scan finds none. -/
lemma scanNumber_none (h : ∀ w v, Numeral base w v → ¬ w <+: s) :
    (scanNumber s base).2 = (0, 0) := by
  have hws : ∀ c ∈ s.takeWhile isspace, isspace c = true := List.all_eq_true.mp List.all_takeWhile
  have hs : s = s.takeWhile isspace ++ s.dropWhile isspace := (List.takeWhile_append_dropWhile).symm
  obtain ⟨sign, hsign, hu⟩ : ∃ sign, (sign = [] ∨ sign = [0x2B] ∨ sign = [0x2D]) ∧
      s.dropWhile isspace = sign ++ (skipSign (s.dropWhile isspace)).2 := by
    rw [skipSign]
    generalize s.dropWhile isspace = u
    split
    · next hp =>
      cases u with
      | nil => exact absurd hp (by decide)
      | cons c u =>
        obtain rfl : c = 0x2B := hp
        exact ⟨[0x2B], by simp, rfl⟩
    · split
      · next hm =>
        cases u with
        | nil => exact absurd hm (by decide)
        | cons c u =>
          obtain rfl : c = 0x2D := hm
          exact ⟨[0x2D], by simp, rfl⟩
      · exact ⟨[], by simp, rfl⟩
  rw [scanNumber]
  generalize skipSign (s.dropWhile isspace) = r at hu
  obtain ⟨neg, u⟩ := r
  dsimp only at hu ⊢
  obtain ⟨pre, hpre, hradix⟩ : ∃ pre, u = pre ++ (skipBase base u).2 ∧
      ∀ c, (skipBase base u).2.head? = some c → Radix base pre [c] (skipBase base u).1 := by
    by_cases hhex : HexPrefix base u
    · rw [skipBase_of_hex hhex]
      obtain ⟨hb, h0, h1⟩ := hhex
      match u with
      | [] => exact absurd h0 (by decide)
      | [c] =>
        change (0 : UInt8) = 0x78 ∨ (0 : UInt8) = 0x58 at h1
        exact absurd h1 (by decide)
      | c :: x :: u =>
        obtain rfl : c = 0x30 := h0
        exact ⟨[0x30, x], rfl, fun c _ => .hex [c] hb h1⟩
    · refine ⟨[], ?_, fun c hc => ?_⟩
      · rw [skipBase, if_neg hhex]
        split_ifs <;> rfl
      · rw [skipBase, if_neg hhex] at hc ⊢
        have hhead : u.getD 0 0 = c := by
          have hu : u.head? = some c := by
            split_ifs at hc <;> exact hc
          cases u with
          | nil => cases hu
          | cons c' u => exact Option.some.inj hu
        rw [hhead]
        split_ifs with h8 h10
        · exact .octal [c] h8.1 h8.2
        · exact .decimal [c] h10 fun hc => h8 ⟨h10, hc⟩
        · exact .given [c] h10
  generalize skipBase base u = r at hpre hradix
  obtain ⟨b, start⟩ := r
  dsimp only at hpre hradix ⊢
  rw [digitLoop_of_not]
  · rfl
  · intro c hc
    by_contra hd
    refine h _ _ (.intro hws hsign (hradix c hc) (by simp) (by simpa using hd)) ?_
    obtain ⟨start', rfl⟩ : ∃ start', start = c :: start' := by
      cases start with
      | nil => cases hc
      | cons c' t' => exact ⟨t', by rw [Option.some.inj hc]⟩
    refine ⟨start', ?_⟩
    rw [hpre] at hu
    conv_rhs => rw [hs, hu]
    simp only [List.append_assoc, List.singleton_append]

/-- The sign is put back, for values of type `long`. -/
lemma long_mul_sign {n : ℕ} (neg : Bool) (hv : v = if neg = true then -(n : ℤ) else n)
    (hl : -2 ^ 31 ≤ v) (hu : v < 2 ^ 31) :
    long ((if neg = true then -1 else 1) * long ((n % 2 ^ 32 : ℕ) : ℤ)) = v := by
  subst hv
  cases neg with
  | false =>
    simp only [Bool.false_eq_true, if_false, one_mul] at hl hu ⊢
    rw [Nat.mod_eq_of_lt (by omega), long_eq (by omega) hu, long_eq (by omega) hu]
  | true =>
    simp only [if_true] at hl hu ⊢
    rw [Nat.mod_eq_of_lt (by omega), long, long, Int.bmod_def, Int.bmod_def]
    split_ifs <;> omega

/-- The sign is put back, for values of type `unsigned long`. -/
lemma strtoul_sign {n : ℕ} (neg : Bool) (hv : v = if neg = true then -(n : ℤ) else n)
    (hu : v.natAbs < 2 ^ 32) :
    (((if neg = true then (long (-long ((n % 2 ^ 32 : ℕ) : ℤ)) % 2 ^ 32).toNat
      else n % 2 ^ 32) : ℕ) : ℤ) = v % 2 ^ 32 := by
  subst hv
  cases neg with
  | false =>
    simp only [Bool.false_eq_true, if_false] at hu ⊢
    omega
  | true =>
    simp only [if_true] at hu ⊢
    rw [Nat.mod_eq_of_lt (by omega), long, long, Int.bmod_def, Int.bmod_def]
    split_ifs <;> omega

/-- A string that is a numeral as a whole. -/
lemma Numeral.longest (h : Numeral base s v) : Longest base s s v :=
  ⟨h, List.prefix_rfl, fun _ _ _ hpre => hpre.length_le⟩

/-- `-12`. -/
lemma numeral_minus_twelve : Numeral 10 [0x2D, 0x31, 0x32] (-12) :=
  @Numeral.intro 10 [] [0x2D] [] [0x31, 0x32] 10 (by simp) (by simp) (.given _ (by decide))
    (by simp) (by decide)

lemma Numeral.last_digit (h : Numeral 16 w v) : ∃ c, w.getLast? = some c ∧ isDigit 16 c = true := by
  obtain @⟨ws, sign, pre, ds, b, -, -, hradix, hne, hds⟩ := h
  refine ⟨ds.getLast hne, ?_, isDigit_mono (hds _ (List.getLast_mem hne))
    (hradix.le_sixteen (Or.inr rfl))⟩
  rw [List.getLast?_append, List.getLast?_append, List.getLast?_append,
    List.getLast?_eq_some_getLast hne]
  rfl

end

end GordOS.User
