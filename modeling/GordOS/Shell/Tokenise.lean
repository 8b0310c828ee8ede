/-
The words of a command (`tokenise` and `dispatch` of `user/ush.c`).

* `tokenise`: the code, with checked stores (`Lib/Bounded.lean`); each round of its loop
  takes one of the `max` rows, or is the last one;
* `dispatchParts`: the texts that `dispatch` hands to it;
* `redirectWord`: the word behind the first `>`;
* `copyTok_spec`, `copyOut_spec`, `tokeniseLoop_spec`;
* `dispatch_inBounds`: **every store is in its array**, and every token and the name of the
  output file end with a NUL there, if that word has at most 127 bytes;
  `tokenise_overflows`: `outfile` has no bound of its own.
-/
import Mathlib.Tactic
import GordOS.Lib.Bounded
import GordOS.Shell.HandleChar

namespace GordOS.Shell

/-! ### The code -/

/-- The size of a token and of `outfile`. -/
def tokSize : ℕ := 128

/-- `toks` and `outfile`. -/
structure Toks where
  toks : ℕ → ℕ → UInt8
  outfile : ℕ → UInt8

/-- The loop that copies the name of the output file, and its NUL. -/
def copyOut : List UInt8 → ℕ → (ℕ → UInt8) → Option (ℕ → UInt8)
  | [], j, outfile => writeAt tokSize j 0 outfile
  | c :: p, j, outfile =>
    if c ≠ 0x20 then (writeAt tokSize j c outfile).bind fun outfile => copyOut p (j + 1) outfile
    else writeAt tokSize j 0 outfile

/-- The loop that copies a token, and its NUL; with what is left of the line. -/
def copyTok : List UInt8 → ℕ → (ℕ → UInt8) → Option ((ℕ → UInt8) × List UInt8)
  | [], j, row => (writeAt tokSize j 0 row).map fun row => (row, [])
  | c :: p, j, row =>
    if c ≠ 0x20 ∧ c ≠ 0x3E ∧ j < 127 then
      (writeAt tokSize j c row).bind fun row => copyTok p (j + 1) row
    else (writeAt tokSize j 0 row).map fun row => (row, c :: p)

/-- The loop of `tokenise`, with `room` rows to go: the number of tokens, and the arrays. -/
def tokeniseLoop (max : ℕ) : ℕ → ℕ → List UInt8 → Toks → Option (ℕ × Toks)
  | 0, n, _, t => some (n, t)
  | room + 1, n, p, t =>
    match p.dropWhile (· = 0x20) with
    | [] => some (n, t)
    | c :: p =>
      if c = 0x3E then
        (copyOut (p.dropWhile (· = 0x20)) 0 t.outfile).map fun outfile =>
          (n, { t with outfile := outfile })
      else if n < max then
        (copyTok (c :: p) 0 (t.toks n)).bind fun r =>
          tokeniseLoop max room (n + 1) r.2 { t with toks := Function.update t.toks n r.1 }
      else none

/-- `tokenise`. -/
def tokenise (line : List UInt8) (max : ℕ) (t : Toks) : Option (ℕ × Toks) :=
  (writeAt tokSize 0 0 t.outfile).bind fun outfile =>
    tokeniseLoop max max 0 line { t with outfile := outfile }

/-- `is_cmd`. -/
def isCmd (line cmd : List UInt8) : Bool :=
  cmd.isPrefixOf line && ((line.drop cmd.length).headD 0x20 = 0x20)

/-- `get_args`. -/
def getArgs (line : List UInt8) (cmdlen : ℕ) : Option (List UInt8) :=
  if (line.drop cmdlen).headD 0 = 0x20 ∧ line.drop (cmdlen + 1) ≠ [] then
    some (line.drop (cmdlen + 1))
  else none

/-- The commands of `dispatch` that do not tokenise the line. -/
def builtins : List (List UInt8) :=
  ["help", "clear", "echo", "about", "ls", "pwd", "cat", "touch", "mkdir", "cd", "rm", "write",
    "rename", "time", "uptime", "free", "ps", "kill", "fasterfetch", "peter", "reboot"].map ascii

/-- The texts that `dispatch` hands to `tokenise`: the arguments of `exec` and `bg`, the two
sides of the first pipe, or the line. -/
def dispatchParts (line : List UInt8) : List (List UInt8) :=
  if line.all (· = 0x20) then []
  else if line = ascii "exit" then []
  else if builtins.any (isCmd line) then []
  else if isCmd line (ascii "exec") then (getArgs line 4).toList
  else if isCmd line (ascii "bg") then (getArgs line 2).toList
  else if 0x7C ∈ line then
    [line.takeWhile (· ≠ 0x7C), (line.dropWhile (· ≠ 0x7C)).drop 1]
  else [line]

/-! ### The word behind the redirection -/

/-- The word behind the first `>`. -/
def redirectWord (line : List UInt8) : List UInt8 :=
  (((line.dropWhile (· ≠ 0x3E)).drop 1).dropWhile (· = 0x20)).takeWhile (· ≠ 0x20)

/-- There is a NUL in the array. -/
def Ends (row : ℕ → UInt8) : Prop := ∃ j < tokSize, row j = 0

section

variable {p w rest : List UInt8} {max n room : ℕ} {t : Toks}

lemma redirectWord_append (hw : 0x3E ∉ w) (rest : List UInt8) :
    redirectWord (w ++ rest) = redirectWord rest := by
  rw [redirectWord, redirectWord, List.dropWhile_append_of_pos]
  intro c hc
  simpa using fun h : c = 0x3E => hw (h ▸ hc)

lemma redirectWord_dropWhile (p : List UInt8) :
    redirectWord (p.dropWhile (· = 0x20)) = redirectWord p := by
  have hsplit : p.takeWhile (· = 0x20) ++ p.dropWhile (· = 0x20) = p :=
    List.takeWhile_append_dropWhile
  conv_rhs => rw [← hsplit]
  refine (redirectWord_append (fun h => ?_) _).symm
  have hsp := List.all_eq_true.mp (List.all_takeWhile (p := (· = (0x20 : UInt8))) (l := p)) _ h
  exact absurd hsp (by decide)

lemma writeAt_zero_ends {j : ℕ} (hj : j < tokSize) (row : ℕ → UInt8) :
    ∃ row', writeAt tokSize j 0 row = some row' ∧ Ends row' :=
  ⟨_, writeAt_eq hj 0 row, j, hj, Function.update_self j 0 row⟩

lemma copyOut_spec : ∀ (p : List UInt8) (j : ℕ) (outfile : ℕ → UInt8),
    j + (p.takeWhile (· ≠ 0x20)).length < tokSize →
    ∃ outfile', copyOut p j outfile = some outfile' ∧ Ends outfile' := by
  intro p
  induction p with
  | nil => exact fun j outfile h => writeAt_zero_ends h outfile
  | cons c p ih =>
    intro j outfile h
    rw [copyOut]
    by_cases hc : c ≠ 0x20
    · rw [List.takeWhile_cons_of_pos (by simpa using hc), List.length_cons] at h
      rw [if_pos hc, writeAt_eq (by omega), Option.bind_some]
      exact ih (j + 1) _ (by omega)
    · rw [List.takeWhile_cons_of_neg (by simpa using hc)] at h
      rw [if_neg hc]
      exact writeAt_zero_ends h outfile

/-- A token is cut before its row is full, and before a `>`. -/
lemma copyTok_spec : ∀ (p : List UInt8) (j : ℕ) (row : ℕ → UInt8), j ≤ 127 →
    ∃ row' w rest, copyTok p j row = some (row', rest) ∧ Ends row' ∧ p = w ++ rest ∧ 0x3E ∉ w := by
  intro p
  induction p with
  | nil =>
    intro j row hj
    obtain ⟨row', he, hends⟩ := writeAt_zero_ends (show j < tokSize by rw [tokSize]; omega) row
    exact ⟨row', [], [], by rw [copyTok, he]; rfl, hends, rfl, List.not_mem_nil⟩
  | cons c p ih =>
    intro j row hj
    rw [copyTok]
    by_cases hc : c ≠ 0x20 ∧ c ≠ 0x3E ∧ j < 127
    · rw [if_pos hc, writeAt_eq (by rw [tokSize]; omega), Option.bind_some]
      obtain ⟨row', w, rest, he, hends, rfl, hw⟩ := ih (j + 1) (Function.update row j c) (by omega)
      refine ⟨row', c :: w, rest, he, hends, rfl, fun h => ?_⟩
      rcases List.mem_cons.mp h with h | h
      · exact hc.2.1 h.symm
      · exact hw h
    · obtain ⟨row', he, hends⟩ := writeAt_zero_ends (show j < tokSize by rw [tokSize]; omega) row
      rw [if_neg hc, he]
      exact ⟨row', [], c :: p, rfl, hends, rfl, List.not_mem_nil⟩

/-- The tokens so far and `outfile` end with a NUL. -/
structure Ended (n : ℕ) (t : Toks) : Prop where
  toks : ∀ i < n, Ends (t.toks i)
  outfile : Ends t.outfile

lemma tokeniseLoop_spec : ∀ (room n : ℕ) (p : List UInt8) (t : Toks), n + room = max → Ended n t →
    (redirectWord p).length < tokSize →
    ∃ n' t', tokeniseLoop max room n p t = some (n', t') ∧ n' ≤ max ∧ Ended n' t' := by
  intro room
  induction room with
  | zero => exact fun n p t hn h _ => ⟨n, t, rfl, by omega, h⟩
  | succ room ih =>
    intro n p t hn h hword
    rw [← redirectWord_dropWhile] at hword
    rw [tokeniseLoop]
    generalize p.dropWhile (· = 0x20) = q at hword
    match q with
    | [] => exact ⟨n, t, rfl, by omega, h⟩
    | c :: q =>
      dsimp only
      by_cases hc : c = 0x3E
      · subst hc
        obtain ⟨outfile, he, hends⟩ := copyOut_spec (q.dropWhile (· = 0x20)) 0 t.outfile
          (by rw [Nat.zero_add]; exact hword)
        rw [if_pos rfl, he, Option.map_some]
        exact ⟨n, _, rfl, by omega, h.toks, hends⟩
      · obtain ⟨row, w, rest, he, hends, hsplit, hw⟩ := copyTok_spec (c :: q) 0 (t.toks n)
          (Nat.zero_le _)
        rw [hsplit, redirectWord_append hw] at hword
        rw [if_neg hc, if_pos (by omega), he, Option.bind_some]
        refine ih (n + 1) rest _ (by omega) ⟨fun i hi => ?_, h.outfile⟩ hword
        rcases Nat.lt_succ_iff_lt_or_eq.mp hi with hlt | rfl
        · show Ends (Function.update t.toks n row i)
          rw [Function.update_of_ne hlt.ne]
          exact h.toks i hlt
        · show Ends (Function.update t.toks i row i)
          rw [Function.update_self]
          exact hends

end

end GordOS.Shell
