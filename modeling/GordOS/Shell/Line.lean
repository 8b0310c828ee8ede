/-
The line that is typed, in both shells (`kernel/shell.c` and `user/ush.c`).

The two programs edit their lines in the same way: an array of 256 bytes, the length of
the line, the cursor, and ten rows of 256 bytes for the lines entered before. Every access
is checked (`Lib/Bounded.lean`); `out` says what loads outside the line array give. What is
shown on the screen is left out, but for the loads that it takes.

* `Line`, `insertChar`, `deleteBefore`, `tabWord`, `wordEnd`, `replaceWord`, `enterLine`,
  `loadLine`: the loops of the code;
* `startOf`, `stopOf`: the word around the cursor;
* `insertChar_spec`, `deleteBefore_spec`, `replaceWord_spec`: the loops that shift bytes
  are `splice`s of the line; `tabWord_eq`, `wordEnd_eq`;
* `Keeps`: the rows of the history hold lines; `enterLine_spec`, `loadLine_spec`.
-/
import Mathlib.Tactic
import GordOS.Lib.Bounded

namespace GordOS.Shell

/-! ### Keys -/

/-- The characters that the editors tell apart. -/
inductive Key where
  | enter
  | clear
  | cancel
  | backspace
  | left
  | right
  | tab
  | up
  | down
  | char (c : UInt8)
  deriving DecidableEq

/-- The key of a character code. -/
def keyOf (c : UInt8) : Key :=
  if c = 0x0A then .enter
  else if c = 0x0C then .clear
  else if c = 0x03 then .cancel
  else if c = 0x08 then .backspace
  else if c = 0x82 then .left
  else if c = 0x83 then .right
  else if c = 0x09 then .tab
  else if c = 0x80 then .up
  else if c = 0x81 then .down
  else .char c

/-! ### The arrays -/

/-- The size of the line array and of a row: `INPUT_BUFFER_SIZE`, `MAX_LINE`. -/
def lineSize : ℕ := 256

/-- The number of rows: `HISTORY_SIZE`, `MAX_HIST`. -/
def histSize : ℕ := 10

/-- The line, its length and the cursor; the rows, how many are in use, and how far back
the line shown was taken from, or `-1`. -/
structure Line where
  input : ℕ → UInt8
  ilen : ℕ
  cur : ℕ
  hist : ℕ → ℕ → UInt8
  hcount : ℕ
  hidx : ℤ

/-- A load outside an array, where this must not happen. -/
def refused : ℕ → Option UInt8 := fun _ => none

section

variable (out : ℕ → Option UInt8)

/-- A character is inserted at the cursor: the rest is moved up, from the end, and shown. -/
def insertChar (c : UInt8) (s : Line) : Option Line :=
  (moveEach lineSize out ((List.range' (s.cur + 1) (s.ilen - s.cur)).reverse.map
      fun i => (i, i - 1)) s.input).bind fun a =>
    (writeAt lineSize s.cur c a).bind fun a =>
      (readAll lineSize out a s.cur (s.ilen + 1 - s.cur)).map fun _ =>
        { s with input := a, ilen := s.ilen + 1, cur := s.cur + 1 }

/-- The character before the cursor is deleted: the rest is moved down, and shown. -/
def deleteBefore (s : Line) : Option Line :=
  (moveEach lineSize out ((List.range' (s.cur - 1) (s.ilen - 1 - (s.cur - 1))).map
      fun i => (i, i + 1)) s.input).bind fun a =>
    (readAll lineSize out a (s.cur - 1) (s.ilen - 1 - (s.cur - 1))).map fun _ =>
      { s with input := a, ilen := s.ilen - 1, cur := s.cur - 1 }

/-- `word_start`: back from the cursor to the byte behind a space. -/
def wordStart (a : ℕ → UInt8) : ℕ → Option ℕ
  | 0 => some 0
  | i + 1 => (readAt lineSize out a i).bind fun c =>
    if c ≠ 0x20 then wordStart a i else some (i + 1)

/-- `word_end`: on to a space, in at most `n` rounds. -/
def wordEnd (a : ℕ → UInt8) : ℕ → ℕ → Option ℕ
  | 0, i => some i
  | n + 1, i => (readAt lineSize out a i).bind fun c =>
    if c ≠ 0x20 then wordEnd a n (i + 1) else some i

/-- `has_space`, for the `n` bytes from `i` on. -/
def hasSpace (a : ℕ → UInt8) : ℕ → ℕ → Option Bool
  | 0, _ => some false
  | n + 1, i => (readAt lineSize out a i).bind fun c =>
    if c = 0x20 then some true else hasSpace a n (i + 1)

/-- The word before the cursor: where it starts, its bytes, and whether there is a space
before the cursor. -/
def tabWord (s : Line) : Option (ℕ × List UInt8 × Bool) :=
  (wordStart out s.input s.cur).bind fun start =>
    (readAll lineSize out s.input start (s.cur - start)).bind fun pre =>
      (hasSpace out s.input s.cur 0).map fun space => (start, pre, space)

/-- The loop that moves what is behind the word, up from the end or down from the front. -/
def shiftTail (start stop newLen : ℕ) (s : Line) : Option (ℕ → UInt8) :=
  if stop - start < newLen then
    moveEach lineSize out ((List.range' stop (s.ilen + 1 - stop)).reverse.map
      fun i => (i + (newLen - (stop - start)), i)) s.input
  else if newLen < stop - start then
    moveEach lineSize out ((List.range' (start + newLen) (s.ilen + 1 - (start + newLen))).map
      fun i => (i, i + (stop - start - newLen))) s.input
  else some s.input

/-- The word from `start` up to `stop` is replaced by a completion. -/
def replaceWord (start stop : ℕ) (new : List UInt8) (s : Line) : Option Line :=
  (shiftTail out start stop new.length s).bind fun a =>
    (storeAll lineSize start new a).bind fun a =>
      (readAll lineSize out a start (new.length + (s.ilen - stop))).map fun _ =>
        { s with input := a, ilen := start + (new.length + (s.ilen - stop)),
                 cur := start + new.length }

/-- The rows move down by one, and the first one is lost. -/
def shiftRows (hist : ℕ → ℕ → UInt8) : ℕ → ℕ → UInt8 := fun i =>
  if i < histSize - 1 then hist (i + 1) else hist i

/-- The line is ended by a NUL and copied to the history, unless it is empty. -/
def enterLine (s : Line) : Option Line :=
  (writeAt lineSize s.ilen 0 s.input).bind fun a =>
    if s.ilen = 0 then some { s with input := a }
    else
      let hist := if s.hcount = histSize then shiftRows s.hist else s.hist
      let hcount := if s.hcount = histSize then s.hcount - 1 else s.hcount
      (readAll lineSize out a 0 (s.ilen + 1)).bind fun bytes =>
        if hcount < histSize then
          (storeAll lineSize 0 bytes (hist hcount)).map fun row =>
            { s with input := a, hist := Function.update hist hcount row, hcount := hcount + 1 }
        else none

end

/-- The length of the string in a row, from an index on, in at most `n` rounds. -/
def rowLen (row : ℕ → UInt8) (n i : ℕ) : Option ℕ := seek lineSize refused 0 row n i

/-- The line of a row becomes the line that is edited; `ush` copies its NUL as well
(`nul = 1`). -/
def loadLine (nul entry : ℕ) (s : Line) : Option Line :=
  if entry < histSize then
    (rowLen (s.hist entry) (lineSize + 1) 0).bind fun n =>
      (readAll lineSize refused (s.hist entry) 0 (n + nul)).bind fun bytes =>
        (storeAll lineSize 0 bytes s.input).map fun a =>
          { s with input := a, ilen := n, cur := n }
  else none

/-! ### Words and their bounds -/

/-- The start of the word around a position. -/
def startOf (l : List UInt8) (cur : ℕ) : ℕ :=
  cur - ((l.take cur).reverse.takeWhile fun c => c ≠ 0x20).length

/-- The end of the word around a position. -/
def stopOf (l : List UInt8) (cur : ℕ) : ℕ :=
  cur + ((l.drop cur).takeWhile fun c => c ≠ 0x20).length

/-! ### The loops that shift bytes -/

section

variable {out : ℕ → Option UInt8} {s : Line} {c : UInt8} {start stop : ℕ} {new : List UInt8}

lemma insertChar_spec (out : ℕ → Option UInt8) (c : UInt8) (hcur : s.cur ≤ s.ilen)
    (hlen : s.ilen < 255) : ∃ a,
    insertChar out c s = some { s with input := a, ilen := s.ilen + 1, cur := s.cur + 1 } ∧
      textOf a (s.ilen + 1) = splice (textOf s.input s.ilen) s.cur s.cur [c] := by
  have hloop : (List.range' (s.cur + 1) (s.ilen - s.cur)).reverse.map (fun i => (i, i - 1)) =
      (List.range' s.cur (s.ilen - s.cur)).reverse.map (fun i => (i + 1, i)) := by
    rw [Nat.add_comm, ← List.map_add_range', ← List.map_reverse, List.map_map]
    refine List.map_congr_left fun i _ => ?_
    rw [Function.comp_apply, Nat.add_comm, Nat.add_sub_cancel]
  obtain ⟨a, ha, hin, hout⟩ := moveEach_up (N := lineSize) out s.input s.cur (n := s.ilen - s.cur)
    Nat.one_pos (by rw [lineSize]; omega)
  refine ⟨Function.update a s.cur c, ?_, ?_⟩
  · rw [insertChar, hloop, ha, Option.bind_some, writeAt_eq (by rw [lineSize]; omega),
      Option.bind_some, readAll_eq _ _ _ _ (by rw [lineSize]; omega), Option.map_some]
  · have hshape := textOf_spliced s.input (Function.update a s.cur c) [c] (le_refl s.cur) hcur
      (fun k hk => ?_) (fun k hk => ?_) (fun k hk => ?_)
    · rwa [List.length_singleton, show s.cur + (1 + (s.ilen - s.cur)) = s.ilen + 1 by omega]
        at hshape
    · rw [Function.update_of_ne (by omega), hout k (by omega)]
    · obtain rfl : k = 0 := by rw [List.length_singleton] at hk; omega
      rw [Nat.add_zero, Function.update_self]
      rfl
    · rw [List.length_singleton, Function.update_of_ne (by omega), ← Nat.add_assoc, hin k hk]

lemma deleteBefore_spec (out : ℕ → Option UInt8) (hpos : 0 < s.cur) (hcur : s.cur ≤ s.ilen)
    (hlen : s.ilen ≤ 255) : ∃ a,
    deleteBefore out s = some { s with input := a, ilen := s.ilen - 1, cur := s.cur - 1 } ∧
      textOf a (s.ilen - 1) = splice (textOf s.input s.ilen) (s.cur - 1) s.cur [] := by
  obtain ⟨a, ha, hin, hout⟩ := moveEach_down (N := lineSize) out s.input (s.cur - 1)
    (n := s.ilen - 1 - (s.cur - 1)) Nat.one_pos (by rw [lineSize]; omega)
    (fun k hk h => by rw [lineSize] at h; omega)
  refine ⟨a, ?_, ?_⟩
  · rw [deleteBefore, ha, Option.bind_some, readAll_eq _ _ _ _ (by rw [lineSize]; omega),
      Option.map_some]
  · have hshape := textOf_spliced s.input a [] (Nat.sub_le s.cur 1) hcur
      (fun k hk => hout k (by omega)) (fun k hk => absurd hk (Nat.not_lt_zero k))
      (fun k hk => ?_)
    · rwa [List.length_nil, show s.cur - 1 + (0 + (s.ilen - s.cur)) = s.ilen - 1 by omega] at hshape
    · rw [List.length_nil, Nat.zero_add, hin k (by omega) (by rw [lineSize]; omega)]
      congr 1
      omega

/-- What is behind the word has its new place. -/
lemma shiftTail_spec (hstart : start ≤ stop) (hstop : stop ≤ s.ilen) (hlen : s.ilen ≤ 255)
    (newLen : ℕ) (hfit : start + (newLen + (s.ilen - stop)) ≤ 255)
    (hread : (∀ i, out i ≠ none) ∨ s.ilen + (stop - start - newLen) < 256) : ∃ a,
    shiftTail out start stop newLen s = some a ∧ (∀ k < start, a k = s.input k) ∧
      ∀ k < s.ilen - stop, a (start + (newLen + k)) = s.input (stop + k) := by
  rw [shiftTail]
  split
  · next hgrow =>
    obtain ⟨a, ha, hin, hout⟩ := moveEach_up (N := lineSize) out s.input stop
      (n := s.ilen + 1 - stop) (d := newLen - (stop - start)) (by omega)
      (by rw [lineSize]; omega)
    refine ⟨a, ha, fun k hk => hout k (by omega), fun k hk => ?_⟩
    rw [← hin k (by omega)]
    congr 1
    omega
  · next hgrow =>
    split
    · next hshrink =>
      obtain ⟨a, ha, hin, hout⟩ := moveEach_down (N := lineSize) out s.input (start + newLen)
        (n := s.ilen + 1 - (start + newLen)) (d := stop - start - newLen) (by omega)
        (by rw [lineSize]; omega) (fun k hk h => by
          rw [lineSize] at h
          rcases hread with hread | hread
          · exact hread _
          · omega)
      refine ⟨a, ha, fun k hk => hout k (by omega), fun k hk => ?_⟩
      rw [← Nat.add_assoc, hin k (by omega) (by rw [lineSize]; omega)]
      congr 1
      omega
    · next hshrink =>
      refine ⟨s.input, rfl, fun k _ => rfl, fun k hk => ?_⟩
      congr 1
      omega

lemma replaceWord_spec (hstart : start ≤ stop) (hstop : stop ≤ s.ilen) (hlen : s.ilen ≤ 255)
    (new : List UInt8) (hfit : start + (new.length + (s.ilen - stop)) ≤ 255)
    (hread : (∀ i, out i ≠ none) ∨ s.ilen + (stop - start - new.length) < 256) : ∃ a,
    replaceWord out start stop new s = some
      { s with input := a, ilen := start + (new.length + (s.ilen - stop)),
               cur := start + new.length } ∧
      textOf a (start + (new.length + (s.ilen - stop))) =
        splice (textOf s.input s.ilen) start stop new := by
  obtain ⟨a, ha, hbelow, habove⟩ := shiftTail_spec hstart hstop hlen new.length hfit hread
  obtain ⟨a', ha', hnew, hkeep⟩ := storeAll_spec (N := lineSize) new start a
    (by rw [lineSize]; omega)
  refine ⟨a', ?_, textOf_spliced s.input a' new hstart hstop (fun k hk => ?_) hnew fun k hk => ?_⟩
  · rw [replaceWord, ha, Option.bind_some, ha', Option.bind_some,
      readAll_eq _ _ _ _ (by rw [lineSize]; omega), Option.map_some]
  · rw [hkeep k (by omega), hbelow k hk]
  · rw [hkeep _ (by omega), habove k hk]

/-! ### The loops that look for words -/

lemma take_succ_textOf (a : ℕ → UInt8) {i n : ℕ} (h : i < n) :
    (textOf a n).take (i + 1) = (textOf a n).take i ++ [a i] := by
  rw [List.take_add_one, getElem?_textOf a h, Option.toList_some]

lemma drop_textOf_cons (a : ℕ → UInt8) {i n : ℕ} (h : i < n) :
    (textOf a n).drop i = a i :: (textOf a n).drop (i + 1) := by
  rw [List.drop_eq_getElem_cons (by rw [length_textOf]; exact h)]
  congr 1
  exact Option.some.inj ((List.getElem?_eq_getElem _).symm.trans (getElem?_textOf a h))

lemma wordStart_eq (out : ℕ → Option UInt8) (a : ℕ → UInt8) {n : ℕ} (hn : n ≤ 256) :
    ∀ cur ≤ n, wordStart out a cur = some (startOf (textOf a n) cur) := by
  intro cur
  induction cur with
  | zero => exact fun _ => rfl
  | succ i ih =>
    intro h
    rw [wordStart, readAt_eq (by rw [lineSize]; omega), Option.bind_some, startOf,
      take_succ_textOf a h, List.reverse_append, List.reverse_singleton, List.singleton_append]
    by_cases hc : a i ≠ 0x20
    · rw [if_pos hc, ih (by omega), startOf, List.takeWhile_cons_of_pos (by simpa using hc),
        List.length_cons, Nat.add_sub_add_right]
    · rw [if_neg hc, List.takeWhile_cons_of_neg (by simpa using hc)]
      rfl

lemma wordEnd_eq (out : ℕ → Option UInt8) (a : ℕ → UInt8) {n : ℕ} (hn : n ≤ 256) :
    ∀ m i, i + m = n → wordEnd out a m i = some (stopOf (textOf a n) i) := by
  intro m
  induction m with
  | zero =>
    intro i hi
    rw [wordEnd, stopOf, List.drop_eq_nil_of_le (by rw [length_textOf]; omega)]
    rfl
  | succ m ih =>
    intro i hi
    rw [wordEnd, readAt_eq (by rw [lineSize]; omega), Option.bind_some, stopOf,
      drop_textOf_cons a (by omega)]
    by_cases hc : a i ≠ 0x20
    · rw [if_pos hc, ih (i + 1) (by omega), stopOf, List.takeWhile_cons_of_pos (by simpa using hc),
        List.length_cons]
      congr 1
      omega
    · rw [if_neg hc, List.takeWhile_cons_of_neg (by simpa using hc)]
      rfl

lemma hasSpace_eq (out : ℕ → Option UInt8) (a : ℕ → UInt8) {n : ℕ} (hn : n ≤ 256) :
    ∀ m i, i + m ≤ n →
      hasSpace out a m i = some (decide (0x20 ∈ ((textOf a n).drop i).take m)) := by
  intro m
  induction m with
  | zero =>
    intro i _
    rw [hasSpace, List.take_zero]
    rfl
  | succ m ih =>
    intro i hi
    rw [hasSpace, readAt_eq (by rw [lineSize]; omega), Option.bind_some,
      drop_textOf_cons a (show i < n by omega), List.take_succ_cons]
    by_cases hc : a i = 0x20
    · rw [if_pos hc, hc]
      simp
    · rw [if_neg hc, ih (i + 1) (by omega)]
      have hne : ¬ (0x20 = a i) := fun h => hc h.symm
      simp [hne]

lemma startOf_le (l : List UInt8) (cur : ℕ) : startOf l cur ≤ cur := Nat.sub_le _ _

lemma le_stopOf (l : List UInt8) (cur : ℕ) : cur ≤ stopOf l cur := Nat.le_add_right _ _

lemma stopOf_le {l : List UInt8} {cur : ℕ} (h : cur ≤ l.length) : stopOf l cur ≤ l.length := by
  have := (List.takeWhile_sublist (fun c => c ≠ 0x20) (l := l.drop cur)).length_le
  rw [List.length_drop] at this
  rw [stopOf]
  omega

lemma tabWord_eq (out : ℕ → Option UInt8) (hcur : s.cur ≤ s.ilen) (hlen : s.ilen ≤ 255) :
    let l := textOf s.input s.ilen
    tabWord out s = some (startOf l s.cur, (l.take s.cur).drop (startOf l s.cur),
      decide (0x20 ∈ l.take s.cur)) := by
  dsimp only
  have hle := startOf_le (textOf s.input s.ilen) s.cur
  rw [tabWord, wordStart_eq out s.input (show s.ilen ≤ 256 by omega) s.cur hcur, Option.bind_some,
    readAll_eq _ _ _ _ (by rw [lineSize]; omega), map_range' _ hle, Option.bind_some,
    hasSpace_eq out s.input (show s.ilen ≤ 256 by omega) s.cur 0 (by omega), Option.map_some,
    List.drop_zero, take_textOf _ hcur]

/-! ### The history -/

/-- A row holds a line, with a NUL behind it. -/
structure Holds (row : ℕ → UInt8) (l : List UInt8) : Prop where
  length_le : l.length ≤ 255
  text : textOf row l.length = l
  nul : row l.length = 0

/-- The rows in use hold these lines. -/
structure Keeps (hist : ℕ → ℕ → UInt8) (n : ℕ) (ls : List (List UInt8)) : Prop where
  length : ls.length = n
  holds : ∀ i l, ls[i]? = some l → Holds (hist i) l

/-- The lines entered, the last ten of them that are not empty. -/
def remember (ls : List (List UInt8)) (l : List UInt8) : List (List UInt8) :=
  if l = [] then ls else (ls ++ [l]).drop (ls.length + 1 - histSize)

lemma length_remember_le {ls : List (List UInt8)} (h : ls.length ≤ 10) (l : List UInt8) :
    (remember ls l).length ≤ 10 := by
  rw [remember]
  split
  · exact h
  · rw [List.length_drop, List.length_append, List.length_singleton, histSize]
    omega

lemma mem_remember {ls : List (List UInt8)} {l l' : List UInt8} (h : l' ∈ remember ls l) :
    l' ∈ ls ∨ l' = l := by
  rw [remember] at h
  split at h
  · exact Or.inl h
  · rcases List.mem_append.mp (List.mem_of_mem_drop h) with h | h
    · exact Or.inl h
    · exact Or.inr (List.mem_singleton.mp h)

/-- The rows after a line was stored in the next one. -/
lemma Keeps.store {hist : ℕ → ℕ → UInt8} {n : ℕ} {ls : List (List UInt8)} {row : ℕ → UInt8}
    {l : List UInt8} (h : Keeps hist n ls) (hrow : Holds row l) :
    Keeps (Function.update hist n row) (n + 1) (ls ++ [l]) := by
  refine ⟨by rw [List.length_append, h.length, List.length_singleton], fun i l' hl => ?_⟩
  have hlt : i < ls.length + 1 := by
    have := (List.getElem?_eq_some_iff.mp hl).1
    rwa [List.length_append, List.length_singleton] at this
  rcases Nat.lt_succ_iff_lt_or_eq.mp hlt with hi | rfl
  · rw [List.getElem?_append_left hi] at hl
    rw [Function.update_of_ne (by have := h.length; omega)]
    exact h.holds i l' hl
  · rw [List.getElem?_concat_length, Option.some.injEq] at hl
    rw [h.length, Function.update_self, ← hl]
    exact hrow

/-- The rows after the first one was dropped. -/
lemma Keeps.shiftRows {hist : ℕ → ℕ → UInt8} {ls : List (List UInt8)} (h : Keeps hist histSize ls) :
    Keeps (shiftRows hist) (histSize - 1) (ls.drop 1) := by
  refine ⟨by rw [List.length_drop, h.length], fun i l hl => ?_⟩
  rw [List.getElem?_drop] at hl
  have hi := (List.getElem?_eq_some_iff.mp hl).1
  rw [h.length] at hi
  rw [Shell.shiftRows, if_pos (by omega), Nat.add_comm i 1]
  exact h.holds (1 + i) l hl

lemma enterLine_spec (out : ℕ → Option UInt8) {ls : List (List UInt8)} (hlen : s.ilen ≤ 255)
    (hkeeps : Keeps s.hist s.hcount ls) (hls : ls.length ≤ 10) : ∃ a hist hcount,
    enterLine out s = some { s with input := a, hist := hist, hcount := hcount } ∧
      Keeps hist hcount (remember ls (textOf s.input s.ilen)) := by
  have hcount := hkeeps.length
  rw [enterLine, writeAt_eq (by rw [lineSize]; omega), Option.bind_some]
  by_cases hzero : s.ilen = 0
  · rw [if_pos hzero, hzero]
    exact ⟨_, s.hist, s.hcount, rfl, hkeeps⟩
  · have hne : textOf s.input s.ilen ≠ [] := fun h =>
      hzero (by rw [← length_textOf s.input s.ilen, h]; rfl)
    rw [if_neg hzero, remember, if_neg hne]
    dsimp only
    rw [readAll_eq _ _ _ _ (by rw [lineSize]; omega), Option.bind_some]
    -- the row that is written
    have hrow : ∀ row : ℕ → UInt8, ∃ row', storeAll lineSize 0 ((List.range' 0 (s.ilen + 1)).map
        (Function.update s.input s.ilen 0)) row = some row' ∧ Holds row' (textOf s.input s.ilen) := by
      intro row
      obtain ⟨row', he, hin, -⟩ := storeAll_spec (N := lineSize) ((List.range' 0 (s.ilen + 1)).map
        (Function.update s.input s.ilen 0)) 0 row
        (by rw [List.length_map, List.length_range', lineSize]; omega)
      have hval : ∀ k ≤ s.ilen, row' k = Function.update s.input s.ilen 0 k := by
        intro k hk
        have := hin k (by rw [List.length_map, List.length_range']; omega)
        rw [List.getElem?_map, List.getElem?_range' (by omega), Option.map_some] at this
        simpa using this
      refine ⟨row', he, by rw [length_textOf]; exact hlen, ?_, ?_⟩
      · rw [length_textOf]
        refine textOf_congr fun k hk => ?_
        rw [hval k hk.le, Function.update_of_ne hk.ne]
      · rw [length_textOf, hval _ le_rfl, Function.update_self]
    by_cases hfull : s.hcount = histSize
    · rw [if_pos hfull, if_pos hfull, hfull, if_pos (by decide)]
      obtain ⟨row, hrow, hholds⟩ := hrow (shiftRows s.hist (histSize - 1))
      rw [hrow, Option.map_some]
      refine ⟨_, _, _, rfl, ?_⟩
      have hten : ls.length = histSize := hcount.trans hfull
      rw [hfull] at hkeeps
      rw [show ls.length + 1 - histSize = 1 by omega,
        List.drop_append_of_le_length (by rw [hten]; decide)]
      exact hkeeps.shiftRows.store hholds
    · rw [if_neg hfull, if_neg hfull, if_pos (by rw [histSize] at hfull ⊢; omega)]
      obtain ⟨row, hrow, hholds⟩ := hrow (s.hist s.hcount)
      rw [hrow, Option.map_some]
      refine ⟨_, _, _, rfl, ?_⟩
      rw [show ls.length + 1 - histSize = 0 by rw [histSize] at hfull ⊢; omega, List.drop_zero]
      exact hkeeps.store hholds

/-- A line of the history is loaded up to its first NUL, which is its end if it holds no
NUL itself. -/
lemma loadLine_spec {entry nul : ℕ} {l : List UInt8} (hentry : entry < 10) (hnul : nul ≤ 1)
    (h : Holds (s.hist entry) l) : ∃ a k,
    loadLine nul entry s = some { s with input := a, ilen := k, cur := k } ∧ k ≤ l.length ∧
      textOf a k = l.take k ∧ (0 ∉ l → k = l.length) := by
  classical
  have hex : ∃ k, s.hist entry k = 0 := ⟨_, h.nul⟩
  have hk : Nat.find hex ≤ l.length := Nat.find_le h.nul
  have hlen := h.length_le
  generalize hkdef : Nat.find hex = k at hk
  have hz : s.hist entry k = 0 := hkdef ▸ Nat.find_spec hex
  have hnz : ∀ j < k, s.hist entry j ≠ 0 := fun j hj => Nat.find_min hex (hkdef ▸ hj)
  obtain ⟨a, ha, hin, -⟩ := storeAll_spec (N := lineSize)
    ((List.range' 0 (k + nul)).map (s.hist entry)) 0 s.input
    (by rw [List.length_map, List.length_range', lineSize]; omega)
  refine ⟨a, k, ?_, hk, ?_, fun hl => ?_⟩
  · rw [loadLine, if_pos (show entry < histSize from hentry),
      rowLen, seek_eq refused (by rw [lineSize]; omega) hz hnz _ 0 (Nat.zero_le _)
        (by rw [lineSize]; omega), Option.bind_some,
      readAll_eq _ _ _ _ (by rw [lineSize]; omega), Option.bind_some, ha, Option.map_some]
  · have htake : l.take k = textOf (s.hist entry) k := by
      rw [← take_textOf (s.hist entry) hk, h.text]
    rw [htake]
    refine textOf_congr fun j hj => ?_
    have := hin j (by rw [List.length_map, List.length_range']; omega)
    rw [List.getElem?_map, List.getElem?_range' (by omega), Option.map_some] at this
    simpa using this
  · by_contra hne
    have hget := getElem?_textOf (s.hist entry) (show k < l.length by omega)
    rw [h.text, hz] at hget
    exact hl (List.mem_of_getElem? hget)

end

end GordOS.Shell
