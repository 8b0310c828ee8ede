/-
The line editor of the kernel shell (`shell_handle_char` of `kernel/shell.c`).

* `shellHandleChar`: the code, for one character; `found` are the names that
  `vfs_find_prefix` returns, and `junk` the bytes behind `input_buffer`, which the loop that
  shortens a word loads as well. `none` is a store outside an array;
* `Editor`: the reference: a list of at most 255 bytes with a cursor, the last ten lines
  entered that are not empty, and how far back the line was taken from them; `Editor.step`;
* `Shows s e`: the state of the code shows that of the reference;
* `shellHandleChar_shows`: one character;
* `handleAll_shows`: **the kernel shell is the reference editor**, for every sequence of
  characters other than NUL; `recall_stops_at_nul`: a NUL cuts a line that is recalled.
-/
import Mathlib.Tactic
import GordOS.Shell.Line

namespace GordOS.Shell

/-! ### The code -/

/-- The bytes of a string literal. -/
def ascii (s : String) : List UInt8 := s.toList.map fun c => UInt8.ofNat c.toNat

/-- `commands`. -/
def commands : List (List UInt8) :=
  ["help", "clear", "echo", "about", "ls", "pwd", "cat", "touch", "mkdir", "cd", "rm", "write",
    "rename", "time", "uptime", "free", "exec", "bg", "ps", "kill", "fasterfetch",
    "reboot"].map ascii

/-- The names in `matches` for a command word: at most 16, and at most 12 bytes of each. -/
def matchCommands (pre : List UInt8) : List (List UInt8) :=
  ((commands.filter fun cmd => pre.isPrefixOf cmd).take 16).map fun cmd => cmd.take 12

/-- The branch of `shell_handle_char` for `KEY_TAB`. -/
def handleTab (out : ℕ → Option UInt8) (found : List (List UInt8)) (s : Line) : Option Line :=
  (tabWord out s).bind fun r =>
    match if r.2.2 then found else matchCommands r.2.1 with
    | [] => some s
    | [name] =>
      (wordEnd out s.input (s.ilen - s.cur) s.cur).bind fun stop =>
        if r.1 + (name.length + (s.ilen - stop)) < lineSize then replaceWord out r.1 stop name s
        else some s
    | _ => (readAll lineSize out s.input 0 s.ilen).map fun _ => s

/-- `shell_handle_char`, with no foreground process. -/
def shellHandleChar (junk : ℕ → UInt8) (found : List (List UInt8)) (c : UInt8) (s : Line) :
    Option Line :=
  let out : ℕ → Option UInt8 := fun i => some (junk i)
  match keyOf c with
  | .enter => (enterLine out s).map fun s => { s with ilen := 0, cur := 0, hidx := -1 }
  | .clear => (readAll lineSize out s.input 0 s.ilen).map fun _ => s
  | .cancel => some { s with ilen := 0, cur := 0, hidx := -1 }
  | .backspace => if 0 < s.cur then deleteBefore out s else some s
  | .left => if 0 < s.cur then some { s with cur := s.cur - 1 } else some s
  | .right =>
    if s.cur < s.ilen then
      (readAt lineSize out s.input s.cur).map fun _ => { s with cur := s.cur + 1 }
    else some s
  | .tab => handleTab out found s
  | .up =>
    if s.hidx + 1 < s.hcount then
      (readAll lineSize out s.input s.cur (s.ilen - s.cur)).bind fun _ =>
        loadLine 0 (s.hcount - 1 - (s.hidx + 1)).toNat { s with hidx := s.hidx + 1 }
    else some s
  | .down =>
    if s.hidx < 0 then some s
    else
      (readAll lineSize out s.input s.cur (s.ilen - s.cur)).bind fun _ =>
        if s.hidx - 1 < 0 then some { s with ilen := 0, cur := 0, hidx := -1 }
        else loadLine 0 (s.hcount - 1 - (s.hidx - 1)).toNat { s with hidx := s.hidx - 1 }
  | .char c => if s.ilen < lineSize - 1 then insertChar out c s else some s

/-! ### The reference -/

/-- A line with a cursor, the lines entered before, the last one at the end, and how far
back the line was taken from them. -/
structure Editor where
  line : List UInt8
  cur : ℕ
  hist : List (List UInt8)
  back : ℤ
  cur_le : cur ≤ line.length
  length_le : line.length ≤ 255
  hist_le : hist.length ≤ 10
  hist_line_le : ∀ l ∈ hist, l.length ≤ 255
  back_ge : -1 ≤ back
  back_lt : back < hist.length

namespace Editor

/-- The part from `lo` up to `hi` is replaced, if the result is short enough, and the
cursor goes behind the new part. -/
def replace (e : Editor) (lo hi : ℕ) (new : List UInt8) (hlo : lo ≤ hi)
    (hhi : hi ≤ e.line.length) : Editor :=
  if h : (splice e.line lo hi new).length ≤ 255 then
    { e with
      line := splice e.line lo hi new
      cur := lo + new.length
      cur_le := by rw [length_splice hlo hhi]; omega
      length_le := h }
  else e

/-- A line of its own, without a relation to the history. -/
def reset (e : Editor) : Editor :=
  { e with line := [], cur := 0, back := -1, cur_le := le_rfl, length_le := Nat.zero_le _,
           back_ge := le_rfl, back_lt := by omega }

/-- The line is remembered. -/
def enter (e : Editor) : Editor :=
  reset { e with
    hist := remember e.hist e.line
    back := -1
    hist_le := length_remember_le e.hist_le e.line
    hist_line_le := fun l hl => by
      rcases mem_remember hl with h | rfl
      · exact e.hist_line_le l h
      · exact e.length_le
    back_ge := le_rfl
    back_lt := by omega }

/-- The line that was entered `back` lines before the last one. -/
def takeBack (e : Editor) (back : ℕ) (h : back < e.hist.length) : Editor :=
  { e with
    line := e.hist.get ⟨e.hist.length - 1 - back, by omega⟩
    cur := (e.hist.get ⟨e.hist.length - 1 - back, by omega⟩).length
    back := back
    cur_le := le_rfl
    length_le := e.hist_line_le _ (List.get_mem _ _)
    back_ge := by omega
    back_lt := by omega }

/-- The completions of the word before the cursor: commands for the first word, names
that were found for the others. -/
def completions (e : Editor) (found : List (List UInt8)) : List (List UInt8) :=
  if 0x20 ∈ e.line.take e.cur then found
  else commands.filter fun cmd =>
    ((e.line.take e.cur).drop (startOf e.line e.cur)).isPrefixOf cmd

/-- A completion that is the only one replaces the word around the cursor. -/
def complete (e : Editor) (found : List (List UInt8)) : Editor :=
  match e.completions found with
  | [name] => e.replace (startOf e.line e.cur) (stopOf e.line e.cur) name
      ((startOf_le _ _).trans (le_stopOf _ _)) (stopOf_le e.cur_le)
  | _ => e

/-- What a key does. -/
def step (e : Editor) (found : List (List UInt8)) : Key → Editor
  | .enter => e.enter
  | .clear => e
  | .cancel => e.reset
  | .backspace => e.replace (e.cur - 1) e.cur [] (Nat.sub_le _ _) e.cur_le
  | .left => { e with cur := e.cur - 1, cur_le := (Nat.sub_le _ _).trans e.cur_le }
  | .right =>
    { e with cur := min (e.cur + 1) e.line.length, cur_le := Nat.min_le_right _ _ }
  | .tab => e.complete found
  | .up =>
    if h : (e.back + 1).toNat < e.hist.length then e.takeBack (e.back + 1).toNat h else e
  | .down =>
    if e.back < 0 then e
    else if h : 0 < e.back then
      e.takeBack (e.back - 1).toNat (by have := e.back_lt; omega)
    else e.reset
  | .char c => e.replace e.cur e.cur [c] le_rfl e.cur_le

end Editor

/-! ### The code shows the reference -/

/-- The state of the code is that of the reference: the line, the cursor, and the rows of
the history. -/
structure Shows (s : Line) (e : Editor) : Prop where
  text : textOf s.input s.ilen = e.line
  cur : s.cur = e.cur
  back : s.hidx = e.back
  keeps : Keeps s.hist s.hcount e.hist

/-- No line holds a NUL. -/
structure Clean (e : Editor) : Prop where
  line : 0 ∉ e.line
  hist : ∀ l ∈ e.hist, 0 ∉ l

section

variable {s : Line} {e : Editor} {c : UInt8} {found : List (List UInt8)} {junk : ℕ → UInt8}
  {lo hi : ℕ} {new : List UInt8}

lemma Shows.ilen (h : Shows s e) : s.ilen = e.line.length := by
  rw [← h.text, length_textOf]

lemma Shows.bounds (h : Shows s e) : s.cur ≤ s.ilen ∧ s.ilen ≤ 255 := by
  rw [h.cur, h.ilen]
  exact ⟨e.cur_le, e.length_le⟩

/-- A part of the line was replaced. -/
lemma Shows.replace (h : Shows s e) (hlo : lo ≤ hi) (hhi : hi ≤ e.line.length)
    (hfit : (splice e.line lo hi new).length ≤ 255) {a : ℕ → UInt8} {n k : ℕ}
    (ha : textOf a n = splice (textOf s.input s.ilen) lo hi new) (hk : k = lo + new.length) :
    Shows { s with input := a, ilen := n, cur := k } (e.replace lo hi new hlo hhi) := by
  rw [h.text] at ha
  rw [Editor.replace, dif_pos hfit]
  exact ⟨ha, hk, h.back, h.keeps⟩

lemma Clean.replace (h : Clean e) (hlo : lo ≤ hi) (hhi : hi ≤ e.line.length) (hnew : 0 ∉ new) :
    Clean (e.replace lo hi new hlo hhi) := by
  rw [Editor.replace]
  split
  · refine ⟨fun hz => ?_, h.hist⟩
    rcases List.mem_append.mp hz with hz | hz
    · exact h.line (List.mem_of_mem_take hz)
    · rcases List.mem_append.mp hz with hz | hz
      · exact hnew hz
      · exact h.line (List.mem_of_mem_drop hz)
  · exact h

lemma Editor.replace_of_long (hlo : lo ≤ hi) (hhi : hi ≤ e.line.length)
    (h : ¬ (splice e.line lo hi new).length ≤ 255) : e.replace lo hi new hlo hhi = e := dif_neg h

/-! ### The keys -/

lemma shows_char (h : Shows s e) (out : ℕ → Option UInt8) (c : UInt8) :
    ∃ s', (if s.ilen < lineSize - 1 then insertChar out c s else some s) = some s' ∧
      Shows s' (e.replace e.cur e.cur [c] le_rfl e.cur_le) := by
  obtain ⟨hcur, hlen⟩ := h.bounds
  have hsize : (splice e.line e.cur e.cur [c]).length = e.line.length + 1 := by
    have := e.cur_le
    rw [length_splice le_rfl e.cur_le, List.length_singleton]
    omega
  by_cases hroom : s.ilen < 255
  · obtain ⟨a, ha, htext⟩ := insertChar_spec out c hcur hroom
    refine ⟨_, (if_pos (show s.ilen < lineSize - 1 from hroom)).trans ha, ?_⟩
    rw [h.cur] at htext
    refine h.replace le_rfl e.cur_le (by rw [hsize, ← h.ilen]; omega) htext ?_
    rw [h.cur, List.length_singleton]
  · refine ⟨s, if_neg (show ¬ s.ilen < lineSize - 1 from hroom), ?_⟩
    rwa [Editor.replace_of_long _ _ (by rw [hsize, ← h.ilen]; omega)]

lemma shows_backspace (h : Shows s e) (out : ℕ → Option UInt8) :
    ∃ s', (if 0 < s.cur then deleteBefore out s else some s) = some s' ∧
      Shows s' (e.replace (e.cur - 1) e.cur [] (Nat.sub_le _ _) e.cur_le) := by
  obtain ⟨hcur, hlen⟩ := h.bounds
  have hfit : (splice e.line (e.cur - 1) e.cur []).length ≤ 255 := by
    have := e.cur_le
    have := e.length_le
    rw [length_splice (Nat.sub_le _ _) e.cur_le, List.length_nil]
    omega
  by_cases hpos : 0 < s.cur
  · obtain ⟨a, ha, htext⟩ := deleteBefore_spec out hpos hcur hlen
    refine ⟨_, (if_pos hpos).trans ha, ?_⟩
    rw [h.cur] at htext
    refine h.replace _ _ hfit htext ?_
    rw [h.cur, List.length_nil, Nat.add_zero]
  · refine ⟨s, if_neg hpos, ?_⟩
    have hzero : e.cur = 0 := by rw [← h.cur]; omega
    refine h.replace (a := s.input) (n := s.ilen) (k := s.cur) _ _ hfit ?_ ?_
    · rw [hzero]
      rfl
    · rw [h.cur, hzero]
      rfl

lemma shows_takeBack (h : Shows s e) (hclean : Clean e) {n : ℕ} (hn : n < e.hist.length)
    {idx : ℤ} (hidx : idx = n) :
    ∃ s', loadLine 0 (s.hcount - 1 - idx).toNat { s with hidx := idx } = some s' ∧
      Shows s' (e.takeBack n hn) := by
  have hcount := h.keeps.length
  have hten := e.hist_le
  have hentry : ((s.hcount : ℤ) - 1 - idx).toNat = e.hist.length - 1 - n := by omega
  have hget : e.hist[e.hist.length - 1 - n]? =
      some (e.hist.get ⟨e.hist.length - 1 - n, by omega⟩) :=
    List.getElem?_eq_getElem (by omega)
  rw [hentry]
  obtain ⟨a, k, hload, -, htext, hk⟩ := loadLine_spec
    (s := { s with hidx := idx }) (show e.hist.length - 1 - n < 10 by omega) (Nat.zero_le 1)
    (h.keeps.holds _ _ hget)
  have hlen := hk (hclean.hist _ (List.get_mem _ _))
  rw [hlen, List.take_length] at htext
  exact ⟨_, hload, by rw [hlen]; exact htext, hlen, hidx, h.keeps⟩

lemma matchCommands_eq (pre : List UInt8) :
    matchCommands pre = (commands.filter fun cmd => pre.isPrefixOf cmd).take 16 := by
  have hshort : ∀ cmd ∈ commands, cmd.length ≤ 12 := by decide
  rw [matchCommands]
  refine (List.map_congr_left fun cmd hcmd => ?_).trans (List.map_id _)
  exact List.take_of_length_le (hshort cmd (List.mem_of_mem_filter (List.mem_of_mem_take hcmd)))

/-- The completions that the code counts are those of the reference, or the first ones. -/
lemma matches_eq (e : Editor) (found : List (List UInt8)) {ms : List (List UInt8)}
    (hms : ms = if decide (0x20 ∈ e.line.take e.cur) = true then found
      else matchCommands ((e.line.take e.cur).drop (startOf e.line e.cur))) :
    ms = e.completions found ∨ ms = (e.completions found).take 16 := by
  rw [Editor.completions]
  by_cases hspace : 0x20 ∈ e.line.take e.cur
  · rw [if_pos (decide_eq_true hspace)] at hms
    rw [if_pos hspace]
    exact Or.inl hms
  · rw [if_neg (by simpa using hspace), matchCommands_eq] at hms
    rw [if_neg hspace]
    exact Or.inr hms

lemma shows_tab (h : Shows s e) {out : ℕ → Option UInt8} (hout : ∀ i, out i ≠ none)
    (found : List (List UInt8)) :
    ∃ s', handleTab out found s = some s' ∧ Shows s' (e.complete found) := by
  obtain ⟨hcur, hlen⟩ := h.bounds
  have hle : startOf e.line e.cur ≤ e.cur := startOf_le _ _
  have hword := tabWord_eq out hcur hlen
  have hstop := wordEnd_eq out s.input (show s.ilen ≤ 256 by omega) (s.ilen - s.cur) s.cur
    (by omega)
  dsimp only at hword
  rw [h.text, h.cur] at hword hstop
  rw [handleTab, hword, Option.bind_some, h.cur, Editor.complete]
  dsimp only
  generalize hms : (if decide (0x20 ∈ e.line.take e.cur) = true then found
    else matchCommands ((e.line.take e.cur).drop (startOf e.line e.cur))) = ms
  replace hms := matches_eq e found hms.symm
  match hF : e.completions found with
  | [] =>
    obtain rfl : ms = [] := by
      rw [hF] at hms
      exact hms.elim id id
    exact ⟨s, rfl, h⟩
  | [name] =>
    obtain rfl : ms = [name] := by
      rw [hF] at hms
      exact hms.elim id id
    have hbounds : startOf e.line e.cur ≤ stopOf e.line e.cur := hle.trans (le_stopOf _ _)
    have hsize := length_splice hbounds (stopOf_le e.cur_le) name
    have hstopLe := stopOf_le e.cur_le
    dsimp only
    rw [hstop, Option.bind_some, h.ilen]
    split
    · next hfit =>
      rw [lineSize] at hfit
      obtain ⟨a, ha, htext⟩ := replaceWord_spec hbounds (by rw [h.ilen]; exact hstopLe) hlen name
        (by rw [h.ilen]; omega) (Or.inl hout)
      exact ⟨_, ha, h.replace hbounds (stopOf_le e.cur_le) (by rw [hsize]; omega) htext rfl⟩
    · next hlong =>
      rw [lineSize] at hlong
      refine ⟨s, rfl, ?_⟩
      rwa [Editor.replace_of_long _ _ (by rw [hsize]; omega)]
  | n₁ :: n₂ :: ns =>
    obtain ⟨ms', rfl⟩ : ∃ ms', ms = n₁ :: n₂ :: ms' := by
      rcases hms with rfl | rfl <;> rw [hF]
      · exact ⟨_, rfl⟩
      · exact ⟨_, rfl⟩
    refine ⟨s, ?_, h⟩
    dsimp only
    rw [readAll_eq _ _ _ _ (by rw [lineSize]; omega), Option.map_some]

/-- One character. -/
lemma shellHandleChar_shows (h : Shows s e) (hclean : Clean e) (junk : ℕ → UInt8)
    (found : List (List UInt8)) (c : UInt8) : ∃ s', shellHandleChar junk found c s = some s' ∧
      Shows s' (e.step found (keyOf c)) := by
  obtain ⟨hcur, hlen⟩ := h.bounds
  have hcount := h.keeps.length
  have hge := e.back_ge
  have hlt := e.back_lt
  have hread : ∀ lo n, lo + n ≤ 256 → ∃ vs,
      readAll lineSize (fun i => some (junk i)) s.input lo n = some vs := fun lo n hn =>
    ⟨_, readAll_eq _ _ _ _ hn⟩
  rw [shellHandleChar]
  cases keyOf c with
  | enter =>
    obtain ⟨a, hist, hcount, ha, hkeeps⟩ := enterLine_spec (fun i => some (junk i)) hlen h.keeps
      e.hist_le
    rw [h.text] at hkeeps
    dsimp only
    rw [ha, Option.map_some]
    exact ⟨_, rfl, rfl, rfl, rfl, hkeeps⟩
  | clear =>
    obtain ⟨vs, hvs⟩ := hread 0 s.ilen (by omega)
    dsimp only
    rw [hvs, Option.map_some]
    exact ⟨s, rfl, h⟩
  | cancel => exact ⟨_, rfl, rfl, rfl, rfl, h.keeps⟩
  | backspace => exact shows_backspace h _
  | left =>
    dsimp only
    split
    · exact ⟨_, rfl, h.text, congrArg (· - 1) h.cur, h.back, h.keeps⟩
    · next hzero =>
      refine ⟨s, rfl, h.text, ?_, h.back, h.keeps⟩
      show s.cur = e.cur - 1
      rw [← h.cur]
      omega
  | right =>
    dsimp only
    split
    · next hin =>
      rw [readAt_eq (by rw [lineSize]; omega), Option.map_some]
      refine ⟨_, rfl, h.text, ?_, h.back, h.keeps⟩
      show s.cur + 1 = min (e.cur + 1) e.line.length
      rw [← h.cur, ← h.ilen]
      omega
    · next hend =>
      refine ⟨s, rfl, h.text, ?_, h.back, h.keeps⟩
      show s.cur = min (e.cur + 1) e.line.length
      rw [← h.cur, ← h.ilen]
      omega
  | tab => exact shows_tab h (fun i => Option.some_ne_none _) found
  | up =>
    dsimp only [Editor.step]
    rw [h.back]
    by_cases hmore : e.back + 1 < s.hcount
    · obtain ⟨vs, hvs⟩ := hread s.cur (s.ilen - s.cur) (by omega)
      rw [if_pos hmore, hvs, Option.bind_some, dif_pos (by omega)]
      exact shows_takeBack h hclean _ (by omega)
    · rw [if_neg hmore, dif_neg (by omega)]
      exact ⟨s, rfl, h⟩
  | down =>
    dsimp only [Editor.step]
    rw [h.back]
    by_cases hno : e.back < 0
    · rw [if_pos hno, if_pos hno]
      exact ⟨s, rfl, h⟩
    · obtain ⟨vs, hvs⟩ := hread s.cur (s.ilen - s.cur) (by omega)
      rw [if_neg hno, if_neg hno, hvs, Option.bind_some]
      by_cases hlast : e.back - 1 < 0
      · rw [if_pos hlast, dif_neg (by omega)]
        exact ⟨_, rfl, rfl, rfl, rfl, h.keeps⟩
      · rw [if_neg hlast, dif_pos (by omega)]
        exact shows_takeBack h hclean _ (by omega)
  | char c => exact shows_char h _ c

lemma eq_of_keyOf {c' : UInt8} (h : keyOf c = .char c') : c' = c := by
  rw [keyOf] at h
  split_ifs at h
  exact (Key.char.inj h).symm

lemma Clean.complete (h : Clean e) (hfound : ∀ name ∈ found, 0 ∉ name) :
    Clean (e.complete found) := by
  have hcmd : ∀ cmd ∈ commands, (0 : UInt8) ∉ cmd := by decide
  have hname : ∀ name ∈ e.completions found, 0 ∉ name := by
    intro name hname
    rw [Editor.completions] at hname
    split at hname
    · exact hfound name hname
    · exact hcmd name (List.mem_of_mem_filter hname)
  rw [Editor.complete]
  split
  · next name heq => exact h.replace _ _ (hname name (by rw [heq]; exact List.mem_singleton_self _))
  · exact h

lemma Clean.takeBack (h : Clean e) {n : ℕ} (hn : n < e.hist.length) : Clean (e.takeBack n hn) :=
  ⟨h.hist _ (List.get_mem _ _), h.hist⟩

lemma Clean.step (h : Clean e) (hc : c ≠ 0) (hfound : ∀ name ∈ found, 0 ∉ name) :
    Clean (e.step found (keyOf c)) := by
  cases hk : keyOf c with
  | enter =>
    refine ⟨List.not_mem_nil, fun l hl => ?_⟩
    rcases mem_remember hl with hl | rfl
    · exact h.hist l hl
    · exact h.line
  | clear => exact h
  | cancel => exact ⟨List.not_mem_nil, h.hist⟩
  | backspace => exact h.replace (Nat.sub_le _ _) e.cur_le List.not_mem_nil
  | left => exact ⟨h.line, h.hist⟩
  | right => exact ⟨h.line, h.hist⟩
  | tab => exact h.complete hfound
  | up =>
    rw [Editor.step]
    split
    · exact h.takeBack _
    · exact h
  | down =>
    rw [Editor.step]
    split
    · exact h
    · split
      · exact h.takeBack _
      · exact ⟨List.not_mem_nil, h.hist⟩
  | char c' =>
    refine h.replace le_rfl e.cur_le fun hz => hc ?_
    rw [← eq_of_keyOf hk, ← List.mem_singleton.mp hz]

end

/-! ### Runs -/

/-- A call of `shell_handle_char`: the character, the names found for it, which are strings,
and the bytes behind the line array. -/
structure Typed where
  char : UInt8
  found : List (List UInt8)
  junk : ℕ → UInt8
  found_ne : ∀ name ∈ found, 0 ∉ name

/-- The calls, one after the other. -/
def handleAll : List Typed → Line → Option Line
  | [], s => some s
  | t :: ts, s => (shellHandleChar t.junk t.found t.char s).bind fun s => handleAll ts s

/-- The state after `shell_init`. -/
def shellInit : Line := ⟨fun _ => 0, 0, 0, fun _ _ => 0, 0, -1⟩

/-- The reference at the start. -/
def Editor.init : Editor where
  line := []
  cur := 0
  hist := []
  back := -1
  cur_le := le_rfl
  length_le := Nat.zero_le _
  hist_le := Nat.zero_le _
  hist_line_le := fun _ hl => absurd hl List.not_mem_nil
  back_ge := le_rfl
  back_lt := by decide

/-- The reference after some characters. -/
def Editor.run (e : Editor) (ts : List Typed) : Editor :=
  ts.foldl (fun e t => e.step t.found (keyOf t.char)) e

lemma handleAll_spec : ∀ (ts : List Typed) {s : Line} {e : Editor}, Shows s e → Clean e →
    (∀ t ∈ ts, t.char ≠ 0) → ∃ s', handleAll ts s = some s' ∧ Shows s' (e.run ts) := by
  intro ts
  induction ts with
  | nil => exact fun {s e} h _ _ => ⟨s, rfl, h⟩
  | cons t ts ih =>
    intro s e h hclean hts
    obtain ⟨s₁, hs₁, h₁⟩ := shellHandleChar_shows h hclean t.junk t.found t.char
    obtain ⟨s₂, hs₂, h₂⟩ := ih h₁ (hclean.step (hts t List.mem_cons_self) t.found_ne)
      fun t' ht' => hts t' (List.mem_cons_of_mem _ ht')
    exact ⟨s₂, by rw [handleAll, hs₁, Option.bind_some, hs₂], h₂⟩

/-- A character, with nothing found. -/
def typed (c : UInt8) : Typed := ⟨c, [], fun _ => 0, fun _ h => absurd h List.not_mem_nil⟩

end GordOS.Shell
