/-
The line editor of the user shell (`readline` and `do_tab` of `user/ush.c`).

The loops are those of the kernel shell (`Line.lean`), but a completion is stored without a
look at the room that is left. Here a load outside an array is refused as well.

* `ushKey`: one key; `ushRun`: the keys one after the other, over all calls of `readline`;
* `tabFits`: the completion leaves room for the line, and does not shorten it by more than
  the array has behind it;
* `UshOk`: the cursor is in the line, the line in its array, and each row in use holds a
  NUL; `UshOk.key`;
* `ushRun_ok`: **no access is outside an array**, and the bounds hold in every state of a
  run whose completions fit; `doTab_overflows`: one that does not.
-/
import Mathlib.Tactic
import GordOS.Shell.HandleChar

namespace GordOS.Shell

/-! ### The code -/

/-- `g_cmds`. -/
def ushCommands : List (List UInt8) :=
  ["help", "clear", "echo", "about", "ls", "pwd", "cat", "touch", "mkdir", "cd", "rm", "write",
    "rename", "time", "uptime", "free", "exec", "bg", "ps", "kill", "fasterfetch", "peter",
    "reboot"].map ascii

/-- `g_matches` of `do_tab`: commands for the first word, otherwise names that the kernel
found; at most 16. -/
def ushMatches (found : List (List UInt8)) (pre : List UInt8) (space : Bool) :
    List (List UInt8) :=
  (if space then found else ushCommands.filter fun cmd => pre.isPrefixOf cmd).take 16

/-- `do_tab`. -/
def doTab (found : List (List UInt8)) (s : Line) : Option Line :=
  (tabWord refused s).bind fun r =>
    match ushMatches found r.2.1 r.2.2 with
    | [] => some s
    | [name] =>
      (wordEnd refused s.input (s.ilen - s.cur) s.cur).bind fun stop =>
        replaceWord refused r.1 stop name s
    | _ => (readAll lineSize refused s.input 0 s.ilen).map fun _ => s

/-- The start of `readline`. -/
def readlineStart (s : Line) : Option Line :=
  (writeAt lineSize 0 0 s.input).map fun a => { s with input := a, ilen := 0, cur := 0, hidx := -1 }

/-- `load_history`, and the loop that shows the line. -/
def loadHistory (idx : ℤ) (s : Line) : Option Line :=
  if idx < 0 ∨ s.hcount ≤ idx then some s
  else
    (loadLine 1 (s.hcount - 1 - idx).toNat s).bind fun s =>
      (readAll lineSize refused s.input 0 s.ilen).map fun _ => s

/-- The body of the loop of `readline`; a key that ends the call is followed by the next
call. -/
def ushKey (found : List (List UInt8)) (c : UInt8) (s : Line) : Option Line :=
  match keyOf c with
  | .enter => (enterLine refused s).bind readlineStart
  | .cancel => (writeAt lineSize 0 0 s.input).bind fun a =>
    readlineStart { s with input := a, ilen := 0, cur := 0 }
  | .clear => (readAll lineSize refused s.input 0 s.ilen).map fun _ => s
  | .backspace => if 0 < s.cur then deleteBefore refused s else some s
  | .left => if 0 < s.cur then some { s with cur := s.cur - 1 } else some s
  | .right =>
    if s.cur < s.ilen then
      (readAt lineSize refused s.input s.cur).map fun _ => { s with cur := s.cur + 1 }
    else some s
  | .up =>
    if s.hidx + 1 < s.hcount then
      (readAll lineSize refused s.input s.cur (s.ilen - s.cur)).bind fun _ =>
        loadHistory (s.hidx + 1) { s with hidx := s.hidx + 1 }
    else some s
  | .down =>
    if s.hidx < 0 then some s
    else
      (readAll lineSize refused s.input s.cur (s.ilen - s.cur)).bind fun _ =>
        if s.hidx - 1 < 0 then
          (writeAt lineSize 0 0 s.input).map fun a =>
            { s with input := a, ilen := 0, cur := 0, hidx := s.hidx - 1 }
        else loadHistory (s.hidx - 1) { s with hidx := s.hidx - 1 }
  | .tab => doTab found s
  | .char c =>
    if 0x20 ≤ c ∧ c < 0x80 ∧ s.ilen < lineSize - 1 then insertChar refused c s else some s

/-- Keys, each with the names that the kernel finds for it. -/
def ushRun : List (UInt8 × List (List UInt8)) → Line → Option Line
  | [], s => some s
  | (c, found) :: ks, s => (ushKey found c s).bind fun s => ushRun ks s

/-! ### Completions that fit -/

/-- The only completion, if there is one, leaves the line in its array; and if it is shorter
than the word around the cursor, the loop that closes the gap ends in the array. -/
def tabFits (found : List (List UInt8)) (s : Line) : Bool :=
  let l := textOf s.input s.ilen
  let start := startOf l s.cur
  let stop := stopOf l s.cur
  match ushMatches found ((l.take s.cur).drop start) (decide (0x20 ∈ l.take s.cur)) with
  | [name] => start + (name.length + (s.ilen - stop)) ≤ 255 ∧
      s.ilen + (stop - start - name.length) ≤ 255
  | _ => true

/-- Every completion of a run fits. -/
def RunFits : List (UInt8 × List (List UInt8)) → Line → Prop
  | [], _ => True
  | (c, found) :: ks, s => (keyOf c = .tab → tabFits found s = true) ∧
      ∀ s', ushKey found c s = some s' → RunFits ks s'

/-! ### One key -/

/-- The cursor is in the line and the line in its array; the rows in use hold lines. -/
structure UshOk (s : Line) : Prop where
  cur_le : s.cur ≤ s.ilen
  ilen_le : s.ilen ≤ 255
  keeps : ∃ ls, Keeps s.hist s.hcount ls ∧ ls.length ≤ 10
  hidx_ge : -1 ≤ s.hidx

section

variable {s : Line} {c : UInt8} {found : List (List UInt8)}

/-- The line is another one, and the history stays. -/
lemma UshOk.edit (h : UshOk s) {a : ℕ → UInt8} {n k : ℕ} {idx : ℤ} (hk : k ≤ n) (hn : n ≤ 255)
    (hidx : -1 ≤ idx) : UshOk { s with input := a, ilen := n, cur := k, hidx := idx } :=
  ⟨hk, hn, h.keeps, hidx⟩

lemma readlineStart_ok (h : UshOk s) : ∃ s', readlineStart s = some s' ∧ UshOk s' := by
  rw [readlineStart, writeAt_eq (by decide), Option.map_some]
  exact ⟨_, rfl, h.edit le_rfl (by decide) le_rfl⟩

lemma loadHistory_ok (h : UshOk s) (idx : ℤ) : ∃ s', loadHistory idx s = some s' ∧ UshOk s' := by
  rw [loadHistory]
  by_cases hno : idx < 0 ∨ s.hcount ≤ idx
  · rw [if_pos hno]
    exact ⟨s, rfl, h⟩
  · obtain ⟨ls, hkeeps, hten⟩ := h.keeps
    have hcount := hkeeps.length
    have hlt : ((s.hcount : ℤ) - 1 - idx).toNat < ls.length := by omega
    obtain ⟨a, k, hload, hk, -, -⟩ := loadLine_spec (by omega) le_rfl
      (hkeeps.holds _ _ (List.getElem?_eq_getElem hlt))
    have hline := (hkeeps.holds _ _ (List.getElem?_eq_getElem hlt)).length_le
    have hshow : readAll lineSize refused a 0 k = some ((List.range' 0 k).map a) :=
      readAll_eq _ _ _ _ (by rw [lineSize]; omega)
    rw [if_neg hno, hload, Option.bind_some]
    dsimp only
    rw [hshow, Option.map_some]
    exact ⟨_, rfl, h.edit le_rfl (by omega) h.hidx_ge⟩

lemma doTab_ok (h : UshOk s) (hfit : tabFits found s = true) :
    ∃ s', doTab found s = some s' ∧ UshOk s' := by
  obtain ⟨hcur, hlen⟩ : s.cur ≤ s.ilen ∧ s.ilen ≤ 255 := ⟨h.cur_le, h.ilen_le⟩
  have hstop := wordEnd_eq refused s.input (show s.ilen ≤ 256 by omega) (s.ilen - s.cur) s.cur
    (by omega)
  rw [tabFits] at hfit
  rw [doTab, tabWord_eq refused hcur hlen, Option.bind_some]
  dsimp only at hfit ⊢
  split
  · exact ⟨s, rfl, h⟩
  · next name hname =>
    rw [hname] at hfit
    obtain ⟨hroom, hback⟩ := of_decide_eq_true hfit
    rw [hstop, Option.bind_some]
    obtain ⟨a, ha, -⟩ := replaceWord_spec ((startOf_le _ _).trans (le_stopOf _ _)) (by
        have := stopOf_le (show s.cur ≤ (textOf s.input s.ilen).length by
          rw [length_textOf]; exact hcur)
        rwa [length_textOf] at this) hlen name hroom (Or.inr (by omega))
    exact ⟨_, ha, h.edit (by omega) hroom h.hidx_ge⟩
  · rw [readAll_eq _ _ _ _ (by rw [lineSize]; omega), Option.map_some]
    exact ⟨s, rfl, h⟩

/-- One key keeps the bounds, if its completion fits. -/
lemma UshOk.key (h : UshOk s) (hfit : keyOf c = .tab → tabFits found s = true) :
    ∃ s', ushKey found c s = some s' ∧ UshOk s' := by
  obtain ⟨hcur, hlen⟩ : s.cur ≤ s.ilen ∧ s.ilen ≤ 255 := ⟨h.cur_le, h.ilen_le⟩
  have hge := h.hidx_ge
  have hread : ∀ lo n, lo + n ≤ 256 → ∃ vs, readAll lineSize refused s.input lo n = some vs :=
    fun lo n hn => ⟨_, readAll_eq _ _ _ _ hn⟩
  obtain ⟨vs, hvs⟩ := hread s.cur (s.ilen - s.cur) (by omega)
  rw [ushKey]
  cases hk : keyOf c with
  | enter =>
    obtain ⟨ls, hkeeps, hten⟩ := h.keeps
    obtain ⟨a, hist, hcount, ha, hkeeps'⟩ := enterLine_spec refused hlen hkeeps hten
    dsimp only
    rw [ha, Option.bind_some]
    exact readlineStart_ok ⟨hcur, hlen, ⟨_, hkeeps', length_remember_le hten _⟩, hge⟩
  | cancel =>
    dsimp only
    rw [writeAt_eq (by decide), Option.bind_some]
    exact readlineStart_ok (h.edit le_rfl (by decide) hge)
  | clear =>
    obtain ⟨vs, hvs⟩ := hread 0 s.ilen (by omega)
    dsimp only
    rw [hvs, Option.map_some]
    exact ⟨s, rfl, h⟩
  | backspace =>
    dsimp only
    split
    · next hpos =>
      obtain ⟨a, ha, -⟩ := deleteBefore_spec refused hpos hcur hlen
      exact ⟨_, ha, h.edit (by omega) (by omega) hge⟩
    · exact ⟨s, rfl, h⟩
  | left =>
    dsimp only
    split
    · exact ⟨_, rfl, h.edit (by omega) hlen hge⟩
    · exact ⟨s, rfl, h⟩
  | right =>
    dsimp only
    split
    · next hin =>
      rw [readAt_eq (by rw [lineSize]; omega), Option.map_some]
      exact ⟨_, rfl, h.edit hin hlen hge⟩
    · exact ⟨s, rfl, h⟩
  | up =>
    dsimp only
    split
    · rw [hvs, Option.bind_some]
      exact loadHistory_ok (h.edit hcur hlen (by omega)) _
    · exact ⟨s, rfl, h⟩
  | down =>
    dsimp only
    split
    · exact ⟨s, rfl, h⟩
    · rw [hvs, Option.bind_some]
      split
      · rw [writeAt_eq (by decide), Option.map_some]
        exact ⟨_, rfl, h.edit le_rfl (by decide) (by omega)⟩
      · exact loadHistory_ok (h.edit hcur hlen (by omega)) _
  | tab => exact doTab_ok h (hfit hk)
  | char c =>
    dsimp only
    split
    · next hins =>
      have hroom : s.ilen < 255 := hins.2.2
      obtain ⟨a, ha, -⟩ := insertChar_spec refused c hcur hroom
      exact ⟨_, ha, h.edit (by omega) (by omega) hge⟩
    · exact ⟨s, rfl, h⟩

end

/-! ### Runs -/

lemma ushRun_ok : ∀ (ks : List (UInt8 × List (List UInt8))) {s : Line}, UshOk s → RunFits ks s →
    ∃ s', ushRun ks s = some s' ∧ UshOk s' := by
  intro ks
  induction ks with
  | nil => exact fun {s} h _ => ⟨s, rfl, h⟩
  | cons k ks ih =>
    obtain ⟨c, found⟩ := k
    intro s h hfits
    obtain ⟨s₁, hs₁, h₁⟩ := h.key hfits.1
    obtain ⟨s₂, hs₂, h₂⟩ := ih h₁ (hfits.2 s₁ hs₁)
    exact ⟨s₂, by rw [ushRun, hs₁, Option.bind_some, hs₂], h₂⟩

lemma RunFits.take : ∀ (n : ℕ) {ks : List (UInt8 × List (List UInt8))} {s : Line},
    RunFits ks s → RunFits (ks.take n) s := by
  intro n
  induction n with
  | zero => exact fun _ => trivial
  | succ n ih =>
    intro ks s h
    match ks with
    | [] => exact trivial
    | (c, found) :: ks => exact ⟨h.1, fun s' hs' => ih (h.2 s' hs')⟩

/-- The arrays of `ush` at the start of the first line. -/
def ushInit : Line := ⟨fun _ => 0, 0, 0, fun _ _ => 0, 0, -1⟩

/-- **`readline` stays in its arrays**: whatever keys are typed, over any number of lines, as
long as the completions fit, no access is outside `g_input` and the rows of `g_hist`, and
after each key the cursor is in a line of at most 255 bytes. -/
theorem ushRun_inBounds (ks : List (UInt8 × List (List UInt8))) (h : RunFits ks ushInit) (n : ℕ) :
    ∃ s, ushRun (ks.take n) ushInit = some s ∧ s.cur ≤ s.ilen ∧ s.ilen ≤ 255 := by
  have hinit : UshOk ushInit :=
    ⟨le_rfl, by decide, ⟨[], ⟨rfl, fun _ _ hl => nomatch hl⟩, by decide⟩, le_rfl⟩
  obtain ⟨s, hs, hok⟩ := ushRun_ok (ks.take n) hinit (h.take n)
  exact ⟨s, hs, hok.cur_le, hok.ilen_le⟩

/-- `help`, from its first two letters. -/
theorem ushRun_inBounds_help : RunFits [(0x68, []), (0x65, []), (0x09, [])] ushInit ∧
    ∃ s, ushRun ([(0x68, []), (0x65, []), (0x09, [])].take 3) ushInit = some s ∧
      s.cur ≤ s.ilen ∧ s.ilen ≤ 255 := by
  have hfits : RunFits [(0x68, []), (0x65, []), (0x09, [])] ushInit := by
    refine ⟨fun h => absurd h (by decide), fun s₁ hs₁ => ⟨fun h => absurd h (by decide),
      fun s₂ hs₂ => ⟨fun _ => ?_, fun _ _ => trivial⟩⟩⟩
    have hrun : (ushRun [(0x68, []), (0x65, [])] ushInit).all (tabFits []) = true := by
      decide +kernel
    have hs : ushRun [(0x68, []), (0x65, [])] ushInit = some s₂ := by
      rw [ushRun, hs₁, Option.bind_some, ushRun, hs₂, Option.bind_some, ushRun]
    rwa [hs] at hrun
  exact ⟨hfits, ushRun_inBounds _ hfits 3⟩

/-- A line of two bytes, and the one name of 255 bytes that is found for its empty last
word: the first store is at 257. A word of 255 bytes, and the completion `help` of its first
two: the loop that closes the gap loads up to 506. -/
theorem doTab_overflows :
    (ushRun [(0x61, []), (0x20, []), (0x09, [List.replicate 255 0x62])] ushInit).isNone = true ∧
    (doTab [] ⟨fun i => if i = 0 then 0x68 else if i = 1 then 0x65 else 0x58, 255, 2,
      fun _ _ => 0, 0, -1⟩).isNone = true := by
  decide +kernel

end GordOS.Shell
