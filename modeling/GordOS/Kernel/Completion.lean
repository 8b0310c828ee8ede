/-
Tab completion: `sys_findprefix` of `kernel/syscall.c` and `do_tab` of
`user/ush.c`.

The kernel stores the matches one after the other, each with a NUL behind it, and
the shell takes them apart again.

* `findprefixBytes`: what `sys_findprefix` stores; `findprefixBytes_eq`, for a
  buffer that is large enough;
* `doTabMatches`: how `do_tab` takes the buffer apart;
* `doTabMatches_findprefix`: **the shell finds the first match, and an empty string
  for every other one**; `completion_roundTrip`, for at most one match;
* `completion_loses_second`: two matches.
-/
import Mathlib.Tactic
import Mathlib.Data.List.GetD
import GordOS.Kernel.Files

namespace GordOS.Kernel

open GordOS

/-! ### The kernel -/

/-- The inner loop of `sys_findprefix`: the bytes of one match, behind those already
stored. -/
def copyMatch (bufsz : ℕ) : Name → List UInt8 → List UInt8
  | [], out => out
  | c :: m, out => if out.length + 1 < bufsz then copyMatch bufsz m (out ++ [c]) else out

/-- The loop of `sys_findprefix` over the matches. -/
def storeMatches (bufsz : ℕ) : List Name → List UInt8 → List UInt8
  | [], out => out
  | m :: ms, out =>
    if out.length + 2 < bufsz then storeMatches bufsz ms (copyMatch bufsz m out ++ [0])
    else out

/-- The bytes that `sys_findprefix` stores from `ubuf` on. -/
def findprefixBytes (bufsz : ℕ) (ms : List Name) : List UInt8 :=
  let out := storeMatches bufsz ms []
  if out.length < bufsz then out ++ [0] else out

/-! ### The shell -/

/-- The size of `g_match_raw`. -/
def matchRawSize : ℕ := 16 * 256 + 4

/-- The buffer after the call, with its old contents behind the bytes stored. -/
def stored (old : ℕ → UInt8) (bytes : List UInt8) : ℕ → UInt8 :=
  fun i => bytes.getD i (old i)

/-- The inner loop of `do_tab`: the bytes from `p` on, at most `n` of them, and where
`p` is then. -/
def copyWord (buf : ℕ → UInt8) : ℕ → ℕ → Name × ℕ
  | 0, p => ([], p)
  | n + 1, p =>
    if buf p ≠ 0 then
      match copyWord buf n (p + 1) with
      | (word, q) => (buf p :: word, q)
    else ([], p)

/-- The loop of `do_tab` over the matches. -/
def takeMatches (buf : ℕ → UInt8) : ℕ → ℕ → List Name
  | 0, _ => []
  | n + 1, p =>
    let r := copyWord buf 255 p
    r.1 :: takeMatches buf n (if buf r.2 ≠ 0 then r.2 + 1 else r.2)

/-- The matches that `do_tab` finds. -/
def doTabMatches (buf : ℕ → UInt8) (count : ℕ) : List Name :=
  takeMatches buf (min count 16) 0

/-! ### What is stored -/

section

variable {bufsz n p : ℕ} {m : Name} {ms : List Name} {buf : ℕ → UInt8}

/-- The matches with a NUL behind each. -/
def joined (ms : List Name) : List UInt8 := ms.flatMap (· ++ [0])

lemma copyMatch_eq : ∀ (m : Name) (out : List UInt8), out.length + m.length < bufsz →
    copyMatch bufsz m out = out ++ m := by
  intro m
  induction m with
  | nil => exact fun out _ => (List.append_nil out).symm
  | cons c m ih =>
    intro out h
    rw [List.length_cons] at h
    have hlen : (out ++ [c]).length + m.length < bufsz := by
      rw [List.length_append, List.length_singleton]
      omega
    rw [copyMatch, if_pos (by omega), ih _ hlen, List.append_assoc, List.singleton_append]

lemma storeMatches_eq : ∀ (ms : List Name) (out : List UInt8), (∀ m ∈ ms, m ≠ []) →
    out.length + (joined ms).length < bufsz → storeMatches bufsz ms out = out ++ joined ms := by
  intro ms
  induction ms with
  | nil => exact fun out _ _ => (List.append_nil out).symm
  | cons m ms ih =>
    intro out hne h
    have hm : 0 < m.length := List.length_pos_iff.mpr (hne m List.mem_cons_self)
    have hj : joined (m :: ms) = m ++ [0] ++ joined ms := List.flatMap_cons
    rw [hj, List.length_append, List.length_append, List.length_singleton] at h
    have hout : (out ++ m ++ [0]).length + (joined ms).length < bufsz := by
      rw [List.length_append, List.length_append, List.length_singleton]
      omega
    rw [storeMatches, if_pos (by omega), copyMatch_eq m out (by omega),
      ih _ (fun m' hm' => hne m' (List.mem_cons_of_mem _ hm')) hout, hj,
      List.append_assoc, List.append_assoc, List.append_assoc]

/-- In a buffer that is large enough, each match stands with a NUL behind it, and one
more NUL behind the last. -/
lemma findprefixBytes_eq (hne : ∀ m ∈ ms, m ≠ []) (h : (joined ms).length < bufsz) :
    findprefixBytes bufsz ms = joined ms ++ [0] := by
  have hs := storeMatches_eq ms [] hne (by rwa [List.length_nil, Nat.zero_add])
  rw [List.nil_append] at hs
  rw [findprefixBytes, hs]
  exact if_pos h

lemma length_joined_le : ∀ (ms : List Name), (∀ m ∈ ms, m.length ≤ 255) →
    (joined ms).length ≤ 256 * ms.length := by
  intro ms
  induction ms with
  | nil => exact fun _ => le_rfl
  | cons m ms ih =>
    intro h
    have hm := h m List.mem_cons_self
    have hms := ih fun m' hm' => h m' (List.mem_cons_of_mem _ hm')
    have hj : joined (m :: ms) = m ++ [0] ++ joined ms := List.flatMap_cons
    rw [hj, List.length_append, List.length_append, List.length_singleton, List.length_cons]
    omega

/-! ### What the shell finds -/

/-- At a NUL the shell stops, and does not step over it. -/
lemma copyWord_of_nul (h : buf p = 0) : copyWord buf n p = ([], p) := by
  cases n with
  | zero => rfl
  | succ n => rw [copyWord, if_neg (not_not.mpr h)]

/-- A string with a NUL behind it is copied, and `p` is at the NUL then. -/
lemma copyWord_of_string : ∀ (m : Name) (n p : ℕ), (∀ i (h : i < m.length), buf (p + i) = m[i]) →
    0 ∉ m → m.length ≤ n → buf (p + m.length) = 0 → copyWord buf n p = (m, p + m.length) := by
  intro m
  induction m with
  | nil => exact fun n p _ _ _ hend => copyWord_of_nul hend
  | cons c m ih =>
    intro n p hbuf hnul hn hend
    obtain ⟨n, rfl⟩ : ∃ n', n = n' + 1 := ⟨n - 1, by rw [List.length_cons] at hn; omega⟩
    have hc : buf p = c := hbuf 0 (Nat.succ_pos _)
    have hc0 : buf p ≠ 0 := fun h0 => hnul (by rw [← h0, hc]; exact List.mem_cons_self)
    have hrest : copyWord buf n (p + 1) = (m, p + 1 + m.length) := by
      refine ih n (p + 1) (fun i hi => ?_) (fun h0 => hnul (List.mem_cons_of_mem _ h0))
        (by rw [List.length_cons] at hn; omega) ?_
      · have := hbuf (i + 1) (Nat.succ_lt_succ hi)
        rwa [List.getElem_cons_succ, ← Nat.add_assoc, Nat.add_right_comm] at this
      · rwa [List.length_cons, ← Nat.add_assoc, Nat.add_right_comm] at hend
    rw [copyWord, if_pos hc0, hrest, hc, List.length_cons]
    exact Prod.ext rfl (by dsimp only; omega)

/-- From a NUL on, every match is empty. -/
lemma takeMatches_of_nul (h : buf p = 0) : takeMatches buf n p = List.replicate n [] := by
  induction n with
  | zero => rfl
  | succ n ih =>
    rw [takeMatches, copyWord_of_nul h, if_neg (not_not.mpr h), ih, List.replicate_succ]

/-- **The shell finds the first match**, and an empty string for every other one. -/
theorem doTabMatches_findprefix (old : ℕ → UInt8) (hlen : ms.length ≤ 16)
    (hok : ∀ m ∈ ms, m ≠ [] ∧ 0 ∉ m ∧ m.length ≤ 255) :
    doTabMatches (stored old (findprefixBytes matchRawSize ms)) ms.length =
      ms.head?.toList ++ List.replicate (ms.length - 1) [] := by
  have hle := length_joined_le ms fun m hm => (hok m hm).2.2
  have hbytes : findprefixBytes matchRawSize ms = joined ms ++ [0] :=
    findprefixBytes_eq (fun m hm => (hok m hm).1) (by rw [matchRawSize]; omega)
  rw [doTabMatches, min_eq_left hlen, hbytes]
  cases ms with
  | nil => rfl
  | cons m ms =>
    obtain ⟨-, hnul, h255⟩ := hok m List.mem_cons_self
    have hraw : joined (m :: ms) ++ [0] = m ++ 0 :: (joined ms ++ [0]) := by
      rw [joined, List.flatMap_cons, List.append_assoc, List.append_assoc]
      rfl
    rw [hraw]
    have hend : stored old (m ++ 0 :: (joined ms ++ [0])) m.length = 0 := by
      rw [stored, List.getD_append_right _ _ _ _ le_rfl, Nat.sub_self]
      rfl
    have hword : copyWord (stored old (m ++ 0 :: (joined ms ++ [0]))) 255 0 = (m, m.length) := by
      have hbytes : ∀ i (h : i < m.length),
          stored old (m ++ 0 :: (joined ms ++ [0])) (0 + i) = m[i] := fun i hi => by
        rw [Nat.zero_add, stored, List.getD_append _ _ _ _ hi, List.getD_eq_getElem _ _ hi]
      have h := copyWord_of_string m 255 0 hbytes hnul h255 (by rwa [Nat.zero_add])
      rwa [Nat.zero_add] at h
    rw [List.length_cons, takeMatches, hword, if_neg (not_not.mpr hend), takeMatches_of_nul hend]
    rfl

/-- **At most one match survives the way to the shell**. -/
theorem completion_roundTrip (old : ℕ → UInt8) (hlen : ms.length ≤ 16)
    (hok : ∀ m ∈ ms, m ≠ [] ∧ 0 ∉ m ∧ m.length ≤ 255) (hone : ms.length ≤ 1) :
    doTabMatches (stored old (findprefixBytes matchRawSize ms)) ms.length = ms := by
  have h := doTabMatches_findprefix old hlen hok
  rw [h]
  match ms, hone with
  | [], _ => rfl
  | [m], _ => rfl

end

theorem completion_roundTrip_one :
    doTabMatches (stored (fun _ => 7) (findprefixBytes matchRawSize [[0x41, 0x42]])) 1 =
      [[0x41, 0x42]] :=
  completion_roundTrip (fun _ => 7) (by decide) (by simp) (by decide)

/-- Of the matches `A` and `B` the shell finds `A` and an empty string. -/
theorem completion_loses_second :
    ¬ ∀ (old : ℕ → UInt8) (ms : List Name), ms.length ≤ 16 →
      (∀ m ∈ ms, m ≠ [] ∧ 0 ∉ m ∧ m.length ≤ 255) →
      doTabMatches (stored old (findprefixBytes matchRawSize ms)) ms.length = ms := by
  intro hall
  have hfound := hall (fun _ => 0) [[0x41], [0x42]] (by decide) (by simp)
  have hlost : doTabMatches (stored (fun _ => 0)
      (findprefixBytes matchRawSize [[0x41], [0x42]])) 2 = [[0x41], []] := by
    decide +kernel
  exact absurd (hlost.symm.trans hfound) (by decide)

end GordOS.Kernel
