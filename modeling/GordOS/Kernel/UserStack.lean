/-
The stack of a new program (`paging_build_user_stack` of `memory/paging.c`).

The command line is cut into tokens, and the strings, the argument vector and the frame of
`_start` are packed into one page from its end downwards.

* `tokens`, `fitArgs`, `packStrings`, `pushWords`, `pagingBuildUserStack`: the code;
* `buildUserStack`: the code again, with every store checked against the page;
* `cutTokens`: the words of a line, in pieces of 255 bytes; `tokens_eq`: the loop cuts these;
* `StackLayout`: what a program expects at its stack pointer;
* `fitArgs_spec`: **the budget suffices** for the strings, the vector and the frame;
* `userStack_layout`: every store is inside the page, and the page has this layout for the
  first tokens of the line.
-/
import Mathlib.Tactic
import GordOS.Lib.Bounded
import GordOS.Kernel.UserMem
import GordOS.Fat32.Volume

namespace GordOS.Kernel

open GordOS

/-! ### The stack page -/

/-- The bytes of one token, at most `n`, and what is left of the command line. -/
def takeToken : ℕ → List UInt8 → Name × List UInt8
  | 0, p => ([], p)
  | _ + 1, [] => ([], [])
  | n + 1, c :: p =>
    if c ≠ 0x20 then
      match takeToken n p with
      | (tok, rest) => (c :: tok, rest)
    else ([], c :: p)

/-- The loop that cuts the command line into at most `n` tokens. -/
def tokens : ℕ → List UInt8 → List Name
  | 0, _ => []
  | n + 1, p =>
    match p.dropWhile (· = 0x20) with
    | [] => []
    | c :: p =>
      match takeToken 255 (c :: p) with
      | (tok, rest) => tok :: tokens n rest

/-- `string_budget`: what the pointers and the frame of `_start` leave of the page. -/
def stringBudget (argc : ℕ) : ℕ :=
  let reserved := 4 * (argc + 1) + 16
  if reserved < 0x1000 then 0x1000 - reserved else 0

/-- The loop that drops the arguments that do not fit, with the bytes of those that
do. -/
def fitArgs (budget : ℕ) : ℕ → List Name → List Name
  | _, [] => []
  | total, tok :: toks =>
    if budget < total + (tok.length + 1) then []
    else tok :: fitArgs budget (total + (tok.length + 1)) toks

/-- Bytes stored at an offset. -/
def putBytes (page : ℕ → UInt8) (o : ℕ) (bytes : List UInt8) : ℕ → UInt8 := fun i =>
  if o ≤ i ∧ i < o + bytes.length then bytes.getD (i - o) 0 else page i

/-- The loop that packs the strings, the last one first, from the top of a zeroed page:
the page, `top`, and the addresses of the strings. -/
def packStrings (base : ℕ) : List Name → (ℕ → UInt8) × ℕ × List ℕ
  | [] => (fun _ => 0, 0x1000, [])
  | tok :: toks =>
    match packStrings base toks with
    | (page, top, ptrs) =>
      (putBytes page (top - (tok.length + 1)) (tok ++ [0]), top - (tok.length + 1),
        (base + (top - (tok.length + 1))) :: ptrs)

/-- Words pushed on the stack, the last one first. -/
def pushWords : List ℕ → (ℕ → UInt8) × ℕ → (ℕ → UInt8) × ℕ
  | [], s => s
  | v :: vs, s =>
    match pushWords vs s with
    | (page, top) => (Fat32.put32 page (top - 4) v, top - 4)

/-- `paging_build_user_stack`: the page, and the stack pointer of the program. -/
def pagingBuildUserStack (base : ℕ) (cmdline : List UInt8) : (ℕ → UInt8) × ℕ :=
  let toks := tokens 16 cmdline
  let args := fitArgs (stringBudget toks.length) 0 toks
  match packStrings base args with
  | (page, top, ptrs) =>
    match pushWords (ptrs ++ [0]) (page, top / 4 * 4) with
    | (page, top) =>
      match pushWords [0, args.length, base + top, 0] (page, top) with
      | (page, top) => (page, base + top)

/-! ### Checked stores -/

/-- `packStrings`, with every store inside the page. -/
def packChecked (base : ℕ) : List Name → Option ((ℕ → UInt8) × ℕ × List ℕ)
  | [] => some (fun _ => 0, 0x1000, [])
  | tok :: toks =>
    (packChecked base toks).bind fun (page, top, ptrs) =>
      if tok.length + 1 ≤ top then
        (storeAll 0x1000 (top - (tok.length + 1)) (tok ++ [0]) page).map fun page =>
          (page, top - (tok.length + 1), (base + (top - (tok.length + 1))) :: ptrs)
      else none

/-- `pushWords`, with every store inside the page. -/
def pushChecked : List ℕ → (ℕ → UInt8) × ℕ → Option ((ℕ → UInt8) × ℕ)
  | [], s => some s
  | v :: vs, s =>
    (pushChecked vs s).bind fun (page, top) =>
      if 4 ≤ top ∧ top ≤ 0x1000 then some (Fat32.put32 page (top - 4) v, top - 4) else none

/-- `paging_build_user_stack`, with every store inside the page and a `cmdline` that may be
null. -/
def buildUserStack (base : ℕ) (cmdline : Option (List UInt8)) : Option ((ℕ → UInt8) × ℕ) :=
  let toks := tokens 16 (cmdline.getD [])
  let args := fitArgs (stringBudget toks.length) 0 toks
  (packChecked base args).bind fun (page, top, ptrs) =>
    (pushChecked (ptrs ++ [0]) (page, top / 4 * 4)).bind fun (page, top) =>
      (pushChecked [0, args.length, base + top, 0] (page, top)).map fun (page, top) =>
        (page, base + top)

/-! ### What the code is for -/

/-- A word in pieces of 255 bytes. -/
def pieces (w : Name) : List Name :=
  (List.range ((w.length + 254) / 255)).map fun i => (w.drop (255 * i)).take 255

/-- The words of a line, in pieces. -/
def cutTokens (line : List UInt8) : List Name := (line.splitOnP (· = 0x20)).flatMap pieces

/-- A string with its NUL in a page. -/
def HasStr (page : ℕ → UInt8) (o : ℕ) (str : Name) : Prop :=
  o + (str.length + 1) ≤ 0x1000 ∧ ∀ i ≤ str.length, page (o + i) = (str ++ [0]).getD i 0

/-- The stack page of a program: the frame of `_start` at the offset `t`, then the argument
vector, and above it the strings, at the offsets `offs`, which do not overlap. -/
structure StackLayout (page : ℕ → UInt8) (base t : ℕ) (args : List Name) (offs : List ℕ) :
    Prop where
  inPage : t + 16 + 4 * (args.length + 1) ≤ 0x1000
  aligned : t % 4 = 0
  returnAddress : Fat32.read32 page t = 0
  argc : Fat32.read32 page (t + 4) = args.length
  argv : Fat32.read32 page (t + 8) = base + (t + 16)
  envp : Fat32.read32 page (t + 12) = 0
  count : offs.length = args.length
  pointers : ∀ i < args.length, Fat32.read32 page (t + 16 + 4 * i) = base + offs.getD i 0
  sentinel : Fat32.read32 page (t + 16 + 4 * args.length) = 0
  strings : List.Forall₂ (HasStr page) offs args
  above : ∀ o ∈ offs, t + 16 + 4 * (args.length + 1) ≤ o
  apart : (offs.zip args).Pairwise fun x y => x.1 + (x.2.length + 1) ≤ y.1

/-! ### Words and strings in a page -/

section

variable {page : ℕ → UInt8} {base top o i n : ℕ}

lemma put32_of_disjoint (page : ℕ → UInt8) {o : ℕ} (v : ℕ) (h : i < o ∨ o + 4 ≤ i) :
    Fat32.put32 page o v i = page i := by
  rw [Fat32.put32, if_neg (by omega), if_neg (by omega), if_neg (by omega), if_neg (by omega)]

lemma pushWords_top (page : ℕ → UInt8) (top : ℕ) (vs : List ℕ) :
    (pushWords vs (page, top)).2 = top - 4 * vs.length := by
  induction vs with
  | nil => rfl
  | cons v vs ih =>
    show (pushWords vs (page, top)).2 - 4 = _
    rw [ih, List.length_cons]
    omega

/-- The bytes above the words stay. -/
lemma pushWords_above (page : ℕ → UInt8) (vs : List ℕ) (h : 4 * vs.length ≤ top) (hi : top ≤ i) :
    (pushWords vs (page, top)).1 i = page i := by
  induction vs with
  | nil => rfl
  | cons v vs ih =>
    rw [List.length_cons] at h
    show Fat32.put32 (pushWords vs (page, top)).1 ((pushWords vs (page, top)).2 - 4) v i = _
    rw [pushWords_top, put32_of_disjoint _ v (by omega), ih (by omega)]

/-- The words themselves, from the stack pointer on. -/
lemma read32_pushWords (page : ℕ → UInt8) (top : ℕ) (vs : List ℕ) (h : 4 * vs.length ≤ top)
    (hvs : ∀ v ∈ vs, v < 2 ^ 32) :
    ∀ j < vs.length, Fat32.read32 (pushWords vs (page, top)).1 (top - 4 * vs.length + 4 * j) =
      vs.getD j 0 := by
  induction vs with
  | nil => exact fun j hj => absurd hj (Nat.not_lt_zero j)
  | cons v vs ih =>
    intro j hj
    rw [List.length_cons] at h hj ⊢
    show Fat32.read32 (Fat32.put32 (pushWords vs (page, top)).1
      ((pushWords vs (page, top)).2 - 4) v) _ = _
    rw [pushWords_top]
    cases j with
    | zero =>
      rw [show top - 4 * (vs.length + 1) + 4 * 0 = top - 4 * vs.length - 4 by omega,
        Fat32.read32_put32 _ _ _ (hvs v List.mem_cons_self), List.getD_cons_zero]
    | succ j =>
      rw [Fat32.read32_put32_of_disjoint _ _ (by omega), List.getD_cons_succ,
        ← ih (by omega) (fun v hv => hvs v (List.mem_cons_of_mem _ hv)) j (by omega)]
      congr 1
      omega

lemma putBytes_inside (page : ℕ → UInt8) (o : ℕ) {bytes : List UInt8} (h : i < bytes.length) :
    putBytes page o bytes (o + i) = bytes.getD i 0 := by
  rw [putBytes, if_pos (by omega), Nat.add_sub_cancel_left]

lemma putBytes_above (page : ℕ → UInt8) {bytes : List UInt8} (h : o + bytes.length ≤ i) :
    putBytes page o bytes i = page i := by
  rw [putBytes, if_neg (by omega)]

lemma HasStr.congr {page' : ℕ → UInt8} {str : Name} (h : HasStr page o str)
    (heq : ∀ i, o ≤ i → page' i = page i) : HasStr page' o str :=
  ⟨h.1, fun i hi => (heq (o + i) (Nat.le_add_right o i)).trans (h.2 i hi)⟩

/-- The room that strings take. -/
def packedSize (toks : List Name) : ℕ := (toks.map fun tok => tok.length + 1).sum

/-- The bytes that a loop stores. -/
lemma storeAll_eq (page : ℕ → UInt8) {bytes : List UInt8} (h : o + bytes.length ≤ 0x1000) :
    storeAll 0x1000 o bytes page = some (putBytes page o bytes) := by
  obtain ⟨page', he, hin, hout⟩ := storeAll_spec bytes o page h
  rw [he]
  congr 1
  funext i
  rw [putBytes]
  split
  · next hi =>
    have hval := hin (i - o) (by omega)
    rw [show o + (i - o) = i by omega] at hval
    rw [List.getD_eq_getElem?_getD, ← hval, Option.getD_some]
  · exact hout i (by omega)

lemma pushChecked_eq (page : ℕ → UInt8) (htop : top ≤ 0x1000) : ∀ vs : List ℕ,
    4 * vs.length ≤ top → pushChecked vs (page, top) = some (pushWords vs (page, top)) := by
  intro vs
  induction vs with
  | nil => exact fun _ => rfl
  | cons v vs ih =>
    intro h
    rw [List.length_cons] at h
    have hle := pushWords_top page top vs
    rw [pushChecked, ih (by omega), pushWords, Option.bind_some]
    generalize pushWords vs (page, top) = r at hle
    obtain ⟨page', top'⟩ := r
    dsimp only at hle ⊢
    rw [if_pos (by omega)]

/-- The strings are packed side by side below the end of the page. -/
structure Packed (base : ℕ) (toks : List Name) (page : ℕ → UInt8) (top : ℕ) (ptrs offs : List ℕ) :
    Prop where
  top_eq : top = 0x1000 - packedSize toks
  ptrs_eq : ptrs = offs.map (base + ·)
  strings : List.Forall₂ (HasStr page) offs toks
  above : ∀ o ∈ offs, top ≤ o
  apart : (offs.zip toks).Pairwise fun x y => x.1 + (x.2.length + 1) ≤ y.1

lemma packStrings_spec (base : ℕ) : ∀ toks : List Name, packedSize toks ≤ 0x1000 →
    ∃ page top ptrs offs, packStrings base toks = (page, top, ptrs) ∧
      packChecked base toks = some (page, top, ptrs) ∧ Packed base toks page top ptrs offs := by
  intro toks
  induction toks with
  | nil =>
    exact fun _ => ⟨_, _, _, [], rfl, rfl, rfl, rfl, .nil, fun o ho => absurd ho List.not_mem_nil,
      .nil⟩
  | cons tok toks ih =>
    intro h
    have hsize : packedSize (tok :: toks) = tok.length + 1 + packedSize toks := List.sum_cons
    rw [hsize] at h
    obtain ⟨page, top, ptrs, offs, hpack, hchecked, hp⟩ := ih (by omega)
    have htop := hp.top_eq
    have hlen : (tok ++ [0]).length = tok.length + 1 := List.length_append
    rw [packStrings, hpack, packChecked, hchecked, Option.bind_some]
    dsimp only
    rw [if_pos (by omega), storeAll_eq page (by omega), Option.map_some]
    refine ⟨_, _, _, (top - (tok.length + 1)) :: offs, rfl, rfl, by omega, ?_, .cons ?_ ?_, ?_, ?_⟩
    · rw [List.map_cons, hp.ptrs_eq]
    · exact ⟨by omega, fun i hi => putBytes_inside page _ (by omega)⟩
    · refine List.forall₂_iff_zip.mpr ⟨hp.strings.length_eq, fun {o t} hmem => ?_⟩
      have habove := hp.above o (List.of_mem_zip hmem).1
      exact ((List.forall₂_iff_zip.mp hp.strings).2 hmem).congr fun i hi =>
        putBytes_above page (by omega)
    · intro o ho
      rcases List.mem_cons.mp ho with rfl | ho
      · exact le_rfl
      · exact (Nat.sub_le _ _).trans (hp.above o ho)
    · rw [List.zip_cons_cons, List.pairwise_cons]
      refine ⟨fun x hx => ?_, hp.apart⟩
      have habove := hp.above x.1 (List.of_mem_zip (show (x.1, x.2) ∈ offs.zip toks from hx)).1
      dsimp only
      omega

/-! ### Tokens that fit -/

lemma takeToken_spec (n : ℕ) : ∀ p : List UInt8,
    (takeToken n p).1.length ≤ n ∧ (takeToken n p).1 ++ (takeToken n p).2 = p := by
  induction n with
  | zero => exact fun p => ⟨le_rfl, rfl⟩
  | succ n ih =>
    intro p
    cases p with
    | nil => exact ⟨Nat.zero_le _, rfl⟩
    | cons c p =>
      rw [takeToken]
      split
      · exact ⟨Nat.succ_le_succ (ih p).1, congrArg (c :: ·) (ih p).2⟩
      · exact ⟨Nat.zero_le _, rfl⟩

lemma mem_tokens (n : ℕ) : ∀ p : List UInt8, ∀ tok ∈ tokens n p,
    tok.length ≤ 255 ∧ ∀ c ∈ tok, c ∈ p := by
  induction n with
  | zero => exact fun p tok h => absurd h List.not_mem_nil
  | succ n ih =>
    intro p tok h
    rw [tokens] at h
    split at h
    · exact absurd h List.not_mem_nil
    · next c q hq =>
      have hsub : ∀ x ∈ c :: q, x ∈ p := fun x hx =>
        (List.dropWhile_sublist (· = 0x20)).subset (hq ▸ hx)
      obtain ⟨hlen, happ⟩ := takeToken_spec 255 (c :: q)
      generalize takeToken 255 (c :: q) = r at h hlen happ
      obtain ⟨first, rest⟩ := r
      dsimp only at hlen happ
      rcases List.mem_cons.mp h with rfl | h
      · exact ⟨hlen, fun x hx => hsub x (happ ▸ List.mem_append_left rest hx)⟩
      · obtain ⟨hl, hm⟩ := ih rest tok h
        exact ⟨hl, fun x hx => hsub x (happ ▸ List.mem_append_right first (hm x hx))⟩

lemma length_tokens_le (n : ℕ) : ∀ p : List UInt8, (tokens n p).length ≤ n := by
  induction n with
  | zero => exact fun p => le_rfl
  | succ n ih =>
    intro p
    rw [tokens]
    split
    · exact Nat.zero_le _
    · exact Nat.succ_le_succ (ih _)

/-- Where a token ends: at the end of the line, at a space, or after its last byte. -/
lemma takeToken_ends (n : ℕ) : ∀ p : List UInt8, 0x20 ∉ (takeToken n p).1 ∧
    ((takeToken n p).1.length = n ∨ (takeToken n p).2.head? = none ∨
      (takeToken n p).2.head? = some 0x20) := by
  induction n with
  | zero => exact fun p => ⟨List.not_mem_nil, .inl rfl⟩
  | succ n ih =>
    intro p
    cases p with
    | nil => exact ⟨List.not_mem_nil, .inr (.inl rfl)⟩
    | cons c p =>
      rw [takeToken]
      by_cases hc : c ≠ 0x20
      · obtain ⟨hspace, hend⟩ := ih p
        rw [if_pos hc]
        refine ⟨fun h => ?_, hend.imp (congrArg (· + 1)) id⟩
        rcases List.mem_cons.mp h with h | h
        · exact hc h.symm
        · exact hspace h
      · rw [if_neg hc]
        exact ⟨List.not_mem_nil, .inr (.inr (congrArg some (not_not.mp hc)))⟩

lemma pieces_nil : pieces [] = [] := rfl

lemma pieces_short {w : Name} (hne : w ≠ []) (h : w.length ≤ 255) : pieces w = [w] := by
  have hpos := List.length_pos_iff.mpr hne
  rw [pieces, show (w.length + 254) / 255 = 1 by omega, List.range_one, List.map_singleton,
    Nat.mul_zero, List.drop_zero, List.take_of_length_le h]

lemma pieces_append {w : Name} (h : w.length = 255) (w' : Name) :
    pieces (w ++ w') = w :: pieces w' := by
  rw [pieces, List.length_append, show (w.length + w'.length + 254) / 255 =
    (w'.length + 254) / 255 + 1 by omega, List.range_succ_eq_map, List.map_cons, List.map_map,
    Nat.mul_zero, List.drop_zero, List.take_left' h, pieces]
  refine congrArg (w :: ·) (List.map_congr_left fun i _ => ?_)
  show ((w ++ w').drop (255 * (i + 1))).take 255 = _
  rw [show 255 * (i + 1) = w.length + 255 * i by omega, ← List.drop_drop, List.drop_left]

/-- Bytes that are no spaces go to the first word. -/
lemma splitOnP_append {w : Name} (rest : List UInt8) : 0x20 ∉ w →
    (w ++ rest).splitOnP (· = 0x20) = (rest.splitOnP (· = 0x20)).modifyHead (w ++ ·) := by
  induction w with
  | nil =>
    intro _
    cases hs : rest.splitOnP (· = 0x20) <;> exact hs
  | cons c w ih =>
    intro h
    rw [List.mem_cons, not_or] at h
    rw [List.cons_append, List.splitOnP_cons_eq_if_modifyHead, if_neg (by simpa using Ne.symm h.1),
      ih h.2, List.modifyHead_modifyHead]
    rfl

/-- One token is cut off. -/
lemma cutTokens_append {tok rest : List UInt8} (hspace : 0x20 ∉ tok) (hne : tok ≠ [])
    (hlen : tok.length ≤ 255)
    (hend : tok.length = 255 ∨ rest.head? = none ∨ rest.head? = some 0x20) :
    cutTokens (tok ++ rest) = tok :: cutTokens rest := by
  obtain ⟨w, ws, hsplit⟩ := List.exists_cons_of_ne_nil
    (List.splitOnP_ne_nil (fun c => decide (c = 0x20)) rest)
  rw [cutTokens, cutTokens, splitOnP_append rest hspace, hsplit, List.modifyHead_cons,
    List.flatMap_cons, List.flatMap_cons]
  rcases hend with h | h
  · rw [pieces_append h, List.cons_append]
  · -- the first word of the rest is empty
    have hw : w = [] := by
      cases rest with
      | nil => exact (List.cons.inj (hsplit.symm.trans List.splitOnP_nil)).1
      | cons c rest =>
        have hc : c = 0x20 := by simpa using h
        rw [List.splitOnP_cons_eq_if_modifyHead, if_pos (by simpa using hc)] at hsplit
        exact (List.cons.inj hsplit).1.symm
    rw [hw, List.append_nil, pieces_short hne hlen, pieces_nil, List.singleton_append,
      List.nil_append]

lemma cutTokens_dropWhile (p : List UInt8) : cutTokens (p.dropWhile (· = 0x20)) = cutTokens p := by
  induction p with
  | nil => rfl
  | cons c p ih =>
    by_cases hc : c = 0x20
    · rw [List.dropWhile_cons_of_pos (by simpa using hc), ih, cutTokens, cutTokens,
        List.splitOnP_cons_eq_if_modifyHead, if_pos (by simpa using hc), List.flatMap_cons,
        pieces_nil, List.nil_append]
    · rw [List.dropWhile_cons_of_neg (by simpa using hc)]

/-- **The loop cuts the words of the line, in pieces.** -/
lemma tokens_eq (n : ℕ) : ∀ p : List UInt8, tokens n p = (cutTokens p).take n := by
  induction n with
  | zero => exact fun p => rfl
  | succ n ih =>
    intro p
    rw [tokens, ← cutTokens_dropWhile p]
    have hhead : ∀ c ∈ (p.dropWhile (· = 0x20)).head?, c ≠ 0x20 := by
      intro c hc
      have h := List.head?_dropWhile_not (· = 0x20) p
      rw [Option.mem_def.mp hc] at h
      simpa using h
    generalize p.dropWhile (· = 0x20) = q at hhead
    match q with
    | [] => rfl
    | c :: q =>
      have hc : c ≠ 0x20 := hhead c rfl
      obtain ⟨hlen, happ⟩ := takeToken_spec 255 (c :: q)
      obtain ⟨hspace, hend⟩ := takeToken_ends 255 (c :: q)
      dsimp only
      generalize takeToken 255 (c :: q) = r at hlen happ hspace hend
      obtain ⟨tok, rest⟩ := r
      dsimp only at hlen happ hspace hend ⊢
      have hne : tok ≠ [] := by
        rintro rfl
        rw [← happ] at hhead
        rcases hend with h | h | h
        · exact absurd h (by decide)
        · rw [List.nil_append] at happ
          rw [happ] at h
          exact absurd h (by simp)
        · exact hhead 0x20 h rfl
      rw [← happ, cutTokens_append hspace hne hlen hend, List.take_succ_cons, ih rest]

lemma fitArgs_spec (budget : ℕ) (toks : List Name) : ∀ total ≤ budget,
    fitArgs budget total toks <+: toks ∧
      total + packedSize (fitArgs budget total toks) ≤ budget := by
  induction toks with
  | nil => exact fun total h => ⟨List.prefix_rfl, h⟩
  | cons tok toks ih =>
    intro total h
    rw [fitArgs]
    split
    · exact ⟨List.nil_prefix, h⟩
    · next hfit =>
      obtain ⟨hpre, hsize⟩ := ih (total + (tok.length + 1)) (not_lt.mp hfit)
      refine ⟨List.cons_prefix_cons.mpr ⟨rfl, hpre⟩, ?_⟩
      have hcons : packedSize (tok :: fitArgs budget (total + (tok.length + 1)) toks) =
          tok.length + 1 + packedSize (fitArgs budget (total + (tok.length + 1)) toks) :=
        List.sum_cons
      omega

/-- The first argument stays. -/
lemma fitArgs_ne_nil {budget : ℕ} {toks : List Name} (hne : toks ≠ [])
    (h : ∀ tok ∈ toks, tok.length + 1 ≤ budget) : fitArgs budget 0 toks ≠ [] := by
  obtain ⟨tok, toks, rfl⟩ := List.exists_cons_of_ne_nil hne
  have hfirst := h tok List.mem_cons_self
  rw [fitArgs, if_neg (by omega)]
  exact List.cons_ne_nil _ _

lemma fitArgs_eq (budget : ℕ) (toks : List Name) : ∀ total,
    total + packedSize toks ≤ budget → fitArgs budget total toks = toks := by
  induction toks with
  | nil => exact fun total _ => rfl
  | cons tok toks ih =>
    intro total h
    have hcons : packedSize (tok :: toks) = tok.length + 1 + packedSize toks := List.sum_cons
    rw [fitArgs, if_neg (by omega), ih _ (by omega)]

/-! ### The layout -/

/-- The vector and the frame, pushed below the strings. -/
lemma stackLayout_of_packed {args : List Name} {ptrs offs : List ℕ}
    (hsize : packedSize args + 4 * (args.length + 1) + 16 ≤ 0x1000)
    (hbase : base + 0x1000 ≤ 2 ^ 32) (h : Packed base args page top ptrs offs) :
    let vec := pushWords (ptrs ++ [0]) (page, top / 4 * 4)
    let frame := pushWords [0, args.length, base + vec.2, 0] vec
    StackLayout frame.1 base frame.2 args offs := by
  have htop := h.top_eq
  have hcount : offs.length = args.length := h.strings.length_eq
  have hlen : (ptrs ++ [0]).length = args.length + 1 := by
    rw [List.length_append, h.ptrs_eq, List.length_map, hcount, List.length_singleton]
  have hoff : ∀ o ∈ offs, o < 0x1000 := by
    intro o ho
    obtain ⟨i, hi, rfl⟩ := List.getElem_of_mem ho
    have hroom : offs[i] + (_ + 1) ≤ 0x1000 :=
      (List.forall₂_iff_get.mp h.strings |>.2 i hi (hcount ▸ hi)).1
    omega
  have hvs : ∀ v ∈ ptrs ++ [0], v < 2 ^ 32 := by
    intro v hv
    rw [h.ptrs_eq, List.mem_append, List.mem_map, List.mem_singleton] at hv
    rcases hv with ⟨o, ho, rfl⟩ | rfl
    · have := hoff o ho
      omega
    · norm_num
  -- the vector
  have hvecTop := pushWords_top page (top / 4 * 4) (ptrs ++ [0])
  have hvec := read32_pushWords page (top / 4 * 4) (ptrs ++ [0]) (by omega) hvs
  have hkeep : ∀ i, top / 4 * 4 ≤ i → (pushWords (ptrs ++ [0]) (page, top / 4 * 4)).1 i = page i :=
    fun i hi => pushWords_above page _ (by omega) hi
  rw [hlen] at hvecTop hvec
  dsimp only
  generalize pushWords (ptrs ++ [0]) (page, top / 4 * 4) = vec at hvecTop hvec hkeep
  obtain ⟨page₂, top₂⟩ := vec
  dsimp only at hvecTop hvec hkeep ⊢
  rw [← hvecTop] at hvec
  -- the frame
  have hframe : ∀ v ∈ [0, args.length, base + top₂, 0], v < 2 ^ 32 := by
    intro v hv
    simp only [List.mem_cons, List.not_mem_nil, or_false] at hv
    omega
  have hfour : [0, args.length, base + top₂, 0].length = 4 := rfl
  have hword := read32_pushWords page₂ top₂ [0, args.length, base + top₂, 0] (by omega) hframe
  have habove : ∀ i, top₂ ≤ i →
      (pushWords [0, args.length, base + top₂, 0] (page₂, top₂)).1 i = page₂ i :=
    fun i hi => pushWords_above page₂ _ (by omega) hi
  have ht := pushWords_top page₂ top₂ [0, args.length, base + top₂, 0]
  rw [hfour] at hword ht
  generalize pushWords [0, args.length, base + top₂, 0] (page₂, top₂) = frame at hword habove ht
  obtain ⟨page₃, t⟩ := frame
  dsimp only at hword habove ht ⊢
  have hread : ∀ i ≤ args.length, Fat32.read32 page₃ (t + 16 + 4 * i) = (ptrs ++ [0]).getD i 0 := by
    intro i hi
    rw [show t + 16 + 4 * i = top₂ + 4 * i by omega, ← hvec i (by omega)]
    exact Fat32.read32_congr fun j _ => habove _ (by omega)
  have h16 : t + 16 = top₂ := by omega
  refine
    { inPage := by omega
      aligned := by omega
      returnAddress := by rw [ht]; exact hword 0 (by omega)
      argc := by rw [ht]; exact hword 1 (by omega)
      argv := by rw [h16, ht]; exact hword 2 (by omega)
      envp := by rw [ht]; exact hword 3 (by omega)
      count := hcount
      pointers := fun i hi => ?_
      sentinel := ?_
      strings := ?_
      above := fun o ho => ?_
      apart := h.apart }
  · have hio : i < offs.length := hcount ▸ hi
    rw [hread i hi.le, h.ptrs_eq, List.getD_append _ _ _ _ (by rwa [List.length_map]),
      List.getD_eq_getElem _ _ (by rwa [List.length_map]), List.getElem_map,
      List.getD_eq_getElem _ _ hio]
  · have hn : ptrs.length = args.length := by rw [h.ptrs_eq, List.length_map, hcount]
    rw [hread _ le_rfl, List.getD_append_right _ _ _ _ hn.le, hn, Nat.sub_self]
    rfl
  · refine List.forall₂_iff_zip.mpr ⟨hcount, fun {o t'} hmem => ?_⟩
    have hle := h.above o (List.of_mem_zip hmem).1
    refine ((List.forall₂_iff_zip.mp h.strings).2 hmem).congr fun i hi => ?_
    rw [habove i (by omega), hkeep i (by omega)]
  · have hle := h.above o ho
    omega

end

/-- The arguments that the stack is built for. -/
def fittingArgs (cmdline : List UInt8) : List Name :=
  fitArgs (stringBudget (tokens 16 cmdline).length) 0 (tokens 16 cmdline)

lemma stringBudget_tokens (cmdline : List UInt8) : stringBudget (tokens 16 cmdline).length =
    0x1000 - (4 * ((tokens 16 cmdline).length + 1) + 16) := by
  have hlen := length_tokens_le 16 cmdline
  exact if_pos (by omega)

/-- **The budget suffices** for the strings, the vector and the frame. -/
lemma packedSize_fittingArgs (cmdline : List UInt8) :
    packedSize (fittingArgs cmdline) + 4 * ((fittingArgs cmdline).length + 1) + 16 ≤ 0x1000 := by
  have hlen := length_tokens_le 16 cmdline
  have hbudget := stringBudget_tokens cmdline
  obtain ⟨hpre, hsize⟩ := fitArgs_spec _ (tokens 16 cmdline) 0
    (Nat.zero_le (stringBudget (tokens 16 cmdline).length))
  have hcount : (fittingArgs cmdline).length ≤ (tokens 16 cmdline).length := hpre.length_le
  have hroom : packedSize (fittingArgs cmdline) ≤ stringBudget (tokens 16 cmdline).length :=
    (Nat.zero_add _).symm.trans_le hsize
  omega

/-- **The page that is built**: every store is inside it, and it has the layout that a
program expects. -/
lemma pagingBuildUserStack_layout {base : ℕ} (hbase : base + 0x1000 ≤ 2 ^ 32)
    (cmdline : Option (List UInt8)) : ∃ page t offs,
    pagingBuildUserStack base (cmdline.getD []) = (page, base + t) ∧
      buildUserStack base cmdline = some (page, base + t) ∧
      StackLayout page base t (fittingArgs (cmdline.getD [])) offs := by
  have hsize := packedSize_fittingArgs (cmdline.getD [])
  rw [pagingBuildUserStack, buildUserStack]
  dsimp only
  rw [← fittingArgs]
  generalize fittingArgs (cmdline.getD []) = args at hsize
  obtain ⟨page, top, ptrs, offs, hpack, hchecked, hp⟩ := packStrings_spec base args (by omega)
  have hlayout := stackLayout_of_packed hsize hbase hp
  have hlen : (ptrs ++ [0]).length = args.length + 1 := by
    rw [List.length_append, hp.ptrs_eq, List.length_map, hp.strings.length_eq,
      List.length_singleton]
  have htop := hp.top_eq
  have hvecTop := pushWords_top page (top / 4 * 4) (ptrs ++ [0])
  rw [hpack, hchecked, Option.bind_some]
  dsimp only at hlayout ⊢
  rw [pushChecked_eq page (by omega) _ (by omega), Option.bind_some]
  generalize pushWords (ptrs ++ [0]) (page, top / 4 * 4) = vec at hlayout hvecTop
  obtain ⟨page₂, top₂⟩ := vec
  dsimp only at hlayout hvecTop ⊢
  rw [pushChecked_eq page₂ (by omega) _ (by show 4 * 4 ≤ top₂; omega), Option.map_some]
  exact ⟨_, _, offs, rfl, rfl, hlayout⟩

/-- **`paging_build_user_stack`**: for every command line every store is inside the page, the
stack pointer is aligned and in the page, and the page there has the layout that a program
expects, for the first tokens of the line and never none of them. -/
theorem userStack_layout (base : ℕ) (cmdline : Option (List UInt8)) (hpage : base % 0x1000 = 0)
    (hbase : base < 2 ^ 32) (hz : 0 ∉ cmdline.getD []) :
    ∃ page t args offs, buildUserStack base cmdline = some (page, base + t) ∧ t < 0x1000 ∧
      (base + t) % 4 = 0 ∧ StackLayout page base t args offs ∧ (∀ arg ∈ args, 0 ∉ arg) ∧
      args = ((cutTokens (cmdline.getD [])).take 16).take args.length ∧
      (cutTokens (cmdline.getD []) ≠ [] → 1 ≤ args.length) := by
  obtain ⟨page, t, offs, -, hbuild, hlayout⟩ :=
    pagingBuildUserStack_layout (by omega : base + 0x1000 ≤ 2 ^ 32) cmdline
  have hin := hlayout.inPage
  have halign := hlayout.aligned
  obtain ⟨hpre, -⟩ := fitArgs_spec _ (tokens 16 (cmdline.getD [])) 0
    (Nat.zero_le (stringBudget (tokens 16 (cmdline.getD [])).length))
  refine ⟨page, t, _, offs, hbuild, by omega, by omega, hlayout, fun arg harg h0 => ?_, ?_,
    fun hne => ?_⟩
  · exact hz ((mem_tokens 16 _ arg (hpre.subset harg)).2 0 h0)
  · rw [← tokens_eq]
    exact List.prefix_iff_eq_take.mp hpre
  · refine List.length_pos_iff.mpr (fitArgs_ne_nil ?_ fun tok htok => ?_)
    · rw [tokens_eq]
      exact fun h => hne ((List.take_eq_nil_iff.mp h).resolve_left (by decide))
    · have hlen := length_tokens_le 16 (cmdline.getD [])
      have htok := (mem_tokens 16 _ tok htok).1
      rw [stringBudget_tokens]
      omega

/-- The line `ls`. -/
theorem userStack_layout_ls : ∃ page t args offs,
    buildUserStack 0xBFFFF000 (some [0x6C, 0x73]) = some (page, 0xBFFFF000 + t) ∧ t < 0x1000 ∧
      (0xBFFFF000 + t) % 4 = 0 ∧ StackLayout page 0xBFFFF000 t args offs ∧
      (∀ arg ∈ args, 0 ∉ arg) ∧ args = ((cutTokens [0x6C, 0x73]).take 16).take args.length ∧
      (cutTokens [0x6C, 0x73] ≠ [] → 1 ≤ args.length) :=
  userStack_layout 0xBFFFF000 (some [0x6C, 0x73]) (by decide) (by decide) (by decide)

end GordOS.Kernel
