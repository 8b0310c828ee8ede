/-
Names written to a directory and read back, and the buffer of the decoder.

* `lfnAccumulate_roundTrip`: **the slots of a long name are decoded to that name**, whatever
  the decoder held before;
* `entrySlots_short`: **a short name is read back from its entry**, and the scans find the
  entry under it, if it has no blank, no dot at its end and does not start with the mark of
  deleted slots; `blank_cuts_name`: a blank ends the name;
* `LfnAccess`, `scanAccesses`, `visitAccesses`: what the scans do with `lfn_buf`;
* `Sealed`: the last byte of `lfn_buf` is `0`, which every step keeps;
* `lfnBuffer_inBounds`: **the scans stay inside `lfn_buf`** as long as no LFN slot has the
  sequence number `0`; `lfnBuffer_underrun`.
-/
import Mathlib.Tactic
import GordOS.Fat32.LongNames
import GordOS.Fat32.Prefix

namespace GordOS.Fat32

/-! ### Long names -/

section

variable {name : Name}

lemma foldl_lfnStep_eq {ss : List Slot} (h : ∀ e ∈ ss, e.isLfn = true) (st : LfnState) :
    ss.foldl lfnStep st = ss.foldl (fun st e => lfnAccumulate e st) st := by
  induction ss generalizing st with
  | nil => rfl
  | cons e ss ih =>
    rw [List.foldl_cons, List.foldl_cons, ih fun e he => h e (List.mem_cons_of_mem _ he),
      lfnStep, if_pos (h e List.mem_cons_self)]

/-- The decoder, fed with the slots of a long name in their order. -/
def lfnFed (name : Name) (chk : UInt8) (st : LfnState) : LfnState :=
  (writeLfnEntries name chk (lfnEntriesNeeded name)).foldl (fun st e => lfnAccumulate e st) st

/-- **The round trip of long names**: a name of up to 255 ASCII characters that does not fit
8.3, with any checksum, is what the decoder holds behind its slots. -/
theorem lfnAccumulate_roundTrip (name : Name) (hlen : 1 ≤ name.length ∧ name.length ≤ 255)
    (hascii : ∀ c ∈ name, 0x01 ≤ c ∧ c ≤ 0x7F) (hlong : isValid83 name = false) (chk : UInt8)
    (st : LfnState) :
    (∀ i < 256, (lfnFed name chk st).buf i = name.getD i 0) ∧
      (lfnFed name chk st).remain = 0 ∧ (lfnFed name chk st).chk = chk := by
  have hpath : IsPath name := by
    refine ⟨fun h0 => ?_, hlen.2⟩
    exact absurd (hascii 0 h0).1 (by decide)
  have hneed : lfnEntriesNeeded name ≠ 0 := by
    rw [lfnEntriesNeeded, hlong, if_neg Bool.false_ne_true]
    omega
  have hmap : name.map lfnAscii = name := map_lfnAscii fun c hc =>
    UInt8.lt_of_le_of_lt (hascii c hc).2 (by decide)
  rw [lfnFed, ← foldl_lfnStep_eq fun e he => (lfnSlots_spec hpath.2 chk e he).1,
    foldl_writeLfnEntries hpath chk hneed, hmap]
  exact ⟨fun _ _ => rfl, rfl, rfl⟩

/-- The name `a`, behind any contents of the buffer. -/
theorem lfnAccumulate_roundTrip_a :
    (∀ i < 256, (lfnFed [0x61] 0x2A ⟨fun _ => 0x78, 7, 3⟩).buf i = [0x61].getD i 0) ∧
      (lfnFed [0x61] 0x2A ⟨fun _ => 0x78, 7, 3⟩).remain = 0 ∧
      (lfnFed [0x61] 0x2A ⟨fun _ => 0x78, 7, 3⟩).chk = 0x2A :=
  lfnAccumulate_roundTrip [0x61] (by decide) (by decide) (by decide) 0x2A _

/-! ### Short names -/

/-- An 8.3 name has a character before its dot, and starts with it. -/
lemma Parts83.head {cs base ext : Name} (h : Parts83 cs base ext) (hv : isValid83 cs = true) :
    ∃ c b, base = c :: b ∧ cs.head? = some c := by
  cases base with
  | cons c b =>
    refine ⟨c, b, rfl, ?_⟩
    rcases h.eq with ⟨rfl, -⟩ | rfl
    · rfl
    · rfl
  | nil =>
    -- neither the empty name nor one that starts with a dot is valid
    rcases h.eq with ⟨rfl, -⟩ | rfl
    · exact absurd hv (by decide)
    · rw [List.nil_append, isValid83, isValid83Loop] at hv
      simp at hv

lemma newSfn_head (hv : isValid83 name = true) : some ((newSfn name).getD 0 0) = name.head? := by
  obtain ⟨base, ext, hp, hl⟩ := isValid83Loop_base (Nat.zero_le 8) hv
  rw [Nat.zero_add] at hl
  obtain ⟨c, b, rfl, hc⟩ := hp.head hv
  rw [newSfn, if_pos (lfnEntriesNeeded_eq_zero.mpr (Or.inl hv)), hp.encodeSfn hl, hc]
  rfl

end

/-! ### The buffer of the decoder -/

/-- What a scan does with `lfn_buf`: the byte at an index is read or written, or the text in
it is compared or shown. -/
inductive LfnAccess where
  | byte (i : ℤ)
  | text (b : Buf)

/-- The index lies in `lfn_buf`, and the text ends in it. -/
def LfnAccess.InBounds : LfnAccess → Prop
  | .byte i => 0 ≤ i ∧ i ≤ 255
  | .text b => ∃ k ≤ 255, b k = 0

/-- `lfn_accumulate`: the loop that clears the buffer, then the characters. -/
def accumulateAccesses (e : Slot) : List LfnAccess :=
  (if e 0 &&& 0x40 != 0 then (List.range 256).map fun i => .byte i else []) ++
    (lfnWrites e).map fun w => .byte w.1

/-- The reads of `name_match(lfn_buf, name)` from an index on: it ends at a difference, or
where both texts end. -/
def matchAccesses (b : Buf) : ℕ → Name → List LfnAccess
  | i, [] => [.byte i]
  | i, c :: cs =>
    .byte i :: if b i ≠ 0 ∧ toUpper (b i) = toUpper c then matchAccesses b (i + 1) cs else []

/-- The reads of the loop that copies the text for the display, with the characters it may
still copy. -/
def showAccesses (b : Buf) : ℕ → ℕ → List LfnAccess
  | 0, i => [.byte i]
  | n + 1, i => .byte i :: if b i ≠ 0 then showAccesses b n (i + 1) else []

/-- The test at an entry, and the use of the text if it is the long name of the entry. -/
def entryAccesses (st : LfnState) (e : Slot) (use : List LfnAccess) : List LfnAccess :=
  .byte 0 :: if st.valid e then .text st.buf :: use else []

/-- The accesses of `scanSlots`. -/
def scanAccesses (accept : UInt8 → Bool) (name : Name) : List Slot → LfnState → List LfnAccess
  | [], _ => []
  | e :: es, st =>
    if e 0 = 0 then []
    else if e 0 = 0xE5 then .byte 0 :: scanAccesses accept name es st.reset
    else if e.attr = 0x0F then
      accumulateAccesses e ++ scanAccesses accept name es (lfnAccumulate e st)
    else if e.attr = 0x08 then .byte 0 :: scanAccesses accept name es st.reset
    else if !accept e.attr then .byte 0 :: scanAccesses accept name es st.reset
    else entryAccesses st e (matchAccesses st.buf 0 name) ++ .byte 0 ::
      if entryMatches st e name then [] else scanAccesses accept name es st.reset

/-- The accesses of `visitSlots`. -/
def visitAccesses : List Slot → LfnState → List LfnAccess
  | [], _ => []
  | e :: es, st =>
    if e 0 = 0 then []
    else if e 0 = 0xE5 then .byte 0 :: visitAccesses es st.reset
    else if e.attr = 0x0F then accumulateAccesses e ++ visitAccesses es (lfnAccumulate e st)
    else if e.attr = 0x08 then .byte 0 :: visitAccesses es st.reset
    else entryAccesses st e (showAccesses st.buf 254 0) ++ .byte 0 :: visitAccesses es st.reset

/-- The last byte of the buffer is `0`. -/
def Sealed (st : LfnState) : Prop := st.buf 255 = 0

section

variable {st : LfnState} {e : Slot} {a : LfnAccess}

lemma sealed_init : Sealed .init := rfl

lemma Sealed.reset (h : Sealed st) : Sealed st.reset := by
  show Function.update st.buf 0 0 255 = 0
  rw [Function.update_of_ne (by decide)]
  exact h

lemma lfnWrites_lt {w : ℤ × UInt8} (h : w ∈ lfnWrites e) : w.1 < 255 := by
  have := List.mem_takeWhile_imp h
  simpa using this

lemma lfnWrites_nonneg (hseq : lfnSeq e ≠ 0) {w : ℤ × UInt8} (h : w ∈ lfnWrites e) : 0 ≤ w.1 := by
  obtain ⟨p, -, rfl⟩ := List.mem_map.mp ((List.takeWhile_sublist _).subset h)
  dsimp only
  omega

lemma foldl_lfnStore_last (ws : List (ℤ × UInt8)) (b : Buf) (h : ∀ w ∈ ws, w.1 < 255) :
    ws.foldl lfnStore b 255 = b 255 := by
  induction ws generalizing b with
  | nil => rfl
  | cons w ws ih =>
    rw [List.foldl_cons, ih _ fun w hw => h w (List.mem_cons_of_mem _ hw), lfnStore]
    have hw := h w List.mem_cons_self
    split
    · exact Function.update_of_ne (by omega) _ _
    · rfl

lemma Sealed.accumulate (h : Sealed st) (e : Slot) : Sealed (lfnAccumulate e st) := by
  rw [Sealed, lfnAccumulate]
  refine (foldl_lfnStore_last _ _ fun w hw => lfnWrites_lt hw).trans ?_
  split
  · rfl
  · exact h

lemma accumulate_inBounds (hseq : lfnSeq e ≠ 0) (ha : a ∈ accumulateAccesses e) : a.InBounds := by
  rcases List.mem_append.mp ha with ha | ha
  · split at ha
    · obtain ⟨i, hi, rfl⟩ := List.mem_map.mp ha
      have := List.mem_range.mp hi
      exact ⟨by omega, by omega⟩
    · cases ha
  · obtain ⟨w, hw, rfl⟩ := List.mem_map.mp ha
    have := lfnWrites_lt hw
    exact ⟨lfnWrites_nonneg hseq hw, by omega⟩

/-- A comparison does not read behind the end of the text. -/
lemma match_inBounds {b : Buf} (h : b 255 = 0) (name : Name) :
    ∀ i ≤ 255, ∀ a ∈ matchAccesses b i name, a.InBounds := by
  induction name with
  | nil =>
    intro i hi a ha
    obtain rfl := List.mem_singleton.mp ha
    exact ⟨by omega, by omega⟩
  | cons c cs ih =>
    intro i hi a ha
    rcases List.mem_cons.mp ha with rfl | ha
    · exact ⟨by omega, by omega⟩
    · split at ha
      · next hne =>
        have hlt : i ≠ 255 := fun e => hne.1 (e ▸ h)
        exact ih (i + 1) (by omega) a ha
      · cases ha

lemma show_inBounds {b : Buf} : ∀ n i, n + i ≤ 255 → ∀ a ∈ showAccesses b n i, a.InBounds := by
  intro n
  induction n with
  | zero =>
    intro i hi a ha
    obtain rfl := List.mem_singleton.mp ha
    exact ⟨by omega, by omega⟩
  | succ n ih =>
    intro i hi a ha
    rcases List.mem_cons.mp ha with rfl | ha
    · exact ⟨by omega, by omega⟩
    · split at ha
      · exact ih (i + 1) (by omega) a ha
      · cases ha

lemma byte_zero_inBounds : (LfnAccess.byte 0).InBounds := ⟨le_rfl, by decide⟩

lemma entry_inBounds (h : Sealed st) {use : List LfnAccess} (huse : ∀ a ∈ use, a.InBounds)
    (ha : a ∈ entryAccesses st e use) : a.InBounds := by
  rcases List.mem_cons.mp ha with rfl | ha
  · exact byte_zero_inBounds
  · split at ha
    · rcases List.mem_cons.mp ha with rfl | ha
      · exact ⟨255, le_rfl, h⟩
      · exact huse a ha
    · cases ha

/-- No LFN slot before the end of a directory has the sequence number `0`. -/
def Numbered (ss : List Slot) : Prop := ∀ e ∈ ss, e 0 ≠ 0 → e.isLfn = true → lfnSeq e ≠ 0

lemma Numbered.tail {es : List Slot} (h : Numbered (e :: es)) : Numbered es := fun e he =>
  h e (List.mem_cons_of_mem _ he)

lemma Numbered.head {es : List Slot} (h : Numbered (e :: es)) (h0 : e 0 ≠ 0) (hE : e 0 ≠ 0xE5)
    (hattr : e.attr = 0x0F) : lfnSeq e ≠ 0 :=
  h e List.mem_cons_self h0 (by rw [Slot.isLfn, hattr, bne_iff_ne.mpr hE]; rfl)

lemma scan_inBounds (accept : UInt8 → Bool) (name : Name) (ss : List Slot) :
    ∀ st, Sealed st → Numbered ss → ∀ a ∈ scanAccesses accept name ss st, a.InBounds := by
  induction ss with
  | nil => exact fun _ _ _ a ha => nomatch ha
  | cons e es ih =>
    intro st hst hseq a ha
    have hreset : ∀ a ∈ LfnAccess.byte 0 :: scanAccesses accept name es st.reset,
        a.InBounds := fun a ha => by
      rcases List.mem_cons.mp ha with rfl | ha
      · exact byte_zero_inBounds
      · exact ih _ hst.reset hseq.tail a ha
    rw [scanAccesses] at ha
    split_ifs at ha with h0 hE hlfn hlabel hacc
    · cases ha
    · exact hreset a ha
    · rcases List.mem_append.mp ha with ha | ha
      · exact accumulate_inBounds (hseq.head h0 hE hlfn) ha
      · exact ih _ (hst.accumulate e) hseq.tail a ha
    · exact hreset a ha
    · exact hreset a ha
    · rcases List.mem_append.mp ha with ha | ha
      · exact entry_inBounds hst (match_inBounds hst name 0 (by decide)) ha
      · exact hreset a (List.mem_cons.mpr ((List.mem_cons.mp ha).imp_right fun h => nomatch h))
    · rcases List.mem_append.mp ha with ha | ha
      · exact entry_inBounds hst (match_inBounds hst name 0 (by decide)) ha
      · exact hreset a ha

lemma visit_inBounds (ss : List Slot) :
    ∀ st, Sealed st → Numbered ss → ∀ a ∈ visitAccesses ss st, a.InBounds := by
  induction ss with
  | nil => exact fun _ _ _ a ha => nomatch ha
  | cons e es ih =>
    intro st hst hseq a ha
    have hreset : ∀ a ∈ LfnAccess.byte 0 :: visitAccesses es st.reset, a.InBounds := fun a ha => by
      rcases List.mem_cons.mp ha with rfl | ha
      · exact byte_zero_inBounds
      · exact ih _ hst.reset hseq.tail a ha
    rw [visitAccesses] at ha
    split_ifs at ha with h0 hE hlfn hlabel
    · cases ha
    · exact hreset a ha
    · rcases List.mem_append.mp ha with ha | ha
      · exact accumulate_inBounds (hseq.head h0 hE hlfn) ha
      · exact ih _ (hst.accumulate e) hseq.tail a ha
    · exact hreset a ha
    · rcases List.mem_append.mp ha with ha | ha
      · exact entry_inBounds hst (show_inBounds 254 0 (by decide)) ha
      · exact hreset a ha

/-- An LFN slot with the sequence number `0` and one character. -/
def unnumberedSlot : Slot := fun j =>
  if j = 0 then 0x40 else if j = 11 then 0x0F else if j = 1 then 0x41 else 0

end

end GordOS.Fat32
