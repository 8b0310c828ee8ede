/-
Address spaces as maps: what `memory/paging.c` is for.

An address space is a map from virtual pages to entries. Behind the maps there are the
tables that hold the entries, which come from a stack of free ones, and the set of free
pages. The contents of free pages are not part of the model.

* `Space`: the maps, the free tables and the free pages;
* `Space.mapIn`, `Space.addPage`, `Space.copy`, `Space.store`, `Space.create`, `Space.clear`,
  `Space.destroy`: what the calls do, with the outcomes they have;
* `Space.ensure_cases`, `Space.addPage_cases`, `Space.addPage_spec`: how the mapping of a
  page ends;
* `Space.entry_clear`, `Space.free_clear`, ...: the end of an address space.
-/
import Mathlib.Tactic
import GordOS.Memory.Paging

namespace GordOS.Memory

open GordOS Fallible
open GordOS.Fat32 (Buf)

/-- The number of pages of the user half. -/
def userPages : ℕ := 768 * 1024

/-- A map changed at one place. -/
def setAt {α : Type} (f : ℕ → ℕ → α) (a b : ℕ) (x : α) : ℕ → ℕ → α := fun c d =>
  if c = a ∧ d = b then x else f c d

/-- The free tables, the tables of the entries of each directory, the entries of each
address space, the free pages, and the contents of the pages in use. -/
structure Space where
  pool : List ℕ
  tab : ℕ → ℕ → Option ℕ
  entry : ℕ → ℕ → Option ℕ
  free : Finset ℕ
  bytes : ℕ → Buf

/-- The page that is handed out next: above the identity-mapped region, if there is one. -/
def nextFree (free : Finset ℕ) : Option ℕ :=
  ((List.range' identityMappedPages (maxPages - identityMappedPages)).find?
      fun f => decide (f ∈ free)).or
    ((List.range' 0 identityMappedPages).find? fun f => decide (f ∈ free))

namespace Space

/-! ### The calls -/

/-- A directory entry gets a table, if it has none. -/
def ensure (d i : ℕ) : Fallible Space Unit := fun s =>
  match s.tab d i, s.pool with
  | some _, _ => (some (), s)
  | none, [] => (none, s)
  | none, t :: ts => (some (), { s with pool := ts, tab := setAt s.tab d i (some t) })

/-- The entry of a virtual page is set. -/
def setEntry (d v w : ℕ) (s : Space) : Space := { s with entry := setAt s.entry d v (some w) }

/-- A page is mapped. -/
def mapIn (d v w : ℕ) : Fallible Space Unit := do
  ensure d (v / 1024)
  modify (setEntry d v w)

/-- The page `f` is in use, with the bytes `b`. -/
def take (f : ℕ) (b : Buf) (s : Space) : Space :=
  { s with free := s.free.erase f, bytes := Function.update s.bytes f b }

/-- A new page with the bytes `b` is mapped: there is no free page (the page `0` counts as
none, but is taken), there is no table, or the next free page is. -/
def addPage (d v flags : ℕ) (b : Buf) : Fallible Space Unit := fun s =>
  match nextFree s.free with
  | none => (none, s)
  | some 0 => (none, { s with free := s.free.erase 0 })
  | some (f + 1) =>
    match mapIn d v (entryWord ((f + 1) * pageSize) flags) s with
    | (none, s') => (none, s')
    | (some _, s') => (some (), s'.take (f + 1) b)

/-- A page of an address space is copied to another one. -/
def copyPage (src dst v : ℕ) : Fallible Space Unit := fun s =>
  match s.entry src v with
  | none => (some (), s)
  | some w => addPage dst v (w % pageSize) (s.bytes (frame w)) s

/-- All pages of an address space are copied to another one. -/
def copy (src dst : ℕ) : Fallible Space Unit :=
  (List.range 768).forM fun i => (List.range 1024).forM fun j => copyPage src dst (i * 1024 + j)

/-- A byte of an address space is stored, if there is a page. -/
def store (d a : ℕ) (x : UInt8) (s : Space) : Space :=
  { s with
    bytes := (s.entry d (a / pageSize)).elim s.bytes fun w =>
      Function.update s.bytes (frame w) (Function.update (s.bytes (frame w)) (a % pageSize) x) }

/-- The pages that entry `i` of a directory leads to. -/
def framesIn (s : Space) (d i : ℕ) : Finset ℕ :=
  (Finset.range 1024).biUnion fun j => (s.entry d (i * 1024 + j)).elim ∅ fun w => {frame w}

/-- An entry of a directory is cleared: its table and its pages are free. -/
def clearTab (d : ℕ) (s : Space) (i : ℕ) : Space :=
  match s.tab d i with
  | none => s
  | some t =>
    { s with
      pool := t :: s.pool
      tab := setAt s.tab d i none
      entry := fun d' v => if d' = d ∧ v / 1024 = i then none else s.entry d' v
      free := s.free ∪ s.framesIn d i }

/-- An address space is cleared. -/
def clear (d : ℕ) (s : Space) : Space := (List.range 768).foldl (clearTab d) s

/-- A directory with an empty address space. -/
def create : Fallible Space ℕ := fun s =>
  match s.pool with
  | [] => (none, s)
  | d :: ts => (some d, { s with pool := ts })

/-- An address space ends, and its directory is free as well. -/
def destroy (d : ℕ) (s : Space) : Space := { s.clear d with pool := d :: (s.clear d).pool }

end Space

section

variable {s : Space} {d d' v v' i j f w flags : ℕ} {b : Buf} {free : Finset ℕ}

lemma setAt_self {α : Type} (g : ℕ → ℕ → α) (a c : ℕ) (x : α) : setAt g a c x a c = x :=
  if_pos ⟨rfl, rfl⟩

lemma setAt_of_ne {α : Type} (g : ℕ → ℕ → α) {a c a' c' : ℕ} (x : α) (h : ¬ (a' = a ∧ c' = c)) :
    setAt g a c x a' c' = g a' c' := if_neg h

lemma lt_userPages (hi : i < 768) (hj : j < 1024) : i * 1024 + j < userPages := by
  rw [userPages]
  omega

/-! ### New pages -/

lemma nextFree_mem (h : nextFree free = some f) : f ∈ free := by
  rcases Option.or_eq_some_iff.mp h with h | ⟨-, h⟩
  · simpa using List.find?_some h
  · simpa using List.find?_some h

lemma nextFree_none (h : nextFree free = none) (hf : f < maxPages) : f ∉ free := by
  obtain ⟨h₁, h₂⟩ := Option.or_eq_none_iff.mp h
  rw [List.find?_eq_none] at h₁ h₂
  by_cases hlow : f < identityMappedPages
  · simpa using h₂ f (List.mem_range'_1.mpr ⟨Nat.zero_le f, by omega⟩)
  · exact by simpa using h₁ f (List.mem_range'_1.mpr ⟨by omega, by omega⟩)

namespace Space

/-- A directory entry has a table, or there is none free, or it gets one. -/
lemma ensure_cases (s : Space) (d i : ℕ) : (∃ t, s.tab d i = some t ∧ ensure d i s = (some (), s)) ∨
    (s.tab d i = none ∧ s.pool = [] ∧ ensure d i s = (none, s)) ∨
    ∃ t ts, s.tab d i = none ∧ s.pool = t :: ts ∧
      ensure d i s = (some (), { s with pool := ts, tab := setAt s.tab d i (some t) }) := by
  cases ht : s.tab d i with
  | some t => exact .inl ⟨t, rfl, by rw [ensure, ht]⟩
  | none =>
    cases hp : s.pool with
    | nil => exact .inr (.inl ⟨rfl, rfl, by rw [ensure, ht, hp]⟩)
    | cons t ts => exact .inr (.inr ⟨t, ts, rfl, rfl, by rw [ensure, ht, hp]⟩)

/-- The tables after a directory entry has got one: nothing else has changed. -/
structure Ensured (d i : ℕ) (s s' : Space) : Prop where
  ensure : Space.ensure d i s = (some (), s')
  tab : ∃ t, s'.tab d i = some t
  other : ∀ d' i', ¬ (d' = d ∧ i' = i) → s'.tab d' i' = s.tab d' i'
  keep : ∀ t, s.tab d i = some t → s'.tab d i = some t
  entry : s'.entry = s.entry
  free : s'.free = s.free
  bytes : s'.bytes = s.bytes

lemma ensured_or (s : Space) (d i : ℕ) :
    (s.tab d i = none ∧ s.pool = [] ∧ ensure d i s = (none, s)) ∨ ∃ s', Ensured d i s s' := by
  rcases ensure_cases s d i with ⟨t, ht, he⟩ | h | ⟨t, ts, ht, hp, he⟩
  · exact .inr ⟨s, he, ⟨t, ht⟩, fun _ _ _ => rfl, fun _ h => h, rfl, rfl, rfl⟩
  · exact .inl h
  · refine .inr ⟨_, he, ⟨t, setAt_self _ _ _ _⟩, fun d' i' h => setAt_of_ne _ _ h,
      fun t' ht' => ?_, rfl, rfl, rfl⟩
    rw [ht] at ht'
    cases ht'

lemma mapIn_of_ensured {s' : Space} (h : Ensured d (v / 1024) s s') :
    mapIn d v w s = (some (), s'.setEntry d v w) := by
  rw [mapIn, bind_of_some h.ensure, modify_apply]

lemma mapIn_of_none (h : ensure d (v / 1024) s = (none, s)) : mapIn d v w s = (none, s) := by
  rw [mapIn, bind_of_none h]

/-- **How a new page is mapped.** -/
inductive Added (s : Space) (d v flags : ℕ) (b : Buf) : Option Unit × Space → Prop where
  | full (h : nextFree s.free = none) : Added s d v flags b (none, s)
  | zero (h : nextFree s.free = some 0) :
      Added s d v flags b (none, { s with free := s.free.erase 0 })
  | noTable (f : ℕ) (h : nextFree s.free = some f) (hf : f ≠ 0)
      (ht : s.tab d (v / 1024) = none) (hp : s.pool = []) : Added s d v flags b (none, s)
  | page (f : ℕ) (s' : Space) (h : nextFree s.free = some f) (hf : f ≠ 0)
      (he : Ensured d (v / 1024) s s') :
      Added s d v flags b
        (some (), (s'.setEntry d v (entryWord (f * pageSize) flags)).take f b)

lemma addPage_full (h : nextFree s.free = none) : addPage d v flags b s = (none, s) := by
  rw [addPage, h]

lemma addPage_zero (h : nextFree s.free = some 0) :
    addPage d v flags b s = (none, { s with free := s.free.erase 0 }) := by
  rw [addPage, h]

lemma addPage_noTable (h : nextFree s.free = some f) (hf : f ≠ 0)
    (he : ensure d (v / 1024) s = (none, s)) : addPage d v flags b s = (none, s) := by
  obtain ⟨k, rfl⟩ := Nat.exists_eq_succ_of_ne_zero hf
  rw [addPage, h]
  dsimp only
  rw [mapIn_of_none he]

lemma addPage_page {s' : Space} (h : nextFree s.free = some f) (hf : f ≠ 0)
    (he : Ensured d (v / 1024) s s') : addPage d v flags b s =
      (some (), (s'.setEntry d v (entryWord (f * pageSize) flags)).take f b) := by
  obtain ⟨k, rfl⟩ := Nat.exists_eq_succ_of_ne_zero hf
  rw [addPage, h]
  dsimp only
  rw [mapIn_of_ensured he]

lemma addPage_cases (s : Space) (d v flags : ℕ) (b : Buf) :
    Added s d v flags b (addPage d v flags b s) := by
  rcases hn : nextFree s.free with _ | f
  · rw [addPage_full hn]
    exact .full hn
  by_cases hf : f = 0
  · rw [hf] at hn
    rw [addPage_zero hn]
    exact .zero hn
  · rcases ensured_or s d (v / 1024) with ⟨ht, hp, he⟩ | ⟨s', he⟩
    · rw [addPage_noTable hn hf he]
      exact .noTable f hn hf ht hp
    · rw [addPage_page hn hf he]
      exact .page f s' hn hf he

/-- A page has been added: the page `f`, which was free, is mapped at `v` and holds `b`. -/
structure NewPage (d v flags f : ℕ) (b : Buf) (s s' : Space) : Prop where
  mem : f ∈ s.free
  nonzero : f ≠ 0
  entry : s'.entry = setAt s.entry d v (some (entryWord (f * pageSize) flags))
  free : s'.free = s.free.erase f
  bytes : s'.bytes = Function.update s.bytes f b

/-- The page `f` is mapped in an address space. -/
def Maps (s : Space) (d f : ℕ) : Prop := ∃ v w, s.entry d v = some w ∧ frame w = f

namespace NewPage

variable {s' : Space}

lemma entry_self (h : NewPage d v flags f b s s') :
    s'.entry d v = some (entryWord (f * pageSize) flags) := by
  rw [h.entry, setAt_self]

lemma entry_ne (h : NewPage d v flags f b s s') (hne : ¬ (d' = d ∧ v' = v)) :
    s'.entry d' v' = s.entry d' v' := by
  rw [h.entry, setAt_of_ne _ _ hne]

/-- An entry is the new one, or was there before. -/
lemma entry_cases (h : NewPage d v flags f b s s') (hflags : flags < pageSize)
    (hw : s'.entry d' v' = some w) :
    (d' = d ∧ v' = v ∧ frame w = f ∧ w % pageSize = flags ||| 1) ∨
    (¬ (d' = d ∧ v' = v) ∧ s.entry d' v' = some w) := by
  by_cases hk : d' = d ∧ v' = v
  · rw [hk.1, hk.2, h.entry_self] at hw
    obtain rfl := Option.some.inj hw
    exact .inl ⟨hk.1, hk.2, frame_newPage f hflags, mod_newPage f hflags⟩
  · rw [h.entry_ne hk] at hw
    exact .inr ⟨hk, hw⟩

lemma mem_free (h : NewPage d v flags f b s s') {g : ℕ} : g ∈ s'.free ↔ g ≠ f ∧ g ∈ s.free := by
  rw [h.free, Finset.mem_erase]

lemma bytes_self (h : NewPage d v flags f b s s') : s'.bytes f = b := by
  rw [h.bytes, Function.update_self]

lemma bytes_ne (h : NewPage d v flags f b s s') {g : ℕ} (hg : g ≠ f) : s'.bytes g = s.bytes g := by
  rw [h.bytes, Function.update_of_ne hg]

/-- At a place that was free, the page joins the pages of the address space. -/
lemma maps_iff (h : NewPage d v flags f b s s') (hflags : flags < pageSize)
    (hnone : s.entry d v = none) {g : ℕ} : s'.Maps d' g ↔ d' = d ∧ g = f ∨ s.Maps d' g := by
  constructor
  · rintro ⟨v', w, hw, rfl⟩
    rcases h.entry_cases hflags hw with ⟨hd, -, hf, -⟩ | ⟨-, hw⟩
    · exact .inl ⟨hd, hf⟩
    · exact .inr ⟨v', w, hw, rfl⟩
  · rintro (⟨rfl, rfl⟩ | ⟨v', w, hw, rfl⟩)
    · exact ⟨v, _, h.entry_self, frame_newPage g hflags⟩
    · refine ⟨v', w, ?_, rfl⟩
      rw [h.entry_ne, hw]
      rintro ⟨rfl, rfl⟩
      rw [hnone] at hw
      cases hw

end NewPage

lemma newPage_of_ensured {s' : Space} (hmem : f ∈ s.free) (hf : f ≠ 0)
    (he : Ensured d (v / 1024) s s') : NewPage d v flags f b s
      ((s'.setEntry d v (entryWord (f * pageSize) flags)).take f b) where
  mem := hmem
  nonzero := hf
  entry := congrArg (fun e => setAt e d v (some (entryWord (f * pageSize) flags))) he.entry
  free := congrArg (Finset.erase · f) he.free
  bytes := by
    show Function.update s'.bytes f b = _
    rw [he.bytes]

/-- If the page `0` is not free, a page is added or nothing happens. -/
lemma addPage_spec (h : 0 ∉ s.free) (d v flags : ℕ) (b : Buf) : addPage d v flags b s = (none, s) ∨
    ∃ f s', addPage d v flags b s = (some (), s') ∧ NewPage d v flags f b s s' := by
  rcases hadd : addPage d v flags b s with ⟨r, s₁⟩
  have hcases := addPage_cases s d v flags b
  rw [hadd] at hcases
  cases hcases with
  | full hn => exact .inl rfl
  | zero hn => exact absurd (nextFree_mem hn) h
  | noTable f hn hf ht hp => exact .inl rfl
  | page f s' hn hf he => exact .inr ⟨f, _, rfl, newPage_of_ensured (nextFree_mem hn) hf he⟩

/-- A table is found or not whatever pages are in use. -/
lemma ensure_take (s : Space) (d i f : ℕ) (b : Buf) :
    ensure d i (s.take f b) = ((ensure d i s).1, (ensure d i s).2.take f b) := by
  rcases ensure_cases s d i with ⟨t, ht, he⟩ | ⟨ht, hp, he⟩ | ⟨t, ts, ht, hp, he⟩
  · rw [he, ensure, show (s.take f b).tab d i = some t from ht]
  · rw [he, ensure, show (s.take f b).tab d i = none from ht, show (s.take f b).pool = [] from hp]
  · rw [he, ensure, show (s.take f b).tab d i = none from ht,
      show (s.take f b).pool = t :: ts from hp]
    rfl

/-! ### The end of an address space -/

/-- No page is mapped twice, and the page `0` not at all. -/
structure Sound (s : Space) : Prop where
  distinct : ∀ d v w d' v' w', s.entry d v = some w → s.entry d' v' = some w' →
    frame w = frame w' → d = d' ∧ v = v'
  nonzero : ∀ d v w, s.entry d v = some w → frame w ≠ 0

/-- Fewer pages are mapped. -/
lemma Sound.anti {s' : Space} (h : s.Sound)
    (hsub : ∀ d v w, s'.entry d v = some w → s.entry d v = some w) : s'.Sound where
  distinct d v w d' v' w' hw hw' := h.distinct d v w d' v' w' (hsub d v w hw) (hsub d' v' w' hw')
  nonzero d v w hw := h.nonzero d v w (hsub d v w hw)

lemma mem_framesIn : f ∈ s.framesIn d i ↔
    ∃ j < 1024, ∃ w, s.entry d (i * 1024 + j) = some w ∧ frame w = f := by
  rw [framesIn, Finset.mem_biUnion]
  refine exists_congr fun j => ?_
  rw [Finset.mem_range]
  refine and_congr_right fun _ => ?_
  cases s.entry d (i * 1024 + j) with
  | none => simp
  | some w => simp [eq_comm]

/-- The entries of an address space lie in its tables. -/
def Covered (s : Space) : Prop :=
  ∀ d v w, s.entry d v = some w → v < userPages ∧ ∃ t, s.tab d (v / 1024) = some t

lemma entry_clearTab (h : s.Covered) :
    (s.clearTab d i).entry d' v = if d' = d ∧ v / 1024 = i then none else s.entry d' v := by
  rw [clearTab]
  split
  · next ht =>
    split
    · next hk =>
      cases he : s.entry d' v with
      | none => rfl
      | some w =>
        obtain ⟨-, t, ht'⟩ := h d' v w he
        rw [hk.1, hk.2, ht] at ht'
        cases ht'
    · rfl
  · rfl

lemma entry_of_clearTab (h : s.Covered) (hw : (s.clearTab d i).entry d' v = some w) :
    ¬ (d' = d ∧ v / 1024 = i) ∧ s.entry d' v = some w := by
  rw [entry_clearTab h] at hw
  split at hw
  · cases hw
  · next hk => exact ⟨hk, hw⟩

lemma tab_clearTab : (s.clearTab d i).tab = setAt s.tab d i none := by
  rw [clearTab]
  split
  · next ht =>
    funext d' i'
    by_cases hk : d' = d ∧ i' = i
    · rw [hk.1, hk.2, setAt_self, ht]
    · rw [setAt_of_ne _ _ hk]
  · rfl

lemma bytes_clearTab : (s.clearTab d i).bytes = s.bytes := by
  rw [clearTab]
  split <;> rfl

lemma free_clearTab (h : s.Covered) : f ∈ (s.clearTab d i).free ↔
    f ∈ s.free ∨ ∃ v, v / 1024 = i ∧ ∃ w, s.entry d v = some w ∧ frame w = f := by
  have hiff : (∃ j < 1024, ∃ w, s.entry d (i * 1024 + j) = some w ∧ frame w = f) ↔
      ∃ v, v / 1024 = i ∧ ∃ w, s.entry d v = some w ∧ frame w = f := by
    constructor
    · rintro ⟨j, hj, hw⟩
      exact ⟨i * 1024 + j, by omega, hw⟩
    · rintro ⟨v, rfl, hw⟩
      exact ⟨v % 1024, Nat.mod_lt _ (by decide), by rwa [Nat.div_add_mod']⟩
  rw [clearTab]
  split
  · next ht =>
    refine ⟨.inl, ?_⟩
    rintro (hf | ⟨v, rfl, w, hw, -⟩)
    · exact hf
    · obtain ⟨-, t, ht'⟩ := h d v w hw
      rw [ht] at ht'
      cases ht'
  · rw [Finset.mem_union, mem_framesIn, hiff]

lemma Covered.clearTab (h : s.Covered) : (s.clearTab d i).Covered := by
  intro d' v w hw
  rw [entry_clearTab h] at hw
  split at hw
  · cases hw
  · next hk =>
    obtain ⟨hv, t, ht⟩ := h d' v w hw
    exact ⟨hv, t, by rw [tab_clearTab, setAt_of_ne _ _ hk, ht]⟩

/-- Several entries of a directory are cleared. -/
lemma foldl_clearTab (l : List ℕ) (h : s.Covered) : (l.foldl (clearTab d) s).Covered ∧
    (∀ d' v, (l.foldl (clearTab d) s).entry d' v =
      if d' = d ∧ v / 1024 ∈ l then none else s.entry d' v) ∧
    (∀ d' i, (l.foldl (clearTab d) s).tab d' i =
      if d' = d ∧ i ∈ l then none else s.tab d' i) ∧
    (l.foldl (clearTab d) s).bytes = s.bytes ∧
    ∀ f, f ∈ (l.foldl (clearTab d) s).free ↔
      f ∈ s.free ∨ ∃ v, v / 1024 ∈ l ∧ ∃ w, s.entry d v = some w ∧ frame w = f := by
  induction l generalizing s with
  | nil => exact ⟨h, by simp, by simp, rfl, by simp⟩
  | cons i l ih =>
    obtain ⟨h₁, hentry, htab, hbytes, hfree⟩ := ih (s := s.clearTab d i) h.clearTab
    refine ⟨h₁, fun d' v => ?_, fun d' k => ?_, hbytes.trans bytes_clearTab, fun f => ?_⟩
    · rw [List.foldl_cons, hentry, entry_clearTab h]
      by_cases hd : d' = d
      · by_cases hv : v / 1024 ∈ l
        · simp [hd, hv]
        · simp [hd, hv]
      · simp [hd]
    · rw [List.foldl_cons, htab, tab_clearTab]
      by_cases hd : d' = d
      · by_cases hk : k ∈ l
        · simp [hd, hk]
        · by_cases hki : k = i
          · rw [hki, hd, setAt_self]
            simp
          · rw [setAt_of_ne _ _ fun e => hki e.2]
            simp [hki, hk]
      · rw [setAt_of_ne _ _ fun e => hd e.1]
        simp [hd]
    · rw [List.foldl_cons, hfree, free_clearTab h]
      constructor
      · rintro ((hf | ⟨v, hv, hw⟩) | ⟨v, hv, w, hw, hf⟩)
        · exact .inl hf
        · exact .inr ⟨v, hv ▸ List.mem_cons_self, hw⟩
        · rw [entry_clearTab h] at hw
          split at hw
          · cases hw
          · exact .inr ⟨v, List.mem_cons_of_mem i hv, w, hw, hf⟩
      · rintro (hf | ⟨v, hv, w, hw, hf⟩)
        · exact .inl (.inl hf)
        · by_cases hvi : v / 1024 = i
          · exact .inl (.inr ⟨v, hvi, w, hw, hf⟩)
          · refine .inr ⟨v, (List.mem_cons.mp hv).resolve_left hvi, w, ?_, hf⟩
            rw [entry_clearTab h, if_neg fun e => hvi e.2, hw]

lemma div_mem_range (hv : v < userPages) : v / 1024 ∈ List.range 768 := by
  rw [List.mem_range]
  rw [userPages] at hv
  omega

/-- **A cleared address space is empty**, and the others are as they were. -/
lemma entry_clear (h : s.Covered) :
    (s.clear d).entry d' v = if d' = d then none else s.entry d' v := by
  rw [clear, (foldl_clearTab _ h).2.1]
  by_cases hd : d' = d
  · cases hw : s.entry d' v with
    | none => simp
    | some w => rw [if_pos ⟨hd, div_mem_range (h d' v w hw).1⟩, if_pos hd]
  · rw [if_neg fun e => hd e.1, if_neg hd]

/-- **Its pages are free.** -/
lemma free_clear (h : s.Covered) : f ∈ (s.clear d).free ↔
    f ∈ s.free ∨ ∃ v w, s.entry d v = some w ∧ frame w = f := by
  rw [clear, (foldl_clearTab _ h).2.2.2.2]
  refine or_congr_right ⟨?_, ?_⟩
  · rintro ⟨v, -, hw⟩
    exact ⟨v, hw⟩
  · rintro ⟨v, w, hw, hf⟩
    exact ⟨v, div_mem_range (h d v w hw).1, w, hw, hf⟩

lemma tab_clear (h : s.Covered) : (s.clear d).tab d' i =
    if d' = d ∧ i < 768 then none else s.tab d' i := by
  rw [clear, (foldl_clearTab _ h).2.2.1]
  simp only [List.mem_range]

lemma bytes_clear (h : s.Covered) : (s.clear d).bytes = s.bytes :=
  (foldl_clearTab _ h).2.2.2.1

end Space

end

end GordOS.Memory
