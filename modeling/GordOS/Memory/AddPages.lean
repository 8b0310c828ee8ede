/-
Pages added to an address space, one after the other (`memory/paging.c`).

The loader, the stack set-up and `sys_sbrk` map new pages in a loop that stops at the first
page for which there is no memory. The pages mapped by then stay.

* `Space.addPages`: such a loop, over a list of places and contents;
* `Space.Adds d flags l s s'`: the pages of the list `l` have been added;
* `Space.addPages_cases`: **how the loop ends**: with all pages, or with the first of them;
* `Adds.entry_of_ne`, `Adds.bytes_of_notMem`: what stays as it is;
* `Adds.page`: **what the pages hold** if no place comes twice;
* `Space.Room`, `addPages_of_room`: **the loop ends well if there is room** for the pages and
  for the tables they need.
-/
import Mathlib.Tactic
import GordOS.Memory.Space

namespace GordOS.Memory

open GordOS Fallible
open GordOS.Fat32 (Buf)

namespace Space

/-- The pages of a list, given by their places and contents, are mapped. -/
def addPages (d flags : ℕ) (l : List (ℕ × Buf)) : Fallible Space Unit :=
  l.forM fun p => addPage d p.1 flags p.2

/-- The pages of a list have been added to an address space. -/
inductive Adds (d flags : ℕ) : List (ℕ × Buf) → Space → Space → Prop where
  | nil (s : Space) : Adds d flags [] s s
  | cons {v f : ℕ} {b : Buf} {l : List (ℕ × Buf)} {s s₁ s' : Space}
      (hnew : NewPage d v flags f b s s₁) (h : Adds d flags l s₁ s') :
      Adds d flags ((v, b) :: l) s s'

section

variable {d d' flags v w f : ℕ} {b : Buf} {l : List (ℕ × Buf)} {s s' : Space}

lemma addPages_cons (p : ℕ × Buf) : addPages d flags (p :: l) =
    (addPage d p.1 flags p.2 >>= fun _ => addPages d flags l) := rfl

/-- **How a loop that adds pages ends**: with all of them, or with the first ones. -/
lemma addPages_cases (l : List (ℕ × Buf)) (hzero : 0 ∉ s.free) :
    (∃ s', addPages d flags l s = (some (), s') ∧ Adds d flags l s s') ∨
    ∃ s' l', addPages d flags l s = (none, s') ∧ l' <+: l ∧ Adds d flags l' s s' := by
  induction l generalizing s with
  | nil => exact .inl ⟨s, rfl, .nil s⟩
  | cons p l ih =>
    obtain ⟨v, b⟩ := p
    rw [addPages_cons]
    rcases addPage_spec hzero d v flags b with hadd | ⟨f, s₁, hadd, hnew⟩
    · exact .inr ⟨s, [], bind_of_none hadd, List.nil_prefix, .nil s⟩
    · rw [bind_of_some hadd]
      rcases ih (s := s₁) fun hz => hzero (hnew.mem_free.mp hz).2 with
        ⟨s', hrun, h⟩ | ⟨s', l', hrun, hl', h⟩
      · exact .inl ⟨s', hrun, .cons hnew h⟩
      · exact .inr ⟨s', (v, b) :: l', hrun, List.cons_prefix_cons.mpr ⟨rfl, hl'⟩, .cons hnew h⟩

namespace Adds

lemma mem_of_mem_free (h : Adds d flags l s s') (hf : f ∈ s'.free) : f ∈ s.free := by
  induction h with
  | nil => exact hf
  | cons hnew _ ih => exact (hnew.mem_free.mp (ih hf)).2

/-- Pages in use keep their contents. -/
lemma bytes_of_notMem (h : Adds d flags l s s') (hf : f ∉ s.free) : s'.bytes f = s.bytes f := by
  induction h with
  | nil => rfl
  | cons hnew _ ih =>
    have hne : f ≠ _ := fun e => hf (e ▸ hnew.mem)
    rw [ih fun hc => hf (hnew.mem_free.mp hc).2, hnew.bytes_ne hne]

/-- Other places are as they were. -/
lemma entry_of_ne (h : Adds d flags l s s') (hne : d' = d → v ∉ l.map Prod.fst) :
    s'.entry d' v = s.entry d' v := by
  induction h with
  | nil => rfl
  | cons hnew _ ih =>
    rw [List.map_cons] at hne
    rw [ih fun e hv => hne e (List.mem_cons_of_mem _ hv),
      hnew.entry_ne fun e => hne e.1 (e.2 ▸ List.mem_cons_self)]

/-- **What the new pages hold**, if no place comes twice. -/
lemma page (h : Adds d flags l s s') (hflags : flags < pageSize) (hl : (l.map Prod.fst).Nodup)
    (hmem : (v, b) ∈ l) : ∃ w, s'.entry d v = some w ∧ frame w ∉ s'.free ∧
      s'.bytes (frame w) = b := by
  induction h with
  | nil => exact absurd hmem List.not_mem_nil
  | @cons _ f _ _ _ _ _ hnew h ih =>
    obtain ⟨hv, hl⟩ := List.nodup_cons.mp hl
    rcases List.mem_cons.mp hmem with he | hmem
    · obtain ⟨rfl, rfl⟩ := Prod.mk.inj he
      have hframe := frame_newPage f hflags
      refine ⟨_, (h.entry_of_ne fun _ => hv).trans hnew.entry_self, fun hc => ?_, ?_⟩
      · exact (hnew.mem_free.mp (h.mem_of_mem_free hc)).1 hframe
      · rw [hframe, h.bytes_of_notMem fun hc => (hnew.mem_free.mp hc).1 rfl, hnew.bytes_self]
    · exact ih hl hmem

end Adds

end

/-! ### Room for the pages -/

/-- The directory entries that have no table yet, of those that the places `vs` need. -/
def missing (s : Space) (d : ℕ) (vs : List ℕ) : Finset ℕ :=
  (vs.map (· / 1024)).toFinset.filter fun i => s.tab d i = none

/-- There are enough free pages and free tables for pages at the places `vs`. -/
structure Room (s : Space) (d : ℕ) (vs : List ℕ) : Prop where
  pages : vs.length ≤ s.free.card
  tables : (s.missing d vs).card ≤ s.pool.length

section

variable {d flags v i : ℕ} {b : Buf} {vs : List ℕ} {s s' : Space}

lemma mem_missing : i ∈ s.missing d vs ↔ (∃ v ∈ vs, v / 1024 = i) ∧ s.tab d i = none := by
  rw [missing, Finset.mem_filter, List.mem_toFinset, List.mem_map]

/-- A table for each page is enough. -/
lemma room_of_length (hfree : vs.length ≤ s.free.card) (hpool : vs.length ≤ s.pool.length) :
    s.Room d vs := by
  refine ⟨hfree, ((Finset.card_filter_le _ _).trans (List.toFinset_card_le _)).trans ?_⟩
  rwa [List.length_map]

/-- The entry of the first page has a table then, taken from the pool if there was none. -/
lemma ensured_of_room (h : (s.missing d (v :: vs)).card ≤ s.pool.length) :
    ∃ s', Ensured d (v / 1024) s s' ∧ (s'.missing d vs).card ≤ s'.pool.length := by
  rcases ensured_or s d (v / 1024) with ⟨ht, hp, -⟩ | ⟨s', he⟩
  · have hmiss : v / 1024 ∈ s.missing d (v :: vs) :=
      mem_missing.mpr ⟨⟨v, List.mem_cons_self, rfl⟩, ht⟩
    rw [hp] at h
    exact absurd (Finset.card_pos.mpr ⟨_, hmiss⟩) (Nat.not_lt.mpr h)
  · refine ⟨s', he, ?_⟩
    have hrun := he.ensure
    rcases ensure_cases s d (v / 1024) with ⟨t, ht, hs⟩ | ⟨ht, hp, hs⟩ | ⟨t, ts, ht, hp, hs⟩
    · obtain rfl : s = s' := (Prod.mk.inj (hs.symm.trans hrun)).2
      refine (Finset.card_le_card fun i hi => ?_).trans h
      obtain ⟨⟨x, hx, hxi⟩, hnone⟩ := mem_missing.mp hi
      exact mem_missing.mpr ⟨⟨x, List.mem_cons_of_mem v hx, hxi⟩, hnone⟩
    · cases hs.symm.trans hrun
    · obtain rfl := (Prod.mk.inj (hs.symm.trans hrun)).2
      have hmiss : v / 1024 ∈ s.missing d (v :: vs) :=
        mem_missing.mpr ⟨⟨v, List.mem_cons_self, rfl⟩, ht⟩
      have hsub : missing { s with pool := ts, tab := setAt s.tab d (v / 1024) (some t) } d vs ⊆
          (s.missing d (v :: vs)).erase (v / 1024) := by
        intro i hi
        obtain ⟨⟨x, hx, hxi⟩, hnone⟩ := mem_missing.mp hi
        have hnone : setAt s.tab d (v / 1024) (some t) d i = none := hnone
        have hne : i ≠ v / 1024 := by
          rintro rfl
          rw [setAt_self] at hnone
          cases hnone
        rw [setAt_of_ne _ _ fun e => hne e.2] at hnone
        exact Finset.mem_erase.mpr ⟨hne, mem_missing.mpr
          ⟨⟨x, List.mem_cons_of_mem v hx, hxi⟩, hnone⟩⟩
      have hcard := Finset.card_le_card hsub
      rw [Finset.card_erase_of_mem hmiss] at hcard
      rw [hp, List.length_cons] at h
      exact hcard.trans (Nat.sub_le_of_le_add h)

/-- The first page is mapped, and there is room for the others. -/
lemma addPage_of_room (hzero : 0 ∉ s.free) (hlt : ∀ f ∈ s.free, f < maxPages)
    (h : s.Room d (v :: vs)) (flags : ℕ) (b : Buf) :
    ∃ f s', addPage d v flags b s = (some (), s') ∧ NewPage d v flags f b s s' ∧ s'.Room d vs := by
  have hpages := h.pages
  obtain ⟨g, hg⟩ : s.free.Nonempty := Finset.card_pos.mp (Nat.zero_lt_of_lt hpages)
  obtain ⟨f, hf⟩ := Option.ne_none_iff_exists'.mp fun hn => nextFree_none hn (hlt g hg) hg
  have hmem := nextFree_mem hf
  have hf0 : f ≠ 0 := fun e => hzero (e ▸ hmem)
  obtain ⟨s', he, htables⟩ := ensured_of_room h.tables
  have hnew : NewPage d v flags f b s _ := newPage_of_ensured hmem hf0 he
  refine ⟨f, _, addPage_page hf hf0 he, hnew, ?_, htables⟩
  rw [hnew.free, Finset.card_erase_of_mem hmem]
  exact Nat.le_sub_one_of_lt hpages

/-- **The loop ends well if there is room.** -/
lemma addPages_of_room (l : List (ℕ × Buf)) (hzero : 0 ∉ s.free)
    (hlt : ∀ f ∈ s.free, f < maxPages) (h : s.Room d (l.map Prod.fst)) :
    ∃ s', addPages d flags l s = (some (), s') ∧ Adds d flags l s s' := by
  induction l generalizing s with
  | nil => exact ⟨s, rfl, .nil s⟩
  | cons p l ih =>
    obtain ⟨v, b⟩ := p
    obtain ⟨f, s₁, hrun, hnew, hroom⟩ := addPage_of_room hzero hlt h flags b
    obtain ⟨s', hrun', hadds⟩ := ih (fun hz => hzero (hnew.mem_free.mp hz).2)
      (fun g hg => hlt g (hnew.mem_free.mp hg).2) hroom
    exact ⟨s', (bind_of_some hrun).trans hrun', .cons hnew hadds⟩

end

end Space

end GordOS.Memory
