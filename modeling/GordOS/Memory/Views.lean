/-
What the address spaces see of each other (`memory/paging.c`).

Every address space is seen by one process. The changes that the calls make are followed
through what the other processes see.

* `Space.SameView d s s'`: the process with the directory `d` sees the same in `s` and `s'`;
* `Adds.sound`, `Sound.clear`, `Sound.store`, `PartCopy.sound`: **each change of one address
  space keeps the pages apart, and what the others see**.
-/
import Mathlib.Tactic
import GordOS.Memory.AddPages
import GordOS.Memory.Copy

namespace GordOS.Memory

open GordOS
open GordOS.Fat32 (Buf)

namespace Space

/-- The address space `d` has the same pages, with the same contents. -/
structure SameView (d : ℕ) (s s' : Space) : Prop where
  entry : ∀ v, s'.entry d v = s.entry d v
  bytes : ∀ v w, s.entry d v = some w → s'.bytes (frame w) = s.bytes (frame w)

section

variable {s s' s'' : Space} {d d' v f flags src dst : ℕ} {b : Buf} {l : List (ℕ × Buf)}

lemma SameView.refl (d : ℕ) (s : Space) : SameView d s s := ⟨fun _ => rfl, fun _ _ _ => rfl⟩

lemma SameView.trans (h : SameView d s s') (h' : SameView d s' s'') : SameView d s s'' where
  entry v := (h'.entry v).trans (h.entry v)
  bytes v w hw := (h'.bytes v w ((h.entry v).trans hw)).trans (h.bytes v w hw)

/-- **A new page.** -/
lemma NewPage.sound (h : NewPage d v flags f b s s') (hflags : flags < pageSize) (hs : s.Sound)
    (hused : ∀ d v w, s.entry d v = some w → frame w ∉ s.free) :
    s'.Sound ∧ (∀ d' ≠ d, SameView d' s s') ∧
      ∀ d v w, s'.entry d v = some w → frame w ∉ s'.free := by
  have hold : ∀ d' v' w', s.entry d' v' = some w' → frame w' ≠ f := fun d' v' w' hw' e =>
    hused d' v' w' hw' (e ▸ h.mem)
  refine ⟨⟨fun d₁ v₁ w₁ d₂ v₂ w₂ hw₁ hw₂ he => ?_, fun d' v' w' hw' => ?_⟩, fun d' hd =>
    ⟨fun v' => h.entry_ne fun e => hd e.1, fun v' w' hw' => h.bytes_ne (hold d' v' w' hw')⟩,
    fun d' v' w' hw' hfree => ?_⟩
  · rcases h.entry_cases hflags hw₁ with ⟨rfl, rfl, hf₁, -⟩ | ⟨-, hw₁⟩
    · rcases h.entry_cases hflags hw₂ with ⟨rfl, rfl, -, -⟩ | ⟨-, hw₂⟩
      · exact ⟨rfl, rfl⟩
      · exact absurd (he.symm.trans hf₁) (hold _ _ _ hw₂)
    · rcases h.entry_cases hflags hw₂ with ⟨-, -, hf₂, -⟩ | ⟨-, hw₂⟩
      · exact absurd (he.trans hf₂) (hold _ _ _ hw₁)
      · exact hs.distinct _ _ _ _ _ _ hw₁ hw₂ he
  · rcases h.entry_cases hflags hw' with ⟨-, -, hf, -⟩ | ⟨-, hw'⟩
    · exact hf ▸ h.nonzero
    · exact hs.nonzero _ _ _ hw'
  · obtain ⟨hne, hfree⟩ := h.mem_free.mp hfree
    rcases h.entry_cases hflags hw' with ⟨-, -, hf, -⟩ | ⟨-, hw'⟩
    · exact hne hf
    · exact hused _ _ _ hw' hfree

/-- **New pages, one after the other.** -/
lemma Adds.sound (h : Adds d flags l s s') (hflags : flags < pageSize) (hs : s.Sound)
    (hused : ∀ d v w, s.entry d v = some w → frame w ∉ s.free) :
    s'.Sound ∧ ∀ d' ≠ d, SameView d' s s' := by
  induction h with
  | nil s => exact ⟨hs, fun d' _ => .refl d' s⟩
  | cons hnew _ ih =>
    obtain ⟨hs₁, hview₁, hused₁⟩ := hnew.sound hflags hs hused
    obtain ⟨hs', hview⟩ := ih hs₁ hused₁
    exact ⟨hs', fun d' hd => (hview₁ d' hd).trans (hview d' hd)⟩

/-- **The end of an address space.** -/
lemma Sound.clear (h : s.Sound) (hcov : s.Covered) :
    (s.clear d).Sound ∧ ∀ d' ≠ d, SameView d' s (s.clear d) := by
  refine ⟨h.anti fun d' v w hw => ?_, fun d' hne => ⟨fun v => ?_, fun _ _ _ => ?_⟩⟩
  · rw [entry_clear hcov] at hw
    split at hw
    · cases hw
    · exact hw
  · rw [entry_clear hcov, if_neg hne]
  · rw [bytes_clear hcov]

lemma Sound.destroy (h : s.Sound) (hcov : s.Covered) :
    (s.destroy d).Sound ∧ ∀ d' ≠ d, SameView d' s (s.destroy d) := by
  obtain ⟨hs, hview⟩ := h.clear (d := d) hcov
  rw [Space.destroy]
  generalize s.clear d = s' at hs hview
  exact ⟨hs.anti fun _ _ _ => id, fun d' hne => ⟨(hview d' hne).entry, (hview d' hne).bytes⟩⟩

/-- **A byte that a program stores.** -/
lemma Sound.store (h : s.Sound) (d a : ℕ) (x : UInt8) :
    (s.store d a x).Sound ∧ ∀ d' ≠ d, SameView d' s (s.store d a x) := by
  refine ⟨h.anti fun _ _ _ => id, fun d' hne => ⟨fun _ => rfl, fun v w hw => ?_⟩⟩
  rw [Space.store]
  cases hw₀ : s.entry d (a / pageSize) with
  | none => rfl
  | some w₀ =>
    refine Function.update_of_ne (fun he => hne ?_) _ _
    exact (h.distinct _ _ _ _ _ _ hw hw₀ he).1

/-- A new directory has no pages yet. -/
lemma create_same (h : create s = (some d, s')) :
    s'.entry = s.entry ∧ s'.bytes = s.bytes ∧ s'.free = s.free := by
  rw [create] at h
  split at h
  · cases h
  · obtain ⟨-, rfl⟩ := Prod.mk.inj h
    exact ⟨rfl, rfl, rfl⟩

end

end Space

/-- A copy of one process to an empty one. -/
lemma Shows.partCopy {L : Layout} {dirs : List ℕ} {m : Mem} {s : Space} {src dst : ℕ}
    (h : Shows True L dirs m s) (hsrc : src ∈ dirs) (hne : src ≠ dst)
    (hempty : ∀ v, s.entry dst v = none) :
    ∃ r s', Space.copy src dst s = (r, s') ∧ PartCopy src dst s s' ∧
      (r = some () → ∀ v < userPages, (s'.entry dst v).isSome = (s.entry src v).isSome) := by
  refine partCopy_copy hne (h.zero trivial) (fun v w hw => ⟨?_, h.used trivial src v w hw⟩) hempty
  rw [h.entry src hsrc v (h.entry_in hw).2] at hw
  exact Mem.entry_present hw

/-- **Copied pages.** -/
lemma PartCopy.sound {s s' : Space} {src dst : ℕ} (h : PartCopy src dst s s') (hs : s.Sound)
    (hzero : 0 ∉ s.free) (hused : ∀ d v w, s.entry d v = some w → frame w ∉ s.free) :
    s'.Sound ∧ ∀ d' ≠ dst, Space.SameView d' s s' := by
  -- the copies lie on pages that were free, and all other mapped pages were in use
  have hnew : ∀ v w, s'.entry dst v = some w → frame w ∈ s.free := fun v w hw =>
    (h.free _).mpr (.inr ⟨v, w, hw, rfl⟩)
  have hold : ∀ d v w, d ≠ dst → s'.entry d v = some w → s.entry d v = some w :=
    fun d v w hd hw => (h.other d v hd).symm.trans hw
  refine ⟨⟨fun d₁ v₁ w₁ d₂ v₂ w₂ hw₁ hw₂ he => ?_, fun d v w hw => ?_⟩,
    fun d hd => ⟨fun v => h.other d v hd, fun v w hw => h.bytes _ (hused d v w hw)⟩⟩
  · by_cases hd₁ : d₁ = dst
    · subst hd₁
      by_cases hd₂ : d₂ = d₁
      · subst hd₂
        exact ⟨rfl, h.distinct _ _ _ _ hw₁ hw₂ he⟩
      · exact absurd (he ▸ hnew _ _ hw₁) (hused _ _ _ (hold _ _ _ hd₂ hw₂))
    · by_cases hd₂ : d₂ = dst
      · subst hd₂
        exact absurd (he ▸ hnew _ _ hw₂) (hused _ _ _ (hold _ _ _ hd₁ hw₁))
      · exact hs.distinct _ _ _ _ _ _ (hold _ _ _ hd₁ hw₁) (hold _ _ _ hd₂ hw₂) he
  · by_cases hd : d = dst
    · subst hd
      exact fun e => hzero (e ▸ hnew v w hw)
    · exact hs.nonzero _ _ _ (hold d v w hd hw)

end GordOS.Memory
