/-
Looking up and reading a file.

* `fileAt`: the entry of the file a path leads to;
* `spec_lookupFile`, `spec_readFile`: `fat32_lookup_file` finds it, and
  `fat32_read_file` returns its bytes.
-/
import Mathlib.Tactic
import GordOS.Fat32.DirEntries

namespace GordOS.Fat32

open GordOS GordOS.Fallible

section

variable {g : Geom} {E : Env} {v : Vol} {R : List (Head ℕ)} {d : ℕ} {en : Entry}

/-- The entry of the file at a path. -/
def fileAt (g : Geom) (v : Vol) (cwd : ℕ) (path : Name) : Option Entry :=
  (resolve g v cwd path).bind fun p => lookup g v acceptFile p.1 p.2

/-- The chain of a file, and nothing for an empty file without clusters. -/
lemma Inv.file_chain (hI : Inv g v R) (hd : Reach (subOf g v) R d)
    (hen : en ∈ entries g v d) (hf : en.slot.isDir = false) :
    en.slot.cluster = 0 ∨ IsChain g v en.slot.cluster (chainOf g v en.slot.cluster) := by
  rcases Nat.eq_zero_or_pos en.slot.cluster with h0 | hpos
  · exact Or.inl h0
  · have hr := ref_entry hd hen (hI.file_not_dot hd hen hf)
    exact Or.inr (hI.chain _ _ hr (Or.inr (by simp only; omega)))

/-- The reading loop along the chain of a file. -/
lemma det_readFile (hg : g.Valid) (hI : Inv g v R) (hd : Reach (subOf g v) R d)
    (hen : en ∈ entries g v d) (hf : en.slot.isDir = false) (left : ℕ) :
    VDet g E (readFileLoop g g.maxChainLength en.slot.cluster left) v
      (fileBytes g v (chainOf g v en.slot.cluster) left) v := by
  rcases hI.file_chain hd hen hf with h0 | hc
  · have hnil : fileBytes g v (chainOf g v 0) left = [] := by
      rw [chainOf_zero, fileBytes]
      simp
    rw [h0, hnil]
    cases g.maxChainLength with
    | zero => exact Det.pure _
    | succ n =>
      rw [readFileLoop, if_neg (by omega)]
      exact Det.pure _
  · exact det_readFileLoop hg hc _ (hc.length_le hg) left

variable (hg : g.Valid) (hI : Inv g v R)
variable (hroot : Reach (subOf g v) R g.rootCluster)
variable (hcwd : Reach (subOf g v) R E.cwd) (path : Name)

include hg hI hroot hcwd

/-- What a lookup ends with: the file of the path, or the lack of memory. -/
lemma spec_lookupFile : VSpec g E (fat32LookupFile g path) v fun r v' => v' = v ∧
      (∀ x, r = some x → ∃ d en, Reach (subOf g v) R d ∧ en ∈ entries g v d ∧
        en.slot.isDir = false ∧ fileAt g v E.cwd path = some en ∧
        x = (en.slot.cluster, en.slot.size)) ∧
      (E.memOk → r = none → fileAt g v E.cwd path = none) := by
  rw [fat32LookupFile]
  refine (spec_resolvePath hg hI hroot hcwd path).bind ?_ ?_
  · rintro ⟨d, name⟩ v' ⟨rfl, h1, -⟩
    obtain ⟨hres, hd⟩ := h1 _ rfl
    dsimp only
    refine spec_kmalloc.bind ?_ ?_
    · rintro - v' ⟨rfl, -⟩
      have hscan := det_dirScan (E := E) hg acceptFile name (hI.dir_chain hd)
      refine hscan.bind ?_
      have hfile : fileAt g v' E.cwd path
          = (entries g v' d).find? (Entry.wanted acceptFile name) := by
        rw [fileAt, hres, Option.bind_some, lookup]
      rw [hfile]
      cases hf : (entries g v' d).find? (Entry.wanted acceptFile name) with
      | none => exact Spec.fail ⟨rfl, by simp, fun _ _ => rfl⟩
      | some en =>
        obtain ⟨hen, hacc, -⟩ := lookup_mem (hf : lookup g v' acceptFile d name = some en)
        have hidx : en.idx < (chainOf g v' d).length * g.entriesPerCluster := by
          have := (List.getElem?_eq_some_iff.mp (mem_entries hen).1).1
          rwa [dirSlots_length] at this
        have hr := (hI.dir_chain hd).inRange _ (posIn_fst_mem hidx)
        refine (det_fatNextCluster hr).bind (Spec.pure ⟨rfl, fun x hx => ?_, by simp⟩)
        obtain rfl : (en.slot.cluster, en.slot.size) = x := by simpa using hx
        exact ⟨d, en, hd, hen, acceptFile_isDir hacc, rfl, rfl⟩
    · rintro v' ⟨rfl, hm⟩
      exact ⟨rfl, by simp, fun h => absurd (hm h) (by simp)⟩
  · rintro v' ⟨rfl, -, h2⟩
    refine ⟨rfl, by simp, fun h _ => ?_⟩
    rw [fileAt, ← h2 h]
    rfl

/-- **`fat32_read_file`** returns the bytes of the file. -/
theorem spec_readFile (n : ℕ) : VSpec g E (fat32ReadFile g path n) v fun r v' => v' = v ∧
      (E.memOk → r = (fileAt g v E.cwd path).map fun en => (contents g v en).take n) := by
  rw [fat32ReadFile]
  refine (spec_lookupFile hg hI hroot hcwd path).bind ?_ ?_
  · rintro ⟨c, z⟩ v' ⟨rfl, h1, -⟩
    obtain ⟨d, en, hd, hen, hf, hat, heq⟩ := h1 _ rfl
    rw [Prod.mk.injEq] at heq
    obtain ⟨rfl, rfl⟩ := heq
    refine spec_kmalloc.bind ?_ ?_
    · rintro - v' ⟨rfl, -⟩
      refine (det_readFile hg hI hd hen hf _).spec ⟨rfl, fun _ => ?_⟩
      rw [hat, Option.map_some, contents, fileBytes, fileBytes, List.take_take, Nat.min_comm]
    · rintro v' ⟨rfl, hm⟩
      exact ⟨rfl, fun h => absurd (hm h) (by simp)⟩
  · rintro v' ⟨rfl, -, h2⟩
    exact ⟨rfl, fun h => by rw [h2 h rfl]; rfl⟩

end

end GordOS.Fat32
