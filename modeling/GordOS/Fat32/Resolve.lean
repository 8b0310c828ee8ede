/-
Path resolution on a volume.

* `resolveDir`, `resolve`: the directory and the last component a path leads to;
* `Inv.reach_target`: a directory entry leads to a directory that is reached;
* `spec_resolvePath`: `fat32_resolve_path` returns what `resolve` says unless it
  runs out of memory, and does not change the volume.
-/
import Mathlib.Tactic
import GordOS.Fat32.Steps

namespace GordOS.Fat32

open GordOS GordOS.Fallible

section

variable (g : Geom) (v : Vol)

/-- The directory that some components lead to, from the directory `c` on. -/
def resolveDir : List Name → ℕ → Option ℕ
  | [], c => some c
  | d :: ds, c =>
    ((entries g v c).find? (Entry.wanted acceptDir (d.take 255))).bind
      fun en => resolveDir ds (en.slot.target g)

/-- The components of a path, the last one apart. -/
def pathParts (path : Name) : List Name × Name :=
  splitPath (if path.head? = some 0x2F then path.drop 1 else path)

/-- The directory where the resolution of a path starts. -/
def startDir (cwd : ℕ) (path : Name) : ℕ :=
  if path.head? = some 0x2F then g.rootCluster else cwd

/-- The directory a path leads to and its last component. -/
def resolve (cwd : ℕ) (path : Name) : Option (ℕ × Name) :=
  (resolveDir g v (pathParts path).1 (startDir g cwd path)).map
    fun d => (d, (pathParts path).2)

end

section

variable {g : Geom} {E : Env} {v : Vol} {R : List (Head ℕ)} {d : ℕ} {en : Entry}

/-- An entry of a directory stands in one of its slots. -/
lemma mem_entries (hen : en ∈ entries g v d) :
    (dirSlots g v d)[en.idx]? = some en.slot ∧ en.slot.live = true := by
  obtain ⟨j, hj, h1, h2, -, -⟩ := mem_decodeFrom hen
  rw [Nat.zero_add] at hj
  exact ⟨hj ▸ h1, h2⟩

/-- The object of an entry that is not called `.` or `..`. -/
lemma ref_entry (hd : Reach (subOf g v) R d) (hen : en ∈ entries g v d) (hdot : ¬ en.slot.isDot) :
    Ref (subOf g v) R (.slot d en.idx) ⟨en.slot.cluster, en.slot.isDir⟩ := by
  obtain ⟨h1, h2⟩ := mem_entries hen
  refine hd.slot ?_
  rw [subOf, h1, Option.bind_some, slotHead, if_pos ⟨h2, hdot⟩]

/-- A directory entry leads to a directory that is reached. -/
lemma Inv.reach_target (hI : Inv g v R) (hd : Reach (subOf g v) R d)
    (hen : en ∈ entries g v d) (hdir : en.slot.isDir = true) :
    Reach (subOf g v) R (en.slot.target g) := by
  by_cases hdot : en.slot.isDot
  · obtain ⟨h1, h2⟩ := mem_entries hen
    exact (hI.dots d hd _ _ h1 h2 hdot).2.1
  · have hr := ref_entry hd hen hdot
    rw [hdir] at hr
    have hc := (hI.chain _ _ hr (Or.inl rfl)).inRange _ (hI.cell_mem hr (Or.inl rfl))
    have h2 := hc.1
    rw [Slot.target, if_neg (by simp only at h2; omega)]
    exact ⟨_, hr⟩

lemma spec_resolveLoop (hg : g.Valid) (hI : Inv g v R) (ds : List Name) :
    ∀ c, Reach (subOf g v) R c → VSpec g E (resolveLoop g ds c) v fun r v' => v' = v ∧
        (∀ x, r = some x → resolveDir g v ds c = some x ∧ Reach (subOf g v) R x) ∧
        (E.memOk → r = resolveDir g v ds c) := by
  induction ds with
  | nil =>
    intro c hc
    rw [resolveLoop]
    refine Spec.pure ⟨rfl, fun x hx => ?_, fun _ => rfl⟩
    obtain rfl : c = x := by simpa using hx
    exact ⟨rfl, hc⟩
  | cons d ds ih =>
    intro c hc
    rw [resolveLoop, resolveDir]
    refine spec_kmalloc.bind ?_ fun v' h => ⟨h.1, by simp, fun hm => ?_⟩
    · rintro - v' ⟨rfl, -⟩
      refine (det_dirScan hg acceptDir (d.take 255) (hI.dir_chain hc)).bind ?_
      cases hf : (entries g v' c).find? (Entry.wanted acceptDir (d.take 255)) with
      | none => exact Spec.fail ⟨rfl, by simp, fun _ => rfl⟩
      | some en =>
        have hen := List.mem_of_find?_eq_some hf
        have hw := List.find?_some hf
        rw [Entry.wanted, Bool.and_eq_true] at hw
        exact ih _ (hI.reach_target hc hen hw.1)
    · exact absurd (h.2 hm) (by simp)

/-- **Path resolution.** -/
theorem spec_resolvePath (hg : g.Valid) (hI : Inv g v R) (hroot : Reach (subOf g v) R g.rootCluster)
    (hcwd : Reach (subOf g v) R E.cwd) (path : Name) :
    VSpec g E (fat32ResolvePath g path) v fun r v' => v' = v ∧
      (∀ x, r = some x → resolve g v E.cwd path = some x ∧ Reach (subOf g v) R x.1) ∧
      (E.memOk → r = resolve g v E.cwd path) := by
  rw [fat32ResolvePath]
  refine det_cwd.bind ?_
  have hstart : Reach (subOf g v) R (startDir g E.cwd path) := by
    rw [startDir]
    split_ifs
    · exact hroot
    · exact hcwd
  rw [resolve]
  refine (spec_resolveLoop hg hI (pathParts path).1 _ hstart).bind ?_ ?_
  · rintro c v' ⟨rfl, h1, h2⟩
    obtain ⟨hres, hreach⟩ := h1 c rfl
    refine Spec.pure ⟨rfl, fun x hx => ?_, fun hm => ?_⟩
    · obtain rfl : (c, (pathParts path).2) = x := by simpa [pathParts] using hx
      exact ⟨by rw [hres]; rfl, hreach⟩
    · rw [hres]
      rfl
  · rintro v' ⟨rfl, -, h2⟩
    exact ⟨rfl, by simp, fun hm => by rw [← h2 hm]; rfl⟩

end

end GordOS.Fat32
