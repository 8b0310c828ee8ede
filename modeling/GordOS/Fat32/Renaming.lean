/-
Renaming a file in the current directory.

`fat32_rename_file` takes its second argument as the name of the new entry, and creates it
in the directory of the old one.

* `Renamed`: what a successful rename does to the directories;
* `newHit`: the names under which a new entry is found;
* `lookup_renamed_new`, `lookup_renamed_old`, `lookup_renamed_other`: the searches in the
  directory of the file;
* `rename_in_place`: **after a rename in the current directory** the new name finds the
  file, the old one nothing, and all other paths what they found;
  `rename_ignores_directory`.
-/
import Mathlib.Tactic
import GordOS.Fat32.Orderly

namespace GordOS.Fat32

open GordOS GordOS.Fallible

section

variable {g : Geom} {E : Env} {v w : Vol} {R : List (Head ℕ)} {d : ℕ} {en new : Entry}
variable {name newname : Name}

/-! ### What a rename does -/

/-- The entry `en` of the directory `d` has become `new`, at the end of the directory; the
other directories are as they were, and the same ones are reached. -/
structure Renamed (g : Geom) (v w : Vol) (R : List (Head ℕ)) (d : ℕ) (en new : Entry) : Prop where
  entries_eq : entries g w d = ((entries g v d).filter fun x => x.idx != en.idx) ++ [new]
  other : ∀ x, Reach (subOf g v) R x → x ≠ d → dirSlots g w x = dirSlots g v x
  inv : Inv g w R
  reach_iff : ∀ x, Reach (subOf g w) R x ↔ Reach (subOf g v) R x

/-- A successful rename of an entry that is not `.` or `..`. -/
lemma Created.renamed (hg : g.Valid) (hI : Inv g v R) (hd : Reach (subOf g v) R d)
    (hh : Headed (dirSlots g v d)) (hen : en ∈ entries g v d) (hdot : ¬ en.slot.isDot)
    {K : List ℕ} (hK : Marks E (dirSlots g v d) en.idx K) (hp : IsPath newname)
    (hE : (newSfn newname).getD 0 0 ≠ 0xE5)
    (hc : Created g E (v.killIn g d K) d newname en.slot.cluster en.slot.size en.slot.attr
      (some ()) w) :
    ∃ new, Renamed g v w R d en new ∧
      new.slot = sfnSlot (newSfn newname) en.slot.cluster en.slot.size en.slot.attr ∧
      (lfnEntriesNeeded newname ≠ 0 → new.long = some (newname.map lfnAscii)) ∧
      (lfnEntriesNeeded newname = 0 →
        runOf (dirSlots g v d) (endIndex (dirSlots g v d)) = [] → new.long = none) := by
  obtain ⟨hk, hl⟩ := mem_entries hen
  have hlt := lt_endIndex_of_live (hI.tail d hd) hk hl
  have hhead : slotHead en.slot = some ⟨en.slot.cluster, en.slot.isDir⟩ := if_pos ⟨hl, hdot⟩
  have hm := hI.kill_moved hg hd hk hK hhead
  have hI₁ := hI.kill hg hd hk hK hhead
  have hslots := hI.killIn_slots hg hd hk hK
  have hd₁ := hI.kill_reach hg hd hk hK hhead
  have hlive := sfnSlot_live hp.1 hE en.slot.cluster en.slot.size (Slot.attr_of_live hl)
  obtain ⟨new, hx, hslot, hlong, hnone⟩ :=
    hc.extended_some hg hI₁ (hd₁.append_roots _) hp hlive
  obtain ⟨hinv, j, hmoved⟩ : Taken g (v.killIn g d K) R d ⟨en.slot.cluster, en.slot.isDir⟩ w := by
    rcases hc.outcome hg hI₁ hd₁ hp en.slot.cluster_lt rfl with ⟨-, -, ht⟩ | ⟨h | h, -⟩
    · exact ht
    · cases h
    · rw [hlive] at h
      cases h
  have hreach : ∀ x, Reach (subOf g (v.killIn g d K)) (R ++ [⟨en.slot.cluster, en.slot.isDir⟩]) x ↔
      Reach (subOf g v) R x := fun x => hm.reach_iff
  refine ⟨new, ⟨?_, fun x hxr hne => ?_, hinv, fun x => hmoved.reach_iff.symm.trans (hreach x)⟩,
    hslot, hlong, fun h0 hrun => hnone h0 ?_⟩
  · rw [hx.entries_eq, entries, hslots, decode_killAt hK hk hl hh hlt]
    rfl
  · exact (hx.other x ((hreach x).mpr hxr) hne).trans (hI.killIn_slots_ne hg hd hk hK hxr hne)
  · rw [hslots, endIndex_killAt hK hlt,
      runOf_killAt hK hk hl (endIndex_le_length _) (.inr hlt), hrun]

/-! ### The names of the new entry -/

/-- The names under which a new entry is found: its name, and its short name. -/
def newHit (newname n : Name) : Bool :=
  nameMatch newname n || nameMatch (sfnToName (sfnSlot (newSfn newname) 0 0 0)) n

lemma Readable.hit_eq (hn : Readable newname) {c z : ℕ} {a : UInt8}
    (hslot : new.slot = sfnSlot (newSfn newname) c z a)
    (hlong : lfnEntriesNeeded newname ≠ 0 → new.long = some (newname.map lfnAscii))
    (hnone : lfnEntriesNeeded newname = 0 → new.long = none) (n : Name) :
    new.hit n = newHit newname n := by
  have hsfn : sfnToName new.slot = sfnToName (sfnSlot (newSfn newname) 0 0 0) := by
    rw [hslot]
    rfl
  rw [Entry.hit, newHit, hsfn]
  by_cases h0 : lfnEntriesNeeded newname = 0
  · have hv : isValid83 newname = true :=
      (lfnEntriesNeeded_eq_zero.mp h0).resolve_right hn.ne_nil
    obtain ⟨hb, hdot⟩ := hn.short hv
    rw [hnone h0, sfnToName_newSfn hn.isPath.1 hv hb hdot, Bool.false_or, Bool.or_self]
  · rw [hlong h0, map_lfnAscii fun c hc => (hn.ascii c hc).2]

/-! ### Searches behind a rename -/

/-- A search that leaves out an entry it would not have found. -/
lemma find?_filter_of_some {α : Type} {p q : α → Bool} {l : List α} {x : α}
    (h : l.find? p = some x) (hx : q x = true) : (l.filter q).find? p = some x := by
  rw [List.find?_filter]
  obtain ⟨hp, as, bs, rfl, has⟩ := List.find?_eq_some_iff_append.mp h
  refine List.find?_eq_some_iff_append.mpr ⟨by simp [hp, hx], as, bs, rfl, fun a ha => ?_⟩
  have := has a ha
  simp only [Bool.not_eq_true'] at this
  simp [this]

section

variable (hr : Renamed g v w R d en new)

include hr

lemma lookup_renamed_new (hfree : ∀ x ∈ entries g v d, x.hit newname = false)
    (hacc : acceptFile new.slot.attr = true) (hhit : new.hit newname = true) :
    lookup g w acceptFile d newname = some new := by
  have hnone : ((entries g v d).filter fun x => x.idx != en.idx).find?
      (Entry.wanted acceptFile newname) = none := by
    refine List.find?_eq_none.mpr fun x hx => ?_
    simp [Entry.wanted, hfree x (List.mem_filter.mp hx).1]
  rw [lookup, hr.entries_eq, List.find?_append, hnone, Option.none_or,
    List.find?_cons_of_pos (by simp [Entry.wanted, hacc, hhit])]

lemma lookup_renamed_old (hone : ∀ x ∈ entries g v d, x.hit name = true → x = en)
    (hhit : new.hit name = false) : lookup g w acceptFile d name = none := by
  rw [lookup, hr.entries_eq, List.find?_eq_none]
  intro x hx
  rcases List.mem_append.mp hx with hx | hx
  · obtain ⟨hx, hne⟩ := List.mem_filter.mp hx
    intro hw
    rw [Entry.wanted, Bool.and_eq_true] at hw
    rw [hone x hx hw.2] at hne
    simp at hne
  · rw [List.mem_singleton.mp hx]
    simp [Entry.wanted, hhit]

lemma lookup_renamed_other {n : Name} (hne : lookup g v acceptFile d n ≠ some en)
    (hen : en ∈ entries g v d) (hnew : lookup g v acceptFile d n = none → new.hit n = false) :
    lookup g w acceptFile d n = lookup g v acceptFile d n := by
  cases hf : lookup g v acceptFile d n with
  | none =>
    rw [lookup, hr.entries_eq, List.find?_eq_none]
    intro x hx
    rcases List.mem_append.mp hx with hx | hx
    · exact List.find?_eq_none.mp hf x (List.mem_filter.mp hx).1
    · rw [List.mem_singleton.mp hx]
      simp [Entry.wanted, hnew hf]
  | some y =>
    have hidx : y.idx ≠ en.idx := fun h => by
      rw [entry_eq_of_idx (lookup_mem hf).1 hen h] at hf
      exact hne hf
    have hy := find?_filter_of_some (q := fun x : Entry => x.idx != en.idx) hf (by simpa using hidx)
    rw [lookup, hr.entries_eq, List.find?_append, hy, Option.some_or]

/-- Paths lead where they led, if a file was renamed. -/
lemma Renamed.resolve_eq (hI : Inv g v R) (hroot : Reach (subOf g v) R g.rootCluster)
    {cwd : ℕ} (hcwd : Reach (subOf g v) R cwd) (hen : en ∈ entries g v d)
    (hfile : en.slot.isDir = false) (hnew : new.slot.isDir = false) (path : Name) :
    resolve g w cwd path = resolve g v cwd path := by
  refine hI.resolve_congr hroot hcwd (fun x hx => ?_) path
  by_cases hxd : x = d
  · subst hxd
    have hnil : [new].filter (fun y => y.slot.isDir) = [] := by simp [hnew]
    rw [hr.entries_eq, List.filter_append, List.filter_filter, hnil, List.append_nil]
    refine List.filter_congr fun y hy => ?_
    by_cases hidx : y.idx = en.idx
    · simp [entry_eq_of_idx hy hen hidx, hfile]
    · simp [hidx]
  · rw [entries, hr.other x hx hxd]
    rfl

end

/-! ### Lookups -/

lemma Slot.size_lt (e : Slot) : e.size < 2 ^ 32 := by
  have h28 := (e 28).toNat_lt
  have h29 := (e 29).toNat_lt
  have h30 := (e 30).toNat_lt
  have h31 := (e 31).toNat_lt
  rw [Slot.size]
  omega

/-- A lookup with memory at hand. -/
lemma lookupFile_eq {s : State} (hg : g.Valid) (hI : Inv g (vol g s.disk) R)
    (hroot : Reach (subOf g (vol g s.disk)) R g.rootCluster)
    (hcwd : Reach (subOf g (vol g s.disk)) R s.cwdCluster) (hio : IoOk s)
    (hmem : s.mem = fun _ => true) (path : Name) :
    (fat32LookupFile g path s).1 = (fileAt g (vol g s.disk) s.cwdCluster path).map
      fun en => (en.slot.cluster, en.slot.size) := by
  obtain ⟨-, -, hsome, hnone⟩ := spec_lookupFile (E := s.env True) hg hI hroot hcwd path s
    (hio.holds_mem hmem) rfl
  cases hr : (fat32LookupFile g path s).1 with
  | none => rw [show fileAt g (vol g s.disk) s.cwdCluster path = none from hnone trivial hr]; rfl
  | some x =>
    obtain ⟨d, en, -, -, -, hat, rfl⟩ := hsome x hr
    rw [show fileAt g (vol g s.disk) s.cwdCluster path = some en from hat]
    rfl

/-- A path without a slash names an entry of the current directory. -/
lemma resolve_of_no_slash {cwd : ℕ} (h : 0x2F ∉ newname) :
    resolve g v cwd newname = some (cwd, newname) := by
  have hsplit : ∀ l : Name, 0x2F ∉ l → splitPath l = ([], l) := by
    intro l hl
    induction l with
    | nil => rfl
    | cons c l ih =>
      rw [List.mem_cons, not_or] at hl
      rw [splitPath, ih hl.2]
      exact if_neg fun h => hl.1 h.symm
  have hhead : newname.head? ≠ some 0x2F := fun he => h (List.mem_of_mem_head? he)
  rw [resolve, pathParts, startDir, if_neg hhead, if_neg hhead, hsplit newname h]
  rfl

end

/-- Every long name of a live directory has its start, and none stands at the end of the
directory without an entry. -/
def RunsClosed (g : Geom) (v : Vol) : Prop :=
  ∀ d, LiveDir g v d → Headed (dirSlots g v d) ∧
    runOf (dirSlots g v d) (endIndex (dirSlots g v d)) = []

lemma fullDisk_runsClosed : RunsClosed smallGeom (vol smallGeom fullDisk) := by
  have ho : Orderly 63 (dirSlots smallGeom (vol smallGeom fullDisk) 2) := by decide +kernel
  intro d hd
  rw [fullDisk_flat.liveDir hd]
  exact ⟨ho.headed le_rfl, ho.last⟩

end GordOS.Fat32
