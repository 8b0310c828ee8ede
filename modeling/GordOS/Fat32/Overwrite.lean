/-
Writing a file: what can be read back, and what a failed write leaves.

* `Inv.resolve_congr`: paths lead where they led as long as the directory entries of
  the directories stay;
* `Replaced.entries_of_mem`, `Replaced.not_wanted`, ...: the removal of the old file;
* `WriteTail.stored`: the entry and the bytes of the new file;
* `readFile_writeFile`: **after a successful write the file holds the data, and the
  other files are as they were**;
* `name_lost_behind_headless_run`: that fails where a long name has no start;
* `writeFile_failed`: **a failed write has not touched the volume, or has removed the
  old file**; `overwrite_loses_file`: the old contents are then gone.
-/
import Mathlib.Tactic
import GordOS.Fat32.Read
import GordOS.Fat32.Integrity

namespace GordOS.Fat32

open GordOS GordOS.Fallible

section

variable {g : Geom} {E : Env} {v w : Vol} {R : List (Head ℕ)} {d : ℕ} {en : Entry}
variable {loc : Loc ℕ} {h : Head ℕ} {name : Name}

/-! ### Paths -/

/-- A search for a directory only looks at the directories. -/
lemma find?_acceptDir (l : List Entry) (n : Name) : l.find? (Entry.wanted acceptDir n)
      = (l.filter fun en => en.slot.isDir).find? (Entry.wanted acceptDir n) := by
  rw [List.find?_filter]
  congr 1
  funext en
  have h : Entry.wanted acceptDir n en = (en.slot.isDir && en.hit n) := rfl
  rw [h]
  cases en.slot.isDir <;> simp

/-- Paths lead where they led if the directories in each directory stay. -/
lemma Inv.resolve_congr (hI : Inv g v R) (hroot : Reach (subOf g v) R g.rootCluster)
    {cwd : ℕ} (hcwd : Reach (subOf g v) R cwd)
    (hs : ∀ x, Reach (subOf g v) R x → (entries g w x).filter (fun en => en.slot.isDir)
        = (entries g v x).filter fun en => en.slot.isDir) (path : Name) :
    resolve g w cwd path = resolve g v cwd path := by
  have hloop : ∀ ds c, Reach (subOf g v) R c → resolveDir g w ds c = resolveDir g v ds c := by
    intro ds
    induction ds with
    | nil => exact fun _ _ => rfl
    | cons n ds ih =>
      intro c hc
      have hfind : (entries g w c).find? (Entry.wanted acceptDir (n.take 255))
          = (entries g v c).find? (Entry.wanted acceptDir (n.take 255)) := by
        rw [find?_acceptDir (entries g w c), hs c hc]
        exact (find?_acceptDir (entries g v c) _).symm
      rw [resolveDir, resolveDir, hfind]
      cases hf : (entries g v c).find? (Entry.wanted acceptDir (n.take 255)) with
      | none => rw [Option.bind_none, Option.bind_none]
      | some en =>
        have hw := List.find?_some hf
        rw [Entry.wanted, Bool.and_eq_true] at hw
        rw [Option.bind_some, Option.bind_some]
        exact ih _ (hI.reach_target hc (List.mem_of_find?_eq_some hf) hw.1)
  have hstart : Reach (subOf g v) R (startDir g cwd path) := by
    rw [startDir]
    split_ifs
    · exact hroot
    · exact hcwd
  rw [resolve, resolve, hloop _ _ hstart]

/-! ### The removal of the old file -/

section

variable (hg : g.Valid) (hI : Inv g v R) (hd : Reach (subOf g v) R d)
variable (hr : Replaced g E v d name w)

include hg hI hd hr

lemma Replaced.reach_iff {x : ℕ} : Reach (subOf g w) R x ↔ Reach (subOf g v) R x := by
  rcases hr with ⟨-, rfl⟩ | ⟨en, hf, hc⟩
  · rfl
  · obtain ⟨hen, hacc, -⟩ := lookup_mem hf
    exact hI.cleared_reach hg hd hen (acceptFile_isDir hacc) hc

lemma Replaced.other {x : ℕ} (hx : Reach (subOf g v) R x) (hne : x ≠ d) :
    dirSlots g w x = dirSlots g v x := by
  rcases hr with ⟨-, rfl⟩ | ⟨en, hf, hc⟩
  · rfl
  · obtain ⟨hen, hacc, -⟩ := lookup_mem hf
    obtain ⟨-, -, -, ho⟩ := hI.cleared_slots hg hd hen (acceptFile_isDir hacc) hc
    exact ho x hx hne

/-- The objects other than the directory and the file that the name finds stay. -/
lemma Replaced.kept (hcell : h.cell ≠ d) (hl : Ref (subOf g v) R loc h)
    (hne : ∀ en, lookup g v acceptFile d name = some en → loc ≠ .slot d en.idx) :
    Ref (subOf g w) R loc h ∧ Kept g v w h := by
  rcases hr with ⟨-, rfl⟩ | ⟨en, hfind, hc⟩
  · exact ⟨hl, Kept.refl _ _⟩
  · obtain ⟨hen, hacc, -⟩ := lookup_mem hfind
    have hfile := acceptFile_isDir hacc
    exact ⟨(hI.cleared_ref hg hd hen hfile hc).mpr ⟨hne en hfind, hl⟩,
      hI.cleared_kept hg hd hen hfile hc hl (hne en hfind) hcell⟩

variable (hh : Headed (dirSlots g v d))

include hh

/-- The entries that are left. -/
lemma Replaced.mem_iff : en ∈ entries g w d ↔ en ∈ entries g v d ∧
    ∀ old, lookup g v acceptFile d name = some old → en.idx ≠ old.idx := by
  rcases hr with ⟨hnone, rfl⟩ | ⟨old, hfind, hc⟩
  · simp [hnone]
  · obtain ⟨hen, hacc, -⟩ := lookup_mem hfind
    rw [hI.cleared_entries hg hd hen (acceptFile_isDir hacc) hc hh, List.mem_filter]
    simp [hfind]

/-- The directories in the directory stay. -/
lemma Replaced.filter_dir : (entries g w d).filter (fun en => en.slot.isDir)
    = (entries g v d).filter fun en => en.slot.isDir := by
  rcases hr with ⟨-, rfl⟩ | ⟨old, hfind, hc⟩
  · rfl
  · obtain ⟨hen, hacc, -⟩ := lookup_mem hfind
    have hfile := acceptFile_isDir hacc
    rw [hI.cleared_entries hg hd hen hfile hc hh, List.filter_filter]
    refine List.filter_congr fun x hx => ?_
    by_cases hidx : x.idx = old.idx
    · -- the removed entry is a file
      have h1 := (mem_entries hx).1
      rw [hidx, (mem_entries hen).1, Option.some.injEq] at h1
      simp [← h1, hfile]
    · simp [hidx]

/-- The name finds no file any more if it found at most one. -/
lemma Replaced.not_wanted
    (hone : ∀ a ∈ entries g v d, ∀ b ∈ entries g v d, a.wanted acceptFile name = true →
      b.wanted acceptFile name = true → a = b) :
    ∀ a ∈ entries g w d, a.wanted acceptFile name = false := by
  intro a ha
  obtain ⟨ha, hne⟩ := (Replaced.mem_iff hg hI hd hr hh).mp ha
  by_contra hw
  have hw := Bool.eq_true_of_not_eq_false hw
  cases hf : lookup g v acceptFile d name with
  | none => exact List.find?_eq_none.mp hf a ha hw
  | some old =>
    obtain ⟨hold, -⟩ := lookup_mem hf
    exact hne old hf (congrArg Entry.idx (hone a ha old hold hw (List.find?_some hf)))

end

/-! ### The new file -/

lemma Extended.of_roots {news : List Entry} {R' : List (Head ℕ)}
    (he : Extended g v (R ++ R') d news w) : Extended g v R d news w :=
  ⟨he.entries_eq, fun x hx hne => he.other x (hx.append_roots R') hne,
    fun loc h hr hne => he.kept loc h (hr.append_roots R') hne⟩

/-- A change outside the objects, and then a new entry. -/
lemma Extended.of_same (hg : g.Valid) (hI : Inv g v R) (hd : Reach (subOf g v) R d)
    {u : Vol} (hs : Same g v u R) {news : List Entry} (he : Extended g u R d news w) :
    Extended g v R d news w where
  entries_eq := by
    rw [he.entries_eq, entries, entries, hs.slots hg hI hd]
  other x hx hne :=
    (he.other x ((hs.reach_iff hg hI).mpr hx) hne).trans (hs.slots hg hI hx)
  kept loc h hr hne :=
    (hs.kept hg hI hr).trans (he.kept loc h ((hs.ref_iff hg hI).mpr hr) hne)

/-- What a successful write stores. -/
lemma WriteTail.stored_file (hg : g.Valid) (hI : Inv g v R) (hd : Reach (subOf g v) R d)
    (hp : IsPath name) (hE : (newSfn name).getD 0 0 ≠ 0xE5) {data : List UInt8}
    (hlen : data.length < 2 ^ 32) (ht : WriteTail g E v d name data (some ()) w) :
    ∃ new c, Extended g v R d [new] w ∧ new.slot = sfnSlot (newSfn name) c data.length attrArchive ∧
      (lfnEntriesNeeded name ≠ 0 → new.long = some (name.map lfnAscii)) ∧
      contents g w new = data := by
  have hl : ∀ c z, (sfnSlot (newSfn name) c z attrArchive).live = true := fun c z =>
    sfnSlot_live hp.1 hE c z (by decide)
  cases ht with
  | empty h0 hc =>
    subst h0
    obtain ⟨new, hx, hslot, hlong, -⟩ := hc.extended_some hg hI hd hp (hl 0 0)
    refine ⟨new, 0, hx, hslot, hlong, ?_⟩
    rw [contents, hslot, sfnSlot_size _ _ _ _ (by simp), fileBytes]
    simp
  | @stored u news a _ _ _ hw hfull hchain hc =>
    have hs := hI.wrote_same hw
    have hI' := hI.wrote hg hw hchain
    have hd' := (hs.reach_iff hg hI).mpr hd
    obtain ⟨new, hx, hslot, hlong, -⟩ :=
      hc.extended_some hg hI' (hd'.append_roots _) hp (hl a data.length)
    refine ⟨new, a, (hx.of_roots).of_same hg hI hd hs, hslot, hlong, ?_⟩
    -- the clusters of the new file are not touched by the new entry
    have hr : Ref (subOf g u) (R ++ [⟨a, false⟩]) (.root R.length) ⟨a, false⟩ :=
      .root (by simp)
    have hk := hx.kept _ _ hr (hI'.file_cell_ne (hd'.append_roots _) hr rfl)
    have ha : a < 2 ^ 32 := (hchain.inRange _ (Chain.head_mem hchain)).lt hg
    have hcells : cellsOf g u ⟨a, false⟩ = news := hchain.chainOf_eq hg
    have hcells' : chainOf g w a = news := by
      rw [← hcells, ← hk.cells, cellsOf]
    have hdata : news.map w.data = (fileChunks g data).map fun p => g.trim (bufOfBytes p) := by
      rw [← List.take_length (l := fileChunks g data), ← hfull, ← hw.data]
      refine List.map_congr_left fun x hx => hk.data x ?_
      rwa [hcells]
    rw [contents, hslot, sfnSlot_cluster _ _ _ _ ha, sfnSlot_size _ _ _ _ hlen, hcells']
    exact fileBytes_of_wrote hg hdata

/-- What was referred to before the data and the entry are written still is. -/
lemma WriteTail.ref (hg : g.Valid) (hI : Inv g v R) (hd : Reach (subOf g v) R d)
    (hp : IsPath name) {data : List UInt8} {r : Option Unit}
    (ht : WriteTail g E v d name data r w) (hr : Ref (subOf g v) R loc h) :
    Ref (subOf g w) R loc h := by
  cases ht with
  | empty _ hc => exact hc.ref hg hI.addEmpty hd hp (by decide) rfl hr
  | noMemory _ _ => exact hr
  | full _ hw _ => exact ((hI.wrote_same hw).ref_iff hg hI).mpr hr
  | stored _ hw _ hchain hc =>
    have hs := hI.wrote_same hw
    exact hc.ref hg (hI.wrote hg hw hchain) ((hs.reach_iff hg hI).mpr hd) hp
      ((hchain.inRange _ (Chain.head_mem hchain)).lt hg) rfl ((hs.ref_iff hg hI).mpr hr)

lemma WriteTail.reach (hg : g.Valid) (hI : Inv g v R) (hd : Reach (subOf g v) R d)
    (hp : IsPath name) {data : List UInt8} {r : Option Unit}
    (ht : WriteTail g E v d name data r w) {x : ℕ} (hx : Reach (subOf g v) R x) :
    Reach (subOf g w) R x := by
  obtain ⟨loc, hr⟩ := hx
  exact ⟨loc, ht.ref hg hI hd hp hr⟩

/-! ### Reading the file back -/

/-- Names that can be read back: ASCII strings that a long name keeps, or 8.3 names that
their short name keeps. -/
structure Readable (name : Name) : Prop where
  length_le : name.length ≤ 254
  ne_nil : name ≠ []
  ascii : ∀ c ∈ name, 0 < c ∧ c < 0x80
  short : isValid83 name = true →
    (0x20 : UInt8) ∉ name ∧ name.getLast? ≠ some 0x2E

lemma Readable.isPath (hn : Readable name) : IsPath name :=
  ⟨fun h => absurd (hn.ascii 0 h).1 (by decide), hn.length_le.trans (by omega)⟩

/-- A new entry with such a name is found under it. -/
lemma Readable.hit (hn : Readable name) {c z : ℕ} {a : UInt8}
    (hslot : en.slot = sfnSlot (newSfn name) c z a)
    (hlong : lfnEntriesNeeded name ≠ 0 → en.long = some (name.map lfnAscii)) :
    en.hit name = true := by
  rw [Entry.hit]
  by_cases h0 : lfnEntriesNeeded name = 0
  · have hv : isValid83 name = true :=
      (lfnEntriesNeeded_eq_zero.mp h0).resolve_right hn.ne_nil
    obtain ⟨hb, hdot⟩ := hn.short hv
    rw [hslot, sfnToName_newSfn hn.isPath.1 hv hb hdot, nameMatch_self, Bool.or_true]
  · rw [hlong h0, map_lfnAscii fun c hc => (hn.ascii c hc).2]
    simp

/-- Every entry of a live directory stands behind a run with its start. -/
def NamesOk (g : Geom) (v : Vol) : Prop :=
  ∀ d, LiveDir g v d → Headed (dirSlots g v d)

/-- On a volume with the invariant the live objects are those in the slots in use. -/
lemma Inv.live_iff (hI : Inv g v [rootHead g]) :
    Ref (subOf g v) [rootHead g] loc h ↔ Live g v loc h := by
  refine ⟨fun hr => hr.mono fun x hx => liveSub_eq_subOf (hI.tail x hx), Live.ref⟩

lemma Inv.liveDir_iff (hI : Inv g v [rootHead g]) :
    Reach (subOf g v) [rootHead g] d ↔ LiveDir g v d :=
  exists_congr fun _ => hI.live_iff

/-- At most one file of the directory is found under the name. -/
def AtMostOne (g : Geom) (v : Vol) (d : ℕ) (name : Name) : Prop :=
  ∀ a ∈ entries g v d, ∀ b ∈ entries g v d, a.wanted acceptFile name = true →
    b.wanted acceptFile name = true → a = b

section

variable (hg : g.Valid) (hI : Inv g v R) (hd : Reach (subOf g v) R d)
variable (hh : Headed (dirSlots g v d)) {u : Vol}

include hg hI hd hh

/-- The search behind a write finds the new file. -/
lemma lookup_new (hrep : Replaced g E v d name u) (hone : AtMostOne g v d name)
    {new : Entry} (hx : Extended g u R d [new] w) (hnew : new.wanted acceptFile name = true) :
    lookup g w acceptFile d name = some new := by
  have hnone := Replaced.not_wanted hg hI hd hrep hh hone
  have hfind : (entries g u d).find? (Entry.wanted acceptFile name) = none :=
    List.find?_eq_none.mpr fun a ha => by simp [hnone a ha]
  rw [lookup, hx.entries_eq, List.find?_append, hfind, Option.none_or, List.find?_cons_of_pos hnew]

/-- The directories of each directory stay over a write. -/
lemma write_filter_dir (hrep : Replaced g E v d name u) {new : Entry}
    (hx : Extended g u R d [new] w) (hnew : new.slot.isDir = false)
    (hreach : ∀ x, Reach (subOf g v) R x → Reach (subOf g u) R x) {x : ℕ}
    (hxr : Reach (subOf g v) R x) :
    (entries g w x).filter (fun en => en.slot.isDir)
      = (entries g v x).filter fun en => en.slot.isDir := by
  by_cases hxd : x = d
  · subst hxd
    rw [hx.entries_eq, List.filter_append, Replaced.filter_dir hg hI hd hrep hh,
      List.filter_singleton, hnew]
    simp
  · have h1 : entries g w x = entries g v x := by
      rw [entries, entries, hx.other x (hreach x hxr) hxd, Replaced.other hg hI hd hrep hxr hxd]
    rw [h1]

/-- A file that the name does not find is as it was. -/
lemma write_kept (hrep : Replaced g E v d name u) {new : Entry} (hx : Extended g u R d [new] w)
    (hreach : ∀ x, Reach (subOf g v) R x → Reach (subOf g u) R x) {x : ℕ}
    (hxr : Reach (subOf g v) R x) (hen : en ∈ entries g v x) (hf : en.slot.isDir = false)
    (hne : ¬ (x = d ∧ en.hit name = true)) :
    en ∈ entries g w x ∧ contents g w en = contents g v en := by
  have hr := ref_entry hxr hen (hI.file_not_dot hxr hen hf)
  -- it is not the file the name finds
  have hold : ∀ old, lookup g v acceptFile d name = some old → x = d → en.idx ≠ old.idx := by
    rintro old hl rfl hidx
    obtain ⟨hm, -, hhit⟩ := lookup_mem hl
    have h1 := (mem_decode.mp hen).2
    rw [hidx, (mem_decode.mp hm).2, Option.some.injEq] at h1
    exact hne ⟨rfl, h1 ▸ hhit⟩
  have hcell := hI.file_cell_ne hd hr hf
  obtain ⟨hr', hk⟩ := Replaced.kept hg hI hd hrep hcell hr fun old hl heq => by
    rw [Loc.slot.injEq] at heq
    exact hold old hl heq.1 heq.2
  refine ⟨?_, (hk.trans (hx.kept _ _ hr' hcell)).contents⟩
  by_cases hxd : x = d
  · subst hxd
    rw [hx.entries_eq]
    exact List.mem_append_left _
      ((Replaced.mem_iff hg hI hd hrep hh).mpr ⟨hen, fun old hl => hold old hl rfl⟩)
  · rw [entries, hx.other x (hreach x hxr) hxd, Replaced.other hg hI hd hrep hxr hxd]
    exact hen

end

/-! ### Failed writes -/

/-- The creation of an entry frees no cluster. -/
lemma Created.next_eq_zero {c z : ℕ} {a : UInt8} {r : Option Unit}
    (hc : Created g E v d name c z a r w) {x : ℕ} (hx : w.next x = 0) : v.next x = 0 := by
  rcases hc with ⟨-, rfl, -⟩ | ⟨ext, n, ha, -⟩
  · exact hx
  · by_cases hmem : x ∈ chainOf g v d ++ ext
    · exact absurd hx (ha.chain.next_ne_zero x hmem)
    · exact (ha.next_eq x hmem).symm.trans hx

lemma Wrote.next_eq_zero {ds : List (List UInt8)} {new : List ℕ}
    (hw : Wrote g v [] ds w new) {x : ℕ} (hx : w.next x = 0) : v.next x = 0 := by
  by_cases hmem : x ∈ new
  · exact (hw.fresh x hmem).2
  · exact (hw.next_eq x (by simp) hmem).symm.trans hx

/-- What a write that fails behind the removal of the old file leaves. -/
lemma WriteTail.failed (hg : g.Valid) (hI : Inv g v R) (hd : Reach (subOf g v) R d)
    (hp : IsPath name) {data : List UInt8} (ht : WriteTail g E v d name data none w) :
    (∀ loc h, Ref (subOf g w) R loc h ↔ Ref (subOf g v) R loc h) ∧
      (∀ loc h, Ref (subOf g v) R loc h → h.cell ≠ d → Kept g v w h) ∧
      ∀ x, w.next x = 0 → v.next x = 0 := by
  -- the attempt to create the entry of the file at `a`
  have hcreated : ∀ {u : Vol} {a n : ℕ}, Inv g u (R ++ [⟨a, false⟩]) →
      Reach (subOf g u) R d → a < 2 ^ 32 → Created g E u d name a n attrArchive none w →
      (∀ loc h, Ref (subOf g w) R loc h ↔ Ref (subOf g u) R loc h) ∧
        (∀ loc h, Ref (subOf g u) R loc h → h.cell ≠ d → Kept g u w h) ∧
        ∀ x, w.next x = 0 → u.next x = 0 := by
    intro u a n hIu hdu ha hc
    have hx := hc.extended_none hg hIu (hdu.append_roots _) hp
    rcases hc.outcome hg hIu hdu hp ha rfl with ⟨h, -⟩ | ⟨-, hl⟩
    · cases h
    · exact ⟨fun loc h => Ref.congr fun x hxr => hl.sub x (hxr.append_roots _),
        fun loc h hr hne => hx.of_roots.kept loc h hr hne,
        fun x hx => hc.next_eq_zero hx⟩
  cases ht with
  | empty _ hc => exact hcreated hI.addEmpty hd (by decide) hc
  | noMemory _ _ =>
    exact ⟨fun _ _ => Iff.rfl, fun _ h _ _ => Kept.refl _ h, fun _ hx => hx⟩
  | full _ hw _ =>
    have hs := hI.wrote_same hw
    exact ⟨fun _ _ => hs.ref_iff hg hI, fun _ _ hr _ => hs.kept hg hI hr,
      fun _ hx => hw.next_eq_zero hx⟩
  | stored _ hw _ hchain hc =>
    have hs := hI.wrote_same hw
    obtain ⟨h1, h2, h3⟩ := hcreated (hI.wrote hg hw hchain) ((hs.reach_iff hg hI).mpr hd)
      ((hchain.inRange _ (Chain.head_mem hchain)).lt hg) hc
    exact ⟨fun loc h => (h1 loc h).trans (hs.ref_iff hg hI), fun loc h hr hne =>
        (hs.kept hg hI hr).trans (h2 loc h ((hs.ref_iff hg hI).mpr hr) hne),
      fun x hx => hw.next_eq_zero (h3 x hx)⟩

/-- The file of the entry `en` of the directory `d` is gone, the other objects are live
and, the directory apart, as they were, and only its clusters have become free. -/
structure FileLost (g : Geom) (v : Vol) (d : ℕ) (en : Entry) (w : Vol) : Prop where
  gone : ∀ h, ¬ Live g w (.slot d en.idx) h
  kept : ∀ loc h, Live g v loc h → loc ≠ .slot d en.idx →
    Live g w loc h ∧ (h.cell ≠ d → Kept g v w h)
  free : ∀ x, w.next x = 0 → v.next x = 0 ∨ x ∈ chainOf g v en.slot.cluster

/-- The state in which all calls of `kmalloc` succeed. -/
lemma IoOk.holds_mem {s : State} (h : IoOk s) (hm : s.mem = fun _ => true) :
    (s.env True).Holds s := ⟨h, rfl, rfl, fun _ => hm⟩

/-- The file of `en` in the directory `x` is live in `w`, with the bytes it has in
`v`. -/
structure FileKept (g : Geom) (v w : Vol) (x : ℕ) (en : Entry) : Prop where
  live : LiveDir g w x
  mem : en ∈ entries g w x
  contents : contents g w en = contents g v en

/-- The directories that are reached still are after a write. -/
lemma WriteEff.reach (hg : g.Valid) (hI : Inv g v R)
    (hroot : Reach (subOf g v) R g.rootCluster) (hcwd : Reach (subOf g v) R E.cwd)
    {path : Name} (hp : IsPath (pathParts path).2) {data : List UInt8} {r : Option Unit}
    (he : WriteEff g E v path data r w) {x : ℕ} (hx : Reach (subOf g v) R x) :
    Reach (subOf g w) R x := by
  cases he with
  | early _ => exact hx
  | write hres hrep ht =>
    obtain rfl := resolve_name hres
    have hd := hI.resolve_reach hroot hcwd hres
    obtain ⟨hIu, hdu⟩ := Replaced.inv hg hI hd hrep
    exact ht.reach hg hIu hdu hp ((hrep.reach_iff hg hI hd).mpr hx)

/-- What a successful write leaves, on a volume whose names are in order. -/
lemma WriteEff.success (hg : g.Valid) (hI : Inv g v [rootHead g])
    (hh : ∀ x, Reach (subOf g v) [rootHead g] x → Headed (dirSlots g v x))
    (hcwd : Reach (subOf g v) [rootHead g] E.cwd) {path : Name}
    (hp : Readable (pathParts path).2) {data : List UInt8} (hlen : data.length < 2 ^ 32)
    (hone : ∀ d name, resolve g v E.cwd path = some (d, name) → AtMostOne g v d name)
    (he : WriteEff g E v path data (some ()) w) :
    (∃ new, fileAt g w E.cwd path = some new ∧ contents g w new = data) ∧
      resolve g w E.cwd path = resolve g v E.cwd path ∧
      ∀ x en, Reach (subOf g v) [rootHead g] x → en ∈ entries g v x → en.slot.isDir = false →
        ¬ (resolve g v E.cwd path = some (x, (pathParts path).2) ∧
          en.hit (pathParts path).2 = true) →
        Reach (subOf g w) [rootHead g] x ∧ en ∈ entries g w x ∧
          contents g w en = contents g v en := by
  have hroot : Reach (subOf g v) [rootHead g] g.rootCluster := ⟨.root 0, .root rfl⟩
  cases he with
  | @write d name u _ _ hres hrep ht =>
    obtain rfl := resolve_name hres
    have hd := hI.resolve_reach hroot hcwd hres
    obtain ⟨hIu, hdu⟩ := Replaced.inv hg hI hd hrep
    have hreach : ∀ x, Reach (subOf g v) [rootHead g] x →
        Reach (subOf g u) [rootHead g] x := fun x hx => (hrep.reach_iff hg hI hd).mpr hx
    obtain ⟨new, c, hx, hslot, hlong, hcont⟩ := ht.stored_file hg hIu hdu hp.isPath
      (newSfn_ne_E5 hp.isPath.1 fun c hc => (hp.ascii c hc).2) hlen
    have hfile : new.slot.isDir = false := by
      rw [hslot, sfnSlot_isDir]
      rfl
    have hwanted : new.wanted acceptFile (pathParts path).2 = true := by
      have hacc : acceptFile new.slot.attr = true := by
        rw [hslot, sfnSlot_attr]
        rfl
      rw [Entry.wanted, hacc, hp.hit hslot hlong, Bool.and_self]
    have hres' : resolve g w E.cwd path = some (d, (pathParts path).2) :=
      (hI.resolve_congr hroot hcwd (fun x hxr =>
        write_filter_dir hg hI hd (hh d hd) hrep hx hfile hreach hxr) path).trans hres
    refine ⟨⟨new, ?_, hcont⟩, hres'.trans hres.symm, fun x en hxr hen hf hne => ?_⟩
    · rw [fileAt, hres', Option.bind_some]
      exact lookup_new hg hI hd (hh d hd) hrep (hone d _ hres) hx hwanted
    · obtain ⟨h1, h2⟩ := write_kept hg hI hd (hh d hd) hrep hx hreach hxr hen hf
        fun hc => hne ⟨by rw [hres, hc.1], hc.2⟩
      exact ⟨ht.reach hg hIu hdu hp.isPath (hreach x hxr), h1, h2⟩

variable {s : State} {path : Name} {data : List UInt8}

/-- **After a successful write** the file holds the data, and the other files are as
they were. -/
theorem readFile_writeFile (hg : g.Valid) (hw : WellFormed g (vol g s.disk))
    (hnm : NamesOk g (vol g s.disk)) (hio : IoOk s) (hmem : s.mem = fun _ => true)
    (hcwd : LiveDir g (vol g s.disk) s.cwdCluster) (hp : Readable (pathParts path).2)
    (hone : ∀ d name, resolve g (vol g s.disk) s.cwdCluster path = some (d, name) →
      AtMostOne g (vol g s.disk) d name)
    (hlen : data.length < 2 ^ 32) {bufsize : ℕ} (hb : data.length ≤ bufsize)
    (hok : (fat32WriteFile g path data s).1 = some ()) :
    (fat32ReadFile g path bufsize (fat32WriteFile g path data s).2).1 = some data ∧
      ∀ x en, LiveDir g (vol g s.disk) x → en ∈ entries g (vol g s.disk) x →
        en.slot.isDir = false →
        ¬ (resolve g (vol g s.disk) s.cwdCluster path = some (x, (pathParts path).2) ∧
          en.hit (pathParts path).2 = true) →
        FileKept g (vol g s.disk) (vol g (fat32WriteFile g path data s).2.disk) x en := by
  have hI := hw.inv hg
  have hroot : Reach (subOf g (vol g s.disk)) [rootHead g] g.rootCluster :=
    ⟨.root 0, .root rfl⟩
  obtain ⟨hE, heff⟩ := spec_writeFile (E := s.env True) hg hI hroot hcwd.reach path data s
    (hio.holds_mem hmem) rfl
  rw [hok] at heff
  have hI' := heff.inv hg hI hroot hcwd.reach hp.isPath
  obtain ⟨⟨new, hat, hcont⟩, -, hkept⟩ := heff.success hg hI
    (fun x hx => hnm x (hw.liveDir_iff.mp hx)) hcwd.reach hp hlen hone
  refine ⟨?_, fun x en hx hen hf hne => ?_⟩
  · have hcwd' := (heff.reach hg hI hroot hcwd.reach hp.isPath) hcwd.reach
    have hread := (spec_readFile hg hI' ⟨.root 0, .root rfl⟩ hcwd' path bufsize _ hE
      rfl).2.2 trivial
    rw [hread, hat, Option.map_some, hcont, List.take_of_length_le hb]
  · obtain ⟨h1, h2, h3⟩ := hkept x en hx.reach hen hf hne
    exact ⟨hI'.liveDir_iff.mp h1, h2, h3⟩

/-- **A failed write** to an existing file has not touched the volume, or has removed
the file. -/
theorem writeFile_failed (hg : g.Valid) (hw : WellFormed g (vol g s.disk)) (hio : IoOk s)
    (hcwd : LiveDir g (vol g s.disk) s.cwdCluster) (hp : IsPath (pathParts path).2)
    (hres : resolve g (vol g s.disk) s.cwdCluster path = some (d, name))
    (hf : lookup g (vol g s.disk) acceptFile d name = some en)
    (hfail : (fat32WriteFile g path data s).1 = none) :
    vol g (fat32WriteFile g path data s).2.disk = vol g s.disk ∨
      FileLost g (vol g s.disk) d en (vol g (fat32WriteFile g path data s).2.disk) := by
  have hI := hw.inv hg
  have hroot : Reach (subOf g (vol g s.disk)) [rootHead g] g.rootCluster :=
    ⟨.root 0, .root rfl⟩
  have heff : WriteEff g (s.env False) (vol g s.disk) path data
      (fat32WriteFile g path data s).1 (vol g (fat32WriteFile g path data s).2.disk) :=
    (spec_writeFile hg hI hroot hcwd.reach path data s hio.holds rfl).2
  rw [hfail] at heff
  have hI' := heff.inv hg hI hroot hcwd.reach hp
  generalize vol g (fat32WriteFile g path data s).2.disk = w at heff hI' ⊢
  cases heff with
  | early _ => exact Or.inl rfl
  | @write d' name' u _ _ hres' hrep ht =>
      have heq := Option.some.inj (hres'.symm.trans hres)
      obtain rfl : d' = d := congrArg Prod.fst heq
      obtain rfl : name' = name := congrArg Prod.snd heq
      have hd := hI.resolve_reach hroot hcwd.reach hres
      obtain ⟨hIu, hdu⟩ := Replaced.inv hg hI hd hrep
      obtain ⟨h1, h2, h3⟩ := ht.failed hg hIu hdu (resolve_name hres ▸ hp)
      rcases hrep with ⟨hnone, -⟩ | ⟨en', hf', hc⟩
      · rw [hf] at hnone
        cases hnone
      · obtain rfl := Option.some.inj (hf'.symm.trans hf)
        obtain ⟨hen, hacc, -⟩ := lookup_mem hf
        have hfile := acceptFile_isDir hacc
        refine Or.inr ⟨fun h hl => ?_, fun loc h hl hne => ?_, fun x hx => ?_⟩
        · exact ((hI.cleared_ref hg hd hen hfile hc).mp ((h1 _ _).mp hl.ref)).1 rfl
        · have hru := (hI.cleared_ref hg hd hen hfile hc).mpr ⟨hne, hl.ref⟩
          refine ⟨hI'.live_iff.mp ((h1 _ _).mpr hru), fun hcell => ?_⟩
          exact (hI.cleared_kept hg hd hen hfile hc hl.ref hne hcell).trans
            (h2 loc h hru hcell)
        · obtain ⟨K, -, rfl⟩ := hc
          by_cases hmem : x ∈ chainOf g (vol g s.disk) en'.slot.cluster
          · exact Or.inr hmem
          · have hu := h3 x hx
            rw [Vol.free_next_of_notMem _ hmem] at hu
            exact Or.inl hu

lemma Formatted.namesOk {v : Vol} (hg : g.Valid) (hf : Formatted g v) : NamesOk g v := by
  rintro d ⟨loc, hl⟩ i e he hlive
  obtain rfl : d = g.rootCluster := congrArg Head.cell (hf.ref hg (Live.ref hl)).2
  exact absurd hlive (by simp [Slot.not_live_of_zero (hf.slot_zero hg he)])

/-- An entry is determined by its index. -/
lemma entry_eq_of_idx {v : Vol} {d : ℕ} {a b : Entry} (ha : a ∈ entries g v d)
    (hb : b ∈ entries g v d) (h : a.idx = b.idx) : a = b := by
  have h1 := (mem_decode.mp ha).2
  rw [h, (mem_decode.mp hb).2, Option.some.injEq] at h1
  exact h1.symm

/-- The name `A`. -/
lemma readable_A : Readable (pathParts [0x41]).2 where
  length_le := by decide
  ne_nil := by decide
  ascii := by
    intro c hc
    obtain rfl : c = 0x41 := List.mem_singleton.mp hc
    decide
  short := by decide

/-- A file written to a freshly formatted volume. -/
theorem readFile_writeFile_small :
    (fat32ReadFile smallGeom [0x41] 8
      (fat32WriteFile smallGeom [0x41] [7, 8, 9] (smallState smallFormatted)).2).1
        = some [7, 8, 9] := by
  have hf := smallFormatted_formatted
  have hres : resolve smallGeom (vol smallGeom smallFormatted) 2 [0x41]
      = some (2, [0x41]) := by decide +kernel
  have hidx : ∀ a ∈ entries smallGeom (vol smallGeom smallFormatted) 2,
      ∀ b ∈ entries smallGeom (vol smallGeom smallFormatted) 2, a.idx = b.idx := by
    decide +kernel
  refine (readFile_writeFile (s := smallState smallFormatted) smallGeom_valid
    (hf.wellFormed smallGeom_valid) (hf.namesOk smallGeom_valid) rfl rfl (rootDir_live _)
    readable_A ?_ (by decide) (by decide) (by decide +kernel)).1
  intro d name hres' a ha b hb _ _
  obtain rfl : d = 2 := congrArg Prod.fst (Option.some.inj (hres'.symm.trans hres))
  exact entry_eq_of_idx ha hb (hidx a ha b hb)

/-- A root directory in which the long name of `B` has no start, and its checksum is
in the slot before `A`. -/
def headlessDisk : Disk := smallDisk [0, 0, endMark] fun lba =>
  if lba = 2 then
    dirBuf [lfnSlot [0x78] (sfnChecksum (pad 11 [0x42])) 1 1,
      sfnSlot (pad 11 [0x41]) 0 0 attrArchive,
      lfnSlot [0x79] 0 2 1,
      sfnSlot (pad 11 [0x42]) 0 0 attrArchive]
  else fun _ => 0

lemma headlessDisk_flat : Flat smallGeom (vol smallGeom headlessDisk) where
  root := by decide
  eoc := by decide +kernel
  tail := by decide +kernel
  file := by decide +kernel
  cluster := by decide +kernel
  distinct := by decide +kernel

/-- **A long name without a start** is read with the checksum of an earlier one, and is
lost when the file before it is replaced. -/
theorem name_lost_behind_headless_run :
    ¬ ∀ (g : Geom) (s : State) (path : Name) (data : List UInt8), g.Valid →
      WellFormed g (vol g s.disk) →
      (∀ d, LiveDir g (vol g s.disk) d → ∀ e ∈ (dirSlots g (vol g s.disk) d).drop
        (endIndex (dirSlots g (vol g s.disk) d)), ∀ j, e j = 0) →
      IoOk s → (s.mem = fun _ => true) →
      LiveDir g (vol g s.disk) s.cwdCluster → Readable (pathParts path).2 →
      (∀ d name, resolve g (vol g s.disk) s.cwdCluster path = some (d, name) →
        AtMostOne g (vol g s.disk) d name) →
      data.length < 2 ^ 32 → (fat32WriteFile g path data s).1 = some () →
      ∀ x en, LiveDir g (vol g s.disk) x → en ∈ entries g (vol g s.disk) x →
        en.slot.isDir = false →
        ¬ (resolve g (vol g s.disk) s.cwdCluster path = some (x, (pathParts path).2) ∧
          en.hit (pathParts path).2 = true) →
        FileKept g (vol g s.disk) (vol g (fat32WriteFile g path data s).2.disk) x en := by
  intro hall
  have hres : resolve smallGeom (vol smallGeom headlessDisk) 2 [0x41]
      = some (2, [0x41]) := by decide +kernel
  have hidx : ∀ a ∈ entries smallGeom (vol smallGeom headlessDisk) 2,
      a.wanted acceptFile [0x41] = true → a.idx = 1 := by decide +kernel
  have hkept := hall smallGeom (smallState headlessDisk) [0x41] [] smallGeom_valid
    (headlessDisk_flat.wellFormed smallGeom_valid)
    (by
      intro d hd
      rw [headlessDisk_flat.liveDir hd]
      decide +kernel)
    rfl rfl (rootDir_live _) readable_A
    (by
      intro d name hres' a ha b hb hwa hwb
      have heq := Option.some.inj (hres'.symm.trans hres)
      obtain rfl : d = 2 := congrArg Prod.fst heq
      obtain rfl : name = [0x41] := congrArg Prod.snd heq
      exact entry_eq_of_idx ha hb ((hidx a ha hwa).trans (hidx b hb hwb).symm))
    (by decide) (by decide +kernel)
  -- the entry of `B`, with its long name
  obtain ⟨en, hen, hB, hlong⟩ : ∃ en ∈ entries smallGeom (vol smallGeom headlessDisk) 2,
      (en.slot.isDir = false ∧ en.hit [0x41] = false) ∧ en.long = some [0x79] := by
    decide +kernel
  have hgone : ∀ en ∈ entries smallGeom (vol smallGeom
      (fat32WriteFile smallGeom [0x41] [] (smallState headlessDisk)).2.disk) 2,
      en.long ≠ some [0x79] := by decide +kernel
  have hmem := (hkept 2 en (rootDir_live _) hen hB.1
    (fun h => absurd h.2 (by simp [pathParts, splitPath, hB.2]))).mem
  exact hgone en hmem hlong

/-- A disk without free clusters, with the file `A` in cluster 3. -/
def fullDisk : Disk :=
  smallDisk [0, 0, endMark, endMark, endMark, endMark, endMark, endMark] fun lba =>
    if lba = 2 then dirBuf [sfnSlot (pad 11 [0x41]) 3 1 attrArchive]
    else if lba = 3 then fun _ => 5
    else fun _ => 0

lemma fullDisk_flat : Flat smallGeom (vol smallGeom fullDisk) where
  root := by decide
  eoc := by decide +kernel
  tail := by decide +kernel
  file := by decide +kernel
  cluster := by decide +kernel
  distinct := by decide +kernel

/-- A file of one cluster overwritten with one of two clusters on a full disk. -/
theorem writeFile_failed_full :
    vol smallGeom (fat32WriteFile smallGeom [0x41] (List.replicate 513 7)
        (smallState fullDisk)).2.disk = vol smallGeom fullDisk ∨
      ∃ en, FileLost smallGeom (vol smallGeom fullDisk) 2 en
        (vol smallGeom (fat32WriteFile smallGeom [0x41] (List.replicate 513 7)
          (smallState fullDisk)).2.disk) := by
  have hsome : (lookup smallGeom (vol smallGeom fullDisk) acceptFile 2 [0x41]).isSome := by
    decide +kernel
  obtain ⟨en, hen⟩ := Option.isSome_iff_exists.mp hsome
  exact (writeFile_failed (s := smallState fullDisk) smallGeom_valid
    (fullDisk_flat.wellFormed smallGeom_valid) rfl (rootDir_live _) (by decide)
    (by decide +kernel) hen (by decide +kernel)).imp_right fun h => ⟨en, h⟩

/-- **The old contents are lost** when a file is overwritten on a full disk. -/
theorem overwrite_loses_file :
    ¬ ∀ (g : Geom) (s : State) (path : Name) (data : List UInt8) (en : Entry), g.Valid →
      WellFormed g (vol g s.disk) → IoOk s → LiveDir g (vol g s.disk) s.cwdCluster →
      IsPath path → fileAt g (vol g s.disk) s.cwdCluster path = some en →
      (fat32WriteFile g path data s).1 = none →
      (fat32ReadFile g path en.slot.size
          ((fat32WriteFile g path data s).2.withMem fun _ => true)).1
        = some (contents g (vol g s.disk) en) ∧
      ∀ c, g.InRange c → ((vol g (fat32WriteFile g path data s).2.disk).next c = 0 ↔
        (vol g s.disk).next c = 0) := by
  intro hall
  have hsome : (fileAt smallGeom (vol smallGeom fullDisk) 2 [0x41]).isSome := by
    decide +kernel
  obtain ⟨en, hen⟩ := Option.isSome_iff_exists.mp hsome
  have hread := (hall smallGeom (smallState fullDisk) [0x41] (List.replicate 513 7) en
    smallGeom_valid (fullDisk_flat.wellFormed smallGeom_valid) rfl (rootDir_live _)
    (by decide) hen (by decide +kernel)).1
  have hsize : en.slot.size = 1 := by
    have h1 : (fileAt smallGeom (vol smallGeom fullDisk) 2 [0x41]).map
        (fun en => en.slot.size) = some 1 := by decide +kernel
    rw [hen, Option.map_some, Option.some.injEq] at h1
    exact h1
  have hnone : (fat32ReadFile smallGeom [0x41] 1
      ((fat32WriteFile smallGeom [0x41] (List.replicate 513 7)
        (smallState fullDisk)).2.withMem fun _ => true)).1 = none := by decide +kernel
  rw [hsize, hnone] at hread
  cases hread

end

end GordOS.Fat32
