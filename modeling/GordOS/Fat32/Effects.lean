/-
What each operation does to the volume.

* `Cleared`, `Created`: a file removed from a directory, and the attempt to create
  an entry;
* `WriteEff`, `DeleteEff`, `RenameEff`, `MkdirEff`: the ends an operation can come
  to, with the volume it leaves;
* `spec_writeFile`, `spec_deleteFile`, `spec_renameFile`, `spec_mkdir`: the
  operations come to one of them.
-/
import Mathlib.Tactic
import GordOS.Fat32.Resolve

namespace GordOS.Fat32

open GordOS GordOS.Fallible

section

variable (g : Geom) (E : Env) (v : Vol)

/-- The file of the entry `en` of the directory `d` is removed: its slots are
marked and its clusters free. -/
def Cleared (d : ℕ) (en : Entry) (v' : Vol) : Prop :=
  ∃ K, Marks E (dirSlots g v d) en.idx K ∧
    v' = (v.killIn g d K).free (chainOf g v en.slot.cluster)

/-- The entry a scan of the directory `d` finds. -/
def lookup (accept : UInt8 → Bool) (d : ℕ) (name : Name) : Option Entry :=
  (entries g v d).find? (Entry.wanted accept name)

/-- The file `name` of the directory `d` is removed if there is one. -/
def Replaced (d : ℕ) (name : Name) (v' : Vol) : Prop :=
  (lookup g v acceptFile d name = none ∧ v' = v) ∨
  ∃ en, lookup g v acceptFile d name = some en ∧ Cleared g E v d en v'

/-- What the creation of an entry in the directory `d` comes to. -/
def Created (d : ℕ) (name : Name) (c n : ℕ) (a : UInt8) (r : Option Unit)
    (v' : Vol) : Prop :=
  (r = none ∧ v' = v ∧ ¬ E.memOk) ∨
  AppendPost g v d (chainOf g v d) (endIndex (dirSlots g v d))
    (entrySlots name c n a) r v'

/-- The second half of `fat32_write_file`: the data, then the entry. -/
inductive WriteTail (d : ℕ) (name : Name) (data : List UInt8) :
    Option Unit → Vol → Prop where
  | empty {r v'} : data = [] → Created g E v d name 0 0 attrArchive r v' →
      WriteTail d name data r v'
  | noMemory : data ≠ [] → ¬ E.memOk → WriteTail d name data none v
  | full {v' new} : data ≠ [] → Wrote g v [] (fileChunks g data) v' new →
      new.length < (fileChunks g data).length → WriteTail d name data none v'
  | stored {w new a r v'} : data ≠ [] → Wrote g v [] (fileChunks g data) w new →
      new.length = (fileChunks g data).length → IsChain g w a new →
      Created g E w d name a data.length attrArchive r v' →
      WriteTail d name data r v'

/-- What `fat32_write_file` comes to. -/
inductive WriteEff (path : Name) (data : List UInt8) : Option Unit → Vol → Prop where
  | early : (E.memOk → resolve g v E.cwd path = none) → WriteEff path data none v
  | write {d name w r v'} : resolve g v E.cwd path = some (d, name) →
      Replaced g E v d name w → WriteTail g E w d name data r v' →
      WriteEff path data r v'

/-- What `fat32_delete_file` comes to. -/
inductive DeleteEff (path : Name) : Option Unit → Vol → Prop where
  | early : (E.memOk → ∀ d name, resolve g v E.cwd path = some (d, name) →
      lookup g v acceptFile d name = none) → DeleteEff path none v
  | delete {d name en v'} : resolve g v E.cwd path = some (d, name) →
      lookup g v acceptFile d name = some en → Cleared g E v d en v' →
      DeleteEff path (some ()) v'

/-- What `fat32_rename_file` comes to. -/
inductive RenameEff (oldpath newname : Name) : Option Unit → Vol → Prop where
  | early : (E.memOk → ∀ d name, resolve g v E.cwd oldpath = some (d, name) →
      lookup g v acceptAny d name = none) → RenameEff oldpath newname none v
  | rename {d name en K r v'} : resolve g v E.cwd oldpath = some (d, name) →
      lookup g v acceptAny d name = some en →
      Marks E (dirSlots g v d) en.idx K →
      Created g E (v.killIn g d K) d newname en.slot.cluster en.slot.size
        en.slot.attr r v' →
      RenameEff oldpath newname r v'

/-- The volume with the first cluster of a new directory. -/
def Vol.newDir (new parent : ℕ) : Vol :=
  (v.setNext new endMark).setData new (g.trim (newDirBuf new parent))

/-- What `fat32_mkdir` comes to. -/
inductive MkdirEff (path : Name) : Option Unit → Vol → Prop where
  | early : (E.memOk → resolve g v E.cwd path = none ∨ firstFree g v = none) →
      MkdirEff path none v
  | noMemory {new} : ¬ E.memOk → g.InRange new → v.next new = 0 →
      MkdirEff path none (v.setNext new endMark)
  | mkdir {d name new r v'} : resolve g v E.cwd path = some (d, name) →
      g.InRange new → v.next new = 0 →
      Created g E (Vol.newDir g v new d) d name new 0 attrDirectory r v' →
      MkdirEff path r v'

end

section

variable {g : Geom} {E : Env} {v : Vol} {R : List (Head ℕ)} {d : ℕ} {en : Entry}

lemma lookup_mem {accept : UInt8 → Bool} {name : Name} (h : lookup g v accept d name = some en) :
    en ∈ entries g v d ∧ accept en.slot.attr = true ∧ en.hit name = true := by
  have hw := List.find?_some h
  rw [Entry.wanted, Bool.and_eq_true] at hw
  exact ⟨List.mem_of_find?_eq_some h, hw.1, hw.2⟩

lemma acceptFile_isDir {e : Slot} (h : acceptFile e.attr = true) : e.isDir = false := by
  simpa [acceptFile, Slot.isDir] using h

/-- A file is not called `.` or `..`. -/
lemma Inv.file_not_dot (hI : Inv g v R) (hd : Reach (subOf g v) R d)
    (hen : en ∈ entries g v d) (hf : en.slot.isDir = false) : ¬ en.slot.isDot := by
  intro hdot
  obtain ⟨h1, h2⟩ := mem_entries hen
  have := (hI.dots d hd _ _ h1 h2 hdot).1
  rw [hf] at this
  cases this

lemma spec_createEntry (hg : g.Valid) (hd : IsChain g v d (chainOf g v d))
    (name : Name) (c n : ℕ) (a : UInt8) :
    VSpec g E (fat32CreateEntry g name d c n a) v (Created g E v d name c n a) := by
  rw [fat32CreateEntry]
  refine spec_kmalloc.bind ?_ fun v' h => Or.inl ⟨rfl, h.1, fun hm => ?_⟩
  · rintro - v' ⟨rfl, -⟩
    exact spec_dirWriteEntries hg hd (by simp [entrySlots])
  · exact absurd (h.2 hm) (by simp)

lemma foundAt_slot (l : List ℕ) (q i : ℕ) (e : Slot) : (foundAt g v l q i e).slot = e := rfl

lemma foundAt_free (l L : List ℕ) (q i : ℕ) (e : Slot) :
    foundAt g (v.free l) L q i e = foundAt g v L q i e := rfl

lemma slotsIn_free (l L : List ℕ) : slotsIn g (v.free l) L = slotsIn g v L := rfl

lemma Vol.kill_free (l : List ℕ) (ps : List (ℕ × ℕ)) :
    (v.free l).kill ps = (v.kill ps).free l := rfl

/-- Freeing the chain of a file and marking its slots. -/
lemma spec_removeFile (hg : g.Valid) (hI : Inv g v R) (hd : Reach (subOf g v) R d)
    (hen : en ∈ entries g v d) (hf : en.slot.isDir = false) :
    VSpec g E (removeFile g (foundAt g v (chainOf g v d)
        (en.idx / g.entriesPerCluster) (en.idx % g.entriesPerCluster) en.slot)) v
      fun r v' => r = some () ∧ Cleared g E v d en v' := by
  have hdot := hI.file_not_dot hd hen hf
  have hr := ref_entry hd hen hdot
  have hchain := hI.dir_chain hd
  have hidx : en.idx < (chainOf g v d).length * g.entriesPerCluster := by
    have := (List.getElem?_eq_some_iff.mp (mem_entries hen).1).1
    rwa [dirSlots_length] at this
  rw [removeFile, foundAt_slot]
  by_cases hc : 2 ≤ en.slot.cluster
  · have hl : IsChain g v en.slot.cluster (chainOf g v en.slot.cluster) :=
      hI.chain _ _ hr (Or.inr (by simp only; omega))
    rw [if_pos hc]
    refine (det_fatFreeChain hg hl).bind ?_
    -- the directory keeps its chain
    have hchain' : IsChain g (v.free (chainOf g v en.slot.cluster)) d (chainOf g v d) := by
      refine hchain.congr fun x hx => Vol.free_next_of_notMem _ fun hx' => ?_
      obtain ⟨ld, hld⟩ := hd
      have heq := hI.loc_eq hld hr hx hx'
      subst heq
      have := hld.unique hr
      rw [Head.mk.injEq, hf] at this
      exact absurd this.2 (by simp)
    rw [← foundAt_free (chainOf g v en.slot.cluster)]
    refine (spec_markDeleted hg en.slot hchain' hidx).mono ?_
    rintro r v' ⟨hr', K, hK, rfl⟩
    rw [slotsIn_free] at hK
    exact ⟨hr', K, hK, Vol.kill_free _ _⟩
  · -- an empty file has no chain
    have h0 : en.slot.cluster = 0 := by
      by_contra hne
      have := (hI.chain _ _ hr (Or.inr hne)).inRange _ (hI.cell_mem hr (Or.inr hne))
      exact hc this.1
    rw [if_neg hc]
    refine (spec_markDeleted hg en.slot hchain hidx).mono ?_
    rintro r v' ⟨hr', K, hK, rfl⟩
    refine ⟨hr', K, hK, ?_⟩
    rw [h0, chainOf_zero, Vol.free_nil]
    rfl

/-- The chain of a directory after the removal of a file. -/
lemma Inv.cleared_chain (hI : Inv g v R) (hd : Reach (subOf g v) R d) (hen : en ∈ entries g v d)
    (hf : en.slot.isDir = false) {w : Vol} (hc : Cleared g E v d en w) :
    IsChain g w d (chainOf g v d) := by
  obtain ⟨K, -, rfl⟩ := hc
  obtain ⟨ld, hld⟩ := hd
  have hr := ref_entry ⟨ld, hld⟩ hen (hI.file_not_dot ⟨ld, hld⟩ hen hf)
  refine (hI.dir_chain ⟨ld, hld⟩).congr fun x hx => ?_
  refine Vol.free_next_of_notMem _ fun hx' => ?_
  have heq := hI.loc_eq hld hr hx hx'
  subst heq
  have := hld.unique hr
  rw [Head.mk.injEq, hf] at this
  exact absurd this.2 (by simp)

/-- The first scan of an operation: it may run out of memory, or finds what
`lookup` says. -/
lemma spec_scan {α : Type} (hg : g.Valid) (hI : Inv g v R)
    (hroot : Reach (subOf g v) R g.rootCluster) (hcwd : Reach (subOf g v) R E.cwd)
    (accept : UInt8 → Bool) (path : Name) {F : ℕ × Name → M α}
    (f : ℕ → Name → Option Found → M α) {Q : Option α → Vol → Prop}
    (hF : ∀ d name, F (d, name) = kmalloc >>= fun _ => trackScan g accept name d >>= f d name)
    (hearly : (E.memOk → resolve g v E.cwd path = none) → Q none v)
    (hf : ∀ d name, resolve g v E.cwd path = some (d, name) → Reach (subOf g v) R d →
      VSpec g E (f d name ((lookup g v accept d name).map fun en =>
        foundAt g v (chainOf g v d) (en.idx / g.entriesPerCluster)
          (en.idx % g.entriesPerCluster) en.slot)) v Q) :
    VSpec g E (fat32ResolvePath g path >>= F) v Q := by
  refine (spec_resolvePath hg hI hroot hcwd path).bind ?_ ?_
  · rintro ⟨d, name⟩ v' ⟨rfl, h1, -⟩
    obtain ⟨hres, hd⟩ := h1 _ rfl
    rw [hF]
    refine spec_kmalloc.bind ?_ ?_
    · rintro - v' ⟨rfl, -⟩
      exact (det_trackScan hg accept name (hI.dir_chain hd)).bind (hf d name hres hd)
    · rintro v' ⟨rfl, hm⟩
      exact hearly fun h => absurd (hm h) (by simp)
  · rintro v' ⟨rfl, -, h2⟩
    exact hearly fun h => (h2 h).symm

/-- The second half of `fat32_write_file`. -/
lemma spec_writeTail (hg : g.Valid) {L : List ℕ} (hd : IsChain g v d L)
    (name : Name) (data : List UInt8) :
    VSpec g E (if data.length = 0 then fat32CreateEntry g name d 0 0 attrArchive
      else do
        kmalloc
        let first ← writeDataLoop g (fileChunks g data) 0 0
        fat32CreateEntry g name d first data.length attrArchive) v
      (WriteTail g E v d name data) := by
  have hself : ∀ {w : Vol}, IsChain g w d L → IsChain g w d (chainOf g w d) := by
    intro w hw
    rwa [hw.chainOf_eq hg]
  by_cases h0 : data = []
  · rw [if_pos (by simpa using h0)]
    exact (spec_createEntry hg (hself hd) name 0 0 attrArchive).mono fun r v' h => .empty h0 h
  · rw [if_neg (by simpa using h0)]
    refine spec_kmalloc.bind ?_ ?_
    · rintro - v' ⟨rfl, -⟩
      refine (spec_writeDataLoop hg (fileChunks_ne_nil hg h0)).bind ?_ ?_
      · rintro a w ⟨new, hw, hn, hc⟩
        have hlen : new.length = (fileChunks g data).length := by
          have h1 : ¬ new.length < (fileChunks g data).length := by simp [← hn]
          have h2 := hw.le
          omega
        -- the directory owns none of the clusters that were free
        have hd' : IsChain g w d L := by
          refine hd.congr fun x hx => hw.next_eq x (by simp) fun hx' => ?_
          exact hd.next_ne_zero x hx (hw.fresh x hx').2
        exact (spec_createEntry hg (hself hd') name a data.length attrArchive).mono
          fun r v' h => .stored h0 hw hlen (hc a rfl) h
      · rintro w ⟨new, hw, hn, -⟩
        exact .full h0 hw (hn.mp rfl)
    · rintro v' ⟨rfl, hm⟩
      exact .noMemory h0 fun h => absurd (hm h) (by simp)

/-- **`fat32_write_file`.** -/
theorem spec_writeFile (hg : g.Valid) (hI : Inv g v R) (hroot : Reach (subOf g v) R g.rootCluster)
    (hcwd : Reach (subOf g v) R E.cwd) (path : Name) (data : List UInt8) :
    VSpec g E (fat32WriteFile g path data) v (WriteEff g E v path data) := by
  rw [fat32WriteFile]
  refine spec_scan hg hI hroot hcwd acceptFile path _ (fun _ _ => rfl)
    WriteEff.early fun d name hres hd => ?_
  cases hf : lookup g v acceptFile d name with
  | none =>
    exact (spec_writeTail hg (hI.dir_chain hd) name data).mono
      fun r v' h => .write hres (Or.inl ⟨hf, rfl⟩) h
  | some en =>
    obtain ⟨hen, hacc, -⟩ := lookup_mem hf
    have hfile := acceptFile_isDir hacc
    refine (spec_removeFile hg hI hd hen hfile).bind ?_ ?_
    · rintro - w ⟨-, hc⟩
      exact (spec_writeTail hg (hI.cleared_chain hd hen hfile hc) name data).mono
        fun r v' h => .write hres (Or.inr ⟨en, hf, hc⟩) h
    · rintro w ⟨h, -⟩
      cases h

/-- **`fat32_delete_file`.** -/
theorem spec_deleteFile (hg : g.Valid) (hI : Inv g v R) (hroot : Reach (subOf g v) R g.rootCluster)
    (hcwd : Reach (subOf g v) R E.cwd) (path : Name) :
    VSpec g E (fat32DeleteFile g path) v (DeleteEff g E v path) := by
  rw [fat32DeleteFile]
  refine spec_scan hg hI hroot hcwd acceptFile path _ (fun _ _ => rfl)
    (fun h => DeleteEff.early fun hm d name hres => ?_) fun d name hres hd => ?_
  · rw [h hm] at hres
    cases hres
  · cases hf : lookup g v acceptFile d name with
    | none =>
      refine Spec.fail (.early fun _ d' name' hres' => ?_)
      rw [hres, Option.some.injEq, Prod.mk.injEq] at hres'
      rw [← hres'.1, ← hres'.2, hf]
    | some en =>
      obtain ⟨hen, hacc, -⟩ := lookup_mem hf
      refine (spec_removeFile hg hI hd hen (acceptFile_isDir hacc)).mono ?_
      rintro r w ⟨rfl, hc⟩
      exact .delete hres hf hc

/-- **`fat32_rename_file`.** -/
theorem spec_renameFile (hg : g.Valid) (hI : Inv g v R) (hroot : Reach (subOf g v) R g.rootCluster)
    (hcwd : Reach (subOf g v) R E.cwd) (oldpath newname : Name) :
    VSpec g E (fat32RenameFile g oldpath newname) v (RenameEff g E v oldpath newname) := by
  rw [fat32RenameFile]
  refine spec_scan hg hI hroot hcwd acceptAny oldpath _ (fun _ _ => rfl)
    (fun h => RenameEff.early fun hm d name hres => ?_) fun d name hres hd => ?_
  · rw [h hm] at hres
    cases hres
  · cases hf : lookup g v acceptAny d name with
    | none =>
      refine Spec.fail (.early fun _ d' name' hres' => ?_)
      rw [hres, Option.some.injEq, Prod.mk.injEq] at hres'
      rw [← hres'.1, ← hres'.2, hf]
    | some en =>
      obtain ⟨hen, -, -⟩ := lookup_mem hf
      have hidx : en.idx < (chainOf g v d).length * g.entriesPerCluster := by
        have := (List.getElem?_eq_some_iff.mp (mem_entries hen).1).1
        rwa [dirSlots_length] at this
      refine (spec_markDeleted hg en.slot (hI.dir_chain hd) hidx).bind ?_ ?_
      · rintro - w ⟨-, K, hK, rfl⟩
        have hd' : IsChain g (v.killIn g d K) d (chainOf g (v.killIn g d K) d) := by
          rw [chainOf_killIn]
          exact (hI.dir_chain hd).congr fun _ _ => rfl
        exact (spec_createEntry hg hd' newname en.slot.cluster en.slot.size
          en.slot.attr).mono fun r v' h => .rename hres hf hK h
      · rintro w ⟨h, -⟩
        cases h

/-- **`fat32_mkdir`.** -/
theorem spec_mkdir (hg : g.Valid) (hI : Inv g v R) (hroot : Reach (subOf g v) R g.rootCluster)
    (hcwd : Reach (subOf g v) R E.cwd) (path : Name) :
    VSpec g E (fat32Mkdir g path) v (MkdirEff g E v path) := by
  rw [fat32Mkdir]
  refine (spec_resolvePath hg hI hroot hcwd path).bind ?_ ?_
  · rintro ⟨d, name⟩ v' ⟨rfl, h1, -⟩
    obtain ⟨hres, hd⟩ := h1 _ rfl
    refine (det_alloc hg).bind ?_ ?_
    · rintro new w (⟨h, rfl, hf⟩ | ⟨new', h, hr, h0, rfl⟩)
      · obtain rfl : new = 0 := by simpa using h
        rw [if_pos rfl]
        exact Spec.fail (.early fun _ => Or.inr hf)
      · obtain rfl : new = new' := by simpa using h
        have hn0 : new ≠ 0 := by
          have := hr.1
          omega
        rw [if_neg hn0]
        refine spec_kmalloc.bind ?_ ?_
        · rintro - w ⟨rfl, -⟩
          refine (det_writeCluster hg _ hr).attempt.bind ?_
          have hd' : IsChain g (Vol.newDir g v' new d) d (chainOf g (Vol.newDir g v' new d) d) := by
            have hchain : IsChain g (Vol.newDir g v' new d) d (chainOf g v' d) := by
              refine (hI.dir_chain hd).congr fun x hx => ?_
              have hxn : x ≠ new := by
                rintro rfl
                exact (hI.dir_chain hd).next_ne_zero x hx h0
              rw [Vol.newDir, Vol.setData_next, Vol.setNext_next_ne _ _ _ _ hxn]
            rwa [hchain.chainOf_eq hg]
          exact (spec_createEntry hg hd' name new 0 attrDirectory).mono
            fun r v'' h => .mkdir hres hr h0 h
        · rintro w ⟨rfl, hm⟩
          exact .noMemory (fun h => absurd (hm h) (by simp)) hr h0
    · rintro w (⟨h, -⟩ | ⟨_, h, -⟩) <;> cases h
  · rintro v' ⟨rfl, -, h2⟩
    exact .early fun hm => Or.inl (h2 hm).symm

end

end GordOS.Fat32
