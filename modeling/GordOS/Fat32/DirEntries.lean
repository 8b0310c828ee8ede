/-
What the operations do to the entries of the directories.

* `Inv.cleared_slots`, `Inv.cleared_entries`: the removal of a file;
* `Inv.append_grown`: new slots behind the last used one of a directory;
* `Kept`: an object whose clusters and bytes stay, with `Inv.cleared_kept`,
  `Inv.wrote_kept` and `Inv.append_kept`;
* `contents`: the bytes of a file;
* `Created.extended_none`, `Created.extended_some`: an attempt to create an entry.
-/
import Mathlib.Tactic
import GordOS.Fat32.Runs
import GordOS.Fat32.Preserve

namespace GordOS.Fat32

open GordOS

section

variable {g : Geom} {E : Env} {v w u : Vol} {R : List (Head ℕ)} {d : ℕ} {en : Entry}
variable {loc : Loc ℕ} {h : Head ℕ}

/-! ### Objects that stay -/

/-- The clusters of the object and their bytes are the same in both volumes. -/
structure Kept (g : Geom) (v w : Vol) (h : Head ℕ) : Prop where
  cells : cellsOf g w h = cellsOf g v h
  data : ∀ x ∈ cellsOf g v h, w.data x = v.data x

lemma Kept.refl (v : Vol) (h : Head ℕ) : Kept g v v h := ⟨rfl, fun _ _ => rfl⟩

lemma Kept.trans (h₁ : Kept g v w h) (h₂ : Kept g w u h) : Kept g v u h :=
  ⟨h₂.cells.trans h₁.cells, fun x hx =>
    (h₂.data x (h₁.cells ▸ hx)).trans (h₁.data x hx)⟩

/-- The bytes of the file of an entry. -/
def contents (g : Geom) (v : Vol) (en : Entry) : List UInt8 :=
  fileBytes g v (chainOf g v en.slot.cluster) en.slot.size

lemma Kept.contents (hk : Kept g v w ⟨en.slot.cluster, en.slot.isDir⟩) :
    contents g w en = contents g v en := by
  have hc : chainOf g w en.slot.cluster = chainOf g v en.slot.cluster := hk.cells
  rw [Fat32.contents, Fat32.contents, hc]
  exact fileBytes_congr _ hk.data

lemma Same.kept (hg : g.Valid) (hI : Inv g v R) (hs : Same g v w R) (hr : Ref (subOf g v) R loc h) :
    Kept g v w h :=
  ⟨hs.cells hg hI hr, fun x hx => hs.data loc h x hr hx⟩

/-- A file does not begin where a directory does. -/
lemma Inv.file_cell_ne (hI : Inv g v R) (hd : Reach (subOf g v) R d)
    (hr : Ref (subOf g v) R loc h) (hf : h.isDir = false) : h.cell ≠ d := by
  rintro rfl
  obtain ⟨ld, hld⟩ := hd
  have h2 := (hI.dir_chain ⟨ld, hld⟩).inRange _ (Chain.head_mem (hI.dir_chain ⟨ld, hld⟩))
  have h0 : h.isDir = true ∨ h.cell ≠ 0 := Or.inr (by have := h2.1; omega)
  have heq := hI.loc_eq hld hr (hI.cell_mem hld (Or.inl rfl)) (hI.cell_mem hr h0)
  subst heq
  rw [← hld.unique hr] at hf
  cases hf

lemma Inv.kept_off (hg : g.Valid) (hI : Inv g v R) (hd : Reach (subOf g v) R d)
    (ha : AgreeOff g v w R d) (hr : Ref (subOf g v) R loc h) (hne : h.cell ≠ d) :
    Kept g v w h :=
  ⟨hI.cells_off hg hd ha hr hne, fun x hx =>
    (ha loc h x hr hx (hI.disjoint_dir hd hr hne x hx)).2⟩

/-! ### The removal of a file -/

section

variable (hg : g.Valid) (hI : Inv g v R) (hd : Reach (subOf g v) R d)
variable (hen : en ∈ entries g v d) (hf : en.slot.isDir = false)
variable (hc : Cleared g E v d en w)

include hg hI hd hen hf hc

/-- The removal as two steps: the slots are marked, and then only clusters that no
object owns any more change. -/
lemma Inv.cleared_via : ∃ K, Marks E (dirSlots g v d) en.idx K ∧ Inv g (v.killIn g d K) R ∧
      Same g (v.killIn g d K) w R ∧
      ∀ loc h, Ref (subOf g v) R loc h → loc ≠ .slot d en.idx →
        Ref (subOf g (v.killIn g d K)) R loc h := by
  have href : ∀ loc h, Ref (subOf g w) R loc h ↔ loc ≠ .slot d en.idx ∧ Ref (subOf g v) R loc h :=
    fun _ _ => hI.cleared_ref hg hd hen hf hc
  obtain ⟨K, hK, rfl⟩ := hc
  have hI' := hI.kill hg hd (mem_entries hen).1 hK (hI.file_head hd hen hf)
  have hs : Same g (v.killIn g d K) ((v.killIn g d K).free (chainOf g v en.slot.cluster)) R := by
    have := hI'.free_same
    rwa [cellsOf_killIn] at this
  refine ⟨K, hK, hI'.dropRoot rfl, hs, fun loc h hr hne => ?_⟩
  exact (hs.ref_iff hg (hI'.dropRoot rfl)).mp ((href loc h).mpr ⟨hne, hr⟩)

lemma Inv.cleared_slots : ∃ K, Marks E (dirSlots g v d) en.idx K ∧
      dirSlots g w d = killAt K (dirSlots g v d) ∧
      ∀ x, Reach (subOf g v) R x → x ≠ d → dirSlots g w x = dirSlots g v x := by
  obtain ⟨K, hK, hI', hs, -⟩ := hI.cleared_via hg hd hen hf hc
  have hk := (mem_entries hen).1
  have hslots : ∀ x, Reach (subOf g v) R x →
      dirSlots g w x = dirSlots g (v.killIn g d K) x := fun x hx =>
    hs.slots hg hI' ((hs.reach_iff hg hI').mp ((hI.cleared_reach hg hd hen hf hc).mpr hx))
  refine ⟨K, hK, ?_, fun x hx hne => ?_⟩
  · exact (hslots d hd).trans (hI.killIn_slots hg hd hk hK)
  · exact (hslots x hx).trans (hI.killIn_slots_ne hg hd hk hK hx hne)

/-- The removal takes the entry out of its directory. -/
lemma Inv.cleared_entries (hh : Headed (dirSlots g v d)) :
    entries g w d = (entries g v d).filter fun x => x.idx != en.idx := by
  obtain ⟨K, hK, hs, -⟩ := hI.cleared_slots hg hd hen hf hc
  obtain ⟨hk, hl⟩ := mem_entries hen
  rw [entries, hs]
  exact decode_killAt hK hk hl hh (lt_endIndex_of_live (hI.tail d hd) hk hl)

/-- The objects other than the directory and the file stay. -/
lemma Inv.cleared_kept (hr : Ref (subOf g v) R loc h) (hne : loc ≠ .slot d en.idx)
    (hcell : h.cell ≠ d) : Kept g v w h := by
  obtain ⟨K, hK, hI', hs, href⟩ := hI.cleared_via hg hd hen hf hc
  have hagree := Inv.killIn_agree (R := R) (mem_entries hen).1 hK
  exact (hI.kept_off hg hd hagree hr hcell).trans (hs.kept hg hI' (href loc h hr hne))

end

/-! ### New slots -/

section

variable {ext : List ℕ} {n : ℕ} {es : List Slot} {s : Slot}
variable (hg : g.Valid) (hI : Inv g v R) (hd : Reach (subOf g v) R d)
variable (ha : Appended g v d (chainOf g v d) (endIndex (dirSlots g v d)) es w ext n)

include hg hI hd ha

lemma Inv.append_grown : Grown (dirSlots g v d) es n (dirSlots g w d) where
  le := ha.le
  lt _ hi := append_slot_lt hg ha hi
  mid _ hi := append_slot_mid hg ha hi
  ge _ _ hi he := hI.append_slot_ge hg hd ha hi he

/-- The objects other than the directory stay. -/
lemma Inv.append_kept (hr : Ref (subOf g v) R loc h) (hne : h.cell ≠ d) : Kept g v w h :=
  hI.kept_off hg hd (hI.append_agree ha) hr hne

end

/-- What an attempt to create an entry leaves: the other objects as they were, and
behind the entries of the directory the new one, if any. -/
structure Extended (g : Geom) (v : Vol) (R : List (Head ℕ)) (d : ℕ) (news : List Entry)
    (w : Vol) : Prop where
  entries_eq : entries g w d = entries g v d ++ news
  other : ∀ x, Reach (subOf g v) R x → x ≠ d → dirSlots g w x = dirSlots g v x
  kept : ∀ loc h, Ref (subOf g v) R loc h → h.cell ≠ d → Kept g v w h

section

variable {name : Name} {c z : ℕ} {a : UInt8} {r : Option Unit}
variable (hg : g.Valid) (hI : Inv g v R) (hd : Reach (subOf g v) R d)
variable (hp : IsPath name)

include hg hI hd hp

/-- An attempt that fails adds no entry. -/
lemma Created.extended_none (hc : Created g E v d name c z a none w) : Extended g v R d [] w := by
  rcases hc with ⟨-, rfl, -⟩ | ⟨ext, n, ha, hr⟩
  · exact ⟨by simp, fun _ _ _ => rfl, fun _ h _ _ => Kept.refl w h⟩
  · have hG := hI.append_grown hg hd ha
    refine ⟨?_, fun x hx hne => hI.append_slots_ne hg hd ha hx hne,
      fun loc h hr hne => hI.append_kept hg hd ha hr hne⟩
    have hn : n ≠ (entrySlots name c z a).length := by
      have := hr.mp rfl
      omega
    rw [entries, hG.decode_eq (entrySlots_spec hp c z a), if_neg hn]
    rfl

/-- An attempt that succeeds adds the entry with the new name. -/
lemma Created.extended_some (hc : Created g E v d name c z a (some ()) w)
    (hl : (sfnSlot (newSfn name) c z a).live = true) :
    ∃ en, Extended g v R d [en] w ∧ en.slot = sfnSlot (newSfn name) c z a ∧
      (lfnEntriesNeeded name ≠ 0 → en.long = some (name.map lfnAscii)) ∧
      (lfnEntriesNeeded name = 0 →
        runOf (dirSlots g v d) (endIndex (dirSlots g v d)) = [] → en.long = none) := by
  rcases hc with ⟨h, -⟩ | ⟨ext, n, ha, hr⟩
  · cases h
  · have hG := hI.append_grown hg hd ha
    have hn : n = (entrySlots name c z a).length := by
      have h1 : ¬ n < (entrySlots name c z a).length := by simp [← hr]
      have h2 := ha.le
      omega
    obtain ⟨en, hen, hslot, hlong, hnone⟩ := hG.new_entry hp hn hl
    refine ⟨en, ⟨?_, fun x hx hne => hI.append_slots_ne hg hd ha hx hne,
      fun loc h hr hne => hI.append_kept hg hd ha hr hne⟩, hslot, hlong, hnone⟩
    rw [entries, hG.decode_eq (entrySlots_spec hp c z a), if_pos hn, hen]
    rfl

end

end

end GordOS.Fat32
