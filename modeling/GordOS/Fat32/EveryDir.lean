/-
What holds of the slots of every directory.

The calls change the slots of a directory in two ways: an entry is removed, or a new one
stands at its end. A property of slots that both keep, and that the slots of a new directory
have, holds of every directory in every run.

* `DirRule P D`: removals keep `D`, and so do new entries under names that `P` allows;
* `EveryDir`: the invariant of the volume, with `D` for the slots of each directory that is
  reached;
* `WriteEff.everyDir`, `DeleteEff.everyDir`, `MkdirEff.everyDir`, `RenameEff.everyDir`:
  **the operations keep it**;
* `Op.everyDir`: one call.
-/
import Mathlib.Tactic
import GordOS.Fat32.Overwrite

namespace GordOS.Fat32

open GordOS GordOS.Fallible

/-- Removals keep `D`, new entries keep it under names that `P` allows for the slots so far,
and new directories have it. -/
structure DirRule (P : List Slot → Name → Prop) (D : List Slot → Prop) : Prop where
  kill : ∀ {E : Env} {ss : List Slot} {k : ℕ} {K : List ℕ} {e : Slot}, D ss →
    (∀ i e, ss[i]? = some e → endIndex ss ≤ i → e 0 = 0) → Marks E ss k K →
    ss[k]? = some e → e.live = true → ¬ e.isDot → k < endIndex ss → D (killAt K ss)
  grow : ∀ {ss ss' : List Slot} {name : Name} {c z : ℕ} {a : UInt8} {n : ℕ}, D ss →
    (∀ i e, ss[i]? = some e → endIndex ss ≤ i → e 0 = 0) → IsPath name → a ≠ 0x0F →
    P ss name → Grown ss (entrySlots name c z a) n ss' → D ss'
  new : ∀ {g : Geom} {v : Vol} {new : ℕ}, g.Valid → g.InRange new → ∀ p,
    D (dirSlots g (Vol.newDir g v new p) new)

/-- The invariant, with `D` for the slots of each directory. -/
structure EveryDir (D : List Slot → Prop) (g : Geom) (v : Vol) (R : List (Head ℕ)) : Prop where
  inv : Inv g v R
  dirs : ∀ x, Reach (subOf g v) R x → D (dirSlots g v x)

/-- The name is allowed behind the removal of an entry, if there is one to be removed. -/
def Allowed (P : List Slot → Name → Prop) (E : Env) (ss : List Slot) :
    Option Entry → Name → Prop
  | none, name => P ss name
  | some en, name => ∀ K, Marks E ss en.idx K → P (killAt K ss) name

/-- The name that a call creates is allowed. -/
def Op.Allowed (P : List Slot → Name → Prop) (g : Geom) (E : Env) (v : Vol) : Op → Prop
  | .write path _ => ∀ d name, resolve g v E.cwd path = some (d, name) →
      Fat32.Allowed P E (dirSlots g v d) (lookup g v acceptFile d name) name
  | .delete _ => True
  | .mkdir path => ∀ d name, resolve g v E.cwd path = some (d, name) →
      P (dirSlots g v d) name
  | .rename oldpath newname => ∀ d name, resolve g v E.cwd oldpath = some (d, name) →
      ∀ old, lookup g v acceptAny d name = some old →
        Fat32.Allowed P E (dirSlots g v d) (some old) newname

section

variable {P : List Slot → Name → Prop} {D : List Slot → Prop}
variable {g : Geom} {E : Env} {v w : Vol} {R : List (Head ℕ)} {d : ℕ} {en : Entry}
variable {h : Head ℕ} {name : Name}

/-- The slots of the directories behind an attempt to create an entry. -/
lemma Created.grown (hg : g.Valid) (hI : Inv g v R) (hd : Reach (subOf g v) R d)
    {c z : ℕ} {a : UInt8} {r : Option Unit} (hc : Created g E v d name c z a r w) :
    (∃ n, Grown (dirSlots g v d) (entrySlots name c z a) n (dirSlots g w d)) ∧
      ∀ x, Reach (subOf g v) R x → x ≠ d → dirSlots g w x = dirSlots g v x := by
  rcases hc with ⟨-, rfl, -⟩ | ⟨ext, n, ha, -⟩
  · refine ⟨⟨0, ?_⟩, fun _ _ _ => rfl⟩
    have ht := hI.tail d hd
    rw [TailOk] at ht
    refine ⟨Nat.zero_le _, fun _ _ => rfl, fun i hi => absurd hi (Nat.not_lt_zero i), ?_⟩
    intro i e hi he
    exact ht i e he (by rwa [Nat.add_zero] at hi)
  · have hoff : ∀ x, Reach (subOf g v) R x → x ≠ d → dirSlots g w x = dirSlots g v x :=
      fun x hx hne => hI.append_slots_ne hg hd ha hx hne
    exact ⟨⟨n, hI.append_grown hg hd ha⟩, hoff⟩

/-! ### Steps -/

lemma EveryDir.frame (hg : g.Valid) (hD : EveryDir D g v R) (hs : Same g v w R) :
    EveryDir D g w R := by
  refine ⟨hD.inv.frame hg hs, fun x hx => ?_⟩
  have hx' := (hs.reach_iff hg hD.inv).mp hx
  rw [hs.slots hg hD.inv hx']
  exact hD.dirs x hx'

/-- A new object with nothing below it. -/
lemma EveryDir.addRoot (hD : EveryDir D g v R) (hI : Inv g v (R ++ [h]))
    (hsub : h.isDir = true → ∀ i, subOf g v h.cell i = none)
    (hnew : h.isDir = true → D (dirSlots g v h.cell)) : EveryDir D g v (R ++ [h]) := by
  refine ⟨hI, ?_⟩
  rintro x ⟨loc, hr⟩
  rcases (ref_concat_iff hsub).mp hr with ⟨-, rfl⟩ | hr
  · exact hnew rfl
  · exact hD.dirs x ⟨loc, hr⟩

section

variable (hR : DirRule P D) (hg : g.Valid)

include hR hg

/-- A new entry under an allowed name. -/
lemma Created.everyDir (hD : EveryDir D g v (R ++ [h])) (hd : Reach (subOf g v) R d)
    (hp : IsPath name) {c z : ℕ} {a : UInt8} {r : Option Unit} (hcl : c < 2 ^ 32)
    (hh : h = ⟨c, Slot.isDirAttr a⟩) (ha : a ≠ 0x0F) (hname : P (dirSlots g v d) name)
    (hc : Created g E v d name c z a r w) : ∃ X, EveryDir D g w (R ++ X) := by
  have hd' := hd.append_roots [h]
  obtain ⟨⟨n, hG⟩, hoff⟩ := hc.grown hg hD.inv hd'
  have hdirs : ∀ x, Reach (subOf g v) (R ++ [h]) x → D (dirSlots g w x) := by
    intro x hx
    by_cases hxd : x = d
    · subst hxd
      exact hR.grow (hD.dirs x hx) (hD.inv.tail x hx) hp ha hname hG
    · rw [hoff x hx hxd]
      exact hD.dirs x hx
  rcases hc.outcome hg hD.inv hd hp hcl hh with ⟨-, -, ht⟩ | ⟨-, hl⟩
  · obtain ⟨k, hm⟩ := ht.moved
    refine ⟨[], ?_⟩
    rw [List.append_nil]
    exact ⟨ht.inv, fun x hx => hdirs x (hm.reach_iff.mpr hx)⟩
  · refine ⟨[h], hl.inv, fun x hx => hdirs x ?_⟩
    exact (exists_congr fun _ => Ref.congr fun _ hy => hl.sub _ hy).mp hx

/-- The removal of a file. -/
lemma EveryDir.cleared (hD : EveryDir D g v R) (hd : Reach (subOf g v) R d)
    (hen : en ∈ entries g v d) (hf : en.slot.isDir = false) (hc : Cleared g E v d en w) :
    EveryDir D g w R := by
  have hI := hD.inv
  obtain ⟨K, hK, hs, hoff⟩ := hI.cleared_slots hg hd hen hf hc
  obtain ⟨hk, hl⟩ := mem_entries hen
  refine ⟨hI.cleared hg hd hen hf hc, fun x hx => ?_⟩
  have hx' := (hI.cleared_reach hg hd hen hf hc).mp hx
  by_cases hxd : x = d
  · subst hxd
    rw [hs]
    exact hR.kill (hD.dirs x hd) (hI.tail x hd) hK hk hl (hI.file_not_dot hd hen hf)
      (lt_endIndex_of_live (hI.tail x hd) hk hl)
  · rw [hoff x hx' hxd]
    exact hD.dirs x hx'

/-- The removal of the old file of a write, and the name it is written under. -/
lemma Replaced.everyDir (hD : EveryDir D g v R) (hd : Reach (subOf g v) R d)
    (hname : Allowed P E (dirSlots g v d) (lookup g v acceptFile d name) name)
    (hr : Replaced g E v d name w) : EveryDir D g w R ∧ P (dirSlots g w d) name := by
  rcases hr with ⟨hnone, rfl⟩ | ⟨en, hf, hc⟩
  · rw [hnone] at hname
    exact ⟨hD, hname⟩
  · obtain ⟨hen, hacc, -⟩ := lookup_mem hf
    have hfile := acceptFile_isDir hacc
    obtain ⟨K, hK, hs, -⟩ := hD.inv.cleared_slots hg hd hen hfile hc
    rw [hf] at hname
    exact ⟨hD.cleared hR hg hd hen hfile hc, by rw [hs]; exact hname K hK⟩

/-- The new file of a write is in its slot, or lost. -/
lemma Created.everyDir_file (hD : EveryDir D g v R) (hd : Reach (subOf g v) R d)
    (hp : IsPath name) {c z : ℕ} {r : Option Unit} (hI : Inv g v (R ++ [⟨c, false⟩]))
    (hcl : c < 2 ^ 32) (hname : P (dirSlots g v d) name)
    (hc : Created g E v d name c z attrArchive r w) : ∃ X, EveryDir D g w (R ++ X) :=
  hc.everyDir hR hg (hD.addRoot hI (fun h => by cases h) (fun h => by cases h)) hd hp hcl rfl
    (by decide) hname

/-- The second half of a write. -/
lemma WriteTail.everyDir (hD : EveryDir D g v R) (hd : Reach (subOf g v) R d)
    (hp : IsPath name) {data : List UInt8} {r : Option Unit}
    (hname : P (dirSlots g v d) name) (ht : WriteTail g E v d name data r w) :
    ∃ X, EveryDir D g w (R ++ X) := by
  have hI := hD.inv
  cases ht with
  | empty _ hc => exact hc.everyDir_file hR hg hD hd hp hI.addEmpty (by decide) hname
  | noMemory _ _ => exact ⟨[], by rwa [List.append_nil]⟩
  | full _ hw _ => exact ⟨[], by rw [List.append_nil]; exact hD.frame hg (hI.wrote_same hw)⟩
  | stored _ hw _ hchain hc =>
    have hs := hI.wrote_same hw
    exact hc.everyDir_file hR hg (hD.frame hg hs) ((hs.reach_iff hg hI).mpr hd) hp
      (hI.wrote hg hw hchain) ((hchain.inRange _ (Chain.head_mem hchain)).lt hg)
      (by rw [hs.slots hg hI hd]; exact hname)

/-! ### The operations -/

variable (hD : EveryDir D g v R) (hroot : Reach (subOf g v) R g.rootCluster)
variable (hcwd : Reach (subOf g v) R E.cwd) {path : Name} {r : Option Unit}

include hD hroot hcwd

lemma WriteEff.everyDir {data : List UInt8} (hp : IsPath path)
    (hname : (Op.write path data).Allowed P g E v) (he : WriteEff g E v path data r w) :
    ∃ X, EveryDir D g w (R ++ X) := by
  cases he with
  | early _ => exact ⟨[], by rwa [List.append_nil]⟩
  | @write d name u _ _ hres hrep ht =>
    have hd := hD.inv.resolve_reach hroot hcwd hres
    obtain ⟨hDu, hnu⟩ := Replaced.everyDir hR hg hD hd (hname d name hres) hrep
    have hdu := (Replaced.inv hg hD.inv hd hrep).2
    exact ht.everyDir hR hg hDu hdu (resolve_name hres ▸ hp.last) hnu

lemma DeleteEff.everyDir (he : DeleteEff g E v path r w) : EveryDir D g w R := by
  cases he with
  | early _ => exact hD
  | delete hres hf hc =>
    obtain ⟨hen, hacc, -⟩ := lookup_mem hf
    exact hD.cleared hR hg (hD.inv.resolve_reach hroot hcwd hres) hen (acceptFile_isDir hacc) hc

lemma MkdirEff.everyDir (hp : IsPath path) (hname : (Op.mkdir path).Allowed P g E v)
    (he : MkdirEff g E v path r w) : ∃ X, EveryDir D g w (R ++ X) := by
  have hI := hD.inv
  cases he with
  | early _ => exact ⟨[], by rwa [List.append_nil]⟩
  | noMemory _ _ h0 =>
    exact ⟨[], by rw [List.append_nil]; exact hD.frame hg (hI.setNext_same h0 _)⟩
  | @mkdir d name new _ _ hres hr h0 hc =>
    have hd := hI.resolve_reach hroot hcwd hres
    have hs := hI.newDir_same h0 d
    have hD' := (hD.frame hg hs).addRoot (hI.newDir hg hr h0 hd)
      (fun _ => newDir_sub hg hr d) (fun _ => hR.new hg hr d)
    exact hc.everyDir hR hg hD' ((hs.reach_iff hg hI).mpr hd) (resolve_name hres ▸ hp.last)
      (hr.lt hg) rfl (by decide) (by rw [hs.slots hg hI hd]; exact hname d name hres)

lemma RenameEff.everyDir {newname : Name} (hold : ¬ IsDotName (pathParts path).2)
    (hnew : IsPath newname) (hname : (Op.rename path newname).Allowed P g E v)
    (he : RenameEff g E v path newname r w) : ∃ X, EveryDir D g w (R ++ X) := by
  have hI := hD.inv
  cases he with
  | early _ => exact ⟨[], by rwa [List.append_nil]⟩
  | @rename d name en K _ _ hres hf hK hc =>
    obtain ⟨hd, hen, hdot, hhead⟩ := hI.old_entry hroot hcwd hres hf hold
    obtain ⟨hk, hl⟩ := mem_entries hen
    have hm := hI.kill_moved hg hd hk hK hhead
    have hslots := hI.killIn_slots hg hd hk hK
    have hD' : EveryDir D g (v.killIn g d K) (R ++ [⟨en.slot.cluster, en.slot.isDir⟩]) := by
      refine ⟨hI.kill hg hd hk hK hhead, fun x hx => ?_⟩
      have hx' := hm.reach_iff.mp hx
      by_cases hxd : x = d
      · subst hxd
        rw [hslots]
        exact hR.kill (hD.dirs x hd) (hI.tail x hd) hK hk hl hdot
          (lt_endIndex_of_live (hI.tail x hd) hk hl)
      · rw [hI.killIn_slots_ne hg hd hk hK hx' hxd]
        exact hD.dirs x hx'
    have hd₁ := hI.kill_reach hg hd hk hK hhead
    exact hc.everyDir hR hg hD' hd₁ hnew en.slot.cluster_lt rfl
      (Slot.attr_of_live hl).1 (by rw [hslots]; exact hname d name hres en hf K hK)

end

/-- **One call** keeps what holds of every directory. -/
theorem Op.everyDir (hR : DirRule P D) (hg : g.Valid) {s : State} {X : List (Head ℕ)}
    (hD : EveryDir D g (vol g s.disk) (rootHead g :: X)) {op : Op} (hop : op.Ok)
    (hname : op.Allowed P g (s.env False) (vol g s.disk)) (hio : IoOk s)
    (hcwd : LiveDir g (vol g s.disk) s.cwdCluster) :
    ∃ Y, EveryDir D g (vol g (op.run g s).2.disk) (rootHead g :: Y) := by
  have hI := hD.inv
  have hroot : Reach (subOf g (vol g s.disk)) (rootHead g :: X) g.rootCluster :=
    ⟨.root 0, .root rfl⟩
  have hcwd' : Reach (subOf g (vol g s.disk)) (rootHead g :: X) (s.env False).cwd :=
    (LiveDir.reach hcwd).append_roots X
  cases op with
  | write path data =>
    have h := (spec_writeFile hg hI hroot hcwd' path data s hio.holds rfl).2
    obtain ⟨Y, hY⟩ := h.everyDir hR hg hD hroot hcwd' hop hname
    exact ⟨X ++ Y, hY⟩
  | delete path =>
    have h := (spec_deleteFile hg hI hroot hcwd' path s hio.holds rfl).2
    exact ⟨X, h.everyDir hR hg hD hroot hcwd'⟩
  | mkdir path =>
    have h := (spec_mkdir hg hI hroot hcwd' path s hio.holds rfl).2
    obtain ⟨Y, hY⟩ := h.everyDir hR hg hD hroot hcwd' hop hname
    exact ⟨X ++ Y, hY⟩
  | rename oldpath newname =>
    have h := (spec_renameFile hg hI hroot hcwd' oldpath newname s hio.holds rfl).2
    obtain ⟨Y, hY⟩ := h.everyDir hR hg hD hroot hcwd' hop.2.2 hop.2.1 hname
    exact ⟨X ++ Y, hY⟩

end

end GordOS.Fat32
