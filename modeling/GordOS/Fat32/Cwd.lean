/-
The current directory: its cluster and its text (`fat32_cd`).

* `components`, `walk`: the walk from the root that the text of a directory stands for;
* `parentPath_spec`, `fullText_spec`: what `fat32_cd` does to the components of the
  text;
* `TreeInv.resolveDir_live`: every walk from the root ends in a live directory;
* `CwdOk`: the text leads to the cluster; `spec_cd`, `CdEff.cwdOk`, `Finds.resolveDir`:
  it still does behind `fat32_cd` and behind the other calls;
* `cwdAgrees_of_run`: **the text and the cluster of the current directory agree** in a run
  that keeps clear of the cases `fat32_cd` gets wrong;
* `cd_up_from_root`: `cd ..` in the root directory is one of them.
-/
import Mathlib.Tactic
import GordOS.Fat32.Homes

namespace GordOS.Fat32

open GordOS GordOS.Fallible

/-! ### The components of a text -/

/-- All components of a path without its leading slash. -/
def parts (t : Name) : List Name := (splitPath t).1 ++ [(splitPath t).2]

/-- The components of the text of a directory: none for the root. -/
def components (p : Name) : List Name := if p.drop 1 = [] then [] else parts (p.drop 1)

lemma parts_slash (t : Name) : parts (0x2F :: t) = [] :: parts t := by
  simp [parts, splitPath]

lemma parts_cons {c : UInt8} (hc : c ≠ 0x2F) (t : Name) :
    parts (c :: t) = (c :: (parts t).headD []) :: (parts t).tail := by
  rw [parts, parts, splitPath]
  rcases splitPath t with ⟨ds, last⟩
  simp only [hc, if_false]
  cases ds <;> simp

lemma parts_ne_nil (t : Name) : parts t ≠ [] := by simp [parts]

/-- A slash separates components. -/
lemma parts_append (a b : Name) : parts (a ++ 0x2F :: b) = parts a ++ parts b := by
  induction a with
  | nil =>
    rw [List.nil_append, parts_slash]
    rfl
  | cons c cs ih =>
    rw [List.cons_append]
    by_cases hc : c = 0x2F
    · rw [hc, parts_slash, parts_slash, ih, List.cons_append]
    · obtain ⟨x, xs, hx⟩ := List.exists_cons_of_ne_nil (parts_ne_nil cs)
      rw [parts_cons hc, parts_cons hc, ih, hx]
      simp

/-- A path without a slash is one component. -/
lemma parts_of_no_slash {t : Name} (h : 0x2F ∉ t) : parts t = [t] := by
  induction t with
  | nil => rfl
  | cons c cs ih =>
    rw [List.mem_cons, not_or] at h
    rw [parts_cons (Ne.symm h.1), ih h.2]
    rfl

/-- The texts the driver builds: a slash, and no second one behind it. -/
def TextOk (p : Name) : Prop := ∃ t : Name, p = 0x2F :: t ∧ t.head? ≠ some 0x2F

/-- The last component of a path and what is before it. -/
lemma exists_last (t : Name) :
    ∃ last : Name, 0x2F ∉ last ∧ (t = last ∨ ∃ a, t = a ++ 0x2F :: last) := by
  induction t with
  | nil => exact ⟨[], by simp, Or.inl rfl⟩
  | cons c cs ih =>
    obtain ⟨last, hl, rfl | ⟨a, rfl⟩⟩ := ih
    · by_cases hc : c = 0x2F
      · exact ⟨cs, hl, Or.inr ⟨[], by rw [hc]; rfl⟩⟩
      · refine ⟨c :: cs, ?_, Or.inl rfl⟩
        rw [List.mem_cons, not_or]
        exact ⟨Ne.symm hc, hl⟩
    · exact ⟨last, hl, Or.inr ⟨c :: a, rfl⟩⟩

lemma dropWhile_reverse_slash (a : Name) {last : Name} (hl : 0x2F ∉ last) :
    ((a ++ 0x2F :: last).reverse.dropWhile (· != 0x2F)).length = a.length + 1 := by
  have hrev : (a ++ 0x2F :: last).reverse = last.reverse ++ (0x2F :: a.reverse) := by simp
  rw [hrev, List.dropWhile_append_of_pos]
  · simp
  · intro x hx
    have hx' : x ∈ last := List.mem_reverse.mp hx
    simp only [bne_iff_ne]
    rintro rfl
    exact hl hx'

/-- `cd ..` drops the last component of the text. -/
lemma parentPath_spec {p : Name} (hp : TextOk p) :
    TextOk (parentPath p) ∧ components (parentPath p) = (components p).dropLast := by
  obtain ⟨t, rfl, ht⟩ := hp
  cases t with
  | nil => exact ⟨⟨[], rfl, by simp⟩, rfl⟩
  | cons c cs =>
    obtain ⟨last, hl, hlast | ⟨a, ha⟩⟩ := exists_last (c :: cs)
    · -- a directory in the root directory
      have hn := dropWhile_reverse_slash [] hl
      rw [List.nil_append, ← hlast] at hn
      have hpar : parentPath (0x2F :: c :: cs) = [0x2F] := by
        rw [parentPath, if_pos (by simp)]
        simp only [hn]
        rfl
      rw [hpar]
      refine ⟨⟨[], rfl, by simp⟩, ?_⟩
      rw [components, components, List.drop_one, List.drop_one, List.tail_cons,
        List.tail_cons, if_pos rfl, if_neg (by simp), parts_of_no_slash (hlast ▸ hl)]
      rfl
    · have hne : a ≠ [] := by
        rintro rfl
        rw [ha] at ht
        exact ht rfl
      have hn := dropWhile_reverse_slash (0x2F :: a) hl
      rw [List.cons_append, ← ha, List.length_cons] at hn
      have hpar : parentPath (0x2F :: c :: cs) = 0x2F :: a := by
        rw [parentPath, if_pos (by simp)]
        simp only [hn]
        rw [ha, if_neg (by omega), Nat.add_sub_cancel, List.take_succ_cons, List.take_left]
      have hhead : a.head? ≠ some 0x2F := by
        obtain ⟨x, xs, rfl⟩ := List.exists_cons_of_ne_nil hne
        rw [ha] at ht
        simpa using ht
      rw [hpar]
      refine ⟨⟨a, rfl, hhead⟩, ?_⟩
      rw [components, components, List.drop_one, List.drop_one, List.tail_cons,
        List.tail_cons, if_neg hne, if_neg (by simp), ha, parts_append,
        parts_of_no_slash hl, List.dropLast_concat]

/-- The first component of an argument of `fat32_cd` is not empty. -/
def StartsOk (name : Name) : Prop :=
  name ≠ [] ∧ ((name.head? = some 0x2F) → (name.drop 1).head? ≠ some 0x2F)

instance (name : Name) : Decidable (StartsOk name) :=
  inferInstanceAs (Decidable (_ ∧ _))

/-- The text of a new current directory before it is cut. -/
def fullText (p name : Name) : Name :=
  if name.head? = some 0x2F then name
  else (if 1 < p.length then p ++ [0x2F] else p) ++ name

lemma extendPath_eq {p name : Name} (h : (fullText p name).length ≤ 255) :
    extendPath p name = fullText p name := by
  rw [extendPath, fullText] at *
  split_ifs at h ⊢ with h1 h2
  · obtain ⟨cs, rfl⟩ : ∃ cs, name = 0x2F :: cs := by
      cases name with
      | nil => cases h1
      | cons c cs => exact ⟨cs, by rw [Option.some.inj h1]⟩
    rw [List.length_cons] at h
    rw [List.drop_one, List.tail_cons, List.take_of_length_le (by omega)]
  · rw [List.length_append] at h
    simp only
    rw [List.take_of_length_le (by omega)]
  · rw [List.length_append] at h
    simp only
    rw [List.take_of_length_le (by omega)]

/-- A `cd` that finds its directory adds the components of its argument, or starts from
the root. -/
lemma fullText_spec {p name : Name} (hp : TextOk p) (hn : StartsOk name) (hroot : name ≠ [0x2F]) :
    TextOk (fullText p name) ∧ components (fullText p name)
      = if name.head? = some 0x2F then parts (name.drop 1)
        else components p ++ parts name := by
  obtain ⟨t, rfl, ht⟩ := hp
  rw [fullText]
  by_cases habs : name.head? = some 0x2F
  · rw [if_pos habs, if_pos habs]
    cases name with
    | nil => cases habs
    | cons c cs =>
      obtain rfl : c = 0x2F := Option.some.inj habs
      have hcs : cs ≠ [] := by
        rintro rfl
        exact hroot rfl
      exact ⟨⟨cs, rfl, hn.2 habs⟩, by rw [components, if_neg (by simpa using hcs)]⟩
  · rw [if_neg habs, if_neg habs]
    cases t with
    | nil =>
      rw [if_neg (by simp)]
      exact ⟨⟨name, rfl, habs⟩, by simp [components, hn.1]⟩
    | cons c cs =>
      rw [if_pos (by simp), List.append_assoc]
      refine ⟨⟨(c :: cs) ++ 0x2F :: name, rfl, by simpa using ht⟩, ?_⟩
      have h1 : components (0x2F :: c :: cs) = parts (c :: cs) := by simp [components]
      rw [h1, ← parts_append]
      simp [components]

/-! ### Walks from the root -/

section

variable {g : Geom} {E : Env} {v w : Vol} {R X : List (Head ℕ)} {d : ℕ} {en : Entry}

/-- The directory that the text of a directory leads to. -/
def walk (g : Geom) (v : Vol) (p : Name) : Option ℕ :=
  resolveDir g v (components p) g.rootCluster

/-- The slots that a walk goes through. -/
def walkSlots (g : Geom) (v : Vol) : List Name → ℕ → List (ℕ × ℕ)
  | [], _ => []
  | n :: ds, c =>
    (lookup g v acceptDir c (n.take 255)).elim []
      fun en => (c, en.idx) :: walkSlots g v ds (en.slot.target g)

lemma walkSlots_cons {n : Name} (hf : lookup g v acceptDir d (n.take 255) = some en)
    (ds : List Name) :
    walkSlots g v (n :: ds) d = (d, en.idx) :: walkSlots g v ds (en.slot.target g) := by
  rw [walkSlots, hf, Option.elim_some]

lemma resolveDir_append (ds es : List Name) : ∀ c,
    resolveDir g v (ds ++ es) c = (resolveDir g v ds c).bind (resolveDir g v es) := by
  induction ds with
  | nil => intro c; rfl
  | cons n ds ih =>
    intro c
    rw [List.cons_append, resolveDir, resolveDir, Option.bind_assoc]
    congr 1
    funext en
    exact ih _

/-- The directories reached from the root directory alone. -/
lemma TreeInv.target_live (hT : TreeInv g v (rootHead g :: X)) {x : ℕ}
    (hx : Reach (subOf g v) [rootHead g] x) (hen : en ∈ entries g v x)
    (hdir : en.slot.isDir = true) :
    Reach (subOf g v) [rootHead g] (en.slot.target g) := by
  obtain ⟨hk, hl⟩ := mem_entries hen
  by_cases hdot : en.slot.isDot
  · obtain ⟨loc, hr⟩ := hx
    cases hr with
    | @root j _ hj =>
      -- the root directory itself
      obtain ⟨hlt, heq⟩ := List.getElem?_eq_some_iff.mp hj
      obtain rfl : x = g.rootCluster := by
        obtain rfl : j = 0 := by simpa using hlt
        exact (congrArg Head.cell heq).symm
      rw [hT.root en.idx en.slot hk hl hdot]
      exact ⟨.root 0, .root rfl⟩
    | @slot p d i _ hp hi =>
      have hr : Ref (subOf g v) [rootHead g] (.slot d i) ⟨x, true⟩ := .slot hp hi
      rcases (hT.homes d i x (hr.append_roots X)).dots en.idx en.slot hk hl hdot with h | h
      · rw [h]
        exact ⟨_, hr⟩
      · rw [h]
        exact ⟨p, hp⟩
  · have hr := ref_entry hx hen hdot
    rw [hdir] at hr
    have hc := (hT.inv.chain _ _ (hr.append_roots X) (Or.inl rfl)).inRange _
      (hT.inv.cell_mem (hr.append_roots X) (Or.inl rfl))
    have h2 := hc.1
    rw [Slot.target, if_neg (by simp only at h2; omega)]
    exact ⟨_, hr⟩

lemma lookup_dir {n : Name} (hf : lookup g v acceptDir d n = some en) :
    en ∈ entries g v d ∧ en.slot.isDir = true ∧ en.hit n = true := by
  obtain ⟨hen, hacc, hhit⟩ := lookup_mem hf
  exact ⟨hen, hacc, hhit⟩

/-- **Every walk from the root ends in a live directory.** -/
lemma TreeInv.resolveDir_live (hT : TreeInv g v (rootHead g :: X)) (ds : List Name) :
    ∀ {c x : ℕ}, Reach (subOf g v) [rootHead g] c → resolveDir g v ds c = some x →
      Reach (subOf g v) [rootHead g] x := by
  induction ds with
  | nil =>
    intro c x hc hx
    obtain rfl : c = x := by simpa [resolveDir] using hx
    exact hc
  | cons n ds ih =>
    intro c x hc hx
    rw [resolveDir] at hx
    obtain ⟨en, hf, hx⟩ := Option.bind_eq_some_iff.mp hx
    obtain ⟨hen, hdir, -⟩ := lookup_dir hf
    exact ih (hT.target_live hc hen hdir) hx

/-- What is reached from the root directory is live. -/
lemma Inv.liveDir (hI : Inv g v (rootHead g :: X)) (hd : Reach (subOf g v) [rootHead g] d) :
    LiveDir g v d := by
  obtain ⟨loc, hr⟩ := hd
  exact ⟨loc, hr.mono fun x hx => liveSub_eq_subOf (hI.tail x (hx.append_roots X))⟩

/-- A walk goes where it went if it does not go through a slot in `S`. -/
lemma Finds.resolveDir (hT : TreeInv g v (rootHead g :: X)) {S : Set (ℕ × ℕ)}
    (hF : Finds g v (rootHead g :: X) S w) (ds : List Name) :
    ∀ {c x : ℕ}, Reach (subOf g v) [rootHead g] c → Fat32.resolveDir g v ds c = some x →
      (∀ q ∈ walkSlots g v ds c, q ∉ S) → Fat32.resolveDir g w ds c = some x := by
  induction ds with
  | nil =>
    intro c x _ hx _
    rw [Fat32.resolveDir] at hx ⊢
    exact hx
  | cons n ds ih =>
    intro c x hc hx hS
    rw [Fat32.resolveDir] at hx ⊢
    obtain ⟨en, hf, hx⟩ := Option.bind_eq_some_iff.mp hx
    have hf' : lookup g v acceptDir c (n.take 255) = some en := hf
    rw [walkSlots_cons hf'] at hS
    obtain ⟨hen, hdir, -⟩ := lookup_dir hf'
    have hw := hF c acceptDir (n.take 255) en (hc.append_roots X) hf' (hS _ List.mem_cons_self)
    rw [lookup] at hw
    rw [hw, Option.bind_some]
    exact ih (hT.target_live hc hen hdir) hx fun q hq => hS q (List.mem_cons_of_mem _ hq)

/-! ### `fat32_cd` -/

/-- The volume and the two copies of the current directory. -/
def State.view (g : Geom) (s : State) : Vol × ℕ × Name :=
  (vol g s.disk, s.cwdCluster, s.cwdPath)

/-- A computation that does not touch the current directory. -/
lemma VSpec.view {α : Type} {m : M α} {Q : Option α → Vol → Prop} {cwd : ℕ} {p : Name}
    (h : VSpec g ⟨cwd, p, False⟩ m v Q) :
    Spec IoOk (State.view g) m (v, cwd, p) fun r x => ∃ v', x = (v', cwd, p) ∧ Q r v' := by
  intro s hio hs
  obtain ⟨hv, hcwd, hp⟩ : vol g s.disk = v ∧ s.cwdCluster = cwd ∧ s.cwdPath = p := by
    simpa [State.view] using hs
  obtain ⟨hE, hQ⟩ := h s ⟨hio, hcwd, hp, False.elim⟩ hv
  exact ⟨hE.io, _, by rw [State.view, hE.cwd, hE.path], hQ⟩

/-- Storing a new current directory. -/
lemma spec_setCwd {cwd c : ℕ} {p : Name} {f : State → State} {q : Name}
    (hf : ∀ s, s.cwdPath = p → f s = { s with cwdCluster := c, cwdPath := q })
    {Q : Option Unit → Vol × ℕ × Name → Prop} (h : Q (some ()) (v, c, q)) :
    Spec IoOk (State.view g) (modify f) (v, cwd, p) Q := by
  intro s hio hs
  obtain ⟨hv, -, hp⟩ : vol g s.disk = v ∧ s.cwdCluster = cwd ∧ s.cwdPath = p := by
    simpa [State.view] using hs
  rw [modify_apply, hf s hp]
  refine ⟨hio, ?_⟩
  rw [State.view, hv]
  exact h

/-- What `fat32_cd` does. -/
inductive CdEff (g : Geom) (v : Vol) (cwd : ℕ) (p name : Name) :
    Option Unit → ℕ → Name → Prop where
  | failed : CdEff g v cwd p name none cwd p
  | up : name = [0x2E, 0x2E] →
      CdEff g v cwd p name (some ()) ((slotAt (v.data cwd) 1).target g) (parentPath p)
  | root : name = [0x2F] → CdEff g v cwd p name (some ()) g.rootCluster [0x2F]
  | down {d n en} : name ≠ [0x2E, 0x2E] → name ≠ [0x2F] →
      resolve g v cwd name = some (d, n) → lookup g v acceptDir d n = some en →
      CdEff g v cwd p name (some ()) (en.slot.target g) (extendPath p name)

/-- **`fat32_cd`.** -/
theorem spec_cd (hg : g.Valid) (hI : Inv g v R) (hroot : Reach (subOf g v) R g.rootCluster)
    {cwd : ℕ} (hcwd : Reach (subOf g v) R cwd) (p name : Name) :
    Spec IoOk (State.view g) (fat32Cd g name) (v, cwd, p)
      fun r x => x.1 = v ∧ CdEff g v cwd p name r x.2.1 x.2.2 := by
  have hkm : ∀ {Q : Option Unit → Vol × ℕ × Name → Prop} {f : Unit → M Unit},
      Spec IoOk (State.view g) (f ()) (v, cwd, p) Q → Q none (v, cwd, p) →
      Spec IoOk (State.view g) (kmalloc >>= f) (v, cwd, p) Q := by
    intro Q f hf hn
    refine (VSpec.view spec_kmalloc).bind ?_ ?_
    · rintro - x ⟨v', rfl, rfl, -⟩
      exact hf
    · rintro x ⟨v', rfl, rfl, -⟩
      exact hn
  rw [fat32Cd]
  by_cases hup : name = [0x2E, 0x2E]
  · rw [if_pos hup]
    refine hkm ?_ ⟨rfl, .failed⟩
    refine (VSpec.view det_cwd).bind ?_ ?_
    · rintro c x ⟨v', rfl, hc, rfl⟩
      obtain rfl : c = cwd := Option.some.inj hc
      have hr := (hI.dir_chain hcwd).inRange c (Chain.head_mem (hI.dir_chain hcwd))
      refine (VSpec.view (det_readCluster hg hr)).bind ?_ ?_
      · rintro b x ⟨v'', rfl, hb, rfl⟩
        obtain rfl : b = v''.data c := Option.some.inj hb
        exact spec_setCwd (c := (slotAt (v''.data c) 1).target g) (q := parentPath p)
          (fun s hs => by rw [← hs]; rfl) ⟨rfl, .up hup⟩
      · rintro x ⟨v'', -, hb, -⟩
        cases hb
    · rintro x ⟨v', -, hc, -⟩
      cases hc
  · rw [if_neg hup]
    by_cases hrt : name = [0x2F]
    · rw [if_pos hrt]
      exact spec_setCwd (fun s _ => rfl) ⟨rfl, .root hrt⟩
    · rw [if_neg hrt]
      refine (VSpec.view (spec_resolvePath hg hI hroot hcwd name)).bind ?_ ?_
      · rintro ⟨d, n⟩ x ⟨v', rfl, rfl, hres, -⟩
        obtain ⟨hres, hd⟩ := hres (d, n) rfl
        dsimp only
        refine hkm ?_ ⟨rfl, .failed⟩
        have hscan := det_dirScan (E := ⟨cwd, p, False⟩) hg acceptDir n (hI.dir_chain hd)
        refine (VSpec.view hscan).bind ?_ ?_
        · rintro o x ⟨v'', rfl, ho, rfl⟩
          have ho := Option.some.inj ho
          generalize hf : (entries g v'' d).find? (Entry.wanted acceptDir n) = found at ho
          cases found with
          | none =>
            rw [ho, Option.map_none]
            exact Spec.fail ⟨rfl, .failed⟩
          | some en =>
            rw [ho, Option.map_some]
            dsimp only
            exact spec_setCwd (c := en.slot.target g) (q := extendPath p name)
              (fun s hs => by rw [← hs]; rfl) ⟨rfl, .down hup hrt hres hf⟩
        · rintro x ⟨v'', -, ho, -⟩
          cases ho
      · rintro x ⟨v', rfl, rfl, -⟩
        exact ⟨rfl, .failed⟩

lemma pathParts_last_length (name : Name) : (pathParts name).2.length ≤ name.length := by
  rw [pathParts]
  refine (splitPath_last _).2.trans ?_
  split_ifs <;> simp

/-- Slot 1 of the first cluster of a directory. -/
lemma Inv.slot_one (hg : g.Valid) (hI : Inv g v R) (hd : Reach (subOf g v) R d) :
    (dirSlots g v d)[1]? = some (slotAt (v.data d) 1) := by
  have hpos := hg.one_lt_entriesPerCluster
  obtain ⟨rest, hrest⟩ : ∃ rest, chainOf g v d = d :: rest := by
    have hc := hI.dir_chain hd
    cases hl : chainOf g v d with
    | nil => exact absurd (hl ▸ hc) (by intro h; cases h)
    | cons x rest =>
      rw [hl] at hc
      cases hc <;> exact ⟨_, rfl⟩
  rw [dirSlots, hrest, slotsIn_cons, List.getElem?_append_left (by simpa using hpos),
    slotsOf_getElem? _ hpos]

/-- The text leads to the cluster of the current directory. -/
structure CwdOk (g : Geom) (v : Vol) (cwd : ℕ) (p : Name) : Prop where
  text : TextOk p
  walk : walk g v p = some cwd

/-- The arguments that `fat32_cd` gets right: `..` not in the root directory and not
behind a component `.` or `..`, and a text that is not cut and that does not start with
an empty component. -/
def CdClear (g : Geom) (cwd : ℕ) (p name : Name) : Prop :=
  if name = [0x2E, 0x2E] then
    cwd ≠ g.rootCluster ∧ ∀ last, (components p).getLast? = some last → ¬ IsDotName last
  else if name = [0x2F] then True
  else StartsOk name ∧ (fullText p name).length ≤ 255

lemma CwdOk.reach (hT : TreeInv g v (rootHead g :: X)) {cwd : ℕ} {p : Name} (hc : CwdOk g v cwd p) :
    Reach (subOf g v) [rootHead g] cwd :=
  hT.resolveDir_live _ ⟨.root 0, .root rfl⟩ hc.walk

lemma IsDotName.of_take {n : Name} (h : IsDotName (n.take 255)) : IsDotName n := by
  have hlen : (n.take 255).length ≤ 2 := by
    rcases h with h | h <;> rw [h] <;> decide
  rw [List.length_take] at hlen
  rwa [List.take_of_length_le (by omega)] at h

/-- The parent of the current directory. -/
lemma CwdOk.up (hg : g.Valid) (hT : TreeInv g v (rootHead g :: X)) {cwd : ℕ} {p : Name}
    (hc : CwdOk g v cwd p) (hne : cwd ≠ g.rootCluster)
    (hlast : ∀ last, (components p).getLast? = some last → ¬ IsDotName last) :
    CwdOk g v ((slotAt (v.data cwd) 1).target g) (parentPath p) := by
  obtain ⟨htext, hcomp⟩ := parentPath_spec hc.text
  refine ⟨htext, ?_⟩
  have hreach := hc.reach hT
  have hwalk := hc.walk
  rw [Fat32.walk] at hwalk ⊢
  rw [hcomp]
  rcases List.eq_nil_or_concat (components p) with hnil | ⟨ds, last, heq⟩
  · -- the text of the root directory
    rw [hnil, resolveDir] at hwalk
    exact absurd (Option.some.inj hwalk).symm hne
  · rw [heq, List.concat_eq_append] at hwalk hlast
    rw [heq, List.concat_eq_append, List.dropLast_concat]
    rw [resolveDir_append] at hwalk
    obtain ⟨P, hP, hwalk⟩ := Option.bind_eq_some_iff.mp hwalk
    rw [resolveDir] at hwalk
    obtain ⟨en, hf, hwalk⟩ := Option.bind_eq_some_iff.mp hwalk
    rw [resolveDir, Option.some.injEq] at hwalk
    obtain ⟨hen, hdir, hhit⟩ := lookup_dir hf
    have hPr := hT.resolveDir_live ds ⟨.root 0, .root rfl⟩ hP
    have hPR := hPr.append_roots X
    -- the entry is a child of `P`
    have hname : ¬ IsDotName (last.take 255) := fun hd =>
      hlast last (by simp) (IsDotName.of_take hd)
    have hdot := hT.inv.not_dot_of_hit hPR hen hhit hname
    have hr := ref_entry hPR hen hdot
    rw [hdir] at hr
    have h2 := ((hT.inv.chain _ _ hr (Or.inl rfl)).inRange _ (hT.inv.cell_mem hr (Or.inl rfl))).1
    rw [Slot.target, if_neg (by simp only at h2; omega)] at hwalk
    rw [hwalk] at hr
    obtain ⟨e, he, -, -, hup⟩ := (hT.homes P en.idx cwd hr).up
    rw [hT.inv.slot_one hg (hreach.append_roots X), Option.some.injEq] at he
    rw [he, hup]
    exact hP

/-- **`fat32_cd` keeps the text and the cluster together.** -/
lemma CdEff.cwdOk (hg : g.Valid) (hT : TreeInv g v (rootHead g :: X)) {cwd : ℕ}
    {p name : Name} (hc : CwdOk g v cwd p) (hclear : CdClear g cwd p name)
    {r : Option Unit} {cwd' : ℕ} {p' : Name} (he : CdEff g v cwd p name r cwd' p') :
    CwdOk g v cwd' p' := by
  cases he with
  | failed => exact hc
  | up hup =>
    rw [CdClear, if_pos hup] at hclear
    exact hc.up hg hT hclear.1 hclear.2
  | root _ => exact ⟨⟨[], rfl, by simp⟩, rfl⟩
  | @down d n en hup hroot hres hf =>
    rw [CdClear, if_neg hup, if_neg hroot] at hclear
    obtain ⟨hstart, hlen⟩ := hclear
    obtain ⟨htext, hcomp⟩ := fullText_spec hc.text hstart hroot
    rw [extendPath_eq hlen]
    refine ⟨htext, ?_⟩
    -- the last component is not cut either
    obtain ⟨c, hdir, heq⟩ := Option.map_eq_some_iff.mp hres
    obtain ⟨rfl, rfl⟩ := Prod.mk.inj heq
    have hn : (pathParts name).2.take 255 = (pathParts name).2 := by
      refine List.take_of_length_le ((pathParts_last_length name).trans ?_)
      refine le_trans ?_ hlen
      rw [fullText]
      split_ifs
      · exact le_rfl
      · rw [List.length_append]
        omega
      · rw [List.length_append]
        omega
    have hlast : resolveDir g v [(pathParts name).2] c = some (en.slot.target g) := by
      rw [resolveDir, hn]
      rw [lookup] at hf
      rw [hf, Option.bind_some, resolveDir]
    rw [Fat32.walk, hcomp]
    rw [startDir] at hdir
    by_cases habs : name.head? = some 0x2F
    · rw [if_pos habs] at hdir ⊢
      rw [parts, resolveDir_append]
      rw [pathParts, if_pos habs] at hdir hlast
      rw [hdir, Option.bind_some, hlast]
    · rw [if_neg habs] at hdir ⊢
      have hwalk := hc.walk
      rw [Fat32.walk] at hwalk
      rw [resolveDir_append, hwalk, Option.bind_some, parts, resolveDir_append]
      rw [pathParts, if_neg habs] at hdir hlast
      rw [hdir, Option.bind_some, hlast]

/-! ### Runs -/

/-- The slots a walk goes through hold directories. -/
lemma walkSlots_dir (ds : List Name) : ∀ {c : ℕ} {q : ℕ × ℕ}, q ∈ walkSlots g v ds c →
    ∃ en ∈ entries g v q.1, en.idx = q.2 ∧ en.slot.isDir = true := by
  induction ds with
  | nil => intro c q hq; cases hq
  | cons n ds ih =>
    intro c q hq
    cases hf : lookup g v acceptDir c (n.take 255) with
    | none =>
      rw [walkSlots, hf, Option.elim_none] at hq
      cases hq
    | some en =>
      rw [walkSlots_cons hf] at hq
      rcases List.mem_cons.mp hq with rfl | hq
      · obtain ⟨hen, hdir, -⟩ := lookup_dir hf
        exact ⟨en, hen, rfl, hdir⟩
      · exact ih hq

/-- The calls of the driver, `fat32_cd` among them. -/
inductive Call where
  | op (o : Op)
  | cd (name : Name)

/-- The call. -/
def Call.run (g : Geom) : Call → M Unit
  | .op o => o.run g
  | .cd name => fat32Cd g name

/-- The arguments are strings the callers hand over. -/
def Call.Ok : Call → Prop
  | .op o => o.Ok
  | .cd name => IsPath name

instance : DecidablePred Call.Ok
  | .op o => inferInstanceAs (Decidable o.Ok)
  | .cd name => inferInstanceAs (Decidable (IsPath name))

/-- The call keeps clear of the current directory: a rename does not take a directory out
of the path that the text goes, and `fat32_cd` gets its argument right. -/
def Call.Clear (g : Geom) (s : State) : Call → Prop
  | .op (.rename oldpath newname) =>
    ∀ q ∈ walkSlots g (vol g s.disk) (components s.cwdPath) g.rootCluster,
      q ∉ (Op.rename oldpath newname).removed g (vol g s.disk) s.cwdCluster
  | .op _ => True
  | .cd name => CdClear g s.cwdCluster s.cwdPath name

/-- One call. -/
def CallStep (g : Geom) (s s' : State) : Prop :=
  ∃ c : Call, c.Ok ∧ s' = (c.run g s).2

/-- One call that keeps clear of the current directory. -/
def ClearStep (g : Geom) (s s' : State) : Prop :=
  ∃ c : Call, c.Ok ∧ c.Clear g s ∧ s' = (c.run g s).2

/-- The driver behind `fat32_init`. -/
def initState (g : Geom) (d : Disk) (mem : ℕ → Bool) : State :=
  ⟨d, g.rootCluster, [0x2F], mem, fun _ => none, []⟩

/-- A well-formed volume with a start for every run of LFN slots, on which `.` and `..`
lead from a directory to itself and to its parent, `..` in slot 1. -/
structure ProperTree (g : Geom) (v : Vol) : Prop where
  wellFormed : WellFormed g v
  tidy : ∀ d, LiveDir g v d → Tidy (dirSlots g v d)
  homes : ∀ p i x, Live g v (.slot p i) ⟨x, true⟩ → Homed g p x (dirSlots g v x)
  root : ∀ (i : ℕ) (e : Slot), (dirSlots g v g.rootCluster)[i]? = some e →
    e.live = true → e.isDot → e.target g = g.rootCluster

lemma ProperTree.treeInv (hg : g.Valid) (hp : ProperTree g v) : TreeInv g v [rootHead g] := by
  have hI := hp.wellFormed.inv hg
  exact ⟨hI, fun x hx => hp.tidy x (hI.liveDir_iff.mp hx),
    fun p i x hr => hp.homes p i x (hI.live_iff.mp hr), hp.root⟩

/-- The current directory is live, and its text leads to it. -/
def CwdAgrees (g : Geom) (s : State) : Prop :=
  LiveDir g (vol g s.disk) s.cwdCluster ∧
    walk g (vol g s.disk) s.cwdPath = some s.cwdCluster

/-- What holds in every state of a clear run. -/
structure CwdInv (g : Geom) (s : State) : Prop where
  io : IoOk s
  tree : ∃ X, TreeInv g (vol g s.disk) (rootHead g :: X)
  cwd : CwdOk g (vol g s.disk) s.cwdCluster s.cwdPath

lemma CwdInv.agrees {s : State} (h : CwdInv g s) : CwdAgrees g s := by
  obtain ⟨X, hT⟩ := h.tree
  exact ⟨hT.inv.liveDir (h.cwd.reach hT), h.cwd.walk⟩

/-- A removed file is not on the path of the text. -/
lemma file_not_removed {S : Set (ℕ × ℕ)} {ds : List Name} {c : ℕ}
    (hS : ∀ q ∈ S, ∃ name en, lookup g v acceptFile q.1 name = some en ∧ en.idx = q.2) :
    ∀ q ∈ walkSlots g v ds c, q ∉ S := by
  intro q hq hqS
  obtain ⟨en, hen, hidx, hdir⟩ := walkSlots_dir ds hq
  obtain ⟨name, en', hf, hidx'⟩ := hS q hqS
  obtain ⟨hen', hacc, -⟩ := lookup_mem hf
  have h1 := (mem_entries hen).1
  rw [hidx, ← hidx', (mem_entries hen').1, Option.some.injEq] at h1
  have hfile := acceptFile_isDir hacc
  rw [h1, hdir] at hfile
  cases hfile

/-- A call other than `fat32_cd` that leaves the path of the text alone. -/
lemma CwdInv.of_outcome {s : State} (h : CwdInv g s) {X : List (Head ℕ)}
    (hT : TreeInv g (vol g s.disk) (rootHead g :: X)) {S : Set (ℕ × ℕ)} {s' : State}
    (hE : (s.env False).Holds s')
    (ho : Outcome g (vol g s.disk) (rootHead g :: X) S (vol g s'.disk))
    (hS : ∀ q ∈ walkSlots g (vol g s.disk) (components s.cwdPath) g.rootCluster, q ∉ S) :
    CwdInv g s' := by
  obtain ⟨⟨Y, hY⟩, hF⟩ := ho
  have hwalk := hF.resolveDir hT (components s.cwdPath) ⟨.root 0, .root rfl⟩ h.cwd.walk hS
  refine ⟨hE.io, ⟨X ++ Y, hY⟩, ?_⟩
  rw [hE.cwd, hE.path]
  exact ⟨h.cwd.text, hwalk⟩

/-- **One clear call.** -/
lemma ClearStep.cwdInv (hg : g.Valid) {s s' : State} (h : CwdInv g s) (hs : ClearStep g s s') :
    CwdInv g s' := by
  obtain ⟨c, hok, hclear, rfl⟩ := hs
  obtain ⟨X, hT⟩ := h.tree
  have hI := hT.inv
  have hroot : Reach (subOf g (vol g s.disk)) (rootHead g :: X) g.rootCluster :=
    ⟨.root 0, .root rfl⟩
  have hcwd : Reach (subOf g (vol g s.disk)) (rootHead g :: X) (s.env False).cwd :=
    (h.cwd.reach hT).append_roots X
  cases c with
  | cd name =>
    have hspec := spec_cd hg hI hroot hcwd s.cwdPath name s h.io rfl
    obtain ⟨hio, hv, he⟩ := hspec
    have hv : vol g (fat32Cd g name s).2.disk = vol g s.disk := hv
    refine ⟨hio, ⟨X, ?_⟩, ?_⟩
    · rw [Call.run, hv]
      exact hT
    · rw [Call.run, hv]
      exact he.cwdOk hg hT h.cwd hclear
  | op o =>
    obtain ⟨hE, ho⟩ := Op.outcome hg hT hok h.io (h.cwd.reach hT)
    refine h.of_outcome hT hE ho ?_
    cases o with
    | write path data =>
      refine file_not_removed ?_
      rintro q ⟨name, en, -, hf, hidx⟩
      exact ⟨name, en, hf, hidx⟩
    | delete path =>
      refine file_not_removed ?_
      rintro q ⟨name, en, -, hf, hidx⟩
      exact ⟨name, en, hf, hidx⟩
    | mkdir path => exact fun q _ hq => hq
    | rename oldpath newname => exact hclear

/-- **The text and the cluster of the current directory agree** behind `fat32_init` and
any run of calls that keep clear of the current directory. -/
theorem cwdAgrees_of_run (hg : g.Valid) {d : Disk} (hp : ProperTree g (vol g d))
    {mem : ℕ → Bool} {s : State}
    (hrun : Relation.ReflTransGen (ClearStep g) (initState g d mem) s) : CwdAgrees g s := by
  have h : CwdInv g s := by
    induction hrun with
    | refl => exact ⟨rfl, ⟨[], hp.treeInv hg⟩, ⟨⟨[], rfl, by simp⟩, rfl⟩⟩
    | tail _ hs ih => exact hs.cwdInv hg ih
  exact h.agrees

/-- A freshly formatted volume has one directory without entries. -/
lemma Formatted.properTree (hg : g.Valid) (hf : Formatted g v) : ProperTree g v where
  wellFormed := hf.wellFormed hg
  tidy d hd := ((hf.named hg).dirs d hd.reach).tidy
  homes p i x hl := by
    have := (hf.ref hg hl.ref).1
    cases this
  root i e he hl := absurd (hf.slot_zero hg he) (Slot.ne_zero_of_live hl)

/-- The small disk with a directory `D`, entered. -/
def enteredState : State :=
  (fat32Cd smallGeom [0x44]
    (fat32Mkdir smallGeom [0x44] (initState smallGeom smallFormatted fun _ => true)).2).2

/-- A directory made and entered on a freshly formatted volume. -/
theorem cwdAgrees_of_run_small :
    enteredState.cwdCluster = 3 ∧ CwdAgrees smallGeom enteredState := by
  refine ⟨by decide +kernel, cwdAgrees_of_run smallGeom_valid
    (smallFormatted_formatted.properTree smallGeom_valid)
    (.tail (.single ⟨.op (.mkdir [0x44]), by decide, trivial, rfl⟩)
      ⟨.cd [0x44], by decide, ?_, rfl⟩)⟩
  rw [Call.Clear, CdClear, if_neg (by decide), if_neg (by decide)]
  exact ⟨by decide, by decide +kernel⟩

/-- **`cd ..` in the root directory** takes the slot of a file for the entry `..`: with
the files `A` and `B` in the root directory the current directory is then the first
cluster of `B`. -/
theorem cd_up_from_root :
    ¬ ∀ (g : Geom) (d : Disk) (mem : ℕ → Bool) (s : State), g.Valid →
      ProperTree g (vol g d) →
      Relation.ReflTransGen (CallStep g) (initState g d mem) s → CwdAgrees g s := by
  intro hall
  let s₁ := (fat32WriteFile smallGeom [0x41] [1]
    (initState smallGeom smallFormatted fun _ => true)).2
  let s₂ := (fat32WriteFile smallGeom [0x42] [2] s₁).2
  let s₃ := (fat32Cd smallGeom [0x2E, 0x2E] s₂).2
  have h := hall smallGeom smallFormatted (fun _ => true) s₃ smallGeom_valid
    (smallFormatted_formatted.properTree smallGeom_valid)
    (((Relation.ReflTransGen.single ⟨.op (.write [0x41] [1]), by decide, rfl⟩).tail
      ⟨.op (.write [0x42] [2]), by decide, rfl⟩).tail ⟨.cd [0x2E, 0x2E], by decide, rfl⟩)
  have hcwd : s₃.cwdCluster = 4 := by decide +kernel
  have hwalk : walk smallGeom (vol smallGeom s₃.disk) s₃.cwdPath = some 2 := by
    decide +kernel
  rw [CwdAgrees, hwalk, hcwd] at h
  exact absurd h.2 (by decide)

end

end GordOS.Fat32
