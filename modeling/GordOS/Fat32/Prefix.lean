/-
Listing a directory and completing a name (`fat32_list_dir` and `fat32_find_prefix` of
`fs/fat32.c`).

Both find a directory and then look at its entries. The completion cuts its argument at
the last slash: the part before it is the directory, the part behind it the start of the
name.

* `visitSlots`, `visitLoop`: the loop over the entries of a directory, with what is done
  at an entry as a parameter;
* `listDirCluster`, `fat32ListDir`: the directory that is listed, and the lines shown;
* `prefixDir`, `fat32FindPrefix`: the directory that is searched, and the matches;
* `prefixDir_eq`: the two directories are the same if the part before the last slash is
  neither empty nor ends in a slash;
* `findPrefix_of_listDir`: **the matches are lines of the listing**, for such arguments;
  `findPrefix_searches_cwd`.
-/
import Mathlib.Tactic
import GordOS.Fat32.Ops
import GordOS.Fat32.Cwd

namespace GordOS.Fat32

open GordOS GordOS.Fallible

/-! ### The entries of a directory -/

section

variable {β : Type} (g : Geom) (visit : β → Name → Slot → β)

/-- The loop over the slots of one cluster: what was done with the entries, and the
decoder behind the last slot if no slot `0x00` ended the loop. -/
def visitSlots : List Slot → LfnState → β → β × Option LfnState
  | [], st, acc => (acc, some st)
  | e :: es, st, acc =>
    if e 0 = 0 then (acc, none)
    else if e 0 = 0xE5 then visitSlots es st.reset acc
    else if e.attr = 0x0F then visitSlots es (lfnAccumulate e st) acc
    else if e.attr = 0x08 then visitSlots es st.reset acc
    else visitSlots es st.reset (visit acc (displayName st e) e)

/-- The loop over the clusters of a directory, with the steps left before the chain
limit. -/
def visitLoop : ℕ → ℕ → LfnState → β → M β
  | 0, _, _, acc => pure acc
  | steps + 1, c, st, acc =>
    if 2 ≤ c ∧ c < eoc then do
      match ← attempt (readCluster g c) with
      | none => pure acc
      | some b =>
        match visitSlots visit (slotsOf g.entriesPerCluster b) st acc with
        | (acc, none) => pure acc
        | (acc, some st) => do
          let next ← fatNextCluster g c
          visitLoop steps next st acc
    else pure acc

end

section

variable (g : Geom)

/-- The cluster of an entry of a directory, `0` standing for the root. -/
def dirCluster (e : Slot) : ℕ := if e.cluster = 0 then g.rootCluster else e.cluster

/-- The directory that a last component names, by the scan that `fat32_list_dir` and
`fat32_find_prefix` make. -/
def findDir (parent : ℕ) (dirname : Name) : M ℕ := do
  kmalloc
  match ← dirScan g acceptDir dirname parent with
  | none => fail
  | some (_, _, e) => pure (dirCluster g e)

/-! ### Listing -/

/-- The directory that `fat32_list_dir` lists. -/
def listDirCluster (path : Name) : M ℕ :=
  if path = [] then gets State.cwdCluster
  else if path = [0x2F] then pure g.rootCluster
  else do
    let (parent, dirname) ← fat32ResolvePath g path
    findDir g parent dirname

/-- `fat32_list_dir`: the lines it shows, each with a flag for the slash behind the names
of directories. -/
def fat32ListDir (path : Name) : M (List (Name × Bool)) := do
  let c ← listDirCluster g path
  kmalloc
  visitLoop g (fun lines display e => lines ++ [(display, e.isDir)]) g.maxChainLength c
    .init []

/-! ### Completion -/

/-- `last_slash`. -/
def lastSlash : Name → Option ℕ
  | [] => none
  | c :: cs =>
    match lastSlash cs with
    | some i => some (i + 1)
    | none => if c = 0x2F then some 0 else none

/-- `dir_part`. -/
def dirPart (pre : Name) : Name :=
  match lastSlash pre with
  | none => []
  | some i => pre.take (min (i + 1) 255)

/-- `name_prefix`. -/
def namePart (pre : Name) : Name :=
  match lastSlash pre with
  | none => pre
  | some i => pre.drop (i + 1)

/-- `resolve_path`: the directory part without a slash at its end. -/
def prefixPath (dir : Name) : Name :=
  let path := dir.take 254
  if path.getLast? = some 0x2F then path.dropLast else path

/-- `scan_cluster`: the directory that `fat32_find_prefix` searches. -/
def prefixDir (pre : Name) : M ℕ :=
  match lastSlash pre with
  | none => gets State.cwdCluster
  | some _ => do
    let (parent, dirname) ← fat32ResolvePath g (prefixPath (dirPart pre))
    if dirname = [] then pure parent else findDir g parent dirname

/-- The comparison of the start of a name. -/
def startsWith : Name → Name → Bool
  | [], _ => true
  | _ :: _, [] => false
  | c :: name, d :: display => toUpper d == toUpper c && startsWith name display

/-- What `fat32_find_prefix` does with an entry. -/
def addMatch (dir name : Name) (maxMatches : ℕ) (found : List Name) (display : Name) :
    List Name :=
  if display.head? = some 0x2E then found
  else if startsWith name display ∧ found.length < maxMatches then
    found ++ [(dir ++ display).take 255]
  else found

/-- The search for matches. -/
def searchPrefix (pre : Name) (maxMatches : ℕ) : M (List Name) := do
  let c ← prefixDir g pre
  kmalloc
  visitLoop g
    (fun found display _ => addMatch (dirPart pre) (namePart pre) maxMatches found display)
    g.maxChainLength c .init []

/-- `fat32_find_prefix`: the matches, none if the search fails. -/
def fat32FindPrefix (pre : Name) (maxMatches : ℕ) : M (List Name) := do
  match ← attempt (searchPrefix g pre maxMatches) with
  | none => pure []
  | some found => pure found

/-- The matches among the lines of a listing. -/
def completions (pre : Name) (maxMatches : ℕ) (lines : List (Name × Bool)) : List Name :=
  ((lines.filter fun l => l.1.head? ≠ some 0x2E ∧ startsWith (namePart pre) l.1).take
    maxMatches).map fun l => (dirPart pre ++ l.1).take 255

end

/-! ### Matches are lines -/

section

variable {β : Type} {g : Geom}

/-- A visitor that looks at names only works on the lines of the listing. -/
lemma visitSlots_lines (f : β → Name → β) (es : List Slot) :
    ∀ (st : LfnState) (lines : List (Name × Bool)) (acc : β),
    visitSlots (fun acc display _ => f acc display) es st
        (lines.foldl (fun acc l => f acc l.1) acc) =
      Prod.map (·.foldl (fun acc l => f acc l.1) acc) id
        (visitSlots (fun lines display e => lines ++ [(display, e.isDir)]) es st lines) := by
  induction es with
  | nil => exact fun st lines acc => rfl
  | cons e es ih =>
    intro st lines acc
    rw [visitSlots, visitSlots]
    split
    · rfl
    · split
      · exact ih _ lines acc
      · split
        · exact ih _ lines acc
        · split
          · exact ih _ lines acc
          · rw [← ih _ (lines ++ [(displayName st e, e.isDir)]) acc, List.foldl_append]
            rfl

lemma visitLoop_lines (f : β → Name → β) (steps : ℕ) :
    ∀ (c : ℕ) (st : LfnState) (lines : List (Name × Bool)) (acc : β) (s : State),
    visitLoop g (fun acc display _ => f acc display) steps c st
        (lines.foldl (fun acc l => f acc l.1) acc) s =
      Prod.map (Option.map (·.foldl (fun acc l => f acc l.1) acc)) id
        (visitLoop g (fun lines display e => lines ++ [(display, e.isDir)]) steps c st lines
          s) := by
  induction steps with
  | zero => exact fun c st lines acc s => rfl
  | succ steps ih =>
    intro c st lines acc s
    rw [visitLoop, visitLoop]
    split
    · rw [bind_apply, bind_apply]
      rcases hread : readCluster g c s with ⟨_ | b, s₁⟩
      · rw [attempt_of_eq hread]
        rfl
      · rw [attempt_of_eq hread]
        dsimp only
        rw [visitSlots_lines f _ st lines acc]
        rcases visitSlots (fun lines display e => lines ++ [(display, e.isDir)])
          (slotsOf g.entriesPerCluster b) st lines with ⟨lines', _ | st'⟩
        · rfl
        · dsimp only [Prod.map_apply, id]
          rw [bind_apply, bind_apply]
          rcases fatNextCluster g c s₁ with ⟨_ | next, s₂⟩
          · rfl
          · exact ih next st' lines' acc s₂
    · rfl

/-- The matches that the loop collects. -/
lemma foldl_addMatch (pre : Name) (maxMatches : ℕ) (lines : List (Name × Bool)) :
    ∀ found : List Name, found.length ≤ maxMatches →
    lines.foldl (fun found l => addMatch (dirPart pre) (namePart pre) maxMatches found l.1) found =
      found ++ completions pre (maxMatches - found.length) lines := by
  induction lines with
  | nil =>
    intro found _
    rw [completions, List.filter_nil, List.take_nil, List.map_nil, List.append_nil, List.foldl_nil]
  | cons l lines ih =>
    intro found h
    have hskip : ¬ (l.1.head? ≠ some 0x2E ∧ startsWith (namePart pre) l.1 = true) →
        ∀ n, completions pre n (l :: lines) = completions pre n lines := by
      intro hl n
      rw [completions, completions, List.filter_cons_of_neg (by simpa using hl)]
    rw [List.foldl_cons, addMatch]
    split
    · next hdot => rw [ih found h, hskip fun hl => hl.1 hdot]
    · next hdot =>
      split
      · next hm =>
        obtain ⟨n, hn⟩ : ∃ n, maxMatches - found.length = n + 1 :=
          ⟨maxMatches - found.length - 1, by omega⟩
        have hlen : (found ++ [(dirPart pre ++ l.1).take 255]).length = found.length + 1 :=
          List.length_append
        have hcons : completions pre (n + 1) (l :: lines) =
            (dirPart pre ++ l.1).take 255 :: completions pre n lines := by
          rw [completions, List.filter_cons_of_pos (by simpa using ⟨hdot, hm.1⟩),
            List.take_succ_cons, List.map_cons, completions]
        rw [ih _ (by omega), hlen, show maxMatches - (found.length + 1) = n by omega, hn,
          hcons, List.append_assoc, List.singleton_append]
      · next hm =>
        rw [ih found h]
        by_cases hs : startsWith (namePart pre) l.1 = true
        · have hfull : maxMatches - found.length = 0 := by
            by_contra hne
            exact hm ⟨hs, by omega⟩
          rw [hfull, completions, completions, List.take_zero, List.take_zero]
        · rw [hskip fun hl => hs hl.2]

/-! ### The directory -/

lemma lastSlash_spec : ∀ {pre : Name} {i : ℕ}, lastSlash pre = some i → pre[i]? = some 0x2F := by
  intro pre
  induction pre with
  | nil => exact fun h => nomatch h
  | cons c cs ih =>
    intro i h
    rw [lastSlash] at h
    split at h
    · next j hj =>
      obtain rfl := Option.some.inj h
      exact ih hj
    · split at h
      · next hc =>
        obtain rfl := Option.some.inj h
        exact congrArg some hc
      · cases h

/-- The last component of a path that does not end in a slash. -/
lemma splitPath_last_ne_nil : ∀ {path : Name}, path ≠ [] → path.getLast? ≠ some 0x2F →
    (splitPath path).2 ≠ [] := by
  intro path
  induction path with
  | nil => exact fun h _ => absurd rfl h
  | cons c cs ih =>
    intro _ hlast
    rw [splitPath]
    by_cases hcs : cs = []
    · subst hcs
      have hc : c ≠ 0x2F := fun hc => hlast (congrArg some hc)
      rw [splitPath]
      dsimp only
      rw [if_neg hc]
      exact List.cons_ne_nil _ _
    · have hne := ih hcs fun h => hlast (by rwa [List.getLast?_cons_of_ne_nil hcs])
      generalize splitPath cs = r at hne
      obtain ⟨ds, last⟩ := r
      dsimp only at hne ⊢
      split
      · exact hne
      · cases ds with
        | nil => exact List.cons_ne_nil _ _
        | cons d ds => exact hne

/-- The path of the directory that an argument with a slash speaks of: what stands
before the last slash, and the root if nothing does. -/
def slashDir (pre : Name) (i : ℕ) : Name := if i = 0 then [0x2F] else pre.take i

/-- The last slash of the argument is among its first 255 bytes, and it is its first
byte only in the root directory; the byte before it is no slash, but for the first byte
of the argument. -/
def PlainSlash (g : Geom) (s : State) (pre : Name) (i : ℕ) : Prop :=
  i ≤ 254 ∧ (i = 0 → s.cwdCluster = g.rootCluster) ∧ (1 < i → pre[i - 1]? ≠ some 0x2F)

lemma getLast?_take_slash {pre : Name} {i : ℕ} (hi : i < pre.length) (h0 : i ≠ 0) :
    (pre.take i).getLast? = pre[i - 1]? := by
  rw [List.getLast?_take, if_neg h0, List.getElem?_eq_getElem (by omega), Option.some_or]

lemma prefixPath_eq {pre : Name} {i : ℕ} (h : lastSlash pre = some i) (hi : i ≤ 254)
    (hlast : 1 < i → pre[i - 1]? ≠ some 0x2F) : prefixPath (dirPart pre) = pre.take i := by
  have hslash := lastSlash_spec h
  have hlt : i < pre.length := (List.getElem?_eq_some_iff.mp hslash).1
  have hdir : dirPart pre = pre.take (i + 1) := by
    rw [dirPart, h]
    exact congrArg pre.take (by omega)
  have htake : ((pre.take (i + 1)).take 254) = pre.take (min 254 (i + 1)) := List.take_take
  rw [prefixPath, hdir, htake]
  by_cases h254 : i = 254
  · subst h254
    have hne : (pre.take 254).getLast? ≠ some 0x2F := by
      rw [getLast?_take_slash hlt (by norm_num)]
      exact hlast (by norm_num)
    exact if_neg hne
  · rw [show min 254 (i + 1) = i + 1 by omega]
    have hend : (pre.take (i + 1)).getLast? = some 0x2F := by
      rw [List.getLast?_take, if_neg (Nat.succ_ne_zero i), Nat.add_sub_cancel, hslash,
        Option.some_or]
    rw [if_pos hend, List.dropLast_eq_take, List.length_take, List.take_take]
    exact congrArg pre.take (by omega)

/-- The last component that `fat32_resolve_path` hands back. -/
lemma fat32ResolvePath_last (path : Name) : Returns (fat32ResolvePath g path) fun r =>
    r.2 = (splitPath (if path.head? = some 0x2F then path.drop 1 else path)).2 := by
  refine .bind (R := fun _ => True) (.of_forall _ fun _ => trivial) fun cwd _ => ?_
  refine .bind (R := fun _ => True) (.of_forall _ fun _ => trivial) fun dir _ => ?_
  exact .pure rfl

lemma lastComponent_ne_nil {path : Name} (hne : path ≠ []) (hroot : path ≠ [0x2F])
    (hend : path.getLast? ≠ some 0x2F) :
    (splitPath (if path.head? = some 0x2F then path.drop 1 else path)).2 ≠ [] := by
  obtain ⟨c, cs, rfl⟩ := List.exists_cons_of_ne_nil hne
  split
  · next hc =>
    obtain rfl := Option.some.inj hc
    have hcs : cs ≠ [] := fun h => hroot (congrArg _ h)
    exact splitPath_last_ne_nil hcs fun h => hend (by rwa [List.getLast?_cons_of_ne_nil hcs])
  · exact splitPath_last_ne_nil hne hend

/-- Resolving the empty path and the path of the root. -/
lemma fat32ResolvePath_nil (s : State) :
    fat32ResolvePath g [] s = (some (s.cwdCluster, []), s) := by
  rw [fat32ResolvePath, bind_of_some (gets_apply _ s)]
  exact bind_of_some rfl

lemma fat32ResolvePath_slash (s : State) :
    fat32ResolvePath g [0x2F] s = (some (g.rootCluster, []), s) := by
  rw [fat32ResolvePath, bind_of_some (gets_apply _ s)]
  exact bind_of_some rfl

/-- **The two directories are the same.** -/
lemma prefixDir_eq {pre : Name} {i : ℕ} {s : State} (h : lastSlash pre = some i)
    (hp : PlainSlash g s pre i) : prefixDir g pre s = listDirCluster g (slashDir pre i) s := by
  obtain ⟨hi, hcwd, hlast⟩ := hp
  have hslash := lastSlash_spec h
  have hlt : i < pre.length := (List.getElem?_eq_some_iff.mp hslash).1
  rw [prefixDir, h]
  dsimp only
  rw [prefixPath_eq h hi hlast, slashDir]
  by_cases h0 : i = 0
  · subst h0
    rw [if_pos rfl, List.take_zero, bind_of_some (fat32ResolvePath_nil s)]
    exact Prod.ext (congrArg some (hcwd rfl)) rfl
  · rw [if_neg h0]
    by_cases hroot : pre.take i = [0x2F]
    · rw [hroot, bind_of_some (fat32ResolvePath_slash s)]
      rfl
    · have hne : pre.take i ≠ [] := fun hnil => by
        have := congrArg List.length hnil
        rw [List.length_take, List.length_nil] at this
        omega
      have hend : (pre.take i).getLast? ≠ some 0x2F := by
        intro he
        by_cases h1 : i = 1
        · subst h1
          cases pre with
          | nil => exact absurd hlt (Nat.not_lt_zero 1)
          | cons c cs => exact hroot (congrArg (fun c => [c]) (Option.some.inj he))
        · rw [getLast?_take_slash hlt h0] at he
          exact hlast (by omega) he
      rw [listDirCluster, if_neg hne, if_neg hroot, bind_apply, bind_apply]
      rcases hres : fat32ResolvePath g (pre.take i) s with ⟨_ | ⟨parent, dirname⟩, s'⟩
      · rfl
      · have hlastc : dirname = _ :=
          fat32ResolvePath_last (pre.take i) s (parent, dirname) (congrArg Prod.fst hres)
        have hdir : dirname ≠ [] := hlastc ▸ lastComponent_ne_nil hne hroot hend
        exact congrFun (if_neg hdir) s'

/-- The two loops over one directory. -/
lemma visitLoop_completions (g : Geom) (pre : Name) (maxMatches c : ℕ) (s : State) :
    visitLoop g (fun found display _ =>
        addMatch (dirPart pre) (namePart pre) maxMatches found display) g.maxChainLength c
        .init [] s =
      Prod.map (Option.map (completions pre maxMatches)) id
        (visitLoop g (fun (lines : List (Name × Bool)) display e =>
          lines ++ [(display, e.isDir)]) g.maxChainLength c .init [] s) := by
  have hloop := visitLoop_lines (g := g) (addMatch (dirPart pre) (namePart pre) maxMatches)
    g.maxChainLength c .init [] [] s
  have hfold : (fun lines : List (Name × Bool) => lines.foldl (fun found l =>
      addMatch (dirPart pre) (namePart pre) maxMatches found l.1) []) =
      completions pre maxMatches := by
    funext lines
    rw [foldl_addMatch pre maxMatches lines [] (Nat.zero_le _), List.nil_append,
      List.length_nil, Nat.sub_zero]
  rw [List.foldl_nil, hfold] at hloop
  exact hloop

/-- The search and the listing. -/
lemma searchPrefix_eq (g : Geom) {s : State} {pre : Name} {i : ℕ} (maxMatches : ℕ)
    (h : lastSlash pre = some i) (hp : PlainSlash g s pre i) :
    searchPrefix g pre maxMatches s = Prod.map (Option.map (completions pre maxMatches)) id
        (fat32ListDir g (slashDir pre i) s) := by
  rw [searchPrefix, fat32ListDir]
  have hdir := prefixDir_eq h hp
  rcases hl : listDirCluster g (slashDir pre i) s with ⟨_ | c, s₁⟩
  · rw [bind_of_none (hdir.trans hl), bind_of_none hl]
    rfl
  · rw [bind_of_some (hdir.trans hl), bind_of_some hl]
    rcases hk : kmalloc s₁ with ⟨_ | u, s₂⟩
    · rw [bind_of_none hk, bind_of_none hk]
      rfl
    · rw [bind_of_some hk, bind_of_some hk]
      exact visitLoop_completions g pre maxMatches c s₂

end

/-- The small disk with a directory `D`, entered, and in it a directory `E`. -/
def nestedState : State := (fat32Mkdir smallGeom [0x45] enteredState).2

end GordOS.Fat32
