/-
The text of the current directory, byte by byte (`cwd_path` in `fat32_cd`, `fs/fat32.c`).

`fat32Cd` keeps the text as a list. Here are the stores that `fat32_cd` makes to the 256
bytes of `cwd_path`, with the checked accesses of `Lib/Bounded.lean`.

* `cdWrites`: the stores of a call that succeeds; `cdStep`, `cdRun`: calls in a row, each
  from whatever disk and with whatever outcomes of `kmalloc` and the sector transfers;
* `HoldsPath a p`: the bytes are the text `p` with a NUL behind it;
* `fat32Cd_cwdPath`: a failing call leaves the text, and what it is after one that succeeds;
  `cdWrites_spec`: the stores make this text;
* `cdRun_inBounds`: **every store is inside and the NUL stays inside**, in runs in which a
  relative name never meets a text of 255 bytes; `cd_relative_overflows`: what it does then.
-/
import Mathlib.Tactic
import GordOS.Lib.Bounded
import GordOS.Fat32.Cwd

namespace GordOS.Fat32

open GordOS GordOS.Fallible

/-! ### The stores -/

/-- The size of `cwd_path`. -/
def pathSize : ℕ := 256

/-- `while (cwd_path[len]) len++`. -/
def pathLen (a : ℕ → UInt8) : Option ℕ := seek pathSize (fun _ => none) 0 a (pathSize + 1) 0

/-- `while (len > 0 && cwd_path[len] != '/') len--`. -/
def stripLen (a : ℕ → UInt8) : ℕ → ℕ
  | 0 => 0
  | len + 1 => if a (len + 1) ≠ 0x2F then stripLen a len else len + 1

/-- The loop that copies a name, and its NUL. -/
def copyPath : Name → ℕ → (ℕ → UInt8) → Option (ℕ → UInt8)
  | [], len, a => writeAt pathSize len 0 a
  | c :: name, len, a =>
    if len < 255 then (writeAt pathSize len c a).bind fun a => copyPath name (len + 1) a
    else writeAt pathSize len 0 a

/-- The stores to `cwd_path` in a call of `fat32_cd` that succeeds. -/
def cdWrites (name : Name) (a : ℕ → UInt8) : Option (ℕ → UInt8) :=
  if name = [0x2E, 0x2E] then
    (pathLen a).bind fun len =>
      if 1 < len then
        writeAt pathSize (if stripLen a (len - 1) = 0 then 1 else stripLen a (len - 1)) 0 a
      else some a
  else if name = [0x2F] then
    (writeAt pathSize 0 0x2F a).bind fun a => writeAt pathSize 1 0 a
  else if name.head? = some 0x2F then
    (writeAt pathSize 0 0x2F a).bind fun a => copyPath (name.drop 1) 1 a
  else
    (pathLen a).bind fun len =>
      if 1 < len then
        (writeAt pathSize len 0x2F a).bind fun a => copyPath name (len + 1) a
      else copyPath name len a

/-- A call of `fat32_cd`: its name, a C string, and the disk and the coming outcomes that it
finds. -/
structure CdCall where
  name : Name
  noNul : 0 ∉ name
  disk : Disk
  mem : ℕ → Bool
  io : ℕ → Option ℕ

section

variable (g : Geom)

/-- One call, on the state of the driver and the bytes of `cwd_path`. -/
def cdStep (c : CdCall) (x : State × (ℕ → UInt8)) : Option (State × (ℕ → UInt8)) :=
  let r := fat32Cd g c.name { x.1 with disk := c.disk, mem := c.mem, io := c.io }
  match r.1 with
  | none => some (r.2, x.2)
  | some _ => (cdWrites c.name x.2).map fun a => (r.2, a)

/-- Calls in a row. -/
def cdRun : List CdCall → State × (ℕ → UInt8) → Option (State × (ℕ → UInt8))
  | [], x => some x
  | c :: cs, x => (cdStep g c x).bind fun x => cdRun cs x

/-- A relative name meets a text of fewer than 255 bytes. -/
def CdFits (name : Name) (a : ℕ → UInt8) : Prop :=
  name ≠ [0x2E, 0x2E] → name.head? ≠ some 0x2F → ∃ k < 255, a k = 0

/-- Every call of a run meets this. -/
def CdRunFits : List CdCall → State × (ℕ → UInt8) → Prop
  | [], _ => True
  | c :: cs, x => CdFits c.name x.2 ∧ ∀ x', cdStep g c x = some x' → CdRunFits cs x'

end

/-! ### The text -/

/-- The text after a call that succeeds. -/
def newPath (p name : Name) : Name :=
  if name = [0x2E, 0x2E] then parentPath p
  else if name = [0x2F] then [0x2F]
  else extendPath p name

/-- The bytes are a text without a NUL in it, and a NUL behind it. -/
structure HoldsPath (a : ℕ → UInt8) (p : Name) : Prop where
  length_lt : p.length < pathSize
  text : textOf a p.length = p
  nul : a p.length = 0
  noNul : 0 ∉ p

/-- A computation that changes the text by `q` if it succeeds, and leaves it if it fails. -/
def Sets {α : Type} (q : Name → Name) (m : M α) : Prop :=
  ∀ s, (m s).2.cwdPath = if (m s).1.isSome then q s.cwdPath else s.cwdPath

namespace Sets

variable {g : Geom} {α β : Type} {q : Name → Name} {m : M α}

lemma keeps (h : Sets id m) (s : State) : (m s).2.cwdPath = s.cwdPath := by
  rw [h s, id, ite_self]

lemma of_keeps (h : ∀ s, (m s).2.cwdPath = s.cwdPath) : Sets id m := fun s => by
  rw [h s, id, ite_self]

lemma pure (a : α) : Sets id (Pure.pure a : M α) := of_keeps fun _ => rfl

lemma fail : Sets q (Fallible.fail : M α) := fun _ => rfl

lemma modify {f : State → State} (h : ∀ s, (f s).cwdPath = q s.cwdPath) :
    Sets q (Fallible.modify f) := h

lemma attempt (h : Sets id m) : Sets id (Fallible.attempt m) := of_keeps h.keeps

/-- Only the last part of a computation changes the text. -/
lemma bind {f : α → M β} (hm : Sets id m) (hf : ∀ a, Sets q (f a)) : Sets q (m >>= f) := by
  intro s
  have hs := hm.keeps s
  rcases hms : m s with ⟨_ | a, s'⟩
  · rw [hms] at hs
    rw [bind_of_none hms]
    exact hs
  · rw [hms] at hs
    rw [bind_of_some hms, hf a s', ← hs]

lemma kmalloc : Sets id kmalloc := of_keeps fun _ => rfl

lemma note (x : Access) : Sets id (note x) := of_keeps fun _ => rfl

lemma ataRead (lba n : ℕ) : Sets id (ataRead lba n) := by
  refine of_keeps fun s => ?_
  rw [Fat32.ataRead]
  split
  · rfl
  · cases s.io 0 <;> rfl

lemma readCluster (c : ℕ) : Sets id (readCluster g c) := (note _).bind fun _ => ataRead _ _

lemma fatNextCluster (c : ℕ) : Sets id (fatNextCluster g c) := by
  refine (note _).bind fun _ => (ataRead _ _).attempt.bind fun r => ?_
  cases r with
  | none => exact pure _
  | some sector => exact pure _

lemma dirScanLoop (accept : UInt8 → Bool) (name : Name) : ∀ (n c : ℕ) (st : LfnState),
    Sets id (dirScanLoop g accept name n c st) := by
  intro n
  induction n with
  | zero => exact fun c st => pure _
  | succ n ih =>
    intro c st
    rw [Fat32.dirScanLoop]
    split
    · refine (readCluster c).attempt.bind fun r => ?_
      cases r with
      | none => exact pure _
      | some b =>
        dsimp only
        split
        · exact pure _
        · exact pure _
        · exact (fatNextCluster c).bind fun next => ih next _
    · exact pure _

lemma resolveLoop : ∀ (ds : List Name) (c : ℕ), Sets id (resolveLoop g ds c) := by
  intro ds
  induction ds with
  | nil => exact fun c => pure c
  | cons d ds ih =>
    intro c
    rw [Fat32.resolveLoop]
    refine kmalloc.bind fun _ => (dirScanLoop _ _ _ _ _).bind fun r => ?_
    cases r with
    | none => exact fail
    | some x => exact ih _

lemma resolvePath (path : Name) : Sets id (fat32ResolvePath g path) :=
  (of_keeps fun _ => rfl : Sets id (gets State.cwdCluster)).bind fun _ =>
    (resolveLoop _ _).bind fun _ => pure _

end Sets

/-- A failing call leaves the text, and a call that succeeds makes it the new one. -/
lemma fat32Cd_cwdPath (g : Geom) (name : Name) :
    Sets (fun p => newPath p name) (fat32Cd g name) := by
  rw [fat32Cd]
  split
  · next hup =>
    refine Sets.kmalloc.bind fun _ => (Sets.of_keeps fun _ => rfl).bind fun c =>
      (Sets.readCluster c).bind fun b => Sets.modify fun s => ?_
    rw [newPath, if_pos hup]
  · next hup =>
    split
    · next hroot =>
      refine Sets.modify fun s => ?_
      rw [newPath, if_neg hup, if_pos hroot]
    · next hroot =>
      refine (Sets.resolvePath name).bind fun r => Sets.kmalloc.bind fun _ =>
        (Sets.dirScanLoop _ _ _ _ _).bind fun o => ?_
      cases o with
      | none => exact Sets.fail
      | some x =>
        refine Sets.modify fun s => ?_
        rw [newPath, if_neg hup, if_neg hroot]

/-! ### The bytes -/

section

variable {g : Geom} {p q : Name} {a : ℕ → UInt8}

lemma HoldsPath.ne_zero (h : HoldsPath a p) {j : ℕ} (hj : j < p.length) : a j ≠ 0 := by
  intro hz
  have hget := getElem?_textOf a hj
  rw [h.text, hz] at hget
  exact h.noNul (List.mem_of_getElem? hget)

lemma HoldsPath.pathLen_eq (h : HoldsPath a p) : pathLen a = some p.length :=
  seek_eq _ h.length_lt h.nul (fun _ => h.ne_zero) _ 0 (Nat.zero_le _)
    (by have := h.length_lt; omega)

/-- A NUL behind a text. -/
lemma HoldsPath.of_text (hlen : p.length < pathSize) (htext : textOf a p.length = p)
    (hnul : 0 ∉ p) : HoldsPath (Function.update a p.length 0) p where
  length_lt := hlen
  text := by
    rw [textOf_congr fun k hk => Function.update_of_ne hk.ne 0 a]
    exact htext
  nul := Function.update_self _ _ _
  noNul := hnul

lemma textOf_update (htext : textOf a p.length = p) (c : UInt8) :
    textOf (Function.update a p.length c) (p ++ [c]).length = p ++ [c] := by
  rw [List.length_append, List.length_singleton, textOf_add,
    textOf_congr fun k hk => Function.update_of_ne hk.ne c a, htext]
  show p ++ [Function.update a p.length c (p.length + 0)] = p ++ [c]
  rw [Nat.add_zero, Function.update_self]

lemma copyPath_spec : ∀ (name p : Name) (a : ℕ → UInt8), p.length ≤ 255 →
    textOf a p.length = p → 0 ∉ p → 0 ∉ name →
    ∃ a', copyPath name p.length a = some a' ∧ HoldsPath a' (p ++ name.take (255 - p.length)) := by
  intro name
  induction name with
  | nil =>
    intro p a hlen htext hp _
    have hlt : p.length < pathSize := by rw [pathSize]; omega
    rw [copyPath, writeAt_eq hlt, List.take_nil, List.append_nil]
    exact ⟨_, rfl, .of_text hlt htext hp⟩
  | cons c name ih =>
    intro p a hlen htext hp hname
    have hlt : p.length < pathSize := by rw [pathSize]; omega
    rw [List.mem_cons, not_or] at hname
    rw [copyPath]
    by_cases hroom : p.length < 255
    · have hp' : 0 ∉ p ++ [c] := by
        rw [List.mem_append, List.mem_singleton, not_or]
        exact ⟨hp, hname.1⟩
      obtain ⟨a', he, hholds⟩ := ih (p ++ [c]) (Function.update a p.length c)
        (by rw [List.length_append, List.length_singleton]; omega) (textOf_update htext c) hp'
        hname.2
      rw [List.length_append, List.length_singleton, List.append_assoc] at hholds
      rw [List.length_append, List.length_singleton] at he
      rw [if_pos hroom, writeAt_eq hlt, Option.bind_some, he,
        show 255 - p.length = 255 - (p.length + 1) + 1 by omega, List.take_succ_cons]
      exact ⟨a', rfl, hholds⟩
    · rw [if_neg hroom, writeAt_eq hlt, show 255 - p.length = 0 by omega, List.take_zero,
        List.append_nil]
      exact ⟨_, rfl, .of_text hlt htext hp⟩

/-- The loop finds the last slash, or stops at the first byte. -/
lemma stripLen_eq (a : ℕ → UInt8) : ∀ k,
    stripLen a k = ((textOf a (k + 1)).reverse.dropWhile (· != 0x2F)).length - 1 := by
  intro k
  induction k with
  | zero =>
    have hle := List.length_dropWhile_le (· != 0x2F) (textOf a (0 + 1)).reverse
    rw [List.length_reverse, length_textOf] at hle
    rw [stripLen]
    omega
  | succ k ih =>
    rw [stripLen, textOf_add a (k + 1) 1, List.reverse_append]
    show _ = ((a (k + 1) :: (textOf a (k + 1)).reverse).dropWhile _).length - 1
    by_cases hc : a (k + 1) ≠ 0x2F
    · rw [if_pos hc, List.dropWhile_cons_of_pos (by simpa using hc), ih]
    · rw [if_neg hc, List.dropWhile_cons_of_neg (by simpa using hc), List.length_cons,
        List.length_reverse, length_textOf]
      rfl

lemma stripLen_le (a : ℕ → UInt8) (k : ℕ) : stripLen a k ≤ k := by
  have hle := List.length_dropWhile_le (· != 0x2F) (textOf a (k + 1)).reverse
  rw [List.length_reverse, length_textOf] at hle
  rw [stripLen_eq]
  omega

/-- The text is cut. -/
lemma HoldsPath.take (h : HoldsPath a p) {n : ℕ} (hn : n ≤ p.length) :
    HoldsPath (Function.update a n 0) (p.take n) := by
  have hlen : (p.take n).length = n := List.length_take_of_le hn
  have htext : textOf a (p.take n).length = p.take n := by
    rw [hlen, ← take_textOf a hn, h.text]
  have hcut := HoldsPath.of_text (by rw [hlen]; exact hn.trans_lt h.length_lt) htext
    fun hz => h.noNul (List.mem_of_mem_take hz)
  rwa [hlen] at hcut

lemma cdWrites_up (h : HoldsPath a p) :
    ∃ a', cdWrites [0x2E, 0x2E] a = some a' ∧ HoldsPath a' (parentPath p) := by
  have hlen := h.length_lt
  rw [cdWrites, if_pos rfl, h.pathLen_eq, Option.bind_some, parentPath]
  by_cases hone : 1 < p.length
  · have hslash := stripLen_eq a (p.length - 1)
    have hle := stripLen_le a (p.length - 1)
    rw [show p.length - 1 + 1 = p.length by omega, h.text] at hslash
    rw [if_pos hone, if_pos hone]
    dsimp only
    rw [← hslash]
    generalize stripLen a (p.length - 1) = k at hle
    have hcut : (if k = 0 then 1 else k) ≤ p.length := by split <;> omega
    rw [writeAt_eq (by omega)]
    exact ⟨_, rfl, h.take hcut⟩
  · rw [if_neg hone, if_neg hone]
    exact ⟨a, rfl, h⟩

/-- The first byte becomes a slash. -/
lemma textOf_slash (a : ℕ → UInt8) :
    textOf (Function.update a 0 0x2F) [(0x2F : UInt8)].length = [0x2F] := rfl

/-- **The stores of a call** make the new text, if a relative name meets a text of fewer than
255 bytes. -/
lemma cdWrites_spec (h : HoldsPath a p) {name : Name} (hname : 0 ∉ name) (hfit : CdFits name a) :
    ∃ a', cdWrites name a = some a' ∧ HoldsPath a' (newPath p name) := by
  rw [newPath]
  by_cases hup : name = [0x2E, 0x2E]
  · rw [if_pos hup, hup]
    exact cdWrites_up h
  rw [cdWrites, if_neg hup, if_neg hup]
  by_cases hroot : name = [0x2F]
  · rw [if_pos hroot, if_pos hroot, writeAt_eq (by decide), Option.bind_some,
      writeAt_eq (by decide)]
    exact ⟨_, rfl, HoldsPath.of_text (p := [0x2F]) (by decide) (textOf_slash a) (by decide)⟩
  rw [if_neg hroot, if_neg hroot, extendPath]
  by_cases habs : name.head? = some 0x2F
  · rw [if_pos habs, if_pos habs, writeAt_eq (by decide), Option.bind_some]
    exact copyPath_spec (name.drop 1) [0x2F] _ (by decide) (textOf_slash a) (by decide)
      fun hz => hname (List.mem_of_mem_drop hz)
  rw [if_neg habs, if_neg habs, h.pathLen_eq, Option.bind_some]
  obtain ⟨k, hk, hz⟩ := hfit hup habs
  have hle : p.length ≤ k := Nat.le_of_not_lt fun hlt => h.ne_zero hlt hz
  dsimp only
  by_cases hone : 1 < p.length
  · have hslash : 0 ∉ p ++ [0x2F] := by
      rw [List.mem_append, not_or]
      exact ⟨h.noNul, by decide⟩
    obtain ⟨a', he, hholds⟩ := copyPath_spec name (p ++ [0x2F]) (Function.update a p.length 0x2F)
      (by rw [List.length_append, List.length_singleton]; omega) (textOf_update h.text 0x2F) hslash
      hname
    rw [List.length_append, List.length_singleton] at he
    rw [if_pos hone, if_pos hone, writeAt_eq h.length_lt, Option.bind_some, he]
    exact ⟨a', rfl, hholds⟩
  · rw [if_neg hone, if_neg hone]
    exact copyPath_spec name p a (by omega) h.text h.noNul hname

/-! ### Runs -/

/-- The bytes hold the text of the driver's state. -/
def PathOk (x : State × (ℕ → UInt8)) : Prop := HoldsPath x.2 x.1.cwdPath

lemma cdStep_ok {c : CdCall} {x : State × (ℕ → UInt8)} (h : PathOk x) (hfit : CdFits c.name x.2) :
    ∃ x', cdStep g c x = some x' ∧ PathOk x' := by
  have hpath := fat32Cd_cwdPath g c.name { x.1 with disk := c.disk, mem := c.mem, io := c.io }
  rw [cdStep]
  dsimp only at hpath ⊢
  generalize fat32Cd g c.name { x.1 with disk := c.disk, mem := c.mem, io := c.io } = r at hpath
  obtain ⟨r, s⟩ := r
  cases r with
  | none => exact ⟨_, rfl, by rw [PathOk, show s.cwdPath = _ from hpath]; exact h⟩
  | some u =>
    obtain ⟨a', he, hholds⟩ := cdWrites_spec h c.noNul hfit
    refine ⟨(s, a'), by dsimp only; rw [he]; rfl, ?_⟩
    rw [PathOk, show s.cwdPath = _ from hpath]
    exact hholds

lemma cdRun_ok : ∀ (cs : List CdCall) {x : State × (ℕ → UInt8)}, PathOk x → CdRunFits g cs x →
    ∃ x', cdRun g cs x = some x' ∧ PathOk x' := by
  intro cs
  induction cs with
  | nil => exact fun h _ => ⟨_, rfl, h⟩
  | cons c cs ih =>
    intro x h hfits
    obtain ⟨x₁, hstep, h₁⟩ := cdStep_ok (g := g) h hfits.1
    rw [cdRun, hstep, Option.bind_some]
    exact ih h₁ (hfits.2 x₁ hstep)

lemma CdRunFits.take : ∀ {cs : List CdCall} {x : State × (ℕ → UInt8)}, CdRunFits g cs x →
    ∀ n, CdRunFits g (cs.take n) x := by
  intro cs
  induction cs with
  | nil => exact fun h n => by rw [List.take_nil]; exact h
  | cons c cs ih =>
    intro x h n
    cases n with
    | zero => trivial
    | succ n => exact ⟨h.1, fun x' hx' => ih (h.2 x' hx') n⟩

end

/-- **`cwd_path` stays inside its 256 bytes**: in a run of `fat32_cd` calls from the root
directory in which no relative name meets a text of 255 bytes, every store is inside, and
after each call the bytes are the text of the current directory with a NUL behind it. -/
theorem cdRun_inBounds (g : Geom) (cs : List CdCall) (s : State) (a : ℕ → UInt8)
    (hs : s.cwdPath = [0x2F]) (hslash : a 0 = 0x2F) (hnul : a 1 = 0)
    (hfits : CdRunFits g cs (s, a)) (n : ℕ) :
    ∃ s' a', cdRun g (cs.take n) (s, a) = some (s', a') ∧
      ∃ k < 256, a' k = 0 ∧ textOf a' k = s'.cwdPath := by
  have hinit : PathOk (s, a) := by
    rw [PathOk]
    dsimp only
    rw [hs]
    exact ⟨by decide, by show [a 0] = _; rw [hslash], hnul, by decide⟩
  obtain ⟨⟨s', a'⟩, hrun, hok⟩ := cdRun_ok (cs.take n) hinit (hfits.take n)
  exact ⟨s', a', hrun, _, hok.length_lt, hok.nul, hok.text⟩

/-- The disk with a directory `DD`. -/
def cdDisk : Disk :=
  (fat32Mkdir smallGeom [0x44, 0x44] (initState smallGeom smallFormatted fun _ => true)).2.disk

/-- A call on this disk. -/
def cdCall (name : Name) (h : 0 ∉ name) : CdCall :=
  ⟨name, h, cdDisk, fun _ => true, fun _ => none⟩

/-- The bytes of `/`. -/
def rootBytes : ℕ → UInt8 := fun i => if i = 0 then 0x2F else 0

/-- `cd DD`. -/
theorem cdRun_inBounds_one :
    CdRunFits smallGeom [cdCall [0x44, 0x44] (by decide)]
      (initState smallGeom smallFormatted fun _ => true, rootBytes) ∧
    ∃ s a, cdRun smallGeom ([cdCall [0x44, 0x44] (by decide)].take 1)
        (initState smallGeom smallFormatted fun _ => true, rootBytes) = some (s, a) ∧
      ∃ k < 256, a k = 0 ∧ textOf a k = s.cwdPath := by
  have hfits : CdRunFits smallGeom [cdCall [0x44, 0x44] (by decide)]
      (initState smallGeom smallFormatted fun _ => true, rootBytes) :=
    ⟨fun _ _ => ⟨1, by decide, rfl⟩, fun _ _ => trivial⟩
  exact ⟨hfits, cdRun_inBounds smallGeom _ _ _ rfl rfl rfl hfits 1⟩

/-- `/DD/./.` and so on, of 255 bytes. -/
def longName : Name := [0x2F, 0x44, 0x44] ++ (List.replicate 126 [0x2F, 0x2E]).flatten

/-- The long absolute name fills `cwd_path`; after it the relative name `.` puts a slash in
the place of the NUL, and the NUL behind the end. -/
theorem cd_relative_overflows :
    (cdRun smallGeom [cdCall longName (by decide)]
      (initState smallGeom smallFormatted fun _ => true, rootBytes)).isSome = true ∧
    (cdRun smallGeom [cdCall longName (by decide), cdCall [0x2E] (by decide)]
      (initState smallGeom smallFormatted fun _ => true, rootBytes)).isNone = true := by
  decide +kernel

end GordOS.Fat32
