/-
Directory slots and the names in them (`fs/fat32.c`, the LFN helpers).

* `Slot`: a 32-byte directory entry, with the fields the driver reads;
* `sfnChecksum`, `sfnToName`, `nameMatch`, `isValid83`, `makeSfn`,
  `lfnEntriesNeeded`: short names and their tests;
* `LfnState`, `lfnAccumulate`: the decoder of long names that every directory
  scan runs, with the writes it makes to `lfn_buf` as a list (`lfnWrites`);
* `writeLfnEntries`, `entrySlots`: the slots `fat32_create_entry` builds.
-/
import Mathlib.Tactic
import GordOS.Fat32.Disk

namespace GordOS.Fat32

/-! ### Slots -/

/-- A 32-byte directory entry. -/
abbrev Slot := Fin 32 → UInt8

instance neZeroSlot : NeZero 32 := ⟨by decide⟩

/-- A statement about all slots of a directory is checked slot by slot, and not over
the finite type of all slots. -/
instance (priority := high) decidableForallMem {α : Type*} {p : α → Prop}
    [DecidablePred p] (l : List α) : Decidable (∀ a ∈ l, p a) := List.decidableBAll p l

/-- The entry at index `i` of a buffer. -/
def slotAt (b : Buf) (i : ℕ) : Slot := fun j => b (32 * i + j)

/-- The first `n` entries of a buffer. -/
def slotsOf (n : ℕ) (b : Buf) : List Slot := (List.range n).map (slotAt b)

/-- `FAT_ATTR_DIRECTORY`. -/
def attrDirectory : UInt8 := 0x10

/-- `FAT_ATTR_ARCHIVE`. -/
def attrArchive : UInt8 := 0x20

namespace Slot

variable (e : Slot)

/-- The attribute byte. -/
def attr : UInt8 := e 11

/-- The first cluster, from its two halves. -/
def cluster : ℕ :=
  (e 26).toNat + (e 27).toNat * 2 ^ 8
    + ((e 20).toNat + (e 21).toNat * 2 ^ 8) * 2 ^ 16

/-- The file size. -/
def size : ℕ :=
  (e 28).toNat + (e 29).toNat * 2 ^ 8 + (e 30).toNat * 2 ^ 16
    + (e 31).toNat * 2 ^ 24

/-- The directory flag of an attribute byte. -/
def isDirAttr (a : UInt8) : Bool := a &&& attrDirectory != 0

/-- The entry is a directory. -/
def isDir : Bool := isDirAttr e.attr

end Slot

/-! ### Short names -/

/-- `to_upper`. -/
def toUpper (c : UInt8) : UInt8 := if 0x61 ≤ c ∧ c ≤ 0x7A then c - 32 else c

/-- `sfn_checksum` of the eleven bytes of a short name. -/
def sfnChecksum (sfn : List UInt8) : UInt8 :=
  sfn.foldl
    (fun (sum b : UInt8) =>
      (if sum &&& 1 != 0 then (0x80 : UInt8) else 0) + (sum >>> 1) + b) 0

/-- The eleven name bytes of a slot. -/
def Slot.sfn (e : Slot) : List UInt8 :=
  [e 0, e 1, e 2, e 3, e 4, e 5, e 6, e 7, e 8, e 9, e 10]

/-- `sfn_to_name`: the base up to a blank, and the extension if it has one, as
the C string in the output buffer. -/
def sfnToName (e : Slot) : Name :=
  ((e.sfn.take 8).takeWhile (· != 0x20) ++
    if e 8 != 0x20 then 0x2E :: (e.sfn.drop 8).takeWhile (· != 0x20)
    else []).takeWhile (· != 0)

/-- `name_match`: equality up to case. -/
def nameMatch : Name → Name → Bool
  | [], [] => true
  | a :: as, b :: bs => toUpper a == toUpper b && nameMatch as bs
  | _, _ => false

/-- The loop of `is_valid_83`, with the counts `base`, `dot` and `ext`. -/
def isValid83Loop : Name → ℕ → Bool → ℕ → Bool
  | [], base, _, _ => 0 < base
  | c :: cs, base, dot, ext =>
    if 0x61 ≤ c ∧ c ≤ 0x7A then false
    else if c = 0x2E then
      if dot then false
      else if base = 0 then false
      else isValid83Loop cs base true ext
    else if dot then
      if 3 < ext + 1 then false else isValid83Loop cs base dot (ext + 1)
    else
      if 8 < base + 1 then false else isValid83Loop cs (base + 1) dot ext

/-- `is_valid_83`. -/
def isValid83 (name : Name) : Bool := isValid83Loop name 0 false 0

/-- Blanks behind a name part, up to a width. -/
def pad (n : ℕ) (l : List UInt8) : List UInt8 :=
  l ++ List.replicate (n - l.length) 0x20

/-- The characters `make_sfn` leaves out of a base name. -/
def sfnSkipped (c : UInt8) : Bool :=
  [0x20, 0x2B, 0x2C, 0x3B, 0x3D, 0x5B, 0x5D, 0x2E, 0x22, 0x2A, 0x2F, 0x3A,
    0x3C, 0x3E, 0x3F, 0x5C, 0x7C].contains c

/-- The part of a name before its last dot, and the part behind it if there is
one. -/
def splitLastDot : Name → Name × Option Name
  | [] => ([], none)
  | c :: cs =>
    match splitLastDot cs with
    | (b, some x) => (c :: b, some x)
    | (b, none) => if c = 0x2E then ([], some b) else (c :: b, none)

/-- `make_sfn`: up to six base characters, `~1`, and up to three characters
behind the last dot. -/
def makeSfn (name : Name) : List UInt8 :=
  let (base, ext) := splitLastDot name
  let kept := ((base.map toUpper).filter fun c => !sfnSkipped c).take 6
  pad 8 (kept ++ [0x7E, 0x31]) ++
    pad 3 (((ext.getD []).take 3).map toUpper)

/-- The direct encoding of an 8.3 name in `fat32_create_entry`. -/
def encodeSfn (name : Name) : List UInt8 :=
  let base := (name.takeWhile (· != 0x2E)).take 8
  let rest := name.drop base.length
  let ext := if rest.head? = some 0x2E then (rest.drop 1).take 3 else []
  pad 8 (base.map toUpper) ++ pad 3 (ext.map toUpper)

/-- `lfn_entries_needed`. -/
def lfnEntriesNeeded (name : Name) : ℕ :=
  if isValid83 name then 0 else (name.length + 12) / 13

/-! ### Decoding long names -/

/-- `LFN_CHAR_OFFSETS`: the offsets of the 13 characters of an LFN slot. -/
def lfnCharOffsets : List (Fin 32) :=
  [1, 3, 5, 7, 9, 14, 16, 18, 20, 22, 24, 28, 30]

/-- The decoder of long names: `lfn_buf`, the checksum of the run and the slots
of it still to come. -/
structure LfnState where
  buf : Buf
  chk : UInt8
  remain : ℕ

namespace LfnState

/-- The decoder at the start of a scan. -/
def init : LfnState := ⟨fun _ => 0, 0, 0⟩

/-- What the scans do behind every slot that is not an LFN slot. -/
def reset (st : LfnState) : LfnState :=
  { st with buf := Function.update st.buf 0 0, remain := 0 }

/-- The C string in `lfn_buf`. -/
def name (st : LfnState) : Name :=
  ((List.range 256).map st.buf).takeWhile (· != 0)

/-- The run before a short entry is complete and belongs to it. -/
def valid (st : LfnState) (e : Slot) : Bool :=
  st.buf 0 != 0 && st.remain == 0 && sfnChecksum e.sfn == st.chk

end LfnState

/-- The 16-bit characters of an LFN slot. -/
def lfnUnits (e : Slot) : List ℕ :=
  lfnCharOffsets.map fun o => (e o).toNat + (e (o + 1)).toNat * 2 ^ 8

/-- The characters an LFN slot adds: up to a terminator, others than ASCII
replaced. -/
def lfnChars (e : Slot) : List UInt8 :=
  ((lfnUnits e).takeWhile fun ch => ch != 0 && ch != 0xFFFF).map fun ch =>
    if ch < 0x80 then UInt8.ofNat ch else 0x3F

/-- The sequence number of an LFN slot. -/
def lfnSeq (e : Slot) : ℕ := (e 0 &&& 0x3F).toNat

/-- The writes of `lfn_accumulate` to `lfn_buf`, in order. A sequence number of
`0` puts them before the array. -/
def lfnWrites (e : Slot) : List (ℤ × UInt8) :=
  ((lfnChars e).zipIdx.map fun p =>
    (((lfnSeq e : ℤ) - 1) * 13 + p.2, p.1)).takeWhile fun w => w.1 < 255

/-- A write to `lfn_buf`; one before the array leaves the array alone. -/
def lfnStore (b : Buf) (w : ℤ × UInt8) : Buf :=
  if 0 ≤ w.1 then Function.update b w.1.toNat w.2 else b

/-- `lfn_accumulate`. -/
def lfnAccumulate (e : Slot) (st : LfnState) : LfnState :=
  let st : LfnState :=
    if e 0 &&& 0x40 != 0 then ⟨fun _ => 0, e 13, (e 0 &&& 0x3F).toNat⟩ else st
  { st with buf := (lfnWrites e).foldl lfnStore st.buf, remain := st.remain - 1 }

/-- The test of the scans: the long name if there is one, then the short name. -/
def entryMatches (st : LfnState) (e : Slot) (name : Name) : Bool :=
  (st.valid e && nameMatch st.name name) || nameMatch (sfnToName e) name

/-- The name `fat32_list_dir` shows: the long name if there is one. -/
def displayName (st : LfnState) (e : Slot) : Name :=
  if st.valid e then st.name.take 254 else sfnToName e

/-! ### Encoding an entry -/

/-- The character at a position of a name in its LFN slots: the terminator
behind the last one, then `0xFFFF`. -/
def lfnUnitAt (name : Name) (p : ℕ) : ℕ :=
  match name[p]? with
  | some c => c.toNat
  | none => if p = name.length then 0 else 0xFFFF

/-- The LFN slot with number `n` of `lfnCount` that `write_lfn_entries`
writes. -/
def lfnSlot (name : Name) (chk : UInt8) (lfnCount n : ℕ) : Slot := fun j =>
  if j = 0 then
    if n = lfnCount then UInt8.ofNat n ||| 0x40 else UInt8.ofNat n
  else if j = 11 then 0x0F
  else if j = 13 then chk
  else
    match lfnCharOffsets.idxOf? j with
    | some k => UInt8.ofNat (lfnUnitAt name ((n - 1) * 13 + k))
    | none =>
      match lfnCharOffsets.idxOf? (j - 1) with
      | some k => UInt8.ofNat (lfnUnitAt name ((n - 1) * 13 + k) / 2 ^ 8)
      | none => 0

/-- `write_lfn_entries`: the slots of a name, the last part first. -/
def writeLfnEntries (name : Name) (chk : UInt8) (lfnCount : ℕ) : List Slot :=
  (List.range lfnCount).map fun i => lfnSlot name chk lfnCount (lfnCount - i)

/-- The short name of a new entry. -/
def newSfn (name : Name) : List UInt8 :=
  if lfnEntriesNeeded name = 0 then encodeSfn name else makeSfn name

/-- A short entry with the fields `fat32_create_entry` and `fat32_mkdir`
store. -/
def sfnSlot (sfn : List UInt8) (cluster size : ℕ) (attr : UInt8) : Slot :=
  fun j =>
    if j < 11 then sfn.getD j 0
    else if j = 11 then attr
    else if j = 20 then UInt8.ofNat (cluster / 2 ^ 16)
    else if j = 21 then UInt8.ofNat (cluster / 2 ^ 24)
    else if j = 26 then UInt8.ofNat cluster
    else if j = 27 then UInt8.ofNat (cluster / 2 ^ 8)
    else if j = 28 then UInt8.ofNat size
    else if j = 29 then UInt8.ofNat (size / 2 ^ 8)
    else if j = 30 then UInt8.ofNat (size / 2 ^ 16)
    else if j = 31 then UInt8.ofNat (size / 2 ^ 24)
    else 0

/-- The slots `fat32_create_entry` builds: the LFN slots, then the short
entry. -/
def entrySlots (name : Name) (cluster size : ℕ) (attr : UInt8) : List Slot :=
  writeLfnEntries name (sfnChecksum (newSfn name)) (lfnEntriesNeeded name) ++
    [sfnSlot (newSfn name) cluster size attr]

end GordOS.Fat32
