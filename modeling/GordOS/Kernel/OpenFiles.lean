/-
A descriptor for reading is a file and a position in it.

`file_read` and `sys_lseek` keep the position together with the cluster it lies in and the
offset there.

* `FileOn`: the clusters and the bytes of a file on a volume;
* `Fd.At`: the descriptor stands at a position: its cluster is the one that holds the byte
  there, if there is one;
* `spec_fileReadLoop`, `spec_seekWalk`: the two loops keep this;
* `FdCall.abs`: what the calls mean for the bytes of a file and a position in it;
* `FdRun`: a sequence of calls on one descriptor, with any events in between that leave the
  descriptor and the clusters of the file alone;
* `descriptor_behaves`: **what `sys_open` returns behaves as the bytes of the file and a
  position**.
-/
import Mathlib.Tactic
import GordOS.Fat32.Cwd
import GordOS.Fat32.Read
import GordOS.Kernel.Exits

namespace GordOS.Kernel

open GordOS GordOS.Fallible GordOS.Fat32

/-! ### The bytes of a file -/

/-- An element of a concatenation of lists of one length. -/
lemma getElem?_flatMap_const {α β : Type} (f : α → List β) {n : ℕ} (hn : 0 < n)
    (hf : ∀ x, (f x).length = n) (l : List α) :
    ∀ i, (l.flatMap f)[i]? = l[i / n]?.bind fun x => (f x)[i % n]? := by
  induction l with
  | nil => intro i; rfl
  | cons x l ih =>
    intro i
    rw [List.flatMap_cons]
    rcases Nat.lt_or_ge i n with hi | hi
    · rw [List.getElem?_append_left (by rw [hf]; exact hi), Nat.div_eq_of_lt hi,
        Nat.mod_eq_of_lt hi, List.getElem?_cons_zero, Option.bind_some]
    · have hdiv : i / n = (i - n) / n + 1 := Nat.div_eq_sub_div hn hi
      rw [List.getElem?_append_right (by rw [hf]; exact hi), hf, ih, hdiv,
        List.getElem?_cons_succ, Nat.mod_eq_sub_mod hi]

/-- A step that stays inside a block. -/
lemma div_mod_add {p n i : ℕ} (h : p % n + i < n) :
    (p + i) / n = p / n ∧ (p + i) % n = p % n + i := by
  have hp := Nat.div_add_mod p n
  exact (Nat.div_mod_unique (by omega)).mpr ⟨by omega, h⟩

section

variable {g : Geom} {E : Env} {v w : Vol} {first : ℕ} {l : List ℕ} {c : List UInt8}

/-- The file with the bytes `c` in the clusters `l`, as many as it needs. -/
structure FileOn (g : Geom) (v : Vol) (first : ℕ) (l : List ℕ) (c : List UInt8) : Prop where
  chain : l ≠ [] → IsChain g v first l
  length : l.length = (c.length + g.clusterBytes - 1) / g.clusterBytes
  bytes : c = fileBytes g v l c.length

/-- A file depends on its own clusters alone. -/
lemma FileOn.congr (h : FileOn g v first l c) (hn : ∀ x ∈ l, w.next x = v.next x)
    (hd : ∀ x ∈ l, w.data x = v.data x) : FileOn g w first l c where
  chain hl := (h.chain hl).congr hn
  length := h.length
  bytes := by
    rw [fileBytes_congr _ hd]
    exact h.bytes

/-- The cluster of a position in the file. -/
lemma FileOn.lt_length (hg : g.Valid) (h : FileOn g v first l c) {p : ℕ} (hp : p < c.length) :
    p / g.clusterBytes < l.length := by
  have hcb := hg.clusterBytes_pos
  rw [h.length, Nat.div_lt_iff_lt_mul hcb]
  have := Nat.lt_div_mul_add (a := c.length + g.clusterBytes - 1) hcb
  omega

/-- A byte of the file. -/
lemma FileOn.byte (hg : g.Valid) (h : FileOn g v first l c) {p x : ℕ} (hp : p < c.length)
    (hx : l[p / g.clusterBytes]? = some x) :
    (c)[p]? = some (v.data x (p % g.clusterBytes)) := by
  have hcb := hg.clusterBytes_pos
  rw [h.bytes, fileBytes, List.getElem?_take_of_lt hp,
    getElem?_flatMap_const _ hcb (fun _ => bytesOf_length _ _), hx, Option.bind_some, bytesOf,
    List.getElem?_map, List.getElem?_range (Nat.mod_lt _ hcb), Option.map_some]

/-! ### The loops -/

/-- The descriptor stands at the position `p` of the file. -/
structure Fd.At (g : Geom) (first : ℕ) (l : List ℕ) (c : List UInt8) (f : Fd) (p : ℕ) :
    Prop where
  kind : f.kind = .file
  readable : f.writable = false
  start : f.firstCluster = first
  size : f.size = c.length
  pos : f.pos = p
  offset : f.clusterOffset = p % g.clusterBytes
  cur : p < c.length → l[p / g.clusterBytes]? = some f.curCluster

/-- `fat_next_cluster` reads some FAT entry. -/
lemma spec_fatNextCluster (x : ℕ) : VSpec g E (fatNextCluster g x) v fun r w =>
    w = v ∧ ∃ y, r = some y ∧ (g.InRange x → y = v.next x) := by
  intro s hs hv
  rw [fatNextCluster_eq hs.io]
  exact ⟨hs.noted _, hv, _, rfl, fun hx => by rw [← hv, vol_next hx]⟩

/-- **The walk of `sys_lseek`** reaches the cluster with the number it was given. -/
lemma spec_seekWalk (hg : g.Valid) (hF : FileOn g v first l c) (i : ℕ) :
    ∀ x, VSpec g E (seekWalk (fat32VfsOps g) i x) v fun r w =>
      w = v ∧ ∃ y, r = some y ∧ ∀ j z, l[j]? = some x → l[j + i]? = some z → y = z := by
  induction i with
  | zero =>
    intro x
    rw [seekWalk]
    refine Spec.pure ⟨rfl, x, rfl, fun j z hx hz => ?_⟩
    rw [Nat.add_zero, hx, Option.some.injEq] at hz
    exact hz
  | succ i ih =>
    intro x
    rw [seekWalk]
    refine (spec_fatNextCluster x).bind ?_ ?_
    · rintro y v' ⟨rfl, y', hy, hnext⟩
      obtain rfl := Option.some.inj hy
      -- the next cluster of the file, if there is one, is the one read
      have hstep : ∀ j z, l[j]? = some x → l[j + (i + 1)]? = some z →
          l[j + 1]? = some y ∧ y < eoc := by
        intro j z hx hz
        have hlen := (List.getElem?_eq_some_iff.mp hz).1
        have hchain := hF.chain (List.ne_nil_of_length_pos (by omega))
        have hj : l[j + 1]? = some l[j + 1] := List.getElem?_eq_getElem (by omega)
        have hin := hchain.inRange _ (List.mem_of_getElem? hj)
        rw [hj, hnext (hchain.inRange _ (List.mem_of_getElem? hx)), hchain.next_getElem? hx hj]
        exact ⟨rfl, (hg.lt_eoc hin).2⟩
      split
      · next hend =>
        refine Spec.pure ⟨rfl, y, rfl, fun j z hx hz => ?_⟩
        have : y < vfsClusterEoc := (hstep j z hx hz).2
        omega
      · refine (ih y).mono ?_
        rintro r w ⟨rfl, y', rfl, hy'⟩
        refine ⟨rfl, y', rfl, fun j z hx hz => ?_⟩
        refine hy' (j + 1) z (hstep j z hx hz).1 ?_
        rw [← hz]
        congr 1
        omega
    · rintro w ⟨-, y, hy, -⟩
      cases hy

section

variable {f : Fd} {p n : ℕ} (hF : FileOn g v first l c)
variable (hf : f.At g first l c p) (hp : p < c.length)

include hF hf hp

/-- The cluster that a descriptor stands in. -/
lemma Fd.At.inRange : g.InRange f.curCluster := by
  have hmem := List.mem_of_getElem? (hf.cur hp)
  exact (hF.chain (List.ne_nil_of_mem hmem)).inRange _ hmem

variable (hg : g.Valid)

include hg

/-- The bytes that a round of `file_read` copies out of the cluster. -/
lemma Fd.At.chunk_eq (hn : n ≤ g.clusterBytes - p % g.clusterBytes) (hn' : n ≤ c.length - p) :
    (List.range n).map (fun i => v.data f.curCluster (f.clusterOffset + i))
      = (c.drop p).take n := by
  refine List.ext_getElem? fun i => ?_
  rw [List.getElem?_take]
  split
  · next hi =>
    obtain ⟨hdiv, hmod'⟩ := div_mod_add (p := p) (n := g.clusterBytes) (i := i) (by omega)
    rw [List.getElem?_drop,
      hF.byte hg (x := f.curCluster) (by omega) (by rw [hdiv]; exact hf.cur hp),
      List.getElem?_map, List.getElem?_range hi, Option.map_some, hmod', hf.offset]
  · next hi => exact List.getElem?_eq_none (by simpa using hi)

/-- The end of a round. -/
lemma spec_nextIfDone (hn : n ≤ g.clusterBytes - p % g.clusterBytes) :
    VSpec g E (nextIfDone (fat32VfsOps g) (f.advance n)) v fun r w =>
      w = v ∧ ∃ f', r = some f' ∧ f'.At g first l c (p + n) := by
  have hcb := hg.clusterBytes_pos
  have hmod := Nat.mod_lt p hcb
  have hp' := Nat.div_add_mod p g.clusterBytes
  have hoff : (f.advance n).clusterOffset = p % g.clusterBytes + n := by
    rw [Fd.advance, hf.offset]
  have hpos : (f.advance n).pos = p + n := by rw [Fd.advance, hf.pos]
  rw [nextIfDone, hoff]
  split
  · next hdone =>
    -- the cluster is read to its end
    replace hdone : g.clusterBytes ≤ p % g.clusterBytes + n := hdone
    have hend : p + n = g.clusterBytes * (p / g.clusterBytes + 1) := by
      rw [Nat.mul_add, Nat.mul_one]
      omega
    refine (det_fatNextCluster (hf.inRange hF hp)).bind
      (Spec.pure ⟨rfl, _, rfl, hf.kind, hf.readable, hf.start, hf.size, hpos, ?_, fun hlt => ?_⟩)
    · rw [hend, Nat.mul_mod_right]
    · have hlen := hF.lt_length hg hlt
      rw [hend, Nat.mul_div_cancel_left _ hcb] at hlen ⊢
      have hnext := List.getElem?_eq_getElem hlen
      have hchain := hF.chain (List.ne_nil_of_length_pos (Nat.zero_lt_of_lt hlen))
      rw [hnext, ← hchain.next_getElem? (hf.cur hp) hnext]
  · next hleft =>
    replace hleft : ¬ g.clusterBytes ≤ p % g.clusterBytes + n := hleft
    obtain ⟨hdiv, hmod'⟩ := div_mod_add (Nat.lt_of_not_le hleft)
    refine Spec.pure ⟨rfl, _, rfl, hf.kind, hf.readable, hf.start, hf.size, hpos, ?_, fun _ => ?_⟩
    · rw [hoff, hmod']
    · rw [hdiv]
      exact hf.cur hp

end

/-- **The loop of `file_read`** returns the bytes from the position on. -/
lemma spec_fileReadLoop (hg : g.Valid) (hF : FileOn g v first l c) (rounds : ℕ) :
    ∀ (f : Fd) (p want : ℕ), want ≤ rounds → f.At g first l c p →
      VSpec g E (fileReadLoop (fat32VfsOps g) rounds f want) v fun r w =>
        w = v ∧ ∃ f', r = some ((c.drop p).take want, f') ∧
          f'.At g first l c (p + ((c.drop p).take want).length) := by
  induction rounds with
  | zero =>
    intro f p want hw hf
    obtain rfl : want = 0 := by omega
    exact Spec.pure ⟨rfl, f, rfl, hf⟩
  | succ rounds ih =>
    intro f p want hw hf
    have hcb := hg.clusterBytes_pos
    have hmod := Nat.mod_lt p hcb
    rw [fileReadLoop]
    split
    · next hgo =>
      have hp : p < c.length := by
        rw [← hf.pos, ← hf.size]
        exact hgo.2.1
      refine (det_readCluster hg (hf.inRange hF hp)).attempt.bind ?_
      dsimp only
      set n := min want (min ((fat32VfsOps g).clusterSize - f.clusterOffset)
        (f.size - f.pos)) with hn
      have hn₁ : n ≤ g.clusterBytes - p % g.clusterBytes := by
        rw [← hf.offset]
        exact (min_le_right _ _).trans (min_le_left _ _)
      have hn₂ : n ≤ c.length - p := by
        rw [← hf.size, ← hf.pos]
        exact (min_le_right _ _).trans (min_le_right _ _)
      have hn₃ : n ≤ want := min_le_left _ _
      have hn₀ : 0 < n := by
        have h1 : 0 < (fat32VfsOps g).clusterSize - f.clusterOffset := by
          rw [hf.offset]
          exact Nat.sub_pos_of_lt hmod
        exact lt_min hgo.1 (lt_min h1 (Nat.sub_pos_of_lt hgo.2.1))
      refine (spec_nextIfDone hF hf hp hg hn₁).bind ?_ ?_
      · rintro f₁ v' ⟨rfl, f₂, hf₁, hat⟩
        obtain rfl := Option.some.inj hf₁
        refine (ih f₁ (p + n) (want - n) (by omega) hat).bind ?_ ?_
        · rintro ⟨bytes, f₂⟩ v'' ⟨rfl, f₃, heq, hat'⟩
          rw [Option.some.injEq, Prod.mk.injEq] at heq
          obtain ⟨rfl, rfl⟩ := heq
          have hall : (c.drop p).take want
              = (c.drop p).take n ++ (c.drop (p + n)).take (want - n) := by
            conv_lhs => rw [← Nat.add_sub_cancel' hn₃]
            rw [List.take_add, List.drop_drop]
          have hlen : ((c.drop p).take n).length = n := by
            rw [List.length_take, List.length_drop]
            omega
          refine Spec.pure ⟨rfl, f₂, ?_, ?_⟩
          · rw [hf.chunk_eq hF hp hg hn₁ hn₂, ← hall]
          · rw [hall, List.length_append, hlen, ← Nat.add_assoc]
            exact hat'
        · rintro w ⟨-, f', hf', -⟩
          cases hf'
      · rintro w ⟨-, f', hf', -⟩
        cases hf'
    · next hstop =>
      -- nothing is wanted, or the position is behind the end
      have hnil : (c.drop p).take want = [] := by
        by_contra hne
        have hw0 : 0 < want := by
          by_contra h0
          obtain rfl : want = 0 := by omega
          exact hne (List.take_zero)
        have hp : p < c.length := by
          by_contra hge
          exact hne (by rw [List.drop_eq_nil_of_le (by omega), List.take_nil])
        have hin := hg.lt_eoc (hf.inRange hF hp)
        exact hstop ⟨hw0, by rw [hf.pos, hf.size]; exact hp, hin⟩
      rw [hnil]
      exact Spec.pure ⟨rfl, f, rfl, hf⟩

/-! ### The calls -/

/-- A call on a descriptor for reading; `kmalloc` finds memory for the cluster buffer. -/
inductive FdCall where
  | lseek (offset whence : ℤ)
  | read (buf len : ℕ)

/-- The system call on the descriptor `i`. -/
def FdCall.syscall (i : ℕ) : FdCall → Syscall
  | .lseek offset whence => .lseek i offset whence
  | .read buf len => .read i buf len true

/-- The offset of a seek is an `int`. -/
def FdCall.Ok : FdCall → Prop
  | .lseek offset _ => -2 ^ 31 ≤ offset ∧ offset < 2 ^ 31
  | .read _ _ => True

instance : DecidablePred FdCall.Ok
  | .lseek offset _ => inferInstanceAs (Decidable (-2 ^ 31 ≤ offset ∧ offset < 2 ^ 31))
  | .read _ _ => inferInstanceAs (Decidable True)

/-- The position that a seek asks for in a file of `n` bytes. -/
def requested (n p : ℕ) (offset whence : ℤ) : Option ℤ :=
  if whence = 0 then some offset
  else if whence = 1 then some (p + offset)
  else if whence = 2 then some (n + offset)
  else none

/-- **What the calls mean** for the bytes `c` of a file and a position `p`: the answer and
the position then. -/
def FdCall.abs (c : List UInt8) (p : ℕ) : FdCall → Reply × ℕ
  | .lseek offset whence =>
    match requested c.length p offset whence with
    | some q => if 0 ≤ q ∧ q < 2 ^ 31 then (⟨q, []⟩, q.toNat) else (⟨-1, []⟩, p)
    | none => (⟨-1, []⟩, p)
  | .read buf len =>
    if userRangeOk buf len then
      let bytes := (c.drop p).take len
      (⟨bytes.length, bytes⟩, p + bytes.length)
    else (⟨-1, []⟩, p)

/-- A 32-bit sum that stays in range, or wraps to a negative one. -/
lemma int32_add {p : ℕ} {offset : ℤ} (hp : p < 2 ^ 31) (h₁ : -2 ^ 31 ≤ offset)
    (h₂ : offset < 2 ^ 31) :
    (0 ≤ (p : ℤ) + offset ∧ (p : ℤ) + offset < 2 ^ 31 ∧ int32 (int32 p + offset) = p + offset) ∨
      ¬ (0 ≤ (p : ℤ) + offset ∧ (p : ℤ) + offset < 2 ^ 31) ∧ int32 (int32 p + offset) < 0 := by
  have hsmall : int32 p = p := by
    rw [int32, Int.bmod_def]
    omega
  rw [hsmall, int32, Int.bmod_def]
  omega

/-- The position `sys_lseek` computes is the one asked for, or it is refused. -/
lemma seekTarget_spec {f : Fd} {p : ℕ} (hf : f.At g first l c p) (hp : p < 2 ^ 31)
    (hc : c.length < 2 ^ 31) {offset : ℤ} (h₁ : -2 ^ 31 ≤ offset) (h₂ : offset < 2 ^ 31)
    (whence : ℤ) :
    (∃ q : ℤ, 0 ≤ q ∧ q < 2 ^ 31 ∧ seekTarget f offset whence = some q ∧
        requested c.length p offset whence = some q) ∨
      (∀ q ∈ seekTarget f offset whence, q < 0) ∧
        ∀ q ∈ requested c.length p offset whence, ¬ (0 ≤ q ∧ q < 2 ^ 31) := by
  rw [seekTarget, requested, hf.pos, hf.size]
  split_ifs
  · rcases lt_or_ge offset 0 with h | h
    · exact .inr ⟨by simpa using h, by simp; omega⟩
    · exact .inl ⟨offset, h, h₂, rfl, rfl⟩
  · rcases int32_add hp h₁ h₂ with ⟨ha, hb, heq⟩ | ⟨hout, hneg⟩
    · exact .inl ⟨_, ha, hb, by rw [heq], rfl⟩
    · exact .inr ⟨by simpa using hneg, by simpa using hout⟩
  · rcases int32_add hc h₁ h₂ with ⟨ha, hb, heq⟩ | ⟨hout, hneg⟩
    · exact .inl ⟨_, ha, hb, by rw [heq], rfl⟩
    · exact .inr ⟨by simpa using hneg, by simpa using hout⟩
  · exact .inr ⟨by simp, by simp⟩

/-- The positions stay below `2 ^ 31`. -/
lemma FdCall.abs_lt (hc : c.length < 2 ^ 31) {p : ℕ} (hp : p < 2 ^ 31) (call : FdCall) :
    (call.abs c p).2 < 2 ^ 31 := by
  cases call with
  | lseek offset whence =>
    rw [FdCall.abs]
    split
    · split_ifs
      · dsimp only
        omega
      · exact hp
    · exact hp
  | read buf len =>
    rw [FdCall.abs]
    split_ifs
    · simp only [List.length_take, List.length_drop]
      omega
    · exact hp

/-- A seek returns no bytes. -/
lemma FdCall.abs_lseek_bytes (p : ℕ) (offset whence : ℤ) :
    ((FdCall.lseek offset whence).abs c p).1.bytes = [] := by
  rw [FdCall.abs]
  split
  · split_ifs <;> rfl
  · rfl

/-- `sys_lseek` on a descriptor. -/
lemma spec_fileSeek (hg : g.Valid) (hF : FileOn g v first l c) {f : Fd} {p : ℕ}
    (hf : f.At g first l c p) (hp : p < 2 ^ 31) (hc : c.length < 2 ^ 31) {offset whence : ℤ}
    (hok : (FdCall.lseek offset whence).Ok) :
    VSpec g E (fileSeek (fat32VfsOps g) f offset whence) v fun r w => w = v ∧
      ∃ f', r = some (((FdCall.lseek offset whence).abs c p).1.ret, f') ∧
        f'.At g first l c ((FdCall.lseek offset whence).abs c p).2 ∧
        (((FdCall.lseek offset whence).abs c p).1.ret = -1 → f' = f) := by
  rw [fileSeek, if_neg (by simp [hf.kind, hf.readable])]
  rcases seekTarget_spec hf hp hc hok.1 hok.2 whence with ⟨q, h0, hlt, hs, hr⟩ | ⟨hs, hr⟩
  · -- the walk from the first cluster
    obtain ⟨n, rfl⟩ := Int.eq_ofNat_of_zero_le h0
    have habs : (FdCall.lseek offset whence).abs c p = (⟨n, []⟩, n) := by
      rw [FdCall.abs, hr]
      exact if_pos ⟨h0, hlt⟩
    rw [hs, habs]
    dsimp only
    rw [if_neg (by omega)]
    refine (spec_seekWalk hg hF _ _).bind ?_ ?_
    · rintro y v' ⟨rfl, y', hy, hcur⟩
      obtain rfl := Option.some.inj hy
      refine Spec.pure ⟨rfl, _, rfl, ⟨hf.kind, hf.readable, hf.start, hf.size, rfl, rfl,
        fun hn => ?_⟩, fun h => by omega⟩
      have hlen := hF.lt_length hg hn
      have hz := List.getElem?_eq_getElem hlen
      have hhead : l[0]? = some first := by
        have hne := List.ne_nil_of_length_pos (Nat.zero_lt_of_lt hlen)
        obtain ⟨t, rfl⟩ := (hF.chain hne).eq_cons
        rfl
      rw [hz, Option.some.injEq]
      refine (hcur 0 _ (by rw [hf.start]; exact hhead) ?_).symm
      rw [Nat.zero_add]
      exact hz
    · rintro w ⟨-, y, hy, -⟩
      cases hy
  · have habs : (FdCall.lseek offset whence).abs c p = (⟨-1, []⟩, p) := by
      rw [FdCall.abs]
      cases hq : requested c.length p offset whence with
      | none => rfl
      | some q => exact if_neg (hr q hq)
    rw [habs]
    cases hq : seekTarget f offset whence with
    | none => exact Spec.pure ⟨rfl, f, rfl, hf, fun _ => rfl⟩
    | some q =>
      dsimp only
      rw [if_pos (hs q hq)]
      exact Spec.pure ⟨rfl, f, rfl, hf, fun _ => rfl⟩

/-- `file_read` on a descriptor. -/
lemma spec_fileRead (hg : g.Valid) (hF : FileOn g v first l c) {f : Fd} {p : ℕ}
    (hf : f.At g first l c p) (len : ℕ) :
    VSpec g E (fileRead (fat32VfsOps g) true f len) v fun r w => w = v ∧
      ∃ f', r = some ((((c.drop p).take len).length : ℤ), (c.drop p).take len, f') ∧
        f'.At g first l c (p + ((c.drop p).take len).length) := by
  rw [fileRead, if_neg (by simp [hf.readable]), if_pos rfl]
  refine (spec_fileReadLoop hg hF len f p len le_rfl hf).bind ?_ ?_
  · rintro ⟨bytes, f₁⟩ v' ⟨rfl, f₂, heq, hat⟩
    rw [Option.some.injEq, Prod.mk.injEq] at heq
    obtain ⟨rfl, rfl⟩ := heq
    exact Spec.pure ⟨rfl, f₁, rfl, hat⟩
  · rintro w ⟨-, f', hf', -⟩
    cases hf'

/-! ### One descriptor of one process -/

/-- The descriptor `i` of the process `a` stands at the position `p` of the file. -/
structure Stands (g : Geom) (first : ℕ) (l : List ℕ) (c : List UInt8) (a i : ℕ)
    (k : Kern Fat32.State) (p : ℕ) : Prop where
  io : IoOk k.fs
  file : FileOn g (vol g k.fs.disk) first l c
  fd : (k.fds a i).At g first l c p
  lt : p < 2 ^ 31

/-- The return to user mode with another descriptor in the slot. -/
lemma setFd_resume_fds (k : Kern Fat32.State) (i : ℕ) (f : Fd) :
    ((k.setFd k.me i f).resume).fds k.me i = f := by
  simp [Kern.setFd, Kern.resume]

lemma Stands.store {i p q : ℕ} {k : Kern Fat32.State} (h : Stands g first l c k.me i k p)
    {fs : Fat32.State} {f : Fd} (hio : IoOk fs) (hv : vol g fs.disk = vol g k.fs.disk)
    (hat : f.At g first l c q) (hq : q < 2 ^ 31) :
    Stands g first l c k.me i (({ k with fs := fs }.setFd k.me i f).resume) q where
  io := hio
  file := hv.symm ▸ h.file
  fd := by
    rw [show k.me = { k with fs := fs }.me from rfl, setFd_resume_fds]
    exact hat
  lt := hq

/-- **One call.** -/
lemma Stands.call (hg : g.Valid) {a i p : ℕ} {k : Kern Fat32.State} (hi : i < maxFds)
    (hc : c.length < 2 ^ 31) (h : Stands g first l c a i k p) (hme : k.me = a) {call : FdCall}
    (hok : call.Ok) :
    ((call.syscall i).run (fat32VfsOps g) k).1 = some (call.abs c p).1 ∧
      Stands g first l c a i ((call.syscall i).run (fat32VfsOps g) k).2 (call.abs c p).2 ∧
      ((call.abs c p).1.ret = -1 → ((call.syscall i).run (fat32VfsOps g) k).2.fds a i = k.fds a i) ∧
      ((call.syscall i).run (fat32VfsOps g) k).2.me = a := by
  subst hme
  have hlt := call.abs_lt hc h.lt
  have hfd : fdOf k i = some i := by
    have hkind : (k.fds k.me i).kind ≠ .none := by
      rw [h.fd.kind]
      decide
    rw [fdOf, if_neg (by simp [hkind]; omega)]
    rfl
  cases call with
  | lseek offset whence =>
    obtain ⟨hE, hv, f', hr, hat, hsame⟩ := spec_fileSeek hg h.file h.fd h.lt hc hok
      k.fs h.io.holds rfl
    rcases hrun : fileSeek (fat32VfsOps g) (k.fds k.me i) offset whence k.fs with ⟨r, fs⟩
    rw [hrun] at hE hv hr
    obtain rfl : r = _ := hr
    have hstep : ((FdCall.lseek offset whence).syscall i).run (fat32VfsOps g) k
        = answer ({ k with fs := fs }.setFd k.me i f')
          ((FdCall.lseek offset whence).abs c p).1.ret := by
      rw [FdCall.syscall, Syscall.run, sysLseek, hfd]
      dsimp only
      rw [hrun]
    rw [hstep, answer]
    refine ⟨?_, h.store hE.io hv hat hlt, fun hret => ?_, rfl⟩
    · rw [← FdCall.abs_lseek_bytes p offset whence]
    · rw [← hsame hret]
      exact setFd_resume_fds _ _ _
  | read buf len =>
    rw [FdCall.syscall, Syscall.run, doFdRead, hfd]
    dsimp only
    have hout : k.resume.fds k.me i = k.fds k.me i := rfl
    have hstay : Stands g first l c k.me i k.resume p := ⟨h.io, h.file, h.fd, h.lt⟩
    rw [FdCall.abs] at hlt ⊢
    by_cases hrange : userRangeOk buf len = true
    · rw [if_pos hrange] at hlt ⊢
      rw [if_neg (by simp [hrange])]
      by_cases h0 : len = 0
      · subst h0
        rw [if_pos rfl]
        exact ⟨rfl, hstay, fun _ => hout, rfl⟩
      · rw [if_neg h0, h.fd.kind]
        dsimp only
        obtain ⟨hE, hv, f', hr, hat⟩ := spec_fileRead hg h.file h.fd len k.fs h.io.holds rfl
        rcases hrun : fileRead (fat32VfsOps g) true (k.fds k.me i) len k.fs with ⟨r, fs⟩
        rw [hrun] at hE hv hr
        obtain rfl : r = _ := hr
        refine ⟨rfl, h.store hE.io hv hat hlt, fun hret => ?_, rfl⟩
        omega
    · rw [if_neg hrange, if_pos hrange]
      exact ⟨rfl, hstay, fun _ => hout, rfl⟩

/-! ### Runs -/

/-- Between two states the descriptor and the clusters of the file stay, and transfers go on
to succeed. -/
structure Untouched (g : Geom) (l : List ℕ) (a i : ℕ) (k k' : Kern Fat32.State) : Prop where
  fd : k'.fds a i = k.fds a i
  next : ∀ x ∈ l, (vol g k'.fs.disk).next x = (vol g k.fs.disk).next x
  data : ∀ x ∈ l, (vol g k'.fs.disk).data x = (vol g k.fs.disk).data x
  io : IoOk k'.fs

/-- A call, its answer, and the descriptor before and behind it. -/
structure Answered where
  call : FdCall
  reply : Option Reply
  before : Fd
  after : Fd

/-- A sequence of calls of the process `a` on its descriptor `i`. In between anything may
happen that leaves the descriptor and the clusters `l` alone. -/
inductive FdRun (g : Geom) (l : List ℕ) (a i : ℕ) : Kern Fat32.State → List Answered → Prop where
  | nil {k} : FdRun g l a i k []
  | cons {k k₁ call log} : Untouched g l a i k k₁ → k₁.me = a → call.Ok →
      FdRun g l a i ((call.syscall i).run (fat32VfsOps g) k₁).2 log →
      FdRun g l a i k (⟨call, ((call.syscall i).run (fat32VfsOps g) k₁).1, k₁.fds a i,
        ((call.syscall i).run (fat32VfsOps g) k₁).2.fds a i⟩ :: log)

/-- The answers are those of the bytes `c` and a position that starts at `p`; a call that
returns `-1` leaves the descriptor as it was. -/
def Behaves (c : List UInt8) : ℕ → List Answered → Prop
  | _, [] => True
  | p, r :: log =>
    r.reply = some (r.call.abs c p).1 ∧
    ((r.call.abs c p).1.ret = -1 → r.after = r.before) ∧
    Behaves c (r.call.abs c p).2 log

lemma Stands.untouched {a i p : ℕ} {k k' : Kern Fat32.State} (h : Stands g first l c a i k p)
    (hu : Untouched g l a i k k') : Stands g first l c a i k' p where
  io := hu.io
  file := h.file.congr hu.next hu.data
  fd := by
    rw [hu.fd]
    exact h.fd
  lt := h.lt

/-- **A sequence of calls.** -/
lemma Stands.behaves (hg : g.Valid) {a i : ℕ} (hi : i < maxFds) (hc : c.length < 2 ^ 31)
    {k : Kern Fat32.State} {log : List Answered} (hrun : FdRun g l a i k log) :
    ∀ {p : ℕ}, Stands g first l c a i k p → Behaves c p log := by
  induction hrun with
  | nil => exact fun _ => trivial
  | cons hu hme hok _ ih =>
    intro p h
    obtain ⟨hr, hs, hsame, -⟩ := (h.untouched hu).call hg hi hc hme hok
    exact ⟨hr, hsame, ih hs⟩

/-- A file with as many clusters as it needs has as many bytes as its entry says. -/
lemma contents_length (hg : g.Valid) {en : Entry} (hlen : (chainOf g v en.slot.cluster).length
      = (en.slot.size + g.clusterBytes - 1) / g.clusterBytes) :
    (contents g v en).length = en.slot.size := by
  have hcb := hg.clusterBytes_pos
  have hceil := Nat.lt_div_mul_add (a := en.slot.size + g.clusterBytes - 1) hcb
  rw [contents, fileBytes, List.length_take, List.length_flatMap]
  simp only [bytesOf_length, List.map_const', List.sum_replicate, smul_eq_mul]
  rw [hlen]
  omega

/-- The clusters and bytes of a file of the volume. -/
lemma fileOn_entry (hg : g.Valid) (hI : Inv g v [rootHead g]) {d : ℕ} {en : Entry}
    (hd : Reach (subOf g v) [rootHead g] d) (hen : en ∈ entries g v d)
    (hfile : en.slot.isDir = false)
    (hlen : (chainOf g v en.slot.cluster).length
      = (en.slot.size + g.clusterBytes - 1) / g.clusterBytes) :
    FileOn g v en.slot.cluster (chainOf g v en.slot.cluster) (contents g v en) where
  chain hne := by
    rcases hI.file_chain hd hen hfile with h0 | hc
    · rw [h0, chainOf_zero] at hne
      exact absurd rfl hne
    · exact hc
  length := by
    rw [contents_length hg hlen]
    exact hlen
  bytes := by
    rw [contents_length hg hlen, contents]

/-- The calls one after the other, with nothing in between. -/
def fdLog (g : Geom) (a i : ℕ) : List FdCall → Kern Fat32.State → List Answered
  | [], _ => []
  | call :: calls, k =>
    ⟨call, ((call.syscall i).run (fat32VfsOps g) k).1, k.fds a i,
      ((call.syscall i).run (fat32VfsOps g) k).2.fds a i⟩ ::
      fdLog g a i calls ((call.syscall i).run (fat32VfsOps g) k).2

lemma Stands.fdRun (hg : g.Valid) {a i : ℕ} (hi : i < maxFds) (hc : c.length < 2 ^ 31)
    (calls : List FdCall) (hok : ∀ call ∈ calls, call.Ok) :
    ∀ {k : Kern Fat32.State} {p : ℕ}, Stands g first l c a i k p → k.me = a →
      FdRun g l a i k (fdLog g a i calls k) := by
  induction calls with
  | nil => exact fun _ _ => .nil
  | cons call calls ih =>
    intro k p h hme
    obtain ⟨-, hs, -, hme'⟩ := h.call hg hi hc hme (hok call (by simp))
    exact .cons ⟨rfl, fun _ _ => rfl, fun _ _ => rfl, h.io⟩ hme (hok call (by simp))
      (ih (fun x hx => hok x (List.mem_cons_of_mem call hx)) hs hme')

/-- What `sys_open` leaves of a file opened for reading. -/
lemma stands_of_open (hg : g.Valid) {k k' : Kern Fat32.State}
    (hw : WellFormed g (vol g k.fs.disk)) (hio : IoOk k.fs)
    (hcwd : LiveDir g (vol g k.fs.disk) k.fs.cwdCluster) {upath flags i : ℕ} {path : Name}
    {mem : Bool} (hflags : flags % 2 = 0) {en : Entry}
    (hat : fileAt g (vol g k.fs.disk) k.fs.cwdCluster path = some en)
    (hlen : (chainOf g (vol g k.fs.disk) en.slot.cluster).length
      = (en.slot.size + g.clusterBytes - 1) / g.clusterBytes)
    (hopen : (Syscall.open upath path flags mem).run (fat32VfsOps g) k = (some ⟨i, []⟩, k')) :
    i < maxFds ∧ Stands g en.slot.cluster (chainOf g (vol g k.fs.disk) en.slot.cluster)
      (contents g (vol g k.fs.disk) en) k.me i k' 0 := by
  have hI := hw.inv hg
  have hroot : Reach (subOf g (vol g k.fs.disk)) [rootHead g] g.rootCluster :=
    ⟨.root 0, .root rfl⟩
  have hfail : ∀ k₁ : Kern Fat32.State, answer k₁ (-1) ≠ (some ⟨i, []⟩, k') := by
    intro k₁ h
    have := congrArg Reply.ret (Option.some.inj (Prod.mk.inj h).1)
    dsimp only at this
    omega
  rw [Syscall.run, sysOpen] at hopen
  cases hpath : copyUserPath upath path with
  | none =>
    rw [hpath] at hopen
    exact absurd hopen (hfail _)
  | some path' =>
    obtain rfl : path = path' := by
      rw [copyUserPath] at hpath
      split_ifs at hpath
      exact Option.some.inj hpath
    rw [hpath] at hopen
    cases hslot : freeSlot k with
    | none =>
      rw [hslot] at hopen
      exact absurd hopen (hfail _)
    | some j =>
      have hj : j < maxFds := List.mem_range.mp (List.mem_of_find?_eq_some hslot)
      obtain ⟨hE, hv, hsome, -⟩ :=
        spec_lookupFile hg hI hroot hcwd.reach path k.fs hio.holds rfl
      rw [hslot] at hopen
      dsimp only at hopen
      rw [if_neg (by omega)] at hopen
      rcases hlook : fat32LookupFile g path k.fs with ⟨_ | ⟨cluster, size⟩, fs⟩
      · rw [show (fat32VfsOps g).lookup path k.fs = _ from hlook] at hopen
        exact absurd hopen (hfail _)
      · rw [show (fat32VfsOps g).lookup path k.fs = _ from hlook] at hopen
        rw [hlook] at hE hv hsome
        obtain ⟨d, en', hd, hen, hfile, hat', heq⟩ := hsome _ rfl
        obtain rfl : en' = en := Option.some.inj (hat'.symm.trans hat)
        obtain ⟨rfl, rfl⟩ := Prod.mk.inj heq
        dsimp only [answer] at hopen
        obtain ⟨hret, rfl⟩ := Prod.mk.inj hopen
        obtain rfl : j = i := by
          have := congrArg Reply.ret (Option.some.inj hret)
          exact Int.ofNat.inj this
        refine ⟨hj, hE.io, ?_, ?_, by decide⟩
        · exact hv.symm ▸ fileOn_entry hg hI hd hen hfile hlen
        · rw [show k.me = { k with fs := fs }.me from rfl, setFd_resume_fds]
          refine ⟨rfl, rfl, rfl, (contents_length hg hlen).symm, rfl,
            (Nat.zero_mod _).symm, fun hpos => ?_⟩
          have hF := fileOn_entry hg hI hd hen hfile hlen
          have hl := hF.lt_length hg hpos
          obtain ⟨t, ht⟩ :=
            (hF.chain (List.ne_nil_of_length_pos (Nat.zero_lt_of_lt hl))).eq_cons
          rw [Nat.zero_div, ht]
          rfl

/-- **A descriptor for reading behaves as the bytes of the file and a position.** -/
theorem descriptor_behaves (hg : g.Valid) {k k' : Kern Fat32.State}
    (hw : WellFormed g (vol g k.fs.disk)) (hio : IoOk k.fs)
    (hcwd : LiveDir g (vol g k.fs.disk) k.fs.cwdCluster) {upath flags i : ℕ} {path : Name}
    {mem : Bool} (hflags : flags % 2 = 0) {en : Entry}
    (hat : fileAt g (vol g k.fs.disk) k.fs.cwdCluster path = some en)
    (hsize : en.slot.size < 2 ^ 31)
    (hlen : (chainOf g (vol g k.fs.disk) en.slot.cluster).length
      = (en.slot.size + g.clusterBytes - 1) / g.clusterBytes)
    (hopen : (Syscall.open upath path flags mem).run (fat32VfsOps g) k = (some ⟨i, []⟩, k'))
    {log : List Answered}
    (hrun : FdRun g (chainOf g (vol g k.fs.disk) en.slot.cluster) k.me i k' log) :
    Behaves (contents g (vol g k.fs.disk) en) 0 log := by
  obtain ⟨hi, hs⟩ := stands_of_open hg hw hio hcwd hflags hat hlen hopen
  refine hs.behaves hg hi ?_ hrun
  rw [contents_length hg hlen]
  exact hsize

end

/-- A disk with the file `A` of three bytes in cluster 3. -/
def textDisk : Disk := smallDisk [0, 0, endMark, endMark] fun lba =>
  if lba = 2 then dirBuf [sfnSlot (pad 11 [0x41]) 3 3 attrArchive]
  else fun o => UInt8.ofNat (o + 97)

lemma textDisk_flat : Flat smallGeom (vol smallGeom textDisk) where
  root := by decide
  eoc := by decide +kernel
  tail := by decide +kernel
  file := by decide +kernel
  cluster := by decide +kernel
  distinct := by decide +kernel

/-- A program runs, process `1`, with this disk. -/
def textKern : Kern Fat32.State :=
  runAll smallOps startOne (kernInit (initState smallGeom textDisk fun _ => true))

lemma textKern_fs : textKern.fs = initState smallGeom textDisk fun _ => true := rfl

/-- It opens the file. -/
def textOpened : Kern Fat32.State :=
  ((Syscall.open 4194304 [0x41] 0 true).run (fat32VfsOps smallGeom) textKern).2

/-- The program reads two bytes, goes to one byte before the end, and reads on. -/
theorem descriptor_behaves_text :
    ∃ en, fileAt smallGeom (vol smallGeom textDisk) 2 [0x41] = some en ∧
      Behaves (contents smallGeom (vol smallGeom textDisk) en) 0
        (fdLog smallGeom textKern.me 3
          [.read 4194304 2, .lseek (-1) 2, .read 4194304 8, .lseek (-4) 1] textOpened) := by
  have hsome : (fileAt smallGeom (vol smallGeom textDisk) 2 [0x41]).isSome = true := by
    decide +kernel
  obtain ⟨en, hat⟩ := Option.isSome_iff_exists.mp hsome
  have hfacts : ∀ en ∈ fileAt smallGeom (vol smallGeom textDisk) 2 [0x41],
      en.slot.size < 2 ^ 31 ∧ (chainOf smallGeom (vol smallGeom textDisk) en.slot.cluster).length
        = (en.slot.size + smallGeom.clusterBytes - 1) / smallGeom.clusterBytes := by
    decide +kernel
  obtain ⟨hsize, hlen⟩ := hfacts en hat
  have hret : ((Syscall.open 4194304 [0x41] 0 true).run (fat32VfsOps smallGeom) textKern).1
      = some ⟨3, []⟩ := by decide +kernel
  have hopen : (Syscall.open 4194304 [0x41] 0 true).run (fat32VfsOps smallGeom) textKern
      = (some ⟨(3 : ℕ), []⟩, textOpened) := Prod.ext hret rfl
  have hme : textOpened.me = textKern.me := by decide +kernel
  have hcalls : ∀ call ∈ [FdCall.read 4194304 2, .lseek (-1) 2, .read 4194304 8, .lseek (-4) 1],
      call.Ok := by decide
  have hw := textDisk_flat.wellFormed smallGeom_valid
  have hfs := textKern_fs
  generalize textKern = k at hopen hme hfs ⊢
  generalize textOpened = k' at hopen hme ⊢
  have hdisk : k.fs.disk = textDisk := by rw [hfs, initState]
  have hcwd : k.fs.cwdCluster = 2 := by rw [hfs, initState]; rfl
  have hio : IoOk k.fs := by rw [hfs]; rfl
  have hlive : LiveDir smallGeom (vol smallGeom k.fs.disk) k.fs.cwdCluster := by
    rw [hcwd]
    exact rootDir_live _
  refine ⟨en, hat, ?_⟩
  rw [← hdisk] at hlen hw ⊢
  have hat' : fileAt smallGeom (vol smallGeom k.fs.disk) k.fs.cwdCluster [0x41] = some en := by
    rw [hdisk, hcwd]
    exact hat
  obtain ⟨hi, hs⟩ := stands_of_open smallGeom_valid hw hio hlive (by decide) hat' hlen hopen
  refine descriptor_behaves smallGeom_valid hw hio hlive (by decide) hat' hsize hlen hopen ?_
  refine hs.fdRun smallGeom_valid hi ?_ _ hcalls hme
  rw [contents_length smallGeom_valid hlen]
  exact hsize

end GordOS.Kernel
