/-
Files written through a descriptor (`kernel/wbuf.c` and its callers).

The bytes written to a descriptor are kept in a write buffer, with a copy of the path,
and go to the disk when the last reference to the buffer is given back.

* `Extended`: a buffer keeps its path and gets bytes at its end; `Moves.extended`,
  `Event.extended` and `extended_runAll`: for moves, for an event, and for a run;
* `close_flushes`: the last close writes the file;
* `Storable`, `Storable.stores`: a file system on which the file can be written;
* `written_of_close`: **the file holds the bytes written**, if the path is short enough
  for the copy, leads where it led when the file was opened, and the file can be written;
* `close_cuts_path`: a path that is too long is cut.
-/
import Mathlib.Tactic
import GordOS.Fat32.Leaks
import GordOS.Kernel.Moves
import GordOS.Kernel.Exits

namespace GordOS.Kernel

open GordOS

section

variable {FS : Type} {ops : VfsOps FS} {k k' k'' : Kern FS} {e : Event} {w : ℕ}

/-! ### A buffer in a run -/

/-- The write buffer behind a number that the running process uses for a descriptor. -/
def bufferOf (k : Kern FS) (fd : ℤ) : Option ℕ :=
  (fdOf k fd).bind fun i => (k.fds k.me i).buffer

/-- The write buffer of a write call, and the bytes for it. -/
def Event.buffered (k : Kern FS) : Event → Option (ℕ × List UInt8)
  | .call (.write fd _ data) => (bufferOf k fd).map fun w => (w, data)
  | _ => none

/-- The bytes that an event is to write to a buffer. -/
def Event.dataFor (k : Kern FS) (w : ℕ) (e : Event) : List UInt8 :=
  match e.buffered k with
  | none => []
  | some (w', data) => if w' = w then data else []

/-- The bytes that a list of events is to write to a buffer. -/
def writtenTo (ops : VfsOps FS) (w : ℕ) : List Event → Kern FS → List UInt8
  | [], _ => []
  | e :: es, k => e.dataFor k w ++ writtenTo ops w es (e.run ops k).2

/-- A write to the buffer returns the number of bytes it was given. -/
def Accepted (ops : VfsOps FS) (w : ℕ) (e : Event) (k : Kern FS) : Prop :=
  ∀ x ∈ e.buffered k, x.1 = w → (e.run ops k).1 = some ⟨x.2.length, []⟩

instance (e : Event) (k : Kern FS) : Decidable (Accepted ops w e k) :=
  inferInstanceAs (Decidable (∀ x ∈ e.buffered k, _))

/-- The buffer has the path it had and some bytes at its end, unless it is gone; and its
number is not used again. -/
structure Extended (w : ℕ) (data : List UInt8) (k k' : Kern FS) : Prop where
  lt : w < k'.wbufCount
  buf : ∀ b', k'.wbufs w = some b' →
    ∃ b, k.wbufs w = some b ∧ b'.path = b.path ∧ b'.buf = b.buf ++ data

lemma Extended.of_eq (hw : w < k.wbufCount) (hbufs : k'.wbufs w = k.wbufs w)
    (hcount : k'.wbufCount = k.wbufCount) : Extended w [] k k' :=
  ⟨hcount ▸ hw, fun b' hb => ⟨b', hbufs ▸ hb, rfl, (List.append_nil _).symm⟩⟩

lemma Extended.trans {data data' : List UInt8} (h : Extended w data k k')
    (h' : Extended w data' k' k'') : Extended w (data ++ data') k k'' := by
  refine ⟨h'.lt, fun b'' hb'' => ?_⟩
  obtain ⟨b', hb', hp', hd'⟩ := h'.buf b'' hb''
  obtain ⟨b, hb, hp, hd⟩ := h.buf b' hb'
  exact ⟨b, hb, hp'.trans hp, by rw [hd', hd, List.append_assoc]⟩

lemma Extended.wbufOpen (hw : w < k.wbufCount) (path : Name) :
    Extended w [] k (wbufOpen k path) := by
  refine ⟨hw.trans (Nat.lt_succ_self _), fun b' hb => ⟨b', ?_, rfl, (List.append_nil _).symm⟩⟩
  exact (Function.update_of_ne hw.ne _ _).symm.trans hb

/-- The count of a buffer changes, or the buffer goes. -/
lemma Extended.setWbuf (hw : w < k.wbufCount) {w' : ℕ} {v : Option Wbuf}
    (hv : ∀ b', v = some b' → ∃ b, k.wbufs w' = some b ∧ b'.path = b.path ∧ b'.buf = b.buf) :
    Extended w [] k (k.setWbuf w' v) := by
  refine ⟨hw, fun b' hb => ?_⟩
  change Function.update k.wbufs w' v w = some b' at hb
  rw [Function.update_apply] at hb
  split at hb
  · next heq =>
    subst heq
    obtain ⟨b, hb₀, hp, hd⟩ := hv b' hb
    exact ⟨b, hb₀, hp, by rw [hd, List.append_nil]⟩
  · exact ⟨b', hb, rfl, (List.append_nil _).symm⟩

lemma Extended.wbufUnref (hw : w < k.wbufCount) (w' : ℕ) :
    Extended w [] k (wbufUnref ops k (some w')) := by
  rw [Kernel.wbufUnref]
  split
  · exact .of_eq hw rfl rfl
  · next b hb =>
    split
    · refine .setWbuf hw fun b' hb' => ⟨b, hb, ?_⟩
      obtain rfl := Option.some.inj hb'
      exact ⟨rfl, rfl⟩
    · have h : Extended w [] k (k.setWbuf w' none) := .setWbuf hw fun b' hb' => by cases hb'
      exact ⟨h.lt, h.buf⟩

/-- Moves take nothing from a buffer and add nothing. -/
lemma Moves.extended (h : Moves ops k k') (hw : w < k.wbufCount) : Extended w [] k k' := by
  induction h with
  | refl => exact .of_eq hw rfl rfl
  | tail _ ha ih => exact ih.trans (.of_eq ih.lt (congrFun ha.wbufs w) ha.wbufCount)
  | opened _ path ih => exact ih.trans (.wbufOpen ih.lt path)
  | @ref k' _ w' ih =>
    refine ih.trans (.setWbuf ih.lt fun b' hb' => ?_)
    obtain ⟨b, hb, rfl⟩ := Option.map_eq_some_iff.mp hb'
    exact ⟨b, hb, rfl, rfl⟩
  | unref _ w' ih => exact ih.trans (.wbufUnref ih.lt w')

/-- A write to a buffer changes no other. -/
lemma wbufs_wbufWrite {w' : ℕ} (hne : w ≠ w') (data : List UInt8) :
    (wbufWrite k w' data).2.wbufs w = k.wbufs w := by
  rw [wbufWrite]
  split
  · rfl
  · exact Function.update_of_ne hne _ _

lemma wbufCount_wbufWrite (w' : ℕ) (data : List UInt8) :
    (wbufWrite k w' data).2.wbufCount = k.wbufCount := by
  rw [wbufWrite]
  split <;> rfl

/-- A write that takes all its bytes. -/
lemma Extended.wbufWrite (hw : w < k.wbufCount) {data : List UInt8}
    (hret : (wbufWrite k w data).1 = data.length) :
    Extended w data k (wbufWrite k w data).2 := by
  refine ⟨(wbufCount_wbufWrite w data).symm ▸ hw, fun b' hb' => ?_⟩
  cases hb : k.wbufs w with
  | none =>
    rw [Kernel.wbufWrite, hb] at hret
    dsimp only at hret
    omega
  | some b =>
    rw [Kernel.wbufWrite, hb] at hret hb'
    have hall : data.take (wbufCap - b.buf.length) = data := by
      dsimp only at hret
      rw [Nat.cast_inj, List.length_take] at hret
      exact List.take_of_length_le (by omega)
    have hb₁ : some { b with buf := b.buf ++ data.take (wbufCap - b.buf.length) } = some b' :=
      (Function.update_self w _ k.wbufs).symm.trans hb'
    obtain rfl := Option.some.inj hb₁
    exact ⟨b, rfl, rfl, congrArg _ hall⟩

/-- A write call on a descriptor with a buffer. -/
lemma doFdWrite_of_buffer {fd : ℤ} (buf : ℕ) (data : List UInt8) (hw : bufferOf k fd = some w) :
    doFdWrite k fd buf data = answer k (-1) ∨
      doFdWrite k fd buf data = answer (wbufWrite k w data).2 (wbufWrite k w data).1 := by
  obtain ⟨i, hi, hb⟩ := Option.bind_eq_some_iff.mp hw
  have hkind : (k.fds k.me i).kind = .file := by
    rw [Fd.buffer] at hb
    split at hb
    · next h => exact h.1
    · cases hb
  rw [doFdWrite, hi]
  dsimp only
  split
  · exact .inl rfl
  · rw [hkind]
    dsimp only
    rw [hb]
    exact .inr rfl

lemma Event.exists_of_buffered {x : ℕ × List UInt8} (h : e.buffered k = some x) :
    ∃ fd buf, e = .call (.write fd buf x.2) ∧ bufferOf k fd = some x.1 := by
  rw [Event.buffered.eq_def] at h
  split at h
  · next fd buf data =>
    obtain ⟨w, hw, rfl⟩ := Option.map_eq_some_iff.mp h
    exact ⟨fd, buf, rfl, hw⟩
  · cases h

/-- A write call on a descriptor with a buffer. -/
lemma Event.extended_buffered (hw : w < k.wbufCount) {x : ℕ × List UInt8}
    (hx : e.buffered k = some x) (hacc : x.1 = w → (e.run ops k).1 = some ⟨x.2.length, []⟩) :
    Extended w (if x.1 = w then x.2 else []) k (e.run ops k).2 := by
  obtain ⟨fd, buf, rfl, hb⟩ := Event.exists_of_buffered hx
  rw [Event.run, Syscall.run] at hacc ⊢
  rcases doFdWrite_of_buffer buf x.2 hb with heq | heq
  all_goals
    rw [heq] at hacc ⊢
    split
  · next hxw =>
    -- a call that returns `-1` has not taken its bytes
    have := congrArg Reply.ret (Option.some.inj (hacc hxw))
    dsimp only at this
    omega
  · exact .of_eq hw rfl rfl
  · next hxw =>
    rw [hxw] at hacc ⊢
    have h := Extended.wbufWrite hw (congrArg Reply.ret (Option.some.inj (hacc rfl)))
    exact ⟨h.lt, h.buf⟩
  · next hxw =>
    exact .of_eq hw (wbufs_wbufWrite (Ne.symm hxw) x.2) (wbufCount_wbufWrite x.1 x.2)

/-- **One event.** A buffer gets the bytes that are written to it. -/
lemma Event.extended (hw : w < k.wbufCount) (hacc : Accepted ops w e k) :
    Extended w (e.dataFor k w) k (e.run ops k).2 := by
  rw [Event.dataFor]
  cases hx : e.buffered k with
  | some x => exact Event.extended_buffered hw hx (hacc x hx)
  | none =>
    have hdid : Did ops k e (e.run ops k) := e.did
    generalize e.run ops k = r at hdid
    cases hdid with
    | moves h => exact h.extended hw
    | read len _ =>
      rw [ttyRead]
      dsimp only
      split <;> exact .of_eq hw rfl rfl
    | key c =>
      refine .of_eq hw ?_ ?_ <;> rw [deliverChar] <;> split
      · rfl
      · dsimp only
        split_ifs <;> rfl
      · rfl
      · dsimp only
        split_ifs <;> rfl
    | start => exact .of_eq hw rfl rfl
    | write hfd hb =>
      rw [Event.buffered, bufferOf, hfd, Option.bind_some, hb] at hx
      cases hx

/-- **A run.** A buffer gets the bytes that the calls write to it, in their order. -/
lemma extended_runAll (es : List Event) (hw : w < k.wbufCount)
    (hacc : Allowed ops (Accepted ops w) es k) :
    Extended w (writtenTo ops w es k) k (runAll ops es k) := by
  induction es generalizing k with
  | nil => exact .of_eq hw rfl rfl
  | cons e es ih =>
    have h := Event.extended hw hacc.1.2
    exact h.trans (ih h.lt hacc.2)

/-! ### Opening and closing -/

/-- A successful `sys_open` for writing. -/
lemma wbufs_of_open {upath flags i : ℕ} {path : Name} {mem : Bool} (hflags : flags % 2 = 1)
    (hopen : (Syscall.open upath path flags mem).run ops k = (some ⟨i, []⟩, k')) :
    k.wbufCount < k'.wbufCount ∧ k'.wbufs k.wbufCount = some ⟨[], 1, path.take 63⟩ := by
  have hfail : ∀ k₁ : Kern FS, answer k₁ (-1) ≠ (some ⟨i, []⟩, k') := by
    intro k₁ h
    have := congrArg Reply.ret (Option.some.inj (Prod.mk.inj h).1)
    dsimp only at this
    omega
  rw [Syscall.run, sysOpen] at hopen
  split at hopen
  · exact absurd hopen (hfail _)
  · next path' hpath =>
    obtain rfl : path = path' := by
      rw [copyUserPath] at hpath
      split_ifs at hpath
      exact Option.some.inj hpath
    split at hopen
    · exact absurd hopen (hfail _)
    · dsimp only at hopen
      rw [if_pos hflags] at hopen
      split at hopen
      · obtain ⟨-, rfl⟩ := Prod.mk.inj hopen
        exact ⟨Nat.lt_succ_self _, Function.update_self _ _ _⟩
      · exact absurd hopen (hfail _)

/-- **The last close** writes the file, and returns `0` in any case. -/
lemma close_flushes {fd : ℤ} {b : Wbuf} (hfd : bufferOf k fd = some w)
    (hb : k.wbufs w = some b) (hlast : b.refcount = 1) :
    ((Syscall.close fd).run ops k).1 = some ⟨0, []⟩ ∧
      ((Syscall.close fd).run ops k).2.fs = (ops.writeFile b.path b.buf k.fs).2 := by
  obtain ⟨i, hi, hbuf⟩ := Option.bind_eq_some_iff.mp hfd
  have hend : (k.fds k.me i).pipeEnd = none := by
    rw [Fd.buffer] at hbuf
    split at hbuf
    · next h =>
      rw [Fd.pipeEnd, h.1]
    · cases hbuf
  rw [Syscall.run, sysClose, hi]
  refine ⟨rfl, ?_⟩
  show (releaseFd ops k (k.fds k.me i)).fs = _
  rw [releaseFd, hend, hbuf, wbufUnref, hb]
  dsimp only
  rw [if_neg (by omega)]

end

/-! ### The file on the disk -/

open GordOS.Fat32

section

variable {g : Geom} {d : ℕ} {name path : Name} {data : List UInt8}

/-- A file system on which `fat32_write_file` can store the data: the volume and the names
on it are in order, the file can be read under its name, there is at most one, and memory
and free clusters suffice. -/
structure Storable (g : Geom) (s : Fat32.State) (path : Name) (data : List UInt8) :
    Prop where
  wellFormed : WellFormed g (vol g s.disk)
  names : NamesOk g (vol g s.disk)
  io : IoOk s
  mem : s.mem = fun _ => true
  cwd : LiveDir g (vol g s.disk) s.cwdCluster
  readable : Readable (pathParts path).2
  one : ∀ d name, resolve g (vol g s.disk) s.cwdCluster path = some (d, name) →
    AtMostOne g (vol g s.disk) d name
  fits : (Op.write path data).Fits g (vol g s.disk) s.cwdCluster

/-- The write succeeds, and the file has the data. -/
lemma Storable.stores (hg : g.Valid) {s : Fat32.State} (h : Storable g s path data)
    (hres : resolve g (vol g s.disk) s.cwdCluster path = some (d, name)) {bufsize : ℕ}
    (hlen : data.length < 2 ^ 32) (hb : data.length ≤ bufsize) :
    (∃ en, lookup g (vol g (fat32WriteFile g path data s).2.disk) acceptFile d name = some en ∧
      contents g (vol g (fat32WriteFile g path data s).2.disk) en = data) ∧
    (fat32ReadFile g path bufsize (fat32WriteFile g path data s).2).1 = some data := by
  have hI := h.wellFormed.inv hg
  have hroot : Reach (subOf g (vol g s.disk)) [rootHead g] g.rootCluster :=
    ⟨.root 0, .root rfl⟩
  obtain ⟨hE, heff⟩ := spec_writeFile (E := s.env True) hg hI hroot h.cwd.reach path data s
    (h.io.holds_mem h.mem) rfl
  have hres' : resolve g (vol g s.disk) (s.env True).cwd path = some (d, name) := hres
  have hok := heff.succeeds hg trivial hI hroot h.cwd.reach (fun hnone => by
    rw [hres'] at hnone
    cases hnone) h.fits
  rw [hok] at heff
  obtain ⟨⟨en, hat, hcont⟩, hsame, -⟩ := heff.success hg hI
    (fun x hx => h.names x (h.wellFormed.liveDir_iff.mp hx)) h.cwd.reach h.readable hlen h.one
  have hI' := heff.inv hg hI hroot h.cwd.reach h.readable.isPath
  have hcwd' := heff.reach hg hI hroot h.cwd.reach h.readable.isPath h.cwd.reach
  have hread := (spec_readFile hg hI' ⟨.root 0, .root rfl⟩ hcwd' path bufsize _ hE rfl).2.2 trivial
  refine ⟨⟨en, ?_, hcont⟩, ?_⟩
  · rw [fileAt, hsame, hres', Option.bind_some] at hat
    exact hat
  · rw [hread, hat, Option.map_some, hcont, List.take_of_length_le hb]

/-- **The file holds the bytes written.** A file is opened for writing, calls follow in
which every write to its buffer takes all its bytes, and the last reference to the buffer
is closed. If the copy of the path is not cut, the path leads where it led at first, and
the file can be written, the close returns `0` and the file that the path denoted at first
has the bytes of the writes. -/
theorem written_of_close (hg : g.Valid) {k k₁ : Kern Fat32.State} {upath flags i : ℕ}
    {mem : Bool} (hflags : flags % 2 = 1)
    (hopen : (Syscall.open upath path flags mem).run (fat32VfsOps g) k = (some ⟨i, []⟩, k₁))
    (hres : resolve g (vol g k.fs.disk) k.fs.cwdCluster path = some (d, name))
    {es : List Event}
    (hrun : Allowed (fat32VfsOps g) (Accepted (fat32VfsOps g) k.wbufCount) es k₁)
    (hdata : writtenTo (fat32VfsOps g) k.wbufCount es k₁ = data) (htotal : data.length ≤ 65536)
    {k₂ : Kern Fat32.State} (hk₂ : runAll (fat32VfsOps g) es k₁ = k₂) {fd : ℤ}
    (hfd : bufferOf k₂ fd = some k.wbufCount)
    (hlast : (k₂.wbufs k.wbufCount).map Wbuf.refcount = some 1)
    (hpath : path.length ≤ 63)
    (hsame : resolve g (vol g k₂.fs.disk) k₂.fs.cwdCluster path
      = resolve g (vol g k.fs.disk) k.fs.cwdCluster path)
    (hst : Storable g k₂.fs path data) :
    ((Syscall.close fd).run (fat32VfsOps g) k₂).1 = some ⟨0, []⟩ ∧
    (∃ en, lookup g (vol g ((Syscall.close fd).run (fat32VfsOps g) k₂).2.fs.disk) acceptFile
        d name = some en ∧
      contents g (vol g ((Syscall.close fd).run (fat32VfsOps g) k₂).2.fs.disk) en = data) ∧
    (fat32ReadFile g path 65536 ((Syscall.close fd).run (fat32VfsOps g) k₂).2.fs).1
      = some data := by
  obtain ⟨hlt, hnew⟩ := wbufs_of_open hflags hopen
  obtain ⟨b, hb, hone⟩ := Option.map_eq_some_iff.mp hlast
  have hext := extended_runAll es hlt hrun
  rw [hdata, hk₂] at hext
  obtain ⟨b₀, hb₀, hbpath, hbuf⟩ := hext.buf b hb
  obtain rfl := Option.some.inj (hnew.symm.trans hb₀)
  rw [List.take_of_length_le hpath] at hbpath
  rw [List.nil_append] at hbuf
  obtain ⟨hret, hfs⟩ : _ ∧ _ = ((fat32VfsOps g).writeFile b.path b.buf k₂.fs).2 :=
    close_flushes hfd hb hone
  refine ⟨hret, ?_⟩
  rw [hfs, hbpath, hbuf]
  exact hst.stores hg (hsame.trans hres) (by omega) htotal

end

/-- A program runs, process `1`, on the small volume. -/
def oneKern : Kern Fat32.State := runAll smallOps startOne smallKern

/-- It opens a file for writing. -/
def openedKern (path : Name) : Kern Fat32.State :=
  ((Syscall.open 4194304 path 1 true).run smallOps oneKern).2

/-- It writes three bytes with two calls. -/
def twoWrites : List Event :=
  [.call (.write 3 4194304 [7, 8]), .call (.write 3 4194304 [9])]

lemma storable_small :
    Storable smallGeom (initState smallGeom smallFormatted fun _ => true) [0x41] [7, 8, 9] := by
  have hf := smallFormatted_formatted
  have hres : resolve smallGeom (vol smallGeom smallFormatted) 2 [0x41]
      = some (2, [0x41]) := by decide +kernel
  have hidx : ∀ a ∈ entries smallGeom (vol smallGeom smallFormatted) 2,
      ∀ b ∈ entries smallGeom (vol smallGeom smallFormatted) 2, a.idx = b.idx := by
    decide +kernel
  refine ⟨hf.wellFormed smallGeom_valid, hf.namesOk smallGeom_valid, rfl, rfl, rootDir_live _,
    readable_A, ?_, ?_⟩
  · intro d name hres' a ha b hb _ _
    obtain rfl : d = 2 := congrArg Prod.fst (Option.some.inj (hres'.symm.trans hres))
    exact entry_eq_of_idx ha hb (hidx a ha b hb)
  · intro d name hres'
    obtain ⟨rfl, rfl⟩ := Prod.mk.inj (Option.some.inj (hres.symm.trans hres'))
    decide +kernel

/-- A program writes three bytes to the file `A` and closes it. -/
theorem written_of_close_small :
    (fat32ReadFile smallGeom [0x41] 65536 ((Syscall.close 3).run smallOps
      (runAll smallOps twoWrites (openedKern [0x41]))).2.fs).1 = some [7, 8, 9] := by
  have hret : ((Syscall.open 4194304 [0x41] 1 true).run smallOps oneKern).1
      = some ⟨3, []⟩ := by decide +kernel
  have hopen : (Syscall.open 4194304 [0x41] 1 true).run smallOps oneKern
      = (some ⟨(3 : ℕ), []⟩, openedKern [0x41]) := Prod.ext hret rfl
  have hrun : Allowed smallOps (Accepted smallOps oneKern.wbufCount) twoWrites
      (openedKern [0x41]) := by decide +kernel
  have hdata : writtenTo smallOps oneKern.wbufCount twoWrites (openedKern [0x41])
      = [7, 8, 9] := by decide +kernel
  have hfd : bufferOf (runAll smallOps twoWrites (openedKern [0x41])) 3
      = some oneKern.wbufCount := by decide +kernel
  have hlast : ((runAll smallOps twoWrites (openedKern [0x41])).wbufs
      oneKern.wbufCount).map Wbuf.refcount = some 1 := by decide +kernel
  have hfs : oneKern.fs = initState smallGeom smallFormatted fun _ => true := rfl
  have hfs₂ : (runAll smallOps twoWrites (openedKern [0x41])).fs
      = initState smallGeom smallFormatted fun _ => true := rfl
  have hres : resolve smallGeom (vol smallGeom smallFormatted) 2 [0x41]
      = some (2, [0x41]) := by decide +kernel
  -- the states are only known by these facts
  generalize hk₂ : runAll smallOps twoWrites (openedKern [0x41]) = k₂ at hfd hlast hfs₂ ⊢
  generalize openedKern [0x41] = k₁ at hopen hrun hdata hk₂
  generalize oneKern = k at hopen hrun hdata hfd hlast hfs
  have hres₀ : resolve smallGeom (vol smallGeom k.fs.disk) k.fs.cwdCluster [0x41]
      = some (2, [0x41]) := by
    rw [hfs]
    exact hres
  exact (written_of_close smallGeom_valid (by decide) hopen hres₀ hrun hdata (by decide) hk₂
    hfd hlast (by decide) (by rw [hfs, hfs₂]) (hfs₂.symm ▸ storable_small)).2.2

/-- A path of one component with 64 letters. -/
def cutPath : Name := List.replicate 64 0x41

/-- **A path of 64 bytes is cut**: every call returns what it should, and there is no file
with that name behind the close, but one with a shorter name. -/
theorem close_cuts_path :
    resolve smallGeom (vol smallGeom oneKern.fs.disk) oneKern.fs.cwdCluster cutPath
      = some (2, cutPath) ∧
    ((Syscall.open 4194304 cutPath 1 true).run smallOps oneKern).1 = some ⟨3, []⟩ ∧
    Allowed smallOps (Accepted smallOps oneKern.wbufCount) twoWrites (openedKern cutPath) ∧
    writtenTo smallOps oneKern.wbufCount twoWrites (openedKern cutPath) = [7, 8, 9] ∧
    ((Syscall.close 3).run smallOps (runAll smallOps twoWrites (openedKern cutPath))).1
      = some ⟨0, []⟩ ∧
    (fat32ReadFile smallGeom cutPath 65536 ((Syscall.close 3).run smallOps
      (runAll smallOps twoWrites (openedKern cutPath))).2.fs).1 = none ∧
    (fat32ReadFile smallGeom (cutPath.take 63) 65536 ((Syscall.close 3).run smallOps
      (runAll smallOps twoWrites (openedKern cutPath))).2.fs).1 = some [7, 8, 9] := by
  decide +kernel

end GordOS.Kernel
