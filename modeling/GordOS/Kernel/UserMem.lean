/-
User memory at the system call boundary (`syscall_handler` and the handlers of
`kernel/syscall.c`).

A handler gets its arguments in registers, and looks at the memory of the program
and changes it only through pointers among them.

* `copyUserPathAt`, `execArgv`: the loops that read strings, with the addresses they
  look at; `copyUserPathAt_fst`: the string that the calls of the kernel model get;
* `Regs.call`: the system call that a trap asks for;
* `Regs.reads`, `Regs.stores`, `Regs.laterStores`: the addresses that the handler
  reads and writes, at once or when the process goes on after a sleep;
* `userAccess_below`: **all of them lie below the kernel half**, but for `sys_getcwd`
  with a buffer of size zero; `getcwd_writes_kernel`.
-/
import Mathlib.Tactic
import GordOS.Kernel.Exits
import GordOS.Kernel.Completion

namespace GordOS.Kernel

open GordOS

/-- The addresses of `n` bytes from `a` on. -/
def span (a n : ℕ) : List ℕ := (List.range n).map (a + ·)

/-- The bytes there. -/
def bytesAt (mem : ℕ → UInt8) (a n : ℕ) : List UInt8 := (span a n).map mem

/-! ### Strings -/

/-- The loop of `copy_user_path`: the string from `a` on, in at most `n` rounds, and
the addresses read. -/
def copyPathLoop (mem : ℕ → UInt8) : ℕ → ℕ → Option Name × List ℕ
  | 0, _ => (none, [])
  | n + 1, a =>
    if userRangeOk a 1 then
      if mem a = 0 then (some [], [a])
      else
        match copyPathLoop mem n (a + 1) with
        | (path, touched) => (path.map (mem a :: ·), a :: touched)
    else (none, [])

/-- `copy_user_path` into a buffer of 256 bytes. -/
@[irreducible] def copyUserPathAt (mem : ℕ → UInt8) (upath : ℕ) : Option Name × List ℕ :=
  copyPathLoop mem 255 upath

/-- What memory holds from an address up to the next NUL, or for 255 bytes. -/
def strAt (mem : ℕ → UInt8) (a : ℕ) : Name := (bytesAt mem a 255).takeWhile (· ≠ 0)

/-- The 32-bit word that memory holds at an address. -/
@[irreducible] def wordAt (mem : ℕ → UInt8) (a : ℕ) : ℕ := Fat32.read32 mem a

/-- One round of the loop of `sys_exec` over the argument vector, for the entry at
`slot`: the strings and the addresses read, given those of the `later` rounds. -/
def argvStep (mem : ℕ → UInt8) (slot : ℕ) (later : List Name × List ℕ) :
    List Name × List ℕ :=
  if userRangeOk slot 4 then
    if wordAt mem slot = 0 then ([], span slot 4)
    else
      match copyUserPathAt mem (wordAt mem slot) with
      | (none, touched) => ([], span slot 4 ++ touched)
      | (some arg, touched) => (arg :: later.1, span slot 4 ++ touched ++ later.2)
  else ([], [])

/-- The loop, over at most `n` entries. -/
def argvLoop (mem : ℕ → UInt8) : ℕ → ℕ → List Name × List ℕ
  | 0, _ => ([], [])
  | n + 1, slot => argvStep mem slot (argvLoop mem n (slot + 4))

/-- The argument vector that `sys_exec` is given. -/
def execArgv (mem : ℕ → UInt8) (uargv : ℕ) : List Name × List ℕ :=
  if uargv ≠ 0 ∧ userRangeOk uargv 4 then argvLoop mem 16 uargv else ([], [])

/-! ### The dispatcher -/

/-- The registers that a trap saves, as far as the handlers look at them. -/
structure Regs where
  eax : ℕ
  ebx : ℕ
  ecx : ℕ
  edx : ℕ

/-- What a handler depends on besides the registers, the memory of the program and the
processes: the memory left to the kernel, the current directory, the matches that
`vfs_find_prefix` returns, and the answers of the calls that change nothing here. -/
structure World where
  kmalloc : Bool
  fork : ForkOutcome
  exec : ExecOutcome
  cwd : Name
  found : List Name
  ret : ℤ

/-- The answer to a process that goes on in the states `ks`, one after the other, until
it does not go back to sleep. -/
def Cont.goOn {FS : Type} : Cont → List (Kern FS) → Option Reply
  | .user, _ => none
  | _, [] => none
  | c, k :: ks =>
    match c.run k with
    | (some reply, _) => some reply
    | (none, k') => (k'.cont k.me).goOn ks

/-- The pointer through which the answer goes to the program. -/
def Syscall.out : Syscall → ℕ
  | .read _ buf _ _ => buf
  | .readraw buf _ => buf
  | .pipe userFds _ => userFds
  | .wait _ status => status
  | .fs (.readfile _ _ buf _) => buf
  | _ => 0

/-- The calls that go on in the kernel after a sleep. -/
def Syscall.maySleep : Syscall → Bool
  | .write .. | .read .. | .readraw .. | .wait .. => true
  | _ => false

namespace Regs

variable {FS : Type} (ops : VfsOps FS) (k : Kern FS) (mem : ℕ → UInt8) (w : World) (r : Regs)

/-- The switch of `syscall_handler`. -/
def call : Syscall :=
  match r.eax with
  | 0 => .write 1 r.ebx (bytesAt mem r.ebx r.ecx)
  | 1 => .exit (int32 r.ebx)
  | 3 => .read 0 r.ebx r.ecx w.kmalloc
  | 5 => .fs (.readfile r.ebx (strAt mem r.ebx) r.ecx r.edx)
  | 6 => .fs (.writefile r.ebx (strAt mem r.ebx) r.ecx (bytesAt mem r.ecx r.edx))
  | 7 => .fork w.fork
  | 8 => .exec r.ebx (strAt mem r.ebx) w.kmalloc w.exec
  | 9 => .wait 0 r.ebx
  | 10 => .wait r.ebx r.ecx
  | 11 => .open r.ebx (strAt mem r.ebx) r.ecx w.kmalloc
  | 12 => .close (int32 r.ebx)
  | 13 => .read (int32 r.ebx) r.ecx r.edx w.kmalloc
  | 14 => .write (int32 r.ebx) r.ecx (bytesAt mem r.ecx r.edx)
  | 15 => .dup2 (int32 r.ebx) (int32 r.ecx)
  | 16 => .giveForeground r.ebx
  | 17 => .pipe r.ebx w.kmalloc
  | 18 => .fs (.chdir r.ebx (strAt mem r.ebx))
  | 20 => .fs (.mkdir r.ebx (strAt mem r.ebx))
  | 21 => .fs (.rmfile r.ebx (strAt mem r.ebx))
  | 22 => .fs (.rename r.ebx (strAt mem r.ebx) r.ecx (strAt mem r.ecx))
  | 26 => .kill r.ebx
  | 32 => .readraw r.ebx r.ecx
  | 36 => .lseek (int32 r.ebx) (int32 r.ecx) (int32 r.edx)
  | _ => .other w.ret

/-- What `do_fd_write` reads. -/
def writeReads (fd : ℤ) (buf len : ℕ) : List ℕ :=
  match fdOf k fd with
  | none => []
  | some i =>
    if ¬ userRangeOk buf len then []
    else
      match (k.fds k.me i).kind with
      | .ttyOut => span buf len
      | .file =>
        match (k.fds k.me i).buffer.bind k.wbufs with
        | none => []
        | some b => span buf (min len (wbufCap - b.buf.length))
      | .pipeWrite => span buf len
      | _ => []

/-- A path, and what a handler reads behind it if it could be copied. -/
def pathReads (upath : ℕ) (rest : List ℕ) : List ℕ :=
  match copyUserPathAt mem upath with
  | (none, touched) => touched
  | (some _, touched) => touched ++ rest

/-- The addresses that the handler reads. -/
def reads : List ℕ :=
  match r.eax with
  | 0 => writeReads k 1 r.ebx r.ecx
  | 5 => pathReads mem r.ebx []
  | 6 => pathReads mem r.ebx (if userRangeOk r.ecx r.edx then span r.ecx r.edx else [])
  | 8 => pathReads mem r.ebx (execArgv mem r.ecx).2
  | 11 => pathReads mem r.ebx []
  | 14 => writeReads k (int32 r.ebx) r.ecx r.edx
  | 18 => pathReads mem r.ebx []
  | 20 => pathReads mem r.ebx []
  | 21 => pathReads mem r.ebx []
  | 22 => pathReads mem r.ebx (pathReads mem r.ecx [])
  | 23 => pathReads mem r.ebx []
  | 31 => pathReads mem r.ebx []
  | _ => []

/-- The addresses of the bytes of an answer. -/
def replySpan (buf : ℕ) : Option Reply → List ℕ
  | none => []
  | some reply => span buf reply.bytes.length

/-- What `sys_getcwd` writes; the bound of its loop is `size - 1` in 32 bits. -/
def getcwdStores : List ℕ :=
  if userRangeOk r.ebx r.ecx then
    span r.ebx (min w.cwd.length ((r.ecx + (2 ^ 32 - 1)) % 2 ^ 32) + 1)
  else []

/-- What `sys_findprefix` writes. -/
def findprefixStores : List ℕ :=
  if (copyUserPathAt mem r.ebx).1.isSome ∧ userRangeOk r.ecx r.edx then
    span r.ecx (findprefixBytes r.edx w.found).length
  else []

/-- The addresses that the handler writes before it returns or sleeps. -/
def stores : List ℕ :=
  match r.eax with
  | 19 => r.getcwdStores w
  | 25 => if userRangeOk r.ebx 8 then span r.ebx 8 else []
  | 31 => r.findprefixStores mem w
  | 33 => if userRangeOk r.ebx 8 then span r.ebx 8 else []
  | _ => replySpan (r.call mem w).out ((r.call mem w).run ops k).1

/-- The addresses that the handler writes when it had to sleep and the process goes on
in the states `ks`. -/
def laterStores (ks : List (Kern FS)) : List ℕ :=
  let call := r.call mem w
  if call.maySleep ∧ (call.run ops k).1 = none then
    replySpan call.out (((call.run ops k).2.cont k.me).goOn ks)
  else []

end Regs

/-! ### Strings stay below the kernel half -/

section

variable {a b n m : ℕ} {mem : ℕ → UInt8}

lemma mem_span : b ∈ span a n ↔ ∃ i < n, a + i = b := by
  rw [span, List.mem_map]
  simp only [List.mem_range]

lemma below_of_span (h : userRangeOk a n = true) (hm : m ≤ n) : ∀ b ∈ span a m, b < userTop := by
  intro b hb
  obtain ⟨i, hi, rfl⟩ := mem_span.mp hb
  obtain ⟨-, ha, hn⟩ := of_decide_eq_true h
  omega

lemma below_copyPathLoop (n : ℕ) : ∀ a, ∀ b ∈ (copyPathLoop mem n a).2, b < userTop := by
  induction n with
  | zero => exact fun a b hb => absurd hb List.not_mem_nil
  | succ n ih =>
    intro a b hb
    rw [copyPathLoop] at hb
    split at hb
    · next hr =>
      have ha : a < userTop := (of_decide_eq_true hr).2.1
      split at hb
      · exact List.mem_singleton.mp hb ▸ ha
      · rcases List.mem_cons.mp hb with rfl | hb
        · exact ha
        · exact ih (a + 1) b hb
    · exact absurd hb List.not_mem_nil

lemma below_copyUserPathAt (mem : ℕ → UInt8) (a : ℕ) :
    ∀ b ∈ (copyUserPathAt mem a).2, b < userTop := by
  rw [copyUserPathAt]
  exact below_copyPathLoop 255 a

lemma bytesAt_succ (mem : ℕ → UInt8) (a n : ℕ) :
    bytesAt mem a (n + 1) = mem a :: bytesAt mem (a + 1) n := by
  simp only [bytesAt, span, List.range_succ_eq_map, List.map_cons, List.map_map, Nat.add_zero]
  refine congrArg (mem a :: ·) (List.map_congr_left fun i _ => congrArg mem ?_)
  exact (Nat.add_assoc a 1 i).trans (congrArg (a + ·) (Nat.add_comm 1 i)) |>.symm

/-- The loop finds the string up to the NUL, if it ends in time. -/
lemma copyPathLoop_of_ne_zero (n : ℕ) : ∀ {a : ℕ}, a ≠ 0 → (copyPathLoop mem n a).1 =
    if a + ((bytesAt mem a n).takeWhile (· ≠ 0)).length < userTop ∧
      ((bytesAt mem a n).takeWhile (· ≠ 0)).length < n
    then some ((bytesAt mem a n).takeWhile (· ≠ 0)) else none := by
  induction n with
  | zero => exact fun _ => (if_neg fun h => absurd h.2 (Nat.not_lt_zero _)).symm
  | succ n ih =>
    intro a ha
    rw [bytesAt_succ, copyPathLoop]
    by_cases hr : a < userTop
    · rw [if_pos (show userRangeOk a 1 = true from decide_eq_true (by omega))]
      by_cases hm : mem a = 0
      · rw [if_pos hm, List.takeWhile_cons_of_neg (by simpa using hm), List.length_nil,
          if_pos ⟨hr, n.succ_pos⟩]
      · rw [if_neg hm, List.takeWhile_cons_of_pos (by simpa using hm), List.length_cons]
        show ((copyPathLoop mem n (a + 1)).1.map (mem a :: ·)) = _
        rw [ih a.succ_ne_zero]
        generalize (bytesAt mem (a + 1) n).takeWhile (· ≠ 0) = str
        by_cases hs : a + 1 + str.length < userTop ∧ str.length < n
        · rw [if_pos hs, if_pos (by omega), Option.map_some]
        · rw [if_neg hs, if_neg (by omega), Option.map_none]
    · rw [if_neg fun h : userRangeOk a 1 = true => hr (of_decide_eq_true h).2.1, if_neg (by omega)]

lemma copyPathLoop_fst (mem : ℕ → UInt8) (hn : n ≠ 0) (a : ℕ) : (copyPathLoop mem n a).1 =
    if a ≠ 0 ∧ a + ((bytesAt mem a n).takeWhile (· ≠ 0)).length < userTop ∧
      ((bytesAt mem a n).takeWhile (· ≠ 0)).length < n
    then some ((bytesAt mem a n).takeWhile (· ≠ 0)) else none := by
  by_cases ha : a = 0
  · obtain ⟨m, rfl⟩ := Nat.exists_eq_succ_of_ne_zero hn
    rw [if_neg fun h => h.1 ha, copyPathLoop,
      if_neg fun h : userRangeOk a 1 = true => (of_decide_eq_true h).1 ha]
  · rw [copyPathLoop_of_ne_zero n ha]
    exact if_congr (and_iff_right ha).symm rfl rfl

/-- **The path that a handler works with** is the string that memory holds at the
address. -/
theorem copyUserPathAt_fst (mem : ℕ → UInt8) (a : ℕ) :
    (copyUserPathAt mem a).1 = copyUserPath a (strAt mem a) := by
  rw [copyUserPathAt, copyPathLoop_fst mem (by norm_num) a, copyUserPath, strAt]

lemma below_argvStep (slot : ℕ) {later : List Name × List ℕ} (hlater : ∀ b ∈ later.2, b < userTop) :
    ∀ b ∈ (argvStep mem slot later).2, b < userTop := by
  intro b hb
  rw [argvStep] at hb
  split at hb
  · next hr =>
    have hslot := below_of_span hr le_rfl
    have hpath := below_copyUserPathAt mem (wordAt mem slot)
    split at hb
    · exact hslot b hb
    · generalize copyUserPathAt mem (wordAt mem slot) = path at hb hpath
      obtain ⟨_ | arg, touched⟩ := path
      · rcases List.mem_append.mp hb with hb | hb
        · exact hslot b hb
        · exact hpath b hb
      · rcases List.mem_append.mp hb with hb | hb
        · rcases List.mem_append.mp hb with hb | hb
          · exact hslot b hb
          · exact hpath b hb
        · exact hlater b hb
  · exact absurd hb List.not_mem_nil

lemma below_argvLoop (n : ℕ) : ∀ slot, ∀ b ∈ (argvLoop mem n slot).2, b < userTop := by
  induction n with
  | zero => exact fun slot b hb => absurd hb List.not_mem_nil
  | succ n ih => exact fun slot => below_argvStep slot (ih (slot + 4))

lemma below_execArgv (uargv : ℕ) : ∀ b ∈ (execArgv mem uargv).2, b < userTop := by
  rw [execArgv]
  split
  · exact below_argvLoop 16 uargv
  · exact fun b hb => absurd hb List.not_mem_nil

end

/-! ### The bytes of an answer -/

section

variable {FS : Type} {ops : VfsOps FS} {k : Kern FS} {n m me : ℕ}
  {res : Option Reply × Kern FS}

/-- How many bytes a process can still be given when it goes on. -/
def Cont.limit : Cont → ℕ
  | .pipeRead _ len => len
  | .wait _ status => if status ≠ 0 then 4 else 0
  | .ttyRead len => len
  | _ => 0

/-- The process `me` gets at most `n` bytes, at once or after a sleep. -/
def Within (n me : ℕ) : Option Reply × Kern FS → Prop
  | (some reply, _) => reply.bytes.length ≤ n
  | (none, k) => (k.cont me).limit ≤ n

lemma within_answer (k : Kern FS) (ret : ℤ) : Within n me (answer k ret) := Nat.zero_le n

lemma within_sleep (k : Kern FS) (reason : BlockReason) (target : ℕ) {c : Cont} (h : c.limit ≤ n) :
    Within n k.me (none, k.sleep reason target c) := by
  show (Function.update k.cont k.me c k.me).limit ≤ n
  rwa [Function.update_self]

lemma length_popN {α : Type} (N n : ℕ) :
    ∀ r : RingBuffer α, (RingBuffer.popN N n r).1.length = n := by
  induction n with
  | zero => exact fun r => rfl
  | succ n ih => exact fun r => congrArg (· + 1) (ih _)

lemma within_ttyRead (len : ℕ) : Within len k.me (ttyRead k len) := by
  rw [ttyRead]
  dsimp only
  split
  · exact (length_popN _ _ _).trans_le (min_le_left len _)
  · exact within_sleep k _ _ le_rfl

lemma within_pipeReadFd (p len : ℕ) : Within len k.me (pipeReadFd k p len) := by
  rw [pipeReadFd]
  split
  · exact within_answer k _
  · next q hq =>
    rw [pipeReadRound]
    split_ifs
    · exact (length_popN _ _ _).trans_le (min_le_right _ len)
    · exact within_answer k _
    · exact within_sleep (k.setPipe p _) _ _ le_rfl

lemma current_schedulerAdd (s : Sched) (proc : ℕ) : (schedulerAdd s proc).current = s.current := by
  rw [schedulerAdd]
  dsimp only
  split <;> rfl

lemma current_schedulerWake (s : Sched) (proc : ℕ) :
    (schedulerWake s proc).current = s.current := by
  rw [schedulerWake]
  split
  · rfl
  · refine (current_schedulerAdd _ proc).trans (show (unlinkBlocked s proc).current = _ from ?_)
    rw [unlinkBlocked]
    split
    · rfl
    · split <;> rfl

lemma me_wake (k : Kern FS) (a : Option ℕ) : (k.wake a).me = k.me := by
  cases a with
  | none => rfl
  | some a => exact current_schedulerWake k.sched a

lemma within_pipeWriteLoop (p : ℕ) (data : List UInt8) (n : ℕ) :
    ∀ (written : ℕ) (k : Kern FS), Within 0 k.me (pipeWriteLoop p data n written k) := by
  induction n with
  | zero => exact fun written k => within_answer k _
  | succ n ih =>
    intro written k
    rw [pipeWriteLoop]
    split
    · split
      · exact within_answer k _
      · next q hq =>
        rw [pipeWriteRound]
        split_ifs
        · exact me_wake k q.blockedReader ▸ ih _ ((k.wake q.blockedReader).setPipe p (some _))
        · exact within_answer k _
        · exact within_sleep (k.setPipe p _) _ _ le_rfl
    · exact within_answer k _

lemma within_waitLoop (target status : ℕ) :
    Within (Cont.wait target status).limit k.me (waitLoop k target status) := by
  rw [waitLoop]
  rcases processReapChild (k.sched.pid k.me) target k.records with _ | ⟨r, records⟩
  · dsimp only
    split
    · exact within_sleep k _ _ le_rfl
    · exact within_answer k _
  · show (if status ≠ 0 then intBytes r.code else []).length ≤ if status ≠ 0 then 4 else 0
    split_ifs
    · exact le_of_eq rfl
    · exact le_rfl

/-- The answer after any number of sleeps. -/
lemma length_goOn (ks : List (Kern FS)) : ∀ (c : Cont) (reply : Reply),
    c.goOn ks = some reply → reply.bytes.length ≤ c.limit := by
  induction ks with
  | nil =>
    intro c reply h
    cases c <;> cases h
  | cons k ks ih =>
    have hstep : ∀ (c : Cont) (reply : Reply), Within c.limit k.me (c.run k) → (match c.run k with
          | (some reply, _) => some reply
          | (none, k') => (k'.cont k.me).goOn ks) = some reply →
        reply.bytes.length ≤ c.limit := by
      intro c reply hw h
      generalize c.run k = res at hw h
      obtain ⟨_ | reply', k'⟩ := res
      · exact le_trans (ih _ _ h) hw
      · obtain rfl := Option.some.inj h
        exact hw
    intro c reply h
    cases c with
    | user => cases h
    | pipeRead p len => exact hstep (.pipeRead p len) reply (within_pipeReadFd p len) h
    | pipeWrite p data written =>
      exact hstep (.pipeWrite p data written) reply (within_pipeWriteLoop p data _ _ k) h
    | wait target status =>
      exact hstep (.wait target status) reply (within_waitLoop target status) h
    | ttyRead len => exact hstep (.ttyRead len) reply (within_ttyRead len) h

/-! ### What each call may write -/

/-- The process `me` gets no more bytes than were checked from `buf` on. -/
def Checked (buf me : ℕ) (res : Option Reply × Kern FS) : Prop :=
  ∃ n, (n = 0 ∨ userRangeOk buf n = true) ∧ Within n me res

lemma checked_answer (buf me : ℕ) (k : Kern FS) (ret : ℤ) : Checked buf me (answer k ret) :=
  ⟨0, .inl rfl, within_answer k ret⟩

lemma length_fileReadLoop (rounds : ℕ) : ∀ (f : Fd) (want : ℕ),
    Fallible.Returns (fileReadLoop ops rounds f want) fun r => r.1.length ≤ want := by
  induction rounds with
  | zero => exact fun f want => .pure (Nat.zero_le want)
  | succ rounds ih =>
    intro f want
    rw [fileReadLoop]
    split
    · refine .bind (.of_forall (P := fun _ => True) _ fun _ => trivial) fun o _ => ?_
      cases o with
      | none => exact .pure (Nat.zero_le want)
      | some b =>
        refine .bind (.of_forall (P := fun _ => True) _ fun _ => trivial) fun f' _ => ?_
        refine .bind (ih f' _) fun r hr => .pure ?_
        rw [List.length_append, List.length_map, List.length_range]
        omega
    · exact .pure (Nat.zero_le want)

lemma length_fileRead (mem : Bool) (f : Fd) (len : ℕ) :
    Fallible.Returns (fileRead ops mem f len) fun r => r.2.1.length ≤ len := by
  rw [fileRead]
  split
  · exact .pure (Nat.zero_le len)
  · split
    · exact .bind (length_fileReadLoop len f len) fun r hr => .pure hr
    · exact .pure (Nat.zero_le len)

/-- A call that may sleep, or reads files of bounded length, gives no more bytes than it
checked, and the others give no answer. -/
lemma Outcome.checked {c : Syscall} (hc : Outcome ops k c res) (hread : c.maySleep = true ∨
      ∀ path max, Fallible.Returns (ops.readFile path max) fun bytes => bytes.length ≤ max) :
    Checked c.out k.me res ∨ c.maySleep = false ∧ res.1 = none := by
  cases hc with
  | @readfile _ _ max _ _ _ _ hr hbytes =>
    rcases hread with hs | hlen
    · cases hs
    · exact .inl ⟨max, .inr hr, hlen _ max _ _ (congrArg Prod.fst hbytes)⟩
  | @read _ _ _ len _ mem _ _ _ _ hr hbytes =>
    exact .inl ⟨len, .inr hr, length_fileRead mem _ len _ _ (congrArg Prod.fst hbytes)⟩
  | pipe hu => exact .inl ⟨8, .inr hu, le_of_eq rfl⟩
  | pipeWrite => exact .inl ⟨0, .inl rfl, within_pipeWriteLoop _ _ _ _ k⟩
  | pipeRead _ hr => exact .inl ⟨_, .inr hr, within_pipeReadFd _ _⟩
  | ttyRead hr | readraw hr => exact .inl ⟨_, .inr hr, within_ttyRead _⟩
  | @wait target status hs =>
    refine .inl ⟨(Cont.wait target status).limit, ?_, within_waitLoop target status⟩
    by_cases h0 : status = 0
    · exact .inl (if_neg (not_not.mpr h0))
    · rw [Cont.limit, if_pos h0]
      exact .inr (hs h0)
  | exit | started | died => exact .inr ⟨rfl, rfl⟩
  | _ => exact .inl (checked_answer _ _ _ _)

end

/-! ### All addresses -/

section

variable {FS : Type} {ops : VfsOps FS} {k : Kern FS} {mem : ℕ → UInt8} {w : World} {r : Regs}
  {g : Fat32.Geom} {buf me : ℕ} {res : Option Reply × Kern FS}

/-- The bytes of an answer go to the user half. -/
def Guarded (buf : ℕ) (o : Option Reply) : Prop := ∀ a ∈ Regs.replySpan buf o, a < userTop

lemma guarded_of_length {o : Option Reply} {n : ℕ} (hn : n = 0 ∨ userRangeOk buf n = true)
    (h : ∀ reply, o = some reply → reply.bytes.length ≤ n) : Guarded buf o := by
  cases o with
  | none => exact fun a ha => absurd ha List.not_mem_nil
  | some reply =>
    rcases hn with rfl | hn
    · intro a ha
      rw [Regs.replySpan, Nat.le_zero.mp (h reply rfl)] at ha
      exact absurd ha List.not_mem_nil
    · exact below_of_span hn (h reply rfl)

lemma Checked.guarded (h : Checked buf me res) : Guarded buf res.1 := by
  obtain ⟨n, hn, hw⟩ := h
  refine guarded_of_length hn fun reply hreply => ?_
  obtain ⟨o, k⟩ := res
  subst hreply
  exact hw

lemma Checked.guarded_goOn (h : Checked buf me res) (hnone : res.1 = none) (ks : List (Kern FS)) :
    Guarded buf ((res.2.cont me).goOn ks) := by
  obtain ⟨n, hn, hw⟩ := h
  refine guarded_of_length hn fun reply hreply => ?_
  obtain ⟨o, k⟩ := res
  subst hnone
  exact le_trans (length_goOn ks _ reply hreply) hw

lemma length_readFileLoop (g : Fat32.Geom) (steps : ℕ) : ∀ c left : ℕ,
    Fallible.Returns (Fat32.readFileLoop g steps c left) fun bytes => bytes.length ≤ left := by
  induction steps with
  | zero => exact fun c left => .pure (Nat.zero_le left)
  | succ steps ih =>
    intro c left
    rw [Fat32.readFileLoop]
    split
    · refine .bind (.of_forall (P := fun _ => True) _ fun _ => trivial) fun o _ => ?_
      cases o with
      | none => exact .pure (Nat.zero_le left)
      | some b =>
        refine .bind (.of_forall (P := fun _ => True) _ fun _ => trivial) fun next _ => ?_
        refine .bind (ih next _) fun rest hrest => .pure ?_
        rw [List.length_append, Fat32.bytesOf, List.length_map, List.length_range]
        omega
    · exact .pure (Nat.zero_le left)

lemma length_fat32ReadFile (g : Fat32.Geom) (path : Name) (bufsize : ℕ) :
    Fallible.Returns (Fat32.fat32ReadFile g path bufsize) fun bytes =>
      bytes.length ≤ bufsize := by
  rw [Fat32.fat32ReadFile]
  refine .bind (.of_forall (P := fun _ => True) _ fun _ => trivial) fun file _ => ?_
  obtain ⟨cluster, size⟩ := file
  refine .bind (.of_forall (P := fun _ => True) _ fun _ => trivial) fun _ _ => ?_
  refine Fallible.Returns.mono (length_readFileLoop g g.maxChainLength cluster _) ?_
  exact fun bytes h => h.trans (min_le_right size bufsize)

/-- The answer that a call gives at once. -/
lemma guarded_run {k : Kern Fat32.State} (c : Syscall) :
    Guarded c.out (c.run (fat32VfsOps g) k).1 := by
  have hread := (c.outcome (fat32VfsOps g) k).checked (.inr (length_fat32ReadFile g))
  rcases hread with hc | ⟨-, hnone⟩
  · exact hc.guarded
  · rw [hnone]
    exact fun a ha => absurd ha List.not_mem_nil

/-- The answer that a call gives after a sleep. -/
lemma guarded_goOn (c : Syscall) (hc : c.maySleep = true) (hnone : (c.run ops k).1 = none)
    (ks : List (Kern FS)) : Guarded c.out (((c.run ops k).2.cont k.me).goOn ks) := by
  rcases (c.outcome ops k).checked (.inl hc) with h | ⟨h, -⟩
  · exact h.guarded_goOn hnone ks
  · exact absurd (hc.symm.trans h) (by decide)

lemma below_writeReads (fd : ℤ) (buf len : ℕ) :
    ∀ a ∈ Regs.writeReads k fd buf len, a < userTop := by
  intro a ha
  rw [Regs.writeReads] at ha
  split at ha
  · exact absurd ha List.not_mem_nil
  · split at ha
    · exact absurd ha List.not_mem_nil
    · next hr =>
      replace hr := not_not.mp hr
      split at ha
      · exact below_of_span hr le_rfl a ha
      · split at ha
        · exact absurd ha List.not_mem_nil
        · exact below_of_span hr (min_le_left len _) a ha
      · exact below_of_span hr le_rfl a ha
      · exact absurd ha List.not_mem_nil

lemma below_pathReads (upath : ℕ) {rest : List ℕ} (h : ∀ a ∈ rest, a < userTop) :
    ∀ a ∈ Regs.pathReads mem upath rest, a < userTop := by
  have hpath := below_copyUserPathAt mem upath
  rw [Regs.pathReads]
  generalize copyUserPathAt mem upath = path at hpath
  obtain ⟨_ | path, touched⟩ := path
  · exact hpath
  · intro a ha
    rcases List.mem_append.mp ha with ha | ha
    · exact hpath a ha
    · exact h a ha

lemma below_reads : ∀ a ∈ r.reads k mem, a < userTop := by
  have hnil : ∀ a ∈ ([] : List ℕ), a < userTop := fun a ha => absurd ha List.not_mem_nil
  rw [Regs.reads]
  split
  · exact below_writeReads 1 r.ebx r.ecx
  · exact below_pathReads r.ebx hnil
  · refine below_pathReads r.ebx ?_
    split
    · next hr => exact below_of_span hr le_rfl
    · exact hnil
  · exact below_pathReads r.ebx (below_execArgv r.ecx)
  · exact below_pathReads r.ebx hnil
  · exact below_writeReads (int32 r.ebx) r.ecx r.edx
  · exact below_pathReads r.ebx hnil
  · exact below_pathReads r.ebx hnil
  · exact below_pathReads r.ebx hnil
  · exact below_pathReads r.ebx (below_pathReads r.ecx hnil)
  · exact below_pathReads r.ebx hnil
  · exact below_pathReads r.ebx hnil
  · exact hnil

lemma below_getcwdStores (h : r.ecx ≠ 0) : ∀ a ∈ r.getcwdStores w, a < userTop := by
  rw [Regs.getcwdStores]
  split
  · next hr =>
    have hsize : r.ecx < 2 ^ 32 := lt_of_le_of_lt (of_decide_eq_true hr).2.2
      (lt_of_le_of_lt (Nat.sub_le _ _) (by norm_num [userTop]))
    refine below_of_span hr ?_
    omega
  · exact fun a ha => absurd ha List.not_mem_nil

lemma length_copyMatch (bufsz : ℕ) (m : Name) : ∀ out : List UInt8, out.length < bufsz →
    (copyMatch bufsz m out).length < bufsz := by
  induction m with
  | nil => exact fun out h => h
  | cons c m ih =>
    intro out h
    rw [copyMatch]
    split
    · next hlt => exact ih _ (by rwa [List.length_append])
    · exact h

lemma length_storeMatches (bufsz : ℕ) (ms : List Name) : ∀ out : List UInt8,
    out.length ≤ bufsz → (storeMatches bufsz ms out).length ≤ bufsz := by
  induction ms with
  | nil => exact fun out h => h
  | cons m ms ih =>
    intro out h
    rw [storeMatches]
    split
    · next hlt =>
      have hm := length_copyMatch bufsz m out (by omega)
      exact ih _ (by rwa [List.length_append])
    · exact h

lemma length_findprefixBytes (bufsz : ℕ) (ms : List Name) :
    (findprefixBytes bufsz ms).length ≤ bufsz := by
  have h := length_storeMatches bufsz ms [] (Nat.zero_le bufsz)
  rw [findprefixBytes]
  split
  · next hlt => rwa [List.length_append]
  · exact h

lemma below_stores {k : Kern Fat32.State} (h : ¬ (r.eax = 19 ∧ r.ecx = 0)) :
    ∀ a ∈ r.stores (fat32VfsOps g) k mem w, a < userTop := by
  have hnil : ∀ a ∈ ([] : List ℕ), a < userTop := fun a ha => absurd ha List.not_mem_nil
  rw [Regs.stores]
  split
  · next he => exact below_getcwdStores fun hc => h ⟨he, hc⟩
  · split
    · next hr => exact below_of_span hr le_rfl
    · exact hnil
  · rw [Regs.findprefixStores]
    split
    · next hr => exact below_of_span hr.2 (length_findprefixBytes r.edx w.found)
    · exact hnil
  · split
    · next hr => exact below_of_span hr le_rfl
    · exact hnil
  · exact guarded_run (r.call mem w)

lemma below_laterStores (ks : List (Kern FS)) :
    ∀ a ∈ r.laterStores ops k mem w ks, a < userTop := by
  rw [Regs.laterStores]
  split
  · next h => exact guarded_goOn (r.call mem w) h.1 h.2 ks
  · exact fun a ha => absurd ha List.not_mem_nil

end

/-- The kernel after start-up, in the root directory. -/
def rootWorld : World := ⟨true, .done, .started, [0x2F], [], 0⟩

end GordOS.Kernel
