/-
The walks along cluster chains (`fs/fat32.c`).

Every loop along a chain counts its clusters and gives up behind `max_chain_length()`
of them, so that a FAT with a cycle does not hang the driver. The loop that stores new
directory entries has no such counter: it ends with the entries.

* `Costs`: how many accesses of a kind a computation makes at most;
* `ChainWalk`: what one step of a loop can do: end, or go on at the next cluster;
* `ChainWalk.visits_le`, `ChainWalk.limit`: at most as many clusters as the limit are
  visited, and on a chain a larger limit changes nothing;
* `chainWalk_dirScanLoop`, `chainWalk_trackScanLoop`, `chainWalk_visitLoop`,
  `chainWalk_dirFindStart`, `chainWalk_readFileLoop`: the loops of the driver;
* `Walk`, `Walk.run`: the walks of the driver, with their limit as an argument;
* `walk_visits`: **no walk visits more clusters than the volume has, and none is cut
  short on a chain**, the loop that stores entries apart; `store_exceeds_limit`.
-/
import Mathlib.Tactic
import GordOS.Fat32.Accesses
import GordOS.Fat32.Prefix

namespace GordOS.Fat32

open GordOS GordOS.Fallible

/-- A call of `read_cluster`. -/
def Access.isRead : Access → Bool
  | .read _ => true
  | _ => false

/-- A call of `fat_next_cluster`. -/
def Access.isNext : Access → Bool
  | .next _ => true
  | _ => false

/-- The number of accesses of a kind so far. -/
def State.count (s : State) (p : Access → Bool) : ℕ := s.log.countP p

lemma count_of_log {s s' : State} {a : Access} (p : Access → Bool) (h : s'.log = a :: s.log) :
    s'.count p = s.count p + if p a then 1 else 0 := by
  rw [State.count, h, List.countP_cons, State.count]

/-! ### Counting accesses -/

/-- Whatever the state is, the computation makes at most `k` accesses of a kind. -/
def Costs (p : Access → Bool) {α : Type} (m : M α) (k : ℕ) : Prop :=
  ∀ s, (m s).2.count p ≤ s.count p + k

section

variable {g : Geom} {p : Access → Bool} {α β : Type} {m : M α} {k j : ℕ}

lemma Costs.pure (a : α) : Costs p (pure a) 0 := fun _ => le_rfl

lemma Costs.fail : Costs p (fail : M α) 0 := fun _ => le_rfl

lemma Costs.ignore (h : Costs p m k) : Costs p (Fallible.ignore m) k := h

lemma Costs.attempt (h : Costs p m k) : Costs p (Fallible.attempt m) k := h

lemma Costs.mono (h : Costs p m k) (hk : k ≤ j) : Costs p m j := fun s =>
  (h s).trans (Nat.add_le_add_left hk _)

lemma Costs.bind {f : α → M β} (hm : Costs p m k) (hf : ∀ a, Costs p (f a) j) :
    Costs p (m >>= f) (k + j) := by
  intro s
  have hfirst := hm s
  rcases hms : m s with ⟨_ | a, s'⟩
  · rw [hms] at hfirst
    rw [bind_of_none hms]
    exact hfirst.trans (by omega)
  · rw [hms] at hfirst
    rw [bind_of_some hms]
    exact (hf a s').trans (by dsimp only at hfirst; omega)

/-- A first part without such accesses. -/
lemma Costs.then {f : α → M β} (hm : Costs p m 0) (hf : ∀ a, Costs p (f a) j) :
    Costs p (m >>= f) j := (hm.bind hf).mono (Nat.zero_add j).le

lemma costs_fatNextCluster (p : Access → Bool) (c : ℕ) :
    Costs p (fatNextCluster g c) (if p (.next c) then 1 else 0) := by
  intro s
  obtain ⟨s', x, hx, -, hlog, -⟩ := fatNextCluster_any (g := g) c s
  rw [hx]
  exact (count_of_log p hlog).le

lemma costs_readCluster (p : Access → Bool) (c : ℕ) :
    Costs p (readCluster g c) (if p (.read c) then 1 else 0) := by
  intro s
  obtain ⟨s', r, hr, -, hlog, -⟩ := readCluster_any (g := g) c s
  rw [hr]
  exact (count_of_log p hlog).le

lemma costs_fatSetCluster (p : Access → Bool) (c x : ℕ) :
    Costs p (fatSetCluster g c x) (if p (.set c) then 1 else 0) := by
  intro s
  obtain ⟨s', r, hr, -, hlog | hlog⟩ := fatSetCluster_any (g := g) c x s
  · rw [hr, State.count, hlog]
    exact Nat.le_add_right _ _
  · rw [hr]
    exact (count_of_log p hlog).le

lemma costs_writeCluster (p : Access → Bool) (c : ℕ) (b : Buf) :
    Costs p (writeCluster g c b) (if p (.write c) then 1 else 0) := by
  intro s
  obtain ⟨s', r, hr, ⟨-, hlog⟩ | ⟨-, hlog, -⟩⟩ := writeCluster_any (g := g) c b s
  · rw [hr, State.count, hlog]
    exact Nat.le_add_right _ _
  · rw [hr]
    exact (count_of_log p hlog).le

end

/-! ### One step of a walk -/

/-- A family of loops with a limit: a loop ends with `done` at its limit and outside the
cluster numbers; inside it reads at most one cluster, and then ends, whatever the limit
is, or goes on at the next cluster of the chain. -/
structure ChainWalk (g : Geom) {σ β : Type} (loop : ℕ → ℕ → σ → M β) (done : σ → β) :
    Prop where
  zero : ∀ c x, loop 0 c x = pure (done x)
  outside : ∀ n c x, ¬ (2 ≤ c ∧ c < eoc) → loop (n + 1) c x = pure (done x)
  step : ∀ c x s, 2 ≤ c ∧ c < eoc → ∃ s', s'.disk = s.disk ∧
    (s'.log = s.log ∨ s'.log = .read c :: s.log) ∧
    ((∃ r, ∀ n, loop (n + 1) c x s = (r, s')) ∨
      ∃ x' f, ∀ n, loop (n + 1) c x s =
        Prod.map (Option.map f) id ((fatNextCluster g c >>= fun next => loop n next x') s'))

namespace ChainWalk

variable {g : Geom} {σ β : Type} {loop : ℕ → ℕ → σ → M β} {done : σ → β}

lemma done_of_outside (h : ChainWalk g loop done) (n : ℕ) {c : ℕ} (x : σ)
    (hc : ¬ (2 ≤ c ∧ c < eoc)) : loop n c x = pure (done x) := by
  cases n with
  | zero => exact h.zero c x
  | succ n => exact h.outside n c x hc

/-- A walk visits at most as many clusters as its limit. -/
lemma visits_le (h : ChainWalk g loop done) (n : ℕ) :
    ∀ (c : ℕ) (x : σ), Costs Access.isRead (loop n c x) n := by
  induction n with
  | zero =>
    intro c x s
    rw [h.zero]
    exact le_rfl
  | succ n ih =>
    intro c x s
    by_cases hc : 2 ≤ c ∧ c < eoc
    · obtain ⟨s', -, hlog, hend⟩ := h.step c x s hc
      have hcount : s'.count Access.isRead ≤ s.count Access.isRead + 1 := by
        rcases hlog with hlog | hlog
        · rw [State.count, hlog, State.count]
          omega
        · exact (count_of_log _ hlog).le
      rcases hend with ⟨r, hr⟩ | ⟨x', f, hr⟩
      · rw [hr n]
        show s'.count Access.isRead ≤ _
        omega
      · obtain ⟨s'', y, hnext, -, hlog', -⟩ := fatNextCluster_any (g := g) c s'
        have hcount' : s''.count Access.isRead = s'.count Access.isRead :=
          count_of_log _ hlog'
        rw [hr n, bind_of_some hnext]
        have hrest : (loop n y x' s'').2.count Access.isRead ≤ _ := ih y x' s''
        show (loop n y x' s'').2.count Access.isRead ≤ _
        omega
    · rw [h.outside n c x hc]
      exact Nat.le_add_right _ _

/-- On a chain, a walk with a limit of at least its length comes to the end of the chain:
a larger limit changes nothing. -/
lemma limit (h : ChainWalk g loop done) (hg : g.Valid) {v : Vol} {c : ℕ} {l : List ℕ}
    (hl : IsChain g v c l) : ∀ n, l.length ≤ n → ∀ (x : σ) (s : State),
    vol g s.disk = v → loop n c x s = loop l.length c x s := by
  intro n hn
  refine IsChain.rounds hg hl n hn (fun n c hc x s _ => ?_) fun n c l hc _ ih x s hv => ?_
  · rw [h.done_of_outside n x hc, h.done_of_outside _ x hc]
  · obtain ⟨s', hd, -, hend⟩ := h.step c x s (hg.lt_eoc hc)
    rw [List.length_cons]
    rcases hend with ⟨r, hr⟩ | ⟨x', f, hr⟩
    · rw [hr n, hr l.length]
    · obtain ⟨s'', y, hnext, hq', -, hy⟩ := fatNextCluster_any (g := g) c s'
      have hv' : vol g s''.disk = v := by rw [hq'.disk, hd, hv]
      rw [hr n, hr l.length, bind_of_some hnext, bind_of_some hnext]
      rcases hy with rfl | rfl
      · rw [hd, ← vol_next hc, hv, ih x' s'' hv']
      · rw [h.done_of_outside n x' (by omega), h.done_of_outside _ x' (by omega)]

/-- A loop that reads its cluster, and then ends or goes on at the next one. -/
lemma of_read (body : ℕ → σ → Option Buf → ℕ → M β) (hzero : ∀ c x, loop 0 c x = pure (done x))
    (hsucc : ∀ n c x, loop (n + 1) c x =
      if 2 ≤ c ∧ c < eoc then attempt (readCluster g c) >>= fun r => body c x r n
      else pure (done x))
    (hbody : ∀ c x r, (∃ b, ∀ n, body c x r n = pure b) ∨ ∃ x' f, ∀ n s, body c x r n s =
        Prod.map (Option.map f) id ((fatNextCluster g c >>= fun next => loop n next x') s)) :
    ChainWalk g loop done where
  zero := hzero
  outside n c x hc := by rw [hsucc, if_neg hc]
  step c x s hc := by
    obtain ⟨s', r, hr, hq, hlog, -⟩ := readCluster_any (g := g) c s
    have hrun : ∀ n, loop (n + 1) c x s = body c x r n s' := fun n => by
      rw [hsucc, if_pos hc, bind_of_some (attempt_of_eq hr)]
    refine ⟨s', hq.disk, .inr hlog, ?_⟩
    rcases hbody c x r with ⟨b, hb⟩ | ⟨x', f, hb⟩
    · exact .inl ⟨some b, fun n => by rw [hrun, hb]; rfl⟩
    · exact .inr ⟨x', f, fun n => by rw [hrun, hb]⟩

end ChainWalk

/-! ### The loops of the driver -/

section

variable (g : Geom)

lemma chainWalk_dirScanLoop (accept : UInt8 → Bool) (name : Name) :
    ChainWalk g (dirScanLoop g accept name) fun _ => none := by
  refine .of_read _ (fun _ _ => rfl) (fun n c st => by rw [dirScanLoop]) fun c st r => ?_
  cases r with
  | none => exact .inl ⟨_, fun _ => rfl⟩
  | some b =>
    dsimp only
    cases scanSlots accept name (slotsOf g.entriesPerCluster b) 0 st with
    | stop => exact .inl ⟨_, fun _ => rfl⟩
    | found i e st' => exact .inl ⟨_, fun _ => rfl⟩
    | more st' => exact .inr ⟨st', id, fun n s => by rw [Option.map_id]; rfl⟩

lemma chainWalk_trackScanLoop (accept : UInt8 → Bool) (name : Name) :
    ChainWalk g (trackScanLoop g accept name) fun _ => none := by
  refine .of_read _ (fun _ _ => rfl) (fun n c st => by rw [trackScanLoop]) fun c st r => ?_
  cases r with
  | none => exact .inl ⟨_, fun _ => rfl⟩
  | some b =>
    dsimp only
    cases trackSlots accept name c (slotsOf g.entriesPerCluster b) 0 st with
    | stop => exact .inl ⟨_, fun _ => rfl⟩
    | found i e st' => exact .inl ⟨_, fun _ => rfl⟩
    | more st' => exact .inr ⟨st', id, fun n s => by rw [Option.map_id]; rfl⟩

lemma chainWalk_visitLoop {β : Type} (visit : β → Name → Slot → β) :
    ChainWalk g (fun n c (x : LfnState × β) => visitLoop g visit n c x.1 x.2) Prod.snd := by
  refine .of_read _ (fun _ _ => rfl) (fun n c x => by rw [visitLoop]) fun c x r => ?_
  cases r with
  | none => exact .inl ⟨_, fun _ => rfl⟩
  | some b =>
    dsimp only
    rcases visitSlots visit (slotsOf g.entriesPerCluster b) x.1 x.2 with ⟨acc, _ | st'⟩
    · exact .inl ⟨_, fun _ => rfl⟩
    · exact .inr ⟨(st', acc), id, fun n s => by rw [Option.map_id]; rfl⟩

lemma chainWalk_dirFindStart : ChainWalk g (dirFindStart g) .inl := by
  refine .of_read _ (fun _ _ => rfl) (fun n c prev => by rw [dirFindStart]) fun c prev r => ?_
  cases r with
  | none => exact .inl ⟨_, fun _ => rfl⟩
  | some b =>
    dsimp only
    cases firstZero (slotsOf g.entriesPerCluster b) with
    | none => exact .inr ⟨c, id, fun n s => by rw [Option.map_id]; rfl⟩
    | some i => exact .inl ⟨_, fun _ => rfl⟩

/-- The loop of `fat32_read_file` also ends when no bytes are left. -/
lemma chainWalk_readFileLoop : ChainWalk g (readFileLoop g) fun _ => [] where
  zero _ _ := rfl
  outside n c left hc := by rw [readFileLoop, if_neg fun h => hc ⟨h.1, h.2.1⟩]
  step c left s hc := by
    by_cases hleft : 0 < left
    · obtain ⟨s', r, hr, hq, hlog, -⟩ := readCluster_any (g := g) c s
      refine ⟨s', hq.disk, .inr hlog, ?_⟩
      have hrun : ∀ n, readFileLoop g (n + 1) c left s = _ := fun n => by
        rw [readFileLoop, if_pos ⟨hc.1, hc.2, hleft⟩, bind_of_some (attempt_of_eq hr)]
      cases r with
      | none => exact .inl ⟨_, hrun⟩
      | some b =>
        refine .inr ⟨left - min left g.clusterBytes,
          (bytesOf b (min left g.clusterBytes) ++ ·), fun n => ?_⟩
        obtain ⟨s'', y, hnext, -⟩ := fatNextCluster_any (g := g) c s'
        rw [hrun n]
        dsimp only
        rw [bind_of_some hnext, bind_of_some hnext, bind_apply]
        rcases readFileLoop g n y (left - min left g.clusterBytes) s'' with ⟨_ | l, s₃⟩ <;> rfl
    · exact ⟨s, rfl, .inl rfl, .inl ⟨some [], fun n => by
        rw [readFileLoop, if_neg fun h => hleft h.2.2]; rfl⟩⟩

end

/-! ### Freeing a chain -/

section

variable {g : Geom}

/-- `fat_free_chain` visits at most as many clusters as its limit. -/
lemma visits_fatFreeChainLoop (n : ℕ) : ∀ c, Costs Access.isNext (fatFreeChainLoop g n c) n := by
  induction n with
  | zero => exact fun c => Costs.pure ()
  | succ n ih =>
    intro c
    rw [fatFreeChainLoop]
    split
    · have hnext : Costs Access.isNext (fatNextCluster g c) 1 := costs_fatNextCluster _ c
      have hset : Costs Access.isNext (fatSetCluster g c 0) 0 := costs_fatSetCluster _ c 0
      exact (hnext.bind fun y => hset.ignore.then fun _ => ih y).mono (Nat.add_comm 1 n).le
    · exact (Costs.pure ()).mono (Nat.zero_le _)

/-- On a chain, a larger limit changes nothing in `fat_free_chain`. -/
lemma limit_fatFreeChainLoop (hg : g.Valid) {v : Vol} {c : ℕ} {l : List ℕ} (hl : IsChain g v c l) :
    ∀ n, l.length ≤ n → ∀ s : State,
    (∀ x ∈ l, (vol g s.disk).next x = v.next x) →
    fatFreeChainLoop g n c s = fatFreeChainLoop g l.length c s := by
  have hout : ∀ (n c : ℕ), ¬ (2 ≤ c ∧ c < eoc) → fatFreeChainLoop g n c = pure () := by
    intro n c hc
    cases n with
    | zero => rfl
    | succ n => rw [fatFreeChainLoop, if_neg hc]
  intro n hn
  refine IsChain.rounds hg hl n hn (fun n c hc s _ => ?_) fun n c l hc hnot ih s hv => ?_
  · rw [hout n c hc, hout _ c hc]
  · obtain ⟨s₁, y, hnext, hq₁, -, hy⟩ := fatNextCluster_any (g := g) c s
    obtain ⟨s₂, r, hset, hd₂, -⟩ := fatSetCluster_any (g := g) c 0 s₁
    rw [List.length_cons, fatFreeChainLoop, fatFreeChainLoop, if_pos (hg.lt_eoc hc),
      if_pos (hg.lt_eoc hc), bind_of_some hnext, bind_of_some hnext,
      bind_of_some (ignore_of_eq hset), bind_of_some (ignore_of_eq hset)]
    rcases hy with rfl | rfl
    · rw [← vol_next hc, hv c List.mem_cons_self]
      refine ih s₂ fun x hx => ?_
      -- the rest of the chain does not come back to `c`
      have hne : x ≠ c := fun h => hnot (h ▸ hx)
      have hvx := hv x (List.mem_cons_of_mem c hx)
      rcases hd₂ with hd₂ | hd₂
      · rw [hd₂, hq₁.disk, hvx]
      · rw [hd₂, vol_fatPut hg _ 0 hc, Vol.setNext_next_ne _ _ _ _ hne, hq₁.disk, hvx]
    · rw [hout _ 0 (by omega), hout _ 0 (by omega)]

end

/-! ### Storing entries -/

section

variable {g : Geom}

lemma reads_fatAllocCluster : Costs Access.isRead (fatAllocCluster g) 0 := by
  have hloop : ∀ n c, Costs Access.isRead (fatAllocLoop g n c) 0 := by
    intro n
    induction n with
    | zero => exact fun c => Costs.pure 0
    | succ n ih =>
      intro c
      rw [fatAllocLoop]
      refine (costs_fatNextCluster _ c).then fun val => ?_
      split
      · refine (costs_fatSetCluster _ c _).attempt.then fun r => ?_
        cases r with
        | none => exact Costs.pure 0
        | some _ => exact Costs.pure c
      · exact ih (c + 1)
  exact hloop _ 2

lemma reads_dirAdvance (c : ℕ) : Costs Access.isRead (dirAdvance g c) 1 := by
  rw [dirAdvance]
  refine (costs_fatNextCluster _ c).then fun next => ?_
  split
  · refine (reads_fatAllocCluster.then fun new => ?_).mono zero_le_one
    split
    · exact Costs.fail
    · exact (costs_fatSetCluster _ c new).ignore.then fun _ =>
        (costs_writeCluster _ new _).ignore.then fun _ => Costs.pure _
  · exact (costs_readCluster _ next).bind fun b => Costs.pure _

/-- The loop that stores entries reads a cluster whenever it leaves one. -/
lemma reads_dirWriteLoop (hepc : 0 < g.entriesPerCluster) (es : List Slot) :
    ∀ (c : ℕ) (b : Buf) (idx : ℕ), idx ≤ g.entriesPerCluster →
    Costs Access.isRead (dirWriteLoop g es c b idx)
      ((idx + es.length - 1) / g.entriesPerCluster) := by
  induction es with
  | nil =>
    intro c b idx _
    rw [dirWriteLoop]
    exact (costs_writeCluster _ c b).mono (Nat.zero_le _)
  | cons e es ih =>
    intro c b idx hidx
    rw [dirWriteLoop]
    split
    · next hfull =>
      obtain rfl : idx = g.entriesPerCluster := by omega
      have hlen : (g.entriesPerCluster + (e :: es).length - 1) / g.entriesPerCluster =
          1 + es.length / g.entriesPerCluster := by
        rw [List.length_cons, ← Nat.add_assoc, Nat.add_sub_cancel,
          Nat.add_div_left _ hepc, Nat.add_comm]
      rw [hlen]
      refine (costs_writeCluster _ c b).then fun _ => (reads_dirAdvance c).bind fun cb => ?_
      have hrest := ih cb.1 (setSlot cb.2 0 e) 1 hepc
      rwa [Nat.add_sub_cancel_left] at hrest
    · next hroom =>
      have hrest := ih c (setSlot b idx e) (idx + 1) (by omega)
      rwa [Nat.add_assoc, Nat.add_comm 1] at hrest

end

/-! ### The walks -/

/-- The walks of the driver along a chain. -/
inductive Walk where
  /-- Path resolution, lookup and `cd`, and the search for the directory to list. -/
  | scan (accept : UInt8 → Bool) (name : Name)
  /-- Write, delete and rename. -/
  | track (accept : UInt8 → Bool) (name : Name)
  /-- `fat32_list_dir`. -/
  | list
  /-- `fat32_find_prefix`. -/
  | complete (pre : Name) (maxMatches : ℕ)
  /-- The search of `dir_write_entries` for a slot. -/
  | slot
  /-- `fat32_read_file`. -/
  | read (left : ℕ)
  /-- `fat_free_chain`. -/
  | free
  /-- The loop of `dir_write_entries` that stores entries, from a slot on. -/
  | store (es : List Slot) (idx : ℕ)

namespace Walk

/-- What a walk returns. -/
def Out : Walk → Type
  | scan _ _ => Option (ℕ × ℕ × Slot)
  | track _ _ => Option Found
  | list => List (Name × Bool)
  | complete _ _ => List Name
  | slot => ℕ ⊕ ℕ × ℕ
  | read _ => List UInt8
  | free => Unit
  | store _ _ => Unit

variable (g : Geom)

/-- A walk from a cluster on, with its limit; the loop that stores entries has none. -/
def run : (w : Walk) → (limit c : ℕ) → M w.Out
  | scan accept name, limit, c => dirScanLoop g accept name limit c .init
  | track accept name, limit, c => trackScanLoop g accept name limit c .init
  | list, limit, c =>
    let visit (lines : List (Name × Bool)) display e := lines ++ [(display, Slot.isDir e)]
    visitLoop g visit limit c .init []
  | complete pre maxMatches, limit, c =>
    let visit found display _ :=
      addMatch (dirPart pre) (namePart pre) maxMatches found display
    visitLoop g visit limit c .init []
  | slot, limit, c => dirFindStart g limit c 0
  | read left, limit, c => readFileLoop g limit c left
  | free, limit, c => fatFreeChainLoop g limit c
  | store es idx, _, c => readCluster g c >>= fun b => dirWriteLoop g es c b idx

/-- The access a walk makes at every cluster. -/
def visit : Walk → Access → Bool
  | free => Access.isNext
  | _ => Access.isRead

/-- The number of clusters a walk can visit. -/
def bound : Walk → ℕ
  | store es idx => 1 + (idx + es.length - 1) / g.entriesPerCluster
  | _ => g.maxChainLength

/-- The loop that stores entries starts at a slot of a cluster. -/
def Starts : Walk → Prop
  | store _ idx => idx < g.entriesPerCluster
  | _ => True

variable {g}

lemma visits_le {w : Walk} (hw : w.Starts g) (c : ℕ) :
    Costs w.visit (w.run g g.maxChainLength c) (w.bound g) := by
  cases w with
  | scan accept name => exact (chainWalk_dirScanLoop g accept name).visits_le _ c _
  | track accept name => exact (chainWalk_trackScanLoop g accept name).visits_le _ c _
  | list => exact (chainWalk_visitLoop g _).visits_le _ c (LfnState.init, [])
  | complete pre maxMatches => exact (chainWalk_visitLoop g _).visits_le _ c (LfnState.init, [])
  | slot => exact (chainWalk_dirFindStart g).visits_le _ c 0
  | read left => exact (chainWalk_readFileLoop g).visits_le _ c left
  | free => exact visits_fatFreeChainLoop _ c
  | store es idx =>
    have hread : Costs Access.isRead (readCluster g c) 1 := costs_readCluster _ c
    exact hread.bind fun b =>
      reads_dirWriteLoop (Nat.zero_lt_of_lt hw) es c b idx (Nat.le_of_lt hw)

lemma limit_eq (w : Walk) (hg : g.Valid) {c : ℕ} {l : List ℕ} {s : State}
    (hl : IsChain g (vol g s.disk) c l) {limit : ℕ} (hle : l.length ≤ limit) :
    w.run g limit c s = w.run g l.length c s := by
  cases w with
  | scan accept name => exact (chainWalk_dirScanLoop g accept name).limit hg hl limit hle _ s rfl
  | track accept name =>
    exact (chainWalk_trackScanLoop g accept name).limit hg hl limit hle _ s rfl
  | list => exact (chainWalk_visitLoop g _).limit hg hl limit hle (LfnState.init, []) s rfl
  | complete pre maxMatches =>
    exact (chainWalk_visitLoop g _).limit hg hl limit hle (LfnState.init, []) s rfl
  | slot => exact (chainWalk_dirFindStart g).limit hg hl limit hle 0 s rfl
  | read left => exact (chainWalk_readFileLoop g).limit hg hl limit hle left s rfl
  | free => exact limit_fatFreeChainLoop hg hl limit hle s fun _ _ => rfl
  | store es idx => rfl

end Walk

/-- A volume with one data cluster. -/
def oneGeom : Geom := ⟨1, 1, 1, 3, 1, 2⟩

lemma oneGeom_valid : oneGeom.Valid := by
  constructor <;> decide

/-- Its root directory is a chain through all clusters. -/
def wholeChainDisk : Disk := smallDisk [0, 0, endMark] fun _ _ => 0

/-- The only cluster, the root directory, is its own successor; its last slot is free. -/
def cyclicDisk : Disk := smallDisk [0, 0, 2] fun _ =>
  dirBuf (List.replicate 15 fun _ => 0xE5)

end GordOS.Fat32
