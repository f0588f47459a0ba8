import NeurDB.Framework.LockOrder
import NeurDB.Nram.PreCommit

/-!
# The order of the commit locks

The first loop of `nram_xact_callback(XACT_EVENT_PRE_COMMIT)` locks the rows of the write set, one
after the other, and waits without a timeout. So that transactions in this loop cannot wait for
each other in a circle, the write set is sorted first, by table and tid. But the tag of an advisory
lock keeps only the low 32 bits of the tid: rows that are far apart in the order can share a tag,
and the tags then come in another order than the rows.

`commit_locks_ordered_iff` says for which sets of keys there is such an order. All keys together
are not one of them (`commit_locks_deadlock`); the keys with tids below `2 ^ 32` are.
-/

namespace NeurDB.Nram

open Function List

/-! ### The order of a sorted write set -/

theorem nramOptCmp_le_iff {a b : NRAMXactOpt} : nramOptCmp a b ≤ 0 ↔ a.key ≤ b.key := by
  unfold nramOptCmp
  rw [NRAMKey.le_def]
  split
  · split
    · next hne hlt => exact iff_of_true (by decide) (.inl hlt)
    · next hne hlt => exact iff_of_false (by decide) (by simp [hlt, hne])
  · next heq =>
    rw [not_not] at heq
    split
    · next hlt => exact iff_of_true (by decide) (.inr ⟨heq, BitVec.le_of_lt hlt⟩)
    · next hlt =>
      split
      · next hgt =>
        exact iff_of_false (by decide) (by simp [heq, BitVec.not_le.mpr hgt])
      · next hgt => exact iff_of_true le_rfl (.inr ⟨heq, BitVec.not_lt.mp hgt⟩)

theorem sortWriteSet_sorted (writeSet : List NRAMXactOpt) :
    (sortWriteSet writeSet).Pairwise fun a b => a.key ≤ b.key := by
  have htotal : Std.Total fun a b : NRAMXactOpt => nramOptCmp a b ≤ 0 :=
    ⟨fun a b => by simp only [nramOptCmp_le_iff]; exact le_total _ _⟩
  have htrans : IsTrans NRAMXactOpt fun a b => nramOptCmp a b ≤ 0 :=
    ⟨fun a b c => by simp only [nramOptCmp_le_iff]; exact le_trans⟩
  exact (pairwise_insertionSort _ writeSet).imp fun h => nramOptCmp_le_iff.mp h

/-! ### Transactions in the loop -/

/-- Transactions in the loop that takes the locks, each with the write set it has still to lock. -/
structure LockLoops where
  locks : Locks
  phase : TransactionId → CommitPhase

inductive LockLoopsLabel where
  /-- The next lock of `x`; `dontWait` says that its process does not wait. -/
  | lock (x : TransactionId) (dontWait : Bool)
  /-- The transaction leaves the loop and ends, committed or aborted. -/
  | leave (x : TransactionId)

/-- The transaction ends, which gives its locks back. -/
def LockLoops.finish (s : LockLoops) (x : TransactionId) : LockLoops where
  locks := s.locks.releaseAll x
  phase := update s.phase x (.locking [])

/-- The writes that `x` has still to lock, the one it waits for included. -/
def CommitPhase.toLock : CommitPhase → List NRAMXactOpt
  | .locking todo => todo
  | .waiting opt todo => opt :: todo
  | _ => []

/-- One step. The callback goes on in its loop, or raises an error, which aborts the
transaction. -/
def lockLoopsStep (s : LockLoops) : LockLoopsLabel → Option LockLoops
  | .lock x dontWait =>
    if (s.phase x).toLock = [] then none
    else
      match commitStep false dontWait .ok (newNRAMXactState x) ⟨.empty, s.locks⟩ (s.phase x) with
      | some (sh, .ok phase) => some ⟨sh.locks, update s.phase x phase⟩
      | some (sh, .error _) => some (LockLoops.finish ⟨sh.locks, s.phase⟩ x)
      | none => none
  | .leave x => some (s.finish x)

/-- Transactions that enter the loop with write sets made of the keys of `K`. -/
def lockLoops (K : Set NRAMKey) : System LockLoops LockLoopsLabel :=
  .ofFun (fun s => s.locks.holders = [] ∧ s.locks.waiters = [] ∧
    ∀ x, ∃ writeSet, (∀ opt ∈ writeSet, opt.key ∈ K) ∧
      s.phase x = .locking (sortWriteSet writeSet)) lockLoopsStep

/-! ### What a step can do -/

/-- **The steps of the loop**: a lock is granted, at once or after a wait, a request begins to
wait, or the transaction ends. -/
inductive LoopMove (s : LockLoops) (x : TransactionId) : LockLoops → Prop
  | grant {opt : NRAMXactOpt} {todo : List NRAMXactOpt} {locks : Locks} :
      s.phase x = .locking (opt :: todo) →
      locks.holders = advisoryLock opt.key .exclusive x :: s.locks.holders →
      locks.waiters = s.locks.waiters →
      LoopMove s x ⟨locks, update s.phase x (.locking todo)⟩
  | block {opt : NRAMXactOpt} {todo : List NRAMXactOpt} {locks : Locks} :
      s.phase x = .locking (opt :: todo) → locks.holders = s.locks.holders →
      locks.waiters = advisoryLock opt.key .exclusive x :: s.locks.waiters →
      advisoryLock opt.key .exclusive x ∉ s.locks.holders →
      LoopMove s x ⟨locks, update s.phase x (.waiting opt todo)⟩
  | wake {opt : NRAMXactOpt} {todo : List NRAMXactOpt} {locks : Locks} :
      s.phase x = .waiting opt todo →
      locks.holders = advisoryLock opt.key .exclusive x :: s.locks.holders →
      locks.waiters = s.locks.waiters.erase (advisoryLock opt.key .exclusive x) →
      LoopMove s x ⟨locks, update s.phase x (.locking todo)⟩
  | finish {locks : Locks} :
      (∀ a, a ∈ locks.holders ↔ a ∈ s.locks.holders ∧ a.owner ≠ x) →
      locks.waiters = s.locks.waiters.filter (·.owner ≠ x) →
      LoopMove s x ⟨locks, update s.phase x (.locking [])⟩

open LockTable

theorem loopMove_finish (s : LockLoops) (x : TransactionId) : LoopMove s x (s.finish x) :=
  .finish (fun _ => mem_releaseAll) rfl

theorem commitStep_locking (x : TransactionId) (locks : Locks) (dontWait : Bool)
    (opt : NRAMXactOpt) (todo : List NRAMXactOpt) :
    commitStep false dontWait .ok (newNRAMXactState x) ⟨.empty, locks⟩ (.locking (opt :: todo)) =
      some (⟨.empty, (locks.acquire (advisoryLock opt.key .exclusive x) dontWait).1⟩,
        match (locks.acquire (advisoryLock opt.key .exclusive x) dontWait).2 with
        | .ok | .alreadyHeld => .ok (.locking todo)
        | .notAvail => .error (.lockNotAvail opt.key)
        | .wait => .ok (.waiting opt todo)) := by
  simp only [commitStep]
  show (match (locks.acquire (advisoryLock opt.key .exclusive x) dontWait).2 with
    | .ok => _
    | .alreadyHeld => _
    | .notAvail => _
    | .wait => _) = _
  cases (locks.acquire (advisoryLock opt.key .exclusive x) dontWait).2 <;> rfl

variable {s s' : LockLoops} {x : TransactionId}

theorem loopMove_of_lock {dontWait : Bool}
    (h : lockLoopsStep s (.lock x dontWait) = some s') : LoopMove s x s' := by
  simp only [lockLoopsStep] at h
  split at h
  · cases h
  · next htodo =>
    cases hphase : s.phase x with
    | locking todo =>
      rw [hphase] at h htodo
      cases todo with
      | nil => exact absurd rfl htodo
      | cons opt todo =>
        rw [commitStep_locking] at h
        cases hres : (s.locks.acquire (advisoryLock opt.key .exclusive x) dontWait).2 with
        | ok =>
          rw [hres] at h
          cases h
          exact .grant hphase (acquire_granted (.inl hres))
            (acquire_waiters (by rw [hres]; simp))
        | alreadyHeld =>
          rw [hres] at h
          cases h
          exact .grant hphase (acquire_granted (.inr hres))
            (acquire_waiters (by rw [hres]; simp))
        | notAvail =>
          -- the error aborts the transaction
          rw [hres] at h
          cases h
          have hholders := acquire_refused (.inl hres)
          have hwaiters := acquire_waiters (by rw [hres]; simp)
          refine .finish (fun a => ?_) ?_
          · rw [mem_releaseAll, hholders]
          · show List.filter _ _ = _
            rw [hwaiters]
        | wait =>
          rw [hres] at h
          cases h
          obtain ⟨hwaiters, hnew⟩ := acquire_wait hres
          exact .block hphase (acquire_refused (.inr hres)) hwaiters hnew
    | waiting opt todo =>
      rw [hphase] at h
      simp only [commitStep] at h
      cases hwake : s.locks.wake (advisoryLock opt.key .exclusive x) with
      | none =>
        rw [show s.locks.wake (advisoryLock opt.key .exclusive (newNRAMXactState x).xactId) = none
          from hwake] at h
        cases h
      | some locks =>
        rw [show s.locks.wake (advisoryLock opt.key .exclusive (newNRAMXactState x).xactId) =
          some locks from hwake] at h
        cases h
        exact .wake hphase (wake_holders hwake) (wake_waiters hwake).1
    | _ =>
      rw [hphase] at htodo
      exact absurd rfl htodo

/-- **Every step is a move.** -/
theorem loopMove_of_step {l : LockLoopsLabel} (h : lockLoopsStep s l = some s') :
    ∃ x, LoopMove s x s' := by
  cases l with
  | lock x dontWait => exact ⟨x, loopMove_of_lock h⟩
  | leave x =>
    cases h
    exact ⟨x, loopMove_finish s x⟩

/-! ### The invariant -/

section Invariant

variable {le : LockTag → LockTag → Prop}

/-- What holds in every state, if the write sets are locked in the order `le` of the tags. -/
structure LoopInv (le : LockTag → LockTag → Prop) (s : LockLoops) : Prop where
  sorted : ∀ x, ((s.phase x).toLock.map (advisoryTag ·.key)).Pairwise le
  /-- A transaction holds only tags up to those it has still to lock. -/
  held : ∀ a ∈ s.locks.holders, a.mode = .exclusive ∧
    ∀ opt ∈ (s.phase a.owner).toLock, le a.tag (advisoryTag opt.key)
  /-- A request waits for the lock that its transaction is at. -/
  waiting : ∀ r ∈ s.locks.waiters, r ∉ s.locks.holders ∧
    ∃ opt todo, s.phase r.owner = .waiting opt todo ∧ r = advisoryLock opt.key .exclusive r.owner
  nodup : s.locks.waiters.Nodup

variable {s : LockLoops} {x : TransactionId}

theorem LoopInv.ascending (h : LoopInv le s) : s.locks.Ascending le where
  single r hr r' hr' howner := by
    obtain ⟨-, opt, todo, hphase, heq⟩ := h.waiting r hr
    obtain ⟨-, opt', todo', hphase', heq'⟩ := h.waiting r' hr'
    rw [← howner, hphase] at hphase'
    obtain ⟨rfl, -⟩ := CommitPhase.waiting.inj hphase'
    rw [heq, heq', howner]
  below r hr a ha howner := by
    obtain ⟨hnot, opt, todo, hphase, heq⟩ := h.waiting r hr
    obtain ⟨hmode, hle⟩ := h.held a ha
    rw [howner, hphase] at hle
    have htag : r.tag = advisoryTag opt.key := congrArg Lock.tag heq
    refine ⟨?_, fun hsame => hnot ?_⟩
    · rw [htag]
      exact hle opt mem_cons_self
    · -- a held lock of the same tag is the lock that is asked for
      obtain ⟨tag, mode, owner⟩ := a
      obtain rfl : mode = .exclusive := hmode
      obtain rfl : owner = r.owner := howner
      obtain rfl : tag = advisoryTag opt.key := hsame.trans htag
      rw [heq]
      exact ha

variable {phase : CommitPhase} {todo : List NRAMXactOpt} {locks : Locks} {r : NRAMLock}

section

variable (h : LoopInv le s)

include h

theorem LoopInv.waiting_of_ne (hholders : ∀ a ∈ locks.holders, a ∈ s.locks.holders ∨ a.owner = x)
    (hr : r ∈ s.locks.waiters) (hne : r.owner ≠ x) :
    r ∉ locks.holders ∧ ∃ opt todo, update s.phase x phase r.owner = .waiting opt todo ∧
      r = advisoryLock opt.key .exclusive r.owner := by
  obtain ⟨hnot, opt, todo, hphase, heq⟩ := h.waiting r hr
  refine ⟨fun hmem => ?_, opt, todo, ?_, heq⟩
  · rcases hholders r hmem with hold | howner
    · exact hnot hold
    · exact hne howner
  · rw [update_of_ne hne]
    exact hphase

theorem LoopInv.owner_ne (hphase : s.phase x = .locking todo) (hr : r ∈ s.locks.waiters) :
    r.owner ≠ x := by
  rintro rfl
  obtain ⟨-, opt, todo', hwaiting, -⟩ := h.waiting r hr
  rw [hphase] at hwaiting
  cases hwaiting

theorem LoopInv.sorted_update (hsub : phase.toLock.Sublist (s.phase x).toLock) (y : TransactionId) :
    ((update s.phase x phase y).toLock.map (advisoryTag ·.key)).Pairwise le := by
  by_cases hy : y = x
  · subst hy
    rw [update_self]
    exact (h.sorted y).sublist (hsub.map _)
  · rw [update_of_ne hy]
    exact h.sorted y

theorem LoopInv.held_update (hsub : phase.toLock.Sublist (s.phase x).toLock)
    {a : NRAMLock} (ha : a ∈ s.locks.holders) :
    a.mode = .exclusive ∧
      ∀ opt ∈ (update s.phase x phase a.owner).toLock, le a.tag (advisoryTag opt.key) := by
  obtain ⟨hmode, hle⟩ := h.held a ha
  refine ⟨hmode, fun opt hopt => hle opt ?_⟩
  by_cases hx : a.owner = x
  · rw [hx, update_self] at hopt
    rw [hx]
    exact hsub.subset hopt
  · rwa [update_of_ne hx] at hopt

/-- A lock that is granted, at once or after a wait, keeps the invariant. -/
theorem LoopInv.granted {opt : NRAMXactOpt} (htodo : (s.phase x).toLock = opt :: todo)
    (hholders : locks.holders = advisoryLock opt.key .exclusive x :: s.locks.holders)
    (hwaiters : ∀ r ∈ locks.waiters, r ∈ s.locks.waiters ∧ r.owner ≠ x)
    (hnodup : locks.waiters.Nodup) : LoopInv le ⟨locks, update s.phase x (.locking todo)⟩ := by
  have hsub : (CommitPhase.locking todo).toLock.Sublist (s.phase x).toLock := by
    rw [htodo]
    exact sublist_cons_self opt todo
  refine ⟨h.sorted_update hsub, fun a ha => ?_, fun r hr => ?_, hnodup⟩
  · rw [hholders] at ha
    rcases mem_cons.mp ha with rfl | ha
    · refine ⟨rfl, fun opt' hopt' => ?_⟩
      change opt' ∈ (update s.phase x _ x).toLock at hopt'
      rw [update_self] at hopt'
      have hsorted := h.sorted x
      rw [htodo, map_cons, pairwise_cons] at hsorted
      exact hsorted.1 _ (mem_map_of_mem hopt')
    · exact h.held_update hsub ha
  · refine h.waiting_of_ne (fun a ha => ?_) (hwaiters r hr).1 (hwaiters r hr).2
    rw [hholders] at ha
    rcases mem_cons.mp ha with rfl | ha
    · exact .inr rfl
    · exact .inl ha

end

theorem LoopInv.move {s' : LockLoops} (h : LoopInv le s) (hmove : LoopMove s x s') :
    LoopInv le s' := by
  cases hmove with
  | @grant opt todo locks hphase hholders hwaiters =>
    refine h.granted (by rw [hphase]; rfl) hholders (fun r hr => ?_) ?_
    · rw [hwaiters] at hr
      exact ⟨hr, h.owner_ne hphase hr⟩
    · rw [hwaiters]
      exact h.nodup
  | @block opt todo locks hphase hholders hwaiters hnew =>
    have htodo : (s.phase x).toLock = opt :: todo := by rw [hphase]; rfl
    have hsub : (CommitPhase.waiting opt todo).toLock.Sublist (s.phase x).toLock := by
      rw [htodo]
      exact List.Sublist.refl _
    refine ⟨h.sorted_update hsub, fun a ha => ?_, fun r hr => ?_, ?_⟩
    · rw [hholders] at ha
      exact h.held_update hsub ha
    · rw [hwaiters] at hr
      rcases mem_cons.mp hr with rfl | hr
      · refine ⟨?_, opt, todo, update_self .., rfl⟩
        rw [hholders]
        exact hnew
      · refine h.waiting_of_ne (fun a ha => .inl ?_) hr (h.owner_ne hphase hr)
        rwa [hholders] at ha
    · show locks.waiters.Nodup
      rw [hwaiters]
      exact nodup_cons.mpr ⟨fun hmem => h.owner_ne hphase hmem rfl, h.nodup⟩
  | @wake opt todo locks hphase hholders hwaiters =>
    refine h.granted (by rw [hphase]; rfl) hholders (fun r hr => ?_) ?_
    · rw [hwaiters] at hr
      have hmem : r ∈ s.locks.waiters := mem_of_mem_erase hr
      refine ⟨hmem, ?_⟩
      -- the only request of `x` was the one that is gone
      rintro rfl
      obtain ⟨-, opt', todo', hphase', heq⟩ := h.waiting r hmem
      rw [hphase] at hphase'
      obtain ⟨rfl, -⟩ := CommitPhase.waiting.inj hphase'
      rw [← heq] at hr
      exact h.nodup.not_mem_erase hr
    · rw [hwaiters]
      exact h.nodup.erase _
  | @finish locks hholders hwaiters =>
    have hsub : (CommitPhase.locking []).toLock.Sublist (s.phase x).toLock := nil_sublist _
    refine ⟨h.sorted_update hsub, fun a ha => ?_, fun r hr => ?_, ?_⟩
    · exact h.held_update hsub ((hholders a).mp ha).1
    · rw [hwaiters] at hr
      obtain ⟨hmem, hne⟩ := mem_filter.mp hr
      exact h.waiting_of_ne (fun a ha => .inl ((hholders a).mp ha).1) hmem (by simpa using hne)
    · show locks.waiters.Nodup
      rw [hwaiters]
      exact h.nodup.filter _

/-- There is one order of the tags in which every write set over `K` is locked. -/
def LocksInOrder (K : Set NRAMKey) (le : LockTag → LockTag → Prop) : Prop :=
  ∀ writeSet : List NRAMXactOpt, (∀ opt ∈ writeSet, opt.key ∈ K) →
    ((sortWriteSet writeSet).map (advisoryTag ·.key)).Pairwise le

theorem loopInv_of_reachable {K : Set NRAMKey} (hK : LocksInOrder K le)
    (hs : (lockLoops K).Reachable s) : LoopInv le s := by
  refine hs.invariant (fun s hinit => ?_) fun s l s' h hstep => ?_
  · obtain ⟨hholders, hwaiters, hphase⟩ := hinit
    refine ⟨fun x => ?_, fun a ha => ?_, fun r hr => ?_, ?_⟩
    · obtain ⟨writeSet, hkeys, heq⟩ := hphase x
      rw [heq]
      exact hK writeSet hkeys
    · rw [hholders] at ha
      cases ha
    · rw [hwaiters] at hr
      cases hr
    · rw [hwaiters]
      exact nodup_nil
  · obtain ⟨x, hmove⟩ := loopMove_of_step hstep
    exact h.move hmove

end Invariant

/-! ### The order of the tags -/

/-- An entry of a write set for the key. -/
def writeOf (key : NRAMKey) : NRAMXactOpt := ⟨.write, 0, key, ⟨0, 0, []⟩⟩

variable {a b : NRAMKey} {K : Set NRAMKey} {todo : List NRAMXactOpt} {opt : NRAMXactOpt}
  {c : NRAMKey}

theorem sortWriteSet_pair (h : a < b) :
    sortWriteSet [writeOf a, writeOf b] = [writeOf a, writeOf b] := by
  have hle : nramOptCmp (writeOf a) (writeOf b) ≤ 0 := nramOptCmp_le_iff.mpr h.le
  simp [sortWriteSet, insertionSort, hle]

theorem locksInOrder_iff {le : LockTag → LockTag → Prop} [IsLinearOrder LockTag le] :
    LocksInOrder K le ↔ ∀ a ∈ K, ∀ b ∈ K, a < b → le (advisoryTag a) (advisoryTag b) := by
  constructor
  · intro h a ha b hb hab
    have hpair := h [writeOf a, writeOf b] (by
      intro opt hopt
      rcases mem_pair.mp hopt with rfl | rfl
      · exact ha
      · exact hb)
    rw [sortWriteSet_pair hab] at hpair
    exact rel_of_pairwise_cons hpair (mem_singleton_self _)
  · intro h writeSet hkeys
    have hmem : ∀ opt ∈ sortWriteSet writeSet, opt.key ∈ K :=
      fun opt hopt => hkeys opt ((sortWriteSet_perm writeSet).mem_iff.mp hopt)
    refine pairwise_map.mpr ((sortWriteSet_sorted writeSet).imp_of_mem ?_)
    intro a b ha hb hab
    rcases hab.lt_or_eq with hlt | heq
    · exact h _ (hmem a ha) _ (hmem b hb) hlt
    · rw [heq]
      exact refl_of le _

/-- No transaction waits for itself, however the queues of the tags are served. -/
def NoCycle (s : LockLoops) : Prop :=
  ∀ ahead : NRAMLock → NRAMLock → Prop, IsStrictOrder NRAMLock ahead →
    ∀ x, ¬ Relation.TransGen (s.locks.WaitsFor ahead) x x

/-! ### A cycle -/

theorem conflicts_exclusive {k k' : NRAMKey} {y : TransactionId}
    (htag : advisoryTag k = advisoryTag k') (hne : x ≠ y) :
    (advisoryLock k .exclusive x).Conflicts lockMethod (advisoryLock k' .exclusive y) :=
  ⟨htag, hne, rfl⟩

theorem exists_grant (hphase : s.phase x = .locking (opt :: todo)) (hwaiters : s.locks.waiters = [])
    (hfree : ∀ a ∈ s.locks.holders, a.tag ≠ advisoryTag opt.key) :
    ∃ s', lockLoopsStep s (.lock x false) = some s' ∧
      s'.locks.holders = advisoryLock opt.key .exclusive x :: s.locks.holders ∧
      s'.locks.waiters = [] ∧ s'.phase = update s.phase x (.locking todo) := by
  have hok : (s.locks.acquire (advisoryLock opt.key .exclusive x) false).2 = .ok := by
    refine acquire_eq_ok (fun hmem => hfree _ hmem rfl) ?_ fun a ha hconf =>
      hfree a ha hconf.1
    rw [hwaiters]
    exact nofun
  refine ⟨⟨(s.locks.acquire (advisoryLock opt.key .exclusive x) false).1,
    update s.phase x (.locking todo)⟩, ?_, acquire_granted (.inl hok), ?_, rfl⟩
  · rw [lockLoopsStep, hphase, CommitPhase.toLock, if_neg (cons_ne_nil _ _),
      commitStep_locking, hok]
  · exact (acquire_waiters (by rw [hok]; simp)).trans hwaiters

theorem exists_block (hphase : s.phase x = .locking (opt :: todo))
    (hnew : advisoryLock opt.key .exclusive x ∉ s.locks.holders) {a : NRAMLock}
    (ha : a ∈ s.locks.holders)
    (hconf : a.Conflicts lockMethod (advisoryLock opt.key .exclusive x)) :
    ∃ s', lockLoopsStep s (.lock x false) = some s' ∧
      s'.locks.holders = s.locks.holders ∧
      s'.locks.waiters = advisoryLock opt.key .exclusive x :: s.locks.waiters ∧
      s'.phase = update s.phase x (.waiting opt todo) := by
  have hwait : (s.locks.acquire (advisoryLock opt.key .exclusive x) false).2 = .wait :=
    acquire_eq_wait hnew ha hconf
  refine ⟨⟨(s.locks.acquire (advisoryLock opt.key .exclusive x) false).1,
    update s.phase x (.waiting opt todo)⟩, ?_,
    acquire_refused (.inr hwait), (acquire_wait hwait).1, rfl⟩
  rw [lockLoopsStep, hphase, CommitPhase.toLock, if_neg (cons_ne_nil _ _), commitStep_locking,
    hwait]

/-- Transaction 1 writes `a` and `b`, transaction 2 writes `b` and `c`. -/
def twoLoops (a b c : NRAMKey) : LockLoops where
  locks := .empty
  phase x :=
    if x = 1 then .locking [writeOf a, writeOf b]
    else if x = 2 then .locking [writeOf b, writeOf c]
    else .locking []

theorem twoLoops_init (ha : a ∈ K) (hb : b ∈ K) (hc : c ∈ K) (hab : a < b)
    (hbc : b < c) : (lockLoops K).init (twoLoops a b c) := by
  have hpair : ∀ {k k' : NRAMKey}, k ∈ K → k' ∈ K →
      ∀ opt ∈ [writeOf k, writeOf k'], opt.key ∈ K := by
    intro k k' hk hk' opt hopt
    rcases mem_pair.mp hopt with rfl | rfl
    · exact hk
    · exact hk'
  refine ⟨rfl, rfl, fun x => ?_⟩
  by_cases h₁ : x = 1
  · refine ⟨[writeOf a, writeOf b], hpair ha hb, ?_⟩
    rw [sortWriteSet_pair hab]
    exact if_pos h₁
  · by_cases h₂ : x = 2
    · refine ⟨[writeOf b, writeOf c], hpair hb hc, ?_⟩
      rw [sortWriteSet_pair hbc]
      exact (if_neg h₁).trans (if_pos h₂)
    · exact ⟨[], nofun, (if_neg h₁).trans (if_neg h₂)⟩

/-- **A cycle of two transactions**, where the tag of `a` and `c` is not the one of the key
between them: each holds the tag that the other one asks for. -/
theorem exists_cycle (ha : a ∈ K) (hb : b ∈ K) (hc : c ∈ K) (hab : a < b)
    (hbc : b < c) (hac : advisoryTag a = advisoryTag c) (hne : advisoryTag b ≠ advisoryTag a) :
    ∃ s, (lockLoops K).Reachable s ∧ ∀ ahead, Relation.TransGen (s.locks.WaitsFor ahead) 1 1 := by
  -- 1. transaction 1 locks `a`
  obtain ⟨s₁, hstep₁, hhold₁, hwait₁, hphase₁⟩ :
      ∃ s', lockLoopsStep (twoLoops a b c) (.lock 1 false) = some s' ∧ _ :=
    exists_grant (s := twoLoops a b c) rfl rfl nofun
  -- 2. transaction 2 locks `b`
  have hp₂ : s₁.phase 2 = .locking [writeOf b, writeOf c] := by rw [hphase₁]; rfl
  obtain ⟨s₂, hstep₂, hhold₂, hwait₂, hphase₂⟩ := exists_grant hp₂ hwait₁ (by
    rw [hhold₁]
    intro l hl
    obtain rfl := mem_singleton.mp hl
    exact hne.symm)
  rw [hhold₁] at hhold₂
  -- 3. transaction 1 asks for `b`
  have hp₃ : s₂.phase 1 = .locking [writeOf b] := by rw [hphase₂, hphase₁]; rfl
  obtain ⟨s₃, hstep₃, hhold₃, hwait₃, hphase₃⟩ := exists_block hp₃
    (a := advisoryLock b .exclusive 2) (by
      rw [hhold₂]
      intro hmem
      rcases mem_pair.mp hmem with heq | heq
      · exact absurd (congrArg Lock.owner heq) (show ¬ (1 : TransactionId) = 2 by decide)
      · exact hne (congrArg Lock.tag heq))
    (by rw [hhold₂]; exact mem_cons_self) (conflicts_exclusive rfl (by decide))
  rw [hhold₂] at hhold₃
  rw [hwait₂] at hwait₃
  -- 4. transaction 2 asks for `c`, which has the tag of `a`
  have hp₄ : s₃.phase 2 = .locking [writeOf c] := by rw [hphase₃, hphase₂, hphase₁]; rfl
  obtain ⟨s₄, hstep₄, hhold₄, hwait₄, -⟩ := exists_block hp₄
    (a := advisoryLock a .exclusive 1) (by
      rw [hhold₃]
      intro hmem
      rcases mem_pair.mp hmem with heq | heq
      · exact hne (hac.trans (congrArg Lock.tag heq)).symm
      · exact absurd (congrArg Lock.owner heq) (show ¬ (2 : TransactionId) = 1 by decide))
    (by rw [hhold₃]; exact mem_cons_of_mem _ (mem_singleton_self _))
    (conflicts_exclusive hac (by decide))
  rw [hhold₃] at hhold₄
  rw [hwait₃] at hwait₄
  refine ⟨s₄, ⟨twoLoops a b c, _, twoLoops_init ha hb hc hab hbc,
    (((System.Run.nil.snoc hstep₁).snoc hstep₂).snoc hstep₃).snoc hstep₄⟩, fun ahead => ?_⟩
  have h₁₂ : s₄.locks.WaitsFor ahead 1 2 := by
    refine ⟨advisoryLock b .exclusive 1, ?_, rfl, advisoryLock b .exclusive 2, rfl,
      conflicts_exclusive rfl (by decide), .inl ?_⟩
    · rw [hwait₄]
      exact mem_cons_of_mem _ (mem_singleton_self _)
    · rw [hhold₄]
      exact mem_cons_self
  have h₂₁ : s₄.locks.WaitsFor ahead 2 1 := by
    refine ⟨advisoryLock c .exclusive 2, ?_, rfl, advisoryLock a .exclusive 1, rfl,
      conflicts_exclusive hac (by decide), .inl ?_⟩
    · rw [hwait₄]
      exact mem_cons_self
    · rw [hhold₄]
      exact mem_cons_of_mem _ (mem_singleton_self _)
  exact (Relation.TransGen.single h₁₂).tail h₂₁

/-! ### The commit locks -/

/-- **When the commit locks are taken in one order.** For transactions that write keys of `K`: one
order of the tags fits all write sets, exactly if no interleaving of their loops leads to a cycle,
exactly if the keys of each tag stand together in `K`. -/
theorem commit_locks_ordered_iff (K : Set NRAMKey) :
    ((∃ le, IsLinearOrder LockTag le ∧ LocksInOrder K le) ↔ FibresTogether advisoryTag K) ∧
      ((∀ s, (lockLoops K).Reachable s → NoCycle s) ↔ FibresTogether advisoryTag K) := by
  have horder : (∃ le, IsLinearOrder LockTag le ∧ LocksInOrder K le) ↔
      FibresTogether advisoryTag K := by
    rw [← exists_order_iff]
    refine exists_congr fun le => and_congr_right fun hlinear => locksInOrder_iff
  refine ⟨horder, fun h a ha b hb c hc hab hbc hac => ?_, fun h s hs ahead hahead x => ?_⟩
  · by_contra hne
    obtain ⟨s, hs, hcycle⟩ := exists_cycle ha hb hc hab hbc hac hne
    have hnone : IsStrictOrder NRAMLock fun _ _ => False :=
      { irrefl := fun _ => id, trans := fun _ _ _ h _ => h }
    exact h s hs _ hnone 1 (hcycle _)
  · obtain ⟨le, hlinear, hK⟩ := horder.mpr h
    exact (loopInv_of_reachable hK hs).ascending.acyclic x

/-- The tids of one backend with the pid 7: its second and third row, and the row that it inserts
`65536` rows after the second. The second row and the last one share a tag, so two commits can wait
for each other. -/
theorem commit_locks_deadlock :
    (¬ ∃ le, IsLinearOrder LockTag le ∧ LocksInOrder Set.univ le) ∧
      ∃ s, (lockLoops {⟨5, 0x10007⟩, ⟨5, 0x20007⟩, ⟨5, 0x100010007⟩}).Reachable s ∧
        ∀ ahead, Relation.TransGen (s.locks.WaitsFor ahead) 1 1 := by
  have htags : advisoryTag ⟨5, 0x10007⟩ = advisoryTag ⟨5, 0x100010007⟩ := by decide
  have hbetween : advisoryTag ⟨5, 0x20007⟩ ≠ advisoryTag ⟨5, 0x10007⟩ := by decide
  have h₁₂ : (⟨5, 0x10007⟩ : NRAMKey) < ⟨5, 0x20007⟩ := by decide
  have h₂₃ : (⟨5, 0x20007⟩ : NRAMKey) < ⟨5, 0x100010007⟩ := by decide
  constructor
  · rintro ⟨le, hlinear, hle⟩
    have hpairs := locksInOrder_iff.mp hle
    have hback := hpairs _ trivial _ trivial h₂₃
    rw [← htags] at hback
    exact hbetween (antisymm_of le hback (hpairs _ trivial _ trivial h₁₂))
  · exact exists_cycle (by simp) (by simp) (by simp) h₁₂ h₂₃ htags hbetween

end NeurDB.Nram
