import NeurDB.Nram.Access

/-!
# Runs of the storage engine

The states and steps of the system that `Access.lean` describes, for a policy table. One
transaction makes one step at a time: the executor starts or ends a statement, a callback is
called, goes on with its locks or is performed, the server commits or aborts. `engineStep` is
the step function; a step that hands a row to the executor returns it.

The **moves** (`Move`) say what a step can do to the parts of the state, all else unchanged.
Every invariant is proved from them.
-/

namespace NeurDB.Nram

open Function

/-! ### States -/

/-- Where a transaction is. -/
inductive Pc where
  /-- The transaction ended before the run began. -/
  | past
  | idle
  /-- In a callback, with locks still to take. -/
  | acquiring (todo : List LockRequest) (access : Access)
  /-- … and waiting for the lock `req`. -/
  | blocked (req : LockRequest) (todo : List LockRequest) (access : Access)
  | committing (phase : CommitPhase)
  | committed
  | aborted

/-- The transaction has ended. -/
def Pc.ended : Pc → Bool
  | past | committed | aborted => true
  | _ => false

/-- The access of the callback a transaction is in. -/
def Pc.access? : Pc → Option Access
  | acquiring _ access => some access
  | blocked _ _ access => some access
  | _ => none

/-- The locks that the callback has still to take. -/
def Pc.requests : Pc → List LockRequest
  | acquiring todo _ => todo
  | blocked req todo _ => req :: todo
  | _ => []

theorem Pc.access?_of_ended {pc : Pc} (h : pc.ended = true) : pc.access? = none := by
  cases pc with
  | acquiring | blocked => cases h
  | _ => rfl

theorem Pc.running_of_access? {pc : Pc} {access : Access} (h : pc.access? = some access) :
    pc.ended = false := by
  refine Bool.eq_false_iff.mpr fun hended => ?_
  rw [Pc.access?_of_ended hended] at h
  cases h

structure Xact where
  state : NRAMXactState
  /-- `MyProc->rank`. -/
  rank : Priority
  /-- `IsolationIsSerializable()`. -/
  serializable : Bool
  scans : Scans
  pc : Pc

/-- A row handed to the executor that the transaction had not written itself. -/
structure Handed where
  xact : TransactionId
  key : NRAMKey
  value : NRAMValue
  deriving DecidableEq

/-- A row read or written through the callbacks. -/
structure Accessed where
  xact : TransactionId
  key : NRAMKey
  write : Bool
  deriving DecidableEq

structure Engine where
  sh : Shared
  tx : TransactionId → Xact
  /-- The logical tids generated so far, those of the rows in the store among them. -/
  generated : List (BitVec 64)
  /-- The rows put by commit callbacks after validation. -/
  installed : List (NRAMKey × NRAMValue)
  handed : List Handed
  accessed : List Accessed

inductive EngineLabel where
  | executorStart (x : TransactionId) (ct : CmdType)
  | executorEnd (x : TransactionId)
  | call (x : TransactionId) (c : Call)
  /-- Take the next lock, or the lock waited for. -/
  | lock (x : TransactionId)
  | perform (x : TransactionId) (reply : PutReply)
  | preCommit (x : TransactionId)
  | callback (x : TransactionId) (reply : PutReply)
  | commit (x : TransactionId)
  | abort (x : TransactionId)

/-! ### Steps -/

/-- Replace the record of `x`. -/
def Engine.set (s : Engine) (x : TransactionId) (t : Xact) : Engine :=
  { s with tx := update s.tx x t }

/-- End the transaction `x`, which gives all its locks back. -/
def Engine.finish (s : Engine) (x : TransactionId) (pc : Pc) : Engine :=
  { s with
    sh := { s.sh with locks := s.sh.locks.releaseAll x }
    tx := update s.tx x { s.tx x with pc := pc } }

/-- The executor of `x` can make the access: a generated tid is new (no two backends share the low
16 bits of their process id, and none makes `2 ^ 32` tids), and the tid of an update comes from a
row that the transaction wrote or was given. The table of that row need not be the
table that is updated, since a scan can return rows of other tables. -/
def Engine.Admits (s : Engine) (x : TransactionId) : Access → Prop
  | .insert key _ => key.tid ∉ s.generated
  | .tupleUpdate key _ =>
    key.tid ∈ (s.tx x).state.writeSet.map (·.key.tid) ∨
      key.tid ∈ (s.handed.filter (·.xact = x)).map (·.key.tid)
  | _ => True

instance (s : Engine) (x : TransactionId) : (access : Access) → Decidable (s.Admits x access)
  | .insert _ _ => inferInstanceAs (Decidable (_ ∉ _))
  | .tupleUpdate _ _ => inferInstanceAs (Decidable (_ ∨ _))
  | .beginscan _ _ => .isTrue trivial
  | .endOfScan => .isTrue trivial
  | .ownRow _ _ => .isTrue trivial
  | .scanRow _ _ _ => .isTrue trivial
  | .indexFetchTuple _ => .isTrue trivial
  | .fetchRowVersion _ => .isTrue trivial

/-- The tid an access generates. -/
def Access.generates : Access → List (BitVec 64)
  | .insert key _ => [key.tid]
  | _ => []

/-- The row of a performed access in the log of rows handed out. -/
def handedOut (x : TransactionId) (state : NRAMXactState) :
    Option (NRAMKey × NRAMValue) → List Handed
  | some (key, value) => if (readOwnWrite state key).isNone then [⟨x, key, value⟩] else []
  | none => []

variable {policy : Policy} {s : Engine} {row : Option (NRAMKey × NRAMValue)} {x : TransactionId}
  {s' : Engine} {l : EngineLabel} {state : NRAMXactState} {ls : List EngineLabel}
  {I : Engine → Prop} {s₀ : Engine}

theorem mem_handedOut {e : Handed} (h : e ∈ handedOut x state row) :
    row = some (e.key, e.value) ∧ e.xact = x ∧ readOwnWrite state e.key = none := by
  unfold handedOut at h
  split at h
  · split at h
    · next hnone =>
      obtain rfl := List.mem_singleton.mp h
      exact ⟨rfl, rfl, Option.isNone_iff_eq_none.mp hnone⟩
    · cases h
  · cases h

/-- The rows of a performed access in the log of accesses. -/
def accessesOf (x : TransactionId) (access : Access) (row : Option (NRAMKey × NRAMValue)) :
    List Accessed :=
  (row.map fun r => ⟨x, r.1, false⟩).toList ++ access.writes.map fun key => ⟨x, key, true⟩

/-- The row a step of the commit callback installs, if it is a put that reaches the store. -/
def CommitPhase.puts (reply : PutReply) : CommitPhase → List (NRAMKey × NRAMValue)
  | installing (opt :: _) =>
    if putMsgSize opt.value ≤ msgSize ∧ reply.stored = true then [(opt.key, opt.value)] else []
  | _ => []

/-- The writes a phase of the commit callback has still to put. -/
def CommitPhase.toPut : CommitPhase → List NRAMXactOpt
  | installing todo => todo
  | installed _ todo => todo
  | _ => []

/-- The validation loop is through. -/
def CommitPhase.isValidated : CommitPhase → Bool
  | installing _ | installed _ _ | done => true
  | _ => false

/-- One step, and the row it hands to the executor; `none` where the label is not enabled. -/
def engineStep (policy : Policy) (s : Engine) :
    EngineLabel → Option (Engine × Option (NRAMKey × NRAMValue))
  | .executorStart x ct =>
    match (s.tx x).pc with
    | .idle =>
      let state := nramExecutorStart (s.tx x).state ct
      let rank := (state.action.map fun a => (policy a).priority).getD (s.tx x).rank
      some (s.set x { s.tx x with state, rank }, none)
    | _ => none
  | .executorEnd x =>
    match (s.tx x).pc with
    | .idle => some (s.set x { s.tx x with state := nramExecutorEnd (s.tx x).state }, none)
    | _ => none
  | .call x c =>
    match (s.tx x).pc, (s.tx x).state.action with
    | .idle, some a =>
      match enter (policy a).detectAll (s.tx x).state (s.tx x).scans c with
      | some (scans, todo, access) =>
        if s.Admits x access then
          some ({ s.set x { s.tx x with scans, pc := .acquiring todo access } with
            generated := access.generates ++ s.generated }, none)
        else none
      | none => none
    | _, _ => none
  | .lock x =>
    match (s.tx x).pc with
    | .acquiring (req :: todo) access =>
      let (locks, r) := s.sh.locks.acquire ⟨req.1, req.2, x⟩ (s.tx x).rank.dontWait
      let pc := if r = .wait then .blocked req todo access else .acquiring todo access
      -- a refusal is not looked at
      some ({ s.set x { s.tx x with pc } with sh := { s.sh with locks } }, none)
    | .blocked req todo access =>
      (s.sh.locks.wake ⟨req.1, req.2, x⟩).map fun locks =>
        ({ s.set x { s.tx x with pc := .acquiring todo access } with sh := { s.sh with locks } },
          none)
    | _ => none
  | .perform x reply =>
    match (s.tx x).pc with
    | .acquiring [] access =>
      match perform reply (s.tx x).state (s.tx x).scans s.sh.db access with
      | (db, some (state, scans, row)) =>
        some ({ s.set x { s.tx x with state, scans, pc := .idle } with
          sh := { s.sh with db }
          handed := handedOut x (s.tx x).state row ++ s.handed
          accessed := accessesOf x access row ++ s.accessed }, row)
      | (db, none) => some ({ s with sh := { s.sh with db } }.finish x .aborted, none)
    | _ => none
  | .preCommit x =>
    match (s.tx x).pc with
    | .idle =>
      let writeSet := sortWriteSet (s.tx x).state.writeSet
      some (s.set x { s.tx x with
        state := { (s.tx x).state with writeSet }, pc := .committing (.locking writeSet) }, none)
    | _ => none
  | .callback x reply =>
    match (s.tx x).pc with
    | .committing phase =>
      match commitStep (s.tx x).serializable (s.tx x).rank.dontWait reply (s.tx x).state s.sh
          phase with
      | some (sh, .ok phase') =>
        some ({ s.set x { s.tx x with
            state := { (s.tx x).state with
              validated := (s.tx x).state.validated || phase'.isValidated }
            pc := .committing phase' } with
          sh
          installed := phase.puts reply ++ s.installed }, none)
      | some (sh, .error _) =>
        some ({ s with sh, installed := phase.puts reply ++ s.installed }.finish x .aborted, none)
      | none => none
    | _ => none
  | .commit x =>
    match (s.tx x).pc with
    | .committing .done => some (s.finish x .committed, none)
    | _ => none
  | .abort x => if (s.tx x).pc.ended then none else some (s.finish x .aborted, none)

/-! ### Moves -/

/-- A step of the commit callback leaves the store as it is, or installs one of the writes that
are left to put. -/
def CommitPhase.Installs (phase : CommitPhase) (reply : PutReply) (db db' : RocksDB NRAMValue) :
    Prop :=
  (phase.puts reply = [] ∧ db' = db) ∨
    ∃ opt ∈ phase.toPut, phase.isValidated = true ∧ phase.puts reply = [(opt.key, opt.value)] ∧
      db' = rocksenginePut db opt.key opt.value

theorem commitStep_installs {serializable dontWait : Bool} {reply : PutReply}
    {sh sh' : Shared} {phase : CommitPhase}
    {res : Except CommitError CommitPhase}
    (h : commitStep serializable dontWait reply state sh phase = some (sh', res)) :
    phase.Installs reply sh.db sh'.db := by
  -- every phase but `installing (opt :: todo)` leaves the store alone
  have hquiet : sh'.db = sh.db → phase.puts reply = [] → phase.Installs reply sh.db sh'.db :=
    fun hdb hputs => .inl ⟨hputs, hdb⟩
  cases phase with
  | installing todo =>
    cases todo with
    | nil =>
      cases h
      exact hquiet rfl rfl
    | cons opt todo =>
      have hdb : sh'.db = (rocksClientPut sh.db opt.key opt.value reply).1 := by
        simp only [commitStep] at h
        split at h <;>
        · next hput =>
          cases h
          rw [hput]
      rw [hdb]
      unfold rocksClientPut
      by_cases hsize : msgSize < putMsgSize opt.value
      · rw [if_pos hsize]
        exact .inl ⟨if_neg fun hp => absurd hsize (not_lt.mpr hp.1), rfl⟩
      · rw [if_neg hsize]
        by_cases hstored : reply.stored = true
        · refine .inr ⟨opt, List.mem_cons_self, rfl, if_pos ⟨not_lt.mp hsize, hstored⟩, ?_⟩
          show (if reply.stored = true then _ else _) = _
          rw [if_pos hstored]
        · refine .inl ⟨if_neg fun hp => hstored hp.2, ?_⟩
          show (if reply.stored = true then _ else _) = _
          rw [if_neg hstored]
  | _ =>
    refine hquiet ?_ rfl
    -- the other moves change the locks only
    have hmove := commitStep_move h
    cases hmove <;> rfl

/-- **What a step can do.** The moves of a transaction `x` whose record is `t`, by the
label `l`. -/
inductive Move (policy : Policy) (s : Engine) (l : EngineLabel) (x : TransactionId) (t : Xact) :
    Engine → Option (NRAMKey × NRAMValue) → Prop
  /-- A statement starts or ends. -/
  | statement {state : NRAMXactState} {rank : Priority} :
      t.pc = .idle →
      ((∃ ct, state = nramExecutorStart t.state ct) ∨ state = nramExecutorEnd t.state) →
      Move policy s l x t (s.set x { t with state, rank }) none
  | call {c : Call} {a : Fin 32} {scans : Scans} {todo : List LockRequest} {access : Access} :
      l = .call x c → t.pc = .idle → t.state.action = some a →
      enter (policy a).detectAll t.state t.scans c = some (scans, todo, access) →
      s.Admits x access →
      Move policy s l x t
        { s.set x { t with scans, pc := .acquiring todo access } with
          generated := access.generates ++ s.generated } none
  /-- The next lock is granted, or the one waited for. -/
  | lock {req : LockRequest} {todo : List LockRequest} {access : Access} {locks : Locks} :
      (t.pc = .acquiring (req :: todo) access ∨ t.pc = .blocked req todo access) →
      locks.holders = ⟨req.1, req.2, x⟩ :: s.sh.locks.holders →
      Move policy s l x t
        { s.set x { t with pc := .acquiring todo access } with sh := { s.sh with locks } } none
  /-- The next lock is refused. -/
  | refused {req : LockRequest} {todo : List LockRequest} {access : Access} {locks : Locks} :
      l = .lock x → t.pc = .acquiring (req :: todo) access →
      (s.sh.locks.acquire ⟨req.1, req.2, x⟩ t.rank.dontWait).2 = .notAvail →
      locks.holders = s.sh.locks.holders →
      Move policy s l x t
        { s.set x { t with pc := .acquiring todo access } with sh := { s.sh with locks } } none
  | block {req : LockRequest} {todo : List LockRequest} {access : Access} {locks : Locks} :
      t.pc = .acquiring (req :: todo) access → locks.holders = s.sh.locks.holders →
      Move policy s l x t
        { s.set x { t with pc := .blocked req todo access } with sh := { s.sh with locks } } none
  | perform {access : Access} {reply : PutReply} {db : RocksDB NRAMValue} {state : NRAMXactState}
      {scans : Scans} {row : Option (NRAMKey × NRAMValue)} :
      t.pc = .acquiring [] access →
      perform reply t.state t.scans s.sh.db access = (db, some (state, scans, row)) →
      Move policy s l x t
        { s.set x { t with state, scans, pc := .idle } with
          sh := { s.sh with db }
          handed := handedOut x t.state row ++ s.handed
          accessed := accessesOf x access row ++ s.accessed } row
  | performError {access : Access} {reply : PutReply} {db : RocksDB NRAMValue} :
      t.pc = .acquiring [] access →
      perform reply t.state t.scans s.sh.db access = (db, none) →
      Move policy s l x t ({ s with sh := { s.sh with db } }.finish x .aborted) none
  | preCommit :
      t.pc = .idle →
      Move policy s l x t
        (s.set x { t with
          state := { t.state with writeSet := sortWriteSet t.state.writeSet }
          pc := .committing (.locking (sortWriteSet t.state.writeSet)) }) none
  | callback {phase phase' : CommitPhase} {reply : PutReply} {sh : Shared} :
      t.pc = .committing phase →
      CommitMove t.serializable reply t.state s.sh phase sh (.ok phase') →
      phase.Installs reply s.sh.db sh.db →
      Move policy s l x t
        { s.set x { t with
            state := { t.state with validated := t.state.validated || phase'.isValidated }
            pc := .committing phase' } with
          sh
          installed := phase.puts reply ++ s.installed } none
  | callbackError {phase : CommitPhase} {reply : PutReply} {sh : Shared} {e : CommitError} :
      t.pc = .committing phase →
      CommitMove t.serializable reply t.state s.sh phase sh (.error e) →
      phase.Installs reply s.sh.db sh.db →
      Move policy s l x t
        ({ s with sh, installed := phase.puts reply ++ s.installed }.finish x .aborted) none
  | finish {pc : Pc} :
      t.pc.ended = false →
      pc = .aborted ∨ pc = .committed ∧ t.pc = .committing .done →
      Move policy s l x t (s.finish x pc) none

/-- The transaction that makes a step. -/
def EngineLabel.xact : EngineLabel → TransactionId
  | executorStart x _ | executorEnd x | call x _ | lock x | perform x _ | preCommit x
  | callback x _ | commit x | abort x => x

/-- **Every step is a move.** -/
theorem engineStep_move (h : engineStep policy s l = some (s', row)) :
    Move policy s l l.xact (s.tx l.xact) s' row := by
  cases l with simp only [engineStep] at h
  | executorStart x ct =>
    split at h
    · next hpc =>
      cases h
      exact .statement hpc (.inl ⟨ct, rfl⟩)
    · cases h
  | executorEnd x =>
    split at h
    · next hpc =>
      cases h
      exact .statement hpc (.inr rfl)
    · cases h
  | call x c =>
    split at h
    · next a hpc haction =>
      split at h
      · next scans todo access henter =>
        split at h
        · next hadm =>
          cases h
          exact .call rfl hpc haction henter hadm
        · cases h
      · cases h
    · cases h
  | lock x =>
    split at h
    · next req todo access hpc =>
      cases h
      -- a refusal is not looked at: of the four results only a wait holds the callback up
      cases hr : (s.sh.locks.acquire ⟨req.1, req.2, x⟩ (s.tx x).rank.dontWait).2 with
      | ok =>
        rw [if_neg (by simp)]
        exact .lock (.inl hpc) (LockTable.acquire_granted (.inl hr))
      | alreadyHeld =>
        rw [if_neg (by simp)]
        exact .lock (.inl hpc) (LockTable.acquire_granted (.inr hr))
      | notAvail =>
        rw [if_neg (by simp)]
        exact .refused rfl hpc hr (LockTable.acquire_refused (.inl hr))
      | wait =>
        rw [if_pos rfl]
        exact .block hpc (LockTable.acquire_refused (.inr hr))
    · next req todo access hpc =>
      obtain ⟨locks, hlocks, ⟨⟩⟩ := Option.map_eq_some_iff.mp h
      exact .lock (.inr hpc) (LockTable.wake_holders hlocks)
    · cases h
  | perform x reply =>
    split at h
    · next access hpc =>
      split at h
      · next db state scans row' hperform =>
        cases h
        exact .perform hpc hperform
      · next db hperform =>
        cases h
        exact .performError hpc hperform
    · cases h
  | preCommit x =>
    split at h
    · next hpc =>
      cases h
      exact .preCommit hpc
    · cases h
  | callback x reply =>
    split at h
    · next phase hpc =>
      split at h
      · next sh phase' hcommit =>
        cases h
        exact .callback hpc (commitStep_move hcommit) (commitStep_installs hcommit)
      · next sh e hcommit =>
        cases h
        exact .callbackError hpc (commitStep_move hcommit) (commitStep_installs hcommit)
      · cases h
    · cases h
  | commit x =>
    split at h
    · next hpc =>
      cases h
      refine .finish ?_ (.inr ⟨rfl, hpc⟩)
      show (s.tx x).pc.ended = false
      rw [hpc]
      rfl
    · cases h
  | abort x =>
    split at h
    · cases h
    · next hpc =>
      cases h
      exact .finish (Bool.eq_false_iff.mpr hpc) (.inl rfl)

theorem Move.others {y : TransactionId} {t : Xact} (h : Move policy s l x t s' row) (hyx : y ≠ x) :
    s'.tx y = s.tx y := by
  cases h <;> exact update_of_ne hyx _ _

theorem Move.running {t : Xact} (h : Move policy s l x t s' row) : t.pc.ended = false := by
  cases h with
  | finish hrunning => exact hrunning
  | lock hpc => obtain hpc | hpc := hpc <;> rw [hpc] <;> rfl
  | call _ hpc | refused _ hpc => rw [hpc]; rfl
  | statement hpc | block hpc | perform hpc | performError hpc | preCommit hpc | callback hpc
  | callbackError hpc => rw [hpc]; rfl

/-- The engine under `policy`, as a system. It starts with nothing locked, any rows in the
store, and transactions that are about to begin or ended long ago. A private row in the store
was left by an insert of a transaction that ended. -/
def engineSystem (policy : Policy) : System Engine EngineLabel :=
  .ofFun
    (fun s => s.sh.locks.holders = [] ∧ s.handed = [] ∧ s.accessed = [] ∧
      (∀ x, (s.tx x).state = newNRAMXactState x ∧ (∀ i, (s.tx x).scans i = none) ∧
        ((s.tx x).pc = .idle ∨ (s.tx x).pc = .past)) ∧
      (∀ k v, rocksengineGet s.sh.db k = some v →
        k.tid ∈ s.generated ∧ (s.tx v.xactId).pc = .past ∧
          (v.isPrivate = false → (k, v) ∈ s.installed)) ∧
      ∀ k v, (k, v) ∈ s.installed → rocksengineGet s.sh.db k = some v ∧ v.isPrivate = false)
    fun s l => (engineStep policy s l).map Prod.fst

theorem engine_guard_invariant {G : Engine → EngineLabel → Prop}
    (hrun : ((engineSystem policy).guard G).Run s₀ ls s) (h₀ : I s₀)
    (hmove : ∀ s l s' row, I s → G s l → Move policy s l l.xact (s.tx l.xact) s' row → I s') :
    I s := by
  refine hrun.invariant h₀ fun s l s' hI ⟨hstep, hG⟩ => ?_
  obtain ⟨⟨s'', row⟩, heq, rfl⟩ := Option.map_eq_some_iff.mp hstep
  exact hmove s l s'' row hI hG (engineStep_move heq)

theorem engine_invariant (hrun : (engineSystem policy).Run s₀ ls s) (h₀ : I s₀)
    (hmove : ∀ s l s' row, I s → Move policy s l l.xact (s.tx l.xact) s' row → I s') : I s :=
  engine_guard_invariant (hrun.to_guard fun _ _ => trivial) h₀
    fun s l s' row hI _ => hmove s l s' row hI

/-- A store with one row, of table `16384`, written by the transaction `3` of the past; every
other transaction is about to begin. -/
def oneRowEngine : Engine where
  sh := ⟨rocksenginePut .empty ⟨16384, 65537⟩ ⟨3, 0, []⟩, .empty⟩
  tx x := ⟨newNRAMXactState x, .finite 0, true, fun _ => none, if x = 3 then .past else .idle⟩
  generated := [65537]
  installed := [(⟨16384, 65537⟩, ⟨3, 0, []⟩)]
  handed := []
  accessed := []

theorem oneRowEngine_init (policy : Policy) : (engineSystem policy).init oneRowEngine := by
  refine ⟨rfl, rfl, rfl, fun x => ⟨rfl, fun _ => rfl, ?_⟩, fun k v hv => ?_, fun k v hv => ?_⟩
  · show (if x = 3 then Pc.past else Pc.idle) = _ ∨ (if x = 3 then Pc.past else Pc.idle) = _
    split
    · exact .inr rfl
    · exact .inl rfl
  · by_cases hk : k = ⟨16384, 65537⟩
    · subst hk
      obtain rfl : (⟨3, 0, []⟩ : NRAMValue) = v :=
        Option.some.inj ((rocksengineGet_put_self _ _ _).symm.trans hv)
      exact ⟨List.mem_cons_self, rfl, fun _ => List.mem_cons_self⟩
    · cases (rocksengineGet_put_of_ne _ _ hk).symm.trans hv
  · obtain ⟨rfl, rfl⟩ := Prod.mk.inj (List.mem_singleton.mp hv)
    exact ⟨rocksengineGet_put_self _ _ _, rfl⟩

end NeurDB.Nram
