import NeurDB.Nram.Locks

/-!
# The commit callback, step by step

`nram_xact_callback(XACT_EVENT_PRE_COMMIT)` cut at every access to shared memory, so that the
steps of several transactions can be interleaved. The callback

1. sorts the write set and takes an exclusive advisory lock on each of its keys;
2. at `SERIALIZABLE`, *peeks* at each row of the read set: it takes a share lock without
   waiting, compares the version in the store with the version read, and gives the lock back;
3. puts each buffered write into the store and gives its lock back, one write at a time.

`CommitPhase` says where the callback is, `commitStep` what it does next. A step that raises an
error ends in `Except.error`; ending the transaction is left to whoever runs the callback.
-/

namespace NeurDB.Nram

/-! ### Putting a row

`RocksClientPut` sends one message to the storage service and waits for the reply. -/

/-- The bytes `tvalue_serialize` makes: a header, and for each field a header and its data. -/
def tvalueSize (value : NRAMValue) : ℕ :=
  8 + (value.fields.map fun f => 12 + f.data.length).sum

/-- `MSG_SIZE`. -/
def msgSize : ℕ := 1024

/-- The size of the message of a put: the message header, the length of the key, the key and
the value. -/
def putMsgSize (value : NRAMValue) : ℕ := 24 + (8 + 12 + tvalueSize value)

/-- What the environment makes of a put whose message fits. -/
inductive PutReply where
  /-- The service stored the row and said so. -/
  | ok
  /-- The request channel is closed and nothing is sent. -/
  | notPushed
  /-- The message was sent, but no reply, or not the right one, came back. -/
  | unanswered (stored : Bool)
  /-- The wait was interrupted by a cancel, which raises an error. -/
  | cancelled (stored : Bool)
  deriving DecidableEq

/-- Did the service store the row? -/
def PutReply.stored : PutReply → Bool
  | ok => true
  | notPushed => false
  | unanswered s => s
  | cancelled s => s

/-- The errors raised under the callback. -/
inductive CommitError where
  | alreadyValidated (xactId : TransactionId)
  | lockNotAvail (key : NRAMKey)
  | concurrentUpdate (xactId : TransactionId)
  | invisibleKey (xactId : TransactionId)
  | versionChanged (xactId : TransactionId)
  | messageTooLarge (size : ℕ)
  | cancelled
  deriving DecidableEq

def CommitError.message : CommitError → String
  | alreadyValidated x =>
    "The transaction " ++ toString x.toNat ++ " has already been validated before."
  | lockNotAvail key =>
    "Failed to acquire advisory lock for <" ++ toString key.tableOid.toInt ++ ":" ++
      toString key.tid.toNat ++ ">"
  | concurrentUpdate _ => "Transaction aborted during read set validation."
  | invisibleKey x =>
    "The transaction " ++ toString x.toNat ++ " validation failed: invisible key"
  | versionChanged _ => "Transaction aborted during read set validation."
  | messageTooLarge size =>
    "KVChannelPushMsg: total message too large (" ++ toString size ++ " bytes)"
  | cancelled => "canceling statement due to user request"

/-- `RocksClientPut`: the store afterwards, and the Boolean returned or the error raised. -/
def rocksClientPut (db : RocksDB NRAMValue) (key : NRAMKey) (value : NRAMValue)
    (reply : PutReply) : RocksDB NRAMValue × Except CommitError Bool :=
  if msgSize < putMsgSize value then (db, .error (.messageTooLarge (putMsgSize value)))
  else
    (if reply.stored then rocksenginePut db key value else db,
      match reply with
      | .ok => .ok true
      | .notPushed => .ok false
      | .unanswered _ => .ok false
      | .cancelled _ => .error .cancelled)

/-! ### The order of the write set -/

/-- `nram_opt_cmp`. -/
def nramOptCmp (opt1 opt2 : NRAMXactOpt) : ℤ :=
  if opt1.key.tableOid ≠ opt2.key.tableOid then
    if opt1.key.tableOid < opt2.key.tableOid then -1 else 1
  else if opt1.key.tid < opt2.key.tid then -1
  else if opt2.key.tid < opt1.key.tid then 1
  else 0

/-- `list_sort(write_set, nram_opt_cmp)`. -/
def sortWriteSet (writeSet : List NRAMXactOpt) : List NRAMXactOpt :=
  writeSet.insertionSort fun a b => nramOptCmp a b ≤ 0

theorem sortWriteSet_perm (writeSet : List NRAMXactOpt) :
    (sortWriteSet writeSet).Perm writeSet := List.perm_insertionSort _ _

/-! ### The callback -/

/-- What all processes share. -/
structure Shared where
  db : RocksDB NRAMValue
  locks : Locks

/-- Where the callback is; `todo` is what the loop it is in has still to do. -/
inductive CommitPhase where
  | locking (todo : List NRAMXactOpt)
  /-- Waiting for the lock of `opt`. -/
  | waiting (opt : NRAMXactOpt) (todo : List NRAMXactOpt)
  | validating (todo : List NRAMXactOpt)
  /-- The share lock of `opt` was granted, as `r` says. -/
  | peeked (opt : NRAMXactOpt) (r : LockAcquireResult) (todo : List NRAMXactOpt)
  /-- The version of `opt` is the one read. -/
  | compared (opt : NRAMXactOpt) (r : LockAcquireResult) (todo : List NRAMXactOpt)
  | installing (todo : List NRAMXactOpt)
  /-- The put of `opt` has returned. -/
  | installed (opt : NRAMXactOpt) (todo : List NRAMXactOpt)
  /-- The callback has returned. -/
  | done
  deriving DecidableEq

/-- The advisory lock of `key` for `x`. -/
abbrev advisoryLock (key : NRAMKey) (mode : LockMode) (x : TransactionId) : NRAMLock :=
  ⟨advisoryTag key, mode, x⟩

/-- One step of the callback of the transaction `state`, whose write set is sorted: `none`
while it waits. `dontWait` says that the process does not wait for locks and `reply` what the
environment makes of a put. -/
def commitStep (serializable dontWait : Bool) (reply : PutReply) (state : NRAMXactState)
    (sh : Shared) : CommitPhase → Option (Shared × Except CommitError CommitPhase)
  | .locking [] => some (sh, .ok (.validating (if serializable then state.readSet else [])))
  | .locking (opt :: todo) =>
    -- `nram_validation_lock(opt->key, ExclusiveLock)`
    let (locks, r) := sh.locks.acquire (advisoryLock opt.key .exclusive state.xactId) dontWait
    match r with
    | .ok => some ({ sh with locks }, .ok (.locking todo))
    | .alreadyHeld => some ({ sh with locks }, .ok (.locking todo))
    | .notAvail => some ({ sh with locks }, .error (.lockNotAvail opt.key))
    | .wait => some ({ sh with locks }, .ok (.waiting opt todo))
  | .waiting opt todo =>
    (sh.locks.wake (advisoryLock opt.key .exclusive state.xactId)).map fun locks =>
      ({ sh with locks }, .ok (.locking todo))
  | .validating [] => some (sh, .ok (.installing state.writeSet))
  | .validating (opt :: todo) =>
    -- `nram_try_validation_lock(opt->key, ShareLock)`
    let (locks, r) := sh.locks.acquire (advisoryLock opt.key .share state.xactId) true
    match r with
    | .ok => some ({ sh with locks }, .ok (.peeked opt r todo))
    | .alreadyHeld => some ({ sh with locks }, .ok (.peeked opt r todo))
    | .notAvail => some ({ sh with locks }, .error (.concurrentUpdate state.xactId))
    | .wait => none
  | .peeked opt r todo =>
    match rocksengineGet sh.db opt.key with
    | none => some (sh, .error (.invisibleKey state.xactId))
    | some curVal =>
      if curVal.xactId ≠ opt.xactId then some (sh, .error (.versionChanged state.xactId))
      else some (sh, .ok (.compared opt r todo))
  | .compared opt r todo =>
    if r = .ok then
      some ({ sh with
        locks := sh.locks.release (advisoryLock opt.key .share state.xactId) },
        .ok (.validating todo))
    else some (sh, .ok (.validating todo))
  | .installing [] => some (sh, .ok .done)
  | .installing (opt :: todo) =>
    match rocksClientPut sh.db opt.key opt.value reply with
    | (db, .error e) => some ({ sh with db }, .error e)
    -- the Boolean is not looked at
    | (db, .ok _) => some ({ sh with db }, .ok (.installed opt todo))
  | .installed opt todo =>
    some ({ sh with
      locks := sh.locks.release (advisoryLock opt.key .exclusive state.xactId) },
      .ok (.installing todo))
  | .done => none

/-! ### What a step can do -/

/-- **The moves of the callback.** A move takes, gives back or waits for one lock, compares one
version, puts one row, or fails; all else stays as it is. -/
inductive CommitMove (serializable : Bool) (reply : PutReply) (state : NRAMXactState)
    (sh : Shared) :
    CommitPhase → Shared → Except CommitError CommitPhase → Prop
  | lockedAll :
      CommitMove serializable reply state sh (.locking []) sh
        (.ok (.validating (if serializable then state.readSet else [])))
  | lock {opt : NRAMXactOpt} {todo : List NRAMXactOpt} {locks : Locks} :
      locks.holders = advisoryLock opt.key .exclusive state.xactId :: sh.locks.holders →
      CommitMove serializable reply state sh (.locking (opt :: todo)) { sh with locks }
        (.ok (.locking todo))
  | block {opt : NRAMXactOpt} {todo : List NRAMXactOpt} {locks : Locks} :
      locks.holders = sh.locks.holders →
      CommitMove serializable reply state sh (.locking (opt :: todo)) { sh with locks }
        (.ok (.waiting opt todo))
  | wake {opt : NRAMXactOpt} {todo : List NRAMXactOpt} {locks : Locks} :
      locks.holders = advisoryLock opt.key .exclusive state.xactId :: sh.locks.holders →
      CommitMove serializable reply state sh (.waiting opt todo) { sh with locks }
        (.ok (.locking todo))
  | validatedAll :
      CommitMove serializable reply state sh (.validating []) sh (.ok (.installing state.writeSet))
  | peek {opt : NRAMXactOpt} {todo : List NRAMXactOpt} {locks : Locks} {r : LockAcquireResult} :
      locks.holders = advisoryLock opt.key .share state.xactId :: sh.locks.holders →
      CommitMove serializable reply state sh (.validating (opt :: todo)) { sh with locks }
        (.ok (.peeked opt r todo))
  | compare {opt : NRAMXactOpt} {todo : List NRAMXactOpt} {r : LockAcquireResult}
      {curVal : NRAMValue} :
      rocksengineGet sh.db opt.key = some curVal → curVal.xactId = opt.xactId →
      CommitMove serializable reply state sh (.peeked opt r todo) sh (.ok (.compared opt r todo))
  | unpeek {opt : NRAMXactOpt} {todo : List NRAMXactOpt} {r : LockAcquireResult} {locks : Locks} :
      (locks.holders = sh.locks.holders.erase (advisoryLock opt.key .share state.xactId) ∨
        locks.holders = sh.locks.holders) →
      CommitMove serializable reply state sh (.compared opt r todo) { sh with locks }
        (.ok (.validating todo))
  | installedAll : CommitMove serializable reply state sh (.installing []) sh (.ok .done)
  | put {opt : NRAMXactOpt} {todo : List NRAMXactOpt} :
      putMsgSize opt.value ≤ msgSize →
      CommitMove serializable reply state sh (.installing (opt :: todo))
        { sh with db := if reply.stored then rocksenginePut sh.db opt.key opt.value else sh.db }
        (.ok (.installed opt todo))
  | release {opt : NRAMXactOpt} {todo : List NRAMXactOpt} {locks : Locks} :
      locks.holders = sh.locks.holders.erase (advisoryLock opt.key .exclusive state.xactId) →
      CommitMove serializable reply state sh (.installed opt todo) { sh with locks }
        (.ok (.installing todo))
  | fail {phase : CommitPhase} {locks : Locks} {e : CommitError} :
      locks.holders = sh.locks.holders →
      CommitMove serializable reply state sh phase { sh with locks } (.error e)
  /-- The wait for the reply to a put was cancelled, and the service stored the row. -/
  | failStored {opt : NRAMXactOpt} {todo : List NRAMXactOpt} :
      reply = .cancelled true → putMsgSize opt.value ≤ msgSize →
      CommitMove serializable reply state sh (.installing (opt :: todo))
        { sh with db := rocksenginePut sh.db opt.key opt.value } (.error .cancelled)

/-- **Every step is a move.** -/
theorem commitStep_move {serializable dontWait : Bool} {reply : PutReply} {state : NRAMXactState}
    {sh sh' : Shared} {phase : CommitPhase} {res : Except CommitError CommitPhase}
    (h : commitStep serializable dontWait reply state sh phase = some (sh', res)) :
    CommitMove serializable reply state sh phase sh' res := by
  cases phase with
  | locking todo =>
    cases todo with
    | nil =>
      cases h
      exact .lockedAll
    | cons opt todo =>
      simp only [commitStep] at h
      split at h
      · next hr =>
        cases h
        exact .lock (LockTable.acquire_granted (.inl hr))
      · next hr =>
        cases h
        exact .lock (LockTable.acquire_granted (.inr hr))
      · next hr =>
        cases h
        exact .fail (LockTable.acquire_refused (.inl hr))
      · next hr =>
        cases h
        exact .block (LockTable.acquire_refused (.inr hr))
  | waiting opt todo =>
    obtain ⟨locks, hlocks, ⟨⟩⟩ := Option.map_eq_some_iff.mp h
    exact .wake (LockTable.wake_holders hlocks)
  | validating todo =>
    cases todo with
    | nil =>
      cases h
      exact .validatedAll
    | cons opt todo =>
      simp only [commitStep] at h
      split at h
      · next hr =>
        cases h
        exact .peek (LockTable.acquire_granted (.inl hr))
      · next hr =>
        cases h
        exact .peek (LockTable.acquire_granted (.inr hr))
      · next hr =>
        cases h
        exact .fail (LockTable.acquire_refused (.inl hr))
      · cases h
  | peeked opt r todo =>
    simp only [commitStep] at h
    split at h
    · cases h
      exact .fail rfl
    · next curVal hget =>
      split at h
      · cases h
        exact .fail rfl
      · next hid =>
        cases h
        exact .compare hget (not_not.mp hid)
  | compared opt r todo =>
    simp only [commitStep] at h
    split at h
    · cases h
      exact .unpeek (.inl rfl)
    · cases h
      exact .unpeek (.inr rfl)
  | installing todo =>
    cases todo with
    | nil =>
      cases h
      exact .installedAll
    | cons opt todo =>
      simp only [commitStep, rocksClientPut] at h
      by_cases hsize : msgSize < putMsgSize opt.value
      · rw [if_pos hsize] at h
        cases h
        exact .fail rfl
      · rw [if_neg hsize] at h
        rw [not_lt] at hsize
        -- three replies end in a Boolean that nobody looks at
        cases reply with
        | ok | notPushed | unanswered stored =>
          cases h
          exact .put hsize
        | cancelled stored =>
          cases h
          cases stored with
          | false => exact .fail rfl
          | true => exact .failStored rfl hsize
  | installed opt todo =>
    cases h
    exact .release rfl
  | done => cases h

end NeurDB.Nram
