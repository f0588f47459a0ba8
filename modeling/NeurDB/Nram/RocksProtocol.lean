import NeurDB.Framework.RequestReply
import NeurDB.Nram.PreCommit

/-!
# The protocol between the backends and the storage service

`nram_storage/rocks_handler.c` on the side of a backend, `nram_storage/rocks_service.c` on the
side of the service, and the channels of `ipc/msg.c` between them. A backend pushes its request
to the channel of the service and pops the next message of its own channel `kv_resp_<pid>`. The
service, one thread or a pool, processes the requests it popped in any order, and its main loop
pushes the results to the channels of the backends.

Backends are named by their process id. The channel serves one backend, and messages carry the
operation and a status but no request number. What a backend checks of the message it pops is
that its operation is the one it asked for (`received`).

The wait in `KVChannelPopMsg` sleeps on a condition variable and can be cancelled. Nothing
then withdraws the request or drains the channel. The next call of the backend pops the reply
of the cancelled one, and every later call is one reply behind (`stale_reply_returned`).

Backends that push only when nothing is left of their earlier calls get their own answers
(`prompt_calls_answered`).
-/

namespace NeurDB.Nram

open RequestReply (Service State Label Completion)

/-! ### Messages -/

inductive KVRequest where
  | kvGet (key : NRAMKey)
  | kvPut (key : NRAMKey) (value : NRAMValue)
  | kvRange (startKey endKey : NRAMKey)
  deriving DecidableEq

/-- A reply of the service. The status is always `kv_status_ok`. -/
inductive KVReply where
  | kvGet (value : NRAMValue)
  | kvPut
  | kvRange (results : List (NRAMKey × NRAMValue))
  deriving DecidableEq

/-- What a call of the client returns. -/
inductive KVResult where
  /-- `RocksClientGet`: a value, or NULL. -/
  | get (value : Option NRAMValue)
  /-- `RocksClientPut`. -/
  | put (success : Bool)
  /-- `RocksClientRangeScan`: true and the rows found, or false. -/
  | range (results : Option (List (NRAMKey × NRAMValue)))
  deriving DecidableEq

/-- The size of the message `handle_kv_range_scan` makes. -/
def rangeMsgSize (results : List (NRAMKey × NRAMValue)) : ℕ :=
  24 + (4 + (results.map fun r => 8 + 12 + 8 + tvalueSize r.2).sum)

/-! ### The service -/

/-- `handle_kv_get`. Of a key that is not stored `rocksengine_get` gets no bytes, and
deserializes them all the same: the service dies reading through the null pointer. -/
def handleKvGet (db : RocksDB NRAMValue) (key : NRAMKey) :
    Option (RocksDB NRAMValue × KVReply) :=
  (rocksengineGet db key).map fun value => (db, .kvGet value)

/-- `handle_kv_put`. -/
def handleKvPut (db : RocksDB NRAMValue) (key : NRAMKey) (value : NRAMValue) :
    Option (RocksDB NRAMValue × KVReply) :=
  some (rocksenginePut db key value, .kvPut)

/-- `handle_kv_range_scan`, and the push of its result: a message that is too large raises an
error in the main loop, which ends the service. -/
def handleKvRangeScan (db : RocksDB NRAMValue) (startKey endKey : NRAMKey) :
    Option (RocksDB NRAMValue × KVReply) :=
  match rocksengineRangeScan db startKey endKey with
  | .ok results => if msgSize < rangeMsgSize results then none else some (db, .kvRange results)
  | .error _ => none

/-- `process_request`. -/
def processRequest (db : RocksDB NRAMValue) :
    KVRequest → Option (RocksDB NRAMValue × KVReply)
  | .kvGet key => handleKvGet db key
  | .kvPut key value => handleKvPut db key value
  | .kvRange startKey endKey => handleKvRangeScan db startKey endKey

/-! ### The client -/

/-- What the client makes of the message it pops. `RocksClientGet` raises "[NRAM] Rocks GET
failed" where the operation is not its own, the other two return false. -/
def received : KVRequest → KVReply → Option KVResult
  | .kvGet _, .kvGet value => some (.get (some value))
  | .kvGet _, _ => none
  | .kvPut _ _, .kvPut => some (.put true)
  | .kvPut _ _, _ => some (.put false)
  | .kvRange _ _, .kvRange results => some (.range (some results))
  | .kvRange _ _, _ => some (.range none)

/-- What the client returns when `KVChannelPushMsg` fails. -/
def pushFailed : KVRequest → KVResult
  | .kvGet _ => .get none
  | .kvPut _ _ => .put false
  | .kvRange _ _ => .range none

/-- `KVChannelPushMsg` raises no error: the message is not too large. The messages of the other
two operations have a fixed size. -/
def KVRequest.pushable : KVRequest → Bool
  | kvPut _ value => putMsgSize value ≤ msgSize
  | _ => true

def rocksService : Service (RocksDB NRAMValue) KVRequest KVReply KVResult where
  serve := processRequest
  receive := received
  unsent := pushFailed
  sendable := KVRequest.pushable

/-- Backends are named by their process id. -/
abbrev RocksState : Type := State (BitVec 32) (RocksDB NRAMValue) KVRequest KVReply KVResult

abbrev RocksLabel : Type := Label (BitVec 32) KVRequest

/-- The backends and the service, with every request a backend may make. -/
def rocksSystem : System RocksState RocksLabel := RequestReply.system rocksService

/-! ### Answers -/

/-- **The call got the answer to its own request.** A get returns the value its key had in a
store the call saw; a put that returns true was processed and took the store from one the call
saw to another; and a range scan that returns true returns what the scan of such a store
gives. -/
def AnswersRequest (d : Completion (RocksDB NRAMValue) KVRequest KVResult) : Prop :=
  match d.call.request with
  | .kvGet key => ∃ value, d.result = .get (some value) ∧
      ∃ db ∈ d.call.seen, rocksengineGet db key = some value
  | .kvPut key value => d.result = .put true → d.call.served = true ∧
      ∃ db ∈ d.call.seen, rocksenginePut db key value ∈ d.call.seen
  | .kvRange startKey endKey => ∀ results, d.result = .range (some results) →
      ∃ db ∈ d.call.seen, rocksengineRangeScan db startKey endKey = .ok results

theorem handleKvRangeScan_eq_some {db db' : RocksDB NRAMValue} {startKey endKey : NRAMKey}
    {reply : KVReply} (h : handleKvRangeScan db startKey endKey = some (db', reply)) :
    ∃ results, rocksengineRangeScan db startKey endKey = .ok results ∧
      reply = .kvRange results := by
  unfold handleKvRangeScan at h
  split at h
  · next results hscan =>
    split at h
    · cases h
    · cases h
      exact ⟨results, hscan, rfl⟩
  · cases h

theorem answersRequest_of_answered {d : Completion (RocksDB NRAMValue) KVRequest KVResult}
    (h : d.Answered rocksService) : AnswersRequest d := by
  obtain ⟨hserved, db, hdb, db', hdb', reply, hserve, hreceive⟩ := h
  obtain ⟨⟨id, request, seen, replied, served⟩, result⟩ := d
  cases request with
  | kvGet key =>
    obtain ⟨value, hvalue, hpair⟩ := Option.map_eq_some_iff.mp hserve
    obtain ⟨-, rfl⟩ := Prod.mk.inj hpair
    obtain rfl : KVResult.get (some value) = result := Option.some.inj hreceive
    exact ⟨value, rfl, db, hdb, hvalue⟩
  | kvPut key value =>
    intro _
    cases hserve
    exact ⟨hserved, db, hdb, hdb'⟩
  | kvRange startKey endKey =>
    intro results hresult
    obtain ⟨found, hscan, rfl⟩ := handleKvRangeScan_eq_some hserve
    obtain rfl : KVResult.range (some found) = result := Option.some.inj hreceive
    obtain rfl : found = results := by simpa using hresult
    exact ⟨db, hdb, hscan⟩

/-- **Prompt backends get their answers.** In every run in which each backend pushes only into
an open channel and only when no request, result or reply of its earlier calls is left, every
call that returns has got the answer to its own request. -/
theorem prompt_calls_answered {s₀ s : RocksState} {ls : List RocksLabel}
    (h₀ : rocksSystem.init s₀)
    (hrun : (rocksSystem.guard fun s l => RequestReply.prompt s l = true).Run s₀ ls s) :
    ∀ d ∈ s.completed, AnswersRequest d := by
  intro d hd
  exact answersRequest_of_answered (RequestReply.answered_of_prompt h₀ hrun d hd)

/-- Two rows are stored, and nobody has called yet. -/
def twoRowService : RocksState where
  store := rocksenginePut (rocksenginePut .empty ⟨16384, 1⟩ ⟨3, 0, []⟩) ⟨16384, 2⟩ ⟨4, 0, []⟩
  running := true
  accepting := true
  requests := []
  replies := []
  channel := fun _ => []
  waiting := fun _ => none
  nextId := 0
  completed := []

theorem twoRowService_init : rocksSystem.init twoRowService :=
  ⟨rfl, rfl, fun _ => rfl, fun _ => rfl, rfl⟩

/-- A get and a put of the same row: the put is served first and answered last. -/
def getAndPut : List RocksLabel :=
  [.send 100 (.kvGet ⟨16384, 1⟩), .send 200 (.kvPut ⟨16384, 1⟩ ⟨9, 0, []⟩), .serve 1, .serve 0,
    .reply 0, .reply 1, .receive 200, .receive 100]

/-- The get returns the value that was put, and both calls are answered. -/
theorem get_and_put_answered :
    ∃ s, (rocksSystem.guard fun s l => RequestReply.prompt s l = true).Run twoRowService
        getAndPut s ∧
      s.completed.map (fun d => (d.call.request, d.result)) =
        [(.kvGet ⟨16384, 1⟩, .get (some ⟨9, 0, []⟩)),
          (.kvPut ⟨16384, 1⟩ ⟨9, 0, []⟩, .put true)] ∧
      ∀ d ∈ s.completed, AnswersRequest d :=
  System.exists_guard_run_of_exec
    (P := fun s => s.completed.map (fun d => (d.call.request, d.result)) =
      [(.kvGet ⟨16384, 1⟩, .get (some ⟨9, 0, []⟩)), (.kvPut ⟨16384, 1⟩ ⟨9, 0, []⟩, .put true)])
    (by decide +kernel) fun _ hrun hs => ⟨hs, prompt_calls_answered twoRowService_init hrun⟩

/-- A get whose wait is cancelled, and another get of the same backend. -/
def cancelAndGet : List RocksLabel :=
  [.send 100 (.kvGet ⟨16384, 1⟩), .abandon 100, .serve 0, .reply 0,
    .send 100 (.kvGet ⟨16384, 2⟩), .receive 100]

/-- **A stale reply.** A backend asks for row 1 and its wait is cancelled. The service answers,
and the backend then asks for row 2: it gets the value of row 1 back, a value row 2 has in no
store the call saw, and its request has not even been served. -/
theorem stale_reply_returned :
    ∃ s, rocksSystem.Run twoRowService cancelAndGet s ∧
      ∃ d ∈ s.completed, d.call.request = .kvGet ⟨16384, 2⟩ ∧
        d.result = .get (some ⟨3, 0, []⟩) ∧ d.call.served = false ∧
        (∀ db ∈ d.call.seen, rocksengineGet db ⟨16384, 2⟩ = some ⟨4, 0, []⟩) ∧
        ¬ AnswersRequest d := by
  refine System.exists_run_of_exec (P := fun s => ∃ d ∈ s.completed,
    d.call.request = .kvGet ⟨16384, 2⟩ ∧ d.result = .get (some ⟨3, 0, []⟩) ∧
    d.call.served = false ∧ ∀ db ∈ d.call.seen, rocksengineGet db ⟨16384, 2⟩ = some ⟨4, 0, []⟩)
    (by decide +kernel) ?_
  rintro s - ⟨d, hd, hrequest, hresult, hserved, hseen⟩
  refine ⟨d, hd, hrequest, hresult, hserved, hseen, fun hanswers => ?_⟩
  unfold AnswersRequest at hanswers
  rw [hrequest] at hanswers
  obtain ⟨value, hvalue, db, hdb, hget⟩ := hanswers
  -- the value returned is row 1's, and the store had another one for row 2
  have hreturned : (⟨3, 0, []⟩ : NRAMValue) = value := by
    simpa using hresult.symm.trans hvalue
  have hheld : (⟨4, 0, []⟩ : NRAMValue) = value :=
    Option.some.inj ((hseen db hdb).symm.trans hget)
  cases hreturned.trans hheld.symm

end NeurDB.Nram
