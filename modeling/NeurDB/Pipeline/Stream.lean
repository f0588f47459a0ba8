import NeurDB.Framework.System

/-!
# Streaming a table to the AI engine

`nr_train` and `nr_inference` (`nr_pipeline/src/interface.c`) stream a table to the AI engine batch
by batch. Five threads of control take part.

* The **client** fetches batches from a cursor and puts them into a bounded queue; at the end
  it waits until the task is completed.
* The **websocket thread** of the client handles one message at a time. For `request_data` it
  takes a batch from the queue, *waiting* until there is one, and sends it.
* The **handler** of the AI engine (`handle_ws`) adds a batch it receives to the data cache,
  counts it, and sets `full_event`.
* The **dispatcher** thread (`LibSvmDataDispatcher.background_task`) requests the first batch,
  and then one more each time it finds `full_event` set, which it clears *after* the request. It
  returns when the number of batches it sees is one less than the total.
* The **model** coroutine takes batches from the cache: as many as the train, the evaluate and
  the test loop ask for (`ARMNetModelBuilder.train`), or `inf_batch_num` (`inference`).

The messages between the two programs arrive in order; the way of a message through the event
loop, the queue of the sender and the connection is one step here.

**Conservation** (`stream_eq`): along every run, what the model has seen, what is on its way and
what the client is going to send are together the batches of the table, in order.
-/

namespace NeurDB.Pipeline

open Option (ite_none_right_eq_some some)

variable {α : Type} {batchSize : ℕ}

/-! ### The task -/

/-- `n_batches_train`, `n_batches_eval` and `n_batches_test`
(`_get_n_batches_train_eval_test`). For a 32-bit number the product with the double next to 0.8 or
to 0.1 is rounded to the exact value where this is a whole number, so that `ceil` gives what it
gives for the exact value. -/
def nBatchesTrain (nBatches : ℕ) : ℤ := ((4 * nBatches + 4) / 5 : ℕ)

def nBatchesEval (nBatches : ℕ) : ℤ := ((nBatches + 9) / 10 : ℕ)

def nBatchesTest (nBatches : ℕ) : ℤ := nBatches - nBatchesTrain nBatches - nBatchesEval nBatches

/-- The loops of the model. -/
inductive Phase where
  | train | eval | test
  | inference
  deriving DecidableEq

/-- What the AI engine runs, with the numbers of batches the client has sent. -/
inductive ServerTask where
  /-- `train`; the number of epochs is that of the configuration of the AI engine
  (`self._args.epoch`). -/
  | train (argsEpoch : ℕ) (trainBatchNum evaBatchNum testBatchNum : ℤ)
  | inference (infBatchNum : ℤ)

/-- The model coroutine: before the batch with index `batchIdx + 1` of a loop, or at its end. -/
inductive Model where
  /-- Before the task has come. -/
  | none
  | reading (epoch : ℕ) (phase : Phase) (batchIdx : ℤ)
  | finished
  /-- The result has been sent. -/
  | returned
  deriving DecidableEq

namespace ServerTask

/-- `total_batch_num` of the data cache. -/
def totalBatchNum : ServerTask → ℤ
  | train _ nTrain nEval nTest => nTrain + nEval + nTest
  | inference n => n

/-- `batch_num` of a loop. -/
def batchNum : ServerTask → Phase → ℤ
  | train _ nTrain _ _, .train => nTrain
  | train _ _ nEval _, .eval => nEval
  | train _ _ _ nTest, .test => nTest
  | train _ _ _ _, .inference => 0
  | inference n, _ => n

/-- What comes after a loop. -/
def afterLoop : ServerTask → ℕ → Phase → Model
  | train _ _ _ _, epoch, .train => .reading epoch .eval (-1)
  | train _ _ _ _, epoch, .eval => .reading epoch .test (-1)
  | train argsEpoch _ _ _, epoch, .test =>
    if epoch + 1 < argsEpoch then .reading (epoch + 1) .train (-1) else .finished
  | _, _, _ => .finished

def start : ServerTask → Model
  | train argsEpoch _ _ _ => if 0 < argsEpoch then .reading 0 .train (-1) else .finished
  | inference _ => .reading 0 .inference (-1)

/-- One round of a loop: `batch_idx += 1`, and the loop ends if `batch_idx + 1 == batch_num`. -/
def next (task : ServerTask) (epoch : ℕ) (phase : Phase) (batchIdx : ℤ) : Model :=
  if batchIdx + 1 + 1 = task.batchNum phase then task.afterLoop epoch phase
  else .reading epoch phase (batchIdx + 1)

end ServerTask

/-- A call of `nr_train` or of `nr_inference`. -/
structure Task (α : Type) where
  /-- The rows in the order of the cursor. -/
  rows : List α
  batchSize : ℕ
  nBatches : ℕ
  /-- `epoch`; `nr_inference` reads the table once. -/
  epoch : ℕ
  server : ServerTask

def nrTrain (argsEpoch : ℕ) (rows : List α) (batchSize nBatches epoch : ℕ) : Task α where
  rows
  batchSize
  nBatches
  epoch
  server := .train argsEpoch (nBatchesTrain nBatches) (nBatchesEval nBatches)
    (nBatchesTest nBatches)

def nrInference (rows : List α) (batchSize nBatches : ℕ) : Task α where
  rows
  batchSize
  nBatches
  epoch := 1
  server := .inference nBatches

/-! ### The state -/

inductive ClientPc (α : Type) where
  /-- In `nws_send_task`, until the task is acknowledged. -/
  | awaitAck
  | fetch
  /-- In `enqueue`, with a batch. -/
  | enqueue (batch : List α)
  /-- In `nws_wait_completion`. -/
  | waitCompletion
  /-- A null pointer was dereferenced. -/
  | crashed
  | returned

structure Client (α : Type) where
  pc : ClientPc α
  /-- The rows behind the cursor. -/
  rest : List α
  currentBatch : ℕ
  currentEpoch : ℕ

/-- The message in the callback of the websocket thread. -/
inductive WsThread where
  | idle
  /-- In `dequeue`. -/
  | dequeue
  deriving DecidableEq

inductive Handler (α : Type) where
  | idle
  /-- In `await self.queue.put`. -/
  | put (batch : List α)
  /-- Before `self.current_batch_num += 1`. -/
  | count
  /-- Before `self.full_event.set()`. -/
  | set

inductive Dispatcher where
  | none
  /-- Before the first request. -/
  | starting
  /-- Before `self.data_cache.time_to_stop()`. -/
  | check
  /-- In `self.full_event.wait`. -/
  | waiting
  /-- Before a request. -/
  | emitting
  /-- Before `self.full_event.clear()`. -/
  | clearing
  | returned
  deriving DecidableEq

inductive ServerMsg (α : Type) where
  | ackTask
  | requestData
  /-- The result, for the batches the model has seen. -/
  | result (seen : List (List α))

inductive ClientMsg (α : Type) where
  | task
  | batchData (batch : List α)

structure State (α : Type) where
  client : Client α
  taskAcknowledged : Bool
  /-- Set by `handle_result`. -/
  result : Option (List (List α))
  queue : List (List α)
  wsThread : WsThread
  toClient : List (ServerMsg α)
  toServer : List (ClientMsg α)
  handler : Handler α
  cache : List (List α)
  currentBatchNum : ℕ
  fullEvent : Bool
  dispatcher : Dispatcher
  model : Model
  /-- The batches the model has got. -/
  seen : List (List α)

/-- `queue_max_size` in `_connect_to_ai_engine`. -/
def queueMaxSize : ℕ := 10

/-- `cacheSize` in the task. -/
def cacheSize : ℕ := 80

/-! ### The steps -/

/-- One round of the loop of `nr_train` and `nr_inference`, up to the batch. After the last batch of
an epoch the cursor is moved back, and the loop goes on with `SPI_tuptable` as `MOVE` has left it: a
command that returns no rows sets it to `NULL`. -/
def fetchStep (task : Task α) (c : Client α) : Client α :=
  let batch := c.rest.take task.batchSize
  let rest := c.rest.drop task.batchSize
  let currentBatch := c.currentBatch + 1
  if batch = [] ∨ task.nBatches < currentBatch then
    { pc := if task.epoch ≤ c.currentEpoch + 1 then .waitCompletion else .crashed
      rest
      currentBatch := 1
      currentEpoch := c.currentEpoch + 1 }
  else { c with pc := .enqueue batch, rest, currentBatch }

def clientStep (task : Task α) (s : State α) : Option (State α) :=
  match s.client.pc with
  | .awaitAck =>
    if s.taskAcknowledged then some { s with client := { s.client with pc := .fetch } } else none
  | .fetch => some { s with client := fetchStep task s.client }
  | .enqueue batch =>
    if s.queue.length < queueMaxSize then
      some { s with client := { s.client with pc := .fetch }, queue := s.queue ++ [batch] }
    else none
  | .waitCompletion =>
    if s.result.isSome then some { s with client := { s.client with pc := .returned } } else none
  | .crashed | .returned => none

/-- The threads of a process that has crashed are gone. -/
def Client.alive (c : Client α) : Bool :=
  match c.pc with
  | .crashed => false
  | _ => true

def wsStep (s : State α) : Option (State α) :=
  if s.client.alive then
    match s.wsThread with
    | .idle =>
      match s.toClient with
      | .ackTask :: rest => some { s with taskAcknowledged := true, toClient := rest }
      | .requestData :: rest => some { s with wsThread := .dequeue, toClient := rest }
      | .result seen :: rest => some { s with result := some seen, toClient := rest }
      | [] => none
    | .dequeue =>
      match s.queue with
      | batch :: queue =>
        some { s with wsThread := .idle, queue, toServer := s.toServer ++ [.batchData batch] }
      | [] => none
  else none

def handlerStep (task : Task α) (s : State α) : Option (State α) :=
  match s.handler with
  | .idle =>
    match s.toServer with
    | .task :: rest =>
      some { s with
        toServer := rest
        dispatcher := .starting
        toClient := s.toClient ++ [.ackTask]
        model := task.server.start }
    | .batchData batch :: rest => some { s with toServer := rest, handler := .put batch }
    | [] => none
  | .put batch =>
    if s.cache.length < cacheSize then
      some { s with handler := .count, cache := s.cache ++ [batch] }
    else none
  | .count => some { s with handler := .set, currentBatchNum := s.currentBatchNum + 1 }
  | .set => some { s with handler := .idle, fullEvent := true }

def dispatcherStep (task : Task α) (s : State α) : Option (State α) :=
  match s.dispatcher with
  | .none | .returned => none
  | .starting => some { s with dispatcher := .check, toClient := s.toClient ++ [.requestData] }
  | .check =>
    -- `time_to_stop`
    if task.server.totalBatchNum - 1 ≤ s.currentBatchNum then
      some { s with dispatcher := .returned }
    else some { s with dispatcher := .waiting }
  | .waiting => if s.fullEvent then some { s with dispatcher := .emitting } else none
  | .emitting => some { s with dispatcher := .clearing, toClient := s.toClient ++ [.requestData] }
  | .clearing => some { s with dispatcher := .check, fullEvent := false }

def modelStep (task : Task α) (s : State α) : Option (State α) :=
  match s.model with
  | .none | .returned => none
  | .reading epoch phase batchIdx =>
    match s.cache with
    | batch :: cache =>
      some { s with
        cache
        seen := s.seen ++ [batch]
        model := task.server.next epoch phase batchIdx }
    | [] => none
  | .finished => some { s with model := .returned, toClient := s.toClient ++ [.result s.seen] }

inductive Label where
  | client | ws | handler | dispatcher | model
  /-- `self.full_event.wait` returns after ten minutes. -/
  | timeout
  deriving DecidableEq

/-- One step of the system; `none` where the thread of the label waits. -/
def step (task : Task α) (s : State α) : Label → Option (State α)
  | .client => clientStep task s
  | .ws => wsStep s
  | .handler => handlerStep task s
  | .dispatcher => dispatcherStep task s
  | .model => modelStep task s
  | .timeout =>
    -- the dispatcher stops itself
    if s.dispatcher = .waiting ∧ ¬ s.fullEvent then some { s with dispatcher := .returned }
    else none

/-- The client has set up the session and sends the task. -/
def init (task : Task α) : State α where
  client := ⟨.awaitAck, task.rows, 0, 0⟩
  taskAcknowledged := false
  result := none
  queue := []
  wsThread := .idle
  toClient := []
  toServer := [.task]
  handler := .idle
  cache := []
  currentBatchNum := 0
  fullEvent := false
  dispatcher := .none
  model := .none
  seen := []

def system (task : Task α) : System (State α) Label := .ofFun (· = init task) (step task)

/-- What a step can do. -/
inductive Move (task : Task α) (s : State α) : Label → State α → Prop
  | ack (hpc : s.client.pc = .awaitAck) (hack : s.taskAcknowledged = true) :
    Move task s .client { s with client := { s.client with pc := .fetch } }
  | fetch (hpc : s.client.pc = .fetch) :
    Move task s .client { s with client := fetchStep task s.client }
  | enqueue (batch : List α) (hpc : s.client.pc = .enqueue batch)
      (hroom : s.queue.length < queueMaxSize) :
    Move task s .client
      { s with client := { s.client with pc := .fetch }, queue := s.queue ++ [batch] }
  | complete (hpc : s.client.pc = .waitCompletion) (hresult : s.result.isSome = true) :
    Move task s .client { s with client := { s.client with pc := .returned } }
  | wsAck (rest : List (ServerMsg α)) (hws : s.wsThread = .idle)
      (hmsg : s.toClient = .ackTask :: rest) :
    Move task s .ws { s with taskAcknowledged := true, toClient := rest }
  | wsRequest (rest : List (ServerMsg α)) (hws : s.wsThread = .idle)
      (hmsg : s.toClient = .requestData :: rest) :
    Move task s .ws { s with wsThread := .dequeue, toClient := rest }
  | wsResult (seen : List (List α)) (rest : List (ServerMsg α)) (hws : s.wsThread = .idle)
      (hmsg : s.toClient = .result seen :: rest) :
    Move task s .ws { s with result := some seen, toClient := rest }
  | wsDequeue (batch : List α) (queue : List (List α)) (hws : s.wsThread = .dequeue)
      (hqueue : s.queue = batch :: queue) :
    Move task s .ws
      { s with wsThread := .idle, queue, toServer := s.toServer ++ [.batchData batch] }
  | handleTask (rest : List (ClientMsg α)) (hh : s.handler = .idle)
      (hmsg : s.toServer = .task :: rest) :
    Move task s .handler
      { s with
        toServer := rest
        dispatcher := .starting
        toClient := s.toClient ++ [.ackTask]
        model := task.server.start }
  | handleBatch (batch : List α) (rest : List (ClientMsg α)) (hh : s.handler = .idle)
      (hmsg : s.toServer = .batchData batch :: rest) :
    Move task s .handler { s with toServer := rest, handler := .put batch }
  | put (batch : List α) (hh : s.handler = .put batch) (hroom : s.cache.length < cacheSize) :
    Move task s .handler { s with handler := .count, cache := s.cache ++ [batch] }
  | count (hh : s.handler = .count) :
    Move task s .handler { s with handler := .set, currentBatchNum := s.currentBatchNum + 1 }
  | set (hh : s.handler = .set) :
    Move task s .handler { s with handler := .idle, fullEvent := true }
  | start (hd : s.dispatcher = .starting) :
    Move task s .dispatcher
      { s with dispatcher := .check, toClient := s.toClient ++ [.requestData] }
  | stop (hd : s.dispatcher = .check)
      (htime : task.server.totalBatchNum - 1 ≤ s.currentBatchNum) :
    Move task s .dispatcher { s with dispatcher := .returned }
  | wait (hd : s.dispatcher = .check)
      (htime : ¬ task.server.totalBatchNum - 1 ≤ s.currentBatchNum) :
    Move task s .dispatcher { s with dispatcher := .waiting }
  | wake (hd : s.dispatcher = .waiting) (hevent : s.fullEvent = true) :
    Move task s .dispatcher { s with dispatcher := .emitting }
  | emit (hd : s.dispatcher = .emitting) :
    Move task s .dispatcher
      { s with dispatcher := .clearing, toClient := s.toClient ++ [.requestData] }
  | clear (hd : s.dispatcher = .clearing) :
    Move task s .dispatcher { s with dispatcher := .check, fullEvent := false }
  | read (epoch : ℕ) (phase : Phase) (batchIdx : ℤ) (batch : List α) (cache : List (List α))
      (hm : s.model = .reading epoch phase batchIdx) (hcache : s.cache = batch :: cache) :
    Move task s .model
      { s with
        cache
        seen := s.seen ++ [batch]
        model := task.server.next epoch phase batchIdx }
  | finish (hm : s.model = .finished) :
    Move task s .model { s with model := .returned, toClient := s.toClient ++ [.result s.seen] }
  | timeout (hd : s.dispatcher = .waiting) (hevent : s.fullEvent ≠ true) :
    Move task s .timeout { s with dispatcher := .returned }

namespace Move

variable {task : Task α} {s s' : State α}

theorem of_clientStep (h : clientStep task s = some s') : Move task s .client s' := by
  unfold clientStep at h
  cases hpc : s.client.pc with
  | awaitAck =>
    simp only [hpc, ite_none_right_eq_some, some.injEq] at h
    obtain ⟨hack, rfl⟩ := h
    exact .ack hpc hack
  | fetch =>
    simp only [hpc, some.injEq] at h
    subst h
    exact .fetch hpc
  | enqueue batch =>
    simp only [hpc, ite_none_right_eq_some, some.injEq] at h
    obtain ⟨hroom, rfl⟩ := h
    exact .enqueue batch hpc hroom
  | waitCompletion =>
    simp only [hpc, ite_none_right_eq_some, some.injEq] at h
    obtain ⟨hresult, rfl⟩ := h
    exact .complete hpc hresult
  | crashed | returned =>
    simp only [hpc] at h
    cases h

theorem of_wsStep (h : wsStep s = some s') : Move task s .ws s' := by
  unfold wsStep at h
  rw [ite_none_right_eq_some] at h
  replace h := h.2
  split at h
  · next hws =>
    split at h
    · next rest hmsg => cases h; exact .wsAck rest hws hmsg
    · next rest hmsg => cases h; exact .wsRequest rest hws hmsg
    · next seen rest hmsg => cases h; exact .wsResult seen rest hws hmsg
    · cases h
  · next hws =>
    split at h
    · next batch queue hqueue => cases h; exact .wsDequeue batch queue hws hqueue
    · cases h

theorem of_handlerStep (h : handlerStep task s = some s') : Move task s .handler s' := by
  unfold handlerStep at h
  split at h
  · next hh =>
    split at h
    · next rest hmsg => cases h; exact .handleTask rest hh hmsg
    · next batch rest hmsg => cases h; exact .handleBatch batch rest hh hmsg
    · cases h
  · next batch hh =>
    rw [ite_none_right_eq_some] at h
    cases h.2
    exact .put batch hh h.1
  · next hh => cases h; exact .count hh
  · next hh => cases h; exact .set hh

theorem of_dispatcherStep (h : dispatcherStep task s = some s') : Move task s .dispatcher s' := by
  unfold dispatcherStep at h
  cases hd : s.dispatcher with
  | none | returned =>
    simp only [hd] at h
    cases h
  | starting =>
    simp only [hd, some.injEq] at h
    subst h
    exact .start hd
  | check =>
    simp only [hd] at h
    split at h
    · next htime => cases h; exact .stop hd htime
    · next htime => cases h; exact .wait hd htime
  | waiting =>
    simp only [hd, ite_none_right_eq_some, some.injEq] at h
    obtain ⟨hevent, rfl⟩ := h
    exact .wake hd hevent
  | emitting =>
    simp only [hd, some.injEq] at h
    subst h
    exact .emit hd
  | clearing =>
    simp only [hd, some.injEq] at h
    subst h
    exact .clear hd

theorem of_modelStep (h : modelStep task s = some s') : Move task s .model s' := by
  unfold modelStep at h
  cases hm : s.model with
  | none | returned =>
    simp only [hm] at h
    cases h
  | reading epoch phase batchIdx =>
    simp only [hm] at h
    split at h
    · next batch cache hcache => cases h; exact .read epoch phase batchIdx batch cache hm hcache
    · cases h
  | finished =>
    simp only [hm, some.injEq] at h
    subst h
    exact .finish hm

theorem of_step {l : Label} (h : step task s l = some s') : Move task s l s' := by
  cases l with
  | client => exact of_clientStep h
  | ws => exact of_wsStep h
  | handler => exact of_handlerStep h
  | dispatcher => exact of_dispatcherStep h
  | model => exact of_modelStep h
  | timeout =>
    simp only [step, ite_none_right_eq_some, some.injEq] at h
    obtain ⟨⟨hd, hevent⟩, rfl⟩ := h
    exact .timeout hd hevent

end Move

/-! ### Conservation -/

/-- The batches of the next rows, `n` at most. -/
def batches (batchSize : ℕ) : ℕ → List α → List (List α)
  | 0, _ => []
  | n + 1, rows =>
    if rows.take batchSize = [] then []
    else rows.take batchSize :: batches batchSize n (rows.drop batchSize)

theorem batches_flatten (hsize : 0 < batchSize) (n : ℕ) (rows : List α) :
    (batches batchSize n rows).flatten = rows.take (n * batchSize) := by
  induction n generalizing rows with
  | zero => rw [Nat.zero_mul, List.take_zero, batches, List.flatten_nil]
  | succ n ih =>
    unfold batches
    split
    · next hnil =>
      have hrows : rows = [] := (List.take_eq_nil_iff.mp hnil).resolve_left hsize.ne'
      rw [hrows, List.take_nil, List.flatten_nil]
    · rw [List.flatten_cons, ih, Nat.add_one_mul, Nat.add_comm (n * batchSize), List.take_add]

theorem length_batches_le (batchSize n : ℕ) (rows : List α) :
    (batches batchSize n rows).length ≤ n := by
  induction n generalizing rows with
  | zero => exact le_rfl
  | succ n ih =>
    unfold batches
    split
    · exact Nat.zero_le _
    · rw [List.length_cons]
      exact Nat.succ_le_succ (ih _)

theorem length_batches (hsize : 0 < batchSize) {n : ℕ} {rows : List α}
    (hrows : n * batchSize < rows.length + batchSize) : (batches batchSize n rows).length = n := by
  induction n generalizing rows with
  | zero => rfl
  | succ n ih =>
    rw [Nat.add_one_mul] at hrows
    have hne : rows.take batchSize ≠ [] := by
      intro hnil
      have hempty : rows = [] := (List.take_eq_nil_iff.mp hnil).resolve_left hsize.ne'
      rw [hempty, List.length_nil] at hrows
      omega
    rw [batches, if_neg hne, List.length_cons, ih (by rw [List.length_drop]; omega)]

/-- The batches the client is still going to put into the queue. -/
def Client.upcoming (task : Task α) (c : Client α) : List (List α) :=
  match c.pc with
  | .awaitAck | .fetch => batches task.batchSize (task.nBatches - c.currentBatch) c.rest
  | .enqueue batch =>
    batch :: batches task.batchSize (task.nBatches - c.currentBatch) c.rest
  | .waitCompletion | .crashed | .returned => []

def Handler.held : Handler α → List (List α)
  | .put batch => [batch]
  | _ => []

def ClientMsg.held : ClientMsg α → List (List α)
  | .batchData batch => [batch]
  | .task => []

/-- All batches, from those the model has seen to those that are still in the table. -/
def State.stream (task : Task α) (s : State α) : List (List α) :=
  s.seen ++ (s.cache ++ (s.handler.held ++ (s.toServer.flatMap ClientMsg.held ++
    (s.queue ++ s.client.upcoming task))))

section Conservation

variable {task : Task α} {s s' : State α} {rest : List α}

theorem batches_of_end {batchSize nBatches currentBatch : ℕ}
    (h : rest.take batchSize = [] ∨ nBatches < currentBatch + 1) :
    batches batchSize (nBatches - currentBatch) rest = [] := by
  rcases h with hrows | hmax
  · cases nBatches - currentBatch with
    | zero => rfl
    | succ n => rw [batches, if_pos hrows]
  · rw [Nat.sub_eq_zero_of_le (by omega), batches]

theorem batches_of_not_end {batchSize nBatches currentBatch : ℕ}
    (hrows : rest.take batchSize ≠ []) (hmax : ¬ nBatches < currentBatch + 1) :
    batches batchSize (nBatches - currentBatch) rest = rest.take batchSize ::
      batches batchSize (nBatches - (currentBatch + 1)) (rest.drop batchSize) := by
  have hn : nBatches - currentBatch = nBatches - (currentBatch + 1) + 1 := by omega
  rw [hn, batches, if_neg hrows]

theorem upcoming_fetchStep (task : Task α) {c : Client α} (hpc : c.pc = .fetch) :
    (fetchStep task c).upcoming task = c.upcoming task := by
  have hold : c.upcoming task = batches task.batchSize (task.nBatches - c.currentBatch) c.rest := by
    rw [Client.upcoming, hpc]
  rw [hold]
  unfold fetchStep
  by_cases hend : c.rest.take task.batchSize = [] ∨ task.nBatches < c.currentBatch + 1
  · -- the end of an epoch: no row is left, or the number of batches is reached
    rw [if_pos hend, batches_of_end hend]
    unfold Client.upcoming
    by_cases hepoch : task.epoch ≤ c.currentEpoch + 1
    · simp only [if_pos hepoch]
    · simp only [if_neg hepoch]
  · rw [if_neg hend, batches_of_not_end (not_or.mp hend).1 (not_or.mp hend).2]
    rfl

theorem stream_step {l : Label} (h : step task s l = some s') : s'.stream task = s.stream task := by
  cases Move.of_step h with
  | ack hpc _ | complete hpc _ | enqueue batch hpc _ => simp [State.stream, Client.upcoming, hpc]
  | fetch hpc => simp [State.stream, upcoming_fetchStep task hpc]
  | wsDequeue batch queue _ hqueue => simp [State.stream, hqueue, ClientMsg.held]
  | handleTask rest hh hmsg => simp [State.stream, hmsg, hh, ClientMsg.held]
  | handleBatch batch rest hh hmsg =>
    simp [State.stream, hmsg, hh, ClientMsg.held, Handler.held]
  | put batch hh _ | count hh | set hh => simp [State.stream, hh, Handler.held]
  | read epoch phase batchIdx batch cache _ hcache => simp [State.stream, hcache]
  | wsAck | wsRequest | wsResult | start | stop | wait | wake | emit | clear | finish | timeout =>
    rfl

/-- **Conservation**: no batch is lost, sent twice or overtaken. -/
theorem stream_eq {ls : List Label} (hrun : (system task).Run (init task) ls s) :
    s.stream task = batches task.batchSize task.nBatches task.rows :=
  hrun.invariant (I := fun s => s.stream task = batches task.batchSize task.nBatches task.rows)
    rfl fun _ _ _ h hstep => (stream_step hstep).trans h

end Conservation

/-! ### The batches of an epoch -/

section Epochs

/-- The loop of `nr_train` and `nr_finetune`, where the queue takes every batch: what is sent, and
where the loop ends. `none` if it goes on after that many rounds. -/
def fetchLoop (task : Task α) : ℕ → Client α → Option (List (List α) × ClientPc α)
  | 0, _ => none
  | rounds + 1, c =>
    match (fetchStep task c).pc with
    | .enqueue batch =>
      (fetchLoop task rounds (fetchStep task c)).map fun sent => (batch :: sent.1, sent.2)
    | pc => some ([], pc)

/-- An epoch has one round for each batch and one for its end. -/
def Task.sent (task : Task α) : Option (List (List α) × ClientPc α) :=
  fetchLoop task (task.epoch * (task.nBatches + 1)) ⟨.fetch, task.rows, 0, 0⟩

/-- The batches of one epoch: `n_batches` of them, or as many as there are rows for. -/
def Task.epochBatches (task : Task α) : List (List α) :=
  (List.range (min task.nBatches ((task.rows.length + task.batchSize - 1) / task.batchSize))).map
    fun i => (task.rows.drop (i * task.batchSize)).take task.batchSize

/-- **Each epoch sends the same batches**, and then the client waits for the result. -/
def Task.EpochsSent (task : Task α) : Prop :=
  task.sent = some ((List.replicate task.epoch task.epochBatches).flatten, .waitCompletion)

theorem ceilDiv_sub {n b : ℕ} (hb : 0 < b) (hn : 0 < n) :
    (n + b - 1) / b = (n - b + b - 1) / b + 1 := by
  rcases Nat.lt_or_ge n b with hlt | hle
  · rw [Nat.sub_eq_zero_of_le hlt.le, Nat.zero_add, Nat.div_eq_of_lt (Nat.sub_one_lt_of_lt hb)]
    exact Nat.div_eq_of_lt_le (by omega) (by omega)
  · rw [Nat.sub_add_cancel hle, ← Nat.add_div_right _ hb]
    congr 1
    omega

theorem batches_eq_map {b : ℕ} (hb : 0 < b) (n : ℕ) (rows : List α) :
    batches b n rows =
      (List.range (min n ((rows.length + b - 1) / b))).map fun i => (rows.drop (i * b)).take b := by
  induction n generalizing rows with
  | zero => rw [Nat.zero_min]; rfl
  | succ n ih =>
    rw [batches]
    split
    · next hnil =>
      rw [(List.take_eq_nil_iff.mp hnil).resolve_left hb.ne', List.length_nil, Nat.zero_add,
        Nat.div_eq_of_lt (Nat.sub_one_lt_of_lt hb), Nat.min_zero]
      rfl
    · next hne =>
      have hpos : 0 < rows.length := List.length_pos_iff.mpr fun h => hne (by rw [h, List.take_nil])
      rw [ih, List.length_drop, ceilDiv_sub hb hpos, Nat.succ_min_succ, List.range_succ_eq_map,
        List.map_cons, List.map_map, Nat.zero_mul, List.drop_zero]
      simp [Function.comp_def, Nat.add_mul, Nat.add_comm]

/-- By induction on the rounds: a round that does not end the loop sends the next batch. -/
theorem fetchLoop_eq (task : Task α) {rounds : ℕ} {c : Client α}
    (h : task.nBatches - c.currentBatch < rounds) :
    fetchLoop task rounds c = some (batches task.batchSize (task.nBatches - c.currentBatch) c.rest,
      if task.epoch ≤ c.currentEpoch + 1 then .waitCompletion else .crashed) := by
  induction rounds generalizing c with
  | zero => exact absurd h (Nat.not_lt_zero _)
  | succ rounds ih =>
    by_cases hend : c.rest.take task.batchSize = [] ∨ task.nBatches < c.currentBatch + 1
    · have hnil : batches task.batchSize (task.nBatches - c.currentBatch) c.rest = [] :=
        batches_of_end hend
      rw [fetchLoop, fetchStep, if_pos hend, hnil]
      by_cases hepoch : task.epoch ≤ c.currentEpoch + 1
      · simp only [if_pos hepoch]
      · simp only [if_neg hepoch]
    · obtain ⟨hrows, hmax⟩ := not_or.mp hend
      rw [fetchLoop, fetchStep, if_neg hend]
      dsimp only
      rw [ih (by dsimp only; omega), Option.map_some, batches_of_not_end hrows hmax]

/-- **Each epoch sends the same batches** exactly if there is one epoch: the loop goes on after the
cursor is moved back, where there is no table of rows. -/
theorem epochs_sent_iff (task : Task α) (hsize : 0 < task.batchSize) (hepoch : 0 < task.epoch) :
    task.EpochsSent ↔ task.epoch = 1 := by
  have hrounds : task.nBatches - 0 < task.epoch * (task.nBatches + 1) :=
    Nat.lt_of_succ_le (Nat.le_mul_of_pos_left _ hepoch)
  rw [Task.EpochsSent, Task.sent, fetchLoop_eq task hrounds, Nat.sub_zero, Nat.zero_add,
    batches_eq_map hsize]
  constructor
  · intro h
    by_contra hne
    rw [if_neg (by omega)] at h
    cases (Prod.mk.inj (Option.some.inj h)).2
  · intro h
    rw [h, if_pos le_rfl, List.replicate_one, List.flatten_singleton]
    rfl

/-- Three rows, in batches of two. -/
theorem one_epoch_sent : (nrTrain 10 ["a", "b", "c"] 2 5 1).EpochsSent :=
  (epochs_sent_iff (nrTrain 10 ["a", "b", "c"] 2 5 1) (by decide) (by decide)).mpr rfl

/-- **The second epoch is never sent**: the client crashes after the first one. -/
theorem second_epoch_crashes :
    (nrTrain 10 ["a", "b", "c"] 2 5 2).sent = some ([["a", "b"], ["c"]], .crashed) ∧
      ¬ (nrTrain 10 ["a", "b", "c"] 2 5 2).EpochsSent :=
  ⟨rfl, nofun⟩

end Epochs

end NeurDB.Pipeline
