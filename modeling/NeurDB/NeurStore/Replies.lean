import NeurDB.NeurStore.SqlTasks

/-!
# Replies to NeurStore calls

An SQL function of `pgext/interface.c` pushes its task to the channel of the service and pops the
next message of the response channel of its process, `ns_resp_<pid>`. The service
(`run_neurstore` in `pgext/ipc/service.c`) pops tasks in order and hands them to worker threads.
A worker calls the engine and pushes the response to the channel the task names
(`process_task`). A response says OK or ERROR and carries no request number.

The channels are queues of whole messages here, which is what `taskChannel_fifo` says of them. A
push may fail (the channel is full for too long, or destroyed). `NSChannelInit` leaves a channel as
it is that exists already, and no channel is ever removed. The workers may take the tasks they
have in any order, and the answers of the engine are arbitrary.

A call that waits can be interrupted, and the backend may exit. Its task is not withdrawn and its
response stays in the channel. The next call under this process id takes that response, even if
it is made by another backend that got the same process id (`stale_response_taken`).

Where nothing is left of earlier calls, a call gets its own response (`calls_get_own_response`).

Messages carry an identifier in the model which no party looks at, and the state records which
arguments the engine was called with for it, and what it answered.
-/

namespace NeurDB.NeurStore

open Function List

/-! ### The service -/

/-- What the functions of the engine may answer. -/
structure EngineAnswers where
  /-- `ns_save_model_internal` and `ns_save_models_internal`. -/
  saved : Bool
  /-- The serialized model, or NULL. -/
  model : Option (List Byte)
  /-- `ns_inference_internal`: an error and its message, if it has one. -/
  inferenceError : Option (Option (List Byte))
  /-- `ratio` and `delta_perf` of `ns_save_model_dry_run_internal`. -/
  dryRun : Option (BitVec 64 × BitVec 64)
  deriving DecidableEq

/-- What a worker does for a task. -/
inductive Work where
  | engine (arguments : TaskArguments)
  | cleanCache
  deriving DecidableEq

/-- The handlers of `process_task`; `none` for the types it has no response for. -/
def decodeTask (conv : FloatConversion) (task : NSTaskMsg) : Option (Checked Refusal Work) :=
  let engine (arguments : Checked Refusal TaskArguments) : Checked Refusal Work :=
    arguments >>= fun a => .value (.engine a)
  if task.type = NSTaskType.saveModel.code then
    some (engine (Background.handleSaveModel conv task.payload))
  else if task.type = NSTaskType.saveModels.code then
    some (engine (Background.handleSaveModels task.payload))
  else if task.type = NSTaskType.saveModelDryRun.code then
    some (engine (Background.handleSaveModelDryRun conv task.payload))
  else if task.type = NSTaskType.loadModel.code then
    some (engine (Background.handleLoadModel task.payload))
  else if task.type = NSTaskType.inference.code then
    some (engine (Background.handleInference task.payload))
  else if task.type = NSTaskType.cleanCache.code then some (.value .cleanCache)
  else none

/-- An OK response with a payload. `NewTask` returns NULL where the message is too large, and the
worker writes through it: `none`. -/
def newOkTask (payload : List Byte) : Option NSTaskMsg :=
  if h : nsTaskHdrsz + payload.length ≤ nsMsgSize then
    some
      { type := NSTaskType.ok.code
        payloadSize := BitVec.ofNat 32 payload.length
        respChannel := 0
        payload
        payload_length := by
          rw [BitVec.toNat_ofNat]
          unfold nsMsgSize nsTaskHdrsz at h
          exact (Nat.mod_eq_of_lt (by omega)).symm }
  else none

/-- The rest of a handler: the response to what the engine has answered. -/
def respond : Work → EngineAnswers → Option NSTaskMsg
  | .engine (.saveModel _ _ _), a =>
    if a.saved then some newOkResponse
    else some (newErrorResponse (ascii "save_model_internal failed"))
  | .engine (.saveModels _ _ _), a =>
    if a.saved then some newOkResponse
    else some (newErrorResponse (ascii "ns_save_models_internal failed"))
  | .engine (.saveModelDryRun _ _ _ _), a =>
    match a.dryRun with
    | none => some (newErrorResponse (ascii "ns_save_model_dry_run failed"))
    | some (ratio, deltaPerf) =>
      newOkTask (leBytes 8 ratio.toNat ++ leBytes 8 deltaPerf.toNat)
  | .engine (.loadModel returnSerialized _ _), a =>
    match a.model with
    | none => some (newErrorResponse (ascii "ns_load_model_xxx failed"))
    | some blob =>
      if returnSerialized then newOkTask (leBytes 4 blob.length ++ blob)
      else some newOkResponse
  | .engine (.inference _), a =>
    match a.inferenceError with
    | some errMsg => some (newErrorResponse (errMsg.getD (ascii "ns_inference_run failed")))
    | none => some newOkResponse
  | .cleanCache, _ => some newOkResponse

/-! ### The backends -/

/-- A call of an SQL function that goes to the service. -/
inductive NSCall where
  | sql (call : SqlCall)
  | nsCleanCache
  deriving DecidableEq

/-- What a call comes to. -/
inductive CallResult where
  | boolean (b : Bool)
  | bytea (data : List Byte)
  | null
  | floats (ratio deltaPerf : BitVec 64)
  /-- An error, with the payload of the response as its detail. -/
  | raised (text : String) (detail : List Byte)
  /-- Bytes behind the end of the response were read. -/
  | undefined
  deriving DecidableEq

namespace NSCall

def task (conv : FloatConversion) (procPid : BitVec 32) :
    NSCall → Except SqlFailure (Option NSTaskMsg)
  | sql call => call.task conv procPid
  | nsCleanCache => .ok (newTask .cleanCache 0 procPid none)

/-- What the service is to do for the call. -/
def work (conv : FloatConversion) : NSCall → Work
  | sql call => .engine (call.arguments conv)
  | nsCleanCache => .cleanCache

/-- What the call makes of the message it pops. -/
def received (response : NSTaskMsg) : NSCall → CallResult
  | sql (.nsSaveModel _ _ _) => .boolean (response.type = NSTaskType.ok.code)
  | sql (.nsSaveModels _ _ _) => .boolean (response.type = NSTaskType.ok.code)
  | sql (.nsSaveModelDryRun _ _ _) =>
    if response.type ≠ NSTaskType.ok.code then .raised "Dry-run failed: " response.payload
    else if response.payload.length < 16 then .undefined
    else .floats (BitVec.ofNat 64 (leVal (response.payload.take 8)))
      (BitVec.ofNat 64 (leVal ((response.payload.drop 8).take 8)))
  | sql (.nsLoadModel _ _ returnSerialized) =>
    if response.type = NSTaskType.ok.code ∧ returnSerialized then
      if response.payload.length < 4 then .undefined
      else
        let dataSize := leVal (response.payload.take 4)
        if response.payload.length < 4 + dataSize then .undefined
        else .bytea ((response.payload.drop 4).take dataSize)
    else if response.type ≠ NSTaskType.ok.code then
      .raised "NeurStore: Task failed with error: " response.payload
    else .null
  | sql (.nsInference _ _) =>
    if response.type = NSTaskType.ok.code then .boolean true
    else .raised "NeurStore inference failed: " response.payload
  | nsCleanCache => .boolean (response.type = NSTaskType.ok.code)

/-- What a call is to return: the answer of the engine. -/
def result (a : EngineAnswers) : NSCall → CallResult
  | sql (.nsSaveModel _ _ _) => .boolean a.saved
  | sql (.nsSaveModels _ _ _) => .boolean a.saved
  | sql (.nsSaveModelDryRun _ _ _) =>
    match a.dryRun with
    | none => .raised "Dry-run failed: "
        (newErrorResponse (ascii "ns_save_model_dry_run failed")).payload
    | some (ratio, deltaPerf) => .floats ratio deltaPerf
  | sql (.nsLoadModel _ _ returnSerialized) =>
    match a.model with
    | none => .raised "NeurStore: Task failed with error: "
        (newErrorResponse (ascii "ns_load_model_xxx failed")).payload
    | some blob => if returnSerialized then .bytea blob else .null
  | sql (.nsInference _ _) =>
    match a.inferenceError with
    | some errMsg => .raised "NeurStore inference failed: "
        (newErrorResponse (errMsg.getD (ascii "ns_inference_run failed"))).payload
    | none => .boolean true
  | nsCleanCache => .boolean true

end NSCall

/-! ### The system -/

/-- A message in a channel, or on its way to one. -/
structure Tagged where
  id : ℕ
  msg : NSTaskMsg
  deriving DecidableEq

/-- A call that waits for its response. -/
structure Pending where
  id : ℕ
  call : NSCall
  deriving DecidableEq

/-- What a worker has done for a task. -/
structure Processing where
  id : ℕ
  work : Work
  answers : EngineAnswers
  deriving DecidableEq

/-- A call that has returned, and the identifier of the response it took. -/
structure Returned where
  id : ℕ
  call : NSCall
  responseId : ℕ
  result : CallResult
  deriving DecidableEq

structure ReplyState where
  serviceRunning : Bool
  requestsActive : Bool
  /-- A process has accessed memory it must not, which ends all of them. -/
  crashed : Bool
  requests : List Tagged
  /-- The tasks in the thread pool. -/
  working : List Tagged
  /-- The responses the workers have not pushed yet, and the process ids they go to. -/
  responses : List (BitVec 32 × Tagged)
  /-- The response channels that exist. -/
  channel : BitVec 32 → Option (List Tagged)
  /-- The process ids of the backends. -/
  alive : BitVec 32 → Bool
  waiting : BitVec 32 → Option Pending
  nextId : ℕ
  processed : List Processing
  returned : List Returned

inductive ReplyLabel where
  /-- A backend starts; its process id is not in use. -/
  | start (pid : BitVec 32)
  | exit (pid : BitVec 32)
  | call (pid : BitVec 32) (call : NSCall) (pushed : Bool)
  | interrupt (pid : BitVec 32)
  | receive (pid : BitVec 32)
  /-- The main loop of the service. -/
  | take
  /-- A worker processes a task of the pool. -/
  | process (i : ℕ) (answers : EngineAnswers)
  | respond (i : ℕ) (pushed : Bool)
  /-- The service gets SIGTERM. -/
  | terminate
  | destroy

namespace ReplyState

/-- `NSChannelInit` with `create`: a channel that exists is left as it is. -/
def initChannel (s : ReplyState) (pid : BitVec 32) : ReplyState :=
  { s with channel := update s.channel pid (some ((s.channel pid).getD [])) }

/-- A call. A call whose arguments are refused, or whose push fails, does not wait. -/
def enter (conv : FloatConversion) (s : ReplyState) (pid : BitVec 32) (call : NSCall)
    (pushed : Bool) : ReplyState :=
  match call.task conv pid with
  | .error _ => s
  | .ok none => { s with crashed := true }
  | .ok (some msg) =>
    let s := s.initChannel pid
    if pushed ∧ s.requestsActive then
      { s with
        requests := s.requests ++ [⟨s.nextId, msg⟩]
        waiting := update s.waiting pid (some ⟨s.nextId, call⟩)
        nextId := s.nextId + 1 }
    else s

/-- A worker adds a response. -/
def addResponse (s : ReplyState) (pid : BitVec 32) (e : Tagged) : ReplyState :=
  { s with responses := s.responses ++ [(pid, e)] }

/-- `process_task` for a task that was taken out of the pool. -/
def processTask (conv : FloatConversion) (s : ReplyState) (e : Tagged) (answers : EngineAnswers) :
    ReplyState :=
  match decodeTask conv e.msg with
  | none => s
  | some (.value work) =>
    let s := { s with processed := ⟨e.id, work, answers⟩ :: s.processed }
    match NeurStore.respond work answers with
    | some response => s.addResponse e.msg.respChannel ⟨e.id, response⟩
    | none => { s with crashed := true }
  | some (.refused (.answered text)) =>
    s.addResponse e.msg.respChannel ⟨e.id, newErrorResponse (ascii text)⟩
  | some (.refused (.raised _)) => { s with crashed := true }
  | some .outside => { s with crashed := true }

/-- The message `terminate_neurstore` pushes. -/
def shutdownMsg : NSTaskMsg :=
  ⟨NSTaskType.shutdown.code, 0, 0, [], newOkResponse.payload_length⟩

/-- One step of the processes; `none` where the label is not enabled. -/
def next (conv : FloatConversion) (s : ReplyState) : ReplyLabel → Option ReplyState
  | .start pid =>
    if s.alive pid ∨ pid = 0 then none
    else some { s with alive := update s.alive pid true }
  | .exit pid =>
    if s.alive pid then some { s with
      alive := update s.alive pid false
      waiting := update s.waiting pid none }
    else none
  | .call pid call pushed =>
    if s.alive pid ∧ s.waiting pid = none then some (s.enter conv pid call pushed) else none
  | .interrupt pid =>
    if (s.waiting pid).isSome then some { s with waiting := update s.waiting pid none }
    else none
  | .receive pid =>
    match s.waiting pid, s.channel pid with
    | some w, some (e :: rest) => some { s with
        channel := update s.channel pid (some rest)
        waiting := update s.waiting pid none
        returned := ⟨w.id, w.call, e.id, w.call.received e.msg⟩ :: s.returned }
    | _, _ => none
  | .take =>
    match s.serviceRunning, s.requests with
    | true, e :: rest =>
      if e.msg.type = NSTaskType.shutdown.code then
        some { s with requests := rest, serviceRunning := false }
      else some { s with requests := rest, working := s.working ++ [e] }
    | _, _ => none
  | .process i answers =>
    match s.working[i]? with
    | some e => some ({ s with working := s.working.eraseIdx i }.processTask conv e answers)
    | none => none
  | .respond i pushed =>
    match s.responses[i]? with
    | some (pid, e) =>
      let s := { s with responses := s.responses.eraseIdx i }
      if pushed then
        some { s with
          channel := update s.channel pid ((s.channel pid).map (· ++ [e])) }
      else some s
    | none => none
  | .terminate =>
    if s.requestsActive then some { s with
      requests := s.requests ++ [⟨s.nextId, shutdownMsg⟩]
      nextId := s.nextId + 1 }
    else none
  | .destroy =>
    if s.serviceRunning then none else some { s with requestsActive := false }

end ReplyState

/-- One step; nothing happens after a crash. -/
def replyStep (conv : FloatConversion) (s : ReplyState) (l : ReplyLabel) : Option ReplyState :=
  if s.crashed then none else s.next conv l

/-- The service has just started, and there are no backends. -/
def replyInit : ReplyState where
  serviceRunning := true
  requestsActive := true
  crashed := false
  requests := []
  working := []
  responses := []
  channel := fun _ => none
  alive := fun _ => false
  waiting := fun _ => none
  nextId := 0
  processed := []
  returned := []

def replySystem (conv : FloatConversion) : System ReplyState ReplyLabel :=
  .ofFun (· = replyInit) (replyStep conv)

/-- **Nothing is left of earlier calls**: a backend calls only if no task, response or message
in its response channel is under its process id. -/
def nothingLeft (s : ReplyState) : ReplyLabel → Bool
  | .call pid _ _ =>
    !(s.requests.any (·.msg.respChannel = pid)) && !(s.working.any (·.msg.respChannel = pid)) &&
      !(s.responses.any (·.1 = pid)) && ((s.channel pid).getD []).isEmpty
  | _ => true

/-! ### One task and its response -/

variable {conv : FloatConversion} {msg response : NSTaskMsg} {call : NSCall}
  {a : EngineAnswers} {pid : BitVec 32}

/-- The service reads out of the task of a call what the call asks for. -/
theorem decodeTask_of_task (h : call.task conv pid = .ok (some msg)) :
    decodeTask conv msg = some (.value (call.work conv)) := by
  cases call with
  | nsCleanCache =>
    have htype := (header_of_newTask (Except.ok.inj h)).1
    simp only [decodeTask, htype]
    rfl
  | sql call =>
    replace h : call.task conv pid = .ok (some msg) := h
    have htype := (call.header_of_task h).1
    unfold decodeTask
    rw [htype]
    -- the handler of the background service is the first
    cases call <;>
      exact congrArg (fun r => some (r >>= fun a => .value (Work.engine a)))
        (handle_task h mem_cons_self :)

theorem respChannel_of_task (h : call.task conv pid = .ok (some msg)) : msg.respChannel = pid := by
  cases call with
  | nsCleanCache => exact (header_of_newTask (Except.ok.inj h)).2
  | sql call => exact (call.header_of_task h).2

/-- An OK response carries its payload whole. -/
theorem newOkTask_eq_some {payload : List Byte} (h : newOkTask payload = some msg) :
    msg.type = NSTaskType.ok.code ∧ msg.payload = payload ∧ payload.length < 2 ^ 32 := by
  unfold newOkTask at h
  split at h
  · next hfit =>
    cases h
    unfold nsMsgSize nsTaskHdrsz at hfit
    exact ⟨rfl, rfl, by omega⟩
  · cases h

theorem newErrorResponse_type (errorMsg : List Byte) :
    (newErrorResponse errorMsg).type ≠ NSTaskType.ok.code := by
  show NSTaskType.error.code ≠ NSTaskType.ok.code
  decide

theorem received_of_saved {errorMsg : List Byte}
    (h : (if a.saved then some newOkResponse else some (newErrorResponse errorMsg)) =
      some response) : decide (response.type = NSTaskType.ok.code) = a.saved := by
  split at h
  · next hsaved =>
    cases h
    rw [hsaved]
    rfl
  · next hsaved =>
    cases h
    rw [Bool.not_eq_true] at hsaved
    rw [hsaved]
    exact decide_eq_false (newErrorResponse_type errorMsg)

/-- **A call makes of its own response what the engine has answered.** -/
theorem received_of_respond (h : respond (call.work conv) a = some response) :
    call.received response = call.result a := by
  cases call with
  | nsCleanCache =>
    cases h
    rfl
  | sql call =>
    cases call with
    | nsSaveModel modelName tolerance modelPath =>
      exact congrArg CallResult.boolean (received_of_saved h)
    | nsSaveModels modelNames tolerance modelFolderPath =>
      exact congrArg CallResult.boolean (received_of_saved h)
    | nsSaveModelDryRun tolerance modelPath options =>
      simp only [NSCall.work, SqlCall.arguments, respond] at h
      simp only [NSCall.received, NSCall.result]
      cases hdry : a.dryRun with
      | none =>
        rw [hdry] at h
        cases h
        rw [if_pos (newErrorResponse_type _)]
      | some floats =>
        rw [hdry] at h
        obtain ⟨htype, hpayload, -⟩ := newOkTask_eq_some h
        rw [htype, hpayload, if_neg (not_not_intro rfl), if_neg (by simp),
          take_left' (length_leBytes 8 _), drop_left' (length_leBytes 8 _),
          take_of_length_le (Nat.le_of_eq (length_leBytes 8 _)),
          ofNat_leVal_leBytes (by decide), ofNat_leVal_leBytes (by decide)]
    | nsLoadModel modelName loadMode returnSerialized =>
      simp only [NSCall.work, SqlCall.arguments, respond] at h
      simp only [NSCall.received, NSCall.result]
      cases hmodel : a.model with
      | none =>
        rw [hmodel] at h
        cases h
        rw [if_neg fun h => newErrorResponse_type _ h.1, if_pos (newErrorResponse_type _)]
      | some blob =>
        rw [hmodel] at h
        cases returnSerialized with
        | false =>
          cases h
          rfl
        | true =>
          -- the size in front of the model is its length
          obtain ⟨htype, hpayload, hsize⟩ := newOkTask_eq_some h
          rw [length_append, length_leBytes] at hsize
          have hlen : leVal ((leBytes 4 blob.length ++ blob).take 4) = blob.length := by
            rw [take_left' (length_leBytes 4 _)]
            exact leVal_leBytes (by omega)
          rw [htype, hpayload, if_pos ⟨rfl, rfl⟩, if_neg (by simp), hlen, if_neg (by simp),
            drop_left' (length_leBytes 4 _), take_length]
          rfl
    | nsInference modelId options =>
      simp only [NSCall.work, SqlCall.arguments, respond] at h
      simp only [NSCall.received, NSCall.result]
      cases herror : a.inferenceError with
      | none =>
        rw [herror] at h
        cases h
        rfl
      | some errMsg =>
        rw [herror] at h
        cases h
        rw [if_neg (newErrorResponse_type _)]

/-! ### The invariant -/

variable {s s' : ReplyState} {w : Pending}

/-- The message is the response to the call: the engine was called for its arguments, and this is
what the service has made of the answer. -/
def Produced (conv : FloatConversion) (s : ReplyState) (w : Pending) (e : Tagged) : Prop :=
  e.id = w.id ∧ ∃ answers, ⟨w.id, w.call.work conv, answers⟩ ∈ s.processed ∧
    respond (w.call.work conv) answers = some e.msg

/-- Whatever is under the process id belongs to the call that waits. -/
structure Owns (conv : FloatConversion) (s : ReplyState) (pid : BitVec 32) (w : Pending) :
    Prop where
  tasks : ∀ e, e ∈ s.requests ∨ e ∈ s.working → e.msg.respChannel = pid →
    e.id = w.id ∧ w.call.task conv pid = .ok (some e.msg)
  responses : ∀ e, (pid, e) ∈ s.responses ∨ e ∈ (s.channel pid).getD [] → Produced conv s w e

/-- A call that has returned has taken its own response, and returns what the engine has answered
for its arguments. -/
def Returned.Answered (conv : FloatConversion) (s : ReplyState) (d : Returned) : Prop :=
  d.responseId = d.id ∧ ∃ answers, ⟨d.id, d.call.work conv, answers⟩ ∈ s.processed ∧
    d.result = d.call.result answers

structure ReplyInv (conv : FloatConversion) (s : ReplyState) : Prop where
  /-- The process id 0, which a shutdown message carries, is none of a backend. -/
  ne_zero : ∀ pid, s.alive pid = true ∨ s.waiting pid ≠ none → pid ≠ 0
  owns : ∀ pid w, s.waiting pid = some w → Owns conv s pid w
  answered : ∀ d ∈ s.returned, d.Answered conv s

theorem Produced.mono {e : Tagged} (h : Produced conv s w e)
    (hprocessed : ∀ x ∈ s.processed, x ∈ s'.processed) : Produced conv s' w e := by
  obtain ⟨hid, answers, hmem, hrespond⟩ := h
  exact ⟨hid, answers, hprocessed _ hmem, hrespond⟩

theorem Returned.Answered.mono {d : Returned} (h : d.Answered conv s)
    (hprocessed : ∀ x ∈ s.processed, x ∈ s'.processed) : d.Answered conv s' := by
  obtain ⟨hid, answers, hmem, hresult⟩ := h
  exact ⟨hid, answers, hprocessed _ hmem, hresult⟩

/-- A step that brings nothing new under the process id. -/
theorem Owns.mono (h : Owns conv s pid w)
    (htasks : ∀ e, e ∈ s'.requests ∨ e ∈ s'.working → e.msg.respChannel = pid →
      e ∈ s.requests ∨ e ∈ s.working)
    (hresponses : ∀ e, (pid, e) ∈ s'.responses ∨ e ∈ (s'.channel pid).getD [] →
      (pid, e) ∈ s.responses ∨ e ∈ (s.channel pid).getD [])
    (hprocessed : ∀ x ∈ s.processed, x ∈ s'.processed) : Owns conv s' pid w where
  tasks e he hpid := h.tasks e (htasks e he hpid) hpid
  responses e he := (h.responses e (hresponses e he)).mono hprocessed

/-- A step that gives no backend a call to wait for, and brings nothing new under the process id
of a call that waits. A step names what it changes. -/
structure NothingNew (s s' : ReplyState) : Prop where
  alive : ∀ pid, s'.alive pid = true → s.alive pid = true := by exact fun _ h => h
  waiting : ∀ pid w, s'.waiting pid = some w → s.waiting pid = some w := by exact fun _ _ h => h
  tasks : ∀ pid, pid ≠ 0 → ∀ e, e ∈ s'.requests ∨ e ∈ s'.working →
    e.msg.respChannel = pid → e ∈ s.requests ∨ e ∈ s.working := by exact fun _ _ _ h _ => h
  responses : ∀ pid e, (pid, e) ∈ s'.responses ∨ e ∈ (s'.channel pid).getD [] →
    (pid, e) ∈ s.responses ∨ e ∈ (s.channel pid).getD [] := by exact fun _ _ h => h
  processed : s'.processed = s.processed := by rfl
  returned : s'.returned = s.returned := by rfl

namespace ReplyInv

theorem initial : ReplyInv conv replyInit where
  ne_zero pid h := by
    rcases h with h | h
    · exact absurd h Bool.false_ne_true
    · exact absurd rfl h
  owns pid w h := by cases h
  answered d hd := absurd hd not_mem_nil

/-- What brings nothing new keeps the invariant. -/
theorem mono (h : ReplyInv conv s) (hnew : NothingNew s s') : ReplyInv conv s' := by
  have hsub : ∀ x ∈ s.processed, x ∈ s'.processed := fun x hx => hnew.processed ▸ hx
  have hne : ∀ pid, s'.waiting pid ≠ none → s.waiting pid ≠ none := by
    intro pid hpid
    obtain ⟨w, hw⟩ := Option.ne_none_iff_exists'.mp hpid
    rw [hnew.waiting pid w hw]
    exact Option.some_ne_none w
  refine ⟨fun pid hpid => h.ne_zero pid (hpid.imp (hnew.alive pid) (hne pid)), fun pid w hw => ?_,
    fun d hd => (h.answered d (hnew.returned ▸ hd)).mono hsub⟩
  have hzero : pid ≠ 0 := h.ne_zero pid (.inr (hne pid (by rw [hw]; exact Option.some_ne_none w)))
  exact (h.owns pid w (hnew.waiting pid w hw)).mono (hnew.tasks pid hzero) (hnew.responses pid) hsub

variable {e : Tagged}

theorem waiting_of_update_none {q : BitVec 32} (h : update s.waiting pid none q = some w) :
    s.waiting q = some w := by
  by_cases hq : q = pid
  · subst hq
    rw [update_self] at h
    cases h
  · rwa [update_of_ne hq] at h

theorem start (h : ReplyInv conv s) (hpid : pid ≠ 0) :
    ReplyInv conv { s with alive := update s.alive pid true } := by
  refine ⟨fun q hq => ?_, fun q w hw => ⟨(h.owns q w hw).tasks, (h.owns q w hw).responses⟩,
    h.answered⟩
  dsimp only at hq
  by_cases hqp : q = pid
  · exact hqp ▸ hpid
  · refine h.ne_zero q (hq.imp_left fun halive => ?_)
    rwa [update_of_ne hqp] at halive

theorem exit (h : ReplyInv conv s) (pid : BitVec 32) :
    ReplyInv conv { s with
      alive := update s.alive pid false
      waiting := update s.waiting pid none } := by
  refine h.mono { alive := fun q hq => ?_, waiting := fun _ _ hw => waiting_of_update_none hw }
  dsimp only at hq
  by_cases hqp : q = pid
  · subst hqp
    rw [update_self] at hq
    cases hq
  · rwa [update_of_ne hqp] at hq

theorem interrupt (h : ReplyInv conv s) (pid : BitVec 32) :
    ReplyInv conv { s with waiting := update s.waiting pid none } :=
  h.mono { waiting := fun _ _ hw => waiting_of_update_none hw }

theorem getD_initChannel (s : ReplyState) (pid q : BitVec 32) :
    ((s.initChannel pid).channel q).getD [] = (s.channel q).getD [] := by
  unfold ReplyState.initChannel
  dsimp only
  by_cases hq : q = pid
  · subst hq
    rw [update_self]
    rfl
  · rw [update_of_ne hq]

section

variable (h : ReplyInv conv s)

include h

theorem initChannel (pid : BitVec 32) : ReplyInv conv (s.initChannel pid) := by
  refine h.mono { responses := fun q e he => ?_ }
  rwa [getD_initChannel] at he

/-- A call pushes its task where nothing is left of earlier ones. -/
theorem push {msg : NSTaskMsg} (hpid : s.alive pid = true)
    (htask : call.task conv pid = .ok (some msg))
    (htasks : ∀ e, e ∈ s.requests ∨ e ∈ s.working → e.msg.respChannel ≠ pid)
    (hresponses : ∀ e, (pid, e) ∉ s.responses ∧ e ∉ (s.channel pid).getD []) :
    ReplyInv conv { s with
      requests := s.requests ++ [⟨s.nextId, msg⟩]
      waiting := update s.waiting pid (some ⟨s.nextId, call⟩)
      nextId := s.nextId + 1 } := by
  have hmsg := respChannel_of_task htask
  refine ⟨fun q hq => ?_, fun q w hw => ?_, h.answered⟩
  · dsimp only at hq
    by_cases hqp : q = pid
    · exact hqp ▸ h.ne_zero pid (.inl hpid)
    · refine h.ne_zero q (hq.imp_right fun hwait => ?_)
      rwa [update_of_ne hqp] at hwait
  · dsimp only at hw
    by_cases hqp : q = pid
    · subst hqp
      rw [update_self] at hw
      cases hw
      refine ⟨fun e he heq => ?_, fun e he => ?_⟩
      · rcases he with he | he
        · rcases mem_append_singleton.mp he with hold | rfl
          · exact absurd heq (htasks e (.inl hold))
          · exact ⟨rfl, htask⟩
        · exact absurd heq (htasks e (.inr he))
      · rcases he with he | he
        · exact absurd he (hresponses e).1
        · exact absurd he (hresponses e).2
    · -- the task goes to another backend
      rw [update_of_ne hqp] at hw
      refine (h.owns q w hw).mono (fun e he heq => ?_) (fun _ he => he) fun _ hx => hx
      refine he.imp_left fun he => ?_
      rcases mem_append_singleton.mp he with hold | rfl
      · exact hold
      · exact absurd (heq.symm.trans hmsg) hqp

theorem enter {pushed : Bool} (hpid : s.alive pid = true)
    (hleft : nothingLeft s (.call pid call pushed) = true) :
    ReplyInv conv (s.enter conv pid call pushed) := by
  unfold ReplyState.enter
  split
  · exact h
  · exact h.mono {}
  · next msg htask =>
    have hinit := h.initChannel pid
    dsimp only
    split
    · simp only [nothingLeft, Bool.and_eq_true, Bool.not_eq_true', any_eq_false,
        decide_eq_true_eq, List.isEmpty_iff] at hleft
      obtain ⟨⟨⟨hrequests, hworking⟩, hresponses⟩, hchannel⟩ := hleft
      refine hinit.push hpid htask (fun e he => he.elim (hrequests e) (hworking e)) fun e => ?_
      rw [getD_initChannel, hchannel]
      exact ⟨fun he => hresponses _ he rfl, not_mem_nil⟩
    · exact hinit

/-- The message a call takes is the response to its own task. -/
theorem receive {rest : List Tagged} (hw : s.waiting pid = some w)
    (hchannel : s.channel pid = some (e :: rest)) :
    ReplyInv conv { s with
      channel := update s.channel pid (some rest)
      waiting := update s.waiting pid none
      returned := ⟨w.id, w.call, e.id, w.call.received e.msg⟩ :: s.returned } := by
  have hmid : ReplyInv conv { s with
      channel := update s.channel pid (some rest)
      waiting := update s.waiting pid none } := by
    refine h.mono
      { waiting := fun _ _ hw => waiting_of_update_none hw
        responses := fun q e' he' => he'.imp_right fun he' => ?_ }
    dsimp only at he'
    by_cases hq : q = pid
    · subst hq
      rw [hchannel]
      rw [update_self] at he'
      exact mem_cons_of_mem e he'
    · rwa [update_of_ne hq] at he'
  refine ⟨hmid.ne_zero, fun q w hw => ⟨(hmid.owns q w hw).tasks, (hmid.owns q w hw).responses⟩,
    fun d hd => ?_⟩
  rcases mem_cons.mp hd with rfl | hold
  · obtain ⟨hid, answers, hmem, hrespond⟩ := (h.owns pid w hw).responses e
      (.inr (by rw [hchannel]; exact mem_cons_self))
    exact ⟨hid, answers, hmem, received_of_respond hrespond⟩
  · exact hmid.answered d hold

/-- The response goes where the task came from. -/
theorem process {i : ℕ} (answers : EngineAnswers) (he : s.working[i]? = some e) :
    ReplyInv conv ({ s with working := s.working.eraseIdx i }.processTask conv e answers) := by
  have hmem : e ∈ s.working := mem_of_getElem? he
  have herase : ∀ e', e' ∈ s.requests ∨ e' ∈ s.working.eraseIdx i →
      e' ∈ s.requests ∨ e' ∈ s.working :=
    fun e' he' => he'.imp_right fun he' => (eraseIdx_sublist _ _).subset he'
  -- without a response, a task is gone and nothing else has changed
  have hquiet : ∀ crashed processed, (∀ x ∈ s.processed, x ∈ processed) →
      ReplyInv conv { s with working := s.working.eraseIdx i, crashed, processed } := by
    intro crashed processed hsub
    exact ⟨h.ne_zero, fun q w hw => (h.owns q w hw).mono (fun e' he' _ => herase e' he')
      (fun _ he' => he') hsub, fun d hd => (h.answered d hd).mono hsub⟩
  -- a response is under the process id of the task
  have hrespond : ∀ processed response, (∀ x ∈ s.processed, x ∈ processed) →
      (∀ w, s.waiting e.msg.respChannel = some w →
        Produced conv { s with processed } w ⟨e.id, response⟩) →
      ReplyInv conv ({ s with working := s.working.eraseIdx i, processed }.addResponse
        e.msg.respChannel ⟨e.id, response⟩) := by
    intro processed response hsub hown
    refine ⟨h.ne_zero, fun q w hw => ⟨fun e' he' hq => ?_, fun e' he' => ?_⟩,
      fun d hd => (h.answered d hd).mono hsub⟩
    · exact (h.owns q w hw).tasks e' (herase e' he') hq
    · rcases he' with he' | he'
      · rcases mem_append_singleton.mp he' with hold | hnew
        · exact ((h.owns q w hw).responses e' (.inl hold)).mono hsub
        · obtain ⟨rfl, rfl⟩ := Prod.mk.inj hnew
          exact (hown w hw).mono fun _ hx => hx
      · exact ((h.owns q w hw).responses e' (.inr he')).mono hsub
  -- the task of a call that waits is decoded to what the call asks for
  have hdecode : ∀ w, s.waiting e.msg.respChannel = some w →
      e.id = w.id ∧ decodeTask conv e.msg = some (.value (w.call.work conv)) := by
    intro w hw
    obtain ⟨hid, htask⟩ := (h.owns _ w hw).tasks e (.inr hmem) rfl
    exact ⟨hid, decodeTask_of_task htask⟩
  unfold ReplyState.processTask
  split
  · exact hquiet s.crashed s.processed fun _ hx => hx
  · next work hwork =>
    split
    · next response hresponse =>
      refine hrespond _ response (fun _ hx => mem_cons_of_mem _ hx) fun w hw => ?_
      obtain ⟨hid, hdec⟩ := hdecode w hw
      obtain rfl : work = w.call.work conv := by
        simpa [hwork] using hdec
      exact ⟨hid, answers, by rw [← hid]; exact mem_cons_self, hresponse⟩
    · exact hquiet true _ fun _ hx => mem_cons_of_mem _ hx
  · next text hrefused =>
    refine hrespond s.processed _ (fun _ hx => hx) fun w hw => ?_
    rw [(hdecode w hw).2] at hrefused
    cases hrefused
  · exact hquiet true s.processed fun _ hx => hx
  · exact hquiet true s.processed fun _ hx => hx

theorem respond {i : ℕ} (he : s.responses[i]? = some (pid, e)) :
    ReplyInv conv { s with
      responses := s.responses.eraseIdx i
      channel := update s.channel pid ((s.channel pid).map (· ++ [e])) } := by
  refine h.mono { responses := fun q e' he' => ?_ }
  dsimp only at he'
  rcases he' with he' | he'
  · exact .inl ((eraseIdx_sublist _ _).subset he')
  · by_cases hq : q = pid
    · subst hq
      rw [update_self] at he'
      cases hchannel : s.channel q with
      | none =>
        rw [hchannel] at he'
        cases he'
      | some es =>
        rw [hchannel] at he'
        rcases mem_append_singleton.mp he' with hold | rfl
        · exact .inr hold
        · exact .inl (mem_of_getElem? he)
    · rw [update_of_ne hq] at he'
      exact .inr he'

end

theorem step {l : ReplyLabel} (h : ReplyInv conv s) (hleft : nothingLeft s l = true)
    (hstep : replyStep conv s l = some s') : ReplyInv conv s' := by
  unfold replyStep at hstep
  split at hstep
  · cases hstep
  unfold ReplyState.next at hstep
  cases l with dsimp only at hstep
  | start pid =>
    split at hstep
    · cases hstep
    · next hno =>
      cases hstep
      exact h.start fun hzero => hno (.inr hzero)
  | exit pid =>
    split at hstep
    · cases hstep
      exact h.exit pid
    · cases hstep
  | call pid call pushed =>
    split at hstep
    · next hidle =>
      cases hstep
      exact h.enter hidle.1 hleft
    · cases hstep
  | interrupt pid =>
    split at hstep
    · cases hstep
      exact h.interrupt pid
    · cases hstep
  | receive pid =>
    split at hstep
    · next w e rest hw hchannel =>
      cases hstep
      exact h.receive hw hchannel
    · cases hstep
  | take =>
    split at hstep
    · next e rest hrunning hrequests =>
      have htail : ∀ e', e' ∈ rest → e' ∈ s.requests := by
        intro e' he'
        rw [hrequests]
        exact mem_cons_of_mem e he'
      split at hstep
      · cases hstep
        exact h.mono { tasks := fun _ _ e' he' _ => he'.imp_left (htail e') }
      · cases hstep
        refine h.mono { tasks := fun _ _ e' he' _ => ?_ }
        rcases he' with he' | he'
        · exact .inl (htail e' he')
        · rcases mem_append_singleton.mp he' with hold | rfl
          · exact .inr hold
          · exact .inl (by rw [hrequests]; exact mem_cons_self)
    · cases hstep
  | process i answers =>
    split at hstep
    · next e he =>
      cases hstep
      exact h.process answers he
    · cases hstep
  | respond i pushed =>
    split at hstep
    · next pid e he =>
      split at hstep
      · cases hstep
        exact h.respond he
      · -- the push failed, and the response is lost
        cases hstep
        exact h.mono
          { responses := fun _ _ he' => he'.imp_left fun he' => (eraseIdx_sublist _ _).subset he' }
    · cases hstep
  | terminate =>
    split at hstep
    · cases hstep
      refine h.mono { tasks := fun pid hpid e' he' heq => he'.imp_left fun he' => ?_ }
      rcases mem_append_singleton.mp he' with hold | rfl
      · exact hold
      · exact absurd heq.symm hpid
    · cases hstep
  | destroy =>
    split at hstep
    · cases hstep
    · cases hstep
      exact h.mono {}

end ReplyInv

/-- **Calls get their own responses.** In every run in which a backend calls only if nothing is
left of earlier calls under its process id, each call that returns has taken the response to its
own task, and returns what the engine has answered for its arguments. -/
theorem calls_get_own_response {ls : List ReplyLabel}
    (hrun : ((replySystem conv).guard fun s l => nothingLeft s l = true).Run replyInit ls s) :
    ∀ d ∈ s.returned, d.Answered conv s := by
  have hI : ReplyInv conv s := by
    apply hrun.invariant ReplyInv.initial
    rintro s l s' hI ⟨hstep, hleft⟩
    exact hI.step hleft hstep
  exact hI.answered

/-- Answers of an engine that does everything, and of one that saves nothing. -/
def answersYes : EngineAnswers := ⟨true, some (leBytes 3 7), none, some (1, 2)⟩

def answersNo : EngineAnswers := ⟨false, none, some none, none⟩

/-- Save the model "ab". -/
def saveAb : NSCall := .sql (.nsSaveModel abString 0 abString)

/-- Load the model "ab". -/
def loadAb : NSCall := .sql (.nsLoadModel abString .float32 true)

/-- Two backends call, and the second gets its answer first. -/
def saveAndLoad : List ReplyLabel :=
  [.start 100, .start 200, .call 100 saveAb true, .call 200 loadAb true, .take, .take,
    .process 1 answersYes, .process 0 answersNo, .respond 0 true, .respond 0 true, .receive 200,
    .receive 100]

/-- The load returns the model, and the save that failed returns false. -/
theorem own_response_save_and_load : ∃ s,
    ((replySystem bitConversion).guard fun s l => nothingLeft s l = true).Run replyInit
      saveAndLoad s ∧
    s.returned.map (fun d => (d.call, d.result)) =
      [(saveAb, .boolean false), (loadAb, .bytea (leBytes 3 7))] ∧
    ∀ d ∈ s.returned, d.Answered bitConversion s :=
  System.exists_guard_run_of_exec (P := fun s => s.returned.map (fun d => (d.call, d.result)) =
    [(saveAb, .boolean false), (loadAb, .bytea (leBytes 3 7))]) (by decide +kernel)
    fun _ hrun hs => ⟨hs, calls_get_own_response hrun⟩

/-- A backend is interrupted and exits, and another one gets its process id. -/
def interruptAndReuse : List ReplyLabel :=
  [.start 100, .call 100 loadAb true, .interrupt 100, .exit 100, .take, .process 0 answersYes,
    .respond 0 true, .start 100, .call 100 saveAb true, .receive 100, .take, .process 0 answersNo]

/-- **A stale response.** A load is interrupted and its backend exits. A new backend with the same
process id saves a model: it takes the response to the load and returns true, and the engine
then fails to save the model. -/
theorem stale_response_taken : ∃ s,
    (replySystem bitConversion).Run replyInit interruptAndReuse s ∧
    (∃ d ∈ s.returned, d.call = saveAb ∧ d.result = .boolean true ∧ d.responseId ≠ d.id) ∧
    ∀ x ∈ s.processed, x.work = saveAb.work bitConversion → x.answers.saved = false :=
  System.exists_run_of_exec (by decide +kernel) fun _ _ hs => hs

end NeurDB.NeurStore
