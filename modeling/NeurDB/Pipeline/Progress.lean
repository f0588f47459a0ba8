import NeurDB.Pipeline.Stream

/-!
# When training gets stuck

A run of `nr_train` is stuck when the task is not completed and no thread can go on. This happens

* when the table has fewer batches than `n_batches`: the model, and the websocket thread in
  `dequeue`, wait for the rest;
* when the share of the test loop is not positive (`n_batches` below 10, or from 11 to 14): the
  loop compares after the first batch and never finds its number;
* when the AI engine is configured for several epochs: the dispatcher requests the
  batches of one;
* when the client is asked for several epochs: it crashes at the end of the first one;
* when a batch is counted while the dispatcher is not in `full_event.wait`: between the request and
  `full_event.clear()` the event is lost, and before `time_to_stop` the dispatcher returns too
  early.

**The theorem** (`training_not_stuck`): otherwise no reachable state is stuck. The proof follows a
*token*. Between two rounds of the dispatcher exactly one of the following exists: a request on its
way, the websocket thread in `dequeue`, a batch on its way, a batch in the handler before it is
counted; or it is the turn of the dispatcher (`DispatchOk`).
-/

namespace NeurDB.Pipeline

open List

variable {α : Type}

/-- The task is not completed, and every thread waits or has ended. -/
def Stuck (task : Task α) (s : State α) : Prop :=
  s.result.isNone ∧ (step task s .client).isNone ∧ (step task s .ws).isNone ∧
    (step task s .handler).isNone ∧ (step task s .dispatcher).isNone ∧ (step task s .model).isNone

instance (task : Task α) (s : State α) : Decidable (Stuck task s) :=
  inferInstanceAs (Decidable (_ ∧ _))

/-- Before `self.current_batch_num += 1`. -/
def Handler.counting : Handler α → Bool
  | .count => true
  | _ => false

/-- **Prompt**: the dispatcher is back in `full_event.wait` when a batch is counted, or has
returned, and no wait takes ten minutes. -/
def prompt (s : State α) : Label → Prop
  | .handler => s.handler.counting = true → s.dispatcher = .waiting ∨ s.dispatcher = .returned
  | .timeout => False
  | _ => True

instance (s : State α) : (l : Label) → Decidable (prompt s l)
  | .handler => inferInstanceAs (Decidable (_ → _))
  | .timeout => .isFalse id
  | .client | .ws | .dispatcher | .model => .isTrue trivial

/-! ### The token -/

def ServerMsg.isRequest : ServerMsg α → Bool
  | .requestData => true
  | _ => false

def ClientMsg.isBatch : ClientMsg α → Bool
  | .batchData _ => true
  | .task => false

/-- The handler has a batch that is not counted. -/
def Handler.uncounted : Handler α → ℕ
  | .put _ | .count => 1
  | _ => 0

def WsThread.waiting : WsThread → ℕ
  | .dequeue => 1
  | .idle => 0

/-- The requests that have been sent and whose batch is not counted. -/
def State.tokens (s : State α) : ℕ :=
  s.toClient.countP ServerMsg.isRequest + s.wsThread.waiting +
    s.toServer.countP ClientMsg.isBatch + s.handler.uncounted

/-- Before `full_event.set()`. -/
def Handler.setting : Handler α → Bool
  | .set => true
  | _ => false

/-- Where the token is, for each position of the dispatcher. -/
def DispatchOk (nBatches : ℕ) (s : State α) : Prop :=
  match s.dispatcher with
  | .none | .starting =>
    s.tokens = 0 ∧ s.currentBatchNum = 0 ∧ s.fullEvent = false ∧ s.handler.setting = false
  | .check =>
    s.tokens = 1 ∧ s.fullEvent = false ∧ s.handler.setting = false ∧
      s.currentBatchNum + 1 ≤ nBatches
  | .waiting =>
    (s.tokens = 1 ∧ s.fullEvent = false ∧ s.handler.setting = false ∧
      s.currentBatchNum + 2 ≤ nBatches) ∨
    (s.tokens = 0 ∧ s.fullEvent = !s.handler.setting ∧ s.currentBatchNum + 1 ≤ nBatches)
  | .emitting => s.tokens = 0 ∧ s.handler.setting = false ∧ s.currentBatchNum + 1 ≤ nBatches
  | .clearing => s.tokens = 1 ∧ s.handler.setting = false ∧ s.currentBatchNum + 1 ≤ nBatches
  | .returned => s.currentBatchNum + s.tokens = nBatches

open Handler

section

variable {task : Task α} {s s' : State α} {l : Label}

theorem DispatchOk.congr {nBatches : ℕ} (h : DispatchOk nBatches s)
    (hdispatcher : s'.dispatcher = s.dispatcher) (htokens : s'.tokens = s.tokens)
    (hnum : s'.currentBatchNum = s.currentBatchNum) (hevent : s'.fullEvent = s.fullEvent)
    (hsetting : s'.handler.setting = s.handler.setting) : DispatchOk nBatches s' := by
  unfold DispatchOk
  rw [hdispatcher, htokens, hnum, hevent, hsetting]
  exact h

theorem DispatchOk.step (htotal : task.server.totalBatchNum = task.nBatches)
    (hn : 1 ≤ task.nBatches) (hfresh : .task ∈ s.toServer → s.dispatcher = .none)
    (h : DispatchOk task.nBatches s) (hl : prompt s l) (hstep : Pipeline.step task s l = some s') :
    DispatchOk task.nBatches s' := by
  cases Move.of_step hstep with
  | ack | fetch | enqueue | complete | read => exact h
  | wsAck rest hws hmsg | wsResult seen rest hws hmsg =>
    exact h.congr rfl (by simp [State.tokens, hmsg, ServerMsg.isRequest]) rfl rfl rfl
  | wsRequest rest hws hmsg =>
    refine h.congr rfl ?_ rfl rfl rfl
    simp [State.tokens, hmsg, hws, ServerMsg.isRequest, WsThread.waiting, countP_cons]
  | wsDequeue batch queue hws hqueue =>
    refine h.congr rfl ?_ rfl rfl rfl
    simp only [State.tokens, hws, ClientMsg.isBatch, WsThread.waiting, countP_append,
      countP_singleton, if_true]
    omega
  | handleTask rest hh hmsg =>
    have hd := hfresh (by rw [hmsg]; exact mem_cons_self)
    unfold DispatchOk at h ⊢
    simp only [hd] at h
    simpa [State.tokens, hmsg, hh, ServerMsg.isRequest, ClientMsg.isBatch] using h
  | handleBatch batch rest hh hmsg =>
    refine h.congr rfl ?_ rfl rfl (by rw [hh]; rfl)
    simp only [State.tokens, hmsg, hh, ClientMsg.isBatch, uncounted, countP_cons, if_true]
    omega
  | put batch hh _ =>
    refine h.congr rfl ?_ rfl rfl (by rw [hh]; rfl)
    simp [State.tokens, hh, uncounted]
  | count hh =>
    -- the token reaches the dispatcher, which waits for it or has returned
    have htokens : s.toClient.countP ServerMsg.isRequest + s.wsThread.waiting +
        s.toServer.countP ClientMsg.isBatch + 1 = s.tokens := by
      rw [State.tokens, hh]
      rfl
    rcases hl (by rw [hh]; rfl) with hd | hd
    · simp only [DispatchOk, hd, hh, setting] at h ⊢
      simp only [State.tokens, uncounted]
      rcases h with ⟨h1, hevent, -, hnum⟩ | ⟨h0, -, -⟩
      · exact .inr ⟨by omega, hevent, by omega⟩
      · omega
    · simp only [DispatchOk, hd] at h ⊢
      simp only [State.tokens, uncounted]
      omega
  | set hh =>
    have htokens :
        ({ s with handler := .idle, fullEvent := true } : State α).tokens = s.tokens := by
      simp only [State.tokens, hh, uncounted]
    cases hd : s.dispatcher with
    | waiting =>
      simp only [DispatchOk, hd, hh, setting] at h ⊢
      rcases h with ⟨-, -, hbad, -⟩ | ⟨h0, -, hnum⟩
      · cases hbad
      · exact .inr ⟨htokens.trans h0, rfl, hnum⟩
    | returned =>
      simp only [DispatchOk, hd] at h ⊢
      exact (congrArg (s.currentBatchNum + ·) htokens).trans h
    | none | starting | check | emitting | clearing =>
      simp [DispatchOk, hd, hh, setting] at h
  | start hd =>
    simp only [DispatchOk, hd] at h ⊢
    obtain ⟨h0, hnum, hevent, hsetting⟩ := h
    refine ⟨?_, hevent, hsetting, by omega⟩
    rw [State.tokens] at h0
    simp only [State.tokens, countP_append, countP_singleton, ServerMsg.isRequest, if_true]
    omega
  | stop hd htime =>
    simp only [DispatchOk, hd] at h ⊢
    obtain ⟨h1, -, -, hnum⟩ := h
    rw [htotal] at htime
    show s.currentBatchNum + s.tokens = _
    omega
  | wait hd htime =>
    simp only [DispatchOk, hd] at h ⊢
    obtain ⟨h1, hevent, hsetting, hnum⟩ := h
    rw [htotal] at htime
    exact .inl ⟨h1, hevent, hsetting, by omega⟩
  | wake hd hevent =>
    simp only [DispatchOk, hd] at h ⊢
    rcases h with ⟨-, hbad, -, -⟩ | ⟨h0, hset, hnum⟩
    · rw [hevent] at hbad
      cases hbad
    · rw [hevent] at hset
      exact ⟨h0, by simpa using hset.symm, hnum⟩
  | emit hd =>
    simp only [DispatchOk, hd] at h ⊢
    obtain ⟨h0, hsetting, hnum⟩ := h
    refine ⟨?_, hsetting, hnum⟩
    rw [State.tokens] at h0
    simp only [State.tokens, countP_append, countP_singleton, ServerMsg.isRequest, if_true]
    omega
  | clear hd =>
    simp only [DispatchOk, hd] at h ⊢
    exact ⟨h.1, trivial, h.2.1, h.2.2⟩
  | finish hm => exact h.congr rfl (by simp [State.tokens, ServerMsg.isRequest]) rfl rfl rfl
  | timeout hd hevent => exact hl.elim

end

/-! ### The model -/

/-- The batches of the loops before a loop. -/
def ServerTask.before (server : ServerTask) : Phase → ℤ
  | .train | .inference => 0
  | .eval => server.batchNum .train
  | .test => server.batchNum .train + server.batchNum .eval

/-- One epoch, whose loops all end. -/
structure OneEpoch (task : Task α) : Prop where
  server : ∃ nTrain nEval nTest, task.server = .train 1 nTrain nEval nTest
  pos : ∀ phase, phase ≠ .inference → 1 ≤ task.server.batchNum phase
  total : task.server.totalBatchNum = task.nBatches

/-- How many batches the model has got. -/
def ModelOk (task : Task α) (s : State α) : Prop :=
  match s.model with
  | .none => s.seen = []
  | .reading epoch phase batchIdx =>
    epoch = 0 ∧ phase ≠ .inference ∧ batchIdx + 1 < task.server.batchNum phase ∧
      (s.seen.length : ℤ) = task.server.before phase + (batchIdx + 1)
  | .finished | .returned => s.seen.length = task.nBatches

section

variable {task : Task α} {s s' : State α} {l : Label}

theorem ModelOk.next (htask : OneEpoch task) {seen : List (List α)} {phase : Phase} {batchIdx : ℤ}
    (hphase : phase ≠ .inference) (hlt : batchIdx + 1 < task.server.batchNum phase)
    (hseen : (seen.length : ℤ) = task.server.before phase + (batchIdx + 1)) (batch : List α)
    (hs' : s'.model = task.server.next 0 phase batchIdx) (hseen' : s'.seen = seen ++ [batch]) :
    ModelOk task s' := by
  obtain ⟨nTrain, nEval, nTest, hserver⟩ := htask.server
  have hpos := htask.pos
  have htotal := htask.total
  have hlen : (s'.seen.length : ℤ) = seen.length + 1 := by
    rw [hseen', length_append, length_singleton]
    push_cast
    ring
  rw [hserver] at hpos htotal hlt hseen hs'
  unfold ModelOk ServerTask.next at *
  rw [hs', hserver]
  by_cases hend : batchIdx + 1 + 1 = (ServerTask.train 1 nTrain nEval nTest).batchNum phase
  · -- the loop ends
    rw [if_pos hend]
    cases phase with
    | train =>
      have hnext := hpos .eval nofun
      refine ⟨rfl, nofun, by omega, ?_⟩
      simp only [ServerTask.before, ServerTask.batchNum] at hseen hend ⊢
      omega
    | eval =>
      have hnext := hpos .test nofun
      refine ⟨rfl, nofun, by omega, ?_⟩
      simp only [ServerTask.before, ServerTask.batchNum] at hseen hend ⊢
      omega
    | test =>
      show s'.seen.length = task.nBatches
      simp only [ServerTask.before, ServerTask.batchNum, ServerTask.totalBatchNum]
        at hseen hend htotal
      omega
    | inference => exact absurd rfl hphase
  · rw [if_neg hend]
    exact ⟨rfl, hphase, by omega, by omega⟩

theorem ModelOk.step (htask : OneEpoch task) (hfresh : .task ∈ s.toServer → s.model = .none)
    (h : ModelOk task s) (hstep : Pipeline.step task s l = some s') : ModelOk task s' := by
  cases Move.of_step hstep with
  | handleTask rest hh hmsg =>
    have hm := hfresh (by rw [hmsg]; exact mem_cons_self)
    obtain ⟨nTrain, nEval, nTest, hserver⟩ := htask.server
    have hpos := htask.pos .train nofun
    unfold ModelOk at h ⊢
    rw [hm] at h
    simp only [hserver, ServerTask.start, Nat.lt_one_iff, if_pos] at hpos ⊢
    refine ⟨trivial, nofun, by omega, ?_⟩
    rw [h]
    rfl
  | read epoch phase batchIdx batch cache hm hcache =>
    unfold ModelOk at h
    rw [hm] at h
    obtain ⟨rfl, hphase, hlt, hseen⟩ := h
    exact ModelOk.next htask hphase hlt hseen batch rfl rfl
  | finish hm =>
    unfold ModelOk at h ⊢
    rw [hm] at h
    exact h
  | ack | fetch | enqueue | complete | wsAck | wsRequest | wsResult | wsDequeue | handleBatch | put
  | count | set | start | stop | wait | wake | emit | clear | timeout => exact h

end

/-! ### The other threads -/

/-- The task has arrived at the AI engine; until it is acknowledged, nothing happens at the
client. -/
structure Started (s : State α) : Prop where
  dispatcher : s.dispatcher ≠ .none
  model : s.model ≠ .none
  task : .task ∉ s.toServer
  ack : s.taskAcknowledged = false →
    s.client.pc = .awaitAck ∧ s.wsThread = .idle ∧ ∃ rest, s.toClient = .ackTask :: rest

/-- A result that was sent is on its way or has arrived, and the client waits for it. -/
structure ResultOk (s : State α) : Prop where
  sent : s.model = .returned → s.result = none → ∃ seen, .result seen ∈ s.toClient
  client : s.client.pc = .returned → s.result ≠ none
  alive : s.client.pc ≠ .crashed

/-- A batch is counted once it is in the cache. -/
def CountOk (s : State α) : Prop :=
  s.seen.length + s.cache.length = s.currentBatchNum + s.handler.counting.toNat

section

variable {task : Task α} {s s' : State α} {l : Label}

theorem ServerTask.start_ne (server : ServerTask) :
    server.start ≠ .none ∧ server.start ≠ .returned := by
  cases server with
  | train argsEpoch _ _ _ =>
    simp only [ServerTask.start]
    split <;> simp
  | inference _ => simp [ServerTask.start]

theorem ServerTask.afterLoop_ne (server : ServerTask) (epoch : ℕ) (phase : Phase) :
    server.afterLoop epoch phase ≠ .none ∧ server.afterLoop epoch phase ≠ .returned := by
  unfold ServerTask.afterLoop
  split
  · simp
  · simp
  · split <;> simp
  · simp

theorem ServerTask.next_ne (server : ServerTask) (epoch : ℕ) (phase : Phase) (batchIdx : ℤ) :
    server.next epoch phase batchIdx ≠ .none ∧ server.next epoch phase batchIdx ≠ .returned := by
  unfold ServerTask.next
  split
  · exact server.afterLoop_ne epoch phase
  · simp

theorem started_of_init (hstep : Pipeline.step task (init task) l = some s') : Started s' := by
  cases Move.of_step hstep with
  | handleTask rest hh hmsg =>
    have hrest : rest = [] := (cons.inj hmsg).2.symm
    refine ⟨nofun, task.server.start_ne.1, ?_, fun _ => ⟨rfl, rfl, [], rfl⟩⟩
    rw [hrest]
    exact not_mem_nil
  | ack _ h | wsAck _ _ h | wsRequest _ _ h | wsResult _ _ _ h | handleBatch _ _ _ h => cases h
  | fetch h | enqueue _ h _ | complete h _ | wsDequeue _ _ h _ | put _ h _ | count h | set h
  | start h | stop h _ | wait h _ | wake h _ | emit h | clear h | read _ _ _ _ _ h _ | finish h
  | timeout h _ => cases h

theorem Started.step (h : Started s) (hstep : Pipeline.step task s l = some s') : Started s' := by
  cases Move.of_step hstep with
  | ack hpc hack =>
    exact ⟨h.dispatcher, h.model, h.task, fun hno => absurd hno (by rw [hack]; nofun)⟩
  | fetch hpc | enqueue batch hpc hroom | complete hpc hresult =>
    refine ⟨h.dispatcher, h.model, h.task, fun hno => ?_⟩
    rw [(h.ack hno).1] at hpc
    cases hpc
  | wsAck rest hws hmsg => exact ⟨h.dispatcher, h.model, h.task, nofun⟩
  | wsRequest rest hws hmsg | wsResult seen rest hws hmsg =>
    -- the acknowledgement comes first
    refine ⟨h.dispatcher, h.model, h.task, fun hno => ?_⟩
    obtain ⟨-, -, rest', hfirst⟩ := h.ack hno
    rw [hmsg] at hfirst
    cases hfirst
  | wsDequeue batch queue hws hqueue =>
    refine ⟨h.dispatcher, h.model, fun htask => ?_, fun hno => ?_⟩
    · rcases mem_append_singleton.mp htask with hold | hnew
      · exact h.task hold
      · cases hnew
    · rw [(h.ack hno).2.1] at hws
      cases hws
  | handleTask rest hh hmsg => exact absurd (by rw [hmsg]; exact mem_cons_self) h.task
  | handleBatch batch rest hh hmsg =>
    exact ⟨h.dispatcher, h.model, fun htask => h.task (by rw [hmsg]; exact .tail _ htask), h.ack⟩
  | put | count | set => exact ⟨h.dispatcher, h.model, h.task, h.ack⟩
  | start hd | emit hd =>
    refine ⟨nofun, h.model, h.task, fun hno => ?_⟩
    obtain ⟨hpc, hws, rest, hfirst⟩ := h.ack hno
    exact ⟨hpc, hws, rest ++ [.requestData], by rw [hfirst]; rfl⟩
  | stop | wait | wake | clear | timeout => exact ⟨nofun, h.model, h.task, h.ack⟩
  | read epoch phase batchIdx batch cache hm hcache =>
    exact ⟨h.dispatcher, (task.server.next_ne epoch phase batchIdx).1, h.task, h.ack⟩
  | finish hm =>
    refine ⟨h.dispatcher, nofun, h.task, fun hno => ?_⟩
    obtain ⟨hpc, hws, rest, hfirst⟩ := h.ack hno
    exact ⟨hpc, hws, rest ++ [.result s.seen], by rw [hfirst]; rfl⟩

theorem ResultOk.step (hepoch : task.epoch ≤ 1) (h : ResultOk s)
    (hstep : Pipeline.step task s l = some s') : ResultOk s' := by
  cases Move.of_step hstep with
  | ack | enqueue => exact ⟨h.sent, by simp, by simp⟩
  | fetch hpc =>
    have hpc' : (fetchStep task s.client).pc ≠ .returned ∧
        (fetchStep task s.client).pc ≠ .crashed := by
      have hlast : task.epoch ≤ s.client.currentEpoch + 1 := by omega
      simp only [fetchStep, if_pos hlast]
      split <;> simp
    exact ⟨h.sent, fun hr => absurd hr hpc'.1, hpc'.2⟩
  | complete hpc hresult =>
    refine ⟨h.sent, fun _ hno => ?_, by simp⟩
    change s.result = none at hno
    rw [hno] at hresult
    cases hresult
  | wsAck rest hws hmsg | wsRequest rest hws hmsg =>
    refine ⟨fun hm hno => ?_, h.client, h.alive⟩
    obtain ⟨seen, hseen⟩ := h.sent hm hno
    rw [hmsg] at hseen
    rcases mem_cons.mp hseen with hbad | hrest
    · cases hbad
    · exact ⟨seen, hrest⟩
  | wsResult seen rest hws hmsg => exact ⟨by simp, by simp, h.alive⟩
  | handleTask rest hh hmsg =>
    exact ⟨fun hm => absurd hm task.server.start_ne.2, h.client, h.alive⟩
  | start | emit =>
    refine ⟨fun hm hno => ?_, h.client, h.alive⟩
    obtain ⟨seen, hseen⟩ := h.sent hm hno
    exact ⟨seen, mem_append_left _ hseen⟩
  | read epoch phase batchIdx batch cache hm hcache =>
    exact ⟨fun hm => absurd hm (task.server.next_ne epoch phase batchIdx).2, h.client, h.alive⟩
  | finish hm => exact ⟨fun _ _ => ⟨s.seen, mem_append_right _ (.head _)⟩, h.client, h.alive⟩
  | wsDequeue | handleBatch | put | count | set | stop | wait | wake | clear | timeout =>
    exact ⟨h.sent, h.client, h.alive⟩

theorem CountOk.step (h : CountOk s) (hstep : Pipeline.step task s l = some s') : CountOk s' := by
  unfold CountOk at *
  cases Move.of_step hstep with
  | handleBatch batch rest hh hmsg | set hh => simpa [hh, counting] using h
  | put batch hh hroom =>
    simp only [hh, counting, Bool.toNat_false, Bool.toNat_true, length_append,
      length_singleton] at h ⊢
    omega
  | count hh =>
    simp only [hh, counting, Bool.toNat_false, Bool.toNat_true] at h ⊢
    omega
  | read epoch phase batchIdx batch cache hm hcache =>
    simp only [hcache, length_cons, length_append, length_nil] at h ⊢
    omega
  | ack | fetch | enqueue | complete | wsAck | wsRequest | wsResult | wsDequeue | handleTask
  | start | stop | wait | wake | emit | clear | finish | timeout => exact h

end

/-! ### No run gets stuck -/

/-- What holds along a prompt run. -/
structure ProgressInv (task : Task α) (s : State α) : Prop where
  stream : (s.stream task).length = task.nBatches
  start : s = init task ∨ Started s
  dispatch : DispatchOk task.nBatches s
  model : ModelOk task s
  result : ResultOk s
  count : CountOk s

section

variable {task : Task α} {s s' : State α} {l : Label}

theorem progressInv_init (hlength : (batches task.batchSize task.nBatches task.rows).length =
    task.nBatches) : ProgressInv task (init task) where
  stream := hlength
  start := .inl rfl
  dispatch := ⟨rfl, rfl, rfl, rfl⟩
  model := rfl
  result := ⟨nofun, nofun, nofun⟩
  count := rfl

theorem ProgressInv.step (htask : OneEpoch task) (hn : 1 ≤ task.nBatches) (hepoch : task.epoch ≤ 1)
    (h : ProgressInv task s) (hl : prompt s l) (hstep : Pipeline.step task s l = some s') :
    ProgressInv task s' := by
  have hfresh : .task ∈ s.toServer → s.dispatcher = .none ∧ s.model = .none := by
    intro hmem
    rcases h.start with rfl | hstarted
    · exact ⟨rfl, rfl⟩
    · exact absurd hmem hstarted.task
  refine ⟨by rw [stream_step hstep]; exact h.stream, .inr ?_,
    h.dispatch.step htask.total hn (fun hmem => (hfresh hmem).1) hl hstep,
    h.model.step htask (fun hmem => (hfresh hmem).2) hstep, h.result.step hepoch hstep,
    h.count.step hstep⟩
  rcases h.start with rfl | hstarted
  · exact started_of_init hstep
  · exact hstarted.step hstep

/-! What it means that a thread cannot go on. -/

theorem client_waits (h : clientStep task s = none) :
    (s.client.pc = .awaitAck ∧ s.taskAcknowledged = false) ∨
    (∃ batch, s.client.pc = .enqueue batch ∧ queueMaxSize ≤ s.queue.length) ∨
    s.client.pc = .waitCompletion ∨ s.client.pc = .crashed ∨ s.client.pc = .returned := by
  unfold clientStep at h
  cases hpc : s.client.pc with
  | awaitAck => exact .inl ⟨rfl, by simpa [hpc] using h⟩
  | fetch => simp [hpc] at h
  | enqueue batch => exact .inr (.inl ⟨batch, rfl, by simpa [hpc] using h⟩)
  | waitCompletion => exact .inr (.inr (.inl rfl))
  | crashed => exact .inr (.inr (.inr (.inl rfl)))
  | returned => exact .inr (.inr (.inr (.inr rfl)))

theorem ws_waits (halive : s.client.pc ≠ .crashed) (h : wsStep s = none) :
    (s.wsThread = .idle ∧ s.toClient = []) ∨ (s.wsThread = .dequeue ∧ s.queue = []) := by
  have halive' : s.client.alive = true := by
    unfold Client.alive
    split
    · next hpc => exact absurd hpc halive
    · rfl
  unfold wsStep at h
  rw [if_pos halive'] at h
  cases hws : s.wsThread with
  | idle =>
    refine .inl ⟨rfl, ?_⟩
    simp only [hws] at h
    split at h <;> first | assumption | cases h
  | dequeue =>
    refine .inr ⟨rfl, ?_⟩
    simp only [hws] at h
    split at h <;> first | assumption | cases h

theorem handler_waits (h : handlerStep task s = none) :
    (s.handler = .idle ∧ s.toServer = []) ∨
    (∃ batch, s.handler = .put batch ∧ cacheSize ≤ s.cache.length) := by
  unfold handlerStep at h
  cases hh : s.handler with
  | idle =>
    refine .inl ⟨rfl, ?_⟩
    simp only [hh] at h
    split at h <;> first | assumption | cases h
  | put batch => exact .inr ⟨batch, rfl, by simpa [hh] using h⟩
  | count | set => simp [hh] at h

theorem dispatcher_waits (h : dispatcherStep task s = none) :
    s.dispatcher = .none ∨ (s.dispatcher = .waiting ∧ s.fullEvent = false) ∨
      s.dispatcher = .returned := by
  unfold dispatcherStep at h
  cases hd : s.dispatcher with
  | none => exact .inl rfl
  | waiting => exact .inr (.inl ⟨rfl, by simpa [hd] using h⟩)
  | returned => exact .inr (.inr rfl)
  | check =>
    simp only [hd] at h
    split at h <;> cases h
  | starting | emitting | clearing => simp [hd] at h

theorem model_waits (h : modelStep task s = none) :
    s.model = .none ∨ (∃ epoch phase k, s.model = .reading epoch phase k ∧ s.cache = []) ∨
      s.model = .returned := by
  unfold modelStep at h
  cases hm : s.model with
  | none => exact .inl rfl
  | reading epoch phase k =>
    refine .inr (.inl ⟨epoch, phase, k, rfl, ?_⟩)
    simp only [hm] at h
    split at h <;> first | assumption | cases h
  | finished => simp [hm] at h
  | returned => exact .inr (.inr rfl)

theorem ModelOk.seen_lt (htask : OneEpoch task) (h : ModelOk task s) {epoch : ℕ} {phase : Phase}
    {k : ℤ} (hm : s.model = .reading epoch phase k) : s.seen.length < task.nBatches := by
  obtain ⟨nTrain, nEval, nTest, hserver⟩ := htask.server
  have hpos := htask.pos
  have htotal := htask.total
  unfold ModelOk at h
  rw [hm] at h
  obtain ⟨-, hphase, hlt, hseen⟩ := h
  have hTrain := hpos .train nofun
  have hEval := hpos .eval nofun
  have hTest := hpos .test nofun
  rw [hserver] at htotal hTrain hEval hTest hlt hseen
  simp only [ServerTask.totalBatchNum, ServerTask.batchNum] at htotal hTrain hEval hTest
  cases phase with
  | inference => exact absurd rfl hphase
  | train | eval | test =>
    simp only [ServerTask.before, ServerTask.batchNum] at hlt hseen
    omega

theorem length_stream (task : Task α) (s : State α) : (s.stream task).length =
    s.seen.length + (s.cache.length + (s.handler.held.length +
      ((s.toServer.flatMap ClientMsg.held).length +
        (s.queue.length + (s.client.upcoming task).length)))) := by
  simp [State.stream]

/-- The handler waits for a message only: if it waits for room in the cache, the model can go on. -/
theorem ProgressInv.handler_idle (h : ProgressInv task s) (hstarted : Started s)
    (hhandler : handlerStep task s = none) (hmodel : modelStep task s = none) :
    s.handler = .idle ∧ s.toServer = [] := by
  refine (handler_waits hhandler).resolve_right ?_
  rintro ⟨batch, hput, hfull⟩
  rcases model_waits hmodel with hm | ⟨epoch, phase, k, -, hempty⟩ | hm
  · exact hstarted.model hm
  · rw [hempty] at hfull
    exact absurd hfull (by rw [length_nil]; decide)
  · have hall := h.model
    unfold ModelOk at hall
    rw [hm] at hall
    have hstream := h.stream
    rw [length_stream, hput] at hstream
    simp only [held, length_singleton] at hstream
    change s.seen.length = task.nBatches at hall
    omega

/-- **A prompt run is never stuck.** -/
theorem ProgressInv.not_stuck (htask : OneEpoch task) (h : ProgressInv task s) :
    ¬ Stuck task s := by
  rintro ⟨hresult, hclient, hws, hhandler, hdispatcher, hmodel⟩
  rw [Option.isNone_iff_eq_none] at hresult hclient hws hhandler hdispatcher hmodel
  rcases h.start with rfl | hstarted
  · -- the task is on its way
    cases hhandler
  have hack : s.taskAcknowledged ≠ false := by
    intro hno
    obtain ⟨-, hidle, rest, hmsg⟩ := hstarted.ack hno
    rcases ws_waits h.result.alive hws with ⟨-, hnil⟩ | ⟨hdeq, -⟩
    · rw [hmsg] at hnil
      cases hnil
    · rw [hidle] at hdeq
      cases hdeq
  obtain ⟨hidle, hserver⟩ := h.handler_idle hstarted hhandler hmodel
  have hstream := h.stream
  have hcount := h.count
  have hdispatch := h.dispatch
  rw [length_stream, hidle, hserver] at hstream
  unfold CountOk at hcount
  rw [hidle] at hcount
  simp only [held, counting, flatMap_nil, length_nil,
    Bool.toNat_false] at hstream hcount
  -- the token is a request on its way, or the websocket thread in `dequeue`
  have htokens : s.tokens = s.toClient.countP ServerMsg.isRequest + s.wsThread.waiting := by
    rw [State.tokens, hidle, hserver]
    rfl
  have hturn : s.currentBatchNum + s.tokens = task.nBatches ∨
      (s.tokens = 1 ∧ s.currentBatchNum < task.nBatches) := by
    rcases dispatcher_waits hdispatcher with hd | ⟨hd, hevent⟩ | hd
    · exact absurd hd hstarted.dispatcher
    · simp only [DispatchOk, hd, hevent, hidle, setting] at hdispatch
      rcases hdispatch with ⟨h1, -, -, hnum⟩ | ⟨-, hbad, -⟩
      · exact .inr ⟨h1, by omega⟩
      · cases hbad
    · simp only [DispatchOk, hd] at hdispatch
      exact .inl hdispatch
  have hreading : s.seen.length < task.nBatches ∧ s.cache = [] := by
    rcases model_waits hmodel with hm | ⟨epoch, phase, k, hm, hempty⟩ | hm
    · exact absurd hm hstarted.model
    · exact ⟨h.model.seen_lt htask hm, hempty⟩
    · -- the result is on its way, and no request is before it
      obtain ⟨seen, hseen⟩ := h.result.sent hm hresult
      have hall := h.model
      unfold ModelOk at hall
      rw [hm] at hall
      change s.seen.length = task.nBatches at hall
      rcases ws_waits h.result.alive hws with ⟨-, hnil⟩ | ⟨hdeq, -⟩
      · rw [hnil] at hseen
        cases hseen
      · rw [hdeq] at htokens
        simp only [WsThread.waiting] at htokens
        omega
  obtain ⟨hlt, hempty⟩ := hreading
  rw [hempty, length_nil] at hstream hcount
  rcases ws_waits h.result.alive hws with ⟨hwait, hnil⟩ | ⟨-, hqueue⟩
  · rw [hwait, hnil] at htokens
    simp only [countP_nil, WsThread.waiting] at htokens
    omega
  · -- the queue is empty: the client has room for the next batch
    rw [hqueue, length_nil] at hstream
    rcases client_waits hclient with ⟨-, hno⟩ | ⟨batch, -, hfull⟩ | hpc | hpc | hpc
    · exact hack hno
    · rw [hqueue] at hfull
      exact absurd hfull (by rw [length_nil]; decide)
    · simp only [Client.upcoming, hpc, length_nil] at hstream
      omega
    · exact h.result.alive hpc
    · exact h.result.client hpc hresult

end

theorem oneEpoch_nrTrain {nBatches : ℕ} (htest : 1 ≤ nBatchesTest nBatches) (rows : List α)
    (batchSize epoch : ℕ) : OneEpoch (nrTrain 1 rows batchSize nBatches epoch) where
  server := ⟨_, _, _, rfl⟩
  pos phase hphase := by
    unfold nBatchesTest nBatchesTrain nBatchesEval at htest
    cases phase with
    | inference => exact absurd rfl hphase
    | train | eval | test =>
      simp only [nrTrain, ServerTask.batchNum, nBatchesTest, nBatchesTrain, nBatchesEval]
      omega
  total := by
    simp only [nrTrain, ServerTask.totalBatchNum, nBatchesTest]
    ring

/-- **Training does not get stuck**, if the AI engine and the client are set to one epoch, the table
has a row for each of the batches, the test loop has a batch, and the run is prompt. -/
theorem training_not_stuck {argsEpoch batchSize nBatches epoch : ℕ} {rows : List α}
    (hargs : argsEpoch = 1) (hepoch : epoch = 1) (hsize : 1 ≤ batchSize)
    (hrows : nBatches * batchSize < rows.length + batchSize)
    (htest : 1 ≤ nBatchesTest nBatches) {ls : List Label} {s : State α}
    (hrun : ((system (nrTrain argsEpoch rows batchSize nBatches epoch)).guard prompt).Run
      (init (nrTrain argsEpoch rows batchSize nBatches epoch)) ls s) :
    ¬ Stuck (nrTrain argsEpoch rows batchSize nBatches epoch) s := by
  subst hargs hepoch
  have htask := oneEpoch_nrTrain htest rows batchSize 1
  have hn : 1 ≤ nBatches := by
    unfold nBatchesTest nBatchesTrain nBatchesEval at htest
    omega
  have hinv : ProgressInv (nrTrain 1 rows batchSize nBatches 1) s :=
    hrun.invariant (progressInv_init (length_batches hsize hrows))
      fun _ _ _ h hstep => h.step htask hn le_rfl hstep.2 hstep.1
  exact hinv.not_stuck htask

/-! ### Runs -/

/-- The task arrives, the first batch is requested, and the client begins. -/
def opening : List Label := [.handler, .dispatcher, .dispatcher, .ws, .client]

/-- The client fills the queue, and goes on until it waits. -/
def fill (n : ℕ) : List Label := (replicate n [Label.client, .client]).flatten ++ [.client]

/-- A batch is sent, added to the cache, and counted. -/
def deliver : List Label := [.ws, .ws, .handler, .handler, .handler, .handler]

/-- The dispatcher requests the next batch, and waits or returns. -/
def again : List Label := [.dispatcher, .dispatcher, .dispatcher, .dispatcher]

/-- `n` batches are delivered and read, and the next one is requested. -/
def rounds (n : ℕ) : List Label := (replicate n (deliver ++ again ++ [.model])).flatten

/-- Ten batches of two rows, in ten rounds: the model has seen them all. -/
theorem training_not_stuck_ten_batches :
    ∃ s, ((system (nrTrain 1 (range 20) 2 10 1)).guard prompt).Run
        (init (nrTrain 1 (range 20) 2 10 1))
        (opening ++ fill 10 ++ rounds 9 ++ deliver ++ [.model]) s ∧
      s.seen.length = 10 ∧ ¬ Stuck (nrTrain 1 (range 20) 2 10 1) s :=
  System.exists_guard_run_of_exec (P := fun s => s.seen.length = 10) (by decide +kernel)
    fun _ hrun hseen =>
      ⟨hseen, training_not_stuck rfl rfl (by decide) (by decide) (by decide) hrun⟩

/-- Some run of a task gets stuck. -/
def GetsStuck (task : Task α) : Prop :=
  ∃ ls s, (system task).Run (init task) ls s ∧ Stuck task s

theorem getsStuck_of_exec {task : Task α} (ls : List Label)
    (h : (System.exec (step task) (init task) ls).any (fun s => decide (Stuck task s)) = true) :
    GetsStuck task :=
  ⟨ls, System.exists_run_of_exec h fun _ _ hstuck => hstuck⟩

/-- Training gets stuck, with batches of two rows: with ten batches in the table, when a batch is
counted between the request and `full_event.clear()`; with five batches, where the test loop has
none; with one row for ten batches; with two epochs of the client, or two of the AI engine. -/
theorem training_stuck :
    GetsStuck (nrTrain 1 (range 20) 2 10 1) ∧ GetsStuck (nrTrain 1 (range 10) 2 5 1) ∧
    GetsStuck (nrTrain 1 (range 1) 2 10 1) ∧ GetsStuck (nrTrain 1 (range 20) 2 10 2) ∧
    GetsStuck (nrTrain 2 (range 20) 2 10 1) := by
  refine ⟨?_, ?_, ?_, ?_, ?_⟩
  · -- the second batch is counted before the dispatcher clears the event
    exact getsStuck_of_exec (opening ++ fill 10 ++ deliver ++ [.model, .dispatcher, .dispatcher] ++
      deliver ++ [.dispatcher, .dispatcher, .model]) (by decide +kernel)
  · exact getsStuck_of_exec (opening ++ fill 5 ++ rounds 4 ++ deliver ++ [.model])
      (by decide +kernel)
  · exact getsStuck_of_exec (opening ++ fill 1 ++ rounds 1 ++ [.ws]) (by decide +kernel)
  · exact getsStuck_of_exec (opening ++ fill 10) (by decide +kernel)
  · exact getsStuck_of_exec (opening ++ fill 10 ++ rounds 9 ++ deliver ++ [.model])
      (by decide +kernel)

end NeurDB.Pipeline
