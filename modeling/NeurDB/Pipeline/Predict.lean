import NeurDB.Framework.Bytes
import NeurDB.Pipeline.Progress

/-!
# The answers of PREDICT

`nr_inference` streams the table to the AI engine (`Stream`); the model makes a list of outputs for
each batch, `flatten_2d_array` prints them into one text, and `parseDoubles`
(`nr_ext/src/predict.c`) takes the text apart again, with a buffer of 64 bytes for a number.

When `nr_inference` returns, the answers are those for the first `n_batches` batches
(`answers_of_returned`): each row of them has one answer, in the order of the cursor. The loop stops
after `n_batches` batches without an error. Thus every row of the table has its answer exactly if
the table has no more rows than fit into that many batches
(`inference_answers_every_row_iff`).

`nr_inference` copies `ws->result` after `_clean_up_common` has freed `ws`. The model takes the
memory to be as it was.
-/

namespace NeurDB.Pipeline

open List Nat

variable {α ν : Type}

/-! ### The text of the answers -/

def spaceByte : Byte := ⟨32, by decide⟩

/-- `' '.join`. -/
def joinSpaces (texts : List (List Byte)) : List Byte := [spaceByte].intercalate texts

/-- `flatten_2d_array`. -/
def flatten2dArray (str : ν → List Byte) (arr : List (List ν)) : List Byte :=
  joinSpaces (arr.map fun row => joinSpaces (row.map str))

/-- `sizeof(buffer)` in `parseDoubles`. -/
def parseBufferSize : ℕ := 64

/-- The loop of `parseDoubles`: the rest of the text, and the characters in the buffer. -/
def parseLoop (atof : List Byte → ν) : List Byte → List Byte → List ν
  | [], buffer => if 0 < buffer.length then [atof buffer] else []
  | c :: str, buffer =>
    if c = zeroByte then
      if 0 < buffer.length then [atof buffer] else []
    else if c = spaceByte then
      if 0 < buffer.length then atof buffer :: parseLoop atof str []
      else parseLoop atof str buffer
    else if buffer.length < parseBufferSize - 1 then parseLoop atof str (buffer ++ [c])
    else parseLoop atof str buffer

/-- `parseDoubles`: the numbers the callback gets. -/
def parseDoubles (atof : List Byte → ν) (str : List Byte) : List ν := parseLoop atof str []

/-- How the two programs write and read numbers: `str` of Python and `atof` of C. A number is
printed without spaces, in at most 24 characters, and is read back. -/
structure NumberText (ν : Type) where
  str : ν → List Byte
  atof : List Byte → ν
  atof_str : ∀ x, atof (str x) = x
  str_ne_nil : ∀ x, str x ≠ []
  length_str : ∀ x, (str x).length ≤ 24
  plain : ∀ x, ∀ c ∈ str x, c ≠ zeroByte ∧ c ≠ spaceByte

namespace NumberText

variable (text : NumberText ν)

theorem parseLoop_append {token : List Byte} (rest buffer : List Byte)
    (hplain : ∀ c ∈ token, c ≠ zeroByte ∧ c ≠ spaceByte)
    (hlen : (buffer ++ token).length < parseBufferSize) :
    parseLoop text.atof (token ++ rest) buffer = parseLoop text.atof rest (buffer ++ token) := by
  induction token generalizing buffer with
  | nil => rw [nil_append, append_nil]
  | cons c token ih =>
    obtain ⟨hzero, hspace⟩ := hplain c mem_cons_self
    have hroom : buffer.length < parseBufferSize - 1 := by
      rw [length_append, length_cons] at hlen
      omega
    rw [cons_append, parseLoop, if_neg hzero, if_neg hspace, if_pos hroom,
      ih _ (fun c hc => hplain c (mem_cons_of_mem _ hc)) (by simpa using hlen),
      append_assoc]
    rfl

theorem parseLoop_str (x : ν) : parseLoop text.atof (text.str x) [] = [x] := by
  have hlen : ([] ++ text.str x).length < parseBufferSize :=
    (text.length_str x).trans_lt (by decide)
  have hpos : 0 < (text.str x).length := length_pos_of_ne_nil (text.str_ne_nil x)
  rw [← append_nil (text.str x), text.parseLoop_append [] [] (text.plain x) hlen,
    nil_append, parseLoop, if_pos hpos, text.atof_str]

theorem parseLoop_str_space (x : ν) (rest : List Byte) :
    parseLoop text.atof (text.str x ++ spaceByte :: rest) [] =
      x :: parseLoop text.atof rest [] := by
  have hlen : ([] ++ text.str x).length < parseBufferSize :=
    (text.length_str x).trans_lt (by decide)
  have hpos : 0 < (text.str x).length := length_pos_of_ne_nil (text.str_ne_nil x)
  have hspace : spaceByte ≠ zeroByte := by decide
  rw [text.parseLoop_append _ [] (text.plain x) hlen, nil_append, parseLoop, if_neg hspace,
    if_pos rfl, if_pos hpos, text.atof_str]

theorem parseLoop_joinSpaces_space (xs : List ν) (rest : List Byte) :
    parseLoop text.atof (joinSpaces (xs.map text.str) ++ spaceByte :: rest) [] =
      xs ++ parseLoop text.atof rest [] := by
  induction xs with
  | nil =>
    -- an empty row: the space behind it is skipped
    have hspace : spaceByte ≠ zeroByte := by decide
    show parseLoop text.atof (spaceByte :: rest) [] = _
    rw [parseLoop, if_neg hspace, if_pos rfl, if_neg (by decide), nil_append]
  | cons x xs ih =>
    cases xs with
    | nil =>
      rw [map_singleton, joinSpaces, intercalate_singleton, text.parseLoop_str_space]
      rfl
    | cons y ys =>
      rw [map_cons, map_cons, joinSpaces, intercalate_cons_cons, append_assoc,
        append_assoc, singleton_append, text.parseLoop_str_space]
      exact congrArg (x :: ·) ih

theorem parseLoop_joinSpaces (xs : List ν) :
    parseLoop text.atof (joinSpaces (xs.map text.str)) [] = xs := by
  induction xs with
  | nil => rfl
  | cons x xs ih =>
    cases xs with
    | nil => rw [map_singleton, joinSpaces, intercalate_singleton, text.parseLoop_str]
    | cons y ys =>
      rw [map_cons, map_cons, joinSpaces, intercalate_cons_cons, append_assoc,
        singleton_append, text.parseLoop_str_space]
      exact congrArg (x :: ·) ih

/-- **The numbers come back**, in the order of the batches. -/
theorem parseDoubles_flatten2dArray (arr : List (List ν)) :
    parseDoubles text.atof (flatten2dArray text.str arr) = arr.flatten := by
  unfold parseDoubles flatten2dArray
  induction arr with
  | nil => rfl
  | cons row arr ih =>
    cases arr with
    | nil =>
      rw [map_singleton, joinSpaces, intercalate_singleton, text.parseLoop_joinSpaces,
        flatten_singleton]
    | cons row' arr =>
      rw [map_cons, map_cons, joinSpaces, intercalate_cons_cons, append_assoc,
        singleton_append, text.parseLoop_joinSpaces_space, flatten_cons]
      exact congrArg (row ++ ·) ih

end NumberText

/-! ### What the model has seen -/

/-- How many batches the model has got; the loop reads one before it compares. -/
def SeenOk (nBatches : ℤ) (seen : List (List α)) : Model → Prop
  | .none => seen = []
  | .reading _ _ batchIdx => (seen.length : ℤ) = batchIdx + 1
  | .finished | .returned => (seen.length : ℤ) = nBatches ∧ 1 ≤ nBatches

open ServerTask

theorem SeenOk.next {nBatches batchIdx : ℤ} {seen : List (List α)} {epoch : ℕ} {phase : Phase}
    (h : SeenOk nBatches seen (.reading epoch phase batchIdx)) (batch : List α) :
    SeenOk nBatches (seen ++ [batch])
      ((inference nBatches).next epoch phase batchIdx) := by
  have hlen : ((seen ++ [batch]).length : ℤ) = batchIdx + 1 + 1 := by
    rw [length_append, length_singleton, cast_add, cast_one]
    exact congrArg (· + 1) h
  rw [ServerTask.next]
  by_cases hend : batchIdx + 1 + 1 = (inference nBatches).batchNum phase
  · rw [if_pos hend]
    change (seen.length : ℤ) = batchIdx + 1 at h
    change batchIdx + 1 + 1 = nBatches at hend
    exact ⟨hlen.trans hend, by omega⟩
  · rw [if_neg hend]
    exact hlen

/-- A result is what the model has made of the batches it has got. -/
structure InferenceOk (nBatches : ℤ) (s : State α) : Prop where
  seen : SeenOk nBatches s.seen s.model
  message : ∀ seen, .result seen ∈ s.toClient → s.model = .returned ∧ seen = s.seen
  result : ∀ seen, s.result = some seen → s.model = .returned ∧ seen = s.seen

section

variable {rows : List α} {batchSize nBatches : ℕ} {s s' : State α} {l : Label}

theorem InferenceOk.step (h : InferenceOk nBatches s)
    (hstart : s = init (nrInference rows batchSize nBatches) ∨ Started s)
    (hstep : Pipeline.step (nrInference rows batchSize nBatches) s l = some s') :
    InferenceOk nBatches s' := by
  cases Move.of_step hstep with
  | ack | fetch | enqueue | complete | wsDequeue | handleBatch | put | count | set | stop | wait
  | wake | clear | timeout => exact ⟨h.seen, h.message, h.result⟩
  | wsAck rest hws hmsg | wsRequest rest hws hmsg =>
    refine ⟨h.seen, fun seen hmem => h.message seen ?_, h.result⟩
    rw [hmsg]
    exact mem_cons_of_mem _ hmem
  | wsResult seen rest hws hmsg =>
    refine ⟨h.seen, fun seen hmem => h.message seen ?_, fun seen' heq => ?_⟩
    · rw [hmsg]
      exact mem_cons_of_mem _ hmem
    · cases heq
      exact h.message seen (by rw [hmsg]; exact mem_cons_self)
  | handleTask rest hh hmsg =>
    rcases hstart with rfl | hstarted
    · refine ⟨rfl, fun seen hmem => ?_, nofun⟩
      cases mem_singleton.mp hmem
    · exact absurd (by rw [hmsg]; exact mem_cons_self) hstarted.task
  | start hd | emit hd =>
    refine ⟨h.seen, fun seen hmem => ?_, h.result⟩
    rcases mem_append_singleton.mp hmem with hold | hnew
    · exact h.message seen hold
    · cases hnew
  | read epoch phase batchIdx batch cache hm hcache =>
    refine ⟨(hm ▸ h.seen).next batch, fun seen hmem => ?_, fun seen heq => ?_⟩
    · exact absurd (h.message seen hmem).1 (by rw [hm]; nofun)
    · exact absurd (h.result seen heq).1 (by rw [hm]; nofun)
  | finish hm =>
    have hlen := h.seen
    rw [hm] at hlen
    refine ⟨hlen, fun seen hmem => ⟨rfl, ?_⟩, fun seen heq => ?_⟩
    · rcases mem_append_singleton.mp hmem with hold | hnew
      · exact (h.message seen hold).2
      · cases hnew
        rfl
    · exact absurd (h.result seen heq).1 (by rw [hm]; nofun)

/-- **What `nr_inference` returns** was made of the first `n_batches` batches of the table, and
there were that many. -/
theorem result_of_returned {ls : List Label}
    (hrun : (system (nrInference rows batchSize nBatches)).Run
      (init (nrInference rows batchSize nBatches)) ls s)
    (hreturned : s.client.pc = .returned) :
    s.result = some (batches batchSize nBatches rows) ∧
      (batches batchSize nBatches rows).length = nBatches ∧ 1 ≤ nBatches := by
  obtain ⟨hstart, hok, hclient⟩ : (s = init (nrInference rows batchSize nBatches) ∨ Started s) ∧
      InferenceOk nBatches s ∧ ResultOk s := by
    refine hrun.invariant
      (I := fun s => (s = init (nrInference rows batchSize nBatches) ∨ Started s) ∧
        InferenceOk nBatches s ∧ ResultOk s)
      ⟨.inl rfl, ⟨rfl, nofun, nofun⟩, ⟨nofun, nofun, nofun⟩⟩ ?_
    rintro s s' l ⟨hstart, hok, hclient⟩ hstep
    refine ⟨.inr ?_, hok.step hstart hstep, hclient.step le_rfl hstep⟩
    rcases hstart with rfl | hstarted
    · exact started_of_init hstep
    · exact hstarted.step hstep
  obtain ⟨seen, hseen⟩ := Option.ne_none_iff_exists'.mp (hclient.client hreturned)
  obtain ⟨hm, rfl⟩ := hok.result seen hseen
  obtain ⟨hlen, hpos⟩ : (s.seen.length : ℤ) = nBatches ∧ 1 ≤ (nBatches : ℤ) := by
    have hseen := hok.seen
    rw [hm] at hseen
    exact hseen
  -- nothing else can be in the stream
  have hle := length_batches_le batchSize nBatches rows
  have hprefix : s.seen <+: batches batchSize nBatches rows := by
    have hstream :
        s.stream (nrInference rows batchSize nBatches) = batches batchSize nBatches rows :=
      stream_eq hrun
    rw [← hstream]
    exact prefix_append _ _
  have heq : s.seen = batches batchSize nBatches rows :=
    hprefix.eq_of_length_le (by omega)
  rw [hseen, ← heq]
  exact ⟨rfl, by omega, by omega⟩

end

/-! ### The answers -/

/-- The outputs of a model for the rows of a table: one for each row, in order. -/
def answers (predict : List α → List ν) (batchSize : ℕ) (rows : List α) : List ν :=
  (batches batchSize rows.length rows).flatMap predict

/-- The result of `nr_inference`, for the batches the model has seen. -/
def inferenceResult (text : NumberText ν) (predict : List α → List ν) (seen : List (List α)) :
    List Byte :=
  flatten2dArray text.str (seen.map predict)

/-- **Every row has its answer**, once and in order, whenever `nr_inference` returns. -/
def AnswersEveryRow (text : NumberText ν) (predict : List α → List ν) (rows : List α)
    (batchSize nBatches : ℕ) : Prop :=
  ∀ ls s, (system (nrInference rows batchSize nBatches)).Run
    (init (nrInference rows batchSize nBatches)) ls s → s.client.pc = .returned →
    ∃ seen, s.result = some seen ∧
      parseDoubles text.atof (inferenceResult text predict seen) = answers predict batchSize rows

section

variable {predict : List α → List ν} {batchSize : ℕ}

theorem length_flatMap_predict (hpredict : ∀ batch, (predict batch).length = batch.length)
    (arr : List (List α)) : (arr.flatMap predict).length = arr.flatten.length := by
  simp [hpredict]

theorem length_answers (hpredict : ∀ batch, (predict batch).length = batch.length)
    (hsize : 0 < batchSize) (rows : List α) :
    (answers predict batchSize rows).length = rows.length := by
  rw [answers, length_flatMap_predict hpredict, batches_flatten hsize, length_take]
  exact Nat.min_eq_right (Nat.le_mul_of_pos_right _ hsize)

theorem batches_eq_of_le {n m : ℕ} {rows : List α} (hn : rows.length ≤ n * batchSize)
    (hm : rows.length ≤ m * batchSize) : batches batchSize n rows = batches batchSize m rows := by
  induction n generalizing m rows with
  | zero =>
    have hnil : rows = [] := by
      rw [zero_mul] at hn
      exact length_eq_zero_iff.mp (le_zero.mp hn)
    cases m with
    | zero => rfl
    | succ m => rw [hnil, batches, batches, take_nil, if_pos rfl]
  | succ n ih =>
    cases m with
    | zero =>
      have hnil : rows = [] := by
        rw [zero_mul] at hm
        exact length_eq_zero_iff.mp (le_zero.mp hm)
      rw [hnil, batches, batches, take_nil, if_pos rfl]
    | succ m =>
      rw [add_one_mul] at hn hm
      have hdrop := @ih m (rows.drop batchSize) (by rw [length_drop]; omega)
        (by rw [length_drop]; omega)
      rw [batches, batches, hdrop]

end

/-! ### A run that returns -/

section Returning

variable {rows : List α} {batchSize nBatches k : ℕ}

/-- After `k` rounds: the next batch is requested and still in the table. -/
def atRound (rows : List α) (batchSize nBatches k : ℕ) : State α where
  client := ⟨.fetch, rows.drop (k * batchSize), k, 0⟩
  taskAcknowledged := true
  result := none
  queue := []
  wsThread := .idle
  toClient := [.requestData]
  toServer := []
  handler := .idle
  cache := []
  currentBatchNum := k
  fullEvent := false
  dispatcher := if k + 1 < nBatches then .waiting else .returned
  model := .reading 0 .inference (k - 1)
  seen := batches batchSize k rows

theorem batches_succ (hrows : k * batchSize < rows.length) (hsize : 0 < batchSize) :
    batches batchSize (k + 1) rows =
      batches batchSize k rows ++ [(rows.drop (k * batchSize)).take batchSize] := by
  induction k generalizing rows with
  | zero =>
    have hne : rows.take batchSize ≠ [] := by
      rw [Ne, take_eq_nil_iff]
      rintro (h | rfl)
      · omega
      · simp at hrows
    simp [batches, hne]
  | succ k ih =>
    rw [add_one_mul] at hrows
    have hne : rows.take batchSize ≠ [] := by
      rw [Ne, take_eq_nil_iff]
      rintro (h | rfl)
      · omega
      · simp at hrows
    have hdrop := @ih (rows.drop batchSize) (by rw [length_drop]; omega)
    rw [batches, if_neg hne, hdrop, batches, if_neg hne, drop_drop, add_one_mul,
      add_comm (k * batchSize)]
    rfl

/-- The client hands over a batch, which is sent and counted. -/
def handOver : List Label := [.client, .client] ++ deliver

theorem exec_handOver (hrows : k * batchSize < rows.length) (hsize : 0 < batchSize)
    (hk : k < nBatches) :
    System.exec (step (nrInference rows batchSize nBatches)) (atRound rows batchSize nBatches k)
      handOver = some { atRound rows batchSize nBatches k with
        client := ⟨.fetch, rows.drop ((k + 1) * batchSize), k + 1, 0⟩
        toClient := []
        cache := [(rows.drop (k * batchSize)).take batchSize]
        currentBatchNum := k + 1
        fullEvent := true } := by
  have hne : (rows.drop (k * batchSize)).take batchSize ≠ [] := by
    rw [Ne, take_eq_nil_iff, drop_eq_nil_iff]
    omega
  simp [handOver, deliver, System.exec, step, clientStep, fetchStep, wsStep, handlerStep, atRound,
    nrInference, Client.alive, queueMaxSize, cacheSize, hne, not_lt.mpr (succ_le_of_lt hk)]
  rw [add_one_mul]

theorem exec_opening (rows : List α) (batchSize nBatches : ℕ) :
    System.exec (step (nrInference rows batchSize nBatches))
      (init (nrInference rows batchSize nBatches)) opening =
      some (atRound rows batchSize nBatches 0) := by
  by_cases hmore : 1 < nBatches
  · simp [opening, System.exec, step, clientStep, wsStep, handlerStep, dispatcherStep, init,
      atRound, nrInference, Client.alive, start, totalBatchNum, hmore,
      batches, not_le.mpr hmore]
  · simp [opening, System.exec, step, clientStep, wsStep, handlerStep, dispatcherStep, init,
      atRound, nrInference, Client.alive, ServerTask.start, ServerTask.totalBatchNum, hmore,
      batches, not_lt.mp hmore]

theorem exec_round (hrows : k * batchSize < rows.length) (hsize : 0 < batchSize)
    (hk : k + 1 < nBatches) :
    System.exec (step (nrInference rows batchSize nBatches)) (atRound rows batchSize nBatches k)
      (handOver ++ (again ++ [.model])) = some (atRound rows batchSize nBatches (k + 1)) := by
  rw [System.exec_append, exec_handOver hrows hsize (by omega), Option.bind_some]
  have hloop : (k : ℤ) + 1 ≠ nBatches := by omega
  by_cases hmore : k + 1 + 1 < nBatches
  · have htime : ¬ (nBatches : ℤ) ≤ k + 1 + 1 := by omega
    simp [again, System.exec, step, dispatcherStep, modelStep, nrInference, atRound, hk, htime,
      hloop, ServerTask.totalBatchNum, ServerTask.next, ServerTask.batchNum, hmore,
      batches_succ hrows hsize]
  · have htime : (nBatches : ℤ) ≤ k + 1 + 1 := by omega
    simp [again, System.exec, step, dispatcherStep, modelStep, nrInference, atRound, hk, htime,
      hloop, ServerTask.totalBatchNum, ServerTask.next, ServerTask.batchNum, hmore,
      batches_succ hrows hsize]

theorem exec_last (hrows : k * batchSize < rows.length) (hsize : 0 < batchSize)
    (hk : k + 1 = nBatches) :
    (System.exec (step (nrInference rows batchSize nBatches)) (atRound rows batchSize nBatches k)
      (handOver ++ [.model, .model, .client, .ws, .client])).map (·.client.pc) =
      some .returned := by
  rw [System.exec_append, exec_handOver hrows hsize (by omega), Option.bind_some]
  have hloop : (k : ℤ) + 1 = nBatches := by omega
  simp [System.exec, step, clientStep, fetchStep, wsStep, modelStep, nrInference, atRound, ← hk,
    ServerTask.next, ServerTask.batchNum, ServerTask.afterLoop, Client.alive]

theorem exists_run_atRound (hsize : 0 < batchSize) (hk : k < nBatches)
    (hrows : k * batchSize < rows.length) :
    ∃ ls, System.exec (step (nrInference rows batchSize nBatches))
      (init (nrInference rows batchSize nBatches)) ls =
      some (atRound rows batchSize nBatches k) := by
  induction k with
  | zero => exact ⟨opening, exec_opening rows batchSize nBatches⟩
  | succ k ih =>
    rw [add_one_mul] at hrows
    obtain ⟨ls, hls⟩ := ih (by omega) (by omega)
    refine ⟨ls ++ (handOver ++ (again ++ [.model])), ?_⟩
    rw [System.exec_append, hls, Option.bind_some, exec_round (by omega) hsize hk]

/-- **`nr_inference` can return**, if the table has a row for each of the batches. -/
theorem exists_run_returned (hsize : 0 < batchSize) (hn : 1 ≤ nBatches)
    (hrows : nBatches * batchSize < rows.length + batchSize) :
    ∃ ls s, (system (nrInference rows batchSize nBatches)).Run
      (init (nrInference rows batchSize nBatches)) ls s ∧ s.client.pc = .returned := by
  obtain ⟨k, rfl⟩ : ∃ k, nBatches = k + 1 := ⟨nBatches - 1, by omega⟩
  rw [add_one_mul] at hrows
  have hlast : k * batchSize < rows.length := by omega
  obtain ⟨ls, hls⟩ := exists_run_atRound hsize (lt_succ_self k) hlast
  obtain ⟨s, hs, hpc⟩ := Option.map_eq_some_iff.mp (exec_last hlast hsize rfl)
  refine ⟨ls ++ (handOver ++ [.model, .model, .client, .ws, .client]), s, .of_exec ?_, hpc⟩
  rw [System.exec_append, hls, Option.bind_some, hs]

end Returning

/-- **Every row has its answer exactly if** the table has no more rows than fit into the batches.
(With no batch at all `nr_inference` does not return.) -/
theorem inference_answers_every_row_iff (text : NumberText ν) {predict : List α → List ν}
    (hpredict : ∀ batch, (predict batch).length = batch.length) {batchSize : ℕ}
    (hsize : 1 ≤ batchSize) (rows : List α) (nBatches : ℕ) :
    AnswersEveryRow text predict rows batchSize nBatches ↔
      nBatches = 0 ∨ rows.length ≤ nBatches * batchSize := by
  have hanswers : ∀ seen, parseDoubles text.atof (inferenceResult text predict seen) =
      seen.flatMap predict := by
    intro seen
    rw [inferenceResult, text.parseDoubles_flatten2dArray]
    rfl
  constructor
  · intro hall
    by_contra hmore
    obtain ⟨hn, hrows⟩ := not_or.mp hmore
    -- the run returns, with answers for the first rows only
    have hbatches : nBatches * batchSize < rows.length + batchSize := by omega
    obtain ⟨ls, s, hrun, hpc⟩ := exists_run_returned hsize (by omega) hbatches
    obtain ⟨seen, hseen, heq⟩ := hall ls s hrun hpc
    obtain ⟨hresult, -⟩ := result_of_returned hrun hpc
    obtain rfl : batches batchSize nBatches rows = seen :=
      Option.some.inj (hresult.symm.trans hseen)
    rw [hanswers] at heq
    have hlen := congrArg length heq
    rw [length_answers hpredict hsize, length_flatMap_predict hpredict, batches_flatten hsize,
      length_take] at hlen
    omega
  · rintro hfit ls s hrun hpc
    obtain ⟨hresult, -, hn⟩ := result_of_returned hrun hpc
    have hfit : rows.length ≤ nBatches * batchSize := hfit.resolve_left (by omega)
    refine ⟨_, hresult, ?_⟩
    rw [hanswers, answers, batches_eq_of_le hfit (Nat.le_mul_of_pos_right _ hsize)]

def lastDigit (n : ℕ) : Fin 10 := ⟨n % 10, mod_lt _ (zero_lt_succ 9)⟩

/-- Numbers below ten, as their digit. -/
def digitText : NumberText (Fin 10) where
  str x := [⟨48 + x.val, by omega⟩]
  atof l := match l with
    | c :: _ => lastDigit (c.val - 48)
    | [] => lastDigit 0
  atof_str x := by
    ext
    show (48 + x.val - 48) % 10 = x.val
    omega
  str_ne_nil _ := cons_ne_nil _ _
  length_str _ := by
    show 1 ≤ 24
    decide
  plain x c hc := by
    rw [mem_singleton.mp hc]
    refine ⟨fun h => ?_, fun h => ?_⟩
    · have := congrArg Fin.val h
      simp [zeroByte] at this
    · have := congrArg Fin.val h
      simp [spaceByte] at this
      omega

/-- Three rows in batches of two: two batches answer all of them, one does not. -/
theorem inference_answers_three_rows :
    AnswersEveryRow digitText (map lastDigit) [3, 1, 4] 2 2 ∧
      ¬ AnswersEveryRow digitText (map lastDigit) [3, 1, 4] 2 1 :=
  ⟨(inference_answers_every_row_iff digitText (fun _ => length_map _) (by decide) [3, 1, 4]
      2).mpr (.inr (by decide)),
    fun h => absurd
      ((inference_answers_every_row_iff digitText (fun _ => length_map _) (by decide) [3, 1, 4]
        1).mp h) (by decide)⟩

/-- A table with three rows and one batch of two: `nr_inference` returns two answers. -/
theorem inference_drops_rows :
    ∃ ls s, (system (nrInference [3, 1, 4] 2 1)).Run (init (nrInference [3, 1, 4] 2 1)) ls s ∧
      s.client.pc = .returned ∧ ∃ seen, s.result = some seen ∧
        parseDoubles digitText.atof (inferenceResult digitText (map lastDigit) seen) =
          [lastDigit 3, lastDigit 1] := by
  obtain ⟨ls, s, hrun, hpc⟩ : ∃ ls s, (system (nrInference [3, 1, 4] 2 1)).Run
      (init (nrInference [3, 1, 4] 2 1)) ls s ∧ s.client.pc = .returned :=
    exists_run_returned (by decide) (by decide) (by decide)
  exact ⟨ls, s, hrun, hpc, _, (result_of_returned hrun hpc).1, by decide⟩

end NeurDB.Pipeline
