import NeurDB.NeurStore.Payload

/-!
# The tasks of the SQL functions

`pgext/interface.c`: `ns_save_model`, `ns_save_models`, `ns_save_model_dry_run`, the functions that
load a model and `ns_inference` check their array arguments, lay their arguments out in a payload
and make a message of it (`SqlCall.task`). The pieces of a payload are laid out by the same
pattern the handlers walk over, so the round trip is proved piece by piece: words
(`ofBytes_words`), strings (`cstringAt_field`), entries (`entries_roundTrip`), options
(`readOptions_roundTrip`), and then the five kinds of payloads.

**The theorem** (`decoders_inside_iff`) puts both directions together: for which payloads the
handlers stay inside, and that they recover what the SQL functions have encoded.
-/

namespace NeurDB.NeurStore

open List

open Checked

/-! ### The SQL functions -/

/-- A C string, without its terminator. -/
structure CString where
  bytes : List Byte
  no_nul : zeroByte ∉ bytes
  deriving DecidableEq

namespace CString

def empty : CString := ⟨[], List.not_mem_nil⟩

/-- `strlen(s) + 1`. -/
def len (c : CString) : ℕ := c.bytes.length + 1

/-- The string in memory. -/
def field (c : CString) : List Byte := c.bytes ++ [zeroByte]

/-- The string behind its length. -/
def entry (c : CString) : List Byte := leBytes 4 c.len ++ c.field

@[simp] theorem length_field (c : CString) : c.field.length = c.len := by
  simp [field, len]

@[simp] theorem length_entry (c : CString) : c.entry.length = 4 + c.len := by
  simp [entry]

theorem len_pos (c : CString) : 0 < c.len := Nat.succ_pos _

theorem length_mul_le_entries (cs : List CString) : cs.length * 4 ≤ (cs.flatMap entry).length := by
  induction cs with
  | nil => exact Nat.le_refl _
  | cons c cs ih =>
    rw [flatMap_cons, length_append, length_cons, length_entry]
    omega

end CString

/-- A text array. An array without items has no dimension. -/
structure SqlArray where
  ndim : ℕ
  items : List (Option CString)
  ndim_eq_zero : ndim = 0 ↔ items = []
  deriving DecidableEq

/-- The arguments that `ns_save_model_dry_run` and `ns_inference` have in common. -/
structure SqlOptions where
  query : CString
  pgDsn : CString
  inputColumns : SqlArray
  outputColumn : CString
  batchSize : BitVec 32
  tokenizerPath : CString
  padToken : CString
  eosToken : CString
  bosToken : CString
  maxInputLen : BitVec 32
  maxOutputLen : BitVec 32
  loadMode : BitVec 32
  task : BitVec 32
  useGpu : Bool
  deriving DecidableEq

inductive NSLoadMode where
  | float32
  | uint8
  | uint8Delta
  | float16
  deriving DecidableEq

def NSLoadMode.code : NSLoadMode → BitVec 32
  | float32 => 0
  | uint8 => 1
  | uint8Delta => 2
  | float16 => 3

/-- A call of an SQL function. The functions that take a model id have looked up its name. -/
inductive SqlCall where
  | nsSaveModel (modelName : CString) (tolerance : BitVec 32) (modelPath : CString)
  | nsSaveModels (modelNames : SqlArray) (tolerance : BitVec 32) (modelFolderPath : CString)
  | nsSaveModelDryRun (tolerance : BitVec 32) (modelPath : CString) (options : SqlOptions)
  /-- `send_load_model_task`, for the four functions that load a model. -/
  | nsLoadModel (modelName : CString) (loadMode : NSLoadMode) (returnSerialized : Bool)
  | nsInference (modelId : CString) (options : SqlOptions)
  deriving DecidableEq

/-- How a function ends before it has sent a task. -/
inductive SqlFailure where
  | returnedFalse
  | raised (text : String)
  deriving DecidableEq

/-- The items of an array, from index `i` on, if none of them is NULL. -/
def notNull (text : ℕ → String) : ℕ → List (Option CString) → Except SqlFailure (List CString)
  | _, [] => .ok []
  | i, none :: _ => .error (.raised (text i))
  | i, some c :: items => (notNull text (i + 1) items).map (c :: ·)

/-- The columns of the two functions that take them. -/
def SqlOptions.columns (o : SqlOptions) : Except SqlFailure (List CString) :=
  if o.inputColumns.ndim ≠ 1 then .error (.raised "input_columns must be 1-D array")
  else notNull (fun i => s!"input_columns[{i}] is NULL") 0 o.inputColumns.items

/-- The strings of the options, for a model id. -/
def SqlOptions.strings (o : SqlOptions) (modelId : CString) : OptionStrings CString where
  modelId := modelId
  query := o.query
  pgDsn := o.pgDsn
  outputColumn := o.outputColumn
  tokenizerPath := o.tokenizerPath
  padToken := o.padToken
  eosToken := o.eosToken
  bosToken := o.bosToken

namespace OptionStrings

def map {α β : Type} (f : α → β) (s : OptionStrings α) : OptionStrings β where
  modelId := f s.modelId
  query := f s.query
  pgDsn := f s.pgDsn
  outputColumn := f s.outputColumn
  tokenizerPath := f s.tokenizerPath
  padToken := f s.padToken
  eosToken := f s.eosToken
  bosToken := f s.bosToken

/-- The lengths, in the order they are stored in. -/
def words (s : OptionStrings ℕ) : List ℕ :=
  [s.modelId, s.query, s.pgDsn, s.outputColumn, s.tokenizerPath, s.padToken, s.eosToken,
    s.bosToken]

/-- `COPY_STR` for each string. -/
def copied (s : OptionStrings CString) : List Byte :=
  s.modelId.field ++ (s.query.field ++ (s.pgDsn.field ++ (s.outputColumn.field ++
    (s.tokenizerPath.field ++ (s.padToken.field ++ (s.eosToken.field ++ s.bosToken.field))))))

end OptionStrings

/-- The words of the payload of `ns_save_model` and `ns_save_models`, behind a double. -/
def saveBytes (conv : FloatConversion) (tolerance : BitVec 32) (first second : ℕ)
    (data : List Byte) : List Byte :=
  leBytes 8 (conv.widen tolerance).toNat ++ ([first, second].flatMap (leBytes 4) ++ data)

/-- The payload of a call, with its columns or names. -/
def SqlCall.payload (conv : FloatConversion) : SqlCall → Except SqlFailure (List Byte)
  | nsSaveModel modelName tolerance modelPath => .ok (saveBytes conv tolerance modelName.len
      modelPath.len (modelName.field ++ modelPath.field))
  | nsSaveModels modelNames tolerance modelFolderPath =>
    if modelNames.ndim ≠ 1 then .error .returnedFalse
    else (notNull (fun _ => "model name cannot be NULL") 0 modelNames.items).map fun names =>
      saveBytes conv tolerance modelFolderPath.len names.length
        (modelFolderPath.field ++ names.flatMap CString.entry)
  | nsSaveModelDryRun tolerance modelPath options => options.columns.map fun columns =>
      let strings := options.strings .empty
      ([tolerance.toNat, options.loadMode.toNat, modelPath.len, options.batchSize.toNat,
        options.maxInputLen.toNat, options.maxOutputLen.toNat, options.task.toNat,
        if options.useGpu then 1 else 0] ++ (strings.map CString.len).words ++
          [columns.length]).flatMap (leBytes 4) ++
        (modelPath.field ++ (strings.copied ++ columns.flatMap CString.entry))
  | nsLoadModel modelName loadMode returnSerialized =>
    .ok ([if returnSerialized then 1 else 0, loadMode.code.toNat, modelName.len].flatMap
      (leBytes 4) ++ modelName.field)
  | nsInference modelId options => options.columns.map fun columns =>
      let strings := options.strings modelId
      ([options.batchSize.toNat, options.maxInputLen.toNat, options.maxOutputLen.toNat,
        options.loadMode.toNat, options.task.toNat, if options.useGpu then 1 else 0] ++
          (strings.map CString.len).words ++ [columns.length]).flatMap (leBytes 4) ++
        (strings.copied ++ columns.flatMap CString.entry)

def SqlCall.taskType : SqlCall → NSTaskType
  | nsSaveModel _ _ _ => .saveModel
  | nsSaveModels _ _ _ => .saveModels
  | nsSaveModelDryRun _ _ _ => .saveModelDryRun
  | nsLoadModel _ _ _ => .loadModel
  | nsInference _ _ => .inference

/-- The message a function makes of its payload: the block is allocated, and `NewTask` gets its
size as a 32-bit integer. `none` is NULL. -/
def SqlCall.task (conv : FloatConversion) (call : SqlCall) (procPid : BitVec 32) :
    Except SqlFailure (Option NSTaskMsg) :=
  match call.payload conv with
  | .error e => .error e
  | .ok payload =>
    if Background.maxAllocSize < payload.length then
      .error (.raised s!"invalid memory alloc request size {payload.length}")
    else
      .ok (newTask call.taskType (BitVec.ofNat 32 payload.length) procPid
        (some ⟨payload.take (BitVec.ofNat 32 payload.length).toNat, by
          rw [List.length_take, BitVec.toNat_ofNat]
          exact Nat.min_eq_left (Nat.mod_le _ _)⟩))

/-- The options of a call. -/
def SqlOptions.arguments (o : SqlOptions) (modelId : CString) : InferenceOptions where
  strings := (o.strings modelId).map CString.bytes
  inputColumns := o.inputColumns.items.reduceOption.map CString.bytes
  batchSize := o.batchSize
  maxInputLen := o.maxInputLen
  maxOutputLen := o.maxOutputLen
  loadMode := o.loadMode
  task := o.task
  useGpu := o.useGpu

/-- The arguments of a call, as the engine should get them. -/
def SqlCall.arguments (conv : FloatConversion) : SqlCall → TaskArguments
  | nsSaveModel modelName tolerance modelPath =>
    .saveModel modelName.bytes (conv.widen tolerance) modelPath.bytes
  | nsSaveModels modelNames tolerance modelFolderPath =>
    .saveModels (modelNames.items.reduceOption.map CString.bytes) (conv.widen tolerance)
      modelFolderPath.bytes
  | nsSaveModelDryRun tolerance modelPath options =>
    .saveModelDryRun (conv.widen tolerance) modelPath.bytes options.loadMode
      (options.arguments .empty)
  | nsLoadModel modelName loadMode returnSerialized =>
    .loadModel returnSerialized loadMode.code modelName.bytes
  | nsInference modelId options => .inference (options.arguments modelId)

/-- The handlers for the tasks of a call. -/
def SqlCall.handlers : SqlCall → List Handler
  | nsSaveModel _ _ _ => [.saveModel .background, .saveModel .microservice]
  | nsSaveModels _ _ _ => [.saveModels .background, .saveModels .microservice]
  | nsSaveModelDryRun _ _ _ => [.saveModelDryRun]
  | nsLoadModel _ _ _ => [.loadModel .background, .loadModel .microservice]
  | nsInference _ _ => [.inference .background, .inference .microservice]

/-! ### Round trips -/

variable {p : List Byte} {cs : List CString} {conv : FloatConversion} {msg : NSTaskMsg}
  {tooSmall : String} {i n : ℕ} {o : SqlOptions} {procPid tolerance : BitVec 32} {pre : List Byte}
  {s : OptionStrings CString} {alloc : ℕ → Checked Refusal Unit} {call : SqlCall}
  {lens : OptionStrings ℕ} {rest : List Byte}

theorem exceptMap_eq_ok {ε α β : Type} {f : α → β} {x : Except ε α} {b : β}
    (h : x.map f = .ok b) : ∃ a, x = .ok a ∧ f a = b := by
  cases x with
  | error e => cases h
  | ok a => exact ⟨a, rfl, Except.ok.inj h⟩

theorem items_of_notNull {text : ℕ → String} {items : List (Option CString)}
    (h : notNull text i items = .ok cs) : items = cs.map some := by
  induction items generalizing i cs with
  | nil =>
    obtain rfl := Except.ok.inj h
    rfl
  | cons item items ih =>
    cases item with
    | none => cases h
    | some c =>
      obtain ⟨cs', hrest, rfl⟩ := exceptMap_eq_ok h
      rw [map_cons, ← ih hrest]

theorem reduceOption_map_some (cs : List CString) : (cs.map some).reduceOption = cs := by
  simp [reduceOption]

theorem SqlOptions.reduceOption_of_columns (h : o.columns = .ok cs) :
    o.inputColumns.items.reduceOption = cs := by
  unfold SqlOptions.columns at h
  split at h
  · cases h
  · rw [items_of_notNull h, reduceOption_map_some]

/-- A message that is made carries the whole payload: nothing is cut off. -/
theorem SqlCall.payload_of_task (h : call.task conv procPid = .ok (some msg)) :
    call.payload conv = .ok msg.payload ∧ msg.payload.length ≤ nsMsgSize - nsTaskHdrsz := by
  unfold SqlCall.task at h
  cases hpayload : call.payload conv with
  | error e =>
    rw [hpayload] at h
    cases h
  | ok payload =>
    rw [hpayload] at h
    dsimp only at h
    split at h
    · cases h
    · next hsize =>
      have hnat : (BitVec.ofNat 32 payload.length).toNat = payload.length := by
        rw [BitVec.toNat_ofNat]
        exact Nat.mod_eq_of_lt (by unfold Background.maxAllocSize at hsize; omega)
      have h := Except.ok.inj h
      unfold newTask at h
      split at h
      · cases h
      · next hfits =>
        cases h
        dsimp only
        rw [hnat, take_length]
        rw [hnat] at hfits
        exact ⟨rfl, by omega⟩

theorem header_of_newTask {type : NSTaskType} {payloadSize respChannel : BitVec 32}
    {payload : Option {l : List Byte // l.length = payloadSize.toNat}}
    (h : newTask type payloadSize respChannel payload = some msg) :
    msg.type = type.code ∧ msg.respChannel = respChannel := by
  unfold newTask at h
  split at h
  · cases h
  · split at h <;> cases h <;> exact ⟨rfl, rfl⟩

theorem SqlCall.header_of_task (h : call.task conv procPid = .ok (some msg)) :
    msg.type = call.taskType.code ∧ msg.respChannel = procPid := by
  unfold SqlCall.task at h
  split at h
  · cases h
  · split at h
    · cases h
    · exact header_of_newTask (Except.ok.inj h)

/-- A string is read back from where it was copied to. -/
theorem cstringAt_field {c : CString} {off : ℕ}
    (hp : p = pre ++ (c.field ++ rest)) (hoff : off = pre.length) :
    (cstringAt p off : Checked Refusal (List Byte)) = .value c.bytes := by
  rw [hp, hoff, CString.field, append_assoc]
  exact cstringAt_append pre c.bytes rest c.no_nul

/-- **The entries are read back**: the walk accepts them, and their contents are the strings. -/
theorem entries_roundTrip {post : List Byte} {entry : ℕ → Checked Refusal ℕ} {good : ℕ → Prop}
    (hentry : AcceptsGood p entry good)
    (hgood : ∀ off, 0 < word32 p off → off + 4 + word32 p off ≤ p.length → good off)
    (hp32 : p.length < 2 ^ 32) (cs : List CString) (pre : List Byte)
    (hp : p = pre ++ (cs.flatMap CString.entry ++ post)) :
    ∃ starts, entries entry cs.length pre.length = .value starts ∧
      (cstringsAt p starts : Checked Refusal _) = .value (cs.map CString.bytes) := by
  induction cs generalizing pre with
  | nil => exact ⟨[], rfl, rfl⟩
  | cons c cs ih =>
    have hnext : p = (pre ++ c.entry) ++ (cs.flatMap CString.entry ++ post) := by
      rw [hp, flatMap_cons]
      simp only [append_assoc]
    have hbound : pre.length + (4 + c.len) ≤ p.length := by
      rw [hnext]
      simp only [length_append, CString.length_entry]
      omega
    have hword : word32 p pre.length = c.len := by
      rw [hp, flatMap_cons, CString.entry]
      simp only [append_assoc]
      exact word32_append pre _ (by omega)
    have hvalue : entry pre.length = .value c.len := by
      refine (hentry _ _).mpr ⟨hgood _ ?_ ?_, hword.symm⟩
      · rw [hword]
        exact c.len_pos
      · rw [hword]
        omega
    obtain ⟨starts, hstarts, hstrings⟩ := ih (pre ++ c.entry) hnext
    refine ⟨(pre.length + 4) :: starts, ?_, ?_⟩
    · rw [length_cons, entries, hvalue, value_bind]
      have hcursor : pre.length + 4 + c.len = (pre ++ c.entry).length := by
        rw [length_append, CString.length_entry]
        omega
      rw [hcursor, hstarts]
      rfl
    · have hfield : p = (pre ++ leBytes 4 c.len) ++
          (c.field ++ (cs.flatMap CString.entry ++ post)) := by
        rw [hnext, CString.entry]
        simp only [append_assoc]
      rw [cstringsAt, cstringAt_field hfield (by simp), value_bind, hstrings]
      rfl

theorem OptionStrings.length_copied (s : OptionStrings CString) :
    s.copied.length = (s.map CString.len).total := by
  simp only [copied, length_append, CString.length_field, total, map]
  omega

theorem iocCreate_roundTrip {columns : List ℕ} {texts : List (List Byte)}
    (payload : InferencePayload) (hp : p = pre ++ (s.copied ++ rest))
    (hcolumns : (cstringsAt p columns : Checked Refusal _) = .value texts) :
    iocCreate p ((s.map CString.len).starts pre.length) columns payload = .value
      { strings := s.map CString.bytes
        inputColumns := texts
        batchSize := BitVec.ofNat 32 payload.batchSize
        maxInputLen := BitVec.ofNat 32 payload.maxInputLen
        maxOutputLen := BitVec.ofNat 32 payload.maxOutputLen
        loadMode := BitVec.ofNat 32 payload.loadMode
        task := BitVec.ofNat 32 payload.task
        useGpu := payload.useGpu ≠ 0 } := by
  have h₁ := hp
  unfold OptionStrings.copied at h₁
  simp only [append_assoc] at h₁
  -- each string is behind those before it
  have h₂ := h₁.trans (append_assoc _ _ _).symm
  have h₃ := h₂.trans (append_assoc _ _ _).symm
  have h₄ := h₃.trans (append_assoc _ _ _).symm
  have h₅ := h₄.trans (append_assoc _ _ _).symm
  have h₆ := h₅.trans (append_assoc _ _ _).symm
  have h₇ := h₆.trans (append_assoc _ _ _).symm
  have h₈ := h₇.trans (append_assoc _ _ _).symm
  unfold iocCreate
  simp only [OptionStrings.starts, OptionStrings.map]
  rw [cstringAt_field h₁ rfl, value_bind,
    cstringAt_field h₂ (by simp), value_bind,
    cstringAt_field h₃ (by simp [Nat.add_assoc]), value_bind,
    cstringAt_field h₄ (by simp [Nat.add_assoc]), value_bind,
    cstringAt_field h₅ (by simp [Nat.add_assoc]), value_bind,
    cstringAt_field h₆ (by simp [Nat.add_assoc]), value_bind,
    cstringAt_field h₇ (by simp [Nat.add_assoc]), value_bind,
    cstringAt_field h₈ (by simp [Nat.add_assoc]), value_bind,
    hcolumns, value_bind]
  rfl

/-- **The options are read back.** -/
theorem readOptions_roundTrip {payload : InferencePayload} (halloc : alloc cs.length = .value ())
    (hp : p = pre ++ (s.copied ++ cs.flatMap CString.entry)) (hp32 : p.length < 2 ^ 32)
    (hlens : payload.lens = s.map CString.len) (hn : payload.nInputColumns = cs.length) :
    readOptions alloc p pre.length payload = .value
      { strings := s.map CString.bytes
        inputColumns := cs.map CString.bytes
        batchSize := BitVec.ofNat 32 payload.batchSize
        maxInputLen := BitVec.ofNat 32 payload.maxInputLen
        maxOutputLen := BitVec.ofNat 32 payload.maxOutputLen
        loadMode := BitVec.ofNat 32 payload.loadMode
        task := BitVec.ofNat 32 payload.task
        useGpu := payload.useGpu ≠ 0 } := by
  have hcursor : pre.length + (s.map CString.len).total = (pre ++ s.copied).length := by
    rw [length_append, s.length_copied]
  have hfit : pre.length + (s.map CString.len).total ≤ p.length := by
    calc pre.length + (s.map CString.len).total = (pre ++ s.copied).length := hcursor
      _ ≤ ((pre ++ s.copied) ++ cs.flatMap CString.entry).length :=
        (prefix_append _ _).length_le
      _ = p.length := by rw [hp, append_assoc]
  have hcolumns : p = (pre ++ s.copied) ++ (cs.flatMap CString.entry ++ []) := by
    simpa using hp
  obtain ⟨starts, hstarts, hstrings⟩ := entries_roundTrip (acceptsGood_columnEntry p)
    (fun off _ h => h) hp32 cs (pre ++ s.copied) hcolumns
  unfold readOptions
  rw [hlens, hn, advanceStrings_eq, if_pos hfit, value_bind]
  dsimp only
  rw [halloc, value_bind, hcursor, hstarts, value_bind]
  exact iocCreate_roundTrip payload hp hstrings

theorem InferencePayload.ofBytes_words {b o l t g : ℕ}
    (hlt : ∀ w ∈ [b, i, o, l, t, g] ++ lens.words ++ [n], w < 2 ^ 32) :
    ofBytes (([b, i, o, l, t, g] ++ lens.words ++ [n]).flatMap (leBytes 4)) =
      ⟨b, i, o, l, t, g, lens, n⟩ := by
  have hword := word32_flatMap _ [] hlt
  rw [append_nil] at hword
  rw [mk.injEq, OptionStrings.mk.injEq]
  refine ⟨hword 0 ?_, hword 1 ?_, hword 2 ?_, hword 3 ?_, hword 4 ?_, hword 5 ?_,
    ⟨hword 6 ?_, hword 7 ?_, hword 8 ?_, hword 9 ?_, hword 10 ?_, hword 11 ?_, hword 12 ?_,
      hword 13 ?_⟩, hword 14 ?_⟩ <;> simp [OptionStrings.words]

theorem SaveModelDryRunPayload.ofBytes_words {x l m b o t g : ℕ}
    (hlt : ∀ w ∈ [x, l, m, b, i, o, t, g] ++ lens.words ++ [n], w < 2 ^ 32) :
    ofBytes (([x, l, m, b, i, o, t, g] ++ lens.words ++ [n]).flatMap (leBytes 4)) =
      ⟨BitVec.ofNat 32 x, m, ⟨b, i, o, l, t, g, lens, n⟩⟩ := by
  have hword := word32_flatMap _ [] hlt
  rw [append_nil] at hword
  unfold ofBytes OptionStrings.ofBytes
  rw [mk.injEq, InferencePayload.mk.injEq, OptionStrings.mk.injEq]
  refine ⟨congrArg _ (hword 0 ?_), hword 2 ?_, hword 3 ?_, hword 4 ?_, hword 5 ?_, hword 1 ?_,
    hword 6 ?_, hword 7 ?_, ⟨hword 8 ?_, hword 9 ?_, hword 10 ?_, hword 11 ?_, hword 12 ?_,
      hword 13 ?_, hword 14 ?_, hword 15 ?_⟩, hword 16 ?_⟩ <;> simp [OptionStrings.words]

theorem SavePayload.ofBytes_words {tolerance : BitVec 64} {first second : ℕ}
    (hfirst : first < 2 ^ 32) (hsecond : second < 2 ^ 32) :
    ofBytes (leBytes 8 tolerance.toNat ++ [first, second].flatMap (leBytes 4)) =
      ⟨tolerance, first, second⟩ := by
  have htolerance : BitVec.ofNat 64 (leVal (leBytes 8 tolerance.toNat)) = tolerance :=
    ofNat_leVal_leBytes (by decide) tolerance
  have hword₁ : word32 (leBytes 8 tolerance.toNat ++ (leBytes 4 first ++ leBytes 4 second)) 8 =
      first := word32_append (leBytes 8 tolerance.toNat) (leBytes 4 second) hfirst
  have hword₂ : word32 ((leBytes 8 tolerance.toNat ++ leBytes 4 first) ++
      (leBytes 4 second ++ [])) 12 = second :=
    word32_append (leBytes 8 tolerance.toNat ++ leBytes 4 first) [] hsecond
  rw [append_assoc, append_nil] at hword₂
  unfold ofBytes
  rw [flatMap_cons, flatMap_singleton, hword₁, hword₂,
    take_append_of_le_length (Nat.le_of_eq (length_leBytes 8 _).symm),
    take_of_length_le (Nat.le_of_eq (length_leBytes 8 _)), htolerance]

theorem LoadModelPayload.ofBytes_words {r m : ℕ} (hlt : ∀ w ∈ [r, m, n], w < 2 ^ 32) :
    ofBytes ([r, m, n].flatMap (leBytes 4)) = ⟨r, m, n⟩ := by
  have hword := word32_flatMap _ [] hlt
  rw [append_nil] at hword
  rw [mk.injEq]
  exact ⟨hword 0 (by simp), hword 1 (by simp), hword 2 (by simp)⟩

/-- A handler that checks the size gets the fields of the header. -/
theorem structAt_append {α β : Type} {header data : List Byte} {size : ℕ} (fields : List Byte → α)
    (hsize : header.length = size) (f : α → Checked Refusal β) :
    (refuseIf ((header ++ data).length < size) (.answered tooSmall) >>= fun _ =>
      structAt (header ++ data) size fields >>= f) = f (fields header) := by
  have hle : size ≤ (header ++ data).length := by
    rw [length_append]
    omega
  rw [refuseIf_of_not (Nat.not_lt_of_le hle), value_bind, structAt_of_le fields hle, value_bind,
    take_left' hsize]

theorem saveModelHandler_roundTrip {convert : BitVec 64 → BitVec 64} {name path : CString}
    (hconvert : convert (conv.widen tolerance) = conv.widen tolerance)
    (hp : p = saveBytes conv tolerance name.len path.len (name.field ++ path.field))
    (hp32 : p.length < 2 ^ 32) :
    saveModelHandler tooSmall convert p =
      .value (.saveModel name.bytes (conv.widen tolerance) path.bytes) := by
  rw [saveBytes, ← append_assoc] at hp
  have hheader : (leBytes 8 (conv.widen tolerance).toNat ++
      [name.len, path.len].flatMap (leBytes 4)).length = savePayloadSize := by
    simp [savePayloadSize]
  have hlen : p.length = savePayloadSize + (name.len + path.len) := by
    rw [hp, length_append, hheader, length_append, name.length_field, path.length_field]
  have hpath : p = ((leBytes 8 (conv.widen tolerance).toNat ++
      [name.len, path.len].flatMap (leBytes 4)) ++ name.field) ++ (path.field ++ []) := by
    rw [hp, append_nil, append_assoc _ name.field]
  have hname := name.len_pos
  have hpathlen := path.len_pos
  unfold saveModelHandler
  conv_lhs => rw [hp]
  rw [structAt_append _ hheader, SavePayload.ofBytes_words (by omega) (by omega), ← hp]
  dsimp only
  rw [refuseIf_of_not (by omega), value_bind, cstringAt_field hp hheader.symm, value_bind,
    cstringAt_field hpath (by rw [length_append, hheader, name.length_field]), value_bind,
    hconvert]
  rfl

theorem saveModelsHandler_roundTrip {nameEntry : List Byte → ℕ → Checked Refusal ℕ}
    {folder : CString} {names : List CString} (hnames : names ≠ [])
    (halloc : alloc names.length = .value ()) (hentry : AcceptsGood p (nameEntry p) (GoodName p))
    (hp : p = saveBytes conv tolerance folder.len names.length
      (folder.field ++ names.flatMap CString.entry))
    (hp32 : p.length < 2 ^ 32) :
    saveModelsHandler tooSmall alloc nameEntry p = .value
      (.saveModels (names.map CString.bytes) (conv.widen tolerance) folder.bytes) := by
  rw [saveBytes, ← append_assoc] at hp
  have hsum := CString.length_mul_le_entries names
  have hheader : (leBytes 8 (conv.widen tolerance).toNat ++
      [folder.len, names.length].flatMap (leBytes 4)).length = savePayloadSize := by
    simp [savePayloadSize]
  have hlen : p.length = savePayloadSize + (folder.len + (names.flatMap CString.entry).length) := by
    rw [hp, length_append, hheader, length_append, folder.length_field]
  have hnamesAt : p = ((leBytes 8 (conv.widen tolerance).toNat ++
      [folder.len, names.length].flatMap (leBytes 4)) ++ folder.field) ++
        (names.flatMap CString.entry ++ []) := by
    rw [hp, append_nil, append_assoc _ folder.field]
  obtain ⟨starts, hstarts, hstrings⟩ := entries_roundTrip hentry (fun off h₁ h₂ => ⟨h₁, h₂⟩) hp32
    names _ hnamesAt
  rw [length_append, hheader, folder.length_field] at hstarts
  have hfolder := folder.len_pos
  have hpos := length_pos_of_ne_nil hnames
  unfold saveModelsHandler
  conv_lhs => rw [hp]
  rw [structAt_append _ hheader, SavePayload.ofBytes_words (by omega) (by omega), ← hp]
  dsimp only
  rw [refuseIf_of_not (by omega), value_bind, refuseIf_of_not (by omega), value_bind, halloc,
    value_bind, hstarts, value_bind, hstrings, value_bind, cstringAt_field hp hheader.symm]
  rfl

theorem loadModelHandler_roundTrip {name : CString} {loadMode : NSLoadMode}
    {returnSerialized : Bool}
    (hp : p = [if returnSerialized then 1 else 0, loadMode.code.toNat, name.len].flatMap
      (leBytes 4) ++ name.field)
    (hp32 : p.length < 2 ^ 32) :
    loadModelHandler tooSmall p =
      .value (.loadModel returnSerialized loadMode.code name.bytes) := by
  have hheader : ([if returnSerialized then 1 else 0, loadMode.code.toNat, name.len].flatMap
      (leBytes 4)).length = loadModelPayloadSize := by
    rw [length_flatMap_leBytes]
    rfl
  have hlen : p.length = loadModelPayloadSize + name.len := by
    rw [hp, length_append, hheader, name.length_field]
  have hname := name.len_pos
  have hmode : loadMode.code.toNat ≤ 3 := by
    cases loadMode <;> decide
  have hwords : ∀ w ∈ [if returnSerialized then 1 else 0, loadMode.code.toNat, name.len],
      w < 2 ^ 32 := by
    rw [forall_mem_cons, forall_mem_cons, forall_mem_singleton]
    refine ⟨?_, by omega, by omega⟩
    cases returnSerialized <;> decide
  have hread : p = [if returnSerialized then 1 else 0, loadMode.code.toNat, name.len].flatMap
      (leBytes 4) ++ (name.field ++ []) := by
    rw [hp, append_nil]
  unfold loadModelHandler
  conv_lhs => rw [hp]
  rw [structAt_append _ hheader, LoadModelPayload.ofBytes_words hwords, ← hp]
  dsimp only
  rw [refuseIf_of_not (by omega), value_bind, refuseIf_of_not (by omega), value_bind,
    cstringAt_field hread hheader.symm, value_bind, BitVec.ofNat_toNat, BitVec.setWidth_eq]
  cases returnSerialized <;> rfl

theorem OptionStrings.words_lt {front : List ℕ} (hfront : ∀ w ∈ front, w < 2 ^ 32)
    (h : s.copied.length + (cs.flatMap CString.entry).length < 2 ^ 32) :
    ∀ w ∈ front ++ (s.map CString.len).words ++ [cs.length], w < 2 ^ 32 := by
  have hcolumns := CString.length_mul_le_entries cs
  rw [s.length_copied] at h
  unfold total at h
  intro w hw
  rw [append_assoc, mem_append] at hw
  rcases hw with hw | hw
  · exact hfront w hw
  · simp only [words, mem_append, mem_cons, not_mem_nil, or_false] at hw
    omega

theorem useGpu_lt (useGpu : Bool) : (if useGpu then 1 else 0) < 2 ^ 32 := by
  cases useGpu <;> decide

/-- The words in front of the strings of an inference task. -/
abbrev SqlOptions.inferenceWords (o : SqlOptions) (modelId : CString) (columns : ℕ) : List ℕ :=
  [o.batchSize.toNat, o.maxInputLen.toNat, o.maxOutputLen.toNat, o.loadMode.toNat, o.task.toNat,
    if o.useGpu then 1 else 0] ++ ((o.strings modelId).map CString.len).words ++ [columns]

/-- The words in front of the strings of a dry run. -/
abbrev SqlOptions.saveModelDryRunWords (o : SqlOptions) (tolerance : BitVec 32)
    (modelPath : CString) (columns : ℕ) : List ℕ :=
  [tolerance.toNat, o.loadMode.toNat, modelPath.len, o.batchSize.toNat, o.maxInputLen.toNat,
    o.maxOutputLen.toNat, o.task.toNat, if o.useGpu then 1 else 0] ++
    ((o.strings .empty).map CString.len).words ++ [columns]

theorem inferenceHandler_roundTrip {modelId : CString}
    (hcolumns : o.inputColumns.items.reduceOption = cs) (halloc : alloc cs.length = .value ())
    (hp : p = (o.inferenceWords modelId cs.length).flatMap (leBytes 4) ++
      ((o.strings modelId).copied ++ cs.flatMap CString.entry))
    (hp32 : p.length < 2 ^ 32) :
    inferenceHandler alloc p = .value (.inference (o.arguments modelId)) := by
  have hheader : ((o.inferenceWords modelId cs.length).flatMap (leBytes 4)).length =
      inferencePayloadSize := by
    rw [length_flatMap_leBytes]
    rfl
  have hwords : ∀ w ∈ o.inferenceWords modelId cs.length, w < 2 ^ 32 := by
    apply OptionStrings.words_lt
    · have hgpu := useGpu_lt o.useGpu
      intro w hw
      simp only [mem_cons, not_mem_nil, or_false] at hw
      omega
    · rw [hp, length_append, length_append] at hp32
      omega
  unfold inferenceHandler
  conv_lhs => rw [hp]
  rw [structAt_append _ hheader, InferencePayload.ofBytes_words hwords, ← hp, ← hheader,
    readOptions_roundTrip halloc hp hp32 rfl rfl, value_bind]
  simp only [BitVec.ofNat_toNat, BitVec.setWidth_eq, SqlOptions.arguments, hcolumns]
  cases o.useGpu <;> rfl

theorem handleSaveModelDryRun_roundTrip {modelPath : CString}
    (hcolumns : o.inputColumns.items.reduceOption = cs)
    (halloc : Background.pallocPointers cs.length = .value ())
    (hp : p = (o.saveModelDryRunWords tolerance modelPath cs.length).flatMap (leBytes 4) ++
      (modelPath.field ++ ((o.strings .empty).copied ++ cs.flatMap CString.entry)))
    (hp32 : p.length < 2 ^ 32) :
    Background.handleSaveModelDryRun conv p = .value (.saveModelDryRun (conv.widen tolerance)
      modelPath.bytes o.loadMode (o.arguments .empty)) := by
  have hheader :
      ((o.saveModelDryRunWords tolerance modelPath cs.length).flatMap (leBytes 4)).length =
        saveModelDryRunPayloadSize := by
    rw [length_flatMap_leBytes]
    rfl
  have hlen : p.length = saveModelDryRunPayloadSize + (modelPath.len +
      ((o.strings .empty).copied.length + (cs.flatMap CString.entry).length)) := by
    rw [hp, length_append, hheader, length_append, length_append, modelPath.length_field]
  have hwords : ∀ w ∈ o.saveModelDryRunWords tolerance modelPath cs.length, w < 2 ^ 32 := by
    apply OptionStrings.words_lt
    · have hgpu := useGpu_lt o.useGpu
      intro w hw
      simp only [mem_cons, not_mem_nil, or_false] at hw
      omega
    · omega
  -- the strings of the options stand behind the path
  have hoptions := hp.trans (append_assoc _ _ _).symm
  have hcursor : saveModelDryRunPayloadSize + modelPath.len =
      ((o.saveModelDryRunWords tolerance modelPath cs.length).flatMap (leBytes 4) ++
          modelPath.field).length := by
    rw [length_append, hheader, modelPath.length_field]
  unfold Background.handleSaveModelDryRun
  conv_lhs => rw [hp]
  rw [structAt_append _ hheader, SaveModelDryRunPayload.ofBytes_words hwords, ← hp]
  dsimp only
  rw [advanceStr_eq, if_pos (by omega), value_bind]
  rw [hcursor, readOptions_roundTrip halloc hoptions hp32 rfl rfl, value_bind,
    cstringAt_field hp hheader.symm, value_bind]
  simp only [BitVec.ofNat_toNat, BitVec.setWidth_eq, SqlOptions.arguments, hcolumns]
  cases o.useGpu <;> rfl

/-- Every handler gets the arguments of the call back. -/
theorem handle_task (htask : call.task conv procPid = .ok (some msg)) {h : Handler}
    (hh : h ∈ call.handlers) :
    h.handle conv msg.payload = .value (call.arguments conv) := by
  obtain ⟨hpayload, hsize⟩ := call.payload_of_task htask
  have hp32 : msg.payload.length < 2 ^ 32 := by
    unfold nsMsgSize nsTaskHdrsz at hsize
    omega
  -- the pointers take less memory than `palloc` gives
  have halloc : ∀ cs : List CString, cs.flatMap CString.entry <:+ msg.payload →
      Background.pallocPointers cs.length = .value () := by
    intro cs hcs
    have hsum := CString.length_mul_le_entries cs
    have hle := hcs.length_le
    refine refuseIf_of_not ?_ _
    unfold nsMsgSize nsTaskHdrsz at hsize
    unfold Background.maxAllocSize
    omega
  simp only [SqlCall.handlers] at hh
  cases call with simp only [mem_cons, not_mem_nil, or_false] at hh
  | nsSaveModel modelName tolerance modelPath =>
    have hp := (Except.ok.inj hpayload).symm
    rcases hh with rfl | rfl
    · -- the float the tolerance goes through has the same double
      show Background.handleSaveModel conv msg.payload = _
      refine saveModelHandler_roundTrip ?_ hp hp32
      exact conv.widen_narrow_widen tolerance
    · show Micro.handleSaveModel msg.payload = _
      exact saveModelHandler_roundTrip rfl hp hp32
  | nsSaveModels modelNames tolerance modelFolderPath =>
    unfold SqlCall.payload at hpayload
    dsimp only at hpayload
    split at hpayload
    · cases hpayload
    · next hndim =>
      obtain ⟨names, hitems, hp⟩ := exceptMap_eq_ok hpayload
      replace hitems := items_of_notNull hitems
      have hne : names ≠ [] := by
        rintro rfl
        rw [modelNames.ndim_eq_zero.mpr hitems] at hndim
        exact hndim (by decide)
      have hnames : names.flatMap CString.entry <:+ msg.payload := by
        rw [← hp, saveBytes, ← append_assoc, ← append_assoc]
        exact suffix_append _ _
      rw [SqlCall.arguments, hitems, reduceOption_map_some]
      rcases hh with rfl | rfl
      · exact saveModelsHandler_roundTrip hne (halloc _ hnames)
          (Background.acceptsGood_nameEntry _) hp.symm hp32
      · exact saveModelsHandler_roundTrip hne rfl (Micro.acceptsGood_nameEntry _) hp.symm hp32
  | nsSaveModelDryRun tolerance modelPath options =>
    obtain ⟨columns, hcolumns, hp⟩ := exceptMap_eq_ok hpayload
    obtain rfl := hh
    have hentries : columns.flatMap CString.entry <:+ msg.payload := by
      rw [← hp, ← append_assoc, ← append_assoc]
      exact suffix_append _ _
    exact handleSaveModelDryRun_roundTrip (options.reduceOption_of_columns hcolumns)
      (halloc _ hentries) hp.symm hp32
  | nsLoadModel modelName loadMode returnSerialized =>
    have hp := (Except.ok.inj hpayload).symm
    rcases hh with rfl | rfl
    · exact loadModelHandler_roundTrip hp hp32
    · exact loadModelHandler_roundTrip hp hp32
  | nsInference modelId options =>
    obtain ⟨columns, hcolumns, hp⟩ := exceptMap_eq_ok hpayload
    have hentries : columns.flatMap CString.entry <:+ msg.payload := by
      rw [← hp, ← append_assoc]
      exact suffix_append _ _
    have hread := options.reduceOption_of_columns hcolumns
    rcases hh with rfl | rfl
    · exact inferenceHandler_roundTrip hread (halloc _ hentries) hp.symm hp32
    · exact inferenceHandler_roundTrip hread rfl hp.symm hp32

/-- **What the decoders do with payloads.** A handler reads only bytes of the payload, and answers
or calls the engine, exactly if the payload is terminated: where the checks of the handler let it
through, there is a terminator at or behind the start of its last string; moreover, in the
background service the array of pointers fits into an allocation, and the length field of a name
lies in the payload if the names before it do. And every handler gets the arguments of a call
back from the message the SQL function has made of them. -/
theorem decoders_inside_iff (conv : FloatConversion) :
    (∀ (h : Handler) (p : List Byte), StaysInside (h.handle conv p) ↔ h.Terminated p) ∧
    ∀ (call : SqlCall) (procPid : BitVec 32) (msg : NSTaskMsg),
      call.task conv procPid = .ok (some msg) →
      ∀ h ∈ call.handlers, h.handle conv msg.payload = .value (call.arguments conv) :=
  ⟨fun h p => staysInside_iff conv h p, fun _ _ _ htask _ hh => handle_task htask hh⟩

/-- Conversions that agree with those of IEEE floats at zero, the only number in the examples. -/
def bitConversion : FloatConversion where
  widen x := x.setWidth 64
  narrow x := x.setWidth 32
  widen_narrow_widen := by
    intro x
    have hx := x.isLt
    apply BitVec.eq_of_toNat_eq
    simp only [BitVec.toNat_setWidth]
    omega

/-- The string "ab". -/
def abString : CString := ⟨leBytes 2 25185, by decide⟩

/-- Save two models, both called "ab", from a folder "ab". -/
def saveTwoModels : SqlCall :=
  .nsSaveModels ⟨1, [some abString, some abString], by decide⟩ 0 abString

/-- The call of two saves is encoded, and both services get its arguments. -/
theorem decoders_inside_two_models :
    (∃ msg, saveTwoModels.task bitConversion 42 = .ok (some msg) ∧
      msg.payload.length = 16 + 3 + 2 * (4 + 3) ∧
      ∀ h ∈ saveTwoModels.handlers, h.handle bitConversion msg.payload =
        .value (.saveModels [leBytes 2 25185, leBytes 2 25185] 0 (leBytes 2 25185))) ∧
    ¬ StaysInside ((Handler.loadModel .background).handle bitConversion
      (leBytes 12 (2 ^ 64) ++ leBytes 1 97)) := by
  obtain ⟨hiff, htrip⟩ := decoders_inside_iff bitConversion
  constructor
  · have hok : ∃ msg, saveTwoModels.task bitConversion 42 = .ok (some msg) ∧
        msg.payload.length = 16 + 3 + 2 * (4 + 3) := ⟨_, rfl, by decide⟩
    obtain ⟨msg, htask, hlen⟩ := hok
    exact ⟨msg, htask, hlen, fun h hh => htrip saveTwoModels 42 msg htask h hh⟩
  · rw [hiff]
    intro h
    exact absurd (h (by decide) (by decide) (by decide) (by decide)) (by decide)

/-- A name and a path of one byte each, which are not terminated. -/
def unterminatedSave : List Byte := leBytes 8 0 ++ leBytes 4 1 ++ leBytes 4 1 ++ leBytes 2 25185

/-- Two names are announced, but the first one fills the payload. -/
def missingSecondName : List Byte :=
  leBytes 8 0 ++ leBytes 4 1 ++ leBytes 4 2 ++ leBytes 1 0 ++ leBytes 4 4 ++ leBytes 4 25185

/-- **Reads behind the payload.** Both services read behind the end of a path that is not
terminated. The background service also reads the length of a name that is not there; the
microservice answers that the payload is truncated. -/
theorem unterminated_payload_read_outside :
    (Handler.saveModel .background).handle bitConversion unterminatedSave = .outside ∧
    (Handler.saveModel .microservice).handle bitConversion unterminatedSave = .outside ∧
    (Handler.saveModels .background).handle bitConversion missingSecondName = .outside ∧
    (Handler.saveModels .microservice).handle bitConversion missingSecondName =
      .refused (.answered "payload truncated") := by
  decide +kernel

end NeurDB.NeurStore
