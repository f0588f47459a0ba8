import NeurDB.Framework.Checked
import NeurDB.NeurStore.TaskChannel

/-!
# The payloads of NeurStore tasks

The handlers of the background service (`pgext/ipc/service.c`) and of the TCP microservice
(`microservice/ns_micro_service.cpp`) read the arguments of a task from its payload: a fixed
part with the lengths, then the strings one behind the other, then a list of strings that have
their lengths in front of them.

A handler is a walk over the payload (`Checked`) that ends in the arguments of the function of
the engine it calls, in an error response, or outside of the payload. The two services differ in
a few places, which are kept: the texts of the errors, the type of the tolerance, how the array of
pointers is allocated, and the check of a name's length field.

The engine takes the strings as `const char *`, so a string is read up to its terminator, and
its length field plays no role for that. No handler looks for the terminator, and the background
service reads the length field of a name before it has checked that the field is there; the
microservice checks it. `staysInside_iff` says exactly for which payloads a handler stays inside.
-/

namespace NeurDB.NeurStore

open Checked

/-! ### Arguments -/

/-- The conversions between `float` and `double`, on bits. A float that was widened is narrowed to
a float with the same double. -/
structure FloatConversion where
  widen : BitVec 32 → BitVec 64
  narrow : BitVec 64 → BitVec 32
  widen_narrow_widen : ∀ x, widen (narrow (widen x)) = widen x

/-- The eight strings of the inference options, or something about each of them. -/
structure OptionStrings (α : Type) where
  modelId : α
  query : α
  pgDsn : α
  outputColumn : α
  tokenizerPath : α
  padToken : α
  eosToken : α
  bosToken : α
  deriving DecidableEq

/-- `InferenceOptions`, as `ioc_create` fills it. -/
structure InferenceOptions where
  strings : OptionStrings (List Byte)
  inputColumns : List (List Byte)
  batchSize : BitVec 32
  maxInputLen : BitVec 32
  maxOutputLen : BitVec 32
  loadMode : BitVec 32
  task : BitVec 32
  useGpu : Bool
  deriving DecidableEq

/-- What a handler hands to the engine. Tolerances are doubles. -/
inductive TaskArguments where
  | saveModel (name : List Byte) (tolerance : BitVec 64) (path : List Byte)
  | saveModels (names : List (List Byte)) (tolerance : BitVec 64) (folder : List Byte)
  | saveModelDryRun (tolerance : BitVec 64) (modelPath : List Byte) (loadMode : BitVec 32)
      (options : InferenceOptions)
  | loadModel (returnSerialized : Bool) (loadMode : BitVec 32) (name : List Byte)
  | inference (options : InferenceOptions)
  deriving DecidableEq

/-- How a handler may end without having called the engine. -/
inductive Refusal where
  /-- It returns an error response. -/
  | answered (text : String)
  /-- `palloc` raises an error in the worker thread: there is no response. -/
  | raised (text : String)
  deriving DecidableEq

def Refusal.IsAnswer : Refusal → Prop
  | answered _ => True
  | raised _ => False

instance : DecidablePred Refusal.IsAnswer
  | .answered _ => .isTrue trivial
  | .raised _ => .isFalse id

/-! ### Payloads -/

/-- The struct at the front of a payload. -/
def structAt {α : Type} (p : List Byte) (size : ℕ) (fields : List Byte → α) :
    Checked Refusal α := do
  let bytes ← bytesAt p 0 size
  return fields bytes

/-- `SaveModelPayload` and `SaveModelsPayload`: a double and two words. -/
structure SavePayload where
  tolerance : BitVec 64
  /-- `name_len`, or `folder_len`. -/
  first : ℕ
  /-- `path_len`, or `n_models`. -/
  second : ℕ

/-- `sizeof(SaveModelPayload)` and `sizeof(SaveModelsPayload)`. -/
def savePayloadSize : ℕ := 16

def SavePayload.ofBytes (b : List Byte) : SavePayload where
  tolerance := BitVec.ofNat 64 (leVal (b.take 8))
  first := word32 b 8
  second := word32 b 12

structure LoadModelPayload where
  returnSerialized : ℕ
  loadMode : ℕ
  nameLen : ℕ

def loadModelPayloadSize : ℕ := 12

def LoadModelPayload.ofBytes (b : List Byte) : LoadModelPayload where
  returnSerialized := word32 b 0
  loadMode := word32 b 4
  nameLen := word32 b 8

/-- The eight lengths, which follow one another. -/
def OptionStrings.ofBytes (b : List Byte) (off : ℕ) : OptionStrings ℕ where
  modelId := word32 b off
  query := word32 b (off + 4)
  pgDsn := word32 b (off + 8)
  outputColumn := word32 b (off + 12)
  tokenizerPath := word32 b (off + 16)
  padToken := word32 b (off + 20)
  eosToken := word32 b (off + 24)
  bosToken := word32 b (off + 28)

structure InferencePayload where
  batchSize : ℕ
  maxInputLen : ℕ
  maxOutputLen : ℕ
  loadMode : ℕ
  task : ℕ
  useGpu : ℕ
  lens : OptionStrings ℕ
  nInputColumns : ℕ

def inferencePayloadSize : ℕ := 60

def InferencePayload.ofBytes (b : List Byte) : InferencePayload where
  batchSize := word32 b 0
  maxInputLen := word32 b 4
  maxOutputLen := word32 b 8
  loadMode := word32 b 12
  task := word32 b 16
  useGpu := word32 b 20
  lens := OptionStrings.ofBytes b 24
  nInputColumns := word32 b 56

structure SaveModelDryRunPayload where
  /-- A float. -/
  tolerance : BitVec 32
  modelPathLen : ℕ
  inference : InferencePayload

def saveModelDryRunPayloadSize : ℕ := 68

def SaveModelDryRunPayload.ofBytes (b : List Byte) : SaveModelDryRunPayload where
  tolerance := BitVec.ofNat 32 (word32 b 0)
  modelPathLen := word32 b 8
  inference :=
    { batchSize := word32 b 12
      maxInputLen := word32 b 16
      maxOutputLen := word32 b 20
      loadMode := word32 b 4
      task := word32 b 24
      useGpu := word32 b 28
      lens := OptionStrings.ofBytes b 32
      nInputColumns := word32 b 64 }

/-! ### Parts of the handlers -/

/-- `ADVANCE_STR`: the start of a string, and the cursor behind it. -/
def advanceStr (p : List Byte) (cursor len : ℕ) : Checked Refusal (ℕ × ℕ) := do
  refuseIf (p.length < cursor + len) (.answered "payload truncated")
  return (cursor, cursor + len)

/-- `ADVANCE_STR` for each string of the options. -/
def advanceStrings (p : List Byte) (cursor : ℕ) (lens : OptionStrings ℕ) :
    Checked Refusal (OptionStrings ℕ × ℕ) := do
  let (modelId, cursor) ← advanceStr p cursor lens.modelId
  let (query, cursor) ← advanceStr p cursor lens.query
  let (pgDsn, cursor) ← advanceStr p cursor lens.pgDsn
  let (outputColumn, cursor) ← advanceStr p cursor lens.outputColumn
  let (tokenizerPath, cursor) ← advanceStr p cursor lens.tokenizerPath
  let (padToken, cursor) ← advanceStr p cursor lens.padToken
  let (eosToken, cursor) ← advanceStr p cursor lens.eosToken
  let (bosToken, cursor) ← advanceStr p cursor lens.bosToken
  return (⟨modelId, query, pgDsn, outputColumn, tokenizerPath, padToken, eosToken, bosToken⟩,
    cursor)

/-- The body of the loop over `input_columns`: the length of a column. -/
def columnEntry (p : List Byte) (cursor : ℕ) : Checked Refusal ℕ := do
  refuseIf (p.length < cursor + 4) (.answered "payload truncated")
  let colLen ← u32At p cursor
  refuseIf (p.length < cursor + 4 + colLen) (.answered "payload truncated")
  return colLen

/-- `ioc_create` copies the strings. -/
def iocCreate (p : List Byte) (strings : OptionStrings ℕ) (columns : List ℕ)
    (payload : InferencePayload) : Checked Refusal InferenceOptions := do
  let modelId ← cstringAt p strings.modelId
  let query ← cstringAt p strings.query
  let pgDsn ← cstringAt p strings.pgDsn
  let outputColumn ← cstringAt p strings.outputColumn
  let tokenizerPath ← cstringAt p strings.tokenizerPath
  let padToken ← cstringAt p strings.padToken
  let eosToken ← cstringAt p strings.eosToken
  let bosToken ← cstringAt p strings.bosToken
  let inputColumns ← cstringsAt p columns
  return {
    strings :=
      ⟨modelId, query, pgDsn, outputColumn, tokenizerPath, padToken, eosToken, bosToken⟩
    inputColumns
    batchSize := BitVec.ofNat 32 payload.batchSize
    maxInputLen := BitVec.ofNat 32 payload.maxInputLen
    maxOutputLen := BitVec.ofNat 32 payload.maxOutputLen
    loadMode := BitVec.ofNat 32 payload.loadMode
    task := BitVec.ofNat 32 payload.task
    useGpu := payload.useGpu ≠ 0 }

/-- The strings and the columns of a payload, from the cursor on. -/
def readOptions (alloc : ℕ → Checked Refusal Unit) (p : List Byte) (cursor : ℕ)
    (payload : InferencePayload) : Checked Refusal InferenceOptions := do
  let (strings, cursor) ← advanceStrings p cursor payload.lens
  alloc payload.nInputColumns
  let columns ← entries (columnEntry p) payload.nInputColumns cursor
  iocCreate p strings columns payload

/-- `handle_save_model`, for the text of an error and the conversion of the tolerance. -/
def saveModelHandler (tooSmall : String) (convert : BitVec 64 → BitVec 64) (p : List Byte) :
    Checked Refusal TaskArguments := do
  refuseIf (p.length < savePayloadSize) (.answered tooSmall)
  let payload ← structAt p savePayloadSize SavePayload.ofBytes
  refuseIf (p.length < savePayloadSize + payload.first + payload.second ∨ payload.first = 0 ∨
    payload.second = 0) (.answered "invalid name/path length")
  let name ← cstringAt p savePayloadSize
  let path ← cstringAt p (savePayloadSize + payload.first)
  return .saveModel name (convert payload.tolerance) path

/-- `handle_save_models`, for the text of an error, the allocation and the body of the loop. -/
def saveModelsHandler (tooSmall : String) (alloc : ℕ → Checked Refusal Unit)
    (nameEntry : List Byte → ℕ → Checked Refusal ℕ) (p : List Byte) :
    Checked Refusal TaskArguments := do
  refuseIf (p.length < savePayloadSize) (.answered tooSmall)
  let payload ← structAt p savePayloadSize SavePayload.ofBytes
  refuseIf (payload.first = 0 ∨ payload.second = 0) (.answered "invalid folder_len or n_models")
  refuseIf (p.length < savePayloadSize + payload.first + payload.second * 4)
    (.answered "payload truncated")
  alloc payload.second
  let starts ← entries (nameEntry p) payload.second (savePayloadSize + payload.first)
  let names ← cstringsAt p starts
  let folder ← cstringAt p savePayloadSize
  return .saveModels names payload.tolerance folder

/-- `handle_load_model`, for the text of an error. `NS_LOAD_FLOAT16` is 3. -/
def loadModelHandler (tooSmall : String) (p : List Byte) : Checked Refusal TaskArguments := do
  refuseIf (p.length < loadModelPayloadSize) (.answered tooSmall)
  let payload ← structAt p loadModelPayloadSize LoadModelPayload.ofBytes
  refuseIf (payload.nameLen = 0 ∨ 3 < payload.loadMode) (.answered "invalid field")
  refuseIf (p.length < loadModelPayloadSize + payload.nameLen) (.answered "payload truncated")
  let name ← cstringAt p loadModelPayloadSize
  return .loadModel (payload.returnSerialized ≠ 0) (BitVec.ofNat 32 payload.loadMode) name

/-- `handle_inference`, for the allocation. -/
def inferenceHandler (alloc : ℕ → Checked Refusal Unit) (p : List Byte) :
    Checked Refusal TaskArguments := do
  refuseIf (p.length < inferencePayloadSize) (.answered "payload too small")
  let payload ← structAt p inferencePayloadSize InferencePayload.ofBytes
  let options ← readOptions alloc p inferencePayloadSize payload
  return .inference options

/-! ### The background service -/

namespace Background

/-- `MaxAllocSize`. -/
def maxAllocSize : ℕ := 1073741823

/-- `palloc` of an array of pointers. -/
def pallocPointers (n : ℕ) : Checked Refusal Unit :=
  refuseIf (maxAllocSize < n * 8) (.raised s!"invalid memory alloc request size {n * 8}")

/-- The body of the loop over the names: the length field is read unchecked. -/
def nameEntry (p : List Byte) (cursor : ℕ) : Checked Refusal ℕ := do
  let nameLen ← u32At p cursor
  refuseIf (nameLen = 0 ∨ p.length < cursor + 4 + nameLen)
    (.answered "invalid name_len or payload overflow")
  return nameLen

/-- The tolerance goes through a `float`. -/
def handleSaveModel (conv : FloatConversion) : List Byte → Checked Refusal TaskArguments :=
  saveModelHandler "payload too small" fun tolerance => conv.widen (conv.narrow tolerance)

def handleSaveModels : List Byte → Checked Refusal TaskArguments :=
  saveModelsHandler "payload too small" pallocPointers nameEntry

def handleLoadModel : List Byte → Checked Refusal TaskArguments :=
  loadModelHandler "payload too small"

def handleInference : List Byte → Checked Refusal TaskArguments :=
  inferenceHandler pallocPointers

def handleSaveModelDryRun (conv : FloatConversion) (p : List Byte) :
    Checked Refusal TaskArguments := do
  refuseIf (p.length < saveModelDryRunPayloadSize) (.answered "payload too small")
  let payload ← structAt p saveModelDryRunPayloadSize SaveModelDryRunPayload.ofBytes
  let (modelPath, cursor) ← advanceStr p saveModelDryRunPayloadSize payload.modelPathLen
  let options ← readOptions pallocPointers p cursor payload.inference
  let path ← cstringAt p modelPath
  return .saveModelDryRun (conv.widen payload.tolerance) path
    (BitVec.ofNat 32 payload.inference.loadMode) options

end Background

/-! ### The microservice -/

namespace Micro

/-- `malloc` of an array of pointers. -/
def mallocPointers (_ : ℕ) : Checked Refusal Unit := .value ()

/-- The body of the loop over the names. -/
def nameEntry (p : List Byte) (cursor : ℕ) : Checked Refusal ℕ := do
  refuseIf (p.length < cursor + 4) (.answered "payload truncated")
  let nameLen ← u32At p cursor
  refuseIf (nameLen = 0 ∨ p.length < cursor + 4 + nameLen)
    (.answered "invalid name_len or payload overflow")
  return nameLen

def handleSaveModel : List Byte → Checked Refusal TaskArguments :=
  saveModelHandler "invalid payload size: too small" id

def handleSaveModels : List Byte → Checked Refusal TaskArguments :=
  saveModelsHandler "invalid payload size: too small" mallocPointers nameEntry

def handleLoadModel : List Byte → Checked Refusal TaskArguments :=
  loadModelHandler "invalid payload size: too small"

def handleInference : List Byte → Checked Refusal TaskArguments :=
  inferenceHandler mallocPointers

end Micro

/-! ### Closed forms of the parts -/

variable {p : List Byte} {alloc : ℕ → Checked Refusal Unit} {fits : ℕ → Prop} {cursor : ℕ}

theorem structAt_of_le {α : Type} {size : ℕ} (fields : List Byte → α) (h : size ≤ p.length) :
    structAt p size fields = .value (fields (p.take size)) := by
  rw [structAt, bytesAt_of_le (by omega), List.drop_zero]
  rfl

theorem advanceStr_eq (p : List Byte) (cursor len : ℕ) :
    advanceStr p cursor len = if cursor + len ≤ p.length then .value (cursor, cursor + len)
      else .refused (.answered "payload truncated") := by
  unfold advanceStr
  split
  · rw [refuseIf_of_not (by omega)]
    rfl
  · rw [refuseIf_of (by omega)]
    rfl

namespace OptionStrings

/-- The bytes the strings take. -/
def total (lens : OptionStrings ℕ) : ℕ :=
  lens.modelId + lens.query + lens.pgDsn + lens.outputColumn + lens.tokenizerPath +
    lens.padToken + lens.eosToken + lens.bosToken

/-- Where the strings start. -/
def starts (lens : OptionStrings ℕ) (cursor : ℕ) : OptionStrings ℕ where
  modelId := cursor
  query := cursor + lens.modelId
  pgDsn := cursor + lens.modelId + lens.query
  outputColumn := cursor + lens.modelId + lens.query + lens.pgDsn
  tokenizerPath := cursor + lens.modelId + lens.query + lens.pgDsn + lens.outputColumn
  padToken := cursor + lens.modelId + lens.query + lens.pgDsn + lens.outputColumn +
    lens.tokenizerPath
  eosToken := cursor + lens.modelId + lens.query + lens.pgDsn + lens.outputColumn +
    lens.tokenizerPath + lens.padToken
  bosToken := cursor + lens.modelId + lens.query + lens.pgDsn + lens.outputColumn +
    lens.tokenizerPath + lens.padToken + lens.eosToken

end OptionStrings

theorem advanceStrings_eq (p : List Byte) (cursor : ℕ) (lens : OptionStrings ℕ) :
    advanceStrings p cursor lens =
      if cursor + lens.total ≤ p.length then .value (lens.starts cursor, cursor + lens.total)
      else .refused (.answered "payload truncated") := by
  obtain ⟨l₁, l₂, l₃, l₄, l₅, l₆, l₇, l₈⟩ := lens
  by_cases h : cursor + OptionStrings.total ⟨l₁, l₂, l₃, l₄, l₅, l₆, l₇, l₈⟩ ≤ p.length
  · rw [if_pos h]
    unfold OptionStrings.total at h
    dsimp only at h
    simp only [advanceStrings, advanceStr_eq]
    iterate 8 rw [if_pos (by omega), value_bind]
    simp [OptionStrings.starts, OptionStrings.total, Nat.add_assoc]
  · rw [if_neg h]
    unfold OptionStrings.total at h
    dsimp only at h
    simp only [advanceStrings, advanceStr_eq]
    -- the checks pass up to some string and fail there
    iterate 8
      split
      case isFalse => rfl
      rw [value_bind]
    exact absurd ‹_› (by omega)

/-- The name at an entry is not empty and lies in the payload. -/
def GoodName (p : List Byte) (off : ℕ) : Prop :=
  0 < word32 p off ∧ off + 4 + word32 p off ≤ p.length

/-- The column name at an entry lies in the payload. -/
def GoodColumn (p : List Byte) (off : ℕ) : Prop := off + 4 + word32 p off ≤ p.length

instance (p : List Byte) : DecidablePred (GoodName p) :=
  fun _ => inferInstanceAs (Decidable (_ ∧ _))

instance (p : List Byte) : DecidablePred (GoodColumn p) :=
  fun _ => inferInstanceAs (Decidable (_ ≤ _))

theorem checkedLength_eq_value {len : ℕ} (bad : ℕ → Prop) [DecidablePred bad] {e : Refusal} :
    (u32At p cursor >>= fun len => refuseIf (bad len) e >>= fun _ => (.value len)) =
      .value len ↔
      cursor + 4 ≤ p.length ∧ ¬ bad (word32 p cursor) ∧ len = word32 p cursor := by
  rcases Nat.lt_or_ge p.length (cursor + 4) with h | h
  · rw [u32At_of_lt h, outside_bind]
    exact ⟨nofun, fun h' => absurd h'.1 (Nat.not_le_of_lt h)⟩
  · rw [u32At_of_le h, value_bind]
    by_cases hbad : bad (word32 p cursor)
    · rw [refuseIf_of hbad, refused_bind]
      exact ⟨nofun, fun h' => absurd hbad h'.2.1⟩
    · rw [refuseIf_of_not hbad, value_bind]
      constructor
      · intro h'
        exact ⟨h, hbad, (value.inj h').symm⟩
      · rintro ⟨-, -, rfl⟩
        rfl

theorem acceptsGood_columnEntry (p : List Byte) : AcceptsGood p (columnEntry p) (GoodColumn p) := by
  intro cursor len
  unfold columnEntry GoodColumn
  rcases Nat.lt_or_ge p.length (cursor + 4) with h | h
  · rw [refuseIf_of h, refused_bind]
    exact ⟨nofun, fun h' => by omega⟩
  · rw [refuseIf_of_not (Nat.not_lt_of_le h), value_bind]
    refine (checkedLength_eq_value fun n => p.length < cursor + 4 + n).trans ?_
    omega

namespace Background

theorem acceptsGood_nameEntry (p : List Byte) : AcceptsGood p (nameEntry p) (GoodName p) := by
  intro cursor len
  refine (checkedLength_eq_value fun n => n = 0 ∨ p.length < cursor + 4 + n).trans ?_
  unfold GoodName
  omega

end Background

namespace Micro

theorem acceptsGood_nameEntry (p : List Byte) : AcceptsGood p (nameEntry p) (GoodName p) := by
  intro cursor len
  unfold nameEntry GoodName
  rcases Nat.lt_or_ge p.length (cursor + 4) with h | h
  · rw [refuseIf_of h, refused_bind]
    exact ⟨nofun, fun h' => by omega⟩
  · rw [refuseIf_of_not (Nat.not_lt_of_le h), value_bind]
    refine (checkedLength_eq_value fun n => n = 0 ∨ p.length < cursor + 4 + n).trans ?_
    omega

end Micro

/-! ### Reads inside the payload -/

/-- The handler has read only bytes of the payload, and has called the engine or answered with an
error. -/
def StaysInside (x : Checked Refusal TaskArguments) : Prop := x.Sound Refusal.IsAnswer

theorem sound_checkedLength {bad : ℕ → Prop} [DecidablePred bad] {e e' : Refusal}
    (he : e.IsAnswer) (he' : e'.IsAnswer) :
    (refuseIf (p.length < cursor + 4) e >>= fun _ => u32At p cursor >>= fun len =>
      refuseIf (bad len) e' >>= fun _ => .value len).Sound Refusal.IsAnswer := by
  rw [sound_refuseIf_bind he]
  intro h
  rw [sound_u32At_bind]
  exact ⟨Nat.le_of_not_lt h, (sound_refuseIf_bind he').mpr fun _ => trivial⟩

theorem sound_columns (p : List Byte) (n cursor : ℕ) :
    (entries (columnEntry p) n cursor).Sound Refusal.IsAnswer :=
  (sound_entries (acceptsGood_columnEntry p)).mpr fun _ _ _ => sound_checkedLength trivial trivial

/-- `alloc` succeeds for the numbers of pointers that fit, and raises an error for others. -/
def AllocatesIf (alloc : ℕ → Checked Refusal Unit) (fits : ℕ → Prop) : Prop :=
  ∀ n, fits n ∧ alloc n = .value () ∨ ¬ fits n ∧ ∃ text, alloc n = .refused (.raised text)

theorem AllocatesIf.sound_bind {α : Type} (h : AllocatesIf alloc fits) {n : ℕ}
    {f : Unit → Checked Refusal α} :
    (alloc n >>= f).Sound Refusal.IsAnswer ↔ fits n ∧ (f ()).Sound Refusal.IsAnswer := by
  rcases h n with ⟨hfits, halloc⟩ | ⟨hfits, text, halloc⟩
  · rw [halloc, value_bind, and_iff_right hfits]
  · rw [halloc, refused_bind]
    exact ⟨False.elim, fun h' => absurd h'.1 hfits⟩

theorem Background.allocatesIf_pallocPointers :
    AllocatesIf pallocPointers fun n => n * 8 ≤ maxAllocSize := by
  intro n
  rcases Nat.lt_or_ge maxAllocSize (n * 8) with h | h
  · exact Or.inr ⟨Nat.not_le_of_lt h, _, refuseIf_of h _⟩
  · exact Or.inl ⟨h, refuseIf_of_not (Nat.not_lt_of_le h) _⟩

theorem Micro.allocatesIf_mallocPointers : AllocatesIf mallocPointers fun _ => True :=
  fun _ => Or.inl ⟨trivial, rfl⟩

theorem sound_iocCreate (p : List Byte) (lens : OptionStrings ℕ) (cursor : ℕ) (columns : List ℕ)
    (payload : InferencePayload) :
    (iocCreate p (lens.starts cursor) columns payload).Sound Refusal.IsAnswer ↔
      zeroByte ∈ p.drop (lens.starts cursor).bosToken ∧ ∀ off ∈ columns, zeroByte ∈ p.drop off := by
  unfold iocCreate
  iterate 8 rw [sound_cstringAt_bind]
  rw [sound_bind, sound_cstringsAt]
  constructor
  · rintro ⟨-, -, -, -, -, -, -, hbos, hcolumns, -⟩
    exact ⟨hbos, hcolumns⟩
  · rintro ⟨hbos, hcolumns⟩
    have hend : ∀ off ≤ (lens.starts cursor).bosToken, zeroByte ∈ p.drop off :=
      fun off hoff => mem_drop_of_le hoff hbos
    refine ⟨hend _ ?_, hend _ ?_, hend _ ?_, hend _ ?_, hend _ ?_, hend _ ?_, hend _ ?_, hbos,
      hcolumns, fun _ _ => trivial⟩ <;> simp only [OptionStrings.starts] <;> omega

/-- Where the last string of the options starts: the last column, or `bos_token` if there is
none. -/
def lastString (p : List Byte) (cursor : ℕ) (payload : InferencePayload) : ℕ :=
  if payload.nInputColumns = 0 then (payload.lens.starts cursor).bosToken
  else entryAt p (cursor + payload.lens.total) (payload.nInputColumns - 1) + 4

/-- The options can be read: where the lengths fit into the payload, so do the pointers into the
memory, and the last string is terminated. -/
def OptionsTerminated (fits : ℕ → Prop) (p : List Byte) (cursor : ℕ)
    (payload : InferencePayload) : Prop :=
  cursor + payload.lens.total ≤ p.length → fits payload.nInputColumns ∧
    ((∀ i < payload.nInputColumns, GoodColumn p (entryAt p (cursor + payload.lens.total) i)) →
      zeroByte ∈ p.drop (lastString p cursor payload))

theorem sound_readOptions (halloc : AllocatesIf alloc fits) (p : List Byte) (cursor : ℕ)
    (payload : InferencePayload) :
    (readOptions alloc p cursor payload).Sound Refusal.IsAnswer ↔
      OptionsTerminated fits p cursor payload := by
  unfold readOptions OptionsTerminated
  rw [advanceStrings_eq]
  by_cases hfit : cursor + payload.lens.total ≤ p.length
  · rw [if_pos hfit, value_bind]
    rw [halloc.sound_bind, sound_bind]
    simp only [entries_eq_value (acceptsGood_columnEntry p)]
    refine ⟨fun ⟨hn, _, h⟩ _ => ⟨hn, fun hgood => ?_⟩, fun h => ?_⟩
    · have hread := (sound_iocCreate p _ _ _ _).mp (h _ ⟨hgood, rfl⟩)
      unfold lastString
      split
      · exact hread.1
      · next hpos => exact (forall_mem_entries (Nat.pos_of_ne_zero hpos)).mp hread.2
    · obtain ⟨hn, hlast⟩ := h hfit
      refine ⟨hn, sound_columns p _ _, ?_⟩
      rintro _ ⟨hgood, rfl⟩
      rw [sound_iocCreate]
      have hzero := hlast hgood
      unfold lastString at hzero
      split at hzero
      · next hnone =>
        rw [hnone]
        exact ⟨hzero, by simp⟩
      · next hpos =>
        -- the columns start behind `bos_token`
        have hbehind : (payload.lens.starts cursor).bosToken ≤
            entryAt p (cursor + payload.lens.total) (payload.nInputColumns - 1) + 4 := by
          have hle : cursor + payload.lens.total ≤
            entryAt p (cursor + payload.lens.total) (payload.nInputColumns - 1) := le_entryAt _ _
          unfold OptionStrings.total at hle
          simp only [OptionStrings.starts, OptionStrings.total]
          omega
        exact ⟨mem_drop_of_le hbehind hzero,
          (forall_mem_entries (Nat.pos_of_ne_zero hpos)).mpr hzero⟩
  · rw [if_neg hfit, refused_bind]
    exact ⟨fun _ h => absurd h hfit, fun _ => trivial⟩

/-! ### The handlers -/

inductive NSService where
  | background
  | microservice
  deriving DecidableEq

/-- The handlers of the two services. The microservice has none for a dry run. -/
inductive Handler where
  | saveModel (service : NSService)
  | saveModels (service : NSService)
  | loadModel (service : NSService)
  | inference (service : NSService)
  | saveModelDryRun
  deriving DecidableEq

def Handler.handle (conv : FloatConversion) :
    Handler → List Byte → Checked Refusal TaskArguments
  | saveModel .background => Background.handleSaveModel conv
  | saveModel .microservice => Micro.handleSaveModel
  | saveModels .background => Background.handleSaveModels
  | saveModels .microservice => Micro.handleSaveModels
  | loadModel .background => Background.handleLoadModel
  | loadModel .microservice => Micro.handleLoadModel
  | inference .background => Background.handleInference
  | inference .microservice => Micro.handleInference
  | saveModelDryRun => Background.handleSaveModelDryRun conv

/-- The path, which is the last string, is terminated. -/
def SaveModelTerminated (p : List Byte) : Prop :=
  let payload := SavePayload.ofBytes (p.take savePayloadSize)
  savePayloadSize ≤ p.length → savePayloadSize + payload.first + payload.second ≤ p.length →
    0 < payload.first → 0 < payload.second →
    zeroByte ∈ p.drop (savePayloadSize + payload.first)

/-- The pointers fit, the length field of each name that the walk comes to satisfies
`fieldInside`, and the last name is terminated. -/
def SaveModelsTerminated (fits fieldInside : ℕ → Prop) (p : List Byte) : Prop :=
  let payload := SavePayload.ofBytes (p.take savePayloadSize)
  let name := entryAt p (savePayloadSize + payload.first)
  savePayloadSize ≤ p.length → 0 < payload.first → 0 < payload.second →
    savePayloadSize + payload.first + payload.second * 4 ≤ p.length →
    fits payload.second ∧
      (∀ i < payload.second, (∀ j < i, GoodName p (name j)) → fieldInside (name i)) ∧
      ((∀ i < payload.second, GoodName p (name i)) →
        zeroByte ∈ p.drop (name (payload.second - 1) + 4))

/-- The name is terminated. -/
def LoadModelTerminated (p : List Byte) : Prop :=
  let payload := LoadModelPayload.ofBytes (p.take loadModelPayloadSize)
  loadModelPayloadSize ≤ p.length → 0 < payload.nameLen → payload.loadMode ≤ 3 →
    loadModelPayloadSize + payload.nameLen ≤ p.length → zeroByte ∈ p.drop loadModelPayloadSize

def InferenceTerminated (fits : ℕ → Prop) (p : List Byte) : Prop :=
  inferencePayloadSize ≤ p.length → OptionsTerminated fits p inferencePayloadSize
    (InferencePayload.ofBytes (p.take inferencePayloadSize))

/-- The path of the model comes first and is ended by the terminator of the last string. -/
def SaveModelDryRunTerminated (fits : ℕ → Prop) (p : List Byte) : Prop :=
  let payload := SaveModelDryRunPayload.ofBytes (p.take saveModelDryRunPayloadSize)
  saveModelDryRunPayloadSize ≤ p.length →
    saveModelDryRunPayloadSize + payload.modelPathLen ≤ p.length →
    OptionsTerminated fits p (saveModelDryRunPayloadSize + payload.modelPathLen)
      payload.inference

/-- What has to hold of a payload that the checks of the handler let through. -/
def Handler.Terminated : Handler → List Byte → Prop
  | saveModel _ => SaveModelTerminated
  | saveModels .background => fun p => SaveModelsTerminated
      (fun n => n * 8 ≤ Background.maxAllocSize) (fun off => off + 4 ≤ p.length) p
  | saveModels .microservice => SaveModelsTerminated (fun _ => True) (fun _ => True)
  | loadModel _ => LoadModelTerminated
  | inference .background => InferenceTerminated fun n => n * 8 ≤ Background.maxAllocSize
  | inference .microservice => InferenceTerminated fun _ => True
  | saveModelDryRun => SaveModelDryRunTerminated fun n => n * 8 ≤ Background.maxAllocSize

theorem staysInside_saveModelHandler (tooSmall : String) (convert : BitVec 64 → BitVec 64)
    (p : List Byte) :
    StaysInside (saveModelHandler tooSmall convert p) ↔ SaveModelTerminated p := by
  unfold StaysInside saveModelHandler SaveModelTerminated
  rw [sound_refuseIf_bind trivial, Nat.not_lt]
  refine imp_congr_right fun hsize => ?_
  rw [structAt_of_le _ hsize, value_bind, sound_refuseIf_bind trivial, sound_cstringAt_bind,
    sound_cstringAt_bind]
  constructor
  · intro h hfit hfirst hsecond
    exact (h (by omega)).2.1
  · intro h hok
    -- the name stands in front of the path, so the terminator of the path ends both
    have hzero := h (by omega) (by omega) (by omega)
    exact ⟨mem_drop_of_le (Nat.le_add_right _ _) hzero, hzero, trivial⟩

theorem staysInside_saveModelsHandler (tooSmall : String) {fieldInside : ℕ → Prop}
    {nameEntry : List Byte → ℕ → Checked Refusal ℕ} (halloc : AllocatesIf alloc fits)
    (hentry : AcceptsGood p (nameEntry p) (GoodName p))
    (hfield : ∀ off, (nameEntry p off).Sound Refusal.IsAnswer ↔ fieldInside off) :
    StaysInside (saveModelsHandler tooSmall alloc nameEntry p) ↔
      SaveModelsTerminated fits fieldInside p := by
  unfold StaysInside saveModelsHandler SaveModelsTerminated
  rw [sound_refuseIf_bind trivial, Nat.not_lt]
  refine imp_congr_right fun hsize => ?_
  rw [structAt_of_le _ hsize, value_bind, sound_refuseIf_bind trivial, sound_refuseIf_bind trivial,
    halloc.sound_bind, sound_bind, sound_entries hentry]
  simp only [entries_eq_value hentry, hfield]
  generalize SavePayload.ofBytes (p.take savePayloadSize) = payload
  -- the names, and then the folder, which stands in front of them
  have hstrings : ∀ n, 0 < n → ((cstringsAt p ((List.range n).map fun i =>
        entryAt p (savePayloadSize + payload.first) i + 4) >>= fun names =>
          cstringAt p savePayloadSize >>= fun folder =>
            (pure (.saveModels names payload.tolerance folder) :
              Checked Refusal TaskArguments)).Sound Refusal.IsAnswer ↔
      zeroByte ∈ p.drop (entryAt p (savePayloadSize + payload.first) (n - 1) + 4)) := by
    intro n hn
    rw [sound_bind, sound_cstringsAt, forall_mem_entries hn, and_iff_left_iff_imp]
    intro hzero _ _
    have hle : savePayloadSize + payload.first ≤
      entryAt p (savePayloadSize + payload.first) (n - 1) := le_entryAt _ _
    rw [sound_cstringAt_bind]
    exact ⟨mem_drop_of_le (by omega) hzero, trivial⟩
  constructor
  · intro h hfirst hsecond hfit
    obtain ⟨hn, hfields, hread⟩ := h (by omega) (by omega)
    exact ⟨hn, hfields, fun hgood => (hstrings _ hsecond).mp (hread _ ⟨hgood, rfl⟩)⟩
  · intro h hpos hfit
    obtain ⟨hn, hfields, hlast⟩ := h (by omega) (by omega) (by omega)
    refine ⟨hn, hfields, ?_⟩
    rintro _ ⟨hgood, rfl⟩
    exact (hstrings _ (by omega)).mpr (hlast hgood)

theorem staysInside_loadModelHandler (tooSmall : String) (p : List Byte) :
    StaysInside (loadModelHandler tooSmall p) ↔ LoadModelTerminated p := by
  unfold StaysInside loadModelHandler LoadModelTerminated
  rw [sound_refuseIf_bind trivial, Nat.not_lt]
  refine imp_congr_right fun hsize => ?_
  rw [structAt_of_le _ hsize, value_bind, sound_refuseIf_bind trivial, sound_refuseIf_bind trivial,
    sound_cstringAt_bind]
  constructor
  · intro h hlen hmode hfit
    exact (h (by omega) (by omega)).1
  · intro h hok hfit
    exact ⟨h (by omega) (by omega) (by omega), trivial⟩

theorem staysInside_inferenceHandler (halloc : AllocatesIf alloc fits) (p : List Byte) :
    StaysInside (inferenceHandler alloc p) ↔ InferenceTerminated fits p := by
  unfold StaysInside inferenceHandler InferenceTerminated
  rw [sound_refuseIf_bind trivial, Nat.not_lt]
  refine imp_congr_right fun hsize => ?_
  rw [structAt_of_le _ hsize, value_bind, sound_bind, sound_readOptions halloc,
    and_iff_left_iff_imp]
  exact fun _ _ _ => trivial

theorem mem_drop_of_readOptions {payload : InferencePayload}
    {options : InferenceOptions} (h : readOptions alloc p cursor payload = .value options) :
    zeroByte ∈ p.drop cursor := by
  obtain ⟨⟨strings, cursor'⟩, hadvance, h⟩ := bind_eq_value.mp h
  rw [advanceStrings_eq] at hadvance
  split at hadvance
  · obtain ⟨rfl, rfl⟩ := Prod.mk.inj (value.inj hadvance)
    obtain ⟨-, -, h⟩ := bind_eq_value.mp h
    obtain ⟨columns, -, h⟩ := bind_eq_value.mp h
    obtain ⟨modelId, hmodelId, -⟩ := bind_eq_value.mp h
    exact mem_drop_of_cstringAt hmodelId
  · cases hadvance

theorem staysInside_handleSaveModelDryRun (conv : FloatConversion) (p : List Byte) :
    StaysInside (Background.handleSaveModelDryRun conv p) ↔
      SaveModelDryRunTerminated (fun n => n * 8 ≤ Background.maxAllocSize) p := by
  unfold StaysInside Background.handleSaveModelDryRun SaveModelDryRunTerminated
  rw [sound_refuseIf_bind trivial, Nat.not_lt]
  refine imp_congr_right fun hsize => ?_
  rw [structAt_of_le _ hsize, value_bind, advanceStr_eq]
  generalize SaveModelDryRunPayload.ofBytes (p.take saveModelDryRunPayloadSize) = payload
  by_cases hfit : saveModelDryRunPayloadSize + payload.modelPathLen ≤ p.length
  · rw [if_pos hfit, value_bind]
    rw [sound_bind, sound_readOptions Background.allocatesIf_pallocPointers]
    refine ⟨fun h _ => h.1, fun h => ⟨h hfit, fun options hread => ?_⟩⟩
    rw [sound_cstringAt_bind]
    exact ⟨mem_drop_of_le (Nat.le_add_right _ _) (mem_drop_of_readOptions hread), trivial⟩
  · rw [if_neg hfit, refused_bind]
    exact ⟨fun _ h => absurd h hfit, fun _ => trivial⟩

/-- **What a handler needs.** A handler reads only bytes of the payload, and answers if it does
not call the engine, exactly if the payloads its checks let through are terminated. -/
theorem staysInside_iff (conv : FloatConversion) (h : Handler) (p : List Byte) :
    StaysInside (h.handle conv p) ↔ h.Terminated p := by
  unfold Handler.handle Handler.Terminated
  cases h with
  | saveModel service =>
    cases service <;> exact staysInside_saveModelHandler _ _ p
  | saveModels service =>
    cases service with
    | background =>
      refine staysInside_saveModelsHandler _ Background.allocatesIf_pallocPointers
        (Background.acceptsGood_nameEntry p) fun off => ?_
      unfold Background.nameEntry
      rw [sound_u32At_bind, and_iff_left_iff_imp]
      intro _
      rw [sound_refuseIf_bind trivial]
      exact fun _ => trivial
    | microservice =>
      exact staysInside_saveModelsHandler _ Micro.allocatesIf_mallocPointers
        (Micro.acceptsGood_nameEntry p)
        fun off => iff_true_intro (sound_checkedLength trivial trivial)
  | loadModel service =>
    cases service <;> exact staysInside_loadModelHandler _ p
  | inference service =>
    cases service with
    | background => exact staysInside_inferenceHandler Background.allocatesIf_pallocPointers p
    | microservice => exact staysInside_inferenceHandler Micro.allocatesIf_mallocPointers p
  | saveModelDryRun => exact staysInside_handleSaveModelDryRun conv p

end NeurDB.NeurStore
