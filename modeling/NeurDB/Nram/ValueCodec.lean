import NeurDB.Framework.Checked
import NeurDB.Nram.Wire

/-!
# Row values within their buffer

`tvalue_serialize`, `tvalue_deserialize` and `copy_nram_value` of `nram_access/kv.c`, now with the
bytes they read. Each of them works out the length of the fields by itself: the first and the third
walk over the fields, the second takes the header off the length of the buffer. The header is four
bytes of the transaction, two of the flags and two of the number of fields, but
`tvalue_deserialize` takes off only six: it reads the two bytes behind every buffer.

`row_codec_overreads`: no value makes the round trip within its buffer.
-/

namespace NeurDB.Nram

open Checked List

/-! ### Rows -/

/-- The bytes are `n` fields, each as long as its header says. -/
def AreFields : ℕ → List Byte → Prop
  | 0, data => data = []
  | n + 1, data => fieldSize data ≤ data.length ∧ AreFields n (data.drop (fieldSize data))

/-- A value in an allocation of its size: any header, and the fields it counts. -/
structure RowValue extends NRAMValueData where
  areFields : AreFields toNRAMValueData.fieldCount data

theorem fieldHeaderSize_le (data : List Byte) : fieldHeaderSize ≤ fieldSize data :=
  Nat.le_add_right _ _

variable {data memory : List Byte}

theorem fieldSize_append (h : fieldSize data ≤ data.length)
    (rest : List Byte) : fieldSize (data ++ rest) = fieldSize data := by
  have hheader : 12 ≤ data.length := (fieldHeaderSize_le data).trans h
  have hword : ((data ++ rest).drop 8).take 4 = (data.drop 8).take 4 := by
    rw [drop_append_of_le_length (by omega), take_append_of_le_length (by rw [length_drop]; omega)]
  rw [fieldSize, hword, fieldSize]

theorem AreFields.serializeFields {n : ℕ} (h : AreFields n data)
    (rest : List Byte) : serializeFields n (data ++ rest) = data := by
  induction n generalizing data with
  | zero =>
    cases h
    rfl
  | succ n ih =>
    obtain ⟨hle, hrest⟩ := h
    rw [Nram.serializeFields, fieldSize_append hle, take_append_of_le_length hle,
      drop_append_of_le_length hle, ih hrest, take_append_drop]

/-! ### Copies -/

/-- The first pass of `copy_nram_value`: the length of the fields. -/
def fieldsLength : ℕ → List Byte → ℕ
  | 0, _ => 0
  | n + 1, data => fieldSize data + fieldsLength n (data.drop (fieldSize data))

/-- `copy_nram_value`. -/
def copyNramValue (src : NRAMValueData) : NRAMValueData where
  xactId := src.xactId
  flags := src.flags
  nfields := src.nfields
  data := src.data.take (fieldsLength src.fieldCount src.data)

theorem AreFields.fieldsLength {n : ℕ} (h : AreFields n data) :
    fieldsLength n data = data.length := by
  induction n generalizing data with
  | zero =>
    cases h
    rfl
  | succ n ih =>
    obtain ⟨hle, hrest⟩ := h
    calc Nram.fieldsLength (n + 1) data
        = fieldSize data + (data.drop (fieldSize data)).length := by
          rw [Nram.fieldsLength, ih hrest]
      _ = fieldSize data + (data.length - fieldSize data) := by rw [length_drop]
      _ = data.length := Nat.add_sub_cancel' hle

theorem copyNramValue_row (v : RowValue) : copyNramValue v.toNRAMValueData = v.toNRAMValueData := by
  rw [copyNramValue, v.areFields.fieldsLength, take_length]

/-! ### The bytes that are read -/

/-- `tvalue_deserialize` in a memory that ends: its four copies, of which the last is too long. -/
def tvalueDeserializeIn (memory : List Byte) (len : ℕ) : Checked Empty NRAMValueData := do
  let xactId ← bytesAt memory 0 4
  let flags ← bytesAt memory 4 2
  let nfields ← bytesAt memory 6 2
  let data ← bytesAt memory 8 (len - 4 - 2)
  return ⟨BitVec.ofNat 32 (leVal xactId), BitVec.ofNat 16 (leVal flags),
    BitVec.ofNat 16 (leVal nfields), data⟩

theorem tvalueDeserializeIn_of_le {len : ℕ} (h : 8 + (len - 4 - 2) ≤ memory.length) :
    tvalueDeserializeIn memory len = value (tvalueDeserialize memory len) := by
  rw [tvalueDeserializeIn, bytesAt_of_le (by omega), value_bind, bytesAt_of_le (by omega),
    value_bind, bytesAt_of_le (by omega), value_bind, bytesAt_of_le h, value_bind]
  rfl

theorem tvalueDeserializeIn_of_lt {len : ℕ} (hheader : 8 ≤ memory.length)
    (h : memory.length < 8 + (len - 4 - 2)) : tvalueDeserializeIn memory len = outside := by
  rw [tvalueDeserializeIn, bytesAt_of_le (by omega), value_bind, bytesAt_of_le (by omega),
    value_bind, bytesAt_of_le (by omega), value_bind, bytesAt, if_neg (by omega)]
  rfl

/-! ### The round trip -/

namespace RowValue

variable (v : RowValue)

/-- The value with bytes behind its fields. -/
def followedBy (rest : List Byte) : NRAMValueData :=
  { v.toNRAMValueData with data := v.data ++ rest }

/-- The buffer of `tvalue_serialize`. -/
def buf : List Byte := tvalueSerialize v.toNRAMValueData

theorem serialize_followedBy (rest : List Byte) :
    tvalueSerialize (v.followedBy rest) = leBytes 4 v.xactId.toNat ++ (leBytes 2 v.flags.toNat ++
      (leBytes 2 v.nfields.toNat ++ v.data)) := by
  have hfields : serializeFields v.fieldCount (v.data ++ rest) = v.data :=
    v.areFields.serializeFields rest
  calc tvalueSerialize (v.followedBy rest)
      = leBytes 4 v.xactId.toNat ++ (leBytes 2 v.flags.toNat ++ (leBytes 2 v.nfields.toNat ++
          serializeFields v.fieldCount (v.data ++ rest))) := rfl
    _ = _ := by rw [hfields]

theorem followedBy_nil : v.followedBy [] = v.toNRAMValueData := by
  rw [followedBy, append_nil]

theorem buf_eq : v.buf = leBytes 4 v.xactId.toNat ++ (leBytes 2 v.flags.toNat ++
    (leBytes 2 v.nfields.toNat ++ v.data)) := by
  have h := v.serialize_followedBy []
  rwa [followedBy_nil] at h

theorem length_buf : v.buf.length = 8 + v.data.length := by
  rw [buf_eq]
  simp only [length_append, length_leBytes]
  omega

/-- The header comes back; as data come all the bytes up to two behind the buffer. -/
theorem deserialize_buf (rest : List Byte) :
    tvalueDeserialize (v.buf ++ rest) v.buf.length = v.followedBy (rest.take 2) := by
  have hlen : v.buf.length - 4 - 2 = v.data.length + 2 := by
    rw [length_buf]
    omega
  have hdata : (v.data ++ rest).take (v.data.length + 2) = v.data ++ rest.take 2 :=
    take_length_add_append 2
  rw [tvalueDeserialize, hlen, buf_eq]
  simp [followedBy, drop_append, drop_eq_nil_of_le, hdata,
    ofNat_leVal_leBytes (show 2 ^ 32 = 256 ^ 4 by norm_num),
    ofNat_leVal_leBytes (show 2 ^ 16 = 256 ^ 2 by norm_num)]

end RowValue

/-- The round trip of a value: it comes back from its buffer alone, with a copy as it is, and
is serialized to this buffer again. -/
def CodecRoundTrip (v : RowValue) : Prop :=
  tvalueDeserializeIn v.buf v.buf.length = value v.toNRAMValueData ∧
    copyNramValue v.toNRAMValueData = v.toNRAMValueData ∧
    tvalueSerialize (tvalueDeserialize v.buf v.buf.length) = v.buf

theorem not_codecRoundTrip {v : RowValue}
    (h : tvalueDeserializeIn v.buf v.buf.length = outside) : ¬ CodecRoundTrip v := by
  rintro ⟨hvalue, -, -⟩
  rw [h] at hvalue
  cases hvalue

/-- **The codec of the rows.** Whatever the value, its buffer is two bytes short of what
`tvalue_deserialize` reads. If there are two bytes behind the buffer, they come back behind the
fields of the value, which is then not the value that was serialized. It serializes to the same
buffer, since the walk over the fields stops in time, and copies are right for the same reason. -/
theorem row_codec_overreads (v : RowValue) (a b : Byte) (rest : List Byte) :
    ¬ CodecRoundTrip v ∧
      tvalueDeserializeIn v.buf v.buf.length = outside ∧
      tvalueDeserializeIn (v.buf ++ a :: b :: rest) v.buf.length = value (v.followedBy [a, b]) ∧
      v.followedBy [a, b] ≠ v.toNRAMValueData ∧
      tvalueSerialize (v.followedBy [a, b]) = v.buf ∧
      copyNramValue v.toNRAMValueData = v.toNRAMValueData := by
  have hlen := v.length_buf
  have houtside : tvalueDeserializeIn v.buf v.buf.length = outside :=
    tvalueDeserializeIn_of_lt (by omega) (by omega)
  have hread : tvalueDeserializeIn (v.buf ++ a :: b :: rest) v.buf.length =
      value (v.followedBy [a, b]) := by
    rw [tvalueDeserializeIn_of_le (by simp only [List.length_append, List.length_cons]; omega),
      v.deserialize_buf]
    rfl
  have hne : v.followedBy [a, b] ≠ v.toNRAMValueData := by
    intro h
    have hdata : (v.data ++ [a, b]).length = v.data.length := congrArg (·.data.length) h
    rw [List.length_append] at hdata
    exact absurd hdata (by simp)
  refine ⟨not_codecRoundTrip houtside, houtside, hread, hne, ?_, copyNramValue_row v⟩
  rw [v.serialize_followedBy, v.buf_eq]

/-- The value without fields of transaction 7. -/
def emptyRow : RowValue where
  xactId := 7
  flags := 0
  nfields := 0
  data := []
  areFields := rfl

/-- Of the eight bytes of a value without fields, ten are read. -/
theorem empty_row_overread : emptyRow.buf.length = 8 ∧
    tvalueDeserializeIn emptyRow.buf emptyRow.buf.length = outside ∧
    ¬ CodecRoundTrip emptyRow := by
  have houtside : tvalueDeserializeIn emptyRow.buf emptyRow.buf.length = outside :=
    tvalueDeserializeIn_of_lt (by decide) (by decide)
  exact ⟨by decide, houtside, not_codecRoundTrip houtside⟩

end NeurDB.Nram
