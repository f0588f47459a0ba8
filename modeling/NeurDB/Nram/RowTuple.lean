import NeurDB.Framework.Checked
import NeurDB.Nram.Wire

/-!
# Tuples and stored values

`nram_value_serialize_from_tuple` and `deserialize_nram_value_to_tuple` of `nram_access/kv.c`, with
the functions of the server that they call (`datum.c`, `heap_form_tuple`).

A value holds a field for each attribute of the descriptor it was written under. To decode it, the
fields are restored into two arrays, one entry for each *field*, and `heap_form_tuple` walks over
the arrays, one entry for each *attribute* of the descriptor that is current now. `ALTER TABLE ...
ADD COLUMN` makes the second number the larger one.

With an added attribute, `heap_form_tuple` reads behind the arrays (`deserialize_extended`); so the
tuple comes back exactly if none was added (`rows_survive_iff`).
-/

namespace NeurDB.Nram

open List

open Checked

/-! ### Data and descriptors -/

/-- A value of an attribute: a word, or the bytes that a pointer leads to. The size of such an
object is less than a gigabyte (`MaxAllocSize`). -/
inductive Datum where
  | byVal (word : BitVec 64)
  | byRef (bytes : { l : List Byte // l.length < 2 ^ 30 })
  deriving DecidableEq

/-- `FormData_pg_attribute`, as far as the values need it. -/
structure Attribute where
  atttypid : Oid
  deriving DecidableEq

/-- A descriptor of a table, which has at most `MaxHeapAttributeNumber` columns. -/
structure TupleDesc where
  attrs : List Attribute
  natts_le : attrs.length ≤ 1600

def TupleDesc.natts (tupdesc : TupleDesc) : ℕ := tupdesc.attrs.length

/-- A tuple with a descriptor, as `heap_deform_tuple` takes it apart: a datum or null for each
attribute. -/
structure HeapTuple (tupdesc : TupleDesc) where
  columns : List (Option Datum)
  length_columns : columns.length = tupdesc.natts

/-! ### `datum.c` -/

/-- `datumEstimateSpace`. -/
def datumEstimateSpace : Option Datum → ℕ
  | none => 4
  | some (.byVal _) => 4 + 8
  | some (.byRef bytes) => 4 + bytes.1.length

/-- `datumSerialize`: a header word, which is -2 for a null, -1 for a word and the size otherwise,
and the datum. -/
def datumSerialize : Option Datum → List Byte
  | none => leBytes 4 (2 ^ 32 - 2)
  | some (.byVal word) => leBytes 4 (2 ^ 32 - 1) ++ leBytes 8 word.toNat
  | some (.byRef bytes) => leBytes 4 bytes.1.length ++ bytes.1

/-- `datumRestore` at a position, and the position behind the datum. -/
def datumRestore (memory : List Byte) (pos : ℕ) : Checked String (Option Datum × ℕ) := do
  let header ← u32At memory pos
  if header = 2 ^ 32 - 2 then return (none, pos + 4)
  else if header = 2 ^ 32 - 1 then
    let word ← bytesAt memory (pos + 4) 8
    return (some (.byVal (BitVec.ofNat 64 (leVal word))), pos + 4 + 8)
  else
    let bytes ← bytesAt memory (pos + 4) header
    if h : bytes.length < 2 ^ 30 then return (some (.byRef ⟨bytes, h⟩), pos + 4 + header)
    else refused "invalid memory alloc request size"

/-! ### From tuples to values -/

/-- A field: the number of the attribute, padding, the type, the length, and the datum. -/
def fieldBytes (i : ℕ) (attr : Attribute) (datum : Option Datum) : List Byte :=
  leBytes 2 i ++ (leBytes 2 0 ++ (leBytes 4 attr.atttypid.toNat ++
    (leBytes 4 (datumEstimateSpace datum) ++ datumSerialize datum)))

/-- The second loop of `nram_value_serialize_from_tuple`, from the attribute `i` on. -/
def serializeColumns : ℕ → List Attribute → List (Option Datum) → List Byte
  | i, attr :: attrs, datum :: columns =>
    fieldBytes i attr datum ++ serializeColumns (i + 1) attrs columns
  | _, _, _ => []

/-- `nram_value_serialize_from_tuple`. The size is estimated first, and compared in the end. -/
def nramValueSerializeFromTuple (xactId : TransactionId) {tupdesc : TupleDesc}
    (tuple : HeapTuple tupdesc) : Except String NRAMValueData :=
  let totalSize := 8 + (tuple.columns.map fun d => datumEstimateSpace d + fieldHeaderSize).sum
  let data := serializeColumns 0 tupdesc.attrs tuple.columns
  if 8 + data.length ≠ totalSize then
    .error ("[nram_value_serialize_from_tuple]: wrong value serialization length mismatch: " ++
      "expected " ++ toString totalSize ++ ": real " ++ toString (8 + data.length))
  else .ok ⟨xactId, 0, BitVec.ofNat 16 tupdesc.natts, data⟩

/-! ### From values to tuples -/

/-- The loop of `deserialize_nram_value_to_tuple`, from a position on: the header of a field is
passed over. -/
def restoreFields (memory : List Byte) : ℕ → ℕ → Checked String (List (Option Datum))
  | 0, _ => return []
  | n + 1, pos => do
    let (datum, pos) ← datumRestore memory (pos + fieldHeaderSize)
    let columns ← restoreFields memory n pos
    return datum :: columns

/-- Read an entry of an array. -/
def entryOf {α : Type} (array : List α) (i : ℕ) : Checked String α :=
  match array[i]? with
  | some a => value a
  | none => outside

/-- What `heap_form_tuple` takes for an attribute. The datum of a null is not looked at. -/
def columnOf (values : List Datum) (isNull : List Bool) (i : ℕ) :
    Checked String (Option Datum) := do
  let null ← entryOf isNull i
  if null then return none
  else
    let datum ← entryOf values i
    return some datum

/-- The loop of `heap_compute_data_size`, which `heap_fill_tuple` repeats: `n` attributes from the
attribute `i` on. -/
def formColumns (values : List Datum) (isNull : List Bool) :
    ℕ → ℕ → Checked String (List (Option Datum))
  | _, 0 => return []
  | i, n + 1 => do
    let datum ← columnOf values isNull i
    let columns ← formColumns values isNull (i + 1) n
    return datum :: columns

/-- `heap_form_tuple`; there are never too many attributes. -/
def heapFormTuple (tupdesc : TupleDesc) (values : List Datum) (isNull : List Bool) :
    Checked String (List (Option Datum)) :=
  formColumns values isNull 0 tupdesc.natts

/-- The arrays that the fields are restored into. -/
def datumValues (columns : List (Option Datum)) : List Datum := columns.map (·.getD (.byVal 0))

def datumNulls (columns : List (Option Datum)) : List Bool := columns.map Option.isNone

/-- `deserialize_nram_value_to_tuple`. -/
def deserializeNramValueToTuple (val : NRAMValueData) (tupdesc : TupleDesc) :
    Checked String (List (Option Datum)) := do
  let columns ← restoreFields val.data val.fieldCount 0
  heapFormTuple tupdesc (datumValues columns) (datumNulls columns)

/-- The tuple is stored, and read under another descriptor it has its columns and then nulls. -/
def RowSurvives (xactId : TransactionId) {tupdesc : TupleDesc} (tuple : HeapTuple tupdesc)
    (current : TupleDesc) : Prop :=
  ∃ val, nramValueSerializeFromTuple xactId tuple = .ok val ∧
    deserializeNramValueToTuple val current =
      value (tuple.columns ++ List.replicate (current.natts - tupdesc.natts) none)

/-! ### One datum -/

@[simp] theorem length_datumSerialize (datum : Option Datum) :
    (datumSerialize datum).length = datumEstimateSpace datum := by
  cases datum with
  | none => exact length_leBytes 4 _
  | some d => cases d <;> simp [datumSerialize, datumEstimateSpace]

@[simp] theorem length_fieldBytes (i : ℕ) (attr : Attribute) (datum : Option Datum) :
    (fieldBytes i attr datum).length = datumEstimateSpace datum + fieldHeaderSize := by
  simp only [fieldBytes, length_append, length_leBytes, length_datumSerialize, fieldHeaderSize]
  omega

theorem u32At_word (pre rest : List Byte) {x : ℕ} (hx : x < 2 ^ 32) :
    (u32At (pre ++ (leBytes 4 x ++ rest)) pre.length : Checked String ℕ) = value x := by
  rw [u32At_of_le (by simp), word32_append _ _ hx]

theorem bytesAt_append (pre bytes rest : List Byte) :
    (bytesAt (pre ++ (bytes ++ rest)) pre.length bytes.length : Checked String (List Byte)) =
      value bytes := by
  rw [bytesAt_of_le (by simp), drop_left, take_left]

/-- **A datum is restored.** -/
theorem datumRestore_serialize (pre rest : List Byte) (datum : Option Datum) :
    datumRestore (pre ++ (datumSerialize datum ++ rest)) pre.length =
      value (datum, pre.length + datumEstimateSpace datum) := by
  cases datum with
  | none =>
    have hheader := u32At_word pre rest (show 2 ^ 32 - 2 < 2 ^ 32 by norm_num)
    rw [datumRestore, datumSerialize, hheader, value_bind, if_pos rfl]
    rfl
  | some d =>
    cases d with
    | byVal word =>
      have hheader := u32At_word pre (leBytes 8 word.toNat ++ rest)
        (show 2 ^ 32 - 1 < 2 ^ 32 by norm_num)
      have hword := bytesAt_append (pre ++ leBytes 4 (2 ^ 32 - 1)) (leBytes 8 word.toNat) rest
      rw [append_assoc, length_append, length_leBytes, length_leBytes] at hword
      have hvalue : BitVec.ofNat 64 (leVal (leBytes 8 word.toNat)) = word :=
        ofNat_leVal_leBytes (by norm_num) word
      rw [datumRestore, datumSerialize, append_assoc, hheader, value_bind,
        if_neg (by norm_num), if_pos rfl, hword, value_bind, hvalue]
      rfl
    | byRef bytes =>
      obtain ⟨bytes, hbytes⟩ := bytes
      have hheader := u32At_word pre (bytes ++ rest)
        (show bytes.length < 2 ^ 32 from hbytes.trans (by norm_num))
      have hdata := bytesAt_append (pre ++ leBytes 4 bytes.length) bytes rest
      rw [append_assoc, length_append, length_leBytes] at hdata
      -- a size is neither -2 nor -1
      have hnull : bytes.length ≠ 2 ^ 32 - 2 := by omega
      have hword : bytes.length ≠ 2 ^ 32 - 1 := by omega
      rw [datumRestore, datumSerialize, append_assoc, hheader, value_bind, if_neg hnull,
        if_neg hword, hdata, value_bind, dif_pos hbytes, Nat.add_assoc]
      rfl

/-! ### The fields -/

variable {columns : List (Option Datum)} {i : ℕ} {attrs : List Attribute}

theorem length_serializeColumns (h : columns.length = attrs.length) (i : ℕ) :
    (serializeColumns i attrs columns).length =
      (columns.map fun d => datumEstimateSpace d + fieldHeaderSize).sum := by
  induction columns generalizing i attrs with
  | nil =>
    obtain rfl := length_eq_zero_iff.mp h.symm
    rfl
  | cons datum columns ih =>
    obtain ⟨attr, attrs, rfl⟩ := exists_cons_of_length_eq_add_one h.symm
    rw [serializeColumns, length_append, length_fieldBytes, map_cons, sum_cons, ih (Nat.succ.inj h)]

/-- **All fields are restored**, by induction on the columns: the position moves behind one field
after the other. -/
theorem restoreFields_serialize (h : columns.length = attrs.length) (i : ℕ) (pre : List Byte) :
    restoreFields (pre ++ serializeColumns i attrs columns) columns.length pre.length =
      value columns := by
  induction columns generalizing i attrs pre with
  | nil => rfl
  | cons datum columns ih =>
    obtain ⟨attr, attrs, rfl⟩ := exists_cons_of_length_eq_add_one h.symm
    -- the header of the field, and what stands before it
    obtain ⟨header, hheader, hfield⟩ : ∃ header : List Byte, header.length = fieldHeaderSize ∧
        fieldBytes i attr datum = header ++ datumSerialize datum :=
      ⟨leBytes 2 i ++ (leBytes 2 0 ++ (leBytes 4 attr.atttypid.toNat ++
        leBytes 4 (datumEstimateSpace datum))), by simp [fieldHeaderSize], by simp [fieldBytes]⟩
    have hmemory : pre ++ serializeColumns i (attr :: attrs) (datum :: columns) =
        (pre ++ header) ++ (datumSerialize datum ++ serializeColumns (i + 1) attrs columns) := by
      rw [serializeColumns, hfield]
      simp only [append_assoc]
    have hdatum := datumRestore_serialize (pre ++ header)
      (serializeColumns (i + 1) attrs columns) datum
    have hrest := ih (Nat.succ.inj h) (i + 1) (pre ++ header ++ datumSerialize datum)
    rw [append_assoc] at hrest
    simp only [length_append, hheader, length_datumSerialize] at hdatum hrest
    rw [hmemory, length_cons, restoreFields, hdatum, value_bind]
    dsimp only
    rw [hrest]
    rfl

/-! ### The arrays -/

theorem columnOf_of_getElem {datum : Option Datum} (h : columns[i]? = some datum) :
    columnOf (datumValues columns) (datumNulls columns) i = value datum := by
  have hnull : entryOf (datumNulls columns) i = value datum.isNone := by
    rw [entryOf, datumNulls, getElem?_map, h]
    rfl
  have hvalue : entryOf (datumValues columns) i = value (datum.getD (.byVal 0)) := by
    rw [entryOf, datumValues, getElem?_map, h]
    rfl
  rw [columnOf, hnull, value_bind]
  cases datum with
  | none => rfl
  | some d =>
    rw [if_neg (by simp), hvalue]
    rfl

theorem columnOf_outside (h : columns[i]? = none) :
    columnOf (datumValues columns) (datumNulls columns) i = outside := by
  have hnull : entryOf (datumNulls columns) i = outside := by
    rw [entryOf, datumNulls, getElem?_map, h]
    rfl
  rw [columnOf, hnull]
  rfl

theorem formColumns_of_le {n : ℕ} (h : i + n ≤ columns.length) :
    formColumns (datumValues columns) (datumNulls columns) i n =
      value ((columns.drop i).take n) := by
  induction n generalizing i with
  | zero => rfl
  | succ n ih =>
    have hi : i < columns.length := by omega
    have hsplit : columns.drop i = columns[i] :: columns.drop (i + 1) :=
      drop_eq_getElem_cons hi
    rw [formColumns, columnOf_of_getElem (getElem?_eq_getElem hi), value_bind,
      ih (by omega), hsplit, take_succ_cons]
    rfl

theorem formColumns_of_lt {n : ℕ} (hi : i ≤ columns.length) (h : columns.length < i + n) :
    formColumns (datumValues columns) (datumNulls columns) i n = outside := by
  induction n generalizing i with
  | zero => omega
  | succ n ih =>
    rcases Nat.lt_or_ge i columns.length with hlt | hge
    · rw [formColumns, columnOf_of_getElem (getElem?_eq_getElem hlt), value_bind, ih hlt (by omega)]
      rfl
    · rw [formColumns, columnOf_outside (getElem?_eq_none hge)]
      rfl

/-! ### Rows -/

section Rows

variable (xactId : TransactionId) {tupdesc : TupleDesc} (tuple : HeapTuple tupdesc)
  {current : TupleDesc}

/-- The value of a tuple. -/
def HeapTuple.value : NRAMValueData :=
  ⟨xactId, 0, BitVec.ofNat 16 tupdesc.natts, serializeColumns 0 tupdesc.attrs tuple.columns⟩

theorem nramValueSerializeFromTuple_eq :
    nramValueSerializeFromTuple xactId tuple = .ok (tuple.value xactId) := by
  have hsize := length_serializeColumns (i := 0) tuple.length_columns
  exact if_neg (not_not_intro (congrArg (8 + ·) hsize))

theorem fieldCount_value : (tuple.value xactId).fieldCount = tuple.columns.length := by
  have hle : tupdesc.natts ≤ 1600 := tupdesc.natts_le
  have hnat : (BitVec.ofNat 16 tupdesc.natts).toNat = tupdesc.natts := by
    rw [BitVec.toNat_ofNat]
    omega
  have hint : (BitVec.ofNat 16 tupdesc.natts).toInt = tupdesc.natts := by
    rw [BitVec.toInt_eq_toNat_of_lt (by rw [hnat]; omega), hnat]
  rw [tuple.length_columns]
  show (BitVec.ofNat 16 tupdesc.natts).toInt.toNat = tupdesc.natts
  rw [hint, Int.toNat_natCast]

theorem deserialize_value (current : TupleDesc) :
    deserializeNramValueToTuple (tuple.value xactId) current =
      formColumns (datumValues tuple.columns) (datumNulls tuple.columns) 0 current.natts := by
  have hfields : restoreFields (tuple.value xactId).data tuple.columns.length 0 =
      Checked.value tuple.columns :=
    restoreFields_serialize tuple.length_columns 0 []
  rw [deserializeNramValueToTuple, fieldCount_value, hfields, value_bind]
  rfl

theorem deserialize_same (h : current.natts = tupdesc.natts) :
    deserializeNramValueToTuple (tuple.value xactId) current = .value tuple.columns := by
  have hlen : current.natts = tuple.columns.length := by rw [h, tuple.length_columns]
  rw [deserialize_value, hlen, formColumns_of_le (by omega), drop_zero, take_length]

theorem deserialize_extended (h : tupdesc.natts < current.natts) :
    deserializeNramValueToTuple (tuple.value xactId) current = outside := by
  rw [deserialize_value]
  refine formColumns_of_lt (Nat.zero_le _) ?_
  rw [tuple.length_columns]
  omega

end Rows

/-- **Added columns.** A stored tuple that is read under a descriptor with attributes added at the
end has its columns and nulls for the added ones, exactly if none was added. -/
theorem rows_survive_iff (xactId : TransactionId) {tupdesc : TupleDesc}
    (tuple : HeapTuple tupdesc) {current : TupleDesc} (hext : tupdesc.attrs <+: current.attrs) :
    RowSurvives xactId tuple current ↔ current.attrs = tupdesc.attrs := by
  constructor
  · rintro ⟨val, hstored, hread⟩
    obtain rfl : tuple.value xactId = val :=
      Except.ok.inj ((nramValueSerializeFromTuple_eq xactId tuple).symm.trans hstored)
    by_contra hne
    have hlt : tupdesc.natts < current.natts := by
      refine lt_of_le_of_ne hext.length_le fun hlen => hne ?_
      exact (hext.eq_of_length hlen).symm
    rw [deserialize_extended xactId tuple hlt] at hread
    cases hread
  · intro hattrs
    have hlen : current.natts = tupdesc.natts := congrArg List.length hattrs
    refine ⟨tuple.value xactId, nramValueSerializeFromTuple_eq xactId tuple, ?_⟩
    rw [deserialize_same xactId tuple hlen, hlen, Nat.sub_self, replicate_zero,
      append_nil]

/-! ### One column and two -/

theorem one_natts : [Attribute.mk 23].length ≤ 1600 := by decide

theorem two_natts : [Attribute.mk 23, Attribute.mk 23].length ≤ 1600 := by decide

/-- A table with one column of type `int4`. -/
def oneColumn : TupleDesc := ⟨[⟨23⟩], one_natts⟩

/-- The table after `ADD COLUMN`. -/
def twoColumns : TupleDesc := ⟨[⟨23⟩, ⟨23⟩], two_natts⟩

/-- The row `(5)`. -/
def rowOfFive : HeapTuple oneColumn := ⟨[some (.byVal 5)], rfl⟩

/-- The row `(5, NULL)`. -/
def rowWithNull : HeapTuple twoColumns := ⟨[some (.byVal 5), none], rfl⟩

theorem row_survives_unchanged :
    twoColumns.attrs <+: twoColumns.attrs ∧ RowSurvives 7 rowWithNull twoColumns :=
  ⟨prefix_rfl, (rows_survive_iff 7 rowWithNull prefix_rfl).mpr rfl⟩

/-- The row cannot be read any more after a column was added. -/
theorem row_lost_with_column :
    oneColumn.attrs <+: twoColumns.attrs ∧
      deserializeNramValueToTuple (rowOfFive.value 7) twoColumns = outside ∧
      ¬ RowSurvives 7 rowOfFive twoColumns := by
  have houtside : deserializeNramValueToTuple (rowOfFive.value 7) twoColumns = outside :=
    deserialize_extended 7 rowOfFive (by decide)
  refine ⟨⟨[⟨23⟩], rfl⟩, houtside, ?_⟩
  rintro ⟨val, hstored, hread⟩
  obtain rfl : rowOfFive.value 7 = val :=
    Except.ok.inj ((nramValueSerializeFromTuple_eq 7 rowOfFive).symm.trans hstored)
  rw [houtside] at hread
  cases hread

end NeurDB.Nram
