import NeurDB.Framework.Codec
import NeurDB.Nram.Channel
import NeurDB.Nram.RocksProtocol

/-!
# Rows and requests as bytes

`tvalue_serialize` and `tvalue_deserialize` of `nram_access/kv.c`, and the entities of the
messages between `nram_storage/rocks_handler.c` and `nram_storage/rocks_service.c`.

A value lies in memory as a header and the bytes behind it. Whoever looks at the fields walks
over as many of them as the header says (`NRAMValueData.value`). `tvalue_deserialize` takes the
header to be six bytes long where it is eight, and copies two bytes more than the value has:
they stand behind the last field, and nothing that walks over the fields sees them
(`value_deserialize`, `serialize_deserialize`).
-/

namespace NeurDB.Nram

open List

/-! ### Values in memory -/

/-- `NRAMValueData`, with the bytes the allocation holds behind the header. -/
structure NRAMValueData where
  xactId : TransactionId
  flags : BitVec 16
  nfields : BitVec 16
  data : List Byte

/-- `nfields` as the bound of a loop over an `int`: it is signed. -/
def NRAMValueData.fieldCount (v : NRAMValueData) : ℕ := v.nfields.toInt.toNat

/-- `sizeof(NRAMValueFieldData)`: the number of the attribute, two bytes of padding, the type
and the length of the data. -/
def fieldHeaderSize : ℕ := 12

/-- The size of the field at the front: its header and its data. -/
def fieldSize (data : List Byte) : ℕ := fieldHeaderSize + leVal ((data.drop 8).take 4)

/-- The loop of `tvalue_serialize`: the bytes of the first `n` fields. -/
def serializeFields : ℕ → List Byte → List Byte
  | 0, _ => []
  | n + 1, data => data.take (fieldSize data) ++ serializeFields n (data.drop (fieldSize data))

/-- The first `n` fields, as `deserialize_nram_value_to_tuple` walks over them. -/
def parseFields : ℕ → List Byte → List NRAMValueField
  | 0, _ => []
  | n + 1, data =>
    ⟨BitVec.ofNat 16 (leVal (data.take 2)), BitVec.ofNat 32 (leVal ((data.drop 4).take 4)),
      (data.take (fieldSize data)).drop fieldHeaderSize⟩ ::
      parseFields n (data.drop (fieldSize data))

def tvalueSerialize (tvalue : NRAMValueData) : List Byte :=
  leBytes 4 tvalue.xactId.toNat ++ (leBytes 2 tvalue.flags.toNat ++
    (leBytes 2 tvalue.nfields.toNat ++ serializeFields tvalue.fieldCount tvalue.data))

/-- `tvalue_deserialize`, of the memory from `buf` on: `data_len` leaves out that `nfields` was
read from the buffer, too. -/
def tvalueDeserialize (buf : List Byte) (len : ℕ) : NRAMValueData where
  xactId := BitVec.ofNat 32 (leVal (buf.take 4))
  flags := BitVec.ofNat 16 (leVal ((buf.drop 4).take 2))
  nfields := BitVec.ofNat 16 (leVal ((buf.drop 6).take 2))
  data := (buf.drop 8).take (len - 4 - 2)

/-- The value that is seen through the fields. -/
def NRAMValueData.value (v : NRAMValueData) : NRAMValue :=
  ⟨v.xactId, v.flags, parseFields v.fieldCount v.data⟩

/-- A field as `nram_value_serialize_from_tuple` lays it out, in memory that was cleared. -/
def NRAMValueField.toBytes (f : NRAMValueField) : List Byte :=
  leBytes 2 f.attnum.toNat ++ (leBytes 2 0 ++ (leBytes 4 f.typeOid.toNat ++
    (leBytes 4 f.data.length ++ f.data)))

/-- A value in memory. -/
def NRAMValue.toData (v : NRAMValue) : NRAMValueData :=
  ⟨v.xactId, v.flags, BitVec.ofNat 16 v.fields.length,
    v.fields.flatMap NRAMValueField.toBytes⟩

/-- The bytes of a stored value. -/
def NRAMValue.stored (v : NRAMValue) : List Byte := tvalueSerialize v.toData

/-! ### Walking over the fields -/

theorem length_fieldToBytes (f : NRAMValueField) :
    f.toBytes.length = fieldHeaderSize + f.data.length := by
  simp only [NRAMValueField.toBytes, length_append, length_leBytes, fieldHeaderSize]
  omega

theorem fieldSize_toBytes {f : NRAMValueField} (hf : f.data.length < 2 ^ 32) (rest : List Byte) :
    fieldSize (f.toBytes ++ rest) = f.toBytes.length := by
  have hlen : ((f.toBytes ++ rest).drop 8).take 4 = leBytes 4 f.data.length := by
    simp [NRAMValueField.toBytes, drop_append, drop_eq_nil_of_le]
  rw [fieldSize, hlen, leVal_leBytes (hf.trans_eq (by norm_num)), length_fieldToBytes]

variable {fields : List NRAMValueField}

theorem serializeFields_flatMap (h : ∀ f ∈ fields, f.data.length < 2 ^ 32) (rest : List Byte) :
    serializeFields fields.length (fields.flatMap NRAMValueField.toBytes ++ rest) =
      fields.flatMap NRAMValueField.toBytes := by
  induction fields with
  | nil => rfl
  | cons f fields ih =>
    have hf := h f mem_cons_self
    rw [flatMap_cons, append_assoc, length_cons, serializeFields,
      fieldSize_toBytes hf, take_left, drop_left,
      ih fun g hg => h g (mem_cons_of_mem f hg)]

theorem parseFields_flatMap (h : ∀ f ∈ fields, f.data.length < 2 ^ 32) (rest : List Byte) :
    parseFields fields.length (fields.flatMap NRAMValueField.toBytes ++ rest) = fields := by
  induction fields with
  | nil => rfl
  | cons f fields ih =>
    have hf := h f mem_cons_self
    rw [flatMap_cons, append_assoc, length_cons, parseFields,
      fieldSize_toBytes hf, take_left, drop_left,
      ih fun g hg => h g (mem_cons_of_mem f hg)]
    congr 1
    obtain ⟨attnum, typeOid, data⟩ := f
    simp [NRAMValueField.toBytes, drop_append, drop_eq_nil_of_le, fieldHeaderSize,
      ofNat_leVal_leBytes]

/-! ### Values that fit a put -/

/-- The message of a put of the value fits. -/
def NRAMValue.Storable (v : NRAMValue) : Prop := putMsgSize v ≤ msgSize

instance (v : NRAMValue) : Decidable v.Storable := inferInstanceAs (Decidable (_ ≤ _))

namespace NRAMValue.Storable

variable {v : NRAMValue}

section

variable (h : v.Storable)

include h

theorem length_data_lt : ∀ f ∈ v.fields, f.data.length < 2 ^ 32 := by
  intro f hf
  have hsum := le_sum_of_mem (mem_map_of_mem (f := fun f => 12 + f.data.length) hf)
  unfold NRAMValue.Storable putMsgSize tvalueSize msgSize at h
  omega

theorem length_fields_lt : v.fields.length < 2 ^ 15 := by
  have hsum := length_le_sum_of_one_le (v.fields.map fun f => 12 + f.data.length) (by
    intro n hn
    obtain ⟨f, -, rfl⟩ := mem_map.mp hn
    omega)
  rw [length_map] at hsum
  unfold NRAMValue.Storable putMsgSize tvalueSize msgSize at h
  omega

theorem toNat_nfields : (BitVec.ofNat 16 v.fields.length).toNat = v.fields.length := by
  have hlt := h.length_fields_lt
  rw [BitVec.toNat_ofNat, Nat.mod_eq_of_lt (by omega)]

theorem toInt_nfields : (BitVec.ofNat 16 v.fields.length).toInt.toNat = v.fields.length := by
  have hlt := h.length_fields_lt
  have hnat := h.toNat_nfields
  rw [BitVec.toInt_eq_toNat_of_lt (by omega), hnat, Int.toNat_natCast]

theorem stored_eq :
    v.stored = leBytes 4 v.xactId.toNat ++ (leBytes 2 v.flags.toNat ++
      (leBytes 2 v.fields.length ++ v.fields.flatMap NRAMValueField.toBytes)) := by
  have hfields := serializeFields_flatMap h.length_data_lt []
  rw [append_nil] at hfields
  have hcount : v.toData.fieldCount = v.fields.length := h.toInt_nfields
  rw [NRAMValue.stored, tvalueSerialize, hcount]
  simp only [NRAMValue.toData, hfields, h.toNat_nfields]

theorem length_stored : v.stored.length = tvalueSize v := by
  have hsum : (v.fields.flatMap NRAMValueField.toBytes).length =
      (v.fields.map fun f => 12 + f.data.length).sum := by
    rw [length_flatMap]
    simp [length_fieldToBytes, fieldHeaderSize]
  rw [h.stored_eq]
  simp only [length_append, length_leBytes, hsum, tvalueSize]
  omega

/-- What `tvalue_deserialize` makes of a stored value: the two bytes behind it are copied,
too. -/
theorem deserialize_stored (rest : List Byte) :
    tvalueDeserialize (v.stored ++ rest) (tvalueSize v) =
      ⟨v.xactId, v.flags, BitVec.ofNat 16 v.fields.length,
        v.fields.flatMap NRAMValueField.toBytes ++ rest.take 2⟩ := by
  have hlt := h.length_fields_lt
  have hlen := h.length_stored
  have hsize : tvalueSize v - 4 - 2 = (v.fields.flatMap NRAMValueField.toBytes).length + 2 := by
    rw [← hlen, h.stored_eq]
    simp only [length_append, length_leBytes]
    omega
  rw [h.stored_eq, tvalueDeserialize, hsize]
  have hn : leVal (leBytes 2 v.fields.length) = v.fields.length :=
    leVal_leBytes (by omega)
  simp [drop_append, drop_eq_nil_of_le, take_append, ofNat_leVal_leBytes, hn]

/-- **A value survives the store.** -/
theorem value_deserialize (rest : List Byte) :
    (tvalueDeserialize (v.stored ++ rest) (tvalueSize v)).value = v := by
  rw [h.deserialize_stored rest]
  simp only [NRAMValueData.value, NRAMValueData.fieldCount, h.toInt_nfields,
    parseFields_flatMap h.length_data_lt]

theorem serialize_deserialize (rest : List Byte) :
    tvalueSerialize (tvalueDeserialize (v.stored ++ rest) (tvalueSize v)) = v.stored := by
  rw [h.deserialize_stored rest, h.stored_eq]
  simp only [tvalueSerialize, NRAMValueData.fieldCount, h.toInt_nfields,
    serializeFields_flatMap h.length_data_lt, h.toNat_nfields]

end

end NRAMValue.Storable

/-! ### The entities of the messages -/

inductive KVOp where
  | kvNone | kvOpen | kvClose | kvCount | kvPut | kvGet | kvDelete | kvLoad | kvBatchRead
  | kvCursorDelete | kvStart | kvStop | kvRange
  deriving DecidableEq

def KVOp.code : KVOp → BitVec 32
  | kvNone => 0 | kvOpen => 1 | kvClose => 2 | kvCount => 3 | kvPut => 4 | kvGet => 5
  | kvDelete => 6 | kvLoad => 7 | kvBatchRead => 8 | kvCursorDelete => 9 | kvStart => 10
  | kvStop => 11 | kvRange => 12

inductive KVMsgStatus where
  | none | ok | error | failed
  deriving DecidableEq

def KVMsgStatus.code : KVMsgStatus → BitVec 32
  | none => 0 | ok => 1 | error => 2 | failed => 3

/-- A message before its size is known to fit. -/
structure Draft where
  op : KVOp
  relId : Oid
  status : KVMsgStatus
  respChannel : BitVec 32
  /-- NULL, or the bytes of the entity. -/
  entity : Option (List Byte)

def Draft.entitySize (d : Draft) : ℕ := (d.entity.getD []).length

/-- The message of a draft that is not too large. -/
def Draft.msg (d : Draft) (h : kvMsgHeaderSize + d.entitySize ≤ msgSize) : KVMsg where
  header := ⟨d.op.code, d.relId, d.status.code, d.respChannel, BitVec.ofNat 64 d.entitySize⟩
  entity := d.entity
  entity_length := by
    intro e he
    have hsize : d.entitySize = e.length := by
      unfold Draft.entitySize
      rw [Option.mem_def.mp he, Option.getD_some]
    unfold kvMsgHeaderSize msgSize at h
    rw [BitVec.toNat_ofNat, Nat.mod_eq_of_lt (by omega), hsize]

/-- The request a backend sends. A put and a range scan put the length before each key. -/
def requestDraft (pid : BitVec 32) : KVRequest → Draft
  | .kvGet key => ⟨.kvGet, key.tableOid, .none, pid, some (tkeySerialize key)⟩
  | .kvPut key value => ⟨.kvPut, key.tableOid, .none, pid,
      some (leBytes 8 (tkeySerialize key).length ++ (tkeySerialize key ++ value.stored))⟩
  | .kvRange startKey endKey => ⟨.kvRange, startKey.tableOid, .none, pid,
      some (leBytes 8 (tkeySerialize startKey).length ++ (tkeySerialize startKey ++
        (leBytes 8 (tkeySerialize endKey).length ++ tkeySerialize endKey)))⟩

/-- One row of the reply to a range scan. -/
def rowBytes (row : NRAMKey × NRAMValueData) : List Byte :=
  leBytes 8 (tkeySerialize row.1).length ++ (tkeySerialize row.1 ++
    (leBytes 8 (tvalueSerialize row.2).length ++ tvalueSerialize row.2))

/-- `result_count` and the rows. -/
def rangeEntity (rows : List (NRAMKey × NRAMValueData)) : List Byte :=
  leBytes 4 rows.length ++ rows.flatMap rowBytes

namespace Wire

/-! ### The service

`behind` is what the heap holds behind a buffer: `tvalue_deserialize` reads two bytes of it. -/

variable (behind : List Byte → List Byte)

/-- `tvalue_deserialize` of a buffer that holds one value. -/
def deserializeBuffer (buf : List Byte) : NRAMValueData :=
  tvalueDeserialize (buf ++ behind buf) buf.length

/-- What `process_request` does with a message. -/
inductive Processed where
  /-- An error was raised, or a null pointer read: the process ends. -/
  | died
  /-- There is no response. -/
  | silent (db : RocksDB (List Byte))
  | responded (db : RocksDB (List Byte)) (resp : Draft)

/-- `handle_kv_get`. Of a key that is not stored `rocksengine_get` gets a null pointer, and
deserializes it. -/
def handleKvGet (db : RocksDB (List Byte)) (msg : KVMsg) : Processed :=
  match tkeyDeserialize msg.entityBytes with
  | .error _ => .died
  | .ok key =>
    match rocksengineGet db key with
    | none => .died
    | some buf => .responded db ⟨.kvGet, key.tableOid, .ok, msg.header.respChannel,
        some (tvalueSerialize (deserializeBuffer behind buf))⟩

/-- `handle_kv_put`. -/
def handleKvPut (db : RocksDB (List Byte)) (msg : KVMsg) : Processed :=
  let buf := msg.entityBytes
  let keyLen := leVal (buf.take 8)
  if buf.length < 8 then .silent db
  else if buf.length < (8 + keyLen) % 2 ^ 64 then .silent db
  else
    match tkeyDeserialize ((buf.drop 8).take keyLen) with
    | .error _ => .died
    | .ok key =>
      let value := tvalueDeserialize (buf.drop (8 + keyLen) ++ behind buf)
        (buf.length - keyLen - 8)
      .responded (rocksenginePut db key (tvalueSerialize value))
        ⟨.kvPut, key.tableOid, .ok, msg.header.respChannel, none⟩

/-- `handle_kv_range_scan`. -/
def handleKvRangeScan (db : RocksDB (List Byte)) (msg : KVMsg) : Processed :=
  let buf := msg.entityBytes
  let keyLen1 := leVal (buf.take 8)
  let keyLen2 := leVal ((buf.drop (8 + keyLen1)).take 8)
  match tkeyDeserialize ((buf.drop 8).take keyLen1),
      tkeyDeserialize ((buf.drop (8 + keyLen1 + 8)).take keyLen2) with
  | .ok startKey, .ok endKey =>
    match rocksengineRangeScan db startKey endKey with
    | .error _ => .died
    | .ok results =>
      .responded db ⟨.kvRange, startKey.tableOid, .ok, msg.header.respChannel,
        some (rangeEntity (results.map (Prod.map id (deserializeBuffer behind))))⟩
  | _, _ => .died

/-- `process_request`. -/
def processRequest (db : RocksDB (List Byte)) (msg : KVMsg) : Processed :=
  if msg.header.op = KVOp.kvGet.code then handleKvGet behind db msg
  else if msg.header.op = KVOp.kvPut.code then handleKvPut behind db msg
  else if msg.header.op = KVOp.kvRange.code then handleKvRangeScan behind db msg
  else .silent db

/-! ### The client -/

/-- `tkey_deserialize` at the pointer of a loop over a buffer. -/
def readKey (klen : ℕ) : Reader NRAMKey := do
  let buf ← Reader.bytes klen
  match tkeyDeserialize buf with
  | .ok key => return key
  | .error _ => failure

/-- `tvalue_deserialize` at the pointer of a loop over a buffer: the two bytes too many are
those of the next row. -/
def readValue (vlen : ℕ) : Reader NRAMValue := fun buf =>
  (Reader.bytes vlen buf).map fun r => ((tvalueDeserialize buf vlen).value, r.2)

/-- The body of the loop of `RocksClientRangeScan`. -/
def readRow : Reader (NRAMKey × NRAMValue) := do
  let klen ← Reader.uint 8
  let key ← readKey klen
  let vlen ← Reader.uint 8
  let value ← readValue vlen
  return (key, value)

/-- The rows of a reply. -/
def readRange : Reader (List (NRAMKey × NRAMValue)) := do
  let count ← Reader.uint 4
  Reader.times count readRow

/-- How a call of the client ends. -/
inductive Outcome where
  | returned (result : KVResult)
  | raised (text : String)
  /-- It waits for a message, or for room in the channel of the service. -/
  | waiting
  deriving DecidableEq

/-- What the client makes of the message it popped. -/
def receive (r : KVRequest) (msg : KVMsg) : Outcome :=
  let ok := msg.header.status = KVMsgStatus.ok.code
  match r with
  | .kvGet _ =>
    if ok ∧ msg.header.op = KVOp.kvGet.code then
      .returned (.get (some (deserializeBuffer behind msg.entityBytes).value))
    else .raised "[NRAM] Rocks GET failed"
  | .kvPut _ _ => .returned (.put (ok ∧ msg.header.op = KVOp.kvPut.code))
  | .kvRange _ _ =>
    if ok ∧ msg.header.op = KVOp.kvRange.code then
      match readRange (msg.entityBytes ++ behind msg.entityBytes) with
      | some (rows, _) => .returned (.range (some rows))
      | none => .raised "tkey_deserialize: input buffer invalid length"
    else .returned (.range none)

/-! ### What the bytes come to -/

@[simp] theorem entityBytes_msg (d : Draft) (h) : (d.msg h).entityBytes = d.entity.getD [] := by
  cases he : d.entity with
  | some e => simp [KVMsg.entityBytes, Draft.msg, he]
  | none => simp [KVMsg.entityBytes, Draft.msg, Draft.entitySize, he]

/-- The store as the service holds it. -/
def storedBytes (db : RocksDB NRAMValue) : RocksDB (List Byte) := db.mapVal NRAMValue.stored

/-- Every value of the store came through a put. -/
def AllStorable (db : RocksDB NRAMValue) : Prop :=
  ∀ key value, rocksengineGet db key = some value → value.Storable

variable {rows : List (NRAMKey × NRAMValue)} {db : RocksDB NRAMValue} {v : NRAMValue}
  {value : NRAMValue}

theorem AllStorable.put (h : AllStorable db) (key : NRAMKey)
    (hv : value.Storable) : AllStorable (rocksenginePut db key value) := by
  intro key' value' hget
  by_cases hkey : key' = key
  · subst hkey
    rw [rocksengineGet_put_self] at hget
    cases hget
    exact hv
  · rw [rocksengineGet_put_of_ne db value hkey] at hget
    exact h key' value' hget

theorem AllStorable.of_rangeScan (h : AllStorable db) {startKey endKey : NRAMKey}
    (hscan : rocksengineRangeScan db startKey endKey = .ok rows) :
    ∀ row ∈ rows, row.2.Storable := by
  obtain ⟨l, hl, hmem, -⟩ := rangeScan_spec db startKey endKey
  obtain rfl : l = rows := Except.ok.inj (hl.symm.trans hscan)
  intro row hrow
  exact h row.1 row.2 ((hmem row.1 row.2).mp hrow).1

theorem deserializeBuffer_stored (h : v.Storable) :
    (deserializeBuffer behind v.stored).value = v ∧
      tvalueSerialize (deserializeBuffer behind v.stored) = v.stored := by
  unfold deserializeBuffer
  rw [h.length_stored]
  exact ⟨h.value_deserialize _, h.serialize_deserialize _⟩

/-- The reply to a range scan that found the given rows. -/
def rangeReply (rows : List (NRAMKey × NRAMValue)) : List Byte :=
  leBytes 4 rows.length ++ rows.flatMap fun row =>
    leBytes 8 12 ++ (tkeySerialize row.1 ++ (leBytes 8 (tvalueSize row.2) ++ row.2.stored))

theorem rangeEntity_deserialize (h : ∀ row ∈ rows, row.2.Storable) :
    rangeEntity ((rows.map (Prod.map id NRAMValue.stored)).map
      (Prod.map id (deserializeBuffer behind))) = rangeReply rows := by
  have hrow : ∀ row ∈ rows, rowBytes ((Prod.map id (deserializeBuffer behind) ∘
      Prod.map id NRAMValue.stored) row) =
      leBytes 8 12 ++ (tkeySerialize row.1 ++ (leBytes 8 (tvalueSize row.2) ++ row.2.stored)) := by
    intro row hrow
    have hv := h row hrow
    simp [rowBytes, (deserializeBuffer_stored behind hv).2, hv.length_stored]
  rw [rangeEntity, rangeReply, length_map, length_map, map_map, flatMap_map, flatMap_congr hrow]

theorem length_rangeReply (h : ∀ row ∈ rows, row.2.Storable) :
    kvMsgHeaderSize + (rangeReply rows).length = rangeMsgSize rows := by
  have hrow : ∀ row ∈ rows, (leBytes 8 12 ++ (tkeySerialize row.1 ++
      (leBytes 8 (tvalueSize row.2) ++ row.2.stored))).length = 8 + 12 + 8 + tvalueSize row.2 := by
    intro row hrow
    simp only [length_append, length_leBytes, length_tkeySerialize, (h row hrow).length_stored]
    omega
  rw [rangeReply, rangeMsgSize, length_append, length_leBytes, length_flatMap, map_congr_left hrow]
  rfl

theorem Reads.readKey (key : NRAMKey) : Reads (Wire.readKey 12) (tkeySerialize key) key := by
  rw [← append_nil (tkeySerialize key)]
  refine (Reads.bytes_of_length (length_tkeySerialize key)).bind ?_
  rw [tkeyDeserialize_serialize]
  exact Reads.pure key

theorem Reads.readValue (h : v.Storable) : Reads (Wire.readValue (tvalueSize v)) v.stored v := by
  intro rest
  have hbytes := Reads.bytes_of_length h.length_stored rest
  rw [Wire.readValue, hbytes, Option.map_some, h.value_deserialize]

theorem tvalueSize_lt (h : v.Storable) : tvalueSize v < 256 ^ 8 := by
  unfold NRAMValue.Storable putMsgSize msgSize at h
  omega

/-- **The client reads the rows the service wrote.** -/
theorem Reads.readRange (h : ∀ row ∈ rows, row.2.Storable) (hcount : rows.length < 2 ^ 32) :
    Reads Wire.readRange (rangeReply rows) rows := by
  have hrow : ∀ row ∈ rows, Reads Wire.readRow
      (leBytes 8 12 ++ (tkeySerialize row.1 ++ (leBytes 8 (tvalueSize row.2) ++ row.2.stored)))
      (id row) := by
    intro row hrow
    have hv := h row hrow
    apply (Reads.uint (by norm_num : 12 < 256 ^ 8)).bind
    apply (Reads.readKey row.1).bind
    apply (Reads.uint (tvalueSize_lt hv)).bind
    exact (Reads.readValue hv).bind_pure fun value => (row.1, value)
  have hrows := Reads.times rows hrow
  rw [map_id] at hrows
  exact (Reads.uint (hcount.trans_eq (by norm_num))).bind hrows

/-! ### What the service makes of a request -/

theorem processRequest_get (hdb : AllStorable db) (key : NRAMKey) (pid : BitVec 32) (h) :
    processRequest behind (storedBytes db) ((requestDraft pid (.kvGet key)).msg h) =
      match rocksengineGet db key with
      | none => .died
      | some value =>
        .responded (storedBytes db) ⟨.kvGet, key.tableOid, .ok, pid, some value.stored⟩ := by
  have hop : ((requestDraft pid (.kvGet key)).msg h).header.op = KVOp.kvGet.code := rfl
  have hbytes : ((requestDraft pid (.kvGet key)).msg h).entityBytes = tkeySerialize key :=
    entityBytes_msg _ h
  rw [processRequest, if_pos hop, handleKvGet, hbytes, tkeyDeserialize_serialize]
  cases hget : rocksengineGet db key with
  | none => simp [storedBytes, hget]
  | some value =>
    simp only [storedBytes, rocksengineGet_mapVal, hget, Option.map_some,
      (deserializeBuffer_stored behind (hdb key value hget)).2]
    rfl

theorem keyed_parts (key : NRAMKey) (rest : List Byte) :
    leVal ((leBytes 8 12 ++ (tkeySerialize key ++ rest)).take 8) = 12 ∧
      ((leBytes 8 12 ++ (tkeySerialize key ++ rest)).drop 8).take 12 = tkeySerialize key ∧
      (leBytes 8 12 ++ (tkeySerialize key ++ rest)).drop (8 + 12) = rest := by
  refine ⟨?_, ?_, ?_⟩
  · rw [take_left' (length_leBytes 8 12), leVal_leBytes (by norm_num)]
  · rw [drop_left' (length_leBytes 8 12), take_left' (length_tkeySerialize key)]
  · rw [← drop_drop, drop_left' (length_leBytes 8 12), drop_left' (length_tkeySerialize key)]

theorem processRequest_put (db : RocksDB NRAMValue) (key : NRAMKey)
    (hv : value.Storable) (pid : BitVec 32) (h) :
    processRequest behind (storedBytes db) ((requestDraft pid (.kvPut key value)).msg h) =
      .responded (storedBytes (rocksenginePut db key value))
        ⟨.kvPut, key.tableOid, .ok, pid, none⟩ := by
  have hop : ((requestDraft pid (.kvPut key value)).msg h).header.op = KVOp.kvPut.code := rfl
  have hbytes : ((requestDraft pid (.kvPut key value)).msg h).entityBytes =
      leBytes 8 12 ++ (tkeySerialize key ++ value.stored) := by
    rw [entityBytes_msg, requestDraft, Option.getD_some, length_tkeySerialize]
  obtain ⟨hlen, hkey, hvalue⟩ := keyed_parts key value.stored
  have htotal : (leBytes 8 12 ++ (tkeySerialize key ++ value.stored)).length =
      20 + tvalueSize value := by
    simp only [length_append, length_leBytes, length_tkeySerialize, hv.length_stored]
    omega
  have hsize : 20 + tvalueSize value - 12 - 8 = tvalueSize value := by omega
  rw [processRequest, if_neg (by rw [hop]; decide), if_pos hop, handleKvPut, hbytes]
  dsimp only
  rw [hlen, htotal, if_neg (by omega), if_neg (by norm_num), hkey, tkeyDeserialize_serialize]
  dsimp only
  rw [hvalue, hsize, hv.serialize_deserialize, storedBytes, rocksenginePut_mapVal]
  rfl

theorem processRequest_range (hdb : AllStorable db) {startKey endKey : NRAMKey}
    (hscan : rocksengineRangeScan db startKey endKey = .ok rows) (pid : BitVec 32) (h) :
    processRequest behind (storedBytes db)
        ((requestDraft pid (.kvRange startKey endKey)).msg h) =
      .responded (storedBytes db)
        ⟨.kvRange, startKey.tableOid, .ok, pid, some (rangeReply rows)⟩ := by
  have hop : ((requestDraft pid (.kvRange startKey endKey)).msg h).header.op =
      KVOp.kvRange.code := rfl
  have hbytes : ((requestDraft pid (.kvRange startKey endKey)).msg h).entityBytes =
      leBytes 8 12 ++ (tkeySerialize startKey ++
        (leBytes 8 12 ++ (tkeySerialize endKey ++ []))) := by
    rw [entityBytes_msg, requestDraft, Option.getD_some, length_tkeySerialize,
      length_tkeySerialize, append_nil]
  obtain ⟨hlen₁, hkey₁, hrest⟩ :=
    keyed_parts startKey (leBytes 8 12 ++ (tkeySerialize endKey ++ []))
  obtain ⟨hlen₂, hkey₂, -⟩ := keyed_parts endKey []
  have hrest₂ : (leBytes 8 12 ++ (tkeySerialize startKey ++
      (leBytes 8 12 ++ (tkeySerialize endKey ++ [])))).drop (8 + 12 + 8) =
      (leBytes 8 12 ++ (tkeySerialize endKey ++ [])).drop 8 := by
    rw [← drop_drop, hrest]
  rw [processRequest, if_neg (by rw [hop]; decide), if_neg (by rw [hop]; decide), if_pos hop,
    handleKvRangeScan, hbytes, hlen₁, hkey₁, hrest₂, hrest, hlen₂, hkey₂,
    tkeyDeserialize_serialize, tkeyDeserialize_serialize]
  dsimp only
  rw [storedBytes, rocksengineRangeScan_mapVal, hscan]
  change Processed.responded _ ⟨.kvRange, startKey.tableOid, .ok, _, some _⟩ = _
  rw [rangeEntity_deserialize behind (hdb.of_rangeScan hscan)]
  rfl

end Wire

end NeurDB.Nram
