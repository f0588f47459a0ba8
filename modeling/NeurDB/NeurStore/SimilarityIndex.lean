import NeurDB.NeurStore.IndexCache
import NeurDB.Framework.Bytes

/-!
# Similarity indexes

`QuantizedHNSWIndexHNSWLIB` keeps tensors that are quantized to bytes, each under an id that it
assigns itself. The graph library below it stores a buffer under a label and returns it by that
label; how it finds a similar one is not modelled, any answer is taken for possible.

Doubles are their bits. The conversions between doubles and bytes are those of a `Quantizer`:
nothing here depends on how they round.
-/

namespace NeurDB.NeurStore

/-- A double, as its bits. -/
abbrev Double := BitVec 64

/-- A tensor quantized to eight bits. -/
structure QuantizedTensor where
  tensor : List Byte
  scale : Double
  zeroPoint : Double
  deriving DecidableEq, Repr

namespace QuantizedTensor

/-- The buffer `addPointInternal` gives to the library. -/
def buffer (q : QuantizedTensor) : List Byte :=
  leBytes 8 q.scale.toNat ++ (leBytes 8 q.zeroPoint.toNat ++ q.tensor)

/-- How `retrieve` takes the buffer apart. -/
def ofBuffer (raw : List Byte) : QuantizedTensor where
  scale := BitVec.ofNat 64 (leVal (raw.take 8))
  zeroPoint := BitVec.ofNat 64 (leVal ((raw.drop 8).take 8))
  tensor := (raw.drop 8).drop 8

@[simp] theorem ofBuffer_buffer (q : QuantizedTensor) : ofBuffer q.buffer = q := by
  obtain ⟨tensor, scale, zeroPoint⟩ := q
  unfold ofBuffer buffer
  rw [List.take_left' (length_leBytes 8 _), List.drop_left' (length_leBytes 8 _),
    List.take_left' (length_leBytes 8 _), List.drop_left' (length_leBytes 8 _),
    ofNat_leVal_leBytes (by norm_num), ofNat_leVal_leBytes (by norm_num)]

end QuantizedTensor

/-- `linearAsymmetricQuantize` to eight bits and back, in double arithmetic. -/
structure Quantizer where
  quantize : List Double → QuantizedTensor
  dequantize : QuantizedTensor → List Double
  length_dequantize : ∀ q, (dequantize q).length = q.tensor.length

/-! ### The index -/

/-- The `m` of `getHNSWParamsForDim`. -/
def hnswM (dimension : ℤ) : ℕ :=
  if dimension ≤ 65536 then 24
  else if dimension ≤ 589822 then 12
  else if dimension ≤ 1048574 then 6
  else 4

/-- `getInitialIndexCapacity` with `INDEX_RESIZE_TIMES`: how many elements fit into 2 GB, before
the capacity has been doubled five times. It is zero for very large dimensions. -/
def initialIndexCapacity (dimension : ℤ) : ℕ :=
  let sizeLinksLevel0 := hnswM dimension * 2 * 4 + 4
  let sizeDataPerElement := sizeLinksLevel0 + dimension.toNat + 8
  let perElementBytes := sizeDataPerElement + 8 + 1 + 40 + 4
  2147483648 / (perElementBytes * 32)

/-- `QuantizedHNSWIndexHNSWLIB`. Ids are assigned in order, so that every label is less than
the next id. -/
@[ext]
structure HnswIndex where
  dimension : ℤ
  maxElements : ℕ
  nextId : ℕ
  /-- The buffers the library holds, by label. -/
  points : List (ℤ × List Byte)
  labels_lt : ∀ p ∈ points, p.1 < nextId

namespace HnswIndex

def new (dimension : ℤ) : HnswIndex where
  dimension := dimension
  maxElements := initialIndexCapacity dimension
  nextId := 0
  points := []
  labels_lt := by simp

/-- The library returns a buffer by its label, and throws if there is none. -/
def getDataByLabel (a : HnswIndex) (label : ℤ) : Option (List Byte) :=
  (a.points.find? fun p => p.1 = label).map Prod.snd

/-- The capacity at the time of the insertion: doubled once, if the id does not fit. -/
def grownElements (a : HnswIndex) : ℕ :=
  if a.nextId < a.maxElements then a.maxElements else a.maxElements * 2

/-- `insert` does not throw: the tensor has the dimension of the index, and the library has
room for it. -/
def Accepts (a : HnswIndex) (q : QuantizedTensor) : Prop :=
  (q.tensor.length : ℤ) = a.dimension ∧ a.points.length < a.grownElements

instance (a : HnswIndex) (q : QuantizedTensor) : Decidable (a.Accepts q) :=
  inferInstanceAs (Decidable (_ ∧ _))

/-- `insert`, where it does not throw. -/
def insert (q : QuantizedTensor) (a : HnswIndex) : HnswIndex where
  dimension := a.dimension
  maxElements := a.grownElements
  nextId := a.nextId + 1
  points := (a.nextId, q.buffer) :: a.points
  labels_lt := by
    intro p hp
    rcases List.mem_cons.mp hp with rfl | hp
    · push_cast
      exact lt_add_one _
    · have := a.labels_lt p hp
      push_cast
      omega

theorem getDataByLabel_insert (q : QuantizedTensor) (a : HnswIndex) :
    (a.insert q).getDataByLabel a.nextId = some q.buffer := by
  simp [getDataByLabel, insert]

variable {a : HnswIndex}

theorem getDataByLabel_insert_of_some (q : QuantizedTensor) {label : ℤ}
    {raw : List Byte} (h : a.getDataByLabel label = some raw) :
    (a.insert q).getDataByLabel label = some raw := by
  obtain ⟨p, hp, rfl⟩ := Option.map_eq_some_iff.mp h
  have hlt := a.labels_lt p (List.mem_of_find?_eq_some hp)
  have heq : p.1 = label := by simpa using List.find?_some hp
  have hne : ((a.nextId : ℤ) = label) = False := by
    rw [← heq, eq_iff_iff, iff_false]
    omega
  simp [getDataByLabel, insert, hne, hp]

/-- `TensorSimilarityIndex::retrieve`: what is stored under the id, dequantized. It throws if
there is nothing, or if the tensor has another dimension. -/
def retrieve (qz : Quantizer) (a : HnswIndex) (id : ℤ) : Option (List Double) :=
  (a.getDataByLabel id).bind fun raw =>
    let tensor := qz.dequantize (.ofBuffer raw)
    if (tensor.length : ℤ) = a.dimension then some tensor else none

@[simp] theorem dimension_insert (q : QuantizedTensor) (a : HnswIndex) :
    (a.insert q).dimension = a.dimension := rfl

theorem retrieve_insert (qz : Quantizer) {q : QuantizedTensor}
    (h : a.Accepts q) : (a.insert q).retrieve qz a.nextId = some (qz.dequantize q) := by
  unfold retrieve
  rw [getDataByLabel_insert, Option.bind_some, QuantizedTensor.ofBuffer_buffer]
  simp [qz.length_dequantize, h.1]

theorem retrieve_insert_of_some (qz : Quantizer) (q : QuantizedTensor) {id : ℤ}
    {tensor : List Double} (h : a.retrieve qz id = some tensor) :
    (a.insert q).retrieve qz id = some tensor := by
  obtain ⟨raw, hraw, hrest⟩ := Option.bind_eq_some_iff.mp h
  unfold retrieve
  rw [getDataByLabel_insert_of_some q hraw, Option.bind_some]
  exact hrest

/-! ### Sound indexes -/

/-- What the operations keep true of the index of a key. There is room for every id that has been
assigned, and doubling never leaves a capacity of zero. -/
structure Ok (k : IndexKey) (a : HnswIndex) : Prop where
  dimension : a.dimension = k.dimension
  buffers : ∀ p ∈ a.points, ((QuantizedTensor.ofBuffer p.2).tensor.length : ℤ) = a.dimension
  points_le : a.points.length ≤ a.nextId
  nextId_le : a.nextId ≤ a.maxElements
  capacity : 0 < a.maxElements ↔ 0 < initialIndexCapacity k.dimension

namespace Ok

variable {k : IndexKey} {q : QuantizedTensor}

theorem new (k : IndexKey) : (HnswIndex.new k.dimension).Ok k :=
  ⟨rfl, nofun, le_rfl, Nat.zero_le _, Iff.rfl⟩

theorem insert (h : a.Ok k) (hq : a.Accepts q) : (a.insert q).Ok k := by
  obtain ⟨hlength, hroom⟩ := hq
  have hle := h.nextId_le
  have hpoints := h.points_le
  have hgrown : a.nextId + 1 ≤ a.grownElements ∧ (0 < a.grownElements ↔ 0 < a.maxElements) := by
    unfold grownElements at hroom ⊢
    split_ifs at hroom ⊢ <;> omega
  refine ⟨h.dimension, ?_, Nat.succ_le_succ hpoints, hgrown.1, hgrown.2.trans h.capacity⟩
  intro p hp
  rcases List.mem_cons.mp hp with rfl | hp
  · exact (QuantizedTensor.ofBuffer_buffer q).symm ▸ hlength
  · exact h.buffers p hp

/-- **An insertion succeeds** if the capacity was not zero from the start. -/
theorem accepts (h : a.Ok k) (hcapacity : 0 < initialIndexCapacity k.dimension)
    (hlength : (q.tensor.length : ℤ) = k.dimension) : a.Accepts q := by
  have hpos := h.capacity.mpr hcapacity
  have hle := h.nextId_le
  have hpoints := h.points_le
  refine ⟨hlength.trans h.dimension.symm, ?_⟩
  unfold grownElements
  split <;> omega

/-- What a query returns is found. -/
theorem retrieve (h : a.Ok k) (qz : Quantizer) {id : ℤ} (hid : id ∈ a.points.map Prod.fst) :
    ∃ base, a.retrieve qz id = some base := by
  obtain ⟨p, hp, rfl⟩ := List.mem_map.mp hid
  obtain ⟨p', hfind⟩ : ∃ p', a.points.find? (fun p' => p'.1 = p.1) = some p' :=
    Option.isSome_iff_exists.mp (List.find?_isSome.mpr ⟨p, hp, decide_eq_true rfl⟩)
  have hlength := h.buffers p' (List.mem_of_find?_eq_some hfind)
  refine ⟨qz.dequantize (.ofBuffer p'.2), ?_⟩
  rw [HnswIndex.retrieve, getDataByLabel, hfind, Option.map_some, Option.bind_some, if_pos]
  rw [qz.length_dequantize, hlength]

/-- Nothing is ever stored in an index whose capacity is zero. -/
theorem capacity_pos (h : a.Ok k) {label : ℤ} {raw : List Byte}
    (hraw : a.getDataByLabel label = some raw) : 0 < initialIndexCapacity k.dimension := by
  obtain ⟨p, hp, -⟩ := Option.map_eq_some_iff.mp hraw
  have hpos := List.length_pos_of_mem (List.mem_of_find?_eq_some hp)
  have hle := h.nextId_le
  have hpoints := h.points_le
  exact h.capacity.mp (by omega)

end Ok

end HnswIndex

/-- How an index is written to a file and read back, and how much memory it takes. -/
structure IndexFormat (φ : Type) where
  space : HnswIndex → ℤ
  serialize : HnswIndex → φ
  deserialize : φ → Option HnswIndex
  deserialize_serialize : ∀ a, deserialize (serialize a) = some a

/-- The indexes of NeurStore, as the cache keeps them. An insertion leaves its buffer under its
id. -/
def hnswKind {φ : Type} (fmt : IndexFormat φ) :
    IndexKind HnswIndex QuantizedTensor (ℤ × List Byte) φ where
  new := .new
  space := fmt.space
  insert := .insert
  added q a := (a.nextId, q.buffer)
  Has a r := a.getDataByLabel r.1 = some r.2
  serialize := fmt.serialize
  deserialize := fmt.deserialize
  deserialize_serialize := fmt.deserialize_serialize
  has_insert := HnswIndex.getDataByLabel_insert
  has_mono q _ _ h := HnswIndex.getDataByLabel_insert_of_some q h

end NeurDB.NeurStore
