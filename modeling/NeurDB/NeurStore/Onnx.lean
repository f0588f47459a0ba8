import NeurDB.NeurStore.Compressor
import NeurDB.NeurStore.TensorPage
import NeurDB.Framework.SingleAssignment

/-!
# ONNX graphs

The part of an ONNX model that saving and loading works on: the initializers, the nodes, and the
names of the graph's inputs. Names and raw data are byte strings.

A graph defines a name by an initializer, by an output of a node, or as an input. What is defined
once has the dimensions of its initializer, or those ONNX infers from the inputs of its node; for
`Cast`, `DequantizeLinear` and `Add`, the operations that loading puts into a graph, this is
`NodeProto.inferDims`.

Integer tensors go through doubles: `IntTensorPacket` keeps them in their own type, and every load
mode converts what it holds.
-/

namespace NeurDB.NeurStore

open List

/-! ### Graphs -/

/-- A name, or any other text, as its bytes. -/
abbrev Text := List Byte

/-- The data types of `TensorProto` that the code tells apart. -/
inductive DataType where
  | float | float16 | double
  | int (intType : IntType)
  | other (code : ℕ)
  deriving DecidableEq

/-- `IntTensorPacket::getIntTypeInBytes`. -/
def IntType.getIntTypeInBytes : IntType → ℕ
  | int8 | uint8 => 1
  | int16 | uint16 => 2
  | int32 | uint32 => 4

def IntType.signed : IntType → Bool
  | int8 | int16 | int32 => true
  | uint8 | uint16 | uint32 => false

namespace DataType

/-- The bytes of an element, for the types the code knows. -/
def elementSize : DataType → Option ℕ
  | float => some 4
  | float16 => some 2
  | double => some 8
  | int t => some t.getIntTypeInBytes
  | other _ => none

/-- One of the floating-point types. -/
def isFloat : DataType → Bool
  | float | float16 | double => true
  | int _ | other _ => false

end DataType

structure TensorProto where
  name : Text
  dims : List ℤ
  dataType : DataType
  rawData : List Byte
  deriving DecidableEq

/-- The number of elements, which `size_t` holds. -/
def TensorProto.totalSize (t : TensorProto) : ℕ := (t.dims.map Int.toNat).prod % 2 ^ 64

inductive OpType where
  | cast | dequantizeLinear | add
  | other (name : Text)
  deriving DecidableEq

/-- A node, with its integer attributes. -/
structure NodeProto where
  opType : OpType
  input : List Text
  output : List Text
  attributes : List (Text × ℤ)
  deriving DecidableEq

structure GraphProto where
  node : List NodeProto
  initializer : List TensorProto
  /-- The names of the inputs. -/
  input : List Text
  deriving DecidableEq

namespace GraphProto

def initializerNames (g : GraphProto) : List Text := g.initializer.map TensorProto.name

/-- The names the nodes define; an output that is left out has an empty name. -/
def outputNames (g : GraphProto) : List Text := g.node.flatMap fun n => n.output.filter (· ≠ [])

/-- The inputs without a default value. -/
def freeInputs (g : GraphProto) : List Text := g.input.filter (· ∉ g.initializerNames)

end GraphProto

/-- A model as ONNX wants it: initializers have a name, and data of the size their dimensions
say; no name is defined twice, though an input may have an initializer as its default. -/
structure OnnxModel extends GraphProto where
  dims_nonneg : ∀ t ∈ initializer, ∀ d ∈ t.dims, 0 ≤ d
  raw_size : ∀ t ∈ initializer, ∀ n, t.dataType.elementSize = some n →
    t.rawData.length = n * (t.dims.map Int.toNat).prod
  name_ne : ∀ t ∈ initializer, t.name ≠ []
  nodup : (toGraphProto.initializerNames ++ toGraphProto.outputNames).Nodup
  input_nodup : input.Nodup
  input_not_output : input.Disjoint toGraphProto.outputNames

/-! ### What a graph defines -/

inductive Definition where
  | initializer (t : TensorProto)
  | node (n : NodeProto)
  | input

/-- Dimensions broadcast from the last one on; one of two dimensions may be `1`. -/
def broadcastRev : List ℤ → List ℤ → Option (List ℤ)
  | [], ds => some ds
  | d :: ds, [] => some (d :: ds)
  | a :: as, b :: bs =>
    if a = b ∨ b = 1 then (broadcastRev as bs).map (a :: ·)
    else if a = 1 then (broadcastRev as bs).map (b :: ·)
    else none

def broadcast (as bs : List ℤ) : Option (List ℤ) :=
  (broadcastRev as.reverse bs.reverse).map List.reverse

/-- The dimensions of a node's output, from those of its inputs. -/
def NodeProto.inferDims (n : NodeProto) (dims : Text → Option (List ℤ)) : Option (List ℤ) :=
  match n.opType, n.input with
  | .cast, [x] => dims x
  | .dequantizeLinear, [x, scale, zeroPoint] => do
    let _ ← dims scale
    let _ ← dims zeroPoint
    dims x
  | .add, [a, b] => do broadcast (← dims a) (← dims b)
  | _, _ => none

def Definition.inferDims (d : Definition) (dims : Text → Option (List ℤ)) : Option (List ℤ) :=
  match d with
  | .initializer t => some t.dims
  | .node n => n.inferDims dims
  | .input => none

namespace GraphProto

/-- All definitions of a graph, with the names they define. -/
def defs (g : GraphProto) : List (Text × Definition) :=
  g.initializer.map (fun t => (t.name, .initializer t)) ++
    ((g.node.flatMap fun n => (n.output.filter (· ≠ [])).map fun o => (o, .node n)) ++
      g.freeInputs.map fun i => (i, .input))

/-- The dimensions of a name that is defined once. -/
def dimsOf (g : GraphProto) (fuel : ℕ) (name : Text) : Option (List ℤ) :=
  resolve g.defs Definition.inferDims fuel name

theorem map_fst_defs (g : GraphProto) :
    g.defs.map Prod.fst = g.initializerNames ++ (g.outputNames ++ g.freeInputs) := by
  simp only [defs, map_append, map_map, map_flatMap, initializerNames, outputNames]
  congr 1
  congr 1
  · exact flatMap_congr fun n _ => map_id _
  · exact map_id _

end GraphProto

theorem broadcastRev_self (ds : List ℤ) : broadcastRev ds ds = some ds := by
  induction ds with
  | nil => rfl
  | cons d ds ih => rw [broadcastRev, if_pos (.inl rfl), ih, Option.map_some]

theorem broadcast_self (ds : List ℤ) : broadcast ds ds = some ds := by
  rw [broadcast, broadcastRev_self, Option.map_some, reverse_reverse]

/-- **A single element** is added to all elements. A scalar becomes a vector by it. -/
theorem broadcast_one (ds : List ℤ) : broadcast ds [1] = some (if ds = [] then [1] else ds) := by
  unfold broadcast
  rcases eq_nil_or_concat ds with rfl | ⟨ds, d, rfl⟩
  · rfl
  · have hnil : ∀ l : List ℤ, broadcastRev l [] = some l := by
      intro l
      cases l <;> rfl
    simp [broadcastRev, hnil]

/-! ### Integer tensors -/

/-- A `float`, as its bits. -/
abbrev Single := BitVec 32

/-- An `Eigen::half`, as its bits. -/
abbrev Half := BitVec 16

/-- The conversions between number types. -/
structure FloatOps where
  floatToDouble : Single → Double
  halfToFloat : Half → Single
  halfToDouble : Half → Double
  doubleToFloat : Double → Single
  intToDouble : ℤ → Double
  intToHalf : ℤ → Half
  /-- The conversion of a double to an integer drops the fraction. -/
  doubleToInt : Double → ℤ

structure TensorF16 where
  shape : List CInt
  tensor : List Half

def TensorF16.getDimension (t : TensorF16) : ℤ := shapeDimension t.shape

/-- The first `n` elements of `size` bytes at a pointer. -/
def readVector (size : ℕ) : ℕ → List Byte → List ℕ
  | 0, _ => []
  | n + 1, data => leVal (data.take size) :: readVector size n (data.drop size)

namespace IntType

/-- The bits of an integer of this type. -/
def bits (t : IntType) : ℕ := 8 * t.getIntTypeInBytes

/-- An integer in memory; one that does not fit is cut. -/
def encode (t : IntType) (x : ℤ) : ℕ := (x % 2 ^ t.bits).toNat

/-- What is in memory, as a signed or an unsigned integer. -/
def decode (t : IntType) (n : ℕ) : ℤ :=
  if t.signed ∧ 2 ^ (t.bits - 1) ≤ n then n - 2 ^ t.bits else n

end IntType

/-- The integers as they are stored in memory. -/
def IntTensorPacket.elements (packet : IntTensorPacket) : List ℕ :=
  readVector packet.intType.getIntTypeInBytes packet.nelements.toNat packet.serializedData

section Conversions

variable (ops : FloatOps)

/-- The casts of doubles to an integer type, in memory. -/
def castDoubles (intType : IntType) (src : List Double) : List Byte :=
  src.flatMap fun x => leBytes intType.getIntTypeInBytes (intType.encode (ops.doubleToInt x))

/-- The constructor of `IntTensorPacket` from a tensor of doubles. -/
def IntTensorPacket.ofTensor (intType : IntType) (tensor : TensorF64) : IntTensorPacket where
  intType := intType
  shape := tensor.shape
  nelements := BitVec.ofInt 64 tensor.getDimension
  serializedData := castDoubles ops intType tensor.tensor

def IntTensorPacket.toTensor64 (packet : IntTensorPacket) : TensorF64 where
  shape := packet.shape
  tensor := packet.elements.map fun n => ops.intToDouble (packet.intType.decode n)

def IntTensorPacket.toTensor16 (packet : IntTensorPacket) : TensorF16 where
  shape := packet.shape
  tensor := packet.elements.map fun n => ops.intToHalf (packet.intType.decode n)

/-- `fillRawDataFromIntType`, of the first `dimension` elements. -/
def fillRawDataFromIntType (src : List Double) (dimension : ℤ) (intType : IntType)
    (initializer : TensorProto) : TensorProto :=
  { initializer with
    dataType := .int intType
    rawData := castDoubles ops intType (src.take dimension.toNat) }

end Conversions

end NeurDB.NeurStore
