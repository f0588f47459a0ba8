import NeurDB.NeurStore.Onnx

/-!
# Saving and loading a model

`Compressor::compress` takes the initializers out of an ONNX graph and puts them into a page;
four functions build a graph from the page again, one for every load mode. With
`float32` the initializers come back under their names. The other modes leave them smaller, under
names of their own, and add nodes that compute from them what the graph refers to:
`x = Cast(x_f16)`, or `x = DequantizeLinear(x_base, ..) + x_base_offset`.

What becomes of the floating-point values is not the subject here. A load looks up the base of
each packet in an index, and `BaseTensors` is what it finds; that it finds the bases which saving
has put there is shown with the compressor.

Integer tensors have a way of their own through all of this, but `tensorProto2TensorF64`, at its
entrance, does not know their types: what gets past it is floating-point
(`of_extractModelTensors`). `preserved_iff_loadable` says which of these models come back as they
were: those without scalars in which no name that a load mode generates is taken.
-/

namespace NeurDB.NeurStore

open List
open Option (bind_eq_bind bind_eq_some_iff bind_some map_some some)

/-! ### Saving -/

/-- The arithmetic of loading. -/
structure LoadOps (δ : Type) extends FloatOps where
  dequantize : QuantizedTensor → List Double
  dequantizeF16 : QuantizedTensor → List Half
  /-- `DeltaQuantCompress::decompress`, of the base and the delta. -/
  decompressDelta : List Double → δ → List Double
  decompressDeltaF16 : List Half → δ → List Half
  toUInt8Quantized : δ → QuantizedTensor
  quantizedBitWidth : δ → ℤ
  /-- `- zero_point * scale`. -/
  offset : Single → Single → Single
  /-- The product and the quotient with a power of two. -/
  mulPow : Single → ℤ → Single
  divPow : Single → ℤ → Single

/-- One tensor of a `ModelWeight`. -/
structure Weight (τ : Type) where
  name : Text
  tensor : τ
  intType : Option IntType

/-- A packet of a page; the page itself keeps the name beside it. -/
inductive Packet (δ : Type) where
  | delta (packet : DeltaPacket δ)
  | int (packet : IntTensorPacket)

structure PageEntry (δ : Type) where
  name : Text
  packet : Packet δ

/-- What `compress` returns: the graph without its initializers, and the page. -/
structure SavedModel (δ : Type) where
  modelStructure : GraphProto
  page : List (PageEntry δ)

section Save

variable {δ : Type} (ops : FloatOps)

/-- The elements of raw data as doubles, for the three types there is a case for. -/
def rawDoubles (t : TensorProto) : Option (List Double) :=
  match t.dataType with
  | .float => some ((readVector 4 t.totalSize t.rawData).map fun n =>
      ops.floatToDouble (BitVec.ofNat 32 n))
  | .float16 => some ((readVector 2 t.totalSize t.rawData).map fun n =>
      ops.floatToDouble (ops.halfToFloat (BitVec.ofNat 16 n)))
  | .double => some ((readVector 8 t.totalSize t.rawData).map (BitVec.ofNat 64))
  | .int _ | .other _ => none

/-- The shape of a tensor, with dimensions cut to `int`. -/
def TensorProto.shape (t : TensorProto) : List CInt := t.dims.map (BitVec.ofInt 32)

/-- The tensor of doubles for an initializer. -/
def floatTensor (t : TensorProto) : TensorF64 where
  shape := t.shape
  tensor := (rawDoubles ops t).getD []

/-- `MatrixUtils::tensorProto2TensorF64`. It throws if there is no raw data, and if the type is
not one of the floating-point types. -/
def tensorProto2TensorF64 (t : TensorProto) : Option TensorF64 :=
  if t.rawData = [] then none
  else (rawDoubles ops t).map fun _ => floatTensor ops t

/-- The integer type of an initializer; types that are neither integer nor floating-point are
rejected. -/
def initializerIntType (t : TensorProto) : Option (Option IntType) :=
  match t.dataType with
  | .float | .float16 | .double => some none
  | .int intType => some (some intType)
  | .other _ => none

/-- `Compressor::extractModelTensors`. -/
def extractModelTensors (g : GraphProto) : Option (List (Weight TensorF64)) :=
  g.initializer.mapM fun t => do
    let intType ← initializerIntType t
    let tensor ← tensorProto2TensorF64 ops t
    return { name := t.name, tensor, intType }

/-- The packets of a page: those of integer tensors, and for the others the next one of the
loop. -/
def placePackets : List (Weight TensorF64) → List (DeltaPacket δ) → Option (List (PageEntry δ))
  | [], _ => some []
  | w :: weights, packets =>
    match w.intType, packets with
    | some intType, packets =>
      (placePackets weights packets).map
        (⟨w.name, .int (IntTensorPacket.ofTensor ops intType w.tensor)⟩ :: ·)
    | none, p :: packets => (placePackets weights packets).map (⟨w.name, .delta p⟩ :: ·)
    | none, [] => none

/-- The tensors that `compress` gives to its loop: those that are not integer tensors. -/
def floatTensors (weights : List (Weight TensorF64)) : List TensorF64 :=
  (weights.filter fun w => w.intType.isNone).map Weight.tensor

end Save

/-! ### Loading -/

/-- What the bodies of a loading loop take out of the indexes: for each packet the base tensor, if
there is one under its id. -/
abbrev BaseTensors (δ : Type) := DeltaPacket δ → Option QuantizedTensor

inductive LoadMode where
  | float32 | float16 | int8 | int8Delta
  deriving DecidableEq

section Load

variable {δ : Type} (ops : LoadOps δ) (bases : BaseTensors δ)

/-- The base of a packet; the id `-1` is not looked up. -/
def baseOf (p : DeltaPacket δ) : Option QuantizedTensor :=
  if p.baseTensorId = -1 then none else bases p

/-- One round of the loop of `Compressor::decompress`, which then calls `reconstructModel`. -/
def decompress (e : PageEntry δ) : Option (Weight TensorF64) :=
  match e.packet with
  | .int p => some ⟨e.name, p.toTensor64 ops.toFloatOps, some p.intType⟩
  | .delta p => (baseOf bases p).map fun base =>
      ⟨e.name, ⟨p.shape, ops.decompressDelta (ops.dequantize base) p.delta⟩, none⟩

/-- One round of the loop of `Compressor::decompressFloat16`. -/
def decompressFloat16 (e : PageEntry δ) : Option (Weight TensorF16) :=
  match e.packet with
  | .int p => some ⟨e.name, p.toTensor16 ops.toFloatOps, some p.intType⟩
  | .delta p => (baseOf bases p).map fun base =>
      ⟨e.name, ⟨p.shape, ops.decompressDeltaF16 (ops.dequantizeF16 base) p.delta⟩, none⟩

/-- The dimensions of a shape, as `add_dims` gets them. -/
def shapeDims (shape : List CInt) : List ℤ := shape.map BitVec.toInt

/-- The initializer of a tensor in `reconstructModel`. -/
def modelInitializer (w : Weight TensorF64) : TensorProto :=
  let dims := shapeDims w.tensor.shape
  match w.intType with
  | some intType =>
    fillRawDataFromIntType ops.toFloatOps w.tensor.tensor w.tensor.getDimension intType
      { name := w.name, dims, dataType := .other 0, rawData := [] }
  | none =>
    { name := w.name, dims, dataType := .float
      rawData := (w.tensor.tensor.take w.tensor.getDimension.toNat).flatMap fun x =>
        leBytes 4 (ops.doubleToFloat x).toNat }

/-- `Compressor::reconstructModel`. -/
def reconstructModel (weights : List (Weight TensorF64)) (g : GraphProto) : GraphProto :=
  { g with initializer := weights.map (modelInitializer ops) }

/-- The initializer of a tensor in `reconstructModelF16`. -/
def modelInitializerF16 (w : Weight TensorF16) : TensorProto :=
  let dims := shapeDims w.tensor.shape
  match w.intType with
  | some intType =>
    fillRawDataFromIntType ops.toFloatOps (w.tensor.tensor.map ops.halfToDouble)
      w.tensor.getDimension intType
      { name := w.name, dims, dataType := .other 0, rawData := [] }
  | none =>
    { name := w.name ++ ascii "_f16", dims, dataType := .float16
      rawData := (w.tensor.tensor.take w.tensor.getDimension.toNat).flatMap fun x =>
        leBytes 2 x.toNat }

/-- The node that defines the tensor called `name` in mode `float16`. -/
def castNode (name : Text) : NodeProto where
  opType := .cast
  input := [name ++ ascii "_f16"]
  output := [name]
  attributes := [(ascii "to", 1)]

/-- An integer tensor leaves its place in the vector of nodes as it was constructed. -/
def modelNodeF16 (w : Weight TensorF16) : NodeProto :=
  if w.intType.isSome then { opType := .other [], input := [], output := [], attributes := [] }
  else castNode w.name

/-- Initializers without a name are places of a vector that were not filled. -/
def named (ts : List TensorProto) : List TensorProto := ts.filter fun t => t.name ≠ []

/-- `Compressor::reconstructModelF16`. -/
def reconstructModelF16 (weights : List (Weight TensorF16)) (g : GraphProto) : GraphProto :=
  { g with
    node := g.node ++ weights.map modelNodeF16
    initializer := named (weights.map (modelInitializerF16 ops)) }

/-- An initializer of bytes in the shape of the tensor. -/
def bytesInitializer (name : Text) (shape : List CInt) (data : List Byte) : TensorProto where
  name := name
  dims := shapeDims shape
  dataType := .int .uint8
  rawData := data

/-- An initializer of one number. -/
def singleInitializer (name : Text) (x : Single) : TensorProto where
  name := name
  dims := [1]
  dataType := .float
  rawData := leBytes 4 x.toNat

/-- The zero points are all zero; the true ones are in the offsets. -/
def zeroPointInitializer (name : Text) : TensorProto where
  name := name
  dims := [1]
  dataType := .int .uint8
  rawData := [zeroByte]

/-- The initializer of an integer tensor in the two modes with bytes. -/
def intInitializer (name : Text) (packet : IntTensorPacket) : TensorProto :=
  let tensor := packet.toTensor64 ops.toFloatOps
  fillRawDataFromIntType ops.toFloatOps tensor.tensor tensor.getDimension packet.intType
    { name, dims := shapeDims tensor.shape, dataType := .other 0, rawData := [] }

/-- The initializers of a tensor in `reconstructModelUInt8`. -/
def modelInitializersUInt8 (e : PageEntry δ) : Option (List TensorProto) :=
  match e.packet with
  | .int p => some [intInitializer ops e.name p]
  | .delta p => (bases p).map fun base =>
    let scale := ops.doubleToFloat base.scale
    let zeroPoint := ops.doubleToFloat base.zeroPoint
    [bytesInitializer (e.name ++ ascii "_base") p.shape base.tensor,
      singleInitializer (e.name ++ ascii "_base_scale") scale,
      zeroPointInitializer (e.name ++ ascii "_base_zero_point"),
      singleInitializer (e.name ++ ascii "_base_offset") (ops.offset zeroPoint scale)]

def dequantizeNode (x scale zeroPoint y : Text) : NodeProto where
  opType := .dequantizeLinear
  input := [x, scale, zeroPoint]
  output := [y]
  attributes := []

def addNode (a b y : Text) : NodeProto where
  opType := .add
  input := [a, b]
  output := [y]
  attributes := []

/-- The nodes of a tensor in `reconstructModelUInt8`, of whichever kind it is. -/
def nodesUInt8 (name : Text) : List NodeProto :=
  [dequantizeNode (name ++ ascii "_base") (name ++ ascii "_base_scale")
      (name ++ ascii "_base_zero_point") (name ++ ascii "_base_dequant"),
    addNode (name ++ ascii "_base_dequant") (name ++ ascii "_base_offset") name]

/-- `Compressor::reconstructModelUInt8`. -/
def reconstructModelUInt8 (page : List (PageEntry δ)) (g : GraphProto) : Option GraphProto :=
  (page.mapM (modelInitializersUInt8 ops bases)).map fun tensorProtos =>
    { g with
      node := g.node ++ page.flatMap fun e => nodesUInt8 e.name
      initializer := named tensorProtos.flatten }

/-- The initializers of a tensor in `reconstructModelUInt8WithDelta`. -/
def modelInitializersUInt8WithDelta (e : PageEntry δ) : Option (List TensorProto) :=
  match e.packet with
  | .int p => some [intInitializer ops e.name p]
  | .delta p => (bases p).map fun base =>
    let baseScale := ops.doubleToFloat base.scale
    let baseZeroPoint := ops.doubleToFloat base.zeroPoint
    let delta := ops.toUInt8Quantized p.delta
    -- a delta of more than eight bits keeps its upper eight
    let discardBits := ops.quantizedBitWidth p.delta - 8
    let deltaScale :=
      if 0 < discardBits then ops.mulPow (ops.doubleToFloat delta.scale) discardBits
      else ops.doubleToFloat delta.scale
    let deltaZeroPoint :=
      if 0 < discardBits then ops.divPow (ops.doubleToFloat delta.zeroPoint) discardBits
      else ops.doubleToFloat delta.zeroPoint
    [bytesInitializer (e.name ++ ascii "_base") p.shape base.tensor,
      bytesInitializer (e.name ++ ascii "_delta") p.shape delta.tensor,
      singleInitializer (e.name ++ ascii "_base_scale") baseScale,
      zeroPointInitializer (e.name ++ ascii "_base_zero_point"),
      singleInitializer (e.name ++ ascii "_delta_scale") deltaScale,
      zeroPointInitializer (e.name ++ ascii "_delta_zero_point"),
      singleInitializer (e.name ++ ascii "_base_offset") (ops.offset baseZeroPoint baseScale),
      singleInitializer (e.name ++ ascii "_delta_offset") (ops.offset deltaZeroPoint deltaScale)]

/-- The nodes of a tensor in `reconstructModelUInt8WithDelta`. -/
def nodesUInt8WithDelta (name : Text) : List NodeProto :=
  [dequantizeNode (name ++ ascii "_base") (name ++ ascii "_base_scale")
      (name ++ ascii "_base_zero_point") (name ++ ascii "_base_dequant"),
    dequantizeNode (name ++ ascii "_delta") (name ++ ascii "_delta_scale")
      (name ++ ascii "_delta_zero_point") (name ++ ascii "_delta_dequant"),
    addNode (name ++ ascii "_base_dequant") (name ++ ascii "_base_offset")
      (name ++ ascii "_base_dequant_offset"),
    addNode (name ++ ascii "_delta_dequant") (name ++ ascii "_delta_offset")
      (name ++ ascii "_delta_dequant_offset"),
    addNode (name ++ ascii "_base_dequant_offset") (name ++ ascii "_delta_dequant_offset") name]

/-- `Compressor::reconstructModelUInt8WithDelta`. -/
def reconstructModelUInt8WithDelta (page : List (PageEntry δ)) (g : GraphProto) :
    Option GraphProto :=
  (page.mapM (modelInitializersUInt8WithDelta ops bases)).map fun tensorProtos =>
    { g with
      node := g.node ++ page.flatMap fun e => nodesUInt8WithDelta e.name
      initializer := named tensorProtos.flatten }

/-- A saved model in one of the load modes. -/
def load (mode : LoadMode) (saved : SavedModel δ) : Option GraphProto :=
  match mode with
  | .float32 =>
    (saved.page.mapM (decompress ops bases)).map fun weights =>
      reconstructModel ops weights saved.modelStructure
  | .float16 =>
    (saved.page.mapM (decompressFloat16 ops bases)).map fun weights =>
      reconstructModelF16 ops weights saved.modelStructure
  | .int8 => reconstructModelUInt8 ops bases saved.page saved.modelStructure
  | .int8Delta => reconstructModelUInt8WithDelta ops bases saved.page saved.modelStructure

end Load

/-! ### What is to be preserved -/

namespace GraphProto

/-- The floating-point initializers, by name. -/
def floatNames (g : GraphProto) : List Text :=
  (g.initializer.filter fun t => t.dataType.isFloat).map TensorProto.name

/-- What initializers and nodes define, in the order of the graph. -/
def definedNames (g : GraphProto) : List Text := g.initializerNames ++ g.outputNames

end GraphProto

/-- The loaded graph `g` has the initializers of `m`. -/
structure Preserved (m : GraphProto) (mode : LoadMode) (g : GraphProto) : Prop where
  /-- Every initializer is defined once, -/
  once : ∀ t ∈ m.initializer, (definitionsOf g.defs t.name).length = 1
  /-- with its dimensions; -/
  dims : ∀ t ∈ m.initializer, ∃ fuel, g.dimsOf fuel t.name = some t.dims
  /-- integer initializers have their type and their values; -/
  ints : ∀ t ∈ m.initializer, ∀ intType, t.dataType = .int intType →
    ∃ t' ∈ g.initializer, t'.name = t.name ∧ t'.dataType = t.dataType ∧ t'.rawData = t.rawData
  /-- the others have their order. -/
  order : g.definedNames.filter (· ∈ m.floatNames) = m.floatNames
  float32 : mode = .float32 → g.initializerNames = m.initializerNames

/-- The names that loading gives to new initializers, -/
def initializerSuffixes : List Text :=
  [ascii "_f16", ascii "_base", ascii "_base_scale", ascii "_base_zero_point",
    ascii "_base_offset", ascii "_delta", ascii "_delta_scale", ascii "_delta_zero_point",
    ascii "_delta_offset"]

/-- and those it gives to the outputs of new nodes, other than the tensors themselves. -/
def outputSuffixes : List Text :=
  [ascii "_base_dequant", ascii "_delta_dequant", ascii "_base_dequant_offset",
    ascii "_delta_dequant_offset"]

/-- Names that loading generates are not those of the model. The initializers themselves, which
nodes define after loading, are not among the inputs of the graph. -/
structure Fresh (m : GraphProto) : Prop where
  defined : ∀ x ∈ m.initializerNames, ∀ s ∈ initializerSuffixes ++ outputSuffixes,
    x ++ s ∉ m.definedNames
  input : ∀ x ∈ m.initializerNames, ∀ s ∈ outputSuffixes ++ [[]], x ++ s ∉ m.input

/-- A model that can be saved and loaded in every mode, as far as it depends on the model. -/
structure Loadable (m : GraphProto) : Prop where
  /-- There are no integer initializers, -/
  float : ∀ t ∈ m.initializer, t.dataType.isFloat
  /-- no empty ones, -/
  nonempty : ∀ t ∈ m.initializer, t.rawData ≠ []
  /-- and no scalars. -/
  not_scalar : ∀ t ∈ m.initializer, t.dims ≠ []
  dims_lt : ∀ t ∈ m.initializer, ∀ d ∈ t.dims, d < 2 ^ 31
  fresh : Fresh m

/-! ### A page is filled and read -/

section Traversal

variable {α β γ : Type} {f : α → Option β} {l : List α}

theorem mapM_eq_some_map {g : α → β} (h : ∀ x ∈ l, f x = some (g x)) :
    l.mapM f = some (l.map g) := by
  induction l with
  | nil => rfl
  | cons x l ih =>
    rw [mapM_cons, h x mem_cons_self, ih fun y hy => h y (mem_cons_of_mem x hy)]
    rfl

theorem exists_mapM_map {F : β → γ} {G : α → γ} (h : ∀ x ∈ l, ∃ y, f x = some y ∧ F y = G x) :
    ∃ ys, l.mapM f = some ys ∧ ys.map F = l.map G := by
  induction l with
  | nil => exact ⟨[], rfl, rfl⟩
  | cons x l ih =>
    obtain ⟨y, hy, hF⟩ := h x mem_cons_self
    obtain ⟨ys, hys, hmap⟩ := ih fun z hz => h z (mem_cons_of_mem x hz)
    refine ⟨y :: ys, ?_, by rw [map_cons, map_cons, hF, hmap]⟩
    rw [mapM_cons, hy, hys]
    rfl

theorem exists_of_mapM {ys : List β} (h : l.mapM f = some ys) {x : α} (hx : x ∈ l) :
    ∃ y, f x = some y := by
  induction l generalizing ys with
  | nil => exact absurd hx not_mem_nil
  | cons a l ih =>
    rw [mapM_cons] at h
    obtain ⟨y, hy, h⟩ := bind_eq_some_iff.mp h
    obtain ⟨ys', hys, -⟩ := bind_eq_some_iff.mp h
    rcases mem_cons.mp hx with rfl | hx
    · exact ⟨y, hy⟩
    · exact ih hys hx

end Traversal

section Page

variable {δ : Type} {ops : FloatOps} {bases : BaseTensors δ}

/-- The packet `p` stands for the initializer `t`, and can be decompressed. -/
structure Stands (bases : BaseTensors δ) (t : TensorProto) (p : DeltaPacket δ) : Prop where
  shape : p.shape = t.shape
  base : ∃ q, bases p = some q
  id : p.baseTensorId ≠ -1

/-- The page of initializers that are all floating-point. -/
def deltaPage (ts : List TensorProto) (packets : List (DeltaPacket δ)) : List (PageEntry δ) :=
  zipWith (fun t p => ⟨t.name, .delta p⟩) ts packets

theorem rawDoubles_eq_some {t : TensorProto} (h : t.dataType.isFloat) :
    ∃ tensor, rawDoubles ops t = some tensor := by
  unfold rawDoubles
  cases ht : t.dataType <;> simp [ht, DataType.isFloat] at h ⊢

variable {g : GraphProto} {packets : List (DeltaPacket δ)}

/-- **What gets past the extraction** is floating-point and not empty. -/
theorem of_extractModelTensors {weights : List (Weight TensorF64)}
    (h : extractModelTensors ops g = some weights) :
    ∀ t ∈ g.initializer, t.dataType.isFloat ∧ t.rawData ≠ [] := by
  intro t ht
  obtain ⟨w, hw⟩ := exists_of_mapM h ht
  obtain ⟨intType, -, hw⟩ := bind_eq_some_iff.mp hw
  obtain ⟨tensor, htensor, -⟩ := bind_eq_some_iff.mp hw
  unfold tensorProto2TensorF64 at htensor
  split at htensor
  · cases htensor
  · next hraw =>
    obtain ⟨doubles, hdoubles, -⟩ := Option.map_eq_some_iff.mp htensor
    refine ⟨?_, hraw⟩
    unfold rawDoubles at hdoubles
    cases htype : t.dataType <;> simp [htype, DataType.isFloat] at hdoubles ⊢

theorem extractModelTensors_eq (h : ∀ t ∈ g.initializer, t.dataType.isFloat ∧ t.rawData ≠ []) :
    extractModelTensors ops g =
      some (g.initializer.map fun t => ⟨t.name, floatTensor ops t, none⟩) := by
  refine mapM_eq_some_map fun t ht => ?_
  obtain ⟨hfloat, hraw⟩ := h t ht
  obtain ⟨doubles, hdoubles⟩ := rawDoubles_eq_some hfloat
  have htype : initializerIntType t = some none := by
    unfold initializerIntType
    cases htype : t.dataType <;> simp [htype, DataType.isFloat] at hfloat ⊢
  have htensor : tensorProto2TensorF64 ops t = some (floatTensor ops t) := by
    rw [tensorProto2TensorF64, if_neg hraw, hdoubles, map_some]
  rw [htype, bind_eq_bind, bind_some, htensor]
  rfl

variable {ts : List TensorProto}

theorem placePackets_eq (h : packets.length = ts.length) :
    placePackets ops (ts.map fun t => ⟨t.name, floatTensor ops t, none⟩) packets =
      some (deltaPage ts packets) := by
  induction ts generalizing packets with
  | nil => rfl
  | cons t ts ih =>
    obtain ⟨p, packets, rfl⟩ := exists_cons_of_length_eq_add_one h
    change (placePackets ops (ts.map _) packets).map (⟨t.name, .delta p⟩ :: ·) = _
    rw [ih (Nat.succ.inj h)]
    rfl

theorem mapM_deltaPage {β γ : Type} {f : PageEntry δ → Option β} (F : β → γ) (G : TensorProto → γ)
    (h : ∀ t p, Stands bases t p → ∃ y, f ⟨t.name, .delta p⟩ = some y ∧ F y = G t)
    (hstands : Forall₂ (Stands bases) ts packets) :
    ∃ ys, (deltaPage ts packets).mapM f = some ys ∧ ys.map F = ts.map G := by
  induction hstands with
  | nil => exact ⟨[], rfl, rfl⟩
  | @cons t p ts packets hp _ ih =>
    obtain ⟨y, hy, hF⟩ := h t p hp
    obtain ⟨ys, hys, hmap⟩ := ih
    refine ⟨y :: ys, ?_, by rw [map_cons, map_cons, hF, hmap]⟩
    rw [deltaPage, zipWith_cons_cons, mapM_cons, hy, ← deltaPage, hys]
    rfl

end Page

/-! ### What a load mode makes of a graph -/

namespace LoadMode

/-- The initializers for a tensor called `x`: their names and dimensions. -/
def initializers (mode : LoadMode) (x : Text) (dims : List ℤ) : List (Text × List ℤ) :=
  match mode with
  | float32 => [(x ++ [], dims)]
  | float16 => [(x ++ ascii "_f16", dims)]
  | int8 =>
    [(x ++ ascii "_base", dims), (x ++ ascii "_base_scale", [1]),
      (x ++ ascii "_base_zero_point", [1]), (x ++ ascii "_base_offset", [1])]
  | int8Delta =>
    [(x ++ ascii "_base", dims), (x ++ ascii "_delta", dims),
      (x ++ ascii "_base_scale", [1]), (x ++ ascii "_base_zero_point", [1]),
      (x ++ ascii "_delta_scale", [1]), (x ++ ascii "_delta_zero_point", [1]),
      (x ++ ascii "_base_offset", [1]), (x ++ ascii "_delta_offset", [1])]

/-- The nodes for a tensor called `x`. -/
def nodes (mode : LoadMode) (x : Text) : List NodeProto :=
  match mode with
  | float32 => []
  | float16 => [castNode x]
  | int8 => nodesUInt8 x
  | int8Delta => nodesUInt8WithDelta x

/-- The suffixes of the new initializers. -/
def initializerNew : LoadMode → List Text
  | float32 => [[]]
  | float16 => [ascii "_f16"]
  | int8 =>
    [ascii "_base", ascii "_base_scale", ascii "_base_zero_point", ascii "_base_offset"]
  | int8Delta =>
    [ascii "_base", ascii "_delta", ascii "_base_scale", ascii "_base_zero_point",
      ascii "_delta_scale", ascii "_delta_zero_point", ascii "_base_offset",
      ascii "_delta_offset"]

/-- The suffixes of what the new nodes define, other than the tensor itself. -/
def outputNew : LoadMode → List Text
  | float32 | float16 => []
  | int8 => [ascii "_base_dequant"]
  | int8Delta => outputSuffixes

/-- The tensor itself, where a node defines it. -/
def outputSelf : LoadMode → List Text
  | float32 => []
  | _ => [[]]

/-- All suffixes of the mode. -/
abbrev suffixes (mode : LoadMode) : List Text :=
  mode.initializerNew ++ (mode.outputNew ++ mode.outputSelf)

theorem map_fst_initializers (mode : LoadMode) (x : Text) (dims : List ℤ) :
    (mode.initializers x dims).map Prod.fst = mode.initializerNew.map (x ++ ·) := by
  cases mode <;> rfl

theorem output_nodes (mode : LoadMode) (x : Text) :
    (mode.nodes x).flatMap NodeProto.output = (mode.outputNew ++ mode.outputSelf).map (x ++ ·) := by
  cases mode <;>
    simp [nodes, castNode, nodesUInt8, nodesUInt8WithDelta, dequantizeNode, addNode, outputNew,
      outputSelf, outputSuffixes]

theorem namedOutput_nodes (mode : LoadMode) {x : Text} (hx : x ≠ []) :
    (mode.nodes x).flatMap (fun n => n.output.filter (· ≠ [])) =
      (mode.outputNew ++ mode.outputSelf).map (x ++ ·) := by
  rw [← mode.output_nodes]
  refine flatMap_congr fun n hn => filter_eq_self.mpr fun o ho => ?_
  have hmem : o ∈ (mode.outputNew ++ mode.outputSelf).map (x ++ ·) :=
    mode.output_nodes x ▸ mem_flatMap.mpr ⟨n, hn, ho⟩
  obtain ⟨s, -, rfl⟩ := mem_map.mp hmem
  simp [hx]

end LoadMode

/-- The graph `g` is what `mode` makes of `m`, apart from the data of the initializers. -/
structure Rebuilt (mode : LoadMode) (m g : GraphProto) : Prop where
  node : g.node = m.node ++ m.initializer.flatMap fun t => mode.nodes t.name
  initializer : g.initializer.map (fun t => (t.name, t.dims)) =
    m.initializer.flatMap fun t => mode.initializers t.name (shapeDims t.shape)
  input : g.input = m.input

theorem initializers_ne_nil {mode : LoadMode} (hmode : mode ≠ .float32) {x : Text} {dims : List ℤ}
    {y : Text × List ℤ} (hy : y ∈ mode.initializers x dims) : y.1 ≠ [] := by
  have hmem : y.1 ∈ mode.initializerNew.map (x ++ ·) :=
    mode.map_fst_initializers x dims ▸ mem_map_of_mem hy
  obtain ⟨s, hs, heq⟩ := mem_map.mp hmem
  rw [← heq]
  intro hnil
  obtain ⟨-, rfl⟩ := append_eq_nil_iff.mp hnil
  revert hs
  cases mode
  · exact absurd rfl hmode
  all_goals decide

theorem named_eq {mode : LoadMode} (hmode : mode ≠ .float32) {ts us : List TensorProto}
    (h : us.map (fun t => (t.name, t.dims)) =
      ts.flatMap fun t => mode.initializers t.name (shapeDims t.shape)) : named us = us := by
  refine filter_eq_self.mpr fun u hu => ?_
  obtain ⟨t, -, hy⟩ := mem_flatMap.mp (h ▸ mem_map_of_mem hu)
  simpa using initializers_ne_nil hmode hy

section Rebuild

variable {δ : Type} {ops : LoadOps δ} {bases : BaseTensors δ} {m : GraphProto}
  {packets : List (DeltaPacket δ)}

theorem Stands.baseOf {t : TensorProto} {p : DeltaPacket δ} (h : Stands bases t p) :
    ∃ q, baseOf bases p = some q := by
  obtain ⟨q, hq⟩ := h.base
  exact ⟨q, by rw [NeurStore.baseOf, if_neg h.id, hq]⟩

theorem map_name_deltaPage {ts : List TensorProto} (h : Forall₂ (Stands bases) ts packets) :
    (deltaPage ts packets).map PageEntry.name = ts.map TensorProto.name := by
  induction h with
  | nil => rfl
  | cons _ _ ih =>
    rw [deltaPage, zipWith_cons_cons, map_cons, map_cons, ← deltaPage, ih]

theorem load_float32 (h : Forall₂ (Stands bases) m.initializer packets) :
    ∃ g, load ops bases .float32 ⟨{ m with initializer := [] }, deltaPage m.initializer packets⟩ =
      some g ∧ Rebuilt .float32 m g := by
  have hone : ∀ t p, Stands bases t p → ∃ w, decompress ops bases ⟨t.name, .delta p⟩ = some w ∧
      ((modelInitializer ops w).name, (modelInitializer ops w).dims) =
        (t.name ++ [], shapeDims t.shape) := by
    intro t p hp
    obtain ⟨q, hq⟩ := hp.baseOf
    refine ⟨_, congrArg (Option.map _) hq, ?_⟩
    simp [modelInitializer, hp.shape]
  obtain ⟨ws, hws, hmap⟩ := mapM_deltaPage _ _ hone h
  refine ⟨reconstructModel ops ws { m with initializer := [] }, ?_, ?_, ?_, rfl⟩
  · rw [load, hws, map_some]
  · simp [reconstructModel, LoadMode.nodes]
  · rw [reconstructModel, map_map]
    exact hmap.trans map_eq_flatMap

theorem load_float16 (h : Forall₂ (Stands bases) m.initializer packets) :
    ∃ g, load ops bases .float16 ⟨{ m with initializer := [] }, deltaPage m.initializer packets⟩ =
      some g ∧ Rebuilt .float16 m g := by
  have hone : ∀ t p, Stands bases t p →
      ∃ w, decompressFloat16 ops bases ⟨t.name, .delta p⟩ = some w ∧
        (((modelInitializerF16 ops w).name, (modelInitializerF16 ops w).dims), modelNodeF16 w) =
          ((t.name ++ ascii "_f16", shapeDims t.shape), castNode t.name) := by
    intro t p hp
    obtain ⟨q, hq⟩ := hp.baseOf
    refine ⟨_, congrArg (Option.map _) hq, ?_⟩
    simp [modelInitializerF16, modelNodeF16, hp.shape]
  obtain ⟨ws, hws, hmap⟩ := mapM_deltaPage _ _ hone h
  have hnode : ws.map modelNodeF16 = m.initializer.map fun t => castNode t.name := by
    have hsnd := congrArg (map Prod.snd) hmap
    rwa [map_map, map_map] at hsnd
  have hinit : (ws.map (modelInitializerF16 ops)).map (fun t => (t.name, t.dims)) =
      m.initializer.flatMap fun t => LoadMode.float16.initializers t.name (shapeDims t.shape) := by
    have hfst := congrArg (map Prod.fst) hmap
    rw [map_map, map_map] at hfst
    rw [map_map]
    exact hfst.trans map_eq_flatMap
  refine ⟨reconstructModelF16 ops ws { m with initializer := [] }, ?_, ?_, ?_, rfl⟩
  · rw [load, hws, map_some]
  · rw [reconstructModelF16, hnode]
    exact congrArg (m.node ++ ·) map_eq_flatMap
  · rw [reconstructModelF16, named_eq (by decide) hinit]
    exact hinit

/-- The two modes with bytes differ in the initializers and nodes of one tensor. -/
theorem rebuilt_of_mapM {mode : LoadMode} (hmode : mode ≠ .float32)
    {f : PageEntry δ → Option (List TensorProto)}
    (hone : ∀ t p, Stands bases t p → ∃ ts, f ⟨t.name, .delta p⟩ = some ts ∧
      ts.map (fun t => (t.name, t.dims)) = mode.initializers t.name (shapeDims t.shape))
    (h : Forall₂ (Stands bases) m.initializer packets) :
    ∃ tensorProtos, (deltaPage m.initializer packets).mapM f = some tensorProtos ∧
      Rebuilt mode m
        { m with
          node := m.node ++ (deltaPage m.initializer packets).flatMap fun e => mode.nodes e.name
          initializer := named tensorProtos.flatten } := by
  obtain ⟨tss, htss, hmap⟩ := mapM_deltaPage _ _ hone h
  have hinit : tss.flatten.map (fun t => (t.name, t.dims)) =
      m.initializer.flatMap fun t => mode.initializers t.name (shapeDims t.shape) := by
    rw [map_flatten, hmap]
    rfl
  refine ⟨tss, htss, ?_, ?_, rfl⟩
  · have hnames := congrArg (flatMap mode.nodes) (map_name_deltaPage h)
    rw [flatMap_map, flatMap_map] at hnames
    exact congrArg (m.node ++ ·) hnames
  · rw [named_eq hmode hinit]
    exact hinit

theorem map_modelInitializers (t : TensorProto) (p : DeltaPacket δ) (hp : Stands bases t p) :
    (∃ ts, modelInitializersUInt8 ops bases ⟨t.name, .delta p⟩ = some ts ∧
      ts.map (fun t => (t.name, t.dims)) = LoadMode.int8.initializers t.name (shapeDims t.shape)) ∧
    ∃ ts, modelInitializersUInt8WithDelta ops bases ⟨t.name, .delta p⟩ = some ts ∧
      ts.map (fun t => (t.name, t.dims)) =
        LoadMode.int8Delta.initializers t.name (shapeDims t.shape) := by
  obtain ⟨q, hq⟩ := hp.base
  refine ⟨⟨_, congrArg (Option.map _) hq, ?_⟩, _, congrArg (Option.map _) hq, ?_⟩
  all_goals
    simp [bytesInitializer, singleInitializer, zeroPointInitializer, LoadMode.initializers,
      hp.shape]

/-- **Loading** a page whose packets stand for the initializers. -/
theorem load_rebuilt (h : Forall₂ (Stands bases) m.initializer packets) (mode : LoadMode) :
    ∃ g, load ops bases mode ⟨{ m with initializer := [] }, deltaPage m.initializer packets⟩ =
      some g ∧ Rebuilt mode m g := by
  cases mode with
  | float32 => exact load_float32 h
  | float16 => exact load_float16 h
  | int8 =>
    obtain ⟨tss, htss, hrebuilt⟩ :=
      rebuilt_of_mapM (by decide) (fun t p hp => (map_modelInitializers t p hp).1) h
    exact ⟨_, congrArg (Option.map _) htss, hrebuilt⟩
  | int8Delta =>
    obtain ⟨tss, htss, hrebuilt⟩ :=
      rebuilt_of_mapM (by decide) (fun t p hp => (map_modelInitializers t p hp).2) h
    exact ⟨_, congrArg (Option.map _) htss, hrebuilt⟩

end Rebuild

/-! ### The names of a rebuilt graph -/

section Names

variable {mode : LoadMode} {m g : GraphProto}

theorem Rebuilt.initializerNames (h : Rebuilt mode m g) :
    g.initializerNames = withSuffixes mode.initializerNew m.initializerNames := by
  have hnames := congrArg (map Prod.fst) h.initializer
  rw [map_map, map_flatMap] at hnames
  simp only [LoadMode.map_fst_initializers] at hnames
  rw [withSuffixes, GraphProto.initializerNames, GraphProto.initializerNames, flatMap_map]
  exact hnames

theorem Rebuilt.outputNames (h : Rebuilt mode m g) (hname : ∀ t ∈ m.initializer, t.name ≠ []) :
    g.outputNames = m.outputNames ++
      withSuffixes (mode.outputNew ++ mode.outputSelf) m.initializerNames := by
  have hone : ∀ t ∈ m.initializer, (mode.nodes t.name).flatMap (fun n => n.output.filter (· ≠ [])) =
      (mode.outputNew ++ mode.outputSelf).map (t.name ++ ·) :=
    fun t ht => mode.namedOutput_nodes (hname t ht)
  rw [GraphProto.outputNames, h.node, flatMap_append, flatMap_assoc,
    flatMap_congr hone, withSuffixes, GraphProto.initializerNames, flatMap_map]
  rfl

theorem Rebuilt.map_fst_defs (h : Rebuilt mode m g) (hname : ∀ t ∈ m.initializer, t.name ≠ []) :
    g.defs.map Prod.fst = withSuffixes mode.initializerNew m.initializerNames ++
      (m.outputNames ++ withSuffixes (mode.outputNew ++ mode.outputSelf) m.initializerNames ++
        g.freeInputs) := by
  rw [g.map_fst_defs, h.initializerNames, h.outputNames hname]

theorem LoadMode.suffixes_subset (mode : LoadMode) :
    mode.suffixes ⊆ initializerSuffixes ++ outputSuffixes ++ [[]] := by
  cases mode <;> decide

theorem suffixFree_suffixes : SuffixFree (initializerSuffixes ++ outputSuffixes) := by
  decide +kernel

theorem Fresh.separates (h : Fresh m) :
    Separates (initializerSuffixes ++ outputSuffixes ++ [[]]) m.initializerNames :=
  (Separates.of_free suffixFree_suffixes _).concat_nil
    fun x hx s hs hmem => h.defined x hx s hs (mem_append_left _ hmem)

theorem Fresh.not_output {m : OnnxModel} (h : Fresh m.toGraphProto) {S : List Text}
    (hS : S ⊆ initializerSuffixes ++ outputSuffixes ++ [[]]) :
    (withSuffixes S m.initializerNames).Disjoint m.outputNames := by
  intro y hy hout
  obtain ⟨x, hx, s, hs, rfl⟩ := mem_withSuffixes.mp hy
  rcases mem_append_singleton.mp (hS hs) with hs | rfl
  · exact h.defined x hx s hs (mem_append_right _ hout)
  · rw [append_nil] at hout
    exact (nodup_append'.mp m.nodup).2.2 hx hout

theorem GraphProto.freeInputs_subset (g : GraphProto) : g.freeInputs ⊆ g.input :=
  filter_subset_self _

theorem GraphProto.not_mem_freeInputs {x : Text} (hx : x ∈ g.initializerNames) :
    x ∉ g.freeInputs := by
  intro hmem
  exact of_decide_eq_true (mem_filter.mp hmem).2 hx

/-- **A rebuilt graph defines nothing twice**, if the generated names are fresh. -/
theorem Rebuilt.nodup {m : OnnxModel} (h : Rebuilt mode m.toGraphProto g)
    (hfresh : Fresh m.toGraphProto) : (g.defs.map Prod.fst).Nodup := by
  obtain ⟨hnames, houts, -⟩ := nodup_append'.mp m.nodup
  have hsep := hfresh.separates.mono mode.suffixes_subset
  have hall : mode.suffixes.Nodup := by cases mode <;> decide
  obtain ⟨hinit, hout, hdisj⟩ := nodup_append'.mp hall
  have hself : mode.outputNew ++ mode.outputSelf ⊆ outputSuffixes ++ [[]] := by
    cases mode <;> decide
  have hsubset := mode.suffixes_subset
  rw [h.map_fst_defs m.name_ne]
  -- new initializers, old outputs, new outputs, inputs
  refine nodup_append'.mpr ⟨?_, nodup_append'.mpr
    ⟨nodup_append'.mpr ⟨houts, ?_, ?_⟩, ?_, ?_⟩, ?_⟩
  · exact (hsep.mono (subset_append_left _ _)).nodup hinit hnames
  · exact (hsep.mono (subset_append_right _ _)).nodup hout hnames
  · exact (hfresh.not_output fun s hs => hsubset (mem_append_right _ hs)).symm
  · rw [GraphProto.freeInputs, h.input]
    exact m.input_nodup.filter _
  · intro y hy hfree
    have hin : y ∈ m.input := h.input ▸ g.freeInputs_subset hfree
    rcases mem_append.mp hy with hy | hy
    · exact m.input_not_output hin hy
    · obtain ⟨x, hx, s, hs, rfl⟩ := mem_withSuffixes.mp hy
      exact hfresh.input x hx s (hself hs) hin
  · intro y hy hrest
    rcases mem_append.mp hrest with hrest | hfree
    · rcases mem_append.mp hrest with hold | hnew
      · exact hfresh.not_output (fun s hs => hsubset (mem_append_left _ hs)) hy hold
      · exact hsep.disjoint hdisj hy hnew
    · exact GraphProto.not_mem_freeInputs (h.initializerNames ▸ hy) hfree

/-- Conversely, a mode in which a node defines the tensor keeps its new names apart from all
others only if they are fresh. -/
theorem Rebuilt.fresh_of_count (h : Rebuilt mode m g) (hname : ∀ t ∈ m.initializer, t.name ≠ [])
    (hself : mode.outputSelf = [[]]) {x s : Text} (hx : x ∈ m.initializerNames)
    (hs : s ∈ mode.suffixes) (hcount : (g.defs.map Prod.fst).count (x ++ s) = 1) :
    (s ∈ mode.initializerNew ++ mode.outputNew → x ++ s ∉ m.definedNames) ∧
      (s ∈ mode.outputNew ++ mode.outputSelf → x ++ s ∉ m.input) := by
  rw [h.map_fst_defs hname, count_append, count_append, count_append,
    count_withSuffixes_append, hself, withSuffixes_nil] at hcount
  -- every occurrence counts
  have hmem : ∀ {S : List Text}, s ∈ S → 0 < (withSuffixes S m.initializerNames).count (x ++ s) :=
    fun hS => count_pos_iff.mpr (mem_withSuffixes.mpr ⟨x, hx, s, hS, rfl⟩)
  have hone : ∀ {l : List Text}, x ++ s ∈ l → 0 < l.count (x ++ s) := count_pos_iff.mpr
  constructor
  · intro hs hdef
    have hnew : 0 < (withSuffixes mode.initializerNew m.initializerNames).count (x ++ s) +
        (withSuffixes mode.outputNew m.initializerNames).count (x ++ s) := by
      rcases mem_append.mp hs with hs | hs
      · exact Nat.add_pos_left (hmem hs) _
      · exact Nat.add_pos_right _ (hmem hs)
    rcases mem_append.mp hdef with hdef | hdef <;> have := hone hdef <;> omega
  · intro hs hin
    have hnew : 0 < (withSuffixes mode.outputNew m.initializerNames).count (x ++ s) +
        m.initializerNames.count (x ++ s) := by
      rcases mem_append.mp hs with hs | hs
      · exact Nat.add_pos_left (hmem hs) _
      · obtain rfl := mem_singleton.mp (hself ▸ hs)
        rw [append_nil] at hone ⊢
        exact Nat.add_pos_right _ (hone hx)
    -- an input that is not an initializer now is one without a default
    have hfree : x ++ s ∈ g.freeInputs := by
      refine mem_filter.mpr ⟨h.input ▸ hin, decide_eq_true ?_⟩
      intro hinit
      rw [h.initializerNames] at hinit
      have := hone hinit
      omega
    have := hone hfree
    omega

end Names

/-! ### Dimensions -/

section Dims

variable {g : GraphProto} {fuel : ℕ} {t : TensorProto}

theorem GraphProto.mem_defs_initializer (ht : t ∈ g.initializer) :
    (t.name, Definition.initializer t) ∈ g.defs :=
  mem_append_left _ (mem_map_of_mem ht)

theorem GraphProto.mem_defs_node {n : NodeProto} (hn : n ∈ g.node) {o : Text} (ho : o ∈ n.output)
    (hne : o ≠ []) : (o, Definition.node n) ∈ g.defs := by
  refine mem_append_right _ (mem_append_left _ (mem_flatMap.mpr ⟨n, hn, ?_⟩))
  exact mem_map_of_mem (mem_filter.mpr ⟨ho, by simpa using hne⟩)

/-- The name is defined once in the graph. -/
def GraphProto.Once (g : GraphProto) (y : Text) : Prop := (g.defs.map Prod.fst).count y = 1

variable {ds : List ℤ}

theorem of_dimsOf_initializer (ht : t ∈ g.initializer)
    (h : g.dimsOf fuel t.name = some ds) : g.Once t.name ∧ t.dims = ds := by
  obtain ⟨hcount, fuel', heval⟩ := of_resolve (GraphProto.mem_defs_initializer ht) h
  exact ⟨hcount, some.inj heval⟩

theorem of_dimsOf_cast {x : Text} (hx : x ≠ []) (hn : castNode x ∈ g.node)
    (h : g.dimsOf fuel x = some ds) :
    g.Once x ∧ ∃ fuel', g.dimsOf fuel' (x ++ ascii "_f16") = some ds := by
  obtain ⟨hcount, fuel', heval⟩ :=
    of_resolve (GraphProto.mem_defs_node hn (mem_singleton_self x) hx) h
  exact ⟨hcount, fuel', heval⟩

theorem of_dimsOf_dequantize {x scale zeroPoint y : Text} (hy : y ≠ [])
    (hn : dequantizeNode x scale zeroPoint y ∈ g.node) (h : g.dimsOf fuel y = some ds) :
    g.Once y ∧ ∃ fuel' ds₁ ds₂, g.dimsOf fuel' x = some ds ∧ g.dimsOf fuel' scale = some ds₁ ∧
      g.dimsOf fuel' zeroPoint = some ds₂ := by
  obtain ⟨hcount, fuel', heval⟩ :=
    of_resolve (GraphProto.mem_defs_node hn (mem_singleton_self y) hy) h
  obtain ⟨ds₁, h₁, heval⟩ := bind_eq_some_iff.mp heval
  obtain ⟨ds₂, h₂, heval⟩ := bind_eq_some_iff.mp heval
  exact ⟨hcount, fuel', ds₁, ds₂, heval, h₁, h₂⟩

theorem of_dimsOf_add {a b y : Text} (hy : y ≠ []) (hn : addNode a b y ∈ g.node)
    (h : g.dimsOf fuel y = some ds) :
    g.Once y ∧ ∃ fuel' as bs, g.dimsOf fuel' a = some as ∧ g.dimsOf fuel' b = some bs ∧
      broadcast as bs = some ds := by
  obtain ⟨hcount, fuel', heval⟩ :=
    of_resolve (GraphProto.mem_defs_node hn (mem_singleton_self y) hy) h
  obtain ⟨as, ha, heval⟩ := bind_eq_some_iff.mp heval
  obtain ⟨bs, hb, heval⟩ := bind_eq_some_iff.mp heval
  exact ⟨hcount, fuel', as, bs, ha, hb, heval⟩

section Nodup

variable (hnodup : (g.defs.map Prod.fst).Nodup)

include hnodup

theorem dimsOf_initializer {t : TensorProto} (ht : t ∈ g.initializer) :
    g.dimsOf (fuel + 1) t.name = some t.dims :=
  resolve_of_mem hnodup (GraphProto.mem_defs_initializer ht) fuel

theorem dimsOf_cast {x : Text} (hx : x ≠ []) (hn : castNode x ∈ g.node) :
    g.dimsOf (fuel + 1) x = g.dimsOf fuel (x ++ ascii "_f16") :=
  resolve_of_mem hnodup (GraphProto.mem_defs_node hn (mem_singleton_self x) hx) fuel

theorem dimsOf_dequantize {x scale zeroPoint y : Text} (hy : y ≠ [])
    (hn : dequantizeNode x scale zeroPoint y ∈ g.node) {ds ds₁ ds₂ : List ℤ}
    (hx : g.dimsOf fuel x = some ds) (h₁ : g.dimsOf fuel scale = some ds₁)
    (h₂ : g.dimsOf fuel zeroPoint = some ds₂) : g.dimsOf (fuel + 1) y = some ds := by
  have heval : g.dimsOf (fuel + 1) y = (g.dimsOf fuel scale).bind
      fun _ => (g.dimsOf fuel zeroPoint).bind fun _ => g.dimsOf fuel x :=
    resolve_of_mem hnodup (GraphProto.mem_defs_node hn (mem_singleton_self y) hy) fuel
  rw [heval, h₁, h₂, bind_some, bind_some, hx]

theorem dimsOf_add {a b y : Text} (hy : y ≠ []) (hn : addNode a b y ∈ g.node) {as bs : List ℤ}
    (ha : g.dimsOf fuel a = some as) (hb : g.dimsOf fuel b = some bs) :
    g.dimsOf (fuel + 1) y = broadcast as bs := by
  have heval : g.dimsOf (fuel + 1) y =
      (g.dimsOf fuel a).bind fun as => (g.dimsOf fuel b).bind fun bs => broadcast as bs :=
    resolve_of_mem hnodup (GraphProto.mem_defs_node hn (mem_singleton_self y) hy) fuel
  rw [heval, ha, hb, bind_some, bind_some]

end Nodup

section Rebuilt

variable {mode : LoadMode} {m : GraphProto} {t : TensorProto}

theorem Rebuilt.mem_node (h : Rebuilt mode m g) (ht : t ∈ m.initializer) {n : NodeProto}
    (hn : n ∈ mode.nodes t.name) : n ∈ g.node := by
  rw [h.node]
  exact mem_append_right _ (mem_flatMap.mpr ⟨t, ht, hn⟩)

variable {y : Text} {ds : List ℤ}

theorem Rebuilt.exists_initializer (h : Rebuilt mode m g) (ht : t ∈ m.initializer)
    (hy : (y, ds) ∈ mode.initializers t.name (shapeDims t.shape)) :
    ∃ t' ∈ g.initializer, t'.name = y ∧ t'.dims = ds := by
  have hmem : (y, ds) ∈ g.initializer.map fun t => (t.name, t.dims) := by
    rw [h.initializer]
    exact mem_flatMap.mpr ⟨t, ht, hy⟩
  obtain ⟨t', ht', heq⟩ := mem_map.mp hmem
  exact ⟨t', ht', congrArg Prod.fst heq, congrArg Prod.snd heq⟩

theorem Rebuilt.dimsOf_new (h : Rebuilt mode m g) (hnodup : (g.defs.map Prod.fst).Nodup)
    (ht : t ∈ m.initializer) (hy : (y, ds) ∈ mode.initializers t.name (shapeDims t.shape))
    (fuel : ℕ) :
    g.dimsOf (fuel + 1) y = some ds := by
  obtain ⟨t', ht', hname, hdims⟩ := h.exists_initializer ht hy
  rw [← hname, ← hdims]
  exact dimsOf_initializer hnodup ht'

theorem Rebuilt.of_dimsOf_new (h : Rebuilt mode m g) (ht : t ∈ m.initializer)
    (hy : (y, ds) ∈ mode.initializers t.name (shapeDims t.shape)) {ds' : List ℤ}
    (hds : g.dimsOf fuel y = some ds') : g.Once y ∧ ds = ds' := by
  obtain ⟨t', ht', hname, hdims⟩ := h.exists_initializer ht hy
  rw [← hname] at hds ⊢
  rw [← hdims]
  exact of_dimsOf_initializer ht' hds

/-- The initializers and nodes of a mode for a tensor of bytes with the suffix `p`; `z` is the
tensor with its offset. -/
structure HasPart (mode : LoadMode) (x : Text) (p scale zeroPoint dequant offset : Text)
    (z : Text) : Prop where
  dequantize : dequantizeNode (x ++ p) (x ++ scale) (x ++ zeroPoint) (x ++ dequant) ∈ mode.nodes x
  add : addNode (x ++ dequant) (x ++ offset) z ∈ mode.nodes x
  bytes : ∀ ds, (x ++ p, ds) ∈ mode.initializers x ds
  single : ∀ ds, ∀ s ∈ [scale, zeroPoint, offset], (x ++ s, [1]) ∈ mode.initializers x ds

theorem hasPart_int8 (x : Text) :
    HasPart .int8 x (ascii "_base") (ascii "_base_scale") (ascii "_base_zero_point")
      (ascii "_base_dequant") (ascii "_base_offset") x := by
  constructor <;> simp [LoadMode.nodes, nodesUInt8, LoadMode.initializers]

theorem hasPart_int8Delta_base (x : Text) :
    HasPart .int8Delta x (ascii "_base") (ascii "_base_scale") (ascii "_base_zero_point")
      (ascii "_base_dequant") (ascii "_base_offset") (x ++ ascii "_base_dequant_offset") := by
  constructor <;> simp [LoadMode.nodes, nodesUInt8WithDelta, LoadMode.initializers]

theorem hasPart_int8Delta_delta (x : Text) :
    HasPart .int8Delta x (ascii "_delta") (ascii "_delta_scale") (ascii "_delta_zero_point")
      (ascii "_delta_dequant") (ascii "_delta_offset") (x ++ ascii "_delta_dequant_offset") := by
  constructor <;> simp [LoadMode.nodes, nodesUInt8WithDelta, LoadMode.initializers]

section Part

variable {p scale zeroPoint dequant offset z : Text}
  (hpart : HasPart mode t.name p scale zeroPoint dequant offset z)

include hpart

theorem Rebuilt.dimsOf_part (h : Rebuilt mode m g) (hnodup : (g.defs.map Prod.fst).Nodup)
    (ht : t ∈ m.initializer) (hname : t.name ≠ []) (hz : z ≠ []) (hne : shapeDims t.shape ≠ []) :
    g.dimsOf (fuel + 3) z = some (shapeDims t.shape) := by
  have hy := append_ne_nil_of_left_ne_nil hname dequant
  have hsingle := fun s hs => h.dimsOf_new hnodup ht (hpart.single (shapeDims t.shape) s hs)
  have hdims : g.dimsOf (fuel + 2) (t.name ++ dequant) = some (shapeDims t.shape) :=
    dimsOf_dequantize hnodup hy (h.mem_node ht hpart.dequantize)
      (h.dimsOf_new hnodup ht (hpart.bytes _) _) (hsingle scale (by simp) _)
      (hsingle zeroPoint (by simp) _)
  rw [dimsOf_add hnodup hz (h.mem_node ht hpart.add) hdims (hsingle offset (by simp) _),
    broadcast_one, if_neg hne]

theorem Rebuilt.of_dimsOf_part (h : Rebuilt mode m g) (ht : t ∈ m.initializer)
    (hname : t.name ≠ []) (hz : z ≠ []) {ds : List ℤ} (hds : g.dimsOf fuel z = some ds) :
    g.Once z ∧ (∀ s ∈ [p, scale, zeroPoint, dequant, offset], g.Once (t.name ++ s)) ∧
      ds = if shapeDims t.shape = [] then [1] else shapeDims t.shape := by
  have hy := append_ne_nil_of_left_ne_nil hname dequant
  obtain ⟨hoz, _, xs, os, hxs, hos, hbroad⟩ :=
    of_dimsOf_add hz (h.mem_node ht hpart.add) hds
  obtain ⟨hoy, _, _, _, hx, h₁, h₂⟩ :=
    of_dimsOf_dequantize hy (h.mem_node ht hpart.dequantize) hxs
  obtain ⟨hop, rfl⟩ := h.of_dimsOf_new ht (hpart.bytes _) hx
  obtain ⟨hoff, rfl⟩ := h.of_dimsOf_new ht (hpart.single _ offset (by simp)) hos
  have hscale := (h.of_dimsOf_new ht (hpart.single _ scale (by simp)) h₁).1
  have hzero := (h.of_dimsOf_new ht (hpart.single _ zeroPoint (by simp)) h₂).1
  refine ⟨hoz, ?_, ?_⟩
  · intro s hs
    simp only [mem_cons, not_mem_nil, or_false] at hs
    rcases hs with rfl | rfl | rfl | rfl | rfl <;> assumption
  · rw [broadcast_one] at hbroad
    exact (some.inj hbroad).symm

end Part

/-- **The dimensions of a tensor after loading**, if it is not a scalar. -/
theorem Rebuilt.dimsOf_name (h : Rebuilt mode m g) (hnodup : (g.defs.map Prod.fst).Nodup)
    (ht : t ∈ m.initializer) (hname : t.name ≠ []) (hne : shapeDims t.shape ≠ []) :
    ∃ fuel, g.dimsOf fuel t.name = some (shapeDims t.shape) := by
  have happ := append_ne_nil_of_left_ne_nil hname
  cases mode with
  | float32 =>
    have hself := h.dimsOf_new hnodup ht mem_cons_self 0
    rw [append_nil] at hself
    exact ⟨1, hself⟩
  | float16 =>
    refine ⟨2, (dimsOf_cast hnodup hname (h.mem_node ht mem_cons_self)).trans ?_⟩
    exact h.dimsOf_new hnodup ht mem_cons_self 0
  | int8 => exact ⟨3, h.dimsOf_part (hasPart_int8 _) hnodup ht hname hname hne⟩
  | int8Delta =>
    have hbase : g.dimsOf 3 _ = _ :=
      h.dimsOf_part (hasPart_int8Delta_base _) hnodup ht hname (happ _) hne
    have hdelta : g.dimsOf 3 _ = _ :=
      h.dimsOf_part (hasPart_int8Delta_delta _) hnodup ht hname (happ _) hne
    refine ⟨4, ?_⟩
    rw [dimsOf_add hnodup hname (h.mem_node ht ?_) hbase hdelta, broadcast_self]
    simp [LoadMode.nodes, nodesUInt8WithDelta]

end Rebuilt

end Dims

/-! ### Which models are preserved -/

section Preservation

variable {δ : Type} {ops : LoadOps δ} {bases : BaseTensors δ} {m g : GraphProto} {t : TensorProto}
  {fuel : ℕ} {ds : List ℤ} {mode : LoadMode}

theorem shapeDims_shape_eq_iff (hnonneg : ∀ d ∈ t.dims, 0 ≤ d) :
    shapeDims t.shape = t.dims ↔ ∀ d ∈ t.dims, d < 2 ^ 31 := by
  rw [shapeDims, TensorProto.shape, map_map]
  constructor
  · intro h d hd
    have hfix : ∀ d ∈ t.dims, (BitVec.ofInt 32 d).toInt = d := by
      refine map_eq_map_iff.mp ?_
      rw [map_id']
      exact h
    rw [← hfix d hd]
    exact BitVec.toInt_lt
  · intro h
    conv_rhs => rw [← map_id t.dims]
    refine map_congr_left fun d hd => ?_
    have hlt := h d hd
    have hpos := hnonneg d hd
    change (BitVec.ofInt 32 d).toInt = d
    rw [BitVec.toInt_ofInt, Int.bmod_def]
    omega

theorem shapeDims_shape_eq_nil : shapeDims t.shape = [] ↔ t.dims = [] := by
  simp [shapeDims, TensorProto.shape]

theorem Rebuilt.once_float16 (h : Rebuilt .float16 m g) (ht : t ∈ m.initializer)
    (hname : t.name ≠ []) (hds : g.dimsOf fuel t.name = some ds) :
    g.Once (t.name ++ ascii "_f16") := by
  obtain ⟨-, _, hcast⟩ := of_dimsOf_cast hname (h.mem_node ht mem_cons_self) hds
  exact (h.of_dimsOf_new ht mem_cons_self hcast).1

theorem Rebuilt.once_int8Delta (h : Rebuilt .int8Delta m g) (ht : t ∈ m.initializer)
    (hname : t.name ≠ []) (hds : g.dimsOf fuel t.name = some ds) :
    ∀ s ∈ LoadMode.int8Delta.suffixes, g.Once (t.name ++ s) := by
  have happ := append_ne_nil_of_left_ne_nil hname
  have hadd : addNode (t.name ++ ascii "_base_dequant_offset")
      (t.name ++ ascii "_delta_dequant_offset") t.name ∈ g.node :=
    h.mem_node ht (by simp [LoadMode.nodes, nodesUInt8WithDelta])
  obtain ⟨hself, _, as, bs, has, hbs, -⟩ := of_dimsOf_add hname hadd hds
  obtain ⟨hbase, hbases, -⟩ := h.of_dimsOf_part (hasPart_int8Delta_base _) ht hname (happ _) has
  obtain ⟨hdelta, hdeltas, -⟩ := h.of_dimsOf_part (hasPart_int8Delta_delta _) ht hname (happ _) hbs
  rw [← append_nil t.name] at hself
  simp only [forall_mem_cons] at hbases hdeltas
  obtain ⟨hb, hbScale, hbZero, hbDequant, hbOffset, -⟩ := hbases
  obtain ⟨hd, hdScale, hdZero, hdDequant, hdOffset, -⟩ := hdeltas
  simp only [LoadMode.suffixes, LoadMode.initializerNew, LoadMode.outputNew, LoadMode.outputSelf,
    outputSuffixes, cons_append, nil_append, forall_mem_cons]
  exact ⟨hb, hd, hbScale, hbZero, hdScale, hdZero, hbOffset, hdOffset, hbDequant, hdDequant, hbase,
    hdelta, hself, nofun⟩

theorem filter_withSuffixes {S names : List Text}
    (h : ∀ x ∈ names, ∀ s ∈ S, s ≠ [] → x ++ s ∉ names) :
    (withSuffixes S names).filter (· ∈ names) = withSuffixes (S.filter (· = [])) names := by
  rw [withSuffixes, filter_flatMap, withSuffixes]
  refine flatMap_congr fun x hx => ?_
  rw [filter_map]
  refine congrArg (map _) (filter_congr fun s hs => ?_)
  rw [Function.comp_apply, decide_eq_decide]
  constructor
  · intro hmem
    by_contra hne
    exact h x hx s hs hne hmem
  · rintro rfl
    rwa [append_nil]

theorem Rebuilt.order {m : OnnxModel} (h : Rebuilt mode m.toGraphProto g)
    (hfresh : Fresh m.toGraphProto) :
    g.definedNames.filter (· ∈ m.initializerNames) = m.initializerNames := by
  have hne : ∀ x ∈ m.initializerNames, ∀ s ∈ mode.suffixes, s ≠ [] →
      x ++ s ∉ m.initializerNames := by
    intro x hx s hs hne hmem
    rcases mem_append_singleton.mp (mode.suffixes_subset hs) with hs | hs
    · exact hfresh.defined x hx s hs (mem_append_left _ hmem)
    · exact hne hs
  have hold : m.outputNames.filter (· ∈ m.initializerNames) = [] :=
    filter_eq_nil_iff.mpr fun y hy hmem =>
      (nodup_append'.mp m.nodup).2.2 (of_decide_eq_true hmem) hy
  rw [GraphProto.definedNames, h.initializerNames, h.outputNames m.name_ne, filter_append,
    filter_append, hold, nil_append,
    filter_withSuffixes fun x hx s hs => hne x hx s (mem_append_left _ hs),
    filter_withSuffixes fun x hx s hs => hne x hx s (mem_append_right _ hs)]
  cases mode
  · change withSuffixes [[]] _ ++ withSuffixes [] _ = _
    rw [withSuffixes_nil]
    simp [withSuffixes]
  all_goals
    change withSuffixes [] _ ++ withSuffixes [[]] _ = _
    rw [withSuffixes_nil]
    simp [withSuffixes]

theorem floatNames_eq (h : ∀ t ∈ m.initializer, t.dataType.isFloat) :
    m.floatNames = m.initializerNames := by
  rw [GraphProto.floatNames, filter_eq_self.mpr h]
  rfl

theorem Loadable.preserved {m : OnnxModel} (h : Loadable m.toGraphProto)
    (hrebuilt : Rebuilt mode m.toGraphProto g) : Preserved m.toGraphProto mode g := by
  have hnodup := hrebuilt.nodup h.fresh
  have hdims : ∀ t ∈ m.initializer, ∃ fuel, g.dimsOf fuel t.name = some t.dims := by
    intro t ht
    have heq := (shapeDims_shape_eq_iff (m.dims_nonneg t ht)).mpr (h.dims_lt t ht)
    obtain ⟨fuel, hfuel⟩ := hrebuilt.dimsOf_name hnodup ht (m.name_ne t ht)
      (mt shapeDims_shape_eq_nil.mp (h.not_scalar t ht))
    exact ⟨fuel, hfuel.trans (congrArg some heq)⟩
  refine ⟨?_, hdims, ?_, ?_, ?_⟩
  · intro t ht
    rw [length_definitionsOf]
    refine count_eq_one_of_mem hnodup ?_
    -- a name that is not defined has no dimensions
    obtain ⟨fuel, hfuel⟩ := hdims t ht
    by_contra hnot
    have hnil : definitionsOf g.defs t.name = [] :=
      length_eq_zero_iff.mp
        ((length_definitionsOf _).trans (count_eq_zero_of_not_mem hnot))
    cases fuel with
    | zero => exact absurd hfuel (by simp [GraphProto.dimsOf, resolve])
    | succ fuel => exact absurd hfuel (by simp [GraphProto.dimsOf, resolve, hnil])
  · intro t ht intType hint
    have hfloat := h.float t ht
    rw [hint] at hfloat
    exact absurd hfloat (by simp [DataType.isFloat])
  · rw [floatNames_eq h.float]
    exact hrebuilt.order h.fresh
  · rintro rfl
    exact hrebuilt.initializerNames.trans (withSuffixes_nil _)

theorem fresh_of_preserved {m : OnnxModel} {g₁ g₂ : GraphProto}
    (h₁ : Rebuilt .float16 m.toGraphProto g₁) (h₂ : Rebuilt .int8Delta m.toGraphProto g₂)
    (hp₁ : Preserved m.toGraphProto .float16 g₁)
    (hp₂ : Preserved m.toGraphProto .int8Delta g₂) : Fresh m.toGraphProto := by
  have hdelta : ∀ x ∈ m.initializerNames, ∀ s ∈ LoadMode.int8Delta.suffixes,
      g₂.Once (x ++ s) := by
    intro x hx
    obtain ⟨t, ht, rfl⟩ := mem_map.mp hx
    obtain ⟨fuel, hfuel⟩ := hp₂.dims t ht
    exact h₂.once_int8Delta ht (m.name_ne t ht) hfuel
  constructor
  · intro x hx s hs
    have hsplit : s = ascii "_f16" ∨
        s ∈ LoadMode.int8Delta.initializerNew ++ LoadMode.int8Delta.outputNew := by
      revert s
      decide +kernel
    rcases hsplit with rfl | hs'
    · obtain ⟨t, ht, rfl⟩ := mem_map.mp hx
      obtain ⟨fuel, hfuel⟩ := hp₁.dims t ht
      have honce := h₁.once_float16 ht (m.name_ne t ht) hfuel
      exact (h₁.fresh_of_count m.name_ne rfl hx (mem_cons_self) honce).1 mem_cons_self
    · have hs'' : s ∈ LoadMode.int8Delta.suffixes := by
        rw [LoadMode.suffixes, ← append_assoc]
        exact mem_append_left _ hs'
      exact (h₂.fresh_of_count m.name_ne rfl hx hs'' (hdelta x hx s hs'')).1 hs'
  · intro x hx s hs
    have hs' := mem_append_right LoadMode.int8Delta.initializerNew hs
    exact (h₂.fresh_of_count m.name_ne rfl hx hs' (hdelta x hx s hs')).2 hs

theorem loadable_of_preserved {m : OnnxModel}
    (hfloat : ∀ t ∈ m.initializer, t.dataType.isFloat ∧ t.rawData ≠ [])
    (h : ∀ mode, ∃ g, Rebuilt mode m.toGraphProto g ∧ Preserved m.toGraphProto mode g) :
    Loadable m.toGraphProto := by
  obtain ⟨g₀, hr₀, hp₀⟩ := h .float32
  obtain ⟨g₁, hr₁, hp₁⟩ := h .float16
  obtain ⟨g₂, hr₂, hp₂⟩ := h .int8
  obtain ⟨g₃, hr₃, hp₃⟩ := h .int8Delta
  refine ⟨fun t ht => (hfloat t ht).1, fun t ht => (hfloat t ht).2, ?_, ?_,
    fresh_of_preserved hr₁ hr₃ hp₁ hp₃⟩
  · -- the offset makes a vector of a scalar
    intro t ht hnil
    obtain ⟨fuel, hfuel⟩ := hp₂.dims t ht
    have hds :=
      (hr₂.of_dimsOf_part (hasPart_int8 _) ht (m.name_ne t ht) (m.name_ne t ht) hfuel).2.2
    rw [if_pos (shapeDims_shape_eq_nil.mpr hnil), hnil] at hds
    cases hds
  · intro t ht
    obtain ⟨fuel, hfuel⟩ := hp₀.dims t ht
    rw [← append_nil t.name] at hfuel
    have heq := (hr₀.of_dimsOf_new ht mem_cons_self hfuel).2
    exact (shapeDims_shape_eq_iff (m.dims_nonneg t ht)).mp heq

/-- **Which models loading preserves**, if the page has a packet for each initializer. -/
theorem preserved_iff_loadable (ops : LoadOps δ) {m : OnnxModel} {packets : List (DeltaPacket δ)}
    (hfloat : ∀ t ∈ m.initializer, t.dataType.isFloat ∧ t.rawData ≠ [])
    (hstands : Forall₂ (Stands bases) m.initializer packets) :
    (∀ mode, ∃ g, load ops bases mode
        ⟨{ m.toGraphProto with initializer := [] }, deltaPage m.initializer packets⟩ = some g ∧
      Preserved m.toGraphProto mode g) ↔ Loadable m.toGraphProto := by
  have hrebuild : ∀ mode, ∃ g, load ops bases mode _ = some g ∧ Rebuilt mode m.toGraphProto g :=
    load_rebuilt hstands
  constructor
  · intro hload
    refine loadable_of_preserved hfloat fun mode => ?_
    obtain ⟨g, hg, hpres⟩ := hload mode
    obtain ⟨g', hg', hrebuilt⟩ := hrebuild mode
    obtain rfl := Option.some.inj (hg.symm.trans hg')
    exact ⟨g, hrebuilt, hpres⟩
  · intro h mode
    obtain ⟨g, hg, hrebuilt⟩ := hrebuild mode
    exact ⟨g, hg, h.preserved hrebuilt⟩

end Preservation

namespace ModelExample

/-- Doubles that are small integers have the bits of the integer. -/
def ops : LoadOps Unit where
  floatToDouble x := x.zeroExtend 64
  halfToFloat x := x.zeroExtend 32
  halfToDouble x := x.zeroExtend 64
  doubleToFloat x := x.truncate 32
  intToDouble n := BitVec.ofInt 64 n
  intToHalf n := BitVec.ofInt 16 n
  doubleToInt x := x.toInt
  dequantize _ := []
  dequantizeF16 _ := []
  decompressDelta base _ := base
  decompressDeltaF16 base _ := base
  toUInt8Quantized _ := ⟨[], 0, 0⟩
  quantizedBitWidth _ := 8
  offset _ scale := scale
  mulPow x _ := x
  divPow x _ := x

def weight : TensorProto := ⟨ascii "w", [2], .float, leBytes 8 1⟩

def bias : TensorProto := ⟨ascii "b", [1, 1], .double, leBytes 8 2⟩

/-- A layer: `y` from `x`, a weight and a bias. -/
def floatModel : OnnxModel where
  node := [⟨.other (ascii "Gemm"), [ascii "x", ascii "w", ascii "b"], [ascii "y"], []⟩]
  initializer := [weight, bias]
  input := [ascii "x"]
  dims_nonneg := by decide
  raw_size := by simp [weight, bias, DataType.elementSize]
  name_ne := by decide
  nodup := by decide
  input_nodup := by decide
  input_not_output := by
    intro y hin hout
    obtain rfl := mem_singleton.mp hin
    exact absurd hout (by decide)

/-- A graph with the integer `5` as its only initializer. -/
def intModel : OnnxModel where
  node := []
  initializer := [⟨ascii "w", [1], .int .int8, leBytes 1 5⟩]
  input := []
  dims_nonneg := by decide
  raw_size := by simp [DataType.elementSize, IntType.getIntTypeInBytes]
  name_ne := by decide
  nodup := by decide
  input_nodup := by decide
  input_not_output := disjoint_nil_left _

end ModelExample

end NeurDB.NeurStore
