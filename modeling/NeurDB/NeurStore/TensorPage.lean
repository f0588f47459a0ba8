import NeurDB.NeurStore.DeltaQuant
import NeurDB.NeurStore.SimilarityIndex
import NeurDB.Framework.Codec

/-!
# Tensor pages and model structures

The two files of a stored model. A `TensorPage` holds one packet for every tensor of the model,
a quantized difference or an integer tensor, and its name; a `ModelStructure` holds the rest of
the model as bytes. Both are written as length-prefixed fields.

The packets are written by their own `serialize`, which differs between the two kinds, and
nothing in the page tells which kind follows. `TensorPage::deserialize` takes all of them for
differences. The decoder of differences undoes their encoder (`DeltaQuantPacket.Sound.reads`), so
a page is read back exactly when it has no integer packet (`stored_files_decode_iff`).

Doubles are their bits and names are byte strings. Copying from behind the end of a buffer is a
failure, as an exception is.
-/

namespace NeurDB.NeurStore

open List

/-! ### The packets -/

def serializeShape (shape : List CInt) : List Byte := shape.flatMap fun dim => leBytes 4 dim.toNat

/-- A count and that many dimensions. -/
def readShape : Reader (List CInt) := do
  let shapeCount ← Reader.uint 8
  Reader.times shapeCount (Reader.word 32 4)

/-- `DeltaQuantPacket::serialize`. -/
def DeltaQuantPacket.serialize (packet : DeltaQuantPacket Double) : List Byte :=
  leBytes 8 packet.scale.toNat ++ (leBytes 8 packet.zeroPoint.toNat ++
    (leBytes 4 packet.originalBitWidth.toNat ++ (leBytes 4 packet.quantizedBitWidth.toNat ++
    (leBytes 8 packet.baseTensorId.toNat ++ (leBytes 8 packet.indexId.toNat ++
    (leBytes 8 packet.nbytes ++ (leBytes 8 packet.nelements ++
    ((leBytes 8 packet.shape.length ++ serializeShape packet.shape) ++
      packet.serializedData))))))))

/-- The body of `DeltaQuantPacket::deserialize`. The packet is constructed from an empty vector
of codes, and its data, sizes and ids are replaced afterwards. -/
def DeltaQuantPacket.read : Reader (DeltaQuantPacket Double) := do
  let scale ← Reader.word 64 8
  let zeroPoint ← Reader.word 64 8
  let originalBitWidth ← Reader.word 32 4
  let quantizedBitWidth ← Reader.word 32 4
  let baseTensorId ← Reader.word 64 8
  let indexId ← Reader.word 64 8
  let nbytes ← Reader.uint 8
  let nelements ← Reader.uint 8
  let shape ← readShape
  let packet ← StateT.lift
    (DeltaQuantPacket.new [] scale zeroPoint originalBitWidth quantizedBitWidth shape)
  let serializedData ← Reader.bytes nbytes
  return { packet with serializedData, nbytes, nelements, shape, baseTensorId, indexId }

/-- `DeltaQuantPacket::deserialize`; what follows the packet is not looked at. -/
def DeltaQuantPacket.deserialize (data : List Byte) : Option (DeltaQuantPacket Double) :=
  (DeltaQuantPacket.read data).map Prod.fst

/-- `IntTensorPacket::IntType`. -/
inductive IntType where
  | int8 | int16 | int32 | uint8 | uint16 | uint32
  deriving DecidableEq, Repr

namespace IntType

/-- The value of the enumerator. -/
def toNat : IntType → ℕ
  | int8 => 0 | int16 => 1 | int32 => 2 | uint8 => 3 | uint16 => 4 | uint32 => 5

end IntType

structure IntTensorPacket where
  intType : IntType
  nelements : BitVec 64
  shape : List CInt
  serializedData : List Byte
  deriving DecidableEq

/-- `IntTensorPacket::serialize`. -/
def IntTensorPacket.serialize (packet : IntTensorPacket) : List Byte :=
  leBytes 4 packet.intType.toNat ++ (leBytes 8 packet.nelements.toNat ++
    ((leBytes 8 packet.shape.length ++ serializeShape packet.shape) ++ packet.serializedData))

/-- `TensorPacket` and its two implementations. -/
inductive TensorPacket where
  | delta (packet : DeltaQuantPacket Double)
  | int (packet : IntTensorPacket)

/-- The virtual `serialize`. -/
def TensorPacket.serialize : TensorPacket → List Byte
  | .delta packet => packet.serialize
  | .int packet => packet.serialize

/-! ### The files -/

/-- A buffer of the size computed beforehand, filled from the front. -/
def fillBuffer (totalSize : ℕ) (content : List Byte) : List Byte :=
  content ++ List.replicate (totalSize - content.length) zeroByte

/-- A packet with its size. -/
def packetField (data : List Byte) : List Byte := leBytes 4 data.length ++ data

/-- A name with its size, of which no more is copied than the size field says. -/
def nameField (name : List Byte) : List Byte :=
  leBytes 4 name.length ++ name.take (name.length % 2 ^ 32)

def readName : Reader (List Byte) := do
  let nameSize ← Reader.uint 4
  Reader.bytes nameSize

/-- The page; its constructor checks that there is a name for every packet. -/
structure TensorPage where
  tensorPackets : List TensorPacket
  names : List (List Byte)
  same_size : tensorPackets.length = names.length

namespace TensorPage

def totalSize (page : TensorPage) : ℕ :=
  4 + (page.tensorPackets.map fun packet => 4 + packet.serialize.length).sum +
    (page.names.map fun name => 4 + name.length).sum

/-- `TensorPage::serialize`. -/
def serialize (page : TensorPage) : List Byte :=
  fillBuffer page.totalSize
    (leBytes 4 page.tensorPackets.length ++
      ((page.tensorPackets.flatMap fun packet => packetField packet.serialize) ++
        page.names.flatMap nameField))

/-- One round of the loop over the packets: every packet is taken for a difference. -/
def readPacket : Reader TensorPacket := do
  let packetSize ← Reader.uint 4
  let packetData ← Reader.bytes packetSize
  let packet ← StateT.lift (DeltaQuantPacket.deserialize packetData)
  return .delta packet

def read : Reader (List TensorPacket × List (List Byte)) := do
  let packetCount ← Reader.uint 4
  let tensorPackets ← Reader.times packetCount readPacket
  let names ← Reader.times packetCount readName
  return (tensorPackets, names)

/-- `TensorPage::TensorPage`. -/
def new (tensorPackets : List TensorPacket) (names : List (List Byte)) : Option TensorPage :=
  if h : tensorPackets.length = names.length then some ⟨tensorPackets, names, h⟩ else none

/-- `TensorPage::deserialize`. -/
def deserialize (buffer : List Byte) : Option TensorPage :=
  (read buffer).bind fun ((tensorPackets, names), _) => new tensorPackets names

end TensorPage

structure ModelStructure where
  serializedModelStructure : List Byte
  names : List (List Byte)
  deriving DecidableEq

namespace ModelStructure

/-- `ModelStructure::serialize`. The size of the structure is cut to 32 bits before it is
used. -/
def serialize (s : ModelStructure) : List Byte :=
  let structureSize := s.serializedModelStructure.length % 2 ^ 32
  fillBuffer (4 + structureSize + 4 + (s.names.map fun name => 4 + name.length).sum)
    (leBytes 4 structureSize ++ (s.serializedModelStructure.take structureSize ++
      (leBytes 4 s.names.length ++ s.names.flatMap nameField)))

def read : Reader ModelStructure := do
  let structureSize ← Reader.uint 4
  let serializedModelStructure ← Reader.bytes structureSize
  let namesCount ← Reader.uint 4
  let names ← Reader.times namesCount readName
  return { serializedModelStructure, names }

/-- `ModelStructure::deserialize`. -/
def deserialize (data : List Byte) : Option ModelStructure := (read data).map Prod.fst

end ModelStructure

/-! ### Each kind is read back by its own decoder -/

theorem Reads.shape {shape : List CInt} (h : shape.length < 2 ^ 64) :
    Reads readShape (leBytes 8 shape.length ++ serializeShape shape) shape := by
  have hdims := Reads.times shape fun dim _ => Reads.word (by norm_num : 2 ^ 32 = 256 ^ 4) dim
  rw [map_id'] at hdims
  exact (Reads.uint (h.trans_eq (by norm_num))).bind hdims

/-- What the constructor of a difference packet establishes, and the setters of its ids keep. -/
structure DeltaQuantPacket.Sound (packet : DeltaQuantPacket Double) : Prop where
  width_accepted : ¬(packet.quantizedBitWidth.toInt < 0 ∨ 32 < packet.quantizedBitWidth.toInt)
  nbytes_eq : packet.nbytes = packet.serializedData.length
  nelements_lt : packet.nelements < 2 ^ 63

/-- A packet as `compress` builds it from its codes, with the ids it is given afterwards. No
vector has `2 ^ 63` elements. -/
inductive DeltaQuantPacket.Built : DeltaQuantPacket Double → Prop
  | intro {codes : List ℕ} {scale zeroPoint : Double}
      {originalBitWidth quantizedBitWidth : CInt} {shape : List CInt}
      {packet : DeltaQuantPacket Double} (baseTensorId indexId : BitVec 64)
      (length_lt : codes.length < 2 ^ 63)
      (new_eq : DeltaQuantPacket.new codes scale zeroPoint originalBitWidth quantizedBitWidth
        shape = some packet) :
      Built { packet with baseTensorId, indexId }

theorem DeltaQuantPacket.Built.sound {packet : DeltaQuantPacket Double} (h : packet.Built) :
    packet.Sound := by
  obtain @⟨codes, _, _, _, width, _, packet, _, _, hlt, hnew⟩ := h
  obtain ⟨data, hwrite, rfl⟩ := Option.map_eq_some_iff.mp hnew
  exact ⟨width_of_writeBitsNaive hwrite, (length_writeBitsNaive hwrite).symm, hlt⟩

theorem DeltaQuantPacket.new_nil {scale zeroPoint : Double}
    {originalBitWidth quantizedBitWidth : CInt} {shape : List CInt}
    (h : ¬(quantizedBitWidth.toInt < 0 ∨ 32 < quantizedBitWidth.toInt)) :
    DeltaQuantPacket.new [] scale zeroPoint originalBitWidth quantizedBitWidth shape =
      some ⟨scale, zeroPoint, originalBitWidth, quantizedBitWidth, -1, -1,
        packedBytes 0 quantizedBitWidth.toNat, 0, shape, []⟩ := by
  rw [DeltaQuantPacket.new, writeBitsNaive, if_neg h]
  rfl

theorem length_serializeShape (shape : List CInt) :
    (serializeShape shape).length = 4 * shape.length := by
  rw [serializeShape, length_flatMap]
  simp only [length_leBytes, map_const', sum_replicate, smul_eq_mul]
  exact Nat.mul_comm _ _

theorem DeltaQuantPacket.length_serialize (packet : DeltaQuantPacket Double) :
    packet.serialize.length = 64 + 4 * packet.shape.length + packet.serializedData.length := by
  simp only [DeltaQuantPacket.serialize, length_append, length_leBytes, length_serializeShape]
  omega

/-- **A difference packet is read back.** -/
theorem DeltaQuantPacket.Sound.reads {packet : DeltaQuantPacket Double} (h : packet.Sound)
    (hsize : packet.serialize.length < 2 ^ 32) :
    Reads DeltaQuantPacket.read packet.serialize packet := by
  rw [packet.length_serialize] at hsize
  have hshape : packet.shape.length < 2 ^ 64 := by omega
  have hnbytes : packet.nbytes < 256 ^ 8 := by
    rw [h.nbytes_eq]
    norm_num
    omega
  have hnelements : packet.nelements < 256 ^ 8 := h.nelements_lt.trans (by norm_num)
  have h64 : 2 ^ 64 = 256 ^ 8 := by norm_num
  have h32 : 2 ^ 32 = 256 ^ 4 := by norm_num
  apply (Reads.word h64 packet.scale).bind
  apply (Reads.word h64 packet.zeroPoint).bind
  apply (Reads.word h32 packet.originalBitWidth).bind
  apply (Reads.word h32 packet.quantizedBitWidth).bind
  apply (Reads.word h64 packet.baseTensorId).bind
  apply (Reads.word h64 packet.indexId).bind
  apply (Reads.uint hnbytes).bind
  apply (Reads.uint hnelements).bind
  apply (Reads.shape hshape).bind
  -- the constructor reads nothing, the data is what remains
  have hnew : Reads (StateT.lift (DeltaQuantPacket.new [] packet.scale packet.zeroPoint
      packet.originalBitWidth packet.quantizedBitWidth packet.shape)) [] _ :=
    Reads.lift (DeltaQuantPacket.new_nil h.width_accepted)
  refine hnew.bind ?_
  exact (Reads.bytes_of_length h.nbytes_eq.symm).bind_pure fun data => _

/-! ### The files are read back -/

theorem fillBuffer_of_length {totalSize : ℕ} {content : List Byte}
    (h : content.length = totalSize) : fillBuffer totalSize content = content := by
  rw [fillBuffer, h, Nat.sub_self, replicate_zero, append_nil]

theorem nameField_of_lt {name : List Byte} (h : name.length < 2 ^ 32) :
    nameField name = leBytes 4 name.length ++ name := by
  rw [nameField, Nat.mod_eq_of_lt h, take_length]

theorem length_flatMap_nameField {names : List (List Byte)}
    (h : ∀ name ∈ names, name.length < 2 ^ 32) :
    (names.flatMap nameField).length = (names.map fun name => 4 + name.length).sum := by
  rw [length_flatMap]
  refine congrArg sum (map_congr_left fun name hname => ?_)
  rw [nameField_of_lt (h name hname), length_append, length_leBytes]

theorem Reads.name {name : List Byte} (h : name.length < 2 ^ 32) :
    Reads readName (nameField name) name := by
  rw [nameField_of_lt h]
  exact (Reads.uint (h.trans_eq (by norm_num))).bind (Reads.bytes name)

theorem Reads.names {names : List (List Byte)} (h : ∀ name ∈ names, name.length < 2 ^ 32) :
    Reads (Reader.times names.length readName) (names.flatMap nameField) names := by
  have hread := Reads.times names fun name hname => Reads.name (h name hname)
  rwa [map_id'] at hread

theorem Reads.packet {packet : DeltaQuantPacket Double} (h : packet.Sound)
    (hsize : packet.serialize.length < 2 ^ 32) :
    Reads TensorPage.readPacket (packetField packet.serialize) (.delta packet) := by
  have hdeser : DeltaQuantPacket.deserialize packet.serialize = some packet := by
    rw [DeltaQuantPacket.deserialize, (h.reads hsize).run_eq]
    rfl
  have hdata : Reads (do
      let packetData ← Reader.bytes packet.serialize.length
      let packet ← StateT.lift (DeltaQuantPacket.deserialize packetData)
      return TensorPacket.delta packet) (packet.serialize ++ []) (.delta packet) :=
    (Reads.bytes packet.serialize).bind ((Reads.lift hdeser).bind_pure TensorPacket.delta)
  rw [append_nil] at hdata
  exact (Reads.uint (hsize.trans_eq (by norm_num))).bind hdata

/-- The packet is a quantized difference. -/
def TensorPacket.IsDelta : TensorPacket → Prop
  | .delta _ => True
  | .int _ => False

/-- The packets `Compressor::compress` puts into a page. -/
def TensorPacket.Built : TensorPacket → Prop
  | .delta packet => packet.Built
  | .int _ => True

namespace TensorPage

variable {page : TensorPage}

theorem reads (hdelta : ∀ packet ∈ page.tensorPackets, packet.IsDelta)
    (hbuilt : ∀ packet ∈ page.tensorPackets, packet.Built)
    (hsize : ∀ packet ∈ page.tensorPackets, packet.serialize.length < 2 ^ 32)
    (hnames : ∀ name ∈ page.names, name.length < 2 ^ 32)
    (hcount : page.tensorPackets.length < 2 ^ 32) :
    Reads read
      (leBytes 4 page.tensorPackets.length ++
        ((page.tensorPackets.flatMap fun packet => packetField packet.serialize) ++
          page.names.flatMap nameField))
      (page.tensorPackets, page.names) := by
  have hpacket : ∀ packet ∈ page.tensorPackets,
      Reads readPacket (packetField packet.serialize) packet := by
    intro packet hmem
    cases packet with
    | delta p => exact Reads.packet (hbuilt _ hmem).sound (hsize _ hmem)
    | int p => exact (hdelta _ hmem).elim
  have hpackets := Reads.times page.tensorPackets hpacket
  rw [map_id'] at hpackets
  apply (Reads.uint (hcount.trans_eq (by norm_num))).bind
  apply hpackets.bind
  rw [page.same_size]
  exact (Reads.names hnames).bind_pure fun names => (page.tensorPackets, names)

theorem length_content (hnames : ∀ name ∈ page.names, name.length < 2 ^ 32) :
    (leBytes 4 page.tensorPackets.length ++
      ((page.tensorPackets.flatMap fun packet => packetField packet.serialize) ++
        page.names.flatMap nameField)).length = page.totalSize := by
  rw [length_append, length_append, length_leBytes, length_flatMap_nameField hnames,
    length_flatMap, totalSize]
  simp only [packetField, length_append, length_leBytes]
  omega

theorem new_eq (page : TensorPage) : new page.tensorPackets page.names = some page := by
  rw [new, dif_pos page.same_size]

theorem of_deserialize {buffer : List Byte} (h : deserialize buffer = some page) :
    page.tensorPackets.length < 2 ^ 32 ∧ ∀ packet ∈ page.tensorPackets, packet.IsDelta := by
  obtain ⟨⟨⟨packets, names⟩, rest⟩, hread, hnew⟩ := Option.bind_eq_some_iff.mp h
  obtain ⟨count, buf₁, hcount, hread⟩ := Reader.bind_eq_some hread
  obtain ⟨packets', buf₂, hpackets, hread⟩ := Reader.bind_eq_some hread
  obtain ⟨names', buf₃, -, hread⟩ := Reader.bind_eq_some hread
  obtain ⟨rfl, rfl⟩ := Prod.mk.inj (Prod.mk.inj (Option.some.inj hread)).1
  have hdelta : ∀ buf packet rest, readPacket buf = some (packet, rest) → packet.IsDelta := by
    intro buf packet rest hpacket
    obtain ⟨size, buf₁, -, hpacket⟩ := Reader.bind_eq_some hpacket
    obtain ⟨data, buf₂, -, hpacket⟩ := Reader.bind_eq_some hpacket
    obtain ⟨p, buf₃, -, hpacket⟩ := Reader.bind_eq_some hpacket
    cases hpacket
    exact trivial
  obtain ⟨hlen, hall⟩ := Reader.of_times hdelta hpackets
  have hnew : new packets' names' = some page := hnew
  unfold new at hnew
  split at hnew
  · cases hnew
    exact ⟨hlen ▸ (Reader.uint_lt hcount).trans_eq (by norm_num), hall⟩
  · cases hnew

/-- **A page is read back exactly when it holds differences only**, and fewer than
`2 ^ 32` of them. -/
theorem decodes_iff (hbuilt : ∀ packet ∈ page.tensorPackets, packet.Built)
    (hsize : ∀ packet ∈ page.tensorPackets, packet.serialize.length < 2 ^ 32)
    (hnames : ∀ name ∈ page.names, name.length < 2 ^ 32) :
    deserialize page.serialize = some page ↔
      page.tensorPackets.length < 2 ^ 32 ∧ ∀ packet ∈ page.tensorPackets, packet.IsDelta := by
  constructor
  · exact of_deserialize
  · rintro ⟨hcount, hdelta⟩
    have hreads := reads hdelta hbuilt hsize hnames hcount
    rw [serialize, fillBuffer_of_length (length_content hnames), deserialize, hreads.run_eq]
    exact page.new_eq

end TensorPage

namespace ModelStructure

variable {s : ModelStructure}

theorem of_deserialize {data : List Byte} (h : deserialize data = some s) :
    s.serializedModelStructure.length < 2 ^ 32 ∧ s.names.length < 2 ^ 32 := by
  obtain ⟨⟨s', rest⟩, hread, rfl⟩ := Option.map_eq_some_iff.mp h
  obtain ⟨size, buf₁, hsize, hread⟩ := Reader.bind_eq_some hread
  obtain ⟨structure', buf₂, hstructure, hread⟩ := Reader.bind_eq_some hread
  obtain ⟨count, buf₃, hcount, hread⟩ := Reader.bind_eq_some hread
  obtain ⟨names, buf₄, hnames, hread⟩ := Reader.bind_eq_some hread
  cases hread
  have hlen := (Reader.of_times (fun _ _ _ _ => trivial : ∀ buf name rest,
    readName buf = some (name, rest) → True) hnames).1
  have hpow : 256 ^ 4 = 2 ^ 32 := by norm_num
  exact ⟨Reader.length_of_bytes hstructure ▸ (Reader.uint_lt hsize).trans_eq hpow,
    hlen ▸ (Reader.uint_lt hcount).trans_eq hpow⟩

/-- **A structure is read back** when its sizes fit their fields. -/
theorem decodes_iff (hnames : ∀ name ∈ s.names, name.length < 2 ^ 32) :
    deserialize s.serialize = some s ↔
      s.serializedModelStructure.length < 2 ^ 32 ∧ s.names.length < 2 ^ 32 := by
  constructor
  · exact of_deserialize
  · rintro ⟨hsize, hcount⟩
    have hreads : Reads read
        (leBytes 4 s.serializedModelStructure.length ++ (s.serializedModelStructure ++
          (leBytes 4 s.names.length ++ s.names.flatMap nameField))) s := by
      apply (Reads.uint (hsize.trans_eq (by norm_num))).bind
      apply (Reads.bytes s.serializedModelStructure).bind
      apply (Reads.uint (hcount.trans_eq (by norm_num))).bind
      exact (Reads.names hnames).bind_pure fun names =>
        ModelStructure.mk s.serializedModelStructure names
    have hlen : (leBytes 4 s.serializedModelStructure.length ++ (s.serializedModelStructure ++
        (leBytes 4 s.names.length ++ s.names.flatMap nameField))).length =
          4 + s.serializedModelStructure.length + 4 +
            (s.names.map fun name => 4 + name.length).sum := by
      simp only [length_append, length_leBytes, length_flatMap_nameField hnames]
      omega
    rw [serialize, Nat.mod_eq_of_lt hsize, take_length, fillBuffer_of_length hlen, deserialize,
      hreads.run_eq]
    rfl

end ModelStructure

/-- **When the files of a model decode to what was encoded.** -/
theorem stored_files_decode_iff (page : TensorPage) (s : ModelStructure)
    (hbuilt : ∀ packet ∈ page.tensorPackets, packet.Built)
    (hsize : ∀ packet ∈ page.tensorPackets, packet.serialize.length < 2 ^ 32)
    (hnames : ∀ name ∈ page.names, name.length < 2 ^ 32)
    (hsnames : ∀ name ∈ s.names, name.length < 2 ^ 32) :
    (TensorPage.deserialize page.serialize = some page ↔
        page.tensorPackets.length < 2 ^ 32 ∧
          ∀ packet ∈ page.tensorPackets, packet.IsDelta) ∧
      (ModelStructure.deserialize s.serialize = some s ↔
        s.serializedModelStructure.length < 2 ^ 32 ∧ s.names.length < 2 ^ 32) :=
  ⟨TensorPage.decodes_iff hbuilt hsize hnames, ModelStructure.decodes_iff hsnames⟩

namespace PageExample

/-- A packet of one code of one bit. -/
def packet (baseTensorId : BitVec 64) : DeltaQuantPacket Double :=
  { scale := 5, zeroPoint := 7, originalBitWidth := 32, quantizedBitWidth := 1
    baseTensorId, indexId := 4, nbytes := 1, nelements := 1, shape := [1]
    serializedData := leBytes 1 1 }

def name : List Byte := leBytes 2 97

/-- A page of two differences. -/
def deltaPage : TensorPage :=
  ⟨[.delta (packet 3), .delta (packet 5)], [name, leBytes 3 98], rfl⟩

/-- A page of one integer tensor, the scalar 5 of type `INT8` in a vector. -/
def intPage : TensorPage := ⟨[.int ⟨.int8, 1, [1], leBytes 1 5⟩], [name], rfl⟩

def modelStructure : ModelStructure := ⟨leBytes 3 1, [name]⟩

theorem packet_built (baseTensorId : BitVec 64) : (packet baseTensorId).Built := by
  have hnew : DeltaQuantPacket.new [1] (packet 0).scale (packet 0).zeroPoint 32 1 [1] =
      some { packet 0 with baseTensorId := -1, indexId := -1 } := by decide +kernel
  exact DeltaQuantPacket.Built.intro baseTensorId 4 (by decide) hnew

end PageExample

theorem stored_files_decode_delta :
    TensorPage.deserialize PageExample.deltaPage.serialize = some PageExample.deltaPage ∧
      ModelStructure.deserialize PageExample.modelStructure.serialize =
        some PageExample.modelStructure := by
  have h := stored_files_decode_iff PageExample.deltaPage PageExample.modelStructure
    (by
      intro packet hpacket
      rcases mem_pair.mp hpacket with rfl | rfl <;> exact PageExample.packet_built _)
    (by decide +kernel) (by decide +kernel) (by decide +kernel)
  refine ⟨h.1.mpr ⟨by decide, ?_⟩, h.2.mpr (by decide +kernel)⟩
  intro packet hpacket
  rcases mem_pair.mp hpacket with rfl | rfl <;> exact trivial

/-- The 25 bytes of an integer packet end before the id of a base tensor that is not there. -/
theorem stored_files_int_lost :
    (∀ packet ∈ PageExample.intPage.tensorPackets,
        packet.Built ∧ packet.serialize.length < 2 ^ 32) ∧
      (∀ name ∈ PageExample.intPage.names, name.length < 2 ^ 32) ∧
      TensorPage.deserialize PageExample.intPage.serialize = none := by
  refine ⟨fun packet hpacket => ?_, by decide +kernel, by decide +kernel⟩
  obtain rfl := mem_singleton.mp hpacket
  exact ⟨trivial, by decide +kernel⟩

end NeurDB.NeurStore
