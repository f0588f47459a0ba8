import NeurDB.NeurStore.Reconstruct

/-!
# Deltas cut to eight bits

In the load mode with bytes and deltas, `toUINT8QuantizedTensorPacket` keeps the upper eight bits
of the codes of a delta packet, and `reconstructModelUInt8WithDelta` makes up for the `n - 8` bits
that are gone: it multiplies the scale and divides the zero point by `2 ^ (n - 8)`. The zero point
does not go into `DequantizeLinear`, which gets the constant 0; it becomes an offset, added by a
node of its own.

The graph's own nodes (`nodesUInt8WithDelta`) are evaluated here, in exact arithmetic:

* `eval_delta`: what they compute for the delta, from the packet's codes;
* `truncated_delta_close`: this is the delta of the full load up to eight bits, and above them
  at most less than `2 ^ (n - 8)` steps below it.
-/

namespace NeurDB.NeurStore

open Function List

/-! ### The code -/

/-- `UINT8QuantizedTensorPacket`. -/
structure UINT8QuantizedTensorPacket where
  data : List Byte
  scale : ℚ
  zeroPoint : ℚ
  fullQuantizedBitWidth : CInt

/-- A code cut to eight bits, `(val >> shift) & 0xFF` for the widths above eight. -/
def truncateCode (bitWidth : CInt) (val : ℕ) : Byte :=
  if bitWidth.toInt ≤ 8 then Fin.ofNat 256 val
  else Fin.ofNat 256 (val / 2 ^ (bitWidth.toInt - 8).toNat)

/-- The packet of the cut codes. -/
def DeltaQuantPacket.cut (packet : DeltaQuantPacket ℚ) (unpacked : List ℕ) :
    UINT8QuantizedTensorPacket where
  data := unpacked.map (truncateCode packet.quantizedBitWidth)
  scale := packet.scale
  zeroPoint := packet.zeroPoint
  fullQuantizedBitWidth := packet.quantizedBitWidth

/-- `DeltaQuantPacket::toUINT8QuantizedTensorPacket`. -/
def DeltaQuantPacket.toUINT8QuantizedTensorPacket (packet : DeltaQuantPacket ℚ) :
    Option UINT8QuantizedTensorPacket :=
  (readBitsNaive packet.serializedData packet.quantizedBitWidth packet.nelements).map packet.cut

/-- The codes of an initializer of bytes, as numbers. -/
def byteValues (data : List Byte) : List ℚ := data.map fun b => (b.val : ℚ)

namespace UINT8QuantizedTensorPacket

variable (delta : UINT8QuantizedTensorPacket)

/-- `discard_bits`. -/
def discardBits : ℤ := delta.fullQuantizedBitWidth.toInt - 8

/-- `delta_scale`, multiplied by the factor if bits are discarded. -/
def graphScale : ℚ :=
  if 0 < delta.discardBits then delta.scale * 2 ^ delta.discardBits.toNat else delta.scale

/-- `delta_zero_point`, divided by the factor. -/
def graphZeroPoint : ℚ :=
  if 0 < delta.discardBits then delta.zeroPoint / 2 ^ delta.discardBits.toNat
  else delta.zeroPoint

end UINT8QuantizedTensorPacket

/-- The values of the initializers that `reconstructModelUInt8WithDelta` adds for a tensor, by
what it appends to the name. -/
def initializerValues (base delta : UINT8QuantizedTensorPacket) : List (Text × List ℚ) :=
  [(ascii "_base", byteValues base.data),
    (ascii "_delta", byteValues delta.data),
    (ascii "_base_scale", [base.scale]),
    (ascii "_base_zero_point", [0]),
    (ascii "_delta_scale", [delta.graphScale]),
    (ascii "_delta_zero_point", [0]),
    (ascii "_base_offset", [-base.zeroPoint * base.scale]),
    (ascii "_delta_offset", [-delta.graphZeroPoint * delta.graphScale])]

/-! ### The operations of the graph -/

/-- The values that are defined, by name. -/
abbrev Values := Text → Option (List ℚ)

/-- `Add`, of two vectors of one size or of a vector and one number. -/
def addValues (a b : List ℚ) : Option (List ℚ) :=
  match b with
  | [c] => some (a.map (· + c))
  | b => if a.length = b.length then some (List.zipWith (· + ·) a b) else none

/-- `DequantizeLinear` with one scale and one zero point. -/
def dequantizeValues (x scale zeroPoint : List ℚ) : Option (List ℚ) :=
  match scale, zeroPoint with
  | [s], [z] => some (x.map fun v => (v - z) * s)
  | _, _ => none

/-- What a node computes. -/
def NodeProto.eval (n : NodeProto) (values : Values) : Option (List ℚ) :=
  match n.opType, n.input with
  | .dequantizeLinear, [x, scale, zeroPoint] => do
    dequantizeValues (← values x) (← values scale) (← values zeroPoint)
  | .add, [a, b] => do addValues (← values a) (← values b)
  | _, _ => none

/-- The nodes in their order; each defines its outputs. -/
def evalNodes (nodes : List NodeProto) (values : Values) : Values :=
  nodes.foldl
    (fun values n => n.output.foldl (fun vs y => update vs y (n.eval values)) values)
    values

/-- What the graph computes for a tensor under each name. -/
def tensorValues (name : Text) (base delta : UINT8QuantizedTensorPacket) : Values :=
  evalNodes (nodesUInt8WithDelta name) fun x =>
    ((initializerValues base delta).map fun p => (name ++ p.1, p.2)).lookup x

/-! ### The delta of the graph -/

section Names

variable {name s t : Text}

theorem lookup_append (l : List (Text × List ℚ)) :
    (l.map fun p => (name ++ p.1, p.2)).lookup (name ++ s) = l.lookup s := by
  induction l with
  | nil => rfl
  | cons p l ih =>
    have heq : (name ++ s == name ++ p.1) = (s == p.1) := by
      rw [Bool.eq_iff_iff, beq_iff_eq, beq_iff_eq, append_cancel_left_eq]
    rw [map_cons, lookup_cons, lookup_cons, heq, ih]

theorem update_append (values : Values) (v : Option (List ℚ)) (h : t ≠ s) :
    update values (name ++ s) v (name ++ t) = values (name ++ t) :=
  update_of_ne (fun heq => h (append_cancel_left heq)) v values

theorem update_name (values : Values) (v : Option (List ℚ)) (h : t ≠ []) :
    update values name v (name ++ t) = values (name ++ t) :=
  update_of_ne (fun heq => h (append_right_eq_self.mp heq)) v values

end Names

/-- **The delta of the graph**: the scaled codes, and the offset. -/
theorem eval_delta (name : Text) (base delta : UINT8QuantizedTensorPacket) :
    tensorValues name base delta (name ++ ascii "_delta_dequant_offset") =
      some ((byteValues delta.data).map fun v =>
        (v - 0) * delta.graphScale + -delta.graphZeroPoint * delta.graphScale) := by
  -- the initializers the two nodes of the delta read
  have hdata : (initializerValues base delta).lookup (ascii "_delta") =
      some (byteValues delta.data) := rfl
  have hscale : (initializerValues base delta).lookup (ascii "_delta_scale") =
      some [delta.graphScale] := rfl
  have hzero : (initializerValues base delta).lookup (ascii "_delta_zero_point") = some [0] := rfl
  have hoffset : (initializerValues base delta).lookup (ascii "_delta_offset") =
      some [-delta.graphZeroPoint * delta.graphScale] := rfl
  simp only [tensorValues, evalNodes, nodesUInt8WithDelta, foldl_cons, foldl_nil,
    addNode, dequantizeNode]
  -- the nodes of the base define other names
  rw [update_name _ _ (by decide), update_self]
  simp only [NodeProto.eval]
  rw [update_append _ _ (by decide), update_self, update_append _ _ (by decide),
    update_append _ _ (by decide), update_append _ _ (by decide), update_append _ _ (by decide),
    update_append _ _ (by decide), update_append _ _ (by decide), lookup_append, lookup_append,
    lookup_append, lookup_append, hdata, hscale, hzero, hoffset]
  simp only [Option.bind_eq_bind, Option.bind_some, dequantizeValues, addValues, map_map]
  rfl

/-! ### One element -/

/-- What the graph computes for a code. -/
def graphValue (packet : DeltaQuantPacket ℚ) (codes : List ℕ) (code : ℕ) : ℚ :=
  (((truncateCode packet.quantizedBitWidth code).val : ℚ) - 0) * (packet.cut codes).graphScale +
    -(packet.cut codes).graphZeroPoint * (packet.cut codes).graphScale

section Element

variable {packet : DeltaQuantPacket ℚ} (codes : List ℕ) {code n : ℕ}

section

variable (hn : packet.quantizedBitWidth.toInt = n)

include hn

theorem discardBits_cut : (packet.cut codes).discardBits = (n : ℤ) - 8 :=
  congrArg (· - 8) hn

theorem graphValue_of_le (hle : n ≤ 8) (hcode : code < 2 ^ n) :
    graphValue packet codes code = dequantizeValue packet.scale packet.zeroPoint code := by
  have hlt : code < 256 :=
    hcode.trans_le (show 2 ^ n ≤ 2 ^ 8 from Nat.pow_le_pow_right Nat.two_pos hle)
  have hcut : (truncateCode packet.quantizedBitWidth code).val = code := by
    rw [truncateCode, if_pos (by omega), Fin.val_ofNat, Nat.mod_eq_of_lt hlt]
  have hdiscard : ¬0 < (packet.cut codes).discardBits := by
    rw [discardBits_cut codes hn]
    omega
  have hscale : (packet.cut codes).graphScale = packet.scale := if_neg hdiscard
  have hzero : (packet.cut codes).graphZeroPoint = packet.zeroPoint := if_neg hdiscard
  rw [graphValue, hcut, hscale, hzero, dequantizeValue]
  ring

theorem graphValue_of_lt (hlt : 8 < n) (hcode : code < 2 ^ n) :
    dequantizeValue packet.scale packet.zeroPoint code - graphValue packet codes code =
      packet.scale * ((code % 2 ^ (n - 8) : ℕ) : ℚ) := by
  have hpow : 2 ^ n = 2 ^ 8 * 2 ^ (n - 8) := by
    rw [← Nat.pow_add, Nat.add_sub_cancel' hlt.le]
  have hdiv : code / 2 ^ (n - 8) < 256 := by
    rw [Nat.div_lt_iff_lt_mul (Nat.two_pow_pos _)]
    exact hcode.trans_eq hpow
  have hbits : (packet.quantizedBitWidth.toInt - 8).toNat = n - 8 := by omega
  have hcut : (truncateCode packet.quantizedBitWidth code).val = code / 2 ^ (n - 8) := by
    rw [truncateCode, if_neg (by omega), hbits, Fin.val_ofNat, Nat.mod_eq_of_lt hdiv]
  have hdiscard : 0 < (packet.cut codes).discardBits := by
    rw [discardBits_cut codes hn]
    omega
  have hscale : (packet.cut codes).graphScale = packet.scale * 2 ^ (n - 8) := by
    rw [← hbits]
    exact if_pos hdiscard
  have hzero : (packet.cut codes).graphZeroPoint = packet.zeroPoint / 2 ^ (n - 8) := by
    rw [← hbits]
    exact if_pos hdiscard
  -- the factor of the zero point and that of the scale cancel
  have hoffset : -(packet.zeroPoint / 2 ^ (n - 8)) * (packet.scale * 2 ^ (n - 8)) =
      -packet.zeroPoint * packet.scale := by
    field_simp
  have hsplit : (code : ℚ) =
      2 ^ (n - 8) * ((code / 2 ^ (n - 8) : ℕ) : ℚ) + ((code % 2 ^ (n - 8) : ℕ) : ℚ) := by
    have hnat := (Nat.div_add_mod code (2 ^ (n - 8))).symm
    exact_mod_cast hnat
  rw [graphValue, hcut, hscale, hzero, hoffset, dequantizeValue]
  linear_combination packet.scale * hsplit

end

end Element

/-! ### The packet -/

theorem readField_lt (buf : List Byte) (off nbits : ℕ) : readField buf off nbits < 2 ^ nbits := by
  refine Nat.lt_pow_two_of_testBit _ fun b hb => ?_
  rw [testBit_readField, decide_eq_false (not_lt.mpr hb), Bool.false_and]

theorem of_readBitsNaive {data : List Byte} {nbits : CInt} {nelements : ℕ} {codes : List ℕ}
    (h : readBitsNaive data nbits nelements = some codes) :
    nbits.toInt = nbits.toNat ∧ ∀ q ∈ codes, q < 2 ^ nbits.toNat := by
  unfold readBitsNaive at h
  split_ifs at h with hnbits hlen
  cases h
  refine ⟨?_, fun q hq => ?_⟩
  · rw [BitVec.toInt_eq_toNat_cond] at hnbits ⊢
    split_ifs at hnbits ⊢ <;> omega
  · obtain ⟨i, -, rfl⟩ := mem_map.mp hq
    exact readField_lt _ _ _

/-- **The load with cut deltas stays close to the full load**: for every packet whose codes can
be read, the delta of the graph is that of the full load up to eight bits, and above them at most
it and less than `2 ^ (n - 8)` steps below. -/
theorem truncated_delta_close (name : Text) (base : UINT8QuantizedTensorPacket)
    (packet : DeltaQuantPacket ℚ) (codes : List ℕ)
    (hread : readBitsNaive packet.serializedData packet.quantizedBitWidth packet.nelements =
      some codes)
    (hscale : 0 < packet.scale) :
    ∃ delta, packet.toUINT8QuantizedTensorPacket = some delta ∧
      ∃ graph, tensorValues name base delta (name ++ ascii "_delta_dequant_offset") =
          some graph ∧
        packet.toTensor64 =
          some (codes.map fun q : ℕ => ((q : ℚ) - packet.zeroPoint) * packet.scale) ∧
        graph.length = codes.length ∧
        ∀ (i q : ℕ) (d : ℚ), codes[i]? = some q → graph[i]? = some d →
          (packet.quantizedBitWidth.toNat ≤ 8 → d = packet.scale * (q - packet.zeroPoint)) ∧
          (8 < packet.quantizedBitWidth.toNat →
            d ≤ packet.scale * (q - packet.zeroPoint) ∧
            packet.scale * (q - packet.zeroPoint) - d <
              packet.scale * 2 ^ (packet.quantizedBitWidth.toNat - 8)) := by
  obtain ⟨hn, hcodes⟩ := of_readBitsNaive hread
  have hcut : packet.toUINT8QuantizedTensorPacket = some (packet.cut codes) := by
    rw [DeltaQuantPacket.toUINT8QuantizedTensorPacket, hread, Option.map_some]
  have hfull : packet.toTensor64 =
      some (codes.map fun q : ℕ => ((q : ℚ) - packet.zeroPoint) * packet.scale) := by
    rw [DeltaQuantPacket.toTensor64, hread]
    rfl
  have hgraph := eval_delta name base (packet.cut codes)
  refine ⟨packet.cut codes, hcut, _, hgraph, hfull, ?_, fun i q d hq hd => ?_⟩
  · rw [List.length_map, byteValues, List.length_map, DeltaQuantPacket.cut, List.length_map]
  have hvalue : d = graphValue packet codes q := by
    rw [byteValues, DeltaQuantPacket.cut, List.map_map, List.map_map, List.getElem?_map, hq] at hd
    exact (Option.some.inj hd).symm
  have hlt := hcodes q (List.mem_of_getElem? hq)
  have hdeq : packet.scale * (q - packet.zeroPoint) =
      dequantizeValue packet.scale packet.zeroPoint q := mul_comm _ _
  rw [hdeq, hvalue]
  refine ⟨fun hle => graphValue_of_le codes hn hle hlt, fun hgt => ?_⟩
  have hrest := graphValue_of_lt codes hn hgt hlt
  have hmod : ((q % 2 ^ (packet.quantizedBitWidth.toNat - 8) : ℕ) : ℚ) <
      2 ^ (packet.quantizedBitWidth.toNat - 8) := by
    exact_mod_cast Nat.mod_lt q (Nat.two_pow_pos _)
  constructor
  · have hnonneg : 0 ≤ packet.scale *
        ((q % 2 ^ (packet.quantizedBitWidth.toNat - 8) : ℕ) : ℚ) :=
      mul_nonneg hscale.le (Nat.cast_nonneg _)
    linarith
  · rw [hrest]
    exact mul_lt_mul_of_pos_left hmod hscale

/-- Two codes of ten bits, with the steps of size 1. -/
def tenBitPacket : DeltaQuantPacket ℚ where
  scale := 1
  zeroPoint := 0
  originalBitWidth := 32
  quantizedBitWidth := 10
  baseTensorId := 0
  indexId := 0
  nbytes := 3
  nelements := 2
  shape := [2]
  serializedData := leBytes 3 (1023 + 5 * 2 ^ 10)

/-- The largest code of ten bits, cut to eight, is less than four steps off. -/
theorem ten_bits_close :
    ∃ delta, tenBitPacket.toUINT8QuantizedTensorPacket = some delta ∧
      ∃ graph, tensorValues [] delta delta (ascii "_delta_dequant_offset") = some graph ∧
        ∀ d : ℚ, graph[0]? = some d → d ≤ 1023 ∧ 1023 - d < 4 := by
  have hread : readBitsNaive tenBitPacket.serializedData tenBitPacket.quantizedBitWidth
      tenBitPacket.nelements = some [1023, 5] := by decide +kernel
  obtain ⟨delta, hdelta, graph, hgraph, -, -, hclose⟩ :=
    truncated_delta_close [] (tenBitPacket.cut [1023, 5]) tenBitPacket [1023, 5] hread one_pos
  obtain rfl : tenBitPacket.cut [1023, 5] = delta := by
    rw [DeltaQuantPacket.toUINT8QuantizedTensorPacket, hread] at hdelta
    exact Option.some.inj hdelta
  refine ⟨_, hdelta, graph, hgraph, fun d hd => ?_⟩
  obtain ⟨hle, hlt⟩ := (hclose 0 1023 d rfl hd).2 (by decide)
  have hwidth : tenBitPacket.quantizedBitWidth.toNat - 8 = 2 := rfl
  rw [hwidth] at hlt
  norm_num [tenBitPacket] at hle hlt
  exact ⟨hle, hlt⟩

end NeurDB.NeurStore
