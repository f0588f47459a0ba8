import NeurDB.NeurStore.BitUtil

/-!
# Delta quantization

`DeltaQuantCompress` stores a tensor as its difference to a base tensor, quantized to codes of
`n` bits on a uniform grid over the range of the difference. The width `n` is chosen from the
range and the tolerance, and what is decompressed is meant to stay within the tolerance of the
tensor.

The arithmetic is taken exactly, over `ℚ`; integers are those of the machine. `none` stands for
an exception, for a write out of bounds and for a scale that is not finite.

For `r = range / (2 * tolerance)` the width is `⌈log₂ r⌉`, but a grid of `n` bits has
`2 ^ n - 1` steps, not `2 ^ n`. Whenever `r` lies between the two, an element half way between
two grid points is off by more than the tolerance. `DeltaFits` says of one difference what it
takes: every element has a grid point within the tolerance, the number of codes can be computed
and the codes can be packed, or the difference is constant, or it counts as zero and is small
enough for that. `tolerance_kept_iff` says that nothing else matters.
-/

namespace NeurDB.NeurStore

open List
open Option (bind_eq_bind bind_eq_some_iff bind_some map_eq_some_iff some)

/-! ### The code -/

/-- Eigen's `round`: half way cases go away from zero. -/
def roundAway (x : ℚ) : ℤ := if 0 ≤ x then ⌊x + 1 / 2⌋ else -⌊-x + 1 / 2⌋

/-- Eigen's `isZero`: every coefficient is at most the default precision of `double`. -/
def isZero (tensor : List ℚ) : Prop := ∀ x ∈ tensor, |x| ≤ 1 / 10 ^ 12

instance (tensor : List ℚ) : Decidable (isZero tensor) :=
  inferInstanceAs (Decidable (∀ x ∈ tensor, |x| ≤ 1 / 10 ^ 12))

/-- What the quantization hands back in its reference parameters. -/
structure Quantized where
  codes : List ℕ
  scale : ℚ
  zeroPoint : ℚ

/-- `int qmax = (1 << bit_width) - 1`; the shift takes its count modulo 32. -/
def qmax (bitWidth : CInt) : CInt := (1#32 <<< (bitWidth.toNat % 32)) - 1#32

/-- The code of one value, `round(x / scale + zero_point)` clamped to `[0, qmax]`. -/
def quantizeValue (q : ℤ) (scale zeroPoint x : ℚ) : ℕ :=
  (min (max (roundAway (x / scale + zeroPoint)) 0) q).toNat

/-- `LinearQuantization::linearAsymmetricQuantizeNaive`. A tensor that counts as zero leaves
`zero_point` as the caller's variable was, `unset`. -/
def linearAsymmetricQuantizeNaive (tensor : List ℚ) (bitWidth : CInt) (minVal range unset : ℚ) :
    Option Quantized :=
  if isZero tensor then some ⟨replicate tensor.length 0, 0, unset⟩
  else if (qmax bitWidth).toInt = 0 then none
  else
    let scale := range / (qmax bitWidth).toInt
    let zeroPoint := -minVal / scale
    some ⟨tensor.map (quantizeValue (qmax bitWidth).toInt scale zeroPoint), scale, zeroPoint⟩

/-- `LinearQuantization::linearAsymmetricQuantize`. -/
def linearAsymmetricQuantize (tensor : List ℚ) (bitWidth : CInt) (minVal range unset : ℚ) :
    Option Quantized :=
  if range = 0 then some ⟨replicate tensor.length 0, 1, -minVal⟩
  else linearAsymmetricQuantizeNaive tensor bitWidth minVal range unset

/-- One code back as a value. -/
def dequantizeValue (scale zeroPoint : ℚ) (code : ℕ) : ℚ := (code - zeroPoint) * scale

/-- The fields of a `DeltaQuantPacket`, over a type of floating-point numbers. -/
structure DeltaQuantPacket (F : Type) where
  scale : F
  zeroPoint : F
  originalBitWidth : CInt
  quantizedBitWidth : CInt
  baseTensorId : BitVec 64
  indexId : BitVec 64
  nbytes : ℕ
  nelements : ℕ
  shape : List CInt
  serializedData : List Byte
  deriving DecidableEq

/-- The constructor of `DeltaQuantPacket`, which packs the codes. -/
def DeltaQuantPacket.new {F : Type} (codes : List ℕ) (scale zeroPoint : F)
    (originalBitWidth quantizedBitWidth : CInt) (shape : List CInt) :
    Option (DeltaQuantPacket F) :=
  (writeBitsNaive codes quantizedBitWidth).map fun data =>
    { scale, zeroPoint, originalBitWidth, quantizedBitWidth
      baseTensorId := -1
      indexId := -1
      nbytes := packedBytes codes.length quantizedBitWidth.toNat
      nelements := codes.length
      shape
      serializedData := data }

/-- `DeltaQuantPacket::toTensor64`. -/
def DeltaQuantPacket.toTensor64 (packet : DeltaQuantPacket ℚ) : Option (List ℚ) :=
  (readBitsNaive packet.serializedData packet.quantizedBitWidth packet.nelements).map
    (map (dequantizeValue packet.scale packet.zeroPoint))

structure DeltaQuantCompress where
  tolerance : ℚ
  dynamic : Bool
  defaultQuantizedBitWidth : CInt

/-- The compressor as it is constructed from a tolerance alone. -/
def DeltaQuantCompress.ofTolerance (tolerance : ℚ) : DeltaQuantCompress :=
  { tolerance, dynamic := true, defaultQuantizedBitWidth := -1 }

/-- The difference that is stored. -/
def delta (base tensor : List ℚ) : List ℚ := zipWith (· - ·) tensor base

/-- `DeltaQuantCompress::compress`; `maxCoeff` and `minCoeff` of an empty vector are stopped by
an assertion. -/
def DeltaQuantCompress.compress (c : DeltaQuantCompress) (unset : ℚ) (base tensor : List ℚ)
    (shape : List CInt) : Option (DeltaQuantPacket ℚ) := do
  let deltaMax ← (delta base tensor).max?
  let deltaMin ← (delta base tensor).min?
  let range := deltaMax - deltaMin
  let quantizedBitWidth :=
    if c.dynamic then computeBitWidth range c.tolerance else c.defaultQuantizedBitWidth
  let quantized ←
    linearAsymmetricQuantize (delta base tensor) quantizedBitWidth deltaMin range unset
  DeltaQuantPacket.new quantized.codes quantized.scale quantized.zeroPoint 32 quantizedBitWidth
    shape

/-- `DeltaQuantCompress::decompress`. -/
def DeltaQuantCompress.decompress (base : List ℚ) (packet : DeltaQuantPacket ℚ) :
    Option (List ℚ) :=
  packet.toTensor64.map (zipWith (· + ·) base)

/-! ### The width -/

theorem computeBitWidth_bounds (range tolerance : ℚ) :
    1 ≤ (computeBitWidth range tolerance).toNat ∧ (computeBitWidth range tolerance).toNat ≤ 32 := by
  unfold computeBitWidth
  split_ifs with h
  · decide
  · generalize Int.clog 2 (range / (tolerance * 2)) = c
    rw [BitVec.toNat_ofInt]
    omega

variable {width : CInt}

theorem width_accepted (h : width.toNat ≤ 32) : ¬(width.toInt < 0 ∨ 32 < width.toInt) := by
  rw [BitVec.toInt_eq_toNat_of_lt (by omega)]
  omega

theorem toInt_qmax (h : width.toNat ≤ 31) : (qmax width).toInt = 2 ^ width.toNat - 1 := by
  unfold qmax
  generalize width.toNat = n at h
  interval_cases n <;> rfl

theorem toInt_qmax_pos (hwidth : width.toNat ≤ 31) (hpos : 1 ≤ width.toNat) :
    0 < (qmax width).toInt := by
  have hpow : (2 : ℤ) ^ 1 ≤ 2 ^ width.toNat := pow_le_pow_right₀ (by norm_num) hpos
  rw [toInt_qmax hwidth]
  omega

/-- Width 32 shifts by nothing at all. -/
theorem toInt_qmax_of_eq (h : width.toNat = 32) : (qmax width).toInt = 0 := by
  unfold qmax
  rw [h]
  rfl

/-! ### The error of one value -/

section Value

variable {lo range x : ℚ} {q : ℤ}

theorem roundAway_of_nonneg (hx : 0 ≤ x) : roundAway x = round x := by
  rw [roundAway, if_pos hx, round_eq]

/-- The position of a value on the grid of `q` steps over `[lo, lo + range]`. -/
def gridPos (lo range : ℚ) (q : ℤ) (x : ℚ) : ℚ := (x - lo) / (range / q)

theorem gridPos_eq (x : ℚ) : x / (range / q) + -lo / (range / q) = gridPos lo range q x := by
  rw [gridPos, neg_div, ← sub_eq_add_neg, sub_div]

section

variable (hrange : 0 < range) (hq : 0 < q) (hlo : lo ≤ x) (hhi : x ≤ lo + range)

include hrange hq hlo hhi

theorem gridPos_mem : 0 ≤ gridPos lo range q x ∧ gridPos lo range q x ≤ q := by
  have hq' : (0 : ℚ) < q := by exact_mod_cast hq
  have hstep : 0 < range / q := div_pos hrange hq'
  constructor
  · exact div_nonneg (by linarith) hstep.le
  · rw [gridPos, div_le_iff₀ hstep, mul_div_cancel₀ _ hq'.ne']
    linarith

theorem quantizeValue_eq :
    (quantizeValue q (range / q) (-lo / (range / q)) x : ℤ) = round (gridPos lo range q x) := by
  obtain ⟨hnonneg, hle⟩ := gridPos_mem hrange hq hlo hhi
  have hround : 0 ≤ round (gridPos lo range q x) := by
    rw [round_eq, Int.le_floor]
    push_cast
    linarith
  have hround' : round (gridPos lo range q x) ≤ q := by
    rw [round_eq, ← Int.lt_add_one_iff, Int.floor_lt]
    push_cast
    linarith
  rw [quantizeValue, gridPos_eq, roundAway_of_nonneg hnonneg, max_eq_left hround,
    min_eq_left hround', Int.toNat_of_nonneg hround]

/-- A value is off by the distance of its position to the next grid point. -/
theorem dequantizeValue_sub :
    dequantizeValue (range / q) (-lo / (range / q))
        (quantizeValue q (range / q) (-lo / (range / q)) x) - x =
      (round (gridPos lo range q x) - gridPos lo range q x) * (range / q) := by
  have hq' : (q : ℚ) ≠ 0 := by exact_mod_cast hq.ne'
  have hcode : ((quantizeValue q (range / q) (-lo / (range / q)) x : ℕ) : ℚ) =
      (round (gridPos lo range q x) : ℤ) := by
    rw [← quantizeValue_eq hrange hq hlo hhi]
    rfl
  rw [dequantizeValue, hcode, gridPos]
  field_simp
  ring

/-- The nearest grid point is near enough exactly if some grid point is. -/
theorem error_le_iff {tolerance : ℚ} :
    |dequantizeValue (range / q) (-lo / (range / q))
        (quantizeValue q (range / q) (-lo / (range / q)) x) - x| ≤ tolerance ↔
      ∃ k : ℤ, |x - (lo + k * (range / q))| ≤ tolerance := by
  have hstep : 0 < range / q := div_pos hrange (by exact_mod_cast hq)
  have hdist : ∀ k : ℤ,
      |x - (lo + k * (range / q))| = |gridPos lo range q x - k| * (range / q) := by
    intro k
    have hx : gridPos lo range q x * (range / q) = x - lo := div_mul_cancel₀ _ hstep.ne'
    rw [← abs_of_pos hstep, ← abs_mul, abs_of_pos hstep, sub_mul, hx]
    ring_nf
  have hround : |dequantizeValue (range / q) (-lo / (range / q))
      (quantizeValue q (range / q) (-lo / (range / q)) x) - x| =
        |gridPos lo range q x - round (gridPos lo range q x)| * (range / q) := by
    rw [dequantizeValue_sub hrange hq hlo hhi, abs_mul, abs_of_pos hstep, abs_sub_comm]
  rw [hround]
  constructor
  · intro h
    exact ⟨round (gridPos lo range q x), (hdist _).trans_le h⟩
  · rintro ⟨k, hk⟩
    rw [hdist] at hk
    exact (mul_le_mul_of_nonneg_right (round_le _ k) hstep.le).trans hk

end

theorem quantizeValue_lt {n : ℕ} (hq : q = 2 ^ n - 1) (scale zeroPoint x : ℚ) :
    quantizeValue q scale zeroPoint x < 2 ^ n := by
  have hpow : ((2 ^ n : ℕ) : ℤ) = 2 ^ n := by push_cast; rfl
  have hpos : 0 < 2 ^ n := Nat.two_pow_pos n
  rw [quantizeValue]
  omega

end Value

/-! ### From tensors to differences -/

/-- Every element of the one list is within the tolerance of that of the other. -/
def Within (tolerance : ℚ) (l l' : List ℚ) : Prop :=
  Forall₂ (fun x y => |x - y| ≤ tolerance) l l'

/-- The largest difference of two elements. -/
def range? (d : List ℚ) : Option ℚ := do
  let hi ← d.max?
  let lo ← d.min?
  some (hi - lo)

/-- What is compressed against a base decompresses to within the tolerance, whatever the
uninitialised variable and the shape are. -/
def Kept (tolerance : ℚ) (base tensor : List ℚ) : Prop :=
  ∀ unset shape, ∃ packet result,
    (DeltaQuantCompress.ofTolerance tolerance).compress unset base tensor shape = some packet ∧
      DeltaQuantCompress.decompress base packet = some result ∧ Within tolerance result tensor

/-- The codes survive the packing, and their values are within the tolerance of `d`. -/
def CodesKept (tolerance : ℚ) (width : CInt) (d : List ℚ) (quantized : Quantized) : Prop :=
  ∃ packed codes, writeBitsNaive quantized.codes width = some packed ∧
    readBitsNaive packed width quantized.codes.length = some codes ∧
    Within tolerance (codes.map (dequantizeValue quantized.scale quantized.zeroPoint)) d

/-- A difference with lower end `lo` is quantized, and its codes are kept. -/
def DifferenceKept (tolerance lo range unset : ℚ) (d : List ℚ) : Prop :=
  ∃ quantized,
    linearAsymmetricQuantize d (computeBitWidth range tolerance) lo range unset =
        some quantized ∧
      CodesKept tolerance (computeBitWidth range tolerance) d quantized

variable {base d tensor : List ℚ} {range tolerance : ℚ} {quantized : Quantized}

theorem length_delta (h : base.length = tensor.length) :
    (delta base tensor).length = tensor.length := by
  rw [delta, length_zipWith, h, min_self]

theorem within_zipWith_add (hbase : base.length = tensor.length) (hd : d.length = tensor.length) :
    Within tolerance (zipWith (· + ·) base d) tensor ↔
      Within tolerance d (delta base tensor) := by
  induction tensor generalizing base d with
  | nil =>
    obtain rfl := length_eq_zero_iff.mp hbase
    obtain rfl := length_eq_zero_iff.mp hd
    simp [Within, delta]
  | cons x tensor ih =>
    cases base with
    | nil => cases hbase
    | cons b base =>
      cases d with
      | nil => cases hd
      | cons y d =>
        have hsub : b + y - x = y - (x - b) := by ring
        have htail := ih (Nat.succ.inj hbase) (Nat.succ.inj hd)
        simp only [Within, delta, zipWith_cons_cons, forall₂_cons, hsub] at htail ⊢
        rw [htail]

theorem length_readBitsNaive {packed : List Byte} {n : ℕ} {codes : List ℕ}
    (h : readBitsNaive packed width n = some codes) : codes.length = n := by
  unfold readBitsNaive at h
  split_ifs at h
  cases h
  simp

theorem length_codes {lo unset : ℚ}
    (h : linearAsymmetricQuantize d width lo range unset = some quantized) :
    quantized.codes.length = d.length := by
  unfold linearAsymmetricQuantize linearAsymmetricQuantizeNaive at h
  split_ifs at h <;> obtain rfl := some.inj h <;> simp

theorem kept_iff {lo : ℚ} (hlen : base.length = tensor.length)
    (hmax : (delta base tensor).max? = some (lo + range))
    (hmin : (delta base tensor).min? = some lo) :
    Kept tolerance base tensor ↔
      ∀ unset, DifferenceKept tolerance lo range unset (delta base tensor) := by
  have hcompress : ∀ unset shape,
      (DeltaQuantCompress.ofTolerance tolerance).compress unset base tensor shape =
        (linearAsymmetricQuantize (delta base tensor) (computeBitWidth range tolerance) lo range
          unset).bind fun quantized =>
            DeltaQuantPacket.new quantized.codes quantized.scale quantized.zeroPoint 32
              (computeBitWidth range tolerance) shape := by
    intro unset shape
    rw [DeltaQuantCompress.compress, hmax, hmin, bind_eq_bind, bind_some,
      bind_eq_bind, bind_some, add_sub_cancel_left]
    rfl
  constructor
  · intro h unset
    obtain ⟨packet, result, hpacket, hresult, hwithin⟩ := h unset []
    rw [hcompress] at hpacket
    obtain ⟨quantized, hq, hnew⟩ := bind_eq_some_iff.mp hpacket
    obtain ⟨packed, hwrite, rfl⟩ := map_eq_some_iff.mp hnew
    obtain ⟨values, hvalues, rfl⟩ := map_eq_some_iff.mp hresult
    obtain ⟨codes, hread, rfl⟩ := map_eq_some_iff.mp hvalues
    refine ⟨quantized, hq, packed, codes, hwrite, hread, ?_⟩
    refine (within_zipWith_add hlen ?_).mp hwithin
    rw [length_map, length_readBitsNaive hread]
    exact (length_codes hq).trans (length_delta hlen)
  · intro h unset shape
    obtain ⟨quantized, hq, packed, codes, hwrite, hread, hwithin⟩ := h unset
    obtain ⟨packet, hnew, hvalues⟩ : ∃ packet,
        DeltaQuantPacket.new quantized.codes quantized.scale quantized.zeroPoint 32
            (computeBitWidth range tolerance) shape = some packet ∧
          packet.toTensor64 =
            some (codes.map (dequantizeValue quantized.scale quantized.zeroPoint)) := by
      rw [DeltaQuantPacket.new, hwrite]
      refine ⟨_, rfl, ?_⟩
      rw [DeltaQuantPacket.toTensor64]
      rw [hread]
      rfl
    refine ⟨packet, _, ?_, ?_, (within_zipWith_add hlen ?_).mpr hwithin⟩
    · rw [hcompress, hq, bind_some, hnew]
    · rw [DeltaQuantCompress.decompress, hvalues]
      rfl
    · rw [length_map, length_readBitsNaive hread]
      exact (length_codes hq).trans (length_delta hlen)

/-! ### The codes of a difference -/

theorem within_map_iff {f : ℚ → ℚ} :
    Within tolerance (d.map f) d ↔ ∀ x ∈ d, |f x - x| ≤ tolerance := by
  rw [Within, forall₂_map_left_iff, forall₂_same]

theorem codesKept_iff (hread : ∃ packed, writeBitsNaive quantized.codes width = some packed ∧
      readBitsNaive packed width quantized.codes.length = some quantized.codes) :
    CodesKept tolerance width d quantized ↔
      Within tolerance
        (quantized.codes.map (dequantizeValue quantized.scale quantized.zeroPoint)) d := by
  obtain ⟨packed, hwrite, hread⟩ := hread
  constructor
  · rintro ⟨packed', codes, hwrite', hread', hwithin⟩
    obtain rfl : packed = packed' := some.inj (hwrite.symm.trans hwrite')
    obtain rfl : quantized.codes = codes := some.inj (hread.symm.trans hread')
    exact hwithin
  · exact fun hwithin => ⟨packed, quantized.codes, hwrite, hread, hwithin⟩

theorem codesKept_zeros {scale zeroPoint : ℚ} (hwidth : width.toNat ≤ 32) :
    CodesKept tolerance width d ⟨replicate d.length 0, scale, zeroPoint⟩ ↔
      ∀ x ∈ d, |-zeroPoint * scale - x| ≤ tolerance := by
  have hread := writeBitsNaive_zeros (width_accepted hwidth) d.length
  have hmap : (replicate d.length 0).map (dequantizeValue scale zeroPoint) =
      d.map fun _ => -zeroPoint * scale := by
    rw [map_replicate, map_const', dequantizeValue, Nat.cast_zero, zero_sub]
  rw [codesKept_iff (by simpa using hread)]
  rw [hmap, within_map_iff]

section Difference

variable {d : List ℚ} {lo range tolerance : ℚ}

/-- The quantization of a difference that neither is constant nor counts as zero. -/
def quantizedOn (width : CInt) (lo range : ℚ) (d : List ℚ) : Quantized :=
  let scale := range / (qmax width).toInt
  ⟨d.map (quantizeValue (qmax width).toInt scale (-lo / scale)), scale, -lo / scale⟩

theorem linearAsymmetricQuantize_eq (hrange : range ≠ 0) (hzero : ¬isZero d)
    (hwidth : width.toNat ≤ 31) (hpos : 1 ≤ width.toNat) (unset : ℚ) :
    linearAsymmetricQuantize d width lo range unset = some (quantizedOn width lo range d) := by
  rw [linearAsymmetricQuantize, if_neg hrange, linearAsymmetricQuantizeNaive, if_neg hzero,
    if_neg (toInt_qmax_pos hwidth hpos).ne']
  rfl

theorem linearAsymmetricQuantize_eq_none (hrange : range ≠ 0) (hzero : ¬isZero d)
    (hwidth : width.toNat = 32) (unset : ℚ) :
    linearAsymmetricQuantize d width lo range unset = none := by
  rw [linearAsymmetricQuantize, if_neg hrange, linearAsymmetricQuantizeNaive, if_neg hzero,
    if_pos (toInt_qmax_of_eq hwidth)]

/-- No set bit of the codes lies where the position of the writer has overflowed. -/
def PackedInRange (width : CInt) (codes : List ℕ) : Prop :=
  ∀ j, FieldBit width.toNat 0 codes j → j < 2 ^ 31

/-- Packed in range, the codes of a difference are as good as its grid. -/
theorem codesKept_quantizedOn (hmax : d.max? = some (lo + range)) (hmin : d.min? = some lo)
    (hrange : 0 < range) (hwidth : width.toNat ≤ 31) (hpos : 1 ≤ width.toNat)
    (hbits : PackedInRange width (quantizedOn width lo range d).codes) :
    CodesKept tolerance width d (quantizedOn width lo range d) ↔
      ∀ x ∈ d, ∃ k : ℤ, |x - (lo + k * (range / (2 ^ width.toNat - 1)))| ≤ tolerance := by
  have hread := exists_packed (width_accepted (show width.toNat ≤ 32 by omega))
    (show ∀ v ∈ (quantizedOn width lo range d).codes, v < 2 ^ width.toNat from ?_) hbits
  · rw [codesKept_iff hread, quantizedOn, map_map]
    refine within_map_iff.trans (forall₂_congr fun x hx => ?_)
    have hq : ((qmax width).toInt : ℚ) = 2 ^ width.toNat - 1 := by
      rw [toInt_qmax hwidth]
      push_cast
      rfl
    rw [← hq]
    exact error_le_iff hrange (toInt_qmax_pos hwidth hpos)
      ((min?_eq_some_iff.mp hmin).2 x hx) ((max?_eq_some_iff.mp hmax).2 x hx)
  · intro v hv
    obtain ⟨x, -, rfl⟩ := mem_map.mp hv
    exact quantizeValue_lt (toInt_qmax hwidth) _ _ _

/-- A set bit further on is written out of bounds, below position `2 ^ 32` at least. -/
theorem packedInRange_of_written {codes : List ℕ} {packed : List Byte}
    (hlen : codes.length * width.toNat ≤ 2 ^ 32) (h : writeBitsNaive codes width = some packed) :
    PackedInRange width codes := by
  intro j hj
  by_contra hge
  have hlt := lt_of_fieldBit hj
  have hmsb : (BitVec.ofNat 32 j).msb = true := by
    rw [BitVec.msb_eq_true_iff_two_mul_ge, BitVec.toNat_ofNat, Nat.mod_eq_of_lt (by omega)]
    omega
  rw [writeBitsNaive_overflow hj hmsb] at h
  cases h

end Difference

/-! ### The tolerance -/

/-- What it takes to keep a difference on the grid over `[lo, lo + range]`. -/
structure GridFits (tolerance lo range : ℚ) (d : List ℚ) : Prop where
  /-- The shift that computes the number of codes is in range. -/
  width_le : (computeBitWidth range tolerance).toNat ≤ 31
  /-- The position of the bit writer fits an `int`, wherever there is a bit to write. -/
  packed : PackedInRange (computeBitWidth range tolerance)
    (quantizedOn (computeBitWidth range tolerance) lo range d).codes
  /-- Every element has a grid point within the tolerance. -/
  near : ∀ x ∈ d, ∃ k : ℤ,
    |x - (lo + k * (range / (2 ^ (computeBitWidth range tolerance).toNat - 1)))| ≤ tolerance

/-- What it takes to keep a difference: it is constant, or it counts as zero and its elements are
within the tolerance of zero, or it is kept on the grid. -/
def DeltaFits (tolerance : ℚ) (d : List ℚ) : Prop :=
  ∃ lo range, d.max? = some (lo + range) ∧ d.min? = some lo ∧
    (range = 0 ∨ (isZero d ∧ ∀ x ∈ d, |x| ≤ tolerance) ∨
      (¬isZero d ∧ GridFits tolerance lo range d))

section Tolerance

variable {d : List ℚ} {lo range tolerance unset : ℚ}

theorem range_nonneg (hmax : d.max? = some (lo + range)) (hmin : d.min? = some lo) :
    0 ≤ range := by
  have hle := (min?_eq_some_iff.mp hmin).2 _ (max?_mem hmax)
  linarith

/-- A difference that counts as zero is dropped. -/
theorem differenceKept_zero_iff (hrange : range ≠ 0) (hzero : isZero d) :
    DifferenceKept tolerance lo range unset d ↔ ∀ x ∈ d, |x| ≤ tolerance := by
  have hquant : linearAsymmetricQuantize d (computeBitWidth range tolerance) lo range unset =
      some ⟨replicate d.length 0, 0, unset⟩ := by
    rw [linearAsymmetricQuantize, if_neg hrange, linearAsymmetricQuantizeNaive, if_pos hzero]
  have hcodes : CodesKept tolerance _ d ⟨replicate d.length 0, 0, unset⟩ ↔ _ :=
    codesKept_zeros (computeBitWidth_bounds range tolerance).2
  simp only [mul_zero, zero_sub, abs_neg] at hcodes
  rw [DifferenceKept, hquant]
  simpa using hcodes

section

variable (hmax : d.max? = some (lo + range)) (hmin : d.min? = some lo)

include hmax hmin

/-- All codes of a constant difference are zero, and stand for its one value. -/
theorem differenceKept_constant (htol : 0 ≤ tolerance) (hrange : range = 0) :
    DifferenceKept tolerance lo range unset d := by
  subst hrange
  refine ⟨_, if_pos rfl, (codesKept_zeros (computeBitWidth_bounds 0 tolerance).2).mpr ?_⟩
  intro x hx
  have hlo := (min?_eq_some_iff.mp hmin).2 x hx
  have hhi := (max?_eq_some_iff.mp hmax).2 x hx
  rw [show - -lo * 1 - x = 0 by linarith, abs_zero]
  exact htol

/-- The grid keeps what it can keep; for more than `2 ^ 27` elements a set bit may come back at
another place, and then this is not known. -/
theorem differenceKept_grid_iff (hrange : range ≠ 0) (hzero : ¬isZero d) :
    (GridFits tolerance lo range d → DifferenceKept tolerance lo range unset d) ∧
      (d.length ≤ 2 ^ 27 → DifferenceKept tolerance lo range unset d →
        GridFits tolerance lo range d) := by
  obtain ⟨hpos, hle⟩ := computeBitWidth_bounds range tolerance
  have hrange' : 0 < range := (range_nonneg hmax hmin).lt_of_ne' hrange
  constructor
  · rintro ⟨hwidth, hpacked, hnear⟩
    exact ⟨_, linearAsymmetricQuantize_eq hrange hzero hwidth hpos unset,
      (codesKept_quantizedOn hmax hmin hrange' hwidth hpos hpacked).mpr hnear⟩
  · rintro hlen ⟨quantized, hquant, hkept⟩
    have hwidth : (computeBitWidth range tolerance).toNat ≤ 31 := by
      by_contra hgt
      rw [linearAsymmetricQuantize_eq_none hrange hzero (by omega)] at hquant
      cases hquant
    rw [linearAsymmetricQuantize_eq hrange hzero hwidth hpos] at hquant
    obtain rfl := some.inj hquant
    obtain ⟨packed, codes, hwrite, hrest⟩ := id hkept
    have hpacked := packedInRange_of_written (by
      rw [quantizedOn, length_map]
      exact (Nat.mul_le_mul hlen hle).trans (by norm_num)) hwrite
    exact ⟨hwidth, hpacked,
      (codesKept_quantizedOn hmax hmin hrange' hwidth hpos hpacked).mp hkept⟩

end

end Tolerance

/-- **When the tolerance is kept.** Compressing a tensor against a base and decompressing it again
keeps every element within the tolerance exactly if the difference to the base fits. -/
theorem tolerance_kept_iff {base tensor : List ℚ} {tolerance : ℚ}
    (hlen : base.length = tensor.length) (hcount : tensor.length ≤ 2 ^ 27) (htol : 0 < tolerance) :
    Kept tolerance base tensor ↔ DeltaFits tolerance (delta base tensor) := by
  have hcount' : (delta base tensor).length ≤ 2 ^ 27 := (length_delta hlen).trans_le hcount
  constructor
  · intro hkept
    -- `maxCoeff` and `minCoeff` have returned
    obtain ⟨packet, -, hcompress, -⟩ := hkept 0 []
    obtain ⟨hi, hmax, hcompress⟩ := bind_eq_some_iff.mp hcompress
    obtain ⟨lo, hmin, -⟩ := bind_eq_some_iff.mp hcompress
    rw [show hi = lo + (hi - lo) by ring] at hmax
    have hd := (kept_iff hlen hmax hmin).mp hkept 0
    refine ⟨lo, hi - lo, hmax, hmin, ?_⟩
    by_cases hrange : hi - lo = 0
    · exact .inl hrange
    by_cases hzero : isZero (delta base tensor)
    · exact .inr (.inl ⟨hzero, (differenceKept_zero_iff hrange hzero).mp hd⟩)
    · exact .inr (.inr ⟨hzero, (differenceKept_grid_iff hmax hmin hrange hzero).2 hcount' hd⟩)
  · rintro ⟨lo, range, hmax, hmin, hfits⟩
    rw [kept_iff hlen hmax hmin]
    intro unset
    by_cases hrange : range = 0
    · exact differenceKept_constant hmax hmin htol.le hrange
    rcases hfits with hconst | ⟨hzero, hsmall⟩ | ⟨hzero, hgrid⟩
    · exact absurd hconst hrange
    · exact (differenceKept_zero_iff hrange hzero).mpr hsmall
    · exact (differenceKept_grid_iff hmax hmin hrange hzero).1 hgrid

/-- A difference of two elements lies on the two points of its grid, however small the tolerance
is. -/
theorem tolerance_kept_of_two_elements :
    Kept (1 / (2 * 10 ^ 12)) [0, 0] [5, 5 + 1 / 10 ^ 12] := by
  have hwidth : computeBitWidth (1 / 10 ^ 12) (1 / (2 * 10 ^ 12)) = 1 := by decide +kernel
  have hpacked : PackedInRange 1 (quantizedOn 1 5 (1 / 10 ^ 12) [5, 5 + 1 / 10 ^ 12]).codes :=
    fun j hj => (lt_of_fieldBit hj).trans (by decide)
  have hnear : ∀ x ∈ ([5, 5 + 1 / 10 ^ 12] : List ℚ), ∃ k : ℤ,
      |x - (5 + k * (1 / 10 ^ 12 / (2 ^ 1 - 1)))| ≤ 1 / (2 * 10 ^ 12) := by
    simp only [forall_mem_cons]
    exact ⟨⟨0, by norm_num⟩, ⟨1, by norm_num⟩, nofun⟩
  have hgrid : GridFits (1 / (2 * 10 ^ 12)) 5 (1 / 10 ^ 12) [5, 5 + 1 / 10 ^ 12] := by
    constructor <;> rw [hwidth]
    · decide
    · exact hpacked
    · exact hnear
  have hdelta : delta [0, 0] [5, 5 + 1 / 10 ^ 12] = [5, 5 + 1 / 10 ^ 12] := by decide +kernel
  refine (@tolerance_kept_iff [0, 0] [5, 5 + 1 / 10 ^ 12] _ rfl (by decide) (by norm_num)).mpr ?_
  rw [hdelta]
  refine ⟨5, 1 / 10 ^ 12, ?_, ?_, .inr (.inr ⟨?_, hgrid⟩)⟩ <;> decide +kernel

/-- A range of four tolerances gets one bit, that is one step of four tolerances, and an element
in the middle is off by two. -/
theorem tolerance_exceeded :
    range? (delta [0, 0, 0] [0, 4, 2]) = some 4 ∧ (4 : ℚ) ≤ 2 ^ 33 * 1 ∧
      ¬Kept 1 [0, 0, 0] [0, 4, 2] := by
  refine ⟨by decide +kernel, by norm_num, fun h => ?_⟩
  obtain ⟨packet, result, hpacket, hresult, hwithin⟩ := h 0 []
  have hrun : ((DeltaQuantCompress.ofTolerance 1).compress 0 [0, 0, 0] [0, 4, 2] []).bind
      (DeltaQuantCompress.decompress [0, 0, 0]) = some [0, 4, 4] := by
    decide +kernel
  rw [hpacket, bind_some, hresult] at hrun
  cases hrun
  norm_num [Within] at hwithin

end NeurDB.NeurStore
