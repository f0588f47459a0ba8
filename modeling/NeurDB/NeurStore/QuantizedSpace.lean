import NeurDB.NeurStore.SimilarityIndex

/-!
# Distances of quantized vectors

The index stores a vector as a header of two doubles, the scale and the zero point, and one byte
per element. `QuantizedL2Space` (`space_quantized.h`) gives the graph library the function that
measures the squared distance of two stored vectors. There are three of them: element by element
(`L2SqrQuantized`), sixteen elements a round in eight lanes (`L2SqrQuantizedSIMD16ExtAVX`), and
the second one followed by a loop over what is left (`L2SqrQuantizedSIMD16ExtResiduals`).

Numbers are exact here: the value of a finite double is a rational number, and the conversions
to `float` change nothing. The third function reads the header again for its loop, and takes
for the zero point the single byte at its address, which is the lowest byte of the double
(`code_buffer_eight`).
-/

namespace NeurDB.NeurStore

open Finset

/-! ### Doubles -/

namespace Double

def fractionBits (x : Double) : ℕ := x.toNat % 2 ^ 52

def exponentBits (x : Double) : ℕ := x.toNat / 2 ^ 52 % 2 ^ 11

/-- Neither an infinity nor `NaN`. -/
def IsFinite (x : Double) : Prop := x.exponentBits ≠ 2047

instance (x : Double) : Decidable x.IsFinite := inferInstanceAs (Decidable (_ ≠ _))

/-- The number a finite double stands for. -/
def value (x : Double) : ℚ :=
  let magnitude : ℚ :=
    if x.exponentBits = 0 then x.fractionBits / 2 ^ 1074
    else (2 ^ 52 + x.fractionBits) * 2 ^ x.exponentBits / 2 ^ 1075
  if x.msb then -magnitude else magnitude

end Double

/-! ### The distance functions -/

/-- Byte `i` behind a pointer, as a number. -/
def code (data : List Byte) (i : ℕ) : ℚ := ((data.getD i zeroByte).val : ℚ)

/-- `L2SqrQuantized`. -/
def l2SqrQuantized (pVect1 pVect2 : List Byte) (qty : ℕ) : ℚ :=
  let q1 := QuantizedTensor.ofBuffer pVect1
  let q2 := QuantizedTensor.ofBuffer pVect2
  (List.range qty).foldl
    (fun res i =>
      let v1 := q1.scale.value * (code q1.tensor i - q1.zeroPoint.value)
      let v2 := q2.scale.value * (code q2.tensor i - q2.zeroPoint.value)
      let diff := v1 - v2
      res + diff * diff)
    0

/-- The eight single-precision lanes of a `__m256`. -/
abbrev Lanes := Fin 8 → ℚ

/-- Eight codes from `i` on, less the zero point and scaled. -/
def dequantLanes (scale zp : ℚ) (data : List Byte) (i : ℕ) : Lanes :=
  fun k => scale * (code data (i + k) - zp)

/-- `sum = _mm256_add_ps(sum, _mm256_mul_ps(diff, diff))`. -/
def addSquares (sum deq1 deq2 : Lanes) : Lanes :=
  fun k =>
    let diff := deq1 k - deq2 k
    sum k + diff * diff

/-- `L2SqrQuantizedSIMD16ExtAVX`. The condition `i + 16 <= qty` holds in the first `qty / 16`
rounds. -/
def l2SqrQuantizedSIMD16ExtAVX (pVect1 pVect2 : List Byte) (qty : ℕ) : ℚ :=
  let q1 := QuantizedTensor.ofBuffer pVect1
  let q2 := QuantizedTensor.ofBuffer pVect2
  let deq1 := dequantLanes q1.scale.value q1.zeroPoint.value q1.tensor
  let deq2 := dequantLanes q2.scale.value q2.zeroPoint.value q2.tensor
  let tmp := (List.range (qty / 16)).foldl
    (fun sum round =>
      let i := 16 * round
      let sum := addSquares sum (deq1 i) (deq2 i)
      addSquares sum (deq1 (i + 8)) (deq2 (i + 8)))
    (fun _ => 0)
  tmp 0 + tmp 1 + tmp 2 + tmp 3 + tmp 4 + tmp 5 + tmp 6 + tmp 7

/-- `L2SqrQuantizedSIMD16ExtResiduals`. The scale is copied from the header, the zero point is
`*(base + sizeof(double))` for a pointer to bytes. -/
def l2SqrQuantizedSIMD16ExtResiduals (base1 base2 : List Byte) (qty : ℕ) : ℚ :=
  let qty16 := qty / 16 * 16
  let res := l2SqrQuantizedSIMD16ExtAVX base1 base2 qty16
  let data1 := (base1.drop 8).drop 8
  let data2 := (base2.drop 8).drop 8
  let scale1 := (QuantizedTensor.ofBuffer base1).scale.value
  let zp1 := code base1 8
  let scale2 := (QuantizedTensor.ofBuffer base2).scale.value
  let zp2 := code base2 8
  let resTail := (List.range (qty - qty16)).foldl
    (fun resTail i =>
      let deq1 := scale1 * (code data1 (qty16 + i) - zp1)
      let deq2 := scale2 * (code data2 (qty16 + i) - zp2)
      let diff := deq1 - deq2
      resTail + diff * diff)
    0
  res + resTail

/-- The function the constructor of `QuantizedL2Space` installs. The vector versions are there
only if the compiler has AVX. -/
def quantizedL2Space (useAvx : Bool) (dim : ℕ) : List Byte → List Byte → ℕ → ℚ :=
  if useAvx then
    if dim % 16 = 0 then l2SqrQuantizedSIMD16ExtAVX
    else if 16 < dim then l2SqrQuantizedSIMD16ExtResiduals
    else l2SqrQuantized
  else l2SqrQuantized

/-- `retrieve`: the vector of a stored buffer, `(q - zero_point) * scale` in each element. -/
def retrieve (rawData : List Byte) : List ℚ :=
  let q := QuantizedTensor.ofBuffer rawData
  q.tensor.map fun b => ((b.val : ℚ) - q.zeroPoint.value) * q.scale.value

/-! ### Stored vectors -/

/-- A vector that `addPointInternal` stores in an index of dimension `dim`, with a header of
numbers. -/
structure StoredVector (dim : ℕ) extends QuantizedTensor where
  length_tensor : tensor.length = dim
  finite_scale : scale.IsFinite
  finite_zeroPoint : zeroPoint.IsFinite

namespace StoredVector

variable {dim : ℕ}

/-- Element `i` of the vector, with zero point `z`. -/
def element (x : StoredVector dim) (z : ℚ) (i : ℕ) : ℚ := x.scale.value * (code x.tensor i - z)

/-- The byte at the address of the zero point: the lowest one of the double. -/
def zeroPointByte (x : StoredVector dim) : ℚ := ((x.zeroPoint.toNat % 256 : ℕ) : ℚ)

/-- The squared difference of two vectors in one element. -/
def sqDiff (x y : StoredVector dim) (i : ℕ) : ℚ :=
  (x.element x.zeroPoint.value i - y.element y.zeroPoint.value i) ^ 2

/-- The same with the bytes in place of the zero points. -/
def sqDiffByte (x y : StoredVector dim) (i : ℕ) : ℚ :=
  (x.element x.zeroPointByte i - y.element y.zeroPointByte i) ^ 2

/-- The difference of the scaled codes in one element, before the zero points are taken off. -/
def codeDiff (x y : StoredVector dim) (i : ℕ) : ℚ :=
  x.scale.value * code x.tensor i - y.scale.value * code y.tensor i

/-- What the zero points take off in every element. -/
def offset (x y : StoredVector dim) : ℚ :=
  x.scale.value * x.zeroPoint.value - y.scale.value * y.zeroPoint.value

/-- What the bytes take off. -/
def offsetByte (x y : StoredVector dim) : ℚ :=
  x.scale.value * x.zeroPointByte - y.scale.value * y.zeroPointByte

end StoredVector

/-! ### What the functions compute -/

open QuantizedTensor

theorem code_buffer_eight (q : QuantizedTensor) :
    code q.buffer 8 = ((q.zeroPoint.toNat % 256 : ℕ) : ℚ) := rfl

theorem drop_buffer (q : QuantizedTensor) : (q.buffer.drop 8).drop 8 = q.tensor := rfl

theorem foldl_range_add (f : ℕ → ℚ) (n : ℕ) :
    (List.range n).foldl (fun res i => res + f i) 0 = ∑ i ∈ range n, f i := by
  induction n with
  | zero => rfl
  | succ n ih =>
    rw [List.range_succ, List.foldl_append, ih, sum_range_succ]
    rfl

section Distances

variable {dim : ℕ} (x y : StoredVector dim)

theorem l2SqrQuantized_eq (qty : ℕ) :
    l2SqrQuantized x.buffer y.buffer qty = ∑ i ∈ range qty, x.sqDiff y i := by
  rw [l2SqrQuantized, ofBuffer_buffer, ofBuffer_buffer,
    foldl_range_add]
  exact sum_congr rfl fun i _ => (sq _).symm

theorem sum_addSquares (sum : Lanes) (i : ℕ) :
    ∑ k, addSquares sum (dequantLanes x.scale.value x.zeroPoint.value x.tensor i)
        (dequantLanes y.scale.value y.zeroPoint.value y.tensor i) k =
      ∑ k, sum k + ∑ k ∈ range 8, x.sqDiff y (i + k) := by
  rw [sum_range, ← sum_add_distrib]
  exact sum_congr rfl fun k _ => congrArg (sum k + ·) (sq _).symm

theorem l2SqrQuantizedSIMD16ExtAVX_eq (qty : ℕ) :
    l2SqrQuantizedSIMD16ExtAVX x.buffer y.buffer qty =
      ∑ i ∈ range (qty / 16 * 16), x.sqDiff y i := by
  rw [l2SqrQuantizedSIMD16ExtAVX, ofBuffer_buffer, ofBuffer_buffer]
  rw [← Fin.sum_univ_eight]
  -- a round adds two times eight elements to the total
  generalize qty / 16 = rounds
  induction rounds with
  | zero => exact sum_const_zero
  | succ rounds ih =>
    rw [List.range_succ, List.foldl_append, List.foldl_cons, List.foldl_nil, sum_addSquares,
      sum_addSquares, ih]
    have hsplit : (rounds + 1) * 16 = rounds * 16 + 8 + 8 := by omega
    rw [hsplit, sum_range_add, sum_range_add, Nat.mul_comm 16 rounds]

theorem l2SqrQuantizedSIMD16ExtResiduals_eq (qty : ℕ) :
    l2SqrQuantizedSIMD16ExtResiduals x.buffer y.buffer qty =
      ∑ i ∈ range (qty / 16 * 16), x.sqDiff y i +
        ∑ i ∈ range (qty % 16), x.sqDiffByte y (qty / 16 * 16 + i) := by
  have hleft : qty - qty / 16 * 16 = qty % 16 := by omega
  have hmain : qty / 16 * 16 / 16 = qty / 16 := by omega
  rw [l2SqrQuantizedSIMD16ExtResiduals]
  rw [l2SqrQuantizedSIMD16ExtAVX_eq, hmain, hleft, foldl_range_add,
    ofBuffer_buffer, ofBuffer_buffer, drop_buffer, drop_buffer,
    code_buffer_eight, code_buffer_eight]
  exact congrArg (_ + ·) (sum_congr rfl fun i _ => (sq _).symm)

/-! ### Agreement -/

open StoredVector

theorem sqDiff_eq (i : ℕ) : x.sqDiff y i = (x.codeDiff y i - x.offset y) ^ 2 := by
  rw [sqDiff, element, element, codeDiff,
    offset]
  ring

theorem sqDiffByte_eq (i : ℕ) : x.sqDiffByte y i = (x.codeDiff y i - x.offsetByte y) ^ 2 := by
  rw [sqDiffByte, element, element,
    codeDiff, offsetByte]
  ring

/-- Two offsets give the same sum of squares only if they are equal or lie symmetrically to
the mean. -/
theorem sum_sq_sub_eq_iff (f : ℕ → ℚ) (n : ℕ) (b c : ℚ) :
    ∑ i ∈ range n, (f i - b) ^ 2 = ∑ i ∈ range n, (f i - c) ^ 2 ↔
      c = b ∨ 2 * ∑ i ∈ range n, f i = n * (c + b) := by
  have hdiff : ∑ i ∈ range n, (f i - b) ^ 2 - ∑ i ∈ range n, (f i - c) ^ 2 =
      (c - b) * (2 * ∑ i ∈ range n, f i - n * (c + b)) := by
    calc ∑ i ∈ range n, (f i - b) ^ 2 - ∑ i ∈ range n, (f i - c) ^ 2
        = ∑ i ∈ range n, (c - b) * (2 * f i - (c + b)) := by
          rw [← sum_sub_distrib]
          exact sum_congr rfl fun i _ => by ring
      _ = (c - b) * (2 * ∑ i ∈ range n, f i - n * (c + b)) := by
          rw [← mul_sum, sum_sub_distrib, ← mul_sum, sum_const, card_range, nsmul_eq_mul]
  rw [← sub_eq_zero, hdiff, mul_eq_zero, sub_eq_zero, sub_eq_zero]

/-- The squared distance of two vectors. -/
def sqDistance (u v : List ℚ) : ℚ := (List.zipWith (fun a b => (a - b) ^ 2) u v).sum

theorem sum_zipWith_getD {α : Type} (f : α → α → ℚ) (d : α) {u v : List α} {n : ℕ}
    (hu : u.length = n) (hv : v.length = n) :
    (List.zipWith f u v).sum = ∑ i ∈ range n, f (u.getD i d) (v.getD i d) := by
  induction n generalizing u v with
  | zero =>
    rw [List.length_eq_zero_iff.mp hu]
    rfl
  | succ n ih =>
    obtain ⟨a, u, rfl⟩ := List.exists_cons_of_length_eq_add_one hu
    obtain ⟨b, v, rfl⟩ := List.exists_cons_of_length_eq_add_one hv
    rw [List.zipWith_cons_cons, List.sum_cons, ih (Nat.succ.inj hu) (Nat.succ.inj hv),
      sum_range_succ', add_comm]
    rfl

theorem sqDistance_retrieve :
    sqDistance (retrieve x.buffer) (retrieve y.buffer) = ∑ i ∈ range dim, x.sqDiff y i := by
  rw [sqDistance, retrieve, retrieve, ofBuffer_buffer,
    ofBuffer_buffer, List.zipWith_map,
    sum_zipWith_getD _ zeroByte x.length_tensor y.length_tensor]
  refine sum_congr rfl fun i _ => ?_
  rw [sqDiff, element, element,
    mul_comm x.scale.value, mul_comm y.scale.value]
  rfl

/-- **The distance functions agree** with the distance of the dequantized vectors, except that
the one for residuals needs the bytes it reads to take off as much as the zero points, or the
last elements to make up for it. -/
theorem quantized_distance_iff (useAvx : Bool) :
    (quantizedL2Space useAvx dim x.buffer y.buffer dim =
          ∑ i ∈ range dim, (x.scale.value * (code x.tensor i - x.zeroPoint.value) -
            y.scale.value * (code y.tensor i - y.zeroPoint.value)) ^ 2 ∧
        quantizedL2Space useAvx dim x.buffer y.buffer dim =
          sqDistance (retrieve x.buffer) (retrieve y.buffer)) ↔
      (useAvx = true → 16 < dim → dim % 16 ≠ 0 →
        x.offset y = x.offsetByte y ∨
          2 * ∑ i ∈ range (dim % 16), x.codeDiff y (dim / 16 * 16 + i) =
            (dim % 16 : ℕ) * (x.offset y + x.offsetByte y)) := by
  have hsum : ∑ i ∈ range dim, (x.scale.value * (code x.tensor i - x.zeroPoint.value) -
      y.scale.value * (code y.tensor i - y.zeroPoint.value)) ^ 2 =
        ∑ i ∈ range dim, x.sqDiff y i := rfl
  rw [sqDistance_retrieve, hsum, and_self]
  have hscalar := l2SqrQuantized_eq x y dim
  cases useAvx with
  | false => exact ⟨fun _ h => Bool.noConfusion h, fun _ => hscalar⟩
  | true =>
    rw [quantizedL2Space, if_pos rfl]
    by_cases hmod : dim % 16 = 0
    · have hwhole : dim / 16 * 16 = dim := by omega
      rw [if_pos hmod, l2SqrQuantizedSIMD16ExtAVX_eq, hwhole]
      exact ⟨fun _ _ _ h => absurd hmod h, fun _ => rfl⟩
    rw [if_neg hmod]
    by_cases hlarge : 16 < dim
    · -- the whole rounds are right, so the last elements decide
      have hsplit : ∑ i ∈ range dim, x.sqDiff y i =
          ∑ i ∈ range (dim / 16 * 16), x.sqDiff y i +
            ∑ i ∈ range (dim % 16), x.sqDiff y (dim / 16 * 16 + i) := by
        rw [← sum_range_add, Nat.div_add_mod']
      have htail := sum_sq_sub_eq_iff (fun i => x.codeDiff y (dim / 16 * 16 + i)) (dim % 16)
        (x.offsetByte y) (x.offset y)
      simp only [← sqDiff_eq, ← sqDiffByte_eq] at htail
      rw [if_pos hlarge, l2SqrQuantizedSIMD16ExtResiduals_eq, hsplit, add_right_inj, htail]
      exact ⟨fun h _ _ _ => h, fun h => h rfl hlarge hmod⟩
    · rw [if_neg hlarge]
      exact ⟨fun _ _ h => absurd h hlarge, fun _ => hscalar⟩

end Distances

/-- Seventeen zeros with scale 1, as codes 0 with zero point 0. -/
def plainZeros : StoredVector 17 where
  tensor := List.replicate 17 zeroByte
  scale := 0x3FF0000000000000#64
  zeroPoint := 0#64
  length_tensor := rfl
  finite_scale := by decide
  finite_zeroPoint := by decide

/-- Seventeen zeros with scale 1, as codes 1 with zero point 1. -/
def shiftedZeros : StoredVector 17 where
  tensor := List.replicate 17 (Fin.ofNat 256 1)
  scale := 0x3FF0000000000000#64
  zeroPoint := 0x3FF0000000000000#64
  length_tensor := rfl
  finite_scale := by decide
  finite_zeroPoint := by decide

/-- Two vectors that are equal once dequantized are measured to be apart. -/
theorem equal_vectors_apart :
    retrieve shiftedZeros.buffer = retrieve plainZeros.buffer ∧
      sqDistance (retrieve shiftedZeros.buffer) (retrieve plainZeros.buffer) = 0 ∧
      quantizedL2Space true 17 shiftedZeros.buffer plainZeros.buffer 17 = 1 := by
  decide +kernel

end NeurDB.NeurStore
