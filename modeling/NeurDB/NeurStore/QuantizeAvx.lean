import NeurDB.NeurStore.DeltaQuant
import NeurDB.Framework.Rounding

/-!
# The two code paths of the quantization

Where the compiler has AVX2, `linearAsymmetricQuantize` runs `linearAsymmetricQuantizeAVX`. It
quantizes four elements a round in the lanes of a register and the last ones, three at most, one
by one. A lane is clamped to `[0, qmax]` first and rounded then, and an element that lies half
way between two codes goes to the even one; the loop for the last ones rounds first, away from
zero, as the scalar version does.

The order of clamping and rounding makes no difference (`clamp_roundAway`), and neither do the
saturating packs to narrow codes while the width fits the type (`storeLane_eq`). The ties do: the
code of an element half way above an even code depends on its place in the tensor.

The arithmetic is exact as in the scalar model; the number of elements is an `int`.
-/

namespace NeurDB.NeurStore

open List

open Rounding

/-! ### The code -/

/-- The `Scalar` types of the codes. -/
inductive CodeType where
  | uint8
  | uint16
  | uint32
  deriving DecidableEq, Repr

def CodeType.bits : CodeType → ℕ
  | .uint8 => 8
  | .uint16 => 16
  | .uint32 => 32

/-- A lane of `_mm256_cvtpd_epi32`: integers that do not fit become the smallest one. -/
def cvtpdEpi32 (v : ℤ) : ℤ := if -2 ^ 31 ≤ v ∧ v < 2 ^ 31 then v else -2 ^ 31

/-- A lane of `_mm_packus_epi32`, 32 bits with sign to 16 without, saturating. -/
def packusEpi32 (v : ℤ) : ℤ := max 0 (min v 65535)

/-- A lane of `_mm_packus_epi16`, 16 bits with sign to 8 without, saturating. -/
def packusEpi16 (v : ℤ) : ℤ :=
  let signed := if v < 32768 then v else v - 65536
  max 0 (min signed 255)

/-- The branches on `sizeof(Scalar)`: how a lane of 32 bits is stored as a code. -/
def storeLane (scalar : CodeType) (vi : ℤ) : ℕ :=
  match scalar with
  | .uint32 => (vi % 2 ^ 32).toNat
  | .uint16 => (packusEpi32 vi).toNat
  | .uint8 => (packusEpi16 (packusEpi32 vi)).toNat

/-- One lane of the loop with four of them. -/
def laneCode (scalar : CodeType) (q : ℤ) (scale zeroPoint x : ℚ) : ℕ :=
  let vin := x / scale + zeroPoint
  let vin := min (max vin 0) q
  storeLane scalar (cvtpdEpi32 (roundEven vin))

/-- One round of the loop for the last elements. -/
def tailCode (scalar : CodeType) (q : ℤ) (scale zeroPoint x : ℚ) : ℕ :=
  let val := roundAway (x / scale + zeroPoint)
  let val := if val < 0 then 0 else val
  let val := if q < val then q else val
  (val % 2 ^ scalar.bits).toNat

/-- The codes that the two loops write for the first `n` elements. -/
def writtenCodes (scalar : CodeType) (q : ℤ) (scale zeroPoint : ℚ) (tensor : List ℚ) (n : ℕ) :
    List ℕ :=
  let done := n / 4 * 4
  (tensor.take done).map (laneCode scalar q scale zeroPoint) ++
    ((tensor.take n).drop done).map (tailCode scalar q scale zeroPoint)

/-- `LinearQuantization::linearAsymmetricQuantizeAVX`. `fresh` is what the memory of the codes
holds before they are written; `none` is a scale that is not finite, or the overflow of
`i + simd`, which happens for the `int`s closest to the limit. -/
def linearAsymmetricQuantizeAVX (scalar : CodeType) (tensor : List ℚ) (bitWidth : CInt)
    (minVal range unset : ℚ) (fresh : List ℕ) : Option Quantized :=
  if isZero tensor then some ⟨List.replicate tensor.length 0, 0, unset⟩
  else if (qmax bitWidth).toInt = 0 then none
  else
    let scale := range / (qmax bitWidth).toInt
    let zeroPoint := -minVal / scale
    let n := (BitVec.ofNat 32 tensor.length).toInt
    if 2 ^ 31 - 4 ≤ n then none
    else
      -- a negative number of elements ends both loops at once
      let written :=
        writtenCodes scalar (qmax bitWidth).toInt scale zeroPoint tensor n.toNat
      some ⟨written ++ fresh.drop n.toNat, scale, zeroPoint⟩

/-! ### One element -/

section Element

variable {q : ℤ}

/-- A position clamped to the codes. -/
def clampPos (q : ℤ) (pos : ℚ) : ℚ := min (max pos 0) q

theorem clampPos_nonneg (hq : 0 ≤ q) (pos : ℚ) : 0 ≤ clampPos q pos :=
  le_min (le_max_right _ _) (by exact_mod_cast hq)

theorem clampPos_le (pos : ℚ) : clampPos q pos ≤ q := min_le_right _ _

/-- **Clamping and rounding away from zero commute.** -/
theorem clamp_roundAway (hq : 0 ≤ q) (pos : ℚ) :
    min (max (roundAway pos) 0) q = round (clampPos q pos) := by
  have hq' : (0 : ℚ) ≤ q := by exact_mod_cast hq
  rcases lt_or_ge pos 0 with hneg | hnonneg
  · have hround : roundAway pos ≤ 0 := by
      rw [roundAway, if_neg (not_le.mpr hneg), neg_nonpos, Int.le_floor]
      push_cast
      linarith
    rw [clampPos, max_eq_right hround, max_eq_right hneg.le, min_eq_left hq, min_eq_left hq',
      round_zero]
  · have hround : 0 ≤ round pos := by
      rw [round_eq, Int.le_floor]
      push_cast
      linarith
    rw [clampPos, roundAway_of_nonneg hnonneg, max_eq_left hround, max_eq_left hnonneg]
    rcases le_total pos q with hle | hge
    · have hbound : round pos ≤ q := by
        rw [round_eq, ← Int.lt_add_one_iff, Int.floor_lt]
        push_cast
        linarith
      rw [min_eq_left hbound, min_eq_left hle]
    · have hbound : q ≤ round pos := by
        rw [round_eq, Int.le_floor]
        linarith
      rw [min_eq_right hbound, min_eq_right hge, round_intCast]

/-- The position lies half way above an even code. -/
def TieAboveEven (q : ℤ) (pos : ℚ) : Prop :=
  ∃ k : ℤ, k % 2 = 0 ∧ 0 ≤ k ∧ k < q ∧ pos = k + 1 / 2

theorem evenTie_clampPos (hq : 0 ≤ q) (pos : ℚ) :
    EvenTie (clampPos q pos) ↔ TieAboveEven q pos := by
  constructor
  · rintro ⟨k, hk, htie⟩
    have hlow := clampPos_nonneg hq pos
    have hhigh := clampPos_le (q := q) pos
    have hk0 : 0 ≤ k := by
      have : (-1 : ℚ) < k := by linarith
      have : (-1 : ℤ) < k := by exact_mod_cast this
      omega
    have hkq : k < q := by
      have : (k : ℚ) < q := by linarith
      exact_mod_cast this
    refine ⟨k, hk, hk0, hkq, ?_⟩
    -- a clamped position is an end of the range, and these are integers
    rw [← htie]
    have hends : clampPos q pos = pos ∨ clampPos q pos = ((0 : ℤ) : ℚ) ∨
        clampPos q pos = (q : ℚ) := by
      rw [clampPos, Int.cast_zero]
      rcases min_choice (max pos 0) (q : ℚ) with h | h
      · rcases max_choice pos 0 with h' | h'
        · exact Or.inl (h.trans h')
        · exact Or.inr (Or.inl (h.trans h'))
      · exact Or.inr (Or.inr h)
    rcases hends with h | h | h
    · exact h.symm
    · exact absurd (h ▸ ⟨k, hk, htie⟩ : EvenTie ((0 : ℤ) : ℚ)) (not_evenTie_intCast 0)
    · exact absurd (h ▸ ⟨k, hk, htie⟩ : EvenTie (q : ℚ)) (not_evenTie_intCast q)
  · rintro ⟨k, hk, hk0, hkq, rfl⟩
    have hk0' : (0 : ℚ) ≤ k := by exact_mod_cast hk0
    have hkq' : (k : ℚ) + 1 ≤ q := by exact_mod_cast hkq
    refine ⟨k, hk, ?_⟩
    rw [clampPos, max_eq_left (by linarith), min_eq_left (by linarith)]

variable {n : ℕ} {scalar : CodeType}

theorem roundEven_clampPos_mem (hq : 0 ≤ q) (pos : ℚ) :
    0 ≤ roundEven (clampPos q pos) ∧ roundEven (clampPos q pos) ≤ q := by
  have hlow := clampPos_nonneg hq pos
  have hhigh := clampPos_le (q := q) pos
  have hfloor : 0 ≤ ⌊clampPos q pos⌋ := Int.floor_nonneg.mpr hlow
  have hle : ⌊clampPos q pos⌋ ≤ q := Int.floor_le_iff.mpr (by linarith)
  -- above the floor there is room for one more code, or the position is the last code
  have hnext : ⌊clampPos q pos⌋ = q → clampPos q pos - ⌊clampPos q pos⌋ < 1 / 2 := by
    intro h
    rw [h]
    linarith
  rw [roundEven]
  split_ifs with hlt hgt
  · exact ⟨hfloor, hle⟩
  · have hne : ⌊clampPos q pos⌋ ≠ q := fun h => hlt (hnext h)
    omega
  · have hne : ⌊clampPos q pos⌋ ≠ q := fun h => hlt (hnext h)
    omega

theorem storeLane_eq (hn : n ≤ 30) (hbits : n ≤ scalar.bits) {code : ℤ} (hlow : 0 ≤ code)
    (hhigh : code < 2 ^ n) : storeLane scalar (cvtpdEpi32 code) = code.toNat := by
  have hbound : (2 : ℤ) ^ n ≤ 2 ^ 30 := pow_le_pow_right₀ (by norm_num) hn
  have hfit : (2 : ℤ) ^ n ≤ 2 ^ scalar.bits := pow_le_pow_right₀ (by norm_num) hbits
  have hcvt : cvtpdEpi32 code = code := if_pos (by omega)
  rw [hcvt]
  cases scalar with
  | uint32 => exact congrArg Int.toNat (Int.emod_eq_of_lt hlow (by omega))
  | uint16 =>
    have hfit16 : (2 : ℤ) ^ n ≤ 65536 := hfit
    have hpack : packusEpi32 code = code := by
      unfold packusEpi32
      omega
    exact congrArg Int.toNat hpack
  | uint8 =>
    have hfit8 : (2 : ℤ) ^ n ≤ 256 := hfit
    have hpack : packusEpi16 (packusEpi32 code) = code := by
      unfold packusEpi16 packusEpi32
      dsimp only
      split_ifs <;> omega
    exact congrArg Int.toNat hpack

theorem laneCode_eq (hq : q = 2 ^ n - 1) (hn : n ≤ 30) (hbits : n ≤ scalar.bits)
    (scale zeroPoint x : ℚ) :
    laneCode scalar q scale zeroPoint x =
      (roundEven (clampPos q (x / scale + zeroPoint))).toNat := by
  have hpos : (1 : ℤ) ≤ 2 ^ n := one_le_pow₀ (by norm_num)
  obtain ⟨hlow, hhigh⟩ :=
    roundEven_clampPos_mem (show 0 ≤ q by omega) (x / scale + zeroPoint)
  have hlt : roundEven (clampPos q (x / scale + zeroPoint)) < 2 ^ n := by omega
  exact storeLane_eq hn hbits hlow hlt

theorem quantizeValue_eq_round (hq : 0 ≤ q) (scale zeroPoint x : ℚ) :
    quantizeValue q scale zeroPoint x = (round (clampPos q (x / scale + zeroPoint))).toNat := by
  rw [quantizeValue, clamp_roundAway hq]

theorem tailCode_eq (hq : q = 2 ^ n - 1) (hbits : n ≤ scalar.bits) (scale zeroPoint x : ℚ) :
    tailCode scalar q scale zeroPoint x = quantizeValue q scale zeroPoint x := by
  have hpos : (1 : ℤ) ≤ 2 ^ n := one_le_pow₀ (by norm_num)
  have hfit : (2 : ℤ) ^ n ≤ 2 ^ scalar.bits := pow_le_pow_right₀ (by norm_num) hbits
  rw [tailCode, quantizeValue]
  generalize roundAway (x / scale + zeroPoint) = val
  have hclamp : (if q < (if val < 0 then 0 else val) then q else (if val < 0 then 0 else val)) =
      min (max val 0) q := by
    split_ifs <;> omega
  rw [hclamp, Int.emod_eq_of_lt (by omega) (by omega)]

/-- **A lane gets the code of the scalar version** unless the position is half way above an
even code. -/
theorem laneCode_eq_iff (hq : q = 2 ^ n - 1) (hn : n ≤ 30) (hbits : n ≤ scalar.bits)
    (scale zeroPoint x : ℚ) :
    laneCode scalar q scale zeroPoint x = quantizeValue q scale zeroPoint x ↔
      ¬TieAboveEven q (x / scale + zeroPoint) := by
  have hpos : (1 : ℤ) ≤ 2 ^ n := one_le_pow₀ (by norm_num)
  have hq0 : 0 ≤ q := by omega
  have hlane := (roundEven_clampPos_mem hq0 (x / scale + zeroPoint)).1
  have hscalar : 0 ≤ round (clampPos q (x / scale + zeroPoint)) := by
    rw [← clamp_roundAway hq0]
    omega
  rw [laneCode_eq hq hn hbits, quantizeValue_eq_round hq0, ← evenTie_clampPos hq0,
    ← roundEven_eq_round_iff]
  omega

end Element

/-! ### The tensor -/

theorem length_writtenCodes (scalar : CodeType) (q : ℤ) (scale zeroPoint : ℚ)
    {tensor : List ℚ} {n : ℕ} (hn : n ≤ tensor.length) :
    (writtenCodes scalar q scale zeroPoint tensor n).length = n := by
  simp only [writtenCodes, length_append, length_map, length_take, length_drop]
  omega

theorem writtenCodes_eq_iff {scalar : CodeType} {q : ℤ} {n : ℕ} (hq : q = 2 ^ n - 1)
    (hn : n ≤ 30) (hbits : n ≤ scalar.bits) (scale zeroPoint : ℚ) (tensor : List ℚ) :
    writtenCodes scalar q scale zeroPoint tensor tensor.length =
        tensor.map (quantizeValue q scale zeroPoint) ↔
      ∀ x ∈ tensor.take (tensor.length / 4 * 4), ¬TieAboveEven q (x / scale + zeroPoint) := by
  have htail : ((tensor.take tensor.length).drop (tensor.length / 4 * 4)).map
        (tailCode scalar q scale zeroPoint) =
      (tensor.drop (tensor.length / 4 * 4)).map (quantizeValue q scale zeroPoint) := by
    rw [take_length]
    exact map_congr_left fun x _ => tailCode_eq hq hbits scale zeroPoint x
  have hsplit : tensor.map (quantizeValue q scale zeroPoint) =
      (tensor.take (tensor.length / 4 * 4)).map (quantizeValue q scale zeroPoint) ++
        (tensor.drop (tensor.length / 4 * 4)).map (quantizeValue q scale zeroPoint) := by
    rw [← map_append, take_append_drop]
  rw [writtenCodes, htail, hsplit, append_cancel_right_eq, map_inj_left]
  exact forall₂_congr fun x _ => laneCode_eq_iff hq hn hbits scale zeroPoint x

section Tensor

variable (scalar : CodeType) {tensor : List ℚ} {bitWidth : CInt} (minVal range unset : ℚ)

section

variable (hzero : ¬isZero tensor) (hq : (qmax bitWidth).toInt ≠ 0)

include hzero hq

theorem naive_eq :
    linearAsymmetricQuantizeNaive tensor bitWidth minVal range unset =
      some ⟨tensor.map (quantizeValue (qmax bitWidth).toInt (range / (qmax bitWidth).toInt)
        (-minVal / (range / (qmax bitWidth).toInt))), range / (qmax bitWidth).toInt,
        -minVal / (range / (qmax bitWidth).toInt)⟩ := by
  rw [linearAsymmetricQuantizeNaive, if_neg hzero, if_neg hq]

theorem avx_eq_none (hn : 2 ^ 31 - 4 ≤ (BitVec.ofNat 32 tensor.length).toInt) (fresh : List ℕ) :
    linearAsymmetricQuantizeAVX scalar tensor bitWidth minVal range unset fresh = none := by
  rw [linearAsymmetricQuantizeAVX, if_neg hzero, if_neg hq]
  exact if_pos hn

theorem avx_eq_some (hn : (BitVec.ofNat 32 tensor.length).toInt < 2 ^ 31 - 4) (fresh : List ℕ) :
    linearAsymmetricQuantizeAVX scalar tensor bitWidth minVal range unset fresh =
      some ⟨writtenCodes scalar (qmax bitWidth).toInt (range / (qmax bitWidth).toInt)
        (-minVal / (range / (qmax bitWidth).toInt)) tensor
          (BitVec.ofNat 32 tensor.length).toInt.toNat ++
            fresh.drop (BitVec.ofNat 32 tensor.length).toInt.toNat,
        range / (qmax bitWidth).toInt, -minVal / (range / (qmax bitWidth).toInt)⟩ := by
  rw [linearAsymmetricQuantizeAVX, if_neg hzero, if_neg hq]
  exact if_neg (not_le.mpr hn)

/-- With too many elements for an `int` nothing is returned, or a code is left as the memory
was, whatever this is. -/
theorem exists_fresh_ne (hlarge : 2 ^ 31 - 4 ≤ tensor.length) :
    ∃ fresh : List ℕ, fresh.length = tensor.length ∧
      linearAsymmetricQuantizeAVX scalar tensor bitWidth minVal range unset fresh ≠
        linearAsymmetricQuantizeNaive tensor bitWidth minVal range unset := by
  rw [naive_eq minVal range unset hzero hq]
  rcases le_or_gt (2 ^ 31 - 4) (BitVec.ofNat 32 tensor.length).toInt with hn | hn
  · refine ⟨List.replicate tensor.length 0, length_replicate, ?_⟩
    rw [avx_eq_none scalar minVal range unset hzero hq hn]
    exact Option.some_ne_none _ |>.symm
  · generalize hcount : (BitVec.ofNat 32 tensor.length).toInt.toNat = n
    have hlt : n < tensor.length := by omega
    -- the first code that is not written: the memory holds another one there
    let code := quantizeValue (qmax bitWidth).toInt (range / (qmax bitWidth).toInt)
      (-minVal / (range / (qmax bitWidth).toInt)) tensor[n]
    refine ⟨List.replicate tensor.length (code + 1), length_replicate, fun heq => ?_⟩
    rw [avx_eq_some scalar minVal range unset hzero hq hn, hcount] at heq
    have hcodes := congrArg (·.codes[n]?) (Option.some.inj heq)
    have hlen := length_writtenCodes scalar (qmax bitWidth).toInt
      (range / (qmax bitWidth).toInt) (-minVal / (range / (qmax bitWidth).toInt)) hlt.le
    rw [getElem?_append_right hlen.le, hlen, Nat.sub_self, getElem?_drop,
      getElem?_replicate, if_pos (show n + 0 < tensor.length from hlt), getElem?_map,
      getElem?_eq_getElem hlt] at hcodes
    exact absurd (Option.some.inj hcodes) (Nat.succ_ne_self code)

end

end Tensor

/-- **The two versions of the quantization agree** on the tensors that count as zero, and on
those of a size for an `int` in which no element of the whole rounds lies half way above an
even code. -/
theorem quantize_paths_agree_iff (scalar : CodeType) (tensor : List ℚ) (bitWidth : CInt)
    (minVal range unset : ℚ) (hpos : 1 ≤ bitWidth.toNat) (hwidth : bitWidth.toNat ≤ 30)
    (hbits : bitWidth.toNat ≤ scalar.bits) :
    (∀ fresh : List ℕ, fresh.length = tensor.length →
        linearAsymmetricQuantizeAVX scalar tensor bitWidth minVal range unset fresh =
          linearAsymmetricQuantizeNaive tensor bitWidth minVal range unset) ↔
      isZero tensor ∨ tensor.length < 2 ^ 31 - 4 ∧
        ∀ x ∈ tensor.take (tensor.length / 4 * 4),
          ¬TieAboveEven (2 ^ bitWidth.toNat - 1)
            (gridPos minVal range (2 ^ bitWidth.toNat - 1) x) := by
  have hq : (qmax bitWidth).toInt = 2 ^ bitWidth.toNat - 1 := toInt_qmax (by omega)
  have hq0 : (qmax bitWidth).toInt ≠ 0 := (toInt_qmax_pos (by omega) hpos).ne'
  by_cases hzero : isZero tensor
  · refine iff_of_true (fun fresh _ => ?_) (Or.inl hzero)
    rw [linearAsymmetricQuantizeAVX, linearAsymmetricQuantizeNaive, if_pos hzero, if_pos hzero]
  rw [or_iff_right hzero]
  by_cases hsmall : tensor.length < 2 ^ 31 - 4
  · have hn : (BitVec.ofNat 32 tensor.length).toInt = tensor.length := by
      have hnat : (BitVec.ofNat 32 tensor.length).toNat = tensor.length := by
        rw [BitVec.toNat_ofNat]
        exact Nat.mod_eq_of_lt (by omega)
      rw [BitVec.toInt_eq_toNat_of_lt (by omega), hnat]
    have hcodes := writtenCodes_eq_iff hq hwidth hbits (range / (qmax bitWidth).toInt)
      (-minVal / (range / (qmax bitWidth).toInt)) tensor
    simp only [gridPos_eq, hq] at hcodes
    rw [and_iff_right hsmall, ← hcodes, naive_eq minVal range unset hzero hq0, hq]
    -- every code is written, so the memory does not matter
    have hall : ∀ fresh : List ℕ, fresh.length = tensor.length →
        linearAsymmetricQuantizeAVX scalar tensor bitWidth minVal range unset fresh =
          some ⟨writtenCodes scalar (2 ^ bitWidth.toNat - 1)
            (range / ((2 ^ bitWidth.toNat - 1 : ℤ) : ℚ))
            (-minVal / (range / ((2 ^ bitWidth.toNat - 1 : ℤ) : ℚ))) tensor tensor.length,
            range / ((2 ^ bitWidth.toNat - 1 : ℤ) : ℚ),
            -minVal / (range / ((2 ^ bitWidth.toNat - 1 : ℤ) : ℚ))⟩ := by
      intro fresh hfresh
      rw [avx_eq_some scalar minVal range unset hzero hq0 (by omega), hn, Int.toNat_natCast,
        ← hfresh, drop_length, append_nil, hfresh, hq]
    constructor
    · intro h
      have heq := (hall _ length_replicate).symm.trans
        (h (List.replicate tensor.length 0) length_replicate)
      exact congrArg Quantized.codes (Option.some.inj heq)
    · intro h fresh hfresh
      rw [hall fresh hfresh, h]
  · obtain ⟨fresh, hfresh, hne⟩ :=
      exists_fresh_ne scalar minVal range unset hzero hq0 (not_lt.mp hsmall)
    exact iff_of_false (fun h => hne (h fresh hfresh)) fun h => hsmall h.1

/-- Four quarters in one bit: none lies half way. -/
theorem quarters_agree :
    linearAsymmetricQuantizeAVX .uint8 [0, 1, 1 / 4, 3 / 4] 1#32 0 1 0 [9, 9, 9, 9] =
      linearAsymmetricQuantizeNaive [0, 1, 1 / 4, 3 / 4] 1#32 0 1 0 := by
  refine (quantize_paths_agree_iff .uint8 [0, 1, 1 / 4, 3 / 4] 1#32 0 1 0 (by decide)
    (by decide) (by decide)).mpr (Or.inr ⟨by decide, ?_⟩) [9, 9, 9, 9] rfl
  rintro x hx ⟨k, -, hlow, hhigh, hpos⟩
  obtain rfl : k = 0 := le_antisymm (Int.lt_add_one_iff.mp hhigh) hlow
  have hhalf : x = 1 / 2 := by
    simpa [gridPos] using hpos
  subst hhalf
  revert hx
  decide +kernel

/-- The same value gets one code in the lanes and another one behind them. -/
theorem half_rounded_both_ways :
    (linearAsymmetricQuantizeAVX .uint8 [0, 1, 1 / 2, 1 / 2, 1 / 2] 1#32 0 1 0
        (List.replicate 5 0)).map Quantized.codes = some [0, 1, 0, 0, 1] ∧
      (linearAsymmetricQuantizeNaive [0, 1, 1 / 2, 1 / 2, 1 / 2] 1#32 0 1 0).map
        Quantized.codes = some [0, 1, 1, 1, 1] := by
  decide +kernel

end NeurDB.NeurStore
