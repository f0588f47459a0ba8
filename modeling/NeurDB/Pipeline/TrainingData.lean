import NeurDB.Pipeline.Libsvm

/-!
# Training data on its way to the model

Which labels and features of a row are in the tensors unchanged.

**The theorem** (`data_reaches_model_iff`): the tensors have the labels and the values of the
rows exactly if there is no text feature and each label is one of those that survive: an int2; an
int4, or an int8 in the range of an int4, that single precision holds; a float8 that is zero; a
text whose address happens to give its class id.
-/

namespace NeurDB.Pipeline

open Text Rounding List

/-! ### The labels of a row -/

/-- The value of a float8: the significand times a power of two; `none` for infinities and NaN. -/
def doubleValue (bits : BitVec 64) : Option ℚ :=
  let exponent := bits.toNat / 2 ^ 52 % 2 ^ 11
  let fraction := bits.toNat % 2 ^ 52
  let digits := if exponent = 0 then fraction else 2 ^ 52 + fraction
  if exponent = 2047 then none
  else
    some ((if bits.msb then -1 else 1) * (digits * 2 ^ (exponent - 1) : ℕ) / (2 ^ 1074 : ℕ))

/-- What `make_class_id_map` is meant to give: the classes, as `SELECT DISTINCT` returns them,
numbered in order. How its hash table keeps them is left out. -/
def makeClassIdMap (classes : List (List Byte)) : List (List Byte × ℕ) := classes.zipIdx

/-- The numeric label of a row: for a text, its class id. -/
def numericLabel (classIdMap : List (List Byte × ℕ)) : LabelDatum → Option ℚ
  | .int2 n => some n.toInt
  | .int4 n => some n.toInt
  | .int8 n => some n.toInt
  | .float8 bits => doubleValue bits
  | .text d => (classIdMap.lookup d.text).map fun id : ℕ => (id : ℚ)

/-- The label that arrives. -/
def arrivedLabel (label : LabelDatum) : ℤ := roundTo 24 (datumGetInt32 label.datum)

/-- The labels that are printed and rounded to themselves. -/
def LabelKept (classIdMap : List (List Byte × ℕ)) : LabelDatum → Prop
  | .int2 _ => True
  | .int4 n => Fits 24 n.toInt.natAbs
  | .int8 n => -2 ^ 31 ≤ n.toInt ∧ n.toInt < 2 ^ 31 ∧ Fits 24 n.toInt.natAbs
  | .float8 bits => doubleValue bits = some 0
  | .text d => ∃ id : ℕ, classIdMap.lookup d.text = some id ∧
      roundTo 24 (datumGetInt32 d.address) = id

theorem datumGetInt32_bounds (d : BitVec 64) :
    -2 ^ 31 ≤ datumGetInt32 d ∧ datumGetInt32 d < 2 ^ 31 := by
  have hlt := BitVec.toInt_lt (x := d.setWidth 32)
  have hle := BitVec.le_toInt (d.setWidth 32)
  exact ⟨hle, hlt⟩

theorem datumGetInt32_emod (d : BitVec 64) : datumGetInt32 d % 2 ^ 32 = (d.toNat % 2 ^ 32 : ℕ) := by
  rw [datumGetInt32, BitVec.toInt_setWidth]
  exact Int.bmod_emod

theorem datumGetInt32_eq {d : BitVec 64} (hle : -2 ^ 31 ≤ d.toInt) (hlt : d.toInt < 2 ^ 31) :
    datumGetInt32 d = d.toInt := by
  have hemod := datumGetInt32_emod d
  have hbounds := datumGetInt32_bounds d
  rw [BitVec.toInt_eq_toNat_cond] at hle hlt ⊢
  split at hle <;> split <;> omega

theorem natAbs_datumGetInt32_le (d : BitVec 64) : (datumGetInt32 d).natAbs ≤ 2 ^ 31 := by
  have := datumGetInt32_bounds d
  omega

theorem datumGetInt32_signExtend {w : ℕ} (hw : w ≤ 32) (n : BitVec w) :
    datumGetInt32 (n.signExtend 64) = n.toInt := by
  have hext : (n.signExtend 64).toInt = n.toInt := BitVec.toInt_signExtend_of_le (by omega)
  have hle : -2 ^ 31 ≤ n.toInt ∧ n.toInt < 2 ^ 31 := by
    have h₁ := BitVec.two_mul_toInt_lt (x := n)
    have h₂ := BitVec.le_two_mul_toInt (x := n)
    have hpow : (2 : ℤ) ^ w ≤ 2 ^ 32 := pow_le_pow_right₀ (by decide) hw
    omega
  rw [datumGetInt32_eq (by rw [hext]; exact hle.1) (by rw [hext]; exact hle.2), hext]

theorem arrivedLabel_int2 (n : BitVec 16) : arrivedLabel (.int2 n) = n.toInt := by
  rw [arrivedLabel, LabelDatum.datum, datumGetInt32_signExtend (by decide), roundTo_eq_self_iff]
  have hlt := BitVec.toInt_lt (x := n)
  have hle := BitVec.le_toInt n
  exact ⟨n.toInt.natAbs, 0, by omega, by omega⟩

theorem arrivedLabel_int4 (n : BitVec 32) :
    arrivedLabel (.int4 n) = n.toInt ↔ Fits 24 n.toInt.natAbs := by
  rw [arrivedLabel, LabelDatum.datum, datumGetInt32_signExtend (le_refl _), roundTo_eq_self_iff]

theorem arrivedLabel_int8 (n : BitVec 64) :
    arrivedLabel (.int8 n) = n.toInt ↔
      -2 ^ 31 ≤ n.toInt ∧ n.toInt < 2 ^ 31 ∧ Fits 24 n.toInt.natAbs := by
  constructor
  · intro h
    have habs : n.toInt.natAbs ≤ 2 ^ 31 := by
      rw [← h]
      exact natAbs_roundTo_le (by decide) (natAbs_datumGetInt32_le n)
    have htop : n.toInt ≠ 2 ^ 31 := by
      intro htop
      -- the word of 2 ^ 31 is printed as - 2 ^ 31
      have hemod := datumGetInt32_emod n
      have hbounds := datumGetInt32_bounds n
      rw [BitVec.toInt_eq_toNat_cond] at htop
      have hprinted : datumGetInt32 n = -2 ^ 31 := by
        split at htop <;> omega
      rw [arrivedLabel, LabelDatum.datum, hprinted] at h
      have : roundTo 24 (-2 ^ 31) = -2 ^ 31 := roundTo_eq_self_iff.mpr ⟨1, 31, by decide, rfl⟩
      rw [this, BitVec.toInt_eq_toNat_cond] at h
      omega
    have hle : -2 ^ 31 ≤ n.toInt := by omega
    have hlt : n.toInt < 2 ^ 31 := by omega
    rw [arrivedLabel, LabelDatum.datum, datumGetInt32_eq hle hlt] at h
    exact ⟨hle, hlt, roundTo_eq_self_iff.mp h⟩
  · rintro ⟨hle, hlt, hfits⟩
    rw [arrivedLabel, LabelDatum.datum, datumGetInt32_eq hle hlt]
    exact roundTo_eq_self_iff.mpr hfits

/-! ### A float8 label -/

/-- The significand of a float8. -/
def doubleDigits (bits : BitVec 64) : ℕ :=
  if bits.toNat / 2 ^ 52 % 2 ^ 11 = 0 then bits.toNat % 2 ^ 52
  else 2 ^ 52 + bits.toNat % 2 ^ 52

theorem natAbs_of_doubleValue {bits : BitVec 64} {z : ℤ} (h : doubleValue bits = some (z : ℚ)) :
    z.natAbs * 2 ^ 1074 = doubleDigits bits * 2 ^ (bits.toNat / 2 ^ 52 % 2 ^ 11 - 1) := by
  rw [doubleValue] at h
  split at h
  · cases h
  · have hval := Option.some.inj h
    rw [div_eq_iff (by positivity)] at hval
    change _ * ((doubleDigits bits * 2 ^ (bits.toNat / 2 ^ 52 % 2 ^ 11 - 1) : ℕ) : ℚ) = _ at hval
    generalize doubleDigits bits * 2 ^ (bits.toNat / 2 ^ 52 % 2 ^ 11 - 1) = n at hval ⊢
    generalize (2 : ℕ) ^ 1074 = m at hval ⊢
    have hz : z * (m : ℤ) = n ∨ z * (m : ℤ) = -n := by
      split at hval
      · right
        have : (z : ℚ) * m = -n := by linarith
        exact_mod_cast this
      · left
        have : (z : ℚ) * m = n := by linarith
        exact_mod_cast this
    have habs : (z * (m : ℤ)).natAbs = n := by omega
    rwa [Int.natAbs_mul, Int.natAbs_natCast] at habs

theorem eq_zero_of_dvd {x : ℤ} {m : ℕ} (hle : -2 ^ 31 ≤ x) (hlt : x < 2 ^ 31)
    (hx : x % 2 ^ 32 = (m % 2 ^ 32 : ℕ)) (hm : 2 ^ 32 ∣ 2 ^ 52 + m) : x = 0 := by
  obtain ⟨k, hk⟩ := hm
  omega

theorem printed_ne_normal {x : ℤ} {m t : ℕ} (hle : -2 ^ 31 ≤ x) (hlt : x < 2 ^ 31)
    (hx : x % 2 ^ 32 = (m % 2 ^ 32 : ℕ)) (ht : 21 ≤ t) :
    2 ^ 52 + m ≠ (roundTo 24 x).natAbs * 2 ^ t := by
  intro hdigits
  -- it is enough that the significand is a multiple of 2 ^ 32
  suffices hdvd : 2 ^ 32 ∣ 2 ^ 52 + m by
    have hzero : roundTo 24 x = 0 := by
      rw [eq_zero_of_dvd hle hlt hx hdvd]
      rfl
    rw [hzero, Int.natAbs_zero, Nat.zero_mul] at hdigits
    omega
  rcases Nat.lt_or_ge t 32 with hsmall | hbig
  · -- then x is a multiple of 2 ^ t, with few enough digits to be kept
    have hpow : 2 ^ t ∣ 2 ^ 52 + m := hdigits ▸ Nat.dvd_mul_left _ _
    have hxdvd : ((2 ^ t : ℕ) : ℤ) ∣ x := by
      have hm : 2 ^ t ∣ m % 2 ^ 32 :=
        (Nat.dvd_mod_iff (Nat.pow_dvd_pow 2 hsmall.le)).mpr
          ((Nat.dvd_add_right (Nat.pow_dvd_pow 2 (by omega))).mp hpow)
      have hx' : ((2 ^ t : ℕ) : ℤ) ∣ x % 2 ^ 32 := hx ▸ Int.natCast_dvd_natCast.mpr hm
      refine (EuclideanDomain.dvd_mod_iff ?_).mp hx'
      exact_mod_cast Nat.pow_dvd_pow 2 hsmall.le
    obtain ⟨k, rfl⟩ := hxdvd
    have hkept : roundTo 24 ((2 ^ t : ℕ) * k) = (2 ^ t : ℕ) * k := by
      refine roundTo_eq_self_iff.mpr ⟨k.natAbs, t, ?_, ?_⟩
      · have hpow21 : 2 ^ 21 ≤ 2 ^ t := Nat.pow_le_pow_right (by decide) ht
        have habs : ((2 ^ t : ℕ) * k).natAbs ≤ 2 ^ 31 := by omega
        rw [Int.natAbs_mul, Int.natAbs_natCast] at habs
        have := Nat.mul_le_mul_right k.natAbs hpow21
        omega
      · rw [Int.natAbs_mul, Int.natAbs_natCast, Nat.mul_comm]
    -- so the significand is a multiple of 2 ^ (2 * t)
    rw [hkept, Int.natAbs_mul, Int.natAbs_natCast] at hdigits
    rw [hdigits, Nat.mul_right_comm, ← pow_add]
    exact (Nat.pow_dvd_pow 2 (by omega)).mul_right _
  · exact hdigits ▸ (Nat.pow_dvd_pow 2 hbig).mul_left _

theorem exists_fraction_bits {a m n e : ℕ} (ha : a ≤ 2 ^ 31)
    (h : a * 2 ^ n = (2 ^ 52 + m) * 2 ^ e) : ∃ t, 21 ≤ t ∧ 2 ^ 52 + m = a * 2 ^ t := by
  rcases Nat.lt_or_ge n (e + 21) with hlarge | hsmall
  · exfalso
    have hbound : (2 ^ 52 + m) * 2 ^ e ≤ 2 ^ 51 * 2 ^ e :=
      calc (2 ^ 52 + m) * 2 ^ e = a * 2 ^ n := h.symm
        _ ≤ 2 ^ 31 * 2 ^ (20 + e) :=
          Nat.mul_le_mul ha (Nat.pow_le_pow_right (by decide) (by omega))
        _ = 2 ^ 51 * 2 ^ e := by rw [pow_add, ← Nat.mul_assoc, ← pow_add]
    have := Nat.le_of_mul_le_mul_right hbound (Nat.two_pow_pos e)
    omega
  · refine ⟨n - e, by omega, Nat.eq_of_mul_eq_mul_right (Nat.two_pow_pos e) ?_⟩
    rw [← h, Nat.mul_assoc, ← pow_add, Nat.sub_add_cancel (by omega)]

theorem eq_zero_of_subnormal {a m n : ℕ} (hm : m < 2 ^ 52) (hn : 52 ≤ n) (h : a * 2 ^ n = m) :
    a = 0 := by
  have hpow : 2 ^ 52 ≤ 2 ^ n := Nat.pow_le_pow_right (by decide) hn
  by_contra ha
  have := Nat.le_mul_of_pos_left (2 ^ n) (Nat.pos_of_ne_zero ha)
  omega

theorem arrivedLabel_float8 (bits : BitVec 64) :
    some ((arrivedLabel (.float8 bits) : ℤ) : ℚ) = doubleValue bits ↔
      doubleValue bits = some 0 := by
  have hbounds := datumGetInt32_bounds bits
  have hemod := datumGetInt32_emod bits
  have hfraction : bits.toNat % 2 ^ 52 % 2 ^ 32 = bits.toNat % 2 ^ 32 :=
    Nat.mod_mod_of_dvd _ (Nat.pow_dvd_pow 2 (by decide))
  rw [← hfraction] at hemod
  constructor
  · intro h
    have hdigits := natAbs_of_doubleValue h.symm
    suffices hzero : arrivedLabel (.float8 bits) = 0 by
      rw [← h, hzero, Int.cast_zero]
    rw [doubleDigits] at hdigits
    split at hdigits
    case isTrue hsub =>
      rw [hsub, Nat.zero_sub, pow_zero, Nat.mul_one] at hdigits
      exact Int.natAbs_eq_zero.mp
        (eq_zero_of_subnormal (Nat.mod_lt _ (by decide)) (by decide) hdigits)
    case isFalse hnormal =>
      obtain ⟨t, ht, heq⟩ := exists_fraction_bits
        (natAbs_roundTo_le (by decide) (natAbs_datumGetInt32_le bits)) hdigits
      exact absurd heq (printed_ne_normal hbounds.1 hbounds.2 hemod ht)
  · intro h
    have hdigits := natAbs_of_doubleValue (z := 0) (by rw [h, Int.cast_zero])
    rw [Int.natAbs_zero, Nat.zero_mul, eq_comm, Nat.mul_eq_zero] at hdigits
    have hzero : doubleDigits bits = 0 := hdigits.resolve_right (Nat.two_pow_pos _).ne'
    have hbits : bits.toNat % 2 ^ 52 = 0 := by
      rw [doubleDigits] at hzero
      split at hzero
      · exact hzero
      · omega
    have hprinted : datumGetInt32 bits = 0 := by
      rw [hbits] at hemod
      omega
    rw [h, arrivedLabel, LabelDatum.datum, hprinted]
    rfl

/-- **A label arrives** exactly if it is one of those that survive. -/
theorem arrivedLabel_iff (classIdMap : List (List Byte × ℕ)) (label : LabelDatum) :
    some ((arrivedLabel label : ℤ) : ℚ) = numericLabel classIdMap label ↔
      LabelKept classIdMap label := by
  cases label with
  | int2 n => simp [numericLabel, LabelKept, arrivedLabel_int2]
  | int4 n => simp [numericLabel, LabelKept, arrivedLabel_int4]
  | int8 n => simp [numericLabel, LabelKept, arrivedLabel_int8]
  | float8 bits => exact arrivedLabel_float8 bits
  | text d =>
    rw [numericLabel, LabelKept, eq_comm, Option.map_eq_some_iff]
    refine exists_congr fun id => and_congr_right fun _ => ?_
    rw [arrivedLabel, LabelDatum.datum, eq_comm]
    exact_mod_cast Iff.rfl

/-! ### The features of a row -/

/-- The integer value of a feature: for a text, its number in the mapping table. -/
def featureValue (maps : Mappings) (name : String) : FeatureDatum → Option ℤ
  | .int2 n => some n.toInt
  | .int4 n => some n.toInt
  | .int8 n => some n.toInt
  | .text d => ((maps name).find d.text).map fun token : ℕ => (token : ℤ)
  | .float4 _ | .float8 _ | .other => none

/-- The values of the features from column `col` on. -/
def featureValues (featureNames : ℕ → String) (maps : Mappings) (col : ℕ) :
    List FeatureDatum → Option (List ℤ)
  | [] => some []
  | f :: fs => do
    let v ← featureValue maps (featureNames col) f
    let vs ← featureValues featureNames maps (col + 1) fs
    pure (v :: vs)

/-- The ids of a row: the values of the features, then zeros. -/
def rowIds (featureNames : ℕ → String) (maps : Mappings) (maxNFields : ℕ)
    (features : List FeatureDatum) : Option (List ℤ) :=
  (featureValues featureNames maps 0 features).map fun ids =>
    ids ++ replicate (maxNFields - features.length) 0

section Features

variable {featureNames : ℕ → String} {maps : Mappings} {col : ℕ} {f : FeatureDatum}
  {fs : List FeatureDatum} {v : ℤ} {vs : List ℤ}

theorem Printed.featureValue_iff {name : String} (h : Printed maps name f v) :
    featureValue maps name f = some v ↔ ¬ f.IsText := by
  cases f with
  | int2 n | int4 n | int8 n =>
    obtain rfl := h
    exact iff_of_true rfl not_false
  | float4 bits | float8 bits | other => exact h.elim
  | text d =>
    obtain ⟨token, rfl, hprinted⟩ := h
    refine iff_of_false (fun hvalue => ?_) (not_not_intro trivial)
    obtain ⟨token', hfind, heq⟩ := Option.map_eq_some_iff.mp hvalue
    obtain rfl : token' = token := by exact_mod_cast heq
    exact d.cString_ne_text (MappingTable.text_eq_of_find hprinted hfind)

theorem PrintedFrom.featureValues_iff (h : PrintedFrom featureNames maps col fs vs) :
    featureValues featureNames maps col fs = some vs ↔ ∀ f ∈ fs, ¬ f.IsText := by
  induction h with
  | nil => simp [featureValues]
  | cons hv _ ih =>
    rw [forall_mem_cons, ← hv.featureValue_iff, ← ih, featureValues]
    simp [Option.bind_eq_some_iff]

theorem PrintedFrom.rowIds_iff {maxNFields : ℕ} (h : PrintedFrom featureNames maps 0 fs vs) :
    some (vs ++ replicate (maxNFields - vs.length) 0) =
      rowIds featureNames maps maxNFields fs ↔ ∀ f ∈ fs, ¬ f.IsText := by
  rw [← h.featureValues_iff, rowIds, eq_comm, Option.map_eq_some_iff, h.length_eq]
  constructor
  · rintro ⟨ids, hids, heq⟩
    rw [hids, append_cancel_right heq]
  · intro hids
    exact ⟨vs, hids, rfl⟩

end Features

/-! ### The whole way -/

/-- The tensors built from the rows have the labels and the ids of the rows. -/
def DataReachesModel (format : FloatFormat) (featureNames : ℕ → String) (maps : Mappings)
    (classIdMap : List (List Byte × ℕ)) (maxNFields : ℕ) (rows : List Row) : Prop :=
  ∃ data maps' tensors,
    buildLibsvmData format featureNames true maps rows = some (data, maps') ∧
    libsvmBatchPreprocessIdOnly data maxNFields = some tensors ∧
    tensors.y.map (fun y : ℤ => some (y : ℚ)) =
      rows.map (fun row => numericLabel classIdMap row.label) ∧
    tensors.id.map some = rows.map fun row => rowIds featureNames maps' maxNFields row.features

section Way

variable {featureNames : ℕ → String} {maps : Mappings} {rows : List Row}
  {samples : List (ℤ × List ℤ)}

theorem labels_iff (classIdMap : List (List Byte × ℕ))
    (h : Forall₂ (PrintedRow featureNames maps) rows samples) :
    (samples.map fun sample => some ((roundTo 24 sample.1 : ℤ) : ℚ)) =
        rows.map (fun row => numericLabel classIdMap row.label) ↔
      ∀ row ∈ rows, LabelKept classIdMap row.label := by
  induction h with
  | nil => simp
  | cons hrow _ ih =>
    rw [map_cons, map_cons, cons.injEq, forall_mem_cons, ih, hrow.1]
    exact and_congr_left fun _ => arrivedLabel_iff classIdMap _

theorem ids_iff (maxNFields : ℕ) (h : Forall₂ (PrintedRow featureNames maps) rows samples) :
    (samples.map fun sample =>
        some (sample.2 ++ replicate (maxNFields - sample.2.length) 0)) =
        rows.map (fun row => rowIds featureNames maps maxNFields row.features) ↔
      ∀ row ∈ rows, ∀ f ∈ row.features, ¬ f.IsText := by
  induction h with
  | nil => simp
  | cons hrow _ ih =>
    rw [map_cons, map_cons, cons.injEq, forall_mem_cons, ih, hrow.2.rowIds_iff]

theorem length_ids {nFeatures : ℕ} (h : Forall₂ (PrintedRow featureNames maps) rows samples)
    (hlen : ∀ row ∈ rows, row.features.length = nFeatures) :
    ∀ sample ∈ samples, sample.2.length = nFeatures := by
  induction h with
  | nil => simp
  | cons hrow _ ih =>
    rw [forall_mem_cons] at hlen ⊢
    exact ⟨hrow.2.length_eq.trans hlen.1, ih hlen.2⟩

variable {format : FloatFormat} {classIdMap : List (List Byte × ℕ)} {nFeatures maxNFields : ℕ}
  (hfields : nFeatures ≤ maxNFields) (hlen : ∀ row ∈ rows, row.features.length = nFeatures)
  (htypes : ∀ row ∈ rows, ∀ f ∈ row.features, f.IsId)

include hfields hlen htypes

theorem tensors_of_build {data : List Char} {maps' : Mappings}
    (h : buildLibsvmData format featureNames true maps rows = some (data, maps')) :
    ∃ samples, Forall₂ (PrintedRow featureNames maps') rows samples ∧
      libsvmBatchPreprocessIdOnly data maxNFields = some
        { id := samples.map fun sample =>
            sample.2 ++ replicate (maxNFields - sample.2.length) 0
          value := replicate samples.length (replicate maxNFields 1)
          y := samples.map fun sample => roundTo 24 sample.1 } := by
  obtain ⟨samples, rfl, hsamples, -⟩ := buildLibsvmData_spec htypes h
  refine ⟨samples, hsamples, preprocess_linesOf fun sample hsample => ?_⟩
  rw [length_ids hsamples hlen sample hsample]
  exact hfields

theorem DataReachesModel.kept
    (h : DataReachesModel format featureNames maps classIdMap maxNFields rows) :
    ∀ row ∈ rows, LabelKept classIdMap row.label ∧ ∀ f ∈ row.features, ¬ f.IsText := by
  obtain ⟨data, maps', tensors, hbuild, hpre, hy, hid⟩ := h
  obtain ⟨samples, hsamples, hpre'⟩ := tensors_of_build hfields hlen htypes hbuild
  obtain rfl := Option.some.inj (hpre.symm.trans hpre')
  rw [map_map] at hy hid
  have hlabels := (labels_iff classIdMap hsamples).mp hy
  have hids := (ids_iff maxNFields hsamples).mp hid
  intro row hrow
  exact ⟨hlabels row hrow, hids row hrow⟩

theorem DataReachesModel.of_kept
    (h : ∀ row ∈ rows, LabelKept classIdMap row.label ∧ ∀ f ∈ row.features, ¬ f.IsText) :
    DataReachesModel format featureNames maps classIdMap maxNFields rows := by
  obtain ⟨data, hbuild⟩ : ∃ data, buildLibsvmData format featureNames true maps rows =
      some (data, maps) :=
    buildLibsvmData_isSome fun row hrow f hf => ⟨htypes row hrow f hf, (h row hrow).2 f hf⟩
  obtain ⟨samples, hsamples, hpre⟩ := tensors_of_build hfields hlen htypes hbuild
  refine ⟨data, maps, _, hbuild, hpre, ?_, ?_⟩
  · rw [map_map]
    exact (labels_iff classIdMap hsamples).mpr fun row hrow => (h row hrow).1
  · rw [map_map]
    exact (ids_iff maxNFields hsamples).mpr fun row hrow => (h row hrow).2

end Way

/-- **Training data reaches the model unchanged** exactly if no feature is a text and every label
is one of those that survive. -/
theorem data_reaches_model_iff (format : FloatFormat) (featureNames : ℕ → String)
    (maps : Mappings) (classes : List (List Byte)) {nFeatures maxNFields : ℕ} {rows : List Row}
    (hfields : nFeatures ≤ maxNFields) (hlen : ∀ row ∈ rows, row.features.length = nFeatures)
    (htypes : ∀ row ∈ rows, ∀ f ∈ row.features, f.IsId) :
    DataReachesModel format featureNames maps (makeClassIdMap classes) maxNFields rows ↔
      ∀ row ∈ rows, LabelKept (makeClassIdMap classes) row.label ∧
        ∀ f ∈ row.features, ¬ f.IsText :=
  ⟨DataReachesModel.kept hfields hlen htypes, DataReachesModel.of_kept hfields hlen htypes⟩

/-! ### Two batches -/

/-- A mapping table as it is created. -/
def emptyTable : MappingTable where
  rows := []
  next := 1
  text_nodup := nodup_nil
  value_nodup := nodup_nil
  value_lt := nofun

def noFloats : FloatFormat := ⟨fun _ => [], fun _ => []⟩

/-- A batch of one row with the label. -/
def oneRow (label : LabelDatum) (f : FeatureDatum) : List Row := [⟨label, [f]⟩]

/-- The text of one letter, at the address 8. -/
def letterA : TextDatum := ⟨8, [⟨97, by decide⟩], [zeroByte], by decide⟩

theorem data_reaches_model_two_rows :
    DataReachesModel noFloats (fun _ => "a") (fun _ => emptyTable) (makeClassIdMap []) 3
      [⟨.int4 5, [.int8 (-7), .int2 3]⟩, ⟨.int2 (-1), [.int4 0, .int8 9]⟩] :=
  (data_reaches_model_iff noFloats (fun _ => "a") (fun _ => emptyTable) []
    (show 2 ≤ 3 by decide) (by simp) (by simp [FeatureDatum.IsId])).mpr (by
      simp only [forall_mem_cons, not_mem_nil, FeatureDatum.IsText, LabelKept]
      refine ⟨⟨⟨5, 0, by decide, by decide⟩, ?_⟩, ⟨⟨trivial, ?_⟩, ?_⟩⟩ <;> simp)

/-- The label 1.0 arrives as 0. An int8 label loses its upper half, and the number of a text feature
is not the number of its text. -/
theorem data_changed_on_the_way :
    ((buildLibsvmData noFloats (fun _ => "a") true (fun _ => emptyTable)
        (oneRow (.float8 0x3ff0000000000000) (.int4 7))).bind
          fun built => libsvmBatchPreprocessIdOnly built.1 2) =
        some { id := [[7, 0]], value := [[1, 1]], y := [0] } ∧
      numericLabel [] (.float8 0x3ff0000000000000) = some 1 ∧
      ¬ DataReachesModel noFloats (fun _ => "a") (fun _ => emptyTable) [] 2
        (oneRow (.float8 0x3ff0000000000000) (.int4 7)) ∧
      ¬ DataReachesModel noFloats (fun _ => "a") (fun _ => emptyTable) [] 2
        (oneRow (.int8 4294967297) (.int4 7)) ∧
      ¬ DataReachesModel noFloats (fun _ => "a") (fun _ => emptyTable) [] 2
        (oneRow (.int4 1) (.text letterA)) := by
  have hkept {label : LabelDatum} (f : FeatureDatum) (hf : f.IsId)
      (h : DataReachesModel noFloats (fun _ => "a") (fun _ => emptyTable) [] 2 (oneRow label f)) :
      LabelKept [] label ∧ ¬ f.IsText := by
    have hrow := h.kept (show 1 ≤ 2 by decide) (by simp [oneRow]) (by simpa [oneRow] using hf)
      _ mem_cons_self
    exact ⟨hrow.1, hrow.2 f mem_cons_self⟩
  have hone : doubleValue 0x3ff0000000000000 = some 1 := by decide +kernel
  refine ⟨by decide +kernel, hone, fun h => ?_, fun h => ?_, fun h => ?_⟩
  · have hzero : doubleValue 0x3ff0000000000000 = some 0 := (hkept (.int4 7) trivial h).1
    rw [hone] at hzero
    cases Option.some.inj hzero
  · have hlabel := (hkept (.int4 7) trivial h).1
    cases hlabel.2.1
  · exact (hkept (.text letterA) trivial h).2 trivial

end NeurDB.Pipeline
