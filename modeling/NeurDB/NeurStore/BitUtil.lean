import NeurDB.Framework.BitPack

/-!
# Packing codes into bits

`BitUtil::writeBits` lays out a vector of codes in fields of `nbits` bits, `BitUtil::readBits`
takes them apart again, and `BitUtil::computeBitWidth` chooses the width from the range of the
values and the tolerance. These are the scalar (`Naive`) versions; those for processors with vector
instructions are in `BitUtilAvx`.

The writer keeps its position in an `int` while the reader uses 64 bits. As long as the set bits
lie below position `2 ^ 31` (`exists_packed`) the codes come back; a set bit further on is written
outside the buffer (`writeBitsNaive_overflow`).
-/

namespace NeurDB.NeurStore

open List Nat
open Option (bind_eq_some_iff bind_none bind_some some)

/-- An `int` of the target: 32 bits, two's complement. -/
abbrev CInt := BitVec 32

/-- `packed_bytes[this_bit / 8] |= 1U << (this_bit % 8)`. The sum `bit_offset + b` is an
`int`; converted to `uint64_t`, a negative one is at least `2 ^ 64 - 2 ^ 31`, an index past
the end of every vector. -/
def storeBit (packed : List Byte) (thisBit : CInt) : Option (List Byte) :=
  if thisBit.msb then none else setBit packed thisBit.toNat

/-- The inner loop of the writer, over the bits of one value. -/
def writeValue (nbits : ℕ) (bitOffset : CInt) (val : ℕ) (packed : List Byte) :
    Option (List Byte) :=
  (range nbits).foldlM
    (fun packed b =>
      if val.testBit b then storeBit packed (bitOffset + BitVec.ofNat 32 b) else some packed)
    packed

/-- The outer loop of the writer, over the masked values. -/
def writeValues (nbits : ℕ) : List ℕ → CInt → List Byte → Option (List Byte)
  | [], _, packed => some packed
  | v :: vector, bitOffset, packed =>
    (writeValue nbits bitOffset (v % 2 ^ nbits) packed).bind
      (writeValues nbits vector (bitOffset + BitVec.ofNat 32 nbits))

/-- The same two loops with the position in 64 bits, which no vector exceeds. -/
def writeFields (nbits : ℕ) : List ℕ → ℕ → List Byte → Option (List Byte)
  | [], _, packed => some packed
  | v :: vector, bitOffset, packed =>
    (setField nbits bitOffset (v % 2 ^ nbits) packed).bind
      (writeFields nbits vector (bitOffset + nbits))

/-- The size of a packed vector in bytes. -/
def packedBytes (nelements nbits : ℕ) : ℕ := (nelements * nbits + 7) / 8

/-- `BitUtil::writeBitsNaive`; `none` is an exception or a write out of bounds. -/
def writeBitsNaive (vector : List ℕ) (nbits : CInt) : Option (List Byte) :=
  if nbits.toInt < 0 ∨ 32 < nbits.toInt then none
  else if vector.isEmpty then some []
  else
    writeValues nbits.toNat vector 0
      (replicate (packedBytes vector.length nbits.toNat) zeroByte)

/-- `BitUtil::readBitsNaive`; `none` is an exception. -/
def readBitsNaive (packed : List Byte) (nbits : CInt) (nelements : ℕ) : Option (List ℕ) :=
  if nbits.toInt < 0 ∨ 32 < nbits.toInt then none
  else if packed.length < packedBytes nelements nbits.toNat then none
  else
    some ((range nelements).map fun i => readField packed (i * nbits.toNat) nbits.toNat)

/-- `BitUtil::computeBitWidth`, with the logarithm taken exactly. -/
def computeBitWidth (range tolerance : ℚ) : CInt :=
  if range = 0 then 1
  else BitVec.ofInt 32 (max 1 (min (Int.clog 2 (range / (tolerance * 2))) 32))

/-! ### The writer -/

theorem writeValue_succ (nbits : ℕ) (bitOffset : CInt) (val : ℕ) (packed : List Byte) :
    writeValue (nbits + 1) bitOffset val packed =
      (writeValue nbits bitOffset val packed).bind fun packed =>
        if val.testBit nbits then storeBit packed (bitOffset + BitVec.ofNat 32 nbits)
        else some packed := by
  simp [writeValue, range_succ]

variable {vector : List ℕ} {j nbits off val : ℕ} {packed : List Byte}

theorem storeBit_ofNat {k : ℕ} (hint : k < 2 ^ 31) :
    storeBit packed (BitVec.ofNat 32 k) = setBit packed k := by
  have hk : (BitVec.ofNat 32 k).toNat = k := by
    rw [BitVec.toNat_ofNat]
    exact mod_eq_of_lt (by omega)
  have hmsb : (BitVec.ofNat 32 k).msb = false := by
    rw [BitVec.msb_eq_false_iff_two_mul_lt, hk]
    omega
  rw [storeBit, hmsb, hk]
  rfl

/-- Where the set bits of a value lie below position `2 ^ 31`, the `int` does not matter. -/
theorem writeValue_eq_setField (packed : List Byte)
    (hint : ∀ b < nbits, val.testBit b = true → off + b < 2 ^ 31) :
    writeValue nbits (BitVec.ofNat 32 off) val packed = setField nbits off val packed := by
  induction nbits with
  | zero => rfl
  | succ nbits ih =>
    rw [writeValue_succ, setField_succ, ih fun b hb => hint b (lt_succ_of_lt hb)]
    refine congrArg (Option.bind _) (funext fun packed => ?_)
    by_cases hb : val.testBit nbits = true
    · rw [if_pos hb, if_pos hb, ← BitVec.ofNat_add, storeBit_ofNat (hint nbits (lt_succ_self _) hb)]
    · rw [if_neg hb, if_neg hb]

/-- The bits of a vector laid out in fields from `off` on. -/
def FieldBit (nbits off : ℕ) (vector : List ℕ) (j : ℕ) : Prop :=
  ∃ i v b, vector[i]? = some v ∧ b < nbits ∧ v.testBit b = true ∧ j = off + i * nbits + b

theorem fieldBit_cons {v : ℕ} :
    FieldBit nbits off (v :: vector) j ↔
      (∃ b < nbits, (v % 2 ^ nbits).testBit b = true ∧ j = off + b) ∨
        FieldBit nbits (off + nbits) vector j := by
  constructor
  · rintro ⟨i, w, b, hget, hb, hval, rfl⟩
    cases i with
    | zero =>
      obtain rfl : v = w := some.inj hget
      exact .inl ⟨b, hb, by simp [hb, hval], by omega⟩
    | succ i => exact .inr ⟨i, w, b, hget, hb, hval, by rw [succ_mul]; omega⟩
  · rintro (⟨b, hb, hval, rfl⟩ | ⟨i, w, b, hget, hb, hval, rfl⟩)
    · rw [testBit_mod_two_pow, Bool.and_eq_true] at hval
      exact ⟨0, v, b, rfl, hb, hval.2, by omega⟩
    · exact ⟨i + 1, w, b, hget, hb, hval, by rw [succ_mul]; omega⟩

theorem lt_of_fieldBit (h : FieldBit nbits off vector j) : j < off + vector.length * nbits := by
  obtain ⟨i, v, b, hget, hb, -, rfl⟩ := h
  have hi : i < vector.length := (List.getElem?_eq_some_iff.mp hget).1
  have hend : (i + 1) * nbits ≤ vector.length * nbits := mul_le_mul_right nbits hi
  rw [succ_mul] at hend
  omega

/-- Fields are laid out one after the other; what they hold is added to the buffer. -/
theorem writeFields_spec (hlen : off + vector.length * nbits ≤ 8 * packed.length) :
    ∃ packed', writeFields nbits vector off packed = some packed' ∧
      packed'.length = packed.length ∧
      ∀ j, bitAt packed' j = true ↔ bitAt packed j = true ∨ FieldBit nbits off vector j := by
  induction vector generalizing off packed with
  | nil => exact ⟨packed, rfl, rfl, fun j => by simp [FieldBit]⟩
  | cons v vector ih =>
    rw [length_cons, succ_mul] at hlen
    obtain ⟨packed₁, h₁, hlen₁, hbits₁⟩ :=
      setField_spec (v % 2 ^ nbits) (show off + nbits ≤ 8 * packed.length by omega)
    obtain ⟨packed₂, h₂, hlen₂, hbits₂⟩ :=
      ih (show off + nbits + vector.length * nbits ≤ 8 * packed₁.length by omega)
    refine ⟨packed₂, ?_, hlen₂.trans hlen₁, fun j => ?_⟩
    · rw [writeFields, h₁, bind_some, h₂]
    · rw [hbits₂, hbits₁, fieldBit_cons, or_assoc]

theorem writeValues_eq_writeFields (packed : List Byte)
    (hint : ∀ j, FieldBit nbits off vector j → j < 2 ^ 31) :
    writeValues nbits vector (BitVec.ofNat 32 off) packed =
      writeFields nbits vector off packed := by
  induction vector generalizing off packed with
  | nil => rfl
  | cons v vector ih =>
    have hvalue : ∀ b < nbits, (v % 2 ^ nbits).testBit b = true → off + b < 2 ^ 31 :=
      fun b hb hval => hint _ (fieldBit_cons.mpr (.inl ⟨b, hb, hval, rfl⟩))
    rw [writeValues, writeFields, writeValue_eq_setField packed hvalue]
    refine congrArg (Option.bind _) (funext fun packed => ?_)
    rw [← BitVec.ofNat_add]
    exact ih packed fun j hj => hint j (fieldBit_cons.mpr (.inr hj))

/-! ### The size of the buffer -/

variable {bitOffset : CInt} {packed' : List Byte}

theorem length_writeValue (h : writeValue nbits bitOffset val packed = some packed') :
    packed'.length = packed.length := by
  induction nbits generalizing packed' with
  | zero => exact congrArg length (some.inj h).symm
  | succ nbits ih =>
    rw [writeValue_succ] at h
    obtain ⟨packed₁, h₁, h⟩ := bind_eq_some_iff.mp h
    rw [← ih h₁]
    split at h
    · unfold storeBit at h
      split at h
      · cases h
      · exact length_setBit h
    · rw [some.inj h]

theorem length_writeValues (h : writeValues nbits vector bitOffset packed = some packed') :
    packed'.length = packed.length := by
  induction vector generalizing bitOffset packed with
  | nil => exact congrArg length (some.inj h).symm
  | cons v vector ih =>
    obtain ⟨packed₁, h₁, h⟩ := bind_eq_some_iff.mp h
    exact (ih h).trans (length_writeValue h₁)

theorem length_writeBitsNaive {nbits : CInt} (h : writeBitsNaive vector nbits = some packed) :
    packed.length = packedBytes vector.length nbits.toNat := by
  unfold writeBitsNaive at h
  split_ifs at h with hnbits hempty
  · cases h
    rw [isEmpty_iff.mp hempty]
    simp [packedBytes]
  · rw [length_writeValues h, length_replicate]

theorem width_of_writeBitsNaive {nbits : CInt} (h : writeBitsNaive vector nbits = some packed) :
    ¬(nbits.toInt < 0 ∨ 32 < nbits.toInt) := by
  intro hnbits
  rw [writeBitsNaive, if_pos hnbits] at h
  cases h

/-! ### A position that overflows -/

theorem writeValue_overflow {b : ℕ} (packed : List Byte) (hb : b < nbits)
    (hval : val.testBit b = true) (hmsb : (BitVec.ofNat 32 (off + b)).msb = true) :
    writeValue nbits (BitVec.ofNat 32 off) val packed = none := by
  induction nbits with
  | zero => exact absurd hb (not_lt_zero b)
  | succ nbits ih =>
    rw [writeValue_succ]
    rcases Nat.lt_succ_iff_lt_or_eq.mp hb with hlt | rfl
    · rw [ih hlt, bind_none]
    · cases writeValue b (BitVec.ofNat 32 off) val packed with
      | none => rfl
      | some packed₁ =>
        rw [bind_some, if_pos hval, ← BitVec.ofNat_add, storeBit, if_pos hmsb]

theorem writeValues_overflow (packed : List Byte) (hbit : FieldBit nbits off vector j)
    (hmsb : (BitVec.ofNat 32 j).msb = true) :
    writeValues nbits vector (BitVec.ofNat 32 off) packed = none := by
  induction vector generalizing off packed with
  | nil =>
    obtain ⟨i, v, b, hget, -⟩ := hbit
    cases hget
  | cons v vector ih =>
    rw [writeValues]
    rcases fieldBit_cons.mp hbit with ⟨b, hb, hval, rfl⟩ | htail
    · rw [writeValue_overflow packed hb hval hmsb, bind_none]
    · cases writeValue nbits (BitVec.ofNat 32 off) (v % 2 ^ nbits) packed with
      | none => rfl
      | some packed₁ => rw [bind_some, ← BitVec.ofNat_add, ih packed₁ htail]

theorem lt_of_bitAt_writeValue (h : writeValue nbits bitOffset val packed = some packed')
    (hj : bitAt packed' j = true) :
    bitAt packed j = true ∨ j < 2 ^ 31 := by
  induction nbits generalizing packed' with
  | zero => exact .inl (by rwa [← some.inj h] at hj)
  | succ nbits ih =>
    rw [writeValue_succ] at h
    obtain ⟨packed₁, h₁, h⟩ := bind_eq_some_iff.mp h
    split at h
    · -- the position is not negative, so as a number it is below `2 ^ 31`
      unfold storeBit at h
      split at h
      · cases h
      · rename_i hmsb
        have hlt := (BitVec.msb_eq_false_iff_two_mul_lt).mp (Bool.eq_false_iff.mpr hmsb)
        rw [bitAt_setBit h, Bool.or_eq_true, decide_eq_true_eq] at hj
        rcases hj with hj | rfl
        · exact ih h₁ hj
        · exact .inr (by omega)
    · exact ih h₁ (by rwa [some.inj h])

theorem lt_of_bitAt_writeBitsNaive {nbits : CInt} (h : writeBitsNaive vector nbits = some packed)
    (hj : bitAt packed j = true) :
    j < 2 ^ 31 := by
  have hrun : ∀ {vector : List ℕ} {bitOffset : CInt} {packed packed' : List Byte},
      writeValues nbits.toNat vector bitOffset packed = some packed' →
      bitAt packed' j = true → bitAt packed j = true ∨ j < 2 ^ 31 := by
    intro vector
    induction vector with
    | nil => exact fun h hj => .inl (by rwa [← some.inj h] at hj)
    | cons v vector ih =>
      intro bitOffset packed packed' h hj
      obtain ⟨packed₁, h₁, h⟩ := bind_eq_some_iff.mp h
      rcases ih h hj with hj | hj
      · exact lt_of_bitAt_writeValue h₁ hj
      · exact .inr hj
  unfold writeBitsNaive at h
  split_ifs at h
  · cases h
    cases hj
  · rcases hrun h hj with hj | hj
    · rw [bitAt_replicate_zero] at hj
      cases hj
    · exact hj

/-! ### Reading back -/

theorem field_position_inj {i i' b b' : ℕ} (hb : b < nbits) (hb' : b' < nbits)
    (h : i * nbits + b = i' * nbits + b') : i = i' ∧ b = b' := by
  have hpos : 0 < nbits := by omega
  have hi : (i * nbits + b) / nbits = i := by
    rw [mul_comm, mul_add_div hpos, div_eq_of_lt hb, add_zero]
  have hi' : (i' * nbits + b') / nbits = i' := by
    rw [mul_comm, mul_add_div hpos, div_eq_of_lt hb', add_zero]
  have hii : i = i' := by rw [← hi, h, hi']
  subst hii
  exact ⟨rfl, by omega⟩

theorem readField_of_fieldBit {i : ℕ}
    (hbits : ∀ j, bitAt packed j = true ↔ FieldBit nbits 0 vector j) (hi : i < vector.length) :
    readField packed (i * nbits) nbits = vector[i] % 2 ^ nbits := by
  refine readField_eq (Nat.mod_lt _ (Nat.two_pow_pos nbits)) fun b hb => ?_
  rw [testBit_mod_two_pow, decide_eq_true hb, Bool.true_and, Bool.eq_iff_iff, hbits]
  constructor
  · rintro ⟨i', v, b', hget, hb', hval, hj⟩
    rw [zero_add] at hj
    obtain ⟨rfl, rfl⟩ := field_position_inj hb hb' hj
    obtain ⟨_, rfl⟩ := List.getElem?_eq_some_iff.mp hget
    exact hval
  · intro hval
    exact ⟨i, vector[i], b, getElem?_eq_getElem hi, hb, hval, by omega⟩

section Width

variable {nbits : CInt} (hnbits : ¬(nbits.toInt < 0 ∨ 32 < nbits.toInt))

include hnbits

theorem readBitsNaive_eq (hlen : packed.length = packedBytes vector.length nbits.toNat)
    (hbits : ∀ j, bitAt packed j = true ↔ FieldBit nbits.toNat 0 vector j) :
    readBitsNaive packed nbits vector.length = some (vector.map (· % 2 ^ nbits.toNat)) := by
  rw [readBitsNaive, if_neg hnbits, if_neg (by omega)]
  refine congrArg some (ext_getElem (by simp) fun i h₁ h₂ => ?_)
  rw [getElem_map, getElem_range, getElem_map]
  exact readField_of_fieldBit hbits _

/-- **The scalar writer lays out the fields**, as long as no set bit lies from position
`2 ^ 31` on. -/
theorem writeBitsNaive_spec (hint : ∀ j, FieldBit nbits.toNat 0 vector j → j < 2 ^ 31) :
    ∃ packed, writeBitsNaive vector nbits = some packed ∧
      ∀ j, bitAt packed j = true ↔ FieldBit nbits.toNat 0 vector j := by
  rw [writeBitsNaive, if_neg hnbits]
  split_ifs with hempty
  · refine ⟨[], rfl, fun j => ?_⟩
    rw [isEmpty_iff.mp hempty]
    simp [FieldBit, bitAt]
  · have hroom : 0 + vector.length * nbits.toNat ≤
        8 * (replicate (packedBytes vector.length nbits.toNat) zeroByte).length := by
      rw [length_replicate, packedBytes]
      omega
    obtain ⟨packed, hwrite, -, hbits⟩ := writeFields_spec hroom
    refine ⟨packed, (writeValues_eq_writeFields _ hint).trans hwrite, fun j => ?_⟩
    rw [hbits, bitAt_replicate_zero]
    exact or_iff_right Bool.false_ne_true

/-- **Packed codes are read back**, as long as no set bit lies from position `2 ^ 31` on. -/
theorem exists_packed (hlt : ∀ v ∈ vector, v < 2 ^ nbits.toNat)
    (hint : ∀ j, FieldBit nbits.toNat 0 vector j → j < 2 ^ 31) :
    ∃ packed, writeBitsNaive vector nbits = some packed ∧
      readBitsNaive packed nbits vector.length = some vector := by
  obtain ⟨packed, hwrite, hbits⟩ := writeBitsNaive_spec hnbits hint
  have hmask : vector.map (· % 2 ^ nbits.toNat) = vector :=
    (map_congr_left fun v hv => mod_eq_of_lt (hlt v hv)).trans (map_id' vector)
  refine ⟨packed, hwrite, ?_⟩
  rw [readBitsNaive_eq hnbits (length_writeBitsNaive hwrite) hbits, hmask]

theorem writeBitsNaive_zeros (n : ℕ) :
    ∃ packed, writeBitsNaive (replicate n 0) nbits = some packed ∧
      readBitsNaive packed nbits n = some (replicate n 0) := by
  have hzero : ∀ v ∈ replicate n 0, v < 2 ^ nbits.toNat := fun v hv => by
    rw [eq_of_mem_replicate hv]
    exact Nat.two_pow_pos _
  have hnone : ∀ j, FieldBit nbits.toNat 0 (replicate n 0) j → j < 2 ^ 31 := by
    rintro j ⟨i, v, b, hget, -, hval, -⟩
    rw [eq_of_mem_replicate (mem_of_getElem? hget), zero_testBit] at hval
    cases hval
  simpa only [length_replicate] using exists_packed hnbits hzero hnone

end Width

/-- **A set bit from position `2 ^ 31` on is written out of bounds.** -/
theorem writeBitsNaive_overflow {nbits : CInt} (hbit : FieldBit nbits.toNat 0 vector j)
    (hmsb : (BitVec.ofNat 32 j).msb = true) :
    writeBitsNaive vector nbits = none := by
  rw [writeBitsNaive]
  split_ifs with hnbits hempty
  · rfl
  · obtain ⟨i, v, b, hget, -⟩ := hbit
    rw [isEmpty_iff.mp hempty] at hget
    cases hget
  · exact writeValues_overflow _ hbit hmsb

end NeurDB.NeurStore
