import NeurDB.NeurStore.BitUtil

/-!
# The two code paths of the bit packing

Where the compiler has AVX2, `BitUtil::writeBits` runs `writeBitsAVX2`. It packs 8, 4 or 2
values at a time: their masked bits are put together in one 64-bit word, the word is shifted
by the place of the first bit in its byte and merged into the eight bytes there. What is left
over is packed bit by bit as in the scalar version, with the position in 64 bits.
`readBitsAVX2` takes the batches apart the same way.

Both versions are compared with the fields (`FieldBit`), not with each other. A batch keeps
those of its bits that lie in the word after the shift (`bitAt_writeBatch`). For every width
but 31 this is all of them (`inWord_of_ne`); two values of 31 bits take 62, and behind a shift
of 4 or 6 the last bits of the second one fall off the word. The scalar writer in turn keeps
its position in an `int`.
-/

namespace NeurDB.NeurStore

open List Nat

/-- The number of values in a batch. -/
def batchSize (nbits : ℕ) : ℕ :=
  if nbits ≤ 8 then 8 else if nbits ≤ 16 then 4 else 2

/-- `acc |= ((uint64_t) vals[k]) << (k * nbits)`, from lane `k` on. -/
def accumulate (nbits : ℕ) : ℕ → List ℕ → BitVec 64 → BitVec 64
  | _, [], acc => acc
  | k, v :: vals, acc =>
    accumulate nbits (k + 1) vals (acc ||| BitVec.ofNat 64 v <<< (k * nbits))

/-- The number of bytes copied at a byte: eight, or what remains of the buffer. Positions of
the batches lie in the buffer, so the difference does not wrap. -/
def blockBytes (packed : List Byte) (byteIndex : ℕ) : ℕ :=
  if byteIndex + 8 ≤ packed.length then 8 else packed.length - byteIndex

/-- One round of the batch loop of `writeBitsAVX2`. -/
def writeBatch (nbits : ℕ) (values : List ℕ) (bitOffset : ℕ) (packed : List Byte) :
    List Byte :=
  let acc := accumulate nbits 0 (values.map (· % 2 ^ nbits)) 0#64
  let byteIndex := bitOffset / 8
  let localShift := bitOffset % 8
  let oldBlock := loadWord 64 packed byteIndex (blockBytes packed byteIndex)
  let merged := oldBlock ||| acc <<< localShift
  storeWord packed byteIndex (blockBytes packed byteIndex) merged

/-- The two loops of `writeBitsAVX2`: the given number of batches, then the rest. -/
def writeBatches (nbits : ℕ) : ℕ → List ℕ → ℕ → List Byte → Option (List Byte)
  | 0, vector, bitOffset, packed => writeFields nbits vector bitOffset packed
  | rounds + 1, vector, bitOffset, packed =>
    writeBatches nbits rounds (vector.drop (batchSize nbits))
      (bitOffset + batchSize nbits * nbits)
      (writeBatch nbits (vector.take (batchSize nbits)) bitOffset packed)

/-- `BitUtil::writeBitsAVX2`; `none` is an exception or a write out of bounds. The condition
`i + batch <= nelements` holds in the first `nelements / batch` rounds. -/
def writeBitsAVX2 (vector : List ℕ) (nbits : CInt) : Option (List Byte) :=
  if nbits.toInt < 0 ∨ 32 < nbits.toInt then none
  else if vector.isEmpty then some []
  else
    writeBatches nbits.toNat (vector.length / batchSize nbits.toNat) vector 0
      (replicate (packedBytes vector.length nbits.toNat) zeroByte)

/-- One round of the batch loop of `readBitsAVX2`. -/
def readBatch (nbits : ℕ) (packed : List Byte) (bitOffset : ℕ) : List ℕ :=
  let byteIndex := bitOffset / 8
  let localShift := bitOffset % 8
  let block := loadWord 64 packed byteIndex (blockBytes packed byteIndex)
  let acc := block >>> localShift
  (range (batchSize nbits)).map fun k => (acc >>> (k * nbits)).toNat % 2 ^ nbits

/-- The two loops of `readBitsAVX2`: the given number of batches, then the rest. -/
def readBatches (nbits : ℕ) (packed : List Byte) (rest : ℕ) : ℕ → ℕ → List ℕ
  | 0, bitOffset =>
    (range rest).map fun i => readField packed (bitOffset + i * nbits) nbits
  | rounds + 1, bitOffset =>
    readBatch nbits packed bitOffset ++
      readBatches nbits packed rest rounds (bitOffset + batchSize nbits * nbits)

/-- `BitUtil::readBitsAVX2`; `none` is an exception. -/
def readBitsAVX2 (packed : List Byte) (nbits : CInt) (nelements : ℕ) : Option (List ℕ) :=
  if nbits.toInt < 0 ∨ 32 < nbits.toInt then none
  else if nelements = 0 then some []
  else if packed.length < packedBytes nelements nbits.toNat then none
  else
    some (readBatches nbits.toNat packed (nelements % batchSize nbits.toNat)
      (nelements / batchSize nbits.toNat) 0)

/-! ### One batch -/

theorem batchSize_pos (nbits : ℕ) : 0 < batchSize nbits := by
  unfold batchSize
  split_ifs <;> omega

variable {j nbits off byteIndex : ℕ} {packed : List Byte} {vector values : List ℕ}

theorem fieldBit_map_mod :
    FieldBit nbits off (values.map (· % 2 ^ nbits)) j ↔ FieldBit nbits off values j := by
  induction values generalizing off with
  | nil => rfl
  | cons v values ih => rw [map_cons, fieldBit_cons, fieldBit_cons, ih, mod_mod]

theorem getLsbD_accumulate {k : ℕ} {vals : List ℕ} (acc : BitVec 64)
    (hvals : ∀ v ∈ vals, v < 2 ^ nbits) (t : ℕ) :
    (accumulate nbits k vals acc).getLsbD t = true ↔
      acc.getLsbD t = true ∨ t < 64 ∧ FieldBit nbits (k * nbits) vals t := by
  induction vals generalizing k acc with
  | nil => simp [accumulate, FieldBit]
  | cons v vals ih =>
    have hv : v % 2 ^ nbits = v := mod_eq_of_lt (hvals v mem_cons_self)
    -- the shifted lane has the bits of the field it stands in
    have hlane : (BitVec.ofNat 64 v <<< (k * nbits)).getLsbD t = true ↔
        t < 64 ∧ ∃ b < nbits, v.testBit b = true ∧ t = k * nbits + b := by
      simp only [BitVec.getLsbD_shiftLeft, BitVec.getLsbD_ofNat, Bool.and_eq_true,
        Bool.not_eq_true', decide_eq_true_eq, decide_eq_false_iff_not, not_lt]
      constructor
      · rintro ⟨⟨ht, hle⟩, -, hbit⟩
        have hb : t - k * nbits < nbits := by
          by_contra hb
          have hle : 2 ^ nbits ≤ 2 ^ (t - k * nbits) :=
            Nat.pow_le_pow_right Nat.two_pos (not_lt.mp hb)
          have hlt := hvals v mem_cons_self
          rw [testBit_lt_two_pow (hlt.trans_le hle)] at hbit
          cases hbit
        exact ⟨ht, t - k * nbits, hb, hbit, by omega⟩
      · rintro ⟨ht, b, hb, hbit, rfl⟩
        rw [Nat.add_sub_cancel_left]
        exact ⟨⟨ht, by omega⟩, by omega, hbit⟩
    rw [accumulate, ih _ fun w hw => hvals w (mem_cons_of_mem v hw), BitVec.getLsbD_or,
      Bool.or_eq_true, hlane, fieldBit_cons, hv, succ_mul, or_assoc, ← and_or_left]

theorem fieldBit_iff_sub :
    FieldBit nbits off values j ↔ off ≤ j ∧ FieldBit nbits 0 values (j - off) := by
  constructor
  · rintro ⟨i, v, b, hget, hb, hval, rfl⟩
    exact ⟨by omega, i, v, b, hget, hb, hval, by omega⟩
  · rintro ⟨hle, i, v, b, hget, hb, hval, hj⟩
    exact ⟨i, v, b, hget, hb, hval, by omega⟩

theorem blockBytes_le (h : byteIndex ≤ packed.length) :
    byteIndex + blockBytes packed byteIndex ≤ packed.length := by
  unfold blockBytes
  split_ifs <;> omega

theorem of_blockBytes_le (h : 8 * (byteIndex + blockBytes packed byteIndex) ≤ j) :
    8 * byteIndex + 64 ≤ j ∨ 8 * packed.length ≤ j := by
  unfold blockBytes at h
  split_ifs at h <;> omega

theorem blockBytes_le_eight (packed : List Byte) (byteIndex : ℕ) :
    blockBytes packed byteIndex ≤ 8 := by
  unfold blockBytes
  split_ifs <;> omega

/-- **A batch adds those of its bits that lie in the word after the shift.** -/
theorem bitAt_writeBatch (nbits : ℕ) (values : List ℕ)
    (hlen : off + values.length * nbits ≤ 8 * packed.length) (j : ℕ) :
    bitAt (writeBatch nbits values off packed) j = true ↔
      bitAt packed j = true ∨ FieldBit nbits off values j ∧ j < 8 * (off / 8) + 64 := by
  have hin := blockBytes_le (show off / 8 ≤ packed.length by omega)
  have height := blockBytes_le_eight packed (off / 8)
  have hmasked : ∀ v ∈ values.map (· % 2 ^ nbits), v < 2 ^ nbits := by
    intro v hv
    obtain ⟨w, -, rfl⟩ := mem_map.mp hv
    exact Nat.mod_lt w (Nat.two_pow_pos nbits)
  rw [writeBatch, bitAt_storeWord _ hin]
  by_cases hj : 8 * (off / 8) ≤ j ∧ j < 8 * (off / 8 + blockBytes packed (off / 8))
  · -- in the copied bytes the old bits stay and the shifted ones are added
    have hpos : 8 * (off / 8) + (j - 8 * (off / 8)) = j := by omega
    have hold : (loadWord 64 packed (off / 8) (blockBytes packed (off / 8))).getLsbD
        (j - 8 * (off / 8)) = bitAt packed j := by
      rw [getLsbD_loadWord, hpos, decide_eq_true (by omega), decide_eq_true (by omega),
        Bool.true_and, Bool.true_and]
    rw [if_pos hj, BitVec.getLsbD_or, Bool.or_eq_true, hold, BitVec.getLsbD_shiftLeft,
      Bool.and_eq_true, getLsbD_accumulate _ hmasked, fieldBit_map_mod, zero_mul]
    refine or_congr_right ?_
    have hshift : j - 8 * (off / 8) - off % 8 = j - off := by omega
    have hsub : FieldBit nbits off values j ↔ off ≤ j ∧ FieldBit nbits 0 values (j - off) :=
      fieldBit_iff_sub
    rw [hshift, hsub]
    simp only [BitVec.getLsbD_zero, Bool.false_eq_true, false_or, Bool.and_eq_true,
      Bool.not_eq_true', decide_eq_true_eq, decide_eq_false_iff_not]
    constructor
    · rintro ⟨⟨-, hle⟩, -, hbit⟩
      exact ⟨⟨by omega, hbit⟩, by omega⟩
    · rintro ⟨⟨hle, hbit⟩, hlt⟩
      exact ⟨⟨by omega, by omega⟩, by omega, hbit⟩
  · -- the bits of the batch that lie outside the copied bytes lie outside the word
    rw [if_neg hj, or_iff_left]
    rintro ⟨hbit, hlt⟩
    have hend := lt_of_fieldBit hbit
    have hstart := (fieldBit_iff_sub.mp hbit).1
    rcases of_blockBytes_le (show 8 * (off / 8 + blockBytes packed (off / 8)) ≤ j by omega)
      with h | h <;> omega

theorem length_writeBatch (nbits : ℕ) (values : List ℕ) (hlen : off ≤ 8 * packed.length) :
    (writeBatch nbits values off packed).length = packed.length :=
  length_storeWord _ (blockBytes_le (by omega))

/-! ### All batches -/

/-- Whether a position lies in the word of the batch it belongs to. -/
def InWord (nbits j : ℕ) : Prop :=
  j < 8 * (j / (batchSize nbits * nbits) * (batchSize nbits * nbits) / 8) + 64

theorem inWord_iff {m : ℕ} (hlow : m * (batchSize nbits * nbits) ≤ j)
    (hhigh : j < m * (batchSize nbits * nbits) + batchSize nbits * nbits) :
    InWord nbits j ↔ j < 8 * (m * (batchSize nbits * nbits) / 8) + 64 := by
  have hm : j / (batchSize nbits * nbits) = m :=
    Nat.div_eq_of_lt_le hlow (by rwa [Nat.succ_mul])
  rw [InWord, hm]

theorem rest_in_word (hnbits : nbits ≤ 32) {n : ℕ} (hn : n < batchSize nbits) : n * nbits ≤ 57 := by
  have hle : n * nbits ≤ (batchSize nbits - 1) * nbits :=
    mul_le_mul_right nbits (by omega)
  refine hle.trans ?_
  unfold batchSize
  split_ifs <;> omega

theorem fieldBit_append (nbits off : ℕ) (values vector : List ℕ) (j : ℕ) :
    FieldBit nbits off (values ++ vector) j ↔
      FieldBit nbits off values j ∨ FieldBit nbits (off + values.length * nbits) vector j := by
  induction values generalizing off with
  | nil => simp [FieldBit]
  | cons v values ih =>
    have hoff : off + nbits + values.length * nbits = off + (v :: values).length * nbits := by
      rw [length_cons, succ_mul]
      omega
    rw [cons_append, fieldBit_cons, fieldBit_cons, ih, hoff, or_assoc]

/-- **The batches and the rest**: the buffer gets the bits that lie in their batch's word. -/
theorem writeBatches_spec (hnbits : nbits ≤ 32) {m rounds : ℕ}
    (hrounds : rounds = vector.length / batchSize nbits)
    (hlen : m * (batchSize nbits * nbits) + vector.length * nbits ≤ 8 * packed.length) :
    ∃ packed', writeBatches nbits rounds vector (m * (batchSize nbits * nbits)) packed =
        some packed' ∧ packed'.length = packed.length ∧
      ∀ j, bitAt packed' j = true ↔ bitAt packed j = true ∨
        FieldBit nbits (m * (batchSize nbits * nbits)) vector j ∧ InWord nbits j := by
  induction rounds generalizing m vector packed with
  | zero =>
    have hrest : vector.length < batchSize nbits :=
      (div_eq_zero_iff_lt (batchSize_pos nbits)).mp hrounds.symm
    obtain ⟨packed', hwrite, hlen', hbits⟩ := writeFields_spec hlen
    refine ⟨packed', hwrite, hlen', fun j => ?_⟩
    rw [hbits]
    refine or_congr_right (and_iff_left_of_imp fun hbit => ?_).symm
    have hlow := (fieldBit_iff_sub.mp hbit).1
    have hhigh := lt_of_fieldBit hbit
    have hsmall := rest_in_word hnbits hrest
    have hfill : vector.length * nbits ≤ batchSize nbits * nbits :=
      mul_le_mul_right nbits hrest.le
    rw [inWord_iff hlow (by omega)]
    omega
  | succ rounds ih =>
    have hfull : batchSize nbits ≤ vector.length := by
      by_contra hlt
      rw [div_eq_of_lt (not_le.mp hlt)] at hrounds
      cases hrounds
    have htake : (vector.take (batchSize nbits)).length = batchSize nbits :=
      length_take_of_le hfull
    have hdrop : (vector.drop (batchSize nbits)).length = vector.length - batchSize nbits :=
      length_drop
    have hsplit : batchSize nbits * nbits + (vector.length - batchSize nbits) * nbits =
        vector.length * nbits := by
      rw [← Nat.add_mul, Nat.add_sub_cancel' hfull]
    have hnext : m * (batchSize nbits * nbits) + batchSize nbits * nbits =
        (m + 1) * (batchSize nbits * nbits) := (succ_mul _ _).symm
    have hbatch := bitAt_writeBatch nbits (vector.take (batchSize nbits))
      (show m * (batchSize nbits * nbits) + (vector.take (batchSize nbits)).length * nbits ≤
        8 * packed.length by rw [htake]; omega)
    have hlenBatch := length_writeBatch nbits (vector.take (batchSize nbits))
      (show m * (batchSize nbits * nbits) ≤ 8 * packed.length by omega)
    have hroundsRest : rounds = (vector.drop (batchSize nbits)).length / batchSize nbits := by
      rw [div_eq_sub_div (batchSize_pos nbits) hfull] at hrounds
      rw [hdrop]
      exact succ.inj hrounds
    obtain ⟨packed', hwrite, hlen', hbits⟩ := ih hroundsRest
      (show (m + 1) * (batchSize nbits * nbits) +
        (vector.drop (batchSize nbits)).length * nbits ≤
          8 * (writeBatch nbits (vector.take (batchSize nbits))
            (m * (batchSize nbits * nbits)) packed).length by
        rw [hdrop, hlenBatch]; omega)
    refine ⟨packed', ?_, hlen'.trans hlenBatch, fun j => ?_⟩
    · rw [writeBatches, hnext, hwrite]
    · have hvector : FieldBit nbits (m * (batchSize nbits * nbits)) vector j ↔
          FieldBit nbits (m * (batchSize nbits * nbits)) (vector.take (batchSize nbits)) j ∨
            FieldBit nbits ((m + 1) * (batchSize nbits * nbits))
              (vector.drop (batchSize nbits)) j := by
        have happend := fieldBit_append nbits (m * (batchSize nbits * nbits))
          (vector.take (batchSize nbits)) (vector.drop (batchSize nbits)) j
        rwa [take_append_drop, htake, hnext] at happend
      rw [hbits, hbatch, hvector, or_and_right, or_assoc]
      refine or_congr_right (or_congr_left (and_congr_right fun hbit => ?_))
      have hlow := (fieldBit_iff_sub.mp hbit).1
      have hhigh := lt_of_fieldBit hbit
      rw [htake] at hhigh
      exact (inWord_iff hlow hhigh).symm

/-! ### The widths -/

/-- For every width but 31 a batch behind its shift fits the word. -/
theorem inWord_of_ne (hpos : 0 < nbits) (hle : nbits ≤ 32) (hne : nbits ≠ 31) : InWord nbits j := by
  have hfits : ∀ m, m * (batchSize nbits * nbits) % 8 + batchSize nbits * nbits ≤ 64 := by
    intro m
    -- in each width the product is linear in the number of the batch
    interval_cases nbits <;> simp only [batchSize, reduceLeDiff, reduceIte, reduceMul] <;>
      omega
  have hword := hfits (j / (batchSize nbits * nbits))
  have hlt := lt_div_mul_add (a := j) (mul_pos (batchSize_pos nbits) hpos)
  rw [InWord]
  omega

/-- Of four batches of width 31 the second loses four bits and the third two. -/
theorem inWord_31 {i b : ℕ} (hb : b < 31) :
    InWord 31 (i * 31 + b) ↔ (i % 8 = 3 → b < 27) ∧ (i % 8 = 5 → b < 29) := by
  have hbatch : (i * 31 + b) / (batchSize 31 * 31) = i / 2 := by
    rw [show batchSize 31 * 31 = 62 from rfl]
    omega
  rw [InWord, hbatch, show batchSize 31 * 31 = 62 from rfl]
  -- the shift has period four in the batches, eight in the values
  obtain ⟨q, r, hr, rfl⟩ : ∃ q r, r < 8 ∧ i = 8 * q + r := ⟨i / 8, i % 8, by omega, by omega⟩
  interval_cases r <;> omega

/-- The codes of 31 bits for which a batch loses only zeros. -/
def NoLostBits (vector : List ℕ) : Prop :=
  ∀ i v, vector[i]? = some v →
    (i % 8 = 3 → v % 2 ^ 31 < 2 ^ 27) ∧ (i % 8 = 5 → v % 2 ^ 31 < 2 ^ 29)

theorem mod_lt_two_pow_iff {v n k : ℕ} :
    v % 2 ^ n < 2 ^ k ↔ ∀ b < n, v.testBit b = true → b < k := by
  constructor
  · intro hlt b hb hval
    by_contra hkb
    have hle : 2 ^ k ≤ 2 ^ b := Nat.pow_le_pow_right Nat.two_pos (not_lt.mp hkb)
    have hbit := testBit_lt_two_pow (hlt.trans_le hle)
    rw [testBit_mod_two_pow, decide_eq_true hb, Bool.true_and, hval] at hbit
    cases hbit
  · intro h
    refine lt_pow_two_of_testBit _ fun b hkb => ?_
    rw [testBit_mod_two_pow]
    by_contra hbit
    rw [Bool.not_eq_false, Bool.and_eq_true, decide_eq_true_eq] at hbit
    exact absurd (h b hbit.1 hbit.2) (not_lt.mpr hkb)

theorem noLostBits_iff : NoLostBits vector ↔ ∀ j, FieldBit 31 0 vector j → InWord 31 j := by
  constructor
  · rintro h j ⟨i, v, b, hget, hb, hval, rfl⟩
    obtain ⟨h3, h5⟩ := h i v hget
    rw [zero_add, inWord_31 hb]
    exact ⟨fun hi => mod_lt_two_pow_iff.mp (h3 hi) b hb hval,
      fun hi => mod_lt_two_pow_iff.mp (h5 hi) b hb hval⟩
  · intro h i v hget
    have hword : ∀ b < 31, v.testBit b = true →
        (i % 8 = 3 → b < 27) ∧ (i % 8 = 5 → b < 29) := by
      intro b hb hval
      rw [← inWord_31 hb]
      exact h _ ⟨i, v, b, hget, hb, hval, by omega⟩
    exact ⟨fun hi => mod_lt_two_pow_iff.mpr fun b hb hval => (hword b hb hval).1 hi,
      fun hi => mod_lt_two_pow_iff.mpr fun b hb hval => (hword b hb hval).2 hi⟩

theorem forall_inWord_iff (hle : nbits ≤ 32) :
    (∀ j, FieldBit nbits 0 vector j → InWord nbits j) ↔ (nbits = 31 → NoLostBits vector) := by
  by_cases h31 : nbits = 31
  · subst h31
    rw [noLostBits_iff]
    exact ⟨fun h _ => h, fun h => h rfl⟩
  · refine ⟨fun _ h => absurd h h31, fun _ j hbit => ?_⟩
    obtain ⟨-, -, b, -, hb, -⟩ := hbit
    exact inWord_of_ne (by omega) hle h31

/-! ### Reading batches -/

/-- **A batch is read field by field** where its set bits lie in the word. -/
theorem readBatch_eq (hlen : off + batchSize nbits * nbits ≤ 8 * packed.length)
    (hword : ∀ j, bitAt packed j = true → off ≤ j → j < off + batchSize nbits * nbits →
      j < 8 * (off / 8) + 64) :
    readBatch nbits packed off =
      (range (batchSize nbits)).map fun k => readField packed (off + k * nbits) nbits := by
  refine map_congr_left fun k hk => ?_
  have hend : (k + 1) * nbits ≤ batchSize nbits * nbits :=
    mul_le_mul_right nbits (mem_range.mp hk)
  rw [succ_mul] at hend
  apply eq_of_testBit_eq
  intro t
  rw [testBit_mod_two_pow, testBit_readField, BitVec.testBit_toNat,
    BitVec.getLsbD_ushiftRight, BitVec.getLsbD_ushiftRight, getLsbD_loadWord]
  by_cases ht : t < nbits
  · have hpos : 8 * (off / 8) + (off % 8 + (k * nbits + t)) = off + k * nbits + t := by omega
    rw [hpos, decide_eq_true ht, Bool.true_and, Bool.true_and]
    cases hbit : bitAt packed (off + k * nbits + t) with
    | false => rw [Bool.and_false, Bool.and_false]
    | true =>
      -- a set bit was copied: it lies in the word and in the buffer
      have hlt := hword _ hbit (by omega) (by omega)
      have hcopied : off % 8 + (k * nbits + t) < 8 * blockBytes packed (off / 8) := by
        by_contra hge
        have hbehind : 8 * (off / 8 + blockBytes packed (off / 8)) ≤ off + k * nbits + t := by
          omega
        rcases of_blockBytes_le hbehind with h | h <;> omega
      rw [decide_eq_true (by omega), decide_eq_true hcopied, Bool.true_and, Bool.true_and]
  · rw [decide_eq_false ht, Bool.false_and, Bool.false_and]

theorem readBatches_eq {m rounds : ℕ} (rest : ℕ)
    (hlen : (m + rounds) * (batchSize nbits * nbits) ≤ 8 * packed.length)
    (hword : ∀ j, bitAt packed j = true → InWord nbits j) :
    readBatches nbits packed rest rounds (m * (batchSize nbits * nbits)) =
      (range (rounds * batchSize nbits + rest)).map fun i =>
        readField packed (m * (batchSize nbits * nbits) + i * nbits) nbits := by
  induction rounds generalizing m with
  | zero => rw [readBatches, zero_mul, zero_add]
  | succ rounds ih =>
    have hnext : m * (batchSize nbits * nbits) + batchSize nbits * nbits =
        (m + 1) * (batchSize nbits * nbits) := (succ_mul _ _).symm
    have hfirst : (m + 1) * (batchSize nbits * nbits) ≤ 8 * packed.length :=
      (Nat.mul_le_mul_right _ (by omega)).trans hlen
    have hbatch : readBatch nbits packed (m * (batchSize nbits * nbits)) =
        (range (batchSize nbits)).map fun k =>
          readField packed (m * (batchSize nbits * nbits) + k * nbits) nbits :=
      readBatch_eq (hnext.le.trans hfirst) fun j hbit hlow hhigh =>
        (inWord_iff hlow hhigh).mp (hword j hbit)
    have hcount : (rounds + 1) * batchSize nbits + rest =
        batchSize nbits + (rounds * batchSize nbits + rest) := by
      rw [succ_mul]
      omega
    have hsum : m + (rounds + 1) = m + 1 + rounds := by omega
    rw [readBatches, hbatch, hnext, ih (hsum ▸ hlen), hcount,
      range_add (n := batchSize nbits), map_append, map_map]
    refine congrArg _ (map_congr_left fun i _ => ?_)
    rw [Function.comp_apply, ← hnext, add_mul, add_assoc]

/-! ### Both paths -/

/-- Both writers give one buffer, in which element `i` takes the bits from `i * nbits` on, and
both readers take the masked elements from it. -/
def ExactOnBothPaths (vector : List ℕ) (nbits : CInt) : Prop :=
  ∃ packed, writeBitsAVX2 vector nbits = some packed ∧
    writeBitsNaive vector nbits = some packed ∧
    packed.length = packedBytes vector.length nbits.toNat ∧
    (∀ i v b, vector[i]? = some v → b < nbits.toNat →
      bitAt packed (i * nbits.toNat + b) = v.testBit b) ∧
    readBitsAVX2 packed nbits vector.length = some (vector.map (· % 2 ^ nbits.toNat)) ∧
    readBitsNaive packed nbits vector.length = some (vector.map (· % 2 ^ nbits.toNat))

theorem writeBitsAVX2_spec (vector : List ℕ) {nbits : CInt}
    (hnbits : ¬(nbits.toInt < 0 ∨ 32 < nbits.toInt)) (hle : nbits.toNat ≤ 32) :
    ∃ packed, writeBitsAVX2 vector nbits = some packed ∧
      packed.length = packedBytes vector.length nbits.toNat ∧
      ∀ j, bitAt packed j = true ↔ FieldBit nbits.toNat 0 vector j ∧ InWord nbits.toNat j := by
  rw [writeBitsAVX2, if_neg hnbits]
  split_ifs with hempty
  · refine ⟨[], rfl, ?_, fun j => ?_⟩
    · rw [isEmpty_iff.mp hempty]
      simp [packedBytes]
    · rw [isEmpty_iff.mp hempty]
      simp [FieldBit, bitAt]
  · have hroom : 0 * (batchSize nbits.toNat * nbits.toNat) + vector.length * nbits.toNat ≤
        8 * (replicate (packedBytes vector.length nbits.toNat) zeroByte).length := by
      rw [length_replicate, packedBytes]
      omega
    obtain ⟨packed, hwrite, hlen, hbits⟩ := writeBatches_spec hle rfl hroom
    rw [zero_mul] at hwrite hbits
    refine ⟨packed, hwrite, hlen.trans length_replicate, fun j => ?_⟩
    rw [hbits, bitAt_replicate_zero]
    exact or_iff_right Bool.false_ne_true

theorem readBitsAVX2_eq_readBitsNaive {nbits : CInt}
    (hlen : packed.length = packedBytes vector.length nbits.toNat)
    (hword : ∀ j, bitAt packed j = true → InWord nbits.toNat j) :
    readBitsAVX2 packed nbits vector.length = readBitsNaive packed nbits vector.length := by
  have hshort : ¬packed.length < packedBytes vector.length nbits.toNat := hlen.not_lt
  rw [readBitsAVX2, readBitsNaive, if_neg hshort, if_neg hshort]
  split_ifs with hnbits hempty
  · rfl
  · rw [hempty]
    rfl
  · have hroom : (0 + vector.length / batchSize nbits.toNat) *
        (batchSize nbits.toNat * nbits.toNat) ≤ 8 * packed.length := by
      rw [zero_add, ← mul_assoc, hlen, packedBytes]
      have hdiv := mul_le_mul_right nbits.toNat
        (div_mul_le_self vector.length (batchSize nbits.toNat))
      omega
    have hbatches := readBatches_eq (vector.length % batchSize nbits.toNat) hroom hword
    rw [zero_mul, div_add_mod'] at hbatches
    rw [hbatches]
    simp only [zero_add]

theorem bitAt_of_fieldBit {n : ℕ}
    (hlayout : ∀ i v b, vector[i]? = some v → b < n → bitAt packed (i * n + b) = v.testBit b)
    (hbit : FieldBit n 0 vector j) : bitAt packed j = true := by
  obtain ⟨i, v, b, hget, hb, hval, rfl⟩ := hbit
  rw [zero_add, hlayout i v b hget hb, hval]

/-- **Bit packing is exact on both paths** where no set bit of a code lies from position
`2 ^ 31` on and, for codes of 31 bits, the batches lose none. -/
theorem exact_on_both_paths_iff (vector : List ℕ) (nbits : CInt) (hlow : 0 ≤ nbits.toInt)
    (hhigh : nbits.toInt ≤ 32) :
    ExactOnBothPaths vector nbits ↔
      (∀ j, FieldBit nbits.toNat 0 vector j → j < 2 ^ 31) ∧
        (nbits.toNat = 31 → NoLostBits vector) := by
  have hnbits : ¬(nbits.toInt < 0 ∨ 32 < nbits.toInt) := by omega
  have hle : nbits.toNat ≤ 32 := by
    rw [BitVec.toInt_eq_toNat_cond] at hlow hhigh
    split_ifs at hlow hhigh <;> omega
  obtain ⟨wide, hwide, hlenWide, hbitsWide⟩ := writeBitsAVX2_spec vector hnbits hle
  rw [← forall_inWord_iff hle]
  constructor
  · rintro ⟨packed, havx, hnaive, -, hlayout, -, -⟩
    obtain rfl : wide = packed := Option.some.inj (hwide.symm.trans havx)
    refine ⟨fun j hbit => ?_, fun j hbit => ?_⟩
    · exact lt_of_bitAt_writeBitsNaive hnaive (bitAt_of_fieldBit hlayout hbit)
    · exact ((hbitsWide j).mp (bitAt_of_fieldBit hlayout hbit)).2
  · rintro ⟨hint, hword⟩
    obtain ⟨packed, hnaive, hbits⟩ := writeBitsNaive_spec hnbits hint
    have hlen := length_writeBitsNaive hnaive
    -- no bit is lost, so the two buffers have the same bits
    obtain rfl : wide = packed := by
      refine eq_of_bitAt (hlenWide.trans hlen.symm) fun j => ?_
      rw [Bool.eq_iff_iff, hbitsWide, hbits]
      exact and_iff_left_of_imp (hword j)
    have hread := readBitsNaive_eq hnbits hlen hbits
    refine ⟨wide, hwide, hnaive, hlen, fun i v b hget hb => ?_, ?_, hread⟩
    · obtain ⟨hi, rfl⟩ := List.getElem?_eq_some_iff.mp hget
      have hfield := congrArg (testBit · b) (readField_of_fieldBit hbits hi)
      simpa only [testBit_readField, testBit_mod_two_pow, decide_eq_true hb,
        Bool.true_and] using hfield
    · rw [← hread]
      exact readBitsAVX2_eq_readBitsNaive hlen fun j hj => hword j ((hbits j).mp hj)

/-- Three codes of 31 bits, with all bits set in the first two. -/
theorem three_codes_exact : ExactOnBothPaths [2 ^ 31 - 1, 2 ^ 31 - 1, 5] 31#32 := by
  refine (exact_on_both_paths_iff _ 31#32 (by decide) (by decide)).mpr ⟨fun j hbit => ?_, ?_⟩
  · exact (lt_of_fieldBit hbit).trans (by decide)
  · rintro - i v hget
    have hi : i < 3 := (List.getElem?_eq_some_iff.mp hget).1
    exact ⟨fun h => by omega, fun h => by omega⟩

/-- The highest bit of the fourth code is lost on the path with batches. -/
theorem fourth_code_cut :
    writeBitsNaive [0, 0, 0, 2 ^ 30] 31#32 =
        some (replicate 15 zeroByte ++ [(8 : Fin 256)]) ∧
      writeBitsAVX2 [0, 0, 0, 2 ^ 30] 31#32 = some (replicate 16 zeroByte) ∧
      readBitsAVX2 (replicate 15 zeroByte ++ [(8 : Fin 256)]) 31#32 4 =
        some [0, 0, 0, 0] ∧
      ¬ExactOnBothPaths [0, 0, 0, 2 ^ 30] 31#32 := by
  refine ⟨by decide +kernel, by decide +kernel, by decide +kernel, ?_⟩
  rintro ⟨packed, havx, hnaive, -⟩
  have hdiffer : writeBitsAVX2 [0, 0, 0, 2 ^ 30] 31#32 ≠
      writeBitsNaive [0, 0, 0, 2 ^ 30] 31#32 := by decide +kernel
  exact hdiffer (havx.trans hnaive.symm)

end NeurDB.NeurStore
