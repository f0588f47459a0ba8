import NeurDB.Framework.Bytes

/-!
# Bit fields in a byte buffer

Bit `k` of a byte buffer is bit `k % 8` of byte `k / 8`. `setBit` sets one bit and fails where
the buffer has no such byte; `readField` assembles a number from consecutive bits, the least
significant first.

What a buffer holds is described by `bitAt` alone. Setting a bit adds it to those that are set
and touches no other (`bitAt_setBit`), the bits of a field are those of the number read from
it (`testBit_readField`), so a number that was laid out bit by bit is read back
(`readField_eq`).

Words are copied from and to the buffer whole: `loadWord` takes the little-endian word at a
byte, `storeWord` puts one back. Their bits are those of the buffer from that byte on
(`getLsbD_loadWord`, `bitAt_storeWord`).
-/

namespace NeurDB

open List

/-- Whether bit `k` of the buffer is set; there are no set bits past the end. -/
def bitAt (buf : List Byte) (k : ℕ) : Bool :=
  match buf[k / 8]? with
  | some b => b.val.testBit (k % 8)
  | none => false

/-- The byte with bit `j` set. -/
def orBit (b : Byte) (j : ℕ) : Byte :=
  ⟨(b.val ||| 2 ^ j) % 256, Nat.mod_lt _ (Nat.zero_lt_succ 255)⟩

/-- Set bit `k` of the buffer. -/
def setBit (buf : List Byte) (k : ℕ) : Option (List Byte) :=
  match buf[k / 8]? with
  | some b => some (buf.set (k / 8) (orBit b (k % 8)))
  | none => none

/-- The number in the `nbits` bits from `off` on. -/
def readField (buf : List Byte) (off nbits : ℕ) : ℕ :=
  (List.range nbits).foldl
    (fun value b => if bitAt buf (off + b) then value ||| 2 ^ b else value) 0

/-- Add the low `nbits` bits of a number to the buffer, from bit `off` on. -/
def setField (nbits off val : ℕ) (buf : List Byte) : Option (List Byte) :=
  (List.range nbits).foldlM
    (fun buf b => if val.testBit b then setBit buf (off + b) else some buf) buf

/-- Copy `n` bytes from byte `i` on into a word that was zero. -/
def loadWord (w : ℕ) (buf : List Byte) (i n : ℕ) : BitVec w :=
  BitVec.ofNat w (leVal ((buf.drop i).take n))

/-- Copy the first `n` bytes of a word to byte `i` on. -/
def storeWord {w : ℕ} (buf : List Byte) (i n : ℕ) (word : BitVec w) : List Byte :=
  buf.take i ++ (leBytes n word.toNat ++ buf.drop (i + n))

/-! ### Setting bits -/

variable {buf buf' : List Byte} {i k : ℕ}

theorem testBit_orBit {j : ℕ} (b : Byte) (hj : j < 8) :
    (orBit b j).val.testBit i = (b.val.testBit i || decide (j = i)) := by
  have hlt : b.val ||| 2 ^ j < 256 :=
    show b.val ||| 2 ^ j < 2 ^ 8 from
    Nat.or_lt_two_pow b.isLt (Nat.pow_lt_pow_right Nat.one_lt_two hj)
  have hval : (orBit b j).val = b.val ||| 2 ^ j := Nat.mod_eq_of_lt hlt
  rw [hval, Nat.testBit_or, Nat.testBit_two_pow]

theorem eq_of_div_mod_eq (hdiv : k / 8 = i / 8) : k % 8 = i % 8 ↔ k = i := by
  omega

theorem setBit_eq_some (h : setBit buf k = some buf') :
    ∃ b, buf[k / 8]? = some b ∧ buf' = buf.set (k / 8) (orBit b (k % 8)) := by
  unfold setBit at h
  split at h
  · exact ⟨_, ‹_›, (Option.some.inj h).symm⟩
  · cases h

theorem length_setBit (h : setBit buf k = some buf') : buf'.length = buf.length := by
  obtain ⟨b, -, rfl⟩ := setBit_eq_some h
  exact length_set

theorem exists_setBit (hk : k < 8 * buf.length) : ∃ buf', setBit buf k = some buf' := by
  have hlt : k / 8 < buf.length := by omega
  rw [setBit, getElem?_eq_getElem hlt]
  exact ⟨_, rfl⟩

theorem bitAt_setBit (h : setBit buf k = some buf') (i : ℕ) :
    bitAt buf' i = (bitAt buf i || decide (k = i)) := by
  obtain ⟨b, hb, rfl⟩ := setBit_eq_some h
  have hlt : k / 8 < buf.length := (List.getElem?_eq_some_iff.mp hb).1
  unfold bitAt
  by_cases hdiv : k / 8 = i / 8
  · rw [getElem?_set, if_pos hdiv, if_pos hlt, ← hdiv, hb]
    dsimp only
    rw [testBit_orBit b (Nat.mod_lt _ (by omega))]
    simp [eq_of_div_mod_eq hdiv]
  · have hne : k ≠ i := fun heq => hdiv (congrArg (· / 8) heq)
    rw [getElem?_set_ne hdiv, decide_eq_false hne, Bool.or_false]

@[simp] theorem bitAt_replicate_zero (n i : ℕ) : bitAt (List.replicate n zeroByte) i = false := by
  unfold bitAt
  rw [getElem?_replicate]
  by_cases h : i / 8 < n
  · rw [if_pos h]
    exact Nat.zero_testBit _
  · rw [if_neg h]

theorem setField_succ (nbits off val : ℕ) (buf : List Byte) :
    setField (nbits + 1) off val buf =
      (setField nbits off val buf).bind fun buf =>
        if val.testBit nbits then setBit buf (off + nbits) else some buf := by
  simp [setField, range_succ]

/-- A field adds its bits to the buffer and touches no other. -/
theorem setField_spec {nbits off : ℕ} (val : ℕ) (hlen : off + nbits ≤ 8 * buf.length) :
    ∃ buf', setField nbits off val buf = some buf' ∧ buf'.length = buf.length ∧
      ∀ j, bitAt buf' j = true ↔
        bitAt buf j = true ∨ ∃ b < nbits, val.testBit b = true ∧ j = off + b := by
  induction nbits with
  | zero => exact ⟨buf, rfl, rfl, fun j => by simp⟩
  | succ nbits ih =>
    obtain ⟨buf₁, h₁, hlen₁, hbits₁⟩ := ih (by omega)
    rw [setField_succ, h₁]
    -- the last bit of the number is stored only if it is set
    by_cases hb : val.testBit nbits = true
    · obtain ⟨buf₂, h₂⟩ : ∃ buf₂, setBit buf₁ (off + nbits) = some buf₂ :=
        exists_setBit (by omega)
      refine ⟨buf₂, ?_, (length_setBit h₂).trans hlen₁, fun j => ?_⟩
      · rw [Option.bind_some, if_pos hb, h₂]
      · rw [bitAt_setBit h₂, Bool.or_eq_true, hbits₁, decide_eq_true_eq, or_assoc]
        refine or_congr_right ⟨?_, ?_⟩
        · rintro (⟨b, hlt, hval, rfl⟩ | rfl)
          · exact ⟨b, by omega, hval, rfl⟩
          · exact ⟨nbits, Nat.lt_succ_self _, hb, rfl⟩
        · rintro ⟨b, hlt, hval, rfl⟩
          rcases Nat.lt_succ_iff_lt_or_eq.mp hlt with hlt | rfl
          · exact Or.inl ⟨b, hlt, hval, rfl⟩
          · exact Or.inr rfl
    · refine ⟨buf₁, by rw [Option.bind_some, if_neg hb], hlen₁, fun j => ?_⟩
      rw [hbits₁]
      refine or_congr_right ⟨?_, ?_⟩
      · rintro ⟨b, hlt, hval, rfl⟩
        exact ⟨b, by omega, hval, rfl⟩
      · rintro ⟨b, hlt, hval, rfl⟩
        have hne : b ≠ nbits := fun heq => hb (heq ▸ hval)
        exact ⟨b, by omega, hval, rfl⟩

/-! ### Reading fields -/

theorem readField_succ (buf : List Byte) (off nbits : ℕ) :
    readField buf off (nbits + 1) =
      if bitAt buf (off + nbits) then readField buf off nbits ||| 2 ^ nbits
      else readField buf off nbits := by
  rw [readField, range_succ, foldl_append]
  rfl

theorem testBit_readField (buf : List Byte) (off nbits i : ℕ) :
    (readField buf off nbits).testBit i = (decide (i < nbits) && bitAt buf (off + i)) := by
  induction nbits with
  | zero => exact Nat.zero_testBit i
  | succ nbits ih =>
    rw [readField_succ]
    -- bit `nbits` is the one this round adds
    by_cases hi : i = nbits
    · subst hi
      cases hb : bitAt buf (off + i) <;> simp [ih]
    · have hlt : i < nbits + 1 ↔ i < nbits := by omega
      cases hb : bitAt buf (off + nbits) <;>
        simp [ih, hlt, Nat.testBit_two_pow_of_ne (Ne.symm hi)]

/-- **A number laid out bit by bit is read back.** -/
theorem readField_eq {off nbits v : ℕ} (hv : v < 2 ^ nbits)
    (h : ∀ b < nbits, bitAt buf (off + b) = v.testBit b) : readField buf off nbits = v := by
  apply Nat.eq_of_testBit_eq
  intro i
  rw [testBit_readField]
  by_cases hi : i < nbits
  · rw [decide_eq_true hi, Bool.true_and, h i hi]
  · have hle : 2 ^ nbits ≤ 2 ^ i := Nat.pow_le_pow_right Nat.two_pos (not_lt.mp hi)
    rw [decide_eq_false hi, Bool.false_and, Nat.testBit_lt_two_pow (lt_of_lt_of_le hv hle)]

/-! ### Words in the buffer -/

theorem bitAt_cons (b : Byte) (buf : List Byte) (k : ℕ) :
    bitAt (b :: buf) k = if k < 8 then b.val.testBit k else bitAt buf (k - 8) := by
  by_cases hk : k < 8
  · have hdiv : k / 8 = 0 := Nat.div_eq_of_lt hk
    have hmod : k % 8 = k := Nat.mod_eq_of_lt hk
    rw [if_pos hk, bitAt, hdiv, hmod, getElem?_cons_zero]
  · have hdiv : k / 8 = (k - 8) / 8 + 1 := by omega
    have hmod : k % 8 = (k - 8) % 8 := by omega
    rw [if_neg hk, bitAt, hdiv, hmod, getElem?_cons_succ, bitAt]

theorem testBit_leVal (buf : List Byte) (k : ℕ) : (leVal buf).testBit k = bitAt buf k := by
  induction buf generalizing k with
  | nil => exact Nat.zero_testBit k
  | cons b buf ih =>
    have hsum : leVal (b :: buf) = 2 ^ 8 * leVal buf + b.val := by
      rw [leVal]
      omega
    rw [hsum, Nat.testBit_two_pow_mul_add _ b.isLt, bitAt_cons, ih]

theorem eq_of_bitAt (hlen : buf.length = buf'.length) (hbits : ∀ k, bitAt buf k = bitAt buf' k) :
    buf = buf' := by
  have hval : leVal buf = leVal buf' := by
    apply Nat.eq_of_testBit_eq
    intro k
    rw [testBit_leVal, testBit_leVal, hbits]
  rw [← leBytes_leVal buf, ← leBytes_leVal buf', hlen, hval]

theorem bitAt_leBytes (n x k : ℕ) :
    bitAt (leBytes n x) k = (decide (k < 8 * n) && x.testBit k) := by
  induction n generalizing x k with
  | zero => rfl
  | succ n ih =>
    rw [leBytes, bitAt_cons]
    by_cases hk : k < 8
    · have hlt : k < 8 * (n + 1) := by omega
      have hlow : (Fin.ofNat 256 x).val = x % 2 ^ 8 := Fin.val_ofNat 256 x
      rw [if_pos hk, hlow, Nat.testBit_mod_two_pow, decide_eq_true hk, decide_eq_true hlt]
    · have hlt : k - 8 < 8 * n ↔ k < 8 * (n + 1) := by omega
      have hhigh : (x / 2 ^ 8).testBit (k - 8) = x.testBit k := by
        rw [Nat.testBit_div_two_pow, Nat.sub_add_cancel (not_lt.mp hk)]
      rw [if_neg hk, ih, decide_eq_decide.mpr hlt]
      exact congrArg (decide (k < 8 * (n + 1)) && ·) hhigh

theorem bitAt_drop (buf : List Byte) (i k : ℕ) : bitAt (buf.drop i) k = bitAt buf (8 * i + k) := by
  have hdiv : (8 * i + k) / 8 = i + k / 8 := by omega
  have hmod : (8 * i + k) % 8 = k % 8 := by omega
  rw [bitAt, bitAt, getElem?_drop, hdiv, hmod]

theorem bitAt_take (buf : List Byte) (n k : ℕ) :
    bitAt (buf.take n) k = (decide (k < 8 * n) && bitAt buf k) := by
  have hdiv : k / 8 < n ↔ k < 8 * n := by omega
  rw [bitAt, bitAt, getElem?_take]
  by_cases hk : k < 8 * n
  · rw [if_pos (hdiv.mpr hk), decide_eq_true hk, Bool.true_and]
  · rw [if_neg (hdiv.not.mpr hk), decide_eq_false hk, Bool.false_and]

theorem bitAt_append (buf buf' : List Byte) (k : ℕ) :
    bitAt (buf ++ buf') k =
      if k < 8 * buf.length then bitAt buf k else bitAt buf' (k - 8 * buf.length) := by
  by_cases hk : k < 8 * buf.length
  · rw [if_pos hk, bitAt, bitAt, getElem?_append_left (by omega)]
  · have hdiv : k / 8 - buf.length = (k - 8 * buf.length) / 8 := by omega
    have hmod : k % 8 = (k - 8 * buf.length) % 8 := by omega
    rw [if_neg hk, bitAt, bitAt, getElem?_append_right (by omega), hdiv, hmod]

/-- The bits of a loaded word: those of the buffer, as far as bytes were copied. -/
theorem getLsbD_loadWord (w : ℕ) (buf : List Byte) (i n t : ℕ) :
    (loadWord w buf i n).getLsbD t =
      (decide (t < w) && (decide (t < 8 * n) && bitAt buf (8 * i + t))) := by
  rw [loadWord, BitVec.getLsbD_ofNat, testBit_leVal, bitAt_take, bitAt_drop]

theorem length_storeWord {w n : ℕ} (word : BitVec w) (hin : i + n ≤ buf.length) :
    (storeWord buf i n word).length = buf.length := by
  simp only [storeWord, length_append, length_take, length_leBytes, length_drop]
  omega

/-- Storing a word replaces the bits of its bytes and no others. -/
theorem bitAt_storeWord {w n : ℕ} (word : BitVec w) (hin : i + n ≤ buf.length) (k : ℕ) :
    bitAt (storeWord buf i n word) k =
      if 8 * i ≤ k ∧ k < 8 * (i + n) then word.getLsbD (k - 8 * i) else bitAt buf k := by
  have htake : (buf.take i).length = i := by
    rw [length_take]
    omega
  rw [storeWord, bitAt_append, htake, bitAt_append, length_leBytes]
  by_cases hlow : k < 8 * i
  · rw [if_pos hlow, if_neg (by omega), bitAt_take, decide_eq_true hlow, Bool.true_and]
  rw [if_neg hlow]
  by_cases hmid : k - 8 * i < 8 * n
  · rw [if_pos hmid, if_pos (by omega), bitAt_leBytes, decide_eq_true hmid, Bool.true_and]
    rfl
  · have hpos : 8 * (i + n) + (k - 8 * i - 8 * n) = k := by omega
    rw [if_neg hmid, if_neg (by omega), bitAt_drop, hpos]

end NeurDB
