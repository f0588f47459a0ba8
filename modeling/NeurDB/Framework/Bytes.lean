import NeurDB.Framework.System

/-!
# Integers as bytes

Fixed-width integers are laid out as byte lists. `leBytes n x` is the little-endian
layout of `x` in `n` bytes — what copying an integer out of memory gives on a
little-endian host — and `leVal` reads it back. `beVal` reads a byte list with the
most significant byte first.

A byte string is compared by its first differing byte, so byte strings of one length
compare as their big-endian readings do (`lt_iff_beVal_lt`). Comparing little-endian
layouts byte by byte therefore compares the *byte-swapped* integers (`bswap`), not the
integers themselves.
-/

namespace NeurDB

open List

abbrev Byte := Fin 256

-- one constant, so that `Fin.ofNat 256` is the same term in every module
instance neZero_byteSize : NeZero 256 := ⟨by decide⟩

def zeroByte : Byte := ⟨0, Nat.zero_lt_succ 255⟩

/-- A text of ASCII characters. -/
def ascii (s : String) : List Byte := s.toList.map fun c => Fin.ofNat 256 c.toNat

/-- The `n` low bytes of `x`, least significant first. -/
def leBytes : ℕ → ℕ → List Byte
  | 0, _ => []
  | n + 1, x => Fin.ofNat 256 x :: leBytes n (x / 256)

/-- The number whose little-endian layout is `l`. -/
def leVal : List Byte → ℕ
  | [] => 0
  | b :: l => b.val + 256 * leVal l

/-- The number whose big-endian layout is `l`. -/
def beVal : List Byte → ℕ
  | [] => 0
  | b :: l => b.val * 256 ^ l.length + beVal l

/-- The `n`-byte integer `x` with its bytes in the opposite order. -/
def bswap (n x : ℕ) : ℕ := beVal (leBytes n x)

@[simp] theorem length_leBytes (n x : ℕ) : (leBytes n x).length = n := by
  induction n generalizing x with
  | zero => rfl
  | succ n ih => rw [leBytes, length_cons, ih]

theorem leVal_leBytes {n x : ℕ} (hx : x < 256 ^ n) : leVal (leBytes n x) = x := by
  induction n generalizing x with
  | zero =>
    rw [pow_zero] at hx
    rw [leBytes, leVal]
    omega
  | succ n ih =>
    have hdiv : x / 256 < 256 ^ n := by
      rw [pow_succ] at hx
      omega
    rw [leBytes, leVal, ih hdiv, Fin.val_ofNat]
    omega

theorem ofNat_leVal_leBytes {w n : ℕ} (hw : 2 ^ w = 256 ^ n) (x : BitVec w) :
    BitVec.ofNat w (leVal (leBytes n x.toNat)) = x := by
  rw [leVal_leBytes (hw ▸ x.isLt), BitVec.ofNat_toNat, BitVec.setWidth_eq]

theorem leVal_lt (l : List Byte) : leVal l < 256 ^ l.length := by
  induction l with
  | nil => exact Nat.one_pos
  | cons b l ih =>
    have hb := b.isLt
    rw [leVal, length_cons, pow_succ]
    omega

theorem leBytes_leVal (l : List Byte) : leBytes l.length (leVal l) = l := by
  induction l with
  | nil => rfl
  | cons b l ih =>
    have hb := b.isLt
    have hlow : Fin.ofNat 256 (b.val + 256 * leVal l) = b := by
      apply Fin.ext
      rw [Fin.val_ofNat]
      omega
    have hhigh : (b.val + 256 * leVal l) / 256 = leVal l := by omega
    rw [leVal, length_cons, leBytes, hlow, hhigh, ih]

theorem beVal_lt (l : List Byte) : beVal l < 256 ^ l.length := by
  induction l with
  | nil => exact Nat.one_pos
  | cons b l ih =>
    have hb := b.isLt
    rw [beVal, length_cons, pow_succ]
    nlinarith

theorem bswap_lt (n x : ℕ) : bswap n x < 256 ^ n := by
  have h := beVal_lt (leBytes n x)
  rwa [length_leBytes] at h

theorem beVal_append (l m : List Byte) : beVal (l ++ m) = beVal l * 256 ^ m.length + beVal m := by
  induction l with
  | nil => rw [nil_append, beVal, Nat.zero_mul, Nat.zero_add]
  | cons b l ih =>
    rw [cons_append, beVal, beVal, ih, length_append, pow_add]
    ring

/-- Two-digit comparison: the high digits decide, the low ones break a tie. -/
theorem mul_add_lt_iff {a b c d n : ℕ} (hc : c < n) (hd : d < n) :
    a * n + c < b * n + d ↔ a < b ∨ a = b ∧ c < d := by
  constructor
  · intro h
    rcases Nat.lt_trichotomy a b with hab | rfl | hab
    · exact Or.inl hab
    · exact Or.inr ⟨rfl, by omega⟩
    · have : (b + 1) * n ≤ a * n := Nat.mul_le_mul_right n hab
      rw [Nat.succ_mul] at this
      omega
  · rintro (hab | ⟨rfl, hcd⟩)
    · have : (a + 1) * n ≤ b * n := Nat.mul_le_mul_right n hab
      rw [Nat.succ_mul] at this
      omega
    · omega

/-- **The byte order is the big-endian order.** -/
theorem lt_iff_beVal_lt {l m : List Byte} (h : l.length = m.length) :
    l < m ↔ beVal l < beVal m := by
  induction l generalizing m with
  | nil =>
    obtain rfl := length_eq_zero_iff.mp h.symm
    simp
  | cons a l ih =>
    cases m with
    | nil => cases h
    | cons b m =>
      have hlen : l.length = m.length := Nat.succ.inj h
      rw [cons_lt_cons_iff, ih hlen, beVal, beVal, hlen,
        mul_add_lt_iff (hlen ▸ beVal_lt l) (beVal_lt m), Fin.lt_def, Fin.ext_iff]

end NeurDB
