import Mathlib.Tactic

/-!
# Rounding integers to a number of binary digits

A floating-point format with `p` binary digits holds an integer only if it is a number of `p` digits
times a power of two (`Fits`). `roundTo p` is what a conversion to the format makes of an integer:
the nearest one that fits, and of two the one with the even digits. (Overflow of the exponent is
left out.)

* `roundTo_eq_self_iff`: an integer stays as it is exactly if it fits.
* `natAbs_roundTo_le`: rounding does not lead over a power of two.

The other rounding here is to integers: `roundEven` takes the nearest one and of two the even one.
It differs from `round`, which takes the larger one, at the points half way above an even integer
(`roundEven_eq_round_iff`).
-/

namespace NeurDB.Rounding

/-- The exponent at which the digits of `n` fit into `p` places. -/
def exponent (p n : ℕ) : ℕ := n.log2 + 1 - p

/-- Round a natural number to `p` binary digits, ties to even. -/
def roundNat (p n : ℕ) : ℕ :=
  let unit := 2 ^ exponent p n
  let digits := n / unit
  let rest := n % unit
  if 2 * rest < unit ∨ 2 * rest = unit ∧ digits % 2 = 0 then digits * unit
  else (digits + 1) * unit

/-- Round an integer to `p` binary digits. -/
def roundTo (p : ℕ) (z : ℤ) : ℤ :=
  if 0 ≤ z then roundNat p z.natAbs else -(roundNat p z.natAbs : ℤ)

/-- A number of `p` binary digits, times a power of two. -/
def Fits (p n : ℕ) : Prop := ∃ digits e, digits < 2 ^ p ∧ n = digits * 2 ^ e

section

variable {p n : ℕ}

theorem lt_two_pow_log2_succ (n : ℕ) : n < 2 ^ (n.log2 + 1) := Nat.lt_log2_self

theorem div_unit_lt (p n : ℕ) : n / 2 ^ exponent p n < 2 ^ p := by
  rw [Nat.div_lt_iff_lt_mul (Nat.two_pow_pos _), ← pow_add]
  refine (lt_two_pow_log2_succ n).trans_le (Nat.pow_le_pow_right (by decide) ?_)
  unfold exponent
  omega

theorem Fits.dvd (h : Fits p n) : 2 ^ exponent p n ∣ n := by
  obtain ⟨digits, e, hlt, rfl⟩ := h
  rcases Nat.eq_zero_or_pos digits with rfl | hpos
  · rw [Nat.zero_mul]
    exact dvd_zero _
  · refine (Nat.pow_dvd_pow 2 ?_).trans (Nat.dvd_mul_left _ _)
    -- the product has at most `p + e` digits
    have hlog : (digits * 2 ^ e).log2 < p + e := by
      rw [Nat.log2_lt (Nat.mul_ne_zero hpos.ne' (Nat.two_pow_pos e).ne'), pow_add]
      exact Nat.mul_lt_mul_of_pos_right hlt (Nat.two_pow_pos e)
    unfold exponent
    omega

theorem roundNat_eq_self_of_dvd (h : 2 ^ exponent p n ∣ n) : roundNat p n = n := by
  have hmod : n % 2 ^ exponent p n = 0 := Nat.mod_eq_zero_of_dvd h
  have hpos := Nat.two_pow_pos (exponent p n)
  simp only [roundNat, hmod]
  rw [if_pos (.inl (by omega)), Nat.div_mul_cancel h]

theorem dvd_roundNat (p n : ℕ) : 2 ^ exponent p n ∣ roundNat p n := by
  simp only [roundNat]
  split
  · exact Nat.dvd_mul_left _ _
  · exact Nat.dvd_mul_left _ _

theorem roundNat_eq_self_iff : roundNat p n = n ↔ Fits p n := by
  constructor
  · intro h
    have hdvd : 2 ^ exponent p n ∣ n := by
      have := dvd_roundNat p n
      rwa [h] at this
    exact ⟨n / 2 ^ exponent p n, exponent p n, div_unit_lt p n, (Nat.div_mul_cancel hdvd).symm⟩
  · exact fun h => roundNat_eq_self_of_dvd h.dvd

theorem roundNat_le_two_pow (hp : 0 < p) {k : ℕ} (h : n ≤ 2 ^ k) : roundNat p n ≤ 2 ^ k := by
  rcases h.eq_or_lt with rfl | hlt
  · -- a power of two fits
    have hfits : Fits p (2 ^ k) := ⟨1, k, Nat.one_lt_two_pow hp.ne', (Nat.one_mul _).symm⟩
    exact (roundNat_eq_self_iff.mpr hfits).le
  · rcases Nat.eq_zero_or_pos n with rfl | hpos
    · have hfits : Fits p 0 := ⟨0, 0, Nat.two_pow_pos p, rfl⟩
      rw [roundNat_eq_self_iff.mpr hfits]
      exact Nat.zero_le _
    · have hlog : n.log2 < k := (Nat.log2_lt hpos.ne').mpr hlt
      have hexp : exponent p n ≤ k := by
        unfold exponent
        omega
      -- the next multiple of the unit is still at most the power of two
      obtain ⟨m, hm⟩ := Nat.pow_dvd_pow 2 hexp
      have hdigits : n / 2 ^ exponent p n < m := by
        rw [Nat.div_lt_iff_lt_mul (Nat.two_pow_pos _), Nat.mul_comm, ← hm]
        exact hlt
      have hnext : (n / 2 ^ exponent p n + 1) * 2 ^ exponent p n ≤ 2 ^ k := by
        rw [hm, Nat.mul_comm (2 ^ exponent p n) m]
        exact Nat.mul_le_mul_right _ hdigits
      refine le_trans ?_ hnext
      simp only [roundNat]
      split
      · exact Nat.mul_le_mul_right _ (Nat.le_succ _)
      · exact le_rfl

theorem natAbs_roundTo (p : ℕ) (z : ℤ) : (roundTo p z).natAbs = roundNat p z.natAbs := by
  unfold roundTo
  split
  · exact Int.natAbs_natCast _
  · rw [Int.natAbs_neg, Int.natAbs_natCast]

/-- **An integer stays as it is exactly if it fits.** -/
theorem roundTo_eq_self_iff {z : ℤ} : roundTo p z = z ↔ Fits p z.natAbs := by
  rw [← roundNat_eq_self_iff]
  unfold roundTo
  split <;> omega

theorem natAbs_roundTo_le (hp : 0 < p) {z : ℤ} {k : ℕ} (h : z.natAbs ≤ 2 ^ k) :
    (roundTo p z).natAbs ≤ 2 ^ k := by
  rw [natAbs_roundTo]
  exact roundNat_le_two_pow hp h

end

/-! ### To integers -/

section

variable {α : Type} [Field α] [LinearOrder α] [IsStrictOrderedRing α] [FloorRing α] {x : α}

/-- The nearest integer, ties to even. -/
def roundEven (x : α) : ℤ :=
  if x - ⌊x⌋ < 1 / 2 then ⌊x⌋ else if 1 / 2 < x - ⌊x⌋ then ⌊x⌋ + 1 else ⌊x⌋ + ⌊x⌋ % 2

/-- The point lies half way above an even integer. -/
def EvenTie (x : α) : Prop := ∃ k : ℤ, k % 2 = 0 ∧ x = k + 1 / 2

theorem round_of_lt (h : x - ⌊x⌋ < 1 / 2) : round x = ⌊x⌋ := by
  have hlow := Int.floor_le x
  rw [round_eq, Int.floor_eq_iff]
  constructor <;> linarith

theorem round_of_le (h : 1 / 2 ≤ x - ⌊x⌋) : round x = ⌊x⌋ + 1 := by
  have hhigh := Int.lt_floor_add_one x
  rw [round_eq, Int.floor_eq_iff]
  push_cast
  constructor <;> linarith

theorem floor_of_tie {k : ℤ} (h : x = k + 1 / 2) : ⌊x⌋ = k := by
  rw [Int.floor_eq_iff]
  constructor <;> linarith

/-- **The two roundings differ at the ties above even integers** and nowhere else. -/
theorem roundEven_eq_round_iff (x : α) : roundEven x = round x ↔ ¬EvenTie x := by
  rw [roundEven]
  split_ifs with hlow hhigh
  · rw [round_of_lt hlow]
    refine iff_of_true rfl ?_
    rintro ⟨k, -, h⟩
    rw [floor_of_tie h] at hlow
    linarith
  · rw [round_of_le hhigh.le]
    refine iff_of_true rfl ?_
    rintro ⟨k, -, h⟩
    rw [floor_of_tie h] at hhigh
    linarith
  · -- a tie, so the parity of the floor decides
    have htie : x = ⌊x⌋ + 1 / 2 := by linarith
    rw [round_of_le (not_lt.mp hlow)]
    constructor
    · rintro hodd ⟨k, hk, h⟩
      rw [floor_of_tie h] at hodd
      omega
    · intro hodd
      have hne : ⌊x⌋ % 2 ≠ 0 := fun heven => hodd ⟨⌊x⌋, heven, htie⟩
      omega

@[simp] theorem not_evenTie_intCast (k : ℤ) : ¬EvenTie (k : α) := by
  rintro ⟨m, -, h⟩
  have hfloor := floor_of_tie h
  rw [Int.floor_intCast] at hfloor
  rw [hfloor] at h
  linarith

end

end NeurDB.Rounding
