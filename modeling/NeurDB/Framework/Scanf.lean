import Mathlib.Tactic

/-!
# Numeric conversions of `sscanf`

A conversion skips white space and then takes the longest text that looks like a number of its
kind, whatever comes behind it; it gives the number and the text that is left, or fails. The blanks
of a format need no treatment of their own, since the conversions skip white space anyway.

* `scanInteger` is what `%u` and `%llu` have in common: a sign, which may be missing, and digits.
  `strtoull` is the 64-bit number that comes out.
* `scanDecimal` is `%lf` for decimal numbers without an exponent. (Exponents, hexadecimal numbers,
  infinities and NaNs are left out.)
-/

namespace NeurDB.Scanf

open List

/-- `isspace`. -/
def isSpace (c : Char) : Bool :=
  c = ' ' ∨ c = '\t' ∨ c = '\n' ∨ c = '\x0b' ∨ c = '\x0c' ∨ c = '\r'

def skipSpace (l : List Char) : List Char := l.dropWhile isSpace

/-- A sign, and whether it is a minus. -/
def scanSign : List Char → Bool × List Char
  | '-' :: l => (true, l)
  | '+' :: l => (false, l)
  | l => (false, l)

/-- The number written with these digits. -/
def natOf (digits : List Char) : ℕ := digits.foldl (fun n c => 10 * n + (c.toNat - '0'.toNat)) 0

def scanInteger (l : List Char) : Option ((Bool × ℕ) × List Char) :=
  let (neg, l) := scanSign (skipSpace l)
  let digits := l.takeWhile Char.isDigit
  if digits = [] then none else some ((neg, natOf digits), l.dropWhile Char.isDigit)

/-- The result of `strtoull`: too large numbers become the largest one, and a minus negates. -/
def strtoull (neg : Bool) (n : ℕ) : ℕ :=
  if 2 ^ 64 ≤ n then 2 ^ 64 - 1 else if neg then (2 ^ 64 - n) % 2 ^ 64 else n

/-- `%u`: the low 32 bits of the number. -/
def scanU32 (l : List Char) : Option (BitVec 32 × List Char) :=
  (scanInteger l).map fun r => (BitVec.ofNat 32 (strtoull r.1.1 r.1.2), r.2)

/-- `%llu`. -/
def scanU64 (l : List Char) : Option (ℕ × List Char) :=
  (scanInteger l).map fun r => (strtoull r.1.1 r.1.2, r.2)

/-- The number written with these digits before and behind the point. -/
def ratOf (neg : Bool) (int frac : List Char) : ℚ :=
  (if neg then -1 else 1) * (natOf int + natOf frac / 10 ^ frac.length)

/-- `%lf`, for decimal numbers without an exponent. -/
def scanDecimal (l : List Char) : Option (ℚ × List Char) :=
  let (neg, l) := scanSign (skipSpace l)
  let int := l.takeWhile Char.isDigit
  match l.dropWhile Char.isDigit with
  | '.' :: rest =>
    let frac := rest.takeWhile Char.isDigit
    if int = [] ∧ frac = [] then none
    else some (ratOf neg int frac, rest.dropWhile Char.isDigit)
  | rest => if int = [] then none else some (ratOf neg int [], rest)

end NeurDB.Scanf
