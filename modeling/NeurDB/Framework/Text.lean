import Mathlib.Data.List.Basic
import Mathlib.Data.Int.Basic

/-!
# Decimal numbers and words in a text

Two small formats that programs exchange: an integer in decimal notation (`printInt`, `readInt`),
and words that are separated by blanks (`words`), as `%d` of C and `int`, `str.split` of Python
have them.

* `readInt_printInt`: a printed integer is read back.
* `words_join`: words that are joined by one blank each are found again, also with a blank
  behind the last one.
-/

namespace NeurDB.Text

open List

/-! ### Integers -/

/-- An integer in decimal notation. -/
def printInt : ℤ → List Char
  | .ofNat n => Nat.toDigits 10 n
  | .negSucc n => '-' :: Nat.toDigits 10 (n + 1)

def readDigits (l : List Char) : Option ℕ :=
  if l ≠ [] ∧ l.all Char.isDigit then some (Nat.ofDigitChars 10 l 0) else none

/-- Read a decimal integer, with or without a sign. -/
def readInt (l : List Char) : Option ℤ :=
  match l with
  | '-' :: digits => (readDigits digits).map fun n : ℕ => -(n : ℤ)
  | '+' :: digits => (readDigits digits).map fun n : ℕ => (n : ℤ)
  | digits => (readDigits digits).map fun n : ℕ => (n : ℤ)

theorem readDigits_toDigits (n : ℕ) : readDigits (Nat.toDigits 10 n) = some n := by
  have hdigits : (Nat.toDigits 10 n).all Char.isDigit = true :=
    all_eq_true.mpr fun _ hc => Nat.isDigit_of_mem_toDigits (by decide) (by decide) hc
  rw [readDigits, if_pos ⟨Nat.toDigits_ne_nil, hdigits⟩,
    Nat.ofDigitChars_toDigits (by decide) (by decide)]

theorem isDigit_or_minus_of_mem_printInt {z : ℤ} {c : Char} (h : c ∈ printInt z) :
    c.isDigit = true ∨ c = '-' := by
  cases z with
  | ofNat n => exact .inl (Nat.isDigit_of_mem_toDigits (by decide) (by decide) h)
  | negSucc n =>
    rcases mem_cons.mp h with rfl | hc
    · exact .inr rfl
    · exact .inl (Nat.isDigit_of_mem_toDigits (by decide) (by decide) hc)

theorem printInt_ne_nil (z : ℤ) : printInt z ≠ [] := by
  cases z with
  | ofNat n => exact Nat.toDigits_ne_nil
  | negSucc n => exact cons_ne_nil _ _

theorem readInt_printInt (z : ℤ) : readInt (printInt z) = some z := by
  cases z with
  | ofNat n =>
    -- the first character is a digit, and not a sign
    obtain ⟨c, l, hcons⟩ := exists_cons_of_ne_nil (Nat.toDigits_ne_nil (n := n) (b := 10))
    have hdigit : c.isDigit = true := by
      refine Nat.isDigit_of_mem_toDigits (b := 10) (n := n) (by decide) (by decide) ?_
      rw [hcons]
      exact mem_cons_self
    have hread : readInt (c :: l) = (readDigits (c :: l)).map fun n : ℕ => (n : ℤ) := by
      unfold readInt
      split
      · next heq =>
        cases heq
        cases hdigit
      · next heq =>
        cases heq
        cases hdigit
      · rfl
    rw [printInt, hcons, hread, ← hcons, readDigits_toDigits]
    rfl
  | negSucc n =>
    rw [printInt, readInt, readDigits_toDigits, Option.map_some]
    rfl

/-! ### Words -/

section Words

variable {α : Type} (blank : α → Bool)

/-- The words between blanks. -/
def words (l : List α) : List (List α) := (l.splitOnP blank).filter (· ≠ [])

variable {blank} {w : List α}

theorem words_of_no_blank (hw : ∀ c ∈ w, blank c = false) (hne : w ≠ []) : words blank w = [w] := by
  rw [words, splitOnP_eq_singleton hw, filter_cons_of_pos (by simpa using hne), filter_nil]

theorem words_append_blank {b : α} (hb : blank b = true)
    (hw : ∀ c ∈ w, blank c = false) (hne : w ≠ []) (l : List α) :
    words blank (w ++ b :: l) = w :: words blank l := by
  rw [words, splitOnP_append_cons_of_forall_mem hw b hb l,
    filter_cons_of_pos (by simpa using hne), words]

/-- **Words come back**: each word with a blank before it, behind a first word. -/
theorem words_join {b : α} (hb : blank b = true) (hw : ∀ c ∈ w, blank c = false)
    (hne : w ≠ []) {ws : List (List α)} (hws : ∀ v ∈ ws, v ≠ [] ∧ ∀ c ∈ v, blank c = false) :
    words blank (w ++ ws.flatMap (b :: ·)) = w :: ws := by
  induction ws generalizing w with
  | nil => rw [flatMap_nil, append_nil, words_of_no_blank hw hne]
  | cons v ws ih =>
    obtain ⟨hvne, hv⟩ := hws v mem_cons_self
    rw [flatMap_cons, cons_append, words_append_blank hb hw hne,
      ih hv hvne fun v' hv' => hws v' (mem_cons_of_mem _ hv')]

end Words

/-! ### Lines -/

theorem of_mem_splitOn {α : Type*} [DecidableEq α] {sep c : α} {l piece : List α}
    (hpiece : piece ∈ l.splitOn sep) (hc : c ∈ piece) : c ∈ l ∧ c ≠ sep := by
  induction l generalizing piece with
  | nil =>
    rw [splitOn_nil, mem_singleton] at hpiece
    rw [hpiece] at hc
    cases hc
  | cons a l ih =>
    rw [splitOn_cons_eq_if_modifyHead] at hpiece
    by_cases ha : a = sep
    · rw [if_pos (beq_iff_eq.mpr ha)] at hpiece
      cases hpiece with
      | head => cases hc
      | tail _ hmem => exact ⟨.tail _ (ih hmem hc).1, (ih hmem hc).2⟩
    · -- the character goes to the front of the first piece
      rw [if_neg (by simpa using ha)] at hpiece
      obtain ⟨first, rest, hsplit⟩ := exists_cons_of_ne_nil (splitOn_ne_nil sep l)
      rw [hsplit] at hpiece ih
      cases hpiece with
      | head =>
        rcases mem_cons.mp hc with rfl | hmem
        · exact ⟨.head _, ha⟩
        · exact ⟨.tail _ (ih (.head _) hmem).1, (ih (.head _) hmem).2⟩
      | tail _ hmem =>
        exact ⟨.tail _ (ih (.tail _ hmem) hc).1, (ih (.tail _ hmem) hc).2⟩

end NeurDB.Text
