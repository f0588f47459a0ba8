import NeurDB.Framework.System

/-!
# Text between delimiters

A text is quoted by putting a delimiter behind it, and read back up to the first occurrence of
the delimiter. The text comes back exactly if the delimiter does not occur before its end
(`split_append_iff`). An occurrence that begins within the text and ends in the delimiter that
was put behind it counts, too.
-/

namespace NeurDB

open List

variable {α : Type} [DecidableEq α]

/-- What stands before the first occurrence of `d`, and what stands behind it. -/
def splitAtDelim (d : List α) : List α → Option (List α × List α)
  | [] => none
  | a :: l =>
    if d <+: a :: l then some ([], (a :: l).drop d.length)
    else (splitAtDelim d l).map fun p => (a :: p.1, p.2)

/-- The delimiter occurs before the end of the text. -/
def ClosesEarly (d text : List α) : Prop := ∃ i < text.length, d <+: (text ++ d).drop i

instance (d text : List α) : Decidable (ClosesEarly d text) :=
  inferInstanceAs (Decidable (∃ i < text.length, _))

theorem eq_append_of_split {d l v rest : List α} (h : splitAtDelim d l = some (v, rest)) :
    l = v ++ (d ++ rest) := by
  induction l generalizing v with
  | nil => cases h
  | cons a l ih =>
    rw [splitAtDelim] at h
    split at h
    · next hd =>
      cases h
      rw [nil_append]
      exact prefix_append_drop hd
    · obtain ⟨⟨v', rest'⟩, hsplit, heq⟩ := Option.map_eq_some_iff.mp h
      obtain ⟨rfl, rfl⟩ := Prod.mk.inj heq
      rw [ih hsplit, cons_append]

omit [DecidableEq α] in
theorem closesEarly_cons {d text : List α} (a : α) :
    ClosesEarly d (a :: text) ↔ d <+: a :: (text ++ d) ∨ ClosesEarly d text := by
  constructor
  · rintro ⟨i, hi, hd⟩
    cases i with
    | zero => exact Or.inl hd
    | succ i => exact Or.inr ⟨i, Nat.lt_of_succ_lt_succ hi, hd⟩
  · rintro (hd | ⟨i, hi, hd⟩)
    · exact ⟨0, Nat.zero_lt_succ _, hd⟩
    · exact ⟨i + 1, Nat.succ_lt_succ hi, hd⟩

omit [DecidableEq α] in
theorem not_closesEarly_of_notMem {a : α} {d text : List α} (h : a ∉ text) :
    ¬ ClosesEarly (a :: d) text := by
  rintro ⟨i, hi, hd⟩
  rw [drop_append_of_le_length hi.le, drop_eq_getElem_cons hi, cons_append, cons_prefix_cons] at hd
  exact h (hd.1 ▸ getElem_mem hi)

/-- **A quoted text comes back exactly if the delimiter does not occur before its end.** -/
theorem split_append_iff {d : List α} (hd : d ≠ []) (text rest : List α) :
    splitAtDelim d (text ++ (d ++ rest)) = some (text, rest) ↔ ¬ ClosesEarly d text := by
  induction text with
  | nil =>
    obtain ⟨b, d', rfl⟩ := exists_cons_of_ne_nil hd
    have hpre : b :: d' <+: b :: (d' ++ rest) := prefix_append (b :: d') rest
    have hnot : ¬ ClosesEarly (b :: d') ([] : List α) := by
      rintro ⟨i, hi, -⟩
      exact absurd hi (Nat.not_lt_zero i)
    rw [nil_append, cons_append, splitAtDelim, if_pos hpre]
    simp [hnot]
  | cons a text ih =>
    -- whether the delimiter occurs here does not depend on what stands behind the second one
    have hpre : d <+: a :: (text ++ (d ++ rest)) ↔ d <+: a :: (text ++ d) := by
      have hlong : a :: (text ++ d) <+: a :: (text ++ (d ++ rest)) := by
        rw [← append_assoc]
        exact prefix_append (a :: (text ++ d)) rest
      constructor
      · intro h
        apply prefix_of_prefix_length_le h hlong
        rw [length_cons, length_append]
        omega
      · intro h
        exact h.trans hlong
    rw [cons_append, splitAtDelim, closesEarly_cons]
    split
    · next h => simp [hpre.mp h]
    · next h =>
      rw [hpre] at h
      simp only [h, false_or, ← ih]
      constructor
      · intro hmap
        obtain ⟨⟨v, rest'⟩, hsplit, heq⟩ := Option.map_eq_some_iff.mp hmap
        obtain ⟨hv, rfl⟩ := Prod.mk.inj heq
        obtain rfl := tail_eq_of_cons_eq hv
        exact hsplit
      · intro hsplit
        rw [hsplit, Option.map_some]

end NeurDB
