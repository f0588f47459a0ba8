import Mathlib.Data.List.Basic

/-!
# Queues ordered by rank

The elements of a queue have a rank, and a time at which they came. Ranks are compared by a strict
order that need not be linear: ranks may be incomparable, as `NaN` is to every number.

`Ranking.Sorted` says that no element stands behind one of a larger rank, and that elements of one
rank stand in the order in which they came. A newcomer that is put before the first element of a
larger rank keeps the queue sorted (`Sorted.insert`), and so does the removal of elements
(`Sorted.sublist`).
-/

namespace NeurDB

/-- A rank and an arrival time for each element. -/
structure Ranking (α ρ : Type) where
  rank : α → ρ
  arrival : α → ℕ
  lt : ρ → ρ → Prop
  irrefl : ∀ a, ¬ lt a a
  trans : ∀ a b c, lt a b → lt b c → lt a c

namespace Ranking

variable {α ρ : Type} (R : Ranking α ρ)

/-- `a` may stand before `b`. -/
def Ahead (a b : α) : Prop :=
  ¬ R.lt (R.rank b) (R.rank a) ∧ (R.rank a = R.rank b → R.arrival a < R.arrival b)

def Sorted (queue : List α) : Prop := queue.Pairwise R.Ahead

variable {R}

theorem Sorted.sublist {queue queue' : List α} (h : R.Sorted queue) (hsub : queue'.Sublist queue) :
    R.Sorted queue' :=
  List.Pairwise.sublist hsub h

/-- A newcomer may stand behind what came before it and has no larger rank. -/
theorem ahead_newcomer {a x : α} (hrank : ¬ R.lt (R.rank x) (R.rank a))
    (harrival : R.arrival a < R.arrival x) : R.Ahead a x :=
  ⟨hrank, fun _ => harrival⟩

/-- It may stand before an element of a larger rank, and before all that stands behind that. -/
theorem newcomer_ahead {x y z : α} (hxy : R.lt (R.rank x) (R.rank y))
    (hyz : z = y ∨ R.Ahead y z) : R.Ahead x z := by
  have hzy : ¬ R.lt (R.rank z) (R.rank y) := by
    rcases hyz with rfl | hahead
    · exact R.irrefl _
    · exact hahead.1
  refine ⟨fun hzx => hzy (R.trans _ _ _ hzx hxy), fun heq => ?_⟩
  rw [heq] at hxy
  exact absurd hxy hzy

/-- **Insertion.** The newcomer is put behind elements that have no larger rank, and before one that
has, or at the end. -/
theorem Sorted.insert {front back : List α} {x : α} (h : R.Sorted (front ++ back))
    (harrival : ∀ a ∈ front, R.arrival a < R.arrival x)
    (hfront : ∀ a ∈ front, ¬ R.lt (R.rank x) (R.rank a))
    (hback : ∀ y ∈ back.head?, R.lt (R.rank x) (R.rank y)) : R.Sorted (front ++ x :: back) := by
  obtain ⟨hsorted, hsorted', hcross⟩ := List.pairwise_append.mp h
  have hbehind : ∀ z ∈ back, R.Ahead x z := by
    cases back with
    | nil => exact nofun
    | cons y back =>
      intro z hz
      have hyz : z = y ∨ R.Ahead y z :=
        (List.mem_cons.mp hz).imp_right ((List.pairwise_cons.mp hsorted').1 z)
      exact newcomer_ahead (hback y rfl) hyz
  refine List.pairwise_append.mpr ⟨hsorted, List.pairwise_cons.mpr ⟨hbehind, hsorted'⟩, ?_⟩
  intro a ha b hb
  rcases List.mem_cons.mp hb with rfl | hb
  · exact ahead_newcomer (hfront a ha) (harrival a ha)
  · exact hcross a ha b hb

end Ranking

end NeurDB
