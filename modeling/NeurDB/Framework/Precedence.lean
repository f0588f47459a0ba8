import NeurDB.Framework.System

/-!
# Histories of reads and writes, and conflict serializability

A history is a list of reads and writes of keys by transactions. Two operations
of different transactions conflict when they touch the same key and one of them
is a write; `Precedes` orders two transactions by the first operation of a
conflicting pair, and a history is conflict serializable for a set of
transactions when the precedence graph has no cycle.

The rule used to show this is `conflictSerializable_of_order`: it is enough to
name one order of the transactions, as a list without repetition, that agrees
with every conflict.
-/

namespace NeurDB

open List

/-! ### Order of occurrence in a list -/

theorem nodup_append_singleton {α : Type} {l : List α} {a : α} (hl : l.Nodup) (ha : a ∉ l) :
    (l ++ [a]).Nodup := by
  rw [← concat_eq_append]
  exact hl.concat ha

/-- `x` occurs before `y` in `l`. -/
def Before {α : Type} (l : List α) (x y : α) : Prop := [x, y].Sublist l

namespace Before

variable {α : Type} {l : List α} {x y z : α}

theorem mem_left (h : Before l x y) : x ∈ l := h.subset (by simp)

theorem mem_right (h : Before l x y) : y ∈ l := h.subset (by simp)

theorem append_singleton_iff : Before (l ++ [z]) x y ↔ Before l x y ∨ x ∈ l ∧ y = z := by
  constructor
  · intro h
    obtain ⟨l₁, l₂, heq, h₁, h₂⟩ := sublist_append_iff.mp h
    rcases sublist_singleton.mp h₂ with rfl | rfl
    · rw [append_nil] at heq
      subst heq
      exact Or.inl h₁
    · right
      obtain ⟨rfl, hyz⟩ := append_inj' (show [x] ++ [y] = l₁ ++ [z] from heq) rfl
      exact ⟨singleton_sublist.mp h₁, by simpa using hyz⟩
  · rintro (h | ⟨hx, rfl⟩)
    · exact h.trans (sublist_append_left l [z])
    · exact (singleton_sublist.mpr hx).append (List.Sublist.refl [y])

theorem append (h : Before l x y) (z : α) : Before (l ++ [z]) x y :=
  append_singleton_iff.mpr (Or.inl h)

theorem append_self (h : x ∈ l) (y : α) : Before (l ++ [y]) x y :=
  append_singleton_iff.mpr (Or.inr ⟨h, rfl⟩)

/-- Around the only occurrence of `x`, what comes after it comes later. -/
theorem mem_of_split {l₁ l₂ : List α} (hnd : (l₁ ++ x :: l₂).Nodup)
    (h : Before (l₁ ++ x :: l₂) x y) : y ∈ l₂ := by
  have hx : x ∉ l₁ := fun hx => disjoint_of_nodup_append hnd hx mem_cons_self
  obtain ⟨m₁, m₂, heq, h₁, h₂⟩ := sublist_append_iff.mp h
  cases m₁ with
  | nil =>
    rw [nil_append] at heq
    subst heq
    exact singleton_sublist.mp (cons_sublist_cons.mp h₂)
  | cons a m₁ =>
    obtain ⟨rfl, -⟩ := List.cons.inj heq
    exact absurd (h₁.subset mem_cons_self) hx

theorem idxOf_lt [DecidableEq α] (hnd : l.Nodup) (h : Before l x y) : l.idxOf x < l.idxOf y := by
  induction l with
  | nil => cases h.mem_left
  | cons a l ih =>
    obtain ⟨ha, hnd⟩ := nodup_cons.mp hnd
    rcases sublist_cons_iff.mp h with h | ⟨r, heq, hr⟩
    · have hxa : a ≠ x := fun e => ha (e ▸ mem_left h)
      have hya : a ≠ y := fun e => ha (e ▸ mem_right h)
      rw [idxOf_cons_ne l hxa, idxOf_cons_ne l hya]
      exact Nat.succ_lt_succ (ih hnd h)
    · obtain ⟨rfl, rfl⟩ := List.cons.inj heq
      have hyx : x ≠ y := fun e => ha (e ▸ singleton_sublist.mp hr)
      rw [idxOf_cons_self, idxOf_cons_ne l hyx]
      exact Nat.succ_pos _

end Before

/-! ### Histories -/

/-- One operation of a history. -/
inductive Op (Tx Key : Type) where
  | read (tx : Tx) (key : Key)
  | write (tx : Tx) (key : Key)
  deriving DecidableEq

namespace Op

variable {Tx Key : Type}

def tx : Op Tx Key → Tx
  | read t _ => t
  | write t _ => t

def key : Op Tx Key → Key
  | read _ k => k
  | write _ k => k

def isWrite : Op Tx Key → Bool
  | read _ _ => false
  | write _ _ => true

end Op

variable {Tx Key : Type}

/-- `x` precedes `y` in the precedence graph of the history `h`: an operation of
`x` comes before a conflicting operation of `y`. -/
def Precedes (h : List (Op Tx Key)) (x y : Tx) : Prop :=
  x ≠ y ∧ ∃ a b : Op Tx Key, Before h a b ∧ a.tx = x ∧ b.tx = y ∧ a.key = b.key ∧
    (a.isWrite = true ∨ b.isWrite = true)

variable {h : List (Op Tx Key)}

/-- The three kinds of conflict: write-write, write-read and read-write. -/
theorem precedes_iff {x y : Tx} :
    Precedes h x y ↔ x ≠ y ∧ ∃ k,
      Before h (.write x k) (.write y k) ∨ Before h (.write x k) (.read y k) ∨
        Before h (.read x k) (.write y k) := by
  constructor
  · rintro ⟨hne, a, b, hab, rfl, rfl, hk, hw⟩
    refine ⟨hne, a.key, ?_⟩
    cases a <;> cases b <;> simp_all [Op.tx, Op.key, Op.isWrite]
  · rintro ⟨hne, k, h | h | h⟩
    · exact ⟨hne, _, _, h, rfl, rfl, rfl, Or.inl rfl⟩
    · exact ⟨hne, _, _, h, rfl, rfl, rfl, Or.inl rfl⟩
    · exact ⟨hne, _, _, h, rfl, rfl, rfl, Or.inr rfl⟩

/-- The precedence graph of `h` on the transactions in `C` is acyclic. -/
def ConflictSerializable (h : List (Op Tx Key)) (C : Tx → Prop) : Prop :=
  ∀ x, ¬ Relation.TransGen (fun x y => C x ∧ C y ∧ Precedes h x y) x x

theorem ConflictSerializable.mono {C C' : Tx → Prop} (hC : ConflictSerializable h C)
    (hsub : ∀ x, C' x → C x) : ConflictSerializable h C' := by
  intro x hx
  exact hC x (hx.lift id fun y z h => ⟨hsub y h.1, hsub z h.2.1, h.2.2⟩)

/-- **Serialization by an order.** One order of the transactions that agrees with
every conflict makes the precedence graph acyclic. -/
theorem conflictSerializable_of_order [DecidableEq Tx] {C : Tx → Prop} {order : List Tx}
    (hnd : order.Nodup) (hord : ∀ x y, C x → C y → Precedes h x y → Before order x y) :
    ConflictSerializable h C := by
  -- the position in `order` grows along every path of the graph
  have hlt : ∀ x y, Relation.TransGen (fun x y => C x ∧ C y ∧ Precedes h x y) x y →
      order.idxOf x < order.idxOf y := by
    intro x y hxy
    induction hxy with
    | single h₁ => exact (hord _ _ h₁.1 h₁.2.1 h₁.2.2).idxOf_lt hnd
    | tail _ h₂ ih => exact ih.trans ((hord _ _ h₂.1 h₂.2.1 h₂.2.2).idxOf_lt hnd)
  exact fun x hx => lt_irrefl _ (hlt x x hx)

end NeurDB
