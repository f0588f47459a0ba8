/-!
# A transaction whose statements may fail

A client sends statements one after another. A statement that fails ends the transaction in all but
name: every further statement fails, and a commit rolls back. `Transaction.answer` is what the
client sees of a statement, given what the statement would answer on its own.
-/

namespace NeurDB

/-- A transaction over a database of type `D`. -/
structure Transaction (D : Type) where
  /-- The database as other sessions see it. -/
  committed : D
  /-- The database as this session sees it. -/
  working : D
  /-- A statement has failed. -/
  failed : Bool

namespace Transaction

variable {D α : Type}

/-- A transaction that has done nothing yet. -/
def start (d : D) : Transaction D := ⟨d, d, false⟩

/-- The answer to a statement: none after a failed one. -/
def answer (t : Transaction D) (a : Option α) : Option α := if t.failed then none else a

/-- A statement fails. -/
def fail (t : Transaction D) : Transaction D := { t with failed := true }

/-- A statement changes the database. -/
def update (t : Transaction D) (d : D) : Transaction D := { t with working := d }

/-- The end of the transaction. -/
def commit (t : Transaction D) : Transaction D :=
  { t with committed := if t.failed then t.committed else t.working }

section

variable (t : Transaction D)

@[simp] theorem failed_fail : t.fail.failed = true := rfl

@[simp] theorem committed_fail : t.fail.committed = t.committed := rfl

@[simp] theorem failed_update (d : D) : (t.update d).failed = t.failed := rfl

@[simp] theorem committed_update (d : D) : (t.update d).committed = t.committed := rfl

@[simp] theorem working_update (d : D) : (t.update d).working = d := rfl

@[simp] theorem failed_commit : t.commit.failed = t.failed := rfl

@[simp] theorem working_commit : t.commit.working = t.working := rfl

end

/-- An answer comes only while no statement has failed, and is the statement's own. -/
theorem of_answer_eq_some {t : Transaction D} {a : Option α} {x : α} (h : t.answer a = some x) :
    t.failed = false ∧ a = some x := by
  unfold answer at h
  cases hf : t.failed with
  | true => rw [hf] at h; cases h
  | false => rw [hf] at h; exact ⟨rfl, h⟩

end Transaction
end NeurDB
