import NeurDB.Nram.Access
import NeurDB.Nram.Commit

/-!
# Savepoints

One transaction with its subtransactions: `SAVEPOINT`, `RELEASE`, `ROLLBACK TO`, and the blocks
of PL functions with an exception handler, whose abort is a `ROLLBACK TO` followed by a
`RELEASE`. The server keeps the stack of open subtransactions and tells modules that ask about
its changes. `nram_register_xact_hook` registers a callback for the events of top-level
transactions and none for those of subtransactions, so none of these commands reaches NRAM.

A value carries the top-level transaction id, and the write set is one flat list. A write inside
a subtransaction therefore looks like any other, and stays when the subtransaction is rolled
back.

The model runs the callbacks of `Access.lean` and keeps beside them what they do not know: all
row writes made so far, and the row writes of each open level that were not rolled back. In
every run the transaction reads, and installs at commit, the last of **all** its writes of a key
(`last_write_installed`). Savepoints are honoured exactly as long as that write was not rolled
back, and `rolled_back_write_installed` shows one that was.
-/

namespace NeurDB.Nram

/-! ### Nested transactions -/

/-- A transaction with open subtransactions. -/
structure NestedXact where
  state : NRAMXactState
  scans : Scans
  db : RocksDB NRAMValue
  /-- A command has failed, and the server refuses every command but `ROLLBACK TO`. -/
  failed : Bool
  /-- All row writes, the last one first. -/
  written : List RowWrite
  /-- The row writes of each open level that were not rolled back, the innermost level and the
  last write first. The last level is the top-level transaction. -/
  levels : List (List RowWrite)

inductive NestedStmt where
  | executorStart (ct : CmdType)
  | executorEnd
  /-- A call of an access callback, and how the storage service answers its put. -/
  | call (detectAll : Bool) (c : Call) (reply : PutReply)
  /-- Other transactions leave the store in this state. -/
  | others (db : RocksDB NRAMValue)
  | savepoint
  /-- `RELEASE` of an open savepoint: `0` is the innermost. -/
  | release (n : ℕ)
  | rollbackTo (n : ℕ)

/-- The row writes that were not rolled back, the last one first. -/
def NestedXact.surviving (s : NestedXact) : List RowWrite := s.levels.flatten

/-- The writes are added to the innermost level. -/
def addToLevel (writes : List RowWrite) : List (List RowWrite) → List (List RowWrite)
  | [] => [writes]
  | level :: levels => (writes ++ level) :: levels

/-- One command; `none` if the server refuses it. The commands on savepoints touch the levels
alone. -/
def nestedStep (s : NestedXact) : NestedStmt → Option NestedXact
  | .others db => some { s with db }
  | .rollbackTo n =>
    if n + 1 < s.levels.length then
      -- the level of the savepoint is opened again
      some { s with failed := false, levels := [] :: s.levels.drop (n + 1) }
    else some { s with failed := true }
  | stmt =>
    if s.failed then none
    else
      match stmt with
      | .executorStart ct => some { s with state := nramExecutorStart s.state ct }
      | .executorEnd => some { s with state := nramExecutorEnd s.state }
      | .call detectAll c reply =>
        match enter detectAll s.state s.scans c with
        | none => some { s with failed := true }
        | some (scans, _, access) =>
          match perform reply s.state scans s.db access with
          | (db, none) => some { s with db, failed := true }
          | (db, some (state, scans, _)) =>
            some { s with
              state, scans, db
              written := access.rowWrites ++ s.written
              levels := addToLevel access.rowWrites s.levels }
      | .savepoint => some { s with levels := [] :: s.levels }
      | .release n =>
        if n + 1 < s.levels.length then
          some { s with
            levels := (s.levels.take (n + 2)).flatten :: s.levels.drop (n + 2) }
        else some { s with failed := true }
      | _ => none

/-- Transactions that have not written yet. -/
def nestedSystem : System NestedXact NestedStmt :=
  .ofFun (fun s => s.state.writeSet = [] ∧ s.written = [] ∧ s.levels = [[]] ∧ s.failed = false)
    nestedStep

/-! ### The write set follows all writes -/

theorem buffers_step {s s' : NestedXact} {stmt : NestedStmt} (h : Buffers s.state s.written)
    (hstep : nestedStep s stmt = some s') : Buffers s'.state s'.written := by
  cases stmt with simp only [nestedStep] at hstep
  | others db =>
    cases hstep
    exact h
  | rollbackTo n =>
    split at hstep
    · cases hstep
      exact h
    · cases hstep
      exact h
  | executorStart ct =>
    split at hstep
    · cases hstep
    · cases hstep
      exact h.congr (nramExecutorStart_writeSet _ _)
  | executorEnd =>
    split at hstep
    · cases hstep
    · cases hstep
      exact h.congr (nramExecutorEnd_writeSet _)
  | call detectAll c reply =>
    split at hstep
    · cases hstep
    · split at hstep
      · cases hstep
        exact h
      · next scans _ access henter =>
        split at hstep
        · cases hstep
          exact h
        · next db state scans' row hperform =>
          -- the one step that writes: the write goes to the front of all writes
          cases hstep
          exact (performed_of_eq hperform).buffers h
  | savepoint =>
    split at hstep
    · cases hstep
    · cases hstep
      exact h
  | release n =>
    split at hstep
    · cases hstep
    · split at hstep
      · cases hstep
        exact h
      · cases hstep
        exact h

theorem buffers_of_run {s₀ s : NestedXact} {stmts : List NestedStmt}
    (h₀ : nestedSystem.init s₀) (hrun : nestedSystem.Run s₀ stmts s) :
    Buffers s.state s.written := by
  refine hrun.invariant ?_ fun _ _ _ h hstep => buffers_step h hstep
  obtain ⟨hwriteSet, hwritten, -, -⟩ := h₀
  rw [hwritten]
  exact .initial hwriteSet

/-! ### What is read and what is installed -/

/-- **Savepoints are honoured**: what the transaction has in its write set, to read back and to
install, is the last surviving write of each key. -/
def NestedXact.Honoured (s : NestedXact) : Prop :=
  ∀ key, readOwnWrite s.state key = lastWrite s.surviving key

/-- **The last write wins, rolled back or not.** In every run of a transaction with
subtransactions nested in any way, the transaction reads its last write of a key, and a commit
whose puts are all stored installs exactly the last write of each key it wrote. Savepoints are
honoured just when the last write of no key was rolled back. -/
theorem last_write_installed {s₀ s : NestedXact} {stmts : List NestedStmt}
    (h₀ : nestedSystem.init s₀) (hrun : nestedSystem.Run s₀ stmts s) :
    (∀ key value, lastWrite s.written key = some value → readOwn s.state key = some value) ∧
      (∀ serializable env db', nramPreCommit serializable env s.state s.db = (db', .ok ()) →
        (∀ opt ∈ s.state.writeSet, env.Stored opt) → ∀ key,
          rocksengineGet db' key = (lastWrite s.written key).or (rocksengineGet s.db key)) ∧
      (s.Honoured ↔ ∀ key, lastWrite s.written key = lastWrite s.surviving key) := by
  have h := buffers_of_run h₀ hrun
  refine ⟨fun key value hlast => ?_, fun serializable env db' hcommit hstored key => ?_, ?_⟩
  · unfold readOwn
    rw [h.last, hlast, Option.some_or]
  · rw [get_of_nramPreCommit h.nodup hcommit hstored, h.last]
  · unfold NestedXact.Honoured
    simp only [h.last]

/-- Transaction `10` on a store with one row of table `16384`. -/
def oneRowXact : NestedXact where
  state := newNRAMXactState 10
  scans := fun _ => none
  db := rocksenginePut .empty ⟨16384, 65537⟩ ⟨3, 0, []⟩
  failed := false
  written := []
  levels := [[]]

theorem oneRowXact_init : nestedSystem.init oneRowXact := ⟨rfl, rfl, rfl, rfl⟩

/-- Updates the row inside a savepoint, then ends the savepoint. -/
def updateInSavepoint (ending : NestedStmt) : List NestedStmt :=
  [.executorStart .update, .savepoint,
    .call false (.tupleUpdate 16384 (nramEncodeTid 65537) []) .ok, ending]

/-- The update of a savepoint that is released is read and installed. -/
theorem released_write_installed :
    ∃ s, nestedSystem.Run oneRowXact (updateInSavepoint (.release 0)) s ∧ s.Honoured ∧
      readOwn s.state ⟨16384, 65537⟩ = some ⟨10, 0, []⟩ ∧
      ∃ db', nramPreCommit true ⟨fun _ => true, fun _ => true, fun _ => .ok⟩ s.state s.db =
          (db', .ok ()) ∧
        rocksengineGet db' ⟨16384, 65537⟩ = some ⟨10, 0, []⟩ := by
  let env : CallbackEnv := ⟨fun _ => true, fun _ => true, fun _ => .ok⟩
  refine System.exists_run_of_exec (P := fun s => s.written = [(⟨16384, 65537⟩, ⟨10, 0, []⟩)] ∧
    s.surviving = s.written ∧ (nramPreCommit true env s.state s.db).2 = .ok () ∧
    ∀ opt ∈ s.state.writeSet, env.Stored opt) (by decide +kernel) ?_
  rintro s hrun ⟨hwritten, hsurviving, hok, hstored⟩
  obtain ⟨hread, hinstall, hhonoured⟩ := last_write_installed oneRowXact_init hrun
  have hlast : lastWrite s.written ⟨16384, 65537⟩ = some ⟨10, 0, []⟩ := by
    rw [hwritten]
    rfl
  refine ⟨hhonoured.mpr fun key => by rw [hsurviving], hread _ _ hlast, _, Prod.ext rfl hok, ?_⟩
  rw [hinstall true env _ (Prod.ext rfl hok) hstored, hlast]
  rfl

/-- **A rolled-back write is installed.** The transaction updates the row inside a savepoint and
rolls back to it, so that no write survives. It then reads the row as updated, and commits the
update. -/
theorem rolled_back_write_installed :
    ∃ s, nestedSystem.Run oneRowXact (updateInSavepoint (.rollbackTo 0)) s ∧
      s.surviving = [] ∧ readOwn oneRowXact.state ⟨16384, 65537⟩ = none ∧
      readOwn s.state ⟨16384, 65537⟩ = some ⟨10, 0, []⟩ ∧
      rocksengineGet s.db ⟨16384, 65537⟩ = some ⟨3, 0, []⟩ ∧
      ∃ db', nramPreCommit true ⟨fun _ => true, fun _ => true, fun _ => .ok⟩ s.state s.db =
          (db', .ok ()) ∧
        rocksengineGet db' ⟨16384, 65537⟩ = some ⟨10, 0, []⟩ := by
  let env : CallbackEnv := ⟨fun _ => true, fun _ => true, fun _ => .ok⟩
  refine System.exists_run_of_exec (P := fun s => s.surviving = [] ∧
    readOwn oneRowXact.state ⟨16384, 65537⟩ = none ∧
    readOwn s.state ⟨16384, 65537⟩ = some ⟨10, 0, []⟩ ∧
    rocksengineGet s.db ⟨16384, 65537⟩ = some ⟨3, 0, []⟩ ∧
    (nramPreCommit true env s.state s.db).2 = .ok () ∧
    rocksengineGet (nramPreCommit true env s.state s.db).1 ⟨16384, 65537⟩ = some ⟨10, 0, []⟩)
    (by decide +kernel) ?_
  rintro s - ⟨hsurviving, hbefore, hread, hdb, hok, hinstalled⟩
  exact ⟨hsurviving, hbefore, hread, hdb, _, Prod.ext rfl hok, hinstalled⟩

end NeurDB.Nram
