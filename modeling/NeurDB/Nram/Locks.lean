import NeurDB.Framework.LockManager
import NeurDB.Nram.XactState

/-!
# The locks that transactions take

The heavyweight lock manager of the server as the storage engine uses it: the eight lock modes
with their conflict table, the three kinds of lock tags that occur, and the rule that a process
whose rank exceeds `9.8` never waits for a lock.

A row is locked under two tags that do not know of each other. The access callbacks lock the
tuple, under its item pointer; the commit callback takes an advisory lock on
`(tableOid, tid)`, and the advisory tag keeps only the low 32 bits of the tid
(`advisoryTag`), so rows whose tids agree there share a lock.
-/

namespace NeurDB.Nram

inductive LockMode where
  | accessShare
  | rowShare
  | rowExclusive
  | shareUpdateExclusive
  | share
  | shareRowExclusive
  | exclusive
  | accessExclusive
  deriving DecidableEq

/-- The table `LockConflicts`. -/
def LockMode.conflicts : LockMode → List LockMode
  | accessShare => [accessExclusive]
  | rowShare => [exclusive, accessExclusive]
  | rowExclusive => [share, shareRowExclusive, exclusive, accessExclusive]
  | shareUpdateExclusive =>
    [shareUpdateExclusive, share, shareRowExclusive, exclusive, accessExclusive]
  | share => [rowExclusive, shareUpdateExclusive, shareRowExclusive, exclusive, accessExclusive]
  | shareRowExclusive =>
    [rowExclusive, shareUpdateExclusive, share, shareRowExclusive, exclusive, accessExclusive]
  | exclusive =>
    [rowShare, rowExclusive, shareUpdateExclusive, share, shareRowExclusive, exclusive,
      accessExclusive]
  | accessExclusive =>
    [accessShare, rowShare, rowExclusive, shareUpdateExclusive, share, shareRowExclusive,
      exclusive, accessExclusive]

def lockMethod : LockMethod LockMode where
  conflict a b := b ∈ a.conflicts
  conflict_symm a b := by cases a <;> cases b <;> rfl

/-- The lock tags in use. -/
inductive LockTag where
  | relation (relid : Oid)
  | tuple (relid : Oid) (tid : ItemPointer)
  | advisory (field1 field2 : BitVec 32)
  deriving DecidableEq

/-- `SET_LOCKTAG_ADVISORY(tag, key->tableOid, key->tid, 0, 0)`: the fields of a tag have 32
bits. -/
def advisoryTag (key : NRAMKey) : LockTag := .advisory key.tableOid (key.tid.setWidth 32)

/-- A lock of a transaction, granted or asked for. -/
abbrev NRAMLock := Lock LockTag LockMode TransactionId

/-- The lock table shared by all processes. -/
abbrev Locks := LockTable lockMethod LockTag TransactionId

end NeurDB.Nram
