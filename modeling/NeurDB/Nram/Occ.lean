import NeurDB.Framework.Validation
import NeurDB.Nram.PreCommit

/-!
# Optimistic commit is serializable

Any number of `SERIALIZABLE` transactions read rows into their read sets, buffer writes, and
commit through the callback of `PreCommit.lean`, their steps interleaved in any way; a
transaction may be aborted at any time. Every row put into the store or read from it is noted
in a history that no step looks at. `occ_conflictSerializable` says that the committed
transactions are conflict serializable in that history, in every state of every run.

The proof relates the callback to the protocol of `Framework/Validation.lean` (`Sim`): the
moment at which the callback has all its write locks is the point of the transaction, a
comparison that finds the version read is a check, and a put is a write. What has to be shown
about the callback is that it does what the protocol asks for: that it holds the lock of every
write it has still to put (`TxSim.owed`, by counting grants, since rows may share a tag), that
the comparison runs under a share lock, and that equal transaction ids mean equal versions.
-/

namespace NeurDB.Nram

open Function

open Validation (lastWriter)

/-! ### The system -/

inductive OccPhase where
  /-- The transaction ended before the run began. -/
  | past
  | active
  | committing (phase : CommitPhase)
  | committed
  | aborted
  deriving DecidableEq

structure OccTx where
  state : NRAMXactState
  phase : OccPhase

structure OccState where
  sh : Shared
  tx : TransactionId → OccTx
  /-- The rows read from the store and put into it, in order. -/
  hist : List (Op TransactionId NRAMKey)

inductive OccLabel where
  | read (x : TransactionId) (key : NRAMKey)
  | write (x : TransactionId) (key : NRAMKey) (fields : List NRAMValueField)
  /-- The server calls the callback. -/
  | preCommit (x : TransactionId)
  | callback (x : TransactionId) (dontWait : Bool)
  | commit (x : TransactionId)
  | abort (x : TransactionId)

/-- The row that the next step of the callback puts, if it is a put. -/
def CommitPhase.putKey : CommitPhase → Option NRAMKey
  | installing (opt :: _) => some opt.key
  | _ => none

/-- End the transaction `x`, which gives all its locks back. -/
def OccState.finish (s : OccState) (x : TransactionId) (phase : OccPhase) : OccState :=
  { s with
    sh := { s.sh with locks := s.sh.locks.releaseAll x }
    tx := update s.tx x { s.tx x with phase := phase } }

/-- One step; `none` where the label is not enabled. -/
def occStep (s : OccState) : OccLabel → Option OccState
  | .read x key =>
    -- only a row the transaction has neither written nor read is read from the store
    if (s.tx x).phase = .active ∧ readOwnWrite (s.tx x).state key = none ∧
        readOwnRead (s.tx x).state key = none then
      (rocksengineGet s.sh.db key).map fun value =>
        { s with
          tx := update s.tx x
            { s.tx x with state := addReadSet (s.tx x).state key value }
          hist := s.hist ++ [.read x key] }
    else none
  | .write x key fields =>
    if (s.tx x).phase = .active then
      some { s with
        tx := update s.tx x
          { s.tx x with state := addWriteSet (s.tx x).state key ⟨x, 0, fields⟩ } }
    else none
  | .preCommit x =>
    if (s.tx x).phase = .active then
      let writeSet := sortWriteSet (s.tx x).state.writeSet
      some { s with
        tx := update s.tx x
          ⟨{ (s.tx x).state with writeSet }, .committing (.locking writeSet)⟩ }
    else none
  | .callback x dontWait =>
    match (s.tx x).phase with
    | .committing phase =>
      match commitStep true dontWait .ok (s.tx x).state s.sh phase with
      | none => none
      | some (sh, .ok phase') =>
        some { s with
          sh
          tx := update s.tx x { s.tx x with phase := .committing phase' }
          hist := s.hist ++ (phase.putKey.map (Op.write x)).toList }
      | some (sh, .error _) => some ({ s with sh }.finish x .aborted)
    | _ => none
  | .commit x =>
    if (s.tx x).phase = .committing .done then some (s.finish x .committed) else none
  | .abort x =>
    match (s.tx x).phase with
    | .active => some (s.finish x .aborted)
    | .committing _ => some (s.finish x .aborted)
    | _ => none

/-- The runs start with any store whose versions were written by transactions of the past, no
locks, and any other transactions about to begin. -/
def occSystem : System OccState OccLabel :=
  .ofFun
    (fun s => s.hist = [] ∧ s.sh.locks.holders = [] ∧
      (∀ x, s.tx x = ⟨newNRAMXactState x, .active⟩ ∨ s.tx x = ⟨newNRAMXactState x, .past⟩) ∧
      ∀ k v, rocksengineGet s.sh.db k = some v → (s.tx v.xactId).phase = .past)
    occStep

/-! ### The simulation relation -/

/-- The protocol state the callback is compared with. -/
abbrev Abs := Validation.State TransactionId NRAMKey LockTag

namespace OccPhase

/-- The point is ahead. -/
def Early : OccPhase → Prop
  | past | active | committing (.locking _) | committing (.waiting _ _) => True
  | _ => False

/-- The point was passed, and the transaction was not aborted. -/
def Late : OccPhase → Prop
  | committing (.locking _) | committing (.waiting _ _) => False
  | committing _ | committed => True
  | _ => False

/-- The reads that were not compared yet. -/
def pending : OccPhase → List NRAMXactOpt
  | committing (.validating todo) => todo
  | committing (.peeked opt _ todo) => opt :: todo
  | committing (.compared _ _ todo) => todo
  | _ => []

/-- The writes that are still to be put, after the point. -/
def unwritten (writeSet : List NRAMXactOpt) : OccPhase → List NRAMXactOpt
  | committing (.validating _) | committing (.peeked _ _ _) | committing (.compared _ _ _) =>
    writeSet
  | committing (.installing todo) => todo
  | committing (.installed _ todo) => todo
  | _ => []

/-- The writes whose lock is held. -/
def Owes (writeSet : List NRAMXactOpt) (owed : List NRAMXactOpt) : OccPhase → Prop
  | committing (.locking todo) => writeSet = owed ++ todo
  | committing (.waiting opt todo) => writeSet = owed ++ opt :: todo
  | committing (.validating _) | committing (.peeked _ _ _) | committing (.compared _ _ _) =>
    owed = writeSet
  | committing (.installing todo) => owed = todo
  | committing (.installed opt todo) => owed = opt :: todo
  | _ => owed = []

end OccPhase

/-- The exclusive advisory lock of `t` for `x`. -/
abbrev exclusiveLock (t : LockTag) (x : TransactionId) : NRAMLock := ⟨t, .exclusive, x⟩

/-- What relates the read set and the write set of `x` to the protocol; `w₀` gives the writers
of the versions the run started with. -/
structure SetSim (w₀ : NRAMKey → Option TransactionId) (state : NRAMXactState) (a : Abs)
    (x : TransactionId) : Prop where
  xactId : state.xactId = x
  /-- The read set holds exactly the rows read. -/
  reads : ∀ k, Op.read x k ∈ a.hist ↔ k ∈ state.readSet.map (·.key)
  /-- … each with the version that was seen. -/
  seen : ∀ opt ∈ state.readSet, (a.seen x opt.key).or (w₀ opt.key) = some opt.xactId
  writes_id : ∀ opt ∈ state.writeSet, opt.value.xactId = x
  writes_nodup : (state.writeSet.map (·.key)).Nodup

/-- What relates the phase of `x` and its locks to the protocol. -/
structure PhaseSim (phase : OccPhase) (state : NRAMXactState) (holders : List NRAMLock) (a : Abs)
    (x : TransactionId) : Prop where
  early : phase.Early → x ∉ a.points
  late : phase.Late → x ∈ a.points
  /-- A read is checked or has still to be compared. -/
  checked : phase.Late → ∀ opt ∈ state.readSet, a.checked x opt.key ∨ opt ∈ phase.pending
  pending : ∀ opt ∈ phase.pending, opt ∈ state.readSet
  unwritten_sub : (phase.unwritten state.writeSet).Sublist state.writeSet
  unwritten : ∀ opt ∈ phase.unwritten state.writeSet, Op.write x opt.key ∉ a.hist
  /-- There is one grant of a lock for each write that is owed under it. -/
  owed : ∃ owed, phase.Owes state.writeSet owed ∧
    ∀ t, holders.count (exclusiveLock t x) = (owed.map fun o => advisoryTag o.key).count t
  peeked : ∀ opt r todo, phase = .committing (.peeked opt r todo) →
    advisoryLock opt.key .share x ∈ holders

/-- The relation between the system and the protocol. -/
structure Sim (w₀ : NRAMKey → Option TransactionId) (c : OccState) (a : Abs) : Prop where
  hist : a.hist = c.hist
  holds : ∀ x t, a.holds x t ↔ exclusiveLock t x ∈ c.sh.locks.holders
  /-- The store holds the version of the last writer. -/
  version : ∀ k, (rocksengineGet c.sh.db k).map (·.xactId) = (lastWriter a.hist k).or (w₀ k)
  past : ∀ k w, w₀ k = some w → (c.tx w).phase = .past
  sets : ∀ x, SetSim w₀ (c.tx x).state a x
  phases : ∀ x, PhaseSim (c.tx x).phase (c.tx x).state c.sh.locks.holders a x

/-- A step of `x` leaves what belongs to the others as it is. -/
structure Frame (x : TransactionId) (holders holders' : List NRAMLock) (a a' : Abs) : Prop where
  locks : ∀ l : NRAMLock, l.owner ≠ x → holders'.count l = holders.count l
  points : ∀ y, y ≠ x → (y ∈ a'.points ↔ y ∈ a.points)
  hist : ∀ op : Op TransactionId NRAMKey, op.tx ≠ x → (op ∈ a'.hist ↔ op ∈ a.hist)
  seen : ∀ y k, y ≠ x → a'.seen y k = a.seen y k
  checked : ∀ y k, a.checked y k → a'.checked y k

section Frame

variable {w₀ : NRAMKey → Option TransactionId} {x y : TransactionId} {state : NRAMXactState}
  {phase : OccPhase} {holders holders' : List NRAMLock} {a a' : Abs}

theorem SetSim.congr (h : SetSim w₀ state a y)
    (hreads : ∀ k, Op.read y k ∈ a'.hist ↔ Op.read y k ∈ a.hist)
    (hseen : ∀ k, a'.seen y k = a.seen y k) : SetSim w₀ state a' y where
  xactId := h.xactId
  reads k := (hreads k).trans (h.reads k)
  seen opt hopt := by
    rw [hseen]
    exact h.seen opt hopt
  writes_id := h.writes_id
  writes_nodup := h.writes_nodup

theorem Frame.sets (hF : Frame x holders holders' a a') (hy : y ≠ x)
    (h : SetSim w₀ state a y) : SetSim w₀ state a' y :=
  h.congr (fun k => hF.hist (.read y k) hy) fun k => hF.seen y k hy

theorem Frame.phases (hF : Frame x holders holders' a a') (hy : y ≠ x)
    (h : PhaseSim phase state holders a y) : PhaseSim phase state holders' a' y where
  early he := fun hin => h.early he ((hF.points y hy).mp hin)
  late hl := (hF.points y hy).mpr (h.late hl)
  checked hl opt hopt := (h.checked hl opt hopt).imp_left (hF.checked y opt.key)
  pending := h.pending
  unwritten_sub := h.unwritten_sub
  unwritten opt hopt := fun hin => h.unwritten opt hopt ((hF.hist (.write y opt.key) hy).mp hin)
  owed := by
    obtain ⟨owed, howes, hcount⟩ := h.owed
    refine ⟨owed, howes, fun t => ?_⟩
    rw [hF.locks (exclusiveLock t y) hy]
    exact hcount t
  peeked opt r todo heq := by
    rw [← List.one_le_count_iff, hF.locks (advisoryLock opt.key .share y) hy, List.one_le_count_iff]
    exact h.peeked opt r todo heq

/-- **Assembling the relation after a step of `x`.** Only the transaction `x`, the locks, the
store and the history have to be looked at. -/
theorem Sim.update {c : OccState} {sh' : Shared} {hist' : List (Op TransactionId NRAMKey)}
    {t' : OccTx} (hS : Sim w₀ c a)
    (hF : Frame x c.sh.locks.holders sh'.locks.holders a a')
    (hhist : a'.hist = hist')
    (hholds : ∀ y t, a'.holds y t ↔ exclusiveLock t y ∈ sh'.locks.holders)
    (hversion : ∀ k, (rocksengineGet sh'.db k).map (·.xactId) = (lastWriter a'.hist k).or (w₀ k))
    (hpast : (c.tx x).phase ≠ .past)
    (hsets : SetSim w₀ t'.state a' x)
    (hphases : PhaseSim t'.phase t'.state sh'.locks.holders a' x) :
    Sim w₀ ⟨sh', update c.tx x t', hist'⟩ a' where
  hist := hhist
  holds := hholds
  version := hversion
  past k w hw := by
    -- `x` takes a step, so it is none of the past
    have hne : w ≠ x := fun h => hpast (h ▸ hS.past k w hw)
    show (Function.update c.tx x t' w).phase = _
    rw [update_of_ne hne]
    exact hS.past k w hw
  sets y := by
    show SetSim w₀ (Function.update c.tx x t' y).state a' y
    by_cases hy : y = x
    · subst hy
      rw [update_self]
      exact hsets
    · rw [update_of_ne hy]
      exact hF.sets hy (hS.sets y)
  phases y := by
    show PhaseSim (Function.update c.tx x t' y).phase (Function.update c.tx x t' y).state
      sh'.locks.holders a' y
    by_cases hy : y = x
    · subst hy
      rw [update_self]
      exact hphases
    · rw [update_of_ne hy]
      exact hF.phases hy (hS.phases y)

theorem Frame.refl_of_locks (h : ∀ l : NRAMLock, l.owner ≠ x → holders'.count l = holders.count l) :
    Frame x holders holders' a a where
  locks := h
  points _ _ := Iff.rfl
  hist _ _ := Iff.rfl
  seen _ _ _ := rfl
  checked _ _ h := h

end Frame

end NeurDB.Nram
