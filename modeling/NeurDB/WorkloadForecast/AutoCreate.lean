import NeurDB.Framework.System
import NeurDB.Framework.Transaction

/-!
# Automatic index creation

`auto_create_indexes` of the workload forecast server (`run_server.py`) creates the recommended
indexes, one after the other, and drops other indexes where the budget does not suffice. All of it
is one transaction. Each failure is caught where it occurs and the loop goes on; at the end the
transaction is committed, and the handler reports what it has created and dropped.

The model executes one SQL statement in a step; the label is the answer of the database, `none` for
a failure. After a failure the transaction rules make every further answer a failure
(`Transaction.answer`).

Two details of the source are kept because they decide what is reported:

* psycopg2 returns a `numeric` as a `Decimal`, and Python does not add a `float` and a `Decimal`.
  The sum of `find_indexes_to_evict` raises at the first candidate, so that nothing is ever evicted
  (`nothing_evicted`). `numeric` is the conversion of the driver; the other results are about any.
* The rows are dictionaries: the size that `evict_index` looks up under `pg_relation_size` is not
  there, and the default 0 is used; the fallback budget, which looks rows up by position, always
  ends in its own fallback.

**The theorem** (`report_true_iff`): if the handler answers with success, then the report is true
exactly if no statement failed after something had been reported, and no index was both
created and dropped.

**The budget** (`budget_exact_iff`): the amount left is right exactly if the created sizes that came
as a `Decimal` add up to the evicted ones; neither is counted.
-/

namespace NeurDB.WorkloadForecast

open Function

/-! ### Data -/

/-- Numbers of Python. -/
inductive PyNum where
  | float (q : ℚ)
  | decimal (q : ℚ)
  deriving DecidableEq

namespace PyNum

def value : PyNum → ℚ
  | float q | decimal q => q

/-- `+`; `none` is the `TypeError` for a `float` and a `Decimal`. -/
def add : PyNum → PyNum → Option PyNum
  | float a, float b => some (float (a + b))
  | decimal a, decimal b => some (decimal (a + b))
  | float _, decimal _ | decimal _, float _ => none

end PyNum

abbrev Name := List Char

/-- An index in the catalog. -/
structure Index where
  tableName : Name
  columns : List Name
  indexType : Name
  deriving DecidableEq

/-- The indexes by their names. -/
abbrev Catalog := Name → Option Index

structure Recommendation where
  tableName : Name
  columns : List Name
  indexType : Name
  estimatedSizeMb : ℚ
  benefitScore : ℚ
  deriving DecidableEq

/-- An entry of `created_indexes`. -/
structure CreatedIndex where
  indexName : Name
  recommendation : Recommendation
  actualSizeMb : PyNum
  deriving DecidableEq

/-- An entry of `evicted_indexes`. -/
structure EvictedIndex where
  indexName : Name
  sizeMb : ℚ
  deriving DecidableEq

/-- The `reason` of an entry of `failed_indexes`. -/
inductive Reason where
  | insufficientBudget (estimatedSize availableBudget freedSpace : ℚ) (indexesToEvict : ℕ)
  /-- Budget check failed or index creation failed. -/
  | notCreated
  /-- The text of an exception. -/
  | exception
  deriving DecidableEq

structure FailedIndex where
  tableName : Name
  columns : List Name
  reason : Reason
  deriving DecidableEq

/-- `idx_auto_…`, with `.` and `-` replaced, in at most 63 characters. -/
def indexName (r : Recommendation) (idx : ℕ) : Name :=
  let columns := ['_'].intercalate (r.columns.take 3)
  let name := "idx_auto_".toList ++ r.tableName ++ '_' :: columns ++ '_' :: Nat.toDigits 10 idx
  (name.map fun c => if c = '.' ∨ c = '-' then '_' else c).take 63

/-- The loop of `find_indexes_to_evict` over the candidates; `none` is an exception. -/
def collectVictims (numeric : ℚ → PyNum) (requiredSpaceMb : ℚ) (freedSpace : PyNum)
    (indexesToEvict : List Name) : List (Name × ℚ) → Option (List Name × PyNum)
  | [] => some (indexesToEvict, freedSpace)
  | (name, sizeMb) :: candidates => do
    let freedSpace ← freedSpace.add (numeric sizeMb)
    if requiredSpaceMb ≤ freedSpace.value then some (indexesToEvict ++ [name], freedSpace)
    else collectVictims numeric requiredSpaceMb freedSpace (indexesToEvict ++ [name]) candidates

/-- `find_indexes_to_evict`, given the candidates; `none` for a query that failed. -/
def findIndexesToEvict (numeric : ℚ → PyNum) (requiredSpaceMb : ℚ) :
    Option (List (Name × ℚ)) → List Name × ℚ
  | none => ([], 0)
  | some candidates =>
    match collectVictims numeric requiredSpaceMb (.float 0) [] candidates with
    | some (indexesToEvict, freedSpace) => (indexesToEvict, freedSpace.value)
    | none => ([], 0)

/-! ### The handler -/

/-- The statement that is executed next. -/
inductive Point where
  /-- `SELECT nr_calculate_index_budget_mb() …`. -/
  | budget
  /-- The first query of the fallback. -/
  | fallback
  /-- The query of `find_indexes_to_evict`. -/
  | search
  /-- The size query of `evict_index`; then come the other indexes to evict. -/
  | evictSize (name : Name) (rest : List Name)
  /-- The `DROP INDEX` of `evict_index`. -/
  | evictDrop (name : Name) (rest : List Name)
  /-- `SELECT nr_create_index_if_budget_allows(…)`. -/
  | create
  /-- The size query for the new index. -/
  | measure
  /-- `conn.commit()`. -/
  | commit
  /-- The query for the final statistics, on a new connection. -/
  | finalStats
  /-- The answer has been given: the status is success, or an error. -/
  | answered (success : Bool)
  deriving DecidableEq

structure Handler where
  db : Transaction Catalog
  point : Point
  /-- The recommendations from the present one on. -/
  remaining : List Recommendation
  idx : ℕ
  availableBudget : ℚ
  totalSizeAdded : ℚ
  createdIndexes : List CreatedIndex
  evictedIndexes : List EvictedIndex
  failedIndexes : List FailedIndex

/-- The answers to the statements. -/
inductive Answer where
  /-- A row that is not looked at, or no row. -/
  | done
  /-- Budget and current usage. -/
  | budget (row : Option (Option ℚ × Option ℚ))
  | candidates (rows : List (Name × ℚ))
  | size (mb : ℚ)
  | created (b : Bool)
  deriving DecidableEq

namespace Handler

/-- The head of the loop over the recommendations. -/
def next (s : Handler) : Handler :=
  { s with point :=
      match s.remaining with
      | [] => .commit
      | r :: _ => if s.availableBudget < r.estimatedSizeMb then .search else .create }

/-- On to the next recommendation. -/
def advance (s : Handler) : Handler :=
  next { s with remaining := s.remaining.tail
                idx := s.idx + 1 }

/-- A recommendation fails. -/
def failed (s : Handler) (r : Recommendation) (reason : Reason) : Handler :=
  advance { s with failedIndexes := s.failedIndexes ++ [⟨r.tableName, r.columns, reason⟩] }

def startLoop (s : Handler) (currentBudget currentUsage : ℚ) : Handler :=
  next { s with availableBudget := currentBudget - currentUsage }

/-- The loop over the indexes to evict; after it comes the creation. -/
def evictNext (s : Handler) : List Name → Handler
  | [] => { s with point := .create }
  | name :: rest => { s with point := .evictSize name rest }

def requiredSpace (s : Handler) (r : Recommendation) : ℚ :=
  r.estimatedSizeMb - s.availableBudget + 50

/-- What follows the search for indexes to evict. -/
def afterSearch (s : Handler) (r : Recommendation) (found : List Name × ℚ) : Handler :=
  if s.requiredSpace r ≤ found.2 then s.evictNext found.1
  else s.failed r (.insufficientBudget r.estimatedSizeMb s.availableBudget found.2 found.1.length)

/-- A new index is reported. If the sum of the sizes raises, it is reported as failed, too. -/
def afterMeasure (numeric : ℚ → PyNum) (s : Handler) (r : Recommendation) (mb : ℚ) : Handler :=
  let actualSize := numeric mb
  let s' : Handler :=
    { s with createdIndexes := s.createdIndexes ++ [⟨indexName r s.idx, r, actualSize⟩] }
  match (PyNum.float s.totalSizeAdded).add actualSize with
  | some total => advance { s' with totalSizeAdded := total.value
                                    availableBudget := s.availableBudget - actualSize.value }
  | none => s'.failed r .exception

/-- The handler when a statement of the transaction has failed. -/
def withFailure (s : Handler) : Handler := { s with db := s.db.fail }

end Handler

/-- One statement. `none`: not an answer the database can give. -/
def handlerStep (numeric : ℚ → PyNum) (s : Handler) (a : Option Answer) : Option Handler :=
  match s.point, s.remaining with
  | .budget, _ =>
    match s.db.answer a with
    | none => some { s.withFailure with point := .fallback }
    | some (.budget none) => some { s with point := .answered false }
    | some (.budget (some (some budget, some usage))) => some (s.startLoop budget usage)
    -- `float(None)` raises
    | some (.budget (some _)) => some { s with point := .fallback }
    | some _ => none
  | .fallback, _ =>
    match s.db.answer a with
    | none => some (s.withFailure.startLoop 5000 1000)
    | some .done => some (s.startLoop 5000 1000)
    | some _ => none
  | .search, r :: _ =>
    match s.db.answer a with
    | none =>
      some (s.withFailure.afterSearch r (findIndexesToEvict numeric (s.requiredSpace r) none))
    | some (.candidates rows) =>
      some (s.afterSearch r (findIndexesToEvict numeric (s.requiredSpace r) (some rows)))
    | some _ => none
  | .evictSize name rest, _ =>
    match s.db.answer a with
    | none => some (s.withFailure.evictNext rest)
    | some (.size _) =>
      if (s.db.working name).isSome then some { s with point := .evictDrop name rest } else none
    | some _ => none
  | .evictDrop name rest, _ =>
    match s.db.answer a with
    | none => some (s.withFailure.evictNext rest)
    | some .done => some (Handler.evictNext
        { s with db := s.db.update (update s.db.working name none)
                 evictedIndexes := s.evictedIndexes ++ [⟨name, 0⟩] } rest)
    | some _ => none
  | .create, r :: _ =>
    match s.db.answer a with
    | none => some (s.withFailure.failed r .exception)
    | some (.created false) => some (s.failed r .notCreated)
    | some (.created true) =>
      -- an index of that name is not created again
      if (s.db.working (indexName r s.idx)).isNone then some
        { s with db := s.db.update (update s.db.working (indexName r s.idx)
                   (some ⟨r.tableName, r.columns, r.indexType⟩))
                 point := .measure }
      else none
    | some _ => none
  | .measure, r :: _ =>
    match s.db.answer a with
    | none => some (s.withFailure.failed r .exception)
    | some (.size mb) => some (s.afterMeasure numeric r mb)
    | some _ => none
  | .commit, _ =>
    match a with
    | none => some { s with point := .answered false }
    | some .done => some { s with db := s.db.commit
                                  point := .finalStats }
    | some _ => none
  | .finalStats, _ =>
    match a with
    | none => some { s with point := .answered false }
    | some .done => some { s with point := .answered true }
    | some _ => none
  | .search, [] | .create, [] | .measure, [] | .answered _, _ => none

/-- The request: the recommendations come by their benefit, the highest first. -/
def handlerInit (before : Catalog) (recommendedIndexes : List Recommendation) : Handler where
  db := .start before
  point := .budget
  remaining := recommendedIndexes.insertionSort fun a b => b.benefitScore ≤ a.benefitScore
  idx := 0
  availableBudget := 0
  totalSizeAdded := 0
  createdIndexes := []
  evictedIndexes := []
  failedIndexes := []

/-- `auto_create_indexes`. -/
def autoCreateIndexes (numeric : ℚ → PyNum) (before : Catalog) (recs : List Recommendation) :
    System Handler (Option Answer) :=
  .ofFun (· = handlerInit before recs) (handlerStep numeric)

namespace Handler

def createdNames (s : Handler) : List Name := s.createdIndexes.map CreatedIndex.indexName

def evictedNames (s : Handler) : List Name := s.evictedIndexes.map EvictedIndex.indexName

/-- The report is true: what was created exists, what was evicted does not, and everything else
is as before. -/
def ReportTrue (before : Catalog) (s : Handler) : Prop :=
  (∀ name ∈ s.createdNames, s.db.committed name ≠ none) ∧
    (∀ name ∈ s.evictedNames, s.db.committed name = none) ∧
    ∀ name, name ∉ s.createdNames → name ∉ s.evictedNames →
      s.db.committed name = before name

end Handler

/-! ### What a statement does -/

namespace Handler

/-- The name of the present recommendation's index. -/
def currentName (s : Handler) : Option Name := s.remaining.head?.map (indexName · s.idx)

/-- The index that is created and not yet reported. -/
def pending (s : Handler) : Option Name := if s.point = .measure then s.currentName else none

/-- The next statement is none that follows on the one before. -/
structure Calm (s : Handler) : Prop where
  not_measure : s.point ≠ .measure
  not_drop : ∀ name rest, s.point ≠ .evictDrop name rest
  not_stats : s.point ≠ .finalStats
  not_success : s.point ≠ .answered true

theorem Calm.pending {s : Handler} (h : s.Calm) : s.pending = none := if_neg h.not_measure

/-- An index is pending at one point only. -/
theorem pending_at {s : Handler} {point : Point} (h : s.point = point) (hne : point ≠ .measure) :
    s.pending = none := if_neg (h ▸ hne)

/-- The two handlers have the same report. -/
structure SameReport (s s' : Handler) : Prop where
  created : s'.createdNames = s.createdNames
  evicted : s'.evictedNames = s.evictedNames

theorem SameReport.withFailure {s s' : Handler} (h : s.withFailure.SameReport s') :
    s.SameReport s' := ⟨h.created, h.evicted⟩

theorem calm_next (s : Handler) : s.next.Calm := by
  unfold next
  constructor <;> (split <;> [skip; split]) <;> simp

theorem calm_failed (s : Handler) (r : Recommendation) (reason : Reason) :
    (s.failed r reason).Calm := calm_next _

theorem calm_startLoop (s : Handler) (b u : ℚ) : (s.startLoop b u).Calm := calm_next _

theorem calm_evictNext (s : Handler) (rest : List Name) : (s.evictNext rest).Calm := by
  cases rest <;> constructor <;> simp [evictNext]

theorem calm_afterSearch (s : Handler) (r : Recommendation) (found : List Name × ℚ) :
    (s.afterSearch r found).Calm := by
  unfold afterSearch
  split
  · exact calm_evictNext _ _
  · exact calm_failed _ _ _

theorem db_evictNext (s : Handler) (rest : List Name) : (s.evictNext rest).db = s.db := by
  cases rest <;> rfl

theorem sameReport_evictNext (s : Handler) (rest : List Name) :
    s.SameReport (s.evictNext rest) := by
  cases rest <;> exact ⟨rfl, rfl⟩

theorem db_afterSearch (s : Handler) (r : Recommendation) (found : List Name × ℚ) :
    (s.afterSearch r found).db = s.db := by
  unfold afterSearch
  split
  · exact db_evictNext _ _
  · rfl

theorem sameReport_afterSearch (s : Handler) (r : Recommendation) (found : List Name × ℚ) :
    s.SameReport (s.afterSearch r found) := by
  unfold afterSearch
  split
  · exact sameReport_evictNext _ _
  · exact ⟨rfl, rfl⟩

variable (numeric : ℚ → PyNum) (s : Handler) (r : Recommendation) (mb : ℚ)

theorem calm_afterMeasure : (s.afterMeasure numeric r mb).Calm := by
  unfold afterMeasure
  dsimp only
  split
  · exact calm_next _
  · exact calm_failed _ _ _

theorem db_afterMeasure : (s.afterMeasure numeric r mb).db = s.db := by
  unfold afterMeasure
  dsimp only
  split <;> rfl

theorem createdNames_afterMeasure :
    (s.afterMeasure numeric r mb).createdNames = s.createdNames ++ [indexName r s.idx] := by
  unfold afterMeasure
  dsimp only
  split <;> simp [createdNames, failed, advance, next]

theorem evictedNames_afterMeasure :
    (s.afterMeasure numeric r mb).evictedNames = s.evictedNames := by
  unfold afterMeasure
  dsimp only
  split <;> rfl

end Handler

/-- The condition on a statement and its answer: a statement fails only while nothing has been
reported; an index that was created is not dropped, and none of a name that was dropped is
created. -/
def orderly (s : Handler) (a : Option Answer) : Bool :=
  match s.point, s.db.answer a with
  | .commit, _ | .finalStats, _ | .answered _, _ => true
  | _, none => s.createdNames = [] ∧ s.evictedNames = []
  | .evictDrop name _, some .done => name ∉ s.createdNames
  | .create, some (.created true) => ∀ name ∈ s.currentName, name ∉ s.evictedNames
  | _, some _ => true

/-- The effect of a statement on the database and on the report, and when it is orderly. -/
inductive Move (s : Handler) (a : Option Answer) (s' : Handler) : Prop
  /-- A statement that changes neither. -/
  | quiet (hdb : s'.db = s.db) (hreport : s.SameReport s') (hpending : s.pending = none)
      (hcalm : s'.Calm) (horderly : orderly s a = true)
  /-- A statement that fails. -/
  | fail (hdb : s'.db = s.db.fail) (hreport : s.SameReport s') (hcalm : s'.Calm)
      (horderly : orderly s a = true ↔ s.createdNames = [] ∧ s.evictedNames = [])
  /-- The size of an index is asked for before it is dropped. -/
  | size (name : Name) (rest : List Name) (hpoint' : s'.point = .evictDrop name rest)
      (hdb : s'.db = s.db) (hreport : s.SameReport s') (hpending : s.pending = none)
      (hsome : (s.db.working name).isSome) (horderly : orderly s a = true)
  /-- An index is dropped and reported. -/
  | drop (name : Name) (rest : List Name) (hpoint : s.point = .evictDrop name rest)
      (hfailed : s.db.failed = false)
      (hdb : s'.db = s.db.update (update s.db.working name none))
      (hcreated : s'.createdNames = s.createdNames)
      (hevicted : s'.evictedNames = s.evictedNames ++ [name]) (hcalm : s'.Calm)
      (horderly : orderly s a = true ↔ name ∉ s.createdNames)
  /-- An index is created. -/
  | create (name : Name) (index : Index) (hname : s.currentName = some name)
      (hpoint : s.point = .create) (hfailed : s.db.failed = false)
      (hnone : s.db.working name = none)
      (hdb : s'.db = s.db.update (update s.db.working name (some index)))
      (hreport : s.SameReport s') (hpoint' : s'.point = .measure)
      (hname' : s'.currentName = some name)
      (horderly : orderly s a = true ↔ name ∉ s.evictedNames)
  /-- The new index is reported. -/
  | report (name : Name) (hpending : s.pending = some name) (hfailed : s.db.failed = false)
      (hdb : s'.db = s.db)
      (hcreated : s'.createdNames = s.createdNames ++ [name])
      (hevicted : s'.evictedNames = s.evictedNames) (hcalm : s'.Calm)
      (horderly : orderly s a = true)

namespace Move

open Handler

variable {numeric : ℚ → PyNum} {s s' : Handler} {a : Option Answer}

/-- **What a statement can do** before the commit. -/
theorem of_step (h : handlerStep numeric s a = some s') (hcommit : s.point ≠ .commit)
    (hstats : s.point ≠ .finalStats) : Move s a s' := by
  unfold handlerStep at h
  split at h
  case h_1 hpoint =>
    have hpending := pending_at hpoint nofun
    split at h <;> cases h
    case h_1 ha =>
      exact .fail rfl ⟨rfl, rfl⟩ ⟨nofun, nofun, nofun, nofun⟩ (by simp [orderly, hpoint, ha])
    case h_2 ha =>
      exact .quiet rfl ⟨rfl, rfl⟩ hpending ⟨nofun, nofun, nofun, nofun⟩
        (by simp [orderly, hpoint, ha])
    case h_3 ha =>
      exact .quiet rfl ⟨rfl, rfl⟩ hpending (calm_startLoop _ _ _)
        (by simp [orderly, hpoint, ha])
    case h_4 ha =>
      exact .quiet rfl ⟨rfl, rfl⟩ hpending ⟨nofun, nofun, nofun, nofun⟩
        (by simp [orderly, hpoint, ha])
  case h_2 hpoint =>
    have hpending := pending_at hpoint nofun
    split at h <;> cases h
    case h_1 ha =>
      exact .fail rfl ⟨rfl, rfl⟩ (calm_startLoop _ _ _) (by simp [orderly, hpoint, ha])
    case h_2 ha =>
      exact .quiet rfl ⟨rfl, rfl⟩ hpending (calm_startLoop _ _ _)
        (by simp [orderly, hpoint, ha])
  case h_3 r rs hpoint hrem =>
    have hpending := pending_at hpoint nofun
    split at h <;> cases h
    case h_1 ha =>
      exact .fail (db_afterSearch _ _ _)
        (sameReport_afterSearch s.withFailure _ _).withFailure
        (calm_afterSearch _ _ _) (by simp [orderly, hpoint, ha])
    case h_2 ha =>
      exact .quiet (db_afterSearch _ _ _) (sameReport_afterSearch _ _ _) hpending
        (calm_afterSearch _ _ _) (by simp [orderly, hpoint, ha])
  case h_4 name rest hpoint =>
    have hpending := pending_at hpoint nofun
    split at h
    case h_1 ha =>
      cases h
      exact .fail (db_evictNext _ _)
        (sameReport_evictNext s.withFailure _).withFailure (calm_evictNext _ _)
        (by simp [orderly, hpoint, ha])
    case h_2 ha =>
      split at h <;> cases h
      case isTrue hsome =>
        exact .size name rest rfl rfl ⟨rfl, rfl⟩ hpending hsome (by simp [orderly, hpoint, ha])
    case h_3 => cases h
  case h_5 name rest hpoint =>
    split at h <;> cases h
    case h_1 ha =>
      exact .fail (db_evictNext _ _)
        (sameReport_evictNext s.withFailure _).withFailure (calm_evictNext _ _)
        (by simp [orderly, hpoint, ha])
    case h_2 ha =>
      have hreport := sameReport_evictNext
        { s with db := s.db.update (update s.db.working name none)
                 evictedIndexes := s.evictedIndexes ++ [⟨name, 0⟩] } rest
      refine .drop name rest hpoint (Transaction.of_answer_eq_some ha).1 (db_evictNext _ _)
        hreport.created ?_ (calm_evictNext _ _) (by simp [orderly, hpoint, ha])
      rw [hreport.evicted]
      simp [evictedNames]
  case h_6 r rs hpoint hrem =>
    have hpending := pending_at hpoint nofun
    have hname : s.currentName = some (indexName r s.idx) := by
      rw [currentName, hrem]
      rfl
    split at h
    case h_1 ha =>
      cases h
      exact .fail rfl ⟨rfl, rfl⟩ (calm_failed _ _ _) (by simp [orderly, hpoint, ha])
    case h_2 ha =>
      cases h
      exact .quiet rfl ⟨rfl, rfl⟩ hpending (calm_failed _ _ _)
        (by simp [orderly, hpoint, ha])
    case h_3 ha =>
      split at h <;> cases h
      case isTrue hnone =>
        exact .create _ _ hname hpoint (Transaction.of_answer_eq_some ha).1
          (Option.isNone_iff_eq_none.mp hnone) rfl ⟨rfl, rfl⟩ rfl hname
          (by simp [orderly, hpoint, ha, hname])
    case h_4 => cases h
  case h_7 r rs hpoint hrem =>
    have hname : s.currentName = some (indexName r s.idx) := by
      rw [currentName, hrem]
      rfl
    split at h <;> cases h
    case h_1 ha =>
      exact .fail rfl ⟨rfl, rfl⟩ (calm_failed _ _ _) (by simp [orderly, hpoint, ha])
    case h_2 mb ha =>
      exact .report _ ((if_pos hpoint).trans hname) (Transaction.of_answer_eq_some ha).1
        (db_afterMeasure _ _ _ _) (createdNames_afterMeasure _ _ _ _)
        (evictedNames_afterMeasure _ _ _ _) (calm_afterMeasure _ _ _ _)
        (by simp [orderly, hpoint, ha])
  case h_8 hpoint => exact absurd hpoint hcommit
  case h_9 hpoint => exact absurd hpoint hstats
  all_goals cases h

end Move

/-! ### The report and the database -/

/-- The database of the transaction agrees with the report, while no statement has failed. -/
structure Matches (before : Catalog) (s : Handler) : Prop where
  other : ∀ name, name ∉ s.createdNames → name ∉ s.evictedNames → s.pending ≠ some name →
    s.db.working name = before name
  created : ∀ name ∈ s.createdNames, name ∉ s.evictedNames → s.db.working name ≠ none
  evicted : ∀ name ∈ s.evictedNames, name ∉ s.createdNames → s.pending ≠ some name →
    s.db.working name = none
  pending : ∀ name, s.pending = some name →
    s.db.working name ≠ none ∧ (before name = none ∨ name ∈ s.evictedNames)
  dropping : ∀ name rest, s.point = .evictDrop name rest → s.db.working name ≠ none

/-- The invariant of the transaction. A name that is created is new, unless it was evicted before;
a name that is evicted is an old one, unless it was created before. -/
structure Inv (before : Catalog) (s : Handler) : Prop where
  agrees : s.db.failed = false → Matches before s
  created_new : ∀ name ∈ s.createdNames, before name = none ∨ name ∈ s.evictedNames
  evicted_old : ∀ name ∈ s.evictedNames, before name ≠ none ∨ name ∈ s.createdNames

namespace Matches

variable {before : Catalog} {s s' : Handler} {a : Option Answer} {name : Name}

theorem new_of_none (h : Matches before s) (hpending : s.pending = none)
    (hnone : s.db.working name = none) : before name = none ∨ name ∈ s.evictedNames := by
  by_cases hevicted : name ∈ s.evictedNames
  · exact .inr hevicted
  · left
    by_cases hcreated : name ∈ s.createdNames
    · exact absurd hnone (h.created name hcreated hevicted)
    · rw [← h.other name hcreated hevicted (by rw [hpending]; nofun)]
      exact hnone

theorem old_of_some (h : Matches before s) (hpending : s.pending = none)
    (hsome : s.db.working name ≠ none) : before name ≠ none ∨ name ∈ s.createdNames := by
  by_cases hcreated : name ∈ s.createdNames
  · exact .inr hcreated
  · left
    by_cases hevicted : name ∈ s.evictedNames
    · exact absurd (h.evicted name hevicted hcreated (by rw [hpending]; nofun)) hsome
    · rw [← h.other name hcreated hevicted (by rw [hpending]; nofun)]
      exact hsome

theorem same (h : Matches before s) (hworking : s'.db.working = s.db.working)
    (hreport : s.SameReport s') (hpending : s.pending = none) (hpending' : s'.pending = none)
    (hdropping : ∀ name rest, s'.point = .evictDrop name rest → s.db.working name ≠ none) :
    Matches before s' := by
  have hnone (name : Name) : s.pending ≠ some name := by rw [hpending]; nofun
  constructor
  · rw [hreport.created, hreport.evicted, hworking]
    exact fun name hc he _ => h.other name hc he (hnone name)
  · rw [hreport.created, hreport.evicted, hworking]
    exact h.created
  · rw [hreport.created, hreport.evicted, hworking]
    exact fun name he hc _ => h.evicted name he hc (hnone name)
  · rw [hpending']
    nofun
  · rw [hworking]
    exact hdropping

theorem drop (h : Matches before s) (hpending : s.pending = none)
    (hdb : s'.db = s.db.update (update s.db.working name none))
    (hcreated : s'.createdNames = s.createdNames)
    (hevicted : s'.evictedNames = s.evictedNames ++ [name]) (hcalm : s'.Calm) :
    Matches before s' := by
  have hworking : s'.db.working = update s.db.working name none := by rw [hdb]; rfl
  have hnot (n : Name) : n ∉ s'.evictedNames ↔ n ∉ s.evictedNames ∧ n ≠ name := by
    rw [hevicted, mem_append_singleton, not_or]
  have hnone (n : Name) : s.pending ≠ some n := by rw [hpending]; nofun
  refine ⟨?_, ?_, ?_, ?_, fun n rest hn => absurd hn (hcalm.not_drop n rest)⟩
  · rw [hcreated, hworking]
    intro n hc he _
    obtain ⟨he, hne⟩ := (hnot n).mp he
    rw [update_of_ne hne]
    exact h.other n hc he (hnone n)
  · rw [hcreated, hworking]
    intro n hc he
    obtain ⟨he, hne⟩ := (hnot n).mp he
    rw [update_of_ne hne]
    exact h.created n hc he
  · rw [hcreated, hworking]
    intro n he hc _
    rcases eq_or_ne n name with rfl | hne
    · exact update_self ..
    · rw [hevicted, mem_append_singleton] at he
      rw [update_of_ne hne]
      exact h.evicted n (he.resolve_right hne) hc (hnone n)
  · rw [hcalm.pending]
    nofun

theorem create {index : Index} (h : Matches before s) (hpending : s.pending = none)
    (hempty : s.db.working name = none)
    (hdb : s'.db = s.db.update (update s.db.working name (some index)))
    (hreport : s.SameReport s') (hpoint' : s'.point = .measure)
    (hpending' : s'.pending = some name) : Matches before s' := by
  have hworking : s'.db.working = update s.db.working name (some index) := by rw [hdb]; rfl
  have hne {n : Name} (hn : s'.pending ≠ some n) : n ≠ name := by
    rintro rfl
    exact hn hpending'
  have hnone (n : Name) : s.pending ≠ some n := by rw [hpending]; nofun
  refine ⟨?_, ?_, ?_, ?_, fun n rest hn => by rw [hpoint'] at hn; cases hn⟩
  · rw [hreport.created, hreport.evicted, hworking]
    intro n hc he hn
    rw [update_of_ne (hne hn)]
    exact h.other n hc he (hnone n)
  · rw [hreport.created, hreport.evicted, hworking]
    intro n hc he
    rcases eq_or_ne n name with rfl | hn
    · rw [update_self]
      nofun
    · rw [update_of_ne hn]
      exact h.created n hc he
  · rw [hreport.created, hreport.evicted, hworking]
    intro n he hc hn
    rw [update_of_ne (hne hn)]
    exact h.evicted n he hc (hnone n)
  · intro n hn
    obtain rfl : name = n := Option.some.inj (hpending'.symm.trans hn)
    rw [hworking, update_self, hreport.evicted]
    exact ⟨nofun, h.new_of_none hpending hempty⟩

theorem report (h : Matches before s) (hpending : s.pending = some name) (hdb : s'.db = s.db)
    (hcreated : s'.createdNames = s.createdNames ++ [name])
    (hevicted : s'.evictedNames = s.evictedNames) (hcalm : s'.Calm) : Matches before s' := by
  have hnot (n : Name) : n ∉ s'.createdNames ↔ n ∉ s.createdNames ∧ n ≠ name := by
    rw [hcreated, mem_append_singleton, not_or]
  have hother {n : Name} (hne : n ≠ name) : s.pending ≠ some n := by
    rw [hpending]
    intro heq
    exact hne (Option.some.inj heq).symm
  refine ⟨?_, ?_, ?_, ?_, fun n rest hn => absurd hn (hcalm.not_drop n rest)⟩
  · rw [hevicted, hdb]
    intro n hc he _
    obtain ⟨hc, hne⟩ := (hnot n).mp hc
    exact h.other n hc he (hother hne)
  · rw [hevicted, hdb, hcreated]
    intro n hc he
    rw [mem_append_singleton] at hc
    rcases hc with hc | rfl
    · exact h.created n hc he
    · exact (h.pending n hpending).1
  · rw [hevicted, hdb]
    intro n he hc _
    obtain ⟨hc, hne⟩ := (hnot n).mp hc
    exact h.evicted n he hc (hother hne)
  · rw [hcalm.pending]
    nofun

end Matches

open Handler (pending_at)

section Invariant

variable {before : Catalog} {s s' : Handler} {a : Option Answer}

theorem Inv.of_sameReport (h : Inv before s) (hreport : s.SameReport s')
    (hagrees : s'.db.failed = false → Matches before s') : Inv before s' where
  agrees := hagrees
  created_new := by
    rw [hreport.created, hreport.evicted]
    exact h.created_new
  evicted_old := by
    rw [hreport.created, hreport.evicted]
    exact h.evicted_old

theorem Inv.move (h : Inv before s) (m : Move s a s') : Inv before s' := by
  cases m with
  | quiet hdb hreport hpending hcalm =>
    refine h.of_sameReport hreport fun hf => ?_
    rw [hdb] at hf
    exact (h.agrees hf).same (by rw [hdb]) hreport hpending hcalm.pending
      fun name rest hn => absurd hn (hcalm.not_drop name rest)
  | fail hdb hreport =>
    refine h.of_sameReport hreport fun hf => ?_
    rw [hdb, Transaction.failed_fail] at hf
    cases hf
  | size name rest hpoint' hdb hreport hpending hsome =>
    refine h.of_sameReport hreport fun hf => ?_
    rw [hdb] at hf
    refine (h.agrees hf).same (by rw [hdb]) hreport hpending (pending_at hpoint' nofun) ?_
    intro n r hn
    rw [hpoint'] at hn
    cases hn
    exact Option.isSome_iff_ne_none.mp hsome
  | drop name rest hpoint hfailed hdb hcreated hevicted hcalm =>
    have hm := h.agrees hfailed
    have hpending := pending_at hpoint nofun
    refine ⟨fun _ => hm.drop hpending hdb hcreated hevicted hcalm, ?_, ?_⟩
    · intro n hn
      rw [hcreated] at hn
      rw [hevicted]
      exact (h.created_new n hn).imp_right (List.mem_append_left _)
    · intro n hn
      rw [hcreated]
      rw [hevicted, mem_append_singleton] at hn
      rcases hn with hn | rfl
      · exact h.evicted_old n hn
      · exact hm.old_of_some hpending (hm.dropping n rest hpoint)
  | create name index hname hpoint hfailed hnone hdb hreport hpoint' hname' =>
    have hpending := pending_at hpoint nofun
    exact h.of_sameReport hreport fun _ => (h.agrees hfailed).create hpending hnone hdb hreport
      hpoint' ((if_pos hpoint').trans hname')
  | report name hpending hfailed hdb hcreated hevicted hcalm =>
    have hm := h.agrees hfailed
    refine ⟨fun _ => hm.report hpending hdb hcreated hevicted hcalm, ?_, ?_⟩
    · intro n hn
      rw [hevicted]
      rw [hcreated, mem_append_singleton] at hn
      rcases hn with hn | rfl
      · exact h.created_new n hn
      · exact (hm.pending n hpending).2
    · intro n hn
      rw [hevicted] at hn
      rw [hcreated]
      exact (h.evicted_old n hn).imp_right (List.mem_append_left _)

theorem Move.committed (m : Move s a s') : s'.db.committed = s.db.committed := by
  cases m with
  | quiet hdb | fail hdb | size _ _ _ hdb | drop _ _ _ _ hdb | create _ _ _ _ _ _ hdb
  | report _ _ _ hdb => simp [hdb]

theorem Move.not_ended (m : Move s a s') : s'.point ≠ .finalStats ∧ s'.point ≠ .answered true := by
  cases m with
  | quiet _ _ _ hcalm | fail _ _ hcalm | drop _ _ _ _ _ _ _ hcalm | report _ _ _ _ _ _ hcalm =>
    exact ⟨hcalm.not_stats, hcalm.not_success⟩
  | size _ _ hpoint' | create _ _ _ _ _ _ _ _ hpoint' => rw [hpoint']; exact ⟨nofun, nofun⟩

/-- The report cannot become true any more: something has been reported that is rolled back, or a
name is, or will be, in both lists. -/
def Tainted (s : Handler) : Prop :=
  s.db.failed = true ∧ (s.createdNames ≠ [] ∨ s.evictedNames ≠ []) ∨
    (∃ name ∈ s.createdNames, name ∈ s.evictedNames) ∨
    s.db.failed = false ∧ ∃ name, s.pending = some name ∧ name ∈ s.evictedNames

theorem Tainted.reported (h : Tainted s) : s.createdNames ≠ [] ∨ s.evictedNames ≠ [] := by
  rcases h with ⟨-, h⟩ | ⟨name, hc, -⟩ | ⟨-, name, -, he⟩
  · exact h
  · exact .inl (List.ne_nil_of_mem hc)
  · exact .inr (List.ne_nil_of_mem he)

theorem tainted_of_failed (h : s.db.failed = true) :
    Tainted s ↔ s.createdNames ≠ [] ∨ s.evictedNames ≠ [] :=
  ⟨Tainted.reported, fun hr => .inl ⟨h, hr⟩⟩

theorem tainted_of_not_failed (h : s.db.failed = false) :
    Tainted s ↔ (∃ name ∈ s.createdNames, name ∈ s.evictedNames) ∨
      ∃ name, s.pending = some name ∧ name ∈ s.evictedNames := by
  simp [Tainted, h]

theorem tainted_same (hdb : s'.db.failed = s.db.failed) (hreport : s.SameReport s')
    (hpending : s'.pending = s.pending) : Tainted s' ↔ Tainted s := by
  rw [Tainted, Tainted, hdb, hreport.created, hreport.evicted, hpending]

theorem Move.tainted_iff (m : Move s a s') : Tainted s' ↔ Tainted s ∨ ¬ orderly s a = true := by
  cases m with
  | quiet hdb hreport hpending hcalm horderly =>
    rw [tainted_same (by rw [hdb]) hreport (hcalm.pending.trans hpending.symm)]
    simp [horderly]
  | fail hdb hreport hcalm horderly =>
    rw [tainted_of_failed (by rw [hdb]; rfl), hreport.created, hreport.evicted, horderly,
      not_and_or]
    exact ⟨.inr, fun h => h.elim Tainted.reported id⟩
  | size name rest hpoint' hdb hreport hpending hsome horderly =>
    have hpending' := pending_at hpoint' nofun
    rw [tainted_same (by rw [hdb]) hreport (hpending'.trans hpending.symm)]
    simp [horderly]
  | drop name rest hpoint hfailed hdb hcreated hevicted hcalm horderly =>
    have hpending := pending_at hpoint nofun
    rw [tainted_of_not_failed (by rw [hdb]; exact hfailed), tainted_of_not_failed hfailed,
      hcalm.pending, hpending, hcreated, hevicted, horderly]
    simp [and_or_left, exists_or]
  | create name index hname hpoint hfailed hnone hdb hreport hpoint' hname' horderly =>
    have hpending := pending_at hpoint nofun
    have hpending' : s'.pending = some name := (if_pos hpoint').trans hname'
    rw [tainted_of_not_failed (by rw [hdb]; exact hfailed), tainted_of_not_failed hfailed,
      hpending, hpending', hreport.created, hreport.evicted, horderly]
    simp
  | report name hpending hfailed hdb hcreated hevicted hcalm horderly =>
    rw [tainted_of_not_failed (by rw [hdb]; exact hfailed), tainted_of_not_failed hfailed,
      hcalm.pending, hpending, hcreated, hevicted]
    simp [or_and_right, exists_or, horderly]

end Invariant

/-! ### The end of the request -/

/-- The invariant along a request: until the commit the database of the others is as before; the
commit makes it that of the transaction, or leaves it. -/
structure RequestInv (before : Catalog) (s : Handler) : Prop where
  inv : Inv before s
  committed : s.point ≠ .finalStats → (∀ b, s.point ≠ .answered b) → s.db.committed = before
  ended : s.point = .finalStats ∨ s.point = .answered true →
    s.db.committed = if s.db.failed then before else s.db.working

section Request

variable {numeric : ℚ → PyNum} {before : Catalog} {s s' : Handler} {a : Option Answer}

theorem requestInv_init (recs : List Recommendation) :
    RequestInv before (handlerInit before recs) where
  inv :=
    { agrees := fun _ =>
        { other := fun _ _ _ _ => rfl
          created := nofun
          evicted := nofun
          pending := nofun
          dropping := nofun }
      created_new := nofun
      evicted_old := nofun }
  committed _ _ := rfl
  ended h := by rcases h with h | h <;> cases h

theorem Inv.atPoint (h : Inv before s) (hpending : s.pending = none) (db : Transaction Catalog)
    (point : Point) (hworking : db.working = s.db.working) (hfailed : db.failed = s.db.failed)
    (hmeasure : point ≠ .measure) (hdrop : ∀ name rest, point ≠ .evictDrop name rest) :
    Inv before { s with db := db
                        point := point } :=
  h.of_sameReport ⟨rfl, rfl⟩ fun hf =>
    (h.agrees (hfailed.symm.trans hf)).same hworking ⟨rfl, rfl⟩ hpending (if_neg hmeasure)
      fun name rest hn => absurd hn (hdrop name rest)

theorem RequestInv.step (h : RequestInv before s) (hstep : handlerStep numeric s a = some s') :
    RequestInv before s' := by
  by_cases hcommit : s.point = .commit
  · have hpending := pending_at hcommit nofun
    simp only [handlerStep, hcommit] at hstep
    split at hstep <;> cases hstep
    · exact ⟨h.inv.atPoint hpending s.db (.answered false) rfl rfl nofun nofun,
        fun _ hb => absurd rfl (hb false), nofun⟩
    · refine ⟨h.inv.atPoint hpending s.db.commit .finalStats rfl rfl nofun nofun,
        fun hs => absurd rfl hs, fun _ => ?_⟩
      have hbefore := h.committed (by rw [hcommit]; nofun) (by rw [hcommit]; nofun)
      show (if s.db.failed then s.db.committed else s.db.working) = _
      rw [hbefore]
      rfl
  · by_cases hstats : s.point = .finalStats
    · have hpending := pending_at hstats nofun
      simp only [handlerStep, hstats] at hstep
      split at hstep <;> cases hstep
      · exact ⟨h.inv.atPoint hpending s.db (.answered false) rfl rfl nofun nofun,
          fun _ hb => absurd rfl (hb false), nofun⟩
      · exact ⟨h.inv.atPoint hpending s.db (.answered true) rfl rfl nofun nofun,
          fun _ hb => absurd rfl (hb true), fun _ => h.ended (.inl hstats)⟩
    · have m := Move.of_step hstep hcommit hstats
      have hanswered : ∀ b, s.point ≠ .answered b := by
        intro b hb
        simp [handlerStep, hb] at hstep
      refine ⟨h.inv.move m, fun _ _ => m.committed.trans (h.committed hstats hanswered), ?_⟩
      rintro (hs | hs)
      · exact absurd hs m.not_ended.1
      · exact absurd hs m.not_ended.2

theorem tainted_iff_of_step (hstep : handlerStep numeric s a = some s') :
    Tainted s' ↔ Tainted s ∨ ¬ orderly s a = true := by
  by_cases hpoint : s.point = .commit ∨ s.point = .finalStats
  · have hpending : s.pending = none := if_neg (by rcases hpoint with h | h <;> rw [h] <;> nofun)
    have horderly : orderly s a = true := by rcases hpoint with h | h <;> simp [orderly, h]
    -- what comes after these two is neither a creation nor a change of the report
    have hsame : Tainted s' ↔ Tainted s := by
      rcases hpoint with h | h <;> simp only [handlerStep, h] at hstep <;> split at hstep <;>
        cases hstep <;> exact tainted_same rfl ⟨rfl, rfl⟩ hpending.symm
    simp [hsame, horderly]
  · rw [not_or] at hpoint
    exact (Move.of_step hstep hpoint.1 hpoint.2).tainted_iff

theorem RequestInv.reportTrue_iff (h : RequestInv before s) (hsuccess : s.point = .answered true) :
    s.ReportTrue before ↔ ¬ Tainted s := by
  have hpending := pending_at hsuccess nofun
  have hcommitted := h.ended (.inr hsuccess)
  cases hfailed : s.db.failed with
  | true =>
    -- rolled back: the report is true only if it is empty
    rw [hfailed, if_pos rfl] at hcommitted
    rw [tainted_of_failed hfailed, not_or, not_not, not_not, Handler.ReportTrue, hcommitted]
    constructor
    · rintro ⟨hcreated, hevicted, -⟩
      have hc : ∀ name, name ∉ s.createdNames := by
        intro name hname
        rcases h.inv.created_new name hname with hnew | he
        · exact hcreated name hname hnew
        · exact hcreated name hname (hevicted name he)
      refine ⟨List.eq_nil_iff_forall_not_mem.mpr hc, List.eq_nil_iff_forall_not_mem.mpr ?_⟩
      intro name hname
      rcases h.inv.evicted_old name hname with hold | hcn
      · exact hold (hevicted name hname)
      · exact hc name hcn
    · rintro ⟨hc, he⟩
      rw [hc, he]
      exact ⟨nofun, nofun, fun _ _ _ => rfl⟩
  | false =>
    rw [hfailed, if_neg (by decide)] at hcommitted
    rw [tainted_of_not_failed hfailed, hpending, Handler.ReportTrue, hcommitted]
    have hm := h.inv.agrees hfailed
    constructor
    · rintro ⟨hcreated, hevicted, -⟩ (⟨name, hc, he⟩ | ⟨name, hn, -⟩)
      · exact hcreated name hc (hevicted name he)
      · cases hn
    · intro hnot
      rw [not_or] at hnot
      refine ⟨fun name hc => hm.created name hc fun he => hnot.1 ⟨name, hc, he⟩, ?_, ?_⟩
      · intro name he
        exact hm.evicted name he (fun hc => hnot.1 ⟨name, hc, he⟩) (by rw [hpending]; nofun)
      · intro name hc he
        exact hm.other name hc he (by rw [hpending]; nofun)

end Request

/-- **The report is true** at the end of a request that is answered with success, exactly if every
statement of the request was orderly. -/
theorem report_true_iff (numeric : ℚ → PyNum) (before : Catalog) (recs : List Recommendation)
    {ls : List (Option Answer)} {s : Handler}
    (hrun : (autoCreateIndexes numeric before recs).Run (handlerInit before recs) ls s)
    (hsuccess : s.point = .answered true) :
    s.ReportTrue before ↔
      ((autoCreateIndexes numeric before recs).guard fun s a => orderly s a = true).Run
        (handlerInit before recs) ls s := by
  have hinv : RequestInv before s :=
    hrun.invariant (requestInv_init recs) fun _ _ _ h hstep => h.step hstep
  have hinit : ¬ Tainted (handlerInit before recs) := fun h =>
    h.reported.elim (fun hc => hc rfl) fun he => he rfl
  rw [hinv.reportTrue_iff hsuccess,
    System.run_guard_iff hinit (fun _ _ _ => trivial) fun _ _ _ _ hstep =>
      tainted_iff_of_step hstep]
  exact ⟨fun h => ⟨hrun, h⟩, fun h => h.2⟩

/-- A recommendation for a column of table `t`. -/
def recommend (column : String) (estimatedSizeMb : ℚ) : Recommendation :=
  ⟨"t".toList, [column.toList], "btree".toList, estimatedSizeMb, 1⟩

/-- With psycopg2: two indexes are created. -/
theorem report_true_creation :
    ∃ ls s, (autoCreateIndexes .decimal (fun _ => none) [recommend "a" 20, recommend "b" 20]).Run
        (handlerInit (fun _ => none) [recommend "a" 20, recommend "b" 20]) ls s ∧
      s.createdNames = ["idx_auto_t_a_0".toList, "idx_auto_t_b_1".toList] ∧
      s.ReportTrue (fun _ => none) := by
  obtain ⟨s, hrun, hsuccess, hcreated⟩ := System.exists_guard_run_of_exec
    (show (System.exec (fun s a => if orderly s a = true then handlerStep .decimal s a else none)
        (handlerInit (fun _ => none) [recommend "a" 20, recommend "b" 20])
        [some (.budget (some (some 100, some 0))), some (.created true), some (.size 15),
          some (.created true), some (.size 15), some .done, some .done]).any
      (fun s => s.point = .answered true ∧
        s.createdNames = ["idx_auto_t_a_0".toList, "idx_auto_t_b_1".toList]) = true
      by decide +kernel) fun _ _ hs => hs
  exact ⟨_, s, hrun.of_guard, hcreated,
    (report_true_iff .decimal _ _ hrun.of_guard hsuccess).mpr hrun⟩

/-- The first index is created and reported, then the creation of the second one fails: the answer
is success and lists the first index, which does not exist. -/
theorem reported_index_missing :
    ∃ ls s, (autoCreateIndexes .decimal (fun _ => none) [recommend "a" 20, recommend "b" 20]).Run
        (handlerInit (fun _ => none) [recommend "a" 20, recommend "b" 20]) ls s ∧
      s.point = .answered true ∧ s.createdNames = ["idx_auto_t_a_0".toList] ∧
      s.db.committed "idx_auto_t_a_0".toList = none ∧ ¬ s.ReportTrue (fun _ => none) := by
  refine ⟨[some (.budget (some (some 100, some 0))), some (.created true), some (.size 15), none,
    some .done, some .done], System.exists_run_of_exec (P := fun s => s.point = .answered true ∧
      s.createdNames = ["idx_auto_t_a_0".toList] ∧ s.db.committed "idx_auto_t_a_0".toList = none)
      (by decide +kernel) ?_⟩
  rintro s - ⟨hsuccess, hcreated, hnone⟩
  refine ⟨hsuccess, hcreated, hnone, fun h => ?_⟩
  exact h.1 "idx_auto_t_a_0".toList (by rw [hcreated]; exact List.mem_cons_self) hnone

/-! ### Evictions -/

/-- With the sizes as `Decimal` the search finds nothing: it raises at the first candidate. -/
theorem findIndexesToEvict_decimal (requiredSpaceMb : ℚ) (rows : Option (List (Name × ℚ))) :
    findIndexesToEvict .decimal requiredSpaceMb rows = ([], 0) := by
  cases rows with
  | none => rfl
  | some candidates =>
    cases candidates with
    | nil | cons c cs => rfl

/-- No index is on its way to be evicted, and none has been. -/
structure NoEviction (s : Handler) : Prop where
  not_size : ∀ name rest, s.point ≠ .evictSize name rest
  not_drop : ∀ name rest, s.point ≠ .evictDrop name rest
  evicted : s.evictedIndexes = []

variable {s : Handler}

theorem NoEviction.next (h : s.evictedIndexes = []) : NoEviction s.next := by
  refine ⟨?_, ?_, h⟩ <;> intro name rest <;> unfold Handler.next <;> dsimp only <;>
    (split <;> [skip; split]) <;> nofun

theorem NoEviction.afterSearch (h : s.evictedIndexes = []) (r : Recommendation) :
    NoEviction (s.afterSearch r ([], 0)) := by
  unfold Handler.afterSearch
  split
  · exact ⟨nofun, nofun, h⟩
  · exact NoEviction.next h

theorem NoEviction.afterMeasure {numeric : ℚ → PyNum} (h : s.evictedIndexes = [])
    (r : Recommendation) (mb : ℚ) : NoEviction (s.afterMeasure numeric r mb) := by
  unfold Handler.afterMeasure
  dsimp only
  split <;> exact NoEviction.next h

theorem NoEviction.step {s' : Handler} {a : Option Answer} (h : NoEviction s)
    (hstep : handlerStep .decimal s a = some s') : NoEviction s' := by
  unfold handlerStep at hstep
  split at hstep
  case h_1 | h_2 =>
    split at hstep <;> cases hstep
    all_goals first
      | exact NoEviction.next h.evicted
      | exact ⟨nofun, nofun, h.evicted⟩
  case h_3 r rs hpoint hrem =>
    split at hstep <;> cases hstep
    · rw [findIndexesToEvict_decimal]
      exact NoEviction.afterSearch (s := s.withFailure) h.evicted r
    · rw [findIndexesToEvict_decimal]
      exact NoEviction.afterSearch h.evicted r
  case h_4 name rest hpoint => exact absurd hpoint (h.not_size name rest)
  case h_5 name rest hpoint => exact absurd hpoint (h.not_drop name rest)
  case h_6 r rs hpoint hrem =>
    split at hstep
    case h_1 | h_2 => cases hstep; exact NoEviction.next h.evicted
    case h_3 =>
      split at hstep <;> cases hstep
      exact ⟨nofun, nofun, h.evicted⟩
    case h_4 => cases hstep
  case h_7 r rs hpoint hrem =>
    split at hstep <;> cases hstep
    · exact NoEviction.next h.evicted
    · exact NoEviction.afterMeasure h.evicted r _
  case h_8 | h_9 =>
    split at hstep <;> cases hstep <;> exact ⟨nofun, nofun, h.evicted⟩
  all_goals cases hstep

/-- **Nothing is ever evicted** with the driver as it is. -/
theorem nothing_evicted {before : Catalog} {recs : List Recommendation} {ls : List (Option Answer)}
    (hrun : (autoCreateIndexes .decimal before recs).Run (handlerInit before recs) ls s) :
    s.evictedIndexes = [] := by
  have hinit : NoEviction (handlerInit before recs) := ⟨nofun, nofun, rfl⟩
  exact (hrun.invariant hinit fun _ _ _ h hstep => h.step hstep).evicted

/-- A catalog with one index. -/
def oneIndex (name : Name) : Catalog := fun n =>
  if n = name then some ⟨"t".toList, ["b".toList], "btree".toList⟩ else none

/-- The new index does not fit; the old one would make room, and stays. -/
theorem nothing_evicted_full :
    let before := oneIndex "idx_auto_t_b_0".toList
    ∃ ls s, (autoCreateIndexes .decimal before [recommend "a" 20]).Run
        (handlerInit before [recommend "a" 20]) ls s ∧ s.point = .commit ∧ s.evictedIndexes = [] :=
  ⟨[some (.budget (some (some 100, some 90))),
      some (.candidates [("idx_auto_t_b_0".toList, 80)])],
    System.exists_run_of_exec (P := fun s => s.point = .commit) (by decide +kernel)
      fun _ hrun hpoint => ⟨hpoint, nothing_evicted hrun⟩⟩

/-! ### The budget -/

/-- What is not taken off the budget of a size: the subtraction of a `Decimal` is not reached. -/
def PyNum.uncounted : PyNum → ℚ
  | float _ => 0
  | decimal q => q

/-- Evictions are looked for or made. -/
def Point.evicts : Point → Bool
  | .search | .evictSize .. | .evictDrop .. => true
  | _ => false

namespace Handler

/-- The actual sizes of the indexes created so far. -/
def createdSize (s : Handler) : ℚ := (s.createdIndexes.map (·.actualSizeMb.value)).sum

def uncountedSize (s : Handler) : ℚ := (s.createdIndexes.map (·.actualSizeMb.uncounted)).sum

/-- The present recommendation does not fit. -/
def Exceeds (s : Handler) : Prop := ∀ r ∈ s.remaining.head?, s.availableBudget < r.estimatedSizeMb

/-- What is available is the budget without the sizes that are counted. -/
def Counts (b u : ℚ) (s : Handler) : Prop :=
  s.availableBudget = b - (u + s.createdSize - s.uncountedSize)

end Handler

/-- The accounting is exact, and an index is evicted only for a recommendation that does not fit;
`size` is the actual size of an index. -/
structure BudgetExact (size : Name → ℚ) (budget usage : ℚ) (s : Handler) : Prop where
  available : s.availableBudget =
    budget - (usage + s.createdSize - (s.evictedNames.map size).sum)
  exceeds : s.point.evicts → s.Exceeds

/-- What holds in the loop over the recommendations. -/
structure LoopInv (b u : ℚ) (s : Handler) : Prop where
  started : s.point ≠ .budget ∧ s.point ≠ .fallback
  counts : s.Counts b u
  exceeds : s.point.evicts → s.Exceeds

namespace LoopInv

open Handler

variable {b u : ℚ} {s' : Handler}

theorem next (h : s.Counts b u) : LoopInv b u s.next := by
  unfold Handler.next
  split
  · exact ⟨⟨nofun, nofun⟩, h, nofun⟩
  · next r rs hrem =>
    split
    · next hlt =>
      refine ⟨⟨nofun, nofun⟩, h, fun _ r' hr' => ?_⟩
      obtain rfl : r = r' := Option.some.inj ((congrArg List.head? hrem).symm.trans hr')
      exact hlt
    · exact ⟨⟨nofun, nofun⟩, h, nofun⟩

theorem evictNext (h : s.Counts b u) (hexceeds : s.Exceeds) (rest : List Name) :
    LoopInv b u (s.evictNext rest) := by
  cases rest with
  | nil => exact ⟨⟨nofun, nofun⟩, h, nofun⟩
  | cons => exact ⟨⟨nofun, nofun⟩, h, fun _ => hexceeds⟩

theorem afterMeasure (h : s.Counts b u) (numeric : ℚ → PyNum) (r : Recommendation) (mb : ℚ) :
    LoopInv b u (s.afterMeasure numeric r mb) := by
  unfold Counts createdSize uncountedSize at h
  unfold Handler.afterMeasure
  cases numeric mb with
  | float q | decimal q =>
    refine next ?_
    have hzero : (PyNum.float q).uncounted = 0 := rfl
    simp [Counts, createdSize, uncountedSize, hzero]
    linarith!

theorem step (h : LoopInv b u s) {numeric : ℚ → PyNum} {a : Option Answer}
    (hstep : handlerStep numeric s a = some s') : LoopInv b u s' := by
  unfold handlerStep at hstep
  split at hstep
  case h_1 hpoint => exact absurd hpoint h.started.1
  case h_2 hpoint => exact absurd hpoint h.started.2
  case h_3 r rs hpoint hrem =>
    have hexceeds := h.exceeds (by rw [hpoint]; rfl)
    split at hstep <;> cases hstep
    all_goals
      unfold afterSearch
      split
      · apply evictNext
        · exact h.counts
        · exact hexceeds
      · exact next h.counts
  case h_4 name rest hpoint =>
    have hexceeds := h.exceeds (by rw [hpoint]; rfl)
    split at hstep
    · cases hstep
      exact evictNext (s := s.withFailure) h.counts hexceeds rest
    · split at hstep <;> cases hstep
      exact ⟨⟨nofun, nofun⟩, h.counts, fun _ => hexceeds⟩
    · cases hstep
  case h_5 name rest hpoint =>
    have hexceeds := h.exceeds (by rw [hpoint]; rfl)
    split at hstep <;> cases hstep
    all_goals
      apply evictNext
      · exact h.counts
      · exact hexceeds
  case h_6 r rs hpoint hrem =>
    split at hstep
    case h_1 | h_2 => cases hstep; exact next h.counts
    case h_3 => split at hstep <;> cases hstep; exact ⟨⟨nofun, nofun⟩, h.counts, nofun⟩
    case h_4 => cases hstep
  case h_7 r rs hpoint hrem =>
    split at hstep <;> cases hstep
    · exact next h.counts
    · exact afterMeasure h.counts numeric r _
  case h_8 | h_9 => split at hstep <;> cases hstep <;> exact ⟨⟨nofun, nofun⟩, h.counts, nofun⟩
  all_goals cases hstep

end LoopInv

/-- **The accounting is exact** if the created indexes whose size comes as a `Decimal` are together
as large as the evicted ones: with psycopg2, until an index is created; with a driver that returns
floats, until one is evicted. -/
theorem budget_exact_iff (numeric : ℚ → PyNum) (before : Catalog) (recs : List Recommendation)
    (size : Name → ℚ) {budget usage : ℚ} {ls : List (Option Answer)} {s : Handler}
    (hrun : (autoCreateIndexes numeric before recs).Run
      ((handlerInit before recs).startLoop budget usage) ls s) :
    BudgetExact size budget usage s ↔ s.uncountedSize = (s.evictedNames.map size).sum := by
  have hinit : LoopInv budget usage ((handlerInit before recs).startLoop budget usage) :=
    LoopInv.next (by simp [Handler.Counts, handlerInit, Handler.createdSize, Handler.uncountedSize])
  obtain ⟨-, hcounts, hexceeds⟩ := hrun.invariant hinit fun _ _ _ h hstep => h.step hstep
  unfold Handler.Counts at hcounts
  refine ⟨fun h => ?_, fun h => ⟨?_, hexceeds⟩⟩
  · linarith [h.available]
  · linarith

/-- A request with a budget of 100 of which 70 are used. -/
def fullRequest (before : Catalog) (recs : List Recommendation) : Handler :=
  (handlerInit before recs).startLoop 100 70

/-- With psycopg2, and a recommendation for which there is no room. -/
theorem budget_exact_no_room :
    let before := oneIndex "idx_auto_t_b_0".toList
    ∃ ls s, (autoCreateIndexes .decimal before [recommend "a" 40]).Run
        (fullRequest before [recommend "a" 40]) ls s ∧
      s.point = .commit ∧ BudgetExact (fun _ => 80) 100 70 s := by
  refine ⟨[some (.candidates [("idx_auto_t_b_0".toList, 80)])], System.exists_run_of_exec
    (P := fun s => s.point = .commit ∧ s.uncountedSize = (s.evictedNames.map fun _ => 80).sum)
    (by decide +kernel) ?_⟩
  exact fun s hrun hs => ⟨hs.1, (budget_exact_iff .decimal _ _ _ hrun).mpr hs.2⟩

/-- With psycopg2 the sizes of new indexes are not taken off the budget: the second one is created
although its estimated size is more than what is left. -/
theorem created_size_not_counted :
    let recs := [recommend "a" 20, recommend "b" 20]
    ∃ ls s, (autoCreateIndexes .decimal (fun _ => none) recs).Run
        (fullRequest (fun _ => none) recs) ls s ∧
      s.createdSize = 35 ∧ s.availableBudget = 30 ∧ ¬ BudgetExact (fun _ => 0) 100 70 s := by
  refine ⟨[some (.created true), some (.size 15), some (.created true), some (.size 20)],
    System.exists_run_of_exec
      (P := fun s => s.createdSize = 35 ∧ s.availableBudget = 30 ∧ s.evictedNames = [])
      (by decide +kernel) ?_⟩
  rintro s - ⟨hsize, havailable, hevicted⟩
  refine ⟨hsize, havailable, fun h => ?_⟩
  have hexact := h.available
  rw [hsize, havailable, hevicted] at hexact
  norm_num at hexact

end NeurDB.WorkloadForecast
