import NeurDB.Framework.System

/-!
# Concurrent calls on an index

`insert`, `insertMany` and `query` of `quantized_hnsw_hnswlib.cpp`. Insertions and queries exclude
each other (`queries_exclude_insertions`) by a barrier that counts both kinds of calls; a lock,
shared or exclusive, is there for the growth of the index. A call goes through *sections*: it enters
the barrier, adds points or searches, and leaves the barrier.

Not every path leaves the barrier. `insertMany` does not where its vectors do not fit, and no
function does where the library throws. The count then stays too high for good
(`barrier_balanced_iff`).

The library accepts a number of points in a section, and throws at the next one. It never accepts
more than `max_elements_` in total. A section is one step here; what calls that are inside at the
same time do to the capacity is the subject of `IndexCapacity`.
-/

namespace NeurDB.NeurStore

/-! ### Calls -/

/-- The sections of the three functions inside the barrier. -/
inductive BarrierSection where
  | insert (id : ℕ)
  /-- `insert` under the exclusive lock, after `resize`. -/
  | insertGrown (id : ℕ)
  | insertMany (n : ℕ)
  | insertManyGrown (n : ℕ)
  | query
  deriving DecidableEq

namespace BarrierSection

def isQuery : BarrierSection → Bool
  | query => true
  | _ => false

def exclusive : BarrierSection → Bool
  | insertGrown _ => true
  | _ => false

/-- How often the library is called. -/
def points : BarrierSection → ℕ
  | insertMany n | insertManyGrown n => n
  | _ => 1

end BarrierSection

/-- Where a call stands. -/
inductive CallPoint where
  | before (c : BarrierSection)
  | inside (c : BarrierSection)
  /-- `insertMany` before it resizes. -/
  | growing (n : ℕ)
  deriving DecidableEq

structure BarrierState where
  maxElements : ℕ
  elementCount : ℕ
  nextId : ℕ
  activeInsertions : ℤ
  activeQueries : ℤ
  calls : List CallPoint

inductive BarrierLabel where
  | callInsert
  | callInsertMany (n : ℕ)
  | callQuery
  | enter (c : BarrierSection)
  /-- The loop of `insertMany` that resizes, with the number of its turns. -/
  | grow (n turns : ℕ)
  /-- The rest of a section, with the number of calls the library accepts. -/
  | leave (c : BarrierSection) (accepted : ℕ)

namespace BarrierState

/-- A call goes on to another point, or ends. -/
def move (s : BarrierState) (p : CallPoint) (next : Option CallPoint) : BarrierState :=
  { s with calls := next.toList ++ s.calls.erase p }

/-- `active_insertions` or `active_queries` changes. -/
def count (s : BarrierState) (c : BarrierSection) (d : ℤ) : BarrierState :=
  if c.isQuery then { s with activeQueries := s.activeQueries + d }
  else { s with activeInsertions := s.activeInsertions + d }

/-- `enterQuery` and `enterInsertion` do not wait. -/
def isOpen (s : BarrierState) (c : BarrierSection) : Bool :=
  if c.isQuery then s.activeInsertions = 0 else s.activeQueries = 0

/-- `resize_mutex_` can be taken. -/
def canLock (s : BarrierState) (exclusive : Bool) : Bool :=
  s.calls.all fun
    | .inside c => !exclusive && !c.exclusive
    | _ => true

/-- The library accepts all points of the section. -/
def accepts (s : BarrierState) (c : BarrierSection) (accepted : ℕ) : Bool :=
  c.points ≤ min accepted (s.maxElements - s.elementCount)

/-- The calls of the library: the section ends where one of them throws. -/
def addPoints (s : BarrierState) (c : BarrierSection) (accepted : ℕ) (allocates : Bool) :
    BarrierState :=
  let added := min accepted (min c.points (s.maxElements - s.elementCount))
  let s' := { s.move (.inside c) none with
    elementCount := s.elementCount + added
    nextId := s.nextId + if allocates then min (added + 1) c.points else 0 }
  if s.accepts c accepted then s'.count c (-1) else s'

/-- What a call does inside the barrier. -/
def leave (s : BarrierState) (accepted : ℕ) : BarrierSection → BarrierState
  | .insert id =>
    if id < s.maxElements then s.addPoints (.insert id) accepted false
    else (s.move (.inside (.insert id)) (some (.before (.insertGrown id)))).count (.insert id) (-1)
  | .insertGrown id => s.addPoints (.insertGrown id) accepted false
  | .insertMany n =>
    if s.elementCount + n ≤ s.maxElements then s.addPoints (.insertMany n) accepted true
    -- the barrier is not left
    else s.move (.inside (.insertMany n)) (some (.growing n))
  | .insertManyGrown n => s.addPoints (.insertManyGrown n) accepted true
  | .query =>
    if 0 < accepted then (s.move (.inside .query) none).count .query (-1)
    else s.move (.inside .query) none

/-- **The section leaves the barrier**: its vectors fit, and no call of the library throws. -/
def completes (s : BarrierState) (accepted : ℕ) : BarrierSection → Bool
  | .insert id => s.maxElements ≤ id || s.accepts (.insert id) accepted
  | .insertMany n =>
    s.elementCount + n ≤ s.maxElements && s.accepts (.insertMany n) accepted
  | .query => 0 < accepted
  | c => s.accepts c accepted

end BarrierState

/-- One step; `none` where the label is not enabled. -/
def barrierStep (s : BarrierState) : BarrierLabel → Option BarrierState
  | .callInsert => some { s with
      nextId := s.nextId + 1
      calls := .before (.insert s.nextId) :: s.calls }
  | .callInsertMany n => some { s with calls := .before (.insertMany n) :: s.calls }
  | .callQuery => some { s with calls := .before .query :: s.calls }
  | .enter c =>
    if .before c ∈ s.calls ∧ s.canLock c.exclusive ∧ s.isOpen c then
      let s' := (s.move (.before c) (some (.inside c))).count c 1
      match c with
      | .insertGrown id =>
        some { s' with
          maxElements := if s.maxElements ≤ id then s.maxElements * 2 else s.maxElements }
      | _ => some s'
    else none
  | .grow n turns =>
    let required := s.elementCount + n
    if .growing n ∈ s.calls ∧ s.canLock true ∧ (∀ j < turns, s.maxElements * 2 ^ j < required) ∧
        required ≤ s.maxElements * 2 ^ turns then
      some { s.move (.growing n) (some (.before (.insertManyGrown n))) with
        maxElements := s.maxElements * 2 ^ turns }
    else none
  | .leave c accepted =>
    if .inside c ∈ s.calls then some (s.leave accepted c) else none

/-- An index without elements that nobody uses. -/
def emptyIndex (capacity : ℕ) : BarrierState := ⟨capacity, 0, 0, 0, 0, []⟩

def barrierSystem (capacity : ℕ) : System BarrierState BarrierLabel :=
  .ofFun (· = emptyIndex capacity) barrierStep

/-! ### The barrier -/

open BarrierState

namespace BarrierState

variable {s s' : BarrierState} {l : BarrierLabel}

/-- The call is counted if it is inside the barrier. -/
def weight (query : Bool) : CallPoint → ℤ
  | .inside c => if c.isQuery = query then 1 else 0
  | _ => 0

/-- What the barrier counts in excess of the calls inside it. -/
def excess (s : BarrierState) (query : Bool) : ℤ :=
  (if query then s.activeQueries else s.activeInsertions) - (s.calls.map (weight query)).sum

theorem excess_count (s : BarrierState) (c : BarrierSection) (d : ℤ) (query : Bool) :
    (s.count c d).excess query = s.excess query + if c.isQuery = query then d else 0 := by
  unfold count excess
  cases c.isQuery <;> cases query <;> simp <;> ring

theorem excess_move {p : CallPoint} (hp : p ∈ s.calls) (next : Option CallPoint) (query : Bool) :
    (s.move p next).excess query =
      s.excess query + weight query p - (next.toList.map (weight query)).sum := by
  unfold move excess
  rw [List.map_append, List.sum_append, ← List.sum_map_erase (weight query) hp]
  ring

/-- A section that does not leave the barrier is counted for good. -/
def missed (s : BarrierState) (query : Bool) : BarrierLabel → ℤ
  | .leave c accepted => if c.isQuery = query ∧ s.completes accepted c = false then 1 else 0
  | _ => 0

theorem excess_addPoints {c : BarrierSection} (hc : .inside c ∈ s.calls) (accepted : ℕ)
    (allocates query : Bool) :
    (s.addPoints c accepted allocates).excess query =
      s.excess query + if c.isQuery = query ∧ s.accepts c accepted = false then 1 else 0 := by
  have hmove := excess_move hc none query
  unfold addPoints
  dsimp only
  split
  · next h =>
    rw [excess_count]
    change (s.move _ _).excess query + _ = _
    rw [hmove]
    by_cases hq : c.isQuery = query <;> simp [h, weight, hq]
  · next h =>
    change (s.move _ _).excess query = _
    rw [hmove]
    simp [h, weight]

theorem excess_step (h : barrierStep s l = some s') (query : Bool) :
    s'.excess query = s.excess query + s.missed query l := by
  cases l with
  | callInsert | callInsertMany | callQuery =>
    cases h
    simp [excess, weight, missed]
  | enter c =>
    simp only [barrierStep] at h
    split at h
    · next hc =>
      have hexcess : ((s.move (.before c) (some (.inside c))).count c 1).excess query =
          s.excess query := by
        rw [excess_count, excess_move hc.1]
        simp [weight]
      split at h <;> cases h <;> exact hexcess.trans (add_zero _).symm
    · cases h
  | grow n turns =>
    simp only [barrierStep] at h
    split at h
    · next hn =>
      cases h
      have hexcess := excess_move hn.1 (some (.before (.insertManyGrown n))) query
      simp only [weight, Option.toList_some, List.map_singleton, List.sum_singleton, add_zero,
        sub_zero] at hexcess
      exact hexcess.trans (add_zero _).symm
    · cases h
  | leave c accepted =>
    simp only [barrierStep] at h
    split at h
    · next hc =>
      cases h
      cases c with
      | insert id =>
        simp only [leave]
        split
        · next hid =>
          rw [excess_addPoints hc]
          simp [missed, completes, hid]
        · next hid =>
          rw [excess_count, excess_move hc]
          by_cases hq : BarrierSection.isQuery (.insert id) = query <;>
            simp [missed, completes, not_lt.mp hid, weight, hq]
      | insertMany n =>
        simp only [leave]
        split
        · next hfits =>
          rw [excess_addPoints hc]
          simp [missed, completes, hfits]
        · next hfits =>
          rw [excess_move hc]
          simp [missed, completes, hfits, weight]
      | insertGrown | insertManyGrown => exact excess_addPoints hc _ _ _
      | query =>
        simp only [leave]
        split
        · next hok =>
          rw [excess_count, excess_move hc]
          cases query <;> simp [missed, completes, hok, weight, BarrierSection.isQuery]
        · next hok =>
          rw [excess_move hc]
          simp [missed, completes, hok, weight]
    · cases h

theorem missed_nonneg (s : BarrierState) (query : Bool) (l : BarrierLabel) :
    0 ≤ s.missed query l := by
  cases l with
  | leave c accepted => simp only [missed]; split <;> decide
  | _ => exact le_rfl

theorem excess_emptyIndex (capacity : ℕ) (query : Bool) :
    (emptyIndex capacity).excess query = 0 := by
  cases query <;> rfl

theorem excess_nonneg {capacity : ℕ} {ls : List BarrierLabel}
    (hrun : (barrierSystem capacity).Run (emptyIndex capacity) ls s) (query : Bool) :
    0 ≤ s.excess query := by
  refine hrun.invariant (I := fun s => 0 ≤ s.excess query) ?_ fun s l s' hs hstep => ?_
  · exact (excess_emptyIndex capacity query).ge
  · rw [excess_step hstep query]
    exact add_nonneg hs (s.missed_nonneg query l)

/-- One of the two counts is not positive. -/
def OneSided (s : BarrierState) : Prop := s.activeQueries ≤ 0 ∨ s.activeInsertions ≤ 0

/-- Who enters finds the other count at zero; the other steps raise neither. -/
theorem OneSided.step (h : s.OneSided) (hstep : barrierStep s l = some s') : s'.OneSided := by
  unfold OneSided at *
  cases l with
  | callInsert | callInsertMany | callQuery =>
    cases hstep
    exact h
  | enter c =>
    obtain ⟨⟨-, -, hopen⟩, hstep⟩ := Option.ite_none_right_eq_some.mp hstep
    unfold isOpen at hopen
    split at hstep <;> cases hstep <;> simp only [count, move] <;> split at hopen <;> simp_all
  | grow n turns =>
    obtain ⟨-, hstep⟩ := Option.ite_none_right_eq_some.mp hstep
    cases hstep
    exact h
  | leave c accepted =>
    obtain ⟨-, hstep⟩ := Option.ite_none_right_eq_some.mp hstep
    cases hstep
    cases c <;> simp only [leave, addPoints, count, move] <;> (repeat' split) <;> dsimp only <;>
      omega

/-- A call inside the barrier is counted. -/
theorem count_pos {c : BarrierSection} (hc : .inside c ∈ s.calls)
    (hexcess : 0 ≤ s.excess c.isQuery) :
    0 < if c.isQuery then s.activeQueries else s.activeInsertions := by
  have hnonneg : ∀ w ∈ s.calls.map (weight c.isQuery), 0 ≤ w := by
    intro w hw
    obtain ⟨p, -, rfl⟩ := List.mem_map.mp hw
    cases p <;> simp only [weight] <;> (try split) <;> decide
  have hone := List.single_le_sum hnonneg _ (List.mem_map_of_mem hc)
  rw [weight, if_pos rfl] at hone
  unfold excess at hexcess
  omega

end BarrierState

/-- **Queries and insertions exclude each other** in every run, also where a call never leaves the
barrier: a count that stays too high keeps more calls out. -/
theorem queries_exclude_insertions {capacity : ℕ} {ls : List BarrierLabel} {s : BarrierState}
    (hrun : (barrierSystem capacity).Run (emptyIndex capacity) ls s) {c c' : BarrierSection}
    (hc : .inside c ∈ s.calls) (hc' : .inside c' ∈ s.calls) : c.isQuery = c'.isQuery := by
  have hone : s.OneSided := hrun.invariant (.inl le_rfl) fun _ _ _ h hstep => h.step hstep
  have hcount := count_pos hc (excess_nonneg hrun _)
  have hcount' := count_pos hc' (excess_nonneg hrun _)
  unfold OneSided at hone
  cases hq : c.isQuery <;> cases hq' : c'.isQuery <;> simp_all <;> omega

theorem two_insertions_inside : ∃ s, (barrierSystem 2).Run (emptyIndex 2)
    [.callInsert, .callInsertMany 1, .enter (.insert 0), .enter (.insertMany 1)] s ∧
      ∀ c, .inside c ∈ s.calls → c.isQuery = BarrierSection.isQuery (.insert 0) :=
  System.exists_run_of_exec (P := fun s => .inside (.insert 0) ∈ s.calls) (by decide +kernel)
    fun _ hrun hin _ hc => queries_exclude_insertions hrun hc hin

/-- **The barrier is balanced.** Where no call is in progress, both counts are zero exactly if
every section of the run has left the barrier. -/
theorem barrier_balanced_iff {capacity : ℕ} {ls : List BarrierLabel} {s : BarrierState}
    (hrun : (barrierSystem capacity).Run (emptyIndex capacity) ls s) (hidle : s.calls = []) :
    s.activeInsertions = 0 ∧ s.activeQueries = 0 ↔
      ((barrierSystem capacity).guard fun s l =>
        ∀ c accepted, l = .leave c accepted → s.completes accepted c = true).Run
          (emptyIndex capacity) ls s := by
  have hmark : ¬ (∃ query, 0 < s.excess query) ↔ s.activeInsertions = 0 ∧ s.activeQueries = 0 := by
    have hinsertions := excess_nonneg hrun false
    have hqueries := excess_nonneg hrun true
    simp only [excess, hidle, List.map_nil, List.sum_nil, Bool.exists_bool] at *
    grind
  rw [System.run_guard_iff (T := fun s => ∃ query, 0 < s.excess query)
    (I := fun s => ∀ query, 0 ≤ s.excess query) (by simp [excess_emptyIndex])
    (fun _ _ hrun => excess_nonneg hrun), and_iff_right hrun, hmark]
  intro s l s' hs hstep
  -- the mark is set by the steps that miss an exit, and never taken off
  simp only [excess_step hstep]
  cases l with
  | leave c accepted =>
    by_cases hcomp : s.completes accepted c = true
    · simp [missed, hcomp]
    · have hexcess : 0 < s.excess c.isQuery + s.missed c.isQuery (.leave c accepted) := by
        simpa [missed, hcomp] using Int.lt_add_one_iff.mpr (hs c.isQuery)
      exact iff_of_true ⟨_, hexcess⟩ (Or.inr fun h => hcomp (h c accepted rfl))
  | _ => simp [missed]

/-- An insertion that grows an index without room, and then a query. -/
def growAndQuery : List BarrierLabel :=
  [.callInsert, .enter (.insert 0), .leave (.insert 0) 1, .callInsert, .enter (.insert 1),
    .leave (.insert 1) 1, .enter (.insertGrown 1), .leave (.insertGrown 1) 1, .callQuery,
    .enter .query, .leave .query 1]

theorem barrier_balanced_grow_query : ∃ s,
    (barrierSystem 1).Run (emptyIndex 1) growAndQuery s ∧ s.calls = [] ∧
      ((barrierSystem 1).guard fun s l => ∀ c accepted, l = .leave c accepted →
        s.completes accepted c = true).Run (emptyIndex 1) growAndQuery s :=
  System.exists_run_of_exec
    (P := fun s => s.calls = [] ∧ s.activeInsertions = 0 ∧ s.activeQueries = 0) (by decide +kernel)
    fun _ hrun ⟨hidle, hzero⟩ => ⟨hidle, (barrier_balanced_iff hrun hidle).mp hzero⟩

/-- **Two vectors where there is room for one.** They are inserted, but the barrier counts an
insertion when all calls have ended: queries wait for ever. -/
theorem insertMany_blocks_queries : ∃ s,
    (barrierSystem 1).Run (emptyIndex 1) [.callInsertMany 2, .enter (.insertMany 2),
      .leave (.insertMany 2) 2, .grow 2 1, .enter (.insertManyGrown 2),
      .leave (.insertManyGrown 2) 2] s ∧
    s.calls = [] ∧ s.elementCount = 2 ∧ s.activeInsertions = 1 :=
  System.exists_run_of_exec (by decide +kernel) fun _ _ hs => hs

end NeurDB.NeurStore
