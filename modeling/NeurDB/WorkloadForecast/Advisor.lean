import NeurDB.WorkloadForecast.AutoCreate

/-!
# The cost-based index advisor

`greedy_single_index` (`cost_based_index_advisor.py`) scores each candidate index on its own: it
lets PostgreSQL estimate the cost of every query of the workload with the hypothetical index in
place, and compares it with the baseline cost of the query. Candidates with a positive score are
taken, the best ones first.

An estimate is made in a session of its own, which is one transaction: the hypothetical index is
created, then the query is explained. If a statement fails, `estimate_query_cost` returns the cost
0, and a query that costs nothing has improved by all of its baseline cost. The failure of
`create_hypothetical_index` is caught at once, and shows when the next statement fails.

* The answers of the database are a parameter: one `SessionAnswers` for each call of
  `estimate_query_cost`. (That creating a hypothetical index either fails or puts the index in
  place is the behaviour of HypoPG.)
* Costs are exact rationals.
* Without HypoPG, or when `EXPLAIN` answers with no row, the search raises and returns nothing;
  these two are not modelled. Nor is `total_cost` of a configuration, which nothing reads.

The baselines are kept by template. A query whose own baseline failed is therefore measured
against the baseline of a later query of its template, if there is one.

**The theorem** (`benefit_sound_iff`): failures count for nothing, and each index chosen has a
query that got cheaper with the index in place, exactly if no estimate fails of a query that
occurs in the workload and has a positive baseline cost, and those of them whose own baseline
failed are estimated at the baseline cost.

`optimize_progressively` goes on from there by local search. What a round finds is a configuration
with the default score, and is compared by that score: the search never takes it
(`search_keeps_best_iff`).
-/

namespace NeurDB.WorkloadForecast

open Function List

/-! ### Sessions -/

inductive IndexType where
  | btree
  | hash
  | gin
  | gist
  | brin
  deriving DecidableEq

structure IndexCandidate where
  tableName : Name
  columns : List Name
  indexType : IndexType
  estimatedSizeMb : ℚ
  creationCost : ℚ
  benefitScore : ℚ
  deriving DecidableEq

/-- The costs in the root of a plan. -/
structure Plan where
  startupCost : ℚ
  totalCost : ℚ
  deriving DecidableEq

/-- What `estimate_query_cost` returns. -/
structure Costs where
  startupCost : ℚ
  totalCost : ℚ
  executionTime : ℚ
  deriving DecidableEq

/-- The answers of the database in one session: whether a statement succeeds on its own, and the
plan. -/
structure SessionAnswers where
  connect : Bool
  setEnabled : Bool
  /-- The `i`-th creation of a hypothetical index. -/
  create : ℕ → Bool
  explain : Option Plan

/-- `create_hypothetical_index`: a failure is caught, but it has ended the transaction. -/
def createHypotheticalIndex (t : Transaction (List IndexCandidate)) (index : IndexCandidate)
    (succeeds : Bool) : Transaction (List IndexCandidate) :=
  match t.answer (if succeeds then some () else none) with
  | none => t.fail
  | some () => t.update (index :: t.working)

/-- The loop over the indexes of the configuration. -/
def createIndexes (create : ℕ → Bool) :
    ℕ → List IndexCandidate → Transaction (List IndexCandidate) → Transaction (List IndexCandidate)
  | _, [], t => t
  | i, index :: indexes, t =>
    createIndexes create (i + 1) indexes (createHypotheticalIndex t index (create i))

/-- The session of an estimate: the indexes in place and the plan; `none` if it raises. -/
def session (answers : SessionAnswers) (indexes : List IndexCandidate) :
    Option (List IndexCandidate × Plan) :=
  if answers.connect && answers.setEnabled then
    let t := createIndexes answers.create 0 indexes (.start [])
    (t.answer answers.explain).map fun plan => (t.working, plan)
  else none

/-- `estimate_query_cost`: zeros for an estimate that failed. -/
def estimateQueryCost (answers : SessionAnswers) (indexes : List IndexCandidate) : Costs :=
  match session answers indexes with
  | some (_, plan) => ⟨plan.startupCost, plan.totalCost, 0⟩
  | none => ⟨0, 0, 0⟩

variable {indexes : List IndexCandidate} {workload : List QueryCostInfo} {answers : SessionAnswers}
  {placed : List IndexCandidate} {index : IndexCandidate} {plan : Plan}

theorem totalCost_of_session (h : session answers indexes = some (placed, plan)) :
    (estimateQueryCost answers indexes).totalCost = plan.totalCost := by
  rw [estimateQueryCost, h]

theorem totalCost_of_failed (h : session answers indexes = none) :
    (estimateQueryCost answers indexes).totalCost = 0 := by
  rw [estimateQueryCost, h]

theorem executionTime_estimateQueryCost (answers : SessionAnswers) (indexes : List IndexCandidate) :
    (estimateQueryCost answers indexes).executionTime = 0 := by
  unfold estimateQueryCost
  split <;> rfl

theorem mem_createIndexes {create : ℕ → Bool} {i : ℕ} {t : Transaction (List IndexCandidate)}
    (h : (createIndexes create i indexes t).failed = false) :
    t.failed = false ∧
      ∀ index, index ∈ indexes ∨ index ∈ t.working →
        index ∈ (createIndexes create i indexes t).working := by
  induction indexes generalizing i t with
  | nil =>
    refine ⟨h, ?_⟩
    rintro index (hmem | hmem)
    · cases hmem
    · exact hmem
  | cons index indexes ih =>
    obtain ⟨hnext, hplaced⟩ := ih h
    -- the creation of this index has not failed
    have hcreate : t.failed = false ∧ createHypotheticalIndex t index (create i) =
        t.update (index :: t.working) := by
      unfold createHypotheticalIndex at hnext ⊢
      split at hnext
      · cases hnext
      · next ha => exact ⟨(Transaction.of_answer_eq_some ha).1, rfl⟩
    refine ⟨hcreate.1, fun index' hmem => hplaced index' ?_⟩
    rw [hcreate.2, Transaction.working_update, mem_cons]
    rw [mem_cons] at hmem
    tauto

theorem mem_of_session (h : session answers indexes = some (placed, plan))
    (hmem : index ∈ indexes) : index ∈ placed := by
  unfold session at h
  split at h
  · obtain ⟨plan', ha, heq⟩ := Option.map_eq_some_iff.mp h
    obtain ⟨hplaced, -⟩ := Prod.mk.inj heq
    rw [← hplaced]
    exact (mem_createIndexes (Transaction.of_answer_eq_some ha).1).2 index (.inl hmem)
  · cases h

/-! ### Scores -/

/-- A query of the workload. -/
structure QueryCostInfo where
  query : Name
  templateHash : Name
  frequency : ℕ
  deriving DecidableEq

/-- The baseline of a template. -/
structure Baseline where
  baseCost : ℚ
  baseTime : ℚ
  deriving DecidableEq

/-- The answers of all sessions: for the baseline of each query; for each candidate and query,
without and with the index; and for each query with the configuration chosen. -/
structure DbAnswers where
  baseline : ℕ → SessionAnswers
  old : ℕ → ℕ → SessionAnswers
  new : ℕ → ℕ → SessionAnswers
  final : ℕ → SessionAnswers

/-- The key of a query among the baselines: its template hash, or a hash of the query. -/
def baselineKey (md5 : Name → Name) (q : QueryCostInfo) : Name :=
  if q.templateHash = [] then md5 q.query else q.templateHash

/-- `_calculate_baseline_costs`, from the `i`-th query on. -/
def calculateBaselineCosts (md5 : Name → Name) (answers : ℕ → SessionAnswers) (i : ℕ)
    (baselineCosts : Name → Option Baseline) : List QueryCostInfo → Name → Option Baseline
  | [] => baselineCosts
  | q :: workload =>
    let cost := estimateQueryCost (answers i) []
    calculateBaselineCosts md5 answers (i + 1)
      (update baselineCosts (baselineKey md5 q)
        (some ⟨cost.totalCost, cost.executionTime⟩)) workload

/-- The relative improvement over a baseline value; 0 without a positive one. -/
def improvementOver (base optimized : ℚ) : ℚ :=
  if 0 < base then (base - optimized) / base else 0

/-- What a query adds to the score of a configuration. -/
def weightedImprovement (baselineCosts : Name → Option Baseline) (answers : SessionAnswers)
    (indexes : List IndexCandidate) (q : QueryCostInfo) : ℚ :=
  match baselineCosts q.templateHash with
  | none => 0
  | some baseline =>
    let optimized := estimateQueryCost answers indexes
    let costImprovement := improvementOver baseline.baseCost optimized.totalCost
    let timeImprovement := improvementOver baseline.baseTime optimized.executionTime
    (costImprovement * (7 / 10) + timeImprovement * (3 / 10)) * q.frequency

/-- The loop of `_calculate_solution_cost`, from the `i`-th query on. -/
def totalImprovement (baselineCosts : Name → Option Baseline) (answers : ℕ → SessionAnswers)
    (indexes : List IndexCandidate) (i : ℕ) (total : ℚ) : List QueryCostInfo → ℚ
  | [] => total
  | q :: workload =>
    totalImprovement baselineCosts answers indexes (i + 1)
      (total + weightedImprovement baselineCosts (answers i) indexes q) workload

/-- `_calculate_solution_cost`. -/
def calculateSolutionCost (workload : List QueryCostInfo) (baselineCosts : Name → Option Baseline)
    (answers : ℕ → SessionAnswers) (indexes : List IndexCandidate) : ℚ :=
  max (totalImprovement baselineCosts answers indexes 0 0 workload) 0

/-- `_calculate_improvement` of one index over none. -/
def calculateImprovement (workload : List QueryCostInfo) (baselineCosts : Name → Option Baseline)
    (old new : ℕ → SessionAnswers) (candidate : IndexCandidate) : ℚ :=
  calculateSolutionCost workload baselineCosts new [candidate] -
    calculateSolutionCost workload baselineCosts old []

/-! ### The greedy choice -/

structure IndexConfiguration where
  indexes : List IndexCandidate
  storageCost : ℚ
  maintenanceCost : ℚ
  benefitScore : ℚ
  deriving DecidableEq

/-- `IndexConfiguration.__add__`. -/
def IndexConfiguration.add (config : IndexConfiguration) (index : IndexCandidate) :
    IndexConfiguration where
  indexes := config.indexes ++ [index]
  storageCost := config.storageCost + index.estimatedSizeMb
  maintenanceCost := config.maintenanceCost + index.creationCost
  benefitScore := 0

/-- The scores of the candidates, from the `k`-th one on. -/
def scoreCandidates (answers : DbAnswers) (workload : List QueryCostInfo)
    (baselineCosts : Name → Option Baseline) (k : ℕ) :
    List IndexCandidate → List (ℚ × IndexCandidate)
  | [] => []
  | candidate :: candidates =>
    (calculateImprovement workload baselineCosts (answers.old k) (answers.new k) candidate,
      candidate) :: scoreCandidates answers workload baselineCosts (k + 1) candidates

/-- The loop over the scored candidates. -/
def takePositive : ℕ → IndexConfiguration → List (ℚ × IndexCandidate) → IndexConfiguration
  | _, config, [] => config
  | 0, config, _ :: _ => config
  | budget + 1, config, (improvement, candidate) :: scored =>
    if 0 < improvement then
      takePositive budget (config.add { candidate with benefitScore := improvement }) scored
    else takePositive (budget + 1) config scored

/-- `IndexSearchSpace.max_total_indexes`. -/
def maxTotalIndexes : ℕ := 10

/-- `greedy_single_index`, with the baselines as `optimize_progressively` makes them. -/
def greedySingleIndex (md5 : Name → Name) (answers : DbAnswers) (workload : List QueryCostInfo)
    (candidates : List IndexCandidate) : IndexConfiguration :=
  let baselineCosts := calculateBaselineCosts md5 answers.baseline 0 (fun _ => none) workload
  let scored := scoreCandidates answers workload baselineCosts 0 candidates
  let sorted := scored.insertionSort fun a b => b.1 ≤ a.1
  let config := takePositive maxTotalIndexes ⟨[], 0, 0, 0⟩ sorted
  { config with
    benefitScore := calculateSolutionCost workload baselineCosts answers.final config.indexes }

/-! ### What a query adds -/

section Terms

variable {md5 : Name → Name} {baselineCosts : Name → Option Baseline}
  {indexes : List IndexCandidate} {q : QueryCostInfo} {b : Baseline} {answers : SessionAnswers}

theorem baseTime_calculateBaselineCosts {answers : ℕ → SessionAnswers} {i : ℕ}
    {workload : List QueryCostInfo}
    (h₀ : ∀ key b, baselineCosts key = some b → b.baseTime = 0) {key : Name}
    (h : calculateBaselineCosts md5 answers i baselineCosts workload key = some b) :
    b.baseTime = 0 := by
  induction workload generalizing i baselineCosts with
  | nil => exact h₀ key b h
  | cons q workload ih =>
    refine ih ?_ h
    intro key' b' h'
    by_cases hk : key' = baselineKey md5 q
    · subst hk
      rw [update_self] at h'
      rw [← Option.some.inj h']
      exact executionTime_estimateQueryCost (answers i) []
    · rw [update_of_ne hk] at h'
      exact h₀ key' b' h'

theorem improvementOver_of_pos {base optimized : ℚ} (h : 0 < base) :
    improvementOver base optimized = (base - optimized) / base :=
  if_pos h

theorem improvementOver_of_not_pos {base optimized : ℚ} (h : ¬ 0 < base) :
    improvementOver base optimized = 0 :=
  if_neg h

theorem weightedImprovement_of_baseline
    (hb : baselineCosts q.templateHash = some b) (ht : b.baseTime = 0) :
    weightedImprovement baselineCosts answers indexes q =
      improvementOver b.baseCost (estimateQueryCost answers indexes).totalCost * (7 / 10) *
        q.frequency := by
  have htime : improvementOver b.baseTime (estimateQueryCost answers indexes).executionTime = 0 :=
    improvementOver_of_not_pos (by rw [ht]; exact lt_irrefl 0)
  unfold weightedImprovement
  rw [hb]
  dsimp only
  rw [htime, zero_mul, add_zero]

theorem weightedImprovement_eq_zero_iff
    (hb : baselineCosts q.templateHash = some b) (ht : b.baseTime = 0) (hpos : 0 < b.baseCost)
    (hfreq : 0 < q.frequency) :
    weightedImprovement baselineCosts answers indexes q = 0 ↔
      (estimateQueryCost answers indexes).totalCost = b.baseCost := by
  have hf : (q.frequency : ℚ) ≠ 0 := Nat.cast_ne_zero.mpr hfreq.ne'
  rw [weightedImprovement_of_baseline hb ht, improvementOver_of_pos hpos, mul_eq_zero_iff_right hf,
    mul_eq_zero_iff_right (by norm_num), div_eq_zero_iff, or_iff_left hpos.ne', sub_eq_zero]
  exact eq_comm

theorem weightedImprovement_eq_zero
    (ht : ∀ b, baselineCosts q.templateHash = some b → b.baseTime = 0)
    (h : ∀ b, baselineCosts q.templateHash = some b → 0 < b.baseCost → ¬ 0 < q.frequency) :
    weightedImprovement baselineCosts answers indexes q = 0 := by
  cases hb : baselineCosts q.templateHash with
  | none =>
    unfold weightedImprovement
    rw [hb]
  | some b =>
    rw [weightedImprovement_of_baseline hb (ht b hb)]
    by_cases hpos : 0 < b.baseCost
    · have hfreq : q.frequency = 0 := Nat.eq_zero_of_not_pos (h b hb hpos)
      rw [hfreq, Nat.cast_zero, mul_zero]
    · rw [improvementOver_of_not_pos hpos, zero_mul, zero_mul]

theorem cheaper_of_weightedImprovement_pos
    (ht : ∀ b, baselineCosts q.templateHash = some b → b.baseTime = 0)
    (h : 0 < weightedImprovement baselineCosts answers indexes q) :
    0 < q.frequency ∧ ∃ b, baselineCosts q.templateHash = some b ∧ 0 < b.baseCost ∧
      (estimateQueryCost answers indexes).totalCost < b.baseCost := by
  have hcounted : ∃ b, baselineCosts q.templateHash = some b ∧ 0 < b.baseCost ∧
      0 < q.frequency := by
    by_contra hno
    push Not at hno
    exact h.ne' (weightedImprovement_eq_zero ht fun b hb hpos => not_lt.mpr (hno b hb hpos))
  obtain ⟨b, hb, hpos, hfreq⟩ := hcounted
  refine ⟨hfreq, b, hb, hpos, ?_⟩
  rw [weightedImprovement_of_baseline hb (ht b hb), improvementOver_of_pos hpos] at h
  have hf : (0 : ℚ) ≤ q.frequency := Nat.cast_nonneg _
  have hdiv : 0 < (b.baseCost - (estimateQueryCost answers indexes).totalCost) / b.baseCost := by
    have hscaled := pos_of_mul_pos_left h hf
    exact pos_of_mul_pos_left hscaled (by norm_num)
  exact sub_pos.mp ((div_pos_iff_of_pos_right hpos).mp hdiv)

end Terms

/-! ### What a chosen index stands on -/

theorem exists_pos_of_totalImprovement_pos {baselineCosts : Name → Option Baseline}
    {answers : ℕ → SessionAnswers} {i : ℕ} {total : ℚ} (htotal : total ≤ 0)
    (h : 0 < totalImprovement baselineCosts answers indexes i total workload) :
    ∃ j q, workload[j]? = some q ∧
      0 < weightedImprovement baselineCosts (answers (i + j)) indexes q := by
  induction workload generalizing i total with
  | nil => exact absurd h (not_lt.mpr htotal)
  | cons q workload ih =>
    by_cases hq : 0 < weightedImprovement baselineCosts (answers i) indexes q
    · exact ⟨0, q, rfl, hq⟩
    · obtain ⟨j, q', hj, hpos⟩ := ih (add_nonpos htotal (not_lt.mp hq)) h
      refine ⟨j + 1, q', hj, ?_⟩
      rwa [Nat.add_right_comm, Nat.add_assoc] at hpos

theorem exists_pos_of_calculateImprovement_pos {baselineCosts : Name → Option Baseline}
    {old new : ℕ → SessionAnswers} {candidate : IndexCandidate}
    (h : 0 < calculateImprovement workload baselineCosts old new candidate) :
    ∃ i q, workload[i]? = some q ∧ 0 < weightedImprovement baselineCosts (new i) [candidate] q := by
  have hscore : 0 < calculateSolutionCost workload baselineCosts new [candidate] :=
    calc 0 ≤ calculateSolutionCost workload baselineCosts old [] := le_max_right _ _
      _ < calculateSolutionCost workload baselineCosts new [candidate] := sub_pos.mp h
  have htotal : 0 < totalImprovement baselineCosts new [candidate] 0 0 workload :=
    (lt_max_iff.mp hscore).resolve_right (lt_irrefl 0)
  obtain ⟨i, q, hi, hpos⟩ := exists_pos_of_totalImprovement_pos le_rfl htotal
  rw [Nat.zero_add] at hpos
  exact ⟨i, q, hi, hpos⟩

theorem of_mem_scoreCandidates {answers : DbAnswers} {baselineCosts : Name → Option Baseline}
    {k : ℕ} {candidates : List IndexCandidate} {scored : ℚ × IndexCandidate}
    (h : scored ∈ scoreCandidates answers workload baselineCosts k candidates) :
    ∃ j, candidates[j]? = some scored.2 ∧
      scored.1 = calculateImprovement workload baselineCosts (answers.old (k + j))
        (answers.new (k + j)) scored.2 := by
  induction candidates generalizing k with
  | nil => cases h
  | cons candidate candidates ih =>
    cases h with
    | head => exact ⟨0, rfl, rfl⟩
    | tail _ hmem =>
      obtain ⟨j, hj, hscore⟩ := ih hmem
      refine ⟨j + 1, hj, ?_⟩
      rwa [Nat.add_right_comm, Nat.add_assoc] at hscore

theorem forall_mem_takePositive {P : IndexCandidate → Prop} {budget : ℕ}
    {config : IndexConfiguration} {scored : List (ℚ × IndexCandidate)}
    (hscored : ∀ s ∈ scored, 0 < s.1 → P { s.2 with benefitScore := s.1 })
    (h : ∀ index ∈ config.indexes, P index) :
    ∀ index ∈ (takePositive budget config scored).indexes, P index := by
  induction scored generalizing budget config with
  | nil => cases budget <;> exact h
  | cons s scored ih =>
    obtain ⟨hs, hrest⟩ := forall_mem_cons.mp hscored
    cases budget with
    | zero => exact h
    | succ budget =>
      rw [takePositive]
      split
      · next hpos =>
        exact ih hrest (forall_mem_append.mpr ⟨h, forall_mem_singleton.mpr (hs hpos)⟩)
      · exact ih hrest h

/-! ### Failures are not benefits -/

section Sound

variable (md5 : Name → Name) (answers : DbAnswers) (workload : List QueryCostInfo)
  (candidates : List IndexCandidate)

/-- The baselines of the search. -/
def baselineCosts : Name → Option Baseline :=
  calculateBaselineCosts md5 answers.baseline 0 (fun _ => none) workload

/-- The scores that are computed: the answers to their sessions, and the configuration. -/
inductive Evaluated : (ℕ → SessionAnswers) → List IndexCandidate → Prop
  | old (k : ℕ) (h : k < candidates.length) : Evaluated (answers.old k) []
  | new (k : ℕ) (candidate : IndexCandidate) (h : candidates[k]? = some candidate) :
    Evaluated (answers.new k) [candidate]
  | final : Evaluated answers.final (greedySingleIndex md5 answers workload candidates).indexes

/-- A failed estimate is never taken for a benefit. -/
structure BenefitSound : Prop where
  /-- Evaluated alone, each index chosen makes a query cheaper, with the index in place. -/
  cheaper : ∀ index ∈ (greedySingleIndex md5 answers workload candidates).indexes,
    ∃ k candidate, candidates[k]? = some candidate ∧
      index = { candidate with benefitScore := index.benefitScore } ∧
      ∃ i q b placed plan, workload[i]? = some q ∧
        baselineCosts md5 answers workload q.templateHash = some b ∧
        session (answers.new k i) [candidate] = some (placed, plan) ∧
        candidate ∈ placed ∧ plan.totalCost < b.baseCost
  /-- A query whose estimate or baseline failed adds nothing to a score. -/
  failed : ∀ sessions indexes, Evaluated md5 answers workload candidates sessions indexes →
    ∀ i q, workload[i]? = some q →
      session (sessions i) indexes = none ∨ session (answers.baseline i) [] = none →
      weightedImprovement (baselineCosts md5 answers workload) (sessions i) indexes q = 0

/-- Each estimate of a query that counts succeeds; and if the query's own baseline failed, it is
the baseline cost of the template. -/
def EstimatesSucceed : Prop :=
  ∀ sessions indexes, Evaluated md5 answers workload candidates sessions indexes →
    ∀ i q b, workload[i]? = some q → 0 < q.frequency →
      baselineCosts md5 answers workload q.templateHash = some b → 0 < b.baseCost →
      ∃ placed plan, session (sessions i) indexes = some (placed, plan) ∧
        (session (answers.baseline i) [] = none → plan.totalCost = b.baseCost)

variable {md5 answers workload candidates}

theorem baseTime_baselineCosts {key : Name} {b : Baseline}
    (h : baselineCosts md5 answers workload key = some b) : b.baseTime = 0 :=
  baseTime_calculateBaselineCosts (fun _ _ h₀ => by cases h₀) h

theorem of_mem_greedySingleIndex {index : IndexCandidate}
    (h : index ∈ (greedySingleIndex md5 answers workload candidates).indexes) :
    ∃ k candidate, candidates[k]? = some candidate ∧
      index = { candidate with benefitScore := index.benefitScore } ∧
      0 < calculateImprovement workload (baselineCosts md5 answers workload) (answers.old k)
        (answers.new k) candidate := by
  apply forall_mem_takePositive _ _ index h
  · intro s hs hpos
    rw [mem_insertionSort] at hs
    obtain ⟨k, hk, hscore⟩ := of_mem_scoreCandidates hs
    rw [Nat.zero_add] at hscore
    refine ⟨k, s.2, hk, rfl, ?_⟩
    rw [hscore] at hpos
    exact hpos
  · exact forall_mem_nil _

theorem EstimatesSucceed.benefitSound (h : EstimatesSucceed md5 answers workload candidates) :
    BenefitSound md5 answers workload candidates where
  cheaper index hmem := by
    obtain ⟨k, candidate, hk, hindex, himp⟩ := of_mem_greedySingleIndex hmem
    obtain ⟨i, q, hi, hterm⟩ := exists_pos_of_calculateImprovement_pos himp
    obtain ⟨hfreq, b, hb, hpos, hlt⟩ :=
      cheaper_of_weightedImprovement_pos (fun _ => baseTime_baselineCosts) hterm
    -- the cost below the baseline is that of a plan, not the zero of a failure
    obtain ⟨placed, plan, hs, -⟩ := h _ _ (.new k candidate hk) i q b hi hfreq hb hpos
    rw [totalCost_of_session hs] at hlt
    exact ⟨k, candidate, hk, hindex, i, q, b, placed, plan, hi, hb, hs,
      mem_of_session hs (.head _), hlt⟩
  failed sessions indexes he i q hi hfail := by
    by_cases hcounted : ∃ b, baselineCosts md5 answers workload q.templateHash = some b ∧
        0 < b.baseCost ∧ 0 < q.frequency
    · obtain ⟨b, hb, hpos, hfreq⟩ := hcounted
      obtain ⟨placed, plan, hs, hown⟩ := h _ _ he i q b hi hfreq hb hpos
      rw [weightedImprovement_eq_zero_iff hb (baseTime_baselineCosts hb) hpos hfreq,
        totalCost_of_session hs]
      rcases hfail with hest | hbase
      · rw [hs] at hest
        cases hest
      · exact hown hbase
    · refine weightedImprovement_eq_zero (fun _ => baseTime_baselineCosts) ?_
      intro b hb hpos hfreq
      exact hcounted ⟨b, hb, hpos, hfreq⟩

theorem BenefitSound.estimatesSucceed (h : BenefitSound md5 answers workload candidates) :
    EstimatesSucceed md5 answers workload candidates := by
  intro sessions indexes he i q b hi hfreq hb hpos
  have hzero : weightedImprovement (baselineCosts md5 answers workload) (sessions i) indexes q = 0 ↔
      (estimateQueryCost (sessions i) indexes).totalCost = b.baseCost :=
    weightedImprovement_eq_zero_iff hb (baseTime_baselineCosts hb) hpos hfreq
  cases hs : session (sessions i) indexes with
  | none =>
    -- the zero of the failure is not the baseline cost, so the query counts
    have hcost := hzero.mp (h.failed _ _ he i q hi (.inl hs))
    rw [totalCost_of_failed hs] at hcost
    exact absurd hcost hpos.ne
  | some answer =>
    refine ⟨answer.1, answer.2, rfl, fun hbase => ?_⟩
    rw [← totalCost_of_session hs]
    exact hzero.mp (h.failed _ _ he i q hi (.inr hbase))

end Sound

/-- Failed estimates never count as benefits exactly if the estimates that count succeed. -/
theorem benefit_sound_iff (md5 : Name → Name) (answers : DbAnswers)
    (workload : List QueryCostInfo) (candidates : List IndexCandidate) :
    BenefitSound md5 answers workload candidates ↔
      EstimatesSucceed md5 answers workload candidates := by
  constructor
  · exact BenefitSound.estimatesSucceed
  · exact EstimatesSucceed.benefitSound

/-! ### A failed creation is chosen -/

/-- A session with a plan of the given cost, in which creating an index may fail. -/
def sessionOf (create : Bool) (cost : ℚ) : SessionAnswers :=
  ⟨true, true, fun _ => create, some ⟨0, cost⟩⟩

/-- A query of cost 100, or of the given cost with the index. -/
def answersOf (create : Bool) (cost : ℚ) : DbAnswers where
  baseline _ := sessionOf true 100
  old _ _ := sessionOf true 100
  new _ _ := sessionOf create cost
  final _ := sessionOf create cost

def ordersQuery : QueryCostInfo := ⟨"select 1 from orders where day = 1".toList, "t1".toList, 1⟩

def ordersIndex : IndexCandidate := ⟨"orders".toList, ["day".toList], .btree, 10, 10, 0⟩

-- where nothing fails, an index is chosen for what the plan saves
example : (greedySingleIndex id (answersOf true 20) [ordersQuery] [ordersIndex]).indexes =
    [{ ordersIndex with benefitScore := 14 / 25 }] := by
  decide +kernel

/-- The index cannot be created, so `EXPLAIN` fails and the query seems to cost nothing. The index
is chosen, with the best score there is. -/
theorem failed_creation_chosen :
    (greedySingleIndex id (answersOf false 100) [ordersQuery] [ordersIndex]).indexes =
        [{ ordersIndex with benefitScore := 7 / 10 }] ∧
      (∀ k i, session ((answersOf false 100).new k i) [ordersIndex] = none) ∧
      ¬ BenefitSound id (answersOf false 100) [ordersQuery] [ordersIndex] := by
  have hchosen : (greedySingleIndex id (answersOf false 100) [ordersQuery] [ordersIndex]).indexes =
      [{ ordersIndex with benefitScore := 7 / 10 }] := by
    decide +kernel
  refine ⟨hchosen, fun k i => rfl, fun h => ?_⟩
  obtain ⟨k, candidate, hk, -, i, q, b, placed, plan, -, -, hs, -⟩ :=
    h.cheaper { ordersIndex with benefitScore := 7 / 10 } (by rw [hchosen]; exact .head _)
  have hcandidate : candidate = ordersIndex :=
    List.mem_singleton.mp (List.mem_of_getElem? hk)
  subst hcandidate
  cases hs

/-! ### Local search -/

section LocalSearch

variable (benefit : List IndexCandidate → ℚ) (candidates : List IndexCandidate)

/-- What `local_search` tries: to remove one index, or to replace one by a candidate. -/
def neighbours (indexes : List IndexCandidate) : List (List IndexCandidate) :=
  (List.range indexes.length).map indexes.eraseIdx ++
    (List.range indexes.length).flatMap fun i =>
      (candidates.filter (· ∉ indexes)).map (indexes.set i)

/-- The best solution and its score, after one more configuration. -/
def tryConfig (best : IndexConfiguration × ℚ) (indexes : List IndexCandidate) :
    IndexConfiguration × ℚ :=
  if best.2 < benefit indexes then (⟨indexes, 0, 0, 0⟩, benefit indexes) else best

/-- `local_search`: the score of what it returns stays behind. -/
def localSearch (current : IndexConfiguration) : IndexConfiguration :=
  ((neighbours candidates current.indexes).foldl (tryConfig benefit)
    (current, benefit current.indexes)).1

/-- A round of the search, on the best solution and the recorded scores. -/
def searchRound (s : IndexConfiguration × List ℚ) : IndexConfiguration × List ℚ :=
  let improved := localSearch benefit (candidates.take 50) s.1
  if s.1.benefitScore < improved.benefitScore then (improved, s.2 ++ [improved.benefitScore])
  else s

/-- What the search starts with. -/
def searchStart (greedy : IndexConfiguration) : IndexConfiguration × List ℚ :=
  if 0 < greedy.benefitScore then (greedy, [0, greedy.benefitScore]) else (⟨[], 0, 0, 0⟩, [0])

/-- `optimize_progressively` from the greedy solution on; the clock decides the rounds. -/
def optimizeProgressively (greedy : IndexConfiguration) (rounds : ℕ) :
    IndexConfiguration × List ℚ :=
  (searchRound benefit candidates)^[rounds] (searchStart greedy)

/-- A neighbour with a greater benefit. -/
def Better (indexes better : List IndexCandidate) : Prop :=
  better ∈ neighbours (candidates.take 50) indexes ∧ benefit indexes < benefit better

/-- The search keeps the best configuration it evaluates. -/
structure KeepsBest (search : ℕ → IndexConfiguration × List ℚ) (rounds : ℕ) : Prop where
  best : ∀ k < rounds, (∃ better, Better benefit candidates (search k).1.indexes better) →
    Better benefit candidates (search k).1.indexes (search (k + 1)).1.indexes ∧
      ∀ better, Better benefit candidates (search k).1.indexes better →
        benefit better ≤ benefit (search (k + 1)).1.indexes
  increasing : (search rounds).2.Pairwise (· < ·)
  last : (search rounds).2.getLast? = some (benefit (search rounds).1.indexes)

variable {benefit candidates} {greedy : IndexConfiguration}

theorem localSearch_eq_or {current : IndexConfiguration} :
    localSearch benefit candidates current = current ∨
      (localSearch benefit candidates current).benefitScore = 0 := by
  refine foldlRecOn
    (motive := fun s : IndexConfiguration × ℚ => s.1 = current ∨ s.1.benefitScore = 0)
    _ _ (.inl rfl) ?_
  intro s hs indexes _
  unfold tryConfig
  split
  · exact .inr rfl
  · exact hs

/-- What a round finds has no score, so it is never taken. -/
theorem searchRound_eq {s : IndexConfiguration × List ℚ} (h : 0 ≤ s.1.benefitScore) :
    searchRound benefit candidates s = s := by
  refine if_neg ?_
  rcases localSearch_eq_or with heq | hzero
  · rw [heq]
    exact lt_irrefl _
  · rw [hzero]
    exact not_lt.mpr h

theorem searchStart_spec (greedy : IndexConfiguration) :
    0 ≤ (searchStart greedy).1.benefitScore ∧ (searchStart greedy).2.Pairwise (· < ·) ∧
      (searchStart greedy).2.getLast? = some (searchStart greedy).1.benefitScore := by
  unfold searchStart
  split
  · next hpos => exact ⟨hpos.le, pairwise_pair.mpr hpos, rfl⟩
  · exact ⟨le_rfl, pairwise_singleton _ _, rfl⟩

theorem optimizeProgressively_eq :
    optimizeProgressively benefit candidates greedy = fun _ => searchStart greedy := by
  funext rounds
  exact iterate_fixed (searchRound_eq (searchStart_spec greedy).1) rounds

end LocalSearch

section Deterministic

variable (md5 : Name → Name) (model : List IndexCandidate → ℕ → SessionAnswers)
  (workload : List QueryCostInfo) (candidates : List IndexCandidate)

/-- The benefit of a configuration under a deterministic cost model. -/
def modelBenefit (indexes : List IndexCandidate) : ℚ :=
  calculateSolutionCost workload (calculateBaselineCosts md5 (model []) 0 (fun _ => none) workload)
    (model indexes) indexes

/-- `greedy_single_index` under a deterministic cost model. -/
def modelGreedy : IndexConfiguration :=
  let answers : DbAnswers :=
    ⟨model [], fun _ => model [], fun k => model candidates[k]?.toList, model []⟩
  let greedy := greedySingleIndex md5 answers workload candidates
  { greedy with benefitScore := modelBenefit md5 model workload greedy.indexes }

/-- The search keeps the best configuration exactly if it makes no round or starts with one that no
neighbour is better than, and the score it records first is right. (`pool` is the candidates, with
the scores that the greedy choice has written into them.) -/
theorem search_keeps_best_iff (pool : List IndexCandidate) (rounds : ℕ) :
    KeepsBest (modelBenefit md5 model workload) pool
        (optimizeProgressively (modelBenefit md5 model workload) pool
          (modelGreedy md5 model workload candidates)) rounds ↔
      (0 < rounds → ∀ better, ¬ Better (modelBenefit md5 model workload) pool
        (searchStart (modelGreedy md5 model workload candidates)).1.indexes better) ∧
      (0 < (modelGreedy md5 model workload candidates).benefitScore ∨
        modelBenefit md5 model workload [] = 0) := by
  have hstart : 0 < (modelGreedy md5 model workload candidates).benefitScore ∨
      modelBenefit md5 model workload [] = 0 ↔
      modelBenefit md5 model workload
          (searchStart (modelGreedy md5 model workload candidates)).1.indexes =
        (searchStart (modelGreedy md5 model workload candidates)).1.benefitScore := by
    unfold searchStart
    split
    · next hpos => exact iff_of_true (.inl hpos) rfl
    · next hpos => exact or_iff_right hpos
  obtain ⟨-, hincreasing, hlast⟩ := searchStart_spec (modelGreedy md5 model workload candidates)
  rw [optimizeProgressively_eq, hstart]
  constructor
  · intro h
    refine ⟨fun hrounds better hb => ?_, ?_⟩
    · exact lt_irrefl _ (h.best 0 hrounds ⟨better, hb⟩).1.2
    · exact Option.some.inj (h.last.symm.trans hlast)
  · rintro ⟨hnone, hbenefit⟩
    refine ⟨?_, hincreasing, hlast.trans (congrArg some hbenefit.symm)⟩
    rintro k hk ⟨better, hb⟩
    exact absurd hb (hnone (Nat.zero_lt_of_lt hk) better)

end Deterministic

/-- One index halves the cost of the query, two save little. -/
def crowdedModel (indexes : List IndexCandidate) (_ : ℕ) : SessionAnswers :=
  sessionOf true (match indexes.length with | 0 => 100 | 1 => 50 | _ => 80)

def customerIndex : IndexCandidate := { ordersIndex with columns := ["customer".toList] }

/-- Both indexes are chosen. Removing one is better, and the search does not do it. -/
theorem better_removal_not_taken :
    ¬ KeepsBest (modelBenefit id crowdedModel [ordersQuery])
      ([ordersIndex, customerIndex].map fun c => { c with benefitScore := 7 / 20 })
      (optimizeProgressively (modelBenefit id crowdedModel [ordersQuery])
        ([ordersIndex, customerIndex].map fun c => { c with benefitScore := 7 / 20 })
        (modelGreedy id crowdedModel [ordersQuery] [ordersIndex, customerIndex])) 1 := by
  intro h
  refine absurd (h.best 0 Nat.one_pos ⟨[{ ordersIndex with benefitScore := 7 / 20 }], ?_⟩).1.2 ?_
  · exact ⟨by decide +kernel, by decide +kernel⟩
  · decide +kernel

end NeurDB.WorkloadForecast
