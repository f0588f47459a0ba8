import NeurDB.WorkloadForecast.AutoCreate

/-!
# Stored execution counts

`POST /analyze_workload` (`run_server.py`) reads the whole workload log, counts the records of each
template by time bucket (`create_time_series`, `templatizer.py`) and adds each count to the row of
the bucket (`store_workload_timeseries`, `workload_store.py`): the upsert sets the stored count to
the sum of the old and the new one. A record that is still in the log at the next request is
counted again.

Before the counts are stored, `_fill_missing_timestamps` puts them on a grid: it goes from the
first bucket of the template to the last in steps of the granularity. Buckets start anew at
midnight, so that on a granularity that does not divide the day the buckets of another day may lie
beside the grid. Their counts are dropped.

* A time is a number of seconds. Records are read back as they were written, and every database
  statement succeeds.
* The granularity is positive (with 0 the request fails), and the years that Python can represent
  are not modelled.

`counted_once_iff` says when the stored counts are the numbers of records.
-/

namespace NeurDB.WorkloadForecast

open Function List

/-! ### The time series -/

/-- A record of the workload log, as far as it is counted. Its hash has 32 digits. -/
structure LogRecord where
  templateHash : Name
  hash_ne : templateHash ≠ []
  timestamp : ℤ

/-- `_round_timestamp`: back to a multiple of the granularity within the day. -/
def roundTimestamp (granularityMinutes : ℕ) (timestamp : ℤ) : ℤ :=
  let minutes := timestamp / 60
  let totalMinutes := minutes % 1440
  let roundedMinutes := totalMinutes / granularityMinutes * granularityMinutes
  (minutes / 1440 * 1440 + roundedMinutes) * 60

/-- A `SortedDict` from times to counts. -/
structure SortedDict where
  keys : Finset ℤ
  value : ℤ → ℕ

namespace SortedDict

def empty : SortedDict := ⟨∅, fun _ => 0⟩

/-- `ts_dict.get(t, 0)`. -/
def get (d : SortedDict) (t : ℤ) : ℕ := if t ∈ d.keys then d.value t else 0

/-- A new key starts at 0; then its count goes up. -/
def increment (d : SortedDict) (t : ℤ) : SortedDict where
  keys := insert t d.keys
  value := update d.value t (d.get t + 1)

theorem get_increment (d : SortedDict) (t t' : ℤ) :
    (d.increment t).get t' = d.get t' + if t = t' then 1 else 0 := by
  by_cases h : t = t'
  · subst h
    simp [increment, get]
  · simp [increment, get, h, Ne.symm h]

end SortedDict

/-- The dictionary of `create_time_series`: its keys in order, and their series. -/
structure TimeSeries where
  order : List Name
  series : Name → SortedDict

/-- The body of the loop over the records. -/
def TimeSeries.add (granularityMinutes : ℕ) (ts : TimeSeries) (r : LogRecord) : TimeSeries where
  order :=
    if ts.order.contains r.templateHash then ts.order else ts.order ++ [r.templateHash]
  series := update ts.series r.templateHash
    ((ts.series r.templateHash).increment (roundTimestamp granularityMinutes r.timestamp))

/-- The loop of `_fill_missing_timestamps`, for at most so many steps. -/
def fillFrom (d : SortedDict) (granularityMinutes : ℕ) (endTime : ℤ) : ℕ → ℤ → List (ℤ × ℕ)
  | 0, _ => []
  | fuel + 1, currentTime =>
    if currentTime ≤ endTime then
      (currentTime, d.get currentTime) ::
        fillFrom d granularityMinutes endTime fuel (currentTime + 60 * granularityMinutes)
    else []

/-- `_fill_missing_timestamps`: from the first key to the last. The loop makes at most one step
for each second between them. -/
def fillMissingTimestamps (granularityMinutes : ℕ) (d : SortedDict) : List (ℤ × ℕ) :=
  if h : d.keys.Nonempty then
    fillFrom d granularityMinutes (d.keys.max' h) ((d.keys.max' h - d.keys.min' h).toNat + 1)
      (d.keys.min' h)
  else []

/-- `create_time_series`, before the series are filled. -/
def countRecords (granularityMinutes : ℕ) (log : List LogRecord) : TimeSeries :=
  log.foldl (TimeSeries.add granularityMinutes) ⟨[], fun _ => .empty⟩

/-! ### The store -/

/-- The rows of `workload_timeseries`: the execution counts by template and time. -/
abbrev CountRows := Name → ℤ → Option ℕ

/-- `store_workload_timeseries`: insert a row, or add to the one that is there. -/
def storeWorkloadTimeseries (rows : CountRows) (row : Name × ℤ × ℕ) : CountRows :=
  update rows row.1 (update (rows row.1) row.2.1 (some
    (match rows row.1 row.2.1 with
      | none => row.2.2
      | some stored => row.2.2 + stored)))

def executionCount (rows : CountRows) (hash : Name) (t : ℤ) : ℕ := (rows hash t).getD 0

/-- The points that a request stores. -/
def storedPoints (granularityMinutes : ℕ) (log : List LogRecord) : List (Name × ℤ × ℕ) :=
  let ts := countRecords granularityMinutes log
  ts.order.flatMap fun hash =>
    (fillMissingTimestamps granularityMinutes (ts.series hash)).map fun point => (hash, point)

/-- The log and the rows. `seen` is the length of the log at the last request; it is not part of
the program, and nothing but the statements below reads it. -/
structure ServerState where
  log : List LogRecord
  rows : CountRows
  seen : ℕ

inductive ServerAction where
  | append (r : LogRecord)
  | analyzeWorkload

/-- One append or request. A request on an empty log is answered with an error. -/
def serverStep (granularityMinutes : ℕ) (s : ServerState) : ServerAction → ServerState
  | .append r => { s with log := s.log ++ [r] }
  | .analyzeWorkload =>
    if s.log = [] then s
    else
      { s with
        rows := (storedPoints granularityMinutes s.log).foldl storeWorkloadTimeseries s.rows
        seen := s.log.length }

/-- The state after the actions, from an empty log and no rows. -/
def serverRun (granularityMinutes : ℕ) (actions : List ServerAction) : ServerState :=
  actions.foldl (serverStep granularityMinutes) ⟨[], fun _ _ => none, 0⟩

/-! ### What a request adds -/

/-- The records of a template in a bucket. -/
def recordCount (granularityMinutes : ℕ) (log : List LogRecord) (hash : Name) (t : ℤ) : ℕ :=
  log.countP fun r => r.templateHash = hash ∧ roundTimestamp granularityMinutes r.timestamp = t

section Series

variable {g : ℕ} {hash : Name}

theorem series_add_self (ts : TimeSeries) (r : LogRecord) :
    (ts.add g r).series r.templateHash =
      (ts.series r.templateHash).increment (roundTimestamp g r.timestamp) :=
  update_self ..

theorem series_add_of_ne (ts : TimeSeries) {r : LogRecord}
    (h : r.templateHash ≠ hash) : (ts.add g r).series hash = ts.series hash :=
  update_of_ne h.symm _ _

theorem get_add (ts : TimeSeries) (r : LogRecord) (hash : Name) (t : ℤ) :
    ((ts.add g r).series hash).get t = (ts.series hash).get t + recordCount g [r] hash t := by
  rw [recordCount, countP_singleton]
  by_cases hhash : r.templateHash = hash
  · subst hhash
    rw [series_add_self, SortedDict.get_increment]
    simp
  · rw [series_add_of_ne ts hhash]
    simp [hhash]

/-- Counting the records is counting them one by one. -/
theorem get_countRecords (log : List LogRecord) (hash : Name) (t : ℤ) :
    ((countRecords g log).series hash).get t = recordCount g log hash t := by
  induction log using reverseRecOn with
  | nil => rfl
  | append_singleton log r ih =>
    rw [countRecords, foldl_concat, get_add, ← countRecords, ih, recordCount, recordCount,
      recordCount, countP_append]

/-- A series has the intervals of its records. -/
theorem mem_keys_countRecords {log : List LogRecord} {t : ℤ} :
    t ∈ ((countRecords g log).series hash).keys ↔
      ∃ r ∈ log, r.templateHash = hash ∧ roundTimestamp g r.timestamp = t := by
  induction log using reverseRecOn with
  | nil => simp [countRecords, SortedDict.empty]
  | append_singleton log r ih =>
    rw [countRecords, foldl_concat, ← countRecords]
    by_cases hhash : r.templateHash = hash
    · subst hhash
      rw [series_add_self, SortedDict.increment, Finset.mem_insert, ih]
      grind
    · rw [series_add_of_ne _ hhash, ih]
      grind

theorem order_countRecords (log : List LogRecord) :
    (countRecords g log).order.Nodup ∧
      ∀ hash, hash ∈ (countRecords g log).order ↔ ∃ r ∈ log, r.templateHash = hash := by
  induction log using reverseRecOn with
  | nil => simp [countRecords]
  | append_singleton log r ih =>
    obtain ⟨hnodup, hmem⟩ := ih
    rw [countRecords, foldl_concat, ← countRecords, TimeSeries.add]
    by_cases hold : r.templateHash ∈ (countRecords g log).order
    · rw [if_pos (contains_iff_mem.mpr hold)]
      refine ⟨hnodup, fun hash => ?_⟩
      rw [hmem]
      have hold' := (hmem _).mp hold
      simp only [mem_append_singleton]
      grind
    · rw [if_neg (mt contains_iff_mem.mp hold)]
      refine ⟨List.nodup_append.mpr ⟨hnodup, nodup_singleton _, ?_⟩, fun hash => ?_⟩
      · intro a ha b hb hab
        rw [mem_singleton.mp hb] at hab
        exact hold (hab ▸ ha)
      · simp only [mem_append_singleton, hmem]
        grind

end Series

/-- What a list of points adds to a time. -/
def addedAt (points : List (ℤ × ℕ)) (t : ℤ) : ℕ :=
  (points.map fun point => if point.1 = t then point.2 else 0).sum

/-- What a list of rows adds to the row of a template and time. -/
def addedTo (points : List (Name × ℤ × ℕ)) (hash : Name) (t : ℤ) : ℕ :=
  (points.map fun point => if point.1 = hash ∧ point.2.1 = t then point.2.2 else 0).sum

/-- A row that is stored adds its count to what was there. -/
theorem executionCount_store (rows : CountRows) (row : Name × ℤ × ℕ) (hash : Name) (t : ℤ) :
    executionCount (storeWorkloadTimeseries rows row) hash t =
      executionCount rows hash t + if row.1 = hash ∧ row.2.1 = t then row.2.2 else 0 := by
  obtain ⟨h, t', c⟩ := row
  by_cases hhash : h = hash
  · subst hhash
    by_cases ht : t' = t
    · subst ht
      cases hrow : rows h t' <;>
        simp [executionCount, storeWorkloadTimeseries, hrow, Nat.add_comm]
    · simp [executionCount, storeWorkloadTimeseries, ht, Ne.symm ht]
  · simp [executionCount, storeWorkloadTimeseries, hhash, Ne.symm hhash]

theorem executionCount_foldl (rows : CountRows) (points : List (Name × ℤ × ℕ)) (hash : Name)
    (t : ℤ) :
    executionCount (points.foldl storeWorkloadTimeseries rows) hash t =
      executionCount rows hash t + addedTo points hash t := by
  induction points generalizing rows with
  | nil => rfl
  | cons point points ih =>
    rw [foldl_cons, ih, executionCount_store, addedTo, addedTo, map_cons, sum_cons, Nat.add_assoc]

variable {g : ℕ}

/-- The filled series has the points of the grid, and only those. -/
theorem addedAt_fillFrom {d : SortedDict} (hg : 0 < g) {endTime : ℤ} {fuel : ℕ} {currentTime : ℤ}
    (hfuel : endTime - currentTime < fuel) (t : ℤ) :
    addedAt (fillFrom d g endTime fuel currentTime) t =
      if currentTime ≤ t ∧ t ≤ endTime ∧ (60 * g : ℤ) ∣ t - currentTime then d.get t else 0 := by
  induction fuel generalizing currentTime with
  | zero =>
    rw [if_neg fun h => by have := h.1.trans h.2.1; omega]
    rfl
  | succ fuel ih =>
    rw [fillFrom]
    by_cases hle : currentTime ≤ endTime
    · rw [if_pos hle, addedAt, map_cons, sum_cons]
      have hfuel' : endTime - (currentTime + 60 * g) < fuel := by omega
      rw [← addedAt, ih hfuel']
      -- a time of the grid is the current one or a step later
      by_cases ht : currentTime = t
      · subst ht
        rw [if_pos rfl, if_neg (by omega), if_pos ⟨le_rfl, hle, by simp⟩, Nat.add_zero]
      · have hlater : (currentTime + 60 * g ≤ t ∧ t ≤ endTime ∧
              (60 * g : ℤ) ∣ t - (currentTime + 60 * g)) ↔
            currentTime ≤ t ∧ t ≤ endTime ∧ (60 * g : ℤ) ∣ t - currentTime := by
          have hsub : t - (currentTime + 60 * g) = t - currentTime - 60 * g := by ring
          rw [hsub, dvd_sub_self_right]
          constructor
          · rintro ⟨h1, h2, h3⟩
            exact ⟨by omega, h2, h3⟩
          · rintro ⟨h1, h2, h3⟩
            have := Int.le_of_dvd (by omega) h3
            exact ⟨by omega, h2, h3⟩
        rw [if_neg ht, Nat.zero_add]
        simp only [hlater]
    · rw [if_neg hle, if_neg fun h => hle (h.1.trans h.2.1)]
      rfl

theorem addedTo_map (hash hash' : Name) (points : List (ℤ × ℕ)) (t : ℤ) :
    addedTo (points.map fun point => (hash', point)) hash t =
      if hash' = hash then addedAt points t else 0 := by
  rw [addedTo, map_map]
  by_cases h : hash' = hash
  · simp only [comp_def, h, true_and, if_true, addedAt]
  · simp [comp_def, h, false_and, map_const', sum_replicate]

theorem addedTo_flatMap {order : List Name} (hnodup : order.Nodup)
    (points : Name → List (ℤ × ℕ)) (hash : Name) (t : ℤ) :
    addedTo (order.flatMap fun hash' => (points hash').map fun point => (hash', point)) hash t =
      if hash ∈ order then addedAt (points hash) t else 0 := by
  induction order with
  | nil => rfl
  | cons hash' order ih =>
    obtain ⟨hnew, hrest⟩ := nodup_cons.mp hnodup
    have happend : ∀ l m, addedTo (l ++ m) hash t = addedTo l hash t + addedTo m hash t := by
      intro l m
      rw [addedTo, map_append, sum_append, addedTo, addedTo]
    rw [flatMap_cons, happend, addedTo_map, ih hrest]
    by_cases h : hash' = hash
    · subst h
      rw [if_pos rfl, if_neg hnew, if_pos (.head _), Nat.add_zero]
    · rw [if_neg h, Nat.zero_add]
      simp [mem_cons, Ne.symm h, false_or]

/-! ### The grid -/

/-- The time is a whole number of steps after the first bucket of the template. -/
def OnGrid (g : ℕ) (log : List LogRecord) (hash : Name) (t : ℤ) : Prop :=
  ∃ first ∈ log, first.templateHash = hash ∧
    (∀ r ∈ log, r.templateHash = hash →
      roundTimestamp g first.timestamp ≤ roundTimestamp g r.timestamp) ∧
    (60 * g : ℤ) ∣ t - roundTimestamp g first.timestamp

variable {log : List LogRecord} {hash : Name} {t : ℤ} {r : LogRecord}

theorem onGrid_iff (h : ((countRecords g log).series hash).keys.Nonempty) :
    OnGrid g log hash t ↔ (60 * g : ℤ) ∣ t - ((countRecords g log).series hash).keys.min' h := by
  have hmin : ∀ r ∈ log, r.templateHash = hash →
      ((countRecords g log).series hash).keys.min' h ≤ roundTimestamp g r.timestamp :=
    fun r hr hhash => Finset.min'_le _ _ (mem_keys_countRecords.mpr ⟨r, hr, hhash, rfl⟩)
  obtain ⟨first, hfirst, hhash, heq⟩ := mem_keys_countRecords.mp (Finset.min'_mem _ h)
  constructor
  · rintro ⟨r, hr, hrhash, hle, hdvd⟩
    have hr_eq : roundTimestamp g r.timestamp = ((countRecords g log).series hash).keys.min' h :=
      le_antisymm (heq ▸ hle first hfirst hhash) (hmin r hr hrhash)
    rwa [hr_eq] at hdvd
  · intro hdvd
    refine ⟨first, hfirst, hhash, fun r hr hrhash => heq ▸ hmin r hr hrhash, ?_⟩
    rwa [heq]

theorem addedTo_storedPoints (g : ℕ) (log : List LogRecord) (hash : Name) (t : ℤ) :
    addedTo (storedPoints g log) hash t =
      addedAt (fillMissingTimestamps g ((countRecords g log).series hash)) t := by
  obtain ⟨hnodup, horder⟩ := order_countRecords (g := g) log
  rw [storedPoints, addedTo_flatMap hnodup]
  by_cases hhash : hash ∈ (countRecords g log).order
  · rw [if_pos hhash]
  · -- without records the series is empty
    have hempty : ¬ ((countRecords g log).series hash).keys.Nonempty := by
      rintro ⟨_, hkey⟩
      obtain ⟨r, hr, hr_hash, -⟩ := mem_keys_countRecords.mp hkey
      exact hhash ((horder hash).mpr ⟨r, hr, hr_hash⟩)
    rw [if_neg hhash, fillMissingTimestamps, dif_neg hempty]
    rfl

theorem keys_nonempty_of_mem (hr : r ∈ log) :
    ((countRecords g log).series r.templateHash).keys.Nonempty :=
  ⟨_, mem_keys_countRecords.mpr ⟨r, hr, rfl, rfl⟩⟩

/-- On the grid all records are counted, -/
theorem addedTo_of_onGrid (hg : 0 < g) (h : OnGrid g log hash t) :
    addedTo (storedPoints g log) hash t = recordCount g log hash t := by
  have hne : ((countRecords g log).series hash).keys.Nonempty := by
    obtain ⟨first, hfirst, rfl, -⟩ := h
    exact keys_nonempty_of_mem hfirst
  rw [addedTo_storedPoints, fillMissingTimestamps, dif_pos hne,
    addedAt_fillFrom hg (by omega), ← get_countRecords]
  by_cases hkey : t ∈ ((countRecords g log).series hash).keys
  · rw [if_pos ⟨Finset.min'_le _ _ hkey, Finset.le_max' _ _ hkey, (onGrid_iff hne).mp h⟩]
  · have hzero : ((countRecords g log).series hash).get t = 0 := if_neg hkey
    rw [hzero, ite_self]

/-- and off the grid none. -/
theorem addedTo_of_not_onGrid (hg : 0 < g) (h : ¬ OnGrid g log hash t) :
    addedTo (storedPoints g log) hash t = 0 := by
  rw [addedTo_storedPoints, fillMissingTimestamps]
  by_cases hne : ((countRecords g log).series hash).keys.Nonempty
  · rw [dif_pos hne, addedAt_fillFrom hg (by omega),
      if_neg fun hgrid => h ((onGrid_iff hne).mpr hgrid.2.2)]
  · rw [dif_neg hne]
    rfl

/-- If intervals divide a day, everything is on the grid. -/
theorem onGrid_of_dvd (hg : g ∣ 1440) (hr : r ∈ log) :
    OnGrid g log r.templateHash (roundTimestamp g r.timestamp) := by
  have hround : ∀ t, (60 * g : ℤ) ∣ roundTimestamp g t := by
    intro t
    have hday : (g : ℤ) ∣ t / 60 / 1440 * 1440 :=
      (Int.natCast_dvd_natCast.mpr hg).mul_left (t / 60 / 1440)
    have hminute : (g : ℤ) ∣ t / 60 % 1440 / g * g := dvd_mul_left _ _
    rw [roundTimestamp, mul_comm _ (60 : ℤ)]
    exact mul_dvd_mul_left 60 (dvd_add hday hminute)
  rw [onGrid_iff (keys_nonempty_of_mem hr)]
  obtain ⟨first, -, -, heq⟩ :=
    mem_keys_countRecords.mp (Finset.min'_mem _ (keys_nonempty_of_mem (g := g) hr))
  rw [← heq]
  exact dvd_sub (hround _) (hround _)

/-! ### Runs -/

/-- Each stored count is the number of records. -/
def CountsRight (g : ℕ) (s : ServerState) : Prop :=
  ∀ hash t, executionCount s.rows hash t = recordCount g s.log hash t

/-- The records that were in the log at the last request are those beside the grid. -/
def SeenBesideGrid (g : ℕ) (s : ServerState) : Prop :=
  ∀ i r, s.log[i]? = some r →
    (i < s.seen ↔ ¬ OnGrid g s.log r.templateHash (roundTimestamp g r.timestamp))

/-- The stored counts are those of the log at the last request. -/
structure SeenCounted (g : ℕ) (s : ServerState) : Prop where
  seen_le : s.seen ≤ s.log.length
  counts : ∀ hash t, executionCount s.rows hash t = recordCount g (s.log.take s.seen) hash t

section Runs

variable {g : ℕ} {s : ServerState}

theorem recordCount_append (l m : List LogRecord) (hash : Name) (t : ℤ) :
    recordCount g (l ++ m) hash t = recordCount g l hash t + recordCount g m hash t :=
  countP_append

variable {actions : List ServerAction}

theorem recordCount_eq_zero {l : List LogRecord} :
    recordCount g l hash t = 0 ↔
      ∀ r ∈ l, r.templateHash = hash → roundTimestamp g r.timestamp ≠ t := by
  simp [recordCount, countP_eq_zero]

theorem SeenCounted.append (h : SeenCounted g s) (r : LogRecord) :
    SeenCounted g (serverStep g s (.append r)) where
  seen_le := h.seen_le.trans (by simp [serverStep])
  counts hash t := by
    show executionCount s.rows hash t = recordCount g ((s.log ++ [r]).take s.seen) hash t
    rw [h.counts, take_append_of_le_length h.seen_le]

theorem SeenCounted.of_countsRight (h : SeenCounted g s)
    (hright : CountsRight g (serverStep g s .analyzeWorkload)) :
    SeenCounted g (serverStep g s .analyzeWorkload) := by
  by_cases hlog : s.log = []
  · rwa [serverStep, if_pos hlog]
  · rw [serverStep, if_neg hlog] at hright ⊢
    refine ⟨le_rfl, fun hash t => ?_⟩
    rw [hright hash t, take_length]

theorem executionCount_analyze (h : SeenCounted g s) (hlog : s.log ≠ []) (hash : Name) (t : ℤ) :
    executionCount (serverStep g s .analyzeWorkload).rows hash t =
      recordCount g (s.log.take s.seen) hash t + addedTo (storedPoints g s.log) hash t := by
  rw [serverStep, if_neg hlog, executionCount_foldl, h.counts]

theorem log_analyze (s : ServerState) : (serverStep g s .analyzeWorkload).log = s.log := by
  by_cases hlog : s.log = []
  · rw [serverStep, if_pos hlog]
  · rw [serverStep, if_neg hlog]

/-- A request counts right exactly if the records seen before are those beside the grid. -/
theorem countsRight_analyze_iff (hg : 0 < g) (h : SeenCounted g s) :
    CountsRight g (serverStep g s .analyzeWorkload) ↔ SeenBesideGrid g s := by
  by_cases hlog : s.log = []
  · have hright : CountsRight g (serverStep g s .analyzeWorkload) := by
      intro hash t
      rw [serverStep, if_pos hlog, h.counts, hlog, take_nil]
    refine iff_of_true hright fun i r hr => ?_
    rw [hlog] at hr
    cases hr
  -- the records of a row are those seen before and those that are new
  have hsplit : ∀ hash t, recordCount g s.log hash t =
      recordCount g (s.log.take s.seen) hash t + recordCount g (s.log.drop s.seen) hash t := by
    intro hash t
    rw [← recordCount_append, take_append_drop]
  constructor
  · intro hright i r hr
    have hrow := hright r.templateHash (roundTimestamp g r.timestamp)
    rw [executionCount_analyze h hlog, log_analyze] at hrow
    constructor
    · intro hi hgrid
      rw [addedTo_of_onGrid hg hgrid] at hrow
      have hzero : recordCount g (s.log.take s.seen) r.templateHash
          (roundTimestamp g r.timestamp) = 0 := by omega
      refine recordCount_eq_zero.mp hzero r ?_ rfl rfl
      exact mem_of_getElem? (by rw [getElem?_take_of_lt hi, hr])
    · intro hgrid
      rw [addedTo_of_not_onGrid hg hgrid, hsplit] at hrow
      have hzero : recordCount g (s.log.drop s.seen) r.templateHash
          (roundTimestamp g r.timestamp) = 0 := by omega
      by_contra hi
      refine recordCount_eq_zero.mp hzero r ?_ rfl rfl
      refine mem_of_getElem? (i := i - s.seen) ?_
      rw [getElem?_drop, Nat.add_sub_cancel' (not_lt.mp hi), hr]
  · intro hseen hash t
    rw [executionCount_analyze h hlog, log_analyze]
    by_cases hgrid : OnGrid g s.log hash t
    · have hold : recordCount g (s.log.take s.seen) hash t = 0 := by
        refine recordCount_eq_zero.mpr fun r hr hhash ht => ?_
        obtain ⟨i, hi, rfl⟩ := mem_take_iff_getElem.mp hr
        have hget := getElem?_eq_getElem (l := s.log) (i := i) (by omega)
        refine (hseen i _ hget).mp (by omega) ?_
        rwa [hhash, ht]
      rw [hold, addedTo_of_onGrid hg hgrid, Nat.zero_add]
    · have hnew : recordCount g (s.log.drop s.seen) hash t = 0 := by
        refine recordCount_eq_zero.mpr fun r hr hhash ht => ?_
        obtain ⟨i, hi, rfl⟩ := mem_drop_iff_getElem.mp hr
        have hget := getElem?_eq_getElem (l := s.log) (i := s.seen + i) (by omega)
        have hlt := (hseen _ _ hget).mpr (by rwa [hhash, ht])
        omega
      rw [addedTo_of_not_onGrid hg hgrid, hsplit, hnew]

/-- The requests of a run, each with the actions before it. -/
def RequestAfter (actions before : List ServerAction) : Prop :=
  before ++ [.analyzeWorkload] <+: actions

theorem serverRun_concat (actions : List ServerAction) (a : ServerAction) :
    serverRun g (actions ++ [a]) = serverStep g (serverRun g actions) a :=
  foldl_concat _ _ _ _

theorem seenCounted_init : SeenCounted g (serverRun g []) := ⟨le_rfl, fun _ _ => rfl⟩

/-- If each request counts right, the stored counts are those of the log at the last one. -/
theorem seenCounted_of_request
    (h : ∀ before, RequestAfter actions before → SeenCounted g (serverRun g before) →
      CountsRight g (serverRun g (before ++ [.analyzeWorkload]))) :
    SeenCounted g (serverRun g actions) := by
  induction actions using reverseRecOn with
  | nil => exact seenCounted_init
  | append_singleton actions a ih =>
    have hprev := ih fun before hb => h before (hb.trans (prefix_append _ _))
    rw [serverRun_concat]
    cases a with
    | append r => exact hprev.append r
    | analyzeWorkload =>
      refine hprev.of_countsRight ?_
      rw [← serverRun_concat]
      exact h actions prefix_rfl hprev

theorem seenCounted_of_countsRight (h : ∀ before, RequestAfter actions before →
      CountsRight g (serverRun g (before ++ [.analyzeWorkload]))) :
    SeenCounted g (serverRun g actions) :=
  seenCounted_of_request fun before hb _ => h before hb

theorem seenCounted_of_seenBesideGrid (hg : 0 < g)
    (h : ∀ before, RequestAfter actions before → SeenBesideGrid g (serverRun g before)) :
    SeenCounted g (serverRun g actions) := by
  refine seenCounted_of_request fun before hb hseen => ?_
  rw [serverRun_concat]
  exact (countsRight_analyze_iff hg hseen).mpr (h before hb)

end Runs

/-- After every request each stored count is the number of records exactly if each request finds
the records of earlier requests beside the grid, and the new ones on it. -/
theorem counted_once_iff (g : ℕ) (hg : 0 < g) (actions : List ServerAction) :
    (∀ before, RequestAfter actions before →
        CountsRight g (serverRun g (before ++ [.analyzeWorkload]))) ↔
      ∀ before, RequestAfter actions before → SeenBesideGrid g (serverRun g before) := by
  have hsub : ∀ {before before'}, RequestAfter actions before → RequestAfter before before' →
      RequestAfter actions before' :=
    fun hb hb' => (hb'.trans (prefix_append _ _)).trans hb
  constructor
  · intro h before hb
    have hcounted := seenCounted_of_countsRight fun before' hb' => h before' (hsub hb hb')
    rw [← countsRight_analyze_iff hg hcounted, ← serverRun_concat]
    exact h before hb
  · intro h before hb
    have hcounted := seenCounted_of_seenBesideGrid hg fun before' hb' => h before' (hsub hb hb')
    rw [serverRun_concat, countsRight_analyze_iff hg hcounted]
    exact h before hb

theorem seenBesideGrid_of_seen_eq_zero (hg : g ∣ 1440) {s : ServerState} (h : s.seen = 0) :
    SeenBesideGrid g s := by
  intro i r hr
  refine iff_of_false (by omega) (not_not_intro ?_)
  exact onGrid_of_dvd hg (mem_of_getElem? hr)

theorem digit_ne_nil : ("0".toList : Name) ≠ [] := by decide

/-- A record one minute after midnight. -/
def minuteRecord : LogRecord := ⟨"0".toList, digit_ne_nil, 60⟩

/-- A first request counts right. -/
theorem counted_once_first :
    0 < 1 ∧ ∀ before, RequestAfter [.append minuteRecord, .analyzeWorkload] before →
      CountsRight 1 (serverRun 1 (before ++ [.analyzeWorkload])) := by
  refine ⟨by decide, (counted_once_iff 1 (by decide) _).mpr ?_⟩
  rintro before ⟨rest, h⟩
  refine seenBesideGrid_of_seen_eq_zero (by decide) ?_
  -- the one request comes after the append
  have hbefore : before = [.append minuteRecord] := by
    cases before with
    | nil => cases h
    | cons a before =>
      cases before with
      | nil => cases h; rfl
      | cons b before => simp at h
  rw [hbefore]
  rfl

/-- A second request on the same log doubles the count. -/
theorem counted_twice :
    executionCount (serverRun 1 [.append minuteRecord, .analyzeWorkload, .analyzeWorkload]).rows
        minuteRecord.templateHash 60 = 2 ∧
      ¬ ∀ before, RequestAfter [.append minuteRecord, .analyzeWorkload, .analyzeWorkload] before →
        CountsRight 1 (serverRun 1 (before ++ [.analyzeWorkload])) := by
  have htwo : executionCount (serverRun 1 [.append minuteRecord, .analyzeWorkload,
      .analyzeWorkload]).rows minuteRecord.templateHash 60 = 2 := by decide +kernel
  refine ⟨htwo, fun h => ?_⟩
  have hright := h [.append minuteRecord, .analyzeWorkload] prefix_rfl
    minuteRecord.templateHash 60
  rw [cons_append, cons_append, nil_append, htwo] at hright
  exact absurd hright (by decide +kernel)

-- a step of seven minutes misses the buckets of the next day
example : executionCount (serverRun 7 [.append minuteRecord,
    .append { minuteRecord with timestamp := 86400 }, .analyzeWorkload]).rows
      minuteRecord.templateHash 86400 = 0 := by
  decide +kernel

end NeurDB.WorkloadForecast
