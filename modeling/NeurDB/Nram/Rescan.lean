import NeurDB.Nram.Access

/-!
# Rescans

The scan descriptor of `nram.c` with its cursor. `nram_beginscan` fetches the rows of the table,
`nram_getnextslot` moves the cursor behind the next row that the transaction can read, and
`nram_rescan` should move it back to the first row. It does so in a descriptor that it allocates
itself and drops; the one it was given stays where it is.

`rescan_restarts_iff` says when a rescan restarts the scan.
-/

namespace NeurDB.Nram

open List
open Option (bind_some map_eq_some_iff some)

/-! ### The descriptor -/

/-- `KVScanDescData`: the table, the rows fetched by `nram_beginscan`, and the cursor. -/
structure KVScanDesc where
  relation : Oid
  results : List (NRAMKey × NRAMValue)
  cursor : ℕ

/-- `nram_rescan` among the allocated descriptors: `fresh` is the address that `palloc0` gives. -/
def nramRescan (descs : ℕ → Option KVScanDesc) (_sscan fresh : ℕ) : ℕ → Option KVScanDesc :=
  Function.update descs fresh (some ⟨0, [], 0⟩)

/-- What a call finds: whether rows are locked and read again, and the store. -/
structure SlotEnv where
  detectAll : Bool
  db : RocksDB NRAMValue

/-- `nram_getnextslot`, scanning forward; `none` where the row that is read again is gone and the
code goes on with a null pointer. -/
def nramGetnextslot (env : SlotEnv) (state : NRAMXactState) (scan : KVScanDesc) :
    Option (NRAMXactState × KVScanDesc × Option (NRAMKey × NRAMValue)) :=
  match nextRow state (scan.results.drop scan.cursor) with
  | none => some (state, { scan with cursor := scan.results.length }, none)
  | some (.own tkey tvalue, rest) =>
    some (state, { scan with cursor := scan.results.length - rest.length }, some (tkey, tvalue))
  | some (.stored tkey tvalue, rest) =>
    (if env.detectAll then rocksengineGet env.db tkey else some tvalue).map fun tvalue =>
      (if state.forRead then addReadSet state tkey tvalue else state,
        { scan with cursor := scan.results.length - rest.length }, some (tkey, tvalue))

/-- One call after the other, and what they return. -/
def slots : List SlotEnv → NRAMXactState → KVScanDesc →
    Option (NRAMXactState × KVScanDesc × List (Option (NRAMKey × NRAMValue)))
  | [], state, scan => some (state, scan, [])
  | env :: envs, state, scan =>
    (nramGetnextslot env state scan).bind fun r =>
      (slots envs r.1 r.2.1).map fun r' => (r'.1, r'.2.1, r.2.2 :: r'.2.2)

/-! ### What the loop skips -/

/-- The transaction can read the row: it has an own one under its key, or the row is visible. -/
def Readable (state : NRAMXactState) (e : NRAMKey × NRAMValue) : Prop :=
  (readOwn state e.1).isSome = true ∨ nramValueCheckVisibility e.2 state = true

def ScanHit.key : ScanHit → NRAMKey
  | .own key _ => key
  | .stored key _ => key

variable {state state' : NRAMXactState} {scan : KVScanDesc} {e : NRAMKey × NRAMValue}
  {rows : List (NRAMKey × NRAMValue)}

theorem nextRow_cons_of_readable (h : Readable state e) :
    ∃ hit : ScanHit, hit.key = e.1 ∧ nextRow state (e :: rows) = some (hit, rows) := by
  simp only [nextRow]
  split
  · next own hown => exact ⟨.own e.1 own, rfl, rfl⟩
  · next hown =>
    have hvis : nramValueCheckVisibility e.2 state = true := by
      rcases h with h | h
      · rw [hown] at h
        cases h
      · exact h
    rw [if_pos hvis]
    exact ⟨.stored e.1 e.2, rfl, rfl⟩

theorem nextRow_cons_of_not_readable (h : ¬ Readable state e) :
    nextRow state (e :: rows) = nextRow state rows := by
  obtain ⟨hown, hvis⟩ := not_or.mp h
  have hnone : readOwn state e.1 = none := by simpa using hown
  simp only [nextRow, hnone]
  exact if_neg hvis

variable {rest : List (NRAMKey × NRAMValue)} {env : SlotEnv} {scan' : KVScanDesc}
  {row : Option (NRAMKey × NRAMValue)} {results : List (NRAMKey × NRAMValue)} {relation : Oid}
  {hit : ScanHit}

/-- **Skipped, found and still ahead.** -/
theorem nextRow_split (h : nextRow state rows = some (hit, rest)) :
    ∃ skipped e, rows = skipped ++ e :: rest ∧ hit.key = e.1 ∧ Readable state e := by
  induction rows with
  | nil => cases h
  | cons e rows ih =>
    by_cases hread : Readable state e
    · obtain ⟨hit', hkey, heq⟩ : ∃ hit : ScanHit, _ ∧ nextRow state (e :: rows) = _ :=
        nextRow_cons_of_readable hread
      obtain ⟨rfl, rfl⟩ := Prod.mk.inj (some.inj (heq.symm.trans h))
      exact ⟨[], e, rfl, hkey, hread⟩
    · rw [nextRow_cons_of_not_readable hread] at h
      obtain ⟨skipped, e', rfl, hfound⟩ := ih h
      exact ⟨e :: skipped, e', rfl, hfound⟩

theorem nextRow_eq_none (h : ∀ e ∈ rows, ¬ Readable state e) : nextRow state rows = none := by
  induction rows with
  | nil => rfl
  | cons e rows ih =>
    rw [nextRow_cons_of_not_readable (h e mem_cons_self)]
    exact ih fun e' he' => h e' (mem_cons_of_mem _ he')

theorem nextRow_of_readable {front : List (NRAMKey × NRAMValue)} (h : Readable state e)
    (rows : List (NRAMKey × NRAMValue)) :
    ∃ hit rest, nextRow state (front ++ e :: rows) = some (hit, rest) ∧
      hit.key ∈ (front ++ [e]).map (·.1) := by
  induction front with
  | nil =>
    obtain ⟨hit, hkey, heq⟩ : ∃ hit : ScanHit, _ ∧ nextRow state (e :: rows) = _ :=
      nextRow_cons_of_readable h
    exact ⟨hit, rows, heq, mem_singleton.mpr hkey⟩
  | cons e' front ih =>
    by_cases hread : Readable state e'
    · obtain ⟨hit, hkey, heq⟩ :
          ∃ hit : ScanHit, _ ∧ nextRow state (e' :: (front ++ e :: rows)) = _ :=
        nextRow_cons_of_readable hread
      refine ⟨hit, _, heq, ?_⟩
      rw [hkey]
      exact mem_cons_self
    · obtain ⟨hit, rest, heq, hkey⟩ := ih
      refine ⟨hit, rest, ?_, mem_cons_of_mem _ hkey⟩
      rw [cons_append, nextRow_cons_of_not_readable hread]
      exact heq

/-! ### Calls -/

/-- **What a call can do**: it comes to the end, or it finds a row and moves behind it, and may
record the row. -/
theorem nramGetnextslot_cases (h : nramGetnextslot env state scan = some (state', scan', row)) :
    (state' = state ∧ scan' = { scan with cursor := scan.results.length }) ∨
      ∃ hit rest, nextRow state (scan.results.drop scan.cursor) = some (hit, rest) ∧
        scan' = { scan with cursor := scan.results.length - rest.length } ∧
        (state' = state ∨ ∃ v, state' = addReadSet state hit.key v) := by
  unfold nramGetnextslot at h
  split at h
  · cases h
    exact Or.inl ⟨rfl, rfl⟩
  · next k v rest hnext =>
    cases h
    exact Or.inr ⟨_, rest, hnext, rfl, Or.inl rfl⟩
  · next k v rest hnext =>
    obtain ⟨w, -, heq⟩ := map_eq_some_iff.mp h
    cases heq
    refine Or.inr ⟨_, rest, hnext, rfl, ?_⟩
    split
    · exact Or.inr ⟨w, rfl⟩
    · exact Or.inl rfl

theorem key_nramGetnextslot (db : RocksDB NRAMValue) (state : NRAMXactState) (scan : KVScanDesc) :
    (nramGetnextslot ⟨false, db⟩ state scan).map (fun r => r.2.2.map (·.1)) =
      some ((nextRow state (scan.results.drop scan.cursor)).map (·.1.key)) := by
  unfold nramGetnextslot
  split
  · next hnext => rw [hnext]; rfl
  · next hnext => rw [hnext]; rfl
  · next hnext => rw [hnext]; rfl

theorem Readable.addReadSet (h : Readable state e) (key : NRAMKey) (value : NRAMValue) :
    Readable (addReadSet state key value) e := by
  rcases h with h | h
  · left
    unfold readOwn readOwnWrite readOwnRead findReadSet findWriteSet at h ⊢
    rw [addReadSet_readSet, addReadSet_writeSet, find?_append]
    revert h
    cases state.writeSet.find? (·.key = e.1) <;> cases state.readSet.find? (·.key = e.1) <;> simp
  · exact Or.inr h

theorem nramGetnextslot_keeps {n : ℕ}
    (h : nramGetnextslot env state scan = some (state', scan', row)) (hn : n ≤ scan.cursor)
    (hlen : n ≤ scan.results.length) :
    scan'.results = scan.results ∧ scan'.relation = scan.relation ∧ n ≤ scan'.cursor ∧
      ∀ e, Readable state e → Readable state' e := by
  obtain ⟨rfl, rfl⟩ | ⟨hit, rest, hnext, rfl, hstate⟩ := nramGetnextslot_cases h
  · exact ⟨rfl, rfl, hlen, fun e he => he⟩
  · obtain ⟨skipped, e, hsplit, -, -⟩ := nextRow_split hnext
    have hcount : scan.results.length - scan.cursor = skipped.length + (rest.length + 1) := by
      rw [← length_drop, hsplit, length_append, length_cons]
    refine ⟨rfl, rfl, ?_, ?_⟩
    · show n ≤ scan.results.length - rest.length
      omega
    · obtain rfl | ⟨v, rfl⟩ := hstate
      · exact fun e he => he
      · exact fun e he => he.addReadSet _ _

theorem slots_keeps {envs : List SlotEnv} {rows : List (Option (NRAMKey × NRAMValue))} {n : ℕ}
    (h : slots envs state scan = some (state', scan', rows)) (hn : n ≤ scan.cursor)
    (hlen : n ≤ scan.results.length) :
    scan'.results = scan.results ∧ scan'.relation = scan.relation ∧ n ≤ scan'.cursor ∧
      ∀ e, Readable state e → Readable state' e := by
  induction envs generalizing state scan rows with
  | nil =>
    cases h
    exact ⟨rfl, rfl, hn, fun e he => he⟩
  | cons env envs ih =>
    obtain ⟨⟨state₁, scan₁, row⟩, hcall, hrest⟩ := Option.bind_eq_some_iff.mp h
    obtain ⟨⟨state₂, scan₂, rows₂⟩, hslots, heq⟩ := map_eq_some_iff.mp hrest
    cases heq
    obtain ⟨hresults, hrelation, hcursor, hread⟩ := nramGetnextslot_keeps hcall hn hlen
    obtain ⟨hresults', hrelation', hcursor', hread'⟩ :=
      ih hslots hcursor (by rw [hresults]; exact hlen)
    exact ⟨hresults'.trans hresults, hrelation'.trans hrelation, hcursor',
      fun e he => hread' e (hread e he)⟩

theorem slots_of_not_readable (envs : List SlotEnv) (h : ∀ e ∈ scan.results, ¬ Readable state e) :
    ∃ cursor, slots envs state scan =
      some (state, { scan with cursor }, List.replicate envs.length none) := by
  induction envs generalizing scan with
  | nil => exact ⟨scan.cursor, rfl⟩
  | cons env envs ih =>
    have hnone : nextRow state (scan.results.drop scan.cursor) = none :=
      nextRow_eq_none fun e he => h e (mem_of_mem_drop he)
    have hcall : nramGetnextslot env state scan =
        some (state, { scan with cursor := scan.results.length }, none) := by
      rw [nramGetnextslot, hnone]
    obtain ⟨cursor, hslots⟩ : ∃ cursor, slots envs state
        { scan with cursor := scan.results.length } = _ := ih h
    refine ⟨cursor, ?_⟩
    rw [slots, hcall, bind_some, hslots]
    rfl

/-! ### Rescans -/

/-- A scan that was rescanned goes on like one that was not advanced: whatever the calls to come
find, they return the same rows. -/
def RescanRestarts (descs : ℕ → Option KVScanDesc) (sscan fresh : ℕ) (state : NRAMXactState)
    (scan : KVScanDesc) : Prop :=
  ∀ later, ((nramRescan descs sscan fresh sscan).bind (slots later state)).map (·.2.2) =
    (slots later state { scan with cursor := 0 }).map (·.2.2)

theorem nodup_keys_of_beginscan {db : RocksDB NRAMValue}
    (h : nramBeginscanRange db relation = .ok results) :
    (results.map (·.1)).Nodup := by
  obtain ⟨l, hl, -, hpairwise⟩ := rangeScan_spec db ⟨relation, 0⟩ ⟨relation + 1, 0⟩
  obtain rfl : l = results := Except.ok.inj (hl.symm.trans h)
  refine pairwise_map.mpr (hpairwise.imp fun {a b} hlt heq => ?_)
  rw [heq] at hlt
  exact lt_irrefl _ hlt

/-- After a call that found a row, the rows from the cursor on do not show what a scan from the
first row would. -/
theorem not_restarts_of_found {skipped : List (NRAMKey × NRAMValue)}
    (hsplit : scan.results = skipped ++ e :: rest) (hnodup : (scan.results.map (·.1)).Nodup)
    (hcursor : skipped.length + 1 ≤ scan.cursor) (hread : Readable state e) :
    (slots [⟨false, .empty⟩] state scan).map (·.2.2) ≠
      (slots [⟨false, .empty⟩] state { scan with cursor := 0 }).map (·.2.2) := by
  intro h
  -- 1. the keys of the rows that the two calls return are equal
  have hone : ∀ scan : KVScanDesc, (slots [⟨false, .empty⟩] state scan).map (·.2.2) =
      (nramGetnextslot ⟨false, .empty⟩ state scan).map fun r => [r.2.2] := by
    intro scan
    simp only [slots]
    cases nramGetnextslot ⟨false, .empty⟩ state scan <;> rfl
  rw [hone, hone] at h
  have hkeys := congrArg (Option.map fun rows => rows.head?.map fun row => row.map (·.1)) h
  simp only [Option.map_map] at hkeys
  have hsame : (nextRow state (scan.results.drop scan.cursor)).map (·.1.key) =
      (nextRow state (scan.results.drop 0)).map (·.1.key) := by
    have h₁ := key_nramGetnextslot .empty state scan
    have h₂ := key_nramGetnextslot .empty state { scan with cursor := 0 }
    rw [map_eq_some_iff] at h₁ h₂
    obtain ⟨r₁, hr₁, hk₁⟩ := h₁
    obtain ⟨r₂, hr₂, hk₂⟩ := h₂
    rw [hr₁, hr₂] at hkeys
    rw [← hk₁]
    exact (some.inj (some.inj hkeys)).trans hk₂
  -- 2. from the first row, the row `e` is found or one before it
  obtain ⟨hit, rest', hfirst, hmem⟩ : ∃ hit rest', nextRow state (skipped ++ e :: rest) = _ ∧ _ :=
    nextRow_of_readable hread rest
  rw [drop_zero, hsplit, hfirst] at hsame
  -- 3. from the cursor on, only rows behind `e` are
  obtain ⟨⟨hit', rest''⟩, hnext, hkey⟩ := map_eq_some_iff.mp hsame
  obtain ⟨skipped', e', hsplit', hkey', -⟩ := nextRow_split hnext
  have hlater : e' ∈ rest := by
    have hdrop : (skipped ++ e :: rest).drop (skipped.length + 1) = rest := by
      rw [drop_append, drop_of_length_le (by omega)]
      simp
    have hsub : (skipped ++ e :: rest).drop scan.cursor ⊆ rest := by
      intro x hx
      rw [← hdrop]
      exact (drop_sublist_drop_left _ hcursor).subset hx
    refine hsub ?_
    rw [hsplit']
    exact mem_append_right _ mem_cons_self
  -- 4. but the keys are distinct
  have hsplit₂ : skipped ++ e :: rest = (skipped ++ [e]) ++ rest := by simp
  rw [hsplit, hsplit₂, map_append, List.nodup_append] at hnodup
  have hkeyeq : e'.1 = hit.key := hkey'.symm.trans hkey
  exact hnodup.2.2 _ hmem _ (mem_map_of_mem hlater) hkeyeq.symm

theorem found_of_readable
    {e₀ : NRAMKey × NRAMValue} (he₀ : e₀ ∈ results) (hread₀ : Readable state e₀)
    (h : nramGetnextslot env state ⟨relation, results, 0⟩ = some (state', scan, row)) :
    ∃ skipped e rest, results = skipped ++ e :: rest ∧ Readable state e ∧
      skipped.length + 1 ≤ scan.cursor := by
  obtain ⟨-, rfl⟩ | ⟨hit, rest, hnext, rfl, -⟩ := nramGetnextslot_cases h
  · obtain ⟨front, back, rfl⟩ := append_of_mem he₀
    refine ⟨front, e₀, back, rfl, hread₀, ?_⟩
    show front.length + 1 ≤ (front ++ e₀ :: back).length
    rw [length_append, length_cons]
    omega
  · obtain ⟨skipped, e, hsplit, -, hread⟩ := nextRow_split hnext
    change results.drop 0 = _ at hsplit
    rw [drop_zero] at hsplit
    subst hsplit
    refine ⟨skipped, e, rest, rfl, hread, ?_⟩
    show skipped.length + 1 ≤ (skipped ++ e :: rest).length - rest.length
    rw [length_append, length_cons]
    omega

/-- **When a rescan restarts the scan.** For every scan that `nram_beginscan` began and any number
of calls that came to a result: exactly if no call was made, or if the scan has no row that the
transaction can read. -/
theorem rescan_restarts_iff {db : RocksDB NRAMValue} {relation : Oid}
    {results : List (NRAMKey × NRAMValue)} (hbegin : nramBeginscanRange db relation = .ok results)
    {envs : List SlotEnv} {state state' : NRAMXactState} {scan : KVScanDesc}
    {rows : List (Option (NRAMKey × NRAMValue))}
    (hpass : slots envs state ⟨relation, results, 0⟩ = some (state', scan, rows))
    {descs : ℕ → Option KVScanDesc} {sscan fresh : ℕ} (hscan : descs sscan = some scan)
    (hfresh : descs fresh = none) :
    RescanRestarts descs sscan fresh state' scan ↔
      envs = [] ∨ ∀ e ∈ results, ¬ Readable state e := by
  have hrescan : nramRescan descs sscan fresh sscan = some scan := by
    have hne : sscan ≠ fresh := by
      rintro rfl
      rw [hscan] at hfresh
      cases hfresh
    rw [nramRescan, Function.update_of_ne hne, hscan]
  unfold RescanRestarts
  rw [hrescan]
  constructor
  · intro h
    by_contra hnot
    obtain ⟨hne, hsome⟩ := not_or.mp hnot
    obtain ⟨env, envs, rfl⟩ := exists_cons_of_ne_nil hne
    -- the first call finds a row, and the calls after it do not go back
    obtain ⟨e₀, he₀, hread₀⟩ : ∃ e ∈ results, Readable state e := by
      simpa only [not_forall, not_not, exists_prop] using hsome
    obtain ⟨⟨state₁, scan₁, row⟩, hcall, hrest⟩ := Option.bind_eq_some_iff.mp hpass
    obtain ⟨⟨state₂, scan₂, rows₂⟩, hslots, heq⟩ := map_eq_some_iff.mp hrest
    cases heq
    obtain ⟨skipped, e, rest, hsplit, hread, hcursor⟩ := found_of_readable he₀ hread₀ hcall
    obtain ⟨hresults₁, -, -, hread₁⟩ :=
      nramGetnextslot_keeps hcall (Nat.zero_le _) (Nat.zero_le _)
    change scan₁.results = results at hresults₁
    have hlen : skipped.length + 1 ≤ scan₁.results.length := by
      rw [hresults₁, hsplit, length_append, length_cons]
      omega
    obtain ⟨hresults₂, -, hcursor₂, hread₂⟩ := slots_keeps hslots hcursor hlen
    have hresults : scan₂.results = results := hresults₂.trans hresults₁
    refine not_restarts_of_found (hresults.trans hsplit) ?_ hcursor₂ (hread₂ e (hread₁ e hread))
      (h [⟨false, .empty⟩])
    rw [hresults]
    exact nodup_keys_of_beginscan hbegin
  · rintro (rfl | hnone) later
    · cases hpass
      rfl
    · obtain ⟨cursor, hslots⟩ : ∃ cursor, slots envs state ⟨relation, results, 0⟩ = _ :=
        slots_of_not_readable envs hnone
      obtain ⟨rfl, rfl, -⟩ := by
        simpa only [some.injEq, Prod.mk.injEq] using hslots.symm.trans hpass
      obtain ⟨c₁, h₁⟩ : ∃ c, slots later state ⟨relation, results, cursor⟩ = _ :=
        slots_of_not_readable later hnone
      obtain ⟨c₂, h₂⟩ : ∃ c, slots later state ⟨relation, results, 0⟩ = _ :=
        slots_of_not_readable later hnone
      rw [bind_some, h₁, h₂]
      rfl

/-! ### A scan of one row -/

/-- The row of the table 5 that transaction 7 committed. -/
def scannedRow : NRAMKey × NRAMValue := (⟨5, 65537⟩, ⟨7, 0, []⟩)

/-- The descriptor of a scan of this table, with its cursor. -/
def oneRowScan (cursor : ℕ) : KVScanDesc := ⟨5, [scannedRow], cursor⟩

/-- The allocated descriptors: that of the scan, at the address 1. -/
def oneDesc (scan : KVScanDesc) (i : ℕ) : Option KVScanDesc := if i = 1 then some scan else none

/-- A scan of an empty table, which a call has advanced to its end, can be rescanned. -/
theorem empty_scan_restarts :
    slots [⟨false, .empty⟩] (newNRAMXactState 9) ⟨5, [], 0⟩ =
        some (newNRAMXactState 9, ⟨5, [], 0⟩, [none]) ∧
      RescanRestarts (oneDesc ⟨5, [], 0⟩) 1 2 (newNRAMXactState 9) ⟨5, [], 0⟩ := by
  have hbegin : nramBeginscanRange (V := NRAMValue) .empty 5 = .ok [] := by decide +kernel
  have hpass : slots [⟨false, .empty⟩] (newNRAMXactState 9) ⟨5, [], 0⟩ =
      some (newNRAMXactState 9, ⟨5, [], 0⟩, [none]) := rfl
  have hscan : oneDesc ⟨5, [], 0⟩ 1 = some ⟨5, [], 0⟩ := rfl
  have hfresh : oneDesc ⟨5, [], 0⟩ 2 = none := rfl
  exact ⟨hpass, (rescan_restarts_iff hbegin hpass hscan hfresh).mpr (Or.inr nofun)⟩

/-- The inner side of a nested loop: the row is read, which moves the cursor to 1, the scan is
rescanned, and there is no row left to read. -/
theorem rescanned_scan_is_empty :
    (slots [⟨false, .empty⟩] (newNRAMXactState 9) (oneRowScan 0)).map
        (fun r => (r.2.1.cursor, r.2.2)) = some (1, [some scannedRow]) ∧
      ((nramRescan (oneDesc (oneRowScan 1)) 1 2 1).bind
        (slots [⟨false, .empty⟩] (newNRAMXactState 9))).map (·.2.2) = some [none] ∧
      ¬ RescanRestarts (oneDesc (oneRowScan 1)) 1 2 (newNRAMXactState 9) (oneRowScan 1) := by
  have hempty : ((nramRescan (oneDesc (oneRowScan 1)) 1 2 1).bind
      (slots [⟨false, .empty⟩] (newNRAMXactState 9))).map (·.2.2) = some [none] := by
    decide +kernel
  have hfull : (slots [⟨false, .empty⟩] (newNRAMXactState 9) (oneRowScan 0)).map (·.2.2) =
      some [some scannedRow] := by decide +kernel
  refine ⟨by decide +kernel, hempty, fun h => ?_⟩
  have hsame := h [⟨false, .empty⟩]
  rw [hempty] at hsame
  cases hsame.trans hfull

end NeurDB.Nram
