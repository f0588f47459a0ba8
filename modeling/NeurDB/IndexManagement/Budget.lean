import NeurDB.Framework.System

/-!
# The storage budget of automatic index creation

The background worker creates the index a work item asks for, and the SQL function
`nr_create_index_if_budget_allows` creates the index it is told to create. Both look at the
total size of the indexes of schema `public` and at a budget.

* The worker checks an *estimate* of the new index before it creates it, and the real sizes
  afterwards. Where the budget is exceeded it drops registered indexes
  (`evictUntilFits`), and where that fails it drops the new index.
* The function only checks that the budget is not used up yet.

The answers of the `CREATE INDEX` and `DROP INDEX` commands, which run in a `psql` of their
own, are part of the label of a step. A failed `CREATE INDEX CONCURRENTLY` leaves an invalid
index behind, which `pg_relation_size` counts.

Sizes are bytes in the catalog and the registry and megabytes, as exact rationals, in the
budget arithmetic. The logarithms of `nrim_index_utility` are a parameter: only the order and
the sums of utilities matter.
-/

namespace NeurDB.IndexManagement

open List

/-! ### Catalog and registry -/

/-- The name of the schema the budget is about. -/
def publicSchema : String := "public"

/-- A row of `pg_class` with `relkind = 'i'`. -/
structure IndexRel where
  oid : ℕ
  relnamespace : String
  relname : String
  /-- `pg_relation_size` of the index, in bytes. -/
  relationSize : ℕ
  deriving DecidableEq, Repr

/-- The `state` column of the registry. -/
inductive IndexState where
  | created
  | dropping
  deriving DecidableEq, Repr

/-- A row of `nrim.nrim_index_registry`. -/
structure RegistryRow where
  indexOid : ℕ
  state : IndexState
  sizeBytes : Option ℤ
  benefitScoreEwma : ℚ
  touchScoreEwma : ℚ
  createdAt : ℕ
  deriving DecidableEq, Repr

/-- Bytes as megabytes. -/
def mb (bytes : ℤ) : ℚ := bytes / 1024 / 1024

theorem mb_le_mb {a b : ℤ} (h : a ≤ b) : mb a ≤ mb b := by
  unfold mb
  gcongr

theorem mb_add (a b : ℤ) : mb (a + b) = mb a + mb b := by
  unfold mb
  push_cast
  ring

theorem mb_pos {a : ℤ} : 0 < mb a ↔ 0 < a := by
  unfold mb
  constructor
  · intro h
    by_contra ha
    have hle : (a : ℚ) ≤ 0 := by exact_mod_cast not_lt.mp ha
    have : (a : ℚ) / 1024 / 1024 ≤ 0 := by
      apply div_nonpos_of_nonpos_of_nonneg (div_nonpos_of_nonpos_of_nonneg hle (by norm_num))
      norm_num
    exact absurd h (not_lt.mpr this)
  · intro h
    have : (0 : ℚ) < a := by exact_mod_cast h
    positivity

/-! Rows with a key: a new key may be appended, and an update of other columns keeps the keys. -/

theorem nodup_keys_append {α κ : Type} {key : α → κ} {l : List α} {a : α}
    (hl : (l.map key).Nodup) (ha : key a ∉ l.map key) : ((l ++ [a]).map key).Nodup := by
  rw [map_append]
  refine List.nodup_append.mpr ⟨hl, nodup_singleton _, ?_⟩
  rintro k hk _ hk' rfl
  rw [map_singleton, mem_singleton] at hk'
  subst hk'
  exact ha hk

theorem nodup_keys_update {α κ : Type} {key : α → κ} {l : List α} {f : α → α}
    (hl : (l.map key).Nodup) (hf : ∀ a, key (f a) = key a) : ((l.map f).map key).Nodup := by
  rw [map_map]
  have hcomp : key ∘ f = key := funext hf
  rwa [hcomp]

/-- What the extension reads and changes of a database: the indexes of the catalog and the
registry. Oids identify the rows of both. -/
structure IndexDb where
  pgClass : List IndexRel
  registry : List RegistryRow
  oid_nodup : (pgClass.map IndexRel.oid).Nodup
  indexOid_nodup : (registry.map RegistryRow.indexOid).Nodup

/-- The settings the budget depends on. -/
structure Settings where
  enableAutoIndexCreation : Bool
  /-- `nr_max_index_storage_mb`. -/
  budgetMb : ℚ
  budget_pos : 0 < budgetMb
  minValueImprovement : ℚ
  useConcurrently : Bool
  /-- `nrim_index_utility`, of the benefit score and the touch score. -/
  indexUtility : ℚ → ℚ → ℚ

namespace IndexDb

/-- `nr_get_current_index_storage_mb`. -/
def currentIndexStorageMb (db : IndexDb) : ℚ :=
  mb (((db.pgClass.filter fun r => r.relnamespace = publicSchema).map
    IndexRel.relationSize).sum : ℕ)

/-- `get_relname_relid`, among the indexes. -/
def getRelnameRelid (db : IndexDb) (relname nspname : String) : Option ℕ :=
  (db.pgClass.find? fun r => r.relname = relname ∧ r.relnamespace = nspname).map IndexRel.oid

/-- A successful `DROP INDEX`. -/
def dropIndex (db : IndexDb) (oid : ℕ) : IndexDb where
  pgClass := db.pgClass.filter fun r => r.oid ≠ oid
  registry := db.registry
  oid_nodup := db.oid_nodup.sublist (List.filter_sublist.map _)
  indexOid_nodup := db.indexOid_nodup

/-- `DELETE FROM nrim.nrim_index_registry WHERE index_oid=..`. -/
def deleteRow (db : IndexDb) (oid : ℕ) : IndexDb where
  pgClass := db.pgClass
  registry := db.registry.filter fun row => row.indexOid ≠ oid
  oid_nodup := db.oid_nodup
  indexOid_nodup := db.indexOid_nodup.sublist (List.filter_sublist.map _)

/-- `UPDATE nrim.nrim_index_registry SET state='dropping'` for each of the oids. -/
def markDropping (db : IndexDb) (oids : List ℕ) : IndexDb where
  pgClass := db.pgClass
  registry := db.registry.map fun row =>
    if row.indexOid ∈ oids then { row with state := .dropping } else row
  oid_nodup := db.oid_nodup
  indexOid_nodup := by
    apply nodup_keys_update db.indexOid_nodup
    intro row
    split <;> rfl

/-- An index that appears in the catalog. Oids and qualified names are new. -/
def createIndex (db : IndexDb) (rel : IndexRel) : Option IndexDb :=
  if h : rel.oid ∉ db.pgClass.map IndexRel.oid ∧
      db.getRelnameRelid rel.relname rel.relnamespace = none then
    some
      { pgClass := db.pgClass ++ [rel]
        registry := db.registry
        oid_nodup := nodup_keys_append db.oid_nodup h.1
        indexOid_nodup := db.indexOid_nodup }
  else none

/-- `nrim_worker_ensure_registry_for_index`: a row for the index, or a higher benefit in the
row that is there. -/
def ensureRegistryForIndex (db : IndexDb) (rel : IndexRel) (benefitScore : ℚ) (now : ℕ) :
    IndexDb :=
  if h : rel.oid ∈ db.registry.map RegistryRow.indexOid then
    { db with
      registry := db.registry.map fun row =>
        if row.indexOid = rel.oid then
          { row with benefitScoreEwma := max row.benefitScoreEwma benefitScore }
        else row
      indexOid_nodup := by
        apply nodup_keys_update db.indexOid_nodup
        intro row
        split <;> rfl }
  else
    { db with
      registry := db.registry ++
        [⟨rel.oid, .created, some (rel.relationSize : ℤ), benefitScore, 0, now⟩]
      indexOid_nodup := nodup_keys_append db.indexOid_nodup h }

end IndexDb

/-! ### Eviction -/

/-- The size the eviction query reports for a registered index: the recorded one, if there is
one. -/
def RegistryRow.sizeMb (row : RegistryRow) (rel : IndexRel) : ℚ :=
  mb (row.sizeBytes.getD rel.relationSize)

/-- `idx_mb`: the size an eviction counts for a victim. -/
def RegistryRow.idxMb (row : RegistryRow) (rel : IndexRel) : ℚ :=
  if row.sizeMb rel ≤ 0 then 1 / 1000 else row.sizeMb rel

structure EvictVictim where
  indexOid : ℕ
  sizeMb : ℚ
  utility : ℚ
  deriving DecidableEq, Repr

section Evict

variable (cfg : Settings)

/-- The `ORDER BY` of the eviction query: utility for each megabyte, then age. -/
def evictsBefore (a b : RegistryRow × IndexRel) : Prop :=
  let density (p : RegistryRow × IndexRel) : ℚ :=
    cfg.indexUtility p.1.benefitScoreEwma p.1.touchScoreEwma / (p.1.sizeMb p.2 + 1 / 1000000)
  density a < density b ∨ density a = density b ∧ a.1.createdAt ≤ b.1.createdAt

instance : DecidableRel (evictsBefore cfg) := fun _ _ => inferInstanceAs (Decidable (_ ∨ _))

/-- The rows of the eviction query: registered indexes in state `created` that the catalog
still has, in any schema. -/
def evictionRows (db : IndexDb) : List (RegistryRow × IndexRel) :=
  (db.registry.filterMap fun row =>
    if row.state = .created then
      (db.pgClass.find? fun r => r.oid = row.indexOid).map fun rel => (row, rel)
    else none).insertionSort (evictsBefore cfg)

/-- The first phase of an eviction: rows are taken while less than `needed` is freed. -/
def selectVictims (needed : ℚ) : ℚ → List (RegistryRow × IndexRel) → List EvictVictim
  | _, [] => []
  | freed, (row, rel) :: rows =>
    if freed < needed then
      ⟨row.indexOid, row.idxMb rel,
          cfg.indexUtility row.benefitScoreEwma row.touchScoreEwma⟩ ::
        selectVictims needed (freed + row.idxMb rel) rows
    else []

/-- The second phase: victims are dropped one after the other, until enough is freed or a
command fails. -/
def dropVictims (dropOk : ℕ → Bool) : ℚ → List EvictVictim → IndexDb → Bool × IndexDb
  | needed, [], db => (decide (needed ≤ 0), db)
  | needed, v :: vs, db =>
    if dropOk v.indexOid then
      let db' := (db.dropIndex v.indexOid).deleteRow v.indexOid
      if needed - v.sizeMb ≤ 0 then (true, db') else dropVictims dropOk (needed - v.sizeMb) vs db'
    else (false, db)

/-- `nrim_worker_evict_until_fits_total_utility`. -/
def evictUntilFits (dropOk : ℕ → Bool) (needed candidateUtility : ℚ) (db : IndexDb) :
    Bool × IndexDb :=
  if needed ≤ 0 then (true, db)
  else
    let victims := selectVictims cfg needed 0 (evictionRows cfg db)
    if (victims.map EvictVictim.sizeMb).sum < needed then (false, db)
    -- the candidate has to be worth more than all victims together
    else if candidateUtility ≤
        (victims.map EvictVictim.utility).sum * (1 + cfg.minValueImprovement) then (false, db)
    else dropVictims dropOk needed victims (db.markDropping (victims.map EvictVictim.indexOid))

end Evict

/-! ### Work items and calls -/

/-- The answer to a `CREATE INDEX`. -/
inductive CreateAnswer where
  /-- The index is there, with this oid and size. -/
  | created (oid size : ℕ)
  /-- The command failed. With `CONCURRENTLY` it may leave an invalid index behind. -/
  | failed (leftover : Option (ℕ × ℕ))
  deriving DecidableEq, Repr

/-- A work item whose best candidate is chosen, and the answers of the commands it gives. -/
structure WorkItem where
  /-- The schema of `best_relid`, if its name and the table's resolve. -/
  nspname : Option String
  idxname : String
  bestSizeMb : ℚ
  bestBenefit : ℚ
  queryFreqEwma : ℚ
  /-- `nrim_worker_index_exists`. -/
  indexExists : Bool
  colsOk : Bool
  now : ℕ
  /-- Answers of the `DROP INDEX` commands before the creation. -/
  dropOk : ℕ → Bool
  create : CreateAnswer
  /-- Answers of the `DROP INDEX` commands after the creation. -/
  enforceDropOk : ℕ → Bool
  /-- Answer of the `DROP INDEX` of the new index. -/
  dropNewOk : Bool

inductive QueueStatus where
  | done
  | error
  deriving DecidableEq, Repr

/-- The update of the work item's row in `nrim.nrim_work_queue`. The outer `none` leaves
`last_error` as it is. -/
structure QueueUpdate where
  status : QueueStatus
  lastError : Option (Option String)
  deriving DecidableEq, Repr

section Process

variable (cfg : Settings)

def WorkItem.candidateUtility (w : WorkItem) : ℚ :=
  cfg.indexUtility (w.bestBenefit * w.queryFreqEwma) 0

/-- The budget check before the creation, against the estimated size. -/
def makeRoom (w : WorkItem) (db : IndexDb) : Bool × IndexDb :=
  let needed := (db.currentIndexStorageMb + w.bestSizeMb) - cfg.budgetMb
  if 0 < needed then evictUntilFits cfg w.dropOk needed (w.candidateUtility cfg) db
  else (true, db)

/-- The enforcement after the creation, against the real sizes. The new index is dropped if
the eviction fails; the answer of that command is ignored. -/
def enforceBudget (w : WorkItem) (indexOid : ℕ) (db : IndexDb) : QueueUpdate × IndexDb :=
  let needed := db.currentIndexStorageMb - cfg.budgetMb
  if 0 < needed then
    match evictUntilFits cfg w.enforceDropOk needed (w.candidateUtility cfg) db with
    | (true, db') => (⟨.done, none⟩, db')
    | (false, db') =>
      (⟨.done, some (some "budget exceeded after creation; dropped newly created index")⟩,
        (if w.dropNewOk then db'.dropIndex indexOid else db').deleteRow indexOid)
  else (⟨.done, none⟩, db)

/-- The command itself and what follows it. `nrim_worker_update_attribution`, which refreshes the
scores of the new index, is left out; `processOneWorkItem_le` is for a registry with any scores.
`none`: not an answer this database can give. -/
def runCreate (w : WorkItem) (nspname : String) (db : IndexDb) : Option (QueueUpdate × IndexDb) :=
  match w.create with
  | .failed none => some (⟨.error, some (some "CREATE INDEX failed")⟩, db)
  | .failed (some (oid, size)) =>
    if cfg.useConcurrently then
      (db.createIndex ⟨oid, nspname, w.idxname, size⟩).map fun db' =>
        (⟨.error, some (some "CREATE INDEX failed")⟩, db')
    else none
  | .created oid size =>
    (db.createIndex ⟨oid, nspname, w.idxname, size⟩).map fun db' =>
      match db'.getRelnameRelid w.idxname nspname with
      | some indexOid =>
        enforceBudget cfg w indexOid
          (db'.ensureRegistryForIndex ⟨indexOid, nspname, w.idxname, size⟩ w.bestBenefit w.now)
      | none => (⟨.done, none⟩, db')

/-- `nrim_process_one_work_item`, from the choice of the best candidate on. -/
def processOneWorkItem (w : WorkItem) (db : IndexDb) : Option (QueueUpdate × IndexDb) :=
  if cfg.enableAutoIndexCreation then
    match makeRoom cfg w db with
    | (false, db') =>
      some (⟨.done, some (some "budget exceeded and eviction not beneficial/insufficient")⟩, db')
    | (true, db') =>
      match w.nspname with
      | none => some (⟨.error, some (some "could not resolve relation name")⟩, db')
      | some nspname =>
        if w.indexExists then some (⟨.done, some none⟩, db')
        else if w.colsOk then runCreate cfg w nspname db'
        else some (⟨.error, some (some "could not resolve column name")⟩, db')
  else
    some (⟨.done, some (some ("auto-creation disabled in worker session (set via ALTER SYSTEM " ++
      "SET nr_enable_auto_index_creation=on; SELECT pg_reload_conf())"))⟩, db)

/-- A call of `nr_create_index_if_budget_allows`. -/
structure CreateCall where
  indexName : String
  /-- The schema the table name resolves to. -/
  nspname : String
  /-- The array of column names has one dimension and no nulls. -/
  columnsOk : Bool
  /-- Oid and size of the new index; `none` for a command that fails. -/
  create : Option (ℕ × ℕ)

/-- `nr_create_index_if_budget_allows`: the returned Boolean, `none` for an error, and the
database after the call. The outer `none`: not an answer this database can give. -/
def createIndexIfBudgetAllows (c : CreateCall) (db : IndexDb) : Option (Option Bool × IndexDb) :=
  if !cfg.enableAutoIndexCreation then some (some false, db)
  else if db.pgClass.any (fun r => r.relname = c.indexName) then some (some false, db)
  else if cfg.budgetMb ≤ db.currentIndexStorageMb then some (some false, db)
  else if !c.columnsOk then some (none, db)
  else
    match c.create with
    | none => some (none, db)
    | some (oid, size) =>
      (db.createIndex ⟨oid, c.nspname, c.indexName, size⟩).map fun db' => (some true, db')

/-- What changes the indexes. -/
inductive BudgetLabel where
  | processOneWorkItem (w : WorkItem)
  | createIndexIfBudgetAllows (c : CreateCall)

def budgetStep (db : IndexDb) : BudgetLabel → Option IndexDb
  | .processOneWorkItem w => (processOneWorkItem cfg w db).map Prod.snd
  | .createIndexIfBudgetAllows c => (createIndexIfBudgetAllows cfg c db).map Prod.snd

/-- Work items and calls, from any database. -/
def budgetSystem : System IndexDb BudgetLabel := .ofFun (fun _ => True) (budgetStep cfg)

end Process

/-! ### What an eviction leaves -/

/-- Indexes are only dropped, and registry rows in state `created` are old ones. -/
structure IndexDb.Shrinks (db db' : IndexDb) : Prop where
  pgClass : db'.pgClass.Sublist db.pgClass
  registry : ∀ row ∈ db'.registry, row.state = .created → row ∈ db.registry

namespace IndexDb

theorem Shrinks.refl (db : IndexDb) : db.Shrinks db := ⟨.refl _, fun _ h _ => h⟩

theorem Shrinks.trans {db₁ db₂ db₃ : IndexDb} (h₁ : db₁.Shrinks db₂) (h₂ : db₂.Shrinks db₃) :
    db₁.Shrinks db₃ where
  pgClass := h₂.pgClass.trans h₁.pgClass
  registry row hrow hcreated := h₁.registry row (h₂.registry row hrow hcreated) hcreated

theorem shrinks_dropIndex (db : IndexDb) (oid : ℕ) : db.Shrinks (db.dropIndex oid) :=
  ⟨filter_sublist, fun _ h _ => h⟩

theorem shrinks_deleteRow (db : IndexDb) (oid : ℕ) : db.Shrinks (db.deleteRow oid) :=
  ⟨.refl _, fun _ h _ => mem_of_mem_filter h⟩

theorem shrinks_markDropping (db : IndexDb) (oids : List ℕ) :
    db.Shrinks (db.markDropping oids) := by
  refine ⟨.refl _, ?_⟩
  intro row hrow hcreated
  obtain ⟨row₀, hrow₀, rfl⟩ := mem_map.mp hrow
  split at hcreated
  · cases hcreated
  · next h => rwa [if_neg h]

theorem Shrinks.currentIndexStorageMb_le {db db' : IndexDb} (h : db.Shrinks db') :
    db'.currentIndexStorageMb ≤ db.currentIndexStorageMb := by
  apply mb_le_mb
  have hsub := (h.pgClass.filter fun r => decide (r.relnamespace = publicSchema)).map
    IndexRel.relationSize
  exact_mod_cast hsub.sum_le_sum fun _ _ => Nat.zero_le _

end IndexDb

theorem sum_filter_add_le {l : List IndexRel} {rel : IndexRel} (h : rel ∈ l)
    (hrel : rel.relnamespace = publicSchema) :
    (((l.filter fun r => r.oid ≠ rel.oid).filter fun r => r.relnamespace = publicSchema).map
      IndexRel.relationSize).sum + rel.relationSize ≤
    ((l.filter fun r => r.relnamespace = publicSchema).map IndexRel.relationSize).sum := by
  induction l with
  | nil => cases h
  | cons r l ih =>
    have hrest : (((l.filter fun r => r.oid ≠ rel.oid).filter
        fun r => r.relnamespace = publicSchema).map IndexRel.relationSize).sum ≤
        ((l.filter fun r => r.relnamespace = publicSchema).map IndexRel.relationSize).sum :=
      ((filter_sublist.filter _).map _).sum_le_sum fun _ _ => Nat.zero_le _
    rcases mem_cons.mp h with rfl | hmem
    · -- the dropped index is the first one: the filter drops at least this one
      simp only [filter_cons, ne_eq, not_true_eq_false, decide_false, hrel, decide_true,
        if_true, map_cons, sum_cons, Bool.false_eq_true, if_false] at hrest ⊢
      omega
    · have := ih hmem
      simp only [filter_cons]
      split_ifs <;> simp_all <;> omega

theorem IndexDb.currentIndexStorageMb_dropIndex {db : IndexDb} {rel : IndexRel}
    (h : rel ∈ db.pgClass) (hrel : rel.relnamespace = publicSchema) :
    (db.dropIndex rel.oid).currentIndexStorageMb + mb rel.relationSize ≤
      db.currentIndexStorageMb := by
  unfold IndexDb.currentIndexStorageMb
  rw [← mb_add]
  apply mb_le_mb
  exact_mod_cast sum_filter_add_le h hrel

section Evict

variable {cfg : Settings} {dropOk : ℕ → Bool}

theorem shrinks_dropVictims (needed : ℚ) (vs : List EvictVictim) (db : IndexDb) :
    db.Shrinks (dropVictims dropOk needed vs db).2 := by
  induction vs generalizing needed db with
  | nil => exact .refl db
  | cons v vs ih =>
    have hdrop : db.Shrinks ((db.dropIndex v.indexOid).deleteRow v.indexOid) :=
      (db.shrinks_dropIndex _).trans (IndexDb.shrinks_deleteRow _ _)
    unfold dropVictims
    split
    · dsimp only
      split
      · exact hdrop
      · exact hdrop.trans (ih _ _)
    · exact .refl db

theorem shrinks_evictUntilFits (needed candidateUtility : ℚ) (db : IndexDb) :
    db.Shrinks (evictUntilFits cfg dropOk needed candidateUtility db).2 := by
  unfold evictUntilFits
  split
  · exact .refl db
  · dsimp only
    split
    · exact .refl db
    · split
      · exact .refl db
      · exact (db.shrinks_markDropping _).trans (shrinks_dropVictims _ _ _)

/-- A victim is backed by the catalog: it stands for an index of the public schema that is at
least as large as the size the eviction counts for it. -/
def EvictVictim.Backed (v : EvictVictim) (db : IndexDb) : Prop :=
  ∃ rel ∈ db.pgClass, rel.oid = v.indexOid ∧ rel.relnamespace = publicSchema ∧
    v.sizeMb ≤ mb rel.relationSize

variable {db : IndexDb} {v : EvictVictim}

theorem EvictVictim.Backed.dropIndex {oid : ℕ} (h : v.Backed db) (hne : v.indexOid ≠ oid) :
    v.Backed ((db.dropIndex oid).deleteRow oid) := by
  obtain ⟨rel, hmem, hoid, hrest⟩ := h
  refine ⟨rel, mem_filter.mpr ⟨hmem, ?_⟩, hoid, hrest⟩
  simpa [hoid] using hne

variable {needed : ℚ}

/-- If all victims are backed, a successful eviction frees what was needed. -/
theorem currentIndexStorageMb_dropVictims {vs : List EvictVictim} (hvs : ∀ v ∈ vs, v.Backed db)
    (hnodup : (vs.map EvictVictim.indexOid).Nodup)
    (hok : (dropVictims dropOk needed vs db).1 = true) :
    (dropVictims dropOk needed vs db).2.currentIndexStorageMb ≤
      db.currentIndexStorageMb - needed := by
  induction vs generalizing needed db with
  | nil =>
    have hneeded : needed ≤ 0 := of_decide_eq_true hok
    change db.currentIndexStorageMb ≤ _
    linarith
  | cons v vs ih =>
    rw [map_cons, nodup_cons] at hnodup
    obtain ⟨rel, hmem, hoid, hpub, hsize⟩ := hvs v mem_cons_self
    -- this drop frees at least what is subtracted from `needed`
    have hfreed := IndexDb.currentIndexStorageMb_dropIndex hmem hpub
    rw [hoid] at hfreed
    unfold dropVictims at hok ⊢
    split at hok
    · next hdrop =>
      rw [if_pos hdrop]
      split at hok
      · next hdone =>
        rw [if_pos hdone]
        change (db.dropIndex v.indexOid).currentIndexStorageMb ≤ _
        linarith
      · next hmore =>
        rw [if_neg hmore]
        -- the other victims are other indexes, so they are still there
        have hvs' : ∀ u ∈ vs, u.Backed ((db.dropIndex v.indexOid).deleteRow v.indexOid) := by
          intro u hu
          apply (hvs u (mem_cons_of_mem _ hu)).dropIndex
          rintro heq
          exact hnodup.1 (heq ▸ mem_map_of_mem hu)
        have hrest := ih hvs' hnodup.2 hok
        change _ ≤ (db.dropIndex v.indexOid).currentIndexStorageMb - _ at hrest
        linarith
    · cases hok

/-- The registry does not promise more than dropping the index frees. -/
def RecordedWithin (registry : List RegistryRow) (rel : IndexRel) : Prop :=
  ∀ row ∈ registry, row.state = .created → row.indexOid = rel.oid →
    rel.relnamespace = publicSchema ∧ row.idxMb rel ≤ mb rel.relationSize

instance (registry : List RegistryRow) (rel : IndexRel) :
    Decidable (RecordedWithin registry rel) :=
  inferInstanceAs (Decidable (∀ row ∈ registry, _))

theorem of_mem_evictionRows {p : RegistryRow × IndexRel} (h : p ∈ evictionRows cfg db) :
    p.1 ∈ db.registry ∧ p.1.state = .created ∧ p.2 ∈ db.pgClass ∧ p.2.oid = p.1.indexOid := by
  unfold evictionRows at h
  rw [mem_insertionSort] at h
  obtain ⟨row, hrow, hp⟩ := mem_filterMap.mp h
  split at hp
  · next hcreated =>
    obtain ⟨rel, hfind, rfl⟩ := Option.map_eq_some_iff.mp hp
    exact ⟨hrow, hcreated, mem_of_find?_eq_some hfind, by simpa using find?_some hfind⟩
  · cases hp

theorem nodup_evictionRows (cfg : Settings) (db : IndexDb) :
    ((evictionRows cfg db).map fun p => p.1.indexOid).Nodup := by
  have hperm := (perm_insertionSort (evictsBefore cfg) (db.registry.filterMap fun row =>
    if row.state = .created then
      (db.pgClass.find? fun r => r.oid = row.indexOid).map fun rel => (row, rel)
    else none)).map fun p : RegistryRow × IndexRel => p.1.indexOid
  refine hperm.nodup_iff.mpr (db.indexOid_nodup.sublist ?_)
  -- each row of the join stands for one row of the registry, in the same order
  generalize db.registry = rows
  induction rows with
  | nil => simp
  | cons row rows ih =>
    rw [filterMap_cons]
    split
    · exact ih.cons _
    · next p hp =>
      split at hp
      · obtain ⟨rel, -, rfl⟩ := Option.map_eq_some_iff.mp hp
        exact ih.cons_cons _
      · cases hp

/-- The victims are the first rows of the query. -/
theorem exists_selectVictims (needed freed : ℚ) (rows : List (RegistryRow × IndexRel)) :
    ∃ taken, taken <+: rows ∧ selectVictims cfg needed freed rows = taken.map fun p =>
      ⟨p.1.indexOid, p.1.idxMb p.2,
        cfg.indexUtility p.1.benefitScoreEwma p.1.touchScoreEwma⟩ := by
  induction rows generalizing freed with
  | nil => exact ⟨[], prefix_rfl, rfl⟩
  | cons p rows ih =>
    unfold selectVictims
    split
    · obtain ⟨taken, htaken, heq⟩ := ih (freed + p.1.idxMb p.2)
      exact ⟨p :: taken, (prefix_cons_inj p).mpr htaken, by rw [heq, map_cons]⟩
    · exact ⟨[], nil_prefix, rfl⟩

/-- An eviction that reports success, over a registry that promises no more than there is,
frees what was needed. -/
theorem currentIndexStorageMb_evictUntilFits {candidateUtility : ℚ}
    (hrec : ∀ rel ∈ db.pgClass, RecordedWithin db.registry rel)
    (hok : (evictUntilFits cfg dropOk needed candidateUtility db).1 = true) :
    (evictUntilFits cfg dropOk needed candidateUtility db).2.currentIndexStorageMb ≤
      db.currentIndexStorageMb - needed := by
  unfold evictUntilFits at hok ⊢
  dsimp only at hok ⊢
  split_ifs at hok ⊢ with hneeded hfreed hgate
  · change db.currentIndexStorageMb ≤ _
    linarith
  · obtain ⟨taken, htaken, heq⟩ := @exists_selectVictims cfg needed 0 (evictionRows cfg db)
    refine currentIndexStorageMb_dropVictims ?_ ?_ hok
    · rw [heq]
      intro v hv
      obtain ⟨p, hp, rfl⟩ := mem_map.mp hv
      obtain ⟨hrow, hcreated, hrel, hoid⟩ := of_mem_evictionRows (htaken.subset hp)
      obtain ⟨hpub, hle⟩ := hrec p.2 hrel p.1 hrow hcreated hoid.symm
      exact ⟨p.2, hrel, hoid, hpub, hle⟩
    · rw [heq, map_map]
      exact (nodup_evictionRows cfg db).sublist (htaken.sublist.map _)

end Evict

/-! ### Creation -/

namespace IndexDb

variable {db db' : IndexDb} {rel : IndexRel}

section

variable (h : db.createIndex rel = some db')

include h

theorem of_createIndex :
    db'.pgClass = db.pgClass ++ [rel] ∧ db'.registry = db.registry ∧
      db.getRelnameRelid rel.relname rel.relnamespace = none := by
  unfold createIndex at h
  split at h
  · next hnew =>
    cases h
    exact ⟨rfl, rfl, hnew.2⟩
  · cases h

theorem getRelnameRelid_of_createIndex :
    db'.getRelnameRelid rel.relname rel.relnamespace = some rel.oid := by
  obtain ⟨hclass, -, hnone⟩ := of_createIndex h
  unfold getRelnameRelid at hnone ⊢
  rw [hclass, find?_append, Option.map_eq_none_iff.mp hnone]
  simp

theorem currentIndexStorageMb_of_createIndex :
    db'.currentIndexStorageMb = db.currentIndexStorageMb +
      if rel.relnamespace = publicSchema then mb rel.relationSize else 0 := by
  obtain ⟨hclass, -, -⟩ := of_createIndex h
  unfold currentIndexStorageMb
  rw [hclass, filter_append]
  split
  · next hpub => simp [hpub, mb_add]
  · next hpub => simp [hpub]

end

@[simp]
theorem pgClass_ensureRegistryForIndex (db : IndexDb) (rel : IndexRel) (b : ℚ) (now : ℕ) :
    (db.ensureRegistryForIndex rel b now).pgClass = db.pgClass := by
  unfold ensureRegistryForIndex
  split <;> rfl

@[simp]
theorem currentIndexStorageMb_ensureRegistryForIndex (db : IndexDb) (rel : IndexRel) (b : ℚ)
    (now : ℕ) :
    (db.ensureRegistryForIndex rel b now).currentIndexStorageMb = db.currentIndexStorageMb := by
  unfold currentIndexStorageMb
  rw [pgClass_ensureRegistryForIndex]

/-- The row of a new index records its real size. A row that is there keeps its size. -/
theorem recordedWithin_ensureRegistryForIndex {new : IndexRel} {b : ℚ} {now : ℕ}
    (hrec : RecordedWithin db.registry rel) (hnew : rel.oid = new.oid → rel = new)
    (hpub : new.relnamespace = publicSchema) (hpos : 0 < new.relationSize) :
    RecordedWithin (db.ensureRegistryForIndex new b now).registry rel := by
  intro row hrow hcreated hoid
  unfold ensureRegistryForIndex at hrow
  split at hrow
  · obtain ⟨row₀, hrow₀, rfl⟩ := mem_map.mp hrow
    split at hcreated
    · next heq =>
      rw [if_pos heq] at hoid ⊢
      exact hrec row₀ hrow₀ hcreated hoid
    · next hne =>
      rw [if_neg hne] at hoid ⊢
      exact hrec row₀ hrow₀ hcreated hoid
  · rcases mem_append_singleton.mp hrow with hold | rfl
    · exact hrec row hold hcreated hoid
    · obtain rfl := hnew hoid.symm
      refine ⟨hpub, ?_⟩
      have hsize : 0 < mb (rel.relationSize : ℤ) := mb_pos.mpr (by exact_mod_cast hpos)
      unfold RegistryRow.idxMb RegistryRow.sizeMb
      rw [Option.getD_some, if_neg (not_le.mpr hsize)]

end IndexDb

/-! ### The budget over whole runs -/

section Budget

variable {cfg : Settings}

/-- When the answer to a creation in the public schema keeps the budget: the new index fits
into what is left, or can be dropped again while the registry promises no more than there is
to free. What a failed command leaves behind has to fit. -/
def CreateAnswer.Covered (cfg : Settings) (db : IndexDb) (idxname : String) (dropNewOk : Bool) :
    CreateAnswer → Prop
  | .failed none => True
  | .failed (some (_, size)) => db.currentIndexStorageMb + mb size ≤ cfg.budgetMb
  | .created oid size =>
    db.currentIndexStorageMb + mb size ≤ cfg.budgetMb ∨
      dropNewOk = true ∧
        ∀ rel ∈ ⟨oid, publicSchema, idxname, size⟩ :: db.pgClass, RecordedWithin db.registry rel

instance (db : IndexDb) (idxname : String) (dropNewOk : Bool) :
    DecidablePred (CreateAnswer.Covered cfg db idxname dropNewOk)
  | .failed none => .isTrue trivial
  | .failed (some (_, _)) => inferInstanceAs (Decidable (_ ≤ _))
  | .created _ _ => inferInstanceAs (Decidable (_ ∨ _))

/-- When a work item is sure to keep the budget. -/
def WorkItem.Covered (cfg : Settings) (db : IndexDb) (w : WorkItem) : Prop :=
  w.nspname = some publicSchema → w.create.Covered cfg db w.idxname w.dropNewOk

instance (db : IndexDb) (w : WorkItem) : Decidable (w.Covered cfg db) :=
  inferInstanceAs (Decidable (_ → _))

/-- When a call keeps the budget: an index it creates in the public schema fits into what is
left. -/
def CreateCall.Covered (cfg : Settings) (db : IndexDb) (c : CreateCall) : Prop :=
  cfg.enableAutoIndexCreation = true → (∀ r ∈ db.pgClass, r.relname ≠ c.indexName) →
    db.currentIndexStorageMb < cfg.budgetMb → c.columnsOk = true → c.nspname = publicSchema →
      ∀ p ∈ c.create, db.currentIndexStorageMb + mb p.2 ≤ cfg.budgetMb

instance (db : IndexDb) (c : CreateCall) : Decidable (c.Covered cfg db) :=
  inferInstanceAs (Decidable (_ → (∀ r ∈ db.pgClass, _) → _ → _ → _ → ∀ p ∈ c.create, _))

def BudgetLabel.Covered (cfg : Settings) (db : IndexDb) : BudgetLabel → Prop
  | .processOneWorkItem w => w.Covered cfg db
  | .createIndexIfBudgetAllows c => c.Covered cfg db

instance (db : IndexDb) : DecidablePred (BudgetLabel.Covered cfg db)
  | .processOneWorkItem w => inferInstanceAs (Decidable (w.Covered cfg db))
  | .createIndexIfBudgetAllows c => inferInstanceAs (Decidable (c.Covered cfg db))

theorem shrinks_makeRoom (w : WorkItem) (db : IndexDb) : db.Shrinks (makeRoom cfg w db).2 := by
  unfold makeRoom
  dsimp only
  split
  · exact shrinks_evictUntilFits _ _ _
  · exact .refl db

variable {db db₁ : IndexDb} {w : WorkItem} {r : QueueUpdate × IndexDb}

theorem shrinks_of_dropIndex {db₂ : IndexDb} {rel : IndexRel}
    (hclass : db₁.pgClass = db.pgClass ++ [rel]) (hsub : db₂.pgClass.Sublist db₁.pgClass) :
    (db₂.dropIndex rel.oid).currentIndexStorageMb ≤ db.currentIndexStorageMb := by
  have hfilter : (db₂.dropIndex rel.oid).pgClass.Sublist db.pgClass := by
    have h := hsub.filter fun r => decide (r.oid ≠ rel.oid)
    rw [hclass, filter_append] at h
    have hnil : [rel].filter (fun r => decide (r.oid ≠ rel.oid)) = [] := by simp
    rw [hnil, append_nil] at h
    exact h.trans filter_sublist
  apply mb_le_mb
  have hsum := (hfilter.filter fun r => decide (r.relnamespace = publicSchema)).map
    IndexRel.relationSize
  exact_mod_cast hsum.sum_le_sum fun _ _ => Nat.zero_le _

/-- The enforcement brings the total under the budget: either the eviction frees what is
needed, or the new index goes away and what is left is what was there before. -/
theorem enforceBudget_le (new : IndexRel) (hclass : db₁.pgClass = db.pgClass ++ [new])
    (hbefore : db.currentIndexStorageMb ≤ cfg.budgetMb)
    (hcov : db₁.currentIndexStorageMb ≤ cfg.budgetMb ∨
      w.dropNewOk = true ∧ ∀ rel ∈ db₁.pgClass, RecordedWithin db₁.registry rel) :
    (enforceBudget cfg w new.oid db₁).2.currentIndexStorageMb ≤ cfg.budgetMb := by
  unfold enforceBudget
  dsimp only
  split
  · next hover =>
    obtain hfits | ⟨hdropNew, hrec⟩ := hcov
    · exact absurd hfits (by linarith)
    · split
      · next db' heq =>
        have hspec := currentIndexStorageMb_evictUntilFits hrec (congrArg Prod.fst heq)
        rw [heq] at hspec
        linarith
      · next db' heq =>
        have hshrinks : db₁.Shrinks db' := by
          rw [show db' = (evictUntilFits cfg w.enforceDropOk _ _ db₁).2 from
            (congrArg Prod.snd heq).symm]
          exact shrinks_evictUntilFits _ _ _
        rw [hdropNew, if_pos rfl]
        change (db'.dropIndex new.oid).currentIndexStorageMb ≤ _
        exact (shrinks_of_dropIndex hclass hshrinks.pgClass).trans hbefore
  · next hfits => exact not_lt.mp (by linarith)

theorem runCreate_le {nspname : String}
    (hnsp : w.nspname = some nspname) (hcov : w.Covered cfg db) (hshrinks : db.Shrinks db₁)
    (hbefore : db.currentIndexStorageMb ≤ cfg.budgetMb) (h : runCreate cfg w nspname db₁ = some r) :
    r.2.currentIndexStorageMb ≤ cfg.budgetMb := by
  have hle₁ := hshrinks.currentIndexStorageMb_le
  unfold runCreate at h
  unfold WorkItem.Covered at hcov
  split at h
  · cases h
    exact hle₁.trans hbefore
  · next oid size hcreate =>
    -- what a failed command leaves behind
    split at h
    · obtain ⟨db₂, hdb₂, rfl⟩ := Option.map_eq_some_iff.mp h
      have hsum := IndexDb.currentIndexStorageMb_of_createIndex hdb₂
      split at hsum
      · next hpub =>
        rw [hcreate] at hcov
        have hfits : db.currentIndexStorageMb + mb size ≤ cfg.budgetMb :=
          hcov (hnsp.trans (congrArg some hpub))
        linarith
      · linarith
    · cases h
  · next oid size hcreate =>
    obtain ⟨db₂, hdb₂, rfl⟩ := Option.map_eq_some_iff.mp h
    have hlookup := IndexDb.getRelnameRelid_of_createIndex hdb₂
    have hsum := IndexDb.currentIndexStorageMb_of_createIndex hdb₂
    obtain ⟨hclass, hregistry, -⟩ := IndexDb.of_createIndex hdb₂
    rw [hlookup]
    refine enforceBudget_le ⟨oid, nspname, w.idxname, size⟩ ?_ (hle₁.trans hbefore) ?_
    · rw [IndexDb.pgClass_ensureRegistryForIndex, hclass]
    rw [IndexDb.currentIndexStorageMb_ensureRegistryForIndex,
      IndexDb.pgClass_ensureRegistryForIndex]
    -- an index of another schema or of no size changes nothing
    by_cases hpub : nspname = publicSchema
    swap
    · rw [if_neg hpub, add_zero] at hsum
      exact .inl (hsum ▸ hle₁.trans hbefore)
    by_cases hpos : 0 < size
    swap
    · obtain rfl : size = 0 := by omega
      simp only [hpub, if_true, Nat.cast_zero, mb, Int.cast_zero, zero_div, add_zero] at hsum
      exact .inl (hsum ▸ hle₁.trans hbefore)
    subst hpub
    have hcov' := hcov hnsp
    rw [hcreate] at hcov'
    obtain hfits | ⟨hdropNew, hrec⟩ := hcov'
    · rw [if_pos rfl] at hsum
      exact .inl (by linarith)
    · refine .inr ⟨hdropNew, ?_⟩
      intro rel hrel
      have hmem := hrel
      rw [hclass, mem_append_singleton] at hmem
      have hold : RecordedWithin db₂.registry rel := by
        rw [hregistry]
        intro row hrow hcreated
        refine hrec rel ?_ row (hshrinks.registry row hrow hcreated) hcreated
        rcases hmem with hmem | rfl
        · exact mem_cons_of_mem _ (hshrinks.pgClass.subset hmem)
        · exact mem_cons_self
      apply IndexDb.recordedWithin_ensureRegistryForIndex hold _ rfl hpos
      intro hoid
      have hnew : (⟨oid, publicSchema, w.idxname, size⟩ : IndexRel) ∈ db₂.pgClass := by
        rw [hclass]
        exact mem_append_right _ (mem_singleton_self _)
      exact inj_on_of_nodup_map db₂.oid_nodup hrel hnew hoid

theorem processOneWorkItem_le (hcov : w.Covered cfg db)
    (hbefore : db.currentIndexStorageMb ≤ cfg.budgetMb) (h : processOneWorkItem cfg w db = some r) :
    r.2.currentIndexStorageMb ≤ cfg.budgetMb := by
  have hshrinks : db.Shrinks (makeRoom cfg w db).2 := shrinks_makeRoom w db
  have hle := hshrinks.currentIndexStorageMb_le.trans hbefore
  unfold processOneWorkItem at h
  split at h
  swap
  · cases h
    exact hbefore
  split at h
  · -- not enough room was made: some victims may be gone, nothing is new
    next db₁ heq =>
    rw [heq] at hle
    cases h
    exact hle
  · next db₁ heq =>
    rw [heq] at hshrinks hle
    split at h
    · cases h
      exact hle
    · next nspname hnsp =>
      split_ifs at h
      · cases h
        exact hle
      · exact runCreate_le hnsp hcov hshrinks hbefore h
      · cases h
        exact hle

theorem createIndexIfBudgetAllows_le_iff {c : CreateCall} {r : Option Bool × IndexDb}
    (hbefore : db.currentIndexStorageMb ≤ cfg.budgetMb)
    (h : createIndexIfBudgetAllows cfg c db = some r) :
    r.2.currentIndexStorageMb ≤ cfg.budgetMb ↔ c.Covered cfg db := by
  unfold createIndexIfBudgetAllows at h
  unfold CreateCall.Covered
  -- every refusal leaves the database as it is, and is one of the premises of `Covered`
  split_ifs at h with hauto hname hfull hcols
  · cases h
    simp only [Bool.not_eq_true'] at hauto
    simp [hauto, hbefore]
  · cases h
    obtain ⟨rel, hrel, heq⟩ := any_eq_true.mp hname
    refine ⟨fun _ _ hnone => absurd (of_decide_eq_true heq) (hnone rel hrel), fun _ => hbefore⟩
  · cases h
    exact ⟨fun _ _ _ hlt => absurd hfull (not_le.mpr hlt), fun _ => hbefore⟩
  · cases h
    simp only [Bool.not_eq_true'] at hcols
    simp [hcols, hbefore]
  · have hnone : ∀ rel ∈ db.pgClass, rel.relname ≠ c.indexName := by
      simpa using hname
    have hauto' : cfg.enableAutoIndexCreation = true := by simpa using hauto
    have hcols' : c.columnsOk = true := by simpa using hcols
    split at h
    · next hcreate =>
      cases h
      simp [hcreate, hbefore]
    · next oid size hcreate =>
      obtain ⟨db', hdb', rfl⟩ := Option.map_eq_some_iff.mp h
      have hsum := IndexDb.currentIndexStorageMb_of_createIndex hdb'
      rw [hsum, hcreate]
      by_cases hpub : c.nspname = publicSchema
      · rw [if_pos hpub]
        constructor
        · rintro hfits - - - - - p ⟨⟩
          exact hfits
        · intro hcov
          exact hcov hauto' hnone (not_le.mp hfull) hcols' hpub (oid, size) rfl
      · simp [hpub, hbefore]

/-- **The budget.** Along every run whose work items and calls are covered, the indexes of the
public schema stay within the budget. For a call of `nr_create_index_if_budget_allows` the
condition is exact. -/
theorem storage_within_budget (cfg : Settings) :
    (∀ db₀ ls db, ((budgetSystem cfg).guard fun db l => l.Covered cfg db).Run db₀ ls db →
      db₀.currentIndexStorageMb ≤ cfg.budgetMb → db.currentIndexStorageMb ≤ cfg.budgetMb) ∧
    ∀ c db db', (budgetSystem cfg).step db (.createIndexIfBudgetAllows c) db' →
      db.currentIndexStorageMb ≤ cfg.budgetMb →
      (db'.currentIndexStorageMb ≤ cfg.budgetMb ↔ c.Covered cfg db) := by
  constructor
  · intro db₀ ls db hrun h₀
    refine hrun.invariant (I := fun db => db.currentIndexStorageMb ≤ cfg.budgetMb) h₀ ?_
    rintro db (w | c) db' hbefore ⟨hstep, hcov⟩
    · obtain ⟨r, hr, rfl⟩ := Option.map_eq_some_iff.mp hstep
      exact processOneWorkItem_le hcov hbefore hr
    · obtain ⟨r, hr, rfl⟩ := Option.map_eq_some_iff.mp hstep
      exact (createIndexIfBudgetAllows_le_iff hbefore hr).mpr hcov
  · intro c db db' hstep hbefore
    obtain ⟨r, hr, rfl⟩ := Option.map_eq_some_iff.mp hstep
    exact createIndexIfBudgetAllows_le_iff hbefore hr

end Budget

/-! ### Runs within and over the budget -/

namespace BudgetExample

/-- Megabytes as bytes. -/
def megabytes (n : ℕ) : ℕ := n * 1048576

/-- A budget of 100 MB. Scores stand for themselves in place of their logarithms. -/
def settings : Settings where
  enableAutoIndexCreation := true
  budgetMb := 100
  budget_pos := by norm_num
  minValueImprovement := 1 / 10
  useConcurrently := true
  indexUtility benefit touch := benefit + touch / 10

/-- One registered index of 60 MB. -/
def oneIndex (relnamespace : String) (recorded : ℕ) : IndexDb where
  pgClass := [⟨1, relnamespace, "idx_old", megabytes 60⟩]
  registry := [⟨1, .created, some (megabytes recorded), 1, 0, 0⟩]
  oid_nodup := by simp
  indexOid_nodup := by simp

/-- A 60 MB index of the public schema the registry does not know, and a registered index of
another schema. -/
def twoSchemas : IndexDb where
  pgClass := [⟨1, publicSchema, "idx_old", megabytes 60⟩, ⟨2, "other", "idx_other", megabytes 60⟩]
  registry := [⟨2, .created, some (megabytes 60), 1, 0, 0⟩]
  oid_nodup := by simp
  indexOid_nodup := by simp

/-- A work item for an index that is estimated at 10 MB. -/
def workItem (create : CreateAnswer) (bestBenefit : ℚ) (dropNewOk : Bool) : WorkItem where
  nspname := some publicSchema
  idxname := "idx_reactive_t_a"
  bestSizeMb := 10
  bestBenefit := bestBenefit
  queryFreqEwma := 1
  indexExists := false
  colsOk := true
  now := 1
  dropOk _ := true
  create := create
  enforceDropOk _ := true
  dropNewOk := dropNewOk

def createCall (size : ℕ) : CreateCall where
  indexName := "idx_b"
  nspname := publicSchema
  columnsOk := true
  create := some (9, megabytes size)

/-- The index turns out to have 50 MB: the old one is evicted. A call adds 20 MB. -/
def withinRun : List BudgetLabel :=
  [.processOneWorkItem (workItem (.created 7 (megabytes 50)) 5 true),
    .createIndexIfBudgetAllows (createCall 20)]

end BudgetExample

open BudgetExample in
theorem storage_within_budget_eviction_and_call :
    ∃ db, ((budgetSystem settings).guard fun db l => l.Covered settings db).Run
        (oneIndex publicSchema 60) withinRun db ∧
      db.currentIndexStorageMb = 70 ∧ db.currentIndexStorageMb ≤ settings.budgetMb :=
  System.exists_guard_run_of_exec (P := fun db => db.currentIndexStorageMb = 70) (by decide +kernel)
    fun _ hrun hsize =>
      ⟨hsize, (storage_within_budget settings).1 _ _ _ hrun (by decide +kernel)⟩

namespace BudgetExample

/-- A step that starts within the budget and ends over it. -/
def Overrun (db : IndexDb) (l : BudgetLabel) : Prop :=
  db.currentIndexStorageMb ≤ settings.budgetMb ∧
    ∃ db', (budgetSystem settings).step db l db' ∧ settings.budgetMb < db'.currentIndexStorageMb

theorem overrun_of_exec {db : IndexDb} {l : BudgetLabel}
    (hbefore : db.currentIndexStorageMb ≤ settings.budgetMb)
    (hafter : ((budgetStep settings db l).any fun db' =>
      decide (settings.budgetMb < db'.currentIndexStorageMb)) = true) : Overrun db l := by
  obtain ⟨db', hstep, hover⟩ := Option.any_eq_true _ _ |>.mp hafter
  exact ⟨hbefore, db', hstep, of_decide_eq_true hover⟩

end BudgetExample

open BudgetExample in
theorem budget_exceeded :
    -- a call creates an index of 60 MB where 40 MB are left
    Overrun (oneIndex publicSchema 60) (.createIndexIfBudgetAllows (createCall 60)) ∧
    -- an eviction counts the 60 MB it frees in another schema
    Overrun twoSchemas (.processOneWorkItem (workItem (.created 7 (megabytes 50)) 5 true)) ∧
    -- an eviction counts a recorded size of 90 MB for an index of 60 MB
    Overrun (oneIndex publicSchema 90)
      (.processOneWorkItem (workItem (.created 7 (megabytes 110)) 5 true)) ∧
    -- the drop of the new index fails
    Overrun (oneIndex publicSchema 60)
      (.processOneWorkItem (workItem (.created 7 (megabytes 50)) 0 false)) ∧
    -- a failed `CREATE INDEX CONCURRENTLY` leaves an invalid index
    Overrun (oneIndex publicSchema 60)
      (.processOneWorkItem (workItem (.failed (some (7, megabytes 50))) 5 true)) := by
  refine ⟨overrun_of_exec ?_ ?_, overrun_of_exec ?_ ?_, overrun_of_exec ?_ ?_,
    overrun_of_exec ?_ ?_, overrun_of_exec ?_ ?_⟩ <;> decide +kernel

end NeurDB.IndexManagement
