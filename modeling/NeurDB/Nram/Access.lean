import NeurDB.Nram.Policy
import NeurDB.Nram.PreCommit

/-!
# The storage engine as a system

All transactions of a server that run on NRAM tables, with the access callbacks of `nram.c`,
the executor hooks and the commit callback, their steps interleaved in any way.

A callback of `nram.c` is cut into the steps that other transactions can see:

1. the **call** looks at the transaction's own sets and decides which locks are needed
   (`enter`);
2. each **lock** request is granted, refused, or waited for. The callbacks do not look at the
   result: after a refusal they go on;
3. the access is **performed**: the store is read or written, the sets are extended, and a row
   may be handed to the executor (`perform`).

Inserts put their row into the store at once, marked private; updates only buffer. Next to the
state of the program the system keeps what the properties speak about and no step looks at,
apart from the assumption that generated tids are new: the keys generated, the rows installed
by commits, the rows handed out and the accesses made.
-/

namespace NeurDB.Nram

open Function List

/-! ### Locking a row -/

/-- A lock that is asked for: a tag and a mode. -/
abbrev LockRequest := LockTag × LockMode

/-- `nram_lock_for_scan`. -/
def nramLockForScan (relation : Oid) : List LockRequest := [(.relation relation, .accessShare)]

/-- `nram_lock_for_write`. -/
def nramLockForWrite (relation : Oid) (tid : ItemPointer) : List LockRequest :=
  [(.relation relation, .rowExclusive), (.tuple relation tid, .exclusive)]

/-- `nram_lock_for_read`. -/
def nramLockForRead (relation : Oid) (tid : ItemPointer) : List LockRequest :=
  [(.relation relation, .accessShare), (.tuple relation tid, .share)]

/-- The tuple tag of a row. -/
def tupleTag (key : NRAMKey) : LockTag := .tuple key.tableOid (nramEncodeTid key.tid)

/-! ### Calls -/

/-- The calls the executor makes. `nram_multi_insert` is one `insert` after the other. -/
inductive Call where
  | beginscan (scan : ℕ) (relation : Oid)
  | getnextslot (scan : ℕ)
  | indexFetchTuple (relation : Oid) (tid : ItemPointer)
  | fetchRowVersion (relation : Oid) (tid : ItemPointer)
  | insert (relation : Oid) (tid : ItemPointer) (fields : List NRAMValueField)
  | tupleUpdate (relation : Oid) (otid : ItemPointer) (fields : List NRAMValueField)

/-- An open scan: its table, and the rows from its cursor on. -/
structure ScanDesc where
  relation : Oid
  results : List (NRAMKey × NRAMValue)

/-- What a callback does once its locks are taken. -/
inductive Access where
  | beginscan (scan : ℕ) (relation : Oid)
  | endOfScan
  /-- Hand out a row from the transaction's own sets. -/
  | ownRow (key : NRAMKey) (value : NRAMValue)
  /-- Hand out a row a scan found, after reading it again if `reload`. -/
  | scanRow (key : NRAMKey) (value : NRAMValue) (reload : Bool)
  | indexFetchTuple (key : NRAMKey)
  | fetchRowVersion (key : NRAMKey)
  | insert (key : NRAMKey) (value : NRAMValue)
  | tupleUpdate (key : NRAMKey) (value : NRAMValue)

/-- The key an access writes. -/
def Access.writes : Access → List NRAMKey
  | .insert key _ => [key]
  | .tupleUpdate key _ => [key]
  | _ => []

/-- The row write an access makes if it raises no error. -/
def Access.rowWrites : Access → List RowWrite
  | .insert key value => [(key, value)]
  | .tupleUpdate key value => [(key, value)]
  | _ => []

/-- The row an access reads or writes, and whether it writes it. -/
def Access.touches : Access → List (NRAMKey × Bool)
  | .ownRow key _ | .scanRow key _ _ | .indexFetchTuple key | .fetchRowVersion key => [(key, false)]
  | .insert key _ | .tupleUpdate key _ => [(key, true)]
  | .beginscan _ _ | .endOfScan => []

/-- `nram_value_check_visibility`. -/
def nramValueCheckVisibility (tvalue : NRAMValue) (xact : NRAMXactState) : Bool :=
  tvalue.xactId = xact.xactId ∨ tvalue.isPrivate = false

/-- A row from the write set or else from the read set: `read_own_write || read_own_read`. -/
def readOwn (state : NRAMXactState) (key : NRAMKey) : Option NRAMValue :=
  (readOwnWrite state key).or (readOwnRead state key)

/-- What the loop of `nram_getnextslot` stops at. -/
inductive ScanHit where
  | own (key : NRAMKey) (value : NRAMValue)
  | stored (key : NRAMKey) (value : NRAMValue)

/-- The loop of `nram_getnextslot`: the first row that is the transaction's own or visible, and
the rows behind it. -/
def nextRow (state : NRAMXactState) :
    List (NRAMKey × NRAMValue) → Option (ScanHit × List (NRAMKey × NRAMValue))
  | [] => none
  | (tkey, tvalue) :: rest =>
    match readOwn state tkey with
    | some own => some (.own tkey own, rest)
    | none =>
      if nramValueCheckVisibility tvalue state then some (.stored tkey tvalue, rest)
      -- skip this version
      else nextRow state rest

/-- The locks of an index fetch or a row-version fetch, by the kind of command. -/
def fetchLocks (state : NRAMXactState) (relation : Oid) (tid : ItemPointer) : List LockRequest :=
  if state.forModify then nramLockForWrite relation tid
  else if state.forRead then nramLockForRead relation tid
  else []

/-- The open scans of a transaction. -/
abbrev Scans := ℕ → Option ScanDesc

/-- The first part of a callback: the scans with their cursors moved, the locks that are needed
and what to do once they are taken. -/
def enter (detectAll : Bool) (state : NRAMXactState) (scans : Scans) :
    Call → Option (Scans × List LockRequest × Access)
  | .beginscan scan relation =>
    some (scans, if state.forRead && detectAll then nramLockForScan relation else [],
      .beginscan scan relation)
  | .getnextslot scan =>
    (scans scan).map fun desc =>
      match nextRow state desc.results with
      | none => (update scans scan (some { desc with results := [] }), [], .endOfScan)
      | some (.own key value, rest) =>
        (update scans scan (some { desc with results := rest }), [], .ownRow key value)
      | some (.stored key value, rest) =>
        (update scans scan (some { desc with results := rest }),
          -- the tag is made of the scanned table and the tid of the row
          if detectAll then nramLockForRead desc.relation (nramEncodeTid key.tid) else [],
          .scanRow key value detectAll)
  | .indexFetchTuple relation tid =>
    let key := nramKeyFromTid relation tid
    match readOwn state key with
    | some value => some (scans, [], .ownRow key value)
    | none =>
      some (scans, if detectAll then fetchLocks state relation tid else [], .indexFetchTuple key)
  | .fetchRowVersion relation tid =>
    some (scans, if detectAll then fetchLocks state relation tid else [],
      .fetchRowVersion (nramKeyFromTid relation tid))
  | .insert relation tid fields =>
    some (scans, if detectAll then nramLockForWrite relation tid else [],
      .insert (nramKeyFromTid relation tid) ⟨state.xactId, 0, fields⟩)
  | .tupleUpdate relation otid fields =>
    let key := nramKeyFromTid relation otid
    -- the code raises an error for an invalid item pointer
    if otid.isValid then
      some (scans,
        if (readOwnWrite state key).isNone && detectAll then nramLockForWrite relation otid
        else [],
        .tupleUpdate key ⟨state.xactId, 0, fields⟩)
    else none

/-- The second part of a callback: the store, and the state, the scans and the row handed out,
unless an error is raised. -/
def perform (reply : PutReply) (state : NRAMXactState) (scans : Scans) (db : RocksDB NRAMValue) :
    Access → RocksDB NRAMValue × Option (NRAMXactState × Scans × Option (NRAMKey × NRAMValue))
  | .beginscan scan relation =>
    match nramBeginscanRange db relation with
    | .ok results =>
      (db, some (state, update scans scan (some ⟨relation, results⟩), none))
    | .error _ => (db, none)
  | .endOfScan => (db, some (state, scans, none))
  | .ownRow key value => (db, some (state, scans, some (key, value)))
  | .scanRow key value reload =>
    match if reload then rocksengineGet db key else some value with
    | none => (db, none)
    | some tvalue =>
      -- no visibility check after the reload
      (db, some (if state.forRead then addReadSet state key tvalue else state, scans,
        some (key, tvalue)))
  | .indexFetchTuple key =>
    match rocksengineGet db key with
    | none => (db, some (state, scans, none))
    | some tvalue =>
      if nramValueCheckVisibility tvalue state then
        (db, some (if state.forRead then addReadSet state key tvalue else state, scans,
          some (key, tvalue)))
      else (db, some (state, scans, none))
  | .fetchRowVersion key =>
    match readOwn state key with
    | some own => (db, some (state, scans, some (key, own)))
    | none =>
      match rocksengineGet db key with
      | none => (db, some (state, scans, none))
      | some tvalue =>
        if nramValueCheckVisibility tvalue state then
          (db, some (addReadSet state key tvalue, scans, some (key, tvalue)))
        else (db, some (state, scans, none))
  | .insert key value =>
    match rocksClientPut db key { value with flags := value.flags ||| nramfPrivate } reply with
    | (db', .ok true) => (db', some (addWriteSet state key value, scans, none))
    | (db', _) => (db', none)
  | .tupleUpdate key value => (db, some (addWriteSet state key value, scans, none))

/-! ### What the two parts can do -/

variable {access : Access} {state state' : NRAMXactState} {scans' : Scans}
  {db db' : RocksDB NRAMValue} {row : Option (NRAMKey × NRAMValue)} {k : NRAMKey}
  {todo : List LockRequest} {detectAll : Bool}

/-- The loop of `nram_getnextslot` stops at a row of the transaction's own sets, or at a visible
row that is in neither of them; what is left of the scan was there before. -/
theorem nextRow_spec {rows rest : List (NRAMKey × NRAMValue)} {hit : ScanHit}
    (h : nextRow state rows = some (hit, rest)) :
    (∀ e ∈ rest, e ∈ rows) ∧
      ((∃ k v, hit = .own k v ∧ readOwn state k = some v) ∨
        ∃ k v, hit = .stored k v ∧ (k, v) ∈ rows ∧ readOwn state k = none ∧
          nramValueCheckVisibility v state = true) := by
  induction rows with
  | nil => cases h
  | cons e rows ih =>
    obtain ⟨k, v⟩ := e
    simp only [nextRow] at h
    split at h
    · next own hown =>
      cases h
      exact ⟨fun e he => mem_cons_of_mem _ he, .inl ⟨k, own, rfl, hown⟩⟩
    · next hown =>
      split at h
      · next hvis =>
        cases h
        exact ⟨fun e he => mem_cons_of_mem _ he, .inr ⟨k, v, rfl, mem_cons_self, hown, hvis⟩⟩
      · -- the row is skipped
        obtain ⟨hrest, hhit⟩ := ih h
        refine ⟨fun e he => mem_cons_of_mem _ (hrest e he), hhit.imp_right ?_⟩
        rintro ⟨k', v', rfl, hmem, hmore⟩
        exact ⟨k', v', rfl, mem_cons_of_mem _ hmem, hmore⟩

/-- **What the first part of a callback can do**: the scans afterwards, the locks it asks for
and the access that is to follow. -/
inductive Entered (detectAll : Bool) (state : NRAMXactState) (scans : Scans) :
    Call → Scans → List LockRequest → Access → Prop
  | beginscan {scan : ℕ} {relation : Oid} {todo : List LockRequest} :
      Entered detectAll state scans (.beginscan scan relation) scans todo
        (.beginscan scan relation)
  | endOfScan {scan : ℕ} {desc : ScanDesc} : scans scan = some desc →
      Entered detectAll state scans (.getnextslot scan)
        (update scans scan (some { desc with results := [] })) [] .endOfScan
  | ownRow {scan : ℕ} {desc : ScanDesc} {k : NRAMKey} {v : NRAMValue}
      {rest : List (NRAMKey × NRAMValue)} :
      scans scan = some desc → (∀ e ∈ rest, e ∈ desc.results) → readOwn state k = some v →
      Entered detectAll state scans (.getnextslot scan)
        (update scans scan (some { desc with results := rest })) [] (.ownRow k v)
  | scanRow {scan : ℕ} {desc : ScanDesc} {k : NRAMKey} {v : NRAMValue}
      {rest : List (NRAMKey × NRAMValue)} :
      scans scan = some desc → nextRow state desc.results = some (.stored k v, rest) →
      (∀ e ∈ rest, e ∈ desc.results) → (k, v) ∈ desc.results → readOwn state k = none →
      nramValueCheckVisibility v state = true →
      Entered detectAll state scans (.getnextslot scan)
        (update scans scan (some { desc with results := rest }))
        (if detectAll then nramLockForRead desc.relation (nramEncodeTid k.tid) else [])
        (.scanRow k v detectAll)
  | ownTuple {relation : Oid} {tid : ItemPointer} {v : NRAMValue} :
      readOwn state (nramKeyFromTid relation tid) = some v →
      Entered detectAll state scans (.indexFetchTuple relation tid) scans []
        (.ownRow (nramKeyFromTid relation tid) v)
  | indexFetchTuple {relation : Oid} {tid : ItemPointer} :
      readOwn state (nramKeyFromTid relation tid) = none →
      Entered detectAll state scans (.indexFetchTuple relation tid) scans
        (if detectAll then fetchLocks state relation tid else [])
        (.indexFetchTuple (nramKeyFromTid relation tid))
  | fetchRowVersion {relation : Oid} {tid : ItemPointer} :
      Entered detectAll state scans (.fetchRowVersion relation tid) scans
        (if detectAll then fetchLocks state relation tid else [])
        (.fetchRowVersion (nramKeyFromTid relation tid))
  | insert {relation : Oid} {tid : ItemPointer} {fields : List NRAMValueField} :
      Entered detectAll state scans (.insert relation tid fields) scans
        (if detectAll then nramLockForWrite relation tid else [])
        (.insert (nramKeyFromTid relation tid) ⟨state.xactId, 0, fields⟩)
  | tupleUpdate {relation : Oid} {otid : ItemPointer} {fields : List NRAMValueField} :
      Entered detectAll state scans (.tupleUpdate relation otid fields) scans
        (if (readOwnWrite state (nramKeyFromTid relation otid)).isNone && detectAll then
          nramLockForWrite relation otid else [])
        (.tupleUpdate (nramKeyFromTid relation otid) ⟨state.xactId, 0, fields⟩)

theorem entered_of_eq {scans : Scans} {c : Call}
    (h : enter detectAll state scans c = some (scans', todo, access)) :
    Entered detectAll state scans c scans' todo access := by
  cases c with
  | beginscan scan relation =>
    cases h
    exact .beginscan
  | getnextslot scan =>
    obtain ⟨desc, hdesc, heq⟩ := Option.map_eq_some_iff.mp h
    split at heq
    · cases heq
      exact .endOfScan hdesc
    · next k v rest hnext =>
      cases heq
      obtain ⟨hrest, ⟨k', v', hhit, hown⟩ | ⟨k', v', hhit, -⟩⟩ := nextRow_spec hnext
      · obtain ⟨rfl, rfl⟩ := ScanHit.own.inj hhit
        exact .ownRow hdesc hrest hown
      · cases hhit
    · next k v rest hnext =>
      cases heq
      obtain ⟨hrest, ⟨k', v', hhit, -⟩ | ⟨k', v', hhit, hmem, hown, hvis⟩⟩ := nextRow_spec hnext
      · cases hhit
      · obtain ⟨rfl, rfl⟩ := ScanHit.stored.inj hhit
        exact .scanRow hdesc hnext hrest hmem hown hvis
  | indexFetchTuple relation tid =>
    simp only [enter] at h
    split at h
    · next v hown =>
      cases h
      exact .ownTuple hown
    · next hown =>
      cases h
      exact .indexFetchTuple hown
  | fetchRowVersion relation tid =>
    cases h
    exact .fetchRowVersion
  | insert relation tid fields =>
    cases h
    exact .insert
  | tupleUpdate relation otid fields =>
    simp only [enter] at h
    split at h
    · cases h
      exact .tupleUpdate
    · cases h

theorem scan_of_update {scans : Scans} {scan i : ℕ} {d d' : ScanDesc}
    (h : update scans scan (some d') i = some d) :
    (i = scan ∧ d' = d) ∨ (i ≠ scan ∧ scans i = some d) := by
  by_cases hi : i = scan
  · subst hi
    rw [update_self] at h
    exact .inl ⟨rfl, Option.some.inj h⟩
  · rw [update_of_ne hi] at h
    exact .inr ⟨hi, h⟩

theorem Entered.scans {scans : Scans} {c : Call}
    (h : Entered detectAll state scans c scans' todo access) {i : ℕ} {d' : ScanDesc}
    (hd' : scans' i = some d') : ∃ d, scans i = some d ∧ ∀ e ∈ d'.results, e ∈ d.results := by
  -- only `nram_getnextslot` touches a scan
  have hmoved : ∀ {scan desc rest}, scans scan = some desc → (∀ e ∈ rest, e ∈ desc.results) →
      update scans scan (some { desc with results := rest }) i = some d' →
      ∃ d, scans i = some d ∧ ∀ e ∈ d'.results, e ∈ d.results := by
    intro scan desc rest hdesc hrest hupd
    obtain ⟨rfl, rfl⟩ | ⟨-, hold⟩ := scan_of_update hupd
    · exact ⟨desc, hdesc, hrest⟩
    · exact ⟨d', hold, fun e he => he⟩
  cases h with
  | endOfScan hdesc => exact hmoved hdesc (fun e he => absurd he not_mem_nil) hd'
  | ownRow hdesc hrest | scanRow hdesc _ hrest => exact hmoved hdesc hrest hd'
  | _ => exact ⟨d', hd', fun e he => he⟩

/-- **What the second part of a callback can do** to the store, the sets and the scans, and the
row it hands out. -/
inductive Performed (state : NRAMXactState) (scans : Scans) (db : RocksDB NRAMValue) :
    Access → RocksDB NRAMValue →
      Option (NRAMXactState × Scans × Option (NRAMKey × NRAMValue)) → Prop
  | beginscan {scan : ℕ} {relation : Oid} {results : List (NRAMKey × NRAMValue)} :
      nramBeginscanRange db relation = .ok results →
      Performed state scans db (.beginscan scan relation) db
        (some (state, update scans scan (some ⟨relation, results⟩), none))
  /-- There is no row to hand out. -/
  | nothing {access : Access} : access.writes = [] →
      Performed state scans db access db (some (state, scans, none))
  | ownRow {k : NRAMKey} {v : NRAMValue} :
      Performed state scans db (.ownRow k v) db (some (state, scans, some (k, v)))
  | ownVersion {k : NRAMKey} {v : NRAMValue} : readOwn state k = some v →
      Performed state scans db (.fetchRowVersion k) db (some (state, scans, some (k, v)))
  | scanRow {k : NRAMKey} {v w : NRAMValue} {reload : Bool} :
      (reload = true ∧ rocksengineGet db k = some w ∨ reload = false ∧ w = v) →
      Performed state scans db (.scanRow k v reload) db
        (some (if state.forRead then addReadSet state k w else state, scans, some (k, w)))
  | indexFetchTuple {k : NRAMKey} {w : NRAMValue} :
      rocksengineGet db k = some w → nramValueCheckVisibility w state = true →
      Performed state scans db (.indexFetchTuple k) db
        (some (if state.forRead then addReadSet state k w else state, scans, some (k, w)))
  | fetchRowVersion {k : NRAMKey} {w : NRAMValue} : readOwn state k = none →
      rocksengineGet db k = some w → nramValueCheckVisibility w state = true →
      Performed state scans db (.fetchRowVersion k) db
        (some (addReadSet state k w, scans, some (k, w)))
  | insert {k : NRAMKey} {v : NRAMValue} :
      Performed state scans db (.insert k v)
        (rocksenginePut db k { v with flags := v.flags ||| nramfPrivate })
        (some (addWriteSet state k v, scans, none))
  | tupleUpdate {k : NRAMKey} {v : NRAMValue} :
      Performed state scans db (.tupleUpdate k v) db
        (some (addWriteSet state k v, scans, none))
  | error {access : Access} : Performed state scans db access db none
  /-- The put of an insert was stored, but is not known to be. -/
  | insertError {k : NRAMKey} {v : NRAMValue} :
      Performed state scans db (.insert k v)
        (rocksenginePut db k { v with flags := v.flags ||| nramfPrivate }) none

theorem Performed.keys_subset {scans : Scans}
    (h : Performed state scans db access db' (some (state', scans', row)))
    (hk : k ∈ state.writeSet.map (·.key)) : k ∈ state'.writeSet.map (·.key) := by
  cases h with
  | insert | tupleUpdate => exact mem_keys_addWriteSet.mpr (.inr hk)
  | fetchRowVersion => exact hk
  | scanRow => split <;> exact hk
  | indexFetchTuple => split <;> exact hk
  | _ => exact hk

theorem Performed.validated_xactId_eq {scans : Scans}
    (h : Performed state scans db access db' (some (state', scans', row))) :
    state'.validated = state.validated ∧ state'.xactId = state.xactId := by
  cases h with
  | insert | tupleUpdate => exact ⟨addWriteSet_validated _ _ _, addWriteSet_xactId _ _ _⟩
  | fetchRowVersion => exact ⟨rfl, rfl⟩
  | scanRow | indexFetchTuple => split <;> exact ⟨rfl, rfl⟩
  | _ => exact ⟨rfl, rfl⟩

theorem Access.rowWrites_eq_nil (h : access.writes = []) : access.rowWrites = [] := by
  cases access with
  | insert | tupleUpdate => cases h
  | _ => rfl

theorem Performed.buffers {scans : Scans} {writes : List RowWrite}
    (h : Performed state scans db access db' (some (state', scans', row)))
    (hbuffers : Buffers state writes) : Buffers state' (access.rowWrites ++ writes) := by
  cases h with
  | insert | tupleUpdate => exact hbuffers.addWriteSet _ _
  | nothing hwrites =>
    rw [Access.rowWrites_eq_nil hwrites]
    exact hbuffers
  | fetchRowVersion => exact hbuffers.congr rfl
  | scanRow => split <;> exact hbuffers.congr rfl
  | indexFetchTuple => split <;> exact hbuffers.congr rfl
  | _ => exact hbuffers

theorem Performed.row_mem_touches {scans : Scans} {v : NRAMValue}
    (h : Performed state scans db access db' (some (state', scans', some (k, v)))) :
    (k, false) ∈ access.touches := by
  cases h <;> exact mem_singleton_self _

theorem Access.writes_mem_touches (h : k ∈ access.writes) : (k, true) ∈ access.touches := by
  cases access with
  | insert key _ | tupleUpdate key _ =>
    obtain rfl := mem_singleton.mp h
    exact mem_singleton_self _
  | _ => cases h

theorem performed_perform (reply : PutReply) (state : NRAMXactState) (scans : Scans)
    (db : RocksDB NRAMValue) (access : Access) :
    Performed state scans db access (perform reply state scans db access).1
      (perform reply state scans db access).2 := by
  cases access with
  | beginscan scan relation =>
    simp only [perform]
    split
    · next results hresults => exact .beginscan hresults
    · exact .error
  | endOfScan => exact .nothing rfl
  | ownRow k v => exact .ownRow
  | scanRow k v reload =>
    cases reload with
    | true =>
      simp only [perform, if_true]
      split
      · exact .error
      · next w hw => exact .scanRow (.inl ⟨rfl, hw⟩)
    | false => exact .scanRow (.inr ⟨rfl, rfl⟩)
  | indexFetchTuple k =>
    simp only [perform]
    split
    · exact .nothing rfl
    · next w hw =>
      split
      · next hvis => exact .indexFetchTuple hw hvis
      · exact .nothing rfl
  | fetchRowVersion k =>
    simp only [perform]
    split
    · next own hown => exact .ownVersion hown
    · next hown =>
      split
      · exact .nothing rfl
      · next w hw =>
        split
        · next hvis => exact .fetchRowVersion hown hw hvis
        · exact .nothing rfl
  | insert k v =>
    simp only [perform, rocksClientPut]
    by_cases hsize : msgSize < putMsgSize { v with flags := v.flags ||| nramfPrivate }
    · rw [if_pos hsize]
      exact .error
    · rw [if_neg hsize]
      cases reply with
      | ok => exact .insert
      | notPushed => exact .error
      | unanswered stored =>
        -- `nram_insert` takes no answer for a failure, though the row may be stored
        cases stored with
        | false => exact .error
        | true => exact .insertError
      | cancelled stored =>
        cases stored with
        | false => exact .error
        | true => exact .insertError
  | tupleUpdate k v => exact .tupleUpdate

theorem performed_of_eq {reply : PutReply} {scans : Scans}
    {res : Option (NRAMXactState × Scans × Option (NRAMKey × NRAMValue))}
    (h : perform reply state scans db access = (db', res)) :
    Performed state scans db access db' res := by
  have hperform := performed_perform reply state scans db access
  rw [h] at hperform
  exact hperform

end NeurDB.Nram
