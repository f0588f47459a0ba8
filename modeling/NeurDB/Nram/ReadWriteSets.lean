import NeurDB.Nram.Access

/-!
# The read set and the write set of a transaction

One transaction makes calls of the access callbacks while others change the store as they like,
between two calls and also inside one, where it waits for its locks. Beside the program's state
the model keeps what the sets are compared with: the row writes made so far, the rows recorded
by `add_read_set` in their order, and the store as it was when each scan began.

In every run (`sets_disciplined`):

* **the sets** have each key at most once, and `add_read_set` is called for keys that are in
  neither of them;
* **a read** of a key gives the last row written under it, else the row first recorded for it,
  else a row of the store. An index fetch and a row-version fetch take the row that is there now,
  if it is visible. A scan took its rows out of the store when it began, and reads one of them
  again only under `detect_all`: without it, what the scan hands out can be out of date
  (`scan_hands_out_old_row`).
-/

namespace NeurDB.Nram

open Function List

/-! ### One transaction and its environment -/

/-- A row of the store that the transaction is allowed to see. -/
def visibleRow (state : NRAMXactState) (db : RocksDB NRAMValue) (key : NRAMKey) :
    Option NRAMValue :=
  (rocksengineGet db key).filter (nramValueCheckVisibility · state)

/-- The calls of `add_read_set` that performing an access makes. -/
def readSetCalls (state : NRAMXactState) (db : RocksDB NRAMValue) :
    Access → List (NRAMKey × NRAMValue)
  | .scanRow key value reload =>
    if state.forRead then
      ((if reload then rocksengineGet db key else some value).map (key, ·)).toList
    else []
  | .indexFetchTuple key =>
    if state.forRead then ((visibleRow state db key).map (key, ·)).toList else []
  | .fetchRowVersion key =>
    if (readOwn state key).isNone then ((visibleRow state db key).map (key, ·)).toList else []
  | _ => []

/-- The row that performing an access hands out. -/
def rowOf (state : NRAMXactState) (db : RocksDB NRAMValue) :
    Access → Option (NRAMKey × NRAMValue)
  | .ownRow key value => some (key, value)
  | .scanRow key value reload =>
    (if reload then rocksengineGet db key else some value).map (key, ·)
  | .indexFetchTuple key => (visibleRow state db key).map (key, ·)
  | .fetchRowVersion key => ((readOwn state key).or (visibleRow state db key)).map (key, ·)
  | _ => none

structure Sets where
  state : NRAMXactState
  scans : Scans
  db : RocksDB NRAMValue
  /-- The callback the transaction is in, and what it does once its locks are taken. -/
  pending : Option (Call × Access)
  /-- An error was raised, and the transaction makes no more calls. -/
  failed : Bool
  /-- All row writes, the last one first. -/
  written : List RowWrite
  /-- The rows recorded by `add_read_set`, the first one first. -/
  recorded : List (NRAMKey × NRAMValue)
  /-- The store when the scan began. -/
  begun : ℕ → Option (RocksDB NRAMValue)

inductive SetsLabel where
  | executorStart (ct : CmdType)
  | executorEnd
  | call (detectAll : Bool) (c : Call)
  | perform (reply : PutReply)
  /-- Others leave the store in this state. -/
  | others (db : RocksDB NRAMValue)

/-- The transaction is between two callbacks. -/
def Sets.idle (s : Sets) : Bool := s.pending.isNone && !s.failed

/-- The stores at the beginning of the scans, after an access. -/
def Sets.begunAfter (s : Sets) : Access → ℕ → Option (RocksDB NRAMValue)
  | .beginscan scan _ => update s.begun scan (some s.db)
  | _ => s.begun

def setsStep (s : Sets) : SetsLabel → Option Sets
  | .others db => some { s with db }
  | .executorStart ct =>
    if s.idle then some { s with state := nramExecutorStart s.state ct } else none
  | .executorEnd => if s.idle then some { s with state := nramExecutorEnd s.state } else none
  | .call detectAll c =>
    if s.idle then
      match enter detectAll s.state s.scans c with
      | some (scans, _, access) => some { s with scans, pending := some (c, access) }
      | none => some { s with failed := true }
    else none
  | .perform reply =>
    match s.pending with
    | none => none
    | some (_, access) =>
      match perform reply s.state s.scans s.db access with
      | (db, none) => some { s with db, pending := none, failed := true }
      | (db, some (state, scans, _)) =>
        some { s with
          state, scans, db
          pending := none
          written := access.rowWrites ++ s.written
          recorded := s.recorded ++ readSetCalls s.state s.db access
          begun := s.begunAfter access }

/-- Transactions that have made no call yet. -/
def setsSystem : System Sets SetsLabel :=
  .ofFun (fun s => s.state.readSet = [] ∧ s.state.writeSet = [] ∧ (∀ i, s.scans i = none) ∧
    s.pending = none ∧ s.failed = false ∧ s.written = [] ∧ s.recorded = []) setsStep

/-! ### What a read should give -/

/-- The row first recorded under the key. -/
def firstRecorded (recorded : List (NRAMKey × NRAMValue)) (key : NRAMKey) : Option NRAMValue :=
  (recorded.find? (·.1 = key)).map (·.2)

/-- The last row written, else the row first recorded, else the row of the store. -/
def Sets.readBack (s : Sets) (key : NRAMKey) (stored : Option NRAMValue) : Option NRAMValue :=
  (lastWrite s.written key).or ((firstRecorded s.recorded key).or stored)

/-- The store when the scan began whose next row is asked for. -/
def Sets.scanBegun (s : Sets) : Call → Option (RocksDB NRAMValue)
  | .getnextslot scan => s.begun scan
  | _ => none

/-- The row of the store that a callback reads: the one that is visible now, or for a scan that
does not reload the one that was when the scan began. -/
def Sets.storeRead (s : Sets) (key : NRAMKey) (c : Call) : Access → Option NRAMValue
  | .scanRow _ _ false => (s.scanBegun c).bind (visibleRow s.state · key)
  | _ => visibleRow s.state s.db key

/-- The access reads the row of a scan again. -/
def Access.reloads : Access → Bool
  | .scanRow _ _ reload => reload
  | _ => false

/-! ### The entries that performing an access adds -/

variable {s : Sets} {state : NRAMXactState} {db : RocksDB NRAMValue} {access : Access} {k : NRAMKey}
  {c : Call} {scans : Scans} {v : NRAMValue} {row : Option (NRAMKey × NRAMValue)} {reply : PutReply}

theorem visibleRow_eq_some_iff : visibleRow state db k = some v ↔
      rocksengineGet db k = some v ∧ nramValueCheckVisibility v state = true :=
  Option.filter_eq_some_iff

theorem visibleRow_of (h : rocksengineGet db k = some v)
    (hvis : nramValueCheckVisibility v state = true) : visibleRow state db k = some v :=
  visibleRow_eq_some_iff.mpr ⟨h, hvis⟩

/-- The keys and rows of the read set. -/
def NRAMXactState.reads (state : NRAMXactState) : List (NRAMKey × NRAMValue) :=
  state.readSet.map fun opt => (opt.key, opt.value)

theorem reads_addReadSet (state : NRAMXactState) (key : NRAMKey) (value : NRAMValue) :
    (addReadSet state key value).reads = state.reads ++ [(key, value)] := by
  unfold NRAMXactState.reads
  rw [addReadSet_readSet, map_append, map_singleton]

theorem reads_ite (c : Bool) (state : NRAMXactState) (key : NRAMKey) (value : NRAMValue) :
    (if c then addReadSet state key value else state).reads =
      state.reads ++ if c then [(key, value)] else [] := by
  cases c with
  | true => exact reads_addReadSet state key value
  | false => exact (append_nil _).symm

theorem reads_addWriteSet (state : NRAMXactState) (key : NRAMKey) (value : NRAMValue) :
    (addWriteSet state key value).reads = state.reads := by
  unfold NRAMXactState.reads
  rw [addWriteSet_readSet]

/-- A row is fetched: one that is not visible counts as none. -/
theorem fetch_eq {α : Type} (state : NRAMXactState) (none' : α) (some' : NRAMValue → α) :
    (match rocksengineGet db k with
      | none => none'
      | some w => if nramValueCheckVisibility w state then some' w else none') =
      (visibleRow state db k).elim none' some' := by
  rw [visibleRow]
  cases rocksengineGet db k with
  | none => rfl
  | some w => cases hvis : nramValueCheckVisibility w state <;> simp [Option.filter, hvis]

/-- **The rows that an access reads.** The read set grows by the calls of `add_read_set`, and the
row handed out is an own one or one of the store. -/
theorem perform_reads {state' : NRAMXactState} {scans' : Scans} {db' : RocksDB NRAMValue}
    (h : perform reply state scans db access = (db', some (state', scans', row))) :
    state'.reads = state.reads ++ readSetCalls state db access ∧ row = rowOf state db access := by
  -- an access that records nothing and hands out nothing
  have hquiet : ∀ {calls : List (NRAMKey × NRAMValue)}, calls = [] →
      state.reads = state.reads ++ calls := by
    rintro _ rfl
    exact (append_nil _).symm
  cases access with
  | beginscan scan relation =>
    simp only [perform] at h
    split at h
    · cases h
      exact ⟨hquiet rfl, rfl⟩
    · cases h
  | endOfScan | ownRow key value =>
    cases h
    exact ⟨hquiet rfl, rfl⟩
  | scanRow key value reload =>
    simp only [perform] at h
    simp only [readSetCalls, rowOf]
    split at h
    · cases h
    · next w hw =>
      cases h
      rw [reads_ite, hw]
      exact ⟨rfl, rfl⟩
  | indexFetchTuple key =>
    replace h := (fetch_eq state _ _).symm.trans h
    simp only [readSetCalls, rowOf]
    rcases hrow : visibleRow state db key with _ | w <;> rw [hrow] at h <;> cases h
    · exact ⟨hquiet (ite_self _), rfl⟩
    · exact ⟨reads_ite _ _ _ _, rfl⟩
  | fetchRowVersion key =>
    simp only [perform] at h
    simp only [readSetCalls, rowOf]
    split at h
    · next own hown =>
      cases h
      rw [hown]
      exact ⟨hquiet rfl, rfl⟩
    · next hown =>
      rw [hown, Option.isNone_none, if_pos rfl, Option.none_or]
      replace h := (fetch_eq state _ _).symm.trans h
      rcases hrow : visibleRow state db key with _ | w <;> rw [hrow] at h <;> cases h
      · exact ⟨hquiet rfl, rfl⟩
      · exact ⟨reads_addReadSet _ _ _, rfl⟩
  | insert key value =>
    simp only [perform] at h
    split at h
    · cases h
      rw [reads_addWriteSet]
      exact ⟨hquiet rfl, rfl⟩
    · cases h
  | tupleUpdate key value =>
    cases h
    rw [reads_addWriteSet]
    exact ⟨hquiet rfl, rfl⟩

/-! ### The invariant -/

/-- What is known about the callback a transaction is in. -/
def Sets.PendingOk (s : Sets) (c : Call) : Access → Prop
  | .ownRow k v => readOwn s.state k = some v
  | .indexFetchTuple k => readOwn s.state k = none
  | .scanRow k v _ =>
    readOwn s.state k = none ∧ nramValueCheckVisibility v s.state = true ∧
      ∃ scan db, c = .getnextslot scan ∧ s.begun scan = some db ∧ rocksengineGet db k = some v
  | _ => True

/-- What holds in every state of a run. -/
structure SetsInv (s : Sets) : Prop where
  buffers : Buffers s.state s.written
  reads : s.state.reads = s.recorded
  nodup : (s.recorded.map (·.1)).Nodup
  /-- The rows of a scan were in the store when it began. -/
  scans : ∀ i d, s.scans i = some d →
    ∃ db, s.begun i = some db ∧ ∀ e ∈ d.results, rocksengineGet db e.1 = some e.2
  pending : ∀ c access, s.pending = some (c, access) → s.PendingOk c access

theorem readOwnRead_eq (state : NRAMXactState) (key : NRAMKey) :
    readOwnRead state key = firstRecorded state.reads key := by
  unfold readOwnRead findReadSet firstRecorded NRAMXactState.reads
  rw [find?_map, Option.map_map]
  rfl

theorem SetsInv.readOwn_eq (h : SetsInv s) (key : NRAMKey) :
    readOwn s.state key = (lastWrite s.written key).or (firstRecorded s.recorded key) := by
  rw [readOwn, h.buffers.last, readOwnRead_eq, h.reads]

theorem SetsInv.readBack_eq (h : SetsInv s) (key : NRAMKey) (stored : Option NRAMValue) :
    s.readBack key stored = (readOwn s.state key).or stored := by
  rw [h.readOwn_eq, Option.or_assoc, Sets.readBack]

theorem not_mem_of_readOwn_none {key : NRAMKey} (h : readOwn state key = none) :
    findReadSet state key = none ∧ findWriteSet state key = none := by
  obtain ⟨hwrite, hread⟩ := Option.or_eq_none_iff.mp h
  exact ⟨Option.map_eq_none_iff.mp hread, Option.map_eq_none_iff.mp hwrite⟩

/-- **The calls of `add_read_set` are for keys without an own row.** -/
theorem Sets.PendingOk.readOwn_none (h : s.PendingOk c access) {e : NRAMKey × NRAMValue}
    (he : e ∈ readSetCalls s.state s.db access) : readOwn s.state e.1 = none := by
  -- the key of each call is the key of the access
  have hkey : ∀ {o : Option NRAMValue} {k : NRAMKey}, e ∈ (o.map (k, ·)).toList → e.1 = k := by
    intro o k hmem
    obtain ⟨v, -, rfl⟩ := Option.map_eq_some_iff.mp (Option.mem_toList.mp hmem)
    rfl
  cases access with
  | scanRow k v reload =>
    simp only [readSetCalls] at he
    split at he
    · rw [hkey he]
      exact h.1
    · cases he
  | indexFetchTuple k =>
    simp only [readSetCalls] at he
    split at he
    · rw [hkey he]
      exact h
    · cases he
  | fetchRowVersion k =>
    simp only [readSetCalls] at he
    split at he
    · next hown =>
      rw [hkey he]
      exact Option.isNone_iff_eq_none.mp hown
    · cases he
  | _ => cases he

theorem length_readSetCalls_le (state : NRAMXactState) (db : RocksDB NRAMValue)
    (access : Access) : (readSetCalls state db access).length ≤ 1 := by
  have htoList : ∀ o : Option (NRAMKey × NRAMValue), o.toList.length ≤ 1 := by
    intro o
    cases o <;> simp
  cases access with
  | scanRow | indexFetchTuple | fetchRowVersion =>
    simp only [readSetCalls]
    split
    · exact htoList _
    · exact Nat.zero_le _
  | _ => exact Nat.zero_le _

/-! ### Steps -/

theorem SetsInv.nodup_append (h : SetsInv s) (hpending : s.pending = some (c, access)) :
    ((s.recorded ++ readSetCalls s.state s.db access).map (·.1)).Nodup := by
  rcases hcalls : readSetCalls s.state s.db access with _ | ⟨e, rest⟩
  · rw [append_nil]
    exact h.nodup
  · have hlen := length_readSetCalls_le s.state s.db access
    rw [hcalls] at hlen
    obtain rfl : rest = [] :=
      eq_nil_of_length_eq_zero (Nat.le_zero.mp (Nat.succ_le_succ_iff.mp hlen))
    have hnone : readOwn s.state e.1 = none := by
      refine (h.pending c access hpending).readOwn_none ?_
      rw [hcalls]
      exact mem_singleton_self _
    rw [h.readOwn_eq] at hnone
    have hnew : e.1 ∉ s.recorded.map (·.1) := by
      intro hmem
      obtain ⟨e', he', hkey⟩ := mem_map.mp hmem
      have hfirst := (Option.or_eq_none_iff.mp hnone).2
      rw [firstRecorded, Option.map_eq_none_iff, find?_eq_none] at hfirst
      exact hfirst e' he' (decide_eq_true hkey)
    rw [map_append, map_singleton, ← concat_eq_append]
    exact h.nodup.concat hnew

theorem SetsInv.statement (h : SetsInv s) (hread : state.readSet = s.state.readSet)
    (hwrite : state.writeSet = s.state.writeSet) (hidle : s.idle = true) :
    SetsInv { s with state } where
  buffers := h.buffers.congr hwrite
  reads := by
    show state.reads = s.recorded
    rw [NRAMXactState.reads, hread]
    exact h.reads
  nodup := h.nodup
  scans := h.scans
  pending c access hpending := by
    have hnone : s.pending = none := by
      rw [Sets.idle, Bool.and_eq_true] at hidle
      exact Option.isNone_iff_eq_none.mp hidle.1
    rw [show s.pending = some (c, access) from hpending] at hnone
    cases hnone

theorem SetsInv.call (h : SetsInv s) {detectAll : Bool} {todo : List LockRequest}
    (henter : enter detectAll s.state s.scans c = some (scans, todo, access)) :
    SetsInv { s with scans, pending := some (c, access) } where
  buffers := h.buffers
  reads := h.reads
  nodup := h.nodup
  scans i d hd := by
    obtain ⟨d₀, hd₀, hsub⟩ := (entered_of_eq henter).scans hd
    obtain ⟨db, hdb, hrows⟩ := h.scans i d₀ hd₀
    exact ⟨db, hdb, fun e he => hrows e (hsub e he)⟩
  pending c' access' hpending := by
    cases hpending
    cases entered_of_eq henter with
    | ownRow _ _ hown | ownTuple hown | indexFetchTuple hown => exact hown
    | scanRow hdesc _ _ hmem hown hvis =>
      obtain ⟨db, hdb, hrows⟩ := h.scans _ _ hdesc
      exact ⟨hown, hvis, _, db, rfl, hdb, hrows _ hmem⟩
    | _ => trivial

theorem SetsInv.scans_perform (h : SetsInv s)
    (hperf : perform reply s.state s.scans s.db access = (db, some (state, scans, row))) (i : ℕ)
    (d : ScanDesc) (hd : scans i = some d) :
    ∃ db, s.begunAfter access i = some db ∧ ∀ e ∈ d.results, rocksengineGet db e.1 = some e.2 := by
  cases access with
  | beginscan scan relation =>
    obtain ⟨l, hl, hmem, -⟩ := rangeScan_spec s.db ⟨relation, 0⟩ ⟨relation + 1, 0⟩
    have hrange : nramBeginscanRange s.db relation = .ok l := hl
    simp only [perform, hrange, Prod.mk.injEq, Option.some.injEq] at hperf
    obtain ⟨-, -, rfl, -⟩ := hperf
    obtain ⟨rfl, rfl⟩ | ⟨hne, hold⟩ := scan_of_update hd
    · exact ⟨s.db, update_self .., fun e he => ((hmem e.1 e.2).mp he).1⟩
    · obtain ⟨db, hdb, hrows⟩ := h.scans i d hold
      exact ⟨db, (update_of_ne hne ..).trans hdb, hrows⟩
  | _ =>
    -- no other access changes a scan
    cases performed_of_eq hperf <;> exact h.scans i d hd

theorem SetsInv.perform (h : SetsInv s) (hpending : s.pending = some (c, access))
    (hperf : perform reply s.state s.scans s.db access = (db, some (state, scans, row))) :
    SetsInv { s with
      state, scans, db
      pending := none
      written := access.rowWrites ++ s.written
      recorded := s.recorded ++ readSetCalls s.state s.db access
      begun := s.begunAfter access } where
  buffers := (performed_of_eq hperf).buffers h.buffers
  reads := (perform_reads hperf).1.trans (by rw [h.reads])
  nodup := h.nodup_append hpending
  scans := h.scans_perform hperf
  pending _ _ hnone := absurd hnone (by simp)

theorem SetsInv.step {s' : Sets} {l : SetsLabel} (h : SetsInv s) (hstep : setsStep s l = some s') :
    SetsInv s' := by
  cases l with
  | others db =>
    cases hstep
    exact { h with }
  | executorStart ct =>
    obtain ⟨hidle, heq⟩ := Option.ite_none_right_eq_some.mp hstep
    cases heq
    exact h.statement (nramExecutorStart_readSet ..) (nramExecutorStart_writeSet ..) hidle
  | executorEnd =>
    obtain ⟨hidle, heq⟩ := Option.ite_none_right_eq_some.mp hstep
    cases heq
    exact h.statement (nramExecutorEnd_readSet _) (nramExecutorEnd_writeSet _) hidle
  | call detectAll c =>
    obtain ⟨-, heq⟩ := Option.ite_none_right_eq_some.mp hstep
    split at heq
    · next scans todo access henter =>
      cases heq
      exact h.call henter
    · cases heq
      exact { h with }
  | perform reply =>
    simp only [setsStep] at hstep
    split at hstep
    · cases hstep
    · next c access hpending =>
      split at hstep
      · cases hstep
        exact { h with pending := nofun }
      · next db state scans row hperf =>
        cases hstep
        exact h.perform hpending hperf

theorem setsInv_of_reachable (hs : setsSystem.Reachable s) : SetsInv s := by
  refine hs.invariant (fun s hinit => ?_) fun s l s' h hstep => h.step hstep
  obtain ⟨hread, hwrite, hscans, hpending, -, hwritten, hrecorded⟩ := hinit
  refine ⟨?_, ?_, ?_, fun i d hd => ?_, fun c access hc => ?_⟩
  · rw [hwritten]
    exact .initial hwrite
  · rw [NRAMXactState.reads, hread, hrecorded]
    rfl
  · rw [hrecorded]
    exact nodup_nil
  · rw [hscans i] at hd
    cases hd
  · rw [hpending] at hc
    cases hc

/-! ### The discipline -/

theorem SetsInv.rowOf_eq (h : SetsInv s) (hpending : s.pending = some (c, access))
    (hk : (k, false) ∈ access.touches)
    (hreload : access.reloads = true → (visibleRow s.state s.db k).isSome) :
    rowOf s.state s.db access = (s.readBack k (s.storeRead k c access)).map (k, ·) := by
  have hok := h.pending c access hpending
  rw [h.readBack_eq]
  cases access with
  | ownRow k' v =>
    obtain ⟨rfl, -⟩ := Prod.mk.inj (mem_singleton.mp hk)
    rw [show readOwn s.state k = some v from hok]
    rfl
  | indexFetchTuple k' =>
    obtain ⟨rfl, -⟩ := Prod.mk.inj (mem_singleton.mp hk)
    rw [show readOwn s.state k = none from hok]
    rfl
  | fetchRowVersion k' =>
    obtain ⟨rfl, -⟩ := Prod.mk.inj (mem_singleton.mp hk)
    rfl
  | scanRow k' v reload =>
    obtain ⟨rfl, -⟩ := Prod.mk.inj (mem_singleton.mp hk)
    obtain ⟨hown, hvis, scan, db, rfl, hbegun, hget⟩ := hok
    rw [hown, Option.none_or]
    cases reload with
    | true =>
      -- the row that is read again is visible
      obtain ⟨w, hw⟩ := Option.isSome_iff_exists.mp (hreload rfl)
      show (rocksengineGet s.db k).map (k, ·) = (visibleRow s.state s.db k).map (k, ·)
      rw [hw, (visibleRow_eq_some_iff.mp hw).1]
    | false =>
      show some (k, v) = ((s.begun scan).bind (visibleRow s.state · k)).map (k, ·)
      rw [hbegun, Option.bind_some, visibleRow_of hget hvis]
      rfl
  | beginscan | endOfScan => cases hk
  | insert k' v | tupleUpdate k' v =>
    exact absurd (Prod.mk.inj (mem_singleton.mp hk)).2 (by simp)

/-- **The discipline of the sets**, in every run of a transaction among others. -/
theorem sets_disciplined {s : Sets} (hs : setsSystem.Reachable s) :
    (s.state.readSet.map (·.key)).Nodup ∧ (s.state.writeSet.map (·.key)).Nodup ∧
      ∀ c access, s.pending = some (c, access) →
        (∀ e ∈ readSetCalls s.state s.db access,
          findReadSet s.state e.1 = none ∧ findWriteSet s.state e.1 = none) ∧
        ∀ reply db state scans row,
          perform reply s.state s.scans s.db access = (db, some (state, scans, row)) →
          ∀ k, (k, false) ∈ access.touches →
            (access.reloads = true → (visibleRow s.state s.db k).isSome) →
            row = (s.readBack k (s.storeRead k c access)).map (k, ·) := by
  have h := setsInv_of_reachable hs
  refine ⟨?_, h.buffers.nodup, fun c access hpending => ⟨fun e he => ?_, ?_⟩⟩
  · have hnodup := h.nodup
    rwa [← h.reads, NRAMXactState.reads, map_map] at hnodup
  · exact not_mem_of_readOwn_none ((h.pending c access hpending).readOwn_none he)
  · intro reply db state scans row hperf k hk hreload
    exact (perform_reads hperf).2.trans (h.rowOf_eq hpending hk hreload)

/-! ### Two runs with a change of the store -/

deriving instance DecidableEq for Call, Access

/-- A row of the table 5, as the transaction `x` wrote it. -/
def accountRow (x : TransactionId) : NRAMValue := ⟨x, 0, []⟩

def accountKey : NRAMKey := ⟨5, 65537⟩

/-- The store with the row of transaction `x`. -/
def accountStore (x : TransactionId) : RocksDB NRAMValue :=
  rocksenginePut .empty accountKey (accountRow x)

/-- Transaction 9, which has made no call yet. -/
def freshSets : Sets where
  state := newNRAMXactState 9
  scans _ := none
  db := accountStore 7
  pending := none
  failed := false
  written := []
  recorded := []
  begun _ := none

theorem freshSets_init : setsSystem.init freshSets :=
  ⟨rfl, rfl, fun _ => rfl, rfl, rfl, rfl, rfl⟩

/-- The row is fetched by an index, replaced by transaction 8, and fetched again. -/
def fetchTwice : List SetsLabel :=
  [.executorStart .select, .call false (.indexFetchTuple 5 (nramEncodeTid 65537)), .perform .ok,
    .others (accountStore 8), .call false (.indexFetchTuple 5 (nramEncodeTid 65537))]

/-- The second fetch gives the row of the first one. -/
theorem second_fetch_repeats :
    ∃ s, setsSystem.Reachable s ∧ visibleRow s.state s.db accountKey = some (accountRow 8) ∧
      ∃ db state scans, perform .ok s.state s.scans s.db (.ownRow accountKey (accountRow 7)) =
        (db, some (state, scans, some (accountKey, accountRow 7))) := by
  obtain ⟨s, hrun, hpending, hvisible, hback⟩ : ∃ s, setsSystem.Run freshSets fetchTwice s ∧
      s.pending = some (.indexFetchTuple 5 (nramEncodeTid 65537),
          .ownRow accountKey (accountRow 7)) ∧
        visibleRow s.state s.db accountKey = some (accountRow 8) ∧
        s.readBack accountKey (some (accountRow 8)) = some (accountRow 7) :=
    System.exists_run_of_exec (by decide +kernel) fun _ _ hs => hs
  have hreach : setsSystem.Reachable s := ⟨freshSets, fetchTwice, freshSets_init, hrun⟩
  have hread := (sets_disciplined hreach).2.2 _ _ hpending
  have hrow := hread.2 .ok s.db s.state s.scans _ rfl accountKey (mem_singleton_self _)
    (nofun)
  refine ⟨s, hreach, hvisible, s.db, s.state, s.scans, ?_⟩
  have hstored : s.storeRead accountKey (.indexFetchTuple 5 (nramEncodeTid 65537))
      (.ownRow accountKey (accountRow 7)) = some (accountRow 8) := hvisible
  rw [hstored, hback] at hrow
  rw [perform, hrow]

/-- A scan begins, transaction 8 replaces the row, and the next row of the scan is asked for. -/
def scanOverChange : List SetsLabel :=
  [.executorStart .select, .call false (.beginscan 0 5), .perform .ok, .others (accountStore 8),
    .call false (.getnextslot 0)]

/-- **A scan can hand out a row that is out of date**: the row that it found when it began, where
the transaction has no own row of the key and another row is visible now. -/
theorem scan_hands_out_old_row :
    ∃ s, setsSystem.Reachable s ∧
      s.pending = some (.getnextslot 0, .scanRow accountKey (accountRow 7) false) ∧
      (perform .ok s.state s.scans s.db (.scanRow accountKey (accountRow 7) false)).2.map
        (fun r => r.2.2) = some (some (accountKey, accountRow 7)) ∧
      s.readBack accountKey (visibleRow s.state s.db accountKey) = some (accountRow 8) := by
  suffices h : ∃ s, setsSystem.Run freshSets scanOverChange s ∧ _ from
    h.imp fun s hs => ⟨⟨freshSets, scanOverChange, freshSets_init, hs.1⟩, hs.2⟩
  exact System.exists_run_of_exec (by decide +kernel) fun _ _ hs => hs

end NeurDB.Nram
