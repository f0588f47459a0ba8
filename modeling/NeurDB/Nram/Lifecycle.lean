import NeurDB.Nram.Access
import NeurDB.Nram.Commit

/-!
# The transaction state over many transactions

One backend that runs transaction after transaction, with the executor hooks, the access
callbacks and `nram_xact_callback` on the events of the server. The backend has one pointer
`current_nram_xact`. It is set on the first use in a transaction, to memory that the server
frees when the transaction ends, and it is the callback that must set it back to NULL.

**The events.** The server calls the callback with `PRE_COMMIT` and then `COMMIT`, with `ABORT`
at any time before that, or with `PRE_PREPARE` and then `PREPARE`; a transaction that is prepared
is committed or rolled back later, by a command that calls no callback for it. The callback
handles `PRE_COMMIT`, `COMMIT` and `ABORT`. `PREPARE` falls to its default branch. So

* the pointer stays as it is and points to freed memory. `refresh_nram_xact` reads a transaction
  id through it in the next transaction, and takes what it finds for its own state if the id
  fits;
* the buffered writes are lost. `COMMIT PREPARED` installs nothing.

In every run in which no transaction that has an NRAM state is prepared, and no put is lost
without an error, the pointer is NULL between transactions, no transaction uses the state of
another one, and each transaction that commits has installed the last write of each key exactly
once (`lifecycle_of_handled`). `prepared_write_lost` shows all three fail after `PREPARE`.
-/

namespace NeurDB.Nram

open List

/-! ### A backend -/

inductive XactEvent where
  | commit
  | parallelCommit
  | abort
  | parallelAbort
  | prepare
  | preCommit
  | parallelPreCommit
  | prePrepare
  deriving DecidableEq

/-- What a transaction has done: its row writes, the last one first, and its puts of the commit
callback that reached the store. -/
structure XactRecord where
  number : ℕ
  writes : List RowWrite
  puts : List RowWrite
  deriving DecidableEq

inductive XactPhase where
  | active
  /-- An error was raised, and the transaction can only abort. -/
  | failed
  | preCommitted
  | prePrepared
  deriving DecidableEq

/-- The transaction a backend runs. -/
structure RunningXact where
  /-- What `GetTopTransactionId` returns. -/
  xactId : TransactionId
  serializable : Bool
  phase : XactPhase
  scans : Scans
  record : XactRecord

/-- `current_nram_xact`, where it is not NULL: what the memory it points to holds, and the
number of the transaction that allocated it. -/
structure CurrentXact where
  owner : ℕ
  state : NRAMXactState

structure Backend where
  db : RocksDB NRAMValue
  current : Option CurrentXact
  running : Option RunningXact
  /-- How many transactions the backend has started. -/
  started : ℕ
  /-- A transaction has read the state of another one. -/
  usedStale : Bool
  prepared : List XactRecord
  committed : List XactRecord

inductive BackendLabel where
  /-- A transaction starts. If `current_nram_xact` points to freed memory, `found` is what the
  transaction will find there. -/
  | start (xactId : TransactionId) (serializable : Bool) (found : NRAMXactState)
  | executorStart (ct : CmdType)
  | executorEnd
  | call (detectAll : Bool) (c : Call) (reply : PutReply)
  | event (e : XactEvent) (env : CallbackEnv)
  /-- `COMMIT PREPARED` of one of the prepared transactions. -/
  | commitPrepared (i : ℕ)
  | rollbackPrepared (i : ℕ)
  /-- Other backends leave the store in this state. -/
  | others (db : RocksDB NRAMValue)

/-! ### The callback -/

/-- `refresh_nram_xact`, and the state `current_nram_xact` then points to. -/
def refreshNramXact (current : Option CurrentXact) (t : RunningXact) : CurrentXact :=
  match current with
  | none => ⟨t.record.number, newNRAMXactState t.xactId⟩
  | some c =>
    if c.state.xactId ≠ t.xactId then ⟨t.record.number, newNRAMXactState t.xactId⟩ else c

/-- `refresh_nram_xact` looks at the state of another transaction. -/
def readsStale (current : Option CurrentXact) (t : RunningXact) : Bool :=
  current.any fun c => c.owner ≠ t.record.number

/-- The locks are granted and the read set is valid. -/
def validationPasses (serializable : Bool) (env : CallbackEnv) (state : NRAMXactState)
    (db : RocksDB NRAMValue) : Bool :=
  (lockLoop env (sortWriteSet state.writeSet)).isOk &&
    (validateLoop env state.xactId db (if serializable then state.readSet else [])).isOk

/-- The puts of the install loop that reach the store, in their order. -/
def installedPuts (env : CallbackEnv) : List NRAMXactOpt → List RowWrite
  | [] => []
  | opt :: todo =>
    (if env.Stored opt then [(opt.key, opt.value)] else []) ++
      if env.Raises opt then [] else installedPuts env todo

/-- The state and the puts that `XACT_EVENT_PRE_COMMIT` leaves behind. -/
def afterPreCommit (serializable : Bool) (env : CallbackEnv) (state : NRAMXactState)
    (db : RocksDB NRAMValue) : NRAMXactState × List RowWrite :=
  if state.validated then (state, [])
  else
    let writeSet := sortWriteSet state.writeSet
    if validationPasses serializable env state db then
      ({ state with writeSet, validated := true }, installedPuts env writeSet)
    else ({ state with writeSet }, [])

structure CallbackResult where
  db : RocksDB NRAMValue
  current : Option CurrentXact
  puts : List RowWrite
  result : Except CommitError Unit

/-- `nram_xact_callback`. -/
def nramXactCallback (env : CallbackEnv) (e : XactEvent) (db : RocksDB NRAMValue)
    (current : Option CurrentXact) (t : RunningXact) : CallbackResult :=
  match current with
  | none => ⟨db, none, [], .ok ()⟩
  | some _ =>
    let c := refreshNramXact current t
    match e with
    | .preCommit =>
      let (state, puts) := afterPreCommit t.serializable env c.state db
      let (db', result) := nramPreCommit t.serializable env c.state db
      ⟨db', some { c with state }, puts, result⟩
    | .abort => ⟨db, none, [], .ok ()⟩
    | .commit => ⟨db, none, [], .ok ()⟩
    | _ => ⟨db, some c, [], .ok ()⟩

/-! ### Steps -/

/-- The event can come next. A backend that is no parallel worker sees no parallel event. -/
def RunningXact.admits (t : RunningXact) : XactEvent → Bool
  | .preCommit | .prePrepare => t.phase = .active
  | .commit => t.phase = .preCommitted
  | .prepare => t.phase = .prePrepared
  | .abort => true
  | _ => false

/-- What the server does after the callback has returned, or has raised an error. -/
def Backend.afterEvent (b : Backend) (t : RunningXact) (ok : Bool) : XactEvent → Backend
  | .preCommit =>
    { b with running := some { t with phase := if ok then .preCommitted else .failed } }
  | .prePrepare => { b with running := some { t with phase := .prePrepared } }
  | .commit => { b with running := none, committed := t.record :: b.committed }
  | .prepare => { b with running := none, prepared := t.record :: b.prepared }
  | .abort => { b with running := none }
  | _ => b

/-- A step of the transaction `t`, which is the running one. -/
def runningStep (b : Backend) (t : RunningXact) : BackendLabel → Option Backend
  | .event e env =>
    if t.admits e then
      let r := nramXactCallback env e b.db b.current t
      let b' := { b with
        db := r.db
        current := r.current
        usedStale := b.usedStale || readsStale b.current t }
      let t' := { t with record := { t.record with puts := r.puts ++ t.record.puts } }
      some (b'.afterEvent t' r.result.isOk e)
    else none
  | l =>
    if t.phase = .active then
      let c := refreshNramXact b.current t
      let usedStale := b.usedStale || readsStale b.current t
      match l with
      | .executorStart ct =>
        some { b with
          usedStale, current := some { c with state := nramExecutorStart c.state ct } }
      | .executorEnd =>
        some { b with usedStale, current := some { c with state := nramExecutorEnd c.state } }
      | .call detectAll call reply =>
        match enter detectAll c.state t.scans call with
        | none =>
          some { b with usedStale, current := some c, running := some { t with phase := .failed } }
        | some (scans, _, access) =>
          match perform reply c.state scans b.db access with
          | (db, none) =>
            some { b with
              db, usedStale, current := some c, running := some { t with phase := .failed } }
          | (db, some (state, scans, _)) =>
            let record := { t.record with writes := access.rowWrites ++ t.record.writes }
            some { b with
              db, usedStale, current := some { c with state }
              running := some { t with scans, record } }
      -- the command calls no callback for the prepared transaction
      | .commitPrepared i =>
        (b.prepared[i]?).map fun r =>
          { b with prepared := b.prepared.eraseIdx i, committed := r :: b.committed }
      | .rollbackPrepared i => some { b with prepared := b.prepared.eraseIdx i }
      | _ => none
    else none

def backendStep (b : Backend) : BackendLabel → Option Backend
  | .others db => some { b with db }
  | .start xactId serializable found =>
    match b.running with
    | some _ => none
    | none =>
      -- 0 is `InvalidTransactionId`
      if xactId = 0 then none
      else
        some { b with
          current := b.current.map fun c => { c with state := found }
          running := some
            ⟨xactId, serializable, .active, fun _ => none, ⟨b.started, [], []⟩⟩
          started := b.started + 1 }
  | l => b.running.bind fun t => runningStep b t l

/-- A backend starts with no transaction and no state. -/
def backendSystem : System Backend BackendLabel :=
  .ofFun (fun b => b.current = none ∧ b.running = none ∧ b.usedStale = false ∧
    b.prepared = [] ∧ b.committed = []) backendStep

/-! ### The property and the condition -/

/-- **Installed exactly once**: of each key the transaction wrote, its last write was put once,
and nothing else was. -/
def XactRecord.InstalledOnce (r : XactRecord) : Prop :=
  ∀ key, (r.puts.filter (·.1 = key)).map (·.2) = (lastWrite r.writes key).toList

/-- The three parts of the lifecycle. -/
structure LifecycleKept (b : Backend) : Prop where
  /-- After the end of a transaction `current_nram_xact` is NULL. -/
  cleared : b.running = none → b.current = none
  /-- No transaction uses the state of another. -/
  own : b.usedStale = false
  installed : ∀ r ∈ b.committed, r.InstalledOnce

/-- **Handled steps**: `PREPARE` comes only when there is no NRAM state, and a put of the commit
callback that raises no error is stored. -/
def handled (b : Backend) : BackendLabel → Bool
  | .event .prepare _ => b.current.isNone
  | .event .preCommit env =>
    b.current.all fun c => c.state.writeSet.all fun opt => env.Raises opt ∨ env.Stored opt
  | _ => true

/-! ### The puts of the callback -/

/-- **The recorded puts are what the loop does to the store.** -/
theorem installLoop_fst (env : CallbackEnv) (opts : List NRAMXactOpt) (db : RocksDB NRAMValue) :
    (installLoop env opts db).1 =
      (installedPuts env opts).foldl (fun db w => rocksenginePut db w.1 w.2) db := by
  induction opts generalizing db with
  | nil => rfl
  | cons opt opts ih =>
    -- one put first; whether the loop goes on depends on whether it raises an error
    have hone : (if env.Stored opt then [(opt.key, opt.value)] else []).foldl
        (fun db w => rocksenginePut db w.1 w.2) db = applyStored env [opt] db := by
      show _ = if env.Stored opt then _ else db
      split <;> rfl
    have hfst := rocksClientPut_fst env opt db
    rw [installedPuts, foldl_append, hone]
    by_cases hraise : env.Raises opt
    · obtain ⟨e, he⟩ := rocksClientPut_raises hraise db
      have hput : rocksClientPut db opt.key opt.value (env.put opt.key) =
          (applyStored env [opt] db, .error e) := Prod.ext hfst he
      rw [installLoop, hput, if_pos hraise]
      rfl
    · obtain ⟨ok, hok⟩ := rocksClientPut_returns hraise db
      have hput : rocksClientPut db opt.key opt.value (env.put opt.key) =
          (applyStored env [opt] db, .ok ok) := Prod.ext hfst hok
      rw [installLoop, hput, if_neg hraise]
      exact ih _

variable {t : RunningXact} {b b' : Backend} {env : CallbackEnv} {current : Option CurrentXact}
  {opts : List NRAMXactOpt} {l : BackendLabel} {c : CurrentXact} {e : XactEvent}

theorem installedPuts_of_stored (h : ∀ opt ∈ opts, ¬ env.Raises opt ∧ env.Stored opt) :
    installedPuts env opts = opts.map fun opt => (opt.key, opt.value) := by
  induction opts with
  | nil => rfl
  | cons opt opts ih =>
    obtain ⟨hraise, hstored⟩ := h opt mem_cons_self
    rw [installedPuts, if_pos hstored, if_neg hraise, ih fun o ho => h o (mem_cons_of_mem _ ho)]
    rfl

theorem values_of_key (hnd : (opts.map (·.key)).Nodup) (key : NRAMKey) :
    ((opts.map fun opt => (opt.key, opt.value)).filter (·.1 = key)).map (·.2) =
      ((opts.find? (·.key = key)).map (·.value)).toList := by
  induction opts with
  | nil => rfl
  | cons opt opts ih =>
    obtain ⟨hnew, hnd'⟩ := nodup_cons.mp hnd
    by_cases hk : opt.key = key
    · -- no other entry has the key
      have hnone : opts.find? (·.key = key) = none := by
        rw [find?_eq_none]
        intro o ho
        have hne : o.key ≠ opt.key := fun h => hnew (mem_map.mpr ⟨o, ho, h⟩)
        simpa [← hk] using hne
      have hrest := ih hnd'
      rw [hnone] at hrest
      rw [map_cons, filter_cons_of_pos (by simpa using hk), map_cons, hrest,
        find?_cons_of_pos (by simpa using hk)]
      rfl
    · rw [map_cons, filter_cons_of_neg (by simpa using hk), ih hnd',
        find?_cons_of_neg (by simpa using hk)]

theorem installedOnce_of_ok {serializable : Bool} {state : NRAMXactState} {db : RocksDB NRAMValue}
    {writes : List RowWrite} (n : ℕ) (hbuffers : Buffers state writes)
    (hlost : ∀ opt ∈ state.writeSet, env.Raises opt ∨ env.Stored opt)
    (hok : (nramPreCommit serializable env state db).2 = .ok ()) :
    XactRecord.InstalledOnce ⟨n, writes, (afterPreCommit serializable env state db).2⟩ := by
  obtain ⟨hvalidated, hlock, hvalidate, hloop⟩ := nramPreCommit_eq_ok (Prod.ext rfl hok)
  have hperm := sortWriteSet_perm state.writeSet
  -- no put raised an error, so by `hlost` each of them is stored
  have hraise := not_raises_of_installLoop hloop
  have hputs : (afterPreCommit serializable env state db).2 =
      (sortWriteSet state.writeSet).map fun opt => (opt.key, opt.value) := by
    have hpasses : validationPasses serializable env state db = true := by
      rw [validationPasses, hlock, hvalidate]
      rfl
    unfold afterPreCommit
    rw [if_neg (by simp [hvalidated]), if_pos hpasses]
    refine installedPuts_of_stored fun opt hopt => ⟨hraise opt hopt, ?_⟩
    exact (hlost opt (hperm.mem_iff.mp hopt)).resolve_left (hraise opt hopt)
  intro key
  rw [hputs, values_of_key ((hperm.map _).nodup_iff.mpr hbuffers.nodup),
    find?_key_of_perm hperm hbuffers.nodup, ← hbuffers.last]
  rfl

/-! ### The invariant -/

/-- The state belongs to the transaction `t`, and buffers its row writes. -/
structure CurrentXact.OwnedBy (c : CurrentXact) (t : RunningXact) : Prop where
  owner : c.owner = t.record.number
  xactId : c.state.xactId = t.xactId
  buffers : Buffers c.state t.record.writes

/-- What holds of the running transaction. -/
structure Tracked (current : Option CurrentXact) (t : RunningXact) : Prop where
  owned : ∀ c, current = some c → c.OwnedBy t
  /-- Without a state, nothing was written. -/
  unused : current = none → t.record.writes = []
  notYet : t.phase ≠ .preCommitted → t.phase ≠ .failed → t.record.puts = []
  installed : t.phase = .preCommitted → t.record.InstalledOnce

structure LifecycleInv (b : Backend) : Prop where
  kept : LifecycleKept b
  tracked : ∀ t, b.running = some t → Tracked b.current t
  prepared : ∀ r ∈ b.prepared, r.InstalledOnce

theorem XactRecord.installedOnce_nil (n : ℕ) : XactRecord.InstalledOnce ⟨n, [], []⟩ :=
  fun _ => rfl

/-- **Refreshing finds the transaction's own state**, or makes one. -/
theorem Tracked.refresh (h : Tracked current t) :
    (refreshNramXact current t).OwnedBy t ∧ readsStale current t = false := by
  unfold refreshNramXact readsStale
  cases hc : current with
  | none =>
    -- a new state, which buffers nothing: and nothing was written
    refine ⟨⟨rfl, rfl, ?_⟩, rfl⟩
    rw [h.unused hc]
    exact .initial rfl
  | some c =>
    -- the ids agree, so the state is not made anew and its writes are kept
    have howned := h.owned c hc
    refine ⟨?_, by simp [howned.owner]⟩
    show CurrentXact.OwnedBy (if c.state.xactId ≠ t.xactId then _ else c) t
    rw [if_neg (not_not.mpr howned.xactId)]
    exact howned

theorem LifecycleInv.not_stale (h : LifecycleInv b) (ht : b.running = some t) :
    (b.usedStale || readsStale b.current t) = false := by
  rw [h.kept.own, (h.tracked t ht).refresh.2]
  rfl

theorem LifecycleInv.inside (h : LifecycleInv b) (hrunning : b'.running = some t)
    (htracked : Tracked b'.current t) (hstale : b'.usedStale = false)
    (hcommitted : ∀ r ∈ b'.committed, r.InstalledOnce) (hprepared : b'.prepared = b.prepared) :
    LifecycleInv b' := by
  refine ⟨⟨fun hnone => ?_, hstale, hcommitted⟩, fun t' ht' => ?_, ?_⟩
  · cases hrunning.symm.trans hnone
  · obtain rfl := Option.some.inj (hrunning.symm.trans ht')
    exact htracked
  · rw [hprepared]
    exact h.prepared

theorem LifecycleInv.ended (hrunning : b'.running = none) (hcurrent : b'.current = none)
    (hstale : b'.usedStale = false) (hcommitted : ∀ r ∈ b'.committed, r.InstalledOnce)
    (hprepared : ∀ r ∈ b'.prepared, r.InstalledOnce) : LifecycleInv b' := by
  refine ⟨⟨fun _ => hcurrent, hstale, hcommitted⟩, fun t ht => ?_, hprepared⟩
  cases hrunning.symm.trans ht

theorem Tracked.update {t' : RunningXact} (h : Tracked current t)
    (howned : c.OwnedBy t') (hphase : t'.phase = t.phase) (hactive : t.phase = .active)
    (hputs : t'.record.puts = t.record.puts) :
    Tracked (some c) t' := by
  refine ⟨fun c' hc' => ?_, nofun, fun h₁ h₂ => ?_, fun hpre => ?_⟩
  · cases hc'
    exact howned
  · rw [hphase] at h₁ h₂
    rw [hputs]
    exact h.notYet h₁ h₂
  · rw [hphase, hactive] at hpre
    cases hpre

theorem Tracked.failed (howned : c.OwnedBy t) (hphase : t.phase = .failed) :
    Tracked (some c) t := by
  refine ⟨fun c' hc' => ?_, nofun, fun _ h => absurd hphase h, fun hpre => ?_⟩
  · cases hc'
    exact howned
  · rw [hphase] at hpre
    cases hpre

/-! ### Events -/

theorem Tracked.preCommit (h : Tracked current t) (hactive : t.phase = .active)
    (db : RocksDB NRAMValue)
    (hlost : ∀ c, current = some c → ∀ opt ∈ c.state.writeSet, env.Raises opt ∨ env.Stored opt) :
    Tracked (nramXactCallback env .preCommit db current t).current
      { t with
        phase := if (nramXactCallback env .preCommit db current t).result.isOk then .preCommitted
          else .failed
        record := { t.record with
          puts := (nramXactCallback env .preCommit db current t).puts ++ t.record.puts } } := by
  have hputs : t.record.puts = [] := h.notYet (by simp [hactive]) (by simp [hactive])
  cases hcurrent : current with
  | none =>
    -- the callback returns at once, and there is nothing to install
    have hwrites := h.unused hcurrent
    refine ⟨nofun, fun _ => hwrites,
      fun hpre => absurd rfl hpre, fun _ => ?_⟩
    show XactRecord.InstalledOnce ⟨t.record.number, t.record.writes, [] ++ t.record.puts⟩
    rw [hwrites, hputs]
    exact XactRecord.installedOnce_nil _
  | some c₀ =>
    rw [hcurrent] at h hlost
    have hc : refreshNramXact (some c₀) t = c₀ :=
      if_neg (not_not.mpr (h.owned c₀ rfl).xactId)
    have howned := h.owned c₀ rfl
    simp only [nramXactCallback, hc]
    -- the event sorts the write set and sets the flag; what is buffered stays
    have hstate : Buffers (afterPreCommit t.serializable env c₀.state db).1 t.record.writes ∧
        (afterPreCommit t.serializable env c₀.state db).1.xactId = t.xactId := by
      unfold afterPreCommit
      split
      · exact ⟨howned.buffers, howned.xactId⟩
      · have hsorted := sortWriteSet_perm c₀.state.writeSet
        split <;> exact ⟨howned.buffers.perm hsorted, howned.xactId⟩
    refine ⟨fun c' hc' => ?_, nofun, fun h₁ h₂ => ?_, fun hpre => ?_⟩
    · cases hc'
      exact ⟨howned.owner, hstate.2, hstate.1⟩
    · -- after the event the transaction is in one of the two phases
      split at h₁
      · exact absurd rfl h₁
      · next hok => exact absurd (if_neg hok) h₂
    · cases hresult : (nramPreCommit t.serializable env c₀.state db).2 with
      | ok =>
        rw [hputs, append_nil]
        exact installedOnce_of_ok _ howned.buffers (hlost c₀ rfl) hresult
      | error e =>
        rw [hresult] at hpre
        cases hpre

theorem Tracked.prePrepare (h : Tracked current t) (hactive : t.phase = .active) (env : CallbackEnv)
    (db : RocksDB NRAMValue) :
    Tracked (nramXactCallback env .prePrepare db current t).current
      { t with
        phase := .prePrepared
        record := { t.record with
          puts := (nramXactCallback env .prePrepare db current t).puts ++ t.record.puts } } := by
  have hputs : t.record.puts = [] := h.notYet (by simp [hactive]) (by simp [hactive])
  cases hc : current with
  | none =>
    exact ⟨nofun, fun _ => h.unused hc,
      fun _ _ => hputs, nofun⟩
  | some c =>
    rw [hc] at h
    refine ⟨fun c' hc' => ?_, nofun,
      fun _ _ => hputs, nofun⟩
    cases hc'
    have howned := h.refresh.1
    exact ⟨howned.owner, howned.xactId, howned.buffers⟩

theorem nramXactCallback_clears (h : e = .commit ∨ e = .abort) (env : CallbackEnv)
    (db : RocksDB NRAMValue) (current : Option CurrentXact) (t : RunningXact) :
    (nramXactCallback env e db current t).current = none ∧
      (nramXactCallback env e db current t).puts = [] := by
  obtain rfl | rfl := h
  · cases current <;> exact ⟨rfl, rfl⟩
  · cases current <;> exact ⟨rfl, rfl⟩

theorem LifecycleInv.event (h : LifecycleInv b) (ht : b.running = some t)
    (hhandled : handled b (.event e env) = true)
    (hstep : runningStep b t (.event e env) = some b') :
    LifecycleInv b' := by
  have htracked := h.tracked t ht
  have hstale := h.not_stale ht
  simp only [runningStep] at hstep
  split at hstep
  · next hadmits =>
    cases hstep
    cases e with
    | preCommit =>
      have hlost : ∀ c, b.current = some c → ∀ opt ∈ c.state.writeSet,
          env.Raises opt ∨ env.Stored opt := by
        intro c hc opt hopt
        simp only [handled, hc, Option.all_some, all_eq_true, decide_eq_true_eq] at hhandled
        exact hhandled opt hopt
      exact h.inside rfl (htracked.preCommit (of_decide_eq_true hadmits) b.db hlost) hstale
        h.kept.installed rfl
    | prePrepare =>
      exact h.inside rfl (htracked.prePrepare (of_decide_eq_true hadmits) env b.db) hstale
        h.kept.installed rfl
    | commit =>
      obtain ⟨hcurrent, hputs⟩ := nramXactCallback_clears (Or.inl rfl) env b.db b.current t
      refine .ended rfl hcurrent hstale (fun r hr => ?_) h.prepared
      obtain rfl | hold := mem_cons.mp hr
      · -- `COMMIT` puts nothing: all was installed at `PRE_COMMIT`
        rw [hputs, nil_append]
        exact htracked.installed (of_decide_eq_true hadmits)
      · exact h.kept.installed r hold
    | abort =>
      obtain ⟨hcurrent, -⟩ := nramXactCallback_clears (Or.inr rfl) env b.db b.current t
      exact .ended rfl hcurrent hstale h.kept.installed h.prepared
    | prepare =>
      -- there is no state, so the transaction has written nothing
      have hnone : b.current = none := Option.isNone_iff_eq_none.mp hhandled
      have hphase : t.phase = .prePrepared := of_decide_eq_true hadmits
      have hputs : t.record.puts = [] := htracked.notYet (by simp [hphase]) (by simp [hphase])
      have hwrites : t.record.writes = [] := htracked.unused hnone
      refine .ended rfl ?_ hstale h.kept.installed fun r hr => ?_
      · show (nramXactCallback env .prepare b.db b.current t).current = none
        rw [hnone]
        rfl
      · obtain rfl | hold := mem_cons.mp hr
        · rw [hnone, hwrites, hputs]
          exact XactRecord.installedOnce_nil _
        · exact h.prepared r hold
    | parallelCommit | parallelAbort | parallelPreCommit => exact absurd hadmits (by simp
        [RunningXact.admits])
  · cases hstep

/-! ### Commands -/

theorem LifecycleInv.command (h : LifecycleInv b) (ht : b.running = some t)
    (hl : ∀ e env, l ≠ .event e env) (hstep : runningStep b t l = some b') : LifecycleInv b' := by
  have htracked := h.tracked t ht
  have howned := htracked.refresh.1
  have hstale := h.not_stale ht
  cases l with simp only [runningStep] at hstep
  | event e env => exact absurd rfl (hl e env)
  | executorStart ct =>
    split at hstep
    · next hactive =>
      cases hstep
      refine h.inside ht (htracked.update ?_ rfl hactive rfl) hstale h.kept.installed rfl
      exact ⟨howned.owner, howned.xactId, howned.buffers.congr (nramExecutorStart_writeSet _ _)⟩
    · cases hstep
  | executorEnd =>
    split at hstep
    · next hactive =>
      cases hstep
      refine h.inside ht (htracked.update ?_ rfl hactive rfl) hstale h.kept.installed rfl
      exact ⟨howned.owner, (nramExecutorEnd_xactId _).trans howned.xactId,
        howned.buffers.congr (nramExecutorEnd_writeSet _)⟩
    · cases hstep
  | call detectAll c reply =>
    split at hstep
    · next hactive =>
      split at hstep
      · -- the call raises an error before it touches the store, or below when it does
        cases hstep
        exact h.inside rfl (.failed ⟨howned.owner, howned.xactId, howned.buffers⟩ rfl) hstale
          h.kept.installed rfl
      · next scans _ access henter =>
        split at hstep
        · cases hstep
          exact h.inside rfl (.failed ⟨howned.owner, howned.xactId, howned.buffers⟩ rfl) hstale
            h.kept.installed rfl
        · next db state scans' row hperform =>
          cases hstep
          have hperformed := performed_of_eq hperform
          refine h.inside rfl (htracked.update ?_ rfl hactive rfl) hstale h.kept.installed rfl
          exact ⟨howned.owner, hperformed.validated_xactId_eq.2.trans howned.xactId,
            hperformed.buffers howned.buffers⟩
    · cases hstep
  | commitPrepared i =>
    split at hstep
    · -- the prepared transaction counts as committed with what it had put until then
      obtain ⟨r, hr, rfl⟩ := Option.map_eq_some_iff.mp hstep
      refine ⟨⟨fun hnone => absurd (ht.symm.trans hnone) (by simp), h.kept.own, ?_⟩, h.tracked,
        fun r' hr' => h.prepared r' (mem_of_mem_eraseIdx hr')⟩
      intro r' hr'
      obtain rfl | hold := mem_cons.mp hr'
      · exact h.prepared r' (mem_of_getElem? hr)
      · exact h.kept.installed r' hold
    · cases hstep
  | rollbackPrepared i =>
    split at hstep
    · cases hstep
      exact ⟨⟨h.kept.cleared, h.kept.own, h.kept.installed⟩, h.tracked,
        fun r hr => h.prepared r (mem_of_mem_eraseIdx hr)⟩
    · cases hstep
  | start xactId serializable found =>
    split at hstep <;> cases hstep
  | others db =>
    split at hstep <;> cases hstep

theorem LifecycleInv.start (h : LifecycleInv b) (hnone : b.running = none) (xactId : TransactionId)
    (serializable : Bool) (found : NRAMXactState) :
    LifecycleInv { b with
      current := b.current.map fun c => { c with state := found }
      running := some ⟨xactId, serializable, .active, fun _ => none, ⟨b.started, [], []⟩⟩
      started := b.started + 1 } := by
  -- the pointer is NULL between transactions, so nothing can be found behind it
  have hcurrent := h.kept.cleared hnone
  refine h.inside rfl ?_ h.kept.own h.kept.installed rfl
  rw [hcurrent]
  exact ⟨nofun, fun _ => rfl, fun _ _ => rfl, nofun⟩

theorem LifecycleInv.step (h : LifecycleInv b) (hhandled : handled b l = true)
    (hstep : backendStep b l = some b') : LifecycleInv b' := by
  -- but for the first two, a step is one of the running transaction
  have hinside : (∀ e env, l ≠ .event e env) → (b.running.bind fun t => runningStep b t l) =
      some b' → LifecycleInv b' := by
    intro hl hbind
    obtain ⟨t, ht, hrunning⟩ := Option.bind_eq_some_iff.mp hbind
    exact h.command ht hl hrunning
  cases l with
  | others db =>
    cases hstep
    exact ⟨⟨h.kept.cleared, h.kept.own, h.kept.installed⟩, h.tracked, h.prepared⟩
  | start xactId serializable found =>
    simp only [backendStep] at hstep
    split at hstep
    · cases hstep
    · next hnone =>
      split at hstep
      · cases hstep
      · cases hstep
        exact h.start hnone xactId serializable found
  | event e env =>
    obtain ⟨t, ht, hrunning⟩ := Option.bind_eq_some_iff.mp hstep
    exact h.event ht hhandled hrunning
  | executorStart | executorEnd | call | commitPrepared | rollbackPrepared =>
    exact hinside (by simp) hstep

theorem LifecycleInv.initial (h₀ : backendSystem.init b) : LifecycleInv b := by
  obtain ⟨hcurrent, hrunning, hstale, hprepared, hcommitted⟩ := h₀
  refine .ended hrunning hcurrent hstale ?_ ?_
  · rw [hcommitted]
    exact nofun
  · rw [hprepared]
    exact nofun

/-- **The lifecycle is kept where every event is handled.** In every run of a backend in which
`PREPARE` comes only to transactions without an NRAM state, and a put of the commit callback
that raises no error is stored, the pointer is NULL after each transaction, no transaction uses
the state of another, and each transaction that has committed, at once or after it was prepared,
has installed the last write of each of its keys exactly once. -/
theorem lifecycle_of_handled {b₀ b : Backend} {ls : List BackendLabel}
    (h₀ : backendSystem.init b₀)
    (hrun : (backendSystem.guard fun b l => handled b l = true).Run b₀ ls b) :
    LifecycleKept b := by
  have h : LifecycleInv b := hrun.invariant (LifecycleInv.initial h₀)
    fun _ _ _ h hstep => h.step hstep.2 hstep.1
  exact h.kept

/-- A backend on a store with one row of table `16384`. -/
def oneRowBackend : Backend where
  db := rocksenginePut .empty ⟨16384, 65537⟩ ⟨3, 0, []⟩
  current := none
  running := none
  started := 0
  usedStale := false
  prepared := []
  committed := []

theorem oneRowBackend_init : backendSystem.init oneRowBackend := ⟨rfl, rfl, rfl, rfl, rfl⟩

/-- Every lock is free, and every put is stored. -/
def calmEnv : CallbackEnv := ⟨fun _ => true, fun _ => true, fun _ => .ok⟩

/-- A transaction that updates the row; the two events follow. -/
def updateAndEnd (xactId : TransactionId) (e₁ e₂ : XactEvent) : List BackendLabel :=
  [.start xactId true (newNRAMXactState 10), .executorStart .update,
    .call false (.tupleUpdate 16384 (nramEncodeTid 65537) []) .ok, .event e₁ calmEnv,
    .event e₂ calmEnv]

/-- A transaction that commits a prepared one. -/
def finishPrepared (xactId : TransactionId) : List BackendLabel :=
  [.start xactId true (newNRAMXactState 10), .commitPrepared 0, .event .preCommit calmEnv,
    .event .commit calmEnv]

/-- An update that commits, a transaction without NRAM that is prepared and then committed, and
an update that aborts. -/
def threeEndings : List BackendLabel :=
  updateAndEnd 10 .preCommit .commit ++
    [.start 11 true (newNRAMXactState 10), .event .prePrepare calmEnv, .event .prepare calmEnv] ++
    finishPrepared 12 ++ (updateAndEnd 13 .preCommit .commit).take 3 ++ [.event .abort calmEnv]

/-- The update of the first is installed once, and the lifecycle is kept. -/
theorem update_installed_once :
    ∃ b, (backendSystem.guard fun b l => handled b l = true).Run oneRowBackend
        threeEndings b ∧
      b.committed = [⟨2, [], []⟩, ⟨1, [], []⟩,
        ⟨0, [(⟨16384, 65537⟩, ⟨10, 0, []⟩)], [(⟨16384, 65537⟩, ⟨10, 0, []⟩)]⟩] ∧
      LifecycleKept b :=
  System.exists_guard_run_of_exec (P := fun b => b.committed = [⟨2, [], []⟩, ⟨1, [], []⟩,
    ⟨0, [(⟨16384, 65537⟩, ⟨10, 0, []⟩)], [(⟨16384, 65537⟩, ⟨10, 0, []⟩)]⟩]) (by decide +kernel)
    fun _ hrun hb => ⟨hb, lifecycle_of_handled oneRowBackend_init hrun⟩

/-- **A prepared write is lost.** A transaction updates the row and is prepared. The pointer is
not NULL when it has ended. The next transaction commits it: its update is never put, and the
callback of that transaction reads the freed state. -/
theorem prepared_write_lost :
    (∃ b, backendSystem.Run oneRowBackend (updateAndEnd 10 .prePrepare .prepare) b ∧
        b.running = none ∧ b.current ≠ none) ∧
      ∃ b, backendSystem.Run oneRowBackend
          (updateAndEnd 10 .prePrepare .prepare ++ finishPrepared 11) b ∧
        b.usedStale = true ∧
        rocksengineGet b.db ⟨16384, 65537⟩ = some ⟨3, 0, []⟩ ∧
        ∃ r ∈ b.committed, r.writes = [(⟨16384, 65537⟩, ⟨10, 0, []⟩)] ∧ ¬ r.InstalledOnce := by
  refine ⟨?_, ?_⟩
  · refine System.exists_run_of_exec (P := fun b => b.running.isNone ∧ b.current.isSome)
      (by decide +kernel) ?_
    rintro b - ⟨hrunning, hcurrent⟩
    refine ⟨Option.isNone_iff_eq_none.mp hrunning, fun hnone => ?_⟩
    rw [hnone] at hcurrent
    cases hcurrent
  · refine System.exists_run_of_exec (P := fun b => b.usedStale = true ∧
      rocksengineGet b.db ⟨16384, 65537⟩ = some ⟨3, 0, []⟩ ∧
      ⟨0, [(⟨16384, 65537⟩, ⟨10, 0, []⟩)], []⟩ ∈ b.committed) (by decide +kernel) ?_
    rintro b - ⟨hstale, hget, hmem⟩
    refine ⟨hstale, hget, _, hmem, rfl, fun hinstalled => ?_⟩
    cases hinstalled ⟨16384, 65537⟩

end NeurDB.Nram
