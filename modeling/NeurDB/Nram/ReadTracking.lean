import NeurDB.Nram.TwoPhase

/-!
# Which reads are tracked

Optimistic validation compares the versions in the read set with the store, so it protects the
reads that are recorded; the lock-based mode protects those that are locked. A read that is
neither escapes. The three callbacks that hand out rows decide differently:

* `nram_fetch_row_version` records every row it reads from the store;
* `nram_getnextslot` and `nram_index_fetch_tuple` record a row under `SELECT` only. Under any
  other command — the scan of an `INSERT … SELECT` or of an `UPDATE`, a `MERGE` — the row is
  handed out unrecorded, and without `detect_all` it is not locked either
  (`insert_select_untracked`).

In every run whose steps meet `tracking`, each row that is handed out and is not the
transaction's own write is recorded with the version that was handed out, or was locked when it
was read and still is (`tracked_reads_complete`). The condition leaves `SELECT` and
`nram_fetch_row_version` alone; of the other reads it asks for the lock.
-/

namespace NeurDB.Nram

open Function List

/-! ### The condition -/

/-- A row from the store that the access hands out goes into the read set. -/
def Access.records (state : NRAMXactState) : Access → Bool
  | .scanRow _ _ _ | .indexFetchTuple _ => state.forRead
  | _ => true

/-- The call of `x` reads a row that it records, or asks for the lock of the row. -/
def tracksCall (detectAll : Bool) (state : NRAMXactState) (scans : Scans) : Call → Bool
  | .getnextslot scan =>
    match scans scan with
    | some desc =>
      match nextRow state desc.results with
      | some (.stored key _, _) =>
        state.forRead || detectAll && decide (key.tableOid = desc.relation)
      | _ => true
    | none => true
  | .indexFetchTuple relation tid =>
    (readOwn state (nramKeyFromTid relation tid)).isSome || state.forRead ||
      detectAll && state.forModify
  | _ => true

/-- **Steps that track what they read**: a read that is not recorded asks for a lock, and gets
it. -/
def tracking (policy : Policy) (s : Engine) : EngineLabel → Bool
  | .call x c =>
    match (s.tx x).state.action with
    | some a => tracksCall (policy a).detectAll (s.tx x).state (s.tx x).scans c
    | none => true
  | .lock x =>
    match (s.tx x).pc with
    | .acquiring ((.tuple relation tid, mode) :: _) access =>
      access.records (s.tx x).state ||
        decide ((s.sh.locks.acquire ⟨.tuple relation tid, mode, x⟩
          (s.tx x).rank.dontWait).2 ≠ .notAvail)
    | _ => true
  | _ => true

/-- The step meets the condition. -/
abbrev Tracking (policy : Policy) (s : Engine) (l : EngineLabel) : Prop :=
  tracking policy s l = true

/-! ### The invariant -/

/-- The read set of `x` has `k` with the version of `v`. -/
def Engine.Recorded (s : Engine) (x : TransactionId) (k : NRAMKey) (v : NRAMValue) : Prop :=
  ∃ opt ∈ (s.tx x).state.readSet, opt.key = k ∧ opt.xactId = v.xactId

/-- A pending access will record the row it hands out, or has its lock covered. -/
def ReadCovered (s : Engine) (x : TransactionId) (t : Xact) : Access → Prop
  | .ownRow k v => readOwn t.state k = some v
  | .scanRow k _ _ | .indexFetchTuple k =>
    t.state.forRead = true ∨ s.Covered x t.pc.requests k false
  | _ => True

/-- What holds in every state of a run that tracks its reads. -/
structure TrackInv (s : Engine) : Prop where
  /-- An entry of a read set names the version of its value. -/
  versions : ∀ x, ∀ opt ∈ (s.tx x).state.readSet, opt.xactId = opt.value.xactId
  access : ∀ x access, (s.tx x).pc.access? = some access → ReadCovered s x (s.tx x) access
  handed : ∀ e ∈ s.handed, (s.tx e.xact).pc.ended = false →
    s.Recorded e.xact e.key e.value ∨ s.Locked e.xact e.key false

/-! ### Performing an access -/

section Step

variable {policy : Policy} {s s' : Engine} {l : EngineLabel} {x : TransactionId}
  {row : Option (NRAMKey × NRAMValue)}

/-- The read set stays as it is, or a row is recorded at its end with its version. -/
def Records (state state' : NRAMXactState) : Prop :=
  state'.readSet = state.readSet ∨ ∃ k v, state'.readSet = (addReadSet state k v).readSet

variable {access : Access} {state : NRAMXactState} {k : NRAMKey} {v : NRAMValue} {scans : Scans}

theorem Performed.records {state' : NRAMXactState} {scans' : Scans} {db db' : RocksDB NRAMValue}
    (h : Performed state scans db access db' (some (state', scans', row))) :
    Records state state' := by
  cases h with
  | scanRow | indexFetchTuple =>
    split
    · exact .inr ⟨_, _, rfl⟩
    · exact .inl rfl
  | fetchRowVersion => exact .inr ⟨_, _, rfl⟩
  | insert | tupleUpdate => exact .inl (addWriteSet_readSet _ _ _)
  | _ => exact .inl rfl

theorem recorded_of_readOwn (hversions : ∀ opt ∈ state.readSet, opt.xactId = opt.value.xactId)
    (hown : readOwn state k = some v) (hwrite : readOwnWrite state k = none) :
    ∃ opt ∈ state.readSet, opt.key = k ∧ opt.xactId = v.xactId := by
  rw [readOwn, hwrite, Option.none_or] at hown
  obtain ⟨opt, hopt, rfl⟩ := Option.map_eq_some_iff.mp hown
  obtain ⟨hmem, hkey⟩ := mem_keys_of_find?_key hopt
  exact ⟨opt, hmem, hkey, hversions opt hmem⟩

/-- **A row is recorded as it is handed out, or it is locked before.** -/
theorem TrackInv.performed (h : TrackInv s) {db : RocksDB NRAMValue}
    (hpc : (s.tx x).pc = .acquiring [] access)
    (hperf : Performed (s.tx x).state (s.tx x).scans s.sh.db access db
      (some (state, scans, some (k, v))))
    (hwrite : readOwnWrite (s.tx x).state k = none) :
    (∃ opt ∈ state.readSet, opt.key = k ∧ opt.xactId = v.xactId) ∨ s.Locked x k false := by
  have haccess : ReadCovered s x (s.tx x) access := h.access x access (by rw [hpc]; rfl)
  -- a read that is not recorded has no request left, so its lock is held
  have hread : ((s.tx x).state.forRead = true ∨ s.Covered x (s.tx x).pc.requests k false) →
      (∃ opt ∈ (if (s.tx x).state.forRead then addReadSet (s.tx x).state k v
        else (s.tx x).state).readSet, opt.key = k ∧ opt.xactId = v.xactId) ∨
        s.Locked x k false := by
    intro hcovered
    -- recorded now, locked already, or asked for: but no request is left
    obtain hfor | hlocked | ⟨mode, -, hreq⟩ := hcovered
    · rw [if_pos hfor]
      exact .inl ⟨_, mem_append_right _ (mem_singleton_self _), rfl, rfl⟩
    · exact .inr hlocked
    · rw [hpc] at hreq
      cases hreq
  cases hperf with
  | ownRow => exact .inl (recorded_of_readOwn (h.versions x) haccess hwrite)
  | ownVersion hown => exact .inl (recorded_of_readOwn (h.versions x) hown hwrite)
  | scanRow | indexFetchTuple => exact hread haccess
  | fetchRowVersion =>
    exact .inl ⟨_, mem_append_right _ (mem_singleton_self _), rfl, rfl⟩

/-! ### Calls -/

/-- **A call that tracks its read** will record the row or covers its lock. -/
theorem readCovered_of_enter {detectAll : Bool} {c : Call} {todo : List LockRequest}
    {t' : Xact} (htracks : tracksCall detectAll (s.tx x).state (s.tx x).scans c = true)
    (henter : enter detectAll (s.tx x).state (s.tx x).scans c = some (scans, todo, access))
    (hstate : t'.state = (s.tx x).state) (htodo : t'.pc.requests = todo) :
    ReadCovered s x t' access := by
  cases entered_of_eq henter with
  | beginscan | endOfScan | fetchRowVersion | insert | tupleUpdate => trivial
  | @ownRow _ _ k v _ _ _ hown =>
    show readOwn t'.state k = some v
    rw [hstate]
    exact hown
  | @scanRow _ desc k _ _ hdesc hnext =>
    simp only [tracksCall, hdesc, hnext, Bool.or_eq_true, Bool.and_eq_true, decide_eq_true_eq]
      at htracks
    show t'.state.forRead = true ∨ s.Covered x t'.pc.requests k false
    rw [hstate, htodo]
    refine htracks.imp_right ?_
    -- a scan under `detect_all` asks for the lock under the tag of the scanned table
    rintro ⟨hdetect, htable⟩
    rw [if_pos hdetect]
    exact covered_lockForRead s x (by rw [tupleTag, htable])
  | @ownTuple _ _ v hown =>
    show readOwn t'.state _ = some v
    rw [hstate]
    exact hown
  | @indexFetchTuple relation tid hown =>
    simp only [tracksCall, hown, Option.isSome_none, Bool.false_or, Bool.or_eq_true,
      Bool.and_eq_true] at htracks
    show t'.state.forRead = true ∨ s.Covered x t'.pc.requests _ false
    rw [hstate, htodo]
    refine htracks.imp_right ?_
    rintro ⟨hdetect, hmodify⟩
    rw [if_pos hdetect]
    exact covered_fetchLocks s x relation tid (.inl hmodify)

/-! ### Moves -/

/-- **What a step does to a read set.** -/
theorem Move.records (hmove : Move policy s l x (s.tx x) s' row) (y : TransactionId) :
    Records (s.tx y).state (s'.tx y).state := by
  by_cases hyx : y = x
  · subst hyx
    have hself : ∀ {t' : Xact}, s'.tx = update s.tx y t' →
        Records (s.tx y).state t'.state → Records (s.tx y).state (s'.tx y).state := by
      intro t' htx ht'
      rw [htx, update_self]
      exact ht'
    cases hmove with
    | statement _ hstate =>
      refine hself rfl (.inl ?_)
      obtain ⟨ct, rfl⟩ | rfl := hstate
      · rfl
      · exact nramExecutorEnd_readSet _
    | perform _ hperform => exact hself rfl (performed_of_eq hperform).records
    -- the other steps leave the read set alone
    | _ => exact hself rfl (.inl rfl)
  · rw [hmove.others hyx]
    exact .inl rfl

theorem Move.readSet_mono (hmove : Move policy s l x (s.tx x) s' row) (y : TransactionId)
    {opt : NRAMXactOpt} (hopt : opt ∈ (s.tx y).state.readSet) :
    opt ∈ (s'.tx y).state.readSet := by
  obtain heq | ⟨k, v, heq⟩ := hmove.records y
  · rw [heq]
    exact hopt
  · rw [heq, addReadSet_readSet]
    exact mem_append_left _ hopt

theorem TrackInv.move_versions (h : TrackInv s) (hmove : Move policy s l x (s.tx x) s' row)
    (y : TransactionId) : ∀ opt ∈ (s'.tx y).state.readSet, opt.xactId = opt.value.xactId := by
  intro opt hopt
  obtain heq | ⟨k, v, heq⟩ := hmove.records y
  · rw [heq] at hopt
    exact h.versions y opt hopt
  · -- the new entry has the version of the row
    rw [heq, addReadSet_readSet] at hopt
    obtain hold | rfl := mem_append_singleton.mp hopt
    · exact h.versions y opt hold
    · rfl

theorem ReadCovered.next {t t' : Xact} (h : ReadCovered s x t access) (hstate : t'.state = t.state)
    (hcovered : access.records t.state = false → ∀ k, s.Covered x t.pc.requests k false →
      s'.Covered x t'.pc.requests k false) :
    ReadCovered s' x t' access := by
  have hread : ∀ {k : NRAMKey}, access.records t.state = t.state.forRead →
      (t.state.forRead = true ∨ s.Covered x t.pc.requests k false) →
      t'.state.forRead = true ∨ s'.Covered x t'.pc.requests k false := by
    intro k hrec hk
    rw [hstate]
    by_cases hfor : t.state.forRead = true
    · exact .inl hfor
    · exact .inr (hcovered (hrec.trans (Bool.eq_false_iff.mpr hfor)) k (hk.resolve_left hfor))
  cases access with
  | ownRow k v =>
    show readOwn t'.state k = some v
    rw [hstate]
    exact h
  | scanRow k v reload | indexFetchTuple k => exact hread rfl h
  | _ => trivial

theorem TrackInv.move_access (h : TrackInv s) (htracking : Tracking policy s l)
    (hmove : Move policy s l x (s.tx x) s' row) (haccess : (s'.tx x).pc.access? = some access) :
    ReadCovered s' x (s'.tx x) access := by
  have hrunning : (s'.tx x).pc.ended = false := Pc.running_of_access? haccess
  have hkeep : ∀ {k : NRAMKey}, s.Locked x k false → s'.Locked x k false :=
    fun hk => hmove.keeps_locked hk hrunning
  -- after a step that is not towards a lock there is no pending access
  have hnone : ∀ {t' : Xact}, s'.tx = update s.tx x t' → t'.pc.access? = none →
      ReadCovered s' x (s'.tx x) access := by
    intro t' htx hpc
    rw [htx, update_self] at haccess
    cases hpc.symm.trans haccess
  -- a step towards a lock keeps the access
  have hpending : ∀ {a : Access} {pc : Pc}, (s.tx x).pc.access? = some a →
      s'.tx = update s.tx x { s.tx x with pc := pc } → pc.access? = some a →
      (a.records (s.tx x).state = false → ∀ k, s.Covered x (s.tx x).pc.requests k false →
        s'.Covered x pc.requests k false) → ReadCovered s' x (s'.tx x) access := by
    intro a pc hold htx hpc hcovered
    rw [htx, update_self] at haccess ⊢
    obtain rfl : a = access := Option.some.inj (hpc.symm.trans haccess)
    exact (h.access x a hold).next rfl hcovered
  cases hmove with
  | statement hpc =>
    refine hnone rfl ?_
    show (s.tx x).pc.access? = none
    rw [hpc]
    rfl
  | @call c a scans todo access' hl hpc haction henter hadm =>
    subst hl
    have htracks : tracksCall (policy a).detectAll (s.tx x).state (s.tx x).scans c = true := by
      simpa only [Tracking, tracking, haction] using htracking
    have hupd : update s.tx x
        { s.tx x with scans, pc := .acquiring todo access' } x =
        { s.tx x with scans, pc := .acquiring todo access' } := update_self _ _ _
    simp only [Engine.set, hupd] at haccess ⊢
    obtain rfl : access' = access := Option.some.inj haccess
    have hcovered : ReadCovered s x
        { s.tx x with scans, pc := .acquiring todo access' } access' :=
      readCovered_of_enter htracks henter rfl rfl
    exact hcovered.next rfl fun _ k hk => hk.imp_left hkeep
  | @lock req todo a locks hpc hl =>
    have hpc' : (s.tx x).pc.access? = some a ∧ (s.tx x).pc.requests = req :: todo := by
      obtain hpc | hpc := hpc <;> rw [hpc] <;> exact ⟨rfl, rfl⟩
    refine hpending hpc'.1 rfl rfl fun _ k hk => ?_
    rw [hpc'.2] at hk
    refine hk.next hkeep fun _ _ _ => ?_
    show _ ∈ locks.holders
    rw [hl]
    exact mem_cons_self
  | @refused req todo a locks hl hpc hres _ =>
    subst hl
    refine hpending (by rw [hpc]; rfl) rfl rfl fun hrec k hk => ?_
    rw [hpc] at hk
    refine hk.next hkeep fun relation tid htag => ?_
    -- the lock of a read that is not recorded is not refused
    obtain ⟨tag, mode⟩ := req
    obtain rfl : tag = .tuple relation tid := htag
    simp only [Tracking, tracking, hpc, hrec, Bool.false_or, decide_eq_true_eq] at htracking
    exact absurd hres htracking
  | block hpc _ =>
    -- the request it waits for stays
    refine hpending (by rw [hpc]; rfl) rfl rfl fun _ k hk => ?_
    rw [hpc] at hk
    exact hk.imp_left hkeep
  | perform | performError | preCommit | callback | callbackError => exact hnone rfl rfl
  | finish _ hpc =>
    refine hnone rfl ?_
    obtain rfl | ⟨rfl, -⟩ := hpc <;> rfl

theorem TrackInv.hands_out (h : TrackInv s) (hmove : Move policy s l x (s.tx x) s' (some (k, v)))
    (hwrite : readOwnWrite (s.tx x).state k = none) :
    s'.Recorded x k v ∨ s.Locked x k false := by
  cases hmove with
  | perform hpc hperform =>
    refine (h.performed hpc (performed_of_eq hperform) hwrite).imp_left ?_
    rintro ⟨opt, hopt, hkey⟩
    refine ⟨opt, ?_, hkey⟩
    show opt ∈ (update s.tx x _ x).state.readSet
    rw [update_self]
    exact hopt

theorem TrackInv.mem_handed (h : TrackInv s) (hmove : Move policy s l x (s.tx x) s' row)
    {e : Handed} (he : e ∈ s'.handed) :
    e ∈ s.handed ∨ (e.xact = x ∧ (s'.Recorded x e.key e.value ∨ s.Locked x e.key false)) := by
  have hmove' := hmove
  -- only the second part of a callback hands out a row
  cases hmove with
  | perform =>
    obtain hnew | hold := mem_append.mp he
    · obtain ⟨rfl, hxact, hwrite⟩ := mem_handedOut hnew
      exact .inr ⟨hxact, h.hands_out hmove' hwrite⟩
    · exact .inl hold
  | _ => exact .inl he

theorem TrackInv.move (h : TrackInv s) (htracking : Tracking policy s l)
    (hmove : Move policy s l x (s.tx x) s' row) : TrackInv s' := by
  refine ⟨h.move_versions hmove, fun y access ha => ?_, fun e he hrunning => ?_⟩
  · by_cases hyx : y = x
    · subst hyx
      exact h.move_access htracking hmove ha
    · -- who is in a callback has not ended, so its locks stay
      have hrunning : (s'.tx y).pc.ended = false := Pc.running_of_access? ha
      rw [hmove.others hyx] at ha
      refine (h.access y access ha).next (by rw [hmove.others hyx]) fun _ k hk => ?_
      rw [hmove.others hyx]
      exact hk.imp_left fun hlocked => hmove.keeps_locked hlocked hrunning
  · have hold : (s.Recorded e.xact e.key e.value ∨ s.Locked e.xact e.key false) →
        s'.Recorded e.xact e.key e.value ∨ s'.Locked e.xact e.key false := by
      refine Or.imp ?_ fun hlocked => hmove.keeps_locked hlocked hrunning
      rintro ⟨opt, hopt, hkey⟩
      exact ⟨opt, hmove.readSet_mono e.xact hopt, hkey⟩
    obtain hin | ⟨hxact, hnew⟩ := h.mem_handed hmove he
    · refine hold (h.handed e hin ?_)
      by_cases hex : e.xact = x
      · rw [hex]
        exact hmove.running
      · rw [hmove.others hex] at hrunning
        exact hrunning
    · rw [hxact] at hrunning ⊢
      exact hnew.imp_right fun hlocked => hmove.keeps_locked hlocked hrunning

end Step

theorem TrackInv.initial {policy : Policy} {s : Engine} (h₀ : (engineSystem policy).init s) :
    TrackInv s := by
  obtain ⟨-, hhanded, -, htx, -⟩ := h₀
  refine ⟨fun x opt hopt => ?_, fun x access ha => ?_, fun e he => ?_⟩
  · rw [(htx x).1] at hopt
    cases hopt
  · obtain hpc | hpc := (htx x).2.2 <;> rw [hpc] at ha <;> cases ha
  · rw [hhanded] at he
    cases he

/-! ### Runs -/

/-- **Read tracking is complete in runs that track their reads.** In every state of such a run,
each row that was handed to a transaction that has not ended and that was not its own write is
recorded with the version handed out, or locked. And where a step hands out such a row, it
records it, or the lock was held before the step. -/
theorem tracked_reads_complete {policy : Policy} {s₀ s : Engine} {ls : List EngineLabel}
    (h₀ : (engineSystem policy).init s₀)
    (hrun : ((engineSystem policy).guard (Tracking policy)).Run s₀ ls s) :
    (∀ e ∈ s.handed, (s.tx e.xact).pc.ended = false →
      s.Recorded e.xact e.key e.value ∨ s.Locked e.xact e.key false) ∧
    ∀ l s' k v, engineStep policy s l = some (s', some (k, v)) →
      readOwnWrite (s.tx l.xact).state k = none →
      s'.Recorded l.xact k v ∨ s.Locked l.xact k false := by
  have h : TrackInv s := engine_guard_invariant hrun (TrackInv.initial h₀)
    fun _ _ _ _ h htracking hmove => h.move htracking hmove
  exact ⟨h.handed, fun l s' k v hstep hwrite => h.hands_out (engineStep_move hstep) hwrite⟩

/-- The transaction `x` scans the table `16384` under the command `ct` and goes to commit. -/
def scanAndCommit (x : TransactionId) (ct : CmdType) : List EngineLabel :=
  [.executorStart x ct, .call x (.beginscan 0 16384), .perform x .ok,
    .call x (.getnextslot 0), .perform x .ok, .preCommit x]

/-- The scan of a `SELECT` is tracked. -/
theorem select_tracked :
    ∃ s, ((engineSystem fun _ => ⟨false, .finite 0, 0⟩).guard
        (Tracking fun _ => ⟨false, .finite 0, 0⟩)).Run oneRowEngine (scanAndCommit 10 .select) s ∧
      (s.tx 10).pc.ended = false ∧ ⟨10, ⟨16384, 65537⟩, ⟨3, 0, []⟩⟩ ∈ s.handed ∧
      (s.Recorded 10 ⟨16384, 65537⟩ ⟨3, 0, []⟩ ∨ s.Locked 10 ⟨16384, 65537⟩ false) := by
  refine System.exists_guard_run_of_exec (P := fun s => (s.tx 10).pc.ended = false ∧
    ⟨10, ⟨16384, 65537⟩, ⟨3, 0, []⟩⟩ ∈ s.handed) (by decide +kernel) ?_
  rintro s hrun ⟨h10, hin⟩
  have htracked := tracked_reads_complete (oneRowEngine_init _) hrun
  exact ⟨h10, hin, htracked.1 _ hin h10⟩

/-- **A read that escapes.** The scan of an `INSERT … SELECT` of a serializable transaction
hands out a row; when the transaction goes to commit its read set is empty, and it holds no lock
on the row. -/
theorem insert_select_untracked :
    ∃ s, (engineSystem fun _ => ⟨false, .finite 0, 0⟩).Run oneRowEngine
        (scanAndCommit 10 .insert) s ∧
      (s.tx 10).serializable = true ∧ (s.tx 10).pc.ended = false ∧
      ⟨10, ⟨16384, 65537⟩, ⟨3, 0, []⟩⟩ ∈ s.handed ∧
      ¬ (s.Recorded 10 ⟨16384, 65537⟩ ⟨3, 0, []⟩ ∨ s.Locked 10 ⟨16384, 65537⟩ false) := by
  refine System.exists_run_of_exec (P := fun s => (s.tx 10).serializable = true ∧
    (s.tx 10).pc.ended = false ∧ ⟨10, ⟨16384, 65537⟩, ⟨3, 0, []⟩⟩ ∈ s.handed ∧
    (s.tx 10).state.readSet = [] ∧ s.sh.locks.holders = []) (by decide +kernel) ?_
  rintro s - ⟨hser, h10, hin, hread, hlocks⟩
  refine ⟨hser, h10, hin, ?_⟩
  rintro (⟨opt, hopt, -⟩ | ⟨mode, -, hheld⟩)
  · rw [hread] at hopt
    cases hopt
  · rw [hlocks] at hheld
    cases hheld

end NeurDB.Nram
