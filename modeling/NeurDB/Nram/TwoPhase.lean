import NeurDB.Nram.Engine

/-!
# The lock-based mode

Under a policy that sets `detect_all` everywhere, the access callbacks lock every row they read
or write under its tuple tag, and the locks stay until the transaction ends: strict two-phase
locking. This holds only as far as the lock is really asked for, under the right tag, and
granted. Three things go wrong in the code:

* `LockTuple` throws the result of `LockAcquire` away. For a process whose rank exceeds `9.8`
  the request does not wait, so a lock that is not available is not taken and the callback goes
  on all the same (`high_rank_skips_lock`);
* `nram_index_fetch_tuple` and `nram_fetch_row_version` ask for a lock only under `SELECT`,
  `INSERT`, `UPDATE` and `DELETE`; a `MERGE` reads without one;
* `nram_getnextslot` makes the tag from the table that is scanned, and a scan can return rows of
  another table.

In every run whose steps avoid these (`Careful`), a transaction that has not ended holds a lock
on every row it has accessed, and conflicting accesses exclude each other
(`careful_strict_two_phase`).

The proof has two parts. A tuple lock of a transaction survives every step until the transaction
ends: the commit callback gives back advisory locks only (`Move.keeps_tupleLock`). And between
its call and its performance an access is **covered** (`Engine.Covered`): the lock it needs is held,
or is among the requests still to be made.
-/

namespace NeurDB.Nram

open Function List

/-! ### Tuple locks -/

/-- A lock in this mode is enough to read, or to write. -/
def LockMode.Allows (mode : LockMode) (write : Bool) : Prop :=
  mode = .exclusive ∨ (write = false ∧ mode = .share)

variable {k : NRAMKey} {write : Bool} {y : TransactionId} {mode : LockMode} {state : NRAMXactState}

theorem LockMode.Allows.read (h : mode.Allows write) : mode.Allows false :=
  h.imp_right fun h => ⟨rfl, h.2⟩

/-- `x` holds a lock on the tuple tag of `k` that is enough to read, or to write. -/
def Engine.Locked (s : Engine) (x : TransactionId) (k : NRAMKey) (write : Bool) : Prop :=
  ∃ mode : LockMode, mode.Allows write ∧ ⟨tupleTag k, mode, x⟩ ∈ s.sh.locks.holders

variable {s : Engine} {x : TransactionId} {policy : Policy} {row : Option (NRAMKey × NRAMValue)}
  {l : EngineLabel} {s' : Engine}

theorem Engine.Locked.read (h : s.Locked x k write) : s.Locked x k false := by
  obtain ⟨mode, hmode, hheld⟩ := h
  exact ⟨mode, hmode.read, hheld⟩

/-- **Exclusion.** While one transaction may write a row, no other may access it. -/
theorem Engine.Locked.exclusive (hx : s.Locked x k true) (hy : s.Locked y k write) : x = y := by
  obtain ⟨mode, hmode, hheld⟩ := hx
  obtain ⟨mode', hmode', hheld'⟩ := hy
  -- only the exclusive mode allows a write, and it conflicts with both modes
  obtain rfl := hmode.resolve_right (by simp)
  refine s.sh.locks.exclusion hheld hheld' rfl ?_
  obtain rfl | ⟨-, rfl⟩ := hmode' <;> rfl

/-- The commit callback takes and gives back advisory locks only. -/
theorem CommitMove.keeps_tupleLock {serializable : Bool} {reply : PutReply} {sh sh' : Shared}
    {phase : CommitPhase} {res : Except CommitError CommitPhase}
    (h : CommitMove serializable reply state sh phase sh' res)
    (hheld : ⟨tupleTag k, mode, y⟩ ∈ sh.locks.holders) :
    ⟨tupleTag k, mode, y⟩ ∈ sh'.locks.holders := by
  -- giving back an advisory lock leaves the tuple lock alone
  have hne : ∀ key mode', (⟨tupleTag k, mode, y⟩ : NRAMLock) ≠
      advisoryLock key mode' state.xactId := by
    intro key mode' heq
    cases congrArg Lock.tag heq
  cases h with
  | lock hl | wake hl | peek hl =>
    show _ ∈ LockTable.holders _
    rw [hl]
    exact mem_cons_of_mem _ hheld
  | block hl | fail hl =>
    show _ ∈ LockTable.holders _
    rw [hl]
    exact hheld
  | unpeek hl =>
    show _ ∈ LockTable.holders _
    obtain hl | hl := hl
    · rw [hl]
      exact (mem_erase_of_ne (hne _ _)).mpr hheld
    · rw [hl]
      exact hheld
  | release hl =>
    show _ ∈ LockTable.holders _
    rw [hl]
    exact (mem_erase_of_ne (hne _ _)).mpr hheld
  | _ => exact hheld

/-- **Strictness.** A tuple lock is held until its owner ends. -/
theorem Move.keeps_tupleLock
    (h : Move policy s l x (s.tx x) s' row) (hheld : ⟨tupleTag k, mode, y⟩ ∈ s.sh.locks.holders)
    (hrunning : (s'.tx y).pc.ended = false) :
    ⟨tupleTag k, mode, y⟩ ∈ s'.sh.locks.holders := by
  -- the end of `x` gives back the locks of `x` only
  have hends : ∀ {locks : Locks} {pc : Pc}, pc.ended = true →
      s'.tx = update s.tx x { s.tx x with pc := pc } →
      ⟨tupleTag k, mode, y⟩ ∈ locks.holders →
      ⟨tupleTag k, mode, y⟩ ∈ (locks.releaseAll x).holders := by
    intro locks pc hpc htx hin
    refine LockTable.mem_releaseAll.mpr ⟨hin, fun hyx => ?_⟩
    obtain rfl : y = x := hyx
    rw [htx, update_self] at hrunning
    cases hpc.symm.trans hrunning
  cases h with
  | lock _ hl =>
    show _ ∈ LockTable.holders _
    rw [hl]
    exact mem_cons_of_mem _ hheld
  | refused _ _ _ hl | block _ hl =>
    show _ ∈ LockTable.holders _
    rw [hl]
    exact hheld
  | callback _ hcommit => exact hcommit.keeps_tupleLock hheld
  | callbackError _ hcommit => exact hends rfl rfl (hcommit.keeps_tupleLock hheld)
  | performError => exact hends rfl rfl hheld
  | @finish pc _ hpc =>
    -- commit and abort both release everything the transaction holds
    refine hends ?_ rfl hheld
    obtain rfl | ⟨rfl, -⟩ := hpc <;> rfl
  | _ => exact hheld

theorem Move.keeps_locked (h : Move policy s l x (s.tx x) s' row) (hlocked : s.Locked y k write)
    (hrunning : (s'.tx y).pc.ended = false) :
    s'.Locked y k write := by
  obtain ⟨mode, hmode, hheld⟩ := hlocked
  exact ⟨mode, hmode, h.keeps_tupleLock hheld hrunning⟩

/-! ### The condition -/

/-- **Steps that lock what they touch.** A tuple lock that is asked for is granted, sooner or
later; a row that a scan is about to lock belongs to the table that is scanned; rows are fetched
by the four commands that lock them. -/
def careful (s : Engine) : EngineLabel → Bool
  | .lock x =>
    match (s.tx x).pc with
    | .acquiring ((.tuple relation tid, mode) :: _) _ =>
      (s.sh.locks.acquire ⟨.tuple relation tid, mode, x⟩ (s.tx x).rank.dontWait).2 ≠ .notAvail
    | _ => true
  | .call x (.getnextslot scan) =>
    match (s.tx x).scans scan with
    | some desc =>
      match nextRow (s.tx x).state desc.results with
      | some (.stored key _, _) => key.tableOid = desc.relation
      | _ => true
    | none => true
  | .call x (.indexFetchTuple _ _) | .call x (.fetchRowVersion _ _) =>
    (s.tx x).state.forModify || (s.tx x).state.forRead
  | _ => true

/-- Every step of the run is careful. -/
abbrev Careful (s : Engine) (l : EngineLabel) : Prop := careful s l = true

/-! ### Covered accesses -/

/-- The lock that an access to `k` needs is held, or is among the requests. -/
def Engine.Covered (s : Engine) (x : TransactionId) (requests : List LockRequest) (k : NRAMKey)
    (write : Bool) : Prop :=
  s.Locked x k write ∨ ∃ mode : LockMode, mode.Allows write ∧ (tupleTag k, mode) ∈ requests

/-- The sets hold locked rows only. -/
structure SetsLocked (s : Engine) (x : TransactionId) (state : NRAMXactState) : Prop where
  writes : ∀ opt ∈ state.writeSet, s.Locked x opt.key true
  reads : ∀ opt ∈ state.readSet, s.Locked x opt.key false

/-- What holds of a transaction `x` with the record `t`. -/
structure XactLocked (s : Engine) (x : TransactionId) (t : Xact) : Prop where
  sets : SetsLocked s x t.state
  access : ∀ access, t.pc.access? = some access →
    ∀ e ∈ access.touches, s.Covered x t.pc.requests e.1 e.2

/-- What holds in every state of a careful run. -/
structure TwoPhaseInv (s : Engine) : Prop where
  xact : ∀ x, (s.tx x).pc.ended = false → XactLocked s x (s.tx x)
  accessed : ∀ e ∈ s.accessed, (s.tx e.xact).pc.ended = false → s.Locked e.xact e.key e.write

theorem tupleTag_keyFromTid (relation : Oid) (tid : ItemPointer) :
    tupleTag (nramKeyFromTid relation tid) = .tuple relation tid :=
  congrArg (LockTag.tuple relation) (nramEncodeTid_decodeTid tid)

section

variable (s : Engine) (x : TransactionId)

theorem covered_lockForWrite (relation : Oid) (tid : ItemPointer) (write : Bool) :
    s.Covered x (nramLockForWrite relation tid) (nramKeyFromTid relation tid) write := by
  refine .inr ⟨.exclusive, .inl rfl, ?_⟩
  rw [tupleTag_keyFromTid]
  exact mem_cons_of_mem _ mem_cons_self

theorem covered_lockForRead {relation : Oid} {tid : ItemPointer}
    (hk : tupleTag k = .tuple relation tid) :
    s.Covered x (nramLockForRead relation tid) k false := by
  refine .inr ⟨.share, .inr ⟨rfl, rfl⟩, ?_⟩
  rw [hk]
  exact mem_cons_of_mem _ mem_cons_self

theorem covered_fetchLocks (relation : Oid) (tid : ItemPointer)
    (h : state.forModify = true ∨ state.forRead = true) :
    s.Covered x (fetchLocks state relation tid) (nramKeyFromTid relation tid) false := by
  unfold fetchLocks
  split
  · exact covered_lockForWrite s x relation tid false
  · next hmodify =>
    rw [if_pos (h.resolve_left hmodify)]
    exact covered_lockForRead s x (tupleTag_keyFromTid relation tid)

end

theorem SetsLocked.of_readOwn (h : SetsLocked s x state) {v : NRAMValue}
    (hown : readOwn state k = some v) :
    s.Locked x k false := by
  -- a write lock is enough to read
  obtain hw | ⟨-, hr⟩ := Option.or_eq_some_iff.mp hown
  · obtain ⟨opt, hopt, -⟩ := Option.map_eq_some_iff.mp hw
    obtain ⟨hmem, rfl⟩ := mem_keys_of_find?_key hopt
    exact (h.writes opt hmem).read
  · obtain ⟨opt, hopt, -⟩ := Option.map_eq_some_iff.mp hr
    obtain ⟨hmem, rfl⟩ := mem_keys_of_find?_key hopt
    exact h.reads opt hmem

/-- **A call covers its access.** -/
theorem SetsLocked.enter_covered {c : Call} {scans : Scans} {todo : List LockRequest}
    {access : Access} (h : SetsLocked s x (s.tx x).state) (hcareful : Careful s (.call x c))
    (henter : enter true (s.tx x).state (s.tx x).scans c = some (scans, todo, access)) :
    ∀ e ∈ access.touches, s.Covered x todo e.1 e.2 := by
  -- every access touches one row at most
  have hone : ∀ {k : NRAMKey} {write : Bool}, s.Covered x todo k write →
      ∀ e ∈ [(k, write)], s.Covered x todo e.1 e.2 := by
    intro k write hk e he
    obtain rfl := mem_singleton.mp he
    exact hk
  cases entered_of_eq henter with
  | beginscan | endOfScan => exact nofun
  | ownRow _ _ hown | ownTuple hown => exact hone (.inl (h.of_readOwn hown))
  | @scanRow _ desc k _ _ hdesc hnext =>
    -- the tag is made from the table that is scanned, so the row has to be one of its rows
    have htable : k.tableOid = desc.relation := by
      simp only [Careful, careful, hdesc, hnext] at hcareful
      exact of_decide_eq_true hcareful
    exact hone (covered_lockForRead s x (by rw [tupleTag, htable]))
  | @indexFetchTuple relation tid | @fetchRowVersion relation tid =>
    exact hone (covered_fetchLocks s x relation tid ((Bool.or_eq_true _ _).mp hcareful))
  | @insert relation tid => exact hone (covered_lockForWrite s x relation tid true)
  | @tupleUpdate relation otid =>
    refine hone ?_
    -- a row written before is locked already
    cases hown : readOwnWrite (s.tx x).state (nramKeyFromTid relation otid) with
    | none => exact covered_lockForWrite s x relation otid true
    | some v =>
      obtain ⟨opt, hopt, -⟩ := Option.map_eq_some_iff.mp hown
      obtain ⟨hmem, hkey⟩ := mem_keys_of_find?_key hopt
      exact .inl (hkey ▸ h.writes opt hmem)

/-! ### Steps -/

section Step

variable {policy : Policy} {s s' : Engine} {l : EngineLabel} {x : TransactionId}
  {row : Option (NRAMKey × NRAMValue)} {state' : NRAMXactState} {access : Access}

theorem SetsLocked.keep (h : SetsLocked s x state)
    (hmove : Move policy s l x (s.tx x) s' row) (hrunning : (s'.tx x).pc.ended = false)
    (hwrite : ∀ opt ∈ state'.writeSet, opt ∈ state.writeSet)
    (hread : ∀ opt ∈ state'.readSet, opt ∈ state.readSet) : SetsLocked s' x state' where
  writes opt hopt := hmove.keeps_locked (h.writes opt (hwrite opt hopt)) hrunning
  reads opt hopt := hmove.keeps_locked (h.reads opt (hread opt hopt)) hrunning

theorem SetsLocked.performed {scans scans' : Scans}
    {db db' : RocksDB NRAMValue} (h : SetsLocked s x state)
    (htouches : ∀ e ∈ access.touches, s.Locked x e.1 e.2)
    (hperf : Performed state scans db access db' (some (state', scans', row))) :
    SetsLocked s x state' := by
  -- the two ways in which a set grows: a read that is recorded, a write that is buffered
  have hread : ∀ {k : NRAMKey} (v : NRAMValue), s.Locked x k false →
      SetsLocked s x (addReadSet state k v) := by
    intro k v hk
    refine ⟨h.writes, fun opt hopt => ?_⟩
    rw [addReadSet_readSet] at hopt
    obtain hold | rfl := mem_append_singleton.mp hopt
    · exact h.reads opt hold
    · exact hk
  have hwrite : ∀ {k : NRAMKey} (v : NRAMValue), s.Locked x k true →
      SetsLocked s x (addWriteSet state k v) := by
    intro k v hk
    refine ⟨fun opt hopt => ?_, fun opt hopt => h.reads opt (addWriteSet_readSet state k v ▸ hopt)⟩
    obtain ⟨rfl, -⟩ | hold := mem_addWriteSet hopt
    · exact hk
    · exact h.writes opt hold
  cases hperf with
  | scanRow | indexFetchTuple =>
    split
    · exact hread _ (htouches _ (mem_singleton_self _))
    · exact h
  | fetchRowVersion => exact hread _ (htouches _ (mem_singleton_self _))
  | insert | tupleUpdate => exact hwrite _ (htouches _ (mem_singleton_self _))
  | _ => exact h

/-- **Where the locks are taken, the access is locked.** -/
theorem TwoPhaseInv.locked_of_acquired (h : TwoPhaseInv s)
    (hpc : (s.tx x).pc = .acquiring [] access) : ∀ e ∈ access.touches, s.Locked x e.1 e.2 := by
  intro e he
  have hcovered := (h.xact x (by rw [hpc]; rfl)).access access (by rw [hpc]; rfl) e he
  rw [hpc] at hcovered
  -- no request is left that could still bring the lock
  exact hcovered.resolve_right fun ⟨_, _, hreq⟩ => absurd hreq not_mem_nil

theorem Engine.Covered.next {requests : List LockRequest} {req : LockRequest}
    (h : s.Covered x (req :: requests) k write) (hkeep : s.Locked x k write → s'.Locked x k write)
    (hreq : ∀ relation tid, req.1 = .tuple relation tid → ⟨req.1, req.2, x⟩ ∈ s'.sh.locks.holders) :
    s'.Covered x requests k write := by
  obtain hlocked | ⟨mode, hmode, hmem⟩ := h
  · exact .inl (hkeep hlocked)
  · obtain rfl | hmem := mem_cons.mp hmem
    · exact .inl ⟨mode, hmode, hreq _ _ rfl⟩
    · exact .inr ⟨mode, hmode, hmem⟩

theorem TwoPhaseInv.xactLocked (h : TwoPhaseInv s) (hall : ∀ a, (policy a).detectAll = true)
    (hcareful : Careful s l) (hmove : Move policy s l x (s.tx x) s' row)
    (hrunning : (s'.tx x).pc.ended = false) : XactLocked s' x (s'.tx x) := by
  have hx := h.xact x hmove.running
  have hkeep : ∀ {k : NRAMKey} {write : Bool}, s.Locked x k write → s'.Locked x k write :=
    fun hk => hmove.keeps_locked hk hrunning
  have hsame : ∀ {state' : NRAMXactState},
      (∀ opt ∈ state'.writeSet, opt ∈ (s.tx x).state.writeSet) →
      (∀ opt ∈ state'.readSet, opt ∈ (s.tx x).state.readSet) → SetsLocked s' x state' :=
    fun hw hr => hx.sets.keep hmove hrunning hw hr
  have hsets : SetsLocked s' x (s.tx x).state := hsame (fun _ ho => ho) fun _ ho => ho
  -- a transaction that is not in a callback
  have hquiet : ∀ {t' : Xact}, s'.tx x = t' → t'.pc.access? = none → SetsLocked s' x t'.state →
      XactLocked s' x (s'.tx x) := by
    rintro t' rfl hnone hstate
    exact ⟨hstate, fun access ha => absurd (hnone.symm.trans ha) (by simp)⟩
  -- a transaction that goes on with its requests
  have hpending : ∀ {access : Access} {pc : Pc},
      s'.tx x = { s.tx x with pc := pc } → pc.access? = some access →
      (∀ e ∈ access.touches, s'.Covered x pc.requests e.1 e.2) → XactLocked s' x (s'.tx x) := by
    intro access pc htx hpc hcovered
    rw [htx]
    refine ⟨hsets, fun access' ha => ?_⟩
    obtain rfl : access = access' := Option.some.inj (hpc.symm.trans ha)
    exact hcovered
  cases hmove with
  | @statement state rank hpc hstate =>
    -- the executor hooks change the command stack and the action, never the sets
    have hstate' : state.writeSet = (s.tx x).state.writeSet ∧
        state.readSet = (s.tx x).state.readSet := by
      obtain ⟨ct, rfl⟩ | rfl := hstate
      · exact ⟨rfl, rfl⟩
      · simp
    refine hquiet (update_self _ _ _) ?_ (hsame ?_ ?_)
    · show (s.tx x).pc.access? = none
      rw [hpc]
      rfl
    · exact fun opt ho => hstate'.1 ▸ ho
    · exact fun opt ho => hstate'.2 ▸ ho
  | @call c a scans todo access hl hpc haction henter hadm =>
    subst hl
    -- `detect_all` is set whatever action the policy has chosen
    rw [hall a] at henter
    have hcovered := hx.sets.enter_covered hcareful henter
    show XactLocked _ x (update s.tx x _ x)
    rw [update_self]
    refine ⟨hsets, fun access' ha => ?_⟩
    obtain rfl : access = access' := Option.some.inj ha
    exact fun e he => (hcovered e he).imp_left hkeep
  | @lock req todo access locks hpc hl =>
    have hpc' : (s.tx x).pc.access? = some access ∧ (s.tx x).pc.requests = req :: todo := by
      obtain hpc | hpc := hpc <;> rw [hpc] <;> exact ⟨rfl, rfl⟩
    refine hpending (update_self _ _ _) rfl fun e he => ?_
    have hold := hx.access access hpc'.1 e he
    rw [hpc'.2] at hold
    refine hold.next hkeep fun _ _ _ => ?_
    show _ ∈ locks.holders
    rw [hl]
    exact mem_cons_self
  | @refused req todo access locks hl hpc hres _ =>
    subst hl
    refine hpending (update_self _ _ _) rfl fun e he => ?_
    have hold := hx.access access (by rw [hpc]; rfl) e he
    rw [hpc] at hold
    refine hold.next hkeep fun relation tid htag => ?_
    -- a careful step is not refused a tuple lock
    obtain ⟨tag, mode⟩ := req
    obtain rfl : tag = .tuple relation tid := htag
    simp only [Careful, careful, hpc] at hcareful
    exact absurd hres (of_decide_eq_true hcareful)
  | @block req todo access locks hpc _ =>
    -- a waiting transaction keeps the request it waits for
    refine hpending (update_self _ _ _) rfl fun e he => ?_
    have hold := hx.access access (by rw [hpc]; rfl) e he
    rw [hpc] at hold
    exact hold.imp_left hkeep
  | @perform access reply db state scans row hpc hperform =>
    refine hquiet (update_self _ _ _) rfl ?_
    exact hsets.performed (fun e he => hkeep (h.locked_of_acquired hpc e he))
      (performed_of_eq hperform)
  | preCommit hpc =>
    -- the write set is sorted, which keeps its entries
    refine hquiet (update_self _ _ _) rfl (hsame (fun opt ho => ?_) fun _ ho => ho)
    exact (sortWriteSet_perm _).mem_iff.mp ho
  | callback hpc hcommit hputs =>
    exact hquiet (update_self _ _ _) rfl (hsame (fun _ ho => ho) fun _ ho => ho)
  | performError | callbackError =>
    refine absurd hrunning ?_
    simp [Engine.finish, Pc.ended]
  | finish _ hpc =>
    refine absurd hrunning ?_
    obtain rfl | ⟨rfl, -⟩ := hpc <;> simp [Engine.finish, Pc.ended]

theorem TwoPhaseInv.mem_accessed (h : TwoPhaseInv s) (hmove : Move policy s l x (s.tx x) s' row)
    {e : Accessed} (he : e ∈ s'.accessed) :
    e ∈ s.accessed ∨ (e.xact = x ∧ s.Locked x e.key e.write) := by
  cases hmove with
  | @perform access reply db state scans row hpc hperform =>
    have hlocked := h.locked_of_acquired hpc
    obtain hnew | hold := mem_append.mp he
    · right
      -- what is logged is the row handed out and the keys written, all of them touched
      obtain hrow | hwrite := mem_append.mp hnew
      · cases row with
        | none => cases hrow
        | some r =>
          obtain rfl := mem_singleton.mp hrow
          exact ⟨rfl, hlocked _ (performed_of_eq hperform).row_mem_touches⟩
      · obtain ⟨k, hk, rfl⟩ := mem_map.mp hwrite
        exact ⟨rfl, hlocked _ (Access.writes_mem_touches hk)⟩
    · exact .inl hold
  | _ => exact .inl he

theorem TwoPhaseInv.move (h : TwoPhaseInv s) (hall : ∀ a, (policy a).detectAll = true)
    (hcareful : Careful s l) (hmove : Move policy s l x (s.tx x) s' row) : TwoPhaseInv s' := by
  -- who runs after the step ran before it
  have hbefore : ∀ y, (s'.tx y).pc.ended = false → (s.tx y).pc.ended = false := by
    intro y hy
    by_cases hyx : y = x
    · exact hyx ▸ hmove.running
    · rw [hmove.others hyx] at hy
      exact hy
  refine ⟨fun y hy => ?_, fun e he hrunning => ?_⟩
  · by_cases hyx : y = x
    · subst hyx
      exact h.xactLocked hall hcareful hmove hy
    · -- the step of `x` takes no lock away from `y`
      have hold := h.xact y (hbefore y hy)
      have hkeep : ∀ {k : NRAMKey} {write : Bool}, s.Locked y k write → s'.Locked y k write :=
        fun hk => hmove.keeps_locked hk hy
      rw [hmove.others hyx]
      exact ⟨⟨fun opt ho => hkeep (hold.sets.writes opt ho),
        fun opt ho => hkeep (hold.sets.reads opt ho)⟩,
        fun access ha e he => (hold.access access ha e he).imp_left hkeep⟩
  · refine hmove.keeps_locked ?_ hrunning
    obtain hold | ⟨hxact, hlocked⟩ := h.mem_accessed hmove he
    · exact h.accessed e hold (hbefore _ hrunning)
    · exact hxact ▸ hlocked

end Step

theorem TwoPhaseInv.initial (h₀ : (engineSystem policy).init s) : TwoPhaseInv s := by
  obtain ⟨-, -, haccessed, htx, -⟩ := h₀
  refine ⟨fun x _ => ⟨?_, fun access ha => ?_⟩, fun e he => ?_⟩
  · rw [(htx x).1]
    exact ⟨nofun, nofun⟩
  · obtain hpc | hpc := (htx x).2.2 <;> rw [hpc] at ha <;> cases ha
  · rw [haccessed] at he
    cases he

/-! ### Runs -/

/-- **Strict two-phase locking.** With `detect_all` everywhere, in every state of every careful
run, a transaction that has not ended holds a tuple lock on every row it has read or written,
exclusive if it has written it; so of two conflicting accesses of transactions that have not
ended both are by the same transaction. -/
theorem careful_strict_two_phase {policy : Policy} {s₀ s : Engine} {ls : List EngineLabel}
    (hall : ∀ a, (policy a).detectAll = true) (h₀ : (engineSystem policy).init s₀)
    (hrun : ((engineSystem policy).guard Careful).Run s₀ ls s) :
    (∀ e ∈ s.accessed, (s.tx e.xact).pc.ended = false → s.Locked e.xact e.key e.write) ∧
    ∀ e ∈ s.accessed, ∀ e' ∈ s.accessed, (s.tx e.xact).pc.ended = false →
      (s.tx e'.xact).pc.ended = false → e.key = e'.key → e.write = true → e.xact = e'.xact := by
  have h : TwoPhaseInv s := engine_guard_invariant hrun (TwoPhaseInv.initial h₀)
    fun _ _ _ _ h hcareful hmove => h.move hall hcareful hmove
  refine ⟨h.accessed, fun e he e' he' hrunning hrunning' hkey hwrite => ?_⟩
  have hlocked := h.accessed e he hrunning
  rw [hwrite, hkey] at hlocked
  exact hlocked.exclusive (h.accessed e' he' hrunning')

/-- A transaction that scans the table `16384` and updates the row it finds there: each request
is granted or given up at once. -/
def scanAndUpdate (x : TransactionId) : List EngineLabel :=
  [.executorStart x .update, .call x (.beginscan 0 16384), .perform x .ok,
    .call x (.getnextslot 0), .lock x, .lock x, .perform x .ok,
    .call x (.tupleUpdate 16384 ⟨1, 1⟩ []), .lock x, .lock x, .perform x .ok]

/-- Under a low rank the transaction `11` waits for the row that `10` has updated. -/
theorem low_rank_waits_for_lock :
    ∃ s, ((engineSystem fun _ => ⟨true, .finite 0, 0⟩).guard Careful).Run oneRowEngine
        (scanAndUpdate 10 ++ (scanAndUpdate 11).take 6) s ∧
      (s.tx 10).pc.ended = false ∧ ⟨10, ⟨16384, 65537⟩, true⟩ ∈ s.accessed ∧
      ⟨tupleTag ⟨16384, 65537⟩, .share, 11⟩ ∈ s.sh.locks.waiters ∧
      s.Locked 10 ⟨16384, 65537⟩ true := by
  refine System.exists_guard_run_of_exec (P := fun s => (s.tx 10).pc.ended = false ∧
    ⟨10, ⟨16384, 65537⟩, true⟩ ∈ s.accessed ∧
    ⟨tupleTag ⟨16384, 65537⟩, .share, 11⟩ ∈ s.sh.locks.waiters) (by decide +kernel) ?_
  rintro s hrun ⟨h10, hin, hwaits⟩
  have htwo := careful_strict_two_phase (fun _ => rfl) (oneRowEngine_init _) hrun
  exact ⟨h10, hin, hwaits, htwo.1 _ hin h10⟩

/-- **A lock that is not taken.** With the priority `10` everywhere, the transactions `10` and
`11` have both updated the same row and neither has ended; `11` holds no lock on it. -/
theorem high_rank_skips_lock :
    ∃ s, (engineSystem fun _ => ⟨true, .finite 10, 0⟩).Run oneRowEngine
        (scanAndUpdate 10 ++ scanAndUpdate 11) s ∧
      (s.tx 10).pc.ended = false ∧ (s.tx 11).pc.ended = false ∧
      ⟨10, ⟨16384, 65537⟩, true⟩ ∈ s.accessed ∧ ⟨11, ⟨16384, 65537⟩, true⟩ ∈ s.accessed ∧
      ¬ s.Locked 11 ⟨16384, 65537⟩ false := by
  refine System.exists_run_of_exec (P := fun s => (s.tx 10).pc.ended = false ∧
    (s.tx 11).pc.ended = false ∧ ⟨10, ⟨16384, 65537⟩, true⟩ ∈ s.accessed ∧
    ⟨11, ⟨16384, 65537⟩, true⟩ ∈ s.accessed ∧ ∀ lock ∈ s.sh.locks.holders,
      lock.tag = tupleTag ⟨16384, 65537⟩ → lock.owner ≠ 11) (by decide +kernel) ?_
  rintro s - ⟨h10, h11, hin10, hin11, hfree⟩
  refine ⟨h10, h11, hin10, hin11, ?_⟩
  rintro ⟨mode, -, hheld⟩
  exact hfree _ hheld rfl rfl

end NeurDB.Nram
