import NeurDB.Nram.PreCommit

/-!
# All or nothing

The commit callback of one transaction, from its call to its return, over an environment that
answers each of its requests: whether a lock is granted, and what becomes of a put. The
functions follow the loops of the source, and are the run of the steps of `PreCommit.lean` for a
transaction that nobody interferes with.

The callback puts the buffered writes one after the other and looks at neither the Booleans
that `RocksClientPut` returns nor at what it has put already when one of them raises an error.
So a transaction can commit with a write missing, and can abort with a write in the store.
`allOrNothing_iff` says exactly when neither happens.
-/

namespace NeurDB.Nram

open List

/-! ### The callback as a function -/

/-- How the environment answers the callback. -/
structure CallbackEnv where
  /-- Is the exclusive lock of the key granted in the end? -/
  lock : NRAMKey → Bool
  /-- Is the share lock of the key free? -/
  peek : NRAMKey → Bool
  put : NRAMKey → PutReply

/-- The locking loop. -/
def lockLoop (env : CallbackEnv) : List NRAMXactOpt → Except CommitError Unit
  | [] => .ok ()
  | opt :: todo => if env.lock opt.key then lockLoop env todo else .error (.lockNotAvail opt.key)

/-- The validation loop. -/
def validateLoop (env : CallbackEnv) (xactId : TransactionId) (db : RocksDB NRAMValue) :
    List NRAMXactOpt → Except CommitError Unit
  | [] => .ok ()
  | opt :: todo =>
    if env.peek opt.key then
      match rocksengineGet db opt.key with
      | none => .error (.invisibleKey xactId)
      | some curVal =>
        if curVal.xactId ≠ opt.xactId then .error (.versionChanged xactId)
        else validateLoop env xactId db todo
    else .error (.concurrentUpdate xactId)

/-- The install loop: an error ends it, a returned Boolean does not. -/
def installLoop (env : CallbackEnv) :
    List NRAMXactOpt → RocksDB NRAMValue → RocksDB NRAMValue × Except CommitError Unit
  | [], db => (db, .ok ())
  | opt :: todo, db =>
    match rocksClientPut db opt.key opt.value (env.put opt.key) with
    | (db', .error e) => (db', .error e)
    | (db', .ok _) => installLoop env todo db'

/-- The callback from the phase `phase` on. -/
def resume (serializable : Bool) (env : CallbackEnv) (state : NRAMXactState)
    (db : RocksDB NRAMValue) : CommitPhase → RocksDB NRAMValue × Except CommitError Unit
  | .locking todo => locked todo
  | .waiting opt todo => locked (opt :: todo)
  | .validating todo => validated todo
  | .peeked opt _ todo =>
    match rocksengineGet db opt.key with
    | none => (db, .error (.invisibleKey state.xactId))
    | some curVal =>
      if curVal.xactId ≠ opt.xactId then (db, .error (.versionChanged state.xactId))
      else validated todo
  | .compared _ _ todo => validated todo
  | .installing todo => installLoop env todo db
  | .installed _ todo => installLoop env todo db
  | .done => (db, .ok ())
where
  validated (todo : List NRAMXactOpt) : RocksDB NRAMValue × Except CommitError Unit :=
    match validateLoop env state.xactId db todo with
    | .error e => (db, .error e)
    | .ok () => installLoop env state.writeSet db
  locked (todo : List NRAMXactOpt) : RocksDB NRAMValue × Except CommitError Unit :=
    match lockLoop env todo with
    | .error e => (db, .error e)
    | .ok () => validated (if serializable then state.readSet else [])

/-- `nram_xact_callback(XACT_EVENT_PRE_COMMIT)`: the store afterwards, and the error raised if
there is one. -/
def nramPreCommit (serializable : Bool) (env : CallbackEnv) (state : NRAMXactState)
    (db : RocksDB NRAMValue) : RocksDB NRAMValue × Except CommitError Unit :=
  if state.validated then (db, .error (.alreadyValidated state.xactId))
  else
    let writeSet := sortWriteSet state.writeSet
    resume serializable env { state with writeSet } db (.locking writeSet)

variable {serializable : Bool} {state : NRAMXactState} {db : RocksDB NRAMValue} {opt : NRAMXactOpt}
  {env : CallbackEnv} {opts : List NRAMXactOpt}

/-! ### What the install loop does to the store -/

/-- The put of `opt` reaches the store. -/
def CallbackEnv.Stored (env : CallbackEnv) (opt : NRAMXactOpt) : Prop :=
  putMsgSize opt.value ≤ msgSize ∧ (env.put opt.key).stored = true

/-- The put of `opt` raises an error. -/
def CallbackEnv.Raises (env : CallbackEnv) (opt : NRAMXactOpt) : Prop :=
  msgSize < putMsgSize opt.value ∨ ∃ stored, env.put opt.key = .cancelled stored

instance (env : CallbackEnv) (opt : NRAMXactOpt) : Decidable (env.Stored opt) :=
  inferInstanceAs (Decidable (_ ∧ _))

instance (env : CallbackEnv) (opt : NRAMXactOpt) : Decidable (env.Raises opt) :=
  decidable_of_iff
    (msgSize < putMsgSize opt.value ∨ env.put opt.key = .cancelled false ∨
      env.put opt.key = .cancelled true)
    (or_congr_right (by simp))

/-- The puts of `opts` that reach the store, one after the other. -/
def applyStored (env : CallbackEnv) (opts : List NRAMXactOpt) (db : RocksDB NRAMValue) :
    RocksDB NRAMValue :=
  opts.foldl (fun db opt => if env.Stored opt then rocksenginePut db opt.key opt.value else db) db

theorem rocksClientPut_fst (env : CallbackEnv) (opt : NRAMXactOpt) (db : RocksDB NRAMValue) :
    (rocksClientPut db opt.key opt.value (env.put opt.key)).1 = applyStored env [opt] db := by
  show _ = if env.Stored opt then rocksenginePut db opt.key opt.value else db
  unfold rocksClientPut
  by_cases hsize : msgSize < putMsgSize opt.value
  · have hnot : ¬ env.Stored opt := fun h => absurd h.1 (not_le.mpr hsize)
    rw [if_pos hsize, if_neg hnot]
  · rw [if_neg hsize]
    by_cases hstored : (env.put opt.key).stored = true
    · have hs : env.Stored opt := ⟨not_lt.mp hsize, hstored⟩
      rw [if_pos hs, if_pos hstored]
    · have hnot : ¬ env.Stored opt := fun h => hstored h.2
      rw [if_neg hnot, if_neg hstored]

theorem rocksClientPut_raises (h : env.Raises opt) (db : RocksDB NRAMValue) :
    ∃ e, (rocksClientPut db opt.key opt.value (env.put opt.key)).2 = .error e := by
  unfold rocksClientPut
  by_cases hsize : msgSize < putMsgSize opt.value
  · rw [if_pos hsize]
    exact ⟨_, rfl⟩
  · obtain ⟨stored, hput⟩ := h.resolve_left hsize
    rw [if_neg hsize, hput]
    exact ⟨_, rfl⟩

theorem rocksClientPut_returns (h : ¬ env.Raises opt) (db : RocksDB NRAMValue) :
    ∃ b, (rocksClientPut db opt.key opt.value (env.put opt.key)).2 = .ok b := by
  obtain ⟨hsize, hput⟩ := not_or.mp h
  unfold rocksClientPut
  rw [if_neg hsize]
  cases hr : env.put opt.key with
  | ok => exact ⟨true, rfl⟩
  | notPushed | unanswered stored => exact ⟨false, rfl⟩
  | cancelled stored => exact absurd ⟨stored, hr⟩ hput

theorem installLoop_append (hopts : ∀ opt ∈ opts, ¬ env.Raises opt) (rest : List NRAMXactOpt)
    (db : RocksDB NRAMValue) :
    installLoop env (opts ++ rest) db = installLoop env rest (applyStored env opts db) := by
  induction opts generalizing db with
  | nil => rfl
  | cons opt opts ih =>
    -- the Boolean `b` is thrown away
    obtain ⟨b, hb⟩ := rocksClientPut_returns (hopts opt mem_cons_self) db
    have hput : rocksClientPut db opt.key opt.value (env.put opt.key) =
        (applyStored env [opt] db, .ok b) := Prod.ext (rocksClientPut_fst env opt db) hb
    rw [cons_append, installLoop, hput]
    exact ih (fun o ho => hopts o (mem_cons_of_mem _ ho)) _

theorem installLoop_of_no_raise (hopts : ∀ opt ∈ opts, ¬ env.Raises opt) (db : RocksDB NRAMValue) :
    installLoop env opts db = (applyStored env opts db, .ok ()) := by
  have h := installLoop_append hopts [] db
  rwa [append_nil] at h

theorem installLoop_of_raise {pre : List NRAMXactOpt} (hpre : ∀ o ∈ pre, ¬ env.Raises o)
    (hopt : env.Raises opt) (post : List NRAMXactOpt) (db : RocksDB NRAMValue) :
    ∃ e, installLoop env (pre ++ opt :: post) db =
      (applyStored env (pre ++ [opt]) db, .error e) := by
  obtain ⟨e, he⟩ := rocksClientPut_raises hopt (applyStored env pre db)
  have hput : rocksClientPut (applyStored env pre db) opt.key opt.value (env.put opt.key) =
      (applyStored env [opt] (applyStored env pre db), .error e) :=
    Prod.ext (rocksClientPut_fst env opt _) he
  refine ⟨e, ?_⟩
  rw [installLoop_append hpre, installLoop, hput, applyStored, applyStored, applyStored,
    foldl_append]

theorem first_raise (env : CallbackEnv) (opts : List NRAMXactOpt) :
    (∀ opt ∈ opts, ¬ env.Raises opt) ∨
      ∃ pre opt post, opts = pre ++ opt :: post ∧ (∀ o ∈ pre, ¬ env.Raises o) ∧ env.Raises opt := by
  induction opts with
  | nil => exact Or.inl nofun
  | cons o opts ih =>
    by_cases ho : env.Raises o
    · exact Or.inr ⟨[], o, opts, rfl, nofun, ho⟩
    · rcases ih with h | ⟨pre, opt, post, rfl, hpre, hopt⟩
      · exact Or.inl (forall_mem_cons.mpr ⟨ho, h⟩)
      · exact Or.inr ⟨o :: pre, opt, post, rfl, forall_mem_cons.mpr ⟨ho, hpre⟩, hopt⟩

variable {db' : RocksDB NRAMValue} {p : PendingXact}

theorem not_raises_of_installLoop (h : installLoop env opts db = (db', .ok ())) :
    ∀ opt ∈ opts, ¬ env.Raises opt := by
  -- a first put that raises an error would have ended the loop with it
  obtain hnone | ⟨pre, opt, post, rfl, hpre, hraise⟩ := first_raise env opts
  · exact hnone
  · obtain ⟨e, he⟩ := installLoop_of_raise hpre hraise post db
    rw [he] at h
    exact absurd (Prod.mk.inj h).2 (by simp)

/-- **A callback that returns** was not validated before, has its locks and a valid read set,
and has gone through its install loop. -/
theorem nramPreCommit_eq_ok (h : nramPreCommit serializable env state db = (db', .ok ())) :
    state.validated = false ∧ lockLoop env (sortWriteSet state.writeSet) = .ok () ∧
      validateLoop env state.xactId db (if serializable then state.readSet else []) = .ok () ∧
      installLoop env (sortWriteSet state.writeSet) db = (db', .ok ()) := by
  unfold nramPreCommit at h
  split at h
  · exact absurd (Prod.mk.inj h).2 (by simp)
  · next hvalidated =>
    simp only [resume, resume.locked, resume.validated] at h
    split at h
    · exact absurd (Prod.mk.inj h).2 (by simp)
    · next hlock =>
      split at h
      · exact absurd (Prod.mk.inj h).2 (by simp)
      · next hvalidate => exact ⟨by simpa using hvalidated, hlock, hvalidate, h⟩

theorem get_applyStored (hnd : (opts.map (·.key)).Nodup) (db : RocksDB NRAMValue) (k : NRAMKey) :
    rocksengineGet (applyStored env opts db) k =
      match opts.find? (fun o => o.key = k) with
      | some opt => if env.Stored opt then some opt.value else rocksengineGet db k
      | none => rocksengineGet db k := by
  induction opts generalizing db with
  | nil => rfl
  | cons o opts ih =>
    obtain ⟨ho, hnd'⟩ := nodup_cons.mp hnd
    have hstep : applyStored env (o :: opts) db = applyStored env opts (applyStored env [o] db) :=
      rfl
    have hone : ∀ k', rocksengineGet (applyStored env [o] db) k' =
        if env.Stored o ∧ k' = o.key then some o.value else rocksengineGet db k' := by
      intro k'
      show rocksengineGet (if env.Stored o then _ else db) k' = _
      by_cases hs : env.Stored o
      · rw [if_pos hs]
        by_cases hk : k' = o.key
        · rw [hk, rocksengineGet_put_self, if_pos ⟨hs, rfl⟩]
        · rw [rocksengineGet_put_of_ne _ _ hk, if_neg fun h => hk h.2]
      · rw [if_neg hs, if_neg fun h => hs h.1]
    rw [hstep, ih hnd']
    by_cases hk : o.key = k
    · -- the key is not written again
      have hnone : opts.find? (fun o => o.key = k) = none := by
        rw [find?_eq_none]
        intro p hp
        have hne : p.key ≠ o.key := fun h => ho (mem_map.mpr ⟨p, hp, h⟩)
        simpa [← hk] using hne
      rw [hnone, find?_cons_of_pos (by simpa using hk)]
      show rocksengineGet (applyStored env [o] db) k = _
      rw [hone]
      simp [hk]
    · rw [find?_cons_of_neg (by simpa using hk), hone, if_neg fun h => hk h.2.symm]

theorem get_of_nramPreCommit (hnd : (state.writeSet.map (·.key)).Nodup)
    (h : nramPreCommit serializable env state db = (db', .ok ()))
    (hstored : ∀ opt ∈ state.writeSet, env.Stored opt) (key : NRAMKey) :
    rocksengineGet db' key = (readOwnWrite state key).or (rocksengineGet db key) := by
  have hperm := sortWriteSet_perm state.writeSet
  have hnd' : ((sortWriteSet state.writeSet).map (·.key)).Nodup :=
    (hperm.map _).nodup_iff.mpr hnd
  -- the loop came to its end, so every put of the write set was made
  have hloop := (nramPreCommit_eq_ok h).2.2.2
  rw [installLoop_of_no_raise (not_raises_of_installLoop hloop)] at hloop
  obtain rfl := (Prod.mk.inj hloop).1
  rw [get_applyStored hnd', find?_key_of_perm hperm hnd, readOwnWrite, findWriteSet]
  cases hfind : state.writeSet.find? (·.key = key) with
  | none => rfl
  | some opt => exact if_pos (hstored opt (mem_keys_of_find?_key hfind).1)

/-! ### All or nothing -/

/-- A transaction about to commit, and the store it finds. -/
structure PendingXact where
  state : NRAMXactState
  db : RocksDB NRAMValue
  /-- One buffered write for each key. -/
  nodup : (state.writeSet.map (·.key)).Nodup
  /-- The buffered values are the transaction's own and not private. -/
  own : ∀ opt ∈ state.writeSet, opt.value.xactId = state.xactId ∧ opt.value.isPrivate = false
  /-- Of the transaction, the store holds private rows at most: those it inserted. -/
  unpublished : ∀ k v, rocksengineGet db k = some v → v.xactId = state.xactId → v.isPrivate = true

/-- **All or nothing.** A transaction that aborts has no public row in the store, and one that
commits has its final value in the store for every key of its write set. That the server aborts a
transaction after the callback has returned is not covered. -/
def AllOrNothing (serializable : Bool) (env : CallbackEnv) (p : PendingXact) : Prop :=
  match nramPreCommit serializable env p.state p.db with
  | (db, .error _) =>
    ∀ k v, rocksengineGet db k = some v → v.xactId = p.state.xactId → v.isPrivate = true
  | (db, .ok ()) => ∀ opt ∈ p.state.writeSet, rocksengineGet db opt.key = some opt.value

/-- The callback raises an error before its first put. -/
def StopsBeforePut (serializable : Bool) (env : CallbackEnv) (p : PendingXact) : Prop :=
  p.state.validated = true ∨ (∃ e, lockLoop env (sortWriteSet p.state.writeSet) = .error e) ∨
    serializable = true ∧ ∃ e, validateLoop env p.state.xactId p.db p.state.readSet = .error e

/-- Every put is stored and none raises an error. -/
def AllStored (env : CallbackEnv) (opts : List NRAMXactOpt) : Prop :=
  ∀ opt ∈ opts, ¬ env.Raises opt ∧ env.Stored opt

/-- The first put to raise an error and all puts before it store nothing. -/
def NothingStored (env : CallbackEnv) (opts : List NRAMXactOpt) : Prop :=
  ∃ pre opt post, opts = pre ++ opt :: post ∧ env.Raises opt ∧ ¬ env.Stored opt ∧
    ∀ o ∈ pre, ¬ env.Raises o ∧ ¬ env.Stored o

theorem nramPreCommit_eq_installLoop (h : ¬ StopsBeforePut serializable env p) :
    nramPreCommit serializable env p.state p.db =
      installLoop env (sortWriteSet p.state.writeSet) p.db := by
  obtain ⟨hvalidated, hlock, hread⟩ : p.state.validated = false ∧
      lockLoop env (sortWriteSet p.state.writeSet) = .ok () ∧
      (serializable = true → validateLoop env p.state.xactId p.db p.state.readSet = .ok ()) := by
    obtain ⟨h₁, h₂⟩ := not_or.mp h
    obtain ⟨h₂, h₃⟩ := not_or.mp h₂
    refine ⟨by simpa using h₁, ?_, fun hs => ?_⟩
    · cases hl : lockLoop env (sortWriteSet p.state.writeSet) with
      | error e => exact absurd ⟨e, hl⟩ h₂
      | ok u => rfl
    · cases hv : validateLoop env p.state.xactId p.db p.state.readSet with
      | error e => exact absurd ⟨hs, e, hv⟩ h₃
      | ok u => rfl
  have hvalid : validateLoop env p.state.xactId p.db
      (if serializable then p.state.readSet else []) = .ok () := by
    cases serializable with
    | false => rfl
    | true => exact hread rfl
  simp [nramPreCommit, hvalidated, resume, resume.locked, resume.validated, hlock, hvalid]

theorem nramPreCommit_of_stops (h : StopsBeforePut serializable env p) :
    ∃ e, nramPreCommit serializable env p.state p.db = (p.db, .error e) := by
  by_cases hvalidated : p.state.validated = true
  · exact ⟨_, if_pos hvalidated⟩
  simp only [nramPreCommit, hvalidated, Bool.false_eq_true, if_false, resume, resume.locked,
    resume.validated]
  cases hl : lockLoop env (sortWriteSet p.state.writeSet) with
  | error e => exact ⟨e, rfl⟩
  | ok u =>
    rcases h with h | ⟨e, h⟩ | ⟨rfl, e, h⟩
    · exact absurd h hvalidated
    · cases hl.symm.trans h
    · exact ⟨e, by simp only [if_true, h]⟩

theorem applyStored_of_not_stored (h : ∀ o ∈ opts, ¬ env.Stored o) (db : RocksDB NRAMValue) :
    applyStored env opts db = db := by
  induction opts generalizing db with
  | nil => rfl
  | cons o opts ih =>
    show applyStored env opts (if env.Stored o then _ else db) = db
    rw [if_neg (h o mem_cons_self)]
    exact ih (fun o' ho' => h o' (mem_cons_of_mem _ ho')) db

section Puts

variable {env : CallbackEnv} (p : PendingXact) {opts : List NRAMXactOpt}

/-- **All of it.** The puts bring every final value into the store exactly when each of them is
stored. -/
theorem PendingXact.all_installed_iff (hperm : opts.Perm p.state.writeSet) :
    (∀ opt ∈ p.state.writeSet,
      rocksengineGet (applyStored env opts p.db) opt.key = some opt.value) ↔
      ∀ opt ∈ opts, env.Stored opt := by
  have hnd : (opts.map (·.key)).Nodup := (hperm.map _).nodup_iff.mpr p.nodup
  constructor
  · intro hall opt hopt
    by_contra hnot
    -- the value was there before the put, against `unpublished`: it is public
    have hget := hall opt (hperm.mem_iff.mp hopt)
    rw [get_applyStored hnd, find?_key_of_mem hnd hopt] at hget
    simp only [if_neg hnot] at hget
    have hown := p.own opt (hperm.mem_iff.mp hopt)
    have hprivate := p.unpublished opt.key opt.value hget hown.1
    cases hprivate.symm.trans hown.2
  · intro hall opt hopt
    have hin : opt ∈ opts := hperm.mem_iff.mpr hopt
    rw [get_applyStored hnd, find?_key_of_mem hnd hin]
    exact if_pos (hall opt hin)

/-- **Nothing of it.** The puts leave no public row of the transaction in the store exactly when
none of them is stored: no later put would hide a stored one. -/
theorem PendingXact.unpublished_iff (hsub : ∀ o ∈ opts, o ∈ p.state.writeSet)
    (hnd : (opts.map (·.key)).Nodup) :
    (∀ k v, rocksengineGet (applyStored env opts p.db) k = some v →
      v.xactId = p.state.xactId → v.isPrivate = true) ↔ ∀ o ∈ opts, ¬ env.Stored o := by
  constructor
  · intro hall opt hopt hstored
    have hown := p.own opt (hsub opt hopt)
    have hget : rocksengineGet (applyStored env opts p.db) opt.key = some opt.value := by
      rw [get_applyStored hnd, find?_key_of_mem hnd hopt]
      exact if_pos hstored
    cases (hall opt.key opt.value hget hown.1).symm.trans hown.2
  · intro hnone
    rw [applyStored_of_not_stored hnone]
    exact p.unpublished

end Puts

/-- **When commit is all or nothing.** It is exactly when the callback stops before its first
put, or every put is stored and none raises an error, or the first put to raise an error and
all those before it store nothing. -/
theorem allOrNothing_iff (serializable : Bool) (env : CallbackEnv) (p : PendingXact) :
    AllOrNothing serializable env p ↔
      StopsBeforePut serializable env p ∨ AllStored env (sortWriteSet p.state.writeSet) ∨
        NothingStored env (sortWriteSet p.state.writeSet) := by
  by_cases hstop : StopsBeforePut serializable env p
  · obtain ⟨e, he⟩ := nramPreCommit_of_stops hstop
    refine ⟨fun _ => Or.inl hstop, fun _ => ?_⟩
    rw [AllOrNothing, he]
    exact p.unpublished
  rw [AllOrNothing, nramPreCommit_eq_installLoop hstop, or_iff_right hstop]
  have hperm := sortWriteSet_perm p.state.writeSet
  have hnd : ((sortWriteSet p.state.writeSet).map (·.key)).Nodup :=
    (hperm.map _).nodup_iff.mpr p.nodup
  generalize sortWriteSet p.state.writeSet = ws at hperm hnd
  -- up to the error, the puts are those of a first part of the write set
  have hfirst : ∀ {pre post : List NRAMXactOpt} {opt : NRAMXactOpt}, ws = pre ++ opt :: post →
      ((∀ k v, rocksengineGet (applyStored env (pre ++ [opt]) p.db) k = some v →
        v.xactId = p.state.xactId → v.isPrivate = true) ↔ ∀ o ∈ pre ++ [opt], ¬ env.Stored o) := by
    intro pre post opt hws
    obtain rfl : ws = (pre ++ [opt]) ++ post := by
      rw [hws, append_assoc, singleton_append]
    rw [map_append] at hnd
    exact p.unpublished_iff (fun o ho => hperm.mem_iff.mp (mem_append_left _ ho))
      (List.nodup_append.mp hnd).1
  constructor
  · obtain hnone | ⟨pre, opt, post, hws, hpre, hraise⟩ := first_raise env ws
    · -- committed: all of it has to be there
      rw [installLoop_of_no_raise hnone]
      intro hall
      have hstored := (p.all_installed_iff hperm).mp hall
      exact Or.inl fun opt hopt => ⟨hnone opt hopt, hstored opt hopt⟩
    · -- aborted: nothing may have been stored up to the error
      obtain ⟨e, he⟩ := installLoop_of_raise hpre hraise post p.db
      rw [hws, he]
      intro hall
      have hnot := (hfirst hws).mp hall
      refine Or.inr ⟨pre, opt, post, rfl, hraise, hnot opt (by simp), fun o ho => ?_⟩
      exact ⟨hpre o ho, hnot o (mem_append_left _ ho)⟩
  · rintro (hall | ⟨pre, opt, post, hws, hraise, hopt, hpre⟩)
    · rw [installLoop_of_no_raise fun o ho => (hall o ho).1]
      exact (p.all_installed_iff hperm).mpr fun o ho => (hall o ho).2
    · obtain ⟨e, he⟩ := installLoop_of_raise (fun o ho => (hpre o ho).1) hraise post p.db
      rw [hws, he]
      refine (hfirst hws).mpr fun o ho => ?_
      obtain ho | ho := mem_append_singleton.mp ho
      · exact (hpre o ho).2
      · rw [ho]
        exact hopt

/-- A transaction `10` that updated two rows of table `16384`, the second to one with `NULL`
in all its 64 columns. -/
def oversizedXact : PendingXact where
  state :=
    { newNRAMXactState 10 with
      writeSet := [⟨.write, 10, ⟨16384, 65537⟩, ⟨10, 0, []⟩⟩,
        ⟨.write, 10, ⟨16384, 131073⟩, ⟨10, 0, (List.range 64).map fun i =>
          ⟨BitVec.ofNat 16 i, 23, leBytes 4 (2 ^ 32 - 2)⟩⟩⟩] }
  db := .empty
  nodup := by decide
  own := by decide
  unpublished := nofun

/-- Every lock is free and every message that fits is stored and answered, but the message of
the second row does not fit: the transaction aborts with its first row in the store. -/
theorem oversized_row_half_installs :
    ¬ AllOrNothing true ⟨fun _ => true, fun _ => true, fun _ => .ok⟩ oversizedXact := by
  intro h
  have hprivate := h ⟨16384, 65537⟩ ⟨10, 0, []⟩ (by decide) rfl
  cases hprivate

end NeurDB.Nram
