import NeurDB.Nram.Engine

/-!
# No dirty reads

Inserts put private rows into the store before they commit, and rows of aborted inserts stay
there for good. `engine_no_dirty_read` says that nobody else is ever given such a row: whatever
a callback hands to the executor of a transaction is the transaction's own latest write of the
key, or was installed by a commit callback that had passed its validation — at any isolation
level, under any policy and in every interleaving.

The invariant (`CleanInv`) ties the private flag of every row in the store to its writer:

* a public row was installed;
* the writer of a private row has the key in its write set, or has ended. A transaction that
  comes across its own private row therefore takes the value from its write set;
* a key whose row was once public is never private again, since private rows are put under new
  keys only. This is what makes the reload of `nram_getnextslot` harmless, which no visibility
  check follows.

What a step changes in the store is said once (`StoreStep`): nothing, the private row of an
insert, or the public row of an install. The rest of a step concerns the record of one
transaction.
-/

namespace NeurDB.Nram

open Function List Option

/-! ### The invariant -/

/-- `y` passed its validation, in this run or before it. -/
def Engine.Validated (s : Engine) (y : TransactionId) : Prop :=
  (s.tx y).pc = .past ∨ (s.tx y).state.validated = true

/-- The row in the store under `k` is public. -/
def Engine.Public (s : Engine) (k : NRAMKey) : Prop :=
  ∃ w, rocksengineGet s.sh.db k = some w ∧ w.isPrivate = false

/-- The tid was generated for an insert whose put is through: no insert under way has it. -/
def Engine.Settled (s : Engine) (tid : BitVec 64) : Prop :=
  tid ∈ s.generated ∧
    ∀ y k v, (s.tx y).pc.access? = some (.insert k v) → k.tid ≠ tid

/-- What a transaction `x` with the state `state` may hold of a row. -/
structure RowClean (s : Engine) (x : TransactionId) (state : NRAMXactState) (k : NRAMKey)
    (v : NRAMValue) : Prop where
  of_public : v.isPrivate = false → (k, v) ∈ s.installed
  of_private : v.isPrivate = true → v.xactId = x → k ∈ state.writeSet.map (·.key)

/-- The sets and the scans of the transaction `x`. -/
structure SetsClean (s : Engine) (x : TransactionId) (state : NRAMXactState) (scans : Scans) :
    Prop where
  xactId : state.xactId = x
  reads : ∀ opt ∈ state.readSet, (opt.key, opt.value) ∈ s.installed
  writes : ∀ opt ∈ state.writeSet, opt.value.isPrivate = false ∧ opt.value.xactId = x ∧
    s.Settled opt.key.tid
  scans : ∀ i d, scans i = some d → ∀ e ∈ d.results, RowClean s x state e.1 e.2

/-- What holds of an access between its call and its performance. -/
def AccessClean (s : Engine) (x : TransactionId) (state : NRAMXactState) : Access → Prop
  | .ownRow k v => readOwnWrite state k = some v ∨ (k, v) ∈ s.installed
  | .scanRow k v _ => (k, v) ∈ s.installed
  | .indexFetchTuple k => readOwn state k = none
  | .insert k v => k.tid ∈ s.generated ∧ v.flags = 0 ∧ v.xactId = x
  | .tupleUpdate k v => s.Settled k.tid ∧ v.flags = 0 ∧ v.xactId = x
  | _ => True

/-- What holds of the transaction `x` with the record `t`. -/
structure XactClean (s : Engine) (x : TransactionId) (t : Xact) : Prop where
  sets : SetsClean s x t.state t.scans
  access : ∀ access, t.pc.access? = some access → AccessClean s x t.state access
  toPut : ∀ phase, t.pc = .committing phase → ∀ opt ∈ phase.toPut, opt ∈ t.state.writeSet
  validated : ∀ phase, t.pc = .committing phase → phase.isValidated = true →
    t.state.validated = true

/-- What holds in every state of every run. -/
structure CleanInv (s : Engine) : Prop where
  stored_settled : ∀ k v, rocksengineGet s.sh.db k = some v → s.Settled k.tid
  /-- A public row was installed. -/
  stored_public : ∀ k v, rocksengineGet s.sh.db k = some v → v.isPrivate = false →
    (k, v) ∈ s.installed
  /-- The writer of a private row has it in its write set, or has ended. -/
  stored_private : ∀ k v, rocksengineGet s.sh.db k = some v → v.isPrivate = true →
    (s.tx v.xactId).pc.ended = true ∨ k ∈ (s.tx v.xactId).state.writeSet.map (·.key)
  /-- A key once public stays public, and who installed a row was validated. -/
  installed : ∀ k v, (k, v) ∈ s.installed → s.Public k ∧ s.Validated v.xactId
  handed : ∀ e ∈ s.handed, (e.key, e.value) ∈ s.installed
  /-- No two transactions are inserting under the same tid. -/
  inserting : ∀ x y k k' v w, (s.tx x).pc.access? = some (.insert k v) →
    (s.tx y).pc.access? = some (.insert k' w) → k.tid = k'.tid → x = y
  xact : ∀ x, XactClean s x (s.tx x)

/-! ### What a step leaves alone -/

/-- Installed rows, generated tids and settled tids stay. -/
structure Grows (s s' : Engine) : Prop where
  installed : ∀ e ∈ s.installed, e ∈ s'.installed
  generated : ∀ t ∈ s.generated, t ∈ s'.generated
  settled : ∀ t, s.Settled t → s'.Settled t

variable {s s' : Engine} {x : TransactionId} {state : NRAMXactState} {access : Access} {k : NRAMKey}
  {v : NRAMValue} {scans : Scans}

theorem RowClean.grow (h : RowClean s x state k v) (hg : Grows s s') : RowClean s' x state k v :=
  ⟨fun hp => hg.installed _ (h.of_public hp), h.of_private⟩

theorem SetsClean.grow (h : SetsClean s x state scans) (hg : Grows s s') :
    SetsClean s' x state scans where
  xactId := h.xactId
  reads opt hopt := hg.installed _ (h.reads opt hopt)
  writes opt hopt := by
    obtain ⟨hpub, hid, hsettled⟩ := h.writes opt hopt
    exact ⟨hpub, hid, hg.settled _ hsettled⟩
  scans i d hd e he := (h.scans i d hd e he).grow hg

theorem AccessClean.grow (h : AccessClean s x state access) (hg : Grows s s') :
    AccessClean s' x state access := by
  cases access with
  | ownRow k v => exact Or.imp_right (hg.installed _) h
  | scanRow k v reload => exact hg.installed _ h
  | indexFetchTuple k => exact h
  | insert k v => exact ⟨hg.generated _ h.1, h.2⟩
  | tupleUpdate k v => exact ⟨hg.settled _ h.1, h.2⟩
  | beginscan | endOfScan | fetchRowVersion => trivial

variable {t : Xact} {scans' : Scans} {policy : Policy} {todo : List LockRequest} {detectAll : Bool}
  {reply : PutReply}

theorem XactClean.grow {y : TransactionId} (h : XactClean s y t) (hg : Grows s s') :
    XactClean s' y t where
  sets := h.sets.grow hg
  access access ha := (h.access access ha).grow hg
  toPut := h.toPut
  validated := h.validated

theorem SetsClean.xactClean (h : SetsClean s x t.state t.scans) (haccess : t.pc.access? = none)
    (hphase : ∀ phase, t.pc ≠ .committing phase) :
    XactClean s x t where
  sets := h
  access access ha := absurd (haccess.symm.trans ha) (by simp)
  toPut phase hpc := absurd hpc (hphase phase)
  validated phase hpc := absurd hpc (hphase phase)

theorem SetsClean.xactClean_access (h : SetsClean s x t.state t.scans)
    (haccess : t.pc.access? = some access) (hclean : AccessClean s x t.state access) :
    XactClean s x t where
  sets := h
  access access' ha := by
    obtain rfl : access = access' := some.inj (haccess.symm.trans ha)
    exact hclean
  toPut phase hpc := by
    rw [hpc] at haccess
    cases haccess
  validated phase hpc := by
    rw [hpc] at haccess
    cases haccess

/-- Of the state only the sets count. -/
theorem SetsClean.of_eq {state' : NRAMXactState} (h : SetsClean s x state scans)
    (hid : state'.xactId = state.xactId) (hread : state'.readSet = state.readSet)
    (hwrite : state'.writeSet = state.writeSet) :
    SetsClean s x state' scans where
  xactId := hid.trans h.xactId
  reads opt hopt := h.reads opt (hread ▸ hopt)
  writes opt hopt := h.writes opt (hwrite ▸ hopt)
  scans i d hd e he := by
    obtain ⟨hpub, hpriv⟩ := h.scans i d hd e he
    exact ⟨hpub, by rw [hwrite]; exact hpriv⟩

/-! ### Steps -/

/-- What a step of `x` does to the store and to the rows installed. -/
inductive StoreStep (s s' : Engine) (x : TransactionId) : Prop
  | same : s'.sh.db = s.sh.db → s'.installed = s.installed → StoreStep s s' x
  /-- The private row of an insert, which is in the write set unless the insert failed. -/
  | insert {k : NRAMKey} {v w : NRAMValue} :
      s'.sh.db = rocksenginePut s.sh.db k v → s'.installed = s.installed →
      (s.tx x).pc.access? = some (.insert k w) → (s'.tx x).pc.access? = none →
      v.isPrivate = true → v.xactId = x →
      ((s'.tx x).pc.ended = true ∨ k ∈ (s'.tx x).state.writeSet.map (·.key)) →
      StoreStep s s' x
  /-- The public row of an install. -/
  | install {k : NRAMKey} {v : NRAMValue} :
      s'.sh.db = rocksenginePut s.sh.db k v → s'.installed = (k, v) :: s.installed →
      s.Settled k.tid → v.isPrivate = false → v.xactId = x → s'.Validated x →
      StoreStep s s' x

/-- What a step of `x` does, apart from the record of `x`. -/
structure CleanStep (s s' : Engine) (x : TransactionId) : Prop where
  others : ∀ y, y ≠ x → s'.tx y = s.tx y
  generated : ∀ t ∈ s.generated, t ∈ s'.generated
  keys : (s'.tx x).pc.ended = true ∨ ((s.tx x).pc.ended = false ∧
    ∀ k ∈ (s.tx x).state.writeSet.map (·.key), k ∈ (s'.tx x).state.writeSet.map (·.key))
  validated : s.Validated x → s'.Validated x
  inserting : ∀ k v, (s'.tx x).pc.access? = some (.insert k v) →
    (s.tx x).pc.access? = some (.insert k v) ∨ k.tid ∉ s.generated
  handed : ∀ e ∈ s'.handed, e ∈ s.handed ∨ (e.key, e.value) ∈ s.installed
  store : StoreStep s s' x

theorem get_of_put {db : RocksDB NRAMValue} {k' : NRAMKey} {w : NRAMValue}
    (h : rocksengineGet (rocksenginePut db k v) k' = some w) :
    (k' = k ∧ w = v) ∨ rocksengineGet db k' = some w := by
  by_cases hk : k' = k
  · subst hk
    rw [rocksengineGet_put_self] at h
    exact .inl ⟨rfl, (some.inj h).symm⟩
  · rw [rocksengineGet_put_of_ne db v hk] at h
    exact .inr h

/-- **Where a row of the store comes from**: it was there, or the step has put it. -/
theorem StoreStep.of_get (h : StoreStep s s' x) (hget : rocksengineGet s'.sh.db k = some v) :
    rocksengineGet s.sh.db k = some v ∨
      (∃ w, (s.tx x).pc.access? = some (.insert k w) ∧ (s'.tx x).pc.access? = none ∧
        v.isPrivate = true ∧ v.xactId = x ∧
        ((s'.tx x).pc.ended = true ∨ k ∈ (s'.tx x).state.writeSet.map (·.key))) ∨
      s.Settled k.tid ∧ v.isPrivate = false ∧ (k, v) ∈ s'.installed := by
  cases h with
  | same hdb => exact .inl (hdb ▸ hget)
  | insert hdb _ hins hdone hpriv hid hown =>
    rw [hdb] at hget
    obtain ⟨rfl, rfl⟩ | hget := get_of_put hget
    · exact .inr (.inl ⟨_, hins, hdone, hpriv, hid, hown⟩)
    · exact .inl hget
  | install hdb hinst hsettled hpub =>
    rw [hdb] at hget
    obtain ⟨rfl, rfl⟩ | hget := get_of_put hget
    · exact .inr (.inr ⟨hsettled, hpub, hinst ▸ mem_cons_self⟩)
    · exact .inl hget

section Step

variable {s s' : Engine} {x : TransactionId}

/-- An insert that begins takes a new tid, so a settled tid stays settled. -/
theorem CleanStep.settled (hs : CleanStep s s' x) {t : BitVec 64} (ht : s.Settled t) :
    s'.Settled t := by
  refine ⟨hs.generated t ht.1, fun y k v hy heq => ?_⟩
  by_cases hyx : y = x
  · subst hyx
    obtain hold | hnew := hs.inserting k v hy
    · exact ht.2 y k v hold heq
    · exact hnew (heq ▸ ht.1)
  · rw [hs.others y hyx] at hy
    exact ht.2 y k v hy heq

theorem CleanStep.grows (hs : CleanStep s s' x) : Grows s s' := by
  refine ⟨fun e he => ?_, hs.generated, fun t => hs.settled⟩
  cases hs.store with
  | same _ hinst | insert _ hinst => exact hinst ▸ he
  | install _ hinst => exact hinst ▸ mem_cons_of_mem _ he

theorem CleanStep.validated_mono (hs : CleanStep s s' x) {y : TransactionId}
    (hy : s.Validated y) : s'.Validated y := by
  by_cases hyx : y = x
  · exact hyx ▸ hs.validated (hyx ▸ hy)
  · unfold Engine.Validated
    rw [hs.others y hyx]
    exact hy

section

variable (h : CleanInv s) (hs : CleanStep s s' x) {k : NRAMKey}

include h hs

/-- With its put an insert is through. -/
theorem CleanInv.settled_insert {w : NRAMValue} (hins : (s.tx x).pc.access? = some (.insert k w))
    (hdone : (s'.tx x).pc.access? = none) : s'.Settled k.tid := by
  refine ⟨hs.generated _ ((h.xact x).access _ hins).1, fun y k' v hy heq => ?_⟩
  by_cases hyx : y = x
  · subst hyx
    cases hdone.symm.trans hy
  · rw [hs.others y hyx] at hy
    exact hyx (h.inserting y x k' k v w hy hins heq)

section

variable (k : NRAMKey) (v : NRAMValue) (hget : rocksengineGet s'.sh.db k = some v)

include hget

theorem CleanInv.step_settled : s'.Settled k.tid := by
  obtain hold | ⟨w, hins, hdone, -⟩ | ⟨hsettled, -⟩ := hs.store.of_get hget
  · exact hs.settled (h.stored_settled k v hold)
  · -- the new row's insert is through with this step
    exact h.settled_insert hs hins hdone
  · exact hs.settled hsettled

theorem CleanInv.step_public (hpub : v.isPrivate = false) : (k, v) ∈ s'.installed := by
  obtain hold | ⟨w, -, -, hpriv, -⟩ | ⟨-, -, hinst⟩ := hs.store.of_get hget
  · exact hs.grows.installed _ (h.stored_public k v hold hpub)
  · cases hpriv.symm.trans hpub
  · exact hinst

theorem CleanInv.step_private (hpriv : v.isPrivate = true) :
    (s'.tx v.xactId).pc.ended = true ∨ k ∈ (s'.tx v.xactId).state.writeSet.map (·.key) := by
  obtain hold | ⟨w, -, -, -, hid, hown⟩ | ⟨-, hpub, -⟩ := hs.store.of_get hget
  · have hwriter := h.stored_private k v hold hpriv
    by_cases hvx : v.xactId = x
    · -- a transaction that goes on loses no key of its write set
      rw [hvx] at hwriter ⊢
      refine hs.keys.imp_right fun ⟨hrunning, hkeys⟩ => hkeys k ?_
      rw [hrunning] at hwriter
      exact hwriter.resolve_left (by simp)
    · rwa [hs.others _ hvx]
  · rw [hid]
    exact hown
  · cases hpriv.symm.trans hpub

end

/-- A private row is put under a key that is not in the store, so a public row stays public. -/
theorem CleanInv.step_stays_public (hk : s.Public k) : s'.Public k := by
  obtain ⟨w, hw, hpub⟩ := hk
  cases hs.store with
  | same hdb => exact ⟨w, by rw [hdb]; exact hw, hpub⟩
  | @insert k' _ _ hdb _ hins =>
    -- the key is in the store, so its tid is settled and nobody inserts under it
    have hne : k ≠ k' := by
      rintro rfl
      exact (h.stored_settled k w hw).2 x k _ hins rfl
    exact ⟨w, by rw [hdb, rocksengineGet_put_of_ne _ _ hne]; exact hw, hpub⟩
  | @install k' v' hdb _ _ hpub' =>
    by_cases hkk : k = k'
    · exact ⟨v', by rw [hdb, hkk, rocksengineGet_put_self], hpub'⟩
    · exact ⟨w, by rw [hdb, rocksengineGet_put_of_ne _ _ hkk]; exact hw, hpub⟩

theorem CleanInv.step_installed (k : NRAMKey)
    (v : NRAMValue) (hmem : (k, v) ∈ s'.installed) : s'.Public k ∧ s'.Validated v.xactId := by
  have hold : (k, v) ∈ s.installed → s'.Public k ∧ s'.Validated v.xactId := by
    intro hmem
    obtain ⟨hpub, hval⟩ := h.installed k v hmem
    exact ⟨h.step_stays_public hs hpub, hs.validated_mono hval⟩
  cases hs.store with
  | same _ hinst | insert _ hinst => exact hold (hinst ▸ hmem)
  | install hdb hinst _ hpub hid hval =>
    rw [hinst] at hmem
    obtain heq | hmem := mem_cons.mp hmem
    · obtain ⟨rfl, rfl⟩ := Prod.mk.inj heq
      exact ⟨⟨v, by rw [hdb, rocksengineGet_put_self], hpub⟩, hid ▸ hval⟩
    · exact hold hmem

theorem CleanInv.step_inserting (y z : TransactionId)
    (k k' : NRAMKey) (v w : NRAMValue) (hy : (s'.tx y).pc.access? = some (.insert k v))
    (hz : (s'.tx z).pc.access? = some (.insert k' w)) (heq : k.tid = k'.tid) : y = z := by
  -- `x` cannot begin to insert under a tid that another transaction is inserting under
  have hmixed : ∀ y k k' v w, y ≠ x → (s'.tx x).pc.access? = some (.insert k v) →
      (s.tx y).pc.access? = some (.insert k' w) → k.tid ≠ k'.tid := by
    intro y k k' v w hyx hins hy heq
    obtain hold | hnew := hs.inserting k v hins
    · exact hyx (h.inserting y x k' k w v hy hold heq.symm)
    · exact hnew (heq ▸ ((h.xact y).access _ hy).1)
  -- two others are as before; `x` and another cannot share a tid
  by_cases hyx : y = x
  · by_cases hzx : z = x
    · rw [hyx, hzx]
    · rw [hs.others z hzx] at hz
      exact absurd heq (hmixed z k k' v w hzx (hyx ▸ hy) hz)
  · rw [hs.others y hyx] at hy
    by_cases hzx : z = x
    · exact absurd heq.symm (hmixed y k' k w v hyx (hzx ▸ hz) hy)
    · rw [hs.others z hzx] at hz
      exact h.inserting y z k k' v w hy hz heq

/-- **The invariant survives a step**, if the record of `x` is in order after it. -/
theorem CleanInv.step (hx : XactClean s' x (s'.tx x)) : CleanInv s' where
  stored_settled := h.step_settled hs
  stored_public := h.step_public hs
  stored_private := h.step_private hs
  installed := h.step_installed hs
  handed e he :=
    hs.grows.installed _ ((hs.handed e he).elim (h.handed e) id)
  inserting := h.step_inserting hs
  xact y := by
    by_cases hyx : y = x
    · exact hyx ▸ hx
    · rw [hs.others y hyx]
      exact (h.xact y).grow hs.grows

end

end Step

/-! ### Rows a transaction comes across -/

section Rows

variable {s : Engine} {x : TransactionId} {state : NRAMXactState} {scans : Scans} {k : NRAMKey}
  {v : NRAMValue}

/-- What a transaction finds in its own sets is its write, or was installed. -/
theorem SetsClean.of_readOwn (h : SetsClean s x state scans) (hown : readOwn state k = some v) :
    readOwnWrite state k = some v ∨ (k, v) ∈ s.installed := by
  refine (or_eq_some_iff.mp hown).imp_right fun ⟨_, hread⟩ => ?_
  obtain ⟨opt, hopt, rfl⟩ := map_eq_some_iff.mp hread
  obtain ⟨hmem, rfl⟩ := mem_keys_of_find?_key hopt
  exact h.reads opt hmem

/-- A visible row that is in neither set was installed: the transaction's own private rows are
in its write set. -/
theorem RowClean.of_visible (h : RowClean s x state k v) (hid : state.xactId = x)
    (hown : readOwn state k = none) (hvis : nramValueCheckVisibility v state = true) :
    (k, v) ∈ s.installed := by
  by_cases hpriv : v.isPrivate = true
  · have hvx : v.xactId = x := by
      obtain hvx | hpub := of_decide_eq_true hvis
      · exact hvx.trans hid
      · cases hpriv.symm.trans hpub
    -- then it is in the write set, against `hown`
    have hfound := isSome_find?_key.mpr (h.of_private hpriv hvx)
    have hnone : readOwnWrite state k = none := (or_eq_none_iff.mp hown).1
    rw [readOwnWrite, map_eq_none_iff] at hnone
    rw [findWriteSet] at hnone
    rw [hnone] at hfound
    cases hfound
  · exact h.of_public (Bool.eq_false_iff.mpr hpriv)

/-- A running transaction may come across any row of the store. -/
theorem CleanInv.rowClean (h : CleanInv s) (hrunning : (s.tx x).pc.ended = false)
    (hget : rocksengineGet s.sh.db k = some v) : RowClean s x (s.tx x).state k v := by
  refine ⟨h.stored_public k v hget, fun hpriv hvx => ?_⟩
  have howner := h.stored_private k v hget hpriv
  rw [hvx, hrunning] at howner
  exact howner.resolve_left (by simp)

/-- A row read under a key that was once public is public: no check is needed after a reload. -/
theorem CleanInv.installed_of_get (h : CleanInv s) {w : NRAMValue} (hold : (k, v) ∈ s.installed)
    (hget : rocksengineGet s.sh.db k = some w) : (k, w) ∈ s.installed := by
  -- the key stayed public, so what the reload finds is public
  obtain ⟨⟨w', hw', hpub⟩, -⟩ := h.installed k v hold
  obtain rfl : w' = w := some.inj (hw'.symm.trans hget)
  exact h.stored_public k w' hget hpub

end Rows

theorem SetsClean.addReadSet (h : SetsClean s x state scans)
    (hinst : (k, v) ∈ s.installed) : SetsClean s x (addReadSet state k v) scans where
  xactId := h.xactId
  reads opt hopt := by
    rw [addReadSet_readSet] at hopt
    obtain hopt | rfl := mem_append_singleton.mp hopt
    · exact h.reads opt hopt
    · exact hinst
  writes := h.writes
  scans i d hd e he := ⟨(h.scans i d hd e he).of_public, (h.scans i d hd e he).of_private⟩

theorem SetsClean.addWriteSet (h : SetsClean s x state scans)
    (hpub : v.isPrivate = false) (hid : v.xactId = x) (hsettled : s.Settled k.tid) :
    SetsClean s x (addWriteSet state k v) scans where
  xactId := (addWriteSet_xactId state k v).trans h.xactId
  reads opt hopt := h.reads opt (addWriteSet_readSet state k v ▸ hopt)
  writes opt hopt := by
    obtain ⟨rfl, rfl⟩ | hold := mem_addWriteSet hopt
    · exact ⟨hpub, hid, hsettled⟩
    · exact h.writes opt hold
  scans i d hd e he := by
    obtain ⟨hp, hq⟩ := h.scans i d hd e he
    exact ⟨hp, fun hpriv hvx => mem_keys_addWriteSet.mpr (.inr (hq hpriv hvx))⟩

theorem SetsClean.of_scans (h : SetsClean s x state scans)
    (hscans : ∀ i d, scans' i = some d → ∀ e ∈ d.results, RowClean s x state e.1 e.2) :
    SetsClean s x state scans' :=
  ⟨h.xactId, h.reads, h.writes, hscans⟩

/-! ### Calls -/

/-- A call leaves the sets alone, and the rows of a scan are those it was begun with. -/
theorem SetsClean.enter (h : SetsClean s x state scans) {c : Call}
    (henter : enter detectAll state scans c = some (scans', todo, access)) :
    SetsClean s x state scans' := by
  refine h.of_scans fun i d' hd' e he => ?_
  obtain ⟨d, hd, hsub⟩ := (entered_of_eq henter).scans hd'
  exact h.scans i d hd e (hsub e he)

theorem CleanInv.enter_clean (h : CleanInv s) (hs : CleanStep s s' x) {c : Call}
    (henter : enter detectAll (s.tx x).state (s.tx x).scans c = some (scans', todo, access))
    (hadm : s.Admits x access) (hgen : s'.generated = access.generates ++ s.generated) :
    AccessClean s' x (s.tx x).state access := by
  have hsets := (h.xact x).sets
  have hg := hs.grows
  cases entered_of_eq henter with
  | beginscan | endOfScan | fetchRowVersion => trivial
  | ownRow _ _ hown | ownTuple hown => exact (hsets.of_readOwn hown).imp_right (hg.installed _)
  | scanRow hdesc _ _ hmem hown hvis =>
    -- the scan's copy passed the visibility check at the call
    exact hg.installed _ ((hsets.scans _ _ hdesc _ hmem).of_visible hsets.xactId hown hvis)
  | indexFetchTuple hown => exact hown
  | insert => exact ⟨hgen ▸ mem_cons_self, rfl, hsets.xactId⟩
  | tupleUpdate =>
    -- the executor updates a row it wrote or was given, so the tid is settled
    refine ⟨hs.settled ?_, rfl, hsets.xactId⟩
    obtain hown | hgiven := hadm
    · obtain ⟨opt, hopt, heq⟩ := mem_map.mp hown
      exact heq ▸ (hsets.writes opt hopt).2.2
    · -- a row that was handed out is in the store, under this tid
      obtain ⟨e, he, heq⟩ := mem_map.mp hgiven
      obtain ⟨⟨w, hw, -⟩, -⟩ := h.installed _ _ (h.handed e (mem_filter.mp he).1)
      exact heq ▸ h.stored_settled _ w hw

/-! ### Performing an access -/

section Perform

variable {s s' : Engine} {x : TransactionId} {access : Access} {db : RocksDB NRAMValue}
  {state : NRAMXactState} {scans : Scans}

/-- **What is handed to the executor** is an own write or was installed. -/
theorem CleanInv.performed_row (h : CleanInv s) (hpc : (s.tx x).pc = .acquiring [] access)
    {k : NRAMKey} {v : NRAMValue}
    (hperf : Performed (s.tx x).state (s.tx x).scans s.sh.db access db
      (some (state, scans, some (k, v)))) :
    readOwnWrite (s.tx x).state k = some v ∨ (k, v) ∈ s.installed := by
  have hsets := (h.xact x).sets
  have hrunning : (s.tx x).pc.ended = false := by rw [hpc]; rfl
  have haccess : AccessClean s x (s.tx x).state access :=
    (h.xact x).access access (by rw [hpc]; rfl)
  cases hperf with
  | ownRow => exact haccess
  | ownVersion hown => exact hsets.of_readOwn hown
  | scanRow hread =>
    -- read again without a check, or taken from the scan
    obtain ⟨-, hget⟩ | ⟨-, rfl⟩ := hread
    · exact .inr (h.installed_of_get haccess hget)
    · exact .inr haccess
  | indexFetchTuple hget hvis =>
    exact .inr ((h.rowClean hrunning hget).of_visible hsets.xactId haccess hvis)
  | fetchRowVersion hown hget hvis =>
    exact .inr ((h.rowClean hrunning hget).of_visible hsets.xactId hown hvis)

/-- The sets after the access. An insert is through with its put, so its tid is settled. -/
theorem CleanInv.performed_sets (h : CleanInv s) (hs : CleanStep s s' x)
    (hpc : (s.tx x).pc = .acquiring [] access) (hdone : (s'.tx x).pc.access? = none)
    {row : Option (NRAMKey × NRAMValue)}
    (hperf : Performed (s.tx x).state (s.tx x).scans s.sh.db access db
      (some (state, scans, row))) :
    SetsClean s' x state scans := by
  have hsets := (h.xact x).sets.grow hs.grows
  have hpending : (s.tx x).pc.access? = some access := by rw [hpc]; rfl
  have haccess := (h.xact x).access access hpending
  have hrunning : (s.tx x).pc.ended = false := by rw [hpc]; rfl
  -- whether the read is recorded or not, an installed row does no harm to the sets
  have hread : ∀ {k : NRAMKey} {w : NRAMValue}, (k, w) ∈ s.installed →
      SetsClean s' x (if (s.tx x).state.forRead then addReadSet (s.tx x).state k w
        else (s.tx x).state) (s.tx x).scans := by
    intro k w hinst
    split
    · exact hsets.addReadSet (hs.grows.installed _ hinst)
    · exact hsets
  cases hperf with
  | beginscan hresults =>
    -- the rows of the new scan are rows of the store
    refine hsets.of_scans fun i d hd e he => ?_
    obtain ⟨rfl, heq⟩ | ⟨-, hold⟩ := scan_of_update hd
    · obtain ⟨l, hl, hmem, -⟩ := rangeScan_spec s.sh.db ⟨_, 0⟩ ⟨_ + 1, 0⟩
      obtain rfl := Except.ok.inj (hresults.symm.trans hl)
      obtain rfl := heq
      exact (h.rowClean hrunning ((hmem e.1 e.2).mp he).1).grow hs.grows
    · exact hsets.scans i d hold e he
  | nothing | ownRow | ownVersion => exact hsets
  | scanRow hfound =>
    obtain ⟨-, hget⟩ | ⟨-, rfl⟩ := hfound
    · exact hread (h.installed_of_get haccess hget)
    · exact hread haccess
  | indexFetchTuple hget hvis =>
    exact hread ((h.rowClean hrunning hget).of_visible (h.xact x).sets.xactId haccess hvis)
  | fetchRowVersion hown hget hvis =>
    refine hsets.addReadSet (hs.grows.installed _ ?_)
    exact (h.rowClean hrunning hget).of_visible (h.xact x).sets.xactId hown hvis
  | insert =>
    exact hsets.addWriteSet (isPrivate_of_flags haccess.2.1) haccess.2.2
      (h.settled_insert hs hpending hdone)
  | tupleUpdate =>
    exact hsets.addWriteSet (isPrivate_of_flags haccess.2.1) haccess.2.2 (hs.settled haccess.1)

end Perform

/-! ### Moves -/

/-- A step is what it does to the store and to the record of one transaction. -/
theorem CleanInv.record {t' : Xact} (h : CleanInv s) (htx : s'.tx = update s.tx x t')
    (hrunning : (s.tx x).pc.ended = false) (hgen : ∀ t ∈ s.generated, t ∈ s'.generated)
    (hkeys : t'.pc.ended = true ∨ ∀ k ∈ (s.tx x).state.writeSet.map (·.key),
      k ∈ t'.state.writeSet.map (·.key))
    (hval : (s.tx x).state.validated = true → t'.state.validated = true)
    (hins : ∀ k v, t'.pc.access? = some (.insert k v) →
      (s.tx x).pc.access? = some (.insert k v) ∨ k.tid ∉ s.generated)
    (hhanded : ∀ e ∈ s'.handed, e ∈ s.handed ∨ (e.key, e.value) ∈ s.installed)
    (hstore : StoreStep s s' x) (hx : CleanStep s s' x → XactClean s' x t') : CleanInv s' := by
  have hself : s'.tx x = t' := by rw [htx, update_self]
  have hs : CleanStep s s' x := by
    refine ⟨fun y hyx => by rw [htx, update_of_ne hyx], hgen, ?_, ?_, ?_, hhanded, hstore⟩
    · rw [hself]
      exact hkeys.imp_right fun hk => ⟨hrunning, hk⟩
    · -- a running transaction is not one of the past
      intro hv
      refine .inr (hself ▸ hval (hv.resolve_left fun hpast => ?_))
      rw [hpast] at hrunning
      cases hrunning
    · rw [hself]
      exact hins
  exact h.step hs (hself ▸ hx hs)

/-- A transaction that ends keeps its sets. -/
theorem CleanInv.ends {pc : Pc} (h : CleanInv s)
    (htx : s'.tx = update s.tx x { s.tx x with pc := pc })
    (hrunning : (s.tx x).pc.ended = false) (hpc : pc.ended = true)
    (hgen : s'.generated = s.generated) (hhanded : s'.handed = s.handed)
    (hstore : StoreStep s s' x) : CleanInv s' := by
  have haccess : pc.access? = none := Pc.access?_of_ended hpc
  refine h.record htx hrunning (fun t ht => hgen ▸ ht) (.inl hpc) id ?_
    (fun e he => .inl (hhanded ▸ he)) hstore fun hs => ?_
  · intro k v hk
    cases haccess.symm.trans hk
  · have hsets := (h.xact x).sets.grow hs.grows
    refine SetsClean.xactClean (t := { s.tx x with pc := pc }) hsets haccess ?_
    rintro phase rfl
    cases hpc

/-- So does one that waits or is granted a lock. -/
theorem CleanInv.pending {pc : Pc} (h : CleanInv s)
    (htx : s'.tx = update s.tx x { s.tx x with pc := pc })
    (hold : (s.tx x).pc.access? = some access) (hpc : pc.access? = some access)
    (hgen : s'.generated = s.generated) (hhanded : s'.handed = s.handed) (hdb : s'.sh.db = s.sh.db)
    (hinst : s'.installed = s.installed) : CleanInv s' := by
  have hrunning : (s.tx x).pc.ended = false := Pc.running_of_access? hold
  refine h.record htx hrunning (fun t ht => hgen ▸ ht) (.inr fun k hk => hk) id ?_
    (fun e he => .inl (hhanded ▸ he)) (.same hdb hinst) fun hs => ?_
  · intro k v hk
    left
    rw [hold, ← hpc]
    exact hk
  · have hsets := (h.xact x).sets.grow hs.grows
    exact SetsClean.xactClean_access (t := { s.tx x with pc := pc }) hsets hpc
      (((h.xact x).access access hold).grow hs.grows)

theorem CommitMove.mem_toPut {serializable : Bool} {sh sh' : Shared}
    {phase phase' : CommitPhase} (h : CommitMove serializable reply state sh phase sh' (.ok phase'))
    {opt : NRAMXactOpt} (hopt : opt ∈ phase'.toPut) : opt ∈ phase.toPut ∨ opt ∈ state.writeSet := by
  cases h with
  | validatedAll => exact .inr hopt
  | put => exact .inl (mem_cons_of_mem _ hopt)
  | release => exact .inl hopt
  | _ => cases hopt

theorem CleanInv.storeStep_of_installs (h : CleanInv s) {phase : CommitPhase}
    (hpc : (s.tx x).pc = .committing phase) (hputs : phase.Installs reply s.sh.db s'.sh.db)
    (hinst : s'.installed = phase.puts reply ++ s.installed)
    (hval : (s.tx x).state.validated = true → s'.Validated x) : StoreStep s s' x := by
  obtain ⟨hnone, hdb⟩ | ⟨opt, hopt, hphase, hone, hdb⟩ := hputs
  -- nothing is put, or one write of the write set by a validated transaction
  · rw [hnone] at hinst
    exact .same hdb hinst
  · rw [hone] at hinst
    obtain ⟨hpub, hid, hsettled⟩ := (h.xact x).sets.writes opt ((h.xact x).toPut phase hpc opt hopt)
    exact .install hdb hinst hsettled hpub hid (hval ((h.xact x).validated phase hpc hphase))

/-- **Every move keeps the invariant.** -/
theorem CleanInv.move {l : EngineLabel} {row : Option (NRAMKey × NRAMValue)} (h : CleanInv s)
    (hmove : Move policy s l x (s.tx x) s' row) : CleanInv s' := by
  cases hmove with
  | @statement state rank hpc hstate =>
    -- the executor hooks touch neither set
    have hsame : state.xactId = (s.tx x).state.xactId ∧
        state.readSet = (s.tx x).state.readSet ∧ state.writeSet = (s.tx x).state.writeSet ∧
        state.validated = (s.tx x).state.validated := by
      obtain ⟨ct, rfl⟩ | rfl := hstate
      · exact ⟨rfl, rfl, rfl, rfl⟩
      · simp
    obtain ⟨hid, hread, hwrite, hval⟩ := hsame
    refine h.record rfl (by rw [hpc]; rfl) (fun t ht => ht) (.inr fun k hk => hwrite ▸ hk)
      (fun hv => hval.trans hv) ?_ (fun e he => .inl he) (.same rfl rfl) fun hs => ?_
    · intro k v hk
      exact .inl hk
    · refine (((h.xact x).sets.grow hs.grows).of_eq hid hread hwrite).xactClean ?_ ?_
      · show (s.tx x).pc.access? = none
        rw [hpc]
        rfl
      · intro phase hphase
        cases hpc.symm.trans hphase
  | @call c a scans todo access _ hpc haction henter hadm =>
    refine h.record rfl (by rw [hpc]; rfl) (fun t ht => mem_append_right _ ht)
      (.inr fun k hk => hk) id ?_ (fun e he => .inl he) (.same rfl rfl) fun hs => ?_
    · -- an insert that begins has a new tid
      intro k v hk
      obtain rfl : access = .insert k v := some.inj hk
      exact .inr hadm
    · have hsets := ((h.xact x).sets.grow hs.grows).enter henter
      exact hsets.xactClean_access
        (t := { s.tx x with scans, pc := .acquiring todo access }) rfl
        (h.enter_clean hs henter hadm rfl)
  | lock hpc =>
    refine h.pending rfl ?_ rfl rfl rfl rfl rfl
    obtain hpc | hpc := hpc <;> rw [hpc] <;> rfl
  | refused _ hpc | block hpc => exact h.pending rfl (by rw [hpc]; rfl) rfl rfl rfl rfl rfl
  | @perform access reply db state scans row hpc hperform =>
    have hperf := performed_of_eq hperform
    refine h.record rfl (by rw [hpc]; rfl) (fun t ht => ht) (.inr fun k hk => ?_) ?_ ?_ ?_ ?_
      fun hs => (h.performed_sets hs hpc ?_ hperf).xactClean rfl ?_
    · exact hperf.keys_subset hk
    · intro hv
      exact hperf.validated_xactId_eq.1.trans hv
    · nofun
    · -- only a row that is not an own write counts as handed out
      intro e he
      obtain hnew | hold := mem_append.mp he
      · obtain ⟨hrow, -, hnone⟩ := mem_handedOut hnew
        rw [hrow] at hperf
        refine .inr ((h.performed_row hpc hperf).resolve_left fun hown => ?_)
        cases hnone.symm.trans hown
      · exact .inl hold
    · have hpending : (s.tx x).pc.access? = some access := by rw [hpc]; rfl
      cases hperf with
      | @insert k v =>
        have hid : v.xactId = x := ((h.xact x).access _ hpending).2.2
        refine .insert rfl rfl hpending ?_ (isPrivate_or_private v) hid (.inr ?_)
        · simp [Engine.set, Pc.access?]
        · simp only [Engine.set, update_self]
          exact mem_keys_addWriteSet.mpr (.inl rfl)
      | _ => exact .same rfl rfl
    · simp [Engine.set, Pc.access?]
    · nofun
  | @performError access reply db hpc hperform =>
    have hperf := performed_of_eq hperform
    have hpending : (s.tx x).pc.access? = some access := by rw [hpc]; rfl
    refine h.ends rfl (by rw [hpc]; rfl) rfl rfl rfl ?_
    cases hperf with
    | error => exact .same rfl rfl
    | @insertError k v =>
      -- the private row stays in the store, and its writer has ended
      have hid : v.xactId = x := ((h.xact x).access _ hpending).2.2
      refine .insert rfl rfl hpending ?_ (isPrivate_or_private v) hid (.inl ?_)
      · simp [Engine.finish, Pc.access?]
      · simp [Engine.finish, Pc.ended]
  | preCommit hpc =>
    -- sorting keeps the entries, and the callback has nothing to put yet
    have hmem : ∀ opt, opt ∈ sortWriteSet (s.tx x).state.writeSet ↔
        opt ∈ (s.tx x).state.writeSet := fun opt => (sortWriteSet_perm _).mem_iff
    refine h.record rfl (by rw [hpc]; rfl) (fun t ht => ht) (.inr fun k hk => ?_) id ?_
      (fun e he => .inl he) (.same rfl rfl) fun hs => ?_
    · obtain ⟨opt, hopt, rfl⟩ := mem_map.mp hk
      exact mem_map_of_mem ((hmem opt).mpr hopt)
    · nofun
    · have hsets := (h.xact x).sets.grow hs.grows
      refine ⟨⟨hsets.xactId, hsets.reads, fun opt hopt => hsets.writes opt ((hmem opt).mp hopt),
        fun i d hd e he => ⟨(hsets.scans i d hd e he).of_public, fun hpriv hvx => ?_⟩⟩, ?_, ?_, ?_⟩
      · obtain ⟨opt, hopt, hkey⟩ := mem_map.mp ((hsets.scans i d hd e he).of_private hpriv hvx)
        exact hkey ▸ mem_map_of_mem ((hmem opt).mpr hopt)
      · nofun
      · intro phase hphase opt hopt
        obtain rfl := Pc.committing.inj hphase
        cases hopt
      · intro phase hphase hv
        obtain rfl := Pc.committing.inj hphase
        cases hv
  | @callback phase phase' reply sh hpc hcommit hputs =>
    -- the sets stay, and `validated` is only ever set
    refine h.record rfl (by rw [hpc]; rfl) (fun t ht => ht) (.inr fun k hk => hk) ?_ ?_
      (fun e he => .inl he) (h.storeStep_of_installs hpc hputs rfl fun hv => .inr ?_)
      fun hs => ?_
    · intro hv
      simp [hv]
    · nofun
    · simp [Engine.set, hv]
    · refine ⟨((h.xact x).sets.grow hs.grows).of_eq rfl rfl rfl, ?_, ?_, ?_⟩
      · nofun
      · intro phase'' hphase opt hopt
        obtain rfl := Pc.committing.inj hphase
        exact (hcommit.mem_toPut hopt).elim ((h.xact x).toPut phase hpc opt) id
      · intro phase'' hphase hv
        obtain rfl := Pc.committing.inj hphase
        simp [hv]
  | @callbackError phase reply sh e hpc hcommit hputs =>
    -- an error may come after the row was put
    refine h.ends rfl (by rw [hpc]; rfl) rfl rfl rfl
      (h.storeStep_of_installs hpc hputs rfl fun hv => .inr ?_)
    simp [Engine.finish, hv]
  | @finish pc hrunning hpc =>
    refine h.ends rfl hrunning ?_ rfl rfl (.same rfl rfl)
    obtain rfl | ⟨rfl, -⟩ := hpc <;> rfl

/-! ### Runs -/

theorem CleanInv.initial (h₀ : (engineSystem policy).init s) : CleanInv s := by
  obtain ⟨-, hhanded, -, htx, hstored, hinstalled⟩ := h₀
  have haccess : ∀ x, (s.tx x).pc.access? = none := by
    intro x
    obtain hpc | hpc := (htx x).2.2 <;> rw [hpc] <;> rfl
  refine ⟨fun k v hget => ⟨(hstored k v hget).1, fun y k' v' hy => ?_⟩,
    fun k v hget hpub => (hstored k v hget).2.2 hpub, fun k v hget _ => .inl ?_,
    fun k v hmem => ?_, fun e he => ?_, fun x y k k' v w hx => ?_, fun x => ?_⟩
  · cases (haccess y).symm.trans hy
  · rw [(hstored k v hget).2.1]
    rfl
  · obtain ⟨hget, hpub⟩ := hinstalled k v hmem
    exact ⟨⟨v, hget, hpub⟩, .inl (hstored k v hget).2.1⟩
  · rw [hhanded] at he
    cases he
  · cases (haccess x).symm.trans hx
  · obtain ⟨hstate, hscans, hpc⟩ := htx x
    have hsets : SetsClean s x (s.tx x).state (s.tx x).scans := by
      rw [hstate]
      refine ⟨rfl, nofun, nofun, fun i d hd => ?_⟩
      cases (hscans i).symm.trans hd
    refine hsets.xactClean (haccess x) fun phase hphase => ?_
    obtain hpc | hpc := hpc <;> cases hpc.symm.trans hphase

theorem cleanInv_of_run {s₀ : Engine} {ls : List EngineLabel} (h₀ : (engineSystem policy).init s₀)
    (hrun : (engineSystem policy).Run s₀ ls s) :
    CleanInv s :=
  engine_invariant hrun (CleanInv.initial h₀) fun _ _ _ _ h hmove => h.move hmove

/-- **No dirty reads.** A row that a callback hands to the executor of a transaction, in any
state of any run, is the transaction's own latest write of the key, or was installed by a
transaction that had passed its validation; the latter, if another transaction wrote it. -/
theorem engine_no_dirty_read {policy : Policy} {s₀ s s' : Engine} {ls : List EngineLabel}
    {l : EngineLabel} {k : NRAMKey} {v : NRAMValue} (h₀ : (engineSystem policy).init s₀)
    (hrun : (engineSystem policy).Run s₀ ls s)
    (hstep : engineStep policy s l = some (s', some (k, v))) :
    (readOwnWrite (s.tx l.xact).state k = some v ∨
      ((k, v) ∈ s.installed ∧ s.Validated v.xactId)) ∧
    (v.xactId ≠ l.xact → (k, v) ∈ s.installed ∧ s.Validated v.xactId) := by
  have h := cleanInv_of_run h₀ hrun
  have hrow : readOwnWrite (s.tx l.xact).state k = some v ∨
      ((k, v) ∈ s.installed ∧ s.Validated v.xactId) := by
    -- a row is handed out by the second part of a callback only
    cases engineStep_move hstep with
    | perform hpc hperform =>
      refine (h.performed_row hpc (performed_of_eq hperform)).imp_right fun hinst => ?_
      exact ⟨hinst, (h.installed k v hinst).2⟩
  refine ⟨hrow, fun hother => hrow.resolve_left fun hown => hother ?_⟩
  -- an own write carries the id of the transaction
  obtain ⟨opt, hopt, rfl⟩ := Option.map_eq_some_iff.mp hown
  exact ((h.xact l.xact).sets.writes opt (mem_keys_of_find?_key hopt).1).2.1

/-- The transaction `10` inserts a row; the transaction `11` asks for it, is given nothing, and
asks again after `10` has committed. -/
def insertCommitRead : List EngineLabel :=
  [.executorStart 10 .insert, .executorStart 11 .select,
    .call 10 (.insert 16384 ⟨2, 1⟩ []), .perform 10 .ok,
    .call 11 (.indexFetchTuple 16384 ⟨2, 1⟩), .perform 11 .ok,
    .preCommit 10, .callback 10 .ok, .callback 10 .ok, .callback 10 .ok, .callback 10 .ok,
    .callback 10 .ok, .callback 10 .ok, .commit 10,
    .call 11 (.indexFetchTuple 16384 ⟨2, 1⟩)]

theorem no_dirty_read_of_insert :
    ∃ s s', (engineSystem fun _ => ⟨false, .finite 0, 0⟩).Run oneRowEngine insertCommitRead s ∧
      engineStep (fun _ => ⟨false, .finite 0, 0⟩) s (.perform 11 .ok) =
        some (s', some (⟨16384, 131073⟩, ⟨10, 0, []⟩)) ∧
      (⟨16384, 131073⟩, ⟨10, 0, []⟩) ∈ s.installed ∧ s.Validated 10 := by
  obtain ⟨s, hrun, hs⟩ : ∃ s,
      (engineSystem fun _ => ⟨false, .finite 0, 0⟩).Run oneRowEngine insertCommitRead s ∧
      (engineStep (fun _ => ⟨false, .finite 0, 0⟩) s (.perform 11 .ok)).bind Prod.snd =
        some (⟨16384, 131073⟩, ⟨10, 0, []⟩) :=
    System.exists_run_of_exec (by decide) fun _ _ hs => hs
  obtain ⟨⟨s', row⟩, hstep, rfl⟩ := Option.bind_eq_some_iff.mp hs
  have hclean := engine_no_dirty_read (oneRowEngine_init _) hrun hstep
  exact ⟨s, s', hrun, hstep, hclean.2 (by decide)⟩

end NeurDB.Nram
