import NeurDB.Nram.Occ

/-!
# The commit callback follows the protocol

One lemma for each kind of step of `occSystem`: the relation `Sim` survives it, against the
step of the protocol it stands for or against no step. `Sim.step` collects them, and
`occ_conflictSerializable` reads the result off the protocol.
-/

namespace NeurDB.Nram

open Function List
open Option (map_some none_or some some_or)

open Validation (lastWriter)

variable {w₀ : NRAMKey → Option TransactionId} {c : OccState} {a : Abs} {x : TransactionId}

/-! ### Locks and grants -/

variable {holders : List NRAMLock} {locks : Locks} {opt : NRAMXactOpt} {todo : List NRAMXactOpt}

theorem count_cons_of_owner_ne {l l' : NRAMLock} (h : l.owner ≠ l'.owner) :
    (l' :: holders).count l = holders.count l :=
  count_cons_of_ne fun e => h (by rw [e])

theorem count_erase_of_owner_ne {l l' : NRAMLock} (h : l.owner ≠ l'.owner) :
    (holders.erase l').count l = holders.count l :=
  count_erase_of_ne fun e => h (by rw [e])

theorem count_cons_share (t : LockTag) (y : TransactionId) (key : NRAMKey)
    (holders : List NRAMLock) :
    (advisoryLock key .share x :: holders).count (exclusiveLock t y) =
      holders.count (exclusiveLock t y) :=
  count_cons_of_ne (by simp)

theorem count_erase_share (t : LockTag) (y : TransactionId) (key : NRAMKey)
    (holders : List NRAMLock) :
    (holders.erase (advisoryLock key .share x)).count (exclusiveLock t y) =
      holders.count (exclusiveLock t y) :=
  count_erase_of_ne (by simp)

/-! ### Steps without a step of the protocol -/

theorem Sim.congr_locks (hS : Sim w₀ c a) (h : locks.holders = c.sh.locks.holders) :
    Sim w₀ { c with sh := { c.sh with locks } } a where
  hist := hS.hist
  holds y t := by
    show _ ↔ exclusiveLock t y ∈ locks.holders
    rw [h]
    exact hS.holds y t
  version := hS.version
  past := hS.past
  sets := hS.sets
  phases y := by
    show PhaseSim _ _ locks.holders a y
    rw [h]
    exact hS.phases y

/-- A step that is none of the protocol: exclusive locks stay as they are. -/
theorem Sim.stay (hS : Sim w₀ c a) {t' : OccTx}
    (hlocks : ∀ l : NRAMLock, l.owner ≠ x → locks.holders.count l = c.sh.locks.holders.count l)
    (hexcl : ∀ t, locks.holders.count (exclusiveLock t x) =
      c.sh.locks.holders.count (exclusiveLock t x))
    (hpast : (c.tx x).phase ≠ .past) (hsets : SetSim w₀ t'.state a x)
    (hphases : PhaseSim t'.phase t'.state locks.holders a x) :
    Sim w₀ ⟨⟨c.sh.db, locks⟩, Function.update c.tx x t', c.hist⟩ a := by
  refine hS.update (Frame.refl_of_locks hlocks) hS.hist (fun y t => ?_) hS.version hpast hsets
    hphases
  have hcount : locks.holders.count (exclusiveLock t y) =
      c.sh.locks.holders.count (exclusiveLock t y) := by
    by_cases hy : y = x
    · subst hy
      exact hexcl t
    · exact hlocks (exclusiveLock t y) hy
  rw [hS.holds, ← one_le_count_iff, ← hcount, one_le_count_iff]

variable {phase : OccPhase} {state : NRAMXactState}

theorem OccPhase.Early.nothing_due (h : phase.Early) (writeSet : List NRAMXactOpt) :
    ¬ phase.Late ∧ phase.pending = [] ∧ phase.unwritten writeSet = [] ∧
      ∀ opt r todo, phase ≠ .committing (.peeked opt r todo) := by
  cases phase with
  | past | active => exact ⟨id, rfl, rfl, by simp⟩
  | committing phase =>
    cases phase with
    | locking | waiting => exact ⟨id, rfl, rfl, by simp⟩
    | _ => exact h.elim
  | _ => exact h.elim

/-- Before its point a transaction owes nothing but the locks it has taken. -/
theorem PhaseSim.of_early (hearly : phase.Early) (hpoint : x ∉ a.points)
    (howed : ∃ owed, phase.Owes state.writeSet owed ∧
      ∀ t, holders.count (exclusiveLock t x) = (owed.map fun o => advisoryTag o.key).count t) :
    PhaseSim phase state holders a x := by
  obtain ⟨hlate, hpending, hunwritten, hpeeked⟩ := hearly.nothing_due state.writeSet
  refine ⟨fun _ => hpoint, fun h => absurd h hlate, fun h => absurd h hlate, ?_, ?_, ?_, howed,
    fun opt r todo h => absurd h (hpeeked opt r todo)⟩
  · rw [hpending]
    exact nofun
  · rw [hunwritten]
    exact nil_sublist _
  · rw [hunwritten]
    exact nofun

theorem PhaseSim.of_active (hpoint : x ∉ a.points)
    (hcount : ∀ t, holders.count (exclusiveLock t x) = 0) :
    PhaseSim .active state holders a x := .of_early trivial hpoint ⟨[], rfl, hcount⟩

theorem PhaseSim.active_count (h : PhaseSim .active state holders a x) (t : LockTag) :
    holders.count (exclusiveLock t x) = 0 := by
  obtain ⟨owed, howes, hcount⟩ := h.owed
  obtain rfl : owed = [] := howes
  exact hcount t

/-- A write goes into the write set only. -/
theorem Sim.write (hS : Sim w₀ c a) (hactive : (c.tx x).phase = .active) (key : NRAMKey)
    (fields : List NRAMValueField) :
    Sim w₀ ⟨c.sh, Function.update c.tx x
      { c.tx x with state := addWriteSet (c.tx x).state key ⟨x, 0, fields⟩ }, c.hist⟩ a := by
  have hset := hS.sets x
  have hphase := hS.phases x
  rw [hactive] at hphase
  refine hS.stay (fun _ _ => rfl) (fun _ => rfl) (by rw [hactive]; simp) ?_ ?_
  · refine ⟨?_, ?_, ?_, ?_, addWriteSet_nodup key _ hset.writes_nodup⟩
    · rw [addWriteSet_xactId]
      exact hset.xactId
    · rw [addWriteSet_readSet]
      exact hset.reads
    · rw [addWriteSet_readSet]
      exact hset.seen
    · intro opt hopt
      rcases mem_addWriteSet hopt with ⟨-, hval⟩ | hold
      · rw [hval]
      · exact hset.writes_id opt hold
  · show PhaseSim (c.tx x).phase _ _ _ _
    rw [hactive]
    exact .of_active (hphase.early trivial) hphase.active_count

/-- The server calls the callback: the write set is sorted, and locking starts. -/
theorem Sim.preCommit (hS : Sim w₀ c a) (hactive : (c.tx x).phase = .active) :
    Sim w₀ ⟨c.sh, Function.update c.tx x
      ⟨{ (c.tx x).state with writeSet := sortWriteSet (c.tx x).state.writeSet },
        .committing (.locking (sortWriteSet (c.tx x).state.writeSet))⟩, c.hist⟩ a := by
  have hset := hS.sets x
  have hphase := hS.phases x
  rw [hactive] at hphase
  have hperm := sortWriteSet_perm (c.tx x).state.writeSet
  refine hS.stay (fun _ _ => rfl) (fun _ => rfl) (by rw [hactive]; simp) ?_ ?_
  · exact ⟨hset.xactId, hset.reads, hset.seen,
      fun opt hopt => hset.writes_id opt (hperm.mem_iff.mp hopt),
      (hperm.map _).nodup_iff.mpr hset.writes_nodup⟩
  · exact .of_early trivial (hphase.early trivial) ⟨[], rfl, hphase.active_count⟩

/-! ### Reads -/

/-- The versions of the protocol and of the store: equal ids mean that the last writer is the
one seen, since the writers of the first versions write nothing. -/
theorem Sim.seen_eq_lastWriter (hS : Sim w₀ c a) (hI : Validation.Inv advisoryTag a) {k : NRAMKey}
    (hread : Op.read x k ∈ a.hist) {w : TransactionId}
    (hseen : (a.seen x k).or (w₀ k) = some w) (hlast : (lastWriter a.hist k).or (w₀ k) = some w) :
    a.seen x k = lastWriter a.hist k := by
  -- a transaction of the past never passes its point, and only those that did have written
  have hnever : ∀ z, w₀ k = some z → Op.write z k ∉ a.hist := by
    intro z hz hmem
    have hearly := (hS.phases z).early
    rw [hS.past k z hz] at hearly
    exact hearly trivial (hI.write_point z k hmem)
  obtain ⟨h₁, h₂, heq, hseen₁⟩ := hI.seen_eq x k hread
  -- in the two mixed cases one of the two ids would be both a first version's and a writer's
  cases hs : a.seen x k with
  | some z =>
    cases hl : lastWriter a.hist k with
    | some z' =>
      rw [hs, some_or, some.injEq] at hseen
      rw [hl, some_or, some.injEq] at hlast
      rw [hseen, hlast]
    | none =>
      rw [hs, some_or, some.injEq] at hseen
      rw [hl, none_or] at hlast
      have hmem : Op.write z k ∈ a.hist := by
        rw [heq]
        exact mem_append_left _ (Validation.mem_of_lastWriter (hseen₁ ▸ hs))
      exact absurd hmem (hnever z (hlast.trans (congrArg some hseen.symm)))
  | none =>
    cases hl : lastWriter a.hist k with
    | some z' =>
      rw [hs, none_or] at hseen
      rw [hl, some_or, some.injEq] at hlast
      exact absurd (Validation.mem_of_lastWriter hl)
        (hnever z' (hseen.trans (congrArg some hlast.symm)))
    | none => rfl

/-- A read takes the version of the last writer. -/
theorem Sim.read (hS : Sim w₀ c a) (hactive : (c.tx x).phase = .active) {key : NRAMKey}
    (hnew : readOwnRead (c.tx x).state key = none) {value : NRAMValue}
    (hget : rocksengineGet c.sh.db key = some value) :
    ∃ a', Validation.Step advisoryTag a a' ∧
      Sim w₀ ⟨c.sh, Function.update c.tx x
        { c.tx x with state := addReadSet (c.tx x).state key value },
        c.hist ++ [.read x key]⟩ a' := by
  have hset := hS.sets x
  have hphase := hS.phases x
  rw [hactive] at hphase
  -- the row is read from the store once: the next read finds it in the read set
  have hkey : key ∉ (c.tx x).state.readSet.map (·.key) := by
    intro hin
    have hsome := isSome_find?_key.mpr hin
    have hnone : findReadSet (c.tx x).state key = none := Option.map_eq_none_iff.mp hnew
    rw [show List.find? _ _ = none from hnone] at hsome
    cases hsome
  have hpoint : x ∉ a.points := hphase.early trivial
  have hfresh : Op.read x key ∉ a.hist := fun h => hkey ((hset.reads key).mp h)
  refine ⟨_, .read a x key hpoint hfresh, ?_⟩
  refine hS.update ?_ (by rw [hS.hist]) hS.holds ?_ (by rw [hactive]; simp) ?_ ?_
  · refine ⟨fun _ _ => rfl, fun _ _ => Iff.rfl, fun op hop => ?_, fun y k hy => ?_, fun _ _ h => h⟩
    · rw [mem_append_singleton]
      refine or_iff_left fun h => hop ?_
      rw [h]
      rfl
    · exact if_neg fun h => hy h.1
  · -- a read changes no last writer
    intro k
    rw [Validation.lastWriter_append_read]
    exact hS.version k
  · refine ⟨hset.xactId, fun k => ?_, fun opt hopt => ?_, hset.writes_id, hset.writes_nodup⟩
    · rw [addReadSet_readSet, map_append, mem_append, mem_append, hset.reads k]
      simp [eq_comm]
    · rw [addReadSet_readSet] at hopt
      rcases mem_append_singleton.mp hopt with hold | rfl
      · have hne : opt.key ≠ key := fun h => hkey (h ▸ mem_map_of_mem hold)
        show (if x = x ∧ opt.key = key then _ else a.seen x opt.key).or _ = _
        rw [if_neg fun h => hne h.2]
        exact hset.seen opt hold
      · -- the new entry has the version in the store, which is the last writer's
        show (if x = x ∧ key = key then _ else a.seen x key).or _ = _
        rw [if_pos ⟨rfl, rfl⟩, ← hS.version, hget]
        rfl
  · show PhaseSim (c.tx x).phase _ _ _ _
    rw [hactive]
    exact .of_active hpoint hphase.active_count

/-! ### The moves of the callback -/

section

variable (hS : Sim w₀ c a)

include hS

/-- With the last lock the transaction is at its point. -/
theorem Sim.lockedAll (hI : Validation.Inv advisoryTag a)
    (hphase : (c.tx x).phase = .committing (.locking [])) :
    ∃ a', Validation.Step advisoryTag a a' ∧
      Sim w₀ ⟨c.sh, Function.update c.tx x
        { c.tx x with phase := .committing (.validating (c.tx x).state.readSet) }, c.hist⟩ a' := by
  have hset := hS.sets x
  have hph := hS.phases x
  rw [hphase] at hph
  have hpoint : x ∉ a.points := hph.early trivial
  refine ⟨_, .point a x hpoint, ?_⟩
  refine hS.update ?_ hS.hist hS.holds hS.version (by rw [hphase]; simp)
    (hset.congr (fun _ => Iff.rfl) fun _ => rfl) ?_
  · refine ⟨fun _ _ => rfl, fun y hy => ?_, fun _ _ => Iff.rfl, fun _ _ _ => rfl, fun _ _ h => h⟩
    rw [mem_append_singleton]
    exact or_iff_left hy
  · exact {
      early := fun h => h.elim
      late := fun _ => mem_append_right _ mem_cons_self
      checked := fun _ opt hopt => .inr hopt
      pending := fun _ h => h
      unwritten_sub := Sublist.refl _
      unwritten := fun opt _ hmem => hpoint (hI.write_point x opt.key hmem)
      -- nothing is left to lock, so the whole write set is owed
      owed := by
        obtain ⟨owed, howes, hcount⟩ := hph.owed
        have howes' : (c.tx x).state.writeSet = owed ++ [] := howes
        rw [append_nil] at howes'
        exact ⟨owed, howes'.symm, hcount⟩
      peeked := nofun }

/-- A granted lock is a lock of the protocol. -/
theorem Sim.lock (hearly : (c.tx x).phase.Early) (hpast : (c.tx x).phase ≠ .past)
    (howed : ∃ owed, (c.tx x).state.writeSet = owed ++ opt :: todo ∧
      ∀ t, c.sh.locks.holders.count (exclusiveLock t x) =
        (owed.map fun o => advisoryTag o.key).count t)
    (hlocks : locks.holders = advisoryLock opt.key .exclusive x :: c.sh.locks.holders) :
    ∃ a', Validation.Step advisoryTag a a' ∧
      Sim w₀ ⟨⟨c.sh.db, locks⟩, Function.update c.tx x
        { c.tx x with phase := .committing (.locking todo) }, c.hist⟩ a' := by
  have hset := hS.sets x
  have hph := hS.phases x
  have hpoint : x ∉ a.points := hph.early hearly
  -- the table grants nothing that conflicts
  have hfree : ∀ y, y ≠ x → ¬ a.holds y (advisoryTag opt.key) := by
    intro y hy hheld
    have hmem : exclusiveLock (advisoryTag opt.key) y ∈ locks.holders := by
      rw [hlocks]
      exact mem_cons_of_mem _ ((hS.holds y _).mp hheld)
    have hmine : exclusiveLock (advisoryTag opt.key) x ∈ locks.holders := by
      rw [hlocks]
      exact mem_cons_self
    exact hy (locks.exclusion hmem hmine rfl rfl)
  refine ⟨_, .acquire a x (advisoryTag opt.key) hpoint hfree, ?_⟩
  refine hS.update ?_ hS.hist (fun y t => ?_) hS.version hpast
    (hset.congr (fun _ => Iff.rfl) fun _ => rfl) ?_
  · refine ⟨fun l hl => ?_, fun _ _ => Iff.rfl, fun _ _ => Iff.rfl, fun _ _ _ => rfl,
      fun _ _ h => h⟩
    rw [hlocks]
    exact count_cons_of_owner_ne hl
  · rw [hlocks, mem_cons]
    refine or_congr ?_ (hS.holds y t)
    simp [exclusiveLock, and_comm]
  · -- the lock of `opt` is the one more that is owed
    obtain ⟨owed, howes, hcount⟩ := howed
    refine .of_early trivial hpoint ⟨owed ++ [opt], ?_, fun t => ?_⟩
    · show (c.tx x).state.writeSet = owed ++ [opt] ++ todo
      rw [howes, append_assoc]
      rfl
    · rw [hlocks, map_append, map_singleton, count_append, ← hcount t, count_cons, count_singleton]
      simp [exclusiveLock]

/-- A version that has not changed is one check of the protocol. -/
theorem Sim.compare (hI : Validation.Inv advisoryTag a) {r : LockAcquireResult}
    (hphase : (c.tx x).phase = .committing (.peeked opt r todo)) {curVal : NRAMValue}
    (hget : rocksengineGet c.sh.db opt.key = some curVal) (hid : curVal.xactId = opt.xactId) :
    ∃ a', Validation.Step advisoryTag a a' ∧
      Sim w₀ ⟨c.sh, Function.update c.tx x
        { c.tx x with phase := .committing (.compared opt r todo) }, c.hist⟩ a' := by
  have hset := hS.sets x
  have hph := hS.phases x
  rw [hphase] at hph
  have hshare := hph.peeked opt r todo rfl
  have hopt : opt ∈ (c.tx x).state.readSet := hph.pending opt mem_cons_self
  -- the share lock of `x` is still granted, so nobody else has the exclusive one
  have hfree : ∀ y, y ≠ x → ¬ a.holds y (advisoryTag opt.key) := by
    intro y hy hheld
    exact hy (c.sh.locks.exclusion ((hS.holds y _).mp hheld) hshare rfl rfl)
  have hseen : a.seen x opt.key = lastWriter a.hist opt.key := by
    refine hS.seen_eq_lastWriter hI ((hset.reads _).mpr (mem_map_of_mem hopt))
      (hset.seen opt hopt) ?_
    rw [← hS.version, hget, map_some, hid]
  refine ⟨_, .check a x opt.key (hph.late trivial) hfree hseen, ?_⟩
  refine hS.update ?_ hS.hist hS.holds hS.version (by rw [hphase]; simp)
    (hset.congr (fun _ => Iff.rfl) fun _ => rfl) ?_
  · exact ⟨fun _ _ => rfl, fun _ _ => Iff.rfl, fun _ _ => Iff.rfl, fun _ _ _ => rfl,
      fun _ _ h => .inr h⟩
  · exact { hph with
      checked := by
        intro _ opt' hopt'
        rcases hph.checked trivial opt' hopt' with hc | hp
        · exact .inl (.inr hc)
        · rcases mem_cons.mp hp with rfl | hp
          · exact .inl (.inl ⟨rfl, rfl⟩)
          · exact .inr hp
      pending := fun opt' h => hph.pending opt' (mem_cons_of_mem _ h)
      unwritten_sub := List.Sublist.refl _
      peeked := nofun }

/-- A put is a write of the protocol, under the lock that is still held. -/
theorem Sim.put (hphase : (c.tx x).phase = .committing (.installing (opt :: todo))) :
    ∃ a', Validation.Step advisoryTag a a' ∧
      Sim w₀ ⟨⟨rocksenginePut c.sh.db opt.key opt.value, c.sh.locks⟩, Function.update c.tx x
        { c.tx x with phase := .committing (.installed opt todo) },
        c.hist ++ [.write x opt.key]⟩ a' := by
  have hset := hS.sets x
  have hph := hS.phases x
  rw [hphase] at hph
  have hsub : (opt :: todo).Sublist (c.tx x).state.writeSet := hph.unwritten_sub
  -- a write that is owed has its lock
  have hheld : a.holds x (advisoryTag opt.key) := by
    obtain ⟨owed, howes, hcount⟩ := hph.owed
    obtain rfl : owed = opt :: todo := howes
    rw [hS.holds, ← one_le_count_iff, hcount, one_le_count_iff]
    exact mem_cons_self
  have hnew : Op.write x opt.key ∉ a.hist := hph.unwritten opt mem_cons_self
  refine ⟨_, .write a x opt.key (hph.late trivial) hheld hnew, ?_⟩
  refine hS.update ?_ (by rw [hS.hist]) hS.holds (fun k => ?_) (by rw [hphase]; simp)
    (hset.congr (fun k => ?_) fun _ => rfl) ?_
  · refine ⟨fun _ _ => rfl, fun _ _ => Iff.rfl, fun op hop => ?_, fun _ _ _ => rfl, fun _ _ h => h⟩
    rw [mem_append_singleton]
    refine or_iff_left fun h => hop ?_
    rw [h]
    rfl
  · -- the store has the version of `x` under the key, and `x` is its last writer
    by_cases hk : k = opt.key
    · subst hk
      rw [rocksengineGet_put_self, Validation.lastWriter_append_write_self, map_some,
        hset.writes_id opt (hsub.subset mem_cons_self), some_or]
    · rw [rocksengineGet_put_of_ne _ _ hk, hS.version,
        Validation.lastWriter_append_write_of_ne _ _ (Ne.symm hk)]
  · rw [mem_append_singleton]
    exact or_iff_left (by simp)
  · exact { hph with
      pending := nofun
      unwritten_sub := (sublist_cons_self opt todo).trans hsub
      unwritten := by
        intro opt' hopt' hmem
        rcases mem_append_singleton.mp hmem with hold | hlast
        · exact hph.unwritten opt' (mem_cons_of_mem _ hopt') hold
        · -- the keys of a write set are distinct
          have hnd : ((opt :: todo).map (·.key)).Nodup := hset.writes_nodup.sublist (hsub.map _)
          have heq : opt'.key = opt.key := by simpa using hlast
          exact (nodup_cons.mp hnd).1 (mem_map.mpr ⟨opt', hopt', heq⟩)
      peeked := nofun }

theorem Sim.release (hphase : (c.tx x).phase = .committing (.installed opt todo))
    (hlocks : locks.holders = c.sh.locks.holders.erase (advisoryLock opt.key .exclusive x)) :
    ∃ a', Validation.Step advisoryTag a a' ∧
      Sim w₀ ⟨⟨c.sh.db, locks⟩, Function.update c.tx x
        { c.tx x with phase := .committing (.installing todo) }, c.hist⟩ a' := by
  have hset := hS.sets x
  have hph := hS.phases x
  rw [hphase] at hph
  refine ⟨_, .release a (fun y t => exclusiveLock t y ∈ locks.holders) (fun y t h => ?_), ?_⟩
  · rw [hlocks] at h
    exact (hS.holds y t).mpr (mem_of_mem_erase h)
  refine hS.update ?_ hS.hist (fun _ _ => Iff.rfl) hS.version (by rw [hphase]; simp)
    (hset.congr (fun _ => Iff.rfl) fun _ => rfl) ?_
  · refine ⟨fun l hl => ?_, fun _ _ => Iff.rfl, fun _ _ => Iff.rfl, fun _ _ _ => rfl,
      fun _ _ h => h⟩
    rw [hlocks]
    exact count_erase_of_owner_ne hl
  · exact { hph with
      pending := nofun
      owed := by
        obtain ⟨owed, howes, hcount⟩ := hph.owed
        obtain rfl : owed = opt :: todo := howes
        refine ⟨todo, rfl, fun t => ?_⟩
        -- one grant less under this tag, and one write less that is owed
        have h := hcount t
        rw [map_cons, count_cons] at h
        rw [hlocks, count_erase, h]
        by_cases ht : advisoryTag opt.key = t
        · simp [exclusiveLock, ht]
        · simp [exclusiveLock, ht]
      peeked := nofun }

/-- The end gives all locks back. -/
theorem Sim.finish (hpast : (c.tx x).phase ≠ .past)
    (hend : phase = .aborted ∨ phase = .committed ∧ (c.tx x).phase = .committing .done) :
    ∃ a', Validation.Step advisoryTag a a' ∧ Sim w₀ (c.finish x phase) a' := by
  have hset := hS.sets x
  have hph := hS.phases x
  refine ⟨_, .release a (fun y t => exclusiveLock t y ∈ (c.sh.locks.releaseAll x).holders)
    (fun y t h => (hS.holds y t).mpr (LockTable.mem_releaseAll.mp h).1), ?_⟩
  refine hS.update ?_ hS.hist (fun _ _ => Iff.rfl) hS.version hpast
    (hset.congr (fun _ => Iff.rfl) fun _ => rfl) ?_
  · exact ⟨fun l hl => LockTable.count_releaseAll_of_ne hl, fun _ _ => Iff.rfl, fun _ _ => Iff.rfl,
      fun _ _ _ => rfl, fun _ _ h => h⟩
  · have hcount : ∀ t, (c.sh.locks.releaseAll x).holders.count (exclusiveLock t x) = 0 :=
      fun t => LockTable.count_releaseAll_self
    rcases hend with rfl | ⟨rfl, hdone⟩
    -- an aborted transaction is neither before nor after its point
    · exact {
        early := fun h => h.elim
        late := fun h => h.elim
        checked := fun h => h.elim
        pending := nofun
        unwritten_sub := nil_sublist _
        unwritten := nofun
        owed := ⟨[], rfl, hcount⟩
        peeked := nofun }
    · rw [hdone] at hph
      exact { hph with
        pending := nofun
        unwritten_sub := nil_sublist _
        unwritten := nofun
        owed := ⟨[], rfl, hcount⟩
        peeked := nofun }

omit hS in
theorem Sim.of_step (h : ∃ a', Validation.Step advisoryTag a a' ∧ Sim w₀ c a') :
    ∃ a', (a' = a ∨ Validation.Step advisoryTag a a') ∧ Sim w₀ c a' :=
  h.imp fun _ h => h.imp_left .inr

/-- **A move of the callback.** Where it succeeds, the relation holds again, against one step
of the protocol or none. -/
theorem Sim.move (hI : Validation.Inv advisoryTag a) {phase phase' : CommitPhase}
    {sh : Shared} (hphase : (c.tx x).phase = .committing phase)
    (hmove : CommitMove true .ok (c.tx x).state c.sh phase sh (.ok phase')) :
    ∃ a', (a' = a ∨ Validation.Step advisoryTag a a') ∧
      Sim w₀ ⟨sh, Function.update c.tx x { c.tx x with phase := .committing phase' },
        c.hist ++ (phase.putKey.map (Op.write x)).toList⟩ a' := by
  have hset := hS.sets x
  have hph := hS.phases x
  have hpast : (c.tx x).phase ≠ .past := by rw [hphase]; simp
  have hx := hset.xactId
  -- only a put extends the history
  have hquiet : phase.putKey = none →
      c.hist ++ (phase.putKey.map (Op.write x)).toList = c.hist := by
    intro h
    rw [h]
    exact append_nil _
  rw [hphase] at hph
  cases hmove with
  | lockedAll =>
    rw [hquiet rfl]
    exact Sim.of_step (hS.lockedAll hI hphase)
  | lock hlocks | wake hlocks =>
    rw [hx] at hlocks
    rw [hquiet rfl]
    exact Sim.of_step (hS.lock (by rw [hphase]; trivial) hpast hph.owed hlocks)
  | block hlocks =>
    refine ⟨a, .inl rfl, ?_⟩
    rw [hquiet rfl]
    refine hS.stay (fun _ _ => by rw [hlocks]) (fun _ => by rw [hlocks]) hpast hset ?_
    -- it waits for the same lock, with the same locks granted
    rw [hlocks]
    exact .of_early trivial (hph.early trivial) hph.owed
  | validatedAll =>
    refine ⟨a, .inl rfl, ?_⟩
    rw [hquiet rfl]
    refine hS.stay (fun _ _ => rfl) (fun _ => rfl) hpast hset ?_
    exact { hph with
      pending := nofun
      unwritten_sub := List.Sublist.refl _
      peeked := nofun }
  | peek hlocks =>
    rw [hx] at hlocks
    refine ⟨a, .inl rfl, ?_⟩
    rw [hquiet rfl]
    refine hS.stay (fun l hl => ?_) (fun t => ?_) hpast hset ?_
    · rw [hlocks]
      exact count_cons_of_owner_ne hl
    · rw [hlocks]
      exact count_cons_share t x _ _
    · exact { hph with
        unwritten_sub := List.Sublist.refl _
        owed := by
          obtain ⟨owed, howes, hcount⟩ := hph.owed
          refine ⟨owed, howes, fun t => ?_⟩
          rw [hlocks, count_cons_share]
          exact hcount t
        peeked := by
          intro opt' r' todo' heq
          simp only [OccPhase.committing.injEq, CommitPhase.peeked.injEq] at heq
          rw [hlocks, ← heq.1]
          exact mem_cons_self }
  | compare hget hid =>
    rw [hquiet rfl]
    exact Sim.of_step (hS.compare hI hphase hget hid)
  | @unpeek opt todo r locks hlocks =>
    rw [hx] at hlocks
    refine ⟨a, .inl rfl, ?_⟩
    rw [hquiet rfl]
    -- the share lock is given back, or was there before and stays; no exclusive lock changes
    have hexcl : ∀ t, locks.holders.count (exclusiveLock t x) =
        c.sh.locks.holders.count (exclusiveLock t x) := by
      intro t
      rcases hlocks with h | h
      · rw [h, count_erase_share]
      · rw [h]
    refine hS.stay (fun l hl => ?_) hexcl hpast hset ?_
    · rcases hlocks with h | h
      · rw [h]
        exact count_erase_of_owner_ne hl
      · rw [h]
    · exact { hph with
        unwritten_sub := List.Sublist.refl _
        owed := by
          obtain ⟨owed, howes, hcount⟩ := hph.owed
          exact ⟨owed, howes, fun t => (hexcl t).trans (hcount t)⟩
        peeked := nofun }
  | installedAll =>
    refine ⟨a, .inl rfl, ?_⟩
    rw [hquiet rfl]
    refine hS.stay (fun _ _ => rfl) (fun _ => rfl) hpast hset ?_
    exact { hph with
      pending := nofun
      unwritten_sub := nil_sublist _
      unwritten := nofun
      peeked := nofun }
  | put _ => exact Sim.of_step (hS.put hphase)
  | release hlocks =>
    rw [hx] at hlocks
    rw [hquiet rfl]
    exact Sim.of_step (hS.release hphase hlocks)

end

/-! ### Runs -/

/-- **Every step of the system is a step of the protocol, or none.** -/
theorem Sim.step (hS : Sim w₀ c a) (hI : Validation.Inv advisoryTag a) {l : OccLabel}
    {c' : OccState} (hstep : occStep c l = some c') :
    ∃ a', (a' = a ∨ Validation.Step advisoryTag a a') ∧ Sim w₀ c' a' := by
  cases l with simp only [occStep] at hstep
  | read x key =>
    split at hstep
    · next hcond =>
      obtain ⟨value, hget, rfl⟩ := Option.map_eq_some_iff.mp hstep
      exact Sim.of_step (hS.read hcond.1 hcond.2.2 hget)
    · cases hstep
  | write x key fields =>
    split at hstep
    · next hactive =>
      cases hstep
      exact ⟨a, .inl rfl, hS.write hactive key fields⟩
    · cases hstep
  | preCommit x =>
    split at hstep
    · next hactive =>
      cases hstep
      exact ⟨a, .inl rfl, hS.preCommit hactive⟩
    · cases hstep
  | callback x dontWait =>
    split at hstep
    · next phase hphase =>
      have hpast : (c.tx x).phase ≠ .past := by rw [hphase]; simp
      split at hstep
      · cases hstep
      · next sh phase' hcommit =>
        cases hstep
        exact hS.move hI hphase (commitStep_move hcommit)
      · next sh e hcommit =>
        -- an error aborts the transaction; every put is answered here, so nothing is half done
        cases hstep
        cases commitStep_move hcommit with
        | fail hlocks =>
          exact Sim.of_step ((hS.congr_locks hlocks).finish hpast (.inl rfl))
        | failStored hreply => cases hreply
    · cases hstep
  | commit x =>
    split at hstep
    · next hdone =>
      cases hstep
      exact Sim.of_step (hS.finish (by rw [hdone]; simp) (.inr ⟨rfl, hdone⟩))
    · cases hstep
  | abort x =>
    have hend : (c.tx x).phase ≠ .past → c' = c.finish x .aborted →
        ∃ a', (a' = a ∨ Validation.Step advisoryTag a a') ∧ Sim w₀ c' a' := by
      rintro hpast rfl
      exact Sim.of_step (hS.finish hpast (.inl rfl))
    split at hstep
    · next hphase => exact hend (by rw [hphase]; simp) (some.inj hstep).symm
    · next hphase => exact hend (by rw [hphase]; simp) (some.inj hstep).symm
    · cases hstep

/-- The protocol state that a run starts against. -/
def Abs.initial : Abs where
  holds _ _ := False
  seen _ _ := none
  checked _ _ := False
  hist := []
  points := []

theorem Sim.initial {s : OccState} (h : occSystem.init s) :
    Sim (fun k => (rocksengineGet s.sh.db k).map (·.xactId)) s Abs.initial := by
  obtain ⟨hhist, hlocks, htx, hdb⟩ := h
  have hstate : ∀ x, (s.tx x).state = newNRAMXactState x := by
    intro x
    rcases htx x with h | h <;> rw [h]
  refine ⟨hhist.symm, fun x t => ?_, fun k => ?_, fun k w hw => ?_, fun x => ?_, fun x => ?_⟩
  · rw [hlocks]
    exact ⟨False.elim, nofun⟩
  · rfl
  · obtain ⟨v, hv, rfl⟩ := Option.map_eq_some_iff.mp hw
    exact hdb k v hv
  · rw [hstate]
    exact ⟨rfl, fun k => ⟨nofun, nofun⟩, nofun, nofun, nodup_nil⟩
  · rw [hlocks]
    rcases htx x with h | h
    · rw [h]
      exact .of_active not_mem_nil fun t => rfl
    · rw [h]
      exact .of_early trivial not_mem_nil ⟨[], rfl, fun _ => rfl⟩

/-- A transaction that has committed is past its point, with all its reads checked. -/
theorem Sim.validated (hS : Sim w₀ c a) (hcommitted : (c.tx x).phase = .committed) :
    Validation.Validated a x := by
  have hph := hS.phases x
  rw [hcommitted] at hph
  refine ⟨hph.late trivial, fun k hk => ?_⟩
  obtain ⟨opt, hopt, rfl⟩ := mem_map.mp (((hS.sets x).reads k).mp hk)
  exact (hph.checked trivial opt hopt).resolve_right not_mem_nil

/-- **Optimistic commit is serializable.** In every state of every run the committed
transactions are conflict serializable. -/
theorem occ_conflictSerializable {s₀ s : OccState} {ls : List OccLabel}
    (h₀ : occSystem.init s₀) (hrun : occSystem.Run s₀ ls s) :
    ConflictSerializable s.hist fun x => (s.tx x).phase = .committed := by
  have hinit : (Validation.system advisoryTag).Reachable Abs.initial :=
    ⟨Abs.initial, [], ⟨fun _ _ h => h, fun _ _ h => h, rfl, rfl⟩, .nil⟩
  obtain ⟨a, ha, hS⟩ := hrun.simulation ⟨Abs.initial, hinit, Sim.initial h₀⟩
    fun c l c' a hS ha hstep => by
      obtain ⟨a', hmove, hS'⟩ := hS.step (Validation.inv_of_reachable ha) hstep
      exact ⟨a', hmove.imp_right fun h => ⟨(), h⟩, hS'⟩
  rw [← hS.hist]
  exact (Validation.conflictSerializable_of_reachable ha).mono fun x hx => hS.validated hx

/-- A store with one row, of table `16384`, written by the transaction `3` of the past; every
other transaction is about to begin. -/
def occExampleState : OccState where
  sh := ⟨rocksenginePut .empty ⟨16384, 65537⟩ ⟨3, 0, []⟩, .empty⟩
  tx x := ⟨newNRAMXactState x, if x = 3 then .past else .active⟩
  hist := []

/-- Transactions `10` and `11` both read the row and update it; `11` commits first and `10` is
aborted by its validation. -/
def occExampleRun : List OccLabel :=
  [.read 10 ⟨16384, 65537⟩, .read 11 ⟨16384, 65537⟩, .write 10 ⟨16384, 65537⟩ [],
    .write 11 ⟨16384, 65537⟩ [], .preCommit 11, .callback 11 false, .callback 11 false,
    .callback 11 false, .callback 11 false, .callback 11 false, .callback 11 false,
    .preCommit 10, .callback 10 false, .callback 11 false, .callback 11 false,
    .callback 11 false, .commit 11, .callback 10 false, .callback 10 false, .callback 10 false,
    .callback 10 false]

theorem occ_lost_update_serializable :
    ∃ s, occSystem.Run occExampleState occExampleRun s ∧ (s.tx 11).phase = .committed ∧
      (s.tx 10).phase = .aborted ∧
      ConflictSerializable s.hist fun x => (s.tx x).phase = .committed := by
  have hinit : occSystem.init occExampleState := by
    refine ⟨rfl, rfl, fun x => ?_, fun k v hv => ?_⟩
    · by_cases hx : x = 3
      · subst hx
        exact Or.inr rfl
      · refine Or.inl ?_
        show OccTx.mk _ (if x = 3 then _ else _) = _
        rw [if_neg hx]
    · by_cases hk : k = ⟨16384, 65537⟩
      · subst hk
        obtain rfl : (⟨3, 0, []⟩ : NRAMValue) = v :=
          some.inj ((rocksengineGet_put_self _ _ _).symm.trans hv)
        rfl
      · cases (rocksengineGet_put_of_ne _ _ hk).symm.trans hv
  exact System.exists_run_of_exec
    (P := fun s => (s.tx 11).phase = .committed ∧ (s.tx 10).phase = .aborted) (by decide)
    fun _ hrun ⟨h11, h10⟩ => ⟨h11, h10, occ_conflictSerializable hinit hrun⟩

end NeurDB.Nram
