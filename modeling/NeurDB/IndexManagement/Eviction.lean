import NeurDB.IndexManagement.Budget

/-!
# Which indexes an eviction drops

`nrim_worker_evict_until_fits_total_utility` chooses victims, compares what they are worth with the
candidate, marks their rows as `dropping`, and drops them one by one; it stops at the first command
that fails. The rows of the victim that was not dropped, and of those behind it, stay marked. No
later eviction looks at them.

The choice is right for every registry (`selectVictims_spec`). The rows are left consistent exactly
if they were before and no command fails (`eviction_sound_iff`).
-/

namespace NeurDB.IndexManagement

open List

variable {cfg : Settings} {db : IndexDb} {dropOk : ℕ → Bool} {needed candidateUtility : ℚ}
  {vs : List EvictVictim}

def toVictim (cfg : Settings) (p : RegistryRow × IndexRel) : EvictVictim where
  indexOid := p.1.indexOid
  sizeMb := p.1.idxMb p.2
  utility := cfg.indexUtility p.1.benefitScoreEwma p.1.touchScoreEwma

/-- The registered indexes in state `created`, in the order in which they are taken. -/
def evictable (cfg : Settings) (db : IndexDb) : List EvictVictim :=
  (evictionRows cfg db).map (toVictim cfg)

/-- `vs` is the shortest beginning of `rows` whose sizes reach `needed`. -/
structure VictimSet (rows : List EvictVictim) (needed : ℚ) (vs : List EvictVictim) : Prop where
  front : vs <+: rows
  reaches : needed ≤ (vs.map EvictVictim.sizeMb).sum
  shortest : ∀ us, us <+: vs → us ≠ vs → (us.map EvictVictim.sizeMb).sum < needed

/-- The candidate is worth more than the victims. -/
def Outweighs (cfg : Settings) (candidateUtility : ℚ) (vs : List EvictVictim) : Prop :=
  (1 + cfg.minValueImprovement) * (vs.map EvictVictim.utility).sum < candidateUtility

/-- A row of an index that exists is in state `created`. -/
def IndexDb.Consistent (db : IndexDb) : Prop :=
  ∀ row ∈ db.registry, (∃ rel ∈ db.pgClass, rel.oid = row.indexOid) → row.state = .created

/-- What should hold of the answer of an eviction and of the database it leaves. -/
structure EvictionSound (cfg : Settings) (db : IndexDb) (needed candidateUtility : ℚ)
    (result : Bool × IndexDb) : Prop where
  justified : ∀ rel ∈ db.pgClass, rel ∉ result.2.pgClass → ∃ vs,
    VictimSet (evictable cfg db) needed vs ∧ Outweighs cfg candidateUtility vs ∧
      rel.oid ∈ vs.map EvictVictim.indexOid
  returned : result.1 = true ↔ ∃ vs, VictimSet (evictable cfg db) needed vs ∧
    ∀ rel ∈ result.2.pgClass, rel.oid ∉ vs.map EvictVictim.indexOid
  consistent : result.2.Consistent

/-! ### The choice -/

theorem VictimSet.unique {rows vs' : List EvictVictim} (h : VictimSet rows needed vs)
    (h' : VictimSet rows needed vs') : vs = vs' := by
  by_contra hne
  rcases prefix_or_prefix_of_prefix h.front h'.front with hle | hle
  · exact absurd (h'.shortest vs hle hne) (not_lt.mpr h.reaches)
  · exact absurd (h.shortest vs' hle (Ne.symm hne)) (not_lt.mpr h'.reaches)

/-- A list whose tail is cut behind its first element. -/
theorem proper_prefix_cons {α : Type} {a : α} {us vs : List α} {P : List α → Prop}
    (h : us <+: a :: vs) (hne : us ≠ a :: vs) (hnil : P [])
    (hcons : ∀ ws, ws <+: vs → ws ≠ vs → P (a :: ws)) : P us := by
  rcases prefix_cons_iff.mp h with rfl | ⟨ws, rfl, hws⟩
  · exact hnil
  · exact hcons ws hws fun heq => hne (heq ▸ rfl)

/-- By induction on the rows: what was freed before is `freed`. -/
theorem selectVictims_spec (needed freed : ℚ) (rows : List (RegistryRow × IndexRel)) :
    selectVictims cfg needed freed rows <+: rows.map (toVictim cfg) ∧
      (∀ us, us <+: selectVictims cfg needed freed rows → us ≠ selectVictims cfg needed freed rows →
        freed + (us.map EvictVictim.sizeMb).sum < needed) ∧
      (selectVictims cfg needed freed rows = rows.map (toVictim cfg) ∨
        needed ≤ freed + ((selectVictims cfg needed freed rows).map EvictVictim.sizeMb).sum) := by
  induction rows generalizing freed with
  | nil =>
    refine ⟨ nil_prefix, fun us hus hne => ?_, Or.inl rfl⟩
    exact absurd (prefix_nil.mp hus) hne
  | cons p rows ih =>
    obtain ⟨hfront, hshort, hend⟩ := ih (freed + p.1.idxMb p.2)
    unfold selectVictims
    split
    · next hless =>
      refine ⟨cons_prefix_cons.mpr ⟨rfl, hfront⟩, fun us hus hne => ?_, ?_⟩
      · apply proper_prefix_cons hus hne
        · simpa using hless
        · intro ws hws hne
          have hlt := hshort ws hws hne
          rw [add_assoc] at hlt
          exact hlt
      · refine hend.imp (fun heq => ?_) fun hle => ?_
        · rw [heq]
          rfl
        · rw [map_cons, sum_cons, ← add_assoc]
          exact hle
    · next hless =>
      refine ⟨ nil_prefix, fun us hus hne => ?_, Or.inr (by simpa using hless)⟩
      exact absurd (prefix_nil.mp hus) hne

/-- The first phase finds the victims, if there are any. -/
theorem victimSet_iff :
    VictimSet (evictable cfg db) needed vs ↔
      vs = selectVictims cfg needed 0 (evictionRows cfg db) ∧
        needed ≤ (vs.map EvictVictim.sizeMb).sum := by
  obtain ⟨hfront, hshort, hend⟩ := selectVictims_spec needed 0 (evictionRows cfg db)
  simp only [zero_add] at hshort hend
  constructor
  · intro h
    refine ⟨?_, h.reaches⟩
    by_cases hle : needed ≤ ((selectVictims cfg needed 0 (evictionRows cfg db)).map
        EvictVictim.sizeMb).sum
    · exact h.unique ⟨hfront, hle, hshort⟩
    · -- all rows together do not reach the size, so no beginning of them does
      by_contra hne
      have hall := hend.resolve_right hle
      exact absurd (hshort vs (hall ▸ h.front) hne) (not_lt.mpr h.reaches)
  · rintro ⟨rfl, hle⟩
    exact ⟨hfront, hle, hshort⟩

/-! ### The drops -/

/-- The victims in front of the first command that fails. -/
def dropped (dropOk : ℕ → Bool) (vs : List EvictVictim) : List ℕ :=
  (vs.takeWhile fun v => dropOk v.indexOid).map EvictVictim.indexOid

theorem dropVictims_spec (hle : needed ≤ (vs.map EvictVictim.sizeMb).sum)
    (hshort : ∀ us, us <+: vs → us ≠ vs → (us.map EvictVictim.sizeMb).sum < needed)
    (db : IndexDb) :
    (dropVictims dropOk needed vs db).1 = vs.all (fun v => dropOk v.indexOid) ∧
      (dropVictims dropOk needed vs db).2.pgClass =
        db.pgClass.filter (fun r => r.oid ∉ dropped dropOk vs) ∧
      (dropVictims dropOk needed vs db).2.registry =
        db.registry.filter (fun row => row.indexOid ∉ dropped dropOk vs) := by
  induction vs generalizing needed db with
  | nil => simpa [dropVictims, dropped] using hle
  | cons v vs ih =>
    unfold dropVictims
    split
    · next hok =>
      have hdropped : dropped dropOk (v :: vs) = v.indexOid :: dropped dropOk vs := by
        simp [dropped, hok]
      rw [map_cons, sum_cons] at hle
      split
      · next hdone =>
        -- no shorter list of victims would do, so this was the last one
        have hnil : vs = [] := by
          by_contra hne
          have hlt := hshort [v] (cons_prefix_cons.mpr ⟨rfl, nil_prefix⟩)
            (by simpa using Ne.symm hne)
          rw [map_singleton, sum_singleton] at hlt
          linarith
        subst hnil
        simp [dropped, hok, IndexDb.dropIndex, IndexDb.deleteRow]
      · have hrest : needed - v.sizeMb ≤ (vs.map EvictVictim.sizeMb).sum := by linarith
        obtain ⟨hall, hclass, hrows⟩ := ih hrest
          (fun ws hws hne => by
            have hlt := hshort (v :: ws) (cons_prefix_cons.mpr ⟨rfl, hws⟩) (by simpa using hne)
            rw [map_cons, sum_cons] at hlt
            linarith) ((db.dropIndex v.indexOid).deleteRow v.indexOid)
        rw [hall, hclass, hrows, hdropped, all_cons, hok]
        simp [IndexDb.dropIndex, IndexDb.deleteRow, filter_filter, Bool.and_comm]
    · next hfail => simp [dropped, hfail]

theorem of_mem_dropped {oid : ℕ} (h : oid ∈ dropped dropOk vs) :
    dropOk oid = true ∧ oid ∈ vs.map EvictVictim.indexOid := by
  obtain ⟨v, hv, rfl⟩ := mem_map.mp h
  have hok : dropOk v.indexOid = true :=
    mem_takeWhile_imp (p := fun v : EvictVictim => dropOk v.indexOid) hv
  exact ⟨hok, mem_map_of_mem (( takeWhile_prefix _).subset hv)⟩

theorem dropped_of_forall (h : ∀ v ∈ vs, dropOk v.indexOid = true) :
    dropped dropOk vs = vs.map EvictVictim.indexOid := by
  rw [dropped, takeWhile_eq_self_iff.mpr h]

theorem VictimSet.exists_row {oid : ℕ}
    (h : VictimSet (evictable cfg db) needed vs) (hoid : oid ∈ vs.map EvictVictim.indexOid) :
    ∃ row ∈ db.registry, row.indexOid = oid ∧ row.state = .created ∧
      ∃ rel ∈ db.pgClass, rel.oid = oid := by
  obtain ⟨v, hv, rfl⟩ := mem_map.mp hoid
  obtain ⟨p, hp, rfl⟩ := mem_map.mp (h.front.subset hv)
  obtain ⟨hrow, hcreated, hrel, heq⟩ := of_mem_evictionRows hp
  exact ⟨p.1, hrow, rfl, hcreated, p.2, hrel, heq⟩

/-- An eviction that returns before it marks anything. -/
theorem evictionSound_quiet (hneeded : 0 < needed) :
    EvictionSound cfg db needed candidateUtility (false, db) ↔ db.Consistent := by
  refine ⟨fun h => h.consistent, fun h => ⟨fun _ hrel hgone => absurd hrel hgone, ?_, h⟩⟩
  refine iff_of_false Bool.false_ne_true ?_
  rintro ⟨vs, hvs, hgone⟩
  cases vs with
  | nil => exact absurd hvs.reaches (not_le.mpr hneeded)
  | cons v vs =>
    obtain ⟨-, -, -, -, rel, hrel, hoid⟩ := hvs.exists_row mem_cons_self
    exact hgone rel hrel (hoid ▸ mem_cons_self)

section Drop

variable {vs : List EvictVictim} {result : Bool × IndexDb}
  (hvs : VictimSet (evictable cfg db) needed vs)
  (hresult : dropVictims dropOk needed vs (db.markDropping (vs.map EvictVictim.indexOid)) = result)

include hvs hresult

theorem mem_pgClass_drop (rel : IndexRel) :
    rel ∈ result.2.pgClass ↔ rel ∈ db.pgClass ∧ rel.oid ∉ dropped dropOk vs := by
  rw [← hresult, (dropVictims_spec hvs.reaches hvs.shortest _).2.1]
  simp [IndexDb.markDropping]

/-- A row that is not deleted comes from a row of the registry, which may have been marked. -/
theorem mem_registry_drop (row : RegistryRow) :
    row ∈ result.2.registry ↔ ∃ row₀ ∈ db.registry, row₀.indexOid ∉ dropped dropOk vs ∧
      (if row₀.indexOid ∈ vs.map EvictVictim.indexOid then { row₀ with state := .dropping }
        else row₀) = row := by
  have hoid : ∀ row₀ : RegistryRow, (if row₀.indexOid ∈ vs.map EvictVictim.indexOid then
      { row₀ with state := .dropping } else row₀).indexOid = row₀.indexOid := by
    intro row₀
    split <;> rfl
  rw [← hresult, (dropVictims_spec hvs.reaches hvs.shortest _).2.2, mem_filter]
  constructor
  · rintro ⟨hmem, hnot⟩
    obtain ⟨row₀, hrow₀, rfl⟩ := mem_map.mp hmem
    rw [hoid] at hnot
    exact ⟨row₀, hrow₀, of_decide_eq_true hnot, rfl⟩
  · rintro ⟨row₀, hrow₀, hnot, rfl⟩
    exact ⟨mem_map_of_mem hrow₀, by rw [hoid]; exact decide_eq_true hnot⟩

/-- A victim that is not dropped is still in the catalog. -/
theorem exists_of_fails {v : EvictVictim} (hv : v ∈ vs) (hfail : dropOk v.indexOid ≠ true) :
    ∃ rel ∈ result.2.pgClass, rel.oid = v.indexOid := by
  obtain ⟨-, -, -, -, rel, hmem, hoid⟩ := hvs.exists_row (mem_map_of_mem hv)
  refine ⟨rel, (mem_pgClass_drop hvs hresult rel).mpr ⟨hmem, fun h => hfail ?_⟩, hoid⟩
  exact hoid ▸ (of_mem_dropped h).1

theorem returned_drop_iff : result.1 = true ↔ ∃ us, VictimSet (evictable cfg db) needed us ∧
    ∀ rel ∈ result.2.pgClass, rel.oid ∉ us.map EvictVictim.indexOid := by
  have hok : result.1 = true ↔ ∀ v ∈ vs, dropOk v.indexOid = true := by
    rw [← hresult, (dropVictims_spec hvs.reaches hvs.shortest _).1]
    exact all_eq_true
  refine ⟨fun h => ⟨vs, hvs, fun rel hmem => ?_⟩, ?_⟩
  · rw [← dropped_of_forall (hok.mp h)]
    exact ((mem_pgClass_drop hvs hresult rel).mp hmem).2
  · rintro ⟨us, hus, hgone⟩
    obtain rfl := hvs.unique hus
    refine hok.mpr fun v hv => ?_
    by_contra hfail
    obtain ⟨rel, hmem, hoid⟩ := exists_of_fails hvs hresult hv hfail
    exact hgone rel hmem (hoid ▸ mem_map_of_mem hv)

theorem consistent_drop_iff :
    result.2.Consistent ↔ db.Consistent ∧ ∀ v ∈ vs, dropOk v.indexOid = true := by
  constructor
  · intro h
    have hall : ∀ v ∈ vs, dropOk v.indexOid = true := by
      -- the row of a victim that is not dropped stays marked
      intro v hv
      by_contra hfail
      have hv' := mem_map_of_mem (f := EvictVictim.indexOid) hv
      obtain ⟨row, hrow, hoid, -⟩ := hvs.exists_row hv'
      have hmem := (mem_registry_drop hvs hresult _).mpr
        ⟨row, hrow, fun h => hfail (hoid ▸ (of_mem_dropped h).1), rfl⟩
      rw [if_pos (hoid ▸ hv')] at hmem
      cases h _ hmem (hoid ▸ exists_of_fails hvs hresult hv hfail)
    refine ⟨fun row hrow ⟨rel, hmem, hoid⟩ => ?_, hall⟩
    by_cases hvictim : row.indexOid ∈ vs.map EvictVictim.indexOid
    · obtain ⟨row', hrow', hoid', hcreated, -⟩ := hvs.exists_row hvictim
      rwa [← inj_on_of_nodup_map db.indexOid_nodup hrow' hrow hoid']
    · have hnot : row.indexOid ∉ dropped dropOk vs := fun h => hvictim (of_mem_dropped h).2
      have hrow' := (mem_registry_drop hvs hresult _).mpr ⟨row, hrow, hnot, rfl⟩
      rw [if_neg hvictim] at hrow'
      exact h row hrow' ⟨rel, (mem_pgClass_drop hvs hresult rel).mpr ⟨hmem, hoid ▸ hnot⟩, hoid⟩
  · rintro ⟨h, hall⟩ row hrow ⟨rel, hmem, hoid⟩
    obtain ⟨row₀, hrow₀, hnot, rfl⟩ := (mem_registry_drop hvs hresult row).mp hrow
    rw [dropped_of_forall hall] at hnot
    rw [if_neg hnot] at hoid ⊢
    exact h row₀ hrow₀ ⟨rel, ((mem_pgClass_drop hvs hresult rel).mp hmem).1, hoid⟩

/-- An eviction that goes on to drop the victims. -/
theorem evictionSound_drop_iff (hworth : Outweighs cfg candidateUtility vs) :
    EvictionSound cfg db needed candidateUtility result ↔
      db.Consistent ∧ ∀ v ∈ vs, dropOk v.indexOid = true := by
  rw [← consistent_drop_iff hvs hresult]
  refine ⟨fun h => h.consistent, fun h => ⟨fun rel hmem hgone => ?_, ?_, h⟩⟩
  · refine ⟨vs, hvs, hworth, ?_⟩
    by_contra hnot
    exact hgone ((mem_pgClass_drop hvs hresult rel).mpr ⟨hmem, fun h => hnot (of_mem_dropped h).2⟩)
  · exact returned_drop_iff hvs hresult

end Drop

/-- **Evictions.** The answer is right and the indexes that are dropped are the justified ones in
any case; with the state of the registry, an eviction is sound exactly if the registry was
consistent before, and no command fails once the victims are marked. -/
theorem eviction_sound_iff (hneeded : 0 < needed) :
    EvictionSound cfg db needed candidateUtility
        (evictUntilFits cfg dropOk needed candidateUtility db) ↔
      db.Consistent ∧ ∀ vs, VictimSet (evictable cfg db) needed vs →
        Outweighs cfg candidateUtility vs → ∀ v ∈ vs, dropOk v.indexOid = true := by
  unfold evictUntilFits
  rw [if_neg (not_le.mpr hneeded)]
  dsimp only
  split
  · next hless =>
    rw [evictionSound_quiet hneeded, iff_self_and]
    intro _ vs hvs
    obtain ⟨rfl, hle⟩ := victimSet_iff.mp hvs
    exact absurd hle (not_le.mpr hless)
  · next hle =>
    have hvs : VictimSet (evictable cfg db) needed _ := victimSet_iff.mpr ⟨rfl, not_lt.mp hle⟩
    split
    · next hgate =>
      rw [evictionSound_quiet hneeded, iff_self_and]
      intro _ vs hvs' hworth
      obtain rfl := hvs.unique hvs'
      unfold Outweighs at hworth
      linarith
    · next hgate =>
      rw [mul_comm] at hgate
      have hworth : Outweighs cfg candidateUtility _ := not_le.mp hgate
      rw [evictionSound_drop_iff hvs rfl hworth]
      refine and_congr_right fun _ => ⟨fun hok vs' hvs' _ => hvs.unique hvs' ▸ hok, fun h => ?_⟩
      exact h _ hvs hworth

open BudgetExample in
/-- An index of 60 MB is dropped to free 10 MB. -/
theorem eviction_sound_one_index :
    (evictUntilFits settings (fun _ => true) 10 5 (oneIndex publicSchema 60)).1 = true ∧
      EvictionSound settings (oneIndex publicSchema 60) 10 5
        (evictUntilFits settings (fun _ => true) 10 5 (oneIndex publicSchema 60)) := by
  refine ⟨by decide +kernel, (eviction_sound_iff (by norm_num)).mpr ⟨?_, fun _ _ _ _ _ => rfl⟩⟩
  unfold IndexDb.Consistent
  decide

open BudgetExample in
/-- The command fails: the index is there, and its row says that it is being dropped. -/
theorem failed_drop_inconsistent :
    ¬ (evictUntilFits settings (fun _ => false) 10 5 (oneIndex publicSchema 60)).2.Consistent := by
  unfold IndexDb.Consistent
  decide +kernel

end NeurDB.IndexManagement
