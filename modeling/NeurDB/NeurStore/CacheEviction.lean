import NeurDB.NeurStore.CacheUsers

/-!
# Does the eviction loop end?

`evictCacheIfNeeded` runs `while (used_bytes_ > max_bytes_)`, and each turn looks for one entry
that is not in use. A turn that finds none changes nothing, so the loop never leaves such a state,
and the mutex of the manager is not released.

* `Cache.evictTurn` is one turn, and the loop is `StateTransition.eval` of it, which has no value
  if the loop does not end. `mem_eval_iff` says that `Cache.evictCacheIfNeeded` is this loop.
* `Cache.inUseBytes` is what the loop cannot free. No eviction changes it, it is at most
  `usedBytes`, and it is `usedBytes` when no entry can be evicted (`CacheInv.inUseBytes_evict`,
  `CacheInv.inUseBytes_le`, `CacheInv.inUseBytes_of_stuck`). The loop ends exactly if it fits
  (`CacheInv.evictionEnds_iff`).
* `eviction_ends_iff` reads this off the state before a call of `get` or `release`.
-/

namespace NeurDB.NeurStore

open Function List Option

open StateTransition

/-- A loop that is back where it was never ends. -/
theorem not_mem_eval_of_self {σ : Type} {f : σ → Option σ} {a b : σ} (h : f a = some a) :
    b ∉ eval f a := by
  intro hb
  obtain ⟨hreach, hend⟩ := mem_eval.mp hb
  have hsame : b = a := by
    clear hb hend
    induction hreach with
    | refl => rfl
    | tail _ hstep ih =>
      rw [ih, h] at hstep
      exact (mem_some_iff.mp hstep).symm
  rw [hsame, h] at hend
  cases hend

section Loop

variable {α ι ρ φ : Type} (kind : IndexKind α ι ρ φ) (maxBytes : ℤ)

/-- One turn of the loop of `evictCacheIfNeeded`, `none` if its condition does not hold. The scan
of the list may end without an entry to evict. -/
def Cache.evictTurn (c : Cache α φ) : Option (Cache α φ) :=
  if c.usedBytes ≤ maxBytes then none else some (c.victim.elim c (c.evict kind))

/-- The loop ends, and then the memory suffices or everything that is left is in use. -/
def EvictionEnds (c : Cache α φ) : Prop :=
  ∃ c' ∈ eval (Cache.evictTurn kind maxBytes) c,
    c'.usedBytes ≤ maxBytes ∨ ∀ e ∈ c'.cacheList, (c'.useCountMap e.1).getD 0 ≠ 0

/-- What the index of a key takes while it is in use. -/
def Cache.pinnedBytes (c : Cache α φ) (k : IndexKey) : ℤ :=
  if (c.useCountMap k).getD 0 = 0 then 0 else (c.sizeMap k).getD 0

/-- What the indexes in use take. -/
def Cache.inUseBytes (c : Cache α φ) : ℤ := (c.cacheList.map fun e => c.pinnedBytes e.1).sum

/-- What the indexes in use take, without the one of this key. -/
def Cache.othersInUse (c : Cache α φ) (k : IndexKey) : ℤ :=
  (c.cacheList.map fun e => if e.1 = k then 0 else c.pinnedBytes e.1).sum

variable {kind maxBytes} {c c' : Cache α φ} {hs : List Hold} {e : IndexKey × ℕ}

/-! ### The turns of the loop -/

theorem mem_eval_of_le (h : c.usedBytes ≤ maxBytes) :
    c' ∈ eval (Cache.evictTurn kind maxBytes) c ↔ c' = c := by
  have hend : c.evictTurn kind maxBytes = none := if_pos h
  have hself : c ∈ eval (Cache.evictTurn kind maxBytes) c := mem_eval.mpr ⟨.refl, hend⟩
  constructor
  · intro hc'
    exact Part.mem_unique hc' hself
  · rintro rfl
    exact hself

theorem eval_of_victim (h : ¬c.usedBytes ≤ maxBytes) (he : c.victim = some e) :
    eval (Cache.evictTurn kind maxBytes) c =
      eval (Cache.evictTurn kind maxBytes) (c.evict kind e) := by
  refine reaches_eval (.single ?_)
  change c.evictTurn kind maxBytes = some (c.evict kind e)
  rw [Cache.evictTurn, if_neg h, he, elim_some]

theorem not_mem_eval_of_stuck (h : ¬c.usedBytes ≤ maxBytes) (hnone : c.victim = none) :
    c' ∉ eval (Cache.evictTurn kind maxBytes) c := by
  apply not_mem_eval_of_self
  rw [Cache.evictTurn, if_neg h, hnone, elim_none]

theorem Cache.mem_of_victim (he : c.victim = some e) : e ∈ c.cacheList :=
  mem_reverse.mp (mem_of_find?_eq_some he)

theorem Cache.length_evict (he : c.victim = some e) :
    (c.evict kind e).cacheList.length = c.cacheList.length - 1 :=
  length_erase_of_mem (Cache.mem_of_victim he)

/-- Each turn takes an entry off the list, so that its length is fuel enough. -/
theorem evictLoop_eq_some_iff {n : ℕ} (hn : c.cacheList.length ≤ n) :
    c.evictLoop kind maxBytes n = some c' ↔ c' ∈ eval (Cache.evictTurn kind maxBytes) c := by
  induction n generalizing c with
  | zero =>
    have hnil : c.cacheList = [] := length_eq_zero_iff.mp (Nat.le_zero.mp hn)
    rw [Cache.evictLoop]
    by_cases hle : c.usedBytes ≤ maxBytes
    · rw [if_pos hle, mem_eval_of_le hle, some.injEq, eq_comm]
    · have hnone : c.victim = none := by rw [Cache.victim, hnil]; rfl
      rw [if_neg hle]
      exact iff_of_false (by simp) (not_mem_eval_of_stuck hle hnone)
  | succ n ih =>
    rw [Cache.evictLoop]
    by_cases hle : c.usedBytes ≤ maxBytes
    · rw [if_pos hle, mem_eval_of_le hle, some.injEq, eq_comm]
    · rw [if_neg hle]
      cases he : c.victim with
      | none => exact iff_of_false (by simp) (not_mem_eval_of_stuck hle he)
      | some e =>
        rw [bind_some, eval_of_victim hle he]
        apply ih
        rw [Cache.length_evict he]
        omega

/-- **`Cache.evictCacheIfNeeded` is the loop**: it has a value exactly if the loop ends. -/
theorem mem_eval_iff : c.evictCacheIfNeeded kind maxBytes = some c' ↔
    c' ∈ eval (Cache.evictTurn kind maxBytes) c :=
  evictLoop_eq_some_iff le_rfl

/-! ### What the loop cannot free -/

/-- The sizes the manager has recorded are not negative. -/
def Cache.SizesNonneg (c : Cache α φ) : Prop := ∀ k, 0 ≤ (c.sizeMap k).getD 0

theorem Cache.SizesNonneg.update (h : c.SizesNonneg) (k : IndexKey) {o : Option ℤ}
    (ho : 0 ≤ o.getD 0) (hc' : c'.sizeMap = update c.sizeMap k o) : c'.SizesNonneg := by
  intro k'
  rw [hc']
  by_cases hk : k' = k
  · rw [hk, update_self]
    exact ho
  · rw [update_of_ne hk]
    exact h k'

theorem Cache.SizesNonneg.evict (h : c.SizesNonneg) (e : IndexKey × ℕ) :
    (c.evict kind e).SizesNonneg :=
  h.update e.1 le_rfl rfl

section

variable (h : CacheInv kind c hs)

include h

/-- What is in use is part of what is counted. -/
theorem CacheInv.inUseBytes_le (hsize : c.SizesNonneg) : c.inUseBytes ≤ c.usedBytes := by
  rw [h.usedBytes]
  refine sum_le_sum fun e _ => ?_
  rw [Cache.pinnedBytes]
  split
  · exact hsize e.1
  · exact le_rfl

/-- Where nothing can be evicted, everything is in use. -/
theorem CacheInv.inUseBytes_of_stuck (hnone : c.victim = none) : c.inUseBytes = c.usedBytes := by
  rw [h.usedBytes, Cache.inUseBytes]
  congr 1
  refine map_congr_left fun e he => ?_
  have hused : ¬(c.useCountMap e.1).getD 0 = 0 := by
    simpa using find?_eq_none.mp hnone e (mem_reverse.mpr he)
  exact if_neg hused

/-- An eviction frees nothing that is in use. -/
theorem CacheInv.inUseBytes_evict (he : c.victim = some e) :
    (c.evict kind e).inUseBytes = c.inUseBytes := by
  have hmem := Cache.mem_of_victim he
  have hidle : (c.useCountMap e.1).getD 0 = 0 := by simpa using find?_some he
  have hzero : c.pinnedBytes e.1 = 0 := if_pos hidle
  have hsame : (c.cacheList.erase e).map (fun x => (c.evict kind e).pinnedBytes x.1) =
      (c.cacheList.erase e).map fun x => c.pinnedBytes x.1 := by
    apply map_congr_left
    rintro ⟨k, o⟩ hx
    have hne : k ≠ e.1 := ((h.mem_erase_iff hmem).mp hx).1
    change (if (update c.useCountMap e.1 none k).getD 0 = 0 then 0
      else (update c.sizeMap e.1 none k).getD 0) = c.pinnedBytes k
    rw [update_of_ne hne, update_of_ne hne, Cache.pinnedBytes]
  calc (c.evict kind e).inUseBytes
      = ((c.cacheList.erase e).map fun x => (c.evict kind e).pinnedBytes x.1).sum := rfl
    _ = ((c.cacheList.erase e).map fun x => c.pinnedBytes x.1).sum := by rw [hsame]
    _ = c.pinnedBytes e.1 + ((c.cacheList.erase e).map fun x => c.pinnedBytes x.1).sum := by
        rw [hzero, zero_add]
    _ = c.inUseBytes := (CacheInv.sum_erase hmem fun x => c.pinnedBytes x.1).symm

/-- The loop ends exactly if what is in use fits. -/
theorem CacheInv.evictionEnds_iff (hsize : c.SizesNonneg) :
    EvictionEnds kind maxBytes c ↔ c.inUseBytes ≤ maxBytes := by
  -- every eviction takes an entry off the list
  induction hn : c.cacheList.length using Nat.strong_induction_on generalizing c with
  | _ n ih =>
    by_cases hle : c.usedBytes ≤ maxBytes
    · exact iff_of_true ⟨c, (mem_eval_of_le hle).mpr rfl, .inl hle⟩
        ((h.inUseBytes_le hsize).trans hle)
    · cases he : c.victim with
      | none =>
        rw [h.inUseBytes_of_stuck he]
        refine iff_of_false ?_ hle
        rintro ⟨c', hc', -⟩
        exact not_mem_eval_of_stuck hle he hc'
      | some e =>
        obtain ⟨hmem, hfree⟩ := h.victim_free he
        have hlen : (c.evict kind e).cacheList.length < n := by
          have hpos := length_pos_of_mem hmem
          rw [Cache.length_evict he]
          omega
        rw [EvictionEnds, eval_of_victim hle he, ← h.inUseBytes_evict he]
        exact ih _ hlen (h.evict hmem hfree) (hsize.evict e) rfl

end

/-! ### The calls of the loop -/

/-- The sum over the list, with the entry of one key set apart. -/
theorem CacheInv.sum_eq_add_others (h : CacheInv kind c hs) (he : e ∈ c.cacheList)
    {f : IndexKey → ℤ} (hf : ∀ k, k ≠ e.1 → f k = c.pinnedBytes k) :
    (c.cacheList.map fun x => f x.1).sum = c.othersInUse e.1 + f e.1 := by
  have hsame : (c.cacheList.erase e).map (fun x => f x.1) =
      (c.cacheList.erase e).map fun x => if x.1 = e.1 then 0 else c.pinnedBytes x.1 := by
    apply map_congr_left
    rintro ⟨k, o⟩ hx
    have hne : k ≠ e.1 := ((h.mem_erase_iff he).mp hx).1
    exact (hf k hne).trans (if_neg hne).symm
  rw [Cache.othersInUse, CacheInv.sum_erase he, CacheInv.sum_erase he, hsame, if_pos rfl]
  ring

/-- `get` of an index that is not cached needs room for it next to the indexes in use. -/
theorem CacheInv.inUseBytes_getMiss (h : CacheInv kind c hs) {k : IndexKey}
    (hk : c.cacheMap k = none) :
    (c.getMiss kind k).inUseBytes = c.othersInUse k + kind.space (c.load kind k) := by
  have hnew : (c.getMiss kind k).pinnedBytes k = kind.space (c.load kind k) := by
    simp [Cache.pinnedBytes, Cache.getMiss]
  have hold : c.cacheList.map (fun x => (c.getMiss kind k).pinnedBytes x.1) =
      c.cacheList.map fun x => if x.1 = k then 0 else c.pinnedBytes x.1 := by
    apply map_congr_left
    rintro ⟨k', o⟩ hx
    have hne : k' ≠ k := by
      rintro rfl
      exact h.not_mem_keys hk (mem_map_of_mem hx)
    rw [if_neg hne]
    simp [Cache.pinnedBytes, Cache.getMiss, hne]
  calc (c.getMiss kind k).inUseBytes
      = (c.getMiss kind k).pinnedBytes k +
          (c.cacheList.map fun x => (c.getMiss kind k).pinnedBytes x.1).sum := by
        rw [Cache.inUseBytes, Cache.getMiss, map_cons, sum_cons]
    _ = c.othersInUse k + kind.space (c.load kind k) := by
        rw [hnew, hold, Cache.othersInUse, add_comm]

/-- `release` of a changed index counts it with its new size, if others use it. -/
theorem CacheInv.inUseBytes_markUpdated {x : Hold} (h : CacheInv kind c (x :: hs)) :
    ((c.decrement x.key).markUpdated kind x.obj x.key).inUseBytes = c.othersInUse x.key +
      if (c.useCountMap x.key).getD 0 ≤ 1 then 0 else kind.space (c.heap x.obj) := by
  have hx := h.held x mem_cons_self
  have hmem : (x.key, x.obj) ∈ c.cacheList := (h.cacheMap _ _).mp hx
  have hother : ∀ k, k ≠ x.key →
      ((c.decrement x.key).markUpdated kind x.obj x.key).pinnedBytes k = c.pinnedBytes k := by
    intro k hk
    simp [Cache.pinnedBytes, Cache.markUpdated, Cache.decrement, hk]
  have hself : ((c.decrement x.key).markUpdated kind x.obj x.key).pinnedBytes x.key =
      if (c.useCountMap x.key).getD 0 ≤ 1 then 0 else kind.space (c.heap x.obj) := by
    have hcount : (if (c.useCountMap x.key).getD 0 - 1 < 0 then 0
        else (c.useCountMap x.key).getD 0 - 1) = 0 ↔ (c.useCountMap x.key).getD 0 ≤ 1 := by
      split <;> omega
    simp only [Cache.pinnedBytes, Cache.markUpdated, Cache.decrement, update_self,
      getD_some, hcount]
  rw [← hself]
  exact h.sum_eq_add_others hmem hother

end Loop

section Runs

variable {U α ι ρ φ : Type} {kind : IndexKind α ι ρ φ} {maxBytes : ℤ} {c : Cache α φ}

/-! ### Sizes along a run -/

theorem Cache.SizesNonneg.evictLoop {n : ℕ} {c' : Cache α φ} (h : c.SizesNonneg)
    (hstep : c.evictLoop kind maxBytes n = some c') : c'.SizesNonneg :=
  Cache.evictLoop_induction (fun _ e h _ => h.evict e) h hstep

theorem Cache.SizesNonneg.getMiss (hspace : ∀ a, 0 ≤ kind.space a)
    (h : c.SizesNonneg) (k : IndexKey) : (c.getMiss kind k).SizesNonneg := by
  refine h.update k ?_ rfl
  exact hspace (c.load kind k)

theorem Cache.SizesNonneg.markUpdated (hspace : ∀ a, 0 ≤ kind.space a)
    (h : c.SizesNonneg) (o : ℕ) (k : IndexKey) :
    ((c.decrement k).markUpdated kind o k).SizesNonneg := by
  refine h.update k ?_ rfl
  exact hspace (c.heap o)

/-! ### Room -/

section Room

variable {hs : List Hold} (hspace : ∀ a, 0 ≤ kind.space a) (hsize : c.SizesNonneg)

include hspace hsize

/-- **`get` returns** if the index fits next to the others in use. -/
theorem CacheInv.exists_get (h : CacheInv kind c hs) {k : IndexKey}
    (hroom : c.othersInUse k + kind.space (c.content kind k) ≤ maxBytes) :
    ∃ r, c.get kind maxBytes k = some r := by
  rw [Cache.get]
  cases hk : c.cacheMap k with
  | some o => exact ⟨_, rfl⟩
  | none =>
    rw [Cache.content, hk, ← h.inUseBytes_getMiss hk,
      ← (h.getMiss hk).evictionEnds_iff (hsize.getMiss hspace k)] at hroom
    obtain ⟨c', hc', -⟩ := hroom
    exact ⟨_, congrArg (Option.map _) (mem_eval_iff.mpr hc')⟩

/-- **`release` of a changed index returns** if what stays in use fits. -/
theorem CacheInv.exists_release {x : Hold} (h : CacheInv kind c (x :: hs))
    (hroom : c.othersInUse x.key + kind.space (c.heap x.obj) ≤ maxBytes) :
    ∃ c', c.release kind maxBytes x.obj x.key true = some c' := by
  have hfits : ((c.decrement x.key).markUpdated kind x.obj x.key).inUseBytes ≤ maxBytes := by
    rw [h.inUseBytes_markUpdated]
    have := hspace (c.heap x.obj)
    split <;> omega
  rw [← h.markUpdated.evictionEnds_iff (hsize.markUpdated hspace x.obj x.key)] at hfits
  obtain ⟨c', hc', -⟩ := hfits
  exact ⟨c', mem_eval_iff.mpr hc'⟩

end Room

/-! ### Runs -/

theorem Cache.sizeMap_clearCache (c : Cache α φ) : (c.clearCache kind).sizeMap = c.sizeMap := by
  obtain ⟨files, heq⟩ := @Cache.foldl_clearOne_eq _ _ _ _ kind c.cacheList c
  rw [Cache.clearCache, heq]

variable [DecidableEq U] [DecidableEq ρ]

theorem Cache.SizesNonneg.step (hspace : ∀ a, 0 ≤ kind.space a) {s s' : CacheState U α ρ φ}
    {l : CacheLabel U ι ρ} (h : s.cache.SizesNonneg)
    (hstep : cacheStep kind maxBytes s l = some s') : s'.cache.SizesNonneg := by
  cases l with
  | get u k =>
    obtain ⟨⟨o, c⟩, hget, rfl⟩ := map_eq_some_iff.mp hstep
    rw [Cache.get] at hget
    split at hget
    · cases hget
      exact h
    · obtain ⟨c₁, hc₁, ⟨⟩⟩ := map_eq_some_iff.mp hget
      exact (h.getMiss hspace k).evictLoop hc₁
  | insert x i =>
    obtain ⟨-, ⟨⟩⟩ := ite_none_right_eq_some.mp hstep
    exact h
  | release x isUpdated =>
    obtain ⟨-, hrel⟩ := ite_none_right_eq_some.mp hstep
    obtain ⟨c, hc, rfl⟩ := map_eq_some_iff.mp hrel
    rw [Cache.release] at hc
    split at hc
    · exact (h.markUpdated hspace x.obj x.key).evictLoop hc
    · cases hc
      exact h
  | clearCache =>
    cases hstep
    intro k
    rw [Cache.sizeMap_clearCache]
    exact h k

theorem Cache.SizesNonneg.of_run (hspace : ∀ a, 0 ≤ kind.space a) {s₀ s : CacheState U α ρ φ}
    {ls : List (CacheLabel U ι ρ)} (h₀ : cacheInit s₀)
    (hrun : (cacheSystem kind maxBytes).Run s₀ ls s) : s.cache.SizesNonneg := by
  have hinit : s₀.cache.SizesNonneg := by
    intro k
    rw [h₀.2.2.2.1]
    exact le_rfl
  exact hrun.invariant (I := fun s => s.cache.SizesNonneg) hinit
    fun _ _ _ h hstep => Cache.SizesNonneg.step hspace h hstep

/-- **When the eviction loop ends.** Along every run, from any files: a `get` of an index that is
not cached leaves the loop exactly if the index fits next to the others in use, and a `release` of
a changed index exactly if what stays in use fits. -/
theorem eviction_ends_iff {s₀ s : CacheState U α ρ φ} {ls : List (CacheLabel U ι ρ)}
    (hspace : ∀ a, 0 ≤ kind.space a) (h₀ : cacheInit s₀)
    (hrun : (cacheSystem kind maxBytes).Run s₀ ls s) :
    (∀ k, s.cache.cacheMap k = none →
      (EvictionEnds kind maxBytes (s.cache.getMiss kind k) ↔
        s.cache.othersInUse k + kind.space (s.cache.load kind k) ≤ maxBytes)) ∧
    ∀ h ∈ s.handles,
      (EvictionEnds kind maxBytes ((s.cache.decrement h.key).markUpdated kind h.obj h.key) ↔
        (s.cache.othersInUse h.key +
          if (s.cache.useCountMap h.key).getD 0 ≤ 1 then 0
          else kind.space (s.cache.heap h.obj)) ≤ maxBytes) := by
  have hinv : UsersInv kind s := UsersInv.of_run h₀ hrun
  have hsize : s.cache.SizesNonneg := .of_run hspace h₀ hrun
  constructor
  · intro k hk
    rw [(hinv.cache.getMiss hk).evictionEnds_iff (hsize.getMiss hspace k),
      hinv.cache.inUseBytes_getMiss hk]
  · intro h hh
    have hcache := hinv.cache.perm (perm_holds hh)
    have hends : EvictionEnds kind maxBytes _ ↔ _ :=
      hcache.markUpdated.evictionEnds_iff (hsize.markUpdated hspace h.obj h.key)
    rw [hcache.inUseBytes_markUpdated] at hends
    exact hends

end Runs

namespace CacheExample

/-- The manager over one file, of an index of `n` bytes. -/
def initFile (n : ℕ) : CacheState ℕ (List Byte) (ℕ × Byte) (List Byte) :=
  { init with
    cache := { init.cache with
      files := update init.cache.files ⟨8, 0⟩ (some (List.replicate n zeroByte)) } }

theorem cacheInit_initFile (n : ℕ) : cacheInit (initFile n) :=
  ⟨rfl, rfl, rfl, rfl, rfl, rfl, rfl, rfl⟩

end CacheExample

open CacheExample in
/-- An index that is not in use any more makes room for another one. -/
theorem idle_index_evicted :
    ∃ s, (cacheSystem byteList 1).Run (initFile 1)
        [.get 1 ⟨4, 0⟩, .insert ⟨1, ⟨4, 0⟩, 0, []⟩ zeroByte,
          .release ⟨1, ⟨4, 0⟩, 0, [(0, zeroByte)]⟩ true] s ∧
      1 < (s.cache.getMiss byteList ⟨8, 0⟩).usedBytes ∧
      EvictionEnds byteList 1 (s.cache.getMiss byteList ⟨8, 0⟩) := by
  refine System.exists_run_of_exec (P := fun s => s.cache.cacheMap ⟨8, 0⟩ = none ∧
    1 < (s.cache.getMiss byteList ⟨8, 0⟩).usedBytes ∧
    s.cache.othersInUse ⟨8, 0⟩ + byteList.space (s.cache.load byteList ⟨8, 0⟩) ≤ 1)
    (by decide +kernel) ?_
  rintro s hrun ⟨hmiss, hfull, hfits⟩
  have hspace : ∀ a, 0 ≤ byteList.space a := fun a => Int.natCast_nonneg a.length
  have hends := eviction_ends_iff hspace (cacheInit_initFile 1) hrun
  exact ⟨hfull, (hends.1 _ hmiss).mpr hfits⟩

open CacheExample in
/-- The first `get` of an index larger than the cache does not return. -/
theorem large_index_loops :
    cacheInit (initFile 2) ∧ (initFile 2).cache.cacheMap ⟨8, 0⟩ = none ∧
      ¬EvictionEnds byteList 1 ((initFile 2).cache.getMiss byteList ⟨8, 0⟩) := by
  refine ⟨cacheInit_initFile 2, rfl, ?_⟩
  rintro ⟨c', hc', -⟩
  exact not_mem_eval_of_stuck (by decide) (by decide) hc'

end NeurDB.NeurStore
