import NeurDB.Framework.System

/-!
# The index cache of NeurStore

`IndexCacheManager` hands out similarity indexes by dimension and index id. An index is loaded
from its file or created, stays in memory while it is used, and is written back when it is
evicted or when the cache is cleared.

* `Cache` holds the containers of the manager, its files and the index objects, and `Cache.get`,
  `Cache.release` and `Cache.clearCache` are its methods. A method that does not return, because
  no index may be evicted, is `none`.
* `Cache.content` is what the cache is for: one index for each key. `CacheInv` is the invariant
  under which the methods leave it alone, so that insertions of users are the only changes.

An index is an object of any type with the operations of `IndexKind`. That a file reads back
as the index that was written is a field of it.
-/

namespace NeurDB.NeurStore

open Function List Option

/-! ### Keys -/

/-- A key names the containers' entries and the files. `makeKey` prints the two numbers with an
underscore between them, so that different keys have different names. -/
structure IndexKey where
  dimension : ℤ
  indexId : ℤ
  deriving DecidableEq, Repr

/-! ### Indexes -/

/-- What the cache and its users need of an index. `ι` is what is inserted into it, `ρ` is what
an insertion leaves there to be found, and `φ` is what a file holds. -/
structure IndexKind (α ι ρ φ : Type) where
  /-- An empty index for vectors of this dimension. -/
  new : ℤ → α
  /-- The memory the index takes. -/
  space : α → ℤ
  insert : ι → α → α
  added : ι → α → ρ
  Has : α → ρ → Prop
  serialize : α → φ
  deserialize : φ → Option α
  deserialize_serialize : ∀ a, deserialize (serialize a) = some a
  has_insert : ∀ i a, Has (insert i a) (added i a)
  has_mono : ∀ i {a r}, Has a r → Has (insert i a) r

/-! ### The manager -/

/-- `IndexCacheManager`, its files and the index objects. Objects are numbered in the order in
which they are made. -/
structure Cache (α φ : Type) where
  files : IndexKey → Option φ
  heap : ℕ → α
  nextObj : ℕ
  cacheList : List (IndexKey × ℕ)
  cacheMap : IndexKey → Option ℕ
  useCountMap : IndexKey → Option ℤ
  sizeMap : IndexKey → Option ℤ
  updatedMap : IndexKey → Option Bool
  usedBytes : ℤ

namespace Cache

variable {α ι ρ φ : Type} (kind : IndexKind α ι ρ φ) (maxBytes : ℤ)

/-- The index `get` makes for a key that is not cached: from its file, if there is one that can
be read. -/
def load (c : Cache α φ) (k : IndexKey) : α :=
  ((c.files k).bind kind.deserialize).getD (kind.new k.dimension)

/-- `IndexCacheManager::saveIndex`, where the file can be opened; it throws otherwise. -/
def saveIndex (c : Cache α φ) (k : IndexKey) (a : α) : Cache α φ :=
  { c with files := update c.files k (some (kind.serialize a)) }

/-- What the eviction loop does with the entry it has found. -/
def evict (c : Cache α φ) (e : IndexKey × ℕ) : Cache α φ :=
  let c' := if (c.updatedMap e.1).getD false then c.saveIndex kind e.1 (c.heap e.2) else c
  { c' with
    updatedMap := update c.updatedMap e.1 none
    usedBytes := c.usedBytes - (c.sizeMap e.1).getD 0
    cacheMap := update c.cacheMap e.1 none
    useCountMap := update c.useCountMap e.1 none
    sizeMap := update c.sizeMap e.1 none
    cacheList := c.cacheList.erase e }

/-- The least recently used entry that is not in use. -/
def victim (c : Cache α φ) : Option (IndexKey × ℕ) :=
  c.cacheList.reverse.find? fun e => (c.useCountMap e.1).getD 0 = 0

/-- The loop of `evictCacheIfNeeded`. It goes on for ever, here `none`, if too much memory is
used and every index is in use. Each round takes an entry off the list. -/
def evictLoop : ℕ → Cache α φ → Option (Cache α φ)
  | 0, c => if c.usedBytes ≤ maxBytes then some c else none
  | n + 1, c =>
    if c.usedBytes ≤ maxBytes then some c
    else c.victim.bind fun e => evictLoop n (c.evict kind e)

def evictCacheIfNeeded (c : Cache α φ) : Option (Cache α φ) :=
  c.evictLoop kind maxBytes c.cacheList.length

/-- `get` for a key that is cached. -/
def getHit (c : Cache α φ) (k : IndexKey) (o : ℕ) : Cache α φ :=
  { c with
    cacheList := (k, o) :: c.cacheList.erase (k, o)
    useCountMap := update c.useCountMap k (some ((c.useCountMap k).getD 0 + 1)) }

/-- `get` for a key that is not cached, up to the eviction. -/
def getMiss (c : Cache α φ) (k : IndexKey) : Cache α φ :=
  { c with
    heap := update c.heap c.nextObj (c.load kind k)
    nextObj := c.nextObj + 1
    cacheList := (k, c.nextObj) :: c.cacheList
    cacheMap := update c.cacheMap k (some c.nextObj)
    useCountMap := update c.useCountMap k (some 1)
    sizeMap := update c.sizeMap k (some (kind.space (c.load kind k)))
    usedBytes := c.usedBytes + kind.space (c.load kind k)
    updatedMap := update c.updatedMap k (some false) }

def get (c : Cache α φ) (k : IndexKey) : Option (ℕ × Cache α φ) :=
  match c.cacheMap k with
  | some o => some (o, c.getHit k o)
  | none => ((c.getMiss kind k).evictCacheIfNeeded kind maxBytes).map fun c' => (c.nextObj, c')

/-- The part of `release` that every caller runs. -/
def decrement (c : Cache α φ) (k : IndexKey) : Cache α φ :=
  let n := (c.useCountMap k).getD 0 - 1
  { c with useCountMap := update c.useCountMap k (some (if n < 0 then 0 else n)) }

/-- The part of `release` for an index that was changed, up to the eviction. -/
def markUpdated (c : Cache α φ) (o : ℕ) (k : IndexKey) : Cache α φ :=
  let newSpace := kind.space (c.heap o)
  { c with
    usedBytes := c.usedBytes + (newSpace - (c.sizeMap k).getD 0)
    sizeMap := update c.sizeMap k (some newSpace)
    updatedMap := update c.updatedMap k (some true) }

def release (c : Cache α φ) (o : ℕ) (k : IndexKey) (isUpdated : Bool) : Option (Cache α φ) :=
  if isUpdated then ((c.decrement k).markUpdated kind o k).evictCacheIfNeeded kind maxBytes
  else some (c.decrement k)

/-- One round of `clearCache`: the flag of an index that is written stays. -/
def clearOne (c : Cache α φ) (e : IndexKey × ℕ) : Cache α φ :=
  if (c.updatedMap e.1).getD false then c.saveIndex kind e.1 (c.heap e.2) else c

def clearCache (c : Cache α φ) : Cache α φ := c.cacheList.foldl (clearOne kind) c

/-- A user inserts into an index object. -/
def insertInto (c : Cache α φ) (o : ℕ) (i : ι) : Cache α φ :=
  { c with heap := update c.heap o (kind.insert i (c.heap o)) }

/-- **What the cache is for**: an index for each key. -/
def content (c : Cache α φ) (k : IndexKey) : α :=
  match c.cacheMap k with
  | some o => c.heap o
  | none => c.load kind k

end Cache

/-! ### The invariant of the manager -/

/-- An outstanding `get`. It is dirty if its user has inserted into the index. -/
structure Hold where
  key : IndexKey
  obj : ℕ
  dirty : Bool
  deriving DecidableEq, Repr

/-- The number of outstanding `get`s of a key. -/
def holdCount (hs : List Hold) (k : IndexKey) : ℕ := hs.countP fun h => h.key = k

/-- The five containers agree with each other and with the outstanding `get`s, and an index
that is not marked as updated is the one in its file, unless a user has just changed it. -/
structure CacheInv {α ι ρ φ : Type} (kind : IndexKind α ι ρ φ) (c : Cache α φ) (hs : List Hold) :
    Prop where
  keys_nodup : (c.cacheList.map Prod.fst).Nodup
  objs_nodup : (c.cacheList.map Prod.snd).Nodup
  obj_lt : ∀ e ∈ c.cacheList, e.2 < c.nextObj
  cacheMap : ∀ k o, c.cacheMap k = some o ↔ (k, o) ∈ c.cacheList
  useCountMap : ∀ k, c.useCountMap k =
    if (c.cacheMap k).isSome then some (holdCount hs k : ℤ) else none
  sizeMap : ∀ k, (c.sizeMap k).isSome = (c.cacheMap k).isSome
  updatedMap : ∀ k, (c.updatedMap k).isSome = (c.cacheMap k).isSome
  usedBytes : c.usedBytes = (c.cacheList.map fun e => (c.sizeMap e.1).getD 0).sum
  held : ∀ h ∈ hs, c.cacheMap h.key = some h.obj
  clean : ∀ k o, c.cacheMap k = some o → c.updatedMap k = some false →
    (∀ h ∈ hs, h.key = k → h.dirty = false) → c.heap o = c.load kind k

section Invariant

variable {α ι ρ φ : Type} {kind : IndexKind α ι ρ φ} {maxBytes : ℤ} {c c' : Cache α φ}
  {hs hs' : List Hold}

namespace CacheInv

theorem perm (h : CacheInv kind c hs) (hperm : hs.Perm hs') : CacheInv kind c hs' :=
  { h with
    useCountMap := fun k => by rw [h.useCountMap k, holdCount, hperm.countP_eq]; rfl
    held := fun x hx => h.held x (hperm.mem_iff.mpr hx)
    clean := fun k o hk hu hd => h.clean k o hk hu fun x hx => hd x (hperm.mem_iff.mp hx) }

/-- No two keys share an object. -/
theorem obj_inj (h : CacheInv kind c hs) {k k' : IndexKey} {o : ℕ} (hk : c.cacheMap k = some o)
    (hk' : c.cacheMap k' = some o) : k = k' := by
  have := inj_on_of_nodup_map h.objs_nodup ((h.cacheMap k o).mp hk)
    ((h.cacheMap k' o).mp hk') rfl
  exact congrArg Prod.fst this

variable {e : IndexKey × ℕ}

/-- The list has one entry for each key. -/
theorem mem_erase_iff (h : CacheInv kind c hs) (he : e ∈ c.cacheList)
    {k : IndexKey} {o : ℕ} : (k, o) ∈ c.cacheList.erase e ↔ k ≠ e.1 ∧ (k, o) ∈ c.cacheList := by
  rw [h.keys_nodup.of_map.mem_erase_iff]
  constructor
  · rintro ⟨hne, hmem⟩
    refine ⟨?_, hmem⟩
    rintro rfl
    exact hne (inj_on_of_nodup_map h.keys_nodup hmem he rfl)
  · rintro ⟨hne, hmem⟩
    refine ⟨?_, hmem⟩
    rintro rfl
    exact hne rfl

theorem not_mem_keys (h : CacheInv kind c hs) {k : IndexKey} (hk : c.cacheMap k = none) :
    k ∉ c.cacheList.map Prod.fst := by
  intro hmem
  obtain ⟨e, he, rfl⟩ := mem_map.mp hmem
  rw [(h.cacheMap _ _).mpr he] at hk
  cases hk

theorem exists_updatedMap (h : CacheInv kind c hs) {k : IndexKey} {o : ℕ}
    (hk : c.cacheMap k = some o) : ∃ b, c.updatedMap k = some b := by
  rw [← isSome_iff_exists, h.updatedMap, hk, isSome_some]

theorem sum_erase (he : e ∈ c.cacheList) (f : IndexKey × ℕ → ℤ) :
    (c.cacheList.map f).sum = f e + ((c.cacheList.erase e).map f).sum := by
  rw [((perm_cons_erase he).map f).sum_eq, map_cons, sum_cons]

end CacheInv

/-! ### Files -/

variable {k : IndexKey} {e : IndexKey × ℕ} {x : Hold}

theorem Cache.load_congr (h : c'.files k = c.files k) : c'.load kind k = c.load kind k := by
  unfold Cache.load
  rw [h]

theorem Cache.load_of_saved {a : α} (h : c.files k = some (kind.serialize a)) :
    c.load kind k = a := by
  unfold Cache.load
  rw [h, bind_some, kind.deserialize_serialize, getD_some]

/-! ### Eviction -/

/-- Two maps over the same keys stay so when both change at a key. -/
theorem isSome_update_congr {β γ : Type} {f : IndexKey → Option β} {g : IndexKey → Option γ}
    {b : Option β} {c : Option γ} (h : ∀ k, (f k).isSome = (g k).isSome)
    (hbc : b.isSome = c.isSome) (k' : IndexKey) :
    (update f k b k').isSome = (update g k c k').isSome := by
  by_cases hk : k' = k
  · rw [hk, update_self, update_self, hbc]
  · rw [update_of_ne hk, update_of_ne hk, h]

theorem map_getD_update {f : IndexKey → Option ℤ} {l : List (IndexKey × ℕ)} {b : Option ℤ}
    (hl : ∀ e ∈ l, e.1 ≠ k) :
    l.map (fun e => (update f k b e.1).getD 0) = l.map fun e => (f e.1).getD 0 :=
  map_congr_left fun e he => by rw [update_of_ne (hl e he)]

@[simp]
theorem Cache.evict_files_of_ne (c : Cache α φ) (e : IndexKey × ℕ) (hk : k ≠ e.1) :
    (c.evict kind e).files k = c.files k := by
  unfold Cache.evict Cache.saveIndex
  split
  · exact update_of_ne hk _ _
  · rfl

/-- An index that is evicted can be loaded again as it was. -/
theorem CacheInv.load_evict (h : CacheInv kind c hs) (he : e ∈ c.cacheList)
    (hfree : ∀ x ∈ hs, x.key ≠ e.1) : (c.evict kind e).load kind e.1 = c.heap e.2 := by
  have hcached : c.cacheMap e.1 = some e.2 := (h.cacheMap _ _).mpr he
  obtain ⟨b, hb⟩ := h.exists_updatedMap hcached
  cases b with
  | true =>
    apply Cache.load_of_saved
    simp [Cache.evict, hb, Cache.saveIndex]
  | false =>
    -- not marked and not in use: the file is up to date
    have hload : (c.evict kind e).load kind e.1 = c.load kind e.1 := by
      apply Cache.load_congr
      simp [Cache.evict, hb]
    rw [hload]
    refine (h.clean _ _ hcached hb ?_).symm
    intro x hx hkey
    exact absurd hkey (hfree x hx)

@[simp]
theorem Cache.evict_heap (c : Cache α φ) (e : IndexKey × ℕ) : (c.evict kind e).heap = c.heap := by
  unfold Cache.evict Cache.saveIndex
  split <;> rfl

@[simp]
theorem Cache.evict_nextObj (c : Cache α φ) (e : IndexKey × ℕ) :
    (c.evict kind e).nextObj = c.nextObj := by
  unfold Cache.evict Cache.saveIndex
  split <;> rfl

theorem CacheInv.evict (h : CacheInv kind c hs) (he : e ∈ c.cacheList)
    (hfree : ∀ x ∈ hs, x.key ≠ e.1) : CacheInv kind (c.evict kind e) hs := by
  have hmem : ∀ {k o}, (k, o) ∈ c.cacheList.erase e ↔ k ≠ e.1 ∧ (k, o) ∈ c.cacheList :=
    fun {k o} => h.mem_erase_iff he
  refine ⟨?_, ?_, ?_, ?_, ?_, ?_, ?_, ?_, ?_, ?_⟩
  · exact h.keys_nodup.sublist (erase_sublist.map _)
  · exact h.objs_nodup.sublist (erase_sublist.map _)
  · intro x hx
    rw [Cache.evict_nextObj]
    exact h.obj_lt x (mem_of_mem_erase hx)
  · intro k o
    change update c.cacheMap e.1 none k = some o ↔ (k, o) ∈ c.cacheList.erase e
    rw [hmem, ← h.cacheMap]
    by_cases hk : k = e.1
    · simp [hk]
    · simp [hk]
  · intro k
    change update c.useCountMap e.1 none k = if (update c.cacheMap e.1 none k).isSome then _ else _
    by_cases hk : k = e.1
    · simp [hk]
    · rw [update_of_ne hk, update_of_ne hk, h.useCountMap k]
  · exact isSome_update_congr h.sizeMap rfl
  · exact isSome_update_congr h.updatedMap rfl
  · change c.usedBytes - (c.sizeMap e.1).getD 0 = ((c.cacheList.erase e).map
      fun x => (update c.sizeMap e.1 none x.1).getD 0).sum
    rw [map_getD_update fun x hx => (hmem.mp hx).1, h.usedBytes, CacheInv.sum_erase he]
    ring
  · intro x hx
    change update c.cacheMap e.1 none x.key = some x.obj
    rw [update_of_ne (hfree x hx)]
    exact h.held x hx
  · intro k o hk hu hd
    change update c.cacheMap e.1 none k = some o at hk
    change update c.updatedMap e.1 none k = some false at hu
    by_cases heq : k = e.1
    · simp [heq] at hk
    · rw [update_of_ne heq] at hk hu
      rw [Cache.evict_heap, Cache.load_congr (Cache.evict_files_of_ne c e heq)]
      exact h.clean k o hk hu hd

/-- An eviction moves an index to its file; the cache stands for the same. -/
theorem CacheInv.content_evict (h : CacheInv kind c hs) (he : e ∈ c.cacheList)
    (hfree : ∀ x ∈ hs, x.key ≠ e.1) :
    (c.evict kind e).content kind = c.content kind := by
  funext k
  unfold Cache.content
  change (match update c.cacheMap e.1 none k with
    | some o => (c.evict kind e).heap o
    | none => (c.evict kind e).load kind k) = _
  by_cases hk : k = e.1
  · rw [hk, update_self, (h.cacheMap e.1 e.2).mpr he]
    exact h.load_evict he hfree
  · rw [update_of_ne hk, Cache.evict_heap, Cache.load_congr (Cache.evict_files_of_ne c e hk)]

/-- Only an index that nobody holds is evicted. -/
theorem CacheInv.victim_free (h : CacheInv kind c hs) (he : c.victim = some e) :
    e ∈ c.cacheList ∧ ∀ x ∈ hs, x.key ≠ e.1 := by
  have hmem : e ∈ c.cacheList := mem_reverse.mp (mem_of_find?_eq_some he)
  refine ⟨hmem, ?_⟩
  have hzero : (c.useCountMap e.1).getD 0 = 0 := by simpa using find?_some he
  rw [h.useCountMap, (h.cacheMap e.1 e.2).mpr hmem, isSome_some, if_pos rfl, getD_some] at hzero
  have hcount : hs.countP (fun x => decide (x.key = e.1)) = 0 := by exact_mod_cast hzero
  intro x hx
  simpa using countP_eq_zero.mp hcount x hx

variable {n o : ℕ} {l : List (IndexKey × ℕ)}

/-- The rule for the loop: what an eviction keeps, the loop keeps. -/
theorem Cache.evictLoop_induction {I : Cache α φ → Prop}
    (hevict : ∀ c e, I c → c.victim = some e → I (c.evict kind e)) (h : I c)
    (hstep : c.evictLoop kind maxBytes n = some c') : I c' := by
  induction n generalizing c with
  | zero =>
    obtain ⟨-, ⟨⟩⟩ := ite_none_right_eq_some.mp hstep
    exact h
  | succ n ih =>
    unfold Cache.evictLoop at hstep
    split at hstep
    · cases hstep
      exact h
    · obtain ⟨e, he, hrest⟩ := bind_eq_some_iff.mp hstep
      exact ih (hevict c e h he) hrest

theorem CacheInv.evictLoop (h : CacheInv kind c hs)
    (hstep : c.evictLoop kind maxBytes n = some c') :
    CacheInv kind c' hs ∧ c'.content kind = c.content kind := by
  refine Cache.evictLoop_induction
    (I := fun c₁ => CacheInv kind c₁ hs ∧ c₁.content kind = c.content kind) ?_ ⟨h, rfl⟩ hstep
  rintro c₁ e ⟨hinv, hcontent⟩ he
  obtain ⟨hmem, hfree⟩ := hinv.victim_free he
  exact ⟨hinv.evict hmem hfree, (hinv.content_evict hmem hfree).trans hcontent⟩

/-! ### The methods -/

theorem holdCount_cons (x : Hold) (hs : List Hold) (k : IndexKey) :
    holdCount (x :: hs) k = holdCount hs k + if x.key = k then 1 else 0 := by
  simp [holdCount, countP_cons]

theorem holdCount_cons_of_ne (hs : List Hold) (hk : k ≠ x.key) :
    holdCount (x :: hs) k = holdCount hs k := by
  rw [holdCount_cons, if_neg hk.symm, add_zero]

section

variable (h : CacheInv kind c hs)

include h

theorem CacheInv.holdCount_eq_zero (hk : c.cacheMap k = none) : holdCount hs k = 0 := by
  apply countP_eq_zero.mpr
  intro x hx
  simp only [decide_eq_true_eq]
  rintro rfl
  have := h.held x hx
  rw [hk] at this
  cases this

theorem CacheInv.getHit (hk : c.cacheMap k = some o) :
    CacheInv kind (c.getHit k o) (⟨k, o, false⟩ :: hs) := by
  have hperm : ((k, o) :: c.cacheList.erase (k, o)).Perm c.cacheList :=
    (perm_cons_erase ((h.cacheMap k o).mp hk)).symm
  refine ⟨?_, ?_, ?_, ?_, ?_, h.sizeMap, h.updatedMap, ?_, ?_, ?_⟩
  · exact (hperm.map Prod.fst).nodup_iff.mpr h.keys_nodup
  · exact (hperm.map Prod.snd).nodup_iff.mpr h.objs_nodup
  · intro e he
    exact h.obj_lt e (hperm.mem_iff.mp he)
  · intro k' o'
    exact (h.cacheMap k' o').trans hperm.mem_iff.symm
  · intro k'
    change update c.useCountMap k _ k' = if (c.cacheMap k').isSome then _ else _
    by_cases heq : k' = k
    · rw [heq, update_self, hk, h.useCountMap k, hk, holdCount_cons]
      simp
    · rw [update_of_ne heq, h.useCountMap k', holdCount_cons_of_ne hs heq]
  · exact h.usedBytes.trans (hperm.map _).sum_eq.symm
  · exact forall_mem_cons.mpr ⟨hk, h.held⟩
  · intro k' o' hk' hu hd
    exact h.clean k' o' hk' hu fun x hx => hd x (mem_cons_of_mem _ hx)

/-- The index that is loaded is a new object, with one user. -/
theorem CacheInv.getMiss (hk : c.cacheMap k = none) :
    CacheInv kind (c.getMiss kind k) (⟨k, c.nextObj, false⟩ :: hs) := by
  have hold : ∀ {k' o}, c.cacheMap k' = some o → k' ≠ k ∧ o ≠ c.nextObj := by
    intro k' o hk'
    refine ⟨?_, ?_⟩
    · rintro rfl
      rw [hk] at hk'
      cases hk'
    · exact (h.obj_lt _ ((h.cacheMap k' o).mp hk')).ne
  refine ⟨?_, ?_, ?_, ?_, ?_, ?_, ?_, ?_, ?_, ?_⟩
  · exact nodup_cons.mpr ⟨h.not_mem_keys hk, h.keys_nodup⟩
  · refine nodup_cons.mpr ⟨?_, h.objs_nodup⟩
    intro hmem
    obtain ⟨⟨k', o⟩, he, heq⟩ := mem_map.mp hmem
    exact (hold ((h.cacheMap k' o).mpr he)).2 heq
  · exact forall_mem_cons.mpr
      ⟨Nat.lt_succ_self _, fun e he => (h.obj_lt e he).trans (Nat.lt_succ_self _)⟩
  · intro k' o
    change update c.cacheMap k (some c.nextObj) k' = some o ↔
      (k', o) ∈ (k, c.nextObj) :: c.cacheList
    rw [mem_cons, ← h.cacheMap]
    by_cases heq : k' = k
    · subst heq
      simp [hk, eq_comm]
    · simp [heq]
  · intro k'
    change update c.useCountMap k (some 1) k' =
      if (update c.cacheMap k (some c.nextObj) k').isSome then _ else _
    by_cases heq : k' = k
    · subst heq
      simp [holdCount_cons, h.holdCount_eq_zero hk]
    · rw [update_of_ne heq, update_of_ne heq, h.useCountMap k', holdCount_cons_of_ne hs heq]
  · exact isSome_update_congr h.sizeMap rfl
  · exact isSome_update_congr h.updatedMap rfl
  · change c.usedBytes + kind.space (c.load kind k) = (List.map
      (fun e => (update c.sizeMap k (some (kind.space (c.load kind k))) e.1).getD 0)
      ((k, c.nextObj) :: c.cacheList)).sum
    rw [map_cons, sum_cons, map_getD_update fun e he => (hold ((h.cacheMap _ _).mpr he)).1,
      ← h.usedBytes, update_self, getD_some, add_comm]
  · intro x hx
    change update c.cacheMap k (some c.nextObj) x.key = some x.obj
    rcases mem_cons.mp hx with rfl | hx
    · exact update_self _ _ _
    · rw [update_of_ne (hold (h.held x hx)).1]
      exact h.held x hx
  · intro k' o hk' hu hd
    change update c.cacheMap k (some c.nextObj) k' = some o at hk'
    change update c.updatedMap k (some false) k' = some false at hu
    change update c.heap c.nextObj (c.load kind k) o = c.load kind k'
    by_cases heq : k' = k
    · -- the new object is what the file gives
      subst heq
      obtain rfl : c.nextObj = o := by simpa using hk'
      exact update_self _ _ _
    · rw [update_of_ne heq] at hk' hu
      rw [update_of_ne (hold hk').2]
      exact h.clean k' o hk' hu fun x hx => hd x (mem_cons_of_mem _ hx)

theorem CacheInv.content_getMiss (hk : c.cacheMap k = none) :
    (c.getMiss kind k).content kind = c.content kind := by
  funext k'
  unfold Cache.content
  change (match update c.cacheMap k (some c.nextObj) k' with
    | some o => update c.heap c.nextObj (c.load kind k) o
    | none => c.load kind k') = _
  by_cases heq : k' = k
  · rw [heq, update_self, hk]
    exact update_self _ _ _
  · rw [update_of_ne heq]
    split
    · next o ho => exact update_of_ne (h.obj_lt _ ((h.cacheMap k' o).mp ho)).ne _ _
    · rfl

/-- **`get`** returns the index the cache stands for, and leaves the cache as it is. -/
theorem CacheInv.get (hget : c.get kind maxBytes k = some (o, c')) :
    CacheInv kind c' (⟨k, o, false⟩ :: hs) ∧ c'.content kind = c.content kind ∧
      c'.heap o = c.content kind k := by
  have hcontent : CacheInv kind c' (⟨k, o, false⟩ :: hs) ∧ c'.content kind = c.content kind := by
    unfold Cache.get at hget
    split at hget
    · next o' hk =>
      cases hget
      exact ⟨h.getHit hk, rfl⟩
    · next hk =>
      obtain ⟨c₁, hc₁, ⟨⟩⟩ := map_eq_some_iff.mp hget
      obtain ⟨hinv, hsame⟩ := (h.getMiss hk).evictLoop hc₁
      exact ⟨hinv, hsame.trans (h.content_getMiss hk)⟩
  obtain ⟨hinv, hsame⟩ := hcontent
  refine ⟨hinv, hsame, ?_⟩
  have hk : c'.cacheMap k = some o := hinv.held _ mem_cons_self
  rw [← hsame]
  unfold Cache.content
  rw [hk]

end

section

variable (h : CacheInv kind c (x :: hs))

include h

theorem CacheInv.decrement_useCountMap (k : IndexKey) :
    (c.decrement x.key).useCountMap k =
      if (c.cacheMap k).isSome then some (holdCount hs k : ℤ) else none := by
  have hx := h.held x mem_cons_self
  unfold Cache.decrement
  dsimp only
  by_cases heq : k = x.key
  · rw [heq, update_self, h.useCountMap, hx, holdCount_cons]
    simp
  · rw [update_of_ne heq, h.useCountMap, holdCount_cons_of_ne hs heq]

/-- A user that has inserted nothing goes. -/
theorem CacheInv.decrement (hx : x.dirty = false) : CacheInv kind (c.decrement x.key) hs := by
  exact { h with
    useCountMap := h.decrement_useCountMap
    held := fun y hy => h.held y (mem_cons_of_mem _ hy)
    clean := fun k o hk hu hd => h.clean k o hk hu (forall_mem_cons.mpr ⟨fun _ => hx, hd⟩) }

/-- A user that has inserted something goes, and the index is marked for its file. -/
theorem CacheInv.markUpdated :
    CacheInv kind ((c.decrement x.key).markUpdated kind x.obj x.key) hs := by
  have hx := h.held x mem_cons_self
  have hmem := (h.cacheMap _ _).mp hx
  refine ⟨h.keys_nodup, h.objs_nodup, h.obj_lt, h.cacheMap, h.decrement_useCountMap, ?_, ?_, ?_,
    fun y hy => h.held y (mem_cons_of_mem _ hy), ?_⟩
  · intro k
    change (update c.sizeMap x.key _ k).isSome = (c.cacheMap k).isSome
    by_cases heq : k = x.key
    · simp [heq, hx]
    · rw [update_of_ne heq, h.sizeMap]
  · intro k
    change (update c.updatedMap x.key _ k).isSome = (c.cacheMap k).isSome
    by_cases heq : k = x.key
    · simp [heq, hx]
    · rw [update_of_ne heq, h.updatedMap]
  · change c.usedBytes + (kind.space (c.heap x.obj) - (c.sizeMap x.key).getD 0) =
      (c.cacheList.map fun e =>
        (update c.sizeMap x.key (some (kind.space (c.heap x.obj))) e.1).getD 0).sum
    rw [CacheInv.sum_erase hmem, map_getD_update fun e he => ((h.mem_erase_iff hmem).mp he).1,
      h.usedBytes, CacheInv.sum_erase hmem, update_self, getD_some]
    ring
  · intro k o hk hu hd
    change update c.updatedMap x.key (some true) k = some false at hu
    by_cases heq : k = x.key
    · simp [heq] at hu
    · rw [update_of_ne heq] at hu
      exact h.clean k o hk hu (forall_mem_cons.mpr ⟨fun hkey => absurd hkey.symm heq, hd⟩)

end

/-- **`release`** leaves what the cache stands for as it is, if users that have inserted
something say so. -/
theorem CacheInv.release {isUpdated : Bool} (h : CacheInv kind c (x :: hs))
    (hdirty : x.dirty = true → isUpdated = true)
    (hrel : c.release kind maxBytes x.obj x.key isUpdated = some c') :
    CacheInv kind c' hs ∧ c'.content kind = c.content kind := by
  unfold Cache.release at hrel
  split at hrel
  · obtain ⟨hinv, hsame⟩ := h.markUpdated.evictLoop hrel
    exact ⟨hinv, hsame⟩
  · next hflag =>
    cases hrel
    refine ⟨h.decrement ?_, rfl⟩
    cases hx : x.dirty
    · rfl
    · exact absurd (hdirty hx) hflag

/-- An insertion changes the index of its key only. -/
theorem CacheInv.insertInto (h : CacheInv kind c (x :: hs)) (i : ι) :
    CacheInv kind (c.insertInto kind x.obj i) ({ x with dirty := true } :: hs) ∧
      (c.insertInto kind x.obj i).content kind =
        update (c.content kind) x.key (kind.insert i (c.content kind x.key)) := by
  have hx := h.held x mem_cons_self
  constructor
  · refine ⟨h.keys_nodup, h.objs_nodup, h.obj_lt, h.cacheMap, ?_, h.sizeMap, h.updatedMap,
      h.usedBytes, ?_, ?_⟩
    · intro k
      refine (h.useCountMap k).trans ?_
      simp only [holdCount_cons]
      rfl
    · exact forall_mem_cons.mpr ⟨hx, fun y hy => h.held y (mem_cons_of_mem _ hy)⟩
    · intro k o hk hu hd
      -- the key of the insertion has a dirty user now, and other keys have other objects
      have hne : k ≠ x.key := by
        rintro rfl
        cases hd _ mem_cons_self rfl
      have hobj : o ≠ x.obj := by
        rintro rfl
        exact hne (h.obj_inj hk hx)
      change update c.heap x.obj _ o = c.load kind k
      rw [update_of_ne hobj]
      exact h.clean k o hk hu (forall_mem_cons.mpr ⟨fun hkey => absurd hkey.symm hne,
        fun y hy => hd y (mem_cons_of_mem _ hy)⟩)
  · funext k
    unfold Cache.content
    change (match c.cacheMap k with
      | some o => update c.heap x.obj (kind.insert i (c.heap x.obj)) o
      | none => c.load kind k) = _
    by_cases heq : k = x.key
    · rw [heq, update_self, hx]
      exact update_self _ _ _
    · rw [update_of_ne heq]
      split
      · next o ho =>
        refine update_of_ne ?_ _ _
        rintro rfl
        exact heq (h.obj_inj ho hx)
      · rfl

/-- `clearCache` writes files and changes nothing else. -/
theorem Cache.foldl_clearOne_eq (l : List (IndexKey × ℕ)) (c : Cache α φ) :
    ∃ files, l.foldl (Cache.clearOne kind) c = { c with files := files } := by
  induction l generalizing c with
  | nil => exact ⟨c.files, rfl⟩
  | cons e l ih =>
    obtain ⟨files, heq⟩ := ih (c.clearOne kind e)
    refine ⟨files, ?_⟩
    rw [foldl_cons, heq, Cache.clearOne]
    split <;> rfl

/-- The files of other indexes, and of those not marked, stay. -/
theorem Cache.files_foldl_clearOne_of_not
    (hk : k ∉ l.map Prod.fst ∨ (c.updatedMap k).getD false = false) :
    (l.foldl (Cache.clearOne kind) c).files k = c.files k := by
  induction l generalizing c with
  | nil => rfl
  | cons e l ih =>
    have hone : (c.clearOne kind e).files k = c.files k := by
      unfold Cache.clearOne
      split
      · next hup =>
        refine update_of_ne ?_ _ _
        rintro rfl
        rcases hk with hk | hk
        · exact hk (mem_map_of_mem mem_cons_self)
        · rw [hk] at hup
          cases hup
      · rfl
    obtain ⟨files, heq⟩ : ∃ files, c.clearOne kind e = { c with files := files } :=
      Cache.foldl_clearOne_eq [e] c
    rw [foldl_cons, ih, hone]
    rw [heq]
    exact hk.imp_left fun hnot hmem => hnot (mem_cons_of_mem _ hmem)

theorem Cache.files_foldl_clearOne (hnodup : (l.map Prod.fst).Nodup)
    (he : e ∈ l) (hup : (c.updatedMap e.1).getD false = true) :
    (l.foldl (Cache.clearOne kind) c).files e.1 = some (kind.serialize (c.heap e.2)) := by
  induction l generalizing c with
  | nil => cases he
  | cons x l ih =>
    rw [map_cons, nodup_cons] at hnodup
    obtain ⟨files, heq⟩ : ∃ files, c.clearOne kind x = { c with files := files } :=
      Cache.foldl_clearOne_eq [x] c
    rcases mem_cons.mp he with rfl | hmem
    · rw [foldl_cons, Cache.files_foldl_clearOne_of_not (Or.inl hnodup.1), Cache.clearOne,
        if_pos hup]
      exact update_self _ _ _
    · rw [foldl_cons, ih hnodup.2 hmem (by rwa [heq]), heq]

/-- **`clearCache`** leaves what the cache stands for as it is. -/
theorem CacheInv.clearCache (h : CacheInv kind c hs) :
    CacheInv kind (c.clearCache kind) hs ∧ (c.clearCache kind).content kind = c.content kind := by
  have hload : ∀ k, k ∉ c.cacheList.map Prod.fst ∨ (c.updatedMap k).getD false = false →
      (c.clearCache kind).load kind k = c.load kind k :=
    fun k hk => Cache.load_congr (Cache.files_foldl_clearOne_of_not hk)
  obtain ⟨files, heq⟩ : ∃ files, c.clearCache kind = { c with files := files } :=
    Cache.foldl_clearOne_eq _ c
  rw [heq] at hload ⊢
  refine ⟨{ h with clean := fun k o hk hu hd => ?_ }, funext fun k => ?_⟩
  · change c.updatedMap k = some false at hu
    rw [hload k (Or.inr (by rw [hu, getD_some]))]
    exact h.clean k o hk hu hd
  · change (match c.cacheMap k with
      | some o => c.heap o
      | none => _) = c.content kind k
    unfold Cache.content
    cases hk : c.cacheMap k with
    | some o => rfl
    | none => exact hload k (Or.inl (h.not_mem_keys hk))

/-! ### What is on disk -/

/-- The files hold what the cache stands for. -/
def Cache.Synced (kind : IndexKind α ι ρ φ) (c : Cache α φ) : Prop :=
  ∀ k, c.load kind k = c.content kind k

/-- An eviction writes what it takes out of memory. -/
theorem Cache.Synced.evictLoop (hsync : c.Synced kind) (h : CacheInv kind c hs)
    (hstep : c.evictLoop kind maxBytes n = some c') : c'.Synced kind := by
  refine (Cache.evictLoop_induction (I := fun c₁ => CacheInv kind c₁ hs ∧ c₁.Synced kind) ?_
    ⟨h, hsync⟩ hstep).2
  rintro c₁ e ⟨hinv, hsync₁⟩ he
  obtain ⟨hmem, hfree⟩ := hinv.victim_free he
  refine ⟨hinv.evict hmem hfree, fun k => ?_⟩
  rw [hinv.content_evict hmem hfree]
  -- the file of the evicted key is written, the other ones stay
  by_cases hk : k = e.1
  · rw [hk, hinv.load_evict hmem hfree, Cache.content, (hinv.cacheMap _ _).mpr hmem]
  · rw [Cache.load_congr (Cache.evict_files_of_ne c₁ e hk)]
    exact hsync₁ k

theorem Cache.Synced.get (hsync : c.Synced kind) (h : CacheInv kind c hs)
    (hget : c.get kind maxBytes k = some (o, c')) : c'.Synced kind := by
  unfold Cache.get at hget
  split at hget
  · cases hget
    exact hsync
  · next hk =>
    obtain ⟨c₁, hc₁, ⟨⟩⟩ := map_eq_some_iff.mp hget
    refine Cache.Synced.evictLoop (fun k' => ?_) (h.getMiss hk) hc₁
    rw [h.content_getMiss hk]
    exact hsync k'

/-- **After `clearCache` everything is on disk**, unless a user has just inserted. -/
theorem CacheInv.synced_clearCache (h : CacheInv kind c hs) (hclean : ∀ x ∈ hs, x.dirty = false) :
    (c.clearCache kind).Synced kind := by
  intro k
  rw [h.clearCache.2]
  unfold Cache.content
  cases hk : c.cacheMap k with
  | none =>
    exact Cache.load_congr (Cache.files_foldl_clearOne_of_not (Or.inl (h.not_mem_keys hk)))
  | some o =>
    obtain ⟨b, hb⟩ := h.exists_updatedMap hk
    cases b with
    | true =>
      refine Cache.load_of_saved (Cache.files_foldl_clearOne h.keys_nodup ((h.cacheMap k o).mp hk) ?_)
      rw [hb, getD_some]
    | false =>
      have hfile : (c.clearCache kind).files k = c.files k :=
        Cache.files_foldl_clearOne_of_not (Or.inr (by rw [hb, getD_some]))
      rw [Cache.load_congr hfile]
      exact (h.clean k o hk hb fun x hx _ => hclean x hx).symm

end Invariant

end NeurDB.NeurStore
