import NeurDB.Framework.Bytes
import NeurDB.NeurStore.IndexCache

/-!
# Users of the index cache

Users get indexes, insert into them and release them, in any interleaving with each other and
with `clearCache`. Every method of the manager is atomic under its mutex; insertions are not
made under it.

The system carries two things the code does not have: what each outstanding `get` has inserted
so far, and what users that have released had inserted. `cache_coherent` says that the
containers agree with each other and with the outstanding `get`s along every run, and that an
index obtained by `get` has every insertion of users that released it before.
-/

namespace NeurDB.NeurStore

open Function List

section Users

variable (U : Type) {α ι ρ φ : Type}

/-- An index a user has got and not released yet, with what the user has inserted. -/
structure Handle (ρ : Type) where
  user : U
  key : IndexKey
  obj : ℕ
  inserted : List ρ
  deriving DecidableEq, Repr

/-- The manager, the outstanding `get`s, and the insertions of users that have released. -/
structure CacheState (α ρ φ : Type) where
  cache : Cache α φ
  handles : List (Handle U ρ)
  released : List (IndexKey × ρ)

inductive CacheLabel (ι ρ : Type) where
  | get (u : U) (k : IndexKey)
  | insert (h : Handle U ρ) (i : ι)
  | release (h : Handle U ρ) (isUpdated : Bool)
  | clearCache

variable {U}

def Handle.hold (h : Handle U ρ) : Hold := ⟨h.key, h.obj, !h.inserted.isEmpty⟩

variable [DecidableEq U] [DecidableEq ρ] (kind : IndexKind α ι ρ φ) (maxBytes : ℤ)

/-- One call of a method, or one insertion into an index a user holds. A user that has inserted
something releases with `is_updated`. -/
def cacheStep (s : CacheState U α ρ φ) : CacheLabel U ι ρ → Option (CacheState U α ρ φ)
  | .get u k => (s.cache.get kind maxBytes k).map fun (o, c) =>
      { s with cache := c, handles := ⟨u, k, o, []⟩ :: s.handles }
  | .insert h i =>
    if h ∈ s.handles then
      some
        { s with
          cache := s.cache.insertInto kind h.obj i
          handles := { h with inserted := h.inserted ++ [kind.added i (s.cache.heap h.obj)] } ::
            s.handles.erase h }
    else none
  | .release h isUpdated =>
    if h ∈ s.handles ∧ (h.inserted = [] ∨ isUpdated = true) then
      (s.cache.release kind maxBytes h.obj h.key isUpdated).map fun c =>
        { cache := c
          handles := s.handles.erase h
          released := s.released ++ h.inserted.map fun r => (h.key, r) }
    else none
  | .clearCache => some { s with cache := s.cache.clearCache kind }

/-- The manager as its constructor leaves it, over any files. -/
def cacheInit (s : CacheState U α ρ φ) : Prop :=
  s.cache.cacheList = [] ∧ s.cache.cacheMap = (fun _ => none) ∧
    s.cache.useCountMap = (fun _ => none) ∧ s.cache.sizeMap = (fun _ => none) ∧
    s.cache.updatedMap = (fun _ => none) ∧ s.cache.usedBytes = 0 ∧
    s.handles = [] ∧ s.released = []

def cacheSystem : System (CacheState U α ρ φ) (CacheLabel U ι ρ) :=
  .ofFun cacheInit (cacheStep kind maxBytes)

variable {kind maxBytes} {s : CacheState U α ρ φ} {x : Handle U ρ}

omit [DecidableEq U] [DecidableEq ρ] in
theorem CacheInv.initial (h : cacheInit s) : CacheInv kind s.cache (s.handles.map Handle.hold) := by
  obtain ⟨hlist, hmap, huse, hsize, hupd, hused, hhandles, -⟩ := h
  refine ⟨?_, ?_, ?_, ?_, ?_, ?_, ?_, ?_, ?_, ?_⟩ <;> simp [*]

/-- The invariant of a run: the manager's, and every insertion is where it belongs. -/
structure UsersInv (kind : IndexKind α ι ρ φ) (s : CacheState U α ρ φ) : Prop where
  cache : CacheInv kind s.cache (s.handles.map Handle.hold)
  released : ∀ k r, (k, r) ∈ s.released → kind.Has (s.cache.content kind k) r
  inserted : ∀ h ∈ s.handles, ∀ r ∈ h.inserted, kind.Has (s.cache.content kind h.key) r

/-- A user's own `get` can be put first. -/
theorem perm_holds {h : Handle U ρ} (hmem : h ∈ s.handles) :
    (s.handles.map Handle.hold).Perm (h.hold :: (s.handles.erase h).map Handle.hold) :=
  (perm_cons_erase hmem).map Handle.hold

omit [DecidableEq U] [DecidableEq ρ] in
theorem has_content_insertInto {i : ι} (hcontent : (s.cache.insertInto kind x.obj i).content kind =
      update (s.cache.content kind) x.key (kind.insert i (s.cache.content kind x.key)))
    {k : IndexKey} {r : ρ} (hr : kind.Has (s.cache.content kind k) r) :
    kind.Has ((s.cache.insertInto kind x.obj i).content kind k) r := by
  rw [hcontent]
  by_cases hk : k = x.key
  · subst hk
    rw [update_self]
    exact kind.has_mono i hr
  · rwa [update_of_ne hk]

/-- The user finds what it has inserted, and nothing is lost. -/
theorem UsersInv.insert (h : UsersInv kind s) (hmem : x ∈ s.handles) (i : ι) :
    UsersInv kind { s with
      cache := s.cache.insertInto kind x.obj i
      handles := { x with inserted := x.inserted ++ [kind.added i (s.cache.heap x.obj)] } ::
        s.handles.erase x } := by
  obtain ⟨hinv, hcontent⟩ := (h.cache.perm (perm_holds hmem)).insertInto i
  refine ⟨?_, fun k r hr => has_content_insertInto hcontent (h.released k r hr), ?_⟩
  · have hhold : Handle.hold { x with
        inserted := x.inserted ++ [kind.added i (s.cache.heap x.obj)] } =
        { x.hold with dirty := true } := by
      simp [Handle.hold]
    rw [map_cons, hhold]
    exact hinv
  · intro y hy r hr
    rcases mem_cons.mp hy with rfl | hy
    · rcases mem_append_singleton.mp hr with hr | rfl
      · exact has_content_insertInto hcontent (h.inserted x hmem r hr)
      · -- the new one is in the object the user holds
        have hx : s.cache.cacheMap x.key = some x.obj :=
          h.cache.held _ (mem_map_of_mem hmem)
        have hheap : s.cache.content kind x.key = s.cache.heap x.obj := by
          unfold Cache.content
          rw [hx]
        have hnew : (s.cache.insertInto kind x.obj i).content kind x.key =
            kind.insert i (s.cache.heap x.obj) := by
          rw [← hheap]
          exact (congrFun hcontent x.key).trans (update_self _ _ _)
        change kind.Has ((s.cache.insertInto kind x.obj i).content kind x.key) _
        rw [hnew]
        exact kind.has_insert i _
    · exact has_content_insertInto hcontent (h.inserted y (mem_of_mem_erase hy) r hr)

omit [DecidableEq U] [DecidableEq ρ] in
/-- What leaves the content as it is keeps the insertions that were in it. -/
theorem UsersInv.of_content {c : Cache α φ} {handles : List (Handle U ρ)}
    {released : List (IndexKey × ρ)} (hinv : CacheInv kind c (handles.map Handle.hold))
    (hsame : c.content kind = s.cache.content kind)
    (hrel : ∀ k r, (k, r) ∈ released → kind.Has (s.cache.content kind k) r)
    (hins : ∀ h ∈ handles, ∀ r ∈ h.inserted, kind.Has (s.cache.content kind h.key) r) :
    UsersInv kind ⟨c, handles, released⟩ := by
  rw [← hsame] at hrel hins
  exact ⟨hinv, hrel, hins⟩

/-- A user that has inserted something says so when it releases the index. -/
theorem UsersInv.release {c : Cache α φ} {isUpdated : Bool} (h : UsersInv kind s)
    (hmem : x ∈ s.handles) (hflag : x.inserted = [] ∨ isUpdated = true)
    (hc : s.cache.release kind maxBytes x.obj x.key isUpdated = some c) :
    CacheInv kind c ((s.handles.erase x).map Handle.hold) ∧
      c.content kind = s.cache.content kind := by
  refine (h.cache.perm (perm_holds hmem)).release (fun hd => hflag.resolve_left ?_) hc
  simpa [Handle.hold] using hd

theorem UsersInv.step {s' : CacheState U α ρ φ} {l : CacheLabel U ι ρ} (h : UsersInv kind s)
    (hstep : cacheStep kind maxBytes s l = some s') : UsersInv kind s' := by
  cases l with
  | get u k =>
    obtain ⟨⟨o, c⟩, hget, rfl⟩ := Option.map_eq_some_iff.mp hstep
    obtain ⟨hinv, hsame, -⟩ := h.cache.get hget
    exact .of_content hinv hsame h.released (forall_mem_cons.mpr ⟨nofun, h.inserted⟩)
  | insert x i =>
    obtain ⟨hmem, ⟨⟩⟩ := Option.ite_none_right_eq_some.mp hstep
    exact h.insert hmem i
  | release x isUpdated =>
    obtain ⟨⟨hmem, hflag⟩, hrel⟩ := Option.ite_none_right_eq_some.mp hstep
    obtain ⟨c, hc, rfl⟩ := Option.map_eq_some_iff.mp hrel
    obtain ⟨hinv, hsame⟩ := h.release hmem hflag hc
    refine .of_content hinv hsame ?_ fun y hy => h.inserted y (mem_of_mem_erase hy)
    intro k r hr
    rcases mem_append.mp hr with hr | hr
    · exact h.released k r hr
    · obtain ⟨r', hr', ⟨⟩⟩ := mem_map.mp hr
      exact h.inserted x hmem r hr'
  | clearCache =>
    cases hstep
    obtain ⟨hinv, hsame⟩ := h.cache.clearCache
    exact .of_content hinv hsame h.released h.inserted

theorem UsersInv.of_run {s₀ : CacheState U α ρ φ} {ls : List (CacheLabel U ι ρ)} (h₀ : cacheInit s₀)
    (hrun : (cacheSystem kind maxBytes).Run s₀ ls s) : UsersInv kind s := by
  refine hrun.invariant ?_ fun _ _ _ h hstep => h.step hstep
  refine ⟨CacheInv.initial h₀, ?_, ?_⟩
  · intro k r hr
    rw [h₀.2.2.2.2.2.2.2] at hr
    cases hr
  · intro x hx
    rw [h₀.2.2.2.2.2.2.1] at hx
    cases hx

/-- **Coherence of the index cache.** Along every run, from any files:

* the bytes in use are the sizes of the cached indexes;
* the containers have the same keys;
* the use count of a key is the number of its outstanding `get`s;
* an index with an outstanding `get` is cached, and its users have one object;
* an index obtained by `get` has the insertions of all users that released it before. -/
theorem cache_coherent {s₀ s : CacheState U α ρ φ} {ls : List (CacheLabel U ι ρ)}
    (h₀ : cacheInit s₀) (hrun : (cacheSystem kind maxBytes).Run s₀ ls s) :
    s.cache.usedBytes = (s.cache.cacheList.map fun e => (s.cache.sizeMap e.1).getD 0).sum ∧
    (∀ k, (k ∈ s.cache.cacheList.map Prod.fst ↔ (s.cache.cacheMap k).isSome) ∧
      (s.cache.sizeMap k).isSome = (s.cache.cacheMap k).isSome ∧
      (s.cache.useCountMap k).isSome = (s.cache.cacheMap k).isSome ∧
      (s.cache.updatedMap k).isSome = (s.cache.cacheMap k).isSome) ∧
    (∀ k, (s.cache.useCountMap k).getD 0 = s.handles.countP fun h => h.key = k) ∧
    (∀ h ∈ s.handles, (h.key, h.obj) ∈ s.cache.cacheList) ∧
    (∀ h ∈ s.handles, ∀ h' ∈ s.handles, h.key = h'.key → h.obj = h'.obj) ∧
    ∀ u k s', (cacheSystem kind maxBytes).step s (.get u k) s' →
      ∃ o, s'.handles = ⟨u, k, o, []⟩ :: s.handles ∧
        ∀ r, (k, r) ∈ s.released → kind.Has (s'.cache.heap o) r := by
  have hinv : UsersInv kind s := UsersInv.of_run h₀ hrun
  have hc := hinv.cache
  have hheld : ∀ h ∈ s.handles, s.cache.cacheMap h.key = some h.obj :=
    fun h hh => hc.held _ (List.mem_map_of_mem hh)
  have hcount : ∀ k, holdCount (s.handles.map Handle.hold) k =
      s.handles.countP fun h => h.key = k := by
    intro k
    unfold holdCount
    rw [List.countP_map]
    rfl
  refine ⟨hc.usedBytes, ?_, ?_, ?_, ?_, ?_⟩
  · intro k
    refine ⟨?_, hc.sizeMap k, ?_, hc.updatedMap k⟩
    · rw [Option.isSome_iff_exists, List.mem_map]
      constructor
      · rintro ⟨⟨k', o⟩, he, rfl⟩
        exact ⟨o, (hc.cacheMap _ _).mpr he⟩
      · rintro ⟨o, ho⟩
        exact ⟨(k, o), (hc.cacheMap _ _).mp ho, rfl⟩
    · rw [hc.useCountMap]
      split <;> simp_all
  · intro k
    rw [hc.useCountMap, hcount]
    split
    · rfl
    · next hk =>
      have hzero := hc.holdCount_eq_zero (Option.not_isSome_iff_eq_none.mp hk)
      rw [hcount] at hzero
      simp [hzero]
  · intro h hh
    exact (hc.cacheMap _ _).mp (hheld h hh)
  · intro h hh h' hh' hkey
    have := hheld h hh
    rw [hkey, hheld h' hh'] at this
    exact (Option.some.inj this).symm
  · intro u k s' hstep
    obtain ⟨⟨o, c⟩, hget, rfl⟩ := Option.map_eq_some_iff.mp hstep
    refine ⟨o, rfl, ?_⟩
    intro r hr
    change kind.Has (c.heap o) r
    rw [(hc.get hget).2.2]
    exact hinv.released k r hr

end Users

/-! ### A run with an eviction -/

namespace CacheExample

/-- Indexes that are lists of bytes and take one unit of memory for each. -/
def byteList : IndexKind (List Byte) Byte (ℕ × Byte) (List Byte) where
  new _ := []
  space a := a.length
  insert b a := a ++ [b]
  added b a := (a.length, b)
  Has a r := a[r.1]? = some r.2
  serialize a := a
  deserialize a := some a
  deserialize_serialize _ := rfl
  has_insert b a := by simp
  has_mono b a r h := by
    obtain ⟨hlt, -⟩ := List.getElem?_eq_some_iff.mp h
    rw [List.getElem?_append_left hlt]
    exact h

def init : CacheState ℕ (List Byte) (ℕ × Byte) (List Byte) where
  cache :=
    { files := fun _ => none
      heap := fun _ => []
      nextObj := 0
      cacheList := []
      cacheMap := fun _ => none
      useCountMap := fun _ => none
      sizeMap := fun _ => none
      updatedMap := fun _ => none
      usedBytes := 0 }
  handles := []
  released := []

/-- Two users insert into one index. When the second has released, the index is too large for
a cache of one byte: it is written and evicted. -/
def labels : List (CacheLabel ℕ Byte (ℕ × Byte)) :=
  [.get 1 ⟨4, 0⟩, .get 2 ⟨4, 0⟩,
    .insert ⟨1, ⟨4, 0⟩, 0, []⟩ zeroByte,
    .release ⟨1, ⟨4, 0⟩, 0, [(0, zeroByte)]⟩ true,
    .insert ⟨2, ⟨4, 0⟩, 0, []⟩ zeroByte,
    .release ⟨2, ⟨4, 0⟩, 0, [(1, zeroByte)]⟩ true]

end CacheExample

open CacheExample in
theorem cache_coherent_two_users :
    ∃ s, (cacheSystem byteList 1).Run init labels s ∧ s.cache.cacheList = [] ∧
      ((1, zeroByte) ∈ s.released.map Prod.snd) ∧
      ∀ u k s', (cacheSystem byteList 1).step s (.get u k) s' →
        ∃ o, s'.handles = ⟨u, k, o, []⟩ :: s.handles ∧
          ∀ r, (k, r) ∈ s.released → byteList.Has (s'.cache.heap o) r := by
  refine System.exists_run_of_exec (P := fun s => s.cache.cacheList = [] ∧
    (1, zeroByte) ∈ s.released.map Prod.snd) (by decide +kernel) ?_
  rintro s hrun ⟨hempty, hreleased⟩
  have h₀ : cacheInit init := ⟨rfl, rfl, rfl, rfl, rfl, rfl, rfl, rfl⟩
  exact ⟨hempty, hreleased, (cache_coherent h₀ hrun).2.2.2.2.2⟩

end NeurDB.NeurStore
