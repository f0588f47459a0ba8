import NeurDB.Framework.System

/-!
# The capacity of an index

`insert` and `insertMany` of `quantized_hnsw_hnswlib.cpp`, step by step: an id is allocated by one
atomic increment, points are added under a shared lock, which any number of calls hold at a time,
and the index is resized under an exclusive one. The library fails exactly if the index is full.

`insert` compares its id with `max_elements_` and doubles the capacity at most once, `insertMany`
makes room for its points and adds them in a later section. In either case other calls may use up
the room in between, and a call fails (`third_insert_fails`).

It cannot as long as every point is added under an id below `max_elements_`. Ids are allocated
once (`CapacityInv.distinct`), so the points are fewer than `max_elements_` then, and
`insertions_succeed` follows.

There are no queries here, and without them the barrier between queries and insertions never
makes an insertion wait.
-/

namespace NeurDB.NeurStore

open List
open Option (bind_eq_some_iff some)

/-! ### Calls -/

/-- Where a call stands. -/
inductive InsertPoint where
  /-- `insert` has its id. -/
  | insert
  /-- `insert` has left the shared section, its id did not fit. -/
  | late
  | insertMany
  /-- `insertMany` has left the shared section, its points did not fit. -/
  | growing
  /-- `insertMany` has resized the index. -/
  | grown
  /-- Inside the shared section in which points are added. -/
  | adding
  | returned
  | failed
  deriving DecidableEq

/-- A call with vectors from `V`. -/
structure InsertCall (V : Type) where
  args : List V
  /-- What the call has added, under its ids. -/
  added : List (ℕ × V)
  /-- An id that is allocated, with its vector. -/
  held : Option (ℕ × V)
  /-- The vectors without an id. -/
  todo : List V
  point : InsertPoint
  deriving DecidableEq

/-- The vectors of the call that have an id. -/
def InsertCall.owned {V : Type} (c : InsertCall V) : List (ℕ × V) := c.added ++ c.held.toList

structure CapacityState (V : Type) where
  maxElements : ℕ
  nextId : ℕ
  /-- What the library holds. -/
  points : List (ℕ × V)
  calls : List (InsertCall V)

/-- The steps of a call, which is given by its place. -/
inductive CapacityLabel (V : Type) where
  | callInsert (v : V)
  | callInsertMany (vs : List V)
  /-- A shared section begins, with the test that there may be. -/
  | enter (i : ℕ)
  | allocate (i : ℕ)
  | add (i : ℕ)
  | leave (i : ℕ)
  /-- The exclusive section of `insert`. -/
  | insertGrown (i : ℕ)
  /-- The exclusive section of `insertMany`, with the turns of its loop. -/
  | grow (i turns : ℕ)

namespace CapacityState

variable {V : Type}

def move (s : CapacityState V) (i : ℕ) (c : InsertCall V) (point : InsertPoint) : CapacityState V :=
  { s with calls := s.calls.set i { c with point } }

/-- `addPointInternal` into an index of the given size; the call goes on at `point`. -/
def addPoint (s : CapacityState V) (i : ℕ) (c : InsertCall V) (p : ℕ × V) (maxElements : ℕ)
    (point : InsertPoint) : CapacityState V :=
  if s.points.length < maxElements then
    { s with
      maxElements
      points := s.points ++ [p]
      calls := s.calls.set i { c with added := c.added ++ [p], held := none, point } }
  else { s.move i c .failed with maxElements }

/-- `if (id >= max_elements_) resize()`. -/
def resizedFor (s : CapacityState V) (id : ℕ) : ℕ :=
  if s.maxElements ≤ id then s.maxElements * 2 else s.maxElements

/-- Nobody holds the shared lock. -/
def lockFree (s : CapacityState V) : Bool := s.calls.all fun c => c.point ≠ .adding

end CapacityState

variable {V : Type}

open CapacityState in
/-- One step; `none` where the label is not enabled. -/
def capacityStep (s : CapacityState V) : CapacityLabel V → Option (CapacityState V)
  | .callInsert v => some { s with
      nextId := s.nextId + 1
      calls := s.calls ++ [⟨[v], [], some (s.nextId, v), [], .insert⟩] }
  | .callInsertMany vs => some { s with calls := s.calls ++ [⟨vs, [], none, vs, .insertMany⟩] }
  | .enter i => s.calls[i]?.bind fun c =>
    match c.point, c.held with
    | .insert, some p => some (s.move i c (if p.1 < s.maxElements then .adding else .late))
    | .insertMany, _ => some (s.move i c
        (if s.points.length + c.todo.length ≤ s.maxElements then .adding else .growing))
    -- the second time there is no test
    | .grown, _ => some (s.move i c .adding)
    | _, _ => none
  | .allocate i => s.calls[i]?.bind fun c =>
    match c.point, c.held, c.todo with
    | .adding, none, v :: vs => some { s with
        nextId := s.nextId + 1
        calls := s.calls.set i { c with held := some (s.nextId, v), todo := vs } }
    | _, _, _ => none
  | .add i => s.calls[i]?.bind fun c =>
    match c.point, c.held with
    | .adding, some p => some (s.addPoint i c p s.maxElements .adding)
    | _, _ => none
  | .leave i => s.calls[i]?.bind fun c =>
    match c.point, c.held, c.todo with
    | .adding, none, [] => some (s.move i c .returned)
    | _, _, _ => none
  | .insertGrown i => s.calls[i]?.bind fun c =>
    match c.point, c.held with
    | .late, some p =>
      if s.lockFree then some (s.addPoint i c p (s.resizedFor p.1) .returned) else none
    | _, _ => none
  | .grow i turns => s.calls[i]?.bind fun c =>
    let required := s.points.length + c.todo.length
    if c.point = .growing ∧ s.lockFree ∧ (∀ j < turns, s.maxElements * 2 ^ j < required) ∧
        required ≤ s.maxElements * 2 ^ turns then
      some { s.move i c .grown with maxElements := s.maxElements * 2 ^ turns }
    else none

/-- An index without elements that nobody uses. -/
def newIndex (capacity : ℕ) : CapacityState V := ⟨capacity, 0, [], []⟩

def capacitySystem (V : Type) (capacity : ℕ) : System (CapacityState V) (CapacityLabel V) :=
  .ofFun (· = newIndex capacity) capacityStep

/-- **The condition on the steps**: the id of a point that is added is below `max_elements_`, as it
is then. -/
def CapacityState.below (s : CapacityState V) : CapacityLabel V → Bool
  | .add i => (s.calls[i]?.bind InsertCall.held).all fun p => p.1 < s.maxElements
  | .insertGrown i => (s.calls[i]?.bind InsertCall.held).all fun p => p.1 < s.resizedFor p.1
  | _ => true

/-! ### What a step does -/

/-- What holds of every call. -/
structure InsertCall.Ok (c : InsertCall V) : Prop where
  vectors : c.owned.map Prod.snd ++ c.todo = c.args
  single : c.point = .insert ∨ c.point = .late → (∃ p, c.held = some p) ∧ c.todo = []
  returned : c.point = .returned → c.held = none ∧ c.todo = []

/-- A step is a step of one call, from `before` to `c`: the ids of `new` are allocated and `stored`
is added. A call that begins is nowhere before. -/
structure CallMoves (s : CapacityState V) (l : CapacityLabel V) (s' : CapacityState V)
    (before : Option (InsertCall V)) (c : InsertCall V) (rest : List (InsertCall V))
    (new stored : List (ℕ × V)) : Prop where
  calls : s.calls.Perm (before.toList ++ rest)
  calls' : s'.calls.Perm (c :: rest)
  ok : (∀ c ∈ before, c.Ok) → c.Ok
  points : s'.points = s.points ++ stored := by simp
  added : c.added = before.toList.flatMap InsertCall.added ++ stored := by simp
  owned : c.owned = before.toList.flatMap InsertCall.owned ++ new := by simp [InsertCall.owned]
  ids : new = [] ∧ s'.nextId = s.nextId ∨
    (∃ v, new = [(s.nextId, v)]) ∧ s'.nextId = s.nextId + 1 := by simp
  max_le : s.maxElements ≤ s'.maxElements := by simp
  below : s.below l = true → ∀ p ∈ stored, p.1 < s'.maxElements := by simp
  /-- A call fails with a vector in its hand, where the index is full. -/
  failed : c.point = .failed → s'.maxElements ≤ s.points.length ∧
    ∃ c₀ ∈ before, ∃ p ∈ c₀.held, s.below l = true → p.1 < s'.maxElements := by simp

section Moves

variable {s s' : CapacityState V} {l : CapacityLabel V} {i : ℕ} {c : InsertCall V}

theorem exists_rest (h : s.calls[i]? = some c) :
    ∃ rest, s.calls.Perm (c :: rest) ∧ ∀ c', (s.calls.set i c').Perm (c' :: rest) := by
  obtain ⟨hi, rfl⟩ := List.getElem?_eq_some_iff.mp h
  exact ⟨s.calls.eraseIdx i, (getElem_cons_eraseIdx_perm hi).symm,
    fun c' => set_perm_cons_eraseIdx hi c'⟩

/-- A call goes to another point, and perhaps the index grows. -/
theorem CallMoves.move {point : InsertPoint} {maxElements : ℕ} (h : s.calls[i]? = some c)
    (hmax : s.maxElements ≤ maxElements) (hfailed : point ≠ .failed)
    (hok : c.Ok → InsertCall.Ok { c with point }) :
    ∃ before c' rest new stored,
      CallMoves s l { s.move i c point with maxElements } before c' rest new stored := by
  obtain ⟨rest, hcalls, hset⟩ := exists_rest h
  exact ⟨some c, { c with point }, rest, [], [],
    { calls := hcalls
      calls' := hset _
      ok := fun hc => hok (hc c rfl)
      points := (append_nil _).symm
      ids := .inl ⟨rfl, rfl⟩
      max_le := hmax
      failed := fun hp => absurd hp hfailed }⟩

/-- A call adds the vector it holds, or fails with it. -/
theorem CallMoves.addPoint {p : ℕ × V} {point : InsertPoint} {maxElements : ℕ}
    (h : s.calls[i]? = some c) (hp : c.held = some p) (hmax : s.maxElements ≤ maxElements)
    (hbelow : s.below l = true → p.1 < maxElements) (hpoint : point = .adding ∨
      point = .returned ∧ c.point = .late) :
    ∃ before c' rest new stored,
      CallMoves s l (s.addPoint i c p maxElements point) before c' rest new stored := by
  obtain ⟨rest, hcalls, hset⟩ := exists_rest h
  unfold CapacityState.addPoint
  split
  · refine ⟨some c, { c with added := c.added ++ [p], held := none, point }, rest, [], [p],
      { calls := hcalls
        calls' := hset _
        ok := fun hc => ?_
        owned := by simp [InsertCall.owned, hp]
        max_le := hmax
        below := fun hb q hq => by rw [mem_singleton.mp hq]; exact hbelow hb
        failed := ?_ }⟩
    · obtain ⟨hvectors, hsingle, -⟩ := hc c rfl
      refine ⟨?_, ?_, ?_⟩
      · simpa [InsertCall.owned, hp] using hvectors
      · rcases hpoint with rfl | ⟨rfl, -⟩ <;> simp
      · intro hreturned
        rcases hpoint with rfl | ⟨rfl, hlate⟩
        · cases hreturned
        · exact ⟨rfl, (hsingle (.inr hlate)).2⟩
    · rcases hpoint with rfl | ⟨rfl, -⟩ <;> simp
  · next hfull =>
    refine ⟨some c, { c with point := .failed }, rest, [], [],
      { calls := hcalls
        calls' := hset _
        ok := fun hc => ⟨(hc c rfl).vectors, by simp, by simp⟩
        points := (append_nil _).symm
        ids := .inl ⟨rfl, rfl⟩
        max_le := hmax
        failed := fun _ => ⟨not_lt.mp hfull, c, rfl, p, hp, hbelow⟩ }⟩

theorem CapacityState.le_resizedFor (s : CapacityState V) (id : ℕ) :
    s.maxElements ≤ s.resizedFor id := by
  unfold CapacityState.resizedFor
  split <;> omega

/-- **Every step is a step of one call.** -/
theorem CallMoves.of_step (h : capacityStep s l = some s') :
    ∃ before c rest new stored, CallMoves s l s' before c rest new stored := by
  cases l with
  | callInsert v =>
    obtain rfl := some.inj h
    exact ⟨none, ⟨[v], [], some (s.nextId, v), [], .insert⟩, s.calls, [(s.nextId, v)], [],
      { calls := .rfl
        calls' := perm_append_comm
        ok := fun _ => ⟨rfl, fun _ => ⟨⟨_, rfl⟩, rfl⟩, by simp⟩ }⟩
  | callInsertMany vs =>
    obtain rfl := some.inj h
    exact ⟨none, ⟨vs, [], none, vs, .insertMany⟩, s.calls, [], [],
      { calls := .rfl
        calls' := perm_append_comm
        ok := fun _ => ⟨rfl, by simp, by simp⟩ }⟩
  | enter i =>
    obtain ⟨c, hc, h⟩ := bind_eq_some_iff.mp h
    split at h
    · next p hpoint hheld =>
      obtain rfl := some.inj h
      refine CallMoves.move hc le_rfl (by split <;> simp) fun hok => ⟨hok.vectors, fun _ => ?_, ?_⟩
      · exact hok.single (.inl hpoint)
      · split <;> simp
    · obtain rfl := some.inj h
      refine CallMoves.move hc le_rfl (by split <;> simp) fun hok => ⟨hok.vectors, ?_, ?_⟩ <;>
        split <;> simp
    · obtain rfl := some.inj h
      exact CallMoves.move hc le_rfl (by simp) fun hok => ⟨hok.vectors, by simp, by simp⟩
    · cases h
  | allocate i =>
    obtain ⟨c, hc, h⟩ := bind_eq_some_iff.mp h
    split at h
    · next v vs hpoint hheld htodo =>
      obtain rfl := some.inj h
      obtain ⟨rest, hcalls, hset⟩ := exists_rest hc
      refine ⟨some c, { c with held := some (s.nextId, v), todo := vs }, rest, [(s.nextId, v)], [],
        { calls := hcalls
          calls' := hset _
          ok := fun hok => ⟨?_, by simp [hpoint], by simp [hpoint]⟩
          owned := by simp [InsertCall.owned, hheld]
          failed := by simp [hpoint] }⟩
      simpa [InsertCall.owned, hheld, htodo] using (hok c rfl).vectors
    · cases h
  | add i =>
    obtain ⟨c, hc, h⟩ := bind_eq_some_iff.mp h
    split at h
    · next p hpoint hheld =>
      obtain rfl := some.inj h
      refine CallMoves.addPoint hc hheld le_rfl ?_ (.inl rfl)
      simp [CapacityState.below, hc, hheld]
    · cases h
  | leave i =>
    obtain ⟨c, hc, h⟩ := bind_eq_some_iff.mp h
    split at h
    · next hpoint hheld htodo =>
      obtain rfl := some.inj h
      exact CallMoves.move hc le_rfl (by simp)
        fun hok => ⟨hok.vectors, by simp, fun _ => ⟨hheld, htodo⟩⟩
    · cases h
  | insertGrown i =>
    obtain ⟨c, hc, h⟩ := bind_eq_some_iff.mp h
    split at h
    · next p hpoint hheld =>
      obtain ⟨-, h⟩ := Option.ite_none_right_eq_some.mp h
      obtain rfl := some.inj h
      refine CallMoves.addPoint hc hheld (s.le_resizedFor p.1) ?_ (.inr ⟨rfl, hpoint⟩)
      simp [CapacityState.below, hc, hheld]
    · cases h
  | grow i turns =>
    obtain ⟨c, hc, h⟩ := bind_eq_some_iff.mp h
    obtain ⟨-, h⟩ := Option.ite_none_right_eq_some.mp h
    obtain rfl := some.inj h
    exact CallMoves.move hc (Nat.le_mul_of_pos_right _ (Nat.two_pow_pos turns)) (by simp)
      fun hok => ⟨hok.vectors, by simp, by simp⟩

end Moves

/-! ### Ids -/

/-- Every id has been allocated once, and the index holds what the calls have added. -/
structure CapacityInv (s : CapacityState V) : Prop where
  contents : s.points.Perm (s.calls.flatMap InsertCall.added)
  distinct : ((s.calls.flatMap InsertCall.owned).map Prod.fst).Nodup
  allocated : ∀ p ∈ s.calls.flatMap InsertCall.owned, p.1 < s.nextId
  calls : ∀ c ∈ s.calls, c.Ok

section Invariant

variable {s s' : CapacityState V} {l : CapacityLabel V} {before : Option (InsertCall V)}
  {c : InsertCall V} {rest : List (InsertCall V)} {new stored : List (ℕ × V)}

/-- What the calls own or have added grows by what the step says. -/
theorem flatMap_perm {f : InsertCall V → List (ℕ × V)} {more : List (ℕ × V)}
    (hcalls : s.calls.Perm (before.toList ++ rest)) (hcalls' : s'.calls.Perm (c :: rest))
    (h : f c = before.toList.flatMap f ++ more) :
    (s'.calls.flatMap f).Perm (s.calls.flatMap f ++ more) := by
  have h₀ := (hcalls.flatMap_right f).append_right more
  have h₁ := hcalls'.flatMap_right f
  rw [flatMap_append] at h₀
  rw [flatMap_cons, h] at h₁
  refine h₁.trans (Perm.trans ?_ h₀.symm)
  rw [append_assoc, append_assoc]
  exact perm_append_comm.append_left _

theorem CapacityInv.step (h : CapacityInv s) (hm : CallMoves s l s' before c rest new stored) :
    CapacityInv s' := by
  have howned := flatMap_perm hm.calls hm.calls' hm.owned
  refine ⟨?_, ?_, ?_, ?_⟩
  · rw [hm.points]
    exact (h.contents.append_right stored).trans (flatMap_perm hm.calls hm.calls' hm.added).symm
  · rw [(howned.map Prod.fst).nodup_iff, map_append]
    rcases hm.ids with ⟨rfl, -⟩ | ⟨⟨v, rfl⟩, -⟩
    · simpa using h.distinct
    · refine nodup_append'.mpr ⟨h.distinct, nodup_singleton _, ?_⟩
      intro id hid hnew
      obtain ⟨p, hp, rfl⟩ := mem_map.mp hid
      exact absurd (mem_singleton.mp hnew) (h.allocated p hp).ne
  · intro p hp
    rcases mem_append.mp (howned.mem_iff.mp hp) with hp | hp
    · have hlt := h.allocated p hp
      rcases hm.ids with ⟨-, hid⟩ | ⟨-, hid⟩ <;> omega
    · rcases hm.ids with ⟨rfl, -⟩ | ⟨⟨v, rfl⟩, hid⟩
      · cases hp
      · rw [mem_singleton.mp hp, hid]
        exact Nat.lt_succ_self _
  · intro c' hc'
    have hold : ∀ c₀ ∈ before.toList ++ rest, c₀.Ok :=
      fun c₀ hc₀ => h.calls c₀ (hm.calls.mem_iff.mpr hc₀)
    rcases mem_cons.mp (hm.calls'.mem_iff.mp hc') with rfl | hc'
    · exact hm.ok fun c₀ hc₀ => hold c₀ (mem_append_left _ (Option.mem_toList.mpr hc₀))
    · exact hold c' (mem_append_right _ hc')

/-- In a run that meets the condition, every point has an id below the capacity. -/
structure RoomInv (s : CapacityState V) : Prop extends CapacityInv s where
  below : ∀ p ∈ s.points, p.1 < s.maxElements
  not_failed : ∀ c ∈ s.calls, c.point ≠ .failed

/-- **There is room**: a vector that is held is not among the points, and all their ids are
different numbers below the capacity. -/
theorem RoomInv.length_lt (h : RoomInv s) {maxElements : ℕ} (hmax : s.maxElements ≤ maxElements)
    (hc : c ∈ s.calls) {p : ℕ × V} (hp : p ∈ c.held) (hlt : p.1 < maxElements) :
    s.points.length < maxElements := by
  have hnodup : (p.1 :: s.points.map Prod.fst).Nodup := by
    have hperm : (s.calls.flatMap InsertCall.owned).Perm
        (s.calls.flatMap InsertCall.added ++ s.calls.flatMap fun c => c.held.toList) :=
      (flatMap_append_perm _ _ _).symm
    have hids := ((hperm.trans (h.contents.symm.append_right _)).map Prod.fst).nodup_iff.mp
      h.distinct
    rw [map_append, nodup_append'] at hids
    refine nodup_cons.mpr ⟨fun hmem => hids.2.2 hmem ?_, hids.1⟩
    exact mem_map_of_mem (mem_flatMap.mpr ⟨c, hc, Option.mem_toList.mpr hp⟩)
  have hsub : p.1 :: s.points.map Prod.fst ⊆ range maxElements := by
    refine cons_subset.mpr ⟨mem_range.mpr hlt, fun id hid => ?_⟩
    obtain ⟨q, hq, rfl⟩ := mem_map.mp hid
    exact mem_range.mpr ((h.below q hq).trans_le hmax)
  have hlen := (hnodup.subperm hsub).length_le
  rwa [length_cons, length_map, length_range] at hlen

theorem RoomInv.step (h : RoomInv s) (hm : CallMoves s l s' before c rest new stored)
    (hbelow : s.below l = true) : RoomInv s' := by
  refine ⟨h.toCapacityInv.step hm, ?_, ?_⟩
  · rw [hm.points]
    exact forall_mem_append.mpr
      ⟨fun p hp => (h.below p hp).trans_le hm.max_le, hm.below hbelow⟩
  · intro c' hc'
    rcases mem_cons.mp (hm.calls'.mem_iff.mp hc') with rfl | hc'
    · intro hfailed
      obtain ⟨hfull, c₀, hc₀, p, hp, hlt⟩ := hm.failed hfailed
      have hmem : c₀ ∈ s.calls :=
        hm.calls.mem_iff.mpr (mem_append_left _ (Option.mem_toList.mpr hc₀))
      exact absurd (h.length_lt hm.max_le hmem hp (hlt hbelow)) (not_lt.mpr hfull)
    · exact h.not_failed c' (hm.calls.mem_iff.mpr (mem_append_right _ hc'))

/-! ### Waiting -/

/-- The step is one of a call that has begun. -/
def CapacityLabel.continues : CapacityLabel V → Bool
  | .callInsert _ | .callInsertMany _ => false
  | _ => true

theorem exists_turns {maxElements : ℕ} (hpos : 0 < maxElements) (required : ℕ) :
    ∃ turns, (∀ j < turns, maxElements * 2 ^ j < required) ∧
      required ≤ maxElements * 2 ^ turns := by
  have hex : ∃ turns, required ≤ maxElements * 2 ^ turns :=
    ⟨required, Nat.lt_two_pow_self.le.trans (Nat.le_mul_of_pos_left _ hpos)⟩
  exact ⟨Nat.find hex, fun j hj => not_le.mp (Nat.find_min hex hj), Nat.find_spec hex⟩

/-- **No deadlock**: while a call is in progress, a call can go on. Whoever adds points can, and if
nobody does, both locks are free. -/
theorem CapacityInv.continues (h : CapacityInv s) (hpos : 0 < s.maxElements) (hc : c ∈ s.calls)
    (hreturned : c.point ≠ .returned) (hfailed : c.point ≠ .failed) :
    ∃ l, l.continues = true ∧ (capacityStep s l).isSome := by
  by_cases hlock : s.lockFree = true
  · obtain ⟨i, hi⟩ := mem_iff_getElem?.mp hc
    cases hpoint : c.point with
    | insert =>
      obtain ⟨⟨p, hp⟩, -⟩ := (h.calls c hc).single (.inl hpoint)
      exact ⟨.enter i, rfl, by simp [capacityStep, hi, hpoint, hp]⟩
    | late =>
      obtain ⟨⟨p, hp⟩, -⟩ := (h.calls c hc).single (.inr hpoint)
      exact ⟨.insertGrown i, rfl, by simp [capacityStep, hi, hpoint, hp, hlock]⟩
    | insertMany | grown => exact ⟨.enter i, rfl, by simp [capacityStep, hi, hpoint]⟩
    | growing =>
      obtain ⟨turns, hturns⟩ := exists_turns hpos (s.points.length + c.todo.length)
      refine ⟨.grow i turns, rfl, ?_⟩
      rw [capacityStep, hi, Option.bind_some, if_pos ⟨hpoint, hlock, hturns⟩]
      rfl
    | adding => exact absurd hpoint (by simpa using all_eq_true.mp hlock c hc)
    | returned => exact absurd hpoint hreturned
    | failed => exact absurd hpoint hfailed
  · obtain ⟨c', hc', hpoint⟩ : ∃ c' ∈ s.calls, c'.point = .adding := by
      simpa [CapacityState.lockFree] using hlock
    obtain ⟨i, hi⟩ := mem_iff_getElem?.mp hc'
    cases hheld : c'.held with
    | some p => exact ⟨.add i, rfl, by simp [capacityStep, hi, hpoint, hheld]⟩
    | none =>
      cases htodo : c'.todo with
      | nil => exact ⟨.leave i, rfl, by simp [capacityStep, hi, hpoint, hheld, htodo]⟩
      | cons v vs => exact ⟨.allocate i, rfl, by simp [capacityStep, hi, hpoint, hheld, htodo]⟩

end Invariant

/-- **Insertions succeed as long as ids stay below the capacity.** In every run from an empty index
in which each point is added under an id below `max_elements_`: no call fails, the calls have
different ids, the index holds what the calls have added, those that have returned have added all
their vectors, and while one has not, a call can go on. -/
theorem insertions_succeed {capacity : ℕ} {ls : List (CapacityLabel V)} {s : CapacityState V}
    (hcapacity : 0 < capacity)
    (hrun : ((capacitySystem V capacity).guard fun s l => s.below l = true).Run
      (newIndex capacity) ls s) :
    (∀ c ∈ s.calls, c.point ≠ .failed) ∧
    ((s.calls.flatMap InsertCall.added).map Prod.fst).Nodup ∧
    s.points.Perm (s.calls.flatMap InsertCall.added) ∧
    (∀ c ∈ s.calls, c.point = .returned → c.added.map Prod.snd = c.args) ∧
    ∀ c ∈ s.calls, c.point ≠ .returned → ∃ l, l.continues = true ∧ (capacityStep s l).isSome := by
  have hinit : RoomInv (newIndex capacity : CapacityState V) := by
    refine ⟨⟨.rfl, nodup_nil, ?_, ?_⟩, ?_, ?_⟩ <;> simp [newIndex]
  obtain ⟨hinv, hmax⟩ : RoomInv s ∧ capacity ≤ s.maxElements := by
    refine hrun.invariant (I := fun s => RoomInv s ∧ capacity ≤ s.maxElements) ⟨hinit, le_rfl⟩ ?_
    rintro s l s' ⟨h, hmax⟩ ⟨hstep, hbelow⟩
    obtain ⟨before, c, rest, new, stored, hm⟩ := CallMoves.of_step hstep
    exact ⟨h.step hm hbelow, hmax.trans hm.max_le⟩
  refine ⟨hinv.not_failed, ?_, hinv.contents, ?_, ?_⟩
  · -- what a call has added it owns
    refine hinv.distinct.sublist (Sublist.map _ ?_)
    exact Sublist.flatMap_right _ fun c _ => sublist_append_left _ _
  · intro c hc hreturned
    obtain ⟨hheld, htodo⟩ := (hinv.calls c hc).returned hreturned
    have hvectors := (hinv.calls c hc).vectors
    rwa [InsertCall.owned, hheld, htodo, append_nil, Option.toList_none, append_nil] at hvectors
  · intro c hc hreturned
    exact hinv.continues (hcapacity.trans_le hmax) hc hreturned (hinv.not_failed c hc)

/-- At capacity 1: two insertions, of which the second doubles the capacity, and then two vectors
at once. -/
def threeCalls : List (CapacityLabel Char) :=
  [.callInsert 'a', .enter 0, .add 0, .leave 0, .callInsert 'b', .enter 1, .insertGrown 1,
    .callInsertMany ['c', 'd'], .enter 2, .grow 2 1, .enter 2, .allocate 2, .add 2, .allocate 2,
    .add 2, .leave 2]

theorem insertions_succeed_three_calls : ∃ s,
    ((capacitySystem Char 1).guard fun s l => s.below l = true).Run (newIndex 1) threeCalls s ∧
      (∀ c ∈ s.calls, c.point = .returned) ∧ s.points = [(0, 'a'), (1, 'b'), (2, 'c'), (3, 'd')] ∧
      ∀ c ∈ s.calls, c.point = .returned → c.added.map Prod.snd = c.args :=
  System.exists_guard_run_of_exec (P := fun s => (∀ c ∈ s.calls, c.point = .returned) ∧
    s.points = [(0, 'a'), (1, 'b'), (2, 'c'), (3, 'd')]) (by decide +kernel)
    fun _ hrun ⟨hreturned, hpoints⟩ =>
      ⟨hreturned, hpoints, (insertions_succeed Nat.one_pos hrun).2.2.2.1⟩

/-- **Three insertions at capacity 1.** The one with the last id comes first and doubles the
capacity once; the next one fills the index, and the first one fails, though its id is 0. -/
theorem third_insert_fails : ∃ s, (capacitySystem Char 1).Run (newIndex 1)
    [.callInsert 'a', .callInsert 'b', .callInsert 'c', .enter 2, .insertGrown 2, .enter 1, .add 1,
      .enter 0, .add 0] s ∧
    s.points = [(2, 'c'), (1, 'b')] ∧ ∃ c ∈ s.calls, c.args = ['a'] ∧ c.point = .failed :=
  System.exists_run_of_exec (by decide +kernel) fun _ _ hs => hs

end NeurDB.NeurStore
