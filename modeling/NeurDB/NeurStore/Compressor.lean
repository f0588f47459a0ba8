import NeurDB.NeurStore.CacheEviction
import NeurDB.NeurStore.SimilarityIndex

/-!
# Base tensors of compressed models

`Compressor::compress` stores a tensor as the delta to a base tensor. It works in two phases.

* In a parallel loop, each tensor is quantized and looked up in an index. The base is the
  similar tensor found there, or the quantized tensor itself; then its insertion is put off and
  the packet has the id `-1` for the time being.
* After the loop the insertions are made, index by index, and each packet gets the id under
  which its base was inserted.

Any number of calls run over one index cache, and their steps interleave in any way; so do the
loop bodies of one call. The order in which the insertions of one index are made is left open,
and so are the answers of routers and of similarity queries. A step that throws is not enabled:
its call never finishes.
-/

namespace NeurDB.NeurStore

open Function List
open Option (bind_eq_some_iff map_eq_some_iff some)

/-! ### Tensors and packets -/

/-- The number of elements of a shape, in `int` arithmetic. -/
def shapeDimension (shape : List (BitVec 32)) : ℤ := (shape.foldl (· * ·) 1).toInt

structure TensorF64 where
  shape : List (BitVec 32)
  tensor : List Double
  deriving DecidableEq, Repr

def TensorF64.getDimension (t : TensorF64) : ℤ := shapeDimension t.shape

/-- A `DeltaQuantPacket`. The quantized delta and its parameters are of any type. -/
structure DeltaPacket (δ : Type) where
  shape : List (BitVec 32)
  delta : δ
  baseTensorId : ℤ
  indexId : ℤ
  deriving DecidableEq, Repr

def DeltaPacket.getDimension {δ : Type} (p : DeltaPacket δ) : ℤ := shapeDimension p.shape

/-- The index a packet is decompressed with. -/
def DeltaPacket.key {δ : Type} (p : DeltaPacket δ) : IndexKey := ⟨p.getDimension, p.indexId⟩

/-- The computations of a compressor, in double arithmetic. Its tolerance is a part of them, and is
the same for all calls. -/
structure CompressorOps (δ : Type) extends Quantizer where
  /-- `DeltaQuantCompress::compress`, of the base and the tensor. -/
  deltaCompress : List Double → List Double → δ
  selectAsRepresentative : List Double → List Double → Bool

structure PendingInsertion where
  dimension : ℤ
  indexId : ℤ
  quantized : QuantizedTensor
  tensorSequenceNum : ℕ
  deriving DecidableEq, Repr

def PendingInsertion.key (p : PendingInsertion) : IndexKey := ⟨p.dimension, p.indexId⟩

/-! ### The algorithm -/

/-- Who uses an index: a loop body, the insertion phase of a call, or a call that only reads. -/
inductive IndexUser where
  | body (call i : ℕ)
  | inserter (call : ℕ)
  | reader (n : ℕ)
  deriving DecidableEq, Repr

/-- An index in use. -/
abbrev IndexHandle := Handle IndexUser (ℤ × List Byte)

/-- The cache of the indexes, with its users. -/
abbrev IndexStore (φ : Type) := CacheState IndexUser HnswIndex (ℤ × List Byte) φ

/-- A call of the cache. -/
abbrev IndexCall := CacheLabel IndexUser QuantizedTensor (ℤ × List Byte)

/-- A finished packet with the tensor and the base it was computed from. -/
structure Entry (δ : Type) where
  tensor : TensorF64
  base : List Double
  packet : DeltaPacket δ

/-- Where the loop body of a tensor is. -/
inductive Body (δ : Type) where
  | start
  | routed (t : TensorF64) (indexId : ℤ)
  | got (t : TensorF64) (indexId : ℤ) (h : IndexHandle)
  | computed (t : TensorF64) (indexId : ℤ) (h : IndexHandle) (representativeId : ℤ)
      (base : List Double)
  | done (e : Entry δ)

def Body.finished? {δ : Type} : Body δ → Option (Entry δ)
  | .done e => some e
  | _ => none

/-- A call of `compress`. -/
structure Call (δ : Type) where
  tensors : List TensorF64
  bodies : ℕ → Body δ
  pending : List PendingInsertion
  /-- The index the insertion phase is at. -/
  current : Option IndexHandle

def Call.AllDone {δ : Type} (call : Call δ) : Prop :=
  ∀ i < call.tensors.length, (call.bodies i).finished?.isSome

instance {δ : Type} (call : Call δ) : Decidable call.AllDone :=
  inferInstanceAs (Decidable (∀ i < call.tensors.length, _))

/-- The index cache, the calls that run, and the pages of those that have finished. -/
structure CompressState (δ φ : Type) where
  store : IndexStore φ
  calls : ℕ → Option (Call δ)
  pages : List (List (Entry δ))

def CompressState.setCall {δ φ : Type} (s : CompressState δ φ) (c : ℕ) (call : Call δ) :
    CompressState δ φ :=
  { s with calls := update s.calls c (some call) }

inductive CompressLabel where
  | start (c : ℕ) (tensors : List TensorF64)
  | route (c i : ℕ) (indexId : ℤ)
  | get (c i : ℕ)
  | compressTensor (c i : ℕ) (answer : ℤ)
  | release (c i : ℕ)
  | getIndex (c : ℕ) (k : IndexKey)
  | insert (c : ℕ) (p : PendingInsertion)
  | releaseIndex (c : ℕ)
  | finish (c : ℕ)
  | readerGet (n : ℕ) (k : IndexKey)
  | readerRelease (h : IndexHandle)
  | clearCache

section Compress

variable {δ φ : Type} (ops : CompressorOps δ) (fmt : IndexFormat φ) (maxBytes : ℤ)

/-- A step of a user of the cache, with the handle that is in front afterwards. -/
def useIndex (st : IndexStore φ) (l : IndexCall) : Option (IndexStore φ × IndexHandle) :=
  (cacheStep (hnswKind fmt) maxBytes st l).bind fun st' => st'.handles.head?.map fun h => (st', h)

/-- The representative, the base, and whether the quantized tensor is to be inserted. It throws
if the tensor has not the dimension of the index, or if nothing is stored under the answer of
the query. -/
def chooseBase (t : TensorF64) (index : HnswIndex) (answer : ℤ) :
    Option (ℤ × List Double × Option QuantizedTensor) :=
  let q := ops.quantize t.tensor
  if (q.tensor.length : ℤ) = index.dimension then
    -- tensors with one element are always inserted
    let representativeId := if t.getDimension = 1 then -1 else answer
    if representativeId = -1 then some (-1, ops.dequantize q, some q)
    else
      (index.retrieve ops.toQuantizer representativeId).map fun base =>
        if ops.selectAsRepresentative base t.tensor then (-1, ops.dequantize q, some q)
        else (representativeId, base, none)
  else none

/-- The packet of a tensor, when its body ends. -/
def makeEntry (t : TensorF64) (indexId representativeId : ℤ) (base : List Double) : Entry δ where
  tensor := t
  base := base
  packet := ⟨t.shape, ops.deltaCompress base t.tensor, representativeId, indexId⟩

/-- `setBaseTensorId` on the packet of a body. -/
def Body.setBaseTensorId {δ : Type} (id : ℤ) : Body δ → Body δ
  | .done e => .done { e with packet := { e.packet with baseTensorId := id } }
  | b => b

/-- One step of a loop body. -/
def bodyStep (s : CompressState δ φ) (c i : ℕ) (call : Call δ) :
    Body δ → CompressLabel → Option (CompressState δ φ)
  | .start, .route _ _ indexId =>
    call.tensors[i]?.bind fun t =>
      -- there is no router for an empty tensor
      if 0 < t.getDimension then
        some (s.setCall c { call with bodies := update call.bodies i (.routed t indexId) })
      else none
  | .routed t indexId, .get _ _ =>
    (useIndex fmt maxBytes s.store (.get (.body c i) ⟨t.getDimension, indexId⟩)).map
      fun (st, h) => { s with store := st }.setCall c
        { call with bodies := update call.bodies i (.got t indexId h) }
  | .got t indexId h, .compressTensor _ _ answer =>
    (chooseBase ops t (s.store.cache.heap h.obj) answer).map fun (representativeId, base, ins) =>
      s.setCall c
        { call with
          bodies := update call.bodies i (.computed t indexId h representativeId base)
          pending := call.pending ++
            (ins.map fun q => PendingInsertion.mk t.getDimension indexId q i).toList }
  | .computed t indexId h representativeId base, .release _ _ =>
    (cacheStep (hnswKind fmt) maxBytes s.store (.release h false)).map fun st =>
      { s with store := st }.setCall c
        { call with
          bodies := update call.bodies i
            (.done (makeEntry ops t indexId representativeId base)) }
  | _, _ => none

/-- One step of the phase after the loop. -/
def insertionStep (s : CompressState δ φ) (c : ℕ) (call : Call δ) :
    Option IndexHandle → CompressLabel → Option (CompressState δ φ)
  | none, .getIndex _ k =>
    if ∃ p ∈ call.pending, p.key = k then
      (useIndex fmt maxBytes s.store (.get (.inserter c) k)).map fun (st, h) =>
        { s with store := st }.setCall c { call with current := some h }
    else none
  | some h, .insert _ p =>
    if p ∈ call.pending ∧ p.key = h.key ∧ (s.store.cache.heap h.obj).Accepts p.quantized then
      (useIndex fmt maxBytes s.store (.insert h p.quantized)).map fun (st, h') =>
        let id : ℤ := (s.store.cache.heap h.obj).nextId
        { s with store := st }.setCall c
          { call with
            bodies := update call.bodies p.tensorSequenceNum
              ((call.bodies p.tensorSequenceNum).setBaseTensorId id)
            pending := call.pending.erase p
            current := some h' }
    else none
  | some h, .releaseIndex _ =>
    if ∃ p ∈ call.pending, p.key = h.key then none
    else
      (cacheStep (hnswKind fmt) maxBytes s.store (.release h true)).map fun st =>
        { s with store := st }.setCall c { call with current := none }
  | none, .finish _ =>
    if call.pending = [] then
      some
        { s with
          calls := update s.calls c none
          pages := s.pages ++
            [(List.range call.tensors.length).filterMap fun i => (call.bodies i).finished?] }
    else none
  | _, _ => none

def compressStep (s : CompressState δ φ) (l : CompressLabel) : Option (CompressState δ φ) :=
  match l with
  | .start c tensors =>
    if s.calls c = none then some (s.setCall c ⟨tensors, fun _ => .start, [], none⟩) else none
  | .route c i _ | .get c i | .compressTensor c i _ | .release c i =>
    (s.calls c).bind fun call => bodyStep ops fmt maxBytes s c i call (call.bodies i) l
  | .getIndex c _ | .insert c _ | .releaseIndex c | .finish c =>
    (s.calls c).bind fun call =>
      -- the parallel loop ends with a barrier
      if call.AllDone then insertionStep fmt maxBytes s c call call.current l else none
  | .readerGet n k =>
    (cacheStep (hnswKind fmt) maxBytes s.store (.get (.reader n) k)).map fun st =>
      { s with store := st }
  | .readerRelease h =>
    match h.user with
    | .reader _ =>
      (cacheStep (hnswKind fmt) maxBytes s.store (.release h false)).map fun st =>
        { s with store := st }
    | _ => none
  | .clearCache =>
    (cacheStep (hnswKind fmt) maxBytes s.store .clearCache).map fun st => { s with store := st }

/-- Calls of `compress` over an index cache that starts with any files. -/
def compressSystem : System (CompressState δ φ) CompressLabel :=
  .ofFun (fun s => cacheInit s.store ∧ (s.calls = fun _ => none) ∧ s.pages = [])
    (compressStep ops fmt maxBytes)

end Compress

theorem update_some_iff {α β : Type} [DecidableEq α] {f : α → Option β} {a a' : α} {b b' : β} :
    update f a (some b) a' = some b' ↔ (a' = a ∧ b' = b) ∨ (a' ≠ a ∧ f a' = some b') := by
  by_cases h : a' = a
  · subst h
    simp [eq_comm]
  · simp [h]

theorem update_none_iff {α β : Type} [DecidableEq α] {f : α → Option β} {a a' : α} {b' : β} :
    update f a none a' = some b' ↔ a' ≠ a ∧ f a' = some b' := by
  by_cases h : a' = a
  · subst h
    simp
  · simp [h]

/-! ### What a step can do -/

/-- A call of the cache by a reader. -/
def ReaderCall (n : ℕ) : IndexCall → Prop
  | .get u _ => u = .reader n
  | .release x _ => x.user = .reader n
  | .insert _ _ => False
  | .clearCache => True

section Move

variable {δ φ : Type} (ops : CompressorOps δ) (fmt : IndexFormat φ) (maxBytes : ℤ)

/-- What a step does, with everything that was tested for it. -/
inductive CompressMove (s : CompressState δ φ) : CompressState δ φ → Prop
  | start {c : ℕ} {tensors : List TensorF64} :
      CompressMove s (s.setCall c ⟨tensors, fun _ => .start, [], none⟩)
  | route {c i : ℕ} {call : Call δ} {t : TensorF64} (indexId : ℤ) :
      s.calls c = some call → call.bodies i = .start → call.tensors[i]? = some t →
      0 < t.getDimension →
      CompressMove s
        (s.setCall c { call with bodies := update call.bodies i (.routed t indexId) })
  | get {c i : ℕ} {call : Call δ} {t : TensorF64} {indexId : ℤ} {x : IndexHandle}
      {st : IndexStore φ} :
      s.calls c = some call → call.bodies i = .routed t indexId →
      useIndex fmt maxBytes s.store (.get (.body c i) ⟨t.getDimension, indexId⟩) =
        some (st, x) →
      CompressMove s ({ s with store := st }.setCall c
        { call with bodies := update call.bodies i (.got t indexId x) })
  | compressTensor {c i : ℕ} {call : Call δ} {t : TensorF64} {indexId : ℤ} {x : IndexHandle}
      {answer id : ℤ} {base : List Double} {ins : Option QuantizedTensor} :
      s.calls c = some call → call.bodies i = .got t indexId x →
      chooseBase ops t (s.store.cache.heap x.obj) answer = some (id, base, ins) →
      CompressMove s (s.setCall c
        { call with
          bodies := update call.bodies i (.computed t indexId x id base)
          pending := call.pending ++
            (ins.map fun q => PendingInsertion.mk t.getDimension indexId q i).toList })
  | release {c i : ℕ} {call : Call δ} {t : TensorF64} {indexId id : ℤ} {x : IndexHandle}
      {base : List Double} {st : IndexStore φ} :
      s.calls c = some call → call.bodies i = .computed t indexId x id base →
      cacheStep (hnswKind fmt) maxBytes s.store (.release x false) = some st →
      CompressMove s ({ s with store := st }.setCall c
        { call with bodies := update call.bodies i (.done (makeEntry ops t indexId id base)) })
  | getIndex {c : ℕ} {call : Call δ} {p : PendingInsertion} {x : IndexHandle} {st : IndexStore φ} :
      s.calls c = some call → p ∈ call.pending →
      useIndex fmt maxBytes s.store (.get (.inserter c) p.key) = some (st, x) →
      CompressMove s ({ s with store := st }.setCall c { call with current := some x })
  | insert {c : ℕ} {call : Call δ} {p : PendingInsertion} {x x' : IndexHandle}
      {st : IndexStore φ} :
      s.calls c = some call → call.AllDone → call.current = some x → p ∈ call.pending →
      p.key = x.key → (s.store.cache.heap x.obj).Accepts p.quantized →
      useIndex fmt maxBytes s.store (.insert x p.quantized) = some (st, x') →
      CompressMove s ({ s with store := st }.setCall c
        { call with
          bodies := update call.bodies p.tensorSequenceNum
            ((call.bodies p.tensorSequenceNum).setBaseTensorId
              (s.store.cache.heap x.obj).nextId)
          pending := call.pending.erase p
          current := some x' })
  | releaseIndex {c : ℕ} {call : Call δ} {x : IndexHandle} {st : IndexStore φ} :
      s.calls c = some call → call.current = some x →
      cacheStep (hnswKind fmt) maxBytes s.store (.release x true) = some st →
      CompressMove s ({ s with store := st }.setCall c { call with current := none })
  | finish {c : ℕ} {call : Call δ} :
      s.calls c = some call → call.AllDone → call.pending = [] →
      CompressMove s
        { s with
          calls := update s.calls c none
          pages := s.pages ++
            [(List.range call.tensors.length).filterMap fun i => (call.bodies i).finished?] }
  | reader (n : ℕ) (cl : IndexCall) {st : IndexStore φ} :
      ReaderCall n cl → cacheStep (hnswKind fmt) maxBytes s.store cl = some st →
      CompressMove s { s with store := st }

variable {ops fmt maxBytes} {s s' : CompressState δ φ} {c i : ℕ} {call : Call δ} {l : CompressLabel}

theorem CompressMove.of_bodyStep (hcall : s.calls c = some call)
    (h : bodyStep ops fmt maxBytes s c i call (call.bodies i) l = some s') :
    CompressMove ops fmt maxBytes s s' := by
  generalize hb : call.bodies i = b at h
  unfold bodyStep at h
  split at h
  · obtain ⟨t, ht, h⟩ := bind_eq_some_iff.mp h
    obtain ⟨hpos, h⟩ := Option.ite_none_right_eq_some.mp h
    cases h
    exact .route _ hcall hb ht hpos
  · obtain ⟨⟨st, x⟩, huse, rfl⟩ := map_eq_some_iff.mp h
    exact .get hcall hb huse
  · obtain ⟨⟨id, base, ins⟩, hchoose, rfl⟩ := map_eq_some_iff.mp h
    exact .compressTensor hcall hb hchoose
  · obtain ⟨st, hcache, rfl⟩ := map_eq_some_iff.mp h
    exact .release hcall hb hcache
  · cases h

theorem CompressMove.of_insertionStep (hcall : s.calls c = some call) (hdone : call.AllDone)
    (h : insertionStep fmt maxBytes s c call call.current l = some s') :
    CompressMove ops fmt maxBytes s s' := by
  generalize hcur : call.current = current at h
  unfold insertionStep at h
  split at h
  · obtain ⟨⟨p, hp, rfl⟩, h⟩ := Option.ite_none_right_eq_some.mp h
    obtain ⟨⟨st, x⟩, huse, rfl⟩ := map_eq_some_iff.mp h
    exact .getIndex hcall hp huse
  · obtain ⟨⟨hp, hkey, haccepts⟩, h⟩ := Option.ite_none_right_eq_some.mp h
    obtain ⟨⟨st, x⟩, huse, rfl⟩ := map_eq_some_iff.mp h
    exact .insert hcall hdone hcur hp hkey haccepts huse
  · obtain ⟨-, h⟩ := Option.ite_none_left_eq_some.mp h
    obtain ⟨st, hcache, rfl⟩ := map_eq_some_iff.mp h
    exact .releaseIndex hcall hcur hcache
  · obtain ⟨hempty, h⟩ := Option.ite_none_right_eq_some.mp h
    cases h
    exact .finish hcall hdone hempty
  · cases h

/-- **Inversion of a step**: a call starts, a body of its loop or the part behind the loop goes
on, or a reader uses the cache. -/
theorem CompressMove.of_step (h : compressStep ops fmt maxBytes s l = some s') :
    CompressMove ops fmt maxBytes s s' := by
  cases l with
  | start c tensors =>
    obtain ⟨-, h⟩ := Option.ite_none_right_eq_some.mp h
    cases h
    exact .start
  | route c i _ | get c i | compressTensor c i _ | release c i =>
    obtain ⟨call, hcall, hbody⟩ := bind_eq_some_iff.mp h
    exact .of_bodyStep hcall hbody
  | getIndex c _ | insert c _ | releaseIndex c | finish c =>
    obtain ⟨call, hcall, hrest⟩ := bind_eq_some_iff.mp h
    obtain ⟨hdone, hrest⟩ := Option.ite_none_right_eq_some.mp hrest
    exact .of_insertionStep hcall hdone hrest
  | readerGet n k =>
    obtain ⟨st, hcache, rfl⟩ := map_eq_some_iff.mp h
    exact .reader n (.get (.reader n) k) rfl hcache
  | readerRelease x =>
    unfold compressStep at h
    dsimp only at h
    split at h
    · next n hn =>
      obtain ⟨st, hcache, rfl⟩ := map_eq_some_iff.mp h
      exact .reader n (.release x false) hn hcache
    · cases h
  | clearCache =>
    have hmap : (cacheStep (hnswKind fmt) maxBytes s.store .clearCache).map
        (fun st => { s with store := st }) = some s' := h
    obtain ⟨st, hcache, rfl⟩ := map_eq_some_iff.mp hmap
    exact .reader 0 .clearCache trivial hcache

theorem pages_subset_of_step (h : compressStep ops fmt maxBytes s l = some s') :
    ∀ page ∈ s.pages, page ∈ s'.pages := by
  cases CompressMove.of_step h with
  | finish => exact fun _ hp => mem_append_left _ hp
  | start | route | get | compressTensor | release | getIndex | insert | releaseIndex | reader =>
    exact fun _ hp => hp

end Move

/-! ### What a step of a user does to the indexes -/

section Agreement

variable {δ φ : Type} {ops : CompressorOps δ} {fmt : IndexFormat φ} {maxBytes : ℤ}
  {st st' : IndexStore φ}

/-- The index the cache stands for. -/
def indexOf (fmt : IndexFormat φ) (st : IndexStore φ) (k : IndexKey) : HnswIndex :=
  st.cache.content (hnswKind fmt) k

/-- The indexes are sound, and the memory they take is counted. -/
structure StoreOk (fmt : IndexFormat φ) (st : IndexStore φ) : Prop where
  space_nonneg : ∀ a, 0 ≤ fmt.space a
  sizes : st.cache.SizesNonneg
  indexes : ∀ k, (indexOf fmt st k).Ok k

/-- A step of the cache that concerns the handles of `u` only: the invariant is kept, what can
be retrieved stays so, and other users keep what they hold. -/
structure Moves (ops : CompressorOps δ) (fmt : IndexFormat φ) (u : IndexUser)
    (st st' : IndexStore φ) : Prop where
  inv : UsersInv (hnswKind fmt) st'
  retrieve : ∀ k id base, (indexOf fmt st k).retrieve ops.toQuantizer id = some base →
    (indexOf fmt st' k).retrieve ops.toQuantizer id = some base
  dimension : ∀ k, (indexOf fmt st' k).dimension = (indexOf fmt st k).dimension
  handles : ∀ h ∈ st.handles, h.user ≠ u → h ∈ st'.handles
  ok : StoreOk fmt st → StoreOk fmt st'

namespace Moves

theorem refl {u : IndexUser} (h : UsersInv (hnswKind fmt) st) : Moves ops fmt u st st :=
  ⟨h, fun _ _ _ h => h, fun _ => rfl, fun _ h _ => h, id⟩

variable {u : IndexUser} {x : IndexHandle}

/-- All calls of the manager leave the indexes as they are. -/
theorem of_content {cl : IndexCall}
    (h : UsersInv (hnswKind fmt) st) (hstep : cacheStep (hnswKind fmt) maxBytes st cl = some st')
    (hcontent : st'.cache.content (hnswKind fmt) = st.cache.content (hnswKind fmt))
    (hhandles : ∀ h ∈ st.handles, h.user ≠ u → h ∈ st'.handles) : Moves ops fmt u st st' := by
  have hindex : indexOf fmt st' = indexOf fmt st := hcontent
  refine ⟨h.step hstep, ?_, ?_, hhandles, fun hok => ?_⟩
  · exact fun k id base hr => hindex ▸ hr
  · exact fun k => by rw [hindex]
  · exact ⟨hok.space_nonneg, .step hok.space_nonneg hok.sizes hstep, hindex ▸ hok.indexes⟩

theorem get {k : IndexKey} (h : UsersInv (hnswKind fmt) st)
    (hstep : cacheStep (hnswKind fmt) maxBytes st (.get u k) = some st') :
    Moves ops fmt u st st' ∧ ∃ o, st'.handles = ⟨u, k, o, []⟩ :: st.handles := by
  obtain ⟨⟨o, c⟩, hget, rfl⟩ := map_eq_some_iff.mp hstep
  exact ⟨.of_content h hstep (h.cache.get hget).2.1 fun x hx _ => mem_cons_of_mem _ hx, o, rfl⟩

theorem mem_erase_of_user {handles : List IndexHandle} {y : IndexHandle} (hy : y ∈ handles)
    (hne : y.user ≠ x.user) : y ∈ handles.erase x := by
  refine (mem_erase_of_ne ?_).mpr hy
  rintro rfl
  exact hne rfl

theorem release {isUpdated : Bool} (h : UsersInv (hnswKind fmt) st)
    (hstep : cacheStep (hnswKind fmt) maxBytes st (.release x isUpdated) = some st') :
    Moves ops fmt x.user st st' := by
  obtain ⟨⟨hmem, hflag⟩, hrel⟩ := Option.ite_none_right_eq_some.mp hstep
  obtain ⟨c, hc, rfl⟩ := map_eq_some_iff.mp hrel
  exact .of_content h hstep (h.release hmem hflag hc).2 fun y hy hne => mem_erase_of_user hy hne

theorem clearCache (h : UsersInv (hnswKind fmt) st)
    (hstep : cacheStep (hnswKind fmt) maxBytes st .clearCache = some st') :
    Moves ops fmt u st st' := by
  refine .of_content h hstep ?_ fun y hy _ => ?_
  · cases hstep
    exact h.cache.clearCache.2
  · cases hstep
    exact hy

theorem of_readerCall {n : ℕ} {cl : IndexCall}
    (hcl : ReaderCall n cl) (h : UsersInv (hnswKind fmt) st)
    (hcache : cacheStep (hnswKind fmt) maxBytes st cl = some st') :
    Moves ops fmt (.reader n) st st' := by
  cases cl with
  | get u k =>
    obtain rfl : u = .reader n := hcl
    exact (get h hcache).1
  | release x up => exact hcl ▸ release h hcache
  | insert => exact hcl.elim
  | clearCache => exact clearCache h hcache

end Moves

variable {x : IndexHandle}

/-- The object a user holds is the index the cache stands for. -/
theorem heap_of_mem (h : UsersInv (hnswKind fmt) st) (hx : x ∈ st.handles) :
    st.cache.heap x.obj = indexOf fmt st x.key := by
  have hheld : st.cache.cacheMap x.key = some x.obj := h.cache.held _ (mem_map_of_mem hx)
  unfold indexOf Cache.content
  rw [hheld]

/-- **An insertion** changes one index: the tensor is found there under its id. -/
theorem Moves.insert {q : QuantizedTensor} (h : UsersInv (hnswKind fmt) st) (hx : x ∈ st.handles)
    (hq : (st.cache.heap x.obj).Accepts q)
    (hstep : cacheStep (hnswKind fmt) maxBytes st (.insert x q) = some st') :
    Moves ops fmt x.user st st' ∧
      (∃ h', st'.handles = h' :: st.handles.erase x ∧ h'.user = x.user ∧ h'.key = x.key) ∧
      (indexOf fmt st' x.key).retrieve ops.toQuantizer (st.cache.heap x.obj).nextId =
        some (ops.dequantize q) := by
  have hinv := h.step hstep
  have hsizes : StoreOk fmt st → st'.cache.SizesNonneg :=
    fun hok => .step hok.space_nonneg hok.sizes hstep
  obtain ⟨-, heq⟩ := Option.ite_none_right_eq_some.mp hstep
  cases heq
  rw [heap_of_mem h hx] at hq
  have hindex : ∀ k, (st.cache.insertInto (hnswKind fmt) x.obj q).content (hnswKind fmt) k =
      if k = x.key then (indexOf fmt st x.key).insert q else indexOf fmt st k := by
    intro k
    refine (congrFun ((h.cache.perm (perm_holds hx)).insertInto q).2 k).trans ?_
    exact Function.update_apply _ _ _ _
  have hcase : ∀ {P : IndexKey → HnswIndex → Prop}, (∀ k, P k (indexOf fmt st k)) →
      P x.key ((indexOf fmt st x.key).insert q) → ∀ k,
        P k ((st.cache.insertInto (hnswKind fmt) x.obj q).content (hnswKind fmt) k) := by
    intro P hold hnew k
    rw [hindex k]
    split
    · next hk => exact hk ▸ hnew
    · exact hold k
  refine ⟨⟨hinv, ?_, ?_, fun y hy hne => mem_cons_of_mem _ (mem_erase_of_user hy hne), ?_⟩,
    ⟨_, rfl, rfl, rfl⟩, ?_⟩
  · exact hcase (P := fun k a => ∀ id base, (indexOf fmt st k).retrieve ops.toQuantizer id =
      some base → a.retrieve ops.toQuantizer id = some base) (fun _ _ _ hr => hr)
      fun _ _ hr => HnswIndex.retrieve_insert_of_some _ q hr
  · exact hcase (P := fun k a => a.dimension = (indexOf fmt st k).dimension) (fun _ => rfl) rfl
  · intro hok
    exact ⟨hok.space_nonneg, hsizes hok, hcase (P := fun k a => a.Ok k) hok.indexes
      ((hok.indexes x.key).insert hq)⟩
  · rw [heap_of_mem h hx]
    change ((st.cache.insertInto (hnswKind fmt) x.obj q).content (hnswKind fmt) x.key).retrieve _ _
      = _
    rw [hindex, if_pos rfl]
    exact HnswIndex.retrieve_insert _ hq

/-! ### The invariant of a call -/

/-- The base of a packet is what its id retrieves; or the id is still `-1`, and the base is the
dequantized tensor of an insertion that has been put off. -/
def Agreed (ops : CompressorOps δ) (fmt : IndexFormat φ) (st : IndexStore φ)
    (pending : List PendingInsertion) (i : ℕ) (k : IndexKey) (id : ℤ) (base : List Double) : Prop :=
  (id ≠ -1 ∧ (indexOf fmt st k).retrieve ops.toQuantizer id = some base) ∨
    (id = -1 ∧ ∃ p ∈ pending, p.tensorSequenceNum = i ∧ p.key = k ∧
      ops.dequantize p.quantized = base)

/-- The quantized tensor has the dimension of the index. -/
def Fits (ops : CompressorOps δ) (fmt : IndexFormat φ) (st : IndexStore φ) (t : TensorF64)
    (k : IndexKey) : Prop :=
  ((ops.quantize t.tensor).tensor.length : ℤ) = (indexOf fmt st k).dimension

/-- The tensor a body works on. -/
def Body.tensor? : Body δ → Option TensorF64
  | .start => none
  | .routed t _ | .got t _ _ | .computed t _ _ _ _ => some t
  | .done e => some e.tensor

/-- A body that has an index holds it and has not changed it. -/
def BodyInv (ops : CompressorOps δ) (fmt : IndexFormat φ) (st : IndexStore φ) (c : ℕ)
    (pending : List PendingInsertion) (i : ℕ) : Body δ → Prop
  | .start | .routed _ _ => True
  | .got t indexId h =>
    h ∈ st.handles ∧ h.user = .body c i ∧ h.inserted = [] ∧ h.key = ⟨t.getDimension, indexId⟩
  | .computed t indexId h id base =>
    h ∈ st.handles ∧ h.user = .body c i ∧ h.inserted = [] ∧
      Fits ops fmt st t ⟨t.getDimension, indexId⟩ ∧
      Agreed ops fmt st pending i ⟨t.getDimension, indexId⟩ id base
  | .done e =>
    e.packet.shape = e.tensor.shape ∧ e.packet.delta = ops.deltaCompress e.base e.tensor.tensor ∧
      Fits ops fmt st e.tensor e.packet.key ∧
      Agreed ops fmt st pending i e.packet.key e.packet.baseTensorId e.base

/-- An insertion that has been put off belongs to a body whose packet waits for it. -/
def Awaited (ops : CompressorOps δ) (p : PendingInsertion) : Body δ → Prop
  | .start | .routed _ _ | .got _ _ _ => False
  | .computed t indexId _ id base =>
    id = -1 ∧ p.key = ⟨t.getDimension, indexId⟩ ∧ p.quantized = ops.quantize t.tensor ∧
      base = ops.dequantize p.quantized
  | .done e =>
    e.packet.baseTensorId = -1 ∧ p.key = e.packet.key ∧
      p.quantized = ops.quantize e.tensor.tensor ∧ e.base = ops.dequantize p.quantized

structure CallInv (ops : CompressorOps δ) (fmt : IndexFormat φ) (st : IndexStore φ) (c : ℕ)
    (call : Call δ) : Prop where
  bodies : ∀ i, BodyInv ops fmt st c call.pending i (call.bodies i)
  tensors : ∀ i, ∀ t ∈ (call.bodies i).tensor?, call.tensors[i]? = some t
  awaited : ∀ p ∈ call.pending, Awaited ops p (call.bodies p.tensorSequenceNum)
  nodup : (call.pending.map PendingInsertion.tensorSequenceNum).Nodup
  current : ∀ h, call.current = some h → h ∈ st.handles ∧ h.user = .inserter c ∧
    ∃ t ∈ call.tensors, h.key.dimension = t.getDimension

/-- **Agreement.** The id of a packet retrieves the base its delta was computed from. -/
def EntryOk (ops : CompressorOps δ) (fmt : IndexFormat φ) (st : IndexStore φ) (e : Entry δ) :
    Prop :=
  e.packet.baseTensorId ≠ -1 ∧
    (indexOf fmt st e.packet.key).retrieve ops.toQuantizer e.packet.baseTensorId = some e.base ∧
    e.packet.delta = ops.deltaCompress e.base e.tensor.tensor ∧
    e.packet.shape = e.tensor.shape ∧ Fits ops fmt st e.tensor e.packet.key

structure CompressInv (ops : CompressorOps δ) (fmt : IndexFormat φ) (s : CompressState δ φ) :
    Prop where
  store : UsersInv (hnswKind fmt) s.store
  calls : ∀ c call, s.calls c = some call → CallInv ops fmt s.store c call
  pages : ∀ page ∈ s.pages, ∀ e ∈ page, EntryOk ops fmt s.store e

section Preserved

variable {u : IndexUser} {c i : ℕ} {pending pending' : List PendingInsertion} {call : Call δ}
  {id : ℤ} {b : Body δ} {s' : CompressState δ φ} {l : CompressLabel} {p : PendingInsertion}
  {base : List Double}

theorem Agreed.moves {k : IndexKey} (h : Agreed ops fmt st pending i k id base)
    (hm : Moves ops fmt u st st')
    (hpending : ∀ p ∈ pending, p.tensorSequenceNum = i → p ∈ pending') :
    Agreed ops fmt st' pending' i k id base := by
  rcases h with ⟨hid, hr⟩ | ⟨hid, p, hp, hseq, hrest⟩
  · exact .inl ⟨hid, hm.retrieve _ _ _ hr⟩
  · exact .inr ⟨hid, p, hpending p hp hseq, hseq, hrest⟩

theorem Fits.moves {t : TensorF64} {k : IndexKey} (h : Fits ops fmt st t k)
    (hm : Moves ops fmt u st st') : Fits ops fmt st' t k :=
  h.trans (hm.dimension k).symm

/-- Steps of other users, and insertions that belong to other bodies, do not matter to a body. -/
theorem BodyInv.moves (h : BodyInv ops fmt st c pending i b) (hm : Moves ops fmt u st st')
    (hu : u ≠ .body c i) (hpending : ∀ p ∈ pending, p.tensorSequenceNum = i → p ∈ pending') :
    BodyInv ops fmt st' c pending' i b := by
  cases b with
  | start | routed t indexId => trivial
  | got t indexId x =>
    obtain ⟨hx, huser, hrest⟩ := h
    exact ⟨hm.handles x hx (huser ▸ hu.symm), huser, hrest⟩
  | computed t indexId x id base =>
    obtain ⟨hx, huser, hclean, hfits, hagreed⟩ := h
    exact ⟨hm.handles x hx (huser ▸ hu.symm), huser, hclean, hfits.moves hm,
      hagreed.moves hm hpending⟩
  | done e =>
    obtain ⟨hshape, hdelta, hfits, hagreed⟩ := h
    exact ⟨hshape, hdelta, hfits.moves hm, hagreed.moves hm hpending⟩

theorem CallInv.moves (h : CallInv ops fmt st c call) (hm : Moves ops fmt u st st')
    (hbody : ∀ i, u ≠ .body c i) (hins : u ≠ .inserter c) : CallInv ops fmt st' c call where
  bodies i := (h.bodies i).moves hm (hbody i) fun _ hp _ => hp
  tensors := h.tensors
  awaited := h.awaited
  nodup := h.nodup
  current x hx := by
    obtain ⟨hmem, huser, hkey⟩ := h.current x hx
    exact ⟨hm.handles x hmem (huser ▸ hins.symm), huser, hkey⟩

theorem EntryOk.moves {e : Entry δ} (h : EntryOk ops fmt st e) (hm : Moves ops fmt u st st') :
    EntryOk ops fmt st' e :=
  ⟨h.1, hm.retrieve _ _ _ h.2.1, h.2.2.1, h.2.2.2.1, h.2.2.2.2.moves hm⟩

/-- A step of the body of tensor `i`, which may add insertions that body waits for. -/
theorem CallInv.updateBody (h : CallInv ops fmt st c call) (hm : Moves ops fmt (.body c i) st st')
    (extra : List PendingInsertion)
    (hb : BodyInv ops fmt st' c (call.pending ++ extra) i b)
    (ht : ∀ t ∈ b.tensor?, call.tensors[i]? = some t)
    (hold : ∀ p ∈ call.pending, p.tensorSequenceNum = i → Awaited ops p b)
    (hextra : ∀ p ∈ extra, p.tensorSequenceNum = i ∧ Awaited ops p b)
    (hnodup : ((call.pending ++ extra).map PendingInsertion.tensorSequenceNum).Nodup) :
    CallInv ops fmt st' c
      { call with
        bodies := update call.bodies i b
        pending := call.pending ++ extra } := by
  refine ⟨?_, ?_, ?_, hnodup, ?_⟩
  · intro j
    change BodyInv ops fmt st' c (call.pending ++ extra) j (update call.bodies i b j)
    by_cases hj : j = i
    · rw [hj, update_self]
      exact hb
    · rw [update_of_ne hj]
      refine (h.bodies j).moves hm ?_ fun p hp _ => mem_append_left _ hp
      simpa using fun hij : i = j => hj hij.symm
  · intro j t hj
    change t ∈ (update call.bodies i b j).tensor? at hj
    by_cases hji : j = i
    · rw [hji, update_self] at hj
      exact hji ▸ ht t hj
    · rw [update_of_ne hji] at hj
      exact h.tensors j t hj
  · intro p hp
    change Awaited ops p (update call.bodies i b p.tensorSequenceNum)
    by_cases hj : p.tensorSequenceNum = i
    · rw [hj, update_self]
      rcases mem_append.mp hp with hp | hp
      · exact hold p hp hj
      · exact (hextra p hp).2
    · rw [update_of_ne hj]
      rcases mem_append.mp hp with hp | hp
      · exact h.awaited p hp
      · exact absurd (hextra p hp).1 hj
  · intro x hx
    obtain ⟨hmem, huser, hkey⟩ := h.current x hx
    refine ⟨hm.handles x hmem ?_, huser, hkey⟩
    rw [huser]
    simp

theorem CallInv.setBody (h : CallInv ops fmt st c call) (hm : Moves ops fmt (.body c i) st st')
    (hb : BodyInv ops fmt st' c call.pending i b)
    (ht : ∀ t ∈ b.tensor?, call.tensors[i]? = some t)
    (hold : ∀ p ∈ call.pending, p.tensorSequenceNum = i → Awaited ops p b) :
    CallInv ops fmt st' c { call with bodies := update call.bodies i b } := by
  have hall := h.updateBody hm [] (by simpa using hb) ht hold (by simp)
    (by simpa using h.nodup)
  simpa using hall

/-- No insertion belongs to a body that has not looked for its base yet. -/
theorem CallInv.seq_ne (h : CallInv ops fmt st c call)
    (hp : p ∈ call.pending) (hi : ¬ Awaited ops p (call.bodies i)) : p.tensorSequenceNum ≠ i := by
  rintro rfl
  exact hi (h.awaited p hp)

variable {s : CompressState δ φ}

/-- A step of one call leaves the others alone. -/
theorem CompressInv.setCall {call' : Call δ} (h : CompressInv ops fmt s)
    (hm : Moves ops fmt u s.store st')
    (hu : ∀ c', c' ≠ c → (∀ i, u ≠ .body c' i) ∧ u ≠ .inserter c')
    (hcall : CallInv ops fmt st' c call') :
    CompressInv ops fmt ({ s with store := st' }.setCall c call') := by
  refine ⟨hm.inv, ?_, fun page hpage e he => (h.pages page hpage e he).moves hm⟩
  intro c' call₁ hc'
  rcases update_some_iff.mp hc' with ⟨rfl, rfl⟩ | ⟨hne, hc'⟩
  · exact hcall
  · exact (h.calls c' call₁ hc').moves hm (hu c' hne).1 (hu c' hne).2

theorem body_ne_of_ne (i : ℕ) {c' : ℕ} (hc : c' ≠ c) :
    (∀ j, IndexUser.body c i ≠ .body c' j) ∧ IndexUser.body c i ≠ .inserter c' := by
  refine ⟨?_, by simp⟩
  intro j h
  exact hc (IndexUser.body.inj h).1.symm

theorem inserter_ne_of_ne {c' : ℕ} (hc : c' ≠ c) :
    (∀ j, IndexUser.inserter c ≠ .body c' j) ∧ IndexUser.inserter c ≠ .inserter c' := by
  refine ⟨by simp, ?_⟩
  intro h
  exact hc (IndexUser.inserter.inj h).symm

theorem of_useIndex {l : IndexCall}
    (h : useIndex fmt maxBytes st l = some (st', x)) :
    cacheStep (hnswKind fmt) maxBytes st l = some st' ∧ st'.handles.head? = some x := by
  obtain ⟨st₁, hst₁, hrest⟩ := bind_eq_some_iff.mp h
  obtain ⟨y, hy, ⟨⟩⟩ := map_eq_some_iff.mp hrest
  exact ⟨hst₁, hy⟩

/-- **`get`**: the new handle is in front, and nothing has been inserted through it. -/
theorem of_useIndex_get {k : IndexKey} (h : UsersInv (hnswKind fmt) st)
    (huse : useIndex fmt maxBytes st (.get u k) = some (st', x)) :
    Moves ops fmt u st st' ∧ x ∈ st'.handles ∧ x.user = u ∧ x.inserted = [] ∧ x.key = k := by
  obtain ⟨hcache, hhead⟩ := of_useIndex huse
  obtain ⟨hm, o, hhandles⟩ : Moves ops fmt u st st' ∧ _ := Moves.get h hcache
  rw [hhandles] at hhead
  cases hhead
  refine ⟨hm, ?_, rfl, rfl, rfl⟩
  rw [hhandles]
  exact mem_cons_self

/-- The base is found in the index, or the quantized tensor becomes one. -/
theorem of_chooseBase {t : TensorF64} {index : HnswIndex} {answer : ℤ}
    {ins : Option QuantizedTensor} (h : chooseBase ops t index answer = some (id, base, ins)) :
    ((ops.quantize t.tensor).tensor.length : ℤ) = index.dimension ∧
    ((id ≠ -1 ∧ ins = none ∧ index.retrieve ops.toQuantizer id = some base) ∨
      id = -1 ∧ ins = some (ops.quantize t.tensor) ∧
        base = ops.dequantize (ops.quantize t.tensor)) := by
  unfold chooseBase at h
  obtain ⟨hlength, h⟩ := Option.ite_none_right_eq_some.mp h
  refine ⟨hlength, ?_⟩
  dsimp only at h
  generalize (if t.getDimension = 1 then (-1 : ℤ) else answer) = representativeId at h
  split at h
  · cases h
    exact .inr ⟨rfl, rfl, rfl⟩
  · next hid =>
    obtain ⟨found, hfound, heq⟩ := map_eq_some_iff.mp h
    split at heq
    · cases heq
      exact .inr ⟨rfl, rfl, rfl⟩
    · cases heq
      exact .inl ⟨hid, rfl, hfound⟩

theorem CallInv.compressTensor {t : TensorF64} {indexId answer : ℤ}
    {ins : Option QuantizedTensor} (h : CallInv ops fmt s.store c call)
    (hstore : UsersInv (hnswKind fmt) s.store) (hb : call.bodies i = .got t indexId x)
    (hchoose : chooseBase ops t (s.store.cache.heap x.obj) answer = some (id, base, ins)) :
    CallInv ops fmt s.store c
      { call with
        bodies := update call.bodies i (.computed t indexId x id base)
        pending := call.pending ++
          (ins.map fun q => PendingInsertion.mk t.getDimension indexId q i).toList } := by
  obtain ⟨hx, huser, hclean, hkey⟩ := hb ▸ h.bodies i
  rw [heap_of_mem hstore hx, hkey] at hchoose
  obtain ⟨hfits, hbase⟩ := of_chooseBase hchoose
  have hno : ∀ p ∈ call.pending, p.tensorSequenceNum ≠ i :=
    fun p hp => h.seq_ne hp (by rw [hb]; exact fun hw => hw)
  have ht : ∀ t' ∈ (Body.computed t indexId x id base : Body δ).tensor?,
      call.tensors[i]? = some t' := by
    rintro t' ⟨⟩
    exact h.tensors i t (by rw [hb]; rfl)
  have hnot : ∀ p ∈ call.pending, p.tensorSequenceNum = i →
      Awaited ops p (.computed t indexId x id base : Body δ) :=
    fun p hp hpi => absurd hpi (hno p hp)
  rcases hbase with ⟨hid, rfl, hr⟩ | ⟨rfl, rfl, rfl⟩
  · refine h.updateBody (.refl hstore) [] ⟨hx, huser, hclean, hfits, .inl ⟨hid, hr⟩⟩ ht hnot
      (by simp) ?_
    simpa using h.nodup
  · -- the packet waits for the insertion that is put off here
    refine h.updateBody (.refl hstore) [⟨t.getDimension, indexId, ops.quantize t.tensor, i⟩]
      ⟨hx, huser, hclean, hfits, .inr ⟨rfl, _, mem_append_right _ (mem_singleton_self _), rfl,
        rfl, rfl⟩⟩ ht hnot ?_ ?_
    · intro p hp
      obtain rfl := mem_singleton.mp hp
      exact ⟨rfl, rfl, rfl, rfl, rfl⟩
    · rw [map_append, map_singleton]
      refine List.nodup_append.mpr ⟨h.nodup, nodup_singleton _, ?_⟩
      intro a ha b hb'
      obtain ⟨p, hp, rfl⟩ := mem_map.mp ha
      rw [mem_singleton.mp hb']
      exact hno p hp

theorem Body.eq_done_of_finished? {e : Entry δ} (h : b.finished? = some e) : b = .done e := by
  cases b with
  | done e' => exact congrArg Body.done (some.inj h)
  | start | routed | got | computed => cases h

/-- Behind the loop, a body that an insertion was put off for is done. -/
theorem CallInv.done_of_pending (h : CallInv ops fmt st c call) (hdone : call.AllDone)
    (hp : p ∈ call.pending) : ∃ e, call.bodies p.tensorSequenceNum = .done e := by
  have hw := h.awaited p hp
  have hsome : ∃ t, t ∈ (call.bodies p.tensorSequenceNum).tensor? := by
    cases hb : call.bodies p.tensorSequenceNum with
    | start =>
      rw [hb] at hw
      exact hw.elim
    | routed t | got t | computed t => exact ⟨t, rfl⟩
    | done e => exact ⟨e.tensor, rfl⟩
  obtain ⟨t, ht⟩ := hsome
  obtain ⟨hlt, -⟩ := List.getElem?_eq_some_iff.mp (h.tensors _ t ht)
  obtain ⟨e, he⟩ := Option.isSome_iff_exists.mp (hdone _ hlt)
  exact ⟨e, Body.eq_done_of_finished? he⟩

/-- The packet that waits for an insertion gets the id its base is found under. -/
theorem CallInv.insert (h : CallInv ops fmt st c call) (hm : Moves ops fmt (.inserter c) st st')
    (hdone : call.AllDone) (hp : p ∈ call.pending) (hid : id ≠ -1)
    (hr : (indexOf fmt st' p.key).retrieve ops.toQuantizer id = some (ops.dequantize p.quantized))
    (hx : x ∈ st'.handles ∧ x.user = .inserter c ∧
      ∃ t ∈ call.tensors, x.key.dimension = t.getDimension) :
    CallInv ops fmt st' c
      { call with
        bodies := update call.bodies p.tensorSequenceNum
          ((call.bodies p.tensorSequenceNum).setBaseTensorId id)
        pending := call.pending.erase p
        current := some x } := by
  have hnodup : call.pending.Nodup := h.nodup.of_map
  obtain ⟨e, he⟩ := h.done_of_pending hdone hp
  obtain ⟨-, hkey, -, hbase⟩ : Awaited ops p (.done e) := he ▸ h.awaited p hp
  refine ⟨?_, ?_, ?_, ?_, ?_⟩
  · intro j
    change BodyInv ops fmt st' c (call.pending.erase p) j (update call.bodies _ _ j)
    by_cases hj : j = p.tensorSequenceNum
    · subst hj
      obtain ⟨hshape, hdelta, hfits, -⟩ : BodyInv ops fmt st c _ _ (.done e) := he ▸ h.bodies _
      rw [update_self, he]
      refine ⟨hshape, hdelta, hfits.moves hm, .inl ⟨hid, ?_⟩⟩
      change (indexOf fmt st' e.packet.key).retrieve _ id = some e.base
      rw [← hkey, hbase]
      exact hr
    · rw [update_of_ne hj]
      refine (h.bodies j).moves hm (by simp) ?_
      intro p' hp' hseq
      refine (mem_erase_of_ne ?_).mpr hp'
      rintro rfl
      exact hj hseq.symm
  · intro j t ht
    change t ∈ (update call.bodies _ _ j).tensor? at ht
    by_cases hj : j = p.tensorSequenceNum
    · subst hj
      rw [update_self, he] at ht
      exact h.tensors _ t (by rw [he]; exact ht)
    · rw [update_of_ne hj] at ht
      exact h.tensors j t ht
  · intro p' hp'
    obtain ⟨hne, hmem⟩ := hnodup.mem_erase_iff.mp hp'
    change Awaited ops p' (update call.bodies _ _ p'.tensorSequenceNum)
    rw [update_of_ne]
    · exact h.awaited p' hmem
    · intro hseq
      exact hne (inj_on_of_nodup_map h.nodup hmem hp hseq)
  · exact h.nodup.sublist (erase_sublist.map _)
  · rintro y ⟨⟩
    exact hx

/-- The insertion phase gets and releases an index. -/
theorem CallInv.setCurrent (h : CallInv ops fmt st c call) (hm : Moves ops fmt (.inserter c) st st')
    {current : Option IndexHandle}
    (hcur : ∀ x, current = some x → x ∈ st'.handles ∧ x.user = .inserter c ∧
      ∃ t ∈ call.tensors, x.key.dimension = t.getDimension) :
    CallInv ops fmt st' c { call with current := current } where
  bodies i := (h.bodies i).moves hm (by simp) fun _ hp _ => hp
  tensors := h.tensors
  awaited := h.awaited
  nodup := h.nodup
  current := hcur

/-- The index of an insertion has the dimension of a tensor of the call. -/
theorem CallInv.dimension_of_pending (h : CallInv ops fmt st c call) (hp : p ∈ call.pending) :
    ∃ t ∈ call.tensors, p.dimension = t.getDimension ∧ p.quantized = ops.quantize t.tensor := by
  have hw := h.awaited p hp
  have htensor := h.tensors p.tensorSequenceNum
  have hbody := h.bodies p.tensorSequenceNum
  cases hb : call.bodies p.tensorSequenceNum with
  | start | routed | got =>
    rw [hb] at hw
    exact hw.elim
  | computed t indexId x id base =>
    rw [hb] at hw htensor
    exact ⟨t, mem_of_getElem? (htensor t rfl), congrArg IndexKey.dimension hw.2.1, hw.2.2.1⟩
  | done e =>
    rw [hb] at hw htensor hbody
    refine ⟨e.tensor, mem_of_getElem? (htensor _ rfl), ?_, hw.2.2.1⟩
    have hdim : p.dimension = e.packet.getDimension := congrArg IndexKey.dimension hw.2.1
    rw [hdim, DeltaPacket.getDimension, hbody.1]
    rfl

/-- A page takes over the entries of the bodies of its call. -/
theorem CompressInv.finish (h : CompressInv ops fmt s) (hcall : s.calls c = some call)
    (hempty : call.pending = []) :
    CompressInv ops fmt
      { s with
        calls := update s.calls c none
        pages := s.pages ++
          [(List.range call.tensors.length).filterMap fun i => (call.bodies i).finished?] } := by
  refine ⟨h.store, fun c' call' hc' => h.calls c' call' (update_none_iff.mp hc').2, ?_⟩
  intro page hpage e he
  rcases mem_append_singleton.mp hpage with hpage | rfl
  · exact h.pages page hpage e he
  · obtain ⟨i, -, hi⟩ := mem_filterMap.mp he
    obtain ⟨hshape, hdelta, hfits, hagreed⟩ : BodyInv ops fmt s.store c _ i (.done e) :=
      Body.eq_done_of_finished? hi ▸ (h.calls c call hcall).bodies i
    -- nothing is put off any more, so no packet waits for its id
    rcases hagreed with ⟨hid, hr⟩ | ⟨-, p, hp, -⟩
    · exact ⟨hid, hr, hdelta, hshape, hfits⟩
    · rw [hempty] at hp
      cases hp

/-- **One step** keeps the invariant, and moves the store for one user at most. -/
theorem CompressInv.step_moves (h : CompressInv ops fmt s)
    (hstep : compressStep ops fmt maxBytes s l = some s') :
    CompressInv ops fmt s' ∧ ∃ u, Moves ops fmt u s.store s'.store := by
  cases CompressMove.of_step hstep with
  | start =>
    refine ⟨h.setCall (.refl h.store) (fun c' hc => inserter_ne_of_ne hc) ?_,
      .reader 0, .refl h.store⟩
    exact ⟨fun _ => trivial, by simp [Body.tensor?], by simp, by simp, by simp⟩
  | @route c i call t indexId hcall hb ht =>
    have hinv := h.calls c call hcall
    refine ⟨h.setCall (.refl h.store) (fun _ => body_ne_of_ne i)
      (hinv.setBody (.refl h.store) trivial ?_ fun p hp hpi => ?_), .body c i, .refl h.store⟩
    · rintro t' ⟨⟩
      exact ht
    · exact absurd hpi (hinv.seq_ne hp (hb ▸ id))
  | @get c i call t indexId x st hcall hb huse =>
    have hinv := h.calls c call hcall
    obtain ⟨hm, hx⟩ : Moves ops fmt _ _ _ ∧ _ := of_useIndex_get h.store huse
    refine ⟨h.setCall hm (fun _ => body_ne_of_ne i) (hinv.setBody hm hx ?_ fun p hp hpi => ?_),
      _, hm⟩
    · rintro t' ⟨⟩
      exact hinv.tensors i t (hb ▸ rfl)
    · exact absurd hpi (hinv.seq_ne hp (hb ▸ id))
  | @compressTensor c i call t indexId x answer id base ins hcall hb hchoose =>
    exact ⟨h.setCall (.refl h.store) (fun _ => body_ne_of_ne i)
      ((h.calls c call hcall).compressTensor h.store hb hchoose), .body c i, .refl h.store⟩
  | @release c i call t indexId id x base st hcall hb hcache =>
    have hinv := h.calls c call hcall
    obtain ⟨hx, huser, -, hfits, hagreed⟩ := hb ▸ hinv.bodies i
    have hm : Moves ops fmt (.body c i) s.store st := huser ▸ Moves.release h.store hcache
    refine ⟨h.setCall hm (fun _ => body_ne_of_ne i) (hinv.setBody hm
      ⟨rfl, rfl, hfits.moves hm, hagreed.moves hm fun _ hp _ => hp⟩ ?_ fun p hp hpi => ?_), _, hm⟩
    · rintro t' ⟨⟩
      exact hinv.tensors i t (hb ▸ rfl)
    · have hw := hinv.awaited p hp
      rw [hpi, hb] at hw
      exact hw
  | @getIndex c call p x st hcall hp huse =>
    have hinv := h.calls c call hcall
    obtain ⟨hm, hx, huser, -, hkey⟩ : Moves ops fmt _ _ _ ∧ _ := of_useIndex_get h.store huse
    refine ⟨h.setCall hm (fun _ => inserter_ne_of_ne) (hinv.setCurrent hm ?_), _, hm⟩
    rintro y ⟨⟩
    obtain ⟨t, ht, hdim, -⟩ := hinv.dimension_of_pending hp
    exact ⟨hx, huser, t, ht, hkey ▸ hdim⟩
  | @insert c call p x x' st hcall hdone hcur hp hkey haccepts huse =>
    have hinv := h.calls c call hcall
    obtain ⟨hcache, hhead⟩ := of_useIndex huse
    obtain ⟨hx, hxu, hdim⟩ := hinv.current x hcur
    obtain ⟨hm, ⟨x₁, hhandles, hu', hk'⟩, hr⟩ : Moves ops fmt _ _ _ ∧ _ :=
      Moves.insert h.store hx haccepts hcache
    rw [hhandles] at hhead
    cases hhead
    rw [hxu] at hm
    refine ⟨h.setCall hm (fun _ => inserter_ne_of_ne) (hinv.insert hm hdone hp ?_ (hkey ▸ hr)
      ⟨?_, hu'.trans hxu, hk' ▸ hdim⟩), _, hm⟩
    · omega
    · rw [hhandles]
      exact mem_cons_self
  | @releaseIndex c call x st hcall hcur hcache =>
    have hinv := h.calls c call hcall
    obtain ⟨-, hxu, -⟩ := hinv.current x hcur
    have hm : Moves ops fmt (.inserter c) s.store st := hxu ▸ Moves.release h.store hcache
    exact ⟨h.setCall hm (fun _ => inserter_ne_of_ne) (hinv.setCurrent hm nofun), _, hm⟩
  | finish hcall _ hempty => exact ⟨h.finish hcall hempty, .reader 0, .refl h.store⟩
  | reader n cl hcl hcache =>
    have hm : Moves ops fmt _ _ _ := .of_readerCall hcl h.store hcache
    exact ⟨⟨hm.inv, fun c call hc => (h.calls c call hc).moves hm (by simp) (by simp),
      fun page hpage e he => (h.pages page hpage e he).moves hm⟩, _, hm⟩

theorem CompressInv.step (h : CompressInv ops fmt s)
    (hstep : compressStep ops fmt maxBytes s l = some s') : CompressInv ops fmt s' :=
  (h.step_moves hstep).1

end Preserved

variable {s : CompressState δ φ}

theorem CompressInv.initial (h : (compressSystem ops fmt maxBytes).init s) :
    CompressInv ops fmt s := by
  obtain ⟨hcache, hcalls, hpages⟩ := h
  refine ⟨⟨CacheInv.initial hcache, ?_, ?_⟩, ?_, ?_⟩
  · rw [hcache.2.2.2.2.2.2.2]
    simp
  · rw [hcache.2.2.2.2.2.2.1]
    simp
  · intro c call hc
    rw [hcalls] at hc
    cases hc
  · rw [hpages]
    simp

theorem CompressInv.of_run {s₀ : CompressState δ φ} {ls : List CompressLabel}
    (h₀ : (compressSystem ops fmt maxBytes).init s₀)
    (hrun : (compressSystem ops fmt maxBytes).Run s₀ ls s) : CompressInv ops fmt s :=
  hrun.invariant (.initial h₀) fun _ _ _ h hstep => h.step hstep

/-- **Packets are decompressed against the base they were compressed against.** In every state
that calls of `compress` lead to, each packet of a finished call has an id other than `-1`, and
whoever gets the packet's index then retrieves from it, under that id, the base from which the
packet's delta was computed. -/
theorem base_agreement {s₀ s : CompressState δ φ} {ls : List CompressLabel}
    (h₀ : (compressSystem ops fmt maxBytes).init s₀)
    (hrun : (compressSystem ops fmt maxBytes).Run s₀ ls s) :
    ∀ page ∈ s.pages, ∀ e ∈ page,
      e.packet.baseTensorId ≠ -1 ∧
      e.packet.delta = ops.deltaCompress e.base e.tensor.tensor ∧
      ∀ o cache, s.store.cache.get (hnswKind fmt) maxBytes
          ⟨e.packet.getDimension, e.packet.indexId⟩ = some (o, cache) →
        (cache.heap o).retrieve ops.toQuantizer e.packet.baseTensorId = some e.base := by
  have hinv := CompressInv.of_run h₀ hrun
  intro page hpage e he
  obtain ⟨hid, hr, hdelta, -⟩ := hinv.pages page hpage e he
  refine ⟨hid, hdelta, ?_⟩
  intro o cache hget
  rw [(hinv.store.cache.get hget).2.2]
  exact hr

end Agreement

/-! ### Two calls -/

namespace CompressExample

/-- Doubles that are small integers are quantized to themselves. -/
def ops : CompressorOps (List Double) where
  quantize t := ⟨t.flatMap fun x => leBytes 1 x.toNat, 1, 0⟩
  dequantize q := q.tensor.map fun b => BitVec.ofNat 64 b.val
  length_dequantize _ := List.length_map _
  deltaCompress base t := List.zipWith (· - ·) t base
  selectAsRepresentative _ _ := false

/-- Indexes are kept on disk as they are. -/
def format : IndexFormat HnswIndex where
  space a := a.points.length + 1
  serialize a := a
  deserialize a := some a
  deserialize_serialize _ := rfl

def init : CompressState (List Double) HnswIndex where
  store :=
    { cache :=
        { files := fun _ => none
          heap := fun _ => .new 0
          nextObj := 0
          cacheList := []
          cacheMap := fun _ => none
          useCountMap := fun _ => none
          sizeMap := fun _ => none
          updatedMap := fun _ => none
          usedBytes := 0 }
      handles := []
      released := [] }
  calls := fun _ => none
  pages := []

def tensor (x y : Double) : TensorF64 := ⟨[2], [x, y]⟩

def pending (i : ℕ) (x y : Double) : PendingInsertion :=
  ⟨2, 0, ops.quantize [x, y], i⟩

/-- The loop body of a tensor, from start to end. -/
def body (c i : ℕ) (answer : ℤ) : List CompressLabel :=
  [.route c i 0, .get c i, .compressTensor c i answer, .release c i]

/-- A call with two tensors, which are both inserted, the later one first; then a call that
uses the base it finds. In between a reader needs the memory for another index, so that the
first one is evicted and read again. -/
def labels : List CompressLabel :=
  [.start 0 [tensor 1 2, tensor 3 4]] ++ body 0 1 (-1) ++ body 0 0 (-1) ++
    [.getIndex 0 ⟨2, 0⟩, .insert 0 (pending 1 3 4), .insert 0 (pending 0 1 2),
      .releaseIndex 0, .finish 0,
      .readerGet 0 ⟨5, 0⟩, .readerRelease ⟨.reader 0, ⟨5, 0⟩, 1, []⟩,
      .start 1 [tensor 1 3]] ++
    body 1 0 1 ++ [.finish 1]

end CompressExample

open CompressExample in
theorem base_agreement_two_calls :
    ∃ s, (compressSystem ops format 3).Run init labels s ∧
      s.pages.map (fun page => page.map fun e => (e.packet.baseTensorId, e.base)) =
        [[(1, [1, 2]), (0, [3, 4])], [(1, [1, 2])]] ∧
      ∀ page ∈ s.pages, ∀ e ∈ page,
        ∀ o cache, s.store.cache.get (hnswKind format) 3
            ⟨e.packet.getDimension, e.packet.indexId⟩ = some (o, cache) →
          (cache.heap o).retrieve ops.toQuantizer e.packet.baseTensorId = some e.base := by
  have h₀ : (compressSystem ops format 3).init init :=
    ⟨⟨rfl, rfl, rfl, rfl, rfl, rfl, rfl, rfl⟩, rfl, rfl⟩
  exact System.exists_run_of_exec
    (P := fun s => s.pages.map (fun page => page.map fun e => (e.packet.baseTensorId, e.base)) =
      [[(1, [1, 2]), (0, [3, 4])], [(1, [1, 2])]]) (by decide +kernel)
    fun _ hrun hs => ⟨hs, fun page hpage e he => (base_agreement h₀ hrun page hpage e he).2.2⟩

end NeurDB.NeurStore
