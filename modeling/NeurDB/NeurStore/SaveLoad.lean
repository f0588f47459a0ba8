import NeurDB.NeurStore.CompressProgress
import NeurDB.NeurStore.Reconstruct

/-!
# Which models survive saving and loading

`Compressor::compress` extracts the tensors of a model, gives them to the loop and the insertions
of the compressor, and puts the packets it gets into a page. A load goes over the page: for every
packet it gets the index from the cache, takes the base tensor out of it, and releases it.

The two meet in `initializers_preserved_iff`. A model gets through the extraction if its
initializers are floating-point and not empty. The compressor then goes on to the end if no tensor
has so many elements that the index for it starts with capacity zero, and it cannot end otherwise.
What it has returned is found again by every load, in whatever state the cache is by then, and
`preserved_iff_loadable` applies.
-/

namespace NeurDB.NeurStore

open List
open Option (bind_eq_some_iff bind_some some)

/-! ### Saving and loading with the compressor -/

section System

variable {δ φ : Type}

/-- `Compressor::compress` has returned `saved` for the graph `g`: a call was given the tensors,
and its packets were put into the page. -/
def Compressed (ops : FloatOps) (s : CompressState δ φ) (g : GraphProto) (saved : SavedModel δ) :
    Prop :=
  ∃ weights page, extractModelTensors ops g = some weights ∧
    page ∈ s.pages ∧ page.map Entry.tensor = floatTensors weights ∧
    placePackets ops weights (page.map Entry.packet) = some saved.page ∧
    saved.modelStructure = { g with initializer := [] }

/-- `TensorSimilarityIndex::retrieveUINT8Quantized`. The functions for the other load modes
dequantize this tensor, and throw in the same cases. -/
def HnswIndex.retrieveUInt8Quantized (a : HnswIndex) (id : ℤ) : Option QuantizedTensor :=
  (a.getDataByLabel id).bind fun raw =>
    let q := QuantizedTensor.ofBuffer raw
    if (q.tensor.length : ℤ) = a.dimension then some q else none

/-- The bases of packets, as the indexes hold them. -/
def basesOf (fmt : IndexFormat φ) (st : IndexStore φ) : BaseTensors δ :=
  fun p => (indexOf fmt st p.key).retrieveUInt8Quantized p.baseTensorId

/-- A load takes `base` out of the index of a packet: some time after `s` it holds the index,
which it has got from the cache. -/
def TakesBase (ops : CompressorOps δ) (fmt : IndexFormat φ) (maxBytes : ℤ) (s : CompressState δ φ)
    (p : DeltaPacket δ) (base : Option QuantizedTensor) : Prop :=
  ∃ ls s' n, ∃ x ∈ s'.store.handles, (compressSystem ops fmt maxBytes).Run s ls s' ∧
    x.user = .reader n ∧ x.key = p.key ∧
    base = (s'.store.cache.heap x.obj).retrieveUInt8Quantized p.baseTensorId

end System

/-- The number of elements the dimensions say. -/
def TensorProto.elements (t : TensorProto) : ℕ := (t.dims.map Int.toNat).prod

/-- A model that `compress` returns for. -/
structure Compressible (m : GraphProto) : Prop where
  float : ∀ t ∈ m.initializer, t.dataType.isFloat
  nonempty : ∀ t ∈ m.initializer, t.rawData ≠ []
  /-- An index for more elements has no room for any tensor. -/
  elements_le : ∀ t ∈ m.initializer, t.elements ≤ 67108767

/-! ### The size of a tensor -/

section Size

variable {ops : FloatOps} {t : TensorProto}

theorem length_readVector (size n : ℕ) (data : List Byte) :
    (readVector size n data).length = n := by
  induction n generalizing data with
  | zero => rfl
  | succ n ih => rw [readVector, length_cons, ih]

theorem length_floatTensor (h : t.dataType.isFloat) :
    (floatTensor ops t).tensor.length = t.totalSize := by
  unfold floatTensor rawDoubles
  cases ht : t.dataType <;> simp [ht, DataType.isFloat, length_readVector] at h ⊢

/-- The number of elements in `int` arithmetic is their number, cut to 32 bits. -/
theorem getDimension_floatTensor (h : ∀ d ∈ t.dims, 0 ≤ d) :
    (floatTensor ops t).getDimension = (t.elements : ℤ).bmod (2 ^ 32) := by
  have hfold : ∀ (ds : List ℤ) (a : ℤ),
      (ds.map (BitVec.ofInt 32)).foldl (· * ·) (BitVec.ofInt 32 a) =
        BitVec.ofInt 32 (a * ds.prod) := by
    intro ds
    induction ds with
    | nil => simp
    | cons d ds ih =>
      intro a
      rw [map_cons, foldl_cons, ← BitVec.ofInt_mul, ih, prod_cons, mul_assoc]
  have hprod : t.dims.prod = t.elements := by
    rw [TensorProto.elements, Nat.cast_list_prod, map_map]
    refine congrArg prod ?_
    conv_lhs => rw [← map_id t.dims]
    exact map_congr_left fun d hd => (Int.toNat_of_nonneg (h d hd)).symm
  have hone := hfold t.dims 1
  rw [one_mul, hprod] at hone
  change ((t.dims.map (BitVec.ofInt 32)).foldl (· * ·) (BitVec.ofInt 32 1)).toInt = _
  rw [hone, BitVec.toInt_ofInt]

theorem initialIndexCapacity_pos_iff (d : ℤ) : 0 < initialIndexCapacity d ↔ d ≤ 67108767 := by
  unfold initialIndexCapacity hnswM
  rw [Nat.div_pos_iff]
  split_ifs <;> omega

/-- **Which tensors an index can be made for.** -/
theorem compressible_floatTensor_iff (hfloat : t.dataType.isFloat) (hdims : ∀ d ∈ t.dims, 0 ≤ d)
    (hpos : 0 < t.elements) (hlt : t.elements < 2 ^ 64) :
    (floatTensor ops t).Compressible ↔ t.elements ≤ 67108767 := by
  have hlength : (floatTensor ops t).tensor.length = t.elements :=
    (length_floatTensor hfloat).trans (Nat.mod_eq_of_lt hlt)
  have hdimension : (floatTensor ops t).getDimension = _ := getDimension_floatTensor hdims
  constructor
  · intro h
    have hle := (initialIndexCapacity_pos_iff _).mp h.capacity
    rw [← h.length, hlength] at hle
    exact_mod_cast hle
  · intro h
    have hsmall : (t.elements : ℤ).bmod (2 ^ 32) = t.elements := by
      rw [Int.bmod_eq_of_le] <;> omega
    rw [hsmall] at hdimension
    refine ⟨?_, ?_, ?_⟩
    · rw [hlength, hdimension]
    · rw [hdimension]
      exact_mod_cast hpos
    · rw [hdimension, initialIndexCapacity_pos_iff]
      exact_mod_cast h

end Size

/-! ### What saving returns -/

section Save

variable {δ φ : Type} {ops : FloatOps} {s : CompressState δ φ} {m : GraphProto}

theorem floatTensors_map (ts : List TensorProto) :
    floatTensors (ts.map fun t => ⟨t.name, floatTensor ops t, none⟩) =
      ts.map (floatTensor ops) := by
  rw [floatTensors, filter_eq_self.mpr, map_map]
  · rfl
  · intro w hw
    obtain ⟨t, -, rfl⟩ := mem_map.mp hw
    rfl

theorem length_map_packet {page : List (Entry δ)} {ts : List TensorProto}
    (h : page.map Entry.tensor = ts.map (floatTensor ops)) :
    (page.map Entry.packet).length = ts.length := by
  have hlength := congrArg length h
  rw [length_map, length_map] at hlength
  rw [length_map, hlength]

theorem map_packet_deltaPage {ts : List TensorProto} {packets : List (DeltaPacket δ)}
    (h : packets.length = ts.length) :
    (deltaPage ts packets).map PageEntry.packet = packets.map .delta := by
  induction ts generalizing packets with
  | nil =>
    obtain rfl := length_eq_zero_iff.mp h
    rfl
  | cons t ts ih =>
    obtain ⟨p, packets, rfl⟩ := exists_cons_of_length_eq_add_one h
    exact congrArg (.delta p :: ·) (ih (Nat.succ.inj h))

theorem delta_mem_deltaPage {page : List (Entry δ)} {ts : List TensorProto} {p : DeltaPacket δ}
    (h : page.map Entry.tensor = ts.map (floatTensor ops)) :
    .delta p ∈ (deltaPage ts (page.map Entry.packet)).map PageEntry.packet ↔
      ∃ e ∈ page, e.packet = p := by
  rw [map_packet_deltaPage (length_map_packet h), map_map]
  simp

/-- **What `compress` returns**, for floating-point initializers that are not empty. -/
theorem compressed_iff {saved : SavedModel δ} :
    Compressed ops s m saved ↔
      (∀ t ∈ m.initializer, t.dataType.isFloat ∧ t.rawData ≠ []) ∧
        ∃ page ∈ s.pages, page.map Entry.tensor = m.initializer.map (floatTensor ops) ∧
          saved = ⟨{ m with initializer := [] },
            deltaPage m.initializer (page.map Entry.packet)⟩ := by
  have hplace : ∀ {page : List (Entry δ)},
      page.map Entry.tensor = m.initializer.map (floatTensor ops) →
      placePackets ops (m.initializer.map fun t => ⟨t.name, floatTensor ops t, none⟩)
        (page.map Entry.packet) = some (deltaPage m.initializer (page.map Entry.packet)) :=
    fun htensors => placePackets_eq (length_map_packet htensors)
  constructor
  · rintro ⟨weights, page, hextract, hpage, htensors, hplaced, hstructure⟩
    have hfloat := of_extractModelTensors hextract
    obtain rfl := Option.some.inj ((extractModelTensors_eq hfloat).symm.trans hextract)
    rw [floatTensors_map] at htensors
    rw [hplace htensors] at hplaced
    obtain ⟨structure', page'⟩ := saved
    obtain rfl := Option.some.inj hplaced
    obtain rfl : structure' = _ := hstructure
    exact ⟨hfloat, page, hpage, htensors, rfl⟩
  · rintro ⟨hfloat, page, hpage, htensors, rfl⟩
    exact ⟨_, page, extractModelTensors_eq hfloat, hpage,
      htensors.trans (floatTensors_map _).symm, hplace htensors, rfl⟩

end Save

/-! ### What loading finds -/

section Load

variable {δ φ : Type} {cops : CompressorOps δ} {fmt : IndexFormat φ} {maxBytes : ℤ}
  {s₀ s : CompressState δ φ} {ls : List CompressLabel} {page : List (Entry δ)}

theorem EntryOk.retrieveUInt8Quantized {e : Entry δ} (h : EntryOk cops fmt s.store e) :
    ((indexOf fmt s.store e.packet.key).retrieveUInt8Quantized e.packet.baseTensorId).isSome := by
  obtain ⟨raw, hraw, htensor⟩ := bind_eq_some_iff.mp h.2.1
  dsimp only at htensor
  rw [cops.length_dequantize] at htensor
  split at htensor
  · next hlength =>
    rw [HnswIndex.retrieveUInt8Quantized, hraw, bind_some, if_pos hlength]
    rfl
  · cases htensor

variable (h : CompressInv cops fmt s)

include h

/-- **A load gets the index** of a packet, if it fits into the cache next to those in use. -/
theorem takesBase_of_room {p : DeltaPacket δ} (hok : StoreOk fmt s.store)
    (hroom : s.store.cache.othersInUse p.key + fmt.space (indexOf fmt s.store p.key) ≤ maxBytes) :
    TakesBase cops fmt maxBytes s p (basesOf fmt s.store p) := by
  obtain ⟨⟨o, cache⟩, hget⟩ := h.store.cache.exists_get hok.space_nonneg hok.sizes hroom
  have hstep : compressStep cops fmt maxBytes s (.readerGet 0 p.key) =
      some { s with store := ⟨cache, ⟨.reader 0, p.key, o, []⟩ :: s.store.handles,
        s.store.released⟩ } := by
    rw [compressStep, cacheStep, hget]
    rfl
  have hrun : (compressSystem cops fmt maxBytes).Run s [.readerGet 0 p.key] _ := .cons hstep .nil
  refine ⟨_, _, 0, _, mem_cons_self, hrun, rfl, rfl, ?_⟩
  rw [(h.store.cache.get hget).2.2]
  rfl

variable (hpage : page ∈ s.pages)

include hpage

/-- **A load finds the base** of a packet, whatever has happened to the cache since it was saved. -/
theorem TakesBase.isSome {e : Entry δ} (he : e ∈ page) {base : Option QuantizedTensor}
    (hbase : TakesBase cops fmt maxBytes s e.packet base) : base.isSome := by
  obtain ⟨ls, s', n, x, hx, hrun, -, hkey, rfl⟩ := hbase
  -- the page stays, and so does what the invariant says of its packets
  have hlater : CompressInv cops fmt s' ∧ page ∈ s'.pages :=
    hrun.invariant (I := fun s => CompressInv cops fmt s ∧ page ∈ s.pages) ⟨h, hpage⟩
      fun _ _ _ h hstep => ⟨h.1.step hstep, pages_subset_of_step hstep page h.2⟩
  rw [heap_of_mem hlater.1.store hx, hkey]
  exact (hlater.1.pages page hlater.2 e he).retrieveUInt8Quantized

theorem stands_of_page {ops : FloatOps} {ts : List TensorProto} {bases : BaseTensors δ}
    (htensors : page.map Entry.tensor = ts.map (floatTensor ops))
    (hbases : ∀ e ∈ page, TakesBase cops fmt maxBytes s e.packet (bases e.packet)) :
    Forall₂ (Stands bases) ts (page.map Entry.packet) := by
  refine forall₂_map_right_iff.mpr (Forall₂.flip ?_)
  have hpairs : Forall₂ (fun (e : Entry δ) t => e.tensor = floatTensor ops t) page ts := by
    rwa [← forall₂_eq_eq_eq, forall₂_map_left_iff, forall₂_map_right_iff] at htensors
  refine (forall₂_and_left (p := (· ∈ page)) _ _).mpr ⟨fun _ he => he, hpairs⟩ |>.imp ?_
  rintro e t ⟨he, htensor⟩
  obtain ⟨hid, -, -, hshape, -⟩ := h.pages page hpage e he
  refine ⟨?_, Option.isSome_iff_exists.mp (TakesBase.isSome h hpage he (hbases e he)), hid⟩
  rw [hshape, htensor]
  rfl

end Load

/-! ### Which models are preserved -/

section Preservation

variable {δ φ : Type} {cops : CompressorOps δ} {fmt : IndexFormat φ} {maxBytes : ℤ}
  {s₀ s : CompressState δ φ} {ls : List CompressLabel} {page : List (Entry δ)} {ops : FloatOps}
  {m : OnnxModel}

theorem elements_bounds {t : TensorProto} (ht : t ∈ m.initializer) (hfloat : t.dataType.isFloat)
    (hraw : t.rawData ≠ []) (hmemory : t.rawData.length < 2 ^ 64) :
    0 < t.elements ∧ t.elements < 2 ^ 64 := by
  obtain ⟨n, hn, hpos⟩ : ∃ n, t.dataType.elementSize = some n ∧ 0 < n := by
    cases htype : t.dataType <;> simp [htype, DataType.isFloat, DataType.elementSize] at hfloat ⊢
  have hsize : t.rawData.length = n * t.elements := m.raw_size t ht n hn
  have hlength := length_pos_iff.mpr hraw
  rw [hsize] at hlength hmemory
  exact ⟨Nat.pos_of_mul_pos_left hlength, (Nat.le_mul_of_pos_left _ hpos).trans_lt hmemory⟩

variable (hmemory : ∀ t ∈ m.initializer, t.rawData.length < 2 ^ 64)

include hmemory

theorem Compressible.tensors (h : Compressible m.toGraphProto) :
    ∀ t ∈ m.initializer.map (floatTensor ops), t.Compressible := by
  intro tensor hmem
  obtain ⟨t, ht, rfl⟩ := mem_map.mp hmem
  obtain ⟨hpos, hlt⟩ := elements_bounds ht (h.float t ht) (h.nonempty t ht) (hmemory t ht)
  exact (compressible_floatTensor_iff (h.float t ht) (m.dims_nonneg t ht) hpos hlt).mpr
    (h.elements_le t ht)

/-- A call that has returned has put the tensors into indexes, or has found others there. -/
theorem compressible_of_page (h : CompressInv cops fmt s) (hok : StoreOk fmt s.store)
    (hquantize : ∀ t, (cops.quantize t).tensor.length = t.length) (hpage : page ∈ s.pages)
    (hfloat : ∀ t ∈ m.initializer, t.dataType.isFloat ∧ t.rawData ≠ [])
    (htensors : page.map Entry.tensor = m.initializer.map (floatTensor ops)) :
    Compressible m.toGraphProto := by
  refine ⟨fun t ht => (hfloat t ht).1, fun t ht => (hfloat t ht).2, fun t ht => ?_⟩
  obtain ⟨hpos, hlt⟩ := elements_bounds ht (hfloat t ht).1 (hfloat t ht).2 (hmemory t ht)
  have hmem : floatTensor ops t ∈ page.map Entry.tensor := htensors ▸ mem_map_of_mem ht
  obtain ⟨e, he, heq⟩ := mem_map.mp hmem
  obtain ⟨-, hretrieve, -, hshape, hfits⟩ := h.pages page hpage e he
  have hindex := hok.indexes e.packet.key
  have hdimension : e.packet.key.dimension = (floatTensor ops t).getDimension := by
    rw [← heq, TensorF64.getDimension, ← hshape]
    rfl
  have hlength : ((floatTensor ops t).tensor.length : ℤ) = (floatTensor ops t).getDimension := by
    rw [← hdimension, ← hindex.dimension, ← heq, ← hquantize]
    exact hfits
  obtain ⟨raw, hraw, -⟩ := bind_eq_some_iff.mp hretrieve
  have hcompressible : (floatTensor ops t).Compressible := by
    refine ⟨hlength, ?_, hdimension ▸ hindex.capacity_pos hraw⟩
    rw [← hlength, length_floatTensor (hfloat t ht).1, TensorProto.totalSize]
    exact_mod_cast (Nat.mod_eq_of_lt hlt).symm ▸ hpos
  exact (compressible_floatTensor_iff (hfloat t ht).1 (m.dims_nonneg t ht) hpos hlt).mp
    hcompressible

end Preservation

namespace ModelExample

open CompressExample

/-- The compressor of two calls, without the deltas. -/
def compressor : CompressorOps Unit where
  toQuantizer := CompressExample.ops.toQuantizer
  deltaCompress _ _ := ()
  selectAsRepresentative _ _ := false

theorem length_quantize (t : List Double) : (compressor.quantize t).tensor.length = t.length := by
  change (t.flatMap fun x => leBytes 1 x.toNat).length = _
  simp [length_flatMap]

theorem space_nonneg (a : HnswIndex) : 0 ≤ format.space a :=
  Int.natCast_nonneg (a.points.length + 1)

/-- No index has been written yet. -/
def start : CompressState Unit HnswIndex := ⟨init.store, fun _ => none, []⟩

theorem init_start : (compressSystem compressor format 3).init start :=
  ⟨⟨rfl, rfl, rfl, rfl, rfl, rfl, rfl, rfl⟩, rfl, rfl⟩

def tensors : List TensorF64 := floatModel.initializer.map (floatTensor ops.toFloatOps)

/-- Both tensors of the layer are inserted. -/
def saveLabels : List CompressLabel :=
  [.start 0 tensors] ++ body 0 0 (-1) ++ body 0 1 (-1) ++
    [.getIndex 0 ⟨2, 0⟩, .insert 0 (pending 0 1 0), .releaseIndex 0,
      .getIndex 0 ⟨1, 0⟩, .insert 0 ⟨1, 0, compressor.quantize [2], 1⟩, .releaseIndex 0, .finish 0]

theorem loadable_floatModel : Loadable floatModel.toGraphProto :=
  ⟨by decide, by decide, by decide, by decide, by decide +kernel, by decide +kernel⟩

/-- After the run, each index fits into the cache. -/
theorem exists_saved : ∃ s, (compressSystem compressor format 3).Run start saveLabels s ∧
    ∃ page ∈ s.pages, page.map Entry.tensor = tensors ∧
      ∀ e ∈ page, s.store.cache.othersInUse e.packet.key +
        format.space (indexOf format s.store e.packet.key) ≤ 3 :=
  System.exists_run_of_exec (by decide +kernel) fun _ _ h => h

end ModelExample

/-! ### The results -/

section Results

variable {δ φ : Type} {cops : CompressorOps δ} {fmt : IndexFormat φ} {maxBytes : ℤ}
  {s₀ s : CompressState δ φ} {ls : List CompressLabel} {page : List (Entry δ)} {m : OnnxModel}

/-- **Which models survive saving and loading.** Take any run from sound index files, and a model
whose data fits into memory.

The extraction succeeds for floating-point initializers with data. Where the elements are not too
many, a call with the tensors of the model goes on: as long as its indexes fit into the cache, each
step it may take next is possible and brings it closer to its end, where `compress` returns.

For no other model does it return; and a model it has returned for is preserved by all load modes,
with the bases they take out of the indexes then, exactly if it is loadable. -/
theorem initializers_preserved_iff (lops : LoadOps δ)
    (hmemory : ∀ t ∈ m.initializer, t.rawData.length < 2 ^ 64) (hspace : ∀ a, 0 ≤ fmt.space a)
    (hquantize : ∀ t, (cops.quantize t).tensor.length = t.length)
    (h₀ : (compressSystem cops fmt maxBytes).init s₀) (hfiles : ∀ k, (indexOf fmt s₀.store k).Ok k)
    (hrun : (compressSystem cops fmt maxBytes).Run s₀ ls s) :
    ((extractModelTensors lops.toFloatOps m.toGraphProto).isSome ↔
      ∀ t ∈ m.initializer, t.dataType.isFloat ∧ t.rawData ≠ []) ∧
    (Compressible m.toGraphProto → ∀ c call, s.calls c = some call →
      (extractModelTensors lops.toFloatOps m.toGraphProto).map floatTensors = some call.tensors →
      HasRoom fmt maxBytes s.store call.tensors →
      (∃ l, call.Next s.store c l) ∧ ∀ l, call.Next s.store c l →
        ∃ s', compressStep cops fmt maxBytes s l = some s' ∧ s'.stepsLeft c < s.stepsLeft c ∧
          (s'.calls c = none → ∃ saved, Compressed lops.toFloatOps s' m.toGraphProto saved)) ∧
    ∀ saved, Compressed lops.toFloatOps s m.toGraphProto saved →
      Compressible m.toGraphProto ∧
      ∀ bases : BaseTensors δ, (∀ p, .delta p ∈ saved.page.map PageEntry.packet →
          TakesBase cops fmt maxBytes s p (bases p)) →
        ((∀ mode, ∃ g, load lops bases mode saved = some g ∧ Preserved m.toGraphProto mode g) ↔
          Loadable m.toGraphProto) := by
  have hinv := CompressInv.of_run h₀ hrun
  have hok := StoreOk.of_run hspace h₀ hfiles hrun
  refine ⟨⟨fun h => ?_, fun h => ?_⟩, fun hm c call hcall htensors hroom => ?_,
    fun saved hsaved => ?_⟩
  · obtain ⟨weights, hweights⟩ := Option.isSome_iff_exists.mp h
    exact of_extractModelTensors hweights
  · rw [extractModelTensors_eq h]
    rfl
  · have hfloat := fun t ht => And.intro (hm.float t ht) (hm.nonempty t ht)
    rw [extractModelTensors_eq hfloat, Option.map_some, floatTensors_map] at htensors
    have hcall' := Option.some.inj htensors
    refine ⟨call.exists_next s.store c, fun l hl => ?_⟩
    obtain ⟨s', hstep, hlt⟩ := hl.enabled hinv hok hquantize hcall
      (hcall' ▸ hm.tensors hmemory) hroom
    refine ⟨s', hstep, hlt, fun hreturn => ?_⟩
    obtain ⟨page, hpage, hpage'⟩ := hinv.exists_page_of_return hcall hstep hreturn
    exact ⟨_, compressed_iff.mpr ⟨hfloat, page, hpage, hpage'.trans hcall'.symm, rfl⟩⟩
  · obtain ⟨hfloat, page, hpage, htensors, rfl⟩ := compressed_iff.mp hsaved
    refine ⟨compressible_of_page hmemory hinv hok hquantize hpage hfloat htensors,
      fun bases hbases => ?_⟩
    have htake : ∀ e ∈ page, TakesBase cops fmt maxBytes s e.packet (bases e.packet) :=
      fun e he => hbases e.packet ((delta_mem_deltaPage htensors).mpr ⟨e, he, rfl⟩)
    exact preserved_iff_loadable lops hfloat (stands_of_page hinv hpage htensors htake)

open ModelExample CompressExample in
/-- The layer: a call with its tensors goes on from its start, and what it returns for is
preserved. -/
theorem initializers_preserved_float :
    (∃ s call, (compressSystem compressor format 3).Run start [.start 0 tensors] s ∧
      s.calls 0 = some call ∧ ∀ l, call.Next s.store 0 l →
        ∃ s', compressStep compressor format 3 s l = some s' ∧ s'.stepsLeft 0 < s.stepsLeft 0) ∧
    ∃ s, (compressSystem compressor format 3).Run start saveLabels s ∧ ∃ saved bases,
      Compressed ModelExample.ops.toFloatOps s floatModel.toGraphProto saved ∧
      ∀ mode, ∃ g, load ModelExample.ops bases mode saved = some g ∧
        Preserved floatModel.toGraphProto mode g := by
  have hmemory : ∀ t ∈ floatModel.initializer, t.rawData.length < 2 ^ 64 := by decide
  have hfiles : ∀ k, (indexOf format start.store k).Ok k := HnswIndex.Ok.new
  constructor
  · have hrun : (compressSystem compressor format 3).Run start [.start 0 tensors] _ :=
      .cons rfl .nil
    refine ⟨_, _, hrun, rfl, fun l hl => ?_⟩
    obtain ⟨-, hgo, -⟩ := initializers_preserved_iff ModelExample.ops hmemory space_nonneg
      length_quantize init_start hfiles hrun
    obtain ⟨-, hnext⟩ := hgo ⟨by decide, by decide, by decide⟩ 0 _ rfl rfl fun t _ k _ =>
      (by decide : (0 : ℤ) + ((0 : ℕ) + 1) ≤ 3)
    obtain ⟨s', hstep, hlt, -⟩ := hnext l hl
    exact ⟨s', hstep, hlt⟩
  · obtain ⟨s, hrun, page, hpage, htensors, hroom⟩ := exists_saved
    have hinv := CompressInv.of_run init_start hrun
    have hok := StoreOk.of_run space_nonneg init_start hfiles hrun
    have hsaved := (compressed_iff (m := floatModel.toGraphProto)).mpr
      ⟨by decide, page, hpage, htensors, rfl⟩
    obtain ⟨-, -, hload⟩ := initializers_preserved_iff ModelExample.ops hmemory space_nonneg
      length_quantize init_start hfiles hrun
    refine ⟨s, hrun, _, _, hsaved, ((hload _ hsaved).2 (basesOf format s.store) ?_).mpr
      loadable_floatModel⟩
    intro p hp
    obtain ⟨e, he, rfl⟩ := (delta_mem_deltaPage htensors).mp hp
    exact takesBase_of_room hinv hok (hroom e he)

open ModelExample in
/-- The one initializer has one of the integer types. -/
theorem initializer_int8_rejected :
    intModel.initializer.map TensorProto.dataType = [.int .int8] ∧
      extractModelTensors ops.toFloatOps intModel.toGraphProto = none ∧
      ∀ (s : CompressState Unit HnswIndex) saved,
        ¬Compressed ops.toFloatOps s intModel.toGraphProto saved := by
  have hnone : extractModelTensors ops.toFloatOps intModel.toGraphProto = none := rfl
  refine ⟨rfl, hnone, ?_⟩
  rintro s saved ⟨weights, page, hextract, -⟩
  rw [hnone] at hextract
  cases hextract

end Results

end NeurDB.NeurStore
