import NeurDB.NeurStore.SaveLoad

/-!
# The form of loaded graphs

A graph is well formed if every value has one definition, every node says what it computes, and
every node reads only what is defined. The three load modes that put nodes into a graph are meant
to keep this.

They do so for floating-point tensors with names that leave room for the generated ones
(`names_of_float`). For an integer tensor, `reconstructModelF16` leaves the place of its node empty
and adds the node all the same, and the two modes with bytes add the nodes that would dequantize
it; these define the name of the tensor a second time and read initializers that are not there.
Generated names are not compared with those of the graph. `loaded_wellFormed_iff` says that this is
all that goes wrong.
-/

namespace NeurDB.NeurStore

open List

/-- The names of all values: of initializers, of outputs of nodes, and of inputs. -/
def GraphProto.valueNames (g : GraphProto) : List Text :=
  g.initializerNames ++ (g.outputNames ++ g.input)

/-- A graph as ONNX wants it. An input of a node that is left out has an empty name. -/
structure WellFormed (g : GraphProto) : Prop where
  named : ∀ t ∈ g.initializer, t.name ≠ []
  once : g.valueNames.Nodup
  opType : ∀ n ∈ g.node, n.opType ≠ .other []
  defined : ∀ n ∈ g.node, ∀ x ∈ n.input, x ≠ [] → x ∈ g.valueNames

/-- The bases of a page are where its packets say. -/
def Available {δ : Type} (bases : BaseTensors δ) (page : List (PageEntry δ)) : Prop :=
  ∀ e ∈ page, ∀ p, e.packet = .delta p → p.baseTensorId ≠ -1 ∧ (bases p).isSome

/-! ### What loading makes of one tensor -/

namespace PageEntry

variable {δ : Type}

/-- The names of the initializers of a tensor. -/
def initializerNames (mode : LoadMode) (e : PageEntry δ) : List Text :=
  match e.packet with
  | .int _ => [e.name]
  | .delta _ => mode.initializerNew.map (e.name ++ ·)

/-- The nodes of a tensor. -/
def nodes (mode : LoadMode) (e : PageEntry δ) : List NodeProto :=
  match mode, e.packet with
  | .float16, .int _ => [{ opType := .other [], input := [], output := [], attributes := [] }]
  | mode, _ => mode.nodes e.name

theorem initializerNames_ne_nil (mode : LoadMode) {e : PageEntry δ}
    (hname : e.name ≠ []) : ∀ x ∈ e.initializerNames mode, x ≠ [] := by
  intro x hx
  unfold initializerNames at hx
  split at hx
  · rwa [mem_singleton.mp hx]
  · obtain ⟨s, -, rfl⟩ := mem_map.mp hx
    simp [hname]

end PageEntry

theorem map_name_named (ts : List TensorProto) :
    (named ts).map TensorProto.name = (ts.map TensorProto.name).filter (· ≠ []) := by
  rw [named, filter_map]
  rfl

section Load

variable {δ : Type} (ops : LoadOps δ) {bases : BaseTensors δ} (m : GraphProto)
  {page : List (PageEntry δ)} {mode : LoadMode}

theorem map_name_named_eq (hname : ∀ e ∈ page, e.name ≠ []) {ts : List TensorProto}
    (hts : ts.map TensorProto.name = page.flatMap (PageEntry.initializerNames mode)) :
    (named ts).map TensorProto.name = page.flatMap (PageEntry.initializerNames mode) := by
  rw [map_name_named, hts]
  refine filter_eq_self.mpr fun x hx => ?_
  obtain ⟨e, he, hx⟩ := mem_flatMap.mp hx
  exact decide_eq_true (e.initializerNames_ne_nil mode (hname e he) x hx)

variable {e : PageEntry δ}

theorem decompressFloat16_eq (hpage : Available bases page) (he : e ∈ page) :
    ∃ w, decompressFloat16 ops bases e = some w ∧
      ([(modelInitializerF16 ops w).name], [modelNodeF16 w]) =
        (e.initializerNames .float16, e.nodes .float16) := by
  obtain ⟨name, packet⟩ := e
  cases packet with
  | int p => exact ⟨_, rfl, rfl⟩
  | delta p =>
    obtain ⟨hid, hsome⟩ := hpage _ he p rfl
    obtain ⟨base, hretrieve⟩ := Option.isSome_iff_exists.mp hsome
    have hbase : baseOf bases p = some base := by rw [baseOf, if_neg hid, hretrieve]
    exact ⟨_, congrArg (Option.map _) hbase, rfl⟩

/-- The two modes with bytes read the same base. -/
theorem modelInitializers_eq (hpage : Available bases page) (he : e ∈ page) :
    (∃ ts, modelInitializersUInt8 ops bases e = some ts ∧
      ts.map TensorProto.name = e.initializerNames .int8) ∧
    ∃ ts, modelInitializersUInt8WithDelta ops bases e = some ts ∧
      ts.map TensorProto.name = e.initializerNames .int8Delta := by
  obtain ⟨name, packet⟩ := e
  cases packet with
  | int p => exact ⟨⟨_, rfl, rfl⟩, _, rfl, rfl⟩
  | delta p =>
    obtain ⟨base, hbase⟩ := Option.isSome_iff_exists.mp (hpage _ he p rfl).2
    exact ⟨⟨_, congrArg (Option.map _) hbase, rfl⟩, _, congrArg (Option.map _) hbase, rfl⟩

/-- **What loading makes of a graph**: its nodes, the names of its initializers, its inputs. -/
theorem load_eq (hmode : mode ≠ .float32) (hpage : Available bases page)
    (hname : ∀ e ∈ page, e.name ≠ []) :
    ∃ g, load ops bases mode ⟨m, page⟩ = some g ∧
      g.node = m.node ++ page.flatMap (PageEntry.nodes mode) ∧
      g.initializerNames = page.flatMap (PageEntry.initializerNames mode) ∧
      g.input = m.input := by
  cases mode with
  | float32 => exact absurd rfl hmode
  | float16 =>
    obtain ⟨ws, hws, hmap⟩ :=
      exists_mapM_map fun _ he => decompressFloat16_eq ops hpage he
    have hnames := congrArg (fun l => (l.map Prod.fst).flatten) hmap
    have hnodes := congrArg (fun l => (l.map Prod.snd).flatten) hmap
    simp only [map_map] at hnames hnodes
    refine ⟨reconstructModelF16 ops ws m, ?_, ?_, map_name_named_eq hname ?_, rfl⟩
    · rw [load, hws, Option.map_some]
    · refine congrArg (m.node ++ ·) (Eq.trans ?_ hnodes)
      exact map_eq_flatMap
    · rw [map_map]
      exact Eq.trans map_eq_flatMap hnames
  | int8 =>
    obtain ⟨tss, htss, hmap⟩ :=
      exists_mapM_map fun _ he => (modelInitializers_eq ops hpage he).1
    refine ⟨_, congrArg (Option.map _) htss, rfl, map_name_named_eq hname ?_, rfl⟩
    rw [map_flatten, hmap]
    rfl
  | int8Delta =>
    obtain ⟨tss, htss, hmap⟩ :=
      exists_mapM_map fun _ he => (modelInitializers_eq ops hpage he).2
    refine ⟨_, congrArg (Option.map _) htss, rfl, map_name_named_eq hname ?_, rfl⟩
    rw [map_flatten, hmap]
    rfl

end Load

/-! ### The new nodes -/

namespace LoadMode

theorem input_nodes (mode : LoadMode) (x : Text) :
    ∀ n ∈ mode.nodes x, ∀ y ∈ n.input,
      y ∈ (mode.initializerNew ++ mode.outputNew).map (x ++ ·) := by
  cases mode <;>
    simp [nodes, castNode, nodesUInt8, nodesUInt8WithDelta, dequantizeNode, addNode,
      initializerNew, outputNew, outputSuffixes]

theorem opType_nodes (mode : LoadMode) (x : Text) : ∀ n ∈ mode.nodes x, n.opType ≠ .other [] := by
  cases mode <;>
    simp [nodes, castNode, nodesUInt8, nodesUInt8WithDelta, dequantizeNode, addNode]

theorem outputSelf_eq {mode : LoadMode} (hmode : mode ≠ .float32) : mode.outputSelf = [[]] := by
  cases mode
  · exact absurd rfl hmode
  all_goals rfl

theorem nodup_new (mode : LoadMode) (hmode : mode ≠ .float32) {names : List Text}
    (hnames : names.Nodup) :
    (withSuffixes (mode.initializerNew ++ mode.outputNew) names).Nodup := by
  have hfree : SuffixFree (mode.initializerNew ++ mode.outputNew) := by
    cases mode
    · exact absurd rfl hmode
    all_goals decide +kernel
  have hnodup : (mode.initializerNew ++ mode.outputNew).Nodup := by
    cases mode <;> decide
  exact (Separates.of_free hfree names).nodup hnodup hnames

end LoadMode

/-! ### Floating-point tensors -/

section Graph

variable {δ : Type} {mode : LoadMode} {m g : GraphProto} {page : List (PageEntry δ)}

section Float

variable (hfloat : ∀ e ∈ page, ∃ p, e.packet = .delta p)

include hfloat

theorem initializerNames_of_float :
    page.flatMap (PageEntry.initializerNames mode) =
      withSuffixes mode.initializerNew (page.map PageEntry.name) := by
  rw [withSuffixes, flatMap_map]
  refine flatMap_congr fun e he => ?_
  obtain ⟨p, hp⟩ := hfloat e he
  rw [PageEntry.initializerNames, hp]

theorem nodes_of_float :
    page.flatMap (PageEntry.nodes mode) = (page.map PageEntry.name).flatMap mode.nodes := by
  rw [flatMap_map]
  refine flatMap_congr fun e he => ?_
  obtain ⟨name, packet⟩ := e
  obtain ⟨p, rfl⟩ := hfloat _ he
  cases mode <;> rfl

end Float

variable (hmode : mode ≠ .float32)
  (hnode : g.node = m.node ++ page.flatMap (PageEntry.nodes mode))
  (hinit : g.initializerNames = page.flatMap (PageEntry.initializerNames mode))

include hmode hnode hinit

section Float

variable (hfloat : ∀ e ∈ page, ∃ p, e.packet = .delta p)
  (hnames : page.map PageEntry.name = m.initializerNames) (hinput : g.input = m.input)

include hfloat hnames hinput

/-- **The names of a graph of floating-point tensors**: the generated ones, and those it had. -/
theorem names_of_float (hname : ∀ x ∈ m.initializerNames, x ≠ []) :
    g.valueNames.Perm
      (withSuffixes (mode.initializerNew ++ mode.outputNew) m.initializerNames ++
        m.valueNames) := by
  have houtput : g.outputNames = m.outputNames ++
      withSuffixes (mode.outputNew ++ mode.outputSelf) m.initializerNames := by
    have hone : m.initializerNames.flatMap (fun x => (mode.nodes x).flatMap fun n =>
        n.output.filter (· ≠ [])) =
          withSuffixes (mode.outputNew ++ mode.outputSelf) m.initializerNames :=
      flatMap_congr fun x hx => mode.namedOutput_nodes (hname x hx)
    rw [GraphProto.outputNames, hnode, nodes_of_float hfloat, hnames, flatMap_append,
      flatMap_assoc, hone]
    rfl
  rw [initializerNames_of_float hfloat, hnames] at hinit
  rw [perm_iff_count]
  intro y
  rw [GraphProto.valueNames, GraphProto.valueNames, hinit, houtput, hinput,
    LoadMode.outputSelf_eq hmode]
  simp only [count_append, count_withSuffixes_append, withSuffixes_nil]
  omega

theorem wellFormed_of_float (hm : WellFormed m) :
    WellFormed g ↔ ∀ x ∈ m.initializerNames, ∀ s ∈ mode.initializerNew ++ mode.outputNew,
      x ++ s ∉ m.valueNames := by
  have hname : ∀ x ∈ m.initializerNames, x ≠ [] := by
    intro x hx
    obtain ⟨t, ht, rfl⟩ := mem_map.mp hx
    exact hm.named t ht
  have hperm := names_of_float hmode hnode hinit hfloat hnames hinput hname
  have hold : m.initializerNames.Nodup := (nodup_append'.mp hm.once).1
  have honce : g.valueNames.Nodup ↔
      (withSuffixes (mode.initializerNew ++ mode.outputNew) m.initializerNames).Disjoint
        m.valueNames := by
    rw [hperm.nodup_iff, nodup_append']
    exact ⟨fun h => h.2.2, fun h => ⟨mode.nodup_new hmode hold, hm.once, h⟩⟩
  constructor
  · intro h x hx s hs hmem
    exact honce.mp h.once (mem_withSuffixes.mpr ⟨x, hx, s, hs, rfl⟩) hmem
  · intro hfresh
    refine ⟨fun t ht => ?_, honce.mpr ?_, fun n hn => ?_, fun n hn y hy hne => ?_⟩
    · have hmem : t.name ∈ g.initializerNames := mem_map_of_mem ht
      rw [hinit, mem_flatMap] at hmem
      obtain ⟨e, he, hmem⟩ := hmem
      exact e.initializerNames_ne_nil mode
        (hname _ (hnames ▸ mem_map_of_mem he)) _ hmem
    · intro y hy hmem
      obtain ⟨x, hx, s, hs, rfl⟩ := mem_withSuffixes.mp hy
      exact hfresh x hx s hs hmem
    · rw [hnode, nodes_of_float hfloat, mem_append, mem_flatMap] at hn
      rcases hn with hn | ⟨x, -, hn⟩
      · exact hm.opType n hn
      · exact mode.opType_nodes x n hn
    · -- an old node reads an old name, a new one what is generated for its tensor
      rw [hnode, nodes_of_float hfloat, mem_append, mem_flatMap] at hn
      rw [hperm.mem_iff, mem_append]
      rcases hn with hn | ⟨x, hx, hn⟩
      · exact Or.inr (hm.defined n hn y hy hne)
      · obtain ⟨s, hs, rfl⟩ := mem_map.mp (mode.input_nodes x n hn y hy)
        exact Or.inl (mem_withSuffixes.mpr ⟨x, hnames ▸ hx, s, hs, rfl⟩)

end Float

/-- An integer tensor leaves a node without an operation, or its name is defined twice. -/
theorem not_wellFormed_of_int (hname : ∀ e ∈ page, e.name ≠ []) {e : PageEntry δ} (he : e ∈ page)
    {packet : IntTensorPacket} (hint : e.packet = .int packet) :
    ¬WellFormed g := by
  intro h
  by_cases hf16 : mode = .float16
  · subst hf16
    have hempty : (⟨.other [], [], [], []⟩ : NodeProto) ∈ e.nodes .float16 := by
      obtain ⟨name, packet'⟩ := e
      obtain rfl : packet' = .int packet := hint
      exact mem_singleton.mpr rfl
    have hmem : (⟨.other [], [], [], []⟩ : NodeProto) ∈ g.node := by
      rw [hnode]
      exact mem_append_right _ (mem_flatMap.mpr ⟨e, he, hempty⟩)
    exact h.opType _ hmem rfl
  · -- the other modes add the nodes of a floating-point tensor
    have hnodes : e.nodes mode = mode.nodes e.name := by
      cases mode
      · exact absurd rfl hmode
      · exact absurd rfl hf16
      all_goals rfl
    have hin : e.name ∈ g.initializerNames := by
      rw [hinit, mem_flatMap]
      refine ⟨e, he, ?_⟩
      rw [PageEntry.initializerNames, hint]
      exact mem_singleton.mpr rfl
    have hself : e.name ∈ (mode.nodes e.name).flatMap (fun n => n.output.filter (· ≠ [])) := by
      rw [mode.namedOutput_nodes (hname e he), LoadMode.outputSelf_eq hmode]
      exact mem_map.mpr ⟨[], mem_append_right _ (mem_singleton.mpr rfl), append_nil _⟩
    have hout : e.name ∈ g.outputNames := by
      obtain ⟨n, hn, hmem⟩ := mem_flatMap.mp hself
      refine mem_flatMap.mpr ⟨n, ?_, hmem⟩
      rw [hnode]
      exact mem_append_right _ (mem_flatMap.mpr ⟨e, he, hnodes ▸ hn⟩)
    exact (nodup_append'.mp h.once).2.2 hin (mem_append_left _ hout)

end Graph

/-- **The loaded graphs that are well formed**: those of models without integer initializers in
which no generated name is taken. -/
theorem loaded_wellFormed_iff {δ : Type} (ops : LoadOps δ) (bases : BaseTensors δ)
    (m : GraphProto) (page : List (PageEntry δ)) (mode : LoadMode) (hmode : mode ≠ .float32)
    (hm : WellFormed m) (hnames : page.map PageEntry.name = m.initializerNames)
    (hpage : Available bases page) :
    ∃ g, load ops bases mode ⟨{ m with initializer := [] }, page⟩ = some g ∧
      (WellFormed g ↔
        (∀ e ∈ page, ∃ p, e.packet = .delta p) ∧
          ∀ x ∈ m.initializerNames, ∀ s ∈ mode.initializerNew ++ mode.outputNew,
            x ++ s ∉ m.valueNames) := by
  have hname : ∀ e ∈ page, e.name ≠ [] := by
    intro e he
    have hmem : e.name ∈ m.initializerNames := hnames ▸ mem_map_of_mem he
    obtain ⟨t, ht, heq⟩ := mem_map.mp hmem
    exact heq ▸ hm.named t ht
  obtain ⟨g, hg, hnode, hinit, hinput⟩ :=
    load_eq ops { m with initializer := [] } hmode hpage hname
  refine ⟨g, hg, ?_⟩
  by_cases hfloat : ∀ e ∈ page, ∃ p, e.packet = .delta p
  · rw [wellFormed_of_float (m := m) hmode hnode hinit hfloat hnames hinput hm]
    exact (and_iff_right hfloat).symm
  · push Not at hfloat
    obtain ⟨e, he, hnot⟩ := hfloat
    have hint : ∃ packet, e.packet = .int packet := by
      cases hp : e.packet with
      | int packet => exact ⟨packet, rfl⟩
      | delta p => exact absurd hp (hnot p)
    obtain ⟨packet, hint⟩ := hint
    refine iff_of_false (not_wellFormed_of_int hmode hnode hinit hname he hint) ?_
    rintro ⟨hall, -⟩
    obtain ⟨p, hp⟩ := hall e he
    exact hnot p hp

namespace ModelExample

/-- The page of the layer. -/
def floatPage : List (PageEntry Unit) :=
  [⟨ascii "w", .delta ⟨[2], (), 0, 0⟩⟩, ⟨ascii "b", .delta ⟨[1, 1], (), 0, 0⟩⟩]

/-- The page of the graph with the integer `5`. -/
def intPage : List (PageEntry Unit) := [⟨ascii "w", .int ⟨.int8, 1, [1], leBytes 1 5⟩⟩]

/-- The same base for every packet. -/
def bases : BaseTensors Unit := fun _ => some ⟨[], 0, 0⟩

theorem available (page : List (PageEntry Unit))
    (h : ∀ e ∈ page, ∀ p, e.packet = .delta p → p.baseTensorId ≠ -1) : Available bases page :=
  fun e he p hp => ⟨h e he p hp, rfl⟩

end ModelExample

open ModelExample in
theorem float_layer_wellFormed :
    ∃ g, load ops bases .int8Delta
        ⟨{ floatModel.toGraphProto with initializer := [] }, floatPage⟩ = some g ∧
      WellFormed g := by
  have hm : WellFormed floatModel.toGraphProto :=
    ⟨by decide, by decide, by decide, by decide⟩
  have hpage : Available bases floatPage := available _ (by simp [floatPage])
  obtain ⟨g, hg, hiff⟩ := loaded_wellFormed_iff ops bases floatModel.toGraphProto floatPage
    .int8Delta (by decide) hm rfl hpage
  refine ⟨g, hg, hiff.mpr ⟨?_, by decide +kernel⟩⟩
  exact forall_mem_cons.mpr ⟨⟨_, rfl⟩, forall_mem_singleton.mpr ⟨_, rfl⟩⟩

open ModelExample in
/-- One integer initializer, and no graph that is loaded is well formed. -/
theorem int_tensor_malformed :
    WellFormed intModel.toGraphProto ∧ ∀ mode, mode ≠ .float32 →
      ∃ g, load ops bases mode ⟨{ intModel.toGraphProto with initializer := [] }, intPage⟩ =
          some g ∧ ¬WellFormed g := by
  refine ⟨⟨by decide, by decide, by decide, by decide⟩, fun mode hmode => ?_⟩
  have hpage : Available bases intPage := available _ (by simp [intPage])
  have hname : ∀ e ∈ intPage, e.name ≠ [] := by
    intro e he
    obtain rfl := mem_singleton.mp he
    decide
  obtain ⟨g, hg, hnode, hinit, -⟩ :=
    load_eq ops { intModel.toGraphProto with initializer := [] } hmode hpage hname
  exact ⟨g, hg, not_wellFormed_of_int hmode hnode hinit hname (mem_singleton.mpr rfl) rfl⟩

/-! ### A name that is taken -/

theorem available_of_stands {δ : Type} {bases : BaseTensors δ} {ts : List TensorProto}
    {packets : List (DeltaPacket δ)} (h : Forall₂ (Stands bases) ts packets) :
    Available bases (deltaPage ts packets) ∧
      ∀ e ∈ deltaPage ts packets, ∃ p, e.packet = .delta p := by
  induction h with
  | nil => exact ⟨nofun, nofun⟩
  | @cons t p ts packets hp _ ih =>
    refine ⟨forall_mem_cons.mpr ⟨?_, ih.1⟩, forall_mem_cons.mpr ⟨⟨p, rfl⟩, ih.2⟩⟩
    rintro _ ⟨⟩
    exact ⟨hp.id, Option.isSome_iff_exists.mpr hp.base⟩

namespace ModelExample

open CompressExample

/-- Two floating-point initializers, one with the name that `float16` generates for the other. -/
def takenModel : OnnxModel where
  node := [addNode (ascii "x") (ascii "x_f16") (ascii "y")]
  initializer :=
    [⟨ascii "x", [1], .double, leBytes 8 2⟩, ⟨ascii "x_f16", [1], .double, leBytes 8 3⟩]
  input := []
  dims_nonneg := by decide
  raw_size := by simp [DataType.elementSize]
  name_ne := by decide
  nodup := by decide
  input_nodup := nodup_nil
  input_not_output := disjoint_nil_left _

def takenLabels : List CompressLabel :=
  [.start 0 (takenModel.initializer.map (floatTensor ops.toFloatOps))] ++
    body 0 0 (-1) ++ body 0 1 (-1) ++
    [.getIndex 0 ⟨1, 0⟩, .insert 0 ⟨1, 0, compressor.quantize [2], 0⟩,
      .insert 0 ⟨1, 0, compressor.quantize [3], 1⟩, .releaseIndex 0, .finish 0]

end ModelExample

open ModelExample CompressExample in
/-- **A generated name is taken.** The model is saved, and what `float16` loads defines `x_f16`
twice. -/
theorem taken_name_malformed :
    WellFormed takenModel.toGraphProto ∧
    ∃ s, (compressSystem compressor format 3).Run start takenLabels s ∧ ∃ saved bases g,
      Compressed ModelExample.ops.toFloatOps s takenModel.toGraphProto saved ∧
      (∀ p, .delta p ∈ saved.page.map PageEntry.packet →
        TakesBase compressor format 3 s p (bases p)) ∧
      load ModelExample.ops bases .float16 saved = some g ∧ ¬WellFormed g := by
  have hm : WellFormed takenModel.toGraphProto := ⟨by decide, by decide, by decide, by decide⟩
  obtain ⟨s, hrun, page, hpage, htensors, hroom⟩ : ∃ s,
      (compressSystem compressor format 3).Run start takenLabels s ∧ ∃ page ∈ s.pages,
        page.map Entry.tensor =
            takenModel.initializer.map (floatTensor ModelExample.ops.toFloatOps) ∧
          ∀ e ∈ page, s.store.cache.othersInUse e.packet.key +
            format.space (indexOf format s.store e.packet.key) ≤ 3 :=
    System.exists_run_of_exec (by decide +kernel) fun _ _ h => h
  have hinv := CompressInv.of_run init_start hrun
  have hok := StoreOk.of_run space_nonneg init_start HnswIndex.Ok.new hrun
  have htake := fun e he => takesBase_of_room hinv hok (hroom e he)
  have hstands := stands_of_page hinv hpage htensors htake
  obtain ⟨havailable, hfloat⟩ := available_of_stands hstands
  have hnames := map_name_deltaPage hstands
  have hname : ∀ e ∈ deltaPage takenModel.initializer (page.map Entry.packet), e.name ≠ [] := by
    intro e he
    obtain ⟨t, ht, heq⟩ := mem_map.mp (hnames ▸ mem_map_of_mem he)
    exact heq ▸ takenModel.name_ne t ht
  obtain ⟨g, hg, hnode, hinit, hinput⟩ := load_eq ModelExample.ops
    { takenModel.toGraphProto with initializer := [] } (by decide : LoadMode.float16 ≠ .float32)
    havailable hname
  refine ⟨hm, s, hrun, _, basesOf format s.store, g,
    compressed_iff.mpr ⟨by decide, page, hpage, htensors, rfl⟩, ?_, hg, ?_⟩
  · intro p hp
    obtain ⟨e, he, rfl⟩ := (delta_mem_deltaPage htensors).mp hp
    exact htake e he
  · rw [wellFormed_of_float (m := takenModel.toGraphProto) (by decide) hnode hinit hfloat hnames
      hinput hm]
    decide +kernel

end NeurDB.NeurStore
