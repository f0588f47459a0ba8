import NeurDB.NeurStore.Compressor

/-!
# A call of `compress` returns

A step that throws, or that waits for ever, is not enabled in the model of the compressor. Here is
when this cannot happen to a call: every tensor has as many elements as its shape says, and not so
many that an index for them starts with capacity zero; and whenever the call gets an index or
releases a changed one, the index fits into the cache next to the others in use.

`Call.Next` are the steps the code may take next: those of the bodies that are not done, or one
of the phase behind the loop. All of them are enabled (`Call.Next.enabled`), there always is one
(`Call.exists_next`), and each leaves fewer to do (`Call.stepsLeft`).

An insertion is one step, which is how the code behaves as long as no other call inserts at the
same time.
-/

namespace NeurDB.NeurStore

open Function List
open Option (bind_some map_some some)

variable {δ φ : Type}

/-! ### The next steps of a call -/

/-- What comes next in the body of tensor `i`. A query answers with `-1`, or with something that
is stored. -/
def Body.Next (st : IndexStore φ) (c i : ℕ) : Body δ → CompressLabel → Prop
  | .start, l => ∃ indexId, l = .route c i indexId
  | .routed _ _, l => l = .get c i
  | .got _ _ x, l => ∃ answer, l = .compressTensor c i answer ∧
      (answer = -1 ∨ answer ∈ (st.cache.heap x.obj).points.map Prod.fst)
  | .computed _ _ _ _ _, l => l = .release c i
  | .done _, _ => False

/-- What comes next behind the loop. -/
def Call.NextInsertion (c : ℕ) (call : Call δ) (l : CompressLabel) : Prop :=
  match call.current with
  | none => (call.pending = [] ∧ l = .finish c) ∨ ∃ p ∈ call.pending, l = .getIndex c p.key
  | some x => (∃ p ∈ call.pending, p.key = x.key ∧ l = .insert c p) ∨
      ((∀ p ∈ call.pending, p.key ≠ x.key) ∧ l = .releaseIndex c)

/-- The steps that a call may take next. -/
def Call.Next (st : IndexStore φ) (c : ℕ) (call : Call δ) (l : CompressLabel) : Prop :=
  (∃ i < call.tensors.length, (call.bodies i).Next st c i l) ∨
    (call.AllDone ∧ call.NextInsertion c l)

/-- The steps a body has left. One of them may put off an insertion, which takes three. -/
def Body.stepsLeft : Body δ → ℕ
  | .start => 7
  | .routed _ _ => 6
  | .got _ _ _ => 5
  | .computed _ _ _ _ _ => 1
  | .done _ => 0

/-- How far the phase behind the loop is with its index: it has none yet, it has insertions to
make, or it has to release the index. -/
def indexSteps (pending : List PendingInsertion) : Option IndexHandle → ℕ
  | none => 1
  | some x => if ∃ p ∈ pending, p.key = x.key then 0 else 2

/-- A bound on the steps a call has left. -/
def Call.stepsLeft (call : Call δ) : ℕ :=
  ∑ i ∈ Finset.range call.tensors.length, (call.bodies i).stepsLeft + 3 * call.pending.length +
    indexSteps call.pending call.current

/-- The steps of the call `c`, none if it has returned. -/
def CompressState.stepsLeft (s : CompressState δ φ) (c : ℕ) : ℕ :=
  (s.calls c).elim 0 Call.stepsLeft

/-- A tensor an index can be made for: it has the elements its shape says, at least one, and not
too many. -/
structure TensorF64.Compressible (t : TensorF64) : Prop where
  length : (t.tensor.length : ℤ) = t.getDimension
  pos : 0 < t.getDimension
  capacity : 0 < initialIndexCapacity t.getDimension

/-- The indexes of these tensors fit into the cache next to the others in use. -/
def HasRoom (fmt : IndexFormat φ) (maxBytes : ℤ) (st : IndexStore φ)
    (tensors : List TensorF64) : Prop :=
  ∀ t ∈ tensors, ∀ k : IndexKey, k.dimension = t.getDimension →
    st.cache.othersInUse k + fmt.space (indexOf fmt st k) ≤ maxBytes

/-! ### Fewer steps -/

variable {call : Call δ} {i c : ℕ} {pending : List PendingInsertion} {p : PendingInsertion}
  {x : IndexHandle}

theorem indexSteps_of_mem (hp : p ∈ pending) (hkey : p.key = x.key) :
    indexSteps pending (some x) = 0 :=
  if_pos ⟨p, hp, hkey⟩

theorem indexSteps_append_le (extra : List PendingInsertion) (current : Option IndexHandle) :
    indexSteps (pending ++ extra) current ≤ indexSteps pending current := by
  cases current with
  | none => exact le_rfl
  | some x =>
    by_cases hp : ∃ p ∈ pending, p.key = x.key
    · obtain ⟨p, hmem, hkey⟩ := hp
      rw [indexSteps_of_mem (mem_append_left _ hmem) hkey]
      exact Nat.zero_le _
    · rw [indexSteps, indexSteps, if_neg hp]
      split <;> omega

theorem Call.sum_update (hi : i < call.tensors.length) (b : Body δ) :
    ∑ j ∈ Finset.range call.tensors.length, (update call.bodies i b j).stepsLeft +
        (call.bodies i).stepsLeft =
      ∑ j ∈ Finset.range call.tensors.length, (call.bodies j).stepsLeft + b.stepsLeft := by
  have hmem : i ∈ Finset.range call.tensors.length := Finset.mem_range.mpr hi
  have hrest : ∑ j ∈ (Finset.range call.tensors.length).erase i,
      (update call.bodies i b j).stepsLeft =
        ∑ j ∈ (Finset.range call.tensors.length).erase i, (call.bodies j).stepsLeft :=
    Finset.sum_congr rfl fun j hj => by rw [update_of_ne (Finset.ne_of_mem_erase hj)]
  rw [← Finset.add_sum_erase _ _ hmem, ← Finset.add_sum_erase _ _ hmem, hrest, update_self]
  omega

/-- A body goes on; it may put off an insertion. -/
theorem Call.stepsLeft_updateBody (hi : i < call.tensors.length) {b : Body δ}
    {extra : List PendingInsertion}
    (hlt : b.stepsLeft + 3 * extra.length < (call.bodies i).stepsLeft) :
    Call.stepsLeft { call with
      bodies := update call.bodies i b
      pending := call.pending ++ extra } < call.stepsLeft := by
  have hsum := Call.sum_update hi b
  have hindex : indexSteps (call.pending ++ extra) _ ≤ indexSteps call.pending _ :=
    indexSteps_append_le extra call.current
  unfold Call.stepsLeft
  dsimp only
  rw [length_append]
  omega

theorem Call.stepsLeft_setBody (hi : i < call.tensors.length) {b : Body δ}
    (hlt : b.stepsLeft < (call.bodies i).stepsLeft) :
    Call.stepsLeft { call with bodies := update call.bodies i b } < call.stepsLeft := by
  have hall := Call.stepsLeft_updateBody hi (show b.stepsLeft + 3 * [].length < _ from hlt)
  rwa [append_nil] at hall

/-- An insertion is made. -/
theorem Call.stepsLeft_insert (hp : p ∈ call.pending)
    (hseq : p.tensorSequenceNum < call.tensors.length) {b : Body δ}
    (hb : b.stepsLeft = (call.bodies p.tensorSequenceNum).stepsLeft) :
    Call.stepsLeft { call with
      bodies := update call.bodies p.tensorSequenceNum b
      pending := call.pending.erase p
      current := some x } < call.stepsLeft := by
  have hsum := Call.sum_update hseq b
  have hlen := length_erase_of_mem hp
  have hpos := length_pos_of_mem hp
  have hindex : indexSteps (call.pending.erase p) (some x) ≤ 2 := by
    rw [indexSteps]
    split <;> omega
  unfold Call.stepsLeft
  dsimp only
  omega

theorem CompressState.stepsLeft_setCall (s : CompressState δ φ) (call : Call δ) :
    (s.setCall c call).stepsLeft c = call.stepsLeft := by
  unfold stepsLeft setCall
  dsimp only
  rw [update_self]
  rfl

/-! ### The steps are enabled -/

section Enabled

variable {ops : CompressorOps δ} {fmt : IndexFormat φ} {maxBytes : ℤ} {s : CompressState δ φ}
  {l : CompressLabel} {u : IndexUser} {k : IndexKey} {st : IndexStore φ}

theorem exists_useIndex_get (h : UsersInv (hnswKind fmt) st) (hok : StoreOk fmt st)
    (hroom : st.cache.othersInUse k + fmt.space (indexOf fmt st k) ≤ maxBytes) :
    ∃ st' x, useIndex fmt maxBytes st (.get u k) = some (st', x) := by
  obtain ⟨r, hr⟩ := h.cache.exists_get hok.space_nonneg hok.sizes hroom
  exact ⟨_, _, by rw [useIndex, cacheStep, hr]; rfl⟩

theorem exists_chooseBase {a : HnswIndex} {t : TensorF64} {answer : ℤ} (ha : a.Ok k)
    (hlength : ((ops.quantize t.tensor).tensor.length : ℤ) = k.dimension)
    (hanswer : answer = -1 ∨ answer ∈ a.points.map Prod.fst) :
    ∃ r, chooseBase ops t a answer = some r := by
  unfold chooseBase
  dsimp only
  rw [if_pos (hlength.trans ha.dimension.symm)]
  -- a tensor with one element is not looked for
  by_cases hone : t.getDimension = 1
  · rw [if_pos hone]
    exact ⟨_, if_pos rfl⟩
  · rw [if_neg hone]
    rcases hanswer with rfl | hmem
    · exact ⟨_, if_pos rfl⟩
    · obtain ⟨base, hbase⟩ := ha.retrieve ops.toQuantizer hmem
      split
      · exact ⟨_, rfl⟩
      · exact ⟨_, congrArg (Option.map _) hbase⟩

variable (h : CompressInv ops fmt s) (hok : StoreOk fmt s.store)
  (hquantize : ∀ t, (ops.quantize t).tensor.length = t.length) (hcall : s.calls c = some call)
  (hc : ∀ t ∈ call.tensors, t.Compressible) (hroom : HasRoom fmt maxBytes s.store call.tensors)

include h hok hquantize hcall hc hroom

/-- **The loop goes on**: the next step of a body does not throw, and it returns. -/
theorem Body.Next.enabled (hi : i < call.tensors.length)
    (hnext : (call.bodies i).Next s.store c i l) :
    ∃ s', compressStep ops fmt maxBytes s l = some s' ∧ s'.stepsLeft c < call.stepsLeft := by
  have hinv := h.calls c call hcall
  have htensors := hinv.tensors i
  have hbody := hinv.bodies i
  have hlength : ∀ {t : TensorF64}, call.tensors[i]? = some t →
      ((ops.quantize t.tensor).tensor.length : ℤ) = t.getDimension :=
    fun ht => (congrArg Nat.cast (hquantize _)).trans (hc _ (mem_of_getElem? ht)).length
  have hstep : ∀ (st : IndexStore φ) {call' : Call δ} {b : Body δ}, call.bodies i = b →
      call'.stepsLeft < call.stepsLeft →
      bodyStep ops fmt maxBytes s c i call b l = some ({ s with store := st }.setCall c call') →
      ∃ s', (s.calls c).bind (fun call => bodyStep ops fmt maxBytes s c i call (call.bodies i) l) =
        some s' ∧ s'.stepsLeft c < call.stepsLeft := by
    rintro st call' b rfl hlt hb
    exact ⟨_, by rw [hcall, bind_some, hb], by rwa [CompressState.stepsLeft_setCall]⟩
  cases hb : call.bodies i with
  | start =>
    rw [hb] at hnext
    obtain ⟨indexId, rfl⟩ := hnext
    have ht : call.tensors[i]? = some call.tensors[i] := getElem?_eq_getElem hi
    have hpos := (hc _ (mem_of_getElem? ht)).pos
    refine hstep s.store hb (Call.stepsLeft_setBody hi (b := .routed call.tensors[i] indexId) ?_) ?_
    · exact hb ▸ Nat.lt_succ_self 6
    · rw [bodyStep, ht, bind_some, if_pos hpos]
  | routed t indexId =>
    rw [hb] at hnext htensors
    obtain rfl := hnext
    obtain ⟨st, x, huse⟩ := exists_useIndex_get (u := .body c i) h.store hok
      (hroom t (mem_of_getElem? (htensors t rfl)) ⟨t.getDimension, indexId⟩ rfl)
    refine hstep st hb (Call.stepsLeft_setBody hi (b := .got t indexId x) ?_) ?_
    · exact hb ▸ Nat.lt_succ_self 5
    · rw [bodyStep, huse, map_some]
  | got t indexId x =>
    rw [hb] at hnext htensors hbody
    obtain ⟨answer, rfl, hanswer⟩ := hnext
    obtain ⟨hx, -, -, hkey⟩ := hbody
    rw [heap_of_mem h.store hx, hkey] at hanswer
    obtain ⟨⟨id, base, ins⟩, hchoose⟩ := exists_chooseBase (hok.indexes _)
      (hlength (htensors t rfl)) hanswer
    refine hstep s.store hb (Call.stepsLeft_updateBody hi (b := .computed t indexId x id base)
      (?_ : _ + 3 * (ins.map fun q => ⟨t.getDimension, indexId, q, i⟩).toList.length < _)) ?_
    · rw [hb]
      cases ins with
      | none => exact Nat.lt_add_of_pos_right (n := 1) (k := 4) (by decide)
      | some q => exact Nat.lt_succ_self 4
    · rw [bodyStep, heap_of_mem h.store hx, hkey, hchoose, map_some]
  | computed t indexId x id base =>
    rw [hb] at hnext hbody
    obtain rfl := hnext
    obtain ⟨hx, -, hclean, -⟩ := hbody
    obtain ⟨st, hrelease⟩ :
        ∃ st, cacheStep (hnswKind fmt) maxBytes s.store (.release x false) = some st :=
      ⟨_, if_pos ⟨hx, .inl hclean⟩⟩
    refine hstep st hb (Call.stepsLeft_setBody hi
      (b := .done (makeEntry ops t indexId id base)) ?_) ?_
    · exact hb ▸ Nat.lt_succ_self 0
    · rw [bodyStep, hrelease, map_some]
  | done e =>
    rw [hb] at hnext
    exact hnext.elim

/-- **The phase behind the loop goes on.** -/
theorem Call.NextInsertion.enabled (hdone : call.AllDone) (hnext : call.NextInsertion c l) :
    ∃ s', compressStep ops fmt maxBytes s l = some s' ∧ s'.stepsLeft c < call.stepsLeft := by
  have hinv := h.calls c call hcall
  have hstep : ∀ {st : IndexStore φ} {call' : Call δ} {current : Option IndexHandle},
      call.current = current → insertionStep fmt maxBytes s c call current l =
        some ({ s with store := st }.setCall c call') → call'.stepsLeft < call.stepsLeft →
      ∃ s', (s.calls c).bind (fun call => if call.AllDone then
        insertionStep fmt maxBytes s c call call.current l else none) = some s' ∧
          s'.stepsLeft c < call.stepsLeft := by
    rintro st call' current rfl hins hlt
    exact ⟨_, by rw [hcall, bind_some, if_pos hdone, hins],
      by rwa [CompressState.stepsLeft_setCall]⟩
  unfold Call.NextInsertion at hnext
  split at hnext
  · next hcur =>
    rcases hnext with ⟨hempty, rfl⟩ | ⟨p, hp, rfl⟩
    · refine ⟨{ s with
        calls := update s.calls c none
        pages := s.pages ++
          [(List.range call.tensors.length).filterMap fun i => (call.bodies i).finished?] }, ?_, ?_⟩
      · rw [compressStep, hcall, bind_some, if_pos hdone, hcur]
        exact if_pos hempty
      · rw [CompressState.stepsLeft, Call.stepsLeft, hcur]
        dsimp only
        rw [update_self]
        exact Nat.succ_pos _
    · obtain ⟨t, ht, hdim, -⟩ := hinv.dimension_of_pending hp
      obtain ⟨st, x, huse⟩ := exists_useIndex_get (u := .inserter c) h.store hok
        (hroom t ht p.key hdim)
      obtain ⟨-, -, -, -, hkey⟩ : Moves ops fmt _ _ _ ∧ _ := of_useIndex_get h.store huse
      have hget : insertionStep fmt maxBytes s c call none (.getIndex c p.key) =
          some ({ s with store := st }.setCall c { call with current := some x }) := by
        rw [insertionStep, if_pos ⟨p, hp, rfl⟩, huse, map_some]
      refine hstep hcur hget ?_
      rw [Call.stepsLeft, Call.stepsLeft, hcur, indexSteps_of_mem hp hkey.symm]
      exact Nat.lt_succ_self _
  · next x hcur =>
    obtain ⟨hx, -, t, ht, hdim⟩ := hinv.current x hcur
    have hindex := hok.indexes x.key
    rcases hnext with ⟨p, hp, hkey, rfl⟩ | ⟨hnone, rfl⟩
    · obtain ⟨t', ht', hdim', hq⟩ := hinv.dimension_of_pending hp
      have hpdim : p.dimension = x.key.dimension := congrArg IndexKey.dimension hkey
      have haccepts : (s.store.cache.heap x.obj).Accepts p.quantized := by
        rw [heap_of_mem h.store hx]
        refine hindex.accepts (hdim ▸ (hc t ht).capacity) ?_
        rw [hq, hquantize, (hc t' ht').length, ← hdim', hpdim]
      obtain ⟨e, he⟩ := hinv.done_of_pending hdone hp
      have hseq : p.tensorSequenceNum < call.tensors.length :=
        (List.getElem?_eq_some_iff.mp (hinv.tensors _ e.tensor (by rw [he]; rfl))).1
      obtain ⟨st, x', hinsert⟩ :
          ∃ st x', useIndex fmt maxBytes s.store (.insert x p.quantized) = some (st, x') :=
        ⟨_, _, by rw [useIndex, cacheStep, if_pos hx]; rfl⟩
      refine hstep hcur ((if_pos ⟨hp, hkey, haccepts⟩).trans (congrArg _ hinsert)) ?_
      exact Call.stepsLeft_insert hp hseq (by rw [he]; rfl)
    · obtain ⟨c', hrel⟩ := (h.store.cache.perm (perm_holds hx)).exists_release hok.space_nonneg
        hok.sizes (heap_of_mem h.store hx ▸ hroom t ht x.key hdim)
      have hno : ¬ ∃ p ∈ call.pending, p.key = x.key := by
        rintro ⟨p, hp, hkey⟩
        exact hnone p hp hkey
      have hrelease : cacheStep (hnswKind fmt) maxBytes s.store (.release x true) = some _ :=
        (if_pos ⟨hx, .inr rfl⟩).trans (congrArg (Option.map _) hrel)
      refine hstep hcur ((if_neg hno).trans (congrArg (Option.map _) hrelease)) ?_
      have hleft : indexSteps call.pending (some x) = 2 := if_neg hno
      rw [Call.stepsLeft, Call.stepsLeft, hcur, hleft]
      exact Nat.lt_succ_self _

/-- **A call goes on**: whatever step it takes next is enabled, and leaves fewer to do. -/
theorem Call.Next.enabled (hnext : call.Next s.store c l) :
    ∃ s', compressStep ops fmt maxBytes s l = some s' ∧ s'.stepsLeft c < s.stepsLeft c := by
  have hleft : s.stepsLeft c = call.stepsLeft := by
    rw [CompressState.stepsLeft, hcall]
    rfl
  rw [hleft]
  rcases hnext with ⟨i, hi, hnext⟩ | ⟨hdone, hnext⟩
  · exact hnext.enabled h hok hquantize hcall hc hroom hi
  · exact hnext.enabled h hok hquantize hcall hc hroom hdone

end Enabled

/-- A call that has not returned has a next step. -/
theorem Call.exists_next (st : IndexStore φ) (c : ℕ) (call : Call δ) : ∃ l, call.Next st c l := by
  by_cases hdone : call.AllDone
  · suffices ∃ l, call.NextInsertion c l from this.imp fun l hl => .inr ⟨hdone, hl⟩
    unfold Call.NextInsertion
    split
    · by_cases hnil : call.pending = []
      · exact ⟨_, .inl ⟨hnil, rfl⟩⟩
      · obtain ⟨p, hp⟩ := exists_mem_of_ne_nil _ hnil
        exact ⟨_, .inr ⟨p, hp, rfl⟩⟩
    · next x _ =>
      by_cases hp : ∃ p ∈ call.pending, p.key = x.key
      · obtain ⟨p, hp, hkey⟩ := hp
        exact ⟨_, .inl ⟨p, hp, hkey, rfl⟩⟩
      · exact ⟨_, .inr ⟨fun p hmem hkey => hp ⟨p, hmem, hkey⟩, rfl⟩⟩
  · unfold Call.AllDone at hdone
    push Not at hdone
    obtain ⟨i, hi, hnot⟩ := hdone
    suffices ∃ l, (call.bodies i).Next st c i l from this.imp fun l hl => .inl ⟨i, hi, hl⟩
    cases hb : call.bodies i with
    | start => exact ⟨.route c i 0, 0, rfl⟩
    | routed | computed => exact ⟨_, rfl⟩
    | got => exact ⟨_, -1, rfl, .inl rfl⟩
    | done e =>
      rw [hb] at hnot
      exact absurd rfl hnot

/-- **The page of a call** has an entry for each of its tensors, in their order. -/
theorem CallInv.map_tensor_finished {ops : CompressorOps δ} {fmt : IndexFormat φ}
    {st : IndexStore φ} (h : CallInv ops fmt st c call) (hdone : call.AllDone) :
    ((List.range call.tensors.length).filterMap fun i => (call.bodies i).finished?).map
      Entry.tensor = call.tensors := by
  have hone : ∀ i ∈ List.range call.tensors.length,
      (call.bodies i).finished?.map Entry.tensor = call.tensors[i]? := by
    intro i hi
    obtain ⟨e, he⟩ := Option.isSome_iff_exists.mp (hdone i (mem_range.mp hi))
    rw [he, map_some]
    refine (h.tensors i e.tensor ?_).symm
    rw [Body.eq_done_of_finished? he]
    rfl
  have hall : (List.range call.tensors.length).map (getElem? call.tensors) =
      call.tensors.map some :=
    ext_getElem (by simp) (by simp)
  rw [map_filterMap, filterMap_congr hone, ← id_comp (getElem? _), ← filterMap_map, hall]
  simp

section Run

variable {ops : CompressorOps δ} {fmt : IndexFormat φ} {maxBytes : ℤ} {s s' s₀ : CompressState δ φ}
  {l : CompressLabel} {ls : List CompressLabel}

/-- The step with which a call returns leaves its page behind. -/
theorem CompressInv.exists_page_of_return (h : CompressInv ops fmt s)
    (hcall : s.calls c = some call) (hstep : compressStep ops fmt maxBytes s l = some s')
    (hreturn : s'.calls c = none) : ∃ page ∈ s'.pages, page.map Entry.tensor = call.tensors := by
  have hset : ∀ (s : CompressState δ φ) (c' : ℕ) (call' : Call δ), s.calls c = some call →
      (s.setCall c' call').calls c ≠ none := by
    intro s c' call' hc hnone
    unfold CompressState.setCall at hnone
    dsimp only at hnone
    by_cases heq : c = c'
    · rw [heq, update_self] at hnone
      cases hnone
    · rw [update_of_ne heq, hc] at hnone
      cases hnone
  cases CompressMove.of_step hstep with
  | @finish c' call' hcall' hdone hempty =>
    obtain rfl : c = c' := by
      by_contra hne
      dsimp only at hreturn
      rw [update_of_ne hne, hcall] at hreturn
      cases hreturn
    obtain rfl := Option.some.inj (hcall.symm.trans hcall')
    exact ⟨_, mem_append_right _ (mem_singleton_self _),
      (h.calls c _ hcall).map_tensor_finished hdone⟩
  | reader n cl hcl hcache =>
    dsimp only at hreturn
    rw [hcall] at hreturn
    cases hreturn
  | start | route | get | compressTensor | release | getIndex | insert | releaseIndex =>
    exact absurd hreturn (hset _ _ _ hcall)

/-- Sound index files stay sound, on disk and in memory. -/
theorem StoreOk.of_run (hspace : ∀ a, 0 ≤ fmt.space a)
    (h₀ : (compressSystem ops fmt maxBytes).init s₀) (hfiles : ∀ k, (indexOf fmt s₀.store k).Ok k)
    (hrun : (compressSystem ops fmt maxBytes).Run s₀ ls s) : StoreOk fmt s.store := by
  have hsizes : s₀.store.cache.SizesNonneg := by
    intro k
    rw [h₀.1.2.2.2.1]
    exact le_rfl
  have hall : CompressInv ops fmt s ∧ StoreOk fmt s.store := by
    refine hrun.invariant (I := fun s => CompressInv ops fmt s ∧ StoreOk fmt s.store)
      ⟨.initial h₀, hspace, hsizes, hfiles⟩ ?_
    rintro s l s' ⟨h, hok⟩ hstep
    obtain ⟨h', u, hmoves⟩ := h.step_moves hstep
    exact ⟨h', hmoves.ok hok⟩
  exact hall.2

end Run

end NeurDB.NeurStore
