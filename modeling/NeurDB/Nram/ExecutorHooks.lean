import NeurDB.Nram.Policy

/-!
# The executor hooks over a transaction

`nram_ExecutorStart` and `nram_ExecutorEnd` tell a transaction which command runs. They keep a
stack of at most eight command types, and `before_access` a feature of two numbers from which
the policy entry is chosen. Both are carried along from statement to statement, and both lose
track.

* **The stack.** The ninth nested executor is not recorded, but its end takes an entry off all the
  same. As long as no executor ends while more than eight are open, the stack holds the eight
  outermost types (`cmdtypeStack_runHooks`), and the current type is the innermost one; any other
  nesting goes wrong for some command types (`command_types_tracked_iff`). No index leaves the
  array.
* **The feature.** The count is right up to its wrap at `2 ^ 32`. The operation bit is not: the
  first statement never sets it, and no statement resets it (`feature_tracked_iff`).
-/

namespace NeurDB.Nram

open List

/-! ### Calls of the hooks -/

/-- A call of one of the two hooks. -/
inductive HookCall where
  | executorStart (ct : CmdType)
  | executorEnd
  deriving DecidableEq

def hookStep (state : NRAMXactState) : HookCall → NRAMXactState
  | .executorStart ct => nramExecutorStart state ct
  | .executorEnd => nramExecutorEnd state

/-- The state of the transaction `x` after the calls, from its beginning. -/
def runHooks (x : TransactionId) (calls : List HookCall) : NRAMXactState :=
  calls.foldl hookStep (newNRAMXactState x)

theorem runHooks_start (x : TransactionId) (calls : List HookCall) (ct : CmdType) :
    runHooks x (calls ++ [.executorStart ct]) = nramExecutorStart (runHooks x calls) ct :=
  foldl_concat ..

theorem runHooks_end (x : TransactionId) (calls : List HookCall) :
    runHooks x (calls ++ [.executorEnd]) = nramExecutorEnd (runHooks x calls) :=
  foldl_concat ..

/-- What one call does to the executors that have started and not ended. -/
def openStep (opened : List CmdType) : HookCall → List CmdType
  | .executorStart ct => ct :: opened
  | .executorEnd => opened.tail

/-- The command types of the executors that have started and not ended, the innermost first. -/
def openExecutors (calls : List HookCall) : List CmdType := calls.foldl openStep []

@[simp] theorem openExecutors_start (calls : List HookCall) (ct : CmdType) :
    openExecutors (calls ++ [.executorStart ct]) = ct :: openExecutors calls :=
  foldl_concat ..

@[simp] theorem openExecutors_end (calls : List HookCall) :
    openExecutors (calls ++ [.executorEnd]) = (openExecutors calls).tail :=
  foldl_concat ..

/-! ### The stack of command types -/

theorem nramExecutorStart_cmdtypeStack (state : NRAMXactState) (ct : CmdType) :
    (nramExecutorStart state ct).cmdtypeStack =
      if state.cmdtypeStack.length < cmdStackMax then ct :: state.cmdtypeStack
      else state.cmdtypeStack := rfl

@[simp] theorem nramExecutorEnd_cmdtypeStack (state : NRAMXactState) :
    (nramExecutorEnd state).cmdtypeStack = state.cmdtypeStack.tail := by
  unfold nramExecutorEnd
  split
  · next hempty => rw [hempty, tail_nil]
  · next hcons => rw [hcons, tail_cons]

theorem nramExecutorEnd_curCmdtype {state : NRAMXactState} (h : state.cmdtypeStack ≠ []) :
    (nramExecutorEnd state).curCmdtype = state.cmdtypeStack.tail.head?.getD .unknown := by
  unfold nramExecutorEnd
  split
  · next hempty => exact absurd hempty h
  · next hcons => rw [hcons, tail_cons]

/-- The indexes into `cmdtype_stack` that a call uses. -/
def stackIndexes (state : NRAMXactState) : HookCall → List ℕ
  | .executorStart _ =>
    if state.cmdtypeStack.length < cmdStackMax then [state.cmdtypeStack.length] else []
  | .executorEnd =>
    -- the depth is decremented first
    if 0 < state.cmdtypeStack.length - 1 then [state.cmdtypeStack.length - 1 - 1] else []

/-- `NRAM_CMD_STACK_MAX` bounds the depth after any calls. -/
theorem length_cmdtypeStack_le (x : TransactionId) (calls : List HookCall) :
    (runHooks x calls).cmdtypeStack.length ≤ cmdStackMax := by
  induction calls using reverseRecOn with
  | nil => exact Nat.zero_le _
  | append_singleton calls call ih =>
    cases call with
    | executorStart ct =>
      rw [runHooks_start, nramExecutorStart_cmdtypeStack]
      split
      · next hlt => exact hlt
      · exact ih
    | executorEnd =>
      rw [runHooks_end, nramExecutorEnd_cmdtypeStack, length_tail]
      omega

/-- No call leaves the array. -/
theorem stackIndexes_lt (x : TransactionId) (calls : List HookCall) (call : HookCall) {i : ℕ}
    (hi : i ∈ stackIndexes (runHooks x calls) call) : i < cmdStackMax := by
  have hlen := length_cmdtypeStack_le x calls
  cases call with
  | executorStart ct =>
    obtain ⟨hlt, hi⟩ := mem_ite_nil_right.mp hi
    rwa [mem_singleton.mp hi]
  | executorEnd =>
    obtain ⟨hpos, hi⟩ := mem_ite_nil_right.mp hi
    rw [mem_singleton.mp hi]
    omega

/-- No executor ends while more than eight are open. -/
def EndsShallow (calls : List HookCall) : Prop :=
  ∀ c, c ++ [.executorEnd] <+: calls → (openExecutors c).length ≤ cmdStackMax

variable {calls : List HookCall}

theorem EndsShallow.of_prefix {c : List HookCall} (h : EndsShallow calls) (hc : c <+: calls) :
    EndsShallow c :=
  fun _ hd => h _ (hd.trans hc)

/-- **What the stack holds**: the eight outermost executors. -/
theorem cmdtypeStack_runHooks (x : TransactionId) (h : EndsShallow calls) :
    (runHooks x calls).cmdtypeStack =
      (openExecutors calls).drop ((openExecutors calls).length - cmdStackMax) := by
  induction calls using reverseRecOn with
  | nil => rfl
  | append_singleton calls call ih =>
    have hstack := ih (h.of_prefix (prefix_append _ _))
    cases call with
    | executorStart ct =>
      rw [runHooks_start, nramExecutorStart_cmdtypeStack, openExecutors_start, hstack,
        length_drop, length_cons]
      rcases Nat.lt_or_ge (openExecutors calls).length cmdStackMax with hlt | hge
      · -- there is room, and nothing has been left out
        rw [if_pos (by omega), Nat.sub_eq_zero_of_le hlt.le, Nat.sub_eq_zero_of_le hlt]
        rfl
      · -- the new executor is left out
        rw [if_neg (by omega), Nat.succ_sub hge, drop_succ_cons]
    | executorEnd =>
      have hle : (openExecutors calls).length ≤ cmdStackMax := h calls (prefix_refl _)
      have hle' : (openExecutors calls).tail.length ≤ cmdStackMax := by
        rw [length_tail]
        omega
      rw [runHooks_end, nramExecutorEnd_cmdtypeStack, openExecutors_end, hstack,
        Nat.sub_eq_zero_of_le hle, Nat.sub_eq_zero_of_le hle', drop_zero, drop_zero]

/-! ### Nestings -/

/-- Which hook is called. -/
inductive Hook where
  | executorStart
  | executorEnd
  deriving DecidableEq

def HookCall.hook : HookCall → Hook
  | .executorStart _ => .executorStart
  | .executorEnd => .executorEnd

def depthStep (d : ℕ) : Hook → ℕ
  | .executorStart => d + 1
  | .executorEnd => d - 1

/-- The number of executors that are open after the calls. -/
def nestingDepth (w : List Hook) : ℕ := w.foldl depthStep 0

@[simp] theorem nestingDepth_start (w : List Hook) :
    nestingDepth (w ++ [.executorStart]) = nestingDepth w + 1 :=
  foldl_concat ..

@[simp] theorem nestingDepth_end (w : List Hook) :
    nestingDepth (w ++ [.executorEnd]) = nestingDepth w - 1 :=
  foldl_concat ..

/-- A well-nested sequence of calls, whatever the command types: an executor that ends has
started. -/
structure Nesting where
  hooks : List Hook
  wellNested : ∀ u, u ++ [.executorEnd] <+: hooks → 0 < nestingDepth u

/-- How many executors are open does not depend on their command types. -/
theorem length_openExecutors (calls : List HookCall) :
    (openExecutors calls).length = nestingDepth (calls.map HookCall.hook) := by
  induction calls using reverseRecOn with
  | nil => rfl
  | append_singleton calls call ih =>
    rw [map_append]
    cases call with
    | executorStart ct =>
      rw [openExecutors_start, length_cons, ih]
      exact (nestingDepth_start _).symm
    | executorEnd =>
      rw [openExecutors_end, length_tail, ih]
      exact (nestingDepth_end _).symm

theorem endsShallow_of_hooks {w : List Hook} (hcalls : calls.map HookCall.hook <+: w)
    (h : ∀ u, u ++ [.executorEnd] <+: w → nestingDepth u ≤ cmdStackMax) : EndsShallow calls := by
  intro c hc
  have hmap : (c ++ [HookCall.executorEnd]).map HookCall.hook <+: w := (hc.map _).trans hcalls
  rw [map_append] at hmap
  rw [length_openExecutors]
  exact h _ hmap

/-- After each call the current type is that of the innermost executor. -/
def TypesTracked (x : TransactionId) (calls : List HookCall) : Prop :=
  ∀ c, c <+: calls →
    (runHooks x c).curCmdtype = (openExecutors c).head?.getD .unknown

/-- Each call uses indexes of the array. -/
def IndexesInRange (x : TransactionId) (calls : List HookCall) : Prop :=
  ∀ c call, c ++ [call] <+: calls → ∀ i ∈ stackIndexes (runHooks x c) call, i < cmdStackMax

/-- The stack is whole when an executor ends, so its parent's type comes up. -/
theorem EndsShallow.typesTracked (x : TransactionId) (h : EndsShallow calls)
    (hnested : ∀ c, c ++ [.executorEnd] <+: calls → openExecutors c ≠ []) :
    TypesTracked x calls := by
  intro c hc
  cases c using reverseRecOn with
  | nil => rfl
  | append_singleton c call =>
    cases call with
    | executorStart ct => rw [runHooks_start, openExecutors_start]; rfl
    | executorEnd =>
      have hstack := cmdtypeStack_runHooks x (h.of_prefix ((prefix_append _ _).trans hc))
      rw [Nat.sub_eq_zero_of_le (h c hc), drop_zero] at hstack
      have hne : (runHooks x c).cmdtypeStack ≠ [] := by
        rw [hstack]
        exact hnested c hc
      rw [runHooks_end, nramExecutorEnd_curCmdtype hne, hstack, openExecutors_end]

/-! ### A nesting that goes wrong -/

/-- Command types by depth: only the seventh executor from the outside is an `INSERT`. -/
def typeAt (d : ℕ) : CmdType := if d = 6 then .insert else .select

/-- The types of `d` open executors, the innermost first. -/
def typesAt : ℕ → List CmdType
  | 0 => []
  | d + 1 => typeAt d :: typesAt d

/-- The calls of a nesting with these command types, where `d` executors are open already. -/
def callsAt : ℕ → List Hook → List HookCall
  | _, [] => []
  | d, .executorStart :: w => .executorStart (typeAt d) :: callsAt (d + 1) w
  | d, .executorEnd :: w => .executorEnd :: callsAt (d - 1) w

theorem callsAt_append (d : ℕ) (u w : List Hook) :
    callsAt d (u ++ w) = callsAt d u ++ callsAt (u.foldl depthStep d) w := by
  induction u generalizing d with
  | nil => rfl
  | cons h u ih =>
    cases h <;> exact congrArg (_ :: ·) (ih _)

theorem map_hook_callsAt (d : ℕ) (w : List Hook) : (callsAt d w).map HookCall.hook = w := by
  induction w generalizing d with
  | nil => rfl
  | cons h w ih =>
    cases h <;> exact congrArg (_ :: ·) (ih _)

theorem tail_typesAt (d : ℕ) : (typesAt d).tail = typesAt (d - 1) := by
  cases d with
  | zero | succ d => rfl

theorem head_typesAt {d : ℕ} (h : 7 < d) : (typesAt d).head?.getD .unknown = .select := by
  cases d with
  | zero => exact absurd h (Nat.not_lt_zero _)
  | succ d => exact if_neg (by omega)

theorem drop_typesAt (m n : ℕ) : (typesAt (m + n)).drop n = typesAt m := by
  induction n with
  | zero => rfl
  | succ n ih => exact ih

/-- The types of the open executors can be read off the depth. -/
theorem openExecutors_callsAt (w : List Hook) :
    openExecutors (callsAt 0 w) = typesAt (nestingDepth w) := by
  induction w using reverseRecOn with
  | nil => rfl
  | append_singleton w h ih =>
    rw [callsAt_append]
    cases h with
    | executorStart =>
      rw [nestingDepth_start, typesAt, ← ih]
      exact openExecutors_start ..
    | executorEnd =>
      rw [nestingDepth_end, ← tail_typesAt, ← ih]
      exact openExecutors_end _

/-- The first end of an executor at a depth above eight brings up the type of the seventh. -/
theorem not_typesTracked_callsAt (x : TransactionId) {u : List Hook}
    (hshallow : EndsShallow (callsAt 0 u)) (hdeep : cmdStackMax < nestingDepth u) :
    ¬ TypesTracked x (callsAt 0 (u ++ [.executorEnd])) := by
  obtain ⟨n, hn⟩ : ∃ n, nestingDepth u = cmdStackMax + (n + 1) :=
    Nat.exists_eq_add_of_lt hdeep
  have hcalls : callsAt 0 (u ++ [.executorEnd]) = callsAt 0 u ++ [.executorEnd] :=
    callsAt_append 0 u _
  have hopen : openExecutors (callsAt 0 u) = typesAt (cmdStackMax + (n + 1)) := by
    rw [openExecutors_callsAt, hn]
  have hstack : (runHooks x (callsAt 0 u)).cmdtypeStack = typesAt cmdStackMax := by
    have hlen : (openExecutors (callsAt 0 u)).length - cmdStackMax = n + 1 := by
      rw [length_openExecutors, map_hook_callsAt, hn]
      omega
    rw [cmdtypeStack_runHooks x hshallow, hlen, hopen, drop_typesAt]
  intro h
  have hcur := h _ (prefix_refl _)
  rw [hcalls, runHooks_end, nramExecutorEnd_curCmdtype (by rw [hstack]; decide), hstack,
    openExecutors_end, hopen, tail_typesAt (cmdStackMax + (n + 1)),
    head_typesAt (by unfold cmdStackMax; omega)] at hcur
  -- the stack shows the `INSERT`, the innermost open executor is deeper
  cases hcur

/-- **The command types of nested executors.** The array is never left. The current type is that
of the innermost executor, whatever the types, exactly in the nestings in which executors end
while at most eight are open. -/
theorem command_types_tracked_iff (x : TransactionId) (w : Nesting) :
    (∀ calls, calls.map HookCall.hook = w.hooks →
      IndexesInRange x calls ∧ TypesTracked x calls) ↔
      ∀ u, u ++ [.executorEnd] <+: w.hooks → nestingDepth u ≤ cmdStackMax := by
  constructor
  · intro h u
    -- the induction is on the length: the ends before this one were shallow
    induction hlen : u.length using Nat.strong_induction_on generalizing u with
    | _ n ih =>
      intro hu
      have hshallow : EndsShallow (callsAt 0 u) := by
        refine endsShallow_of_hooks (w := u) (by rw [map_hook_callsAt]) fun u' hu' => ?_
        have hshorter : u'.length < n := by
          have hle := hu'.length_le
          rw [length_append, length_singleton] at hle
          omega
        exact ih _ hshorter u' rfl (hu'.trans ((prefix_append _ _).trans hu))
      by_contra hdeep
      refine not_typesTracked_callsAt x hshallow (Nat.lt_of_not_le hdeep) fun c hc => ?_
      obtain ⟨rest, hrest⟩ := hu
      have hwhole := (h (callsAt 0 w.hooks) (map_hook_callsAt 0 _)).2
      refine hwhole c (hc.trans ?_)
      rw [← hrest, callsAt_append 0 (u ++ [Hook.executorEnd])]
      exact prefix_append _ _
  · intro h calls hcalls
    refine ⟨fun c call _ i hi => stackIndexes_lt x c call hi, ?_⟩
    refine (endsShallow_of_hooks (by rw [hcalls]) h).typesTracked x fun c hc hempty => ?_
    have hmap : c.map HookCall.hook ++ [.executorEnd] <+: w.hooks := by
      have hprefix := hc.map HookCall.hook
      rwa [map_append, hcalls] at hprefix
    have hpos := w.wellNested _ hmap
    rw [← length_openExecutors, hempty] at hpos
    exact absurd hpos (Nat.lt_irrefl 0)

/-- Nine nested executors, the seventh an `INSERT`; when the ninth has ended, the eighth runs
under the type of the seventh. -/
theorem ninth_executor_loses_type :
    ¬ TypesTracked 7 [.executorStart .select, .executorStart .select, .executorStart .select,
      .executorStart .select, .executorStart .select, .executorStart .select,
      .executorStart .insert, .executorStart .select, .executorStart .select,
      .executorEnd] := by
  intro h
  have hcur := h _ (prefix_refl _)
  revert hcur
  decide

/-! ### The feature -/

/-- An `INSERT`, `UPDATE` or `DELETE`. -/
def CmdType.modifies : CmdType → Bool
  | .insert | .update | .delete => true
  | _ => false

theorem forModify_eq (state : NRAMXactState) : state.forModify = state.curCmdtype.modifies := by
  unfold NRAMXactState.forModify
  cases state.curCmdtype <;> rfl

/-- The command types of the statements started so far. -/
def startedTypes (calls : List HookCall) : List CmdType :=
  calls.filterMap fun
    | .executorStart ct => some ct
    | .executorEnd => none

@[simp] theorem startedTypes_start (calls : List HookCall) (ct : CmdType) :
    startedTypes (calls ++ [.executorStart ct]) = startedTypes calls ++ [ct] :=
  filterMap_append

@[simp] theorem startedTypes_end (calls : List HookCall) :
    startedTypes (calls ++ [.executorEnd]) = startedTypes calls := by
  rw [startedTypes, filterMap_append]
  exact append_nil _

@[simp] theorem nramExecutorEnd_feature (state : NRAMXactState) :
    (nramExecutorEnd state).feature = state.feature := by
  unfold nramExecutorEnd
  split <;> rfl

/-- The feature after these statements: the first one starts the count and leaves the operation
bit clear, whatever it is. -/
def featureOf : List CmdType → Option XactFeature
  | [] => none
  | _ :: later =>
    some ⟨BitVec.ofNat 32 later.length, if later.any CmdType.modifies then 1 else 0⟩

theorem featureOf_concat (first : CmdType) (later : List CmdType) (ct : CmdType) :
    featureOf (first :: later ++ [ct]) =
      some ⟨BitVec.ofNat 32 later.length + 1,
        if ct.modifies then 1 else if later.any CmdType.modifies then 1 else 0⟩ := by
  have hcount : BitVec.ofNat 32 (later ++ [ct]).length = BitVec.ofNat 32 later.length + 1 := by
    rw [length_append, length_singleton, BitVec.ofNat_add]
    rfl
  rw [cons_append, featureOf, hcount, any_append]
  cases hct : ct.modifies <;> simp [hct]

theorem nramExecutorStart_feature (state : NRAMXactState) (ct : CmdType) :
    (nramExecutorStart state ct).feature =
      some (match state.feature with
        | none => ⟨0, 0⟩
        | some f => ⟨f.nAccess + 1, if ct.modifies then 1 else f.curOp⟩) := by
  show some (match state.feature with
    | none => _
    | some f => _) = _
  cases state.feature with
  | none => rfl
  | some f => simp only [forModify_eq]

/-- Only the types of the statements started so far matter for the feature. -/
theorem feature_runHooks (x : TransactionId) (calls : List HookCall) :
    (runHooks x calls).feature = featureOf (startedTypes calls) := by
  induction calls using reverseRecOn with
  | nil => rfl
  | append_singleton calls call ih =>
    cases call with
    | executorEnd => rw [runHooks_end, nramExecutorEnd_feature, startedTypes_end, ih]
    | executorStart ct =>
      rw [runHooks_start, nramExecutorStart_feature, startedTypes_start, ih]
      cases startedTypes calls with
      | nil => rfl
      | cons first later => rw [featureOf_concat]; rfl

theorem action_nramExecutorStart (state : NRAMXactState) (ct : CmdType) :
    (nramExecutorStart state ct).action =
      (nramExecutorStart state ct).feature.map encodeFeature := rfl

/-- The statement `ct` after the statements `before` gets the entry that is its own: it does not
come first as a write, and as a read it does not follow a write that was not the first statement;
the counter has not wrapped, or is past 15 again. -/
def FeatureKept : List CmdType → CmdType → Prop
  | [], ct => ct.modifies = false
  | _ :: later, ct =>
    (ct.modifies = true ∨ ∀ t ∈ later, t.modifies = false) ∧
      (later.length + 1 < 2 ^ 32 ∨ 15 ≤ (later.length + 1) % 2 ^ 32)

/-- The entry of a feature is made of two digits, the bit and the count. -/
theorem encodeFeature_val (n : ℕ) (op : Bool) :
    (encodeFeature ⟨BitVec.ofNat 32 n, if op then 1 else 0⟩).val =
      16 * op.toNat + min (n % 2 ^ 32) 15 := by
  show (if (if op = true then (1 : BitVec 8) else 0) = 0 then 0 else 1) * 16 +
    min (BitVec.ofNat 32 n).toNat 15 = _
  rw [BitVec.toNat_ofNat]
  cases op with
  | true => rw [if_pos rfl, if_neg (by decide)]; rfl
  | false => rfl

theorem entry_eq_iff {op op' : Bool} {m n : ℕ} :
    16 * op.toNat + min m 15 = 16 * op'.toNat + min n 15 ↔ op = op' ∧ min m 15 = min n 15 := by
  cases op <;> cases op' <;> simp <;> omega

theorem min_mod_eq_iff (n : ℕ) : min (n % 2 ^ 32) 15 = min n 15 ↔ n < 2 ^ 32 ∨ 15 ≤ n % 2 ^ 32 := by
  omega

/-- **The action of each statement.** After the `n`-th statement has started, counted from 0, the
action in force is the entry of its own operation bit and of `min n 15`, exactly if it is a write
that does not come first or a read with no write between it and the first statement, and the
counter gives `min n 15`. -/
theorem feature_tracked_iff (x : TransactionId) (calls : List HookCall) (ct : CmdType) :
    (runHooks x (calls ++ [.executorStart ct])).action.map Fin.val =
        some (16 * ct.modifies.toNat + min (startedTypes calls).length 15) ↔
      FeatureKept (startedTypes calls) ct := by
  have hfeature := feature_runHooks x (calls ++ [.executorStart ct])
  rw [startedTypes_start, runHooks_start] at hfeature
  rw [runHooks_start, action_nramExecutorStart, hfeature]
  cases startedTypes calls with
  | nil =>
    -- the first statement: the entry is 0
    have hentry := encodeFeature_val 0 false
    show some (encodeFeature ⟨BitVec.ofNat 32 0, if false then 1 else 0⟩).val = _ ↔ _
    rw [hentry, Option.some_inj, FeatureKept, length_nil]
    cases ct.modifies <;> simp
  | cons first later =>
    have hentry := encodeFeature_val (later ++ [ct]).length ((later ++ [ct]).any CmdType.modifies)
    show some (encodeFeature ⟨BitVec.ofNat 32 (later ++ [ct]).length,
      if (later ++ [ct]).any CmdType.modifies then 1 else 0⟩).val = _ ↔ _
    rw [hentry, Option.some_inj, length_append, length_singleton, length_cons,
      entry_eq_iff, min_mod_eq_iff, FeatureKept]
    refine and_congr_left fun _ => ?_
    -- the bit is that of any statement but the first
    rw [any_append]
    cases hct : ct.modifies <;> simp [hct]

/-- A transaction that begins with an update runs it under the entry of a read; a read that follows
a read and an update runs under the entry of an update. -/
theorem write_first_untracked :
    (runHooks 7 [.executorStart .update]).action.map Fin.val = some 0 ∧
      (runHooks 7 [.executorStart .select, .executorEnd, .executorStart .update, .executorEnd,
        .executorStart .select]).action.map Fin.val = some (16 + 2) := by
  decide

end NeurDB.Nram
