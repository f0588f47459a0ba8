import NeurDB.Nram.Locks

/-!
# The concurrency-control policy and the command stack

`nram_xact/action.c`, `before_access` and the executor hooks of `nram.c`. A transaction counts
its statements and remembers whether it has become a writer; the two make an index into a
table of 32 actions. The action says whether the access callbacks lock what they touch
(`detect_all`), and gives the process its rank and its lock timeout. The rank matters twice to
the lock manager: it orders the wait queue, and above `9.8` the process does not wait at all.
-/

namespace NeurDB.Nram

/-- The values of a C `double`, as far as comparing them goes. -/
inductive Priority where
  | finite (q : ℚ)
  | posInf
  | negInf
  | nan
  deriving DecidableEq

/-- The `double` nearest to `9.8`. -/
def rankThreshold : ℚ := 2758454771764429 / 281474976710656

/-- `rank > 9.8`: the process does not wait for locks. -/
def Priority.dontWait : Priority → Bool
  | finite q => rankThreshold < q
  | posInf => true
  | negInf => false
  | nan => false

/-- `CCActionData`. -/
structure CCAction where
  detectAll : Bool
  priority : Priority
  timeout : BitVec 32

/-- The table `GlobalCachedAgentFunc`. -/
abbrev Policy := Fin 32 → CCAction

/-- `encode_feature_10bit`: the operation bit, then the number of accesses cut off at 15. -/
def encodeFeature (feature : XactFeature) : Fin 32 :=
  let op := if feature.curOp = 0 then 0 else 1
  let acc := min feature.nAccess.toNat 15
  ⟨op * 16 + acc, by
    have hop : op ≤ 1 := by
      show (if feature.curOp = 0 then 0 else 1) ≤ 1
      split <;> omega
    have hacc : acc ≤ 15 := min_le_right _ _
    omega⟩

/-- `before_access`: count the access, choose the action. -/
def beforeAccess (state : NRAMXactState) : NRAMXactState :=
  let feature : XactFeature :=
    match state.feature with
    | none => ⟨0, 0⟩
    | some f => ⟨f.nAccess + 1, if state.forModify then 1 else f.curOp⟩
  { state with feature := some feature, action := some (encodeFeature feature) }

/-- `NRAM_CMD_STACK_MAX`. -/
def cmdStackMax : ℕ := 8

/-- `nram_ExecutorStart`, up to the call of the executor. -/
def nramExecutorStart (state : NRAMXactState) (ct : CmdType) : NRAMXactState :=
  let stack := state.cmdtypeStack
  beforeAccess { state with
    cmdtypeStack := if stack.length < cmdStackMax then ct :: stack else stack
    curCmdtype := ct }

/-- `nram_ExecutorEnd`. -/
def nramExecutorEnd (state : NRAMXactState) : NRAMXactState :=
  match state.cmdtypeStack with
  | [] => state
  | _ :: stack =>
    { state with cmdtypeStack := stack, curCmdtype := stack.head?.getD .unknown }

section

variable (state : NRAMXactState)

@[simp] theorem nramExecutorStart_readSet (ct : CmdType) :
    (nramExecutorStart state ct).readSet = state.readSet := rfl

@[simp] theorem nramExecutorStart_writeSet (ct : CmdType) :
    (nramExecutorStart state ct).writeSet = state.writeSet := rfl

@[simp] theorem nramExecutorEnd_xactId : (nramExecutorEnd state).xactId = state.xactId := by
  unfold nramExecutorEnd
  split <;> rfl

@[simp] theorem nramExecutorEnd_validated :
    (nramExecutorEnd state).validated = state.validated := by
  unfold nramExecutorEnd
  split <;> rfl

@[simp] theorem nramExecutorEnd_readSet : (nramExecutorEnd state).readSet = state.readSet := by
  unfold nramExecutorEnd
  split <;> rfl

@[simp] theorem nramExecutorEnd_writeSet : (nramExecutorEnd state).writeSet = state.writeSet := by
  unfold nramExecutorEnd
  split <;> rfl

end

end NeurDB.Nram
