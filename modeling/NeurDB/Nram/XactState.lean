import NeurDB.Nram.RocksEngine

/-!
# Row values and the state of a transaction

`kv.h` and the first half of `nram_xact/xact.c`. A row value names the transaction that wrote
it and carries flags and fields; the flag `NRAMF_PRIVATE` marks a row that its inserter has not
committed. The NRAM state of a transaction holds its read set — every row it read from the
store, with the version read — and its write set, the buffered writes that the callback at
commit installs.

Both sets are flat lists. `add_read_set` appends; `add_write_set` overwrites the entry of the
key where there is one, so a write set has one entry for each key (`addWriteSet_nodup`).
-/

namespace NeurDB.Nram

open List

/-! ### Values -/

/-- `NRAMValueFieldData` and the data behind it, whose length is the field `len`. -/
structure NRAMValueField where
  attnum : BitVec 16
  typeOid : Oid
  data : List Byte
  deriving DecidableEq

/-- `NRAMValueData`; `nfields` is the number of fields. -/
structure NRAMValue where
  /-- The transaction that wrote this version. -/
  xactId : TransactionId
  flags : BitVec 16
  fields : List NRAMValueField
  deriving DecidableEq

/-- `NRAMF_PRIVATE`. -/
def nramfPrivate : BitVec 16 := 0x0001

/-- `NRAMValueIsPrivate`. -/
def NRAMValue.isPrivate (v : NRAMValue) : Bool := v.flags &&& nramfPrivate ≠ 0

theorem isPrivate_of_flags {v : NRAMValue} (h : v.flags = 0) : v.isPrivate = false := by
  simp [NRAMValue.isPrivate, h]

theorem isPrivate_or_private (v : NRAMValue) :
    NRAMValue.isPrivate { v with flags := v.flags ||| nramfPrivate } = true := by
  refine decide_eq_true fun h => ?_
  have hbit := congrArg (fun b : BitVec 16 => b.getLsbD 0) h
  simp [nramfPrivate] at hbit

/-! ### The state of a transaction -/

inductive XactOpType where
  | read
  | write
  | delete
  | insert
  | scan
  deriving DecidableEq

/-- `NRAMXactOptData`: an entry of the read set or of the write set. -/
structure NRAMXactOpt where
  type : XactOpType
  xactId : TransactionId
  key : NRAMKey
  value : NRAMValue
  deriving DecidableEq

inductive CmdType where
  | unknown
  | select
  | update
  | insert
  | delete
  | merge
  | utility
  | nothing
  | predict
  deriving DecidableEq

/-- The part of `XactFeatureData` that `get_action` reads. -/
structure XactFeature where
  nAccess : BitVec 32
  curOp : BitVec 8
  deriving DecidableEq

/-- `NRAMXactStateData`. The action is the index of the policy entry that `action` points to,
and the stack holds the `cmdtype_depth` saved command types, the last saved first. -/
structure NRAMXactState where
  xactId : TransactionId
  validated : Bool
  feature : Option XactFeature
  action : Option (Fin 32)
  curCmdtype : CmdType
  cmdtypeStack : List CmdType
  readSet : List NRAMXactOpt
  writeSet : List NRAMXactOpt

/-- `NewNRAMXactState`, for a valid transaction id: everything is zero. -/
def newNRAMXactState (xactId : TransactionId) : NRAMXactState where
  xactId := xactId
  validated := false
  feature := none
  action := none
  curCmdtype := .unknown
  cmdtypeStack := []
  readSet := []
  writeSet := []

/-- `nram_for_modify`. -/
def NRAMXactState.forModify (state : NRAMXactState) : Bool :=
  state.curCmdtype = .update ∨ state.curCmdtype = .delete ∨ state.curCmdtype = .insert

/-- `nram_for_read`. -/
def NRAMXactState.forRead (state : NRAMXactState) : Bool := state.curCmdtype = .select

/-! ### The read set and the write set -/

def findWriteSet (state : NRAMXactState) (key : NRAMKey) : Option NRAMXactOpt :=
  state.writeSet.find? (·.key = key)

def findReadSet (state : NRAMXactState) (key : NRAMKey) : Option NRAMXactOpt :=
  state.readSet.find? (·.key = key)

def addReadSet (state : NRAMXactState) (key : NRAMKey) (value : NRAMValue) : NRAMXactState :=
  { state with readSet := state.readSet ++ [⟨.read, value.xactId, key, value⟩] }

def addWriteSet (state : NRAMXactState) (key : NRAMKey) (value : NRAMValue) : NRAMXactState :=
  if (findWriteSet state key).isSome then
    { state with writeSet :=
        state.writeSet.map fun opt => if opt.key = key then { opt with value := value } else opt }
  else { state with writeSet := state.writeSet ++ [⟨.write, state.xactId, key, value⟩] }

def readOwnWrite (state : NRAMXactState) (key : NRAMKey) : Option NRAMValue :=
  (findWriteSet state key).map (·.value)

def readOwnRead (state : NRAMXactState) (key : NRAMKey) : Option NRAMValue :=
  (findReadSet state key).map (·.value)

variable {state : NRAMXactState} {l : List NRAMXactOpt} {key : NRAMKey}

theorem isSome_find?_key : (l.find? (·.key = key)).isSome ↔ key ∈ l.map (·.key) := by
  simp [find?_isSome]

variable {opt : NRAMXactOpt} {writes : List RowWrite} {state' : NRAMXactState} {value : NRAMValue}

theorem mem_keys_of_find?_key (h : l.find? (·.key = key) = some opt) : opt ∈ l ∧ opt.key = key :=
  ⟨mem_of_find?_eq_some h, by simpa using find?_some h⟩

theorem find?_key_of_mem (hnd : (l.map (·.key)).Nodup) (h : opt ∈ l) :
    l.find? (·.key = opt.key) = some opt := by
  obtain ⟨o, ho⟩ := Option.isSome_iff_exists.mp
    (isSome_find?_key.mpr (mem_map_of_mem h))
  obtain ⟨hmem, hkey⟩ := mem_keys_of_find?_key ho
  rw [ho, inj_on_of_nodup_map hnd hmem h hkey]

theorem find?_key_of_perm {l' : List NRAMXactOpt} (hperm : l.Perm l') (hnd : (l'.map (·.key)).Nodup)
    (key : NRAMKey) :
    l.find? (·.key = key) = l'.find? (·.key = key) := by
  cases h : l.find? (·.key = key) with
  | some opt =>
    obtain ⟨hmem, rfl⟩ := mem_keys_of_find?_key h
    exact (find?_key_of_mem hnd (hperm.mem_iff.mp hmem)).symm
  | none =>
    rw [eq_comm, find?_eq_none]
    intro opt hopt
    exact find?_eq_none.mp h opt (hperm.mem_iff.mpr hopt)

section

variable (state : NRAMXactState) (key : NRAMKey) (value : NRAMValue)

@[simp] theorem addReadSet_writeSet : (addReadSet state key value).writeSet = state.writeSet := rfl

@[simp] theorem addReadSet_readSet :
    (addReadSet state key value).readSet =
      state.readSet ++ [⟨.read, value.xactId, key, value⟩] := rfl

@[simp] theorem addWriteSet_readSet : (addWriteSet state key value).readSet = state.readSet := by
  unfold addWriteSet
  split <;> rfl

@[simp] theorem addWriteSet_xactId : (addWriteSet state key value).xactId = state.xactId := by
  unfold addWriteSet
  split <;> rfl

@[simp] theorem addWriteSet_validated :
    (addWriteSet state key value).validated = state.validated := by
  unfold addWriteSet
  split <;> rfl

end

theorem map_key_overwrite (l : List NRAMXactOpt) (key : NRAMKey) (value : NRAMValue) :
    (l.map fun opt => if opt.key = key then { opt with value := value } else opt).map (·.key) =
      l.map (·.key) := by
  rw [map_map]
  refine map_congr_left fun opt _ => ?_
  show (if opt.key = key then { opt with value := value } else opt).key = opt.key
  split <;> rfl

/-- **One entry for each key.** -/
theorem addWriteSet_nodup (key : NRAMKey) (value : NRAMValue)
    (h : (state.writeSet.map (·.key)).Nodup) :
    ((addWriteSet state key value).writeSet.map (·.key)).Nodup := by
  unfold addWriteSet
  split
  · rw [map_key_overwrite]
    exact h
  · next hnew =>
    have hkey : key ∉ state.writeSet.map (·.key) := fun hk => hnew (isSome_find?_key.mpr hk)
    rw [map_append, map_singleton, ← concat_eq_append]
    exact h.concat hkey

theorem mem_keys_addWriteSet {k : NRAMKey} :
    k ∈ (addWriteSet state key value).writeSet.map (·.key) ↔
      k = key ∨ k ∈ state.writeSet.map (·.key) := by
  unfold addWriteSet
  split
  · next hold =>
    rw [map_key_overwrite]
    refine ⟨Or.inr, ?_⟩
    rintro (rfl | hk)
    · exact isSome_find?_key.mp hold
    · exact hk
  · rw [map_append, mem_append, map_singleton, mem_singleton]
    exact Or.comm

theorem mem_addWriteSet (h : opt ∈ (addWriteSet state key value).writeSet) :
    (opt.key = key ∧ opt.value = value) ∨ opt ∈ state.writeSet := by
  unfold addWriteSet at h
  split at h
  · obtain ⟨o, ho, rfl⟩ := mem_map.mp h
    by_cases hk : o.key = key
    · left
      rw [if_pos hk]
      exact ⟨hk, rfl⟩
    · right
      rw [if_neg hk]
      exact ho
  · rcases mem_append_singleton.mp h with h | rfl
    · exact Or.inr h
    · exact Or.inl ⟨rfl, rfl⟩

/-- **A write is read back**, and hides nothing under another key. -/
theorem readOwnWrite_addWriteSet (state : NRAMXactState) (key k : NRAMKey) (value : NRAMValue) :
    readOwnWrite (addWriteSet state key value) k =
      if k = key then some value else readOwnWrite state k := by
  unfold readOwnWrite addWriteSet
  split
  · next hold =>
    -- overwriting a value changes no key, so the same entry is found
    have hfind : (state.writeSet.map fun opt =>
          if opt.key = key then { opt with value := value } else opt).find? (·.key = k) =
        (state.writeSet.find? (·.key = k)).map fun opt =>
          if opt.key = key then { opt with value := value } else opt := by
      rw [find?_map]
      refine congrArg _ (congrArg (List.find? · _) (funext fun opt => ?_))
      by_cases hk : opt.key = key
      · simp [hk]
      · simp [hk]
    show Option.map _ (List.find? _ _) = _
    rw [hfind]
    by_cases hk : k = key
    · subst hk
      obtain ⟨opt, hopt⟩ := Option.isSome_iff_exists.mp hold
      have hkey : opt.key = k := (mem_keys_of_find?_key hopt).2
      rw [findWriteSet] at hopt
      simp [hopt, hkey]
    · rw [if_neg hk, findWriteSet]
      cases hopt : state.writeSet.find? (·.key = k) with
      | none => rfl
      | some opt =>
        have hkey : opt.key ≠ key := fun h => hk ((mem_keys_of_find?_key hopt).2.symm.trans h)
        simp [hkey]
  · next hnew =>
    show Option.map _ ((state.writeSet ++ [_]).find? _) = _
    rw [find?_append]
    by_cases hk : k = key
    · subst hk
      have hnone : state.writeSet.find? (·.key = k) = none := by
        simpa [findWriteSet] using hnew
      simp [hnone]
    · simp [hk, findWriteSet, Ne.symm hk]

/-! ### Row writes -/

/-- A row write: the key and the value it gave it. -/
abbrev RowWrite : Type := NRAMKey × NRAMValue

/-- The last write of the key, in a list with the last write first. -/
def lastWrite (writes : List RowWrite) (key : NRAMKey) : Option NRAMValue :=
  (writes.find? (·.1 = key)).map (·.2)

theorem lastWrite_append (later earlier : List RowWrite) (key : NRAMKey) :
    lastWrite (later ++ earlier) key = (lastWrite later key).or (lastWrite earlier key) := by
  unfold lastWrite
  rw [find?_append, Option.map_or]

theorem lastWrite_singleton (key k : NRAMKey) (value : NRAMValue) :
    lastWrite [(key, value)] k = if k = key then some value else none := by
  by_cases hk : k = key
  · simp [lastWrite, hk]
  · simp [lastWrite, hk, Ne.symm hk]

/-- The write set is that of a transaction that made these row writes: it holds the last write
of each key, once. -/
structure Buffers (state : NRAMXactState) (writes : List RowWrite) : Prop where
  nodup : (state.writeSet.map (·.key)).Nodup
  last : ∀ key, readOwnWrite state key = lastWrite writes key

theorem Buffers.initial (h : state.writeSet = []) : Buffers state [] := by
  refine ⟨by rw [h]; exact nodup_nil, fun key => ?_⟩
  unfold readOwnWrite findWriteSet
  rw [h]
  rfl

theorem Buffers.perm (h : Buffers state writes) (hws : state'.writeSet.Perm state.writeSet) :
    Buffers state' writes := by
  refine ⟨(hws.map _).nodup_iff.mpr h.nodup, fun key => ?_⟩
  rw [← h.last]
  unfold readOwnWrite findWriteSet
  rw [find?_key_of_perm hws h.nodup]

theorem Buffers.congr (h : Buffers state writes)
    (hws : state'.writeSet = state.writeSet) :
    Buffers state' writes := h.perm (.of_eq hws)

theorem Buffers.addWriteSet (h : Buffers state writes) (key : NRAMKey) (value : NRAMValue) :
    Buffers (addWriteSet state key value) ((key, value) :: writes) := by
  refine ⟨addWriteSet_nodup key value h.nodup, fun k => ?_⟩
  rw [readOwnWrite_addWriteSet, h.last, ← singleton_append, lastWrite_append, lastWrite_singleton]
  split <;> rfl

end NeurDB.Nram
