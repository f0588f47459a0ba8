import NeurDB.Framework.Bytes
import NeurDB.Framework.SortedMap

/-!
# Row keys and their generation

`nram_access/kv.c`: a row is stored under the key `(tableOid, tid)`. The tid is
48 bits wide, the low 32 bits of a counter of the inserting process followed by
the low 16 bits of its pid, and travels through the server as an `ItemPointer`.

Every process starts its counter at zero and no process sees the counter of
another, so two inserts make the same tid as soon as the pids agree modulo
`2 ^ 16` and the processes have made equally many inserts modulo `2 ^ 32`.
`rowIdentity_iff` says that this, and a pid that is a multiple of `2 ^ 16`, are
the only ways in which row identity fails.
-/

namespace NeurDB.Nram

open Function List

abbrev Oid := BitVec 32
abbrev TransactionId := BitVec 32

/-- `NRAMKeyData`. -/
structure NRAMKey where
  tableOid : Oid
  tid : BitVec 64
  deriving DecidableEq, Repr

/-! ### The order of keys

`nram_opt_cmp` and the scan bounds compare the table first and then the tid, both as
unsigned numbers. -/

instance : LE NRAMKey :=
  ⟨fun a b => a.tableOid < b.tableOid ∨ a.tableOid = b.tableOid ∧ a.tid ≤ b.tid⟩

instance : LT NRAMKey :=
  ⟨fun a b => a.tableOid < b.tableOid ∨ a.tableOid = b.tableOid ∧ a.tid < b.tid⟩

theorem NRAMKey.le_def {a b : NRAMKey} :
    a ≤ b ↔ a.tableOid < b.tableOid ∨ a.tableOid = b.tableOid ∧ a.tid ≤ b.tid := Iff.rfl

theorem NRAMKey.lt_def {a b : NRAMKey} :
    a < b ↔ a.tableOid < b.tableOid ∨ a.tableOid = b.tableOid ∧ a.tid < b.tid := Iff.rfl

instance : LinearOrder NRAMKey where
  le_refl a := Or.inr ⟨rfl, BitVec.le_refl a.tid⟩
  le_trans a b c := by
    simp only [NRAMKey.le_def]
    bv_omega
  lt_iff_le_not_ge a b := by
    simp only [NRAMKey.le_def, NRAMKey.lt_def]
    bv_omega
  le_antisymm a b := by
    obtain ⟨oid, tid⟩ := a
    obtain ⟨oid', tid'⟩ := b
    simp only [NRAMKey.le_def, NRAMKey.mk.injEq]
    bv_omega
  le_total a b := by
    simp only [NRAMKey.le_def]
    bv_omega
  toDecidableLE a b := inferInstanceAs (Decidable (_ ∨ _ ∧ _))
  toDecidableLT a b := inferInstanceAs (Decidable (_ ∨ _ ∧ _))
  toDecidableEq := inferInstance

/-- `ItemPointerData`: a block number and an offset in the block. -/
structure ItemPointer where
  block : BitVec 32
  offset : BitVec 16
  deriving DecidableEq, Repr

/-- `ItemPointerIsValid`. -/
def ItemPointer.isValid (p : ItemPointer) : Bool := p.offset ≠ 0

/-! ### Packing a tid into an item pointer -/

def nramEncodeTid (logicalTid : BitVec 64) : ItemPointer where
  block := ((logicalTid >>> 16) &&& 0xFFFFFFFF#64).setWidth 32
  offset := (logicalTid &&& 0xFFFF#64).setWidth 16

def nramDecodeTid (tid : ItemPointer) : BitVec 64 :=
  (tid.block.setWidth 64 <<< 16) ||| tid.offset.setWidth 64

def nramKeyFromTid (tableOid : Oid) (tid : ItemPointer) : NRAMKey :=
  ⟨tableOid, nramDecodeTid tid⟩

theorem toNat_shiftLeft_or (hi : BitVec 32) (lo : BitVec 16) :
    ((hi.setWidth 64 <<< 16) ||| lo.setWidth 64).toNat = hi.toNat * 2 ^ 16 + lo.toNat := by
  have hhi := hi.isLt
  have hlo := lo.isLt
  rw [BitVec.toNat_or, BitVec.toNat_shiftLeft, BitVec.toNat_setWidth, BitVec.toNat_setWidth,
    Nat.mod_eq_of_lt (by omega), Nat.mod_eq_of_lt (by omega), Nat.shiftLeft_eq,
    Nat.mod_eq_of_lt (by omega), Nat.mul_comm, ← Nat.two_pow_add_eq_or_of_lt hlo]

theorem toNat_nramDecodeTid (p : ItemPointer) :
    (nramDecodeTid p).toNat = p.block.toNat * 2 ^ 16 + p.offset.toNat :=
  toNat_shiftLeft_or p.block p.offset

theorem toNat_nramEncodeTid_block (t : BitVec 64) :
    (nramEncodeTid t).block.toNat = t.toNat / 2 ^ 16 % 2 ^ 32 := by
  show (((t >>> 16) &&& 0xFFFFFFFF#64).setWidth 32).toNat = _
  rw [BitVec.toNat_setWidth, BitVec.toNat_and, BitVec.toNat_ushiftRight, Nat.shiftRight_eq_div_pow]
  show (t.toNat / 2 ^ 16 &&& 2 ^ 32 - 1) % 2 ^ 32 = _
  rw [Nat.and_two_pow_sub_one_eq_mod, Nat.mod_mod]

theorem toNat_nramEncodeTid_offset (t : BitVec 64) :
    (nramEncodeTid t).offset.toNat = t.toNat % 2 ^ 16 := by
  show ((t &&& 0xFFFF#64).setWidth 16).toNat = _
  rw [BitVec.toNat_setWidth, BitVec.toNat_and]
  show (t.toNat &&& 2 ^ 16 - 1) % 2 ^ 16 = _
  rw [Nat.and_two_pow_sub_one_eq_mod, Nat.mod_mod]

theorem nramDecodeTid_encodeTid {t : BitVec 64} (ht : t.toNat < 2 ^ 48) :
    nramDecodeTid (nramEncodeTid t) = t := by
  apply BitVec.eq_of_toNat_eq
  rw [toNat_nramDecodeTid, toNat_nramEncodeTid_block, toNat_nramEncodeTid_offset]
  omega

theorem nramEncodeTid_decodeTid (p : ItemPointer) : nramEncodeTid (nramDecodeTid p) = p := by
  have hblock := p.block.isLt
  have hoffset := p.offset.isLt
  have h₁ : (nramEncodeTid (nramDecodeTid p)).block = p.block := by
    apply BitVec.eq_of_toNat_eq
    rw [toNat_nramEncodeTid_block, toNat_nramDecodeTid]
    omega
  have h₂ : (nramEncodeTid (nramDecodeTid p)).offset = p.offset := by
    apply BitVec.eq_of_toNat_eq
    rw [toNat_nramEncodeTid_offset, toNat_nramDecodeTid]
    omega
  calc nramEncodeTid (nramDecodeTid p)
      = ⟨(nramEncodeTid (nramDecodeTid p)).block, (nramEncodeTid (nramDecodeTid p)).offset⟩ := rfl
    _ = p := by rw [h₁, h₂]

/-! ### Generating a tid -/

/-- The part of a process that generates tids: its pid, and the counter
`local_tid_seq`. -/
structure TidGen where
  myProcPid : BitVec 32
  localTidSeq : BitVec 64

/-- `nram_init_tid`: a process starts its counter at zero. -/
def nramInitTid (pid : BitVec 32) : TidGen := ⟨pid, 0⟩

def nramGenerateLogicalTid (g : TidGen) : BitVec 64 × TidGen :=
  let counter : BitVec 32 := (g.localTidSeq &&& 0xFFFFFFFF#64).setWidth 32
  let pidPart : BitVec 16 := (g.myProcPid &&& 0xFFFF#32).setWidth 16
  ((counter.setWidth 64 <<< 16) ||| pidPart.setWidth 64,
    { g with localTidSeq := g.localTidSeq + 1 })

def nramGenerateTid (g : TidGen) : ItemPointer × TidGen :=
  let (logicalTid, g') := nramGenerateLogicalTid g
  (nramEncodeTid logicalTid, g')

/-- The generated tid as a number: 32 bits of the counter, then 16 bits of the
pid. -/
theorem toNat_nramGenerateLogicalTid (g : TidGen) :
    (nramGenerateLogicalTid g).1.toNat =
      g.localTidSeq.toNat % 2 ^ 32 * 2 ^ 16 + g.myProcPid.toNat % 2 ^ 16 := by
  refine (toNat_shiftLeft_or _ _).trans ?_
  rw [BitVec.toNat_setWidth, BitVec.toNat_setWidth, BitVec.toNat_and, BitVec.toNat_and]
  show (g.localTidSeq.toNat &&& 2 ^ 32 - 1) % 2 ^ 32 * 2 ^ 16 +
    (g.myProcPid.toNat &&& 2 ^ 16 - 1) % 2 ^ 16 = _
  rw [Nat.and_two_pow_sub_one_eq_mod, Nat.and_two_pow_sub_one_eq_mod, Nat.mod_mod, Nat.mod_mod]

theorem nramGenerateLogicalTid_lt (g : TidGen) : (nramGenerateLogicalTid g).1.toNat < 2 ^ 48 := by
  rw [toNat_nramGenerateLogicalTid]
  omega

/-! ### Inserts by many processes -/

section Inserts

variable {B : Type} [DecidableEq B]

/-- A call of the insert callbacks by the process `b` on the table `relation`. -/
inductive InsertCall (B : Type) where
  | nramInsert (b : B) (relation : Oid)
  | nramMultiInsert (b : B) (relation : Oid) (ntuples : ℕ)

/-- The rows a call inserts, by inserting process and table. -/
def InsertCall.rows : InsertCall B → List (B × Oid)
  | nramInsert b relation => [(b, relation)]
  | nramMultiInsert b relation ntuples => List.replicate ntuples (b, relation)

/-- An inserted row: the generated tid, as generated and as packed, and the key
it is stored under. -/
structure InsertedRow where
  logicalTid : BitVec 64
  tid : ItemPointer
  key : NRAMKey

/-- One row inserted by the process whose generator is `g`. -/
def insertRow (g : TidGen) (relation : Oid) : InsertedRow :=
  let tid := (nramGenerateTid g).1
  ⟨(nramGenerateLogicalTid g).1, tid, nramKeyFromTid relation tid⟩

/-- Insert rows one after the other; each moves the counter of its process. -/
def insertRows (procs : B → TidGen) : List (B × Oid) → List InsertedRow
  | [] => []
  | (b, relation) :: rest =>
    insertRow (procs b) relation ::
      insertRows (update procs b (nramGenerateTid (procs b)).2) rest

/-- The rows that `calls` insert, in whatever order the processes make them, when
process `b` has pid `pid b`. -/
def runInserts (pid : B → BitVec 32) (calls : List (InsertCall B)) : List InsertedRow :=
  insertRows (fun b => nramInitTid (pid b)) (calls.flatMap InsertCall.rows)

/-- **Row identity**: no two inserted rows share a key, every tid is a valid item
pointer and survives being packed into one. -/
def RowIdentity (rows : List InsertedRow) : Prop :=
  (rows.map InsertedRow.key).Nodup ∧ (∀ r ∈ rows, r.tid.isValid = true) ∧
    ∀ r ∈ rows, nramDecodeTid (nramEncodeTid r.logicalTid) = r.logicalTid

/-- How many of the first `i` rows the process `b` inserted. -/
def ordinal (rows : List (B × Oid)) (i : ℕ) (b : B) : ℕ :=
  ((rows.take i).map Prod.fst).count b

/-- Two rows, the `i`-th and the `j`-th, collide: they go to one table, from
processes with congruent pids, each as that process's insert of the same number
modulo `2 ^ 32`. -/
def Collide (pid : B → BitVec 32) (rows : List (B × Oid)) (i j : ℕ) : Prop :=
  ∃ b b' relation, rows[i]? = some (b, relation) ∧ rows[j]? = some (b', relation) ∧
    (pid b).toNat % 2 ^ 16 = (pid b').toNat % 2 ^ 16 ∧
    ordinal rows i b % 2 ^ 32 = ordinal rows j b' % 2 ^ 32

/-- The generator after `n` tids. -/
def TidGen.advance (g : TidGen) (n : ℕ) : TidGen :=
  { g with localTidSeq := g.localTidSeq + BitVec.ofNat 64 n }

theorem TidGen.advance_generate (g : TidGen) (n : ℕ) :
    (nramGenerateTid g).2.advance n = g.advance (n + 1) := by
  have hseq : g.localTidSeq + 1 + BitVec.ofNat 64 n = g.localTidSeq + BitVec.ofNat 64 (n + 1) := by
    rw [BitVec.ofNat_add, BitVec.add_assoc]
    exact congrArg (g.localTidSeq + ·) (BitVec.add_comm _ _)
  exact congrArg (TidGen.mk g.myProcPid) hseq

theorem ordinal_cons_succ (b' : B) (relation : Oid) (rows : List (B × Oid)) (i : ℕ) (b : B) :
    ordinal ((b', relation) :: rows) (i + 1) b = ordinal rows i b + if b' = b then 1 else 0 := by
  unfold ordinal
  rw [take_succ_cons, map_cons, count_cons]
  simp only [beq_iff_eq]

/-- **The inserted rows, one by one.** Row `i` is made by the generator of its
process after as many tids as the process has inserted rows before. -/
theorem insertRows_getElem? (procs : B → TidGen) (rows : List (B × Oid)) (i : ℕ) :
    (insertRows procs rows)[i]? =
      rows[i]?.map fun r => insertRow ((procs r.1).advance (ordinal rows i r.1)) r.2 := by
  induction rows generalizing procs i with
  | nil => rfl
  | cons r rows ih =>
    obtain ⟨b, relation⟩ := r
    cases i with
    | zero =>
      have h : (procs b).advance (ordinal ((b, relation) :: rows) 0 b) = procs b := by
        simp [TidGen.advance, ordinal]
      simp [insertRows, h]
    | succ i =>
      simp only [insertRows, getElem?_cons_succ]
      rw [ih]
      refine congrArg (fun f => Option.map f rows[i]?) (funext fun r => ?_)
      -- a row of the same process has one more insert before it
      have h : (update procs b (nramGenerateTid (procs b)).2 r.1).advance
          (ordinal rows i r.1) =
            (procs r.1).advance (ordinal ((b, relation) :: rows) (i + 1) r.1) := by
        rw [ordinal_cons_succ]
        by_cases hb : r.1 = b
        · rw [hb, update_self, if_pos rfl, TidGen.advance_generate]
        · rw [update_of_ne hb, if_neg (fun e => hb e.symm), Nat.add_zero]
      rw [h]

theorem insertRows_length (procs : B → TidGen) (rows : List (B × Oid)) :
    (insertRows procs rows).length = rows.length := by
  induction rows generalizing procs with
  | nil => rfl
  | cons r rows ih =>
    rw [insertRows, length_cons, length_cons, ih]

theorem insertRow_key (g : TidGen) (relation : Oid) :
    (insertRow g relation).key = ⟨relation, (nramGenerateLogicalTid g).1⟩ :=
  congrArg (NRAMKey.mk relation) (nramDecodeTid_encodeTid (nramGenerateLogicalTid_lt g))

theorem toNat_logicalTid_advance (pid : BitVec 32) (n : ℕ) :
    (nramGenerateLogicalTid ((nramInitTid pid).advance n)).1.toNat =
      n % 2 ^ 32 * 2 ^ 16 + pid.toNat % 2 ^ 16 := by
  rw [toNat_nramGenerateLogicalTid]
  -- the counter has 64 bits, of which the tid takes the low 32
  have hseq : ((nramInitTid pid).advance n).localTidSeq.toNat = n % 2 ^ 64 := by
    show (0#64 + BitVec.ofNat 64 n).toNat = _
    rw [BitVec.zero_add, BitVec.toNat_ofNat]
  have hpid : ((nramInitTid pid).advance n).myProcPid = pid := rfl
  rw [hseq, hpid, Nat.mod_mod_of_dvd _ (by norm_num)]

/-- Two rows made from fresh generators share a key exactly when the tables, the
pids modulo `2 ^ 16` and the counters modulo `2 ^ 32` agree. -/
theorem insertRow_key_eq_iff (pid pid' : BitVec 32) (n n' : ℕ) (relation relation' : Oid) :
    (insertRow ((nramInitTid pid).advance n) relation).key =
        (insertRow ((nramInitTid pid').advance n') relation').key ↔
      relation = relation' ∧ pid.toNat % 2 ^ 16 = pid'.toNat % 2 ^ 16 ∧
        n % 2 ^ 32 = n' % 2 ^ 32 := by
  rw [insertRow_key, insertRow_key, NRAMKey.mk.injEq, ← BitVec.toNat_inj,
    ← BitVec.toNat_inj, BitVec.toNat_inj, toNat_logicalTid_advance, toNat_logicalTid_advance]
  refine and_congr_right fun _ => ⟨fun h => ?_, fun h => ?_⟩
  · -- the pid is the remainder and the counter the quotient by `2 ^ 16`
    omega
  · rw [h.1, h.2]

theorem insertRow_isValid_iff (pid : BitVec 32) (n : ℕ) (relation : Oid) :
    (insertRow ((nramInitTid pid).advance n) relation).tid.isValid = true ↔
      pid.toNat % 2 ^ 16 ≠ 0 := by
  have hoffset : (insertRow ((nramInitTid pid).advance n) relation).tid.offset.toNat =
      pid.toNat % 2 ^ 16 := by
    refine (toNat_nramEncodeTid_offset (nramGenerateLogicalTid _).1).trans ?_
    rw [toNat_logicalTid_advance]
    omega
  rw [ItemPointer.isValid, decide_eq_true_iff, ← hoffset, ne_eq, ne_eq, ← BitVec.toNat_inj]
  rfl

theorem logicalTid_of_mem_insertRows {procs : B → TidGen} {rows : List (B × Oid)} {r : InsertedRow}
    (hr : r ∈ insertRows procs rows) :
    nramDecodeTid (nramEncodeTid r.logicalTid) = r.logicalTid := by
  obtain ⟨i, hi⟩ := mem_iff_getElem?.mp hr
  rw [insertRows_getElem?] at hi
  obtain ⟨e, -, rfl⟩ := Option.map_eq_some_iff.mp hi
  exact nramDecodeTid_encodeTid (nramGenerateLogicalTid_lt _)

theorem insertRows_isValid_iff (pid : B → BitVec 32) (rows : List (B × Oid)) :
    (∀ r ∈ insertRows (fun b => nramInitTid (pid b)) rows, r.tid.isValid = true) ↔
      ∀ r ∈ rows, (pid r.1).toNat % 2 ^ 16 ≠ 0 := by
  have hrow := insertRows_getElem? (fun b => nramInitTid (pid b)) rows
  constructor
  · intro h r hr
    obtain ⟨i, hi⟩ := mem_iff_getElem?.mp hr
    have hget := hrow i
    rw [hi, Option.map_some] at hget
    exact (insertRow_isValid_iff _ _ _).mp (h _ (mem_of_getElem? hget))
  · intro h r hr
    obtain ⟨i, hi⟩ := mem_iff_getElem?.mp hr
    rw [hrow] at hi
    obtain ⟨e, he, rfl⟩ := Option.map_eq_some_iff.mp hi
    exact (insertRow_isValid_iff _ _ _).mpr (h e (mem_of_getElem? he))

theorem insertRows_keys_nodup_iff (pid : B → BitVec 32) (rows : List (B × Oid)) :
    ((insertRows (fun b => nramInitTid (pid b)) rows).map InsertedRow.key).Nodup ↔
      ∀ i j, i < j → ¬ Collide pid rows i j := by
  have hrow := insertRows_getElem? (fun b => nramInitTid (pid b)) rows
  rw [nodup_iff_getElem?_ne_getElem?]
  constructor
  · rintro h i j hij ⟨b, b', relation, hi, hj, hpid, hord⟩
    have hjlt : j < rows.length := (List.getElem?_eq_some_iff.mp hj).1
    refine h i j hij (by rw [length_map, insertRows_length]; exact hjlt) ?_
    rw [getElem?_map, getElem?_map, hrow, hrow, hi, hj]
    exact congrArg some ((insertRow_key_eq_iff _ _ _ _ _ _).mpr ⟨rfl, hpid, hord⟩)
  · intro h i j hij hj heq
    rw [length_map, insertRows_length] at hj
    have hi : i < rows.length := hij.trans hj
    rw [getElem?_map, getElem?_map, hrow, hrow, getElem?_eq_getElem hi,
      getElem?_eq_getElem hj] at heq
    obtain ⟨hrel, hpid, hord⟩ := (insertRow_key_eq_iff _ _ _ _ _ _).mp (Option.some.inj heq)
    refine h i j hij ⟨rows[i].1, rows[j].1, rows[i].2, getElem?_eq_getElem hi, ?_, hpid, hord⟩
    rw [hrel]
    exact getElem?_eq_getElem hj

/-- **When row identity holds.** For every set of processes and every sequence of
insert calls, row identity holds exactly when no process whose pid is a multiple
of `2 ^ 16` inserts a row and no two rows collide. -/
theorem rowIdentity_iff (pid : B → BitVec 32) (calls : List (InsertCall B)) :
    RowIdentity (runInserts pid calls) ↔
      (∀ r ∈ calls.flatMap InsertCall.rows, (pid r.1).toNat % 2 ^ 16 ≠ 0) ∧
        ∀ i j, i < j → ¬ Collide pid (calls.flatMap InsertCall.rows) i j := by
  rw [RowIdentity, runInserts, insertRows_isValid_iff, insertRows_keys_nodup_iff]
  -- the third part of row identity always holds
  exact ⟨fun h => ⟨h.2.1, h.1⟩, fun h => ⟨h.2, h.1, fun _ => logicalTid_of_mem_insertRows⟩⟩

/-- Pids `1` and `65537` agree in their low 16 bits: the first inserts of the two
processes into table `16384` are stored under one key. -/
theorem congruent_pids_collide :
    ¬ RowIdentity (runInserts (fun b : Bool => if b then 1#32 else 65537#32)
      [.nramInsert true 16384, .nramInsert false 16384]) := by
  intro h
  exact absurd h.1 (by decide)

end Inserts

end NeurDB.Nram
