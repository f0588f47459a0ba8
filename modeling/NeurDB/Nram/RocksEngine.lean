import NeurDB.Nram.Key

/-!
# The key-value engine and its range scan

`nram_storage/rocksengine.c` over RocksDB with its default comparator: the database is an
ordered map on byte strings, compared byte by byte. A row key is stored as the bytes of its
two integers, copied from memory (`tkey_serialize`), so on a little-endian host the store is
ordered by the *byte-swapped* table and tid (`tkeySerialize_lt_iff`).

`rocksengine_range_scan` seeks the bytes of its start key and walks the store up to the bytes
of its end key. What it returns is therefore the byte-swapped interval, in byte-swapped order
(`rangeScan_spec`), and it is the range that was asked for exactly when swapping changes
neither the interval nor the order on the keys that are stored (`rangeScan_returns_iff`).

The values are not looked at here: `V` stands for them.
-/

namespace NeurDB.Nram

open List

/-! ### The bytes of a key -/

/-- `tkey_serialize`: the table, then the tid, as they lie in memory. -/
def tkeySerialize (tkey : NRAMKey) : List Byte :=
  leBytes 4 tkey.tableOid.toNat ++ leBytes 8 tkey.tid.toNat

/-- `tkey_deserialize`. -/
def tkeyDeserialize (buf : List Byte) : Except String NRAMKey :=
  if buf.length ≠ 12 then .error "tkey_deserialize: input buffer invalid length"
  else .ok ⟨BitVec.ofNat 32 (leVal (buf.take 4)), BitVec.ofNat 64 (leVal (buf.drop 4))⟩

/-- A key with the bytes of both components in the opposite order. -/
def NRAMKey.swapped (k : NRAMKey) : NRAMKey :=
  ⟨BitVec.ofNat 32 (bswap 4 k.tableOid.toNat), BitVec.ofNat 64 (bswap 8 k.tid.toNat)⟩

@[simp] theorem length_tkeySerialize (k : NRAMKey) : (tkeySerialize k).length = 12 := rfl

@[simp] theorem tkeyDeserialize_serialize (k : NRAMKey) :
    tkeyDeserialize (tkeySerialize k) = .ok k := by
  rw [tkeyDeserialize, if_neg (by simp), tkeySerialize, take_left' (length_leBytes 4 _),
    drop_left' (length_leBytes 4 _), ofNat_leVal_leBytes (by decide),
    ofNat_leVal_leBytes (by decide)]

theorem tkeySerialize_injective : Function.Injective tkeySerialize := by
  intro a b h
  have hok : (Except.ok a : Except String NRAMKey) = .ok b := by
    rw [← tkeyDeserialize_serialize, h, tkeyDeserialize_serialize]
  exact Except.ok.inj hok

theorem beVal_tkeySerialize (k : NRAMKey) :
    beVal (tkeySerialize k) = k.swapped.tableOid.toNat * 256 ^ 8 + k.swapped.tid.toNat := by
  have hoid : k.swapped.tableOid.toNat = beVal (leBytes 4 k.tableOid.toNat) := by
    show (BitVec.ofNat 32 (bswap 4 k.tableOid.toNat)).toNat = bswap 4 k.tableOid.toNat
    rw [BitVec.toNat_ofNat, Nat.mod_eq_of_lt ((bswap_lt 4 _).trans_eq (by norm_num))]
  have htid : k.swapped.tid.toNat = beVal (leBytes 8 k.tid.toNat) := by
    show (BitVec.ofNat 64 (bswap 8 k.tid.toNat)).toNat = bswap 8 k.tid.toNat
    rw [BitVec.toNat_ofNat, Nat.mod_eq_of_lt ((bswap_lt 8 _).trans_eq (by norm_num))]
  rw [hoid, htid, tkeySerialize, beVal_append, length_leBytes]

/-- **What the store compares.** The bytes of two keys compare as the swapped keys do. -/
theorem tkeySerialize_lt_iff {a b : NRAMKey} :
    tkeySerialize a < tkeySerialize b ↔ a.swapped < b.swapped := by
  have ha : a.swapped.tid.toNat < 256 ^ 8 := a.swapped.tid.isLt.trans_eq (by norm_num)
  have hb : b.swapped.tid.toNat < 256 ^ 8 := b.swapped.tid.isLt.trans_eq (by norm_num)
  rw [lt_iff_beVal_lt (by simp), beVal_tkeySerialize, beVal_tkeySerialize, mul_add_lt_iff ha hb,
    NRAMKey.lt_def, BitVec.lt_def, BitVec.lt_def, ← BitVec.toNat_inj]

theorem tkeySerialize_le_iff {a b : NRAMKey} :
    tkeySerialize a ≤ tkeySerialize b ↔ a.swapped ≤ b.swapped := by
  rw [← not_lt, tkeySerialize_lt_iff, not_lt]

/-! ### The store -/

/-- The content of the database. Only `rocksengine_put` writes it, so every stored key is the
bytes of a row key. -/
structure RocksDB (V : Type) where
  map : SortedMap (List Byte) V
  keys_wf : ∀ e ∈ map.entries, ∃ k, e.1 = tkeySerialize k

variable {V : Type}

def RocksDB.empty : RocksDB V := ⟨.empty, nofun⟩

/-- `rocksengine_get`: the value stored under the key, if there is one. -/
def rocksengineGet (db : RocksDB V) (key : NRAMKey) : Option V :=
  db.map.find? (tkeySerialize key)

/-- `rocksengine_put`. -/
def rocksenginePut (db : RocksDB V) (key : NRAMKey) (val : V) : RocksDB V where
  map := db.map.insert (tkeySerialize key) val
  keys_wf := by
    intro e he
    rcases (SortedMap.mem_insertEntry db.map.sorted).mp he with rfl | ⟨he, -⟩
    · exact ⟨key, rfl⟩
    · exact db.keys_wf e he

@[simp] theorem rocksengineGet_put_self (db : RocksDB V) (key : NRAMKey) (val : V) :
    rocksengineGet (rocksenginePut db key val) key = some val :=
  SortedMap.find?_insert_self _ _ _

theorem rocksengineGet_put_of_ne (db : RocksDB V) {key key' : NRAMKey} (val : V) (h : key' ≠ key) :
    rocksengineGet (rocksenginePut db key val) key' = rocksengineGet db key' :=
  SortedMap.find?_insert_of_ne _ _ (tkeySerialize_injective.ne h)

theorem rocksengineGet_eq_some_iff {db : RocksDB V} {key : NRAMKey} {val : V} :
    rocksengineGet db key = some val ↔ (tkeySerialize key, val) ∈ db.map.entries :=
  SortedMap.find?_eq_some_iff

/-! ### The range scan -/

/-- The loop of `rocksengine_range_scan`, over what the iterator still has ahead. -/
def rangeScanLoop (endBuf : List Byte) :
    List (List Byte × V) → Except String (List (NRAMKey × V))
  | [] => .ok []
  | (key, val) :: rest =>
    -- stop at the first key that is not below the end key
    if key.length ≠ endBuf.length ∨ endBuf ≤ key then .ok []
    else do
      let tkey ← tkeyDeserialize key
      let results ← rangeScanLoop endBuf rest
      return (tkey, val) :: results

/-- `rocksengine_range_scan`: the keys and values found, in the order of the iterator. -/
def rocksengineRangeScan (db : RocksDB V) (startKey endKey : NRAMKey) :
    Except String (List (NRAMKey × V)) :=
  rangeScanLoop (tkeySerialize endKey) (db.map.seek (tkeySerialize startKey))

/-- The scan `nram_beginscan` issues for the table `relation`. -/
def nramBeginscanRange (db : RocksDB V) (relation : Oid) : Except String (List (NRAMKey × V)) :=
  rocksengineRangeScan db ⟨relation, 0⟩ ⟨relation + 1, 0⟩

/-- The loop returns the rows below the end key: the rows come in order, so nothing is lost by
stopping at the first one that is not. -/
theorem rangeScanLoop_eq (e : NRAMKey) {es : List (List Byte × V)}
    (hsorted : es.Pairwise fun a b => a.1 < b.1) (hwf : ∀ x ∈ es, ∃ k, x.1 = tkeySerialize k) :
    ∃ l, rangeScanLoop (tkeySerialize e) es = .ok l ∧
      l.map (Prod.map tkeySerialize id) = es.filter fun x => x.1 < tkeySerialize e := by
  induction es with
  | nil => exact ⟨[], rfl, rfl⟩
  | cons x es ih =>
    obtain ⟨key, val⟩ := x
    obtain ⟨hx, hsorted'⟩ := pairwise_cons.mp hsorted
    obtain ⟨k, hk⟩ := hwf _ mem_cons_self
    change key = tkeySerialize k at hk
    subst hk
    by_cases hend : tkeySerialize e ≤ tkeySerialize k
    · -- the loop stops here, and the rest is not below the end key either
      refine ⟨[], if_pos (Or.inr hend), ?_⟩
      have hnone : ∀ y ∈ (tkeySerialize k, val) :: es, ¬ y.1 < tkeySerialize e :=
        forall_mem_cons.mpr ⟨not_lt.mpr hend, fun y hy => not_lt.mpr (hend.trans (hx y hy).le)⟩
      rw [map_nil, eq_comm, filter_eq_nil_iff]
      simpa using hnone
    · obtain ⟨l, hl, hmap⟩ := ih hsorted' fun y hy => hwf y (mem_cons_of_mem _ hy)
      refine ⟨(k, val) :: l, ?_, ?_⟩
      · -- all keys have twelve bytes, so the test of the length never ends the loop
        have hcond : ¬ ((tkeySerialize k).length ≠ (tkeySerialize e).length ∨
            tkeySerialize e ≤ tkeySerialize k) := by simp [hend]
        rw [rangeScanLoop, if_neg hcond, tkeyDeserialize_serialize, hl]
        rfl
      · rw [map_cons, hmap, filter_cons_of_pos (by simpa using hend)]
        rfl

/-- **What a range scan returns**: the stored rows of the byte-swapped interval, in
byte-swapped order. -/
theorem rangeScan_spec (db : RocksDB V) (s e : NRAMKey) :
    ∃ l, rocksengineRangeScan db s e = .ok l ∧
      (∀ k v, (k, v) ∈ l ↔
        rocksengineGet db k = some v ∧ s.swapped ≤ k.swapped ∧ k.swapped < e.swapped) ∧
      l.Pairwise fun a b => a.1.swapped < b.1.swapped := by
  have hsorted := db.map.seek_sorted (tkeySerialize s)
  have hwf : ∀ x ∈ db.map.seek (tkeySerialize s), ∃ k, x.1 = tkeySerialize k :=
    fun x hx => db.keys_wf x (SortedMap.mem_seek.mp hx).1
  obtain ⟨l, hl, hmap⟩ := rangeScanLoop_eq e hsorted hwf
  refine ⟨l, hl, ?_, ?_⟩
  · intro k v
    have hinj : Function.Injective (Prod.map tkeySerialize (id : V → V)) :=
      tkeySerialize_injective.prodMap Function.injective_id
    rw [← mem_map_of_injective hinj, hmap, mem_filter, SortedMap.mem_seek,
      rocksengineGet_eq_some_iff, ← tkeySerialize_le_iff, ← tkeySerialize_lt_iff, and_assoc]
    simp
  · have hpw : (l.map (Prod.map tkeySerialize id)).Pairwise fun a b => a.1 < b.1 :=
      hmap ▸ hsorted.filter _
    exact (pairwise_map.mp hpw).imp fun h => tkeySerialize_lt_iff.mp h

/-! ### Stores that differ in how they hold the values -/

variable {W : Type}

/-- The store with a function applied to its values. -/
def RocksDB.mapVal (db : RocksDB V) (f : V → W) : RocksDB W where
  map := db.map.mapVal f
  keys_wf := by
    intro e he
    obtain ⟨e', he', rfl⟩ := List.mem_map.mp he
    exact db.keys_wf e' he'

@[simp] theorem rocksengineGet_mapVal (db : RocksDB V) (key : NRAMKey) (f : V → W) :
    rocksengineGet (db.mapVal f) key = (rocksengineGet db key).map f :=
  db.map.find?_mapVal _ f

theorem rocksenginePut_mapVal (db : RocksDB V) (key : NRAMKey) (val : V) (f : V → W) :
    rocksenginePut (db.mapVal f) key (f val) = (rocksenginePut db key val).mapVal f := by
  unfold rocksenginePut RocksDB.mapVal
  simp [SortedMap.mapVal_insert]

theorem rangeScanLoop_map (endBuf : List Byte) (f : V → W) (es : List (List Byte × V)) :
    rangeScanLoop endBuf (es.map (Prod.map id f)) =
      (rangeScanLoop endBuf es).map (map (Prod.map id f)) := by
  induction es with
  | nil => rfl
  | cons e es ih =>
    obtain ⟨key, val⟩ := e
    simp only [map_cons, Prod.map_apply, id_eq, rangeScanLoop]
    split
    · rfl
    · rw [ih]
      cases tkeyDeserialize key with
      | error e => rfl
      | ok tkey =>
        cases rangeScanLoop endBuf es with
        | error e | ok results => rfl

theorem rocksengineRangeScan_mapVal (db : RocksDB V) (startKey endKey : NRAMKey) (f : V → W) :
    rocksengineRangeScan (db.mapVal f) startKey endKey =
      (rocksengineRangeScan db startKey endKey).map (map (Prod.map id f)) := by
  unfold rocksengineRangeScan RocksDB.mapVal
  rw [SortedMap.seek_mapVal, rangeScanLoop_map]

/-! ### When a scan returns its range -/

/-- `scan` answers with exactly the rows of `db` whose key meets `P`, each once and in
ascending order of the keys. -/
def Returns (scan : Except String (List (NRAMKey × V))) (db : RocksDB V)
    (P : NRAMKey → Prop) : Prop :=
  ∃ l, scan = .ok l ∧ (∀ k v, (k, v) ∈ l ↔ rocksengineGet db k = some v ∧ P k) ∧
    l.Pairwise fun a b => a.1 < b.1

/-- Swapping bytes is harmless for the stored keys: the swapped bounds `s` and `e` select the
keys that meet `P`, and swapping keeps the order of those. -/
structure SwapHarmless (db : RocksDB V) (s e : NRAMKey) (P : NRAMKey → Prop) : Prop where
  range : ∀ k, (rocksengineGet db k).isSome →
    (P k ↔ s.swapped ≤ k.swapped ∧ k.swapped < e.swapped)
  order : ∀ k k', (rocksengineGet db k).isSome → (rocksengineGet db k').isSome → P k → P k' →
    k.swapped < k'.swapped → k < k'

theorem rangeScan_returns_iff (db : RocksDB V) (s e : NRAMKey) (P : NRAMKey → Prop) :
    Returns (rocksengineRangeScan db s e) db P ↔ SwapHarmless db s e P := by
  obtain ⟨l, hl, hmem, hpw⟩ := rangeScan_spec db s e
  constructor
  · rintro ⟨l', hl', hmem', hpw'⟩
    obtain rfl : l = l' := Except.ok.inj (hl.symm.trans hl')
    have hrange : ∀ k, (rocksengineGet db k).isSome →
        (P k ↔ s.swapped ≤ k.swapped ∧ k.swapped < e.swapped) := by
      intro k hk
      obtain ⟨v, hv⟩ := Option.isSome_iff_exists.mp hk
      have h := (hmem' k v).symm.trans (hmem k v)
      rw [hv] at h
      simpa using h
    refine ⟨hrange, fun k k' hk hk' hP hP' hlt => ?_⟩
    obtain ⟨v, hv⟩ := Option.isSome_iff_exists.mp hk
    obtain ⟨v', hv'⟩ := Option.isSome_iff_exists.mp hk'
    have hin : (k, v) ∈ l := (hmem' k v).mpr ⟨hv, hP⟩
    have hin' : (k', v') ∈ l := (hmem' k' v').mpr ⟨hv', hP'⟩
    -- both orders agree with the position in the list, and so with each other
    have hagree : l.Pairwise fun a b => a.1.swapped < b.1.swapped → a.1 < b.1 := by
      refine hpw'.imp ?_
      intro a b hab _
      exact hab
    have hflip : l.Pairwise (flip fun a b => a.1.swapped < b.1.swapped → a.1 < b.1) := by
      refine hpw.imp ?_
      intro a b hab hba
      exact absurd hba hab.asymm
    have hself : ∀ a ∈ l, a.1.swapped < a.1.swapped → a.1 < a.1 :=
      fun a _ h => absurd h (lt_irrefl _)
    exact hagree.forall_of_forall_of_flip hself hflip hin hin' hlt
  · intro h
    refine ⟨l, hl, fun k v => (hmem k v).trans (and_congr_right fun hv => ?_), ?_⟩
    · exact (h.range k (by rw [hv]; rfl)).symm
    · refine hpw.imp_of_mem fun {a b} ha hb hlt => ?_
      have hga := (hmem a.1 a.2).mp ha
      have hgb := (hmem b.1 b.2).mp hb
      have hsa : (rocksengineGet db a.1).isSome := by rw [hga.1]; rfl
      have hsb : (rocksengineGet db b.1).isSome := by rw [hgb.1]; rfl
      exact h.order a.1 b.1 hsa hsb ((h.range _ hsa).mpr hga.2) ((h.range _ hsb).mpr hgb.2) hlt

/-- **When scans are exact.** A range scan returns exactly the rows of its range, and the scan
of a table exactly the rows of the table, precisely when swapping bytes is harmless for the
stored keys. -/
theorem scan_exact_iff (db : RocksDB V) :
    (∀ s e, Returns (rocksengineRangeScan db s e) db (fun k => s ≤ k ∧ k < e) ↔
      SwapHarmless db s e fun k => s ≤ k ∧ k < e) ∧
    ∀ relation, Returns (nramBeginscanRange db relation) db (fun k => k.tableOid = relation) ↔
      SwapHarmless db ⟨relation, 0⟩ ⟨relation + 1, 0⟩ fun k => k.tableOid = relation :=
  ⟨fun s e => rangeScan_returns_iff db s e _, fun _ => rangeScan_returns_iff db _ _ _⟩

/-- Table `0x40FF` has the bytes `FF 40 00 00` and the table after it `00 41 00 00`: the bytes
of the end key come first, and the scan of the table does not find its only row. -/
theorem scan_of_table_misses_row :
    ¬ Returns (nramBeginscanRange (rocksenginePut .empty ⟨0x40FF, 65537⟩ ()) 0x40FF)
      (rocksenginePut .empty ⟨0x40FF, 65537⟩ ()) fun k => k.tableOid = 0x40FF := by
  rintro ⟨l, hl, hmem, -⟩
  have hnone : nramBeginscanRange (rocksenginePut .empty ⟨0x40FF, 65537⟩ ()) 0x40FF = .ok [] := by
    decide
  obtain rfl : l = [] := Except.ok.inj (hl.symm.trans hnone)
  cases (hmem ⟨0x40FF, 65537⟩ ()).mpr ⟨by simp, rfl⟩

end NeurDB.Nram
