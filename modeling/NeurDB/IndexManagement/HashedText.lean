import NeurDB.Framework.Bytes
import NeurDB.Framework.Text
import NeurDB.Framework.Utf8
import NeurDB.IndexManagement.Statement

/-!
# Texts that carry a hash

Two texts of `nr_index_management.c` are told apart by a hash of 32 bits.

* The name of a reactive index ends in the hash of its table and columns. It is then cut after 63
  bytes: where the names of table and columns are long, the hash is what is cut off
  (`index_name_identifies_iff`).
* A query is enqueued between dollar quotes whose tag is the hash of the query. Nothing keeps a
  query from containing its own tag, and some do (`quoted_exactly_iff`). The rules of the lexer are
  those of `scan.l` (`scanXdolq_eq`).
-/

namespace NeurDB.IndexManagement

open List Text

/-! ### The hash -/

/-- `mix` and `final` of `hashfn.c` are rounds of one form each: the three words change their
roles after each round. -/
def mixRound (s : BitVec 32 × BitVec 32 × BitVec 32) (r : ℕ) :
    BitVec 32 × BitVec 32 × BitVec 32 :=
  let (a, b, c) := s
  (b, c + b, (a - c) ^^^ c.rotateLeft r)

def finalRound (s : BitVec 32 × BitVec 32 × BitVec 32) (r : ℕ) :
    BitVec 32 × BitVec 32 × BitVec 32 :=
  let (a, b, c) := s
  (b, (c ^^^ b) - b.rotateLeft r, a)

/-- The next four bytes, or what is left of them, in little-endian order. -/
def nextWord (k : List UInt8) : BitVec 32 :=
  (k.take 4).foldr (fun byte w => w * 256 + BitVec.ofNat 32 byte.toNat) 0

def hashLoop : ℕ → BitVec 32 × BitVec 32 × BitVec 32 → List UInt8 → BitVec 32
  | 0, _, _ => 0
  | n + 1, (a, b, c), k =>
    let a := a + nextWord k
    let b := b + nextWord (k.drop 4)
    if 12 ≤ k.length then
      hashLoop n ([4, 6, 8, 16, 19, 4].foldl mixRound (a, b, c + nextWord (k.drop 8))) (k.drop 12)
    -- the lowest byte of `c` is reserved for the length
    else ([14, 11, 25, 16, 4, 14, 24].foldl finalRound (a, b, c + nextWord (k.drop 8) * 256)).2.1

/-- `hash_bytes`. -/
def hashBytes (k : List UInt8) : BitVec 32 :=
  let init := 0x9e3779b9#32 + BitVec.ofNat 32 k.length + 3923095#32
  hashLoop (k.length + 1) (init, init, init) k

/-! ### The name of an index -/

def namedatalen : ℕ := 64

/-- A name in the catalog. -/
def Identifier : Type :=
  { name : List UInt8 // name ≠ [] ∧ name.length < namedatalen ∧ 0 ∉ name }

structure KeyNames where
  relname : Identifier
  attnames : List Identifier

/-- The hash of the record `key`, which is zero where nothing is written. -/
def keyHash (relid : ℕ) (cols : List ℕ) : BitVec 32 :=
  hashBytes (((leBytes 4 relid ++ leBytes 2 cols.length ++ (cols.take 8).flatMap (leBytes 2)).map
    fun byte => UInt8.ofNat byte.val).rightpad 24 0)

/-- `%08x`. -/
def hexDigits (h : BitVec 32) : List UInt8 :=
  (range 8).map fun i => (Nat.digitChar (h.toNat / 16 ^ (7 - i) % 16)).toUInt8

/-- The name without the hash. -/
def KeyNames.base (k : KeyNames) : List UInt8 :=
  utf8 "idx_reactive_".toList ++
    (k.relname.1 ++ (k.attnames.flatMap (fun a => '_'.toUInt8 :: a.1) ++ ['_'.toUInt8]))

/-- `nrim_worker_build_index_name`, over the hash of the key. -/
def buildIndexName (k : KeyNames) (h : BitVec 32) : List UInt8 :=
  (k.base ++ hexDigits h).take (namedatalen - 1)

/-- `truncate_identifier`, over `pg_mbcliplen` of the encoding. -/
def truncateIdentifier (mbcliplen : List UInt8 → ℕ) (ident : List UInt8) : List UInt8 :=
  if namedatalen ≤ ident.length then ident.take (mbcliplen ident) else ident

/-- **The name identifies the columns**: no other key of another hash has the name, and
`truncate_identifier` leaves it as it is. -/
structure NameIdentifies (k : KeyNames) : Prop where
  distinct : ∀ k' h h', k' ≠ k → h ≠ h' → buildIndexName k h ≠ buildIndexName k' h'
  stored : ∀ mbcliplen h,
    truncateIdentifier mbcliplen (buildIndexName k h) = buildIndexName k h

theorem digitChar_injective :
    ∀ d d' : Fin 16, (Nat.digitChar d).toUInt8 = (Nat.digitChar d').toUInt8 → d = d' := by
  decide

theorem hexDigits_injective {h h' : BitVec 32} (heq : hexDigits h = hexDigits h') : h = h' := by
  have hdigit : ∀ i < 8, h.toNat / 16 ^ (7 - i) % 16 = h'.toNat / 16 ^ (7 - i) % 16 := by
    intro i hi
    have hchar := map_inj_left.mp heq i (mem_range.mpr hi)
    exact congrArg Fin.val (digitChar_injective ⟨_, Nat.mod_lt _ (by decide)⟩
      ⟨_, Nat.mod_lt _ (by decide)⟩ hchar)
  have h0 := hdigit 0 (by decide)
  have h1 := hdigit 1 (by decide)
  have h2 := hdigit 2 (by decide)
  have h3 := hdigit 3 (by decide)
  have h4 := hdigit 4 (by decide)
  have h5 := hdigit 5 (by decide)
  have h6 := hdigit 6 (by decide)
  have h7 := hdigit 7 (by decide)
  norm_num at h0 h1 h2 h3 h4 h5 h6 h7
  exact BitVec.eq_of_toNat_eq (by omega)

theorem length_hexDigits (h : BitVec 32) : (hexDigits h).length = 8 := by simp [hexDigits]

theorem length_base (k : KeyNames) :
    k.base.length = 14 + k.relname.1.length + (k.attnames.map (·.1.length + 1)).sum := by
  simp only [KeyNames.base, length_append, length_flatMap, length_cons, length_nil]
  have hpre : (utf8 "idx_reactive_".toList).length = 13 := by decide
  omega

theorem length_buildIndexName_lt (k : KeyNames) (h : BitVec 32) :
    (buildIndexName k h).length < namedatalen :=
  Nat.lt_of_le_of_lt (length_take_le _ _) (by decide)

/-- A name that is not cut ends in the hash. -/
theorem buildIndexName_of_uncut {k : KeyNames} (h : BitVec 32)
    (huncut : k.base.length + 8 ≤ 63) : buildIndexName k h = k.base ++ hexDigits h :=
  take_of_length_le (by rw [length_append, length_hexDigits]; exact huncut)

/-- **Two keys whose names are not cut** have different names where they have different hashes. -/
theorem buildIndexName_ne_of_uncut {k k' : KeyNames} {h h' : BitVec 32} (hne : h ≠ h')
    (huncut : k.base.length + 8 ≤ 63) (huncut' : k'.base.length + 8 ≤ 63) :
    buildIndexName k h ≠ buildIndexName k' h' := by
  intro heq
  rw [buildIndexName_of_uncut h huncut, buildIndexName_of_uncut h' huncut'] at heq
  exact hne (hexDigits_injective
    (append_inj_right' heq ((length_hexDigits h).trans (length_hexDigits h').symm)))

/-- A column that is named like a hash. -/
def hashColumn (h : BitVec 32) : Identifier :=
  ⟨hexDigits h ++ ['x'.toUInt8], by simp, by simp [length_hexDigits, namedatalen], by
    have hdigit : ∀ d : Fin 16, (Nat.digitChar d).toUInt8 ≠ 0 := by decide
    intro hmem
    rcases mem_append.mp hmem with hhex | hx
    · obtain ⟨i, -, hi⟩ := mem_map.mp hhex
      exact hdigit ⟨_, Nat.mod_lt _ (by decide)⟩ hi
    · exact absurd hx (by decide)⟩

/-- The key with one column more, whose name begins where the hash `h` does. -/
def KeyNames.addColumn (k : KeyNames) (h : BitVec 32) : KeyNames :=
  { k with attnames := k.attnames ++ [hashColumn h] }

theorem base_addColumn (k : KeyNames) (h : BitVec 32) :
    (k.addColumn h).base = k.base ++ (hexDigits h ++ ['x'.toUInt8, '_'.toUInt8]) := by
  have hcolumn : [hashColumn h].flatMap (fun a => '_'.toUInt8 :: a.1) =
      '_'.toUInt8 :: (hexDigits h ++ ['x'.toUInt8]) :=
    flatMap_singleton _ _
  simp [KeyNames.base, KeyNames.addColumn, hcolumn]

/-- **A long name says nothing about the other hash**: whatever hash the key has, and whatever
hash the key with one column more has, their names are one. -/
theorem buildIndexName_addColumn {k : KeyNames} (hlong : 63 ≤ k.base.length + 8)
    (h h' : BitVec 32) : buildIndexName k h = buildIndexName (k.addColumn h) h' := by
  have hcut : namedatalen - 1 ≤ (k.base ++ hexDigits h).length := by
    rw [length_append, length_hexDigits]
    exact hlong
  unfold buildIndexName
  rw [base_addColumn, append_assoc, append_assoc, ← append_assoc k.base,
    take_append_of_le_length hcut]

/-- **The name identifies the columns** exactly if table and columns have short names: 40 bytes,
with one more for each column. -/
theorem index_name_identifies_iff (k : KeyNames) :
    NameIdentifies k ↔ k.relname.1.length + (k.attnames.map (·.1.length + 1)).sum ≤ 40 := by
  have hbase := length_base k
  constructor
  · intro hname
    by_contra hlong
    refine hname.distinct (k.addColumn 0) 0 1 ?_ (by decide)
      (buildIndexName_addColumn (by omega) 0 1)
    intro heq
    simpa [KeyNames.addColumn] using congrArg KeyNames.attnames heq
  · intro hshort
    refine ⟨fun k' h h' _ hne heq => ?_, fun mbcliplen h => ?_⟩
    · -- the other name is as short, so it is not cut either
      have hlength := congrArg length heq
      simp only [buildIndexName, length_take, length_append, length_hexDigits, namedatalen]
        at hlength
      exact buildIndexName_ne_of_uncut hne (by omega) (by omega) heq
    · exact if_neg (Nat.not_le.mpr (length_buildIndexName_lt k h))

/-- A table with a name of 60 bytes. -/
def longTable (column : Identifier) : KeyNames :=
  ⟨⟨replicate 60 'a'.toUInt8, by decide⟩, [column]⟩

/-- **Two indexes of one name**: on the columns `b` and `c` of a table with a long name. -/
theorem long_table_one_name :
    keyHash 16384 [1] ≠ keyHash 16384 [2] ∧
      buildIndexName (longTable ⟨['b'.toUInt8], by decide⟩) (keyHash 16384 [1]) =
        buildIndexName (longTable ⟨['c'.toUInt8], by decide⟩) (keyHash 16384 [2]) := by
  decide +kernel

/-! ### Dollar quotes -/

def dolqStart (c : Char) : Bool := c.isAlpha || c = '_' || 128 ≤ c.toNat

def dolqCont (c : Char) : Bool := dolqStart c || c.isDigit

/-- The longest name behind a `$`: `dolq_start` and then `dolq_cont`. -/
def dolqName : List Char → List Char
  | c :: l => if dolqStart c then c :: l.takeWhile dolqCont else []
  | [] => []

/-- The rules of the state `xdolq`: the text up to the closing quote, and what stands behind it.
What else a rule matches is put out as it is, but for the `$` at its end, which is scanned again. -/
def scanXdolq (name : List Char) : List Char → Option (List Char × List Char)
  | [] => none
  | c :: l =>
    if c = '$' ∧ dolqName l = name ∧ (l.drop name.length).head? = some '$' then
      some ([], l.drop (name.length + 1))
    else (scanXdolq name l).map fun p => (c :: p.1, p.2)

/-- `readCandidates` and `insertedRow`, with the values read by the lexer. -/
def scanCandidates (name rest : List Char) : Option (Option (List Char)) :=
  if rest = "NULL);".toList then some none
  else do
    let body ← dropPrefix? ('$' :: (name ++ ['$'])) rest
    let (candidates, close) ← scanXdolq name body
    if close = ");".toList then some (some candidates) else none

def scannedRow (name command : List Char) : Option (List Char × Option (List Char)) := do
  let values ← dropPrefix? (insertPrefix ++ '$' :: (name ++ ['$'])) command
  let (queryText, rest) ← scanXdolq name values
  let second ← dropPrefix? ", ".toList rest
  let candidates ← scanCandidates name second
  return (queryText, candidates)

/-- `nrim_build_candidates_json`, over the candidates: table and columns of each. -/
def candidateJson (cand : ℕ × List ℤ) : List Char :=
  "\x7b\"relid\":".toList ++ printInt cand.1 ++ ",\"cols\":[".toList ++
    (cand.2.flatMap fun col => ',' :: printInt col).drop 1 ++ "]\x7d".toList

def buildCandidatesJson (cands : List (ℕ × List ℤ)) : List Char :=
  if cands = [] then []
  else '[' :: ((cands.flatMap fun cand => ',' :: candidateJson cand).drop 1 ++ [']'])

theorem dolqName_prefix (l : List Char) : dolqName l <+: l := by
  cases l with
  | nil => exact prefix_rfl
  | cons c l =>
    rw [dolqName]
    split
    · exact cons_prefix_cons.mpr ⟨rfl, takeWhile_prefix _⟩
    · exact nil_prefix

/-- **A dollar-quoted text ends at the first occurrence of its quote.** -/
theorem scanXdolq_eq {name : List Char} (hname : ∀ l, dolqName (name ++ '$' :: l) = name)
    (l : List Char) : scanXdolq name l = splitAtDelim ('$' :: (name ++ ['$'])) l := by
  induction l with
  | nil => rfl
  | cons c l ih =>
    have hquote : (c = '$' ∧ dolqName l = name ∧ (l.drop name.length).head? = some '$') ↔
        '$' :: (name ++ ['$']) <+: c :: l := by
      rw [cons_prefix_cons, eq_comm]
      refine and_congr_right fun _ => ⟨?_, ?_⟩
      · rintro ⟨hl, hhead⟩
        obtain ⟨rest, rfl⟩ := hl ▸ dolqName_prefix l
        rw [drop_left, head?_eq_some_iff] at hhead
        obtain ⟨rest, rfl⟩ := hhead
        exact ⟨rest, by rw [append_assoc, singleton_append]⟩
      · rintro ⟨rest, rfl⟩
        rw [append_assoc, singleton_append, drop_left]
        exact ⟨hname rest, rfl⟩
    rw [scanXdolq, splitAtDelim, ih]
    by_cases h : '$' :: (name ++ ['$']) <+: c :: l
    · rw [if_pos h, if_pos (hquote.mpr h)]
      simp
    · rw [if_neg h, if_neg (hquote.not.mpr h)]

theorem dolqName_tag (h : BitVec 32) (l : List Char) : dolqName (tag h ++ '$' :: l) = tag h := by
  have hdigit : ∀ d : Fin 16, dolqCont (Nat.digitChar d) = true := by decide
  have hcont : ∀ c ∈ ['r', 'i', 'm', 'q', '_'] ++ (range 8).map
      fun i => Nat.digitChar (h.toNat / 16 ^ (7 - i) % 16), dolqCont c = true := by
    intro c hc
    rcases mem_append.mp hc with hpre | hhex
    · exact all_eq_true.mp (by decide : all ['r', 'i', 'm', 'q', '_'] dolqCont = true) c hpre
    · obtain ⟨i, -, rfl⟩ := mem_map.mp hhex
      exact hdigit ⟨_, Nat.mod_lt _ (by decide)⟩
  have htag : tag h = 'n' :: (['r', 'i', 'm', 'q', '_'] ++ (range 8).map
      fun i => Nat.digitChar (h.toNat / 16 ^ (7 - i) % 16)) := rfl
  rw [htag, cons_append, dolqName, if_pos (by decide), takeWhile_append_of_pos hcont,
    takeWhile_cons_of_neg (by decide), append_nil]

theorem scannedRow_eq (h : BitVec 32) (command : List Char) :
    scannedRow (tag h) command = insertedRow (dollarQuote h) command := by
  simp only [scannedRow, scanCandidates, scanXdolq_eq (dolqName_tag h)]
  rfl

theorem dollar_notMem_buildCandidatesJson (cands : List (ℕ × List ℤ)) :
    '$' ∉ buildCandidatesJson cands := by
  have hint : ∀ z, '$' ∉ printInt z := by
    intro z hz
    exact absurd (isDigit_or_minus_of_mem_printInt hz) (by decide)
  have hcols : ∀ cols : List ℤ, '$' ∉ (cols.flatMap fun col => ',' :: printInt col).drop 1 := by
    intro cols hmem
    obtain ⟨col, -, hcol⟩ := mem_flatMap.mp (mem_of_mem_drop hmem)
    exact hint col ((mem_cons.mp hcol).resolve_left (by decide))
  have hcand : ∀ cand, '$' ∉ candidateJson cand := by
    intro cand
    exact not_mem_append (not_mem_append (not_mem_append (not_mem_append (by decide) (hint _))
      (by decide)) (hcols _)) (by decide)
  unfold buildCandidatesJson
  split
  · exact not_mem_nil
  · intro hmem
    rcases mem_append.mp ((mem_cons.mp hmem).resolve_left (by decide)) with hmem | hmem
    · obtain ⟨cand, -, hc⟩ := mem_flatMap.mp (mem_of_mem_drop hmem)
      exact hcand cand ((mem_cons.mp hc).resolve_left (by decide))
    · exact absurd (mem_singleton.mp hmem) (by decide)

/-- **The INSERT has exactly the query and the candidates as its values** if, and only if, the
query does not close its own quote. -/
theorem quoted_exactly_iff (hashAny : List Char → BitVec 32) (queryText : List Char)
    (cands : List (ℕ × List ℤ)) :
    scannedRow (tag (hashAny queryText))
        (nrimEnqueueWorkItem hashAny queryText (buildCandidatesJson cands)) =
      some (queryText, candidatesText (buildCandidatesJson cands)) ↔
      ¬ ClosesEarly (dollarQuote (hashAny queryText)) queryText := by
  rw [scannedRow_eq, nrimEnqueueWorkItem, insertedRow_iff]
  have hcands : ∀ x ∈ candidatesText (buildCandidatesJson cands),
      ¬ ClosesEarly (dollarQuote (hashAny queryText)) x := by
    intro x hx
    unfold candidatesText at hx
    split at hx
    · cases hx
    · cases hx
      exact not_closesEarly_of_notMem (dollar_notMem_buildCandidatesJson cands)
  exact ⟨fun h => h.2.1, fun h => ⟨rfl, h, hcands⟩⟩

/-- **A query with its own tag**: the hash of the text is the one it contains. -/
theorem own_tag_not_quoted :
    let query := "SELECT * FROM t WHERE b = '$nrimq_5c2c3dfc$'".toList
    let cands := buildCandidatesJson [(16384, [2])]
    scannedRow (tag (hashBytes (utf8 query)))
        (nrimEnqueueWorkItem (fun text => hashBytes (utf8 text)) query cands) ≠
      some (query, candidatesText cands) := by
  decide +kernel

end NeurDB.IndexManagement
