import NeurDB.Framework.Bytes
import NeurDB.Framework.Rounding
import NeurDB.Framework.Text

/-!
# The rows of a batch as text

`_build_libsvm_data` (`nr_pipeline/src/interface.c`) prints the rows of a batch, one line each: the
label, then the features. `libsvm_batch_preprocess_id_only` takes the text apart and fills the
tensors.

The features are printed by their type. The label is printed as a 32-bit integer, whatever its
type: of an int8 the upper half is lost; of a float8 the lower half of its bits is printed, and of
a text the lower half of its address. A text feature is given to `encode_text` as if it were a C
string; it begins with its length, and does not end where the text ends
(`TextDatum.cString_ne_text`).

`buildLibsvmData_spec` says what is printed, `preprocess_linesOf` that it comes back.
-/

namespace NeurDB.Pipeline

open Function List Option

open Text Rounding

/-! ### Values -/

/-- A text in memory: a header with the length, the bytes, and what comes behind them. -/
structure TextDatum where
  address : BitVec 64
  text : List Byte
  behind : List Byte
  no_zero : zeroByte ∉ text

namespace TextDatum

/-- The header: one byte for a short text, four bytes for a longer one. -/
def header (d : TextDatum) : List Byte :=
  if d.text.length + 1 ≤ 127 then leBytes 1 (2 * (d.text.length + 1) + 1)
  else leBytes 4 (4 * (d.text.length + 4))

/-- `DatumGetCString`: the bytes from the address on, up to the first zero. -/
def cString (d : TextDatum) : List Byte :=
  (d.header ++ (d.text ++ d.behind)).takeWhile (· ≠ zeroByte)

end TextDatum

inductive LabelDatum where
  | int2 (n : BitVec 16)
  | int4 (n : BitVec 32)
  | int8 (n : BitVec 64)
  | float8 (bits : BitVec 64)
  | text (d : TextDatum)

/-- The value of a column as a machine word. -/
def LabelDatum.datum : LabelDatum → BitVec 64
  | int2 n => n.signExtend 64
  | int4 n => n.signExtend 64
  | int8 n => n
  | float8 bits => bits
  | text d => d.address

/-- `DatumGetInt32`. -/
def datumGetInt32 (datum : BitVec 64) : ℤ := (datum.setWidth 32).toInt

inductive FeatureDatum where
  | int2 (n : BitVec 16)
  | int4 (n : BitVec 32)
  | int8 (n : BitVec 64)
  | float4 (bits : BitVec 32)
  | float8 (bits : BitVec 64)
  | text (d : TextDatum)
  /-- A type that `_build_libsvm_data` does not support. -/
  | other

structure Row where
  label : LabelDatum
  features : List FeatureDatum

/-! ### Text features -/

/-- A mapping table of `encode_text`: a text and its number, both unique. -/
structure MappingTable where
  rows : List (List Byte × ℕ)
  /-- The next value of the sequence. -/
  next : ℕ
  text_nodup : (rows.map Prod.fst).Nodup
  value_nodup : (rows.map Prod.snd).Nodup
  value_lt : ∀ row ∈ rows, row.2 < next

namespace MappingTable

def find (t : MappingTable) (text : List Byte) : Option ℕ :=
  (t.rows.find? (·.1 = text)).map Prod.snd

variable {t : MappingTable} {text : List Byte}

theorem find_eq_some_iff {v : ℕ} : t.find text = some v ↔ (text, v) ∈ t.rows := by
  unfold find
  constructor
  · intro h
    obtain ⟨row, hrow, rfl⟩ := map_eq_some_iff.mp h
    have hmem := mem_of_find?_eq_some hrow
    have htext : row.1 = text := by simpa using find?_some hrow
    rw [← htext]
    exact hmem
  · intro h
    cases hfind : t.rows.find? (·.1 = text) with
    | none => simpa using find?_eq_none.mp hfind (text, v) h
    | some row =>
      have hmem := mem_of_find?_eq_some hfind
      have htext : row.1 = text := by simpa using find?_some hfind
      -- the text is unique
      have hrow : row = (text, v) := inj_on_of_nodup_map t.text_nodup hmem h htext
      rw [hrow]
      rfl

theorem find_eq_none (h : t.find text = none) (v : ℕ) : (text, v) ∉ t.rows := by
  intro hmem
  rw [find_eq_some_iff.mpr hmem] at h
  cases h

theorem text_eq_of_find {text' : List Byte} {v : ℕ} (h : t.find text = some v)
    (h' : t.find text' = some v) : text = text' := by
  have heq := inj_on_of_nodup_map t.value_nodup (find_eq_some_iff.mp h)
    (find_eq_some_iff.mp h') rfl
  exact congrArg Prod.fst heq

/-- A row for a new text. -/
def insert (t : MappingTable) (text : List Byte) (h : t.find text = none) : MappingTable where
  rows := t.rows ++ [(text, t.next)]
  next := t.next + 1
  text_nodup := by
    rw [map_append, nodup_append]
    refine ⟨t.text_nodup, nodup_singleton _, fun a ha b hb => ?_⟩
    obtain ⟨row, hrow, rfl⟩ := mem_map.mp ha
    rintro rfl
    obtain rfl : row.1 = text := by simpa using hb
    exact find_eq_none h row.2 hrow
  value_nodup := by
    rw [map_append, nodup_append]
    refine ⟨t.value_nodup, nodup_singleton _, fun a ha b hb => ?_⟩
    obtain ⟨row, hrow, rfl⟩ := mem_map.mp ha
    have hlt := t.value_lt row hrow
    have hb' : b = t.next := by simpa using hb
    omega
  value_lt := forall_mem_append.mpr ⟨fun row hrow => (t.value_lt row hrow).trans (Nat.lt_succ_self _),
    forall_mem_singleton.mpr (Nat.lt_succ_self _)⟩

/-- Every number of `t` is one of `t'`. -/
def Le (t t' : MappingTable) : Prop := ∀ text v, t.find text = some v → t'.find text = some v

theorem Le.refl (t : MappingTable) : t.Le t := fun _ _ h => h

theorem Le.trans {t' t'' : MappingTable} (h : t.Le t') (h' : t'.Le t'') : t.Le t'' :=
  fun text v hv => h' text v (h text v hv)

end MappingTable

def quoteByte : Byte := ⟨39, by decide⟩

/-- `encode_text`. A quote in the text ends the literal of the statement; what such a statement does
is left out. -/
def encodeText (t : MappingTable) (text : List Byte) : Option (ℕ × MappingTable) :=
  if text.contains quoteByte then none
  else if h : t.find text = none then some (t.next, t.insert text h)
  else (t.find text).map fun v => (v, t)

theorem encodeText_spec {t t' : MappingTable} {text : List Byte} {v : ℕ}
    (h : encodeText t text = some (v, t')) : t'.find text = some v ∧ t.Le t' := by
  unfold encodeText at h
  split at h
  · cases h
  · split at h
    case isTrue hfind =>
      cases h
      refine ⟨?_, fun text' w hw => ?_⟩
      · exact MappingTable.find_eq_some_iff.mpr
          (mem_append_right _ (mem_singleton.mpr rfl))
      · exact MappingTable.find_eq_some_iff.mpr
          (mem_append_left _ (MappingTable.find_eq_some_iff.mp hw))
    case isFalse =>
      obtain ⟨w, hfind, heq⟩ := map_eq_some_iff.mp h
      cases heq
      exact ⟨hfind, .refl t⟩

theorem TextDatum.header_ne_nil (d : TextDatum) : d.header ≠ [] := by
  unfold header
  split <;> exact ne_nil_of_length_pos (by rw [length_leBytes]; omega)

theorem TextDatum.length_header_lt_of_zero {d : TextDatum} (h : zeroByte ∈ d.header) :
    d.header.length < d.text.length := by
  unfold header at h ⊢
  split at h
  case isTrue hshort =>
    -- the one byte is odd
    simp only [leBytes, mem_singleton] at h
    have hval : 0 = (2 * (d.text.length + 1) + 1) % 256 := congrArg Fin.val h
    omega
  case isFalse hlong =>
    rw [if_neg hlong, length_leBytes]
    omega

/-- The text that `encode_text` gets is never the text of the column: it ends within the header, or
it has the header in front. -/
theorem TextDatum.cString_ne_text (d : TextDatum) : d.cString ≠ d.text := by
  intro heq
  have hlen : d.cString.length = d.text.length := congrArg length heq
  unfold cString at hlen
  by_cases hzero : zeroByte ∈ d.header
  · have hend : (d.header.takeWhile (· ≠ zeroByte)).length ≠ d.header.length := by
      intro h
      have hall := takeWhile_eq_self_iff.mp ((takeWhile_sublist _).eq_of_length h)
      simpa using hall zeroByte hzero
    have hle := (takeWhile_sublist (· ≠ zeroByte) (l := d.header)).length_le
    rw [takeWhile_append, if_neg hend] at hlen
    have := length_header_lt_of_zero hzero
    omega
  · have hall : ∀ b ∈ d.header ++ d.text, decide (b ≠ zeroByte) = true := by
      intro b hb
      rw [decide_eq_true_eq]
      rintro rfl
      exact (mem_append.mp hb).elim hzero d.no_zero
    rw [← append_assoc, takeWhile_append_of_pos hall, length_append, length_append] at hlen
    have := length_pos_iff.mpr d.header_ne_nil
    omega

/-! ### Printing a batch -/

/-- `%f` of the two float types. -/
structure FloatFormat where
  float4 : BitVec 32 → List Char
  float8 : BitVec 64 → List Char

/-- The mapping tables of a table, by the name of the column. -/
abbrev Mappings := String → MappingTable

def Mappings.Le (maps maps' : Mappings) : Prop := ∀ name, (maps name).Le (maps' name)

theorem Mappings.Le.refl (maps : Mappings) : Mappings.Le maps maps := fun _ => .refl _

theorem Mappings.Le.trans {maps maps' maps'' : Mappings} (h : Mappings.Le maps maps')
    (h' : Mappings.Le maps' maps'') : Mappings.Le maps maps'' :=
  fun name => (h name).trans (h' name)

/-- The text of one feature; `none` is the error for a type that is not supported. The name of the
model is compared with `"auto_pipeline"` as a pointer, so that a text is always encoded. -/
def featureText (format : FloatFormat) (maps : Mappings) (name : String) :
    FeatureDatum → Option (List Char × Mappings)
  | .int2 n => some (printInt n.toInt, maps)
  | .int4 n => some (printInt n.toInt, maps)
  | .int8 n => some (printInt n.toInt, maps)
  | .float4 bits => some (format.float4 bits, maps)
  | .float8 bits => some (format.float8 bits, maps)
  | .text d => do
    let (token, t) ← encodeText (maps name) d.cString
    pure (printInt token, update maps name t)
  | .other => none

/-- The loop over the columns, from `col` on. -/
def featuresText (format : FloatFormat) (featureNames : ℕ → String) (maps : Mappings) (col : ℕ) :
    List FeatureDatum → Option (List Char × Mappings)
  | [] => some ([], maps)
  | f :: fs => do
    let (token, maps) ← featureText format maps (featureNames col) f
    let (rest, maps) ← featuresText format featureNames maps (col + 1) fs
    pure (' ' :: token ++ rest, maps)

/-- The label: printed with `%d`, whatever its type. -/
def labelText (hasLabel : Bool) (label : LabelDatum) : List Char :=
  if hasLabel then printInt (datumGetInt32 label.datum) else ['0']

/-- `_build_libsvm_data`. -/
def buildLibsvmData (format : FloatFormat) (featureNames : ℕ → String) (hasLabel : Bool)
    (maps : Mappings) : List Row → Option (List Char × Mappings)
  | [] => some ([], maps)
  | row :: rows => do
    let (features, maps) ← featuresText format featureNames maps 0 row.features
    let (rest, maps) ← buildLibsvmData format featureNames hasLabel maps rows
    pure (labelText hasLabel row.label ++ features ++ '\n' :: rest, maps)

/-! ### Taking the text apart -/

/-- The characters `str.split` and `str.strip` take for blanks. -/
def isSpace (c : Char) : Bool :=
  let n := c.toNat
  (9 ≤ n && n ≤ 13) || (28 ≤ n && n ≤ 32) || n == 0x85 || n == 0xa0 || n == 0x1680 ||
    (0x2000 ≤ n && n ≤ 0x200a) || n == 0x2028 || n == 0x2029 || n == 0x202f || n == 0x205f ||
    n == 0x3000

/-- `str.strip`. -/
def strip (l : List Char) : List Char := (l.dropWhile isSpace).rdropWhile isSpace

/-- `_parser_data`: the labels and the ids of the lines. Only texts of integers occur; `float` of
one is taken for the integer. -/
def parserData : List (List Char) → Option (List ℤ × List (List ℤ))
  | [] => some ([], [])
  | line :: lines =>
    if strip line = [] then parserData lines
    else
      match words isSpace (strip line) with
      | [] => none
      | column :: columns => do
        let label ← readInt column
        let ids ← columns.mapM readInt
        let (labels, idsList) ← parserData lines
        pure (label :: labels, ids :: idsList)

/-- The tensors. `y` and `value` have single precision. -/
structure Tensors where
  id : List (List ℤ)
  value : List (List ℤ)
  y : List ℤ
  deriving DecidableEq

/-- A row of `feat_id` with `ids` at its start; `none` is the error of more ids than fields. -/
def fillRow (maxNFields : ℕ) (ids : List ℤ) : Option (List ℤ) :=
  if ids.length ≤ maxNFields then some (ids ++ replicate (maxNFields - ids.length) 0)
  else none

/-- `libsvm_batch_preprocess_id_only`. -/
def libsvmBatchPreprocessIdOnly (data : List Char) (maxNFields : ℕ) : Option Tensors := do
  let (labels, idsList) ← parserData (data.splitOn '\n')
  let id ← idsList.mapM (fillRow maxNFields)
  pure
    { id := id
      value := replicate idsList.length (replicate maxNFields 1)
      y := labels.map (roundTo 24) }

/-! ### Samples come back -/

/-- The line of a sample. -/
def line (label : ℤ) (ids : List ℤ) : List Char :=
  printInt label ++ (ids.map printInt).flatMap (' ' :: ·)

/-- The lines of some samples. -/
def linesOf (samples : List (ℤ × List ℤ)) : List Char :=
  samples.flatMap fun sample => line sample.1 sample.2 ++ ['\n']

theorem isSpace_of_mem_printInt {z : ℤ} {c : Char} (h : c ∈ printInt z) : isSpace c = false := by
  rcases isDigit_or_minus_of_mem_printInt h with hdigit | rfl
  · have hn : 48 ≤ c.toNat ∧ c.toNat ≤ 57 := Char.isDigit_iff_toNat.mp hdigit
    simp only [isSpace, Bool.or_eq_false_iff, Bool.and_eq_false_iff, decide_eq_false_iff_not,
      beq_eq_false_iff_ne]
    omega
  · rfl

section

variable (label : ℤ) (ids : List ℤ)

theorem getLast_line : ∃ init c, line label ids = init ++ [c] ∧ isSpace c = false := by
  -- every number leaves a text that ends so, whatever stands before it
  have hprint (w : List Char) (z : ℤ) : ∃ init c, w ++ printInt z = init ++ [c] ∧
      isSpace c = false := by
    have hmem := getLast_mem (printInt_ne_nil z)
    refine ⟨w ++ (printInt z).dropLast, _, ?_, isSpace_of_mem_printInt hmem⟩
    rw [append_assoc, dropLast_append_getLast]
  have hids (w : List Char) (hw : ∃ init c, w = init ++ [c] ∧ isSpace c = false) :
      ∃ init c, w ++ (ids.map printInt).flatMap (' ' :: ·) = init ++ [c] ∧ isSpace c = false := by
    induction ids generalizing w with
    | nil => simpa using hw
    | cons id ids ih =>
      obtain ⟨init, c, heq, hc⟩ := ih (w ++ [' '] ++ printInt id) (hprint _ id)
      refine ⟨init, c, ?_, hc⟩
      rw [← heq, map_cons, flatMap_cons]
      simp
  exact hids _ (hprint [] label)

theorem strip_line : strip (line label ids) = line label ids := by
  obtain ⟨init, c, hlast, hc⟩ := getLast_line label ids
  have hfront : (line label ids).dropWhile isSpace = line label ids := by
    cases hp : printInt label with
    | nil => exact absurd hp (printInt_ne_nil label)
    | cons d ds =>
      have hd : isSpace d = false := isSpace_of_mem_printInt (hp ▸ mem_cons_self)
      rw [line, hp, cons_append, dropWhile_cons_of_neg (by simp [hd])]
  rw [strip, hfront, hlast, rdropWhile_concat_neg _ _ _ (by simp [hc])]

theorem line_ne_nil : line label ids ≠ [] :=
  append_ne_nil_of_left_ne_nil (printInt_ne_nil label) _

theorem words_line : words isSpace (line label ids) = printInt label :: ids.map printInt := by
  refine words_join rfl (fun c => isSpace_of_mem_printInt) (printInt_ne_nil label) ?_
  intro w hw
  obtain ⟨id, -, rfl⟩ := mem_map.mp hw
  exact ⟨printInt_ne_nil id, fun c => isSpace_of_mem_printInt⟩

theorem newline_not_mem_line : '\n' ∉ line label ids := by
  have hprint (z : ℤ) : '\n' ∉ printInt z := fun h => by
    have := isSpace_of_mem_printInt h
    revert this
    decide
  intro h
  rcases mem_append.mp h with h | h
  · exact hprint label h
  · obtain ⟨w, hw, hmem⟩ := mem_flatMap.mp h
    obtain ⟨id, -, rfl⟩ := mem_map.mp hw
    rcases mem_cons.mp hmem with heq | hmem
    · revert heq
      decide
    · exact hprint id hmem

end

theorem splitOn_linesOf (samples : List (ℤ × List ℤ)) :
    (linesOf samples).splitOn '\n' =
      samples.map (fun sample => line sample.1 sample.2) ++ [[]] := by
  induction samples with
  | nil => rfl
  | cons sample samples ih =>
    have hcons : linesOf (sample :: samples) =
        line sample.1 sample.2 ++ '\n' :: linesOf samples := by simp [linesOf]
    rw [hcons, splitOn, splitOnP_append_cons_of_forall_mem ?_ '\n' (by simp),
      ← splitOn, ih, map_cons, cons_append]
    intro c hc
    rw [beq_eq_false_iff_ne]
    rintro rfl
    exact newline_not_mem_line _ _ hc

theorem mapM_readInt_printInt (ids : List ℤ) : (ids.map printInt).mapM readInt = some ids := by
  induction ids with
  | nil => rfl
  | cons id ids ih => simp [mapM_cons, readInt_printInt, ih]

theorem parserData_lines (samples : List (ℤ × List ℤ)) :
    parserData (samples.map (fun sample => line sample.1 sample.2) ++ [[]]) =
      some (samples.map Prod.fst, samples.map Prod.snd) := by
  induction samples with
  | nil => rfl
  | cons sample samples ih =>
    rw [map_cons, cons_append, parserData, strip_line, if_neg (line_ne_nil _ _), words_line]
    simp only [readInt_printInt, mapM_readInt_printInt, ih]
    rfl

/-- **Samples come back**: the tensors of some lines have the samples of the lines. -/
theorem preprocess_linesOf {samples : List (ℤ × List ℤ)} {maxNFields : ℕ}
    (hlen : ∀ sample ∈ samples, sample.2.length ≤ maxNFields) :
    libsvmBatchPreprocessIdOnly (linesOf samples) maxNFields = some
      { id := samples.map fun sample =>
          sample.2 ++ replicate (maxNFields - sample.2.length) 0
        value := replicate samples.length (replicate maxNFields 1)
        y := samples.map fun sample => roundTo 24 sample.1 } := by
  have hfill : (samples.map Prod.snd).mapM (fillRow maxNFields) =
      some (samples.map fun sample =>
        sample.2 ++ replicate (maxNFields - sample.2.length) 0) := by
    induction samples with
    | nil => rfl
    | cons sample samples ih =>
      have hhead : fillRow maxNFields sample.2 = _ := if_pos (hlen sample mem_cons_self)
      simp [mapM_cons, hhead, ih fun s hs => hlen s (mem_cons_of_mem _ hs)]
  simp [libsvmBatchPreprocessIdOnly, splitOn_linesOf, parserData_lines, hfill]

/-! ### What is printed -/

namespace FeatureDatum

/-- The types that are printed as an integer. -/
def IsId : FeatureDatum → Prop
  | int2 _ | int4 _ | int8 _ | text _ => True
  | float4 _ | float8 _ | other => False

def IsText : FeatureDatum → Prop
  | text _ => True
  | _ => False

end FeatureDatum

/-- `v` is the integer printed for the feature: for a text, the number of what is taken for it. -/
def Printed (maps : Mappings) (name : String) : FeatureDatum → ℤ → Prop
  | .int2 n, v => v = n.toInt
  | .int4 n, v => v = n.toInt
  | .int8 n, v => v = n.toInt
  | .text d, v => ∃ token : ℕ, v = token ∧ (maps name).find d.cString = some token
  | .float4 _, _ | .float8 _, _ | .other, _ => False

/-- The integers printed for the features from column `col` on. -/
inductive PrintedFrom (featureNames : ℕ → String) (maps : Mappings) :
    ℕ → List FeatureDatum → List ℤ → Prop
  | nil {col : ℕ} : PrintedFrom featureNames maps col [] []
  | cons {col : ℕ} {f : FeatureDatum} {v : ℤ} {fs : List FeatureDatum} {vs : List ℤ} :
      Printed maps (featureNames col) f v → PrintedFrom featureNames maps (col + 1) fs vs →
      PrintedFrom featureNames maps col (f :: fs) (v :: vs)

/-- The sample printed for the row. -/
def PrintedRow (featureNames : ℕ → String) (maps : Mappings) (row : Row) (sample : ℤ × List ℤ) :
    Prop :=
  sample.1 = datumGetInt32 row.label.datum ∧
    PrintedFrom featureNames maps 0 row.features sample.2

section Print

variable {format : FloatFormat} {featureNames : ℕ → String} {maps maps' : Mappings} {col : ℕ}
  {f : FeatureDatum} {fs : List FeatureDatum} {v : ℤ} {vs : List ℤ} {name : String}
  {rows : List Row} {l : List Char}

theorem Printed.mono (hle : Mappings.Le maps maps') (h : Printed maps name f v) :
    Printed maps' name f v := by
  cases f with
  | text d =>
    obtain ⟨token, hv, hfind⟩ := h
    exact ⟨token, hv, hle name _ _ hfind⟩
  | int2 n | int4 n | int8 n | float4 bits | float8 bits | other => exact h

theorem PrintedFrom.mono (hle : Mappings.Le maps maps')
    (h : PrintedFrom featureNames maps col fs vs) : PrintedFrom featureNames maps' col fs vs := by
  induction h with
  | nil => exact .nil
  | cons hv _ ih => exact .cons (hv.mono hle) ih

theorem PrintedFrom.length_eq (h : PrintedFrom featureNames maps col fs vs) :
    vs.length = fs.length := by
  induction h with
  | nil => rfl
  | cons _ _ ih => rw [length_cons, length_cons, ih]

theorem Mappings.le_update {t : MappingTable} (h : (maps name).Le t) :
    Mappings.Le maps (update maps name t) := by
  intro name'
  rcases eq_or_ne name' name with rfl | hne
  · rw [update_self]
    exact h
  · rw [update_of_ne hne]
    exact .refl _

theorem featureText_spec (hf : f.IsId) (h : featureText format maps name f = some (l, maps')) :
    ∃ v, l = printInt v ∧ Printed maps' name f v ∧ Mappings.Le maps maps' := by
  cases f with
  | int2 n | int4 n | int8 n =>
    cases h
    exact ⟨n.toInt, rfl, rfl, .refl _⟩
  | float4 bits | float8 bits | other => exact hf.elim
  | text d =>
    obtain ⟨⟨token, t⟩, hencode, h⟩ := bind_eq_some_iff.mp h
    cases h
    obtain ⟨hfind, hle⟩ := encodeText_spec hencode
    refine ⟨token, rfl, ⟨token, rfl, ?_⟩, Mappings.le_update hle⟩
    rw [update_self]
    exact hfind

theorem featuresText_spec (hfs : ∀ f ∈ fs, f.IsId)
    (h : featuresText format featureNames maps col fs = some (l, maps')) :
    ∃ vs, l = (vs.map printInt).flatMap (' ' :: ·) ∧ PrintedFrom featureNames maps' col fs vs ∧
      Mappings.Le maps maps' := by
  induction fs generalizing col maps l with
  | nil =>
    cases h
    exact ⟨[], rfl, .nil, .refl _⟩
  | cons f fs ih =>
    obtain ⟨⟨token, maps₁⟩, hhead, h⟩ := bind_eq_some_iff.mp h
    obtain ⟨⟨rest, maps₂⟩, htail, h⟩ := bind_eq_some_iff.mp h
    cases h
    obtain ⟨v, rfl, hv, hle⟩ := featureText_spec (hfs f mem_cons_self) hhead
    obtain ⟨vs, rfl, hvs, hle'⟩ := ih (fun g hg => hfs g (mem_cons_of_mem _ hg)) htail
    -- a later column may add to the tables, and keeps what they have
    exact ⟨v :: vs, rfl, .cons (hv.mono hle') hvs, hle.trans hle'⟩

/-- **What is printed**: one line for each row, with the integers of its features. -/
theorem buildLibsvmData_spec {data : List Char} (hrows : ∀ row ∈ rows, ∀ f ∈ row.features, f.IsId)
    (h : buildLibsvmData format featureNames true maps rows = some (data, maps')) :
    ∃ samples, data = linesOf samples ∧
      Forall₂ (PrintedRow featureNames maps') rows samples ∧ Mappings.Le maps maps' := by
  induction rows generalizing maps data with
  | nil =>
    cases h
    exact ⟨[], rfl, .nil, .refl _⟩
  | cons row rows ih =>
    obtain ⟨⟨features, maps₁⟩, hhead, h⟩ := bind_eq_some_iff.mp h
    obtain ⟨⟨rest, maps₂⟩, htail, h⟩ := bind_eq_some_iff.mp h
    cases h
    obtain ⟨vs, rfl, hvs, hle⟩ := featuresText_spec (hrows row mem_cons_self) hhead
    obtain ⟨samples, rfl, hsamples, hle'⟩ :=
      ih (fun r hr => hrows r (mem_cons_of_mem _ hr)) htail
    refine ⟨(datumGetInt32 row.label.datum, vs) :: samples, ?_,
      .cons ⟨rfl, hvs.mono hle'⟩ hsamples, hle.trans hle'⟩
    simp [linesOf, line, labelText]

theorem featuresText_isSome (hfs : ∀ f ∈ fs, f.IsId ∧ ¬ f.IsText) :
    ∃ l, featuresText format featureNames maps col fs = some (l, maps) := by
  induction fs generalizing col with
  | nil => exact ⟨[], rfl⟩
  | cons f fs ih =>
    obtain ⟨rest, hrest⟩ :
        ∃ l, featuresText format featureNames maps (col + 1) fs = some (l, maps) :=
      ih fun g hg => hfs g (mem_cons_of_mem _ hg)
    obtain ⟨hid, htext⟩ := hfs f mem_cons_self
    have hhead : ∃ l, featureText format maps (featureNames col) f = some (l, maps) := by
      cases f with
      | int2 n | int4 n | int8 n => exact ⟨printInt n.toInt, rfl⟩
      | float4 bits | float8 bits | other => exact hid.elim
      | text d => exact absurd trivial htext
    obtain ⟨l, hl⟩ := hhead
    refine ⟨' ' :: l ++ rest, ?_⟩
    simp only [featuresText, hl, bind_eq_bind, bind_some, hrest]
    rfl

theorem buildLibsvmData_isSome {hasLabel : Bool}
    (hrows : ∀ row ∈ rows, ∀ f ∈ row.features, f.IsId ∧ ¬ f.IsText) :
    ∃ data, buildLibsvmData format featureNames hasLabel maps rows = some (data, maps) := by
  induction rows with
  | nil => exact ⟨[], rfl⟩
  | cons row rows ih =>
    obtain ⟨rest, hrest⟩ := ih fun r hr => hrows r (mem_cons_of_mem _ hr)
    obtain ⟨l, hl⟩ :
        ∃ l, featuresText format featureNames maps 0 row.features = some (l, maps) :=
      featuresText_isSome (hrows row mem_cons_self)
    refine ⟨labelText hasLabel row.label ++ l ++ '\n' :: rest, ?_⟩
    simp only [buildLibsvmData, hl, bind_eq_bind, bind_some, hrest]
    rfl

end Print

end NeurDB.Pipeline
