import Mathlib.Data.Bool.AllAny
import Mathlib.Data.List.DropRight
import Mathlib.Data.List.Forall2
import Mathlib.Data.List.Infix
import NeurDB.Framework.Text
import NeurDB.Framework.Utf8

/-!
# The workload log

`query_logger_log_query` (`query_logger.c`) appends a line to the workload log for each `SELECT`:
the time, the hash of the query's template, the template and the query. The last two are quoted,
and a quote in them is doubled. `load_workload_from_csv` (`templatizer.py`) reads the log: it takes
the file apart into lines, each line at its first three commas, and strips quotes off both ends of
the last two fields.

The reader knows nothing of the quotes the writer puts. A line break in a query ends the line, a
comma in the template ends the template, and doubled quotes stay doubled.

* The query is a text in a C string; the writer sees its UTF-8 bytes. A template is cut after
  `MAX_QUERY_LENGTH` bytes, maybe inside a character, and then the file cannot be decoded.
* `localtime` and MD5 are parameters. Writing to the file succeeds.
* `none` is a read past the end of the query: a backslash inside a literal takes the next byte with
  it, also the terminator.
* The time series that the reader computes from the entries is not part of this module.

**The theorem** (`log_round_trip_iff`): the log is read back as it was written exactly if each
query has no double quote and no line break, and its template is a text without a comma.
-/

namespace NeurDB.WorkloadForecast

open List
open Option (bind_eq_bind bind_some map_eq_some_iff some)

open Text

/-! ### The template of a query -/

/-- The text of a query: a C string. -/
structure QueryText where
  chars : List Char
  noNul : '\x00' ∉ chars

def QueryText.bytes (q : QueryText) : List UInt8 := utf8 q.chars

/-- `isspace`. -/
def isSpaceByte (b : UInt8) : Bool := b == 32 || (9 ≤ b && b ≤ 13)

/-- `isdigit`. -/
def isDigitByte (b : UInt8) : Bool := 48 ≤ b && b ≤ 57

/-- `isalnum`. -/
def isAlnumByte (b : UInt8) : Bool :=
  isDigitByte b || (65 ≤ b && b ≤ 90) || (97 ≤ b && b ≤ 122)

def maxQueryLength : ℕ := 65536

/-- Where the scan of `extract_constant_tokens` stands. The inner loops of the source are states:
`literal` inside a string literal, `skipped` after a backslash there, `number` after a digit. -/
inductive Scan where
  | plain
  | identifier
  | escaped (inIdentifier : Bool)
  | literal
  | skipped
  | number
  deriving DecidableEq

/-- `extract_constant_tokens`, from byte `i` on. The branch for hexadecimal literals is left out: a
`0` is a digit already, and after `x` or `b` comes a quote, for which the branch does nothing. -/
def extractConstantTokens : Scan → ℕ → List UInt8 → Option (List UInt8)
  | .skipped, _, [] => none
  | .literal, _, [] => some (utf8 "&&&".toList)
  | _, _, [] => some []
  | .skipped, i, _ :: rest => extractConstantTokens .literal (i + 1) rest
  | .literal, i, ch :: rest =>
    if i < maxQueryLength then
      if ch = '\\'.toUInt8 then extractConstantTokens .skipped (i + 1) rest
      else if ch = '\''.toUInt8 then
        match rest with
        | next :: rest' =>
          -- a doubled quote does not end the literal
          if next = '\''.toUInt8 then extractConstantTokens .literal (i + 2) rest'
          else (utf8 "&&&'".toList ++ ·) <$> extractConstantTokens .plain (i + 1) (next :: rest')
        | [] => some (utf8 "&&&'".toList)
      else extractConstantTokens .literal (i + 1) rest
    else if ch = '\''.toUInt8 then some (utf8 "&&&'".toList)
    else some (utf8 "&&&".toList)
  | scan, i, ch :: rest =>
    -- the loop over the digits of a number has no limit
    if scan = .number ∧ (isDigitByte ch ∨ ch = '.'.toUInt8) then
      extractConstantTokens .number (i + 1) rest
    else if i < maxQueryLength then
      match scan with
      | .escaped true => (ch :: ·) <$> extractConstantTokens .identifier (i + 1) rest
      | .escaped false => (ch :: ·) <$> extractConstantTokens .plain (i + 1) rest
      | _ =>
        if ch = '\\'.toUInt8 then
          (ch :: ·) <$> extractConstantTokens (.escaped (scan == .identifier)) (i + 1) rest
        else if ch = '"'.toUInt8 ∨ ch = '\x60'.toUInt8 then
          (ch :: ·) <$> extractConstantTokens
            (if scan = .identifier then .plain else .identifier) (i + 1) rest
        else if scan = .identifier then
          (ch :: ·) <$> extractConstantTokens .identifier (i + 1) rest
        else if ch = '\''.toUInt8 then
          (ch :: ·) <$> extractConstantTokens .literal (i + 1) rest
        else if isDigitByte ch then
          ('#'.toUInt8 :: ·) <$> extractConstantTokens .number (i + 1) rest
        else (ch :: ·) <$> extractConstantTokens .plain (i + 1) rest
    else some []

/-- The loop of `normalize_query` that makes runs of white space one blank. -/
def collapseSpace (normalized : List UInt8) (inSpace : Bool) : List UInt8 → List UInt8
  | [] => normalized
  | ch :: rest =>
    if isSpaceByte ch then
      if !inSpace && normalized ≠ [] then collapseSpace (normalized ++ [' '.toUInt8]) true rest
      else collapseSpace normalized inSpace rest
    else collapseSpace (normalized ++ [ch]) false rest

/-- `normalize_query`. -/
def normalizeQuery (query : List UInt8) : Option (List UInt8) := do
  let template ← extractConstantTokens .plain 0 query
  let normalized := collapseSpace [] false template
  pure (if normalized.getLast? = some ' '.toUInt8 then normalized.dropLast else normalized)

/-- `pg_strncasecmp` with a word in lower case and its length. -/
def startsWith (word : String) (query : List UInt8) : Bool :=
  (query.take word.length).map (fun b => if 65 ≤ b && b ≤ 90 then b + 32 else b) ==
    utf8 word.toList

/-- `is_select_query`. -/
def isSelectQuery (query : List UInt8) : Bool :=
  let p := query.dropWhile isSpaceByte
  if startsWith "select" p then true
  else if startsWith "with" p then
    let p := ((p.drop 4).dropWhile isSpaceByte).dropWhile isAlnumByte
    let p := p.dropWhile isSpaceByte
    if startsWith "as" p then
      match (p.drop 2).dropWhile isSpaceByte with
      | ch :: p => ch == '('.toUInt8 && startsWith "select" (p.dropWhile isSpaceByte)
      | [] => false
    else false
  else false

/-! ### The writer -/

/-- The broken-down time of C. -/
structure Tm where
  year : ℤ
  mon : ℕ
  mday : ℕ
  hour : ℕ
  min : ℕ
  sec : ℕ

def twoDigits (n : ℕ) : List Char :=
  if n < 10 then '0' :: Nat.toDigits 10 n else Nat.toDigits 10 n

/-- `strftime` with `"%Y-%m-%d %H:%M:%S"`. -/
def strftime (tm : Tm) : List Char :=
  printInt (tm.year + 1900) ++ '-' :: twoDigits (tm.mon + 1) ++ '-' :: twoDigits tm.mday ++
    ' ' :: twoDigits tm.hour ++ ':' :: twoDigits tm.min ++ ':' :: twoDigits tm.sec

/-- `compute_template_hash` prints the digest. -/
def hashHex (digest : Fin 16 → UInt8) : List Char :=
  (finRange 16).flatMap fun i =>
    [Nat.digitChar ((digest i).toNat / 16), Nat.digitChar ((digest i).toNat % 16)]

/-- What the logger has from its surroundings. -/
structure LogEnv where
  localtime : ℤ → Option Tm
  md5 : List UInt8 → Fin 16 → UInt8

variable (env : LogEnv)

/-- The time of a record; PostgreSQL counts microseconds from the year 2000. -/
def timeStr (timestamp : ℤ) : List Char :=
  match env.localtime (timestamp.tdiv 1000000 + (2451545 - 2440588) * 86400) with
  | some tm => strftime tm
  | none => "1970-01-01 00:00:00".toList

/-- The loop that writes a quoted field. -/
def doubleQuotes (text : List UInt8) : List UInt8 :=
  text.flatMap fun ch => if ch = '"'.toUInt8 then ['"'.toUInt8, ch] else [ch]

def csvHeader : List Char := "timestamp,template_hash,template,original_query\n".toList

/-- The line of a query. -/
def csvLine (time hash : List Char) (template query : List UInt8) : List UInt8 :=
  utf8 (time ++ ',' :: hash ++ ",\"".toList) ++ doubleQuotes template ++ utf8 "\",\"".toList ++
    doubleQuotes query ++ utf8 "\"\n".toList

/-- `query_logger_log_query`: the file after the call. -/
def queryLoggerLogQuery (file : List UInt8) (call : QueryText × ℤ) : Option (List UInt8) :=
  if isSelectQuery call.1.bytes then do
    let template ← normalizeQuery call.1.bytes
    let file := if file = [] then file ++ utf8 csvHeader else file
    pure (file ++ csvLine (timeStr env call.2) (hashHex (env.md5 template)) template call.1.bytes)
  else some file

/-- The calls, one after another. -/
def logQueries (file : List UInt8) (calls : List (QueryText × ℤ)) : Option (List UInt8) :=
  calls.foldlM (queryLoggerLogQuery env) file

/-! ### The reader -/

/-- Line ends in a file opened as text. -/
def universalNewlines : List Char → List Char
  | [] => []
  | '\r' :: '\n' :: rest => '\n' :: universalNewlines rest
  | '\r' :: rest => '\n' :: universalNewlines rest
  | c :: rest => c :: universalNewlines rest

/-- `str.isspace` of one character. -/
def isPySpace (c : Char) : Bool :=
  (9 ≤ c.toNat && c.toNat ≤ 13) || (28 ≤ c.toNat && c.toNat ≤ 32) ||
    c.toNat ∈ [0x85, 0xa0, 0x1680, 0x2028, 0x2029, 0x202f, 0x205f, 0x3000] ||
    (0x2000 ≤ c.toNat && c.toNat ≤ 0x200a)

/-- `str.strip`. -/
def pyStrip (p : Char → Bool) (l : List Char) : List Char := (l.dropWhile p).rdropWhile p

/-- `str.split` with a separator and a number of splits. -/
def pySplit (sep : Char) : ℕ → List Char → List (List Char)
  | 0, l => [l]
  | n + 1, l =>
    if sep ∈ l then
      l.takeWhile (· ≠ sep) :: pySplit sep n (l.dropWhile (· ≠ sep)).tail
    else [l]

structure Entry where
  timestamp : List Char
  templateHash : List Char
  template : List Char
  originalQuery : List Char
  deriving DecidableEq

/-- The body of the loop over the lines. -/
def parseLine (line : List Char) : Option Entry :=
  match pySplit ',' 3 (pyStrip isPySpace line) with
  | [timestamp, templateHash, template, originalQuery] =>
    some ⟨timestamp, templateHash, pyStrip (· == '"') template, pyStrip (· == '"') originalQuery⟩
  | _ => none

/-- `load_workload_from_csv`: the entries. A file that is not a text raises, and gives none. The
last piece of the file is empty and has no fields. -/
def loadWorkloadFromCsv (file : List UInt8) : List Entry :=
  match readUtf8 file with
  | none => []
  | some text =>
    match (universalNewlines text).splitOn '\n' with
    | [] => []
    | line :: lines =>
      if "timestamp".toList <:+: line then lines.filterMap parseLine
      else (line :: lines).filterMap parseLine

/-! ### The bytes of a template -/

/-- The template is made of bytes of the query and of the signs that stand for constants. -/
def MadeOf (query template : List UInt8) : Prop :=
  ∀ b ∈ template, b ∈ query ∨ b ∈ utf8 "#&'".toList

variable {query template : List UInt8} {c : Char} {calls : List (QueryText × ℤ)}
  {text : List Char} {call : QueryText × ℤ} {e : Entry} {es : List Entry} {file : List UInt8}

theorem MadeOf.later {ch : UInt8} (h : MadeOf query template) : MadeOf (ch :: query) template :=
  fun b hb => (h b hb).imp_left (.tail ch)

theorem MadeOf.copy {ch : UInt8} (h : MadeOf query template) :
    MadeOf (ch :: query) (ch :: template) := by
  refine forall_mem_cons.mpr ⟨?_, h.later⟩
  exact .inl (.head _)

theorem MadeOf.signs {signs : List UInt8} (hs : signs ⊆ utf8 "#&'".toList)
    (h : MadeOf query template) : MadeOf query (signs ++ template) := by
  refine forall_mem_append.mpr ⟨?_, h⟩
  exact fun _ hb => .inr (hs hb)

theorem madeOf_signs {signs : List UInt8} (hs : signs ⊆ utf8 "#&'".toList) : MadeOf query signs :=
  fun _ hb => .inr (hs hb)

/-- A template has no characters but those of the query and three signs. -/
theorem madeOf_extractConstantTokens {scan : Scan} {i : ℕ}
    (h : extractConstantTokens scan i query = some template) : MadeOf query template := by
  fun_induction extractConstantTokens scan i query generalizing template
  -- the query ends
  case case1 => cases h
  case case2 | case8 | case10 | case11 =>
    cases h
    exact madeOf_signs (by decide)
  case case3 | case21 =>
    cases h
    exact madeOf_signs (nil_subset _)
  -- a byte is dropped
  case case4 ih | case5 ih | case9 ih | case12 ih => exact (ih h).later
  case case6 ih => exact (ih h).later.later
  -- a literal ends, or a number begins
  case case7 ih =>
    obtain ⟨template, ht, rfl⟩ := map_eq_some_iff.mp h
    exact ((ih ht).signs (by decide)).later
  case case19 hdigit _ _ ih =>
    rw [if_neg ‹¬ _ = Scan.identifier›, if_neg ‹¬ _ = '\''.toUInt8›, if_pos hdigit] at h
    obtain ⟨template, ht, rfl⟩ := map_eq_some_iff.mp h
    have hsign : ['#'.toUInt8] ⊆ utf8 "#&'".toList := by decide
    exact ((ih ht).signs hsign).later
  -- a byte is copied
  case case18 ih =>
    rw [if_neg ‹¬ _ = Scan.identifier›, if_pos rfl] at h
    obtain ⟨template, ht, rfl⟩ := map_eq_some_iff.mp h
    exact (ih ht).copy
  case case20 hdigit _ _ ih =>
    rw [if_neg ‹¬ _ = Scan.identifier›, if_neg ‹¬ _ = '\''.toUInt8›, if_neg hdigit] at h
    obtain ⟨template, ht, rfl⟩ := map_eq_some_iff.mp h
    exact (ih ht).copy
  case case13 ih | case14 ih | case15 ih | case16 ih | case17 ih =>
    obtain ⟨template, ht, rfl⟩ := map_eq_some_iff.mp h
    exact (ih ht).copy

/-- The loop writes blanks, and the bytes of the template that are not white space. -/
theorem forall_mem_collapseSpace {P : UInt8 → Prop} {normalized : List UInt8} {inSpace : Bool}
    (hblank : P ' '.toUInt8) (htemplate : ∀ b ∈ template, isSpaceByte b = false → P b)
    (h : ∀ b ∈ normalized, P b) : ∀ b ∈ collapseSpace normalized inSpace template, P b := by
  induction template generalizing normalized inSpace with
  | nil => exact h
  | cons ch rest ih =>
    obtain ⟨hch, hrest⟩ := forall_mem_cons.mp htemplate
    rw [collapseSpace]
    split
    · split
      · exact ih hrest (forall_mem_append.mpr ⟨h, forall_mem_singleton.mpr hblank⟩)
      · exact ih hrest h
    · next hspace =>
      have hP := hch (Bool.eq_false_iff.mpr hspace)
      exact ih hrest (forall_mem_append.mpr ⟨h, forall_mem_singleton.mpr hP⟩)

/-- A template has no white space but blanks, and comes from the query and the signs. -/
theorem of_mem_normalizeQuery (h : normalizeQuery query = some template) {b : UInt8}
    (hb : b ∈ template) :
    b = ' '.toUInt8 ∨ ((b ∈ query ∨ b ∈ utf8 "#&'".toList) ∧ isSpaceByte b = false) := by
  obtain ⟨extracted, hextract, hnorm⟩ := Option.bind_eq_some_iff.mp h
  have hcollapse : b ∈ collapseSpace [] false extracted := by
    rw [← some.inj hnorm] at hb
    split at hb
    · exact mem_of_mem_dropLast hb
    · exact hb
  apply forall_mem_collapseSpace _ _ _ b hcollapse
  · exact .inl rfl
  · exact fun b hb hspace => .inr ⟨madeOf_extractConstantTokens hextract b hb, hspace⟩
  · exact forall_mem_nil _

/-! ### Stripping and splitting -/

section Python

variable {p : Char → Bool} {l : List Char} {c : Char}

theorem mem_of_mem_pyStrip (h : c ∈ pyStrip p l) : c ∈ l :=
  (dropWhile_sublist p).subset (( rdropWhile_prefix p (l.dropWhile p)).subset h)

/-- `strip` leaves a text alone that has nothing to strip at its ends. -/
theorem pyStrip_eq_self (hhead : ∀ c ∈ l.head?, p c = false)
    (hlast : ∀ c ∈ l.getLast?, p c = false) : pyStrip p l = l := by
  have hdrop : l.dropWhile p = l := by
    cases l with
    | nil => rfl
    | cons c l => exact dropWhile_cons_of_neg (Bool.eq_false_iff.mp (hhead c rfl))
  rw [pyStrip, hdrop]
  refine rdropWhile_eq_self_iff.mpr fun hne => Bool.eq_false_iff.mp (hlast _ ?_)
  exact getLast?_eq_some_getLast hne

/-- After `strip` there is nothing left to strip. -/
theorem ends_pyStrip (p : Char → Bool) (l : List Char) :
    (∀ c ∈ (pyStrip p l).head?, p c = false) ∧ ∀ c ∈ (pyStrip p l).getLast?, p c = false := by
  constructor
  · intro c hc
    -- the first character is that of the text without its first blanks
    have hdrop : c ∈ (l.dropWhile p).head? := by
      obtain ⟨rest, hrest⟩ := rdropWhile_prefix p (l.dropWhile p)
      have hcons := mem_head?_append_of_mem_head? (t := rest) hc
      rwa [pyStrip, hrest] at hcons
    have hnot := head?_dropWhile_not p l
    rw [Option.mem_def.mp hdrop] at hnot
    simpa using hnot
  · intro c hc
    obtain ⟨hne, rfl⟩ := mem_getLast?_eq_getLast hc
    exact Bool.eq_false_iff.mpr (rdropWhile_last_not p _ hne)

theorem pyStrip_surround (hc : p c = true) (l : List Char) :
    pyStrip p (c :: (l ++ [c])) = pyStrip p l := by
  rw [pyStrip, dropWhile_cons_of_pos hc, dropWhile_append, pyStrip]
  split
  · next hempty =>
    rw [isEmpty_iff.mp hempty, dropWhile_cons_of_pos hc, dropWhile_nil]
  · exact rdropWhile_concat_pos p _ c hc

variable {sep : Char} {n : ℕ} {field : List Char}

/-- A field without the separator is split off whole. -/
theorem pySplit_append (h : sep ∉ field) (rest : List Char) :
    pySplit sep (n + 1) (field ++ sep :: rest) = field :: pySplit sep n rest := by
  have hfield : ∀ c ∈ field, decide (c ≠ sep) = true := fun c hc =>
    decide_eq_true fun heq => h (heq ▸ hc)
  have htake : (sep :: rest).takeWhile (fun c => decide (c ≠ sep)) = [] := by simp
  have hdrop : (sep :: rest).dropWhile (fun c => decide (c ≠ sep)) = sep :: rest := by simp
  rw [pySplit, if_pos (by simp), takeWhile_append_of_pos hfield, htake, append_nil,
    dropWhile_append_of_pos hfield, hdrop, tail_cons]

theorem mem_of_mem_pySplit (h : field ∈ pySplit sep n l) (hc : c ∈ field) : c ∈ l := by
  induction n generalizing l with
  | zero => rwa [mem_singleton.mp h] at hc
  | succ n ih =>
    rw [pySplit] at h
    split at h
    · cases h with
      | head => exact ( takeWhile_prefix _).subset hc
      | tail _ hmem => exact (dropWhile_sublist _).subset (mem_of_mem_tail (ih hmem))
    · rwa [mem_singleton.mp h] at hc

end Python

/-- Text mode leaves no carriage return. -/
theorem universalNewlines_no_return (l : List Char) : '\r' ∉ universalNewlines l := by
  fun_induction universalNewlines l with
  | case1 => exact not_mem_nil
  | case2 rest ih | case3 rest _ ih => exact not_mem_cons_of_ne_of_not_mem (by decide) ih
  | case4 c rest _ hc ih => exact not_mem_cons_of_ne_of_not_mem (Ne.symm hc) ih

theorem universalNewlines_of_no_return {l : List Char} (h : '\r' ∉ l) :
    universalNewlines l = l := by
  fun_induction universalNewlines l with
  | case1 => rfl
  | case2 | case3 => exact absurd (.head _) h
  | case4 c rest _ _ ih => rw [ih fun hmem => h (.tail _ hmem)]

/-! ### Quoted fields -/

/-- `doubleQuotes` on the characters. -/
def doubledText (text : List Char) : List Char :=
  text.flatMap fun c => if c = '"' then ['"', c] else [c]

/-- The bytes are doubled as the characters are. -/
theorem doubleQuotes_utf8 (text : List Char) :
    doubleQuotes (utf8 text) = utf8 (doubledText text) := by
  refine flatMap_utf8 (fun c hc => ?_) (fun b hb => if_neg ?_) (fun c hc => if_neg ?_) text
  · by_cases h : c = '"'
    · subst h
      rfl
    · have hbyte : c.toUInt8 ≠ '"'.toUInt8 := fun heq => h ((toUInt8_inj hc (by decide)).mp heq)
      rw [if_neg hbyte, if_neg h, utf8_cons, utf8EncodeChar_ascii hc]
      rfl
  · rintro rfl
    exact absurd hb (by decide)
  · rintro rfl
    exact absurd hc (by decide)

theorem mem_doubledText : c ∈ doubledText text ↔ c ∈ text := by
  have hone : ∀ a, c ∈ (if a = '"' then ['"', a] else [a]) ↔ c = a := by
    intro a
    split
    · next heq => simp [heq]
    · exact mem_singleton
  simp [doubledText, hone]

theorem doubledText_of_no_quote (h : '"' ∉ text) : doubledText text = text := by
  calc doubledText text
      = text.flatMap fun c => [c] :=
        flatMap_congr fun c hc => if_neg (ne_of_mem_of_not_mem hc h)
    _ = text := flatMap_singleton' text

theorem length_doubledText (text : List Char) :
    (doubledText text).length = text.length + text.count '"' := by
  induction text with
  | nil => rfl
  | cons c l ih =>
    rw [doubledText, flatMap_cons, length_append, ← doubledText, ih, length_cons, count_cons]
    by_cases h : c = '"'
    · simp [h]
      omega
    · simp [h]
      omega

theorem head?_doubledText (text : List Char) : (doubledText text).head? = text.head? := by
  cases text with
  | nil => rfl
  | cons c l =>
    rw [doubledText, flatMap_cons]
    split
    · next h => rw [h]; rfl
    · rfl

theorem getLast?_doubledText (text : List Char) : (doubledText text).getLast? = text.getLast? := by
  induction text using reverseRecOn with
  | nil => rfl
  | append_singleton l c =>
    have hlast : ∃ m, (if c = '"' then ['"', c] else [c]) = m ++ [c] := by
      split
      · exact ⟨['"'], rfl⟩
      · exact ⟨[], rfl⟩
    obtain ⟨m, hm⟩ := hlast
    rw [doubledText, flatMap_append, flatMap_singleton, hm, ← append_assoc,
      getLast?_concat, getLast?_concat]

/-- A quoted text comes back through `strip` only if it has no quotes. -/
theorem pyStrip_quoted_iff :
    pyStrip (· == '"') ('"' :: (doubledText text ++ ['"'])) = text ↔ '"' ∉ text := by
  rw [pyStrip_surround rfl]
  constructor
  · intro h hmem
    -- a quote inside stays doubled, as no quote is at the ends
    obtain ⟨hhead, hlast⟩ := ends_pyStrip (· == '"') (doubledText text)
    rw [h] at hhead hlast
    have hdoubled : pyStrip (· == '"') (doubledText text) = doubledText text := by
      apply pyStrip_eq_self
      · rwa [head?_doubledText]
      · rwa [getLast?_doubledText]
    have hlength := congrArg length (hdoubled.symm.trans h)
    have hcount := count_pos_iff.mpr hmem
    rw [length_doubledText] at hlength
    omega
  · intro h
    rw [doubledText_of_no_quote h]
    refine pyStrip_eq_self (fun c hc => ?_) (fun c hc => ?_)
    · exact beq_eq_false_iff_ne.mpr (ne_of_mem_of_not_mem (mem_of_mem_head? hc) h)
    · exact beq_eq_false_iff_ne.mpr (ne_of_mem_of_not_mem (mem_of_mem_getLast? hc) h)

/-! ### A line -/

/-- Neither separator of the log, nor a carriage return. -/
def Separates (c : Char) : Prop := c = ',' ∨ c = '\n' ∨ c = '\r'

/-- An entry that the writer can put into one line. -/
structure Entry.Framed (e : Entry) : Prop where
  timestamp : ∀ c ∈ e.timestamp, ¬ Separates c
  start : ∃ c rest, e.timestamp = c :: rest ∧ isPySpace c = false
  templateHash : ∀ c ∈ e.templateHash, ¬ Separates c
  template : '\n' ∉ e.template ∧ '\r' ∉ e.template
  originalQuery : '\n' ∉ e.originalQuery ∧ '\r' ∉ e.originalQuery

/-- A quoted field. -/
def quoted (text : List Char) : List Char := '"' :: (doubledText text ++ ['"'])

theorem mem_quoted {c : Char} (hc : c ≠ '"') : c ∈ quoted text ↔ c ∈ text := by
  simp [quoted, mem_append, not_mem_nil, hc, mem_doubledText]

/-- The quoted fields of an entry's line. -/
def Entry.body (e : Entry) : List Char := quoted e.template ++ ',' :: quoted e.originalQuery

theorem Entry.comma_mem_body (e : Entry) : ',' ∈ e.body :=
  mem_append_right _ (.head _)

/-- The line of an entry. -/
def Entry.line (e : Entry) : List Char :=
  e.timestamp ++ ',' :: (e.templateHash ++ ',' :: e.body)

/-- The line as characters. -/
theorem csvLine_utf8 (e : Entry) :
    csvLine e.timestamp e.templateHash (utf8 e.template) (utf8 e.originalQuery) =
      utf8 (e.line ++ ['\n']) := by
  rw [csvLine, doubleQuotes_utf8, doubleQuotes_utf8]
  simp only [← utf8_append]
  congr 1
  simp [Entry.line, Entry.body, quoted]

/-- The entry that is read from the line. -/
def Entry.reread (e : Entry) : Entry where
  timestamp := e.timestamp
  templateHash := e.templateHash
  template := pyStrip (· == '"') (e.body.takeWhile (· ≠ ','))
  originalQuery := pyStrip (· == '"') (e.body.dropWhile (· ≠ ',')).tail

/-- The reader finds the four fields of a line that stays one line. -/
theorem parseLine_line (h : e.Framed) : parseLine e.line = some e.reread := by
  have hstrip : pyStrip isPySpace e.line = e.line := by
    apply pyStrip_eq_self
    · obtain ⟨c, rest, htime, hc⟩ := h.start
      rw [Entry.line, htime]
      rintro _ ⟨⟩
      exact hc
    · have hlast : e.line.getLast? = some '"' := by
        simp [Entry.line, Entry.body, quoted, getLast?_append, getLast?_cons]
      rw [hlast]
      rintro _ ⟨⟩
      decide
  have htime : ',' ∉ e.timestamp := fun hmem => h.timestamp _ hmem (.inl rfl)
  have hhash : ',' ∉ e.templateHash := fun hmem => h.templateHash _ hmem (.inl rfl)
  have hsplit : pySplit ',' 3 e.line = [e.timestamp, e.templateHash,
      e.body.takeWhile (· ≠ ','), (e.body.dropWhile (· ≠ ',')).tail] := by
    rw [Entry.line, pySplit_append htime, pySplit_append hhash, pySplit,
      if_pos e.comma_mem_body, pySplit]
  rw [parseLine, hstrip, hsplit]
  rfl

/-- What an entry must not contain to be read as it was written. -/
theorem reread_eq_self_iff :
    e.reread = e ↔ ',' ∉ e.template ∧ '"' ∉ e.template ∧ '"' ∉ e.originalQuery := by
  have hfields : ',' ∉ e.template → e.body.takeWhile (· ≠ ',') = quoted e.template ∧
      (e.body.dropWhile (· ≠ ',')).tail = quoted e.originalQuery := by
    intro hcomma
    have hquoted : ',' ∉ quoted e.template := fun h => hcomma ((mem_quoted (by decide)).mp h)
    have hbody : pySplit ',' 1 e.body = [quoted e.template, quoted e.originalQuery] := by
      rw [Entry.body, pySplit_append hquoted, pySplit]
    rw [pySplit, if_pos e.comma_mem_body, pySplit] at hbody
    obtain ⟨hfirst, hrest⟩ := cons_eq_cons.mp hbody
    exact ⟨hfirst, singleton_inj.mp hrest⟩
  constructor
  · intro h
    have htemplate : pyStrip (· == '"') (e.body.takeWhile (· ≠ ',')) = e.template :=
      congrArg Entry.template h
    have hquery : pyStrip (· == '"') (e.body.dropWhile (· ≠ ',')).tail = e.originalQuery :=
      congrArg Entry.originalQuery h
    have hcomma : ',' ∉ e.template := by
      intro hmem
      rw [← htemplate] at hmem
      have hne := mem_takeWhile_imp (mem_of_mem_pyStrip hmem)
      cases hne
    obtain ⟨hfirst, hrest⟩ := hfields hcomma
    rw [hfirst] at htemplate
    rw [hrest] at hquery
    exact ⟨hcomma, pyStrip_quoted_iff.mp htemplate, pyStrip_quoted_iff.mp hquery⟩
  · rintro ⟨hcomma, htemplate, hquery⟩
    obtain ⟨hfirst, hrest⟩ := hfields hcomma
    cases e
    rw [Entry.reread, hfirst, hrest, quoted, quoted, pyStrip_quoted_iff.mpr htemplate,
      pyStrip_quoted_iff.mpr hquery]

/-! ### The file -/

/-- The file with the entries. -/
def fileOf (es : List Entry) : List UInt8 :=
  if es = [] then []
  else utf8 (csvHeader ++ es.flatMap fun e => e.line ++ ['\n'])

theorem fileOf_nil : fileOf [] = [] := if_pos rfl

/-- A file of such entries has one line for each. -/
theorem splitOn_lines (h : ∀ e ∈ es, '\n' ∉ e.line) :
    (es.flatMap fun e => e.line ++ ['\n']).splitOn '\n' = es.map Entry.line ++ [[]] := by
  induction es with
  | nil => rfl
  | cons e es ih =>
    rw [flatMap_cons, append_assoc, singleton_append,
      splitOn_append_cons_self_of_not_mem (h e (.head _)),
      ih fun e he => h e (.tail _ he), map_cons, cons_append]

theorem Entry.Framed.line (h : e.Framed) : '\n' ∉ e.line ∧ '\r' ∉ e.line := by
  have hnot : ∀ c, c ≠ ',' → c ≠ '"' → c ∉ e.timestamp → c ∉ e.templateHash → c ∉ e.template →
      c ∉ e.originalQuery → c ∉ e.line := by
    intro c hcomma hquote htime hhash htemplate hquery
    simp [Entry.line, Entry.body, mem_quoted hquote, hcomma, htime, hhash, htemplate, hquery]
  constructor
  · exact hnot _ (by decide) (by decide) (fun hc => h.timestamp _ hc (.inr (.inl rfl)))
      (fun hc => h.templateHash _ hc (.inr (.inl rfl))) h.template.1 h.originalQuery.1
  · exact hnot _ (by decide) (by decide) (fun hc => h.timestamp _ hc (.inr (.inr rfl)))
      (fun hc => h.templateHash _ hc (.inr (.inr rfl))) h.template.2 h.originalQuery.2

/-- The file is read entry by entry. -/
theorem loadWorkloadFromCsv_fileOf (h : ∀ e ∈ es, e.Framed) :
    loadWorkloadFromCsv (fileOf es) = es.map Entry.reread := by
  have hparse : (es.map Entry.line ++ [[]]).filterMap parseLine = es.map Entry.reread := by
    rw [filterMap_append, filterMap_map]
    have hlines : es.filterMap (parseLine ∘ Entry.line) = es.map Entry.reread := by
      rw [← filterMap_eq_map]
      exact filterMap_congr fun e he => parseLine_line (h e he)
    rw [hlines]
    exact append_nil _
  by_cases hes : es = []
  · subst hes
    rw [fileOf_nil, loadWorkloadFromCsv, ← utf8_nil, readUtf8_utf8]
    decide
  · rw [fileOf, if_neg hes, loadWorkloadFromCsv, readUtf8_utf8]
    have hreturn : '\r' ∉ csvHeader ++ es.flatMap fun e => e.line ++ ['\n'] := by
      rw [mem_append, mem_flatMap]
      rintro (hmem | ⟨e, he, hmem⟩)
      · exact absurd hmem (by decide)
      · rcases mem_append.mp hmem with hline | hend
        · exact (h e he).line.2 hline
        · exact absurd hend (by decide)
    have hheader : csvHeader = csvHeader.dropLast ++ ['\n'] := by decide
    dsimp only
    rw [universalNewlines_of_no_return hreturn, hheader, append_assoc,
      singleton_append,
      splitOn_append_cons_self_of_not_mem (by decide),
      splitOn_lines fun e he => (h e he).line.1]
    dsimp only
    rw [if_pos (by decide), hparse]

theorem mem_of_parseLine {line : List Char} (h : parseLine line = some e) {c : Char}
    (hc : c ∈ e.originalQuery) : c ∈ line := by
  unfold parseLine at h
  split at h
  · next query hsplit =>
    cases h
    have hmem : query ∈ pySplit ',' 3 (pyStrip isPySpace line) := by
      rw [hsplit]
      exact .tail _ (.tail _ (.tail _ (.head _)))
    exact mem_of_mem_pyStrip (mem_of_mem_pySplit hmem (mem_of_mem_pyStrip hc))
  · cases h

theorem exists_line_of_mem_load (h : e ∈ loadWorkloadFromCsv file) :
    ∃ text, ∃ line ∈ (universalNewlines text).splitOn '\n', parseLine line = some e := by
  unfold loadWorkloadFromCsv at h
  split at h
  · cases h
  · next text _ =>
    split at h
    · cases h
    · next line lines hsplit =>
      split at h
      · obtain ⟨l, hl, hparse⟩ := mem_filterMap.mp h
        exact ⟨text, l, hsplit ▸ .tail _ hl, hparse⟩
      · obtain ⟨l, hl, hparse⟩ := mem_filterMap.mp h
        exact ⟨text, l, hsplit ▸ hl, hparse⟩

/-- No query that is read from a file has a line break. -/
theorem no_newline_of_mem_load
    (h : e ∈ loadWorkloadFromCsv file) : '\n' ∉ e.originalQuery ∧ '\r' ∉ e.originalQuery := by
  obtain ⟨text, line, hline, hparse⟩ := exists_line_of_mem_load h
  constructor
  · intro hmem
    exact (of_mem_splitOn hline (mem_of_parseLine hparse hmem)).2 rfl
  · intro hmem
    exact universalNewlines_no_return text (of_mem_splitOn hline (mem_of_parseLine hparse hmem)).1

/-! ### What was logged -/

/-- The entry has the strings that were logged for the call. -/
structure ReadBack (call : QueryText × ℤ) (e : Entry) : Prop where
  timestamp : e.timestamp = timeStr env call.2
  template : normalizeQuery call.1.bytes = some (utf8 e.template)
  templateHash : e.templateHash = hashHex (env.md5 (utf8 e.template))
  originalQuery : e.originalQuery = call.1.chars

/-- The calls that write a line. -/
def selects (calls : List (QueryText × ℤ)) : List (QueryText × ℤ) :=
  calls.filter fun call => isSelectQuery call.1.bytes

theorem selects_cons_of_select (h : isSelectQuery call.1.bytes = true)
    (calls : List (QueryText × ℤ)) : selects (call :: calls) = call :: selects calls :=
  filter_cons_of_pos h

theorem selects_cons_of_other (h : ¬ isSelectQuery call.1.bytes = true)
    (calls : List (QueryText × ℤ)) : selects (call :: calls) = selects calls :=
  filter_cons_of_neg h

/-- The log of the calls, written to an empty file, is read back entry by entry. -/
def RoundTrip (calls : List (QueryText × ℤ)) : Prop :=
  ∃ file, logQueries env [] calls = some file ∧
    Forall₂ (ReadBack env) (selects calls) (loadWorkloadFromCsv file)

/-- A query that the log can carry. -/
structure Carried (q : QueryText) : Prop where
  noQuote : '"' ∉ q.chars
  noNewline : '\n' ∉ q.chars ∧ '\r' ∉ q.chars
  template : ∃ text, normalizeQuery q.bytes = some (utf8 text) ∧ ',' ∉ text

theorem isDigit_of_mem_twoDigits {n : ℕ} (h : c ∈ twoDigits n) : c.isDigit = true := by
  have hdigits : ∀ c ∈ Nat.toDigits 10 n, c.isDigit = true :=
    fun _ hc => Nat.isDigit_of_mem_toDigits (by decide) (by decide) hc
  unfold twoDigits at h
  split at h
  · rcases mem_cons.mp h with rfl | hmem
    · decide
    · exact hdigits c hmem
  · exact hdigits c h

/-- The characters of a time. -/
def IsTimeChar (c : Char) : Prop := c.isDigit = true ∨ c = '-' ∨ c = ':' ∨ c = ' '

theorem isTimeChar_of_mem_timeStr {timestamp : ℤ} (h : c ∈ timeStr env timestamp) :
    IsTimeChar c := by
  unfold timeStr at h
  split at h
  · next tm _ =>
    have hyear : ∀ c ∈ printInt (tm.year + 1900), IsTimeChar c :=
      fun _ hc => (isDigit_or_minus_of_mem_printInt hc).imp_right .inl
    have htwo : ∀ n, ∀ c ∈ twoDigits n, IsTimeChar c :=
      fun n _ hc => .inl (isDigit_of_mem_twoDigits hc)
    have hsign : IsTimeChar '-' ∧ IsTimeChar ':' ∧ IsTimeChar ' ' := by simp [IsTimeChar]
    have hall : ∀ c ∈ strftime tm, IsTimeChar c := by
      simp only [strftime, forall_mem_append, forall_mem_cons, hsign, true_and]
      exact ⟨⟨⟨⟨⟨hyear, htwo _⟩, htwo _⟩, htwo _⟩, htwo _⟩, htwo _⟩
    exact hall c h
  · have hall : ∀ c ∈ "1970-01-01 00:00:00".toList,
        c.isDigit = true ∨ c = '-' ∨ c = ':' ∨ c = ' ' :=
      all_iff_forall_prop.mp (by decide)
    exact hall c h

theorem IsTimeChar.not_separates (h : IsTimeChar c) : ¬ Separates c := by
  rintro (rfl | rfl | rfl) <;> exact absurd h (by unfold IsTimeChar; decide)

theorem start_timeStr (timestamp : ℤ) :
    ∃ c rest, timeStr env timestamp = c :: rest ∧ isPySpace c = false := by
  unfold timeStr
  split
  · next tm _ =>
    obtain ⟨c, rest, hyear⟩ := exists_cons_of_ne_nil (printInt_ne_nil (tm.year + 1900))
    have hc : c.isDigit = true ∨ c = '-' :=
      isDigit_or_minus_of_mem_printInt (z := tm.year + 1900) (by rw [hyear]; exact .head _)
    refine ⟨c, _, by rw [strftime, hyear]; rfl, ?_⟩
    rcases hc with hdigit | rfl
    · have hrange : 48 ≤ c.toNat ∧ c.toNat ≤ 57 := by
        simpa [Char.isDigit, UInt32.le_iff_toNat_le] using hdigit
      simp only [isPySpace, mem_cons, not_mem_nil, or_false, Bool.or_eq_false_iff,
        Bool.and_eq_false_iff, decide_eq_false_iff_not]
      omega
    · decide
  · exact ⟨'1', _, rfl, by decide⟩

/-- The hash is hexadecimal digits. -/
theorem not_separates_of_mem_hashHex {digest : Fin 16 → UInt8} (h : c ∈ hashHex digest) :
    ¬ Separates c := by
  have hdigit : ∀ n < 16, ¬ (Nat.digitChar n = ',' ∨ Nat.digitChar n = '\n' ∨
      Nat.digitChar n = '\r') := by decide
  obtain ⟨i, -, hc⟩ := mem_flatMap.mp h
  have hlt := (digest i).toNat_lt
  simp only [mem_cons, not_mem_nil, or_false] at hc
  rcases hc with rfl | rfl
  · exact hdigit _ (by omega)
  · exact hdigit _ (by omega)

/-- Whitespace is collapsed in a template, so that it has no line break. -/
theorem no_newline_of_normalizeQuery
    (h : normalizeQuery query = some (utf8 text)) : '\n' ∉ text ∧ '\r' ∉ text := by
  constructor
  all_goals
    intro hmem
    rcases of_mem_normalizeQuery h ((toUInt8_mem_utf8 (by decide)).mpr hmem) with heq | ⟨-, hspace⟩
    · cases heq
    · cases hspace

theorem no_quote_of_normalizeQuery {q : QueryText}
    (h : normalizeQuery q.bytes = some (utf8 text)) (hq : '"' ∉ q.chars) : '"' ∉ text := by
  intro hmem
  rcases of_mem_normalizeQuery h ((toUInt8_mem_utf8 (by decide)).mpr hmem) with
    heq | ⟨hquery | hsign, -⟩
  · cases heq
  · exact hq ((toUInt8_mem_utf8 (by decide)).mp hquery)
  · exact absurd hsign (by decide)

variable {env}

/-- An entry with one line of query text is one line of the file. -/
theorem ReadBack.framed (h : ReadBack env call e)
    (hquery : '\n' ∉ e.originalQuery ∧ '\r' ∉ e.originalQuery) : e.Framed where
  timestamp := by
    rw [h.timestamp]
    exact fun c hc => (isTimeChar_of_mem_timeStr env hc).not_separates
  start := by
    rw [h.timestamp]
    exact start_timeStr env call.2
  templateHash := by
    rw [h.templateHash]
    exact fun c hc => not_separates_of_mem_hashHex hc
  template := no_newline_of_normalizeQuery h.template
  originalQuery := hquery

/-- One call appends one line. -/
theorem queryLoggerLogQuery_fileOf
    (hselect : isSelectQuery call.1.bytes = true) (h : ReadBack env call e) (es : List Entry) :
    queryLoggerLogQuery env (fileOf es) call = some (fileOf (es ++ [e])) := by
  have hline : csvLine (timeStr env call.2) (hashHex (env.md5 (utf8 e.template)))
      (utf8 e.template) call.1.bytes = utf8 (e.line ++ ['\n']) := by
    rw [← h.timestamp, ← h.templateHash, QueryText.bytes, ← h.originalQuery, csvLine_utf8]
  have hlast : fileOf (es ++ [e]) =
      utf8 (csvHeader ++ es.flatMap fun e => e.line ++ ['\n']) ++ utf8 (e.line ++ ['\n']) := by
    rw [fileOf, if_neg (by simp), flatMap_append, flatMap_singleton, ← append_assoc, utf8_append]
  have hheader : (if fileOf es = [] then fileOf es ++ utf8 csvHeader else fileOf es) =
      utf8 (csvHeader ++ es.flatMap fun e => e.line ++ ['\n']) := by
    by_cases hes : es = []
    · subst hes
      rw [fileOf_nil, if_pos rfl, flatMap_nil, append_nil, nil_append]
    · have hne : fileOf es ≠ [] := by
        rw [fileOf, if_neg hes, utf8_append]
        exact append_ne_nil_of_left_ne_nil (by decide) _
      rw [if_neg hne, fileOf, if_neg hes]
  rw [queryLoggerLogQuery, if_pos hselect, h.template, bind_eq_bind, bind_some]
  rw [hheader, hline, hlast]
  rfl

/-- So do the calls of a session, and the file is a file of entries again. -/
theorem logQueries_fileOf (h : Forall₂ (ReadBack env) (selects calls) es)
    (before : List Entry) :
    logQueries env (fileOf before) calls = some (fileOf (before ++ es)) := by
  induction calls generalizing es before with
  | nil =>
    cases h
    rw [append_nil]
    rfl
  | cons call calls ih =>
    by_cases hselect : isSelectQuery call.1.bytes = true
    · rw [selects_cons_of_select hselect] at h
      cases h with
      | cons he hes =>
        rw [logQueries, foldlM_cons, queryLoggerLogQuery_fileOf hselect he, bind_eq_bind, bind_some]
        refine (ih hes _).trans ?_
        rw [append_assoc, singleton_append]
    · rw [selects_cons_of_other hselect] at h
      rw [logQueries, foldlM_cons, queryLoggerLogQuery, if_neg hselect, bind_eq_bind, bind_some]
      exact ih h before

theorem exists_mem_of_forall₂ {α β : Type} {R : α → β → Prop} {l : List α} {m : List β}
    (h : Forall₂ R l m) {a : α} (ha : a ∈ l) : ∃ b ∈ m, R a b := by
  induction h with
  | nil => cases ha
  | cons hab _ ih =>
    cases ha with
    | head => exact ⟨_, .head _, hab⟩
    | tail _ hmem =>
      obtain ⟨b, hb, hR⟩ := ih hmem
      exact ⟨b, .tail _ hb, hR⟩

/-- If the round trip works, every query is carried. -/
theorem RoundTrip.carried (h : RoundTrip env calls)
    (hcall : call ∈ selects calls) : Carried call.1 := by
  obtain ⟨file, hfile, hread⟩ := h
  have hfileOf : fileOf (loadWorkloadFromCsv file) = file := by
    have hlog := logQueries_fileOf hread []
    rw [fileOf_nil, hfile] at hlog
    exact some.inj hlog.symm
  -- each entry read came in one line
  have hframed : ∀ e ∈ loadWorkloadFromCsv file, e.Framed := by
    intro e he
    obtain ⟨_, -, hback⟩ := exists_mem_of_forall₂ hread.flip he
    exact hback.framed (no_newline_of_mem_load he)
  -- and reading the lines again gives the same entries
  have hreread : (loadWorkloadFromCsv file).map Entry.reread =
      (loadWorkloadFromCsv file).map id := by
    rw [← loadWorkloadFromCsv_fileOf hframed, hfileOf, map_id]
  obtain ⟨e, he, hback⟩ := exists_mem_of_forall₂ hread hcall
  obtain ⟨hcomma, -, hquote⟩ := reread_eq_self_iff.mp (map_inj_left.mp hreread e he)
  have hnewline := no_newline_of_mem_load he
  rw [hback.originalQuery] at hquote hnewline
  exact ⟨hquote, hnewline, e.template, hback.template, hcomma⟩

/-- Queries that are carried have entries that are read back. -/
theorem exists_entries (h : ∀ call ∈ calls, Carried call.1) :
    ∃ es, Forall₂ (ReadBack env) calls es ∧ ∀ e ∈ es, e.Framed ∧ e.reread = e := by
  induction calls with
  | nil => exact ⟨[], .nil, fun _ he => nomatch he⟩
  | cons call calls ih =>
    obtain ⟨es, hes, hgood⟩ := ih fun call' hc => h call' (.tail _ hc)
    have hcarried := h call (.head _)
    obtain ⟨text, htext, hcomma⟩ := hcarried.template
    let e : Entry := ⟨timeStr env call.2, hashHex (env.md5 (utf8 text)), text, call.1.chars⟩
    have hback : ReadBack env call e := ⟨rfl, htext, rfl, rfl⟩
    refine ⟨e :: es, .cons hback hes, fun e' he' => ?_⟩
    rcases mem_cons.mp he' with rfl | hmem
    · refine ⟨hback.framed hcarried.noNewline, reread_eq_self_iff.mpr ⟨hcomma, ?_, ?_⟩⟩
      · exact no_quote_of_normalizeQuery htext hcarried.noQuote
      · exact hcarried.noQuote
    · exact hgood e' hmem

theorem roundTrip_of_carried (h : ∀ call ∈ selects calls, Carried call.1) :
    RoundTrip env calls := by
  obtain ⟨es, hes, hgood⟩ : ∃ es, Forall₂ (ReadBack env) (selects calls) es ∧
      ∀ e ∈ es, e.Framed ∧ e.reread = e := exists_entries h
  have hlog := logQueries_fileOf hes []
  rw [fileOf_nil, nil_append] at hlog
  have hload : loadWorkloadFromCsv (fileOf es) = es :=
    calc loadWorkloadFromCsv (fileOf es)
        = es.map Entry.reread := loadWorkloadFromCsv_fileOf fun e he => (hgood e he).1
      _ = es.map id := map_congr_left fun e he => (hgood e he).2
      _ = es := map_id es
  refine ⟨fileOf es, hlog, ?_⟩
  rwa [hload]

/-- The log is read back as it was written exactly if it can carry each query. -/
theorem log_round_trip_iff (env : LogEnv) (calls : List (QueryText × ℤ)) :
    RoundTrip env calls ↔
      ∀ call ∈ calls, isSelectQuery call.1.bytes = true → Carried call.1 := by
  constructor
  · intro h call hcall hselect
    exact h.carried (mem_filter.mpr ⟨hcall, hselect⟩)
  · intro h
    refine roundTrip_of_carried fun call hcall => ?_
    obtain ⟨hmem, hselect⟩ := mem_filter.mp hcall
    exact h call hmem hselect

def commaQuery : QueryText := ⟨"SELECT a,b FROM t".toList, by decide⟩

/-- Surroundings without a time zone, and a digest of zeros. -/
def plainEnv : LogEnv := ⟨fun _ => none, fun _ _ => 0⟩

/-- What is logged for the query. -/
def commaEntry : Entry where
  timestamp := "1970-01-01 00:00:00".toList
  templateHash := replicate 32 '0'
  template := "SELECT a,b FROM t".toList
  originalQuery := "SELECT a,b FROM t".toList

theorem commaEntry_readBack : ReadBack plainEnv (commaQuery, 0) commaEntry where
  timestamp := rfl
  template := by decide +kernel
  templateHash := by decide +kernel
  originalQuery := rfl

/-- The template is cut at its comma, and the rest of it goes to the query. -/
theorem comma_not_read_back :
    ¬ RoundTrip plainEnv [(commaQuery, 0)] ∧
      ∃ file e, logQueries plainEnv [] [(commaQuery, 0)] = some file ∧
        loadWorkloadFromCsv file = [e] ∧ e.template = "SELECT a".toList ∧
        e.originalQuery = "b FROM t\",\"SELECT a,b FROM t".toList := by
  have hselect : (commaQuery, 0) ∈ selects [(commaQuery, 0)] :=
    mem_filter.mpr ⟨.head _, by decide +kernel⟩
  constructor
  · intro h
    obtain ⟨text, htext, hcomma⟩ := (h.carried hselect).template
    rw [commaEntry_readBack.template, Option.some_inj, utf8_inj] at htext
    rw [← htext] at hcomma
    exact hcomma (by decide)
  · have hlogged : Forall₂ (ReadBack plainEnv) (selects [(commaQuery, 0)]) [commaEntry] := by
      rw [selects_cons_of_select (mem_filter.mp hselect).2]
      exact .cons commaEntry_readBack .nil
    have hlog := logQueries_fileOf hlogged []
    rw [fileOf_nil, nil_append] at hlog
    refine ⟨fileOf [commaEntry], commaEntry.reread, hlog, ?_, by decide +kernel, by decide +kernel⟩
    refine loadWorkloadFromCsv_fileOf fun e he => ?_
    rw [mem_singleton.mp he]
    exact commaEntry_readBack.framed ⟨by decide, by decide⟩

end NeurDB.WorkloadForecast
