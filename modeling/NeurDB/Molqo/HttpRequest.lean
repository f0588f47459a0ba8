import Mathlib.Data.Bool.AllAny
import NeurDB.Framework.Json

/-!
# Queries to the optimizer server

`send_http_request` (`nr_molqo.c`) sends a query to the MoQOE server as a JSON document and cuts
the optimized query out of the answer. Both sides of the JSON are written by hand.

* The query is escaped byte by byte: quotes, backslashes and three control characters. Other control
  characters go into the document as they are, which JSON does not allow.
* The answer comes from `json.dumps` (`run.py`), which writes ASCII, so that its characters are its
  bytes. The C code looks for the key `"optimized_sql"`, then for a colon, then for a quote, and
  takes what stands before the next quote, without decoding it. The original query is in the answer
  too. It can contain the end of the key (`strstr_answer`), but the search for the colon still ends
  behind the key itself.

The transport succeeds; the name of the expert is only logged and is left out.

**The theorem** (`optimizer_exchange_iff`): the request is a document with the query exactly if the
query has no control characters but tabs and line ends, and the answer is read right exactly if the
optimized query is printable ASCII without quotes and backslashes.
-/

namespace NeurDB.Molqo

open List Option

open Json

/-! ### The request -/

/-- The loop that escapes the query. -/
def escapeByte (ch : UInt8) : List UInt8 :=
  if ch = '"'.toUInt8 ∨ ch = '\\'.toUInt8 ∨ ch = '\n'.toUInt8 ∨ ch = '\r'.toUInt8 ∨
      ch = '\t'.toUInt8 then
    ['\\'.toUInt8,
      if ch = '\n'.toUInt8 then 'n'.toUInt8
      else if ch = '\r'.toUInt8 then 'r'.toUInt8
      else if ch = '\t'.toUInt8 then 't'.toUInt8
      else ch]
  else [ch]

/-- The body of the request. -/
def requestBody (sql : List UInt8) : List UInt8 :=
  utf8 "\x7b\"sql\":\"".toList ++ sql.flatMap escapeByte ++ utf8 "\"\x7d".toList

/-- The request is a document in which the last member `sql` is the query. -/
def RequestRight (sql : List Char) : Prop :=
  ∃ text members, readUtf8 (requestBody (utf8 sql)) = some text ∧
    readObject text = some members ∧ members.reverse.lookup "sql".toList = some sql

/-- No control character, or one that is escaped. -/
def Allowed (c : Char) : Prop := c.toNat < 0x20 → c = '\n' ∨ c = '\r' ∨ c = '\t'

/-- The query has no control characters but those that are escaped. -/
def NoRawControl (sql : List Char) : Prop := ∀ c ∈ sql, Allowed c

/-- `escapeByte` on characters. -/
def escapeChar (c : Char) : List Char :=
  if c = '"' then ['\\', '"']
  else if c = '\\' then ['\\', '\\']
  else if c = '\n' then ['\\', 'n']
  else if c = '\r' then ['\\', 'r']
  else if c = '\t' then ['\\', 't']
  else [c]

theorem requestBody_utf8 (sql : List Char) :
    requestBody (utf8 sql) =
      utf8 ("\x7b\"sql\":\"".toList ++ sql.flatMap escapeChar ++ "\"\x7d".toList) := by
  have hescape : (utf8 sql).flatMap escapeByte = utf8 (sql.flatMap escapeChar) := by
    refine flatMap_utf8 (fun c hc => ?_) (fun b hb => ?_) (fun c hc => ?_) sql
    · by_cases hplain : c = '"' ∨ c = '\\' ∨ c = '\n' ∨ c = '\r' ∨ c = '\t'
      · rcases hplain with rfl | rfl | rfl | rfl | rfl <;> decide
      · have hbyte : ∀ a : Char, a.toNat ≤ 127 → c ≠ a → c.toUInt8 ≠ a.toUInt8 :=
          fun a ha hne heq => hne ((toUInt8_inj hc ha).mp heq)
        push Not at hplain
        obtain ⟨h1, h2, h3, h4, h5⟩ := hplain
        have hplain' : escapeByte c.toUInt8 = [c.toUInt8] := by
          refine if_neg ?_
          rintro (h | h | h | h | h)
          · exact hbyte _ (by decide) h1 h
          · exact hbyte _ (by decide) h2 h
          · exact hbyte _ (by decide) h3 h
          · exact hbyte _ (by decide) h4 h
          · exact hbyte _ (by decide) h5 h
        rw [hplain', escapeChar, if_neg h1, if_neg h2, if_neg h3, if_neg h4, if_neg h5, utf8_cons,
          utf8EncodeChar_ascii hc]
        rfl
    · refine if_neg ?_
      rintro (rfl | rfl | rfl | rfl | rfl) <;> exact absurd hb (by decide)
    · have hne : ∀ a : Char, a.toNat ≤ 127 → c ≠ a := fun a ha heq => by
        rw [heq] at hc
        omega
      unfold escapeChar
      rw [if_neg (hne _ (by decide)), if_neg (hne _ (by decide)), if_neg (hne _ (by decide)),
        if_neg (hne _ (by decide)), if_neg (hne _ (by decide))]
  rw [requestBody, hescape, utf8_append, utf8_append]

theorem escapeChar_cases (c : Char) :
    (∃ e, escapeChar c = ['\\', e] ∧ simpleEscape e = some c ∧ Allowed c) ∨
      (escapeChar c = [c] ∧ c ≠ '"' ∧ c ≠ '\\' ∧ c ≠ '\n' ∧ c ≠ '\r' ∧ c ≠ '\t') := by
  by_cases hplain : c = '"' ∨ c = '\\' ∨ c = '\n' ∨ c = '\r' ∨ c = '\t'
  · rcases hplain with rfl | rfl | rfl | rfl | rfl
    · exact .inl ⟨'"', by decide, by decide, nofun⟩
    · exact .inl ⟨'\\', by decide, by decide, nofun⟩
    · exact .inl ⟨'n', by decide, by decide, fun _ => .inl rfl⟩
    · exact .inl ⟨'r', by decide, by decide, fun _ => .inr (.inl rfl)⟩
    · exact .inl ⟨'t', by decide, by decide, fun _ => .inr (.inr rfl)⟩
  · push Not at hplain
    obtain ⟨h1, h2, h3, h4, h5⟩ := hplain
    refine .inr ⟨?_, h1, h2, h3, h4, h5⟩
    rw [escapeChar, if_neg h1, if_neg h2, if_neg h3, if_neg h4, if_neg h5]

variable {sql l : List Char}

theorem noRawControl_cons {c : Char} : NoRawControl (c :: sql) ↔ Allowed c ∧ NoRawControl sql :=
  forall_mem_cons

/-- **The escaped query is read back**, or is no string if a control character is left in it. -/
theorem readString_escapes (sql rest : List Char) :
    (NoRawControl sql →
      readString (sql.flatMap escapeChar ++ '"' :: rest) = some (sql, rest)) ∧
    (¬ NoRawControl sql → readString (sql.flatMap escapeChar ++ '"' :: rest) = none) := by
  induction sql with
  | nil => exact ⟨fun _ => rfl, fun h => absurd (forall_mem_nil _) h⟩
  | cons c sql ih =>
    rw [flatMap_cons, append_assoc, noRawControl_cons]
    -- a character that leaves the rest of the string to be read
    have hnext : ∀ l, Allowed c → readString l = (readString (sql.flatMap escapeChar ++
        '"' :: rest)).map (fun read => (c :: read.1, read.2)) →
        (Allowed c ∧ NoRawControl sql → readString l = some (c :: sql, rest)) ∧
          (¬ (Allowed c ∧ NoRawControl sql) → readString l = none) := by
      intro l hc hl
      rw [hl]
      refine ⟨fun h => ?_, fun h => ?_⟩
      · rw [ih.1 h.2, map_some]
      · rw [ih.2 fun hsql => h ⟨hc, hsql⟩, map_none]
    rcases escapeChar_cases c with ⟨e, hescape, he, hallowed⟩ | ⟨hplain, hq, hb, hn, hr, ht⟩
    · rw [hescape, cons_append, singleton_append]
      exact hnext _ hallowed (readString_escape he _)
    · rw [hplain, singleton_append]
      by_cases hc : c.toNat < 0x20
      · refine ⟨fun h => absurd (h.1 hc) ?_, fun _ => readString_control hc _⟩
        simp [hn, hr, ht]
      · exact hnext _ (fun hlt => absurd hlt hc) (readString_char hq hb (Nat.not_lt.mp hc) _)

theorem readMember_request (value : List Char) :
    readMember ("\"sql\":\"".toList ++ value) =
      (readString value).map fun read => (("sql".toList, read.1), skipSpace read.2) := by
  -- the key and the colon are fixed text, so reading comes down to the value
  show (readString value).bind (fun read => some (("sql".toList, read.1), skipSpace read.2)) = _
  cases readString value <;> rfl

theorem readObject_request {value : List Char} {read : Option (List Char × List Char)}
    (h : readString value = read) (hend : ∀ r ∈ read, r.2 = ['\x7d']) :
    readObject ("\x7b\"sql\":\"".toList ++ value) = read.map fun r => [("sql".toList, r.1)] := by
  show (readMembers (value.length + 6 + 1) ("\"sql\":\"".toList ++ value)).bind _ = _
  rw [readMembers, readMember_request, h]
  rcases read with _ | ⟨text, rest⟩
  · rfl
  · obtain rfl : rest = ['\x7d'] := hend _ rfl
    rfl

theorem requestRight_iff (sql : List Char) : RequestRight sql ↔ NoRawControl sql := by
  have hread : readUtf8 (requestBody (utf8 sql)) =
      some ("\x7b\"sql\":\"".toList ++ (sql.flatMap escapeChar ++ ['"', '\x7d'])) := by
    rw [requestBody_utf8, readUtf8_utf8, append_assoc]
    rfl
  constructor
  · rintro ⟨text, members, htext, hobject, -⟩
    by_contra h
    rw [hread] at htext
    cases htext
    rw [readObject_request ((readString_escapes sql _).2 h) nofun] at hobject
    cases hobject
  · intro h
    refine ⟨_, _, hread, readObject_request ((readString_escapes sql _).1 h) ?_, rfl⟩
    rintro _ ⟨⟩
    rfl

/-! ### The answer -/

/-- `strstr`: the text from the first occurrence on. -/
def strstr (needle : List Char) : List Char → Option (List Char)
  | [] => if needle = [] then some [] else none
  | c :: l => if needle <+: c :: l then some (c :: l) else strstr needle l

/-- `strchr`. -/
def strchr (ch : Char) (l : List Char) : Option (List Char) :=
  if ch ∈ l then some (l.dropWhile (· ≠ ch)) else none

/-- The answer of `MoQOEHandler.do_POST`. -/
structure Answer where
  originalSql : List Char
  optimizedSql : List Char
  optimizationApplied : Bool
  expertName : List Char
  endpoint : List Char

/-- The key that the C code looks for. -/
def optimizedKey : List Char := "\"optimized_sql\"".toList

/-- What follows the optimized query. -/
def Answer.trailer (a : Answer) : List Char :=
  ", \"optimization_applied\": ".toList ++
    (if a.optimizationApplied then "true".toList else "false".toList) ++
    ", \"expert_name\": \"".toList ++ asciiEncode a.expertName ++
    "\", \"endpoint\": \"".toList ++ asciiEncode a.endpoint ++ "\"\x7d".toList

/-- What follows the key. -/
def Answer.value (a : Answer) : List Char :=
  ':' :: ' ' :: '"' :: (asciiEncode a.optimizedSql ++ '"' :: a.trailer)

/-- `json.dumps` of the answer. -/
def Answer.dumps (a : Answer) : List Char :=
  "\x7b".toList ++ ('"' :: ("original_sql".toList ++ ('"' :: (": ".toList ++
    ('"' :: (asciiEncode a.originalSql ++ '"' :: (", ".toList ++ (optimizedKey ++ a.value))))))))

/-- The size of `response_buf`, without its terminator. -/
def responseSize : ℕ := 8191

/-- The end of `send_http_request`: the optimized query is cut out of the response. If that fails
the query itself is returned. -/
def extractOptimizedSql (response sql : List Char) : List Char :=
  let responseBuf := response.take responseSize
  let result := do
    let optSqlStart ← strstr optimizedKey responseBuf
    let optSqlStart ← strchr ':' optSqlStart
    let optSqlStart ← strchr '"' optSqlStart
    let optSqlStart := optSqlStart.tail
    let optSqlEnd ← strchr '"' optSqlStart
    pure (optSqlStart.take (optSqlStart.length - optSqlEnd.length))
  result.getD sql

/-- `send_http_request`, with a server that answers request bodies. -/
def sendHttpRequest (server : List UInt8 → List Char) (sql : List Char) : List Char :=
  extractOptimizedSql (server (requestBody (utf8 sql))) sql

theorem strstr_skip (h : '"' ∉ l) (rest : List Char) :
    strstr optimizedKey (l ++ rest) = strstr optimizedKey rest := by
  induction l with
  | nil => rfl
  | cons c l ih =>
    have hc : c ≠ '"' := fun heq => h (heq ▸ .head _)
    have hnot : ¬ optimizedKey <+: c :: (l ++ rest) := by
      intro hp
      obtain ⟨heq, -⟩ := cons_prefix_cons.mp hp
      exact hc heq.symm
    rw [cons_append, strstr, if_neg hnot]
    exact ih fun hmem => h (.tail _ hmem)

theorem eq_of_word_prefix {word text rest : List Char} (hword : ∀ c ∈ word, IsPlain c)
    (h : word ++ ['"'] <+: asciiEncode text ++ '"' :: rest) : text = word := by
  induction word generalizing text with
  | nil =>
    cases text with
    | nil => rfl
    | cons c text =>
      exfalso
      rw [asciiEncode_cons] at h
      by_cases hc : IsPlain c
      · rw [asciiEncodeChar_of_plain hc] at h
        exact hc.2.2.1 (cons_prefix_cons.mp h).1.symm
      · obtain ⟨l, hl⟩ := exists_escape_of_not_plain hc
        rw [hl] at h
        exact absurd (cons_prefix_cons.mp h).1 (by decide)
  | cons a word ih =>
    have ha := hword a (.head _)
    cases text with
    | nil =>
      exact absurd (cons_prefix_cons.mp h).1 ha.2.2.1
    | cons c text =>
      rw [asciiEncode_cons] at h
      by_cases hc : IsPlain c
      · rw [asciiEncodeChar_of_plain hc] at h
        obtain ⟨rfl, hrest⟩ := cons_prefix_cons.mp h
        rw [ih (fun c hc => hword c (.tail _ hc)) hrest]
      · obtain ⟨l, hl⟩ := exists_escape_of_not_plain hc
        rw [hl] at h
        exact absurd (cons_prefix_cons.mp h).1 ha.2.2.2

theorem optimizedKey_eq : optimizedKey = '"' :: ("optimized_sql".toList ++ ['"']) := by decide

/-- Where the search for the key may end: at the key, or at the end of the original query, if that
reads like it. -/
def Found (rest : List Char) (found : Option (List Char)) : Prop :=
  found = some (optimizedKey ++ rest) ∨
    found = some (optimizedKey ++ ", ".toList ++ (optimizedKey ++ rest))

/-- At a quote before the rest of the original query. -/
theorem found_quote {text rest : List Char} (h : Found rest (strstr optimizedKey
      (asciiEncode text ++ '"' :: (", ".toList ++ (optimizedKey ++ rest))))) :
    Found rest (strstr optimizedKey
      ('"' :: (asciiEncode text ++ '"' :: (", ".toList ++ (optimizedKey ++ rest))))) := by
  by_cases hp : optimizedKey <+:
      '"' :: (asciiEncode text ++ '"' :: (", ".toList ++ (optimizedKey ++ rest)))
  · -- the rest of the query is the name of the key, and its closing quote ends it
    have hword := hp
    rw [optimizedKey_eq, cons_prefix_cons] at hword
    have hplain : ∀ c ∈ "optimized_sql".toList, IsPlain c :=
      all_iff_forall_prop.mp (by decide)
    have htext : text = "optimized_sql".toList := eq_of_word_prefix hplain hword.2
    have hencode : asciiEncode "optimized_sql".toList = "optimized_sql".toList := by decide
    right
    rw [strstr, if_pos hp, htext, hencode]
    simp [optimizedKey_eq, cons_append]
  · rw [strstr, if_neg hp]
    exact h

theorem found_encoded (text rest : List Char) :
    Found rest (strstr optimizedKey
      (asciiEncode text ++ '"' :: (", ".toList ++ (optimizedKey ++ rest)))) := by
  induction text with
  | nil =>
    left
    have hquote : ¬ optimizedKey <+: '"' :: (", ".toList ++ (optimizedKey ++ rest)) := by
      intro hp
      rw [optimizedKey_eq, cons_prefix_cons] at hp
      exact absurd (cons_prefix_cons.mp hp.2).1 (by decide)
    have hkey : ∃ c l, optimizedKey ++ rest = c :: l := ⟨_, _, rfl⟩
    obtain ⟨c, l, hcons⟩ := hkey
    rw [asciiEncode_nil, nil_append, strstr, if_neg hquote, strstr_skip (by decide), hcons,
      strstr, if_pos (hcons ▸ prefix_append _ _)]
  | cons c text ih =>
    rw [asciiEncode_cons, append_assoc]
    by_cases hc : IsPlain c
    · rw [asciiEncodeChar_of_plain hc, strstr_skip (by simpa using hc.2.2.1.symm)]
      exact ih
    · by_cases hq : c = '"'
      · -- the quote is escaped
        rw [hq, asciiEncodeChar_quote, cons_append, singleton_append,
          ← singleton_append, strstr_skip (by decide)]
        exact found_quote ih
      · obtain ⟨l, hl, hnot⟩ := asciiEncodeChar_of_not_plain hc hq
        rw [hl, strstr_skip (not_mem_cons_of_ne_of_not_mem (by decide) hnot)]
        exact ih

theorem strstr_answer (a : Answer) : Found a.value (strstr optimizedKey a.dumps) := by
  have hfirst : ∀ l, ¬ optimizedKey <+: '"' :: ("original_sql".toList ++ l) := by
    intro l hp
    rw [optimizedKey_eq, cons_prefix_cons] at hp
    obtain ⟨-, hrest⟩ := cons_prefix_cons.mp hp.2
    exact absurd (cons_prefix_cons.mp hrest).1 (by decide)
  have hsecond : ∀ l, ¬ optimizedKey <+: '"' :: (": ".toList ++ l) := by
    intro l hp
    rw [optimizedKey_eq, cons_prefix_cons] at hp
    exact absurd (cons_prefix_cons.mp hp.2).1 (by decide)
  rw [Answer.dumps, strstr_skip (by decide), strstr, if_neg (hfirst _), strstr_skip (by decide),
    strstr, if_neg (hsecond _), strstr_skip (by decide)]
  exact found_quote (found_encoded _ _)

theorem strchr_append {ch : Char} (h : ch ∉ l) (rest : List Char) :
    strchr ch (l ++ ch :: rest) = some (ch :: rest) := by
  have hl : ∀ c ∈ l, decide (c ≠ ch) = true := fun c hc =>
    decide_eq_true fun heq => h (heq ▸ hc)
  rw [strchr, if_pos (by simp), dropWhile_append_of_pos hl]
  simp

theorem take_strchr {ch : Char} {found : List Char} (h : strchr ch l = some found) :
    l.take (l.length - found.length) = l.takeWhile (· ≠ ch) := by
  unfold strchr at h
  split at h
  · cases h
    have hsplit : l = l.takeWhile (· ≠ ch) ++ l.dropWhile (· ≠ ch) :=
      takeWhile_append_dropWhile.symm
    generalize l.takeWhile (· ≠ ch) = before, l.dropWhile (· ≠ ch) = found at hsplit
    rw [hsplit, length_append, Nat.add_sub_cancel, take_left]
  · cases h

theorem strchr_colon {a : Answer} {found : Option (List Char)} (h : Found a.value found) :
    found.bind (strchr ':') = some a.value := by
  rcases h with rfl | rfl
  · exact strchr_append (by decide) _
  · rw [bind_some, ← append_assoc]
    exact strchr_append (by decide) _

theorem extractOptimizedSql_dumps {a : Answer} (h : a.dumps.length ≤ responseSize)
    (sql : List Char) :
    extractOptimizedSql a.dumps sql = undecoded a.optimizedSql := by
  have hvalue : strchr '"' a.value =
      some ('"' :: (asciiEncode a.optimizedSql ++ '"' :: a.trailer)) := by
    have hcolon : '"' ∉ [':', ' '] := by decide
    exact strchr_append hcolon _
  have hend : ∃ found, strchr '"' (asciiEncode a.optimizedSql ++ '"' :: a.trailer) = some found :=
    ⟨_, if_pos (mem_append_right _ (.head _))⟩
  obtain ⟨found, hfound⟩ := hend
  -- the closing quote, or one inside the query, ends it
  have htext : (asciiEncode a.optimizedSql ++ '"' :: a.trailer).takeWhile (· ≠ '"') =
      undecoded a.optimizedSql := by
    rw [takeWhile_append]
    split
    · next hall =>
      have hwhole := ( takeWhile_prefix (fun c => decide (c ≠ '"'))).eq_of_length hall
      rw [undecoded, hwhole]
      simp
    · rfl
  have hresponse : a.dumps.take responseSize = a.dumps := take_of_length_le h
  have hcolon := strchr_colon (strstr_answer a)
  have hresult : ((strstr optimizedKey (a.dumps.take responseSize)).bind fun optSqlStart =>
      (strchr ':' optSqlStart).bind fun optSqlStart =>
        (strchr '"' optSqlStart).bind fun optSqlStart =>
          (strchr '"' optSqlStart.tail).bind fun optSqlEnd =>
            some (optSqlStart.tail.take (optSqlStart.tail.length - optSqlEnd.length))) =
      some (undecoded a.optimizedSql) := by
    rw [hresponse, ← bind_assoc, hcolon, bind_some, hvalue, bind_some,
      tail_cons, hfound, bind_some, take_strchr hfound, htext]
  exact congrArg (fun result => result.getD sql) hresult

/-! ### The exchange -/

/-- The optimizer server gets the query, and its answer reaches the planner, under conditions on
the characters of both. -/
theorem optimizer_exchange_iff (server : List UInt8 → List Char) (sql : List Char) (a : Answer) :
    ('\x00' ∉ sql → (RequestRight sql ↔ NoRawControl sql)) ∧
      (server (requestBody (utf8 sql)) = a.dumps → a.dumps.length ≤ responseSize →
        (sendHttpRequest server sql = a.optimizedSql ↔ ∀ c ∈ a.optimizedSql, IsPlain c)) := by
  refine ⟨fun _ => requestRight_iff sql, fun hserver h => ?_⟩
  rw [sendHttpRequest, hserver, extractOptimizedSql_dumps h]
  exact undecoded_eq_self_iff

def selectOne : List Char := "SELECT 1".toList

/-- A query that is answered with itself. -/
def plainAnswer : Answer := ⟨selectOne, selectOne, false, "none".toList, "/optimize".toList⟩

theorem optimizer_exchange_plain :
    ('\x00' ∉ selectOne ∧ RequestRight selectOne) ∧ plainAnswer.dumps.length ≤ responseSize ∧
      sendHttpRequest (fun _ => plainAnswer.dumps) selectOne = plainAnswer.optimizedSql := by
  have hnul : '\x00' ∉ selectOne := by decide
  have hcontrol : NoRawControl selectOne := by
    unfold NoRawControl Allowed
    exact all_iff_forall_prop.mp (by decide)
  have hlength : plainAnswer.dumps.length ≤ responseSize := by decide +kernel
  have hplain : ∀ c ∈ plainAnswer.optimizedSql, IsPlain c :=
    all_iff_forall_prop.mp (by decide)
  obtain ⟨hrequest, hanswer⟩ :=
    optimizer_exchange_iff (fun _ => plainAnswer.dumps) selectOne plainAnswer
  exact ⟨⟨hnul, (hrequest hnul).mpr hcontrol⟩, hlength, (hanswer rfl hlength).mpr hplain⟩

/-- A query with a quoted name. -/
def quotedName : List Char := "SELECT \"a\" FROM t".toList

def quotedAnswer : Answer := ⟨quotedName, quotedName, false, "none".toList, "/optimize".toList⟩

/-- A control character makes the request no document, and the answer is cut at its first quote. -/
theorem optimizer_exchange_fails :
    ¬ RequestRight ['\x01'] ∧ quotedAnswer.dumps.length ≤ responseSize ∧
      sendHttpRequest (fun _ => quotedAnswer.dumps) quotedName = "SELECT \\".toList ∧
      sendHttpRequest (fun _ => quotedAnswer.dumps) quotedName ≠ quotedAnswer.optimizedSql := by
  have hlength : quotedAnswer.dumps.length ≤ responseSize := by decide +kernel
  have hcut : undecoded quotedAnswer.optimizedSql = "SELECT \\".toList := by decide
  refine ⟨?_, hlength, ?_, ?_⟩
  · rw [requestRight_iff]
    intro h
    exact absurd (h '\x01' (.head _) (by decide)) (by decide)
  · rw [sendHttpRequest, extractOptimizedSql_dumps hlength, hcut]
  · rw [sendHttpRequest, extractOptimizedSql_dumps hlength, hcut]
    decide

end NeurDB.Molqo
