import NeurDB.Framework.Delimiter

/-!
# The statement that is costed

The reactive strategy of `nr_index_management.c`: a hook after the analysis of a query puts the
text of the query into a work queue, and a background worker later runs
`EXPLAIN (FORMAT JSON) ` followed by the text. EXPLAIN executes nothing, if the text is that of
one SELECT.

A source string may hold several statements. The grammar locates each of them by the semicolons
around it (`stmtmulti` in `gram.y`): a statement that no semicolon follows gets the length zero,
which means "up to the end". `get_current_statement_text` takes a length of zero for a missing
one and falls back to the whole source. Where the statement is not the first, the worker then
explains the first statement and **executes** all the others.

The text goes into the queue in an INSERT command, between dollar quotes whose tag is made from
a hash of the text. It is meant not to occur in the text, which nothing checks.

`costed_iff` says when the worker leaves the data alone.
-/

namespace NeurDB.IndexManagement

open List
open Option (bind_eq_some_iff bind_some ite_none_left_eq_some map_eq_some_iff some)

variable {D : Type}

/-! ### Statements in a source string

`D` stands for the data of the users. -/

inductive CmdType where
  | cmdUnknown | cmdSelect | cmdUpdate | cmdInsert | cmdDelete | cmdMerge | cmdUtility
  | cmdNothing
  deriving DecidableEq

/-- What the hook reads of an analyzed statement, and what its execution does. -/
structure Stmt (D : Type) where
  commandType : CmdType
  /-- `query_references_only_user_tables`. -/
  userTablesOnly : Bool
  /-- `nrim_build_candidates_json`, or NULL. -/
  candidatesJson : Option (List Char)
  effect : D → D

/-- `EXPLAIN` of the statement. -/
def Stmt.explained (s : Stmt D) : Stmt D := ⟨.cmdUtility, s.userTablesOnly, none, id⟩

/-- A `toplevel_stmt` with the text it spans, from one semicolon to the next. It may be empty
but for blanks and comments. -/
@[ext] structure ToplevelStmt (D : Type) where
  text : List Char
  stmt : Option (Stmt D)
  text_ne_nil : stmt.isSome → text ≠ []

/-- A derivation of `stmtmulti`. -/
inductive Stmtmulti (D : Type) where
  | toplevel (t : ToplevelStmt D)
  | semicolon (m : Stmtmulti D) (t : ToplevelStmt D)

structure RawStmt (D : Type) where
  stmt : Stmt D
  stmtLocation : ℕ
  stmtLen : ℕ

def makeRawStmt (stmt : Stmt D) (stmtLocation : ℕ) : RawStmt D := ⟨stmt, stmtLocation, 0⟩

def updateRawStmtEnd (rs : RawStmt D) (endLocation : ℕ) : RawStmt D :=
  if 0 < rs.stmtLen then rs else { rs with stmtLen := endLocation - rs.stmtLocation }

/-- `updateRawStmtEnd(llast_node(RawStmt, $1), @2)`. -/
def updateLast (endLocation : ℕ) : List (RawStmt D) → List (RawStmt D)
  | [] => []
  | [rs] => [updateRawStmtEnd rs endLocation]
  | rs :: rest => rs :: updateLast endLocation rest

namespace Stmtmulti

/-- The source string. -/
def source : Stmtmulti D → List Char
  | toplevel t => t.text
  | semicolon m t => m.source ++ ';' :: t.text

/-- The actions of the grammar. The semicolon stands behind the source so far. -/
def rawStmts : Stmtmulti D → List (RawStmt D)
  | toplevel t => (t.stmt.map fun s => makeRawStmt s 0).toList
  | semicolon m t => updateLast m.source.length m.rawStmts ++
      (t.stmt.map fun s => makeRawStmt s (m.source.length + 1)).toList

def toplevels : Stmtmulti D → List (ToplevelStmt D)
  | toplevel t => [t]
  | semicolon m t => m.toplevels ++ [t]

/-- The statements, without the empty ones. -/
def stmts (m : Stmtmulti D) : List (Stmt D) := m.toplevels.filterMap (·.stmt)

/-- The texts of the statements. -/
def texts (m : Stmtmulti D) : List (List Char) :=
  m.toplevels.filterMap fun t => t.stmt.map fun _ => t.text

/-- The located statements, each with its own text. -/
def statements (m : Stmtmulti D) : List (RawStmt D × List Char) := m.rawStmts.zip m.texts

/-- What executing all statements does. -/
def effect (m : Stmtmulti D) (d : D) : D := m.stmts.foldl (fun d s => s.effect d) d

def first : Stmtmulti D → ToplevelStmt D
  | toplevel t => t
  | semicolon m _ => m.first

end Stmtmulti

/-! ### The hook -/

/-- The settings the hook looks at. -/
structure HookConfig where
  strategy : String
  reactiveEnable : Bool
  isAiEngineSession : Bool

/-- `get_current_statement_text`. -/
def getCurrentStatementText (source : List Char) (rs : RawStmt D) : List Char :=
  if 0 < rs.stmtLen ∧ rs.stmtLocation < source.length then
    (source.drop rs.stmtLocation).take (min rs.stmtLen (source.length - rs.stmtLocation))
  else source

/-- `isspace` in the C locale. -/
def isspace (c : Char) : Bool :=
  c = ' ' || c = '\t' || c = '\n' || c = '\x0b' || c = '\x0c' || c = '\r'

/-- Behind the end of a block comment, or at the end of the string. -/
def skipBlockComment : List Char → List Char
  | [] => []
  | '*' :: '/' :: rest => rest
  | _ :: rest => skipBlockComment rest

/-- Skip blanks and comments. Each round of the loop that goes on takes two characters at
least, so the length of the string is enough for the counter. -/
def skipBlanks : ℕ → List Char → List Char
  | 0, stmt => stmt
  | n + 1, stmt =>
    match stmt.dropWhile isspace with
    | '-' :: '-' :: rest => skipBlanks n (rest.dropWhile (· ≠ '\n'))
    | '/' :: '*' :: rest => skipBlanks n (skipBlockComment rest)
    | stmt' => stmt'

theorem length_skipBlockComment_le (l : List Char) : (skipBlockComment l).length ≤ l.length := by
  induction l using skipBlockComment.induct with
  | case1 => exact Nat.le_refl _
  | case2 rest =>
    simp only [skipBlockComment, length_cons]
    omega
  | case3 c rest hne ih =>
    rw [skipBlockComment]
    · rw [length_cons]
      omega
    · exact hne

/-- A counter above the length of the string is large enough: the loop ends by itself. -/
theorem skipBlanks_succ {n : ℕ} {stmt : List Char} (h : stmt.length < n) :
    skipBlanks (n + 1) stmt = skipBlanks n stmt := by
  induction n generalizing stmt with
  | zero => exact absurd h (Nat.not_lt_zero _)
  | succ n ih =>
    have hle : (stmt.dropWhile isspace).length ≤ stmt.length := length_dropWhile_le _ _
    rw [skipBlanks]
    conv_rhs => rw [skipBlanks]
    split
    · next rest heq =>
      have hrest := length_dropWhile_le (· ≠ '\n') rest
      rw [heq, length_cons, length_cons] at hle
      exact ih (by omega)
    · next rest heq =>
      have hrest := length_skipBlockComment_le rest
      rw [heq, length_cons, length_cons] at hle
      exact ih (by omega)
    · rfl

/-- `is_select_statement_text`. -/
def isSelectStatementText (stmt : List Char) : Bool :=
  let p := skipBlanks (stmt.length + 1) stmt
  (p.take 6).map Char.toLower = "select".toList &&
    match (p.drop 6).head? with
    | some c => !(c.isAlphanum || c = '_')
    | none => true

/-- `index_management_post_parse_analyze`: the text and the candidates it enqueues, if any. -/
def postParseAnalyze (cfg : HookConfig) (source : List Char) (rs : RawStmt D) :
    Option (List Char × List Char) :=
  if rs.stmt.commandType ≠ .cmdSelect then none
  else if cfg.strategy ≠ "reactive" then none
  else if !cfg.reactiveEnable then none
  else if cfg.isAiEngineSession then none
  else
    let queryText := getCurrentStatementText source rs
    if queryText = [] then none
    else if !isSelectStatementText queryText then none
    else if !rs.stmt.userTablesOnly then none
    else rs.stmt.candidatesJson.map fun candidates => (queryText, candidates)

/-! ### The queue -/

/-- `snprintf(tag, sizeof(tag), "nrimq_%08x", h)`. -/
def tag (h : BitVec 32) : List Char :=
  "nrimq_".toList ++ (List.range 8).map fun i => Nat.digitChar (h.toNat / 16 ^ (7 - i) % 16)

/-- A dollar quote with the tag. -/
def dollarQuote (h : BitVec 32) : List Char := '$' :: (tag h ++ ['$'])

def insertPrefix : List Char :=
  "INSERT INTO nrim.nrim_work_queue(query_text, candidates) VALUES (".toList

/-- The end of the command: the candidates, or NULL. -/
def candidatesValue (d : List Char) : Option (List Char) → List Char
  | none => "NULL);".toList
  | some candidates => d ++ (candidates ++ (d ++ ");".toList))

/-- The command that `nrim_enqueue_work_item` hands to `psql`, with the dollar quote `d`. -/
def insertCommand (d queryText : List Char) (candidates : Option (List Char)) : List Char :=
  (insertPrefix ++ d) ++ (queryText ++ (d ++ (", ".toList ++ candidatesValue d candidates)))

/-- `candidates_text && candidates_text[0] != '\0'`. -/
def candidatesText (candidates : List Char) : Option (List Char) :=
  if candidates = [] then none else some candidates

/-- `nrim_enqueue_work_item`, over the hash of the text. -/
def nrimEnqueueWorkItem (hashAny : List Char → BitVec 32) (queryText candidates : List Char) :
    List Char :=
  insertCommand (dollarQuote (hashAny queryText)) queryText (candidatesText candidates)

/-- What stands behind `pre`. -/
def dropPrefix? (pre l : List Char) : Option (List Char) :=
  if pre <+: l then some (l.drop pre.length) else none

/-- The second value of the INSERT and the end of the command, as the server reads them. -/
def readCandidates (d rest : List Char) : Option (Option (List Char)) :=
  if rest = "NULL);".toList then some none
  else do
    let body ← dropPrefix? d rest
    let (candidates, close) ← splitAtDelim d body
    if close = ");".toList then some (some candidates) else none

/-- The row that an INSERT command of this form adds to the queue: a text between dollar quotes
goes up to the next quote with the same tag. `none` where the command has another form. -/
def insertedRow (d command : List Char) : Option (List Char × Option (List Char)) := do
  let values ← dropPrefix? (insertPrefix ++ d) command
  let (queryText, rest) ← splitAtDelim d values
  let second ← dropPrefix? ", ".toList rest
  let candidates ← readCandidates d second
  return (queryText, candidates)

/-! ### The worker -/

def explainPrefix : List Char := "EXPLAIN (FORMAT JSON) ".toList

/-- The command `nrim_worker_explain_total_cost` runs through SPI. -/
def explainCommand (queryText : List Char) : List Char := explainPrefix ++ queryText

def ToplevelStmt.explained (t : ToplevelStmt D) : ToplevelStmt D where
  text := explainPrefix ++ t.text
  stmt := t.stmt.map Stmt.explained
  text_ne_nil := by
    intro _
    exact List.append_ne_nil_of_left_ne_nil (by decide) _

/-- `EXPLAIN` in front of a source explains the first statement. -/
def Stmtmulti.explainFirst : Stmtmulti D → Stmtmulti D
  | toplevel t => toplevel t.explained
  | semicolon m t => semicolon m.explainFirst t

/-- The parser of the server, with what is used of its grammar: a derivation spells the source;
a statement stands for itself; and where the source begins with a SELECT, EXPLAIN may be put
before it. -/
structure RawParser (D : Type) where
  parse : List Char → Option (Stmtmulti D)
  source_eq : ∀ {src m}, parse src = some m → m.source = src
  parse_text : ∀ {src m t}, parse src = some m → t ∈ m.toplevels → t.stmt.isSome →
    parse t.text = some (.toplevel t)
  parse_explain : ∀ {src m s}, parse src = some m → m.first.stmt = some s →
    s.commandType = .cmdSelect → parse (explainCommand src) = some m.explainFirst

/-- **The statement is costed by itself**: the row in the queue holds its own text, and the
command of the worker is one EXPLAIN of it, which changes no data. -/
def Costed (parser : RawParser D) (rs : RawStmt D) (text candidates : List Char)
    (row : Option (List Char × Option (List Char))) : Prop :=
  row = some (text, candidatesText candidates) ∧
    ∃ m, parser.parse (explainCommand text) = some m ∧ m.stmts = [rs.stmt.explained] ∧
      m.effect = id

/-! ### Where the statements are -/

namespace ToplevelStmt

/-- The statement with its location and text, if there is one. -/
def located (t : ToplevelStmt D) (stmtLocation stmtLen : ℕ) : List (RawStmt D × List Char) :=
  (t.stmt.map fun s => (⟨s, stmtLocation, stmtLen⟩, t.text)).toList

theorem mem_located {t : ToplevelStmt D} {loc len : ℕ} {p : RawStmt D × List Char} :
    p ∈ t.located loc len ↔ t.stmt = some p.1.stmt ∧ p.1.stmtLocation = loc ∧
      p.1.stmtLen = len ∧ p.2 = t.text := by
  obtain ⟨⟨s, loc', len'⟩, text⟩ := p
  simp only [located, Option.mem_toList, map_eq_some_iff, Prod.mk.injEq, RawStmt.mk.injEq]
  constructor
  · rintro ⟨s', hs, ⟨rfl, rfl, rfl⟩, rfl⟩
    exact ⟨hs, rfl, rfl, rfl⟩
  · rintro ⟨hs, rfl, rfl, rfl⟩
    exact ⟨s, hs, ⟨rfl, rfl, rfl⟩, rfl⟩

end ToplevelStmt

namespace Stmtmulti

/-- The statements once the next semicolon has been read: each has its length. -/
def closed : Stmtmulti D → List (RawStmt D × List Char)
  | toplevel t => t.located 0 t.text.length
  | semicolon m t => m.closed ++ t.located (m.source.length + 1) t.text.length

theorem stmtLen_pos_of_mem_closed {m : Stmtmulti D} {p : RawStmt D × List Char}
    (h : p ∈ m.closed) : 0 < p.1.stmtLen := by
  have hpos : ∀ {t : ToplevelStmt D} {loc : ℕ}, p ∈ t.located loc t.text.length →
      0 < p.1.stmtLen := by
    intro t loc hp
    obtain ⟨hs, -, hlen, -⟩ := ToplevelStmt.mem_located.mp hp
    have hne := t.text_ne_nil (by rw [hs]; rfl)
    rw [hlen]
    exact length_pos_iff.mpr hne
  induction m with
  | toplevel t => exact hpos h
  | semicolon m t ih =>
    rcases mem_append.mp h with h | h
    · exact ih h
    · exact hpos h

end Stmtmulti

theorem updateLast_append_singleton (e : ℕ) (l : List (RawStmt D)) (rs : RawStmt D) :
    updateLast e (l ++ [rs]) = l ++ [updateRawStmtEnd rs e] := by
  induction l with
  | nil => rfl
  | cons a l ih =>
    cases l with
    | nil => rfl
    | cons b l =>
      rw [cons_append, cons_append] at ih ⊢
      rw [updateLast, ih]
      · rfl
      · simp

theorem updateLast_of_pos {e : ℕ} {l : List (RawStmt D)} (h : ∀ rs ∈ l, 0 < rs.stmtLen) :
    updateLast e l = l := by
  rcases eq_nil_or_concat l with rfl | ⟨l', rs, rfl⟩
  · rfl
  · have hrs : 0 < rs.stmtLen := h rs (by simp)
    rw [concat_eq_append, updateLast_append_singleton, updateRawStmtEnd, if_pos hrs]

namespace Stmtmulti

/-- **What a semicolon does to the statements before it.** -/
theorem updateLast_rawStmts (m : Stmtmulti D) :
    updateLast m.source.length m.rawStmts = m.closed.map Prod.fst := by
  induction m with
  | toplevel t =>
    cases hs : t.stmt with
    | none => simp [rawStmts, closed, ToplevelStmt.located, hs, updateLast]
    | some s =>
      simp [rawStmts, closed, ToplevelStmt.located, hs, updateLast, makeRawStmt,
        updateRawStmtEnd, source]
  | semicolon m t ih =>
    rw [rawStmts, ih, closed, map_append]
    cases hs : t.stmt with
    | none =>
      have hpos : ∀ rs ∈ m.closed.map Prod.fst, 0 < rs.stmtLen := by
        intro rs hrs
        obtain ⟨p, hp, rfl⟩ := mem_map.mp hrs
        exact stmtLen_pos_of_mem_closed hp
      simp [ToplevelStmt.located, hs, updateLast_of_pos hpos]
    | some s =>
      -- the new statement is the last one, and ends where the source ends
      have hlen : (semicolon m t).source.length - (m.source.length + 1) = t.text.length := by
        rw [source, length_append, length_cons]
        omega
      rw [Option.map_some, Option.toList_some, updateLast_append_singleton]
      simp [ToplevelStmt.located, hs, makeRawStmt, updateRawStmtEnd, hlen]

theorem texts_eq (m : Stmtmulti D) : m.texts = m.closed.map Prod.snd := by
  induction m with
  | toplevel t =>
    cases hs : t.stmt <;> simp [texts, toplevels, closed, ToplevelStmt.located, hs]
  | semicolon m t ih =>
    have happ : (semicolon m t).texts = m.texts ++ (t.stmt.map fun _ => t.text).toList := by
      cases hs : t.stmt <;> simp [texts, toplevels, filterMap_append, hs]
    rw [happ, ih, closed, map_append]
    cases hs : t.stmt <;> simp [ToplevelStmt.located, hs]

/-- The last statement is open; all others have their length. -/
theorem statements_semicolon (m : Stmtmulti D) (t : ToplevelStmt D) :
    (semicolon m t).statements = m.closed ++ t.located (m.source.length + 1) 0 := by
  symm
  apply zip_of_prod
  · rw [rawStmts, updateLast_rawStmts, map_append]
    cases hs : t.stmt <;> simp [ToplevelStmt.located, hs, makeRawStmt]
  · rw [texts_eq, closed, map_append, map_append]
    cases hs : t.stmt <;> simp [ToplevelStmt.located, hs]

theorem statements_toplevel (t : ToplevelStmt D) : (toplevel t).statements = t.located 0 0 := by
  symm
  apply zip_of_prod
  · cases hs : t.stmt <;> simp [rawStmts, ToplevelStmt.located, hs, makeRawStmt]
  · cases hs : t.stmt <;> simp [texts, toplevels, ToplevelStmt.located, hs]

/-- Where a statement stands in the source: `rest` follows it. -/
structure At (m : Stmtmulti D) (p : RawStmt D × List Char) (rest : List Char) : Prop where
  source_eq : ∃ pre, m.source = pre ++ (p.2 ++ rest) ∧ p.1.stmtLocation = pre.length
  mem : ∃ t ∈ m.toplevels, t.stmt = some p.1.stmt ∧ t.text = p.2

variable {p : RawStmt D × List Char} {m : Stmtmulti D} {t : ToplevelStmt D}

theorem At.semicolon {rest : List Char} (h : m.At p rest) (t : ToplevelStmt D) :
    (semicolon m t).At p (rest ++ ';' :: t.text) := by
  obtain ⟨⟨pre, hsrc, hloc⟩, t', ht', hstmt, htext⟩ := h
  refine ⟨⟨pre, ?_, hloc⟩, t', mem_append_left _ ht', hstmt, htext⟩
  rw [source, hsrc]
  simp only [append_assoc]

theorem at_toplevel {len : ℕ} (h : p ∈ t.located 0 len) : (toplevel t).At p [] := by
  obtain ⟨hs, hloc, -, htext⟩ := ToplevelStmt.mem_located.mp h
  refine ⟨⟨[], ?_, hloc⟩, t, mem_singleton_self t, hs, htext.symm⟩
  rw [source, htext, nil_append, append_nil]

theorem at_semicolon {len : ℕ} (h : p ∈ t.located (m.source.length + 1) len) :
    (Stmtmulti.semicolon m t).At p [] := by
  obtain ⟨hs, hloc, -, htext⟩ := ToplevelStmt.mem_located.mp h
  refine ⟨⟨m.source ++ [';'], ?_, ?_⟩, t, mem_append_right _ (mem_singleton_self t), hs, htext.symm⟩
  · rw [source, htext, append_nil, append_assoc, singleton_append]
  · rw [hloc, length_append, length_singleton]

theorem exists_at_of_mem_closed (h : p ∈ m.closed) :
    ∃ rest, m.At p rest ∧ p.1.stmtLen = p.2.length := by
  induction m with
  | toplevel t =>
    obtain ⟨-, -, hlen, htext⟩ := ToplevelStmt.mem_located.mp h
    exact ⟨[], at_toplevel h, by rw [hlen, htext]⟩
  | semicolon m t ih =>
    rcases mem_append.mp h with h | h
    · obtain ⟨rest, hat, hlen⟩ := ih h
      exact ⟨_, hat.semicolon t, hlen⟩
    · obtain ⟨-, -, hlen, htext⟩ := ToplevelStmt.mem_located.mp h
      exact ⟨[], at_semicolon h, by rw [hlen, htext]⟩

theorem exists_at_of_mem_statements (h : p ∈ m.statements) :
    ∃ rest, m.At p rest ∧ (0 < p.1.stmtLen ∧ p.1.stmtLen = p.2.length ∨
      p.1.stmtLen = 0 ∧ rest = []) := by
  cases m with
  | toplevel t =>
    rw [statements_toplevel] at h
    obtain ⟨-, -, hlen, -⟩ := ToplevelStmt.mem_located.mp h
    exact ⟨[], at_toplevel h, Or.inr ⟨hlen, rfl⟩⟩
  | semicolon m t =>
    rw [statements_semicolon] at h
    rcases mem_append.mp h with h | h
    · obtain ⟨rest, hat, hlen⟩ := exists_at_of_mem_closed h
      exact ⟨_, hat.semicolon t, Or.inl ⟨stmtLen_pos_of_mem_closed h, hlen⟩⟩
    · obtain ⟨-, -, hlen, -⟩ := ToplevelStmt.mem_located.mp h
      exact ⟨[], at_semicolon h, Or.inr ⟨hlen, rfl⟩⟩

end Stmtmulti

variable {p : RawStmt D × List Char} {m : Stmtmulti D}

/-- **The text the hook takes** is the text of the statement, unless the statement is at the
end of a source with something before it. -/
theorem getCurrentStatementText_eq_iff (h : p ∈ m.statements) :
    getCurrentStatementText m.source p.1 = p.2 ↔ (p.1.stmtLen = 0 → p.1.stmtLocation = 0) := by
  obtain ⟨rest, ⟨⟨pre, hsrc, hloc⟩, t, -, hstmt, htext⟩, hlen⟩ :=
    Stmtmulti.exists_at_of_mem_statements h
  have hne : p.2 ≠ [] := htext ▸ t.text_ne_nil (by rw [hstmt]; rfl)
  have hpos : 0 < p.2.length := length_pos_iff.mpr hne
  unfold getCurrentStatementText
  rcases hlen with ⟨hlpos, hlen⟩ | ⟨hzero, rfl⟩
  · -- the slice of the given length
    have hlt : p.1.stmtLocation < m.source.length := by
      rw [hsrc, hloc, length_append, length_append]
      omega
    have hmin : min p.1.stmtLen (m.source.length - p.1.stmtLocation) = p.2.length := by
      rw [hsrc, hloc, hlen, length_append, length_append]
      omega
    rw [if_pos ⟨hlpos, hlt⟩, hmin, hsrc, hloc, drop_left, take_left]
    exact ⟨fun _ h0 => absurd h0 hlpos.ne', fun _ => rfl⟩
  · -- the whole source
    rw [if_neg (by omega), hsrc, hloc, append_nil]
    constructor
    · intro heq _
      have hlen := congrArg List.length heq
      rw [length_append] at hlen
      omega
    · intro hpre
      rw [length_eq_zero_iff.mp (hpre hzero), nil_append]

/-! ### What the queue holds -/

@[simp] theorem dropPrefix?_append (pre l : List Char) : dropPrefix? pre (pre ++ l) = some l := by
  rw [dropPrefix?, if_pos (prefix_append pre l), drop_left]

theorem eq_append_of_dropPrefix? {pre l rest : List Char} (h : dropPrefix? pre l = some rest) :
    l = pre ++ rest := by
  unfold dropPrefix? at h
  split at h
  · next hpre =>
    cases h
    exact prefix_append_drop hpre
  · cases h

theorem dollarQuote_ne_nil (h : BitVec 32) : dollarQuote h ≠ [] := cons_ne_nil _ _

variable {c : Option (List Char)}

theorem eq_of_readCandidates {d rest : List Char}
    (h : readCandidates d rest = some c) : rest = candidatesValue d c := by
  unfold readCandidates at h
  split at h
  · next hnull =>
    cases h
    exact hnull
  · obtain ⟨body, hbody, h⟩ := bind_eq_some_iff.mp h
    obtain ⟨⟨x, close⟩, hsplit, h⟩ := bind_eq_some_iff.mp h
    dsimp only at h
    split at h
    · next hclose =>
      cases h
      rw [eq_append_of_dropPrefix? hbody, eq_append_of_split hsplit]
      exact congrArg (fun l => d ++ (x ++ (d ++ l))) hclose
    · cases h

theorem readCandidates_iff (h : BitVec 32) (c : Option (List Char)) :
    readCandidates (dollarQuote h) (candidatesValue (dollarQuote h) c) = some c ↔
      ∀ x ∈ c, ¬ ClosesEarly (dollarQuote h) x := by
  cases c with
  | none => simp [readCandidates, candidatesValue]
  | some x =>
    have hnull : candidatesValue (dollarQuote h) (some x) ≠ "NULL);".toList := by
      intro heq
      cases head_eq_of_cons_eq heq
    have hread : readCandidates (dollarQuote h) (candidatesValue (dollarQuote h) (some x)) =
        (splitAtDelim (dollarQuote h) (x ++ (dollarQuote h ++ ");".toList))).bind fun p =>
          if p.2 = ");".toList then some (some p.1) else none := by
      rw [readCandidates, if_neg hnull, candidatesValue, dropPrefix?_append]
      rfl
    rw [hread]
    simp only [Option.mem_def, some.injEq, forall_eq']
    rw [← split_append_iff (dollarQuote_ne_nil h) x ");".toList]
    constructor
    · intro hx
      obtain ⟨⟨v, close⟩, hsplit, hif⟩ := bind_eq_some_iff.mp hx
      split at hif
      · next hclose =>
        obtain rfl : v = x := some.inj (some.inj hif)
        obtain rfl : close = ");".toList := hclose
        exact hsplit
      · cases hif
    · intro hsplit
      rw [hsplit, bind_some, if_pos rfl]

theorem insertedRow_insertCommand (h : BitVec 32) (text : List Char) (c : Option (List Char)) :
    insertedRow (dollarQuote h) (insertCommand (dollarQuote h) text c) =
      (splitAtDelim (dollarQuote h) (text ++ (dollarQuote h ++
        (", ".toList ++ candidatesValue (dollarQuote h) c)))).bind fun p =>
        (dropPrefix? ", ".toList p.2).bind fun second =>
          (readCandidates (dollarQuote h) second).bind fun candidates =>
            some (p.1, candidates) := by
  rw [insertedRow, insertCommand, dropPrefix?_append]
  rfl

theorem eq_of_insertedRow {h : BitVec 32} {text v : List Char}
    (hrow : insertedRow (dollarQuote h) (insertCommand (dollarQuote h) text c) = some (v, c)) :
    v = text ∧ splitAtDelim (dollarQuote h) (text ++ (dollarQuote h ++
        (", ".toList ++ candidatesValue (dollarQuote h) c))) =
        some (text, ", ".toList ++ candidatesValue (dollarQuote h) c) ∧
      readCandidates (dollarQuote h) (candidatesValue (dollarQuote h) c) = some c := by
  rw [insertedRow_insertCommand] at hrow
  obtain ⟨⟨v', rest⟩, hsplit, hrow⟩ := bind_eq_some_iff.mp hrow
  obtain ⟨second, hsecond, hrow⟩ := bind_eq_some_iff.mp hrow
  obtain ⟨c', hread, heq⟩ := bind_eq_some_iff.mp hrow
  cases heq
  -- the two spellings of the command end alike, so they begin alike
  have hvalue := eq_of_readCandidates hread
  have hrest := eq_append_of_dropPrefix? hsecond
  dsimp only at hrest hread hsplit ⊢
  rw [hvalue] at hrest hread
  have happ := eq_append_of_split hsplit
  rw [hrest] at happ hsplit
  obtain rfl := append_cancel_right happ
  exact ⟨rfl, hsplit, hread⟩

/-- **The queue holds the text** exactly if no dollar quote is closed early. -/
theorem insertedRow_iff (h : BitVec 32) (text v : List Char) (c : Option (List Char)) :
    insertedRow (dollarQuote h) (insertCommand (dollarQuote h) text c) = some (v, c) ↔
      v = text ∧ ¬ ClosesEarly (dollarQuote h) text ∧ ∀ x ∈ c, ¬ ClosesEarly (dollarQuote h) x := by
  have hd := dollarQuote_ne_nil h
  constructor
  · intro hrow
    obtain ⟨hv, hsplit, hread⟩ := eq_of_insertedRow hrow
    exact ⟨hv, (split_append_iff hd _ _).mp hsplit, (readCandidates_iff h c).mp hread⟩
  · rintro ⟨rfl, htext, hc⟩
    rw [insertedRow_insertCommand, (split_append_iff hd _ _).mpr htext, bind_some]
    rw [dropPrefix?_append, bind_some, (readCandidates_iff h c).mpr hc, bind_some]

/-! ### When a statement is costed by itself -/

theorem of_postParseAnalyze {cfg : HookConfig} {source : List Char} {rs : RawStmt D}
    {text candidates : List Char}
    (h : postParseAnalyze cfg source rs = some (text, candidates)) :
    rs.stmt.commandType = .cmdSelect ∧ text = getCurrentStatementText source rs := by
  -- each test either gives up or leaves the text alone
  simp only [postParseAnalyze, ite_none_left_eq_some] at h
  obtain ⟨hselect, -, -, -, -, -, -, h⟩ := h
  obtain ⟨c, -, heq⟩ := map_eq_some_iff.mp h
  exact ⟨not_not.mp hselect, (Prod.mk.inj heq).1.symm⟩

theorem parse_explainCommand (parser : RawParser D) {src : List Char}
    (hparse : parser.parse src = some m) (hp : p ∈ m.statements)
    (hselect : p.1.stmt.commandType = .cmdSelect) :
    ∃ m', parser.parse (explainCommand p.2) = some m' ∧ m'.stmts = [p.1.stmt.explained] ∧
      m'.effect = id := by
  obtain ⟨rest, ⟨-, t, ht, hstmt, htext⟩, -⟩ := Stmtmulti.exists_at_of_mem_statements hp
  have hone := parser.parse_text hparse ht (by rw [hstmt]; rfl)
  have hexplain := parser.parse_explain hone hstmt hselect
  rw [htext] at hexplain
  have hstmts : (Stmtmulti.toplevel t).explainFirst.stmts = [p.1.stmt.explained] := by
    simp [Stmtmulti.stmts, Stmtmulti.explainFirst, Stmtmulti.toplevels, ToplevelStmt.explained,
      hstmt]
  refine ⟨_, hexplain, hstmts, ?_⟩
  funext d
  rw [Stmtmulti.effect, hstmts]
  rfl

/-- **When the costing leaves the data alone.** For every source, every statement of it and
every hash: where the hook enqueues the statement, its own text gets into the queue and the
worker runs a single EXPLAIN of it exactly when the statement is followed by a semicolon or is
at the start of the source, and neither the text nor the candidates close the dollar quotes
early. -/
theorem costed_iff (parser : RawParser D) (hashAny : List Char → BitVec 32) {cfg : HookConfig}
    {src : List Char} {m : Stmtmulti D} (hparse : parser.parse src = some m)
    {rs : RawStmt D} {own : List Char} (hmem : (rs, own) ∈ m.statements)
    {text candidates : List Char}
    (hhook : postParseAnalyze cfg src rs = some (text, candidates)) :
    Costed parser rs own candidates (insertedRow (dollarQuote (hashAny text))
        (nrimEnqueueWorkItem hashAny text candidates)) ↔
      (rs.stmtLen = 0 → rs.stmtLocation = 0) ∧
        ¬ ClosesEarly (dollarQuote (hashAny text)) text ∧
        ¬ ClosesEarly (dollarQuote (hashAny text)) candidates := by
  obtain ⟨hselect, htext⟩ := of_postParseAnalyze hhook
  have hown := getCurrentStatementText_eq_iff hmem
  rw [parser.source_eq hparse, ← htext] at hown
  -- the empty text closes nothing, so it may stand for NULL
  have hcand : (∀ x ∈ candidatesText candidates, ¬ ClosesEarly (dollarQuote (hashAny text)) x) ↔
      ¬ ClosesEarly (dollarQuote (hashAny text)) candidates := by
    unfold candidatesText
    split
    · next hnil =>
      subst hnil
      simp [ClosesEarly]
    · simp
  rw [Costed, nrimEnqueueWorkItem, insertedRow_iff, hcand, ← hown]
  constructor
  · rintro ⟨⟨rfl, hearly⟩, -⟩
    exact ⟨rfl, hearly⟩
  · rintro ⟨rfl, hearly⟩
    exact ⟨⟨rfl, hearly⟩, parse_explainCommand parser hparse hmem hselect⟩

/-! ### A parser without quotes

A grammar in which every semicolon separates, with two kinds of statements over a table with the
columns `a` and `b`, whose rows are counted. A SELECT has an index candidate if it looks for a value
of `b`. -/

namespace Stmtmulti

/-- A derivation continued by further statements. -/
def continued (m : Stmtmulti D) (ts : List (ToplevelStmt D)) : Stmtmulti D :=
  ts.foldl semicolon m

section

variable (m : Stmtmulti D) (ts : List (ToplevelStmt D))

theorem source_continued :
    (m.continued ts).source = m.source ++ ts.flatMap fun t => ';' :: t.text := by
  induction ts generalizing m with
  | nil => exact (append_nil _).symm
  | cons t ts ih =>
    rw [continued, foldl_cons, ← continued, ih, source, flatMap_cons, append_assoc]

theorem toplevels_continued : (m.continued ts).toplevels = m.toplevels ++ ts := by
  induction ts generalizing m with
  | nil => exact (append_nil _).symm
  | cons t ts ih =>
    rw [continued, foldl_cons, ← continued, ih, toplevels, append_assoc, singleton_append]

theorem first_continued : (m.continued ts).first = m.first := by
  induction ts generalizing m with
  | nil => rfl
  | cons t ts ih => rw [continued, foldl_cons, ← continued, ih, first]

theorem explainFirst_continued : (m.continued ts).explainFirst = m.explainFirst.continued ts := by
  induction ts generalizing m with
  | nil => rfl
  | cons t ts ih =>
    rw [continued, foldl_cons, ← continued, ih, explainFirst, continued, continued, foldl_cons]

end

end Stmtmulti

/-- The text up to the first semicolon, and the texts behind each of the semicolons. -/
def segments : List Char → List Char × List (List Char)
  | [] => ([], [])
  | c :: l =>
    if c = ';' then ([], (segments l).1 :: (segments l).2)
    else (c :: (segments l).1, (segments l).2)

theorem segments_append {p : List Char} (h : ';' ∉ p) (l : List Char) :
    segments (p ++ l) = (p ++ (segments l).1, (segments l).2) := by
  induction p with
  | nil => rfl
  | cons c p ih =>
    have hc : c ≠ ';' := fun hc => h (hc ▸ mem_cons_self)
    have hp : ';' ∉ p := fun hp => h (mem_cons_of_mem c hp)
    rw [cons_append, segments, if_neg hc, ih hp, cons_append]

theorem segments_of_not_mem {s : List Char} (h : ';' ∉ s) : segments s = (s, []) := by
  have hs := segments_append h []
  rwa [append_nil, segments, append_nil] at hs

theorem not_mem_segments (l : List Char) :
    ';' ∉ (segments l).1 ∧ ∀ s ∈ (segments l).2, ';' ∉ s := by
  induction l with
  | nil => simp [segments]
  | cons c l ih =>
    rw [segments]
    split
    · exact ⟨not_mem_nil, forall_mem_cons.mpr ih⟩
    · next hc => exact ⟨not_mem_cons_of_ne_of_not_mem (Ne.symm hc) ih.1, ih.2⟩

theorem append_segments (l : List Char) :
    (segments l).1 ++ (segments l).2.flatMap (fun s => ';' :: s) = l := by
  induction l with
  | nil => rfl
  | cons c l ih =>
    rw [segments]
    split
    · next hc =>
      rw [hc, nil_append, flatMap_cons, cons_append, ih]
    · rw [cons_append, ih]

/-- What `nrim_build_candidates_json` makes of a predicate on `b`. -/
def candidateB : List Char := "[\x7b\"relid\":16384,\"cols\":[2]\x7d]".toList

/-- A SELECT, or else a DELETE of all rows, if the text is not blank. -/
def readStatement (text : List Char) : Option (Stmt ℕ) :=
  if isSelectStatementText text then
    some ⟨.cmdSelect, true, if " WHERE b = 1".toList.isSuffixOf text then some candidateB else none,
      id⟩
  else if text.all isspace then none
  else some ⟨.cmdDelete, true, none, fun _ => 0⟩

def readToplevel (text : List Char) : ToplevelStmt ℕ where
  text := text
  stmt :=
    match dropPrefix? explainPrefix text with
    | some rest => (readStatement rest).map Stmt.explained
    | none => readStatement text
  text_ne_nil := by
    rintro h rfl
    cases h

theorem readToplevel_explain {text : List Char} {s : Stmt ℕ}
    (h : (readToplevel text).stmt = some s) (hs : s.commandType = .cmdSelect) :
    readToplevel (explainPrefix ++ text) = (readToplevel text).explained := by
  have hread : (readToplevel text).stmt = readStatement text := by
    unfold readToplevel at h ⊢
    dsimp only at h ⊢
    split at h
    · -- what is behind EXPLAIN is no SELECT
      obtain ⟨s', -, rfl⟩ := map_eq_some_iff.mp h
      cases hs
    · rfl
  apply ToplevelStmt.ext
  · rfl
  · change (readToplevel (explainPrefix ++ text)).stmt = (readToplevel text).stmt.map Stmt.explained
    rw [hread]
    simp [readToplevel, dropPrefix?_append]

/-- The parser that splits at every semicolon. -/
def splittingParser : RawParser ℕ where
  parse src := some ((Stmtmulti.toplevel (readToplevel (segments src).1)).continued
    ((segments src).2.map readToplevel))
  source_eq := by
    rintro src m ⟨⟩
    rw [Stmtmulti.source_continued, Stmtmulti.source, List.flatMap_map]
    exact append_segments src
  parse_text := by
    rintro src m t ⟨⟩ ht -
    have hseg : ∃ s, ';' ∉ s ∧ t = readToplevel s := by
      rw [Stmtmulti.toplevels_continued] at ht
      rcases List.mem_append.mp ht with ht | ht
      · exact ⟨_, (not_mem_segments src).1, List.mem_singleton.mp ht⟩
      · obtain ⟨s, hs, rfl⟩ := List.mem_map.mp ht
        exact ⟨s, (not_mem_segments src).2 s hs, rfl⟩
    obtain ⟨s, hs, rfl⟩ := hseg
    change some ((Stmtmulti.toplevel (readToplevel (segments s).1)).continued
      ((segments s).2.map readToplevel)) = _
    rw [segments_of_not_mem hs]
    rfl
  parse_explain := by
    rintro src m s ⟨⟩ hfirst hselect
    rw [Stmtmulti.first_continued, Stmtmulti.first] at hfirst
    rw [explainCommand, segments_append (by decide), Stmtmulti.explainFirst_continued,
      Stmtmulti.explainFirst, readToplevel_explain hfirst hselect]

/-- A SELECT that a semicolon follows, and a DELETE before it. -/
def terminatedSource : List Char := "DELETE FROM t; SELECT a FROM t WHERE b = 1;".toList

def reactiveConfig : HookConfig := ⟨"reactive", true, false⟩

/-- The SELECT is costed by itself. -/
theorem costed_terminated_select :
    ∃ m rs own, splittingParser.parse terminatedSource = some m ∧ (rs, own) ∈ m.statements ∧
      postParseAnalyze reactiveConfig terminatedSource rs = some (own, candidateB) ∧
      Costed splittingParser rs own candidateB (insertedRow (dollarQuote 7)
        (nrimEnqueueWorkItem (fun _ => 7) own candidateB)) := by
  have hhook : postParseAnalyze reactiveConfig terminatedSource
      (⟨⟨.cmdSelect, true, some candidateB, id⟩, 14, 28⟩ : RawStmt ℕ) =
      some (" SELECT a FROM t WHERE b = 1".toList, candidateB) := by decide +kernel
  refine ⟨_, _, _, rfl, ?_, hhook, ?_⟩
  · exact mem_cons_of_mem _ mem_cons_self
  · exact (costed_iff splittingParser (fun _ => 7) rfl
      (mem_cons_of_mem _ mem_cons_self) hhook).mpr (by decide +kernel)

/-- Two SELECTs with a DELETE between them; nothing follows the last one. -/
def openSource : List Char :=
  "SELECT a FROM t; DELETE FROM t; SELECT b FROM t WHERE b = 1".toList

/-- **A DELETE is executed.** Of the last SELECT the hook enqueues the whole source, and the
worker explains the first SELECT and executes the DELETE: of five rows none is left. -/
theorem costing_executes_delete :
    ∃ m rs own, splittingParser.parse openSource = some m ∧ (rs, own) ∈ m.statements ∧
      own = " SELECT b FROM t WHERE b = 1".toList ∧
      postParseAnalyze reactiveConfig openSource rs = some (openSource, candidateB) ∧
      insertedRow (dollarQuote 7) (nrimEnqueueWorkItem (fun _ => 7) openSource candidateB) =
        some (openSource, some candidateB) ∧
      ∃ m', splittingParser.parse (explainCommand openSource) = some m' ∧
        m'.stmts.map (·.commandType) = [.cmdUtility, .cmdDelete, .cmdSelect] ∧
        m'.effect 5 = 0 := by
  have hhook : postParseAnalyze reactiveConfig openSource
      (⟨⟨.cmdSelect, true, some candidateB, id⟩, 31, 0⟩ : RawStmt ℕ) =
      some (openSource, candidateB) := by decide +kernel
  refine ⟨_, _, _, rfl, ?_, rfl, hhook, by decide +kernel, _, rfl, by decide +kernel,
    by decide +kernel⟩
  exact mem_cons_of_mem _ (mem_cons_of_mem _ mem_cons_self)

end NeurDB.IndexManagement
