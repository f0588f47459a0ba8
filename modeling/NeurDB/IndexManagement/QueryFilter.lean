import Mathlib.Data.List.Basic

/-!
# Which queries are intercepted

`query_references_only_user_tables` decides whether a query is looked at: its relations are to lie
in schemas that are not the system's. It walks the range table and the subqueries in `FROM`. It does
not walk the list of common table expressions, nor the expressions, where sublinks hide queries of
their own; so what it answers is about the relations *in `FROM`* only (`onlyUserTables_iff`), and
the answer is right for the whole query exactly if no system relation occurs elsewhere alone
(`only_user_tables_iff`).
-/

namespace NeurDB.IndexManagement

abbrev Oid := ℕ

mutual

/-- An analyzed query. `exprs` are its expressions: the target list, the conditions of joins and
`WHERE`, `HAVING`, limits. -/
structure Query where
  rtable : List RangeTblEntry
  cteList : List Query
  exprs : List Expr

inductive RangeTblEntry where
  | null
  | relation (relid : Oid)
  | subquery (query : Query)
  /-- Joins, functions, `VALUES` and references to common table expressions, with the expressions
  in them. -/
  | other (exprs : List Expr)

inductive Expr where
  | subLink (testexpr : Expr) (subselect : Query)
  | other (args : List Expr)

end

/-- `is_system_schema_name`; `none` is the null pointer. -/
def isSystemSchemaName : Option (List Char) → Bool
  | none => true
  | some nspname =>
    nspname == "pg_catalog".toList || nspname == "information_schema".toList ||
      nspname == "nrim".toList ||
      "pg_".toList.isPrefixOf nspname && !"pg_temp".toList.isPrefixOf nspname

section Filter

variable (namespaceName : Oid → Option (List Char))

mutual

/-- `query_references_only_user_tables`, given the name of the schema of each relation. -/
def queryReferencesOnlyUserTables : Query → Bool
  | ⟨rtable, _, _⟩ => entriesReferenceOnlyUserTables rtable

/-- Its loop over the range table. -/
def entriesReferenceOnlyUserTables : List RangeTblEntry → Bool
  | [] => true
  | .relation relid :: rtable =>
    -- an invalid oid is passed over
    if relid = 0 then entriesReferenceOnlyUserTables rtable
    else match namespaceName relid with
      | none => false
      | some nspname =>
        if isSystemSchemaName (some nspname) then false else entriesReferenceOnlyUserTables rtable
  | .subquery query :: rtable =>
    if queryReferencesOnlyUserTables query then entriesReferenceOnlyUserTables rtable else false
  | .null :: rtable | .other _ :: rtable => entriesReferenceOnlyUserTables rtable

end

/-- The relation lies in a schema that is not a system schema. -/
def UserTable (relid : Oid) : Prop :=
  ∃ nspname, namespaceName relid = some nspname ∧ isSystemSchemaName (some nspname) = false

end Filter

/-! ### References -/

mutual

/-- The query refers to the relation somewhere. -/
inductive Query.Refers (relid : Oid) : Query → Prop
  | entry {q : Query} {rte : RangeTblEntry} : rte ∈ q.rtable → rte.Refers relid → q.Refers relid
  | cte {q query : Query} : query ∈ q.cteList → query.Refers relid → q.Refers relid
  | expr {q : Query} {e : Expr} : e ∈ q.exprs → e.Refers relid → q.Refers relid

inductive RangeTblEntry.Refers (relid : Oid) : RangeTblEntry → Prop
  | relation : relid ≠ 0 → (RangeTblEntry.relation relid).Refers relid
  | subquery {query : Query} : query.Refers relid → (RangeTblEntry.subquery query).Refers relid
  | expr {exprs : List Expr} {e : Expr} :
      e ∈ exprs → e.Refers relid → (RangeTblEntry.other exprs).Refers relid

inductive Expr.Refers (relid : Oid) : Expr → Prop
  | testexpr {e : Expr} {query : Query} : e.Refers relid → (Expr.subLink e query).Refers relid
  | subselect {e : Expr} {query : Query} : query.Refers relid → (Expr.subLink e query).Refers relid
  | arg {args : List Expr} {e : Expr} : e ∈ args → e.Refers relid → (Expr.other args).Refers relid

end

/-- The entry refers to the relation, itself or through subqueries in `FROM`. -/
inductive RangeTblEntry.RefersInFrom (relid : Oid) : RangeTblEntry → Prop
  | relation : relid ≠ 0 → (RangeTblEntry.relation relid).RefersInFrom relid
  | subquery {query : Query} {rte : RangeTblEntry} : rte ∈ query.rtable → rte.RefersInFrom relid →
      (RangeTblEntry.subquery query).RefersInFrom relid

def Query.RefersInFrom (relid : Oid) (q : Query) : Prop := ∃ rte ∈ q.rtable, rte.RefersInFrom relid

/-! ### The check -/

section Check

variable (namespaceName : Oid → Option (List Char))

/-- The entry refers to user tables only, as far as `FROM` goes. -/
def OnlyUserTables (rte : RangeTblEntry) : Prop :=
  ∀ relid, rte.RefersInFrom relid → UserTable namespaceName relid

theorem onlyUserTables_relation (relid : Oid) :
    OnlyUserTables namespaceName (.relation relid) ↔
      (relid ≠ 0 → UserTable namespaceName relid) := by
  constructor
  · exact fun h hne => h relid (.relation hne)
  · rintro h _ ⟨hne⟩
    exact h hne

theorem onlyUserTables_subquery (query : Query) :
    OnlyUserTables namespaceName (.subquery query) ↔
      ∀ rte ∈ query.rtable, OnlyUserTables namespaceName rte := by
  constructor
  · exact fun h rte hrte relid hrefers => h relid (.subquery hrte hrefers)
  · rintro h relid ⟨⟩
    exact h _ ‹_› relid ‹_›

mutual

/-- **What the check answers**: the relations in `FROM` are user tables. -/
theorem onlyUserTables_iff : ∀ q : Query, queryReferencesOnlyUserTables namespaceName q = true ↔
    ∀ rte ∈ q.rtable, OnlyUserTables namespaceName rte
  | ⟨rtable, _, _⟩ => by
    rw [queryReferencesOnlyUserTables]
    exact entriesOnlyUserTables_iff rtable

theorem entriesOnlyUserTables_iff : ∀ rtable : List RangeTblEntry,
    entriesReferenceOnlyUserTables namespaceName rtable = true ↔
      ∀ rte ∈ rtable, OnlyUserTables namespaceName rte
  | [] => by simp [entriesReferenceOnlyUserTables]
  | .relation relid :: rtable => by
    rw [List.forall_mem_cons, ← entriesOnlyUserTables_iff rtable, onlyUserTables_relation,
      entriesReferenceOnlyUserTables]
    split
    · next hzero => simp [hzero]
    · next hne => cases hname : namespaceName relid <;> simp [UserTable, hne, hname]
  | .subquery query :: rtable => by
    rw [List.forall_mem_cons, ← entriesOnlyUserTables_iff rtable, onlyUserTables_subquery,
      ← onlyUserTables_iff query]
    simp [entriesReferenceOnlyUserTables]
  | .null :: rtable => by
    rw [List.forall_mem_cons, ← entriesOnlyUserTables_iff rtable, entriesReferenceOnlyUserTables]
    exact (and_iff_right nofun).symm
  | .other _ :: rtable => by
    rw [List.forall_mem_cons, ← entriesOnlyUserTables_iff rtable, entriesReferenceOnlyUserTables]
    exact (and_iff_right nofun).symm

end

/-- **The answer is right for the whole query** exactly if a system relation is found in `FROM`, or
every relation that does not occur in `FROM` is a user table. -/
theorem only_user_tables_iff (q : Query) :
    (queryReferencesOnlyUserTables namespaceName q = true →
        ∀ relid, q.Refers relid → UserTable namespaceName relid) ↔
      (∃ relid, q.RefersInFrom relid ∧ ¬ UserTable namespaceName relid) ∨
        ∀ relid, q.Refers relid → ¬ q.RefersInFrom relid → UserTable namespaceName relid := by
  have hcheck : queryReferencesOnlyUserTables namespaceName q = true ↔
      ∀ relid, q.RefersInFrom relid → UserTable namespaceName relid := by
    rw [onlyUserTables_iff]
    exact ⟨fun h relid ⟨rte, hrte, hrefers⟩ => h rte hrte relid hrefers,
      fun h rte hrte relid hrefers => h relid ⟨rte, hrte, hrefers⟩⟩
  rw [hcheck]
  constructor
  · intro h
    by_cases hfrom : ∀ relid, q.RefersInFrom relid → UserTable namespaceName relid
    · exact .inr fun relid hrefers _ => h hfrom relid hrefers
    · exact .inl (by simpa only [not_forall, exists_prop] using hfrom)
  · rintro (⟨relid, hrefers, hsystem⟩ | h) hfrom
    · exact absurd (hfrom relid hrefers) hsystem
    · intro relid hrefers
      by_cases hin : q.RefersInFrom relid
      · exact hfrom relid hin
      · exact h relid hrefers hin

end Check

/-- `SELECT (SELECT … FROM pg_class)`. -/
def catalogQuery : Query := ⟨[], [], [.subLink (.other []) ⟨[.relation 1259], [], []⟩]⟩

/-- It passes: the relation is in a sublink. -/
theorem catalog_query_intercepted :
    queryReferencesOnlyUserTables (fun _ => some "pg_catalog".toList) catalogQuery = true ∧
      catalogQuery.Refers 1259 ∧ ¬ UserTable (fun _ => some "pg_catalog".toList) 1259 := by
  refine ⟨by decide +kernel, ?_, ?_⟩
  · refine .expr List.mem_cons_self (.subselect (.entry List.mem_cons_self (.relation ?_)))
    decide
  · rintro ⟨_, hname, hsystem⟩
    cases hname
    revert hsystem
    decide +kernel

end NeurDB.IndexManagement
