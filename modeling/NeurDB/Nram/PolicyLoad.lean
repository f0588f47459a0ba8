import NeurDB.Nram.PolicyFile

/-!
# Failed policy loads

`load_agent_function` of `nram_xact/action.c` as a whole: the checks of its argument, the built-in
policies `2pl` and `occ`, and the loop of `PolicyFile`. The loop stores each line in the shared
table as soon as it is read, and an error at a later line does not take it back.

`failed_load_keeps_lines_before` says what an error leaves of the table.

Both hold for any conversion `%lf`.
-/

namespace NeurDB.Nram

open Scanf

/-! ### The call -/

inductive AgentError where
  | notInitialized
  | invalidFilename
  | couldNotOpen (filename : String)
  | line (e : LoadError)
  deriving DecidableEq

/-- `DEFAULT_WAIT_MS`. -/
def defaultWaitMs : BitVec 32 := 1000

/-- The built-in policies: every entry the same, with or without advisory locks. -/
def builtinPolicy (detectAll : Bool) : Policy := fun _ => ⟨detectAll, .finite 0, defaultWaitMs⟩

/-- `pg_strcasecmp(s, t) == 0`, for a lower-case ASCII text `t`. -/
def strcaseEq (s t : String) : Bool := s.toLower = t

section Call

variable {α : Type} (lf : List Char → Option (α × List Char)) (strtod : α → Priority)

/-- `load_agent_function`: the table behind `GlobalCachedAgentFunc` afterwards, and the error. The
file system is what `fopen` finds under a name. -/
def callLoadAgentFunction (files : String → Option (List Char)) (filename : Option String)
    (cache : Option Policy) : Option Policy × Option AgentError :=
  match cache, filename with
  | none, _ => (none, some .notInitialized)
  | some act, none => (some act, some .invalidFilename)
  | some act, some name =>
    if name = "" then (some act, some .invalidFilename)
    else if strcaseEq name "2pl" then (some (builtinPolicy true), none)
    else if strcaseEq name "occ" then (some (builtinPolicy false), none)
    else
      match files name with
      | none => (some act, some (.couldNotOpen name))
      | some text =>
        let r := loadAgentFunction lf strtod name act text
        (some r.1, r.2.map .line)

/-! ### The lines before an error -/

/-- The load fails at a line: the lines before it are loaded, and then the line is refused. -/
structure FailsAt (name : String) (act : Policy) (lines : List (List Char)) (n : ℕ) (s : Loader)
    (e : LoadError) : Prop where
  before : loadLines lf strtod name ⟨act, 0, 0⟩ (lines.take n) = (s, none)
  refused : ∃ line, lines[n]? = some line ∧ loadLine lf strtod name s line = .error e

variable {lf strtod} {lines : List (List Char)} {name : String}

/-- By induction on the lines: an error of the loop is the error of one line, after the lines before
it were loaded. -/
theorem loadLines_error {s s' : Loader} {e : LoadError}
    (h : loadLines lf strtod name s lines = (s', some e)) :
    ∃ n line, loadLines lf strtod name s (lines.take n) = (s', none) ∧ lines[n]? = some line ∧
      loadLine lf strtod name s' line = .error e := by
  induction lines generalizing s with
  | nil => cases h
  | cons line lines ih =>
    rw [loadLines] at h
    cases hline : loadLine lf strtod name s line with
    | ok s₁ =>
      rw [hline] at h
      obtain ⟨n, line', hbefore, hget, hrefused⟩ := ih h
      refine ⟨n + 1, line', ?_, hget, hrefused⟩
      rw [List.take_succ_cons, loadLines, hline]
      exact hbefore
    | error e' =>
      rw [hline] at h
      obtain ⟨rfl, he⟩ := Prod.mk.inj h
      cases he
      exact ⟨0, line, rfl, rfl, hline⟩

theorem loadLines_skipped {s s' : Loader} (hskip : ∀ line ∈ lines, Skipped (line.dropWhile isBlank))
    (h : loadLines lf strtod name s lines = (s', none)) : s'.act = s.act := by
  induction lines generalizing s with
  | nil =>
    obtain ⟨rfl, -⟩ := Prod.mk.inj h
    rfl
  | cons line lines ih =>
    rw [loadLines, loadLine_skipped rfl (hskip line List.mem_cons_self)] at h
    exact ih (s := { s with lineno := s.lineno + 1 })
      (fun l hl => hskip l (List.mem_cons_of_mem _ hl)) h

theorem unread {cache cache' : Option Policy} {e e₀ : AgentError}
    (h : (cache, some e₀) = (cache', some e)) (hline : ∀ e', e₀ ≠ .line e') :
    cache' = cache ∧ ∀ e', e ≠ .line e' := by
  obtain ⟨rfl, he⟩ := Prod.mk.inj h
  cases he
  exact ⟨rfl, hline⟩

/-- **Failed loads.** Either the file was not read, and the table is as it was; or a line was
refused, and the table is what the lines before it made of it. If these are all comments and blank
lines, that is the table as it was. -/
theorem failed_load_keeps_lines_before {files : String → Option (List Char)}
    {filename : Option String} {cache cache' : Option Policy} {e : AgentError}
    (h : callLoadAgentFunction lf strtod files filename cache = (cache', some e)) :
    (cache' = cache ∧ ∀ e', e ≠ .line e') ∨
      ∃ act name text n s e', cache = some act ∧ filename = some name ∧ files name = some text ∧
        e = .line e' ∧ FailsAt lf strtod name act (readLines text) n s e' ∧ cache' = some s.act ∧
        ((∀ line ∈ (readLines text).take n, Skipped (line.dropWhile isBlank)) →
          cache' = cache) := by
  cases cache with
  | none =>
    exact .inl (unread h (by simp))
  | some act =>
    cases filename with
    | none =>
      exact .inl (unread h (by simp))
    | some name =>
      simp only [callLoadAgentFunction] at h
      split at h
      · exact .inl (unread h (by simp))
      split at h
      · cases h
      split at h
      · cases h
      cases htext : files name with
      | none =>
        rw [htext] at h
        exact .inl (unread h (by simp))
      | some text =>
        rw [htext] at h
        obtain ⟨hact, he⟩ := Prod.mk.inj h
        obtain ⟨e', he', rfl⟩ := Option.map_eq_some_iff.mp he
        have hrun : loadLines lf strtod name ⟨act, 0, 0⟩ (readLines text) =
            ((loadLines lf strtod name ⟨act, 0, 0⟩ (readLines text)).1, some e') :=
          Prod.ext rfl he'
        obtain ⟨n, line, hbefore, hget, hrefused⟩ := loadLines_error hrun
        refine .inr ⟨act, name, text, n, _, e', rfl, rfl, htext, rfl,
          ⟨hbefore, line, hget, hrefused⟩, hact.symm, fun hskip => ?_⟩
        rw [← hact]
        exact congrArg some (loadLines_skipped hskip hbefore)

end Call

/-! ### A file whose second line is refused -/

/-- A file with an entry and then a line that is none. -/
def halfFile : List Char := "0 1 5 20\nx\n".toList

/-- The file system with the one file. -/
def oneFile (name : String) : Option (List Char) := if name = "policy" then some halfFile else none

def firstLine : List Char := "0 1 5 20\n".toList

def secondLine : List Char := "x\n".toList

/-- The table that the first line leaves. -/
def halfPolicy : Policy := Function.update (builtinPolicy false) 0 ⟨true, .finite 5, 20⟩

theorem readLines_halfFile : readLines halfFile = [firstLine, secondLine] := by decide

theorem loadLine_firstLine (act : Policy) :
    loadLine scanDecimal Priority.finite "policy" ⟨act, 0, 0⟩ firstLine =
      .ok ⟨Function.update act 0 ⟨true, .finite 5, 20⟩, 0, 1⟩ := by
  have hskip : ¬ Skipped firstLine := by
    unfold Skipped
    decide
  have hscan : scanFour scanDecimal firstLine = some (0, 1, 5, 20) := by decide +kernel
  rw [loadLine_scanFour (by decide : firstLine.dropWhile isBlank = firstLine) hskip hscan]
  rfl

theorem call_halfFile :
    callLoadAgentFunction scanDecimal Priority.finite oneFile (some "policy")
        (some (builtinPolicy false)) =
      (some halfPolicy, some (.line (.malformedLine 2 "policy"))) := by
  have hrun : loadLines scanDecimal Priority.finite "policy" ⟨builtinPolicy false, 0, 0⟩
      (readLines halfFile) = (⟨halfPolicy, 0, 1⟩, some (.malformedLine 2 "policy")) := by
    rw [readLines_halfFile, loadLines, loadLine_firstLine]
    rfl
  have hload : loadAgentFunction scanDecimal Priority.finite "policy" (builtinPolicy false)
      halfFile = (halfPolicy, some (.malformedLine 2 "policy")) := by
    show (fun r : Loader × Option LoadError => (r.1.act, r.2)) (loadLines scanDecimal
      Priority.finite "policy" ⟨builtinPolicy false, 0, 0⟩ (readLines halfFile)) = _
    rw [hrun]
  have hbuiltin : strcaseEq "policy" "2pl" = false ∧ strcaseEq "policy" "occ" = false := by
    decide +kernel
  have hfile : oneFile "policy" = some halfFile := if_pos rfl
  simp only [callLoadAgentFunction, hbuiltin.1, hbuiltin.2, hfile, hload]
  rfl

/-- The first line was stored when the second one is refused. -/
theorem half_loaded_policy :
    callLoadAgentFunction scanDecimal Priority.finite oneFile (some "policy")
        (some (builtinPolicy false)) =
      (some halfPolicy, some (.line (.malformedLine 2 "policy"))) ∧
    halfPolicy ≠ builtinPolicy false := by
  refine ⟨call_halfFile, fun h => ?_⟩
  have hdetect : (halfPolicy 0).detectAll = (builtinPolicy false 0).detectAll := by rw [h]
  cases hdetect

/-- It is what the line before the refused one made of the table. -/
theorem half_loaded_before :
    ∃ n s, FailsAt scanDecimal Priority.finite "policy" (builtinPolicy false)
      (readLines halfFile) n s (.malformedLine 2 "policy") ∧ s.act = halfPolicy := by
  obtain ⟨-, hline⟩ | ⟨act, name, text, n, s, e', hcache, hname, htext, he, hfails, hact, -⟩ :=
    failed_load_keeps_lines_before call_halfFile
  · exact absurd rfl (hline _)
  · cases hcache
    cases hname
    obtain rfl : halfFile = text := Option.some.inj htext
    obtain rfl := AgentError.line.inj he
    exact ⟨n, s, hfails, (Option.some.inj hact).symm⟩

end NeurDB.Nram
