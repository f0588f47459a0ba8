import NeurDB.Framework.Scanf
import NeurDB.Nram.Policy

/-!
# Policy files

`load_agent_function` of `nram_xact/action.c`. A policy file has a line for each entry: either
`idx detect priority timeout`, or `detect priority timeout` for the next entry in turn. The loader
tries four fields first and then three. But a conversion of `sscanf` takes as much of a field as
it can read, and leaves the rest to the next one: of a priority `3.14` the second `%u` takes the
`3`, and `%lf` finds `.14`. So a line of three fields is taken for one of four if there are digits
on both sides of the point of its priority.

A `Char` is one byte: of a text in UTF-8, say, each byte is a character of its own. The conversion
`%lf` is a parameter of the loader, and so is the rounding to a `double`.
-/

namespace NeurDB.Nram

open Function List
open Option (getD_some map_some mem_def some toList_some)

open Scanf

/-! ### The loader -/

inductive LoadError where
  | indexOutOfRange (idx : BitVec 32) (lineno : ℕ)
  | tooManyEntries
  | malformedLine (lineno : ℕ) (filename : String)
  deriving DecidableEq

def LoadError.message : LoadError → String
  | indexOutOfRange idx lineno =>
    "load_agent_function: index " ++ toString idx.toNat ++ " out of range at line " ++
      toString lineno
  | tooManyEntries => "load_agent_function: too many entries (>32)"
  | malformedLine lineno filename =>
    "load_agent_function: malformed line " ++ toString lineno ++ " in \"" ++ filename ++ "\""

def LoadError.detail : LoadError → Option String
  | malformedLine _ _ => some ("Expected: 'idx detect_all priority timeout_ns' or " ++
      "'detect_all priority timeout_ns'.")
  | _ => none

/-- The state of the loop. -/
structure Loader where
  act : Policy
  cursor : ℕ
  lineno : ℕ

/-- `UINT32_MAX`. -/
def uint32Max : ℕ := 2 ^ 32 - 1

section Conversions

variable {α : Type} (lf : List Char → Option (α × List Char))

/-- `sscanf(p, "%u %u %lf %llu", ...) == 4`. -/
def scanFour (p : List Char) : Option (BitVec 32 × BitVec 32 × α × ℕ) := do
  let (idx, p) ← scanU32 p
  let (detect, p) ← scanU32 p
  let (prio, p) ← lf p
  let (tout, _) ← scanU64 p
  return (idx, detect, prio, tout)

/-- `sscanf(p, "%u %lf %llu", ...) == 3`. -/
def scanThree (p : List Char) : Option (BitVec 32 × α × ℕ) := do
  let (detect, p) ← scanU32 p
  let (prio, p) ← lf p
  let (tout, _) ← scanU64 p
  return (detect, prio, tout)

end Conversions

/-- The blanks that the loader skips at the beginning of a line. -/
def isBlank (c : Char) : Bool := c = ' ' ∨ c = '\t'

/-- `fgets` with room for `n` bytes: a line with its newline, or as much of it as fits. -/
def fgets : ℕ → List Char → List Char × List Char
  | 0, l => ([], l)
  | _ + 1, [] => ([], [])
  | n + 1, c :: l =>
    if c = '\n' then ([c], l) else ((c :: (fgets n l).1), (fgets n l).2)

/-- `sizeof(line) - 1`. -/
def lineRoom : ℕ := 255

/-- The lines that the loop reads, at most as many as there is fuel. -/
def fgetsLines : ℕ → List Char → List (List Char)
  | 0, _ => []
  | _ + 1, [] => []
  | fuel + 1, c :: l => (fgets lineRoom (c :: l)).1 :: fgetsLines fuel (fgets lineRoom (c :: l)).2

/-- The lines that the loop reads from a file. -/
def readLines (text : List Char) : List (List Char) := fgetsLines text.length text

section Loader

variable {α : Type} (lf : List Char → Option (α × List Char)) (strtod : α → Priority)

/-- What is stored of the fields that were read. -/
def readAction (detect : BitVec 32) (prio : α) (tout : ℕ) : CCAction where
  detectAll := detect ≠ 0
  priority := strtod prio
  timeout := BitVec.ofNat 32 (min tout uint32Max)

/-- The body of the loop. -/
def loadLine (filename : String) (s : Loader) (line : List Char) : Except LoadError Loader :=
  let s : Loader := { s with lineno := s.lineno + 1 }
  let p := line.dropWhile isBlank
  if p = [] ∨ p.head? = some '\n' ∨ p.head? = some '#' then .ok s
  else
    match scanFour lf p with
    | some (idx, detect, prio, tout) =>
      if h : idx.toNat < 32 then
        .ok { s with
          act := update s.act ⟨idx.toNat, h⟩ (readAction strtod detect prio tout) }
      else .error (.indexOutOfRange idx s.lineno)
    | none =>
      match scanThree lf p with
      | some (detect, prio, tout) =>
        if h : s.cursor < 32 then
          .ok { s with
            act := update s.act ⟨s.cursor, h⟩ (readAction strtod detect prio tout)
            cursor := s.cursor + 1 }
        else .error .tooManyEntries
      | none => .error (.malformedLine s.lineno filename)

/-- The loop; an error leaves what was stored before. -/
def loadLines (filename : String) : Loader → List (List Char) → Loader × Option LoadError
  | s, [] => (s, none)
  | s, line :: lines =>
    match loadLine lf strtod filename s line with
    | .ok s' => loadLines filename s' lines
    | .error e => (s, some e)

/-- `load_agent_function` from where the file is open: the table afterwards, and the error. -/
def loadAgentFunction (filename : String) (act : Policy) (text : List Char) :
    Policy × Option LoadError :=
  let r := loadLines lf strtod filename ⟨act, 0, 0⟩ (readLines text)
  (r.1.act, r.2)

end Loader

/-! ### One line -/

/-- Whether the loop passes over what is left of a line. -/
def Skipped (p : List Char) : Prop := p = [] ∨ p.head? = some '\n' ∨ p.head? = some '#'

section Line

variable {α : Type} {lf : List Char → Option (α × List Char)} {strtod : α → Priority}
  {filename : String} {s : Loader} {line p : List Char}

section

variable (hp : line.dropWhile isBlank = p)

include hp

theorem loadLine_skipped (h : Skipped p) :
    loadLine lf strtod filename s line = .ok { s with lineno := s.lineno + 1 } := by
  rw [loadLine, hp]
  exact if_pos h

theorem loadLine_scanFour (h : ¬ Skipped p) {idx detect : BitVec 32} {prio : α} {tout : ℕ}
    (hscan : scanFour lf p = some (idx, detect, prio, tout)) :
    loadLine lf strtod filename s line =
      if h : idx.toNat < 32 then
        .ok { s with
          act := update s.act ⟨idx.toNat, h⟩ (readAction strtod detect prio tout)
          lineno := s.lineno + 1 }
      else .error (.indexOutOfRange idx (s.lineno + 1)) := by
  simp only [loadLine, hp, hscan]
  exact if_neg h

end

end Line

end NeurDB.Nram
