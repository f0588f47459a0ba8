import NeurDB.Framework.Utf8

/-!
# JSON strings

The string syntax of JSON: a reader, and the ASCII encoder of the common libraries, which escapes
every character outside the printable ASCII range. Of the documents only objects with strings as
members are read.

A reader that does not decode, but takes a string up to the next quote, gets the text exactly if
the encoder had nothing to escape (`undecoded_eq_self_iff`).
-/

namespace NeurDB.Json

open List

/-! ### Reading -/

def hexValue (c : Char) : Option ℕ :=
  if '0' ≤ c ∧ c ≤ '9' then some (c.toNat - '0'.toNat)
  else if 'a' ≤ c ∧ c ≤ 'f' then some (c.toNat - 'a'.toNat + 10)
  else if 'A' ≤ c ∧ c ≤ 'F' then some (c.toNat - 'A'.toNat + 10)
  else none

def hexValue4 (a b c d : Char) : Option ℕ := do
  let a ← hexValue a
  let b ← hexValue b
  let c ← hexValue c
  let d ← hexValue d
  pure (((a * 16 + b) * 16 + c) * 16 + d)

/-- The character of a code, if it is one. -/
def charOf (n : ℕ) : Option Char := if n.isValidChar then some (Char.ofNat n) else none

/-- The escapes of one character. -/
def simpleEscape : Char → Option Char
  | '"' => some '"'
  | '\\' => some '\\'
  | '/' => some '/'
  | 'b' => some '\x08'
  | 'f' => some '\x0c'
  | 'n' => some '\n'
  | 'r' => some '\r'
  | 't' => some '\t'
  | _ => none

/-- The text of a string, from behind its opening quote, and what follows the closing one. -/
def readString : List Char → Option (List Char × List Char)
  | [] => none
  | '"' :: rest => some ([], rest)
  | '\\' :: 'u' :: a :: b :: c :: d :: '\\' :: 'u' :: a' :: b' :: c' :: d' :: rest => do
    let high ← hexValue4 a b c d
    let low ← hexValue4 a' b' c' d'
    if 0xd800 ≤ high ∧ high < 0xdc00 ∧ 0xdc00 ≤ low ∧ low < 0xe000 then
      -- two escapes for one character
      let char ← charOf (0x10000 + (high - 0xd800) * 0x400 + (low - 0xdc00))
      let (text, rest) ← readString rest
      pure (char :: text, rest)
    else
      let char ← charOf high
      let char' ← charOf low
      let (text, rest) ← readString rest
      pure (char :: char' :: text, rest)
  | '\\' :: 'u' :: a :: b :: c :: d :: rest => do
    let char ← hexValue4 a b c d >>= charOf
    let (text, rest) ← readString rest
    pure (char :: text, rest)
  | '\\' :: c :: rest => do
    let char ← simpleEscape c
    let (text, rest) ← readString rest
    pure (char :: text, rest)
  | c :: rest =>
    if c = '\\' ∨ c.toNat < 0x20 then none
    else do
      let (text, rest) ← readString rest
      pure (c :: text, rest)

variable {c : Char}

theorem readString_char (hq : c ≠ '"') (hb : c ≠ '\\') (hc : 0x20 ≤ c.toNat) (rest : List Char) :
    readString (c :: rest) = (readString rest).map fun read => (c :: read.1, read.2) := by
  rw [readString]
  · rw [if_neg (not_or.mpr ⟨hb, Nat.not_lt.mpr hc⟩)]
    cases readString rest <;> rfl
  all_goals grind

theorem readString_control (hc : c.toNat < 0x20) (rest : List Char) :
    readString (c :: rest) = none := by
  have hq : c ≠ '"' := fun h => absurd (h ▸ hc) (by decide)
  have hb : c ≠ '\\' := fun h => absurd (h ▸ hc) (by decide)
  rw [readString]
  · rw [if_pos (.inr hc)]
  all_goals grind

theorem readString_escape {char : Char} (h : simpleEscape c = some char) (rest : List Char) :
    readString ('\\' :: c :: rest) =
      (readString rest).map fun read => (char :: read.1, read.2) := by
  have hu : c ≠ 'u' := by
    rintro rfl
    cases h
  rw [readString]
  · rw [h]
    cases readString rest <;> rfl
  all_goals grind

def skipSpace (l : List Char) : List Char :=
  l.dropWhile fun c => c == ' ' || c == '\n' || c == '\r' || c == '\t'

/-- One member, and what follows it. -/
def readMember (l : List Char) : Option ((List Char × List Char) × List Char) :=
  match skipSpace l with
  | '"' :: l => do
    let (key, l) ← readString l
    match skipSpace l with
    | ':' :: l =>
      match skipSpace l with
      | '"' :: l => do
        let (value, l) ← readString l
        pure ((key, value), skipSpace l)
      | _ => none
    | _ => none
  | _ => none

/-- The members up to the closing brace, at most so many. -/
def readMembers : ℕ → List Char → Option (List (List Char × List Char) × List Char)
  | 0, _ => none
  | fuel + 1, l => do
    let (member, l) ← readMember l
    match l with
    | '\x7d' :: l => pure ([member], l)
    | ',' :: l => do
      let (members, l) ← readMembers fuel l
      pure (member :: members, l)
    | _ => none

/-- A document that is an object with strings as members. -/
def readObject (l : List Char) : Option (List (List Char × List Char)) :=
  match skipSpace l with
  | '\x7b' :: l => do
    let (members, rest) ← readMembers l.length l
    if skipSpace rest = [] then pure members else none
  | _ => none

/-! ### Encoding -/

def hexDigits4 (n : ℕ) : List Char :=
  [Nat.digitChar (n / 4096 % 16), Nat.digitChar (n / 256 % 16), Nat.digitChar (n / 16 % 16),
    Nat.digitChar (n % 16)]

/-- Characters that stand for themselves in a string. -/
def IsPlain (c : Char) : Prop := 0x20 ≤ c.toNat ∧ c.toNat ≤ 0x7e ∧ c ≠ '"' ∧ c ≠ '\\'

instance : DecidablePred IsPlain := fun c =>
  inferInstanceAs (Decidable (0x20 ≤ c.toNat ∧ c.toNat ≤ 0x7e ∧ c ≠ '"' ∧ c ≠ '\\'))

/-- One character of a string. -/
def asciiEncodeChar (c : Char) : List Char :=
  if IsPlain c then [c]
  else if c = '"' then ['\\', '"']
  else if c = '\\' then ['\\', '\\']
  else if c = '\n' then ['\\', 'n']
  else if c = '\r' then ['\\', 'r']
  else if c = '\t' then ['\\', 't']
  else if c = '\x0c' then ['\\', 'f']
  else if c = '\x08' then ['\\', 'b']
  else if c.toNat < 0x10000 then '\\' :: 'u' :: hexDigits4 c.toNat
  else
    let n := c.toNat - 0x10000
    '\\' :: 'u' :: hexDigits4 (0xd800 + n / 1024 % 1024) ++
      '\\' :: 'u' :: hexDigits4 (0xdc00 + n % 1024)

/-- The inside of a string. -/
def asciiEncode (text : List Char) : List Char := text.flatMap asciiEncodeChar

@[simp] theorem asciiEncode_nil : asciiEncode [] = [] := rfl

theorem asciiEncode_cons (c : Char) (text : List Char) :
    asciiEncode (c :: text) = asciiEncodeChar c ++ asciiEncode text := rfl

theorem asciiEncodeChar_of_plain (h : IsPlain c) : asciiEncodeChar c = [c] :=
  if_pos h

theorem quote_not_mem_hexDigits4 (n : ℕ) : '"' ∉ hexDigits4 n := by
  have hdigit : ∀ d < 16, '"' ≠ Nat.digitChar d := by decide
  simp only [hexDigits4, mem_cons, not_mem_nil, or_false, not_or]
  exact ⟨hdigit _ (Nat.mod_lt _ (by decide)), hdigit _ (Nat.mod_lt _ (by decide)),
    hdigit _ (Nat.mod_lt _ (by decide)), hdigit _ (Nat.mod_lt _ (by decide))⟩

/-- An escape begins with a backslash, and has a quote only for a quote. -/
theorem asciiEncodeChar_of_not_plain (h : ¬ IsPlain c) (hq : c ≠ '"') :
    ∃ l, asciiEncodeChar c = '\\' :: l ∧ '"' ∉ l := by
  have hhex := quote_not_mem_hexDigits4
  unfold asciiEncodeChar
  rw [if_neg h, if_neg hq]
  split_ifs
  · exact ⟨['\\'], rfl, by decide⟩
  · exact ⟨['n'], rfl, by decide⟩
  · exact ⟨['r'], rfl, by decide⟩
  · exact ⟨['t'], rfl, by decide⟩
  · exact ⟨['f'], rfl, by decide⟩
  · exact ⟨['b'], rfl, by decide⟩
  · exact ⟨_, rfl, not_mem_cons_of_ne_of_not_mem (by decide) (hhex _)⟩
  · exact ⟨'u' :: hexDigits4 _ ++ '\\' :: 'u' :: hexDigits4 _, rfl, by simp [hhex]⟩

theorem asciiEncodeChar_quote : asciiEncodeChar '"' = ['\\', '"'] := by decide

theorem exists_escape_of_not_plain (h : ¬ IsPlain c) : ∃ l, asciiEncodeChar c = '\\' :: l := by
  by_cases hq : c = '"'
  · rw [hq]
    exact ⟨_, asciiEncodeChar_quote⟩
  · obtain ⟨l, hl, -⟩ := asciiEncodeChar_of_not_plain h hq
    exact ⟨l, hl⟩

/-! ### Reading without decoding -/

/-- A string up to the next quote. -/
def undecoded (text : List Char) : List Char := (asciiEncode text).takeWhile (· ≠ '"')

theorem undecoded_plain (h : IsPlain c) (text : List Char) :
    undecoded (c :: text) = c :: undecoded text := by
  rw [undecoded, asciiEncode_cons, asciiEncodeChar_of_plain h, singleton_append,
    takeWhile_cons_of_pos (by simpa using h.2.2.1), undecoded]

theorem undecoded_backslash (text : List Char) :
    undecoded ('\\' :: text) = '\\' :: '\\' :: undecoded text := rfl

theorem head_undecoded_of_not_plain (h : ¬ IsPlain c) (text : List Char) :
    (undecoded (c :: text)).head? = some '\\' := by
  obtain ⟨l, hl⟩ := exists_escape_of_not_plain h
  rw [undecoded, asciiEncode_cons, hl]
  rfl

/-- A text has no more backslashes in front than its encoding, which has twice as many. -/
theorem ne_replicate_append_undecoded (text : List Char) (k : ℕ) :
    text ≠ replicate (k + 1) '\\' ++ undecoded text := by
  induction text generalizing k with
  | nil => exact fun h => by simp at h
  | cons c text ih =>
    intro h
    rw [replicate_succ, cons_append] at h
    obtain ⟨rfl, htext⟩ := cons_eq_cons.mp h
    rw [undecoded_backslash] at htext
    refine ih (k + 1) (htext.trans ?_)
    rw [append_cons, append_cons, ← replicate_succ', ← replicate_succ']

theorem undecoded_eq_self_iff {text : List Char} :
    undecoded text = text ↔ ∀ c ∈ text, IsPlain c := by
  induction text with
  | nil => simp [undecoded]
  | cons c text ih =>
    by_cases hc : IsPlain c
    · rw [undecoded_plain hc, cons_inj_right, ih, forall_mem_cons, and_iff_right hc]
    · refine iff_of_false (fun h => ?_) fun h => hc (h c (.head _))
      have hhead := head_undecoded_of_not_plain hc text
      rw [h] at hhead
      cases hhead
      rw [undecoded_backslash, cons_inj_right] at h
      exact ne_replicate_append_undecoded text 0 h.symm

end NeurDB.Json
