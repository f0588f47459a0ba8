import NeurDB.Framework.Bytes

/-!
# Reading a byte buffer

A reader takes bytes from the front of a buffer. It fails where it would read behind the end of
the buffer, or where it rejects what it read.

`Reads p bs a` says that `p` takes exactly the bytes `bs` and makes `a` of them, whatever
follows. Such facts compose as the readers do (`Reads.bind`, `Reads.times`), so that a round
trip through an encoder is proved along the shape of the decoder.
-/

namespace NeurDB

open List

abbrev Reader (α : Type) := StateT (List Byte) Option α

namespace Reader

/-- The next `n` bytes. -/
def bytes (n : ℕ) : Reader (List Byte) := fun buf =>
  if n ≤ buf.length then some (buf.take n, buf.drop n) else none

/-- The next `n` bytes as an unsigned integer. -/
def uint (n : ℕ) : Reader ℕ := do
  let bs ← bytes n
  return leVal bs

/-- The next `n` bytes as a machine word of `w` bits. -/
def word (w n : ℕ) : Reader (BitVec w) := do
  let x ← uint n
  return BitVec.ofNat w x

/-- The same reader several times. -/
def times {α : Type} (n : ℕ) (p : Reader α) : Reader (List α) :=
  match n with
  | 0 => pure []
  | n + 1 => do
    let a ← p
    let as ← times n p
    return a :: as

end Reader

/-- `p` reads exactly `bs`, and makes `a` of it. -/
def Reads {α : Type} (p : Reader α) (bs : List Byte) (a : α) : Prop :=
  ∀ rest, p (bs ++ rest) = some (a, rest)

namespace Reads

variable {α β : Type}

theorem pure (a : α) : Reads (Pure.pure a) [] a := fun _ => rfl

variable {p : Reader α} {bs : List Byte} {a : α}

/-- Readers in sequence read what the first and then the second reads. -/
theorem bind {f : α → Reader β} {cs : List Byte} {b : β} (hp : Reads p bs a)
    (hf : Reads (f a) cs b) :
    Reads (p >>= f) (bs ++ cs) b := by
  intro rest
  rw [append_assoc]
  change (p (bs ++ (cs ++ rest))).bind (fun x => f x.1 x.2) = _
  rw [hp, Option.bind_some]
  exact hf rest

/-- A reader whose result is changed reads the same bytes. -/
theorem bind_pure (hp : Reads p bs a) (f : α → β) :
    Reads (p >>= fun x => Pure.pure (f x)) bs (f a) := by
  intro rest
  change (p (bs ++ rest)).bind (fun x => some (f x.1, x.2)) = _
  rw [hp, Option.bind_some]

theorem bytes (bs : List Byte) : Reads (Reader.bytes bs.length) bs bs := by
  intro rest
  rw [Reader.bytes, if_pos (prefix_append bs rest).length_le, take_left, drop_left]

theorem bytes_of_length {n : ℕ} (h : bs.length = n) :
    Reads (Reader.bytes n) bs bs := h ▸ bytes bs

/-- An integer that fits is read back. -/
theorem uint {n x : ℕ} (hx : x < 256 ^ n) : Reads (Reader.uint n) (leBytes n x) x := by
  have h := (bytes_of_length (length_leBytes n x)).bind_pure leVal
  rwa [leVal_leBytes hx] at h

/-- A machine word is read back. -/
theorem word {w n : ℕ} (hw : 2 ^ w = 256 ^ n) (x : BitVec w) :
    Reads (Reader.word w n) (leBytes n x.toNat) x := by
  have h := (uint (show x.toNat < 256 ^ n from hw ▸ x.isLt)).bind_pure (BitVec.ofNat w)
  rwa [BitVec.ofNat_toNat, BitVec.setWidth_eq] at h

/-- A check reads nothing. -/
theorem lift {o : Option α} (h : o = some a) : Reads (StateT.lift o) [] a := by
  subst h
  exact fun _ => rfl

/-- A buffer that holds nothing else is used up. -/
theorem run_eq (h : Reads p bs a) : p bs = some (a, []) := by
  have hrest := h []
  rwa [append_nil] at hrest

/-- A list is read back, item by item. -/
theorem times {enc : β → List Byte} {f : β → α} (l : List β) (h : ∀ x ∈ l, Reads p (enc x) (f x)) :
    Reads (Reader.times l.length p) (l.flatMap enc) (l.map f) := by
  induction l with
  | nil => exact Reads.pure []
  | cons x l ih =>
    have hx := h x mem_cons_self
    have hl := ih fun y hy => h y (mem_cons_of_mem x hy)
    exact hx.bind (hl.bind_pure (f x :: ·))

end Reads

/-! ### What was read -/

namespace Reader

variable {α β : Type} {buf rest : List Byte} {p : Reader α}

/-- A sequence that succeeds has a buffer between its parts. -/
theorem bind_eq_some {f : α → Reader β} {b : β} (h : (p >>= f) buf = some (b, rest)) :
    ∃ a mid, p buf = some (a, mid) ∧ f a mid = some (b, rest) := by
  obtain ⟨⟨a, mid⟩, hp, hf⟩ := Option.bind_eq_some_iff.mp h
  exact ⟨a, mid, hp, hf⟩

theorem length_of_bytes {n : ℕ} {bs : List Byte} (h : bytes n buf = some (bs, rest)) :
    bs.length = n := by
  obtain ⟨hle, ⟨⟩⟩ := Option.ite_none_right_eq_some.mp h
  exact length_take_of_le hle

theorem uint_lt {n x : ℕ} (h : uint n buf = some (x, rest)) : x < 256 ^ n := by
  obtain ⟨bs, mid, hbytes, hval⟩ := bind_eq_some h
  cases hval
  exact length_of_bytes hbytes ▸ leVal_lt bs

/-- What holds of every item a reader returns holds of the items of a list. -/
theorem of_times {P : α → Prop} (hp : ∀ buf a rest, p buf = some (a, rest) → P a)
    {n : ℕ} {l : List α} (h : times n p buf = some (l, rest)) : l.length = n ∧ ∀ a ∈ l, P a := by
  induction n generalizing buf rest l with
  | zero =>
    cases h
    exact ⟨rfl, nofun⟩
  | succ n ih =>
    obtain ⟨a, mid, ha, h⟩ := bind_eq_some h
    obtain ⟨as, mid', has, h⟩ := bind_eq_some h
    cases h
    obtain ⟨hlen, hall⟩ := ih has
    exact ⟨congrArg Nat.succ hlen, forall_mem_cons.mpr ⟨hp _ _ _ ha, hall⟩⟩

end Reader

end NeurDB
