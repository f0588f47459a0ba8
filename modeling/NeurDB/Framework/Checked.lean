import NeurDB.Framework.Bytes

/-!
# Reads in a buffer of a known size

A decoder gets a buffer and walks over it. It may come to a value, it may refuse the buffer, or
it may read a byte that is not in the buffer. The three outcomes are kept apart (`Checked`): a
read outside the buffer is not an error the decoder notices, so nothing can be said about what
it does next.

`Checked.Sound` says that a decoder has not read outside the buffer, and refuses only in a way
the caller allows. The predicate composes along the sequence of reads (`sound_bind`). A
NUL-terminated string is read up to the first zero byte; such a read stays in the buffer exactly
if there is a zero byte at or behind its start (`sound_cstringAt`), whatever the length field
of the string was.
-/

namespace NeurDB

open List

/-- The outcome of a decoder. -/
inductive Checked (ε α : Type) where
  | value (a : α)
  | refused (e : ε)
  /-- A byte outside the buffer was read. -/
  | outside
  deriving DecidableEq

namespace Checked

variable {ε α β : Type} {f : α → Checked ε β} {c : Prop} {x : Checked ε α}

instance : Monad (Checked ε) where
  pure := value
  bind x f :=
    match x with
    | value a => f a
    | refused e => refused e
    | outside => outside

@[simp] theorem pure_eq (a : α) : (pure a : Checked ε α) = value a := rfl

@[simp] theorem value_bind (a : α) (f : α → Checked ε β) : (value a >>= f) = f a := rfl

@[simp] theorem refused_bind (e : ε) (f : α → Checked ε β) : (refused e >>= f) = refused e := rfl

@[simp] theorem outside_bind (f : α → Checked ε β) : ((outside : Checked ε α) >>= f) = outside :=
  rfl

theorem bind_eq_value {b : β} : (x >>= f) = value b ↔ ∃ a, x = value a ∧ f a = value b := by
  cases x with
  | value a | refused e | outside => simp

/-- Refuse where the condition holds. -/
def refuseIf (c : Prop) [Decidable c] (e : ε) : Checked ε Unit :=
  if c then refused e else value ()

theorem refuseIf_of [Decidable c] (h : c) (e : ε) : refuseIf c e = refused e :=
  if_pos h

theorem refuseIf_of_not [Decidable c] (h : ¬ c) (e : ε) : refuseIf c e = value () :=
  if_neg h

/-! ### Sound outcomes -/

/-- No byte outside the buffer was read, and a refusal is one that `ok` allows. -/
def Sound (ok : ε → Prop) : Checked ε α → Prop
  | value _ => True
  | refused e => ok e
  | outside => False

variable {ok : ε → Prop}

@[simp] theorem sound_value (a : α) : (value a : Checked ε α).Sound ok := trivial

@[simp] theorem sound_refused (e : ε) : (refused e : Checked ε α).Sound ok ↔ ok e := Iff.rfl

@[simp] theorem not_sound_outside : ¬ (outside : Checked ε α).Sound ok := id

/-- **Soundness composes.** -/
theorem sound_bind : (x >>= f).Sound ok ↔ x.Sound ok ∧ ∀ a, x = value a → (f a).Sound ok := by
  cases x with
  | value a | refused e | outside => simp

theorem sound_refuseIf_bind [Decidable c] {e : ε} (he : ok e) {f : Unit → Checked ε β} :
    (refuseIf c e >>= f).Sound ok ↔ (¬ c → (f ()).Sound ok) := by
  by_cases hc : c
  · rw [refuseIf_of hc, refused_bind, sound_refused]
    exact ⟨fun _ hnc => absurd hc hnc, fun _ => he⟩
  · rw [refuseIf_of_not hc, value_bind]
    exact ⟨fun h _ => h, fun h => h hc⟩

/-! ### Reads -/

/-- The `n` bytes at an offset. -/
def bytesAt (buf : List Byte) (off n : ℕ) : Checked ε (List Byte) :=
  if off + n ≤ buf.length then value ((buf.drop off).take n) else outside

/-- The 32-bit word at an offset; behind the end of the buffer there is nothing. -/
def word32 (buf : List Byte) (off : ℕ) : ℕ := leVal ((buf.drop off).take 4)

/-- Read the 32-bit word at an offset. -/
def u32At (buf : List Byte) (off : ℕ) : Checked ε ℕ := do
  let bs ← bytesAt buf off 4
  return leVal bs

/-- Read the string at an offset, up to its terminator. -/
def cstringAt (buf : List Byte) (off : ℕ) : Checked ε (List Byte) :=
  if zeroByte ∈ buf.drop off then value ((buf.drop off).takeWhile (· ≠ zeroByte)) else outside

variable {buf : List Byte} {off : ℕ}

theorem bytesAt_of_le {n : ℕ} (h : off + n ≤ buf.length) :
    (bytesAt buf off n : Checked ε (List Byte)) = value ((buf.drop off).take n) :=
  if_pos h

theorem u32At_of_le (h : off + 4 ≤ buf.length) :
    (u32At buf off : Checked ε ℕ) = value (word32 buf off) := by
  rw [u32At, bytesAt_of_le h]
  rfl

theorem u32At_of_lt (h : buf.length < off + 4) : (u32At buf off : Checked ε ℕ) = outside := by
  rw [u32At, bytesAt, if_neg (Nat.not_le_of_lt h)]
  rfl

theorem sound_u32At_bind {f : ℕ → Checked ε β} :
    (u32At buf off >>= f).Sound ok ↔ off + 4 ≤ buf.length ∧ (f (word32 buf off)).Sound ok := by
  rcases Nat.lt_or_ge buf.length (off + 4) with h | h
  · rw [u32At_of_lt h, outside_bind]
    exact ⟨False.elim, fun h' => absurd h'.1 (Nat.not_le_of_lt h)⟩
  · rw [u32At_of_le h, value_bind]
    exact ⟨fun h' => ⟨h, h'⟩, fun h' => h'.2⟩

/-- **A string read stays in the buffer if a terminator is there.** -/
@[simp] theorem sound_cstringAt :
    (cstringAt buf off : Checked ε (List Byte)).Sound ok ↔ zeroByte ∈ buf.drop off := by
  unfold cstringAt
  split <;> simp [*]

theorem sound_cstringAt_bind {f : List Byte → Checked ε β} :
    (cstringAt buf off >>= f).Sound ok ↔ zeroByte ∈ buf.drop off ∧
      (f ((buf.drop off).takeWhile (· ≠ zeroByte))).Sound ok := by
  unfold cstringAt
  split
  · next h => exact ⟨fun h' => ⟨h, h'⟩, fun h' => h'.2⟩
  · next h => exact ⟨False.elim, fun h' => absurd h'.1 h⟩

theorem mem_drop_of_cstringAt {text : List Byte}
    (h : (cstringAt buf off : Checked ε (List Byte)) = value text) : zeroByte ∈ buf.drop off := by
  unfold cstringAt at h
  split at h
  · assumption
  · cases h

/-- A terminator behind a later string ends the earlier ones, too. -/
theorem mem_drop_of_le {off' : ℕ} (hle : off ≤ off') (h : zeroByte ∈ buf.drop off') :
    zeroByte ∈ buf.drop off :=
  (drop_sublist_drop_left buf hle).subset h

theorem cstringAt_append (pre text rest : List Byte) (h : zeroByte ∉ text) :
    (cstringAt (pre ++ (text ++ zeroByte :: rest)) pre.length : Checked ε (List Byte)) =
      value text := by
  have hne : ∀ b ∈ text, decide (b ≠ zeroByte) = true := by
    intro b hb
    rw [decide_eq_true_eq]
    rintro rfl
    exact h hb
  rw [cstringAt, drop_left, if_pos (by simp), takeWhile_append_of_pos hne]
  simp

theorem word32_append (pre rest : List Byte) {x : ℕ} (hx : x < 2 ^ 32) :
    word32 (pre ++ (leBytes 4 x ++ rest)) pre.length = x := by
  have htake : (leBytes 4 x ++ rest).take 4 = leBytes 4 x := by
    rw [take_append_of_le_length (by rw [length_leBytes]),
      take_of_length_le (by rw [length_leBytes])]
  rw [word32, drop_left, htake]
  exact leVal_leBytes hx

@[simp] theorem length_flatMap_leBytes (ws : List ℕ) :
    (ws.flatMap (leBytes 4)).length = 4 * ws.length := by
  induction ws with
  | nil => rfl
  | cons w ws ih =>
    rw [flatMap_cons, length_append, length_leBytes, ih, length_cons]
    omega

theorem word32_flatMap (ws : List ℕ) (rest : List Byte) (hlt : ∀ w ∈ ws, w < 2 ^ 32) (i : ℕ)
    (hi : i < ws.length) : word32 (ws.flatMap (leBytes 4) ++ rest) (4 * i) = ws[i] := by
  have hsplit : ws = ws.take i ++ ws[i] :: ws.drop (i + 1) := by
    rw [getElem_cons_drop, take_append_drop]
  have hlen : ((ws.take i).flatMap (leBytes 4)).length = 4 * i := by
    rw [length_flatMap_leBytes, length_take_of_le hi.le]
  have hbytes : ws.flatMap (leBytes 4) ++ rest = (ws.take i).flatMap (leBytes 4) ++
      (leBytes 4 ws[i] ++ ((ws.drop (i + 1)).flatMap (leBytes 4) ++ rest)) := by
    conv_lhs => rw [hsplit]
    rw [flatMap_append, flatMap_cons, append_assoc, append_assoc]
  rw [hbytes, ← hlen]
  exact word32_append _ _ (hlt _ (getElem_mem hi))

/-! ### Lists of strings -/

/-- Read the strings at the given offsets. -/
def cstringsAt (buf : List Byte) : List ℕ → Checked ε (List (List Byte))
  | [] => return []
  | off :: offs => do
    let text ← cstringAt buf off
    let texts ← cstringsAt buf offs
    return text :: texts

theorem sound_cstringsAt {offs : List ℕ} :
    (cstringsAt buf offs : Checked ε _).Sound ok ↔ ∀ off ∈ offs, zeroByte ∈ buf.drop off := by
  induction offs with
  | nil => simp [cstringsAt]
  | cons off offs ih =>
    rw [forall_mem_cons, cstringsAt, sound_bind, sound_cstringAt]
    refine and_congr_right fun hoff => ?_
    rw [cstringAt, if_pos hoff, ← ih]
    constructor
    · intro h
      exact (sound_bind.mp (h _ rfl)).1
    · rintro h text -
      exact sound_bind.mpr ⟨h, fun _ _ => trivial⟩

/-! ### Entries with a length field -/

/-- Where the entry `i` starts, if the first starts at `start`: each entry is a 32-bit length and
as many bytes. -/
def entryAt (buf : List Byte) : ℕ → ℕ → ℕ
  | start, 0 => start
  | start, i + 1 => entryAt buf (start + 4 + word32 buf start) i

/-- Walk over `n` entries. The length of an entry is read and checked by `entry`; the result says
where the contents start. -/
def entries (entry : ℕ → Checked ε ℕ) : ℕ → ℕ → Checked ε (List ℕ)
  | 0, _ => return []
  | n + 1, cursor => do
    let len ← entry cursor
    let starts ← entries entry n (cursor + 4 + len)
    return (cursor + 4) :: starts

/-- `entry` accepts the entries that are good, and reads their lengths. -/
def AcceptsGood (buf : List Byte) (entry : ℕ → Checked ε ℕ) (good : ℕ → Prop) : Prop :=
  ∀ cursor len, entry cursor = value len ↔ good cursor ∧ len = word32 buf cursor

variable {entry : ℕ → Checked ε ℕ} {good : ℕ → Prop}

/-- **The walk ends if all entries are good.** -/
theorem entries_eq_value (hentry : AcceptsGood buf entry good) {n cursor : ℕ} {starts : List ℕ} :
    entries entry n cursor = value starts ↔ (∀ i < n, good (entryAt buf cursor i)) ∧
      starts = (List.range n).map fun i => entryAt buf cursor i + 4 := by
  induction n generalizing cursor starts with
  | zero =>
    rw [entries, pure_eq]
    simp [eq_comm]
  | succ n ih =>
    rw [entries, Nat.forall_lt_succ_left, range_succ_eq_map, map_cons, map_map]
    constructor
    · intro h
      obtain ⟨len, hlen, h⟩ := bind_eq_value.mp h
      obtain ⟨starts', hstarts, h⟩ := bind_eq_value.mp h
      obtain ⟨hgood, rfl⟩ := (hentry cursor len).mp hlen
      obtain ⟨hrest, rfl⟩ := ih.mp hstarts
      obtain rfl := value.inj h
      exact ⟨⟨hgood, hrest⟩, rfl⟩
    · rintro ⟨⟨hgood, hrest⟩, rfl⟩
      rw [(hentry cursor _).mpr ⟨hgood, rfl⟩, value_bind, ih.mpr ⟨hrest, rfl⟩]
      rfl

/-- **The walk is sound if each step is that the good entries before it lead to.** -/
theorem sound_entries (hentry : AcceptsGood buf entry good) {n cursor : ℕ} :
    (entries entry n cursor).Sound ok ↔ ∀ i < n, (∀ j < i, good (entryAt buf cursor j)) →
      (entry (entryAt buf cursor i)).Sound ok := by
  induction n generalizing cursor with
  | zero => simp [entries]
  | succ n ih =>
    rw [entries, sound_bind, Nat.forall_lt_succ_left]
    refine and_congr ⟨fun h _ => h, fun h => h (fun j hj => absurd hj (Nat.not_lt_zero j))⟩ ?_
    -- behind a good entry the walk goes on at the next one
    have hrest : (∀ len, entry cursor = value len → (entries entry n (cursor + 4 + len) >>=
          fun starts => return (cursor + 4) :: starts).Sound ok) ↔
        (good cursor → (entries entry n (cursor + 4 + word32 buf cursor)).Sound ok) := by
      constructor
      · intro h hgood
        exact (sound_bind.mp (h _ ((hentry cursor _).mpr ⟨hgood, rfl⟩))).1
      · intro h len hlen
        obtain ⟨hgood, rfl⟩ := (hentry cursor len).mp hlen
        exact sound_bind.mpr ⟨h hgood, fun _ _ => trivial⟩
    rw [hrest, ih]
    constructor
    · intro h i hi hgood
      exact h (hgood 0 (Nat.zero_lt_succ i)) i hi fun j hj => hgood (j + 1) (Nat.succ_lt_succ hj)
    · intro h hgood i hi hrest
      refine h i hi fun j hj => ?_
      cases j with
      | zero => exact hgood
      | succ j => exact hrest j (Nat.lt_of_succ_lt_succ hj)

theorem le_entryAt (start i : ℕ) : start ≤ entryAt buf start i := by
  induction i generalizing start with
  | zero => exact Nat.le_refl _
  | succ i ih =>
    calc start ≤ start + 4 + word32 buf start := by omega
      _ ≤ entryAt buf start (i + 1) := ih _

theorem entryAt_mono (start : ℕ) {i j : ℕ} (h : i ≤ j) :
    entryAt buf start i ≤ entryAt buf start j := by
  induction j generalizing start i with
  | zero =>
    obtain rfl := Nat.le_zero.mp h
    exact Nat.le_refl _
  | succ j ih =>
    cases i with
    | zero => exact le_entryAt start (j + 1)
    | succ i => exact ih _ (Nat.le_of_succ_le_succ h)

/-- The contents of the entries are terminated if the last one is. -/
theorem forall_mem_entries {n start : ℕ} (hn : 0 < n) :
    (∀ off ∈ (List.range n).map fun i => entryAt buf start i + 4, zeroByte ∈ buf.drop off) ↔
      zeroByte ∈ buf.drop (entryAt buf start (n - 1) + 4) := by
  rw [forall_mem_map]
  constructor
  · intro h
    exact h (n - 1) (mem_range.mpr (Nat.sub_lt hn Nat.one_pos))
  · intro h i hi
    have hle : entryAt buf start i ≤ entryAt buf start (n - 1) :=
      entryAt_mono start (Nat.le_sub_one_of_lt (mem_range.mp hi))
    exact mem_drop_of_le (Nat.add_le_add_right hle 4) h

end Checked

end NeurDB
