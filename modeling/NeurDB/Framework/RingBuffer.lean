import NeurDB.Framework.System

/-!
# Ring buffers

A buffer of `N` cells with a position to read from and a position to write at. One cell stays
free, so that equal positions mean that the buffer is empty. Blocks are written and read as
wholes: a block that would cross the end of the buffer is copied in two parts.

The cells are a function on positions of which only those below `N` are used; both positions
carry the proof that they are among them.

`content` walks from the head and is what the buffer means as a queue: `push` appends a block
to it (`content_push`) and `pop` takes a block from its front (`content_pop`).
-/

namespace NeurDB

open Function List Nat

structure RingBuffer (α : Type) (N : ℕ) where
  buffer : ℕ → α
  /-- The next cell to read. -/
  head : ℕ
  /-- The next cell to write. -/
  tail : ℕ
  head_lt : head < N
  tail_lt : tail < N

namespace RingBuffer

variable {α : Type} {N : ℕ}

/-! ### Copying blocks -/

/-- Copy a block into consecutive cells. -/
def copyIn (buffer : ℕ → α) (pos : ℕ) (data : List α) : ℕ → α := fun i =>
  if h : pos ≤ i ∧ i - pos < data.length then data[i - pos] else buffer i

/-- Copy a block out of consecutive cells. -/
def copyOut (buffer : ℕ → α) (pos len : ℕ) : List α :=
  (range len).map fun i => buffer (pos + i)

@[simp] theorem length_copyOut (buffer : ℕ → α) (pos len : ℕ) :
    (copyOut buffer pos len).length = len := by
  simp [copyOut]

variable {r r' : RingBuffer α N} {i len pos : ℕ} {data out : List α} {buffer : ℕ → α}

theorem copyIn_of_lt (data : List α) (h : i < pos) : copyIn buffer pos data i = buffer i := by
  rw [copyIn, dif_neg]
  omega

theorem copyIn_of_le (h : pos + data.length ≤ i) : copyIn buffer pos data i = buffer i := by
  rw [copyIn, dif_neg]
  omega

theorem copyIn_add (h : i < data.length) : copyIn buffer pos data (pos + i) = data[i] := by
  have hsub : pos + i - pos = i := Nat.add_sub_cancel_left pos i
  rw [copyIn, dif_pos ⟨le_add_right pos i, by omega⟩]
  simp only [hsub]

theorem copyOut_add (buffer : ℕ → α) (pos m n : ℕ) :
    copyOut buffer pos (m + n) = copyOut buffer pos m ++ copyOut buffer (pos + m) n := by
  unfold copyOut
  rw [range_add, map_append, map_map]
  congr 1
  apply map_congr_left
  intro i _
  rw [comp_apply, add_assoc]

theorem copyOut_copyIn (buffer : ℕ → α) (pos : ℕ) (data : List α) :
    copyOut (copyIn buffer pos data) pos data.length = data := by
  apply ext_getElem
  · rw [length_copyOut]
  intro i hi hi'
  simp only [copyOut, getElem_map, getElem_range]
  exact copyIn_add hi'

theorem copyOut_copyIn_of_le {pos' : ℕ} (data : List α) (h : pos + len ≤ pos') :
    copyOut (copyIn buffer pos' data) pos len = copyOut buffer pos len := by
  apply map_congr_left
  intro i hi
  rw [mem_range] at hi
  exact copyIn_of_lt data (by omega)

/-! ### The operations -/

/-- The number of cells in use. -/
def used (r : RingBuffer α N) : ℕ := (r.tail + N - r.head) % N

/-- The number of cells that may still be written. -/
def space (r : RingBuffer α N) : ℕ := N - r.used - 1

/-- Write a block at a position, in two parts if it crosses the end. -/
def writeAt (r : RingBuffer α N) (pos : ℕ) (data : List α) : ℕ → α :=
  if pos + data.length ≤ N then copyIn r.buffer pos data
  else copyIn (copyIn r.buffer pos (data.take (N - pos))) 0 (data.drop (N - pos))

/-- Read a block at a position, in two parts if it crosses the end. -/
def readAt (r : RingBuffer α N) (pos len : ℕ) : List α :=
  if pos + len ≤ N then copyOut r.buffer pos len
  else copyOut r.buffer pos (N - pos) ++ copyOut r.buffer 0 (len - (N - pos))

theorem size_pos (r : RingBuffer α N) : 0 < N := zero_lt_of_lt r.head_lt

/-- Append a block, if there is room for the whole of it. -/
def push (r : RingBuffer α N) (data : List α) : Option (RingBuffer α N) :=
  if data.length ≤ r.space then
    some { r with
      buffer := r.writeAt r.tail data
      tail := (r.tail + data.length) % N
      tail_lt := mod_lt _ r.size_pos }
  else none

/-- Take a block of the given length from the front, if there are that many cells in use. -/
def pop (r : RingBuffer α N) (len : ℕ) : Option (List α × RingBuffer α N) :=
  if len ≤ r.used then
    some (r.readAt r.head len, { r with
      head := (r.head + len) % N
      head_lt := mod_lt _ r.size_pos })
  else none

/-- The queue the buffer holds: the cells in use, from the head on. -/
def content (r : RingBuffer α N) : List α :=
  (range r.used).map fun i => r.buffer ((r.head + i) % N)

/-! ### Positions -/

theorem used_lt (r : RingBuffer α N) : r.used < N := mod_lt _ r.size_pos

theorem add_mod_cases (hpos : pos < N) (hi : i < N) :
    pos + i < N ∧ (pos + i) % N = pos + i ∨ N ≤ pos + i ∧ (pos + i) % N = pos + i - N := by
  rcases lt_or_ge (pos + i) N with h | h
  · exact Or.inl ⟨h, mod_eq_of_lt h⟩
  · refine Or.inr ⟨h, ?_⟩
    rw [mod_eq_sub_mod h, mod_eq_of_lt (by omega)]

section

variable (r : RingBuffer α N)

theorem used_cases :
    r.head ≤ r.tail ∧ r.used = r.tail - r.head ∨
      r.tail < r.head ∧ r.used = r.tail + N - r.head := by
  have hh := r.head_lt
  have ht := r.tail_lt
  unfold used
  rcases lt_or_ge r.tail r.head with h | h
  · exact Or.inr ⟨h, mod_eq_of_lt (by omega)⟩
  · refine Or.inl ⟨h, ?_⟩
    rw [mod_eq_sub_mod (by omega), mod_eq_of_lt (by omega)]
    omega

theorem head_add_used : (r.head + r.used) % N = r.tail := by
  have hh := r.head_lt
  have ht := r.tail_lt
  have hmod := add_mod_cases r.head_lt r.used_lt
  have hused := r.used_cases
  omega

@[simp] theorem length_content : r.content.length = r.used := by
  simp [content]

theorem content_getElem (h : i < r.content.length) :
    r.content[i] = r.buffer ((r.head + i) % N) := by
  simp [content]

end

/-! ### Blocks that wrap -/

theorem writeAt_add_mod (r : RingBuffer α N) (hpos : pos < N) (hlen : data.length ≤ N)
    (hi : i < data.length) :
    r.writeAt pos data ((pos + i) % N) = data[i] := by
  have hmod := add_mod_cases hpos (lt_of_lt_of_le hi hlen)
  unfold writeAt
  split
  · have h : (pos + i) % N = pos + i := by omega
    rw [h, copyIn_add hi]
  · next hcross =>
    rcases hmod with ⟨hlt, h⟩ | ⟨hge, h⟩
    · -- the cell is before the end: the second part, at the start of the buffer, misses it
      have hfirst : i < (data.take (N - pos)).length := by
        rw [length_take]
        omega
      rw [h, copyIn_of_le (by rw [length_drop]; omega), copyIn_add hfirst, getElem_take]
    · have hsecond : i - (N - pos) < (data.drop (N - pos)).length := by
        rw [length_drop]
        omega
      have hcell : pos + i - N = 0 + (i - (N - pos)) := by omega
      rw [h, hcell, copyIn_add hsecond, getElem_drop]
      congr 1
      omega

theorem writeAt_of_ne (r : RingBuffer α N) {j : ℕ} (hpos : pos < N) (hlen : data.length ≤ N)
    (hj : j < N) (hne : ∀ i < data.length, (pos + i) % N ≠ j) :
    r.writeAt pos data j = r.buffer j := by
  -- the offset of `j` from `pos` is no offset into the block
  have hoff : ¬ (pos ≤ j ∧ j - pos < data.length) := by
    rintro ⟨hle, hlt⟩
    apply hne (j - pos) hlt
    rw [Nat.add_sub_cancel' hle, Nat.mod_eq_of_lt hj]
  have hwrap : ¬ (j < pos ∧ j + N - pos < data.length) := by
    rintro ⟨hlt, hin⟩
    apply hne (j + N - pos) hin
    have : pos + (j + N - pos) = j + N := by omega
    rw [this, add_mod_right, mod_eq_of_lt hj]
  unfold writeAt
  split
  · rw [copyIn, dif_neg hoff]
  · rw [copyIn, dif_neg (by rw [length_drop]; omega), copyIn, dif_neg (by rw [length_take]; omega)]

theorem readAt_eq (r : RingBuffer α N) (hpos : pos < N) (hlen : len ≤ N) :
    r.readAt pos len = (range len).map fun i => r.buffer ((pos + i) % N) := by
  unfold readAt
  split
  · apply map_congr_left
    intro i hi
    rw [mem_range] at hi
    rw [mod_eq_of_lt (by omega)]
  · next hcross =>
    have hsplit : len = (N - pos) + (len - (N - pos)) := by omega
    conv_rhs => rw [hsplit, range_add, map_append, map_map]
    congr 1
    · apply map_congr_left
      intro i hi
      rw [mem_range] at hi
      rw [mod_eq_of_lt (by omega)]
    · apply map_congr_left
      intro i hi
      rw [mem_range] at hi
      rw [comp_apply]
      congr 1
      rcases add_mod_cases hpos (i := N - pos + i) (by omega) with h | h <;> omega

/-! ### The queue -/

theorem push_eq_none_iff : r.push data = none ↔ r.space < data.length := by
  unfold push
  split <;> simp <;> omega

theorem exists_push (h : r.content.length + data.length < N) : ∃ r', r.push data = some r' := by
  cases hpush : r.push data with
  | some r' => exact ⟨r', rfl⟩
  | none =>
    rw [push_eq_none_iff, space] at hpush
    rw [length_content] at h
    omega

theorem pop_eq_none_iff : r.pop len = none ↔ r.content.length < len := by
  unfold pop
  rw [length_content]
  split <;> simp <;> omega

theorem used_push (h : r.push data = some r') : r'.used = r.used + data.length := by
  unfold push at h
  split at h
  · next hfit =>
    cases h
    have hh := r.head_lt
    have ht := r.tail_lt
    have hcases := r.used_cases
    unfold space at hfit
    have hmod := add_mod_cases r.tail_lt (i := data.length) (by omega)
    have hused := used_cases
      { r with
        buffer := r.writeAt r.tail data
        tail := (r.tail + data.length) % N
        tail_lt := mod_lt _ r.size_pos }
    dsimp only at hused
    omega
  · cases h

/-- **A push appends the block.** -/
theorem content_push (h : r.push data = some r') : r'.content = r.content ++ data := by
  have hused := used_push h
  unfold push at h
  split at h
  · next hfit =>
    have hlt := r.used_lt
    have hroom : r.used + data.length < N := by
      unfold space at hfit
      omega
    cases h
    apply ext_getElem
    · rw [length_content, length_append, length_content, hused]
    intro i hi hi'
    rw [content_getElem]
    dsimp only
    rw [length_content, hused] at hi
    rcases lt_or_ge i r.used with hold | hnew
    · -- a cell in use is none of the cells written
      rw [getElem_append_left (by rw [length_content]; exact hold), content_getElem]
      apply r.writeAt_of_ne r.tail_lt (by omega) (mod_lt _ r.size_pos)
      intro k hk
      have hh := r.head_lt
      have ht := r.tail_lt
      have h₁ := add_mod_cases r.head_lt (i := i) (by omega)
      have h₂ := add_mod_cases r.tail_lt (i := k) (by omega)
      have h₃ := r.used_cases
      omega
    · -- the cell is one of those written, at its offset from the tail
      rw [getElem_append_right (by rw [length_content]; exact hnew)]
      have hoff : i - r.used < data.length := by omega
      have hcell : (r.head + i) % N = (r.tail + (i - r.used)) % N := by
        have hadd : r.head + i = r.head + r.used + (i - r.used) := by omega
        rw [hadd, ← mod_add_mod, r.head_add_used]
      rw [hcell, r.writeAt_add_mod r.tail_lt (by omega) hoff]
      simp only [length_content]
  · cases h

theorem used_pop (h : r.pop len = some (out, r')) : len ≤ r.used ∧ r'.used = r.used - len := by
  unfold pop at h
  split at h
  · next hfit =>
    refine ⟨hfit, ?_⟩
    cases h
    have hh := r.head_lt
    have ht := r.tail_lt
    have hlt := r.used_lt
    have hcases := r.used_cases
    have hmod := add_mod_cases r.head_lt (i := len) (by omega)
    have hused := used_cases
      { r with
        head := (r.head + len) % N
        head_lt := mod_lt _ r.size_pos }
    dsimp only at hused
    omega
  · cases h

/-- **A pop takes a block from the front.** -/
theorem content_pop (h : r.pop len = some (out, r')) :
    r.content = out ++ r'.content ∧ out.length = len := by
  obtain ⟨hfit, hused⟩ := used_pop h
  have hlt := r.used_lt
  unfold pop at h
  rw [if_pos hfit] at h
  cases h
  rw [r.readAt_eq r.head_lt (by omega)]
  refine ⟨?_, by rw [length_map, length_range]⟩
  have hsplit : r.used = len + (r.used - len) := by omega
  unfold content
  rw [hused]
  conv_lhs => rw [hsplit, range_add, map_append, map_map]
  congr 1
  apply map_congr_left
  intro i _
  rw [comp_apply, mod_add_mod, add_assoc]

theorem pop_of_content {block rest : List α} (h : r.content = block ++ rest) :
    ∃ r', r.pop block.length = some (block, r') ∧ r'.content = rest := by
  cases hpop : r.pop block.length with
  | none =>
    rw [pop_eq_none_iff, h, length_append] at hpop
    omega
  | some p =>
    obtain ⟨out, r'⟩ := p
    obtain ⟨happ, hlen⟩ := content_pop hpop
    obtain ⟨rfl, hrest⟩ := append_inj (h.symm.trans happ) hlen.symm
    exact ⟨r', rfl, hrest.symm⟩

theorem readAt_head {block rest : List α} (h : r.content = block ++ rest) :
    r.readAt r.head block.length = block := by
  obtain ⟨r', hpop, -⟩ := pop_of_content h
  unfold pop at hpop
  split at hpop
  · exact (Prod.mk.inj (Option.some.inj hpop)).1
  · cases hpop

/-! ### The empty buffer -/

/-- A buffer whose two positions are at the start. -/
def empty (buffer : ℕ → α) (hN : 0 < N) : RingBuffer α N := ⟨buffer, 0, 0, hN, hN⟩

@[simp] theorem content_empty (buffer : ℕ → α) (hN : 0 < N) : (empty buffer hN).content = [] := by
  have h : (empty buffer hN : RingBuffer α N).used = 0 := by
    simp [used, empty]
  rw [content, h, range_zero, map_nil]

end RingBuffer

/-! ### Whole messages in a queue -/

/-- The content of a queue is that of the messages in flight, message after message: those that
were put in and have not been taken out yet. Of a message `view` is what is compared. -/
def Framed {α M V : Type} (encode : M → List α) (view : M → V) (pushed popped : List V)
    (content : List α) : Prop :=
  ∃ inFlight : List M, pushed = popped ++ inFlight.map view ∧ content = inFlight.flatMap encode

namespace Framed

variable {α M V : Type} {encode : M → List α} {view : M → V} {pushed popped : List V}
  {content : List α}

/-- An empty queue, from which nothing has been taken. -/
theorem nil : Framed encode view [] [] [] := ⟨[], rfl, rfl⟩

/-- What is put in goes to the end. -/
theorem push (h : Framed encode view pushed popped content) (m : M) :
    Framed encode view (pushed ++ [view m]) popped (content ++ encode m) := by
  obtain ⟨inFlight, rfl, rfl⟩ := h
  exact ⟨inFlight ++ [m], by simp, by simp⟩

/-- **The oldest message stands at the front**, and is the next to come out. -/
theorem eq_nil_or_front (h : Framed encode view pushed popped content) :
    content = [] ∨ ∃ m rest, content = encode m ++ rest ∧
      Framed encode view pushed (popped ++ [view m]) rest := by
  obtain ⟨inFlight, rfl, rfl⟩ := h
  cases inFlight with
  | nil => exact Or.inl rfl
  | cons m inFlight =>
    exact Or.inr ⟨m, inFlight.flatMap encode, flatMap_cons, inFlight, by simp, rfl⟩

end Framed

end NeurDB
