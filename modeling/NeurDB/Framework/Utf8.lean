import Mathlib.Data.List.Basic

/-!
# Texts as bytes

A text is a list of characters; a C program sees its UTF-8 bytes. The encoder and the decoder are
those of Lean's library (`String.utf8EncodeChar`, `ByteArray.utf8Decode?`).

A program that only looks for ASCII characters may work byte by byte: the byte of an ASCII
character occurs in the bytes of a text exactly where the character does (`toUInt8_mem_utf8`), and
replacing such bytes is replacing the characters (`flatMap_utf8`).
-/

namespace NeurDB

open List

/-- The bytes of a text. -/
def utf8 (l : List Char) : List UInt8 := l.flatMap String.utf8EncodeChar

/-- The text of the bytes, if they are one. -/
def readUtf8 (bytes : List UInt8) : Option (List Char) :=
  bytes.toByteArray.utf8Decode?.map Array.toList

theorem readUtf8_utf8 (l : List Char) : readUtf8 (utf8 l) = some l := by
  have h : (utf8 l).toByteArray.utf8Decode? = some l.toArray := utf8Decode?_utf8Encode
  rw [readUtf8, h, Option.map_some]

theorem utf8_inj {l m : List Char} : utf8 l = utf8 m ↔ l = m := by
  refine ⟨fun h => Option.some.inj ?_, fun h => h ▸ rfl⟩
  rw [← readUtf8_utf8 l, h, readUtf8_utf8]

@[simp] theorem utf8_nil : utf8 [] = [] := rfl

theorem utf8_cons (c : Char) (l : List Char) : utf8 (c :: l) = String.utf8EncodeChar c ++ utf8 l :=
  rfl

@[simp] theorem utf8_append (l m : List Char) : utf8 (l ++ m) = utf8 l ++ utf8 m :=
  flatMap_append

theorem utf8_flatMap {α : Type*} (l : List α) (f : α → List Char) :
    utf8 (l.flatMap f) = l.flatMap fun a => utf8 (f a) :=
  flatMap_assoc

variable {c : Char}

theorem utf8EncodeChar_ascii (h : c.toNat ≤ 127) : String.utf8EncodeChar c = [c.toUInt8] := by
  have hle : c.val.toNat ≤ 127 := h
  rw [String.utf8EncodeChar, if_pos hle]
  rfl

theorem le_of_mem_utf8EncodeChar (h : 127 < c.toNat) {b : UInt8}
    (hb : b ∈ String.utf8EncodeChar c) : 127 < b.toNat := by
  have hlt : ¬ c.val.toNat ≤ 127 := Nat.not_le.mpr h
  rw [String.utf8EncodeChar, if_neg hlt] at hb
  split at hb
  · simp only [mem_cons, not_mem_nil, or_false] at hb
    rcases hb with rfl | rfl <;> rw [UInt8.toNat_ofNat'] <;> omega
  · split at hb
    · simp only [mem_cons, not_mem_nil, or_false] at hb
      rcases hb with rfl | rfl | rfl <;> rw [UInt8.toNat_ofNat'] <;> omega
    · simp only [mem_cons, not_mem_nil, or_false] at hb
      rcases hb with rfl | rfl | rfl | rfl <;> rw [UInt8.toNat_ofNat'] <;> omega

theorem toNat_toUInt8 (h : c.toNat ≤ 127) : c.toUInt8.toNat = c.toNat := by
  have hmod : c.toUInt8.toNat = c.toNat % 2 ^ 8 := UInt8.toNat_ofNat'
  rw [hmod]
  omega

theorem toUInt8_inj {a : Char} (ha : a.toNat ≤ 127) (hc : c.toNat ≤ 127) :
    a.toUInt8 = c.toUInt8 ↔ a = c := by
  refine ⟨fun h => Char.toNat_inj.mp ?_, fun h => h ▸ rfl⟩
  rw [← toNat_toUInt8 ha, h, toNat_toUInt8 hc]

theorem toUInt8_mem_utf8 {a : Char} (ha : a.toNat ≤ 127) {l : List Char} :
    a.toUInt8 ∈ utf8 l ↔ a ∈ l := by
  rw [utf8, mem_flatMap]
  constructor
  · rintro ⟨c, hc, hmem⟩
    by_cases h : c.toNat ≤ 127
    · rw [utf8EncodeChar_ascii h, mem_singleton] at hmem
      rwa [(toUInt8_inj ha h).mp hmem]
    · have hlt := le_of_mem_utf8EncodeChar (Nat.not_le.mp h) hmem
      rw [toNat_toUInt8 ha] at hlt
      omega
  · intro h
    refine ⟨a, h, ?_⟩
    rw [utf8EncodeChar_ascii ha]
    exact .head _

theorem flatMap_utf8 {f : UInt8 → List UInt8} {g : Char → List Char}
    (hascii : ∀ c : Char, c.toNat ≤ 127 → f c.toUInt8 = utf8 (g c))
    (hbyte : ∀ b : UInt8, 127 < b.toNat → f b = [b])
    (hchar : ∀ c : Char, 127 < c.toNat → g c = [c]) (l : List Char) :
    (utf8 l).flatMap f = utf8 (l.flatMap g) := by
  rw [utf8, flatMap_assoc, utf8_flatMap]
  refine flatMap_congr fun c _ => ?_
  by_cases h : c.toNat ≤ 127
  · rw [utf8EncodeChar_ascii h, flatMap_singleton]
    exact hascii c h
  · have hc : 127 < c.toNat := Nat.not_le.mp h
    calc (String.utf8EncodeChar c).flatMap f
        = (String.utf8EncodeChar c).flatMap fun b => [b] :=
          flatMap_congr fun b hb => hbyte b (le_of_mem_utf8EncodeChar hc hb)
      _ = String.utf8EncodeChar c := flatMap_singleton' _
      _ = utf8 (g c) := by rw [hchar c hc, utf8_cons, utf8_nil, append_nil]

end NeurDB
