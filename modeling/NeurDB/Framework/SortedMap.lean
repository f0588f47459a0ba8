import NeurDB.Framework.System

/-!
# Ordered maps

An ordered map is a list of entries with strictly increasing keys: the content
of an ordered key-value store. A lookup finds the entry of a key, an insertion
adds or replaces one, and `seek` gives the entries from a key on, in order,
which is all an iterator over the store can see.
-/

namespace NeurDB

open List

/-- An ordered map. -/
structure SortedMap (K V : Type) [LinearOrder K] where
  entries : List (K × V)
  /-- The keys increase strictly, so no key occurs twice. -/
  sorted : entries.Pairwise fun a b => a.1 < b.1

namespace SortedMap

variable {K V : Type} [LinearOrder K]

def empty : SortedMap K V := ⟨[], .nil⟩

/-- The value stored under `k`. -/
def find? (m : SortedMap K V) (k : K) : Option V :=
  (m.entries.find? fun e => e.1 = k).map Prod.snd

/-- Insert into a sorted list of entries, replacing the entry of an equal key. -/
def insertEntry (k : K) (v : V) : List (K × V) → List (K × V)
  | [] => [(k, v)]
  | e :: es =>
    if k < e.1 then (k, v) :: e :: es
    else if k = e.1 then (k, v) :: es
    else e :: insertEntry k v es

variable {k : K} {m : SortedMap K V} {es : List (K × V)}

/-- An insertion adds its entry and takes away another of the same key. -/
theorem mem_insertEntry {v : V} (hs : es.Pairwise fun a b => a.1 < b.1) {e : K × V} :
    e ∈ insertEntry k v es ↔ e = (k, v) ∨ e ∈ es ∧ e.1 ≠ k := by
  induction es with
  | nil => simp [insertEntry]
  | cons a es ih =>
    obtain ⟨ha, hs⟩ := pairwise_cons.mp hs
    unfold insertEntry
    split
    · next hlt =>
      -- `k` comes first, so no entry has it as its key
      have hne : ∀ b ∈ a :: es, b.1 ≠ k :=
        forall_mem_cons.mpr ⟨hlt.ne', fun b hb => (hlt.trans (ha b hb)).ne'⟩
      rw [mem_cons]
      exact or_congr_right ⟨fun h => ⟨h, hne e h⟩, fun h => h.1⟩
    · split
      · next _ heq =>
        subst heq
        have hne : ∀ b ∈ es, b.1 ≠ a.1 := fun b hb => (ha b hb).ne'
        rw [mem_cons, mem_cons]
        refine or_congr_right ⟨fun h => ⟨.inr h, hne e h⟩, ?_⟩
        rintro ⟨rfl | h, hk⟩
        · exact absurd rfl hk
        · exact h
      · next _ hk =>
        have hne : e = a → e.1 ≠ k := by
          rintro rfl
          exact Ne.symm hk
        rw [mem_cons, ih hs, mem_cons]
        tauto

/-- The keys still increase strictly. -/
theorem insertEntry_sorted (k : K) (v : V) (hs : es.Pairwise fun a b => a.1 < b.1) :
    (insertEntry k v es).Pairwise fun a b => a.1 < b.1 := by
  induction es with
  | nil => exact pairwise_singleton _ _
  | cons a es ih =>
    obtain ⟨ha, hs'⟩ := pairwise_cons.mp hs
    unfold insertEntry
    split
    · next hlt =>
      exact pairwise_cons.mpr
        ⟨forall_mem_cons.mpr ⟨hlt, fun b hb => hlt.trans (ha b hb)⟩, hs⟩
    · split
      · next _ heq =>
        subst heq
        exact pairwise_cons.mpr ⟨ha, hs'⟩
      · next hlt hk =>
        refine pairwise_cons.mpr ⟨fun b hb => ?_, ih hs'⟩
        rcases (mem_insertEntry hs').mp hb with rfl | hb
        · exact lt_of_le_of_ne (not_lt.mp hlt) (fun h => hk h.symm)
        · exact ha b hb.1

/-- Store `v` under `k`. -/
def insert (m : SortedMap K V) (k : K) (v : V) : SortedMap K V :=
  ⟨insertEntry k v m.entries, insertEntry_sorted k v m.sorted⟩

/-- The entries from the first key that is not below `k` on. -/
def seek (m : SortedMap K V) (k : K) : List (K × V) :=
  m.entries.dropWhile fun e => e.1 < k

/-! ### Lookups -/

theorem nodup_keys (m : SortedMap K V) : (m.entries.map Prod.fst).Nodup :=
  (pairwise_map.mpr m.sorted).imp fun h => ne_of_lt h

theorem entry_unique {a b : K × V} (ha : a ∈ m.entries) (hb : b ∈ m.entries) (hk : a.1 = b.1) :
    a = b :=
  inj_on_of_nodup_map m.nodup_keys ha hb hk

/-- A lookup finds an entry exactly if it is there. -/
theorem find?_eq_some_iff {v : V} : m.find? k = some v ↔ (k, v) ∈ m.entries := by
  unfold find?
  constructor
  · intro h
    obtain ⟨e, he, rfl⟩ := Option.map_eq_some_iff.mp h
    have hk : e.1 = k := by simpa using find?_some he
    subst hk
    exact mem_of_find?_eq_some he
  · intro h
    obtain ⟨e, he⟩ : ∃ e, m.entries.find? (fun e => e.1 = k) = some e := by
      rw [← Option.isSome_iff_exists, find?_isSome]
      exact ⟨(k, v), h, by simp⟩
    have hk : e.1 = k := by simpa using find?_some he
    rw [he, Option.map_some, entry_unique (mem_of_find?_eq_some he) h hk]

@[simp] theorem find?_insert_self (m : SortedMap K V) (k : K) (v : V) :
    (m.insert k v).find? k = some v :=
  find?_eq_some_iff.mpr ((mem_insertEntry m.sorted).mpr (.inl rfl))

/-- Other keys keep their values. -/
theorem find?_insert_of_ne (m : SortedMap K V) {k' : K} (v : V) (h : k' ≠ k) :
    (m.insert k v).find? k' = m.find? k' := by
  ext w
  rw [find?_eq_some_iff, find?_eq_some_iff]
  refine (mem_insertEntry m.sorted).trans ⟨?_, fun hw => .inr ⟨hw, h⟩⟩
  rintro (heq | hw)
  · exact absurd (Prod.mk.inj heq).1 h
  · exact hw.1

/-- What `seek` gives are the entries whose keys are not below the given one. -/
theorem mem_seek {e : K × V} : e ∈ m.seek k ↔ e ∈ m.entries ∧ k ≤ e.1 := by
  obtain ⟨es, hs⟩ := m
  change e ∈ es.dropWhile _ ↔ e ∈ es ∧ k ≤ e.1
  induction es with
  | nil => simp
  | cons a es ih =>
    obtain ⟨ha, hs'⟩ := pairwise_cons.mp hs
    by_cases hlt : a.1 < k
    · rw [dropWhile_cons_of_pos (by simpa using hlt), ih hs', mem_cons]
      refine ⟨fun h => ⟨.inr h.1, h.2⟩, ?_⟩
      rintro ⟨rfl | h, hk⟩
      · exact absurd hk (not_le.mpr hlt)
      · exact ⟨h, hk⟩
    · rw [dropWhile_cons_of_neg (by simpa using hlt)]
      refine ⟨fun h => ⟨h, ?_⟩, fun h => h.1⟩
      rcases mem_cons.mp h with rfl | h
      · exact not_lt.mp hlt
      · exact (not_lt.mp hlt).trans (ha e h).le

/-- They come in order. -/
theorem seek_sorted (m : SortedMap K V) (k : K) : (m.seek k).Pairwise fun a b => a.1 < b.1 :=
  m.sorted.sublist (dropWhile_sublist _)

/-! ### Maps on the values -/

variable {W : Type}

/-- Apply a function to every value. -/
def mapVal (m : SortedMap K V) (f : V → W) : SortedMap K W where
  entries := m.entries.map (Prod.map id f)
  sorted := List.pairwise_map.mpr m.sorted

theorem map_insertEntry (k : K) (v : V) (f : V → W) (es : List (K × V)) :
    (insertEntry k v es).map (Prod.map id f) = insertEntry k (f v) (es.map (Prod.map id f)) := by
  induction es with
  | nil => rfl
  | cons e es ih =>
    simp only [map_cons, insertEntry, Prod.map_fst, id_eq]
    split
    · rfl
    · split
      · rfl
      · rw [map_cons, ih]

section

variable (m : SortedMap K V) (k : K)

/-- To change the values and to insert commute. -/
theorem mapVal_insert (v : V) (f : V → W) :
    (m.insert k v).mapVal f = (m.mapVal f).insert k (f v) := by
  unfold mapVal insert
  simp only [map_insertEntry]

theorem find?_mapVal (f : V → W) : (m.mapVal f).find? k = (m.find? k).map f := by
  unfold mapVal find?
  rw [find?_map, Option.map_map, Option.map_map]
  rfl

theorem seek_mapVal (f : V → W) : (m.mapVal f).seek k = (m.seek k).map (Prod.map id f) := by
  unfold mapVal seek
  rw [dropWhile_map]
  rfl

end

end SortedMap

end NeurDB
