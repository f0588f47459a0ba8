import Mathlib

/-!
# Single assignment

A dataflow program is a list of definitions, each of a name, in terms of other names. A name has
a meaning if it is defined exactly once and what its definition refers to has a meaning; `resolve`
computes it, as deep as it is told to look.

A program transformation that replaces a name by several new ones builds them by appending
suffixes. Suffixes of which none ends in another keep the new names apart (`Separates.of_free`);
whether the new names differ from those that are there already is up to the program.
-/

namespace NeurDB

open List

/-! ### The meaning of a name -/

section Resolve

variable {N D V : Type*} [BEq N] [LawfulBEq N] {defs : List (N × D)}
  {eval : D → (N → Option V) → Option V}

/-- The definitions of a name. -/
def definitionsOf (defs : List (N × D)) (n : N) : List D :=
  (defs.filter fun d => d.1 == n).map Prod.snd

/-- The meaning of a name, with at most `fuel` definitions under each other. -/
def resolve (defs : List (N × D)) (eval : D → (N → Option V) → Option V) : ℕ → N → Option V
  | 0, _ => none
  | fuel + 1, n =>
    match definitionsOf defs n with
    | [d] => eval d (resolve defs eval fuel)
    | _ => none

omit [LawfulBEq N] in
theorem length_definitionsOf (n : N) :
    (definitionsOf defs n).length = (defs.map Prod.fst).count n := by
  rw [definitionsOf, length_map, ← countP_eq_length_filter, List.count, countP_map]
  rfl

variable {n : N} {d : D}

theorem definitionsOf_of_count (hcount : (defs.map Prod.fst).count n = 1) (hmem : (n, d) ∈ defs) :
    definitionsOf defs n = [d] := by
  rw [← length_definitionsOf] at hcount
  obtain ⟨d', hd'⟩ := length_eq_one_iff.mp hcount
  have hd : d ∈ definitionsOf defs n :=
    mem_map.mpr ⟨(n, d), mem_filter.mpr ⟨hmem, by simp⟩, rfl⟩
  rw [hd', mem_singleton] at hd
  rw [hd', hd]

theorem resolve_of_mem (hnodup : (defs.map Prod.fst).Nodup) (hmem : (n, d) ∈ defs) (fuel : ℕ) :
    resolve defs eval (fuel + 1) n = eval d (resolve defs eval fuel) := by
  have hcount := count_eq_one_of_mem hnodup (mem_map_of_mem hmem)
  rw [resolve, definitionsOf_of_count hcount hmem]

theorem of_resolve {fuel : ℕ} {v : V} (hmem : (n, d) ∈ defs)
    (h : resolve defs eval fuel n = some v) :
    (defs.map Prod.fst).count n = 1 ∧ ∃ fuel', eval d (resolve defs eval fuel') = some v := by
  cases fuel with
  | zero => cases h
  | succ fuel =>
    rw [resolve] at h
    split at h
    · next d' hd' =>
      have hcount : (defs.map Prod.fst).count n = 1 := by
        rw [← length_definitionsOf, hd', length_singleton]
      obtain rfl : d' = d := by
        have heq := hd'.symm.trans (definitionsOf_of_count hcount hmem)
        exact (List.cons.inj heq).1
      exact ⟨hcount, fuel, h⟩
    · cases h

end Resolve

/-! ### New names -/

section Suffixes

variable {α : Type*}

/-- No suffix ends in another one. -/
def SuffixFree (S : List (List α)) : Prop := ∀ s ∈ S, ∀ s' ∈ S, s <:+ s' → s = s'

instance [DecidableEq α] (S : List (List α)) : Decidable (SuffixFree S) :=
  inferInstanceAs (Decidable (∀ s ∈ S, ∀ s' ∈ S, s <:+ s' → s = s'))

/-- A new name shows which name and which suffix it was built from. -/
def Separates (S : List (List α)) (names : List (List α)) : Prop :=
  ∀ x ∈ names, ∀ x' ∈ names, ∀ s ∈ S, ∀ s' ∈ S, x ++ s = x' ++ s' → x = x' ∧ s = s'

/-- Every name with every suffix. -/
def withSuffixes (S : List (List α)) (names : List (List α)) : List (List α) :=
  names.flatMap fun x => S.map (x ++ ·)

variable {S S' names : List (List α)}

theorem mem_withSuffixes {y : List α} :
    y ∈ withSuffixes S names ↔ ∃ x ∈ names, ∃ s ∈ S, x ++ s = y := by
  simp [withSuffixes]

theorem withSuffixes_nil (names : List (List α)) : withSuffixes [[]] names = names := by
  simp [withSuffixes]

theorem count_withSuffixes_append [BEq α] (S S' names : List (List α)) (y : List α) :
    (withSuffixes (S ++ S') names).count y =
      (withSuffixes S names).count y + (withSuffixes S' names).count y := by
  induction names with
  | nil => rfl
  | cons x names ih =>
    simp only [withSuffixes, flatMap_cons, map_append, count_append] at ih ⊢
    omega

theorem Separates.of_free (h : SuffixFree S) (names : List (List α)) : Separates S names := by
  intro x _ x' _ s hs s' hs' heq
  -- one of the names is a beginning of the other, so one of the suffixes ends in the other
  rcases append_eq_append_iff.mp heq with ⟨a, rfl, rfl⟩ | ⟨a, rfl, rfl⟩
  · have hsuffix := h s' hs' (a ++ s') hs (suffix_append a s')
    obtain rfl : a = [] := by simpa using hsuffix
    exact ⟨(append_nil x).symm, rfl⟩
  · have hsuffix := h s hs (a ++ s) hs' (suffix_append a s)
    obtain rfl : a = [] := by simpa using hsuffix
    exact ⟨append_nil x', rfl⟩

theorem Separates.concat_nil (h : Separates S names) (hnew : ∀ x ∈ names, ∀ s ∈ S, x ++ s ∉ names) :
    Separates (S ++ [[]]) names := by
  intro x hx x' hx' s hs s' hs' heq
  rcases mem_append.mp hs with hs | hs <;> rcases mem_append.mp hs' with hs' | hs'
  · exact h x hx x' hx' s hs s' hs' heq
  · obtain rfl := mem_singleton.mp hs'
    rw [append_nil] at heq
    exact absurd (heq ▸ hx') (hnew x hx s hs)
  · obtain rfl := mem_singleton.mp hs
    rw [append_nil] at heq
    exact absurd (heq ▸ hx) (hnew x' hx' s' hs')
  · obtain rfl := mem_singleton.mp hs
    obtain rfl := mem_singleton.mp hs'
    rw [append_nil, append_nil] at heq
    exact ⟨heq, rfl⟩

theorem Separates.mono (h : Separates S names) (hS : S' ⊆ S) : Separates S' names :=
  fun x hx x' hx' s hs s' hs' heq => h x hx x' hx' s (hS hs) s' (hS hs') heq

theorem Separates.nodup (h : Separates S names) (hS : S.Nodup) (hnames : names.Nodup) :
    (withSuffixes S names).Nodup := by
  refine nodup_flatMap.mpr ⟨fun x _ => ?_, ?_⟩
  · exact hS.map fun s s' heq => append_cancel_left heq
  · refine hnames.imp_of_mem fun {x x'} hx hx' hne => ?_
    -- two different names have no new name in common
    intro y hy hy'
    obtain ⟨s, hs, rfl⟩ := mem_map.mp hy
    obtain ⟨s', hs', heq⟩ := mem_map.mp hy'
    exact hne (h x hx x' hx' s hs s' hs' heq.symm).1

theorem Separates.disjoint (h : Separates (S ++ S') names) (hS : S.Disjoint S') :
    (withSuffixes S names).Disjoint (withSuffixes S' names) := by
  intro y hy hy'
  obtain ⟨x, hx, s, hs, rfl⟩ := mem_withSuffixes.mp hy
  obtain ⟨x', hx', s', hs', heq⟩ := mem_withSuffixes.mp hy'
  have := (h x hx x' hx' s (mem_append_left _ hs) s' (mem_append_right _ hs') heq.symm).2
  exact hS hs (this ▸ hs')

end Suffixes

end NeurDB
