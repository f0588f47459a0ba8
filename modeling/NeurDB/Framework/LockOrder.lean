import NeurDB.Framework.LockManager

/-!
# Locks taken in one order

An owner that waits for a lock waits for every other owner that holds it in a conflicting mode,
and for those whose conflicting requests are served before its own. If there is one linear order
of the tags such that every waiting owner holds only tags below the one it asks for, then no
owner waits for itself, in however many steps (`LockTable.Ascending.acyclic`).

How the queue of a tag is served is left open: `ahead a b` says that the request `a` is served
before `b`, and may be any strict order.

Where the tags are images of keys, and the locks are taken in the order of the keys, such an order
of the tags exists exactly if the keys of each tag stand together (`exists_order_iff`).
-/

namespace NeurDB

/-! ### An order of the images -/

section Images

variable {α β : Type} [LinearOrder α]

/-- Between two elements of `K` with one image there is no element with another image. -/
def FibresTogether (f : α → β) (K : Set α) : Prop :=
  ∀ a ∈ K, ∀ b ∈ K, ∀ c ∈ K, a < b → b < c → f a = f c → f b = f a

variable {f : α → β} {K : Set α}

/-- The images in the order of all the elements they come from. -/
def ImageLE (f : α → β) (K : Set α) (x y : β) : Prop :=
  x = y ∨ (∃ a ∈ K, f a = x) ∧ (∃ b ∈ K, f b = y) ∧
    ∀ a ∈ K, ∀ b ∈ K, f a = x → f b = y → a < b

theorem isPartialOrder_imageLE : IsPartialOrder β (ImageLE f K) where
  refl _ := .inl rfl
  trans := by
    rintro x y z (rfl | ⟨hx, ⟨b, hb, hby⟩, hxy⟩) (rfl | ⟨hy, hz, hyz⟩)
    · exact .inl rfl
    · exact .inr ⟨hy, hz, hyz⟩
    · exact .inr ⟨hx, ⟨b, hb, hby⟩, hxy⟩
    · exact .inr ⟨hx, hz, fun a ha c hc hax hcz =>
        (hxy a ha b hb hax hby).trans (hyz b hb c hc hby hcz)⟩
  antisymm := by
    rintro x y (rfl | ⟨⟨a, ha, hax⟩, ⟨b, hb, hby⟩, hxy⟩) (h | ⟨-, -, hyx⟩)
    · rfl
    · rfl
    · exact h.symm
    · exact absurd ((hxy a ha b hb hax hby).trans (hyx b hb a ha hby hax)) (lt_irrefl a)

theorem FibresTogether.imageLE (h : FibresTogether f K) {a b : α} (ha : a ∈ K) (hb : b ∈ K)
    (hab : a < b) : ImageLE f K (f a) (f b) := by
  by_cases heq : f a = f b
  · exact .inl heq
  refine .inr ⟨⟨a, ha, rfl⟩, ⟨b, hb, rfl⟩, fun a' ha' b' hb' hfa hfb => ?_⟩
  -- otherwise one of the two fibres has an element of the other between two of its own
  by_contra hnot
  have hne : a' ≠ b' := fun h' => heq (hfa.symm.trans ((congrArg f h').trans hfb))
  have hlt : b' < a' := lt_of_le_of_ne (not_lt.mp hnot) hne.symm
  have hab' : a ≠ b' := fun h' => heq ((congrArg f h').trans hfb)
  rcases lt_or_gt_of_ne hab' with hlt' | hlt'
  · exact heq ((h a ha b' hb' a' ha' hlt' hlt hfa.symm).symm.trans hfb)
  · exact heq ((h b' hb' a ha b hb hlt' hab hfb).trans hfb)

/-- **An order of the images** that goes with the order of the elements. -/
theorem exists_order_iff :
    (∃ le : β → β → Prop, IsLinearOrder β le ∧ ∀ a ∈ K, ∀ b ∈ K, a < b → le (f a) (f b)) ↔
      FibresTogether f K := by
  constructor
  · rintro ⟨le, hlinear, hle⟩ a ha b hb c hc hab hbc hac
    have hba := hle b hb c hc hbc
    rw [← hac] at hba
    exact antisymm_of le hba (hle a ha b hb hab)
  · intro h
    have hpartial : IsPartialOrder β (ImageLE f K) := isPartialOrder_imageLE
    obtain ⟨le, hlinear, hle⟩ := extend_partialOrder (ImageLE f K)
    exact ⟨le, hlinear, fun a ha b hb hab => hle _ _ (h.imageLE ha hb hab)⟩

end Images

namespace LockTable

variable {Tag Mode Owner : Type} {M : LockMethod Mode}

/-- `x` waits for `y`: `y` holds what `x` asks for, or will get it before. -/
def WaitsFor (t : LockTable M Tag Owner)
    (ahead : Lock Tag Mode Owner → Lock Tag Mode Owner → Prop) (x y : Owner) : Prop :=
  ∃ r ∈ t.waiters, r.owner = x ∧ ∃ a : Lock Tag Mode Owner, a.owner = y ∧ a.Conflicts M r ∧
    (a ∈ t.holders ∨ a ∈ t.waiters ∧ ahead a r)

/-- An owner waits for one lock at a time, and holds only tags below it. -/
structure Ascending (t : LockTable M Tag Owner) (le : Tag → Tag → Prop) : Prop where
  single : ∀ r ∈ t.waiters, ∀ r' ∈ t.waiters, r.owner = r'.owner → r = r'
  below : ∀ r ∈ t.waiters, ∀ a ∈ t.holders, a.owner = r.owner → le a.tag r.tag ∧ a.tag ≠ r.tag

section Acyclic

variable {t : LockTable M Tag Owner} {le : Tag → Tag → Prop} [IsLinearOrder Tag le]
  {ahead : Lock Tag Mode Owner → Lock Tag Mode Owner → Prop} [IsStrictOrder _ ahead]
  {r : Lock Tag Mode Owner}

/-- The request `r` comes before what `y` holds, or before what it asks for. -/
def Precedes (t : LockTable M Tag Owner) (le : Tag → Tag → Prop)
    (ahead : Lock Tag Mode Owner → Lock Tag Mode Owner → Prop) (r : Lock Tag Mode Owner)
    (y : Owner) : Prop :=
  (∃ a ∈ t.holders, a.owner = y ∧ le r.tag a.tag) ∨
    ∃ r' ∈ t.waiters, r'.owner = y ∧
      (le r.tag r'.tag ∧ r.tag ≠ r'.tag ∨ r.tag = r'.tag ∧ ahead r' r)

section

variable (h : t.Ascending le)

include h

omit [IsStrictOrder _ ahead] in
theorem Ascending.precedes_request {r' : Lock Tag Mode Owner} {y : Owner}
    (hprec : Precedes t le ahead r y) (hr' : r' ∈ t.waiters) (hy : r'.owner = y) :
    le r.tag r'.tag ∧ r.tag ≠ r'.tag ∨ r.tag = r'.tag ∧ ahead r' r := by
  rcases hprec with ⟨a, ha, hay, hle⟩ | ⟨r'', hr'', hy'', hstep⟩
  · obtain ⟨hle', hne⟩ := h.below r' hr' a ha (hay.trans hy.symm)
    refine .inl ⟨trans_of le hle hle', fun heq => hne ?_⟩
    rw [heq] at hle
    exact antisymm_of le hle' hle
  · obtain rfl := h.single r' hr' r'' hr'' (hy.trans hy''.symm)
    exact hstep

theorem Ascending.precedes_step {y z : Owner}
    (hprec : Precedes t le ahead r y) (hwaits : t.WaitsFor ahead y z) :
    Precedes t le ahead r z := by
  obtain ⟨r', hr', hy, a, hz, ⟨htag, -, -⟩, ha⟩ := hwaits
  have hstep := h.precedes_request hprec hr' hy
  have hle : le r.tag r'.tag := by
    rcases hstep with ⟨hle, -⟩ | ⟨heq, -⟩
    · exact hle
    · rw [heq]
      exact refl_of le _
  rcases ha with ha | ⟨ha, hahead⟩
  · exact .inl ⟨a, ha, hz, by rw [htag]; exact hle⟩
  · refine .inr ⟨a, ha, hz, ?_⟩
    -- the two requests are for one tag, so the places in its queue decide
    rw [htag]
    rcases hstep with hlt | ⟨heq, hahead'⟩
    · exact .inl hlt
    · exact .inr ⟨heq, trans_of ahead hahead hahead'⟩

theorem Ascending.precedes_of_waits {y z : Owner}
    (hprec : Precedes t le ahead r y) (hwaits : Relation.ReflTransGen (t.WaitsFor ahead) y z) :
    Precedes t le ahead r z := by
  induction hwaits with
  | refl => exact hprec
  | tail _ hstep ih => exact h.precedes_step ih hstep

/-- **Locks taken in one order are waited for without a cycle.** -/
theorem Ascending.acyclic (x : Owner) : ¬ Relation.TransGen (t.WaitsFor ahead) x x := by
  intro hcycle
  -- the first request of the cycle precedes everything on it, itself included
  obtain ⟨y, hfirst, hrest⟩ := Relation.TransGen.head'_iff.mp hcycle
  obtain ⟨r, hr, hx, a, hy, ⟨htag, -, -⟩, ha⟩ := hfirst
  have hprec : Precedes t le ahead r y := by
    rcases ha with ha | ⟨ha, hahead⟩
    · exact .inl ⟨a, ha, hy, by rw [htag]; exact refl_of le _⟩
    · exact .inr ⟨a, ha, hy, .inr ⟨htag.symm, hahead⟩⟩
  have hall : Precedes t le ahead r x := h.precedes_of_waits hprec hrest
  rcases h.precedes_request hall hr hx with ⟨-, hne⟩ | ⟨-, hahead⟩
  · exact hne rfl
  · exact irrefl_of ahead r hahead

end

end Acyclic

/-! ### The waiting requests -/

variable [DecidableEq Tag] [DecidableEq Mode] [DecidableEq Owner]
  {t t' : LockTable M Tag Owner} {r : Lock Tag Mode Owner} {nowait : Bool}

theorem acquire_waiters (h : (t.acquire r nowait).2 ≠ .wait) :
    (t.acquire r nowait).1.waiters = t.waiters := by
  unfold acquire at h ⊢
  split
  · rfl
  · next hr =>
    rw [dif_neg hr] at h
    split
    · rfl
    · next hc =>
      rw [dif_neg hc] at h
      cases nowait with
      | true => rfl
      | false => exact absurd rfl h

theorem acquire_wait (h : (t.acquire r nowait).2 = .wait) :
    (t.acquire r nowait).1.waiters = r :: t.waiters ∧ r ∉ t.holders := by
  unfold acquire at h ⊢
  by_cases hr : r ∈ t.holders
  · rw [dif_pos hr] at h
    cases h
  · rw [dif_neg hr] at h ⊢
    split
    · next hc =>
      rw [dif_pos hc] at h
      cases h
    · next hc =>
      rw [dif_neg hc] at h
      cases nowait with
      | true => cases h
      | false => exact ⟨rfl, hr⟩

theorem acquire_eq_ok (hr : r ∉ t.holders) (hwaiters : ∀ a ∈ t.waiters, ¬ a.Conflicts M r)
    (hholders : ∀ a ∈ t.holders, ¬ a.Conflicts M r) : (t.acquire r nowait).2 = .ok := by
  unfold acquire
  rw [dif_neg hr, dif_pos ⟨hwaiters, hholders⟩]

theorem acquire_eq_wait (hr : r ∉ t.holders) {a : Lock Tag Mode Owner} (ha : a ∈ t.holders)
    (hconflict : a.Conflicts M r) : (t.acquire r false).2 = .wait := by
  unfold acquire
  rw [dif_neg hr, dif_neg fun h => h.2 a ha hconflict]
  rfl

theorem wake_waiters (h : t.wake r = some t') : t'.waiters = t.waiters.erase r ∧ r ∈ t.waiters := by
  unfold wake at h
  split at h
  · next hc =>
    cases h
    exact ⟨rfl, hc.1⟩
  · cases h

end LockTable
end NeurDB
