import NeurDB.Framework.System

/-!
# A lock manager

A lock table keeps the granted locks and the requests that wait. A lock is
granted to an owner on a tag in a mode, and may be granted to the same owner
several times: each release takes one grant away.

The table carries its safety property: two owners never hold conflicting modes
on one tag (`LockTable.compatible`). The operations build tables, so the
property holds in every state of every system that keeps one.

* `acquire` grants at once when the owner already holds the same lock, or when
  no other owner holds or waits for a conflicting mode; otherwise it refuses
  (`nowait`) or enqueues the request;
* `wake` grants a waiting request once no other owner holds a conflicting mode.
  Which of several waiters is woken is left open;
* `release` takes one grant away and `releaseAll` all those of an owner.
-/

namespace NeurDB

open List

/-- The modes of a lock method and which of them conflict. -/
structure LockMethod (Mode : Type) where
  conflict : Mode → Mode → Bool
  conflict_symm : ∀ a b, conflict a b = conflict b a

/-- A lock, granted or requested. -/
structure Lock (Tag Mode Owner : Type) where
  tag : Tag
  mode : Mode
  owner : Owner
  deriving DecidableEq

/-- What a request for a lock came to. -/
inductive LockAcquireResult where
  | ok
  | alreadyHeld
  | notAvail
  /-- The request waits; the caller goes on when it is granted. -/
  | wait
  deriving DecidableEq, Repr

variable {Tag Mode Owner : Type}

/-- Two locks of different owners that cannot be held together. -/
def Lock.Conflicts (M : LockMethod Mode) (a b : Lock Tag Mode Owner) : Prop :=
  a.tag = b.tag ∧ a.owner ≠ b.owner ∧ M.conflict a.mode b.mode = true

instance [DecidableEq Tag] [DecidableEq Owner] (M : LockMethod Mode)
    (a b : Lock Tag Mode Owner) : Decidable (a.Conflicts M b) :=
  inferInstanceAs (Decidable (_ ∧ _ ∧ _))

theorem Lock.Conflicts.symm {M : LockMethod Mode} {a b : Lock Tag Mode Owner}
    (h : a.Conflicts M b) : b.Conflicts M a :=
  ⟨h.1.symm, h.2.1.symm, by rw [M.conflict_symm]; exact h.2.2⟩

/-- A lock table for the lock method `M`. -/
structure LockTable (M : LockMethod Mode) (Tag Owner : Type) where
  /-- The granted locks, one entry for each grant. -/
  holders : List (Lock Tag Mode Owner)
  waiters : List (Lock Tag Mode Owner)
  /-- No two owners hold conflicting locks. -/
  compatible : ∀ a ∈ holders, ∀ b ∈ holders, ¬ a.Conflicts M b

namespace LockTable

variable {M : LockMethod Mode} [DecidableEq Tag] [DecidableEq Mode] [DecidableEq Owner]

omit [DecidableEq Tag] [DecidableEq Mode] [DecidableEq Owner] in
/-- The table in which nothing is held. -/
def empty : LockTable M Tag Owner := ⟨[], [], by simp⟩

variable {t : LockTable M Tag Owner} {r : Lock Tag Mode Owner} {nowait : Bool}

omit [DecidableEq Tag] [DecidableEq Mode] [DecidableEq Owner] in
theorem compatible_cons (h : ∀ a ∈ t.holders, ¬ a.Conflicts M r) :
    ∀ a ∈ r :: t.holders, ∀ b ∈ r :: t.holders, ¬ a.Conflicts M b := by
  intro a ha b hb
  rcases mem_cons.mp ha with rfl | ha'
  · rcases mem_cons.mp hb with rfl | hb'
    · exact fun hc => hc.2.1 rfl
    · exact fun hc => h b hb' hc.symm
  · rcases mem_cons.mp hb with rfl | hb'
    · exact h a ha'
    · exact t.compatible a ha' b hb'

/-- Grant `r`, which conflicts with no granted lock. -/
def grant (t : LockTable M Tag Owner) (r : Lock Tag Mode Owner)
    (h : ∀ a ∈ t.holders, ¬ a.Conflicts M r) : LockTable M Tag Owner :=
  { t with holders := r :: t.holders, compatible := compatible_cons h }

/-- Ask for the lock `r`. -/
def acquire (t : LockTable M Tag Owner) (r : Lock Tag Mode Owner) (nowait : Bool) :
    LockTable M Tag Owner × LockAcquireResult :=
  if hr : r ∈ t.holders then (t.grant r fun a ha => t.compatible a ha r hr, .alreadyHeld)
  else if hc : (∀ a ∈ t.waiters, ¬ a.Conflicts M r) ∧ ∀ a ∈ t.holders, ¬ a.Conflicts M r then
    (t.grant r hc.2, .ok)
  else if nowait then (t, .notAvail)
  else ({ t with waiters := r :: t.waiters }, .wait)

/-- Grant the waiting request `r`; `none` while it must go on waiting. -/
def wake (t : LockTable M Tag Owner) (r : Lock Tag Mode Owner) :
    Option (LockTable M Tag Owner) :=
  if h : r ∈ t.waiters ∧ ∀ a ∈ t.holders, ¬ a.Conflicts M r then
    some { t.grant r h.2 with waiters := t.waiters.erase r }
  else none

/-- Take one grant of `r` away. -/
def release (t : LockTable M Tag Owner) (r : Lock Tag Mode Owner) : LockTable M Tag Owner where
  holders := t.holders.erase r
  waiters := t.waiters
  compatible := fun a ha b hb =>
    t.compatible a (List.mem_of_mem_erase ha) b (List.mem_of_mem_erase hb)

omit [DecidableEq Tag] [DecidableEq Mode] in
/-- Take away every grant and every request of `o`. -/
def releaseAll (t : LockTable M Tag Owner) (o : Owner) : LockTable M Tag Owner where
  holders := t.holders.filter (·.owner ≠ o)
  waiters := t.waiters.filter (·.owner ≠ o)
  compatible := fun a ha b hb =>
    t.compatible a (List.mem_of_mem_filter ha) b (List.mem_of_mem_filter hb)

/-! ### What the operations do to the granted locks -/

theorem acquire_granted (h : (t.acquire r nowait).2 = .ok ∨ (t.acquire r nowait).2 = .alreadyHeld) :
    (t.acquire r nowait).1.holders = r :: t.holders := by
  unfold acquire at h ⊢
  split
  · rfl
  · next hr =>
    rw [dif_neg hr] at h
    split
    · rfl
    · next hc =>
      rw [dif_neg hc] at h
      cases nowait <;> simp at h

theorem acquire_refused (h : (t.acquire r nowait).2 = .notAvail ∨ (t.acquire r nowait).2 = .wait) :
    (t.acquire r nowait).1.holders = t.holders := by
  unfold acquire at h ⊢
  split
  · next hr =>
    rw [dif_pos hr] at h
    simp at h
  · next hr =>
    rw [dif_neg hr] at h
    split
    · next hc =>
      rw [dif_pos hc] at h
      simp at h
    · cases nowait <;> rfl

theorem wake_holders {t' : LockTable M Tag Owner} (h : t.wake r = some t') :
    t'.holders = r :: t.holders := by
  unfold wake at h
  split at h
  · cases h
    rfl
  · cases h

omit [DecidableEq Tag] [DecidableEq Mode] in
@[simp] theorem mem_releaseAll {o : Owner} :
    r ∈ (t.releaseAll o).holders ↔ r ∈ t.holders ∧ r.owner ≠ o := by
  simp [releaseAll, mem_filter]

/-- The grants of other owners survive `releaseAll`, with their number. -/
theorem count_releaseAll_of_ne {o : Owner} (h : r.owner ≠ o) :
    (t.releaseAll o).holders.count r = t.holders.count r :=
  count_filter (by simpa using h)

theorem count_releaseAll_self : (t.releaseAll r.owner).holders.count r = 0 :=
  count_eq_zero_of_not_mem (by simp)

omit [DecidableEq Tag] [DecidableEq Mode] [DecidableEq Owner] in
/-- **Exclusion.** Two owners do not hold conflicting locks on one tag. -/
theorem exclusion (t : LockTable M Tag Owner) {a b : Lock Tag Mode Owner}
    (ha : a ∈ t.holders) (hb : b ∈ t.holders) (htag : a.tag = b.tag)
    (hmode : M.conflict a.mode b.mode = true) : a.owner = b.owner := by
  by_contra hne
  exact t.compatible a ha b hb ⟨htag, hne, hmode⟩

end LockTable

end NeurDB
