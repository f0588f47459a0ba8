import NeurDB.Framework.Precedence

/-!
# Backward validation

The argument behind an optimistic commit protocol, on its own. A transaction reads, then
takes exclusive locks on what it will write, then passes its **point**, after which it only
*checks* its reads, writes under the locks it holds, and gives the locks back. A check of a
read succeeds when nobody else holds the lock of the key and the key was not written since.

The order of the points serializes every transaction all of whose reads were checked
(`conflictSerializable_of_reachable`). The invariant is about pairs of transactions: whenever
`x` wrote `k` — or had its read of `k` checked — anybody who holds the lock of `k`, or
conflicts with `x` on `k` later, passes its point after `x` (`Follows`).

Nothing is assumed about how keys are mapped to locks; distinct keys may share one.
-/

namespace NeurDB.Validation

open List

variable {Tx Key Tag : Type}

/-! ### Histories and their last writers -/

section LastWriter

variable [DecidableEq Key]

/-- The writer of `k` that comes last in `h`. -/
def lastWriter (h : List (Op Tx Key)) (k : Key) : Option Tx :=
  h.foldl (fun w op => if op.isWrite = true ∧ op.key = k then some op.tx else w) none

theorem lastWriter_append_singleton (h : List (Op Tx Key)) (op : Op Tx Key) (k : Key) :
    lastWriter (h ++ [op]) k =
      if op.isWrite = true ∧ op.key = k then some op.tx else lastWriter h k := by
  rw [lastWriter, foldl_append]
  rfl

@[simp] theorem lastWriter_append_read (h : List (Op Tx Key)) (x : Tx) (k k' : Key) :
    lastWriter (h ++ [.read x k']) k = lastWriter h k := by
  rw [lastWriter_append_singleton, if_neg (by simp [Op.isWrite])]

@[simp] theorem lastWriter_append_write_self (h : List (Op Tx Key)) (x : Tx) (k : Key) :
    lastWriter (h ++ [.write x k]) k = some x := by
  rw [lastWriter_append_singleton, if_pos ⟨rfl, rfl⟩]
  rfl

variable {k : Key}

theorem lastWriter_append_write_of_ne (h : List (Op Tx Key)) (x : Tx) {k' : Key} (hne : k' ≠ k) :
    lastWriter (h ++ [.write x k']) k = lastWriter h k := by
  rw [lastWriter_append_singleton, if_neg (fun hc => hne hc.2)]

theorem mem_of_lastWriter {h : List (Op Tx Key)} {z : Tx} (hz : lastWriter h k = some z) :
    Op.write z k ∈ h := by
  induction h using reverseRecOn with
  | nil => cases hz
  | append_singleton h op ih =>
    rw [lastWriter_append_singleton] at hz
    split at hz
    · next hop =>
      cases op with
      | read => cases hop.1
      | write x k' =>
        obtain rfl : x = z := Option.some.inj hz
        obtain rfl : k' = k := hop.2
        exact mem_append_right _ mem_cons_self
    · exact mem_append_left _ (ih hz)

theorem lastWriter_append_of_mem (h₁ : List (Op Tx Key)) {h₂ : List (Op Tx Key)} {y : Tx}
    (hy : Op.write y k ∈ h₂) : ∃ z, lastWriter (h₁ ++ h₂) k = some z ∧ Op.write z k ∈ h₂ := by
  induction h₂ using reverseRecOn with
  | nil => cases hy
  | append_singleton h₂ op ih =>
    rw [← append_assoc, lastWriter_append_singleton]
    by_cases hop : op.isWrite = true ∧ op.key = k
    · rw [if_pos hop]
      cases op with
      | read => cases hop.1
      | write x k' =>
        obtain rfl : k' = k := hop.2
        exact ⟨x, rfl, mem_append_right _ mem_cons_self⟩
    · rw [if_neg hop]
      have hy' : Op.write y k ∈ h₂ := by
        rcases mem_append_singleton.mp hy with hy | rfl
        · exact hy
        · exact absurd ⟨rfl, rfl⟩ hop
      obtain ⟨z, hz, hmem⟩ := ih hy'
      exact ⟨z, hz, mem_append_left _ hmem⟩

/-- **An unchanged last writer means no write.** In a history without repetition, if the last
writer of `k` is the same before and after a later part, that part does not write `k`. -/
theorem not_mem_of_lastWriter_eq {h₁ h₂ : List (Op Tx Key)} (hnd : (h₁ ++ h₂).Nodup)
    (heq : lastWriter (h₁ ++ h₂) k = lastWriter h₁ k) (y : Tx) : Op.write y k ∉ h₂ := by
  intro hy
  obtain ⟨z, hz, hmem⟩ := lastWriter_append_of_mem h₁ hy
  have hmem₁ : Op.write z k ∈ h₁ := mem_of_lastWriter (heq ▸ hz)
  exact disjoint_of_nodup_append hnd hmem₁ hmem

end LastWriter

/-! ### The protocol -/

/-- The state of the protocol. -/
structure State (Tx Key Tag : Type) where
  /-- The exclusive locks held. -/
  holds : Tx → Tag → Prop
  /-- The last writer each transaction saw when it read a key. -/
  seen : Tx → Key → Option Tx
  /-- The reads that were checked. -/
  checked : Tx → Key → Prop
  hist : List (Op Tx Key)
  /-- The transactions that passed their point, in order. -/
  points : List Tx

variable [DecidableEq Tx] [DecidableEq Key]

/-- The steps, for a mapping `tag` of keys to locks. -/
inductive Step (tag : Key → Tag) : State Tx Key Tag → State Tx Key Tag → Prop
  | read (s : State Tx Key Tag) (x : Tx) (k : Key) :
      x ∉ s.points → Op.read x k ∉ s.hist →
      Step tag s { s with
        hist := s.hist ++ [.read x k],
        seen := fun y k' => if y = x ∧ k' = k then lastWriter s.hist k else s.seen y k' }
  | acquire (s : State Tx Key Tag) (x : Tx) (t : Tag) :
      x ∉ s.points → (∀ y, y ≠ x → ¬ s.holds y t) →
      Step tag s { s with holds := fun y t' => (y = x ∧ t' = t) ∨ s.holds y t' }
  | point (s : State Tx Key Tag) (x : Tx) :
      x ∉ s.points → Step tag s { s with points := s.points ++ [x] }
  | check (s : State Tx Key Tag) (x : Tx) (k : Key) :
      x ∈ s.points → (∀ y, y ≠ x → ¬ s.holds y (tag k)) → s.seen x k = lastWriter s.hist k →
      Step tag s { s with checked := fun y k' => (y = x ∧ k' = k) ∨ s.checked y k' }
  | write (s : State Tx Key Tag) (x : Tx) (k : Key) :
      x ∈ s.points → s.holds x (tag k) → Op.write x k ∉ s.hist →
      Step tag s { s with hist := s.hist ++ [.write x k] }
  | release (s : State Tx Key Tag) (holds' : Tx → Tag → Prop) :
      (∀ y t, holds' y t → s.holds y t) → Step tag s { s with holds := holds' }

/-- The protocol as a system; it starts with nothing held and nothing done. -/
def system (tag : Key → Tag) : System (State Tx Key Tag) Unit where
  init s := (∀ x t, ¬ s.holds x t) ∧ (∀ x k, ¬ s.checked x k) ∧ s.hist = [] ∧ s.points = []
  step s _ s' := Step tag s s'

/-! ### The invariant -/

/-- `y` has not passed its point yet, or passed it after `x`. -/
def Follows (points : List Tx) (x y : Tx) : Prop := y ∉ points ∨ Before points x y

omit [DecidableEq Tx] in
theorem Follows.append {points : List Tx} {x y : Tx} (h : Follows points x y)
    (hx : x ∈ points) (z : Tx) : Follows (points ++ [z]) x y := by
  rcases h with hy | h
  · by_cases hyz : y = z
    · subst hyz
      exact Or.inr (Before.append_self hx y)
    · left
      rw [mem_append_singleton]
      exact not_or.mpr ⟨hy, hyz⟩
  · exact Or.inr (h.append z)

/-- What holds in every reachable state. -/
structure Inv (tag : Key → Tag) (s : State Tx Key Tag) : Prop where
  hist_nodup : s.hist.Nodup
  points_nodup : s.points.Nodup
  /-- A lock has one holder. -/
  exclusive : ∀ x y t, s.holds x t → s.holds y t → x = y
  write_point : ∀ x k, Op.write x k ∈ s.hist → x ∈ s.points
  checked_point : ∀ x k, s.checked x k → x ∈ s.points
  /-- What was seen is the last writer where the read stands in the history. -/
  seen_eq : ∀ x k, Op.read x k ∈ s.hist →
    ∃ h₁ h₂, s.hist = h₁ ++ .read x k :: h₂ ∧ s.seen x k = lastWriter h₁ k
  write_holds : ∀ x y k, Op.write x k ∈ s.hist → y ≠ x → s.holds y (tag k) →
    Follows s.points x y
  write_op : ∀ x (op : Op Tx Key), Before s.hist (.write x op.key) op → op.tx ≠ x →
    Follows s.points x op.tx
  read_holds : ∀ x y k, Op.read x k ∈ s.hist → s.checked x k → y ≠ x → s.holds y (tag k) →
    Follows s.points x y
  read_write : ∀ x y k, s.checked x k → Before s.hist (.read x k) (.write y k) → y ≠ x →
    Follows s.points x y

variable {s : State Tx Key Tag} {tag : Key → Tag}

theorem Inv.initial (h : (system tag).init s) : Inv tag s := by
  obtain ⟨hholds, hchecked, hhist, hpoints⟩ := h
  constructor
  case hist_nodup => rw [hhist]; exact nodup_nil
  case points_nodup => rw [hpoints]; exact nodup_nil
  case exclusive => exact fun x _ t hx => absurd hx (hholds x t)
  case write_point => rw [hhist]; exact nofun
  case checked_point => exact fun x k h => absurd h (hchecked x k)
  case seen_eq => rw [hhist]; exact nofun
  case write_holds => exact fun _ y k _ _ h => absurd h (hholds y (tag k))
  case write_op => rw [hhist]; exact fun _ _ h => absurd h.mem_left not_mem_nil
  case read_holds => exact fun _ y k _ _ _ h => absurd h (hholds y (tag k))
  case read_write => exact fun x _ k h => absurd h (hchecked x k)

/-! ### Steps -/

section Step

variable {tag : Key → Tag} {s s' : State Tx Key Tag} {x : Tx} {k : Key}

section

variable (hI : Inv tag s)

include hI

omit [DecidableEq Tx] in
/-- An operation joins the history: a read before the point of its transaction, or a write after
the point and under the lock. The reader follows whoever wrote what it reads, and the writer all
who wrote the key or had a read of it checked. -/
theorem Inv.append {op : Op Tx Key} {seen : Tx → Key → Option Tx}
    (hnew : op ∉ s.hist) (hold : ∀ y k, Op.read y k ∈ s.hist → seen y k = s.seen y k)
    (hread : ∀ y k, op = .read y k → y ∉ s.points ∧ seen y k = lastWriter s.hist k)
    (hwrite : ∀ y k, op = .write y k → y ∈ s.points ∧ s.holds y (tag k)) :
    Inv tag { s with hist := s.hist ++ [op], seen } := by
  refine { hI with
    hist_nodup := nodup_append_singleton hI.hist_nodup hnew, write_point := ?write_point,
    seen_eq := ?seen_eq, write_holds := ?write_holds, write_op := ?write_op,
    read_holds := ?read_holds, read_write := ?read_write }
  case write_point =>
    intro y k hmem
    rcases mem_append_singleton.mp hmem with h | rfl
    · exact hI.write_point y k h
    · exact (hwrite y k rfl).1
  case seen_eq =>
    intro y k hmem
    rcases mem_append_singleton.mp hmem with h | rfl
    · obtain ⟨h₁, h₂, heq, hseen⟩ := hI.seen_eq y k h
      refine ⟨h₁, h₂ ++ [op], ?_, (hold y k h).trans hseen⟩
      show s.hist ++ [op] = _
      rw [heq, append_assoc]
      rfl
    · exact ⟨s.hist, [], rfl, (hread y k rfl).2⟩
  case write_holds =>
    intro y z k hmem hne hz
    rcases mem_append_singleton.mp hmem with h | rfl
    · exact hI.write_holds y z k h hne hz
    -- the writer holds the lock, so nobody else does
    · exact absurd (hI.exclusive z y _ hz (hwrite y k rfl).2) hne
  case write_op =>
    intro y op' hb hne
    rcases Before.append_singleton_iff.mp hb with h | ⟨hmem, rfl⟩
    · exact hI.write_op y op' h hne
    · cases op' with
      -- the reader has not passed its point
      | read x k => exact Or.inl (hread x k rfl).1
      -- the writer holds the lock now, which already made it follow `y`
      | write x k => exact hI.write_holds y x k hmem hne (hwrite x k rfl).2
  case read_holds =>
    intro y z k hmem hc hne hz
    rcases mem_append_singleton.mp hmem with h | rfl
    · exact hI.read_holds y z k h hc hne hz
    -- a read is checked after the point only
    · exact absurd (hI.checked_point y k hc) (hread y k rfl).1
  case read_write =>
    intro y z k hc hb hne
    rcases Before.append_singleton_iff.mp hb with h | ⟨hmem, rfl⟩
    · exact hI.read_write y z k hc h hne
    · exact hI.read_holds y z k hmem hc hne (hwrite z k rfl).2

theorem Inv.read (hx : x ∉ s.points) (hnew : Op.read x k ∉ s.hist) :
    Inv tag { s with
      hist := s.hist ++ [.read x k],
      seen := fun y k' => if y = x ∧ k' = k then lastWriter s.hist k else s.seen y k' } := by
  refine hI.append hnew ?_ ?_ ?_
  · intro y k' hmem
    refine if_neg ?_
    rintro ⟨rfl, rfl⟩
    exact hnew hmem
  · intro y k' heq
    cases heq
    exact ⟨hx, if_pos ⟨rfl, rfl⟩⟩
  · nofun

/-- Who takes a lock has not passed its point, so it follows all who wrote under the lock. -/
theorem Inv.acquire {t : Tag} (hx : x ∉ s.points) (hfree : ∀ y, y ≠ x → ¬ s.holds y t) :
    Inv tag { s with holds := fun y t' => (y = x ∧ t' = t) ∨ s.holds y t' } := by
  refine { hI with
    exclusive := ?exclusive, write_holds := ?write_holds, read_holds := ?read_holds }
  case exclusive =>
    rintro y z t' (⟨rfl, rfl⟩ | hy) (⟨rfl, ht⟩ | hz)
    · rfl
    · by_contra hne
      exact hfree z (fun h => hne h.symm) hz
    · by_contra hne
      exact hfree y hne (ht ▸ hy)
    · exact hI.exclusive y z t' hy hz
  case write_holds =>
    rintro y z k hmem hne (⟨rfl, -⟩ | hz)
    · exact Or.inl hx
    · exact hI.write_holds y z k hmem hne hz
  case read_holds =>
    rintro y z k hmem hc hne (⟨rfl, -⟩ | hz)
    · exact Or.inl hx
    · exact hI.read_holds y z k hmem hc hne hz

omit [DecidableEq Tx] in
/-- The points only grow at their end. -/
theorem Inv.point (hx : x ∉ s.points) : Inv tag { s with points := s.points ++ [x] } := by
  have hmono : ∀ y, y ∈ s.points → y ∈ s.points ++ [x] := fun y => mem_append_left _
  constructor
  case hist_nodup => exact hI.hist_nodup
  case points_nodup => exact nodup_append_singleton hI.points_nodup hx
  case exclusive => exact hI.exclusive
  case write_point => exact fun y k h => hmono y (hI.write_point y k h)
  case checked_point => exact fun y k h => hmono y (hI.checked_point y k h)
  case seen_eq => exact hI.seen_eq
  case write_holds =>
    intro y z k hmem hne hz
    exact (hI.write_holds y z k hmem hne hz).append (hI.write_point y k hmem) x
  case write_op =>
    intro y op hb hne
    exact (hI.write_op y op hb hne).append (hI.write_point y _ hb.mem_left) x
  case read_holds =>
    intro y z k hmem hc hne hz
    exact (hI.read_holds y z k hmem hc hne hz).append (hI.checked_point y k hc) x
  case read_write =>
    intro y z k hc hb hne
    exact (hI.read_write y z k hc hb hne).append (hI.checked_point y k hc) x

omit [DecidableEq Tx] in
/-- **A check** finds the lock free and the last writer unchanged: nobody is about to write the
key, and nobody has written it since the read. -/
theorem Inv.check (hx : x ∈ s.points) (hfree : ∀ y, y ≠ x → ¬ s.holds y (tag k))
    (hseen : s.seen x k = lastWriter s.hist k) :
    Inv tag { s with checked := fun y k' => (y = x ∧ k' = k) ∨ s.checked y k' } := by
  refine { hI with
    checked_point := ?checked_point, read_holds := ?read_holds, read_write := ?read_write }
  case checked_point =>
    rintro y k' (⟨rfl, -⟩ | h)
    · exact hx
    · exact hI.checked_point y k' h
  case read_holds =>
    rintro y z k' hmem (⟨rfl, rfl⟩ | hc) hne hz
    -- nobody else holds the lock at the check
    · exact absurd hz (hfree z hne)
    · exact hI.read_holds y z k' hmem hc hne hz
  case read_write =>
    rintro y z k' (⟨rfl, rfl⟩ | hc) hb hne
    · -- the last writer is the one that was seen, so nobody wrote the key after the read
      obtain ⟨h₁, h₂, heq, hlast⟩ := hI.seen_eq y k' hb.mem_left
      have hnd : (h₁ ++ .read y k' :: h₂).Nodup := heq ▸ hI.hist_nodup
      have hsame : lastWriter (h₁ ++ .read y k' :: h₂) k' = lastWriter h₁ k' := by
        rw [← heq, ← hlast, hseen]
      have hz : Op.write z k' ∈ h₂ := Before.mem_of_split hnd (heq ▸ hb)
      exact absurd (mem_cons_of_mem _ hz) (not_mem_of_lastWriter_eq hnd hsame z)
    · exact hI.read_write y z k' hc hb hne

omit [DecidableEq Tx] in
theorem Inv.write (hx : x ∈ s.points) (hholds : s.holds x (tag k)) (hnew : Op.write x k ∉ s.hist) :
    Inv tag { s with hist := s.hist ++ [.write x k] } := by
  refine hI.append hnew (fun _ _ _ => rfl) ?_ ?_
  · nofun
  · intro y k' heq
    cases heq
    exact ⟨hx, hholds⟩

omit [DecidableEq Tx] in
theorem Inv.release {holds' : Tx → Tag → Prop}
    (hsub : ∀ y t, holds' y t → s.holds y t) : Inv tag { s with holds := holds' } := by
  refine { hI with
    exclusive := ?exclusive, write_holds := ?write_holds, read_holds := ?read_holds }
  case exclusive => exact fun x y t hx hy => hI.exclusive x y t (hsub x t hx) (hsub y t hy)
  case write_holds => exact fun x y k h hne hy => hI.write_holds x y k h hne (hsub y _ hy)
  case read_holds => exact fun x y k h hc hne hy => hI.read_holds x y k h hc hne (hsub y _ hy)

/-- **The invariant survives a step.** -/
theorem Inv.step (hstep : Step tag s s') : Inv tag s' := by
  cases hstep with
  | read x k hx hnew => exact hI.read hx hnew
  | acquire x t hx hfree => exact hI.acquire hx hfree
  | point x hx => exact hI.point hx
  | check x k hx hfree hseen => exact hI.check hx hfree hseen
  | write x k hx hholds hnew => exact hI.write hx hholds hnew
  | release holds' hsub => exact hI.release hsub

end

end Step

theorem inv_of_reachable (hs : (system tag).Reachable s) : Inv tag s :=
  hs.invariant (fun _ => Inv.initial) fun _ _ _ hI hstep => hI.step hstep

/-- A transaction that passed its point and had every read checked. -/
def Validated (s : State Tx Key Tag) (x : Tx) : Prop :=
  x ∈ s.points ∧ ∀ k, Op.read x k ∈ s.hist → s.checked x k

/-- **Validated transactions are serialized by their points.** -/
theorem conflictSerializable_of_reachable (hs : (system tag).Reachable s) :
    ConflictSerializable s.hist (Validated s) := by
  have hI := inv_of_reachable hs
  refine conflictSerializable_of_order hI.points_nodup fun x y hx hy hxy => ?_
  have hfollows : Follows s.points x y := by
    obtain ⟨hne, k, h | h | h⟩ := precedes_iff.mp hxy
    · exact hI.write_op x (.write y k) h hne.symm
    · exact hI.write_op x (.read y k) h hne.symm
    · exact hI.read_write x y k (hx.2 k h.mem_left) h hne.symm
  exact hfollows.resolve_left fun h => h hy.1

end NeurDB.Validation
