import NeurDB.Framework.RankedQueue
import NeurDB.Nram.Policy

/-!
# The wait queue of a lock

`ProcSleep` of the server's `proc.c`, where it puts a process into the wait queue of a lock. Two
rules place it. The server's own rule puts a process that holds locks on the object before the
first waiter that its locks block. The rank of the process, which the policy sets, puts it before
the first waiter of a larger rank. One loop over the queue looks for the first waiter to which
either applies. A process that finds such a waiter may also get the lock at once.

There are no lock groups here.

`wait_queue_ordered` says what the place of a process in the queue depends on.
-/

namespace NeurDB.Nram

open List

/-! ### Ranks -/

/-- `a < b` for doubles: nothing is less or greater than `NaN`. -/
def Priority.lt : Priority → Priority → Bool
  | .finite a, .finite b => a < b
  | .negInf, .finite _ => true
  | .negInf, .posInf => true
  | .finite _, .posInf => true
  | _, _ => false

theorem Priority.lt_irrefl (a : Priority) : ¬ a.lt a = true := by
  cases a <;> simp [Priority.lt]

theorem Priority.lt_trans {a b c : Priority} (hab : a.lt b = true) (hbc : b.lt c = true) :
    a.lt c = true := by
  cases a <;> cases b <;> cases c <;> simp_all [Priority.lt]
  exact hab.trans hbc

/-! ### Locks -/

/-- `conflictTab[mode] & mask`. -/
def maskConflicts (mode : LockMode) (mask : Finset LockMode) : Bool :=
  decide (∃ m ∈ mask, lockMethod.conflict mode m = true)

/-- The granted side of a `LOCK`: which process holds it in which mode. -/
structure LockObject where
  holders : List (ℕ × LockMode)
  nodup : holders.Nodup

namespace LockObject

variable (lock : LockObject)

def grantMask : Finset LockMode := (lock.holders.map (·.2)).toFinset

/-- `granted[mode]`. -/
def granted (mode : LockMode) : ℕ := lock.holders.countP (·.2 = mode)

/-- The `holdMask` of a process. -/
def holdMask (pid : ℕ) : Finset LockMode :=
  ((lock.holders.filter (·.1 = pid)).map (·.2)).toFinset

/-- `GrantLock`. -/
def grantLock (pid : ℕ) (lockmode : LockMode) : LockObject :=
  ⟨lock.holders.insert (pid, lockmode), lock.nodup.insert⟩

/-- The conflicts with a mode that remain when the process' own lock is taken off. -/
def conflictsRemaining (pid : ℕ) (mode : LockMode) : ℕ :=
  lock.granted mode - if mode ∈ lock.holdMask pid then 1 else 0

/-- `LockCheckConflicts`. -/
def lockCheckConflicts (lockmode : LockMode) (pid : ℕ) : Bool :=
  if !maskConflicts lockmode lock.grantMask then false
  else (lockmode.conflicts.map (lock.conflictsRemaining pid)).sum ≠ 0

end LockObject

/-! ### `ProcSleep` -/

/-- A process in the wait queue; the time of its arrival is not part of the code. -/
structure Waiter where
  pid : ℕ
  rank : Priority
  waitLockMode : LockMode
  heldLocks : Finset LockMode
  arrival : ℕ

structure WaitState where
  lock : LockObject
  waitQueue : List Waiter
  /-- `nDep` of each process. -/
  nDep : ℕ → ℕ
  clock : ℕ

structure SleepRequest where
  pid : ℕ
  rank : Priority
  lockmode : LockMode

inductive ProcWaitStatus where
  | ok
  | waiting
  | error
  deriving DecidableEq

/-- Where the loop ended: how far it came, and at which waiter it stopped. -/
inductive Place where
  | tail
  | before (proc : Waiter) (back : List Waiter) (aheadRequests : Finset LockMode)
  /-- The waiter and the newcomer block each other. -/
  | earlyDeadlock (proc : Waiter)

/-- The loop of `ProcSleep`. The waiters that it passes are collected. -/
def findPlace (me : Waiter) (aheadRequests : Finset LockMode) (front : List Waiter) :
    List Waiter → List Waiter × Place
  | [] => (front, .tail)
  | proc :: back =>
    if me.heldLocks ≠ ∅ ∧ maskConflicts proc.waitLockMode me.heldLocks then
      if maskConflicts me.waitLockMode proc.heldLocks then (front, .earlyDeadlock proc)
      else (front, .before proc back aheadRequests)
    else if me.rank.lt proc.rank then (front, .before proc back aheadRequests)
    else findPlace me (insert proc.waitLockMode aheadRequests) (front ++ [proc]) back

/-- The number of a lock mode, from `AccessShareLock` = 1 on. -/
def LockMode.number (mode : LockMode) : ℕ := mode.ctorIdx + 1

/-- `proc->nDep++` for the waiters the loop looks at. Their conflicts, a set of bits, are tested
against the number of the new lock mode, not against its bit. -/
def countDependents (lockmode : LockMode) (visited : List Waiter) (nDep : ℕ → ℕ) (pid : ℕ) : ℕ :=
  nDep pid + visited.countP fun w =>
    w.pid = pid ∧ w.waitLockMode.conflicts.any fun mode => lockmode.number.testBit mode.number

/-- The process as it will stand in the queue. -/
def newcomer (s : WaitState) (r : SleepRequest) : Waiter :=
  ⟨r.pid, r.rank, r.lockmode, s.lock.holdMask r.pid, s.clock⟩

/-- `ProcSleep`, up to the sleep. A process that finds a deadlock is put into the queue and taken
out at once. -/
def procSleep (s : WaitState) (r : SleepRequest) : ProcWaitStatus × WaitState :=
  let me := newcomer s r
  match findPlace me ∅ [] s.waitQueue with
  | (front, .tail) =>
    (.waiting, { s with
      waitQueue := front ++ [me]
      nDep := countDependents r.lockmode front s.nDep
      clock := s.clock + 1 })
  | (front, .before proc back aheadRequests) =>
    let nDep := countDependents r.lockmode (front ++ [proc]) s.nDep
    if !maskConflicts r.lockmode aheadRequests && !s.lock.lockCheckConflicts r.lockmode r.pid then
      (.ok, { s with lock := s.lock.grantLock r.pid r.lockmode, nDep })
    else
      (.waiting, { s with
        waitQueue := front ++ me :: proc :: back
        nDep
        clock := s.clock + 1 })
  | (front, .earlyDeadlock proc) =>
    (.error, { s with nDep := countDependents r.lockmode (front ++ [proc]) s.nDep })

/-! ### Conflicts with granted locks -/

variable {mask : Finset LockMode} {mode : LockMode} {s : WaitState}

@[simp] theorem maskConflicts_iff :
    maskConflicts mode mask = true ↔ ∃ m ∈ mask, lockMethod.conflict mode m = true :=
  decide_eq_true_iff

theorem maskConflicts_false :
    maskConflicts mode mask = false ↔ ∀ m ∈ mask, lockMethod.conflict mode m = false := by
  rw [← Bool.not_eq_true, maskConflicts_iff]
  push Not
  simp

namespace LockObject

variable {lock : LockObject} {pid : ℕ} {mode lockmode : LockMode}

theorem mem_holdMask : mode ∈ lock.holdMask pid ↔ (pid, mode) ∈ lock.holders := by
  simp [holdMask]

theorem granted_eq (lock : LockObject) (pid : ℕ) (mode : LockMode) :
    lock.granted mode = (lock.holders.countP fun h => h.1 ≠ pid ∧ h.2 = mode) +
      if mode ∈ lock.holdMask pid then 1 else 0 := by
  have hown : lock.holders.count (pid, mode) = if mode ∈ lock.holdMask pid then 1 else 0 := by
    rw [List.Nodup.count lock.nodup]
    simp only [mem_holdMask]
  have hsplit : ∀ l : List (ℕ × LockMode), l.countP (·.2 = mode) =
      (l.countP fun h => h.1 ≠ pid ∧ h.2 = mode) + l.count (pid, mode) := by
    intro l
    induction l with
    | nil => rfl
    | cons h l ih =>
      rw [countP_cons, countP_cons, count_cons, ih]
      obtain ⟨p, m⟩ := h
      by_cases hp : p = pid <;> by_cases hm : m = mode <;> simp [hp, hm] <;> omega
  rw [← hown]
  exact hsplit lock.holders

theorem conflictsRemaining_eq_zero_iff :
    lock.conflictsRemaining pid mode = 0 ↔ ∀ h ∈ lock.holders, h.1 ≠ pid → h.2 ≠ mode := by
  rw [conflictsRemaining, granted_eq lock pid mode, Nat.add_sub_cancel, countP_eq_zero]
  simp

/-- **`LockCheckConflicts`** finds the locks of other processes. -/
theorem lockCheckConflicts_eq_false_iff :
    lock.lockCheckConflicts lockmode pid = false ↔
      ∀ h ∈ lock.holders, h.1 ≠ pid → lockMethod.conflict lockmode h.2 = false := by
  unfold lockCheckConflicts
  split
  · next hmask =>
    -- no lock at all conflicts
    rw [Bool.not_eq_true', maskConflicts_false] at hmask
    refine ⟨fun _ h hh _ => hmask h.2 ?_, fun _ => rfl⟩
    exact mem_toFinset.mpr (mem_map_of_mem hh)
  · rw [decide_eq_false_iff_not, not_not, sum_eq_zero_iff]
    constructor
    · intro hzero h hh hpid
      by_contra hconflict
      have hmem : h.2 ∈ lockmode.conflicts := by simpa [lockMethod] using hconflict
      have hnone := hzero _ (mem_map_of_mem hmem)
      exact conflictsRemaining_eq_zero_iff.mp hnone h hh hpid rfl
    · intro hnone n hn
      obtain ⟨m, hm, rfl⟩ := mem_map.mp hn
      rw [conflictsRemaining_eq_zero_iff]
      rintro h hh hpid rfl
      have hconflict : lockMethod.conflict lockmode h.2 = true := by simpa [lockMethod] using hm
      rw [hnone h hh hpid] at hconflict
      cases hconflict

end LockObject

/-! ### The search -/

/-- The loop passes the waiter: the newcomer's locks do not block it, and its rank is not larger. -/
def Passes (me w : Waiter) : Prop :=
  maskConflicts w.waitLockMode me.heldLocks = false ∧ me.rank.lt w.rank = false

/-- The modes that the waiters ask for. -/
def requests (ws : List Waiter) : Finset LockMode := (ws.map Waiter.waitLockMode).toFinset

/-- What the search in a queue comes to. -/
def Found (me : Waiter) (queue front : List Waiter) : Place → Prop
  | .tail => queue = front ∧ ∀ w ∈ front, Passes me w
  | .before proc back aheadRequests => queue = front ++ proc :: back ∧ (∀ w ∈ front, Passes me w) ∧
      ¬ Passes me proc ∧ aheadRequests = requests front
  | .earlyDeadlock proc => maskConflicts proc.waitLockMode me.heldLocks = true

/-- **The search**, by induction on the rest of the queue. -/
theorem findPlace_found {me : Waiter} (front queue : List Waiter)
    (hfront : ∀ w ∈ front, Passes me w) :
    Found me (front ++ queue) (findPlace me (requests front) front queue).1
      (findPlace me (requests front) front queue).2 := by
  induction queue generalizing front with
  | nil => exact ⟨append_nil _, hfront⟩
  | cons proc back ih =>
    rw [findPlace]
    split
    · next hheld =>
      split
      · exact hheld.2
      · refine ⟨rfl, hfront, fun hpass => ?_, rfl⟩
        rw [hpass.1] at hheld
        cases hheld.2
    · next hheld =>
      split
      · next hrank =>
        refine ⟨rfl, hfront, fun hpass => ?_, rfl⟩
        rw [hpass.2] at hrank
        cases hrank
      · next hrank =>
        have hpass : Passes me proc := by
          refine ⟨?_, Bool.not_eq_true _ ▸ hrank⟩
          rw [maskConflicts_false]
          intro m hm
          by_contra hconflict
          refine hheld ⟨Finset.ne_empty_of_mem hm, maskConflicts_iff.mpr ⟨m, hm, ?_⟩⟩
          simpa using hconflict
        have hrequests :
            insert proc.waitLockMode (requests front) = requests (front ++ [proc]) := by
          ext m
          simp [requests]
        have hrest := ih (front ++ [proc])
          (forall_mem_append.mpr ⟨hfront, forall_mem_singleton.mpr hpass⟩)
        rw [append_assoc, singleton_append] at hrest
        rw [hrequests]
        exact hrest

/-- What `ProcSleep` can do with a place between `front` and `back`. -/
inductive Slept (s : WaitState) (r : SleepRequest) (front back : List Waiter) :
    ProcWaitStatus → WaitState → Prop
  | enqueued (nDep : ℕ → ℕ) :
      Slept s r front back .waiting
        { s with waitQueue := front ++ newcomer s r :: back, nDep, clock := s.clock + 1 }
  | granted (nDep : ℕ → ℕ) (hback : back ≠ [])
      (hahead : maskConflicts r.lockmode (requests front) = false)
      (hgranted : s.lock.lockCheckConflicts r.lockmode r.pid = false) :
      Slept s r front back .ok { s with lock := s.lock.grantLock r.pid r.lockmode, nDep }
  | refused (nDep : ℕ → ℕ) (hheld : s.lock.holdMask r.pid ≠ ∅) :
      Slept s r front back .error { s with nDep }

/-- The place: the newcomer passes what stands before it, and not the first that stands behind. -/
structure IsPlace (s : WaitState) (r : SleepRequest) (front back : List Waiter) : Prop where
  split : s.waitQueue = front ++ back
  passed : ∀ w ∈ front, Passes (newcomer s r) w
  stopped : ∀ w ∈ back.head?, ¬ Passes (newcomer s r) w

/-- **One call of `ProcSleep`.** If there is an early deadlock, the place does not matter. -/
theorem procSleep_cases (s : WaitState) (r : SleepRequest) :
    ∃ front back, Slept s r front back (procSleep s r).1 (procSleep s r).2 ∧
      ((procSleep s r).1 ≠ .error → IsPlace s r front back) := by
  have hfound : Found (newcomer s r) s.waitQueue _ _ :=
    findPlace_found [] s.waitQueue (by simp)
  have hempty : requests [] = ∅ := rfl
  rw [hempty] at hfound
  unfold procSleep
  dsimp only
  split
  · next front hplace =>
    rw [hplace] at hfound
    obtain ⟨hqueue, hpassed⟩ := hfound
    exact ⟨front, [], .enqueued _, fun _ => ⟨by simpa using hqueue, hpassed, by simp⟩⟩
  · next front proc back aheadRequests hplace =>
    rw [hplace] at hfound
    dsimp only at hfound
    obtain ⟨hqueue, hpassed, hstop, rfl⟩ := hfound
    have hisPlace : IsPlace s r front (proc :: back) := by
      refine ⟨hqueue, hpassed, ?_⟩
      rintro _ ⟨⟩
      exact hstop
    split
    · next hgrant =>
      rw [Bool.and_eq_true, Bool.not_eq_true', Bool.not_eq_true'] at hgrant
      exact ⟨front, proc :: back, .granted _ (by simp) hgrant.1 hgrant.2, fun _ => hisPlace⟩
    · exact ⟨front, proc :: back, .enqueued _, fun _ => hisPlace⟩
  · next front proc hplace =>
    rw [hplace] at hfound
    obtain ⟨m, hm, -⟩ := maskConflicts_iff.mp hfound
    exact ⟨front, [], .refused _ (Finset.ne_empty_of_mem hm), fun h => absurd rfl h⟩

/-! ### Runs of processes without locks -/

/-- The order of the queue. -/
def waitRanking : Ranking Waiter Priority where
  rank := Waiter.rank
  arrival := Waiter.arrival
  lt a b := a.lt b = true
  irrefl := Priority.lt_irrefl
  trans _ _ _ := Priority.lt_trans

/-- What happens to a lock: a process comes that holds no lock on the object, a process leaves the
queue, or locks are granted and released. -/
inductive QueueLabel where
  | sleep (r : SleepRequest)
  | leave (pid : ℕ)
  | relock (lock : LockObject)

def queueStep (s : WaitState) : QueueLabel → Option WaitState
  | .sleep r => if s.lock.holdMask r.pid = ∅ then some (procSleep s r).2 else none
  | .leave pid => some { s with waitQueue := s.waitQueue.filter (·.pid ≠ pid) }
  | .relock lock => some { s with lock }

/-- The lock with an empty queue, whoever holds it. -/
def queueSystem : System WaitState QueueLabel := .ofFun (fun s => s.waitQueue = []) queueStep

/-- The queue is sorted, and its processes came before now. -/
structure QueueInv (s : WaitState) : Prop where
  sorted : waitRanking.Sorted s.waitQueue
  arrived : ∀ w ∈ s.waitQueue, w.arrival < s.clock

theorem QueueInv.enqueue (h : QueueInv s) {r : SleepRequest}
    (hheld : s.lock.holdMask r.pid = ∅) {front back : List Waiter}
    (hplace : IsPlace s r front back) (nDep : ℕ → ℕ) :
    QueueInv { s with
      waitQueue := front ++ newcomer s r :: back, nDep, clock := s.clock + 1 } := by
  have hsorted := h.sorted
  have harrived := h.arrived
  rw [hplace.split] at hsorted harrived
  refine ⟨hsorted.insert (x := newcomer s r) ?_ ?_ ?_, ?_⟩
  · exact fun w hw => harrived w (mem_append_left _ hw)
  · intro w hw
    have hrank := (hplace.passed w hw).2
    exact Bool.not_eq_true _ ▸ hrank
  · intro w hw
    -- it holds nothing, so the loop stopped for the rank
    have hlocks : maskConflicts w.waitLockMode (newcomer s r).heldLocks = false := by
      rw [maskConflicts_false]
      intro m hm
      rw [show (newcomer s r).heldLocks = ∅ from hheld] at hm
      exact absurd hm (Finset.notMem_empty m)
    by_contra hrank
    exact hplace.stopped w hw ⟨hlocks, Bool.not_eq_true _ ▸ hrank⟩
  · have hlt : ∀ w ∈ front ++ back, w.arrival < s.clock + 1 :=
      fun w hw => Nat.lt_succ_of_lt (harrived w hw)
    rw [forall_mem_append] at hlt
    exact forall_mem_append.mpr ⟨hlt.1, forall_mem_cons.mpr ⟨Nat.lt_succ_self _, hlt.2⟩⟩

theorem QueueInv.step {s' : WaitState} {l : QueueLabel} (h : QueueInv s)
    (hstep : queueStep s l = some s') : QueueInv s' := by
  cases l with
  | sleep r =>
    rw [queueStep] at hstep
    split at hstep
    · next hheld =>
      cases hstep
      obtain ⟨front, back, hslept, hplace⟩ := procSleep_cases s r
      generalize procSleep s r = result at hslept hplace
      obtain ⟨status, s'⟩ := result
      cases hslept with
      | enqueued nDep => exact h.enqueue hheld (hplace (by simp)) nDep
      | granted nDep _ _ _ => exact ⟨h.sorted, h.arrived⟩
      | refused nDep hlocks => exact absurd hheld hlocks
    · cases hstep
  | leave pid =>
    cases hstep
    refine ⟨h.sorted.sublist filter_sublist, fun w hw => ?_⟩
    exact h.arrived w (mem_of_mem_filter hw)
  | relock lock =>
    cases hstep
    exact ⟨h.sorted, h.arrived⟩

theorem queueInv_of_reachable (hs : queueSystem.Reachable s) : QueueInv s := by
  refine hs.invariant ?_ fun _ _ _ h hstep => h.step hstep
  intro s hempty
  have hqueue : s.waitQueue = [] := hempty
  refine ⟨?_, ?_⟩
  · rw [hqueue]
    exact List.Pairwise.nil
  · rw [hqueue]
    exact nofun

/-- **The wait queue.** In every run of processes that hold no lock on the object, the queue is
sorted by rank and arrival. For any queue and any process: where it is enqueued, the waiters that
its locks block stand behind it, and the others keep their order; where the lock is granted at
once, the request conflicts with no lock of another process and no request before the place. -/
theorem wait_queue_ordered {s : WaitState} (hs : queueSystem.Reachable s) (t : WaitState)
    (r : SleepRequest) :
    waitRanking.Sorted s.waitQueue ∧
      ((procSleep t r).1 = .waiting → ∃ front back, IsPlace t r front back ∧
        (procSleep t r).2.waitQueue = front ++ newcomer t r :: back ∧
        ∀ w ∈ t.waitQueue, maskConflicts w.waitLockMode (t.lock.holdMask r.pid) = true →
          w ∉ front ∧ w ∈ back) ∧
      ((procSleep t r).1 = .ok → ∃ front back, IsPlace t r front back ∧ back ≠ [] ∧
        (∀ w ∈ front, lockMethod.conflict r.lockmode w.waitLockMode = false) ∧
        ∀ h ∈ t.lock.holders, h.1 ≠ r.pid → lockMethod.conflict r.lockmode h.2 = false) := by
  obtain ⟨front, back, hslept, hplace⟩ := procSleep_cases t r
  refine ⟨(queueInv_of_reachable hs).sorted, fun hwaiting => ?_, fun hok => ?_⟩
  · have hplace := hplace (by simp [hwaiting])
    refine ⟨front, back, hplace, ?_, fun w hw hconflict => ?_⟩
    · generalize procSleep t r = result at hslept hwaiting
      obtain ⟨status, t'⟩ := result
      cases hslept with
      | enqueued nDep => rfl
      | granted _ _ _ _ | refused _ _ => cases hwaiting
    · have hfront : w ∉ front := by
        intro hmem
        have hpass := (hplace.passed w hmem).1
        rw [show (newcomer t r).heldLocks = t.lock.holdMask r.pid from rfl, hconflict] at hpass
        cases hpass
      rw [hplace.split] at hw
      exact ⟨hfront, (mem_append.mp hw).resolve_left hfront⟩
  · have hplace := hplace (by simp [hok])
    generalize procSleep t r = result at hslept hok
    obtain ⟨status, t'⟩ := result
    cases hslept with
    | enqueued _ | refused _ _ => cases hok
    | granted nDep hback hahead hgranted =>
      refine ⟨front, back, hplace, hback, fun w hw => ?_,
        LockObject.lockCheckConflicts_eq_false_iff.mp hgranted⟩
      exact maskConflicts_false.mp hahead _ (mem_toFinset.mpr (mem_map_of_mem hw))

/-! ### Two waiters -/

/-- The process 1 holds the lock. -/
def heldExclusively : WaitState := ⟨⟨[(1, .exclusive)], List.nodup_singleton _⟩, [], fun _ => 0, 0⟩

/-- The process 2 comes with rank 2, then the process 3 with rank 1. -/
def twoRequests : List QueueLabel :=
  [.sleep ⟨2, .finite 2, .exclusive⟩, .sleep ⟨3, .finite 1, .exclusive⟩]

/-- The process 4 comes with a rank between them. -/
def thirdRequest : SleepRequest := ⟨4, .finite (3 / 2), .exclusive⟩

/-- The process 1 asks for another lock: both waiters wait for the one it has. -/
def holderRequest : SleepRequest := ⟨1, .finite 3, .share⟩

theorem exec_twoRequests :
    ∃ s, System.exec queueStep heldExclusively twoRequests = some s ∧
      s.waitQueue.map Waiter.pid = [3, 2] ∧ (procSleep s thirdRequest).1 = .waiting ∧
      (procSleep s holderRequest).1 = .ok :=
  ⟨_, rfl, by decide +kernel, by decide +kernel, by decide +kernel⟩

/-- The process of the smaller rank stands first, the next one gets its place between the two, and
the holder gets its lock before them. -/
theorem two_waiters_ordered :
    ∃ s, queueSystem.Reachable s ∧ s.waitQueue.map Waiter.pid = [3, 2] ∧
      waitRanking.Sorted s.waitQueue ∧
      (∃ front back, IsPlace s thirdRequest front back ∧
        (procSleep s thirdRequest).2.waitQueue = front ++ newcomer s thirdRequest :: back) ∧
      ∃ front back, IsPlace s holderRequest front back ∧ back ≠ [] ∧
        ∀ w ∈ front, lockMethod.conflict .share w.waitLockMode = false := by
  obtain ⟨s, hexec, hqueue, hwaiting, hok⟩ := exec_twoRequests
  have hs : queueSystem.Reachable s := ⟨heldExclusively, twoRequests, rfl, .of_exec hexec⟩
  obtain ⟨hsorted, hplaced, -⟩ := wait_queue_ordered hs s thirdRequest
  obtain ⟨front, back, hplace, henqueued, -⟩ := hplaced hwaiting
  obtain ⟨front', back', hplace', hback, hfree, -⟩ :=
    (wait_queue_ordered hs s holderRequest).2.2 hok
  exact ⟨s, hs, hqueue, hsorted, ⟨front, back, hplace, henqueued⟩, front', back', hplace', hback,
    hfree⟩

end NeurDB.Nram
