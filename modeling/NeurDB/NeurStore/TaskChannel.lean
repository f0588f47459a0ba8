import NeurDB.Framework.Bytes
import NeurDB.Framework.RingBuffer

/-!
# The task channels of NeurStore

`pgext/ipc/channel.c`: a ring buffer of bytes in shared memory, a lock around it and a condition
variable. `NSChannelPush` copies a message as a whole, header and payload, to the tail of the
ring. `NSChannelPop` copies the header out at the head, reads the size of the payload from the
copy, and then takes header and payload together.

A process that calls is at one of three points of the loop of its call (`NSPhase`): about to test
`is_active`, about to take the lock, or asleep at the condition variable. The test is made
without the lock, so the channel may be destroyed between the test and the critical section. A
sleeper may wake at any time, it may be interrupted, and it exits if the postmaster is gone. The
milliseconds since the start of the call are a part of the label of a critical section.

The ring always holds whole messages (`taskChannel_fifo`). The framing is the invariant
(`NSChannelInv`); what a step may do to the ring is said once, by `NSChannelMove.of_step`.
-/

namespace NeurDB.NeurStore

open Function List

/-! ### Messages -/

/-- `NS_CHANNEL_BUFSIZE`. -/
def nsChannelBufsize : ℕ := 131072

theorem nsChannelBufsize_pos : 0 < nsChannelBufsize := by decide

/-- `NS_MSG_SIZE`. -/
def nsMsgSize : ℕ := 2048

/-- `NS_CHANNEL_TIMEOUT`, in milliseconds. -/
def nsChannelTimeout : ℤ := 20000

/-- `NSTASK_HDRSZ`: three words of four bytes. -/
def nsTaskHdrsz : ℕ := 12

inductive NSTaskType where
  | none
  | saveModel
  | saveModels
  | saveModelsFromPaths
  | saveModelDryRun
  | loadModel
  | inference
  | shutdown
  | cleanCache
  | ok
  | error
  deriving DecidableEq

/-- The enumeration as it is stored. -/
def NSTaskType.code : NSTaskType → BitVec 32
  | none => 0
  | saveModel => 1
  | saveModels => 2
  | saveModelsFromPaths => 3
  | saveModelDryRun => 4
  | loadModel => 5
  | inference => 6
  | shutdown => 7
  | cleanCache => 8
  | ok => 9
  | error => 10

/-- A message. The payload has as many bytes as the header says. -/
structure NSTaskMsg where
  type : BitVec 32
  payloadSize : BitVec 32
  respChannel : BitVec 32
  payload : List Byte
  payload_length : payload.length = payloadSize.toNat
  deriving DecidableEq

namespace NSTaskMsg

/-- The first `NSTASK_HDRSZ` bytes of a message in memory. -/
def header (m : NSTaskMsg) : List Byte :=
  leBytes 4 m.type.toNat ++ (leBytes 4 m.payloadSize.toNat ++ leBytes 4 m.respChannel.toNat)

/-- A message in memory. -/
def toBytes (m : NSTaskMsg) : List Byte := m.header ++ m.payload

/-- `msg_size` in `NSChannelPush`. -/
def msgSize (m : NSTaskMsg) : ℕ := nsTaskHdrsz + m.payloadSize.toNat

/-- The payload size in the bytes of a message or of its header. -/
def payloadSizeOf (bytes : List Byte) : ℕ := leVal ((bytes.drop 4).take 4)

theorem payloadSizeOf_lt (bytes : List Byte) : payloadSizeOf bytes < 2 ^ 32 := by
  have hlt := leVal_lt ((bytes.drop 4).take 4)
  have hlen : ((bytes.drop 4).take 4).length ≤ 4 := length_take_le _ _
  calc payloadSizeOf bytes < 256 ^ ((bytes.drop 4).take 4).length := hlt
    _ ≤ 256 ^ 4 := Nat.pow_le_pow_right (by decide) hlen
    _ = 2 ^ 32 := by decide

/-- The message whose memory was filled with the given bytes. -/
def ofBytes (bytes : List Byte) (h : bytes.length = nsTaskHdrsz + payloadSizeOf bytes) :
    NSTaskMsg where
  type := BitVec.ofNat 32 (leVal (bytes.take 4))
  payloadSize := BitVec.ofNat 32 (payloadSizeOf bytes)
  respChannel := BitVec.ofNat 32 (leVal ((bytes.drop 8).take 4))
  payload := bytes.drop nsTaskHdrsz
  payload_length := by
    rw [List.length_drop, h, BitVec.toNat_ofNat, Nat.mod_eq_of_lt (payloadSizeOf_lt bytes)]
    omega

end NSTaskMsg

/-- `NewTask`; `none` is NULL. Where no payload is given, the block stays cleared. -/
def newTask (type : NSTaskType) (payloadSize respChannel : BitVec 32)
    (payload : Option {l : List Byte // l.length = payloadSize.toNat}) : Option NSTaskMsg :=
  if nsMsgSize < nsTaskHdrsz + payloadSize.toNat then none
  else match payload with
    | some l => some ⟨type.code, payloadSize, respChannel, l.1, l.2⟩
    | none => some ⟨type.code, payloadSize, respChannel,
        List.replicate payloadSize.toNat zeroByte, List.length_replicate⟩

/-- `NewOkResponse`. -/
def newOkResponse : NSTaskMsg := ⟨NSTaskType.ok.code, 0, 0, [], rfl⟩

/-- `len` in `NewErrorResponse`: the text with its terminator, cut where it is too long. -/
def errorLen (errorMsg : List Byte) : ℕ :=
  if nsMsgSize < nsTaskHdrsz + (errorMsg.length + 1) then nsMsgSize - nsTaskHdrsz
  else errorMsg.length + 1

/-- `NewErrorResponse`. -/
def newErrorResponse (errorMsg : List Byte) : NSTaskMsg where
  type := NSTaskType.error.code
  payloadSize := BitVec.ofNat 32 (errorLen errorMsg)
  respChannel := 0
  payload := (errorMsg ++ [zeroByte]).take (errorLen errorMsg)
  payload_length := by
    have hlen : errorLen errorMsg ≤ errorMsg.length + 1 ∧ errorLen errorMsg < 2 ^ 32 := by
      unfold errorLen nsMsgSize nsTaskHdrsz
      split <;> omega
    rw [List.length_take, List.length_append, List.length_singleton, Nat.min_eq_left hlen.1,
      BitVec.toNat_ofNat, Nat.mod_eq_of_lt hlen.2]

/-! ### Calls and their results -/

inductive NSChannelCall where
  | push (message : NSTaskMsg)
  | pop
  deriving DecidableEq

/-- What a call returned. -/
inductive NSChannelReturn where
  /-- `NSChannelPush` returned true. -/
  | pushed (message : NSTaskMsg)
  /-- `NSChannelPush` returned false, with a warning if the message is too large. -/
  | notPushed (message : NSTaskMsg) (tooLarge : Bool)
  | popped (message : NSTaskMsg)
  /-- `NSChannelPop` returned NULL without a warning. -/
  | nothing
  /-- `NSChannelPop` returned NULL, with a warning that a message is incomplete. -/
  | incomplete (used need : ℕ)
  /-- The sleep served an interrupt, and the call did not return. -/
  | interrupted (call : NSChannelCall)
  deriving DecidableEq

/-- The warning that goes with a result. -/
def NSChannelReturn.warning : NSChannelReturn → Option String
  | notPushed message true =>
    some s!"NSChannelPush: message too large ({message.msgSize} bytes)"
  | incomplete used need =>
    some s!"NSChannelPopMsg: header ok, but message incomplete (used={used}, need={need})"
  | _ => none

/-- The points of the loop `while (pg_atomic_read_u32(&channel->is_active))`. -/
inductive NSPhase where
  | testing
  | locking
  | sleeping
  deriving DecidableEq

inductive NSProc where
  | idle
  | calling (call : NSChannelCall) (phase : NSPhase)
  /-- The process has left through `proc_exit`. -/
  | exited
  deriving DecidableEq

/-- The shared memory of a channel, the processes that use it, and what their calls returned, in
the order of their last critical sections or tests. -/
structure NSChannelState (P : Type) where
  isActive : Bool
  ring : RingBuffer Byte nsChannelBufsize
  proc : P → NSProc
  returned : List NSChannelReturn

inductive NSChannelLabel (P : Type) where
  | call (p : P) (call : NSChannelCall)
  | test (p : P)
  | critical (p : P) (elapsedMs : ℤ)
  | wake (p : P)
  | interrupt (p : P)
  | postmasterDeath (p : P)
  | destroy

/-! ### The steps -/

variable {P : Type} [DecidableEq P]

namespace NSChannelState

/-- The process goes on with its call. -/
def goOn (s : NSChannelState P) (p : P) (call : NSChannelCall) (phase : NSPhase) :
    NSChannelState P :=
  { s with proc := update s.proc p (.calling call phase) }

/-- The call of the process ends. -/
def finish (s : NSChannelState P) (p : P) (r : NSChannelReturn) : NSChannelState P :=
  { s with proc := update s.proc p .idle, returned := s.returned ++ [r] }

end NSChannelState

/-- What a call returns that has got nothing done: the channel is not active, or its time is
over. -/
def gaveUp : NSChannelCall → NSChannelReturn
  | .push message => .notPushed message false
  | .pop => .nothing

/-- The call up to the loop. -/
def enterCall (s : NSChannelState P) (p : P) : NSChannelCall → NSChannelState P
  | .push message =>
    if nsMsgSize < message.msgSize then s.finish p (.notPushed message true)
    else s.goOn p (.push message) .testing
  | .pop => s.goOn p .pop .testing

/-- The rest of the critical section of a call that could not be served. -/
def sleepOrGiveUp (s : NSChannelState P) (p : P) (call : NSChannelCall) (elapsedMs : ℤ) :
    NSChannelState P :=
  if nsChannelTimeout ≤ elapsedMs then s.finish p (gaveUp call)
  else s.goOn p call .sleeping

/-- What the critical section of `NSChannelPop` finds at the head of the ring. -/
inductive Taken where
  | noHeader
  | message (msg : NSTaskMsg) (ring : RingBuffer Byte nsChannelBufsize)
  | incomplete (used need : ℕ)

variable {ring ring' : RingBuffer Byte nsChannelBufsize}
  {bytes : List Byte}

theorem readAt_head_of_pop {n k : ℕ} (hpop : ring.pop k = some (bytes, ring')) (hn : n ≤ k) :
    ring.readAt ring.head n = bytes.take n := by
  obtain ⟨hcontent, hlen⟩ := RingBuffer.content_pop hpop
  have hfront : ring.content = bytes.take n ++ (bytes.drop n ++ ring'.content) := by
    rw [← append_assoc, take_append_drop, hcontent]
  have htake : (bytes.take n).length = n := by
    rw [length_take, hlen]
    omega
  have hread := RingBuffer.readAt_head hfront
  rwa [htake] at hread

theorem length_of_pop (hpop : ring.pop (nsTaskHdrsz +
      NSTaskMsg.payloadSizeOf (ring.readAt ring.head nsTaskHdrsz)) = some (bytes, ring')) :
    bytes.length = nsTaskHdrsz + NSTaskMsg.payloadSizeOf bytes := by
  have hheader := readAt_head_of_pop hpop (Nat.le_add_right _ _)
  have hsize : NSTaskMsg.payloadSizeOf (bytes.take nsTaskHdrsz) =
      NSTaskMsg.payloadSizeOf bytes := by
    unfold NSTaskMsg.payloadSizeOf nsTaskHdrsz
    rw [drop_take, take_take]
    rfl
  rw [(RingBuffer.content_pop hpop).2, hheader, hsize]

/-- The critical section of `NSChannelPop`, up to the wait. -/
def takeMsg (ring : RingBuffer Byte nsChannelBufsize) : Taken :=
  if nsTaskHdrsz ≤ ring.used then
    match hpop : ring.pop (nsTaskHdrsz +
        NSTaskMsg.payloadSizeOf (ring.readAt ring.head nsTaskHdrsz)) with
    | some (bytes, ring') => .message (.ofBytes bytes (length_of_pop hpop)) ring'
    | none => .incomplete ring.used (nsTaskHdrsz +
        NSTaskMsg.payloadSizeOf (ring.readAt ring.head nsTaskHdrsz))
  else .noHeader

/-- The critical section of a call. -/
def criticalSection (s : NSChannelState P) (p : P) (elapsedMs : ℤ) :
    NSChannelCall → NSChannelState P
  | .push message =>
    match s.ring.push message.toBytes with
    | some ring => { s with ring }.finish p (.pushed message)
    | none => sleepOrGiveUp s p (.push message) elapsedMs
  | .pop =>
    match takeMsg s.ring with
    | .message msg ring => { s with ring }.finish p (.popped msg)
    | .incomplete used need => s.finish p (.incomplete used need)
    | .noHeader => sleepOrGiveUp s p .pop elapsedMs

/-- One step; `none` where the label is not enabled. -/
def nsChannelStep (s : NSChannelState P) : NSChannelLabel P → Option (NSChannelState P)
  | .call p call =>
    match s.proc p with
    | .idle => some (enterCall s p call)
    | _ => none
  | .test p =>
    match s.proc p with
    | .calling call .testing =>
      if s.isActive then some (s.goOn p call .locking) else some (s.finish p (gaveUp call))
    | _ => none
  | .critical p elapsedMs =>
    match s.proc p with
    | .calling call .locking => some (criticalSection s p elapsedMs call)
    | _ => none
  | .wake p =>
    match s.proc p with
    | .calling call .sleeping => some (s.goOn p call .testing)
    | _ => none
  | .interrupt p =>
    match s.proc p with
    | .calling call .sleeping => some (s.finish p (.interrupted call))
    | _ => none
  | .postmasterDeath p =>
    match s.proc p with
    | .calling _ .sleeping => some { s with proc := update s.proc p .exited }
    | _ => none
  -- `NSChannelDestroy` does not take the lock
  | .destroy => some { s with isActive := false }

/-- `NSChannelInit` with `create`, for a name that does not exist: the memory is cleared. -/
def nsChannelInit : NSChannelState P where
  isActive := true
  ring := .empty (fun _ => zeroByte) nsChannelBufsize_pos
  proc := fun _ => .idle
  returned := []

/-- A channel with any number of processes. It starts empty, at any position of the ring. -/
def nsChannelSystem (P : Type) [DecidableEq P] : System (NSChannelState P) (NSChannelLabel P) :=
  .ofFun (fun s => s.ring.content = [] ∧ s.returned = [] ∧ ∀ p, s.proc p = .idle) nsChannelStep

theorem nsChannelInit_init : (nsChannelSystem P).init nsChannelInit :=
  ⟨RingBuffer.content_empty _ _, rfl, fun _ => rfl⟩

/-! ### The layout of a message -/

namespace NSTaskMsg

@[simp] theorem length_header (m : NSTaskMsg) : m.header.length = nsTaskHdrsz := by
  simp [header, nsTaskHdrsz]

@[simp] theorem length_toBytes (m : NSTaskMsg) : m.toBytes.length = m.msgSize := by
  rw [toBytes, length_append, length_header, m.payload_length, msgSize]

theorem payloadSizeOf_header (m : NSTaskMsg) (rest : List Byte) :
    payloadSizeOf (m.header ++ rest) = m.payloadSize.toNat := by
  have hfield : ((m.header ++ rest).drop 4).take 4 = leBytes 4 m.payloadSize.toNat := by
    simp [header]
  rw [payloadSizeOf, hfield]
  exact leVal_leBytes m.payloadSize.isLt

/-- **A message survives the copy through bytes.** -/
theorem ofBytes_toBytes (m : NSTaskMsg)
    (h : m.toBytes.length = nsTaskHdrsz + payloadSizeOf m.toBytes) : ofBytes m.toBytes h = m := by
  have hsize : payloadSizeOf m.toBytes = m.payloadSize.toNat := payloadSizeOf_header m m.payload
  obtain ⟨type, payloadSize, respChannel, payload, hlen⟩ := m
  simp only [ofBytes, mk.injEq]
  refine ⟨?_, ?_, ?_, ?_⟩
  · simp [toBytes, header, ofNat_leVal_leBytes]
  · rw [hsize, BitVec.ofNat_toNat, BitVec.setWidth_eq]
  · simp [toBytes, header, drop_append, drop_eq_nil_of_le, ofNat_leVal_leBytes]
  · simp [toBytes, header, nsTaskHdrsz, drop_append, drop_eq_nil_of_le]

end NSTaskMsg

theorem takeMsg_of_content {m : NSTaskMsg} {rest : List Byte}
    (h : ring.content = m.toBytes ++ rest) :
    ∃ ring', takeMsg ring = .message m ring' ∧ ring'.content = rest := by
  obtain ⟨ring', hpop, hrest⟩ := RingBuffer.pop_of_content h
  refine ⟨ring', ?_, hrest⟩
  -- the size read from the header is the size of the payload behind it
  have hheader : ring.readAt ring.head nsTaskHdrsz = m.header := by
    rw [NSTaskMsg.toBytes, append_assoc] at h
    have hread := RingBuffer.readAt_head h
    rwa [NSTaskMsg.length_header] at hread
  have hsize : NSTaskMsg.payloadSizeOf (ring.readAt ring.head nsTaskHdrsz) =
      m.payloadSize.toNat := by
    rw [hheader, ← append_nil m.header]
    exact m.payloadSizeOf_header []
  have hused : nsTaskHdrsz ≤ ring.used := by
    rw [← ring.length_content, h, length_append, NSTaskMsg.length_toBytes, NSTaskMsg.msgSize]
    omega
  unfold takeMsg
  rw [if_pos hused]
  split
  · next bytes ring'' hpop' =>
    rw [hsize, ← NSTaskMsg.msgSize, ← m.length_toBytes, hpop] at hpop'
    cases hpop'
    rw [NSTaskMsg.ofBytes_toBytes]
  · next hpop' =>
    rw [hsize, ← NSTaskMsg.msgSize, ← m.length_toBytes, hpop] at hpop'
    cases hpop'

theorem takeMsg_of_empty (h : ring.content = []) : takeMsg ring = .noHeader := by
  have hused : ring.used = 0 := by
    rw [← ring.length_content, h, length_nil]
  rw [takeMsg, if_neg]
  rw [hused]
  decide

/-- **In a queue of whole messages, the oldest is found or none.** -/
theorem takeMsg_of_framed {pushed popped : List NSTaskMsg}
    (h : Framed NSTaskMsg.toBytes id pushed popped ring.content) :
    takeMsg ring = .noHeader ∨ ∃ m ring', takeMsg ring = .message m ring' ∧
      Framed NSTaskMsg.toBytes id pushed (popped ++ [m]) ring'.content := by
  rcases h.eq_nil_or_front with hempty | ⟨m, rest, hcontent, hframed⟩
  · exact .inl (takeMsg_of_empty hempty)
  · obtain ⟨ring', htake, rfl⟩ := takeMsg_of_content hcontent
    exact .inr ⟨m, ring', htake, hframed⟩

/-! ### What one step does -/

namespace NSChannelReturn

/-- The message of a push that returned true. -/
def pushedMsg : NSChannelReturn → Option NSTaskMsg
  | pushed message => some message
  | _ => none

/-- The message of a pop. -/
def poppedMsg : NSChannelReturn → Option NSTaskMsg
  | popped message => some message
  | _ => none

/-- A push that returned false, or was interrupted. -/
def IsFailedPush : NSChannelReturn → Prop
  | notPushed _ _ => True
  | interrupted (.push _) => True
  | _ => False

/-- The branch "header ok, but message incomplete". -/
def IsIncomplete : NSChannelReturn → Prop
  | incomplete _ _ => True
  | _ => False

end NSChannelReturn

namespace NSChannelState

/-- The messages that were pushed, oldest first. -/
def pushed (s : NSChannelState P) : List NSTaskMsg :=
  s.returned.filterMap NSChannelReturn.pushedMsg

/-- The messages that were popped, oldest first. -/
def popped (s : NSChannelState P) : List NSTaskMsg :=
  s.returned.filterMap NSChannelReturn.poppedMsg

@[simp] theorem pushed_finish (s : NSChannelState P) (p : P) (r : NSChannelReturn) :
    (s.finish p r).pushed = s.pushed ++ r.pushedMsg.toList := by
  cases h : r.pushedMsg <;> simp [pushed, finish, h]

@[simp] theorem popped_finish (s : NSChannelState P) (p : P) (r : NSChannelReturn) :
    (s.finish p r).popped = s.popped ++ r.poppedMsg.toList := by
  cases h : r.poppedMsg <;> simp [popped, finish, h]

end NSChannelState

/-- What a step can do. -/
inductive NSChannelMove (s : NSChannelState P) : NSChannelState P → Prop
  /-- Neither the ring nor the results change. -/
  | quiet (isActive : Bool) (proc : P → NSProc) : NSChannelMove s { s with isActive, proc }
  /-- The call ends and has not touched the ring. -/
  | finish (p : P) (r : NSChannelReturn) :
      r.pushedMsg = none → r.poppedMsg = none → ¬ r.IsIncomplete → NSChannelMove s (s.finish p r)
  | push (p : P) (message : NSTaskMsg) (ring : RingBuffer Byte nsChannelBufsize) :
      s.ring.push message.toBytes = some ring →
      NSChannelMove s ({ s with ring }.finish p (.pushed message))
  | pop (p : P) (message : NSTaskMsg) (ring : RingBuffer Byte nsChannelBufsize) :
      takeMsg s.ring = .message message ring →
      NSChannelMove s ({ s with ring }.finish p (.popped message))
  | incomplete (p : P) (used need : ℕ) :
      takeMsg s.ring = .incomplete used need →
      NSChannelMove s (s.finish p (.incomplete used need))

namespace NSChannelMove

variable {s s' : NSChannelState P}

section

variable (p : P) (call : NSChannelCall)

theorem goOn (phase : NSPhase) : NSChannelMove s (s.goOn p call phase) :=
  .quiet s.isActive _

theorem gaveUp : NSChannelMove s (s.finish p (NeurStore.gaveUp call)) := by
  cases call with
  | push message | pop => exact .finish p _ rfl rfl id

theorem enterCall : NSChannelMove s (NeurStore.enterCall s p call) := by
  cases call with
  | push message =>
    unfold NeurStore.enterCall
    dsimp only
    split
    · exact .finish p _ rfl rfl id
    · exact goOn p _ .testing
  | pop => exact goOn p .pop .testing

theorem sleepOrGiveUp (elapsedMs : ℤ) :
    NSChannelMove s (NeurStore.sleepOrGiveUp s p call elapsedMs) := by
  unfold NeurStore.sleepOrGiveUp
  split
  · exact gaveUp p call
  · exact goOn p call .sleeping

end

theorem criticalSection (p : P) (elapsedMs : ℤ) (call : NSChannelCall) :
    NSChannelMove s (NeurStore.criticalSection s p elapsedMs call) := by
  cases call with
  | push message =>
    unfold NeurStore.criticalSection
    dsimp only
    split
    · next ring hpush => exact .push p message ring hpush
    · exact sleepOrGiveUp p _ elapsedMs
  | pop =>
    unfold NeurStore.criticalSection
    dsimp only
    split
    · next msg ring htake => exact .pop p msg ring htake
    · next used need htake => exact .incomplete p used need htake
    · exact sleepOrGiveUp p _ elapsedMs

/-- **Inversion of a step.** -/
theorem of_step {l : NSChannelLabel P} (h : nsChannelStep s l = some s') : NSChannelMove s s' := by
  unfold nsChannelStep at h
  cases l with dsimp only at h
  | call p call =>
    split at h
    · cases h
      exact enterCall p call
    · cases h
  | test p =>
    split at h
    · next call _ =>
      split at h
      · cases h
        exact goOn p call .locking
      · cases h
        exact gaveUp p call
    · cases h
  | critical p elapsedMs =>
    split at h
    · next call _ =>
      cases h
      exact criticalSection p elapsedMs call
    · cases h
  | wake p =>
    split at h
    · next call _ =>
      cases h
      exact goOn p call .testing
    · cases h
  | interrupt p =>
    split at h
    · cases h
      exact .finish p _ rfl rfl id
    · cases h
  | postmasterDeath p =>
    split at h
    · cases h
      exact .quiet s.isActive _
    · cases h
  | destroy =>
    cases h
    exact .quiet false s.proc

end NSChannelMove

/-- **A push that fails leaves no bytes behind.** -/
theorem ring_eq_of_isFailedPush {s s' : NSChannelState P} {l : NSChannelLabel P}
    {r : NSChannelReturn} (h : nsChannelStep s l = some s') (hr : s'.returned = s.returned ++ [r])
    (hfail : r.IsFailedPush) : s'.ring = s.ring := by
  have hlast : ∀ r', s.returned ++ [r'] = s.returned ++ [r] → r'.IsFailedPush := by
    intro r' heq
    obtain rfl : r' = r := by simpa using heq
    exact hfail
  cases NSChannelMove.of_step h with
  | quiet | finish | incomplete => rfl
  -- the two moves that change the ring return something else
  | push p message ring hpush | pop p message ring htake => exact (hlast _ hr).elim

/-! ### Runs -/

/-- The ring holds whole messages and nothing else, and none was found incomplete. -/
structure NSChannelInv (s : NSChannelState P) : Prop where
  framed : Framed NSTaskMsg.toBytes id s.pushed s.popped s.ring.content
  complete : ∀ r ∈ s.returned, ¬ r.IsIncomplete

namespace NSChannelInv

variable {s : NSChannelState P}

theorem initial (h : (nsChannelSystem P).init s) : NSChannelInv s := by
  obtain ⟨hcontent, hreturned, -⟩ := h
  constructor
  · rw [NSChannelState.pushed, NSChannelState.popped, hcontent, hreturned]
    exact Framed.nil
  · rw [hreturned]
    exact nofun

omit [DecidableEq P] in
theorem complete_append (hI : NSChannelInv s) {r : NSChannelReturn}
    (hr : ¬ r.IsIncomplete) : ∀ r' ∈ s.returned ++ [r], ¬ r'.IsIncomplete :=
  forall_mem_append.mpr ⟨hI.complete, forall_mem_singleton.mpr hr⟩

theorem step {s' : NSChannelState P} {l : NSChannelLabel P} (hI : NSChannelInv s)
    (hstep : nsChannelStep s l = some s') : NSChannelInv s' := by
  cases NSChannelMove.of_step hstep with
  | quiet isActive proc => exact ⟨hI.framed, hI.complete⟩
  | finish p r hpushed hpopped hr =>
    refine ⟨?_, hI.complete_append hr⟩
    rw [NSChannelState.pushed_finish, NSChannelState.popped_finish, hpushed, hpopped,
      Option.toList_none, append_nil, append_nil]
    exact hI.framed
  | push p message ring hpush =>
    -- the bytes of the message are appended, and the message is in flight
    refine ⟨?_, hI.complete_append id⟩
    have hframed := hI.framed.push message
    rw [← RingBuffer.content_push hpush] at hframed
    rw [NSChannelState.pushed_finish, NSChannelState.popped_finish]
    show Framed _ id (s.pushed ++ [message]) (s.popped ++ []) ring.content
    rwa [append_nil]
  | pop p message ring htake =>
    -- what comes out is the oldest message in flight
    rcases takeMsg_of_framed hI.framed with hnone | ⟨m, ring', htake', hframed⟩
    · cases hnone.symm.trans htake
    · cases htake'.symm.trans htake
      refine ⟨?_, hI.complete_append id⟩
      rw [NSChannelState.pushed_finish, NSChannelState.popped_finish]
      show Framed _ id (s.pushed ++ []) (s.popped ++ [_]) _
      rwa [append_nil]
  | incomplete p used need htake =>
    -- behind a header there is always its payload, so this branch is not taken
    rcases takeMsg_of_framed hI.framed with hnone | ⟨m, ring', htake', -⟩
    · cases hnone.symm.trans htake
    · cases htake'.symm.trans htake

end NSChannelInv

/-- **A task channel is a queue of whole messages.** After any run on a channel that started
empty, the messages pushed are the messages popped, in this order, and then those in flight. The
ring holds the bytes of the latter and no others, so that no message was found incomplete; and a
step that ends a push without success leaves the ring as it is. -/
theorem taskChannel_fifo {s₀ s : NSChannelState P} {ls : List (NSChannelLabel P)}
    (h₀ : (nsChannelSystem P).init s₀) (hrun : (nsChannelSystem P).Run s₀ ls s) :
    (∃ inFlight : List NSTaskMsg, s.pushed = s.popped ++ inFlight ∧
      s.ring.content = inFlight.flatMap NSTaskMsg.toBytes) ∧
    (∀ r ∈ s.returned, ¬ r.IsIncomplete) ∧
    ∀ l s' r, nsChannelStep s l = some s' → s'.returned = s.returned ++ [r] → r.IsFailedPush →
      s'.ring = s.ring := by
  have hI : NSChannelInv s := by
    apply hrun.invariant (NSChannelInv.initial h₀)
    intro s l s' hI hstep
    exact hI.step hstep
  obtain ⟨inFlight, hpushed, hcontent⟩ := hI.framed
  rw [map_id] at hpushed
  refine ⟨⟨inFlight, hpushed, hcontent⟩, hI.complete, ?_⟩
  intro l s' r hstep hr hfail
  exact ring_eq_of_isFailedPush hstep hr hfail

/-- A task with a payload of four bytes, for the backend 7. -/
def fourByteTask : NSTaskMsg :=
  ⟨NSTaskType.cleanCache.code, 4, 7, leBytes 4 305419896, by decide⟩

/-- Two processes push, and the first pops. -/
def pushTwicePopOnce : List (NSChannelLabel Bool) :=
  [.call true (.push fourByteTask), .call false (.push newOkResponse), .test true, .test false,
    .critical false 0, .critical true 0, .call true .pop, .test true, .critical true 1]

/-- The message that was pushed first comes out, and the other stays in flight. -/
theorem taskChannel_fifo_two_senders : ∃ s : NSChannelState Bool,
    (nsChannelSystem Bool).Run nsChannelInit pushTwicePopOnce s ∧
    (s.popped = [newOkResponse] ∧ s.pushed = [newOkResponse, fourByteTask]) ∧
    (∃ inFlight : List NSTaskMsg, s.pushed = s.popped ++ inFlight ∧
      s.ring.content = inFlight.flatMap NSTaskMsg.toBytes) ∧
    (∀ r ∈ s.returned, ¬ r.IsIncomplete) ∧
    ∀ l s' r, nsChannelStep s l = some s' → s'.returned = s.returned ++ [r] → r.IsFailedPush →
      s'.ring = s.ring :=
  System.exists_run_of_exec
    (P := fun s => s.popped = [newOkResponse] ∧ s.pushed = [newOkResponse, fourByteTask])
    (by decide +kernel) fun _ hrun hs => ⟨hs, taskChannel_fifo nsChannelInit_init hrun⟩

end NeurDB.NeurStore
