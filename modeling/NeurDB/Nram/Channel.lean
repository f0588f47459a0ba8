import NeurDB.Framework.RingBuffer
import NeurDB.Nram.PreCommit

/-!
# The message channel

`ipc/msg.c`: a ring buffer of bytes in shared memory, a lock around it, a condition variable to
wait at and a flag that says whether the channel runs. `KVChannelPushMsg` lays a message out in
a block, header and entity, and pushes the block as a whole. `KVChannelPopMsg` takes a header
and then as many bytes as the header says, in one critical section.

A process that calls is at one of three points of the loop of its call (`Phase`): it is about
to test `is_running`, it is about to take the lock, or it sleeps. The test is outside the lock,
so the channel may be terminated between the test and the critical section. A process that
sleeps may wake for any reason, may be interrupted, and exits if the postmaster is gone. The
clock is not modelled: a critical section gets the milliseconds that have passed since the call
as a part of its label.

The ring always holds whole messages (`channel_fifo`), so the header at its front is that of a
message whose entity follows it.
-/

namespace NeurDB.Nram

open Function List

/-! ### Messages -/

/-- `KV_CHANNEL_BUFSIZE`. -/
def kvChannelBufsize : ℕ := 32768

theorem kvChannelBufsize_pos : 0 < kvChannelBufsize := by decide

/-- `sizeof(KVMsgHeader)`: the fields leave no padding. -/
def kvMsgHeaderSize : ℕ := 24

/-- The header as it is stored. The operation and the status are enumerations, and a stored
enumeration is a 32-bit integer. -/
structure KVMsgHeader where
  op : BitVec 32
  relId : BitVec 32
  status : BitVec 32
  respChannel : BitVec 32
  entitySize : BitVec 64
  deriving DecidableEq

/-- The bytes of a header in memory. -/
def KVMsgHeader.toBytes (h : KVMsgHeader) : List Byte :=
  leBytes 4 h.op.toNat ++ (leBytes 4 h.relId.toNat ++ (leBytes 4 h.status.toNat ++
    (leBytes 4 h.respChannel.toNat ++ leBytes 8 h.entitySize.toNat)))

/-- The header whose memory was filled with the given bytes. -/
def KVMsgHeader.ofBytes (l : List Byte) : KVMsgHeader where
  op := BitVec.ofNat 32 (leVal (l.take 4))
  relId := BitVec.ofNat 32 (leVal ((l.drop 4).take 4))
  status := BitVec.ofNat 32 (leVal ((l.drop 8).take 4))
  respChannel := BitVec.ofNat 32 (leVal ((l.drop 12).take 4))
  entitySize := BitVec.ofNat 64 (leVal ((l.drop 16).take 8))

/-- A message. The entity is NULL, or points at as many bytes as the header says. -/
structure KVMsg where
  header : KVMsgHeader
  entity : Option (List Byte)
  entity_length : ∀ e ∈ entity, e.length = header.entitySize.toNat

/-- The bytes of the entity. The block of a message is cleared first, so that a NULL entity is
sent as zeros. -/
def KVMsg.entityBytes (m : KVMsg) : List Byte :=
  m.entity.getD (List.replicate m.header.entitySize.toNat zeroByte)

/-- A message up to the place its entity is stored at. -/
def KVMsg.parts (m : KVMsg) : KVMsgHeader × List Byte := (m.header, m.entityBytes)

/-- `total_size` in `KVChannelPushMsg`, a sum of 64-bit integers. -/
def KVMsg.totalSize (m : KVMsg) : ℕ := (kvMsgHeaderSize + m.header.entitySize.toNat) % 2 ^ 64

/-- `temp` in `KVChannelPushMsg`. -/
def KVMsg.temp (m : KVMsg) : ℕ → Byte :=
  let temp := RingBuffer.copyIn (fun _ => zeroByte) 0 m.header.toBytes
  match m.entity with
  | some e => if 0 < m.header.entitySize.toNat then RingBuffer.copyIn temp kvMsgHeaderSize e
      else temp
  | none => temp

/-- The block `KVChannelPushMsg` pushes. -/
def KVMsg.block (m : KVMsg) : List Byte := RingBuffer.copyOut m.temp 0 m.totalSize

/-- The header and the entity fit in a message. -/
def KVMsg.Fits (m : KVMsg) : Prop := kvMsgHeaderSize + m.header.entitySize.toNat ≤ msgSize

instance (m : KVMsg) : Decidable m.Fits := inferInstanceAs (Decidable (_ ≤ _))

/-! ### Calls and their results -/

inductive ChannelError where
  | messageTooLarge (totalSize : ℕ)
  | pushTooLarge
  | pushTimeout
  | corruptedMessage (entitySize : ℕ)
  /-- An interrupt that the sleep at the condition variable serves. -/
  | interrupted
  deriving DecidableEq

def ChannelError.text : ChannelError → String
  | messageTooLarge totalSize =>
    s!"KVChannelPushMsg: total message too large ({totalSize} bytes)"
  | pushTooLarge => "KVChannel: message too large"
  | pushTimeout => "KVChannelPush encounters timeout"
  | corruptedMessage entitySize =>
    s!"Corrupted message: the remaining message is smaller than entitySize {entitySize}"
  | interrupted => "canceling statement due to user request"

inductive ChannelCall where
  | pushMsg (msg : KVMsg)
  | popMsg

/-- What a call returned. -/
inductive ChannelReturn where
  | pushed (msg : KVMsg) (success : Bool)
  /-- A message, or NULL. -/
  | popped (msg : Option KVMsg)
  | error (call : ChannelCall) (e : ChannelError)

/-- The points of the loop `while (pg_atomic_read_u32(&channel->shared->is_running))`. -/
inductive Phase where
  | testing
  | locking
  | sleeping
  deriving DecidableEq

inductive ChannelProc where
  | idle
  | calling (call : ChannelCall) (timeoutMs : ℤ) (phase : Phase)
  /-- The process has left through `proc_exit`. -/
  | exited

/-- The shared memory of the channel, the processes, and what their calls returned, in the
order of their last critical sections or tests. -/
structure ChannelState (P : Type) where
  isRunning : Bool
  ring : RingBuffer Byte kvChannelBufsize
  proc : P → ChannelProc
  returned : List ChannelReturn

inductive ChannelLabel (P : Type) where
  | call (p : P) (call : ChannelCall) (timeoutMs : ℤ)
  | test (p : P)
  | critical (p : P) (elapsedMs : ℤ)
  | wake (p : P)
  | interrupt (p : P)
  | postmasterDeath (p : P)
  | terminate

/-! ### The steps -/

variable {P : Type} [DecidableEq P]

namespace ChannelState

/-- The process goes on with its call. -/
def goOn (s : ChannelState P) (p : P) (call : ChannelCall) (timeoutMs : ℤ) (phase : Phase) :
    ChannelState P :=
  { s with proc := update s.proc p (.calling call timeoutMs phase) }

/-- The call of the process returns. -/
def finish (s : ChannelState P) (p : P) (r : ChannelReturn) : ChannelState P :=
  { s with proc := update s.proc p .idle, returned := s.returned ++ [r] }

end ChannelState

/-- What a call returns when the channel does not run. -/
def notRunning : ChannelCall → ChannelReturn
  | .pushMsg msg => .pushed msg false
  | .popMsg => .popped none

/-- What a call returns when its time is over. -/
def timedOut : ChannelCall → ChannelReturn
  | .pushMsg msg => .error (.pushMsg msg) .pushTimeout
  | .popMsg => .popped none

/-- The call up to the loop. -/
def enterCall (s : ChannelState P) (p : P) (timeoutMs : ℤ) : ChannelCall → ChannelState P
  | .pushMsg msg =>
    if msgSize < msg.totalSize then
      s.finish p (.error (.pushMsg msg) (.messageTooLarge msg.totalSize))
    else if kvChannelBufsize < msg.block.length then
      s.finish p (.error (.pushMsg msg) .pushTooLarge)
    else s.goOn p (.pushMsg msg) timeoutMs .testing
  | .popMsg => s.goOn p .popMsg timeoutMs .testing

/-- The rest of the critical section of a call that could not be served. -/
def waitOrReturn (s : ChannelState P) (p : P) (call : ChannelCall) (timeoutMs elapsedMs : ℤ) :
    ChannelState P :=
  if timeoutMs = 0 then s.finish p (notRunning call)
  else if 0 < timeoutMs ∧ timeoutMs - elapsedMs ≤ 0 then s.finish p (timedOut call)
  else s.goOn p call timeoutMs .sleeping

/-- What the critical section of `KVChannelPopMsg` finds. -/
inductive PopOutcome where
  | noHeader
  | message (msg : KVMsg) (ring : RingBuffer Byte kvChannelBufsize)
  | corrupted (entitySize : ℕ) (ring : RingBuffer Byte kvChannelBufsize)

/-- The second call of `UnsafeKVChannelPop` in `KVChannelPopMsg`, for the entity. -/
def unsafePopEntity (header : KVMsgHeader) (ring : RingBuffer Byte kvChannelBufsize) :
    PopOutcome :=
  match h : ring.pop header.entitySize.toNat with
  | none => .corrupted header.entitySize.toNat ring
  | some (entity, ring') =>
    .message ⟨header, some entity, by
      rintro e ⟨⟩
      exact (RingBuffer.content_pop h).2⟩ ring'

/-- The critical section of `KVChannelPopMsg`, where it finds a message. -/
def unsafePopMsg (ring : RingBuffer Byte kvChannelBufsize) : PopOutcome :=
  match ring.pop kvMsgHeaderSize with
  | none => .noHeader
  | some (bytes, ring') => unsafePopEntity (.ofBytes bytes) ring'

/-- The critical section of a call. -/
def criticalSection (s : ChannelState P) (p : P) (timeoutMs elapsedMs : ℤ) :
    ChannelCall → ChannelState P
  | .pushMsg msg =>
    match s.ring.push msg.block with
    | some ring => { s with ring }.finish p (.pushed msg true)
    | none => waitOrReturn s p (.pushMsg msg) timeoutMs elapsedMs
  | .popMsg =>
    match unsafePopMsg s.ring with
    | .message msg ring => { s with ring }.finish p (.popped (some msg))
    | .corrupted entitySize ring =>
      { s with ring }.finish p (.error .popMsg (.corruptedMessage entitySize))
    | .noHeader => waitOrReturn s p .popMsg timeoutMs elapsedMs

/-- One step; `none` where the label is not enabled. -/
def channelStep (s : ChannelState P) : ChannelLabel P → Option (ChannelState P)
  | .call p call timeoutMs =>
    match s.proc p with
    | .idle => some (enterCall s p timeoutMs call)
    | _ => none
  | .test p =>
    match s.proc p with
    | .calling call timeoutMs .testing =>
      if s.isRunning then some (s.goOn p call timeoutMs .locking)
      else some (s.finish p (notRunning call))
    | _ => none
  | .critical p elapsedMs =>
    match s.proc p with
    | .calling call timeoutMs .locking => some (criticalSection s p timeoutMs elapsedMs call)
    | _ => none
  | .wake p =>
    match s.proc p with
    | .calling call timeoutMs .sleeping => some (s.goOn p call timeoutMs .testing)
    | _ => none
  | .interrupt p =>
    match s.proc p with
    | .calling call _ .sleeping => some (s.finish p (.error call .interrupted))
    | _ => none
  | .postmasterDeath p =>
    match s.proc p with
    | .calling _ _ .sleeping => some { s with proc := update s.proc p .exited }
    | _ => none
  -- `TerminateChannel` does not take the lock
  | .terminate => some { s with isRunning := false }

/-- `KVChannelInit` with `create`: the shared memory is cleared. -/
def channelInit : ChannelState P where
  isRunning := true
  ring := .empty (fun _ => zeroByte) kvChannelBufsize_pos
  proc := fun _ => .idle
  returned := []

/-- The channel with any number of processes. -/
def channelSystem (P : Type) [DecidableEq P] : System (ChannelState P) (ChannelLabel P) :=
  .ofFun (· = channelInit) channelStep

/-! ### The layout of a message -/

@[simp] theorem length_toBytes (h : KVMsgHeader) : h.toBytes.length = kvMsgHeaderSize := by
  simp [KVMsgHeader.toBytes, kvMsgHeaderSize]

/-- **The header survives the copy through bytes.** -/
@[simp] theorem ofBytes_toBytes (h : KVMsgHeader) : KVMsgHeader.ofBytes h.toBytes = h := by
  obtain ⟨op, relId, status, respChannel, entitySize⟩ := h
  simp [KVMsgHeader.ofBytes, KVMsgHeader.toBytes, drop_append,
    drop_eq_nil_of_le, take_of_length_le, ofNat_leVal_leBytes]

@[simp] theorem KVMsg.length_entityBytes (m : KVMsg) :
    m.entityBytes.length = m.header.entitySize.toNat := by
  unfold KVMsg.entityBytes
  cases h : m.entity with
  | none => rw [Option.getD_none, length_replicate]
  | some e => exact m.entity_length e h

theorem KVMsg.copyOut_temp_header (m : KVMsg) :
    RingBuffer.copyOut m.temp 0 kvMsgHeaderSize = m.header.toBytes := by
  have hheader : RingBuffer.copyOut (RingBuffer.copyIn (fun _ => zeroByte) 0 m.header.toBytes) 0
      kvMsgHeaderSize = m.header.toBytes := by
    rw [← length_toBytes m.header, RingBuffer.copyOut_copyIn]
  unfold KVMsg.temp
  split
  · next e he =>
    split
    · rw [RingBuffer.copyOut_copyIn_of_le e (by omega), hheader]
    · exact hheader
  · exact hheader

theorem KVMsg.copyOut_temp_entity (m : KVMsg) :
    RingBuffer.copyOut m.temp kvMsgHeaderSize m.header.entitySize.toNat = m.entityBytes := by
  have hlen := m.length_entityBytes
  unfold KVMsg.temp KVMsg.entityBytes at *
  cases he : m.entity with
  | some e =>
    rw [he, Option.getD_some] at hlen
    dsimp only
    rw [Option.getD_some]
    split
    · rw [← hlen, RingBuffer.copyOut_copyIn]
    · have hsize : m.header.entitySize.toNat = 0 := by omega
      rw [hsize] at hlen ⊢
      rw [length_eq_zero_iff.mp hlen]
      rfl
  | none =>
    -- no entity was copied: the cells behind the header still hold zeros
    rw [Option.getD_none]
    apply ext_getElem
    · rw [RingBuffer.length_copyOut, length_replicate]
    intro i hi hi'
    simp only [RingBuffer.copyOut, getElem_map, getElem_range, getElem_replicate]
    apply RingBuffer.copyIn_of_le
    rw [length_toBytes]
    omega

/-- **The block of a message that fits is its header and its entity.** -/
theorem KVMsg.block_eq {m : KVMsg} (h : m.Fits) : m.block = m.header.toBytes ++ m.entityBytes := by
  have htotal : m.totalSize = kvMsgHeaderSize + m.header.entitySize.toNat := by
    unfold KVMsg.Fits msgSize at h
    exact Nat.mod_eq_of_lt (by omega)
  rw [KVMsg.block, htotal, RingBuffer.copyOut_add, m.copyOut_temp_header, Nat.zero_add,
    m.copyOut_temp_entity]

variable {ring : RingBuffer Byte kvChannelBufsize}

theorem unsafePopEntity_of_pop {header : KVMsgHeader} {entity : List Byte}
    {ring' : RingBuffer Byte kvChannelBufsize}
    (h : ring.pop header.entitySize.toNat = some (entity, ring')) :
    ∃ hlen, unsafePopEntity header ring = .message ⟨header, some entity, hlen⟩ ring' := by
  refine ⟨?_, ?_⟩
  · rintro e ⟨⟩
    exact (RingBuffer.content_pop h).2
  · unfold unsafePopEntity
    split
    · next hnone =>
      rw [h] at hnone
      cases hnone
    · next entity' ring'' hsome =>
      rw [h] at hsome
      cases hsome
      rfl

theorem unsafePopMsg_of_content {m : KVMsg} {rest : List Byte}
    (h : ring.content = (m.header.toBytes ++ m.entityBytes) ++ rest) :
    ∃ msg ring', unsafePopMsg ring = .message msg ring' ∧ msg.parts = m.parts ∧
      ring'.content = rest := by
  rw [append_assoc] at h
  obtain ⟨ring₁, hpop₁, hcontent₁⟩ := RingBuffer.pop_of_content h
  obtain ⟨ring₂, hpop₂, hcontent₂⟩ := RingBuffer.pop_of_content hcontent₁
  rw [length_toBytes] at hpop₁
  rw [m.length_entityBytes] at hpop₂
  obtain ⟨hlen, hmsg⟩ := unsafePopEntity_of_pop hpop₂
  refine ⟨⟨m.header, some m.entityBytes, hlen⟩, ring₂, ?_, rfl, hcontent₂⟩
  rw [unsafePopMsg, hpop₁]
  dsimp only
  rw [ofBytes_toBytes, hmsg]

theorem unsafePopMsg_of_empty (h : ring.content = []) : unsafePopMsg ring = .noHeader := by
  have hpop : ring.pop kvMsgHeaderSize = none := by
    rw [RingBuffer.pop_eq_none_iff, h]
    decide
  simp [unsafePopMsg, hpop]

/-- A message is stored as its header and its entity. -/
abbrev KVMsg.bytes (m : KVMsg) : List Byte := m.header.toBytes ++ m.entityBytes

/-- **In a queue of whole messages, the oldest is found or none.** -/
theorem unsafePopMsg_of_framed {pushed popped : List (KVMsgHeader × List Byte)}
    (h : Framed KVMsg.bytes KVMsg.parts pushed popped ring.content) :
    unsafePopMsg ring = .noHeader ∨ ∃ msg ring', unsafePopMsg ring = .message msg ring' ∧
      Framed KVMsg.bytes KVMsg.parts pushed (popped ++ [msg.parts]) ring'.content := by
  rcases h.eq_nil_or_front with hempty | ⟨m, rest, hcontent, hframed⟩
  · exact .inl (unsafePopMsg_of_empty hempty)
  · obtain ⟨msg, ring', hpop, hparts, rfl⟩ := unsafePopMsg_of_content hcontent
    exact .inr ⟨msg, ring', hpop, hparts ▸ hframed⟩

/-! ### What one step does -/

namespace ChannelReturn

/-- The message of a push that returned true. -/
def pushedMsg : ChannelReturn → Option KVMsg
  | pushed msg true => some msg
  | _ => none

/-- The message of a pop. -/
def poppedMsg : ChannelReturn → Option KVMsg
  | popped msg => msg
  | _ => none

/-- A push that returned false or raised an error. -/
def IsFailedPush : ChannelReturn → Prop
  | pushed _ success => success = false
  | error (.pushMsg _) _ => True
  | _ => False

/-- The error "Corrupted message". -/
def IsCorrupted : ChannelReturn → Prop
  | error _ (.corruptedMessage _) => True
  | _ => False

end ChannelReturn

/-- The messages that were pushed, oldest first. -/
def ChannelState.pushed (s : ChannelState P) : List (KVMsgHeader × List Byte) :=
  (s.returned.filterMap ChannelReturn.pushedMsg).map KVMsg.parts

/-- The messages that were popped, oldest first. -/
def ChannelState.popped (s : ChannelState P) : List (KVMsgHeader × List Byte) :=
  (s.returned.filterMap ChannelReturn.poppedMsg).map KVMsg.parts

/-- What a step can do. -/
inductive ChannelMove (s : ChannelState P) : ChannelLabel P → ChannelState P → Prop
  | enter (p : P) (call : ChannelCall) (timeoutMs : ℤ) (phase : Phase) :
      ChannelMove s (.call p call timeoutMs) (s.goOn p call timeoutMs phase)
  | goOn {l : ChannelLabel P} (p : P) (call : ChannelCall) (timeoutMs : ℤ) (phase phase' : Phase) :
      s.proc p = .calling call timeoutMs phase → ChannelMove s l (s.goOn p call timeoutMs phase')
  /-- The call returns and has not touched the ring. -/
  | finish {l : ChannelLabel P} (p : P) (r : ChannelReturn) :
      r.pushedMsg = none → r.poppedMsg = none → ¬ r.IsCorrupted → ChannelMove s l (s.finish p r)
  | push {l : ChannelLabel P} (p : P) (msg : KVMsg) (timeoutMs : ℤ)
      (ring : RingBuffer Byte kvChannelBufsize) :
      s.proc p = .calling (.pushMsg msg) timeoutMs .locking → s.ring.push msg.block = some ring →
      ChannelMove s l ({ s with ring }.finish p (.pushed msg true))
  | pop {l : ChannelLabel P} (p : P) (msg : KVMsg) (ring : RingBuffer Byte kvChannelBufsize) :
      unsafePopMsg s.ring = .message msg ring →
      ChannelMove s l ({ s with ring }.finish p (.popped (some msg)))
  | corrupt {l : ChannelLabel P} (p : P) (entitySize : ℕ)
      (ring : RingBuffer Byte kvChannelBufsize) :
      unsafePopMsg s.ring = .corrupted entitySize ring →
      ChannelMove s l
        ({ s with ring }.finish p (.error .popMsg (.corruptedMessage entitySize)))
  | exit {l : ChannelLabel P} (p : P) :
      ChannelMove s l { s with proc := update s.proc p .exited }
  | terminate {l : ChannelLabel P} : ChannelMove s l { s with isRunning := false }

theorem ChannelMove.enterCall (s : ChannelState P) (p : P) (call : ChannelCall) (timeoutMs : ℤ) :
    ChannelMove s (.call p call timeoutMs) (Nram.enterCall s p timeoutMs call) := by
  cases call with
  | popMsg => exact .enter p _ timeoutMs .testing
  | pushMsg msg =>
    unfold Nram.enterCall
    dsimp only
    split
    · exact .finish p _ rfl rfl id
    · split
      · exact .finish p _ rfl rfl id
      · exact .enter p _ timeoutMs .testing

variable {s s' : ChannelState P} {l : ChannelLabel P} {call : ChannelCall}
  {timeoutMs : ℤ}

theorem ChannelMove.notRunning (p : P) (call : ChannelCall) :
    ChannelMove s l (s.finish p (Nram.notRunning call)) := by
  cases call with
  | popMsg | pushMsg => exact .finish p _ rfl rfl id

theorem ChannelMove.waitOrReturn {p : P} {phase : Phase}
    (elapsedMs : ℤ) (h : s.proc p = .calling call timeoutMs phase) :
    ChannelMove s l (Nram.waitOrReturn s p call timeoutMs elapsedMs) := by
  unfold Nram.waitOrReturn
  split
  · exact .notRunning p call
  · split
    · cases call with
      | popMsg | pushMsg => exact .finish p _ rfl rfl id
    · exact .goOn p call timeoutMs phase .sleeping h

theorem ChannelMove.criticalSection {p : P} (elapsedMs : ℤ)
    (h : s.proc p = .calling call timeoutMs .locking) :
    ChannelMove s l (Nram.criticalSection s p timeoutMs elapsedMs call) := by
  cases call with
  | pushMsg msg =>
    unfold Nram.criticalSection
    dsimp only
    split
    · next ring hring => exact .push p msg timeoutMs ring h hring
    · exact .waitOrReturn elapsedMs h
  | popMsg =>
    unfold Nram.criticalSection
    dsimp only
    split
    · next msg ring hpop => exact .pop p msg ring hpop
    · next entitySize ring hpop => exact .corrupt p entitySize ring hpop
    · exact .waitOrReturn elapsedMs h

/-- **Inversion of a step.** -/
theorem ChannelMove.of_step (h : channelStep s l = some s') : ChannelMove s l s' := by
  unfold channelStep at h
  cases l with dsimp only at h
  | call p call timeoutMs =>
    split at h
    · cases h
      exact .enterCall s p call timeoutMs
    · cases h
  | test p =>
    split at h
    · next call timeoutMs hproc =>
      split at h
      · cases h
        exact .goOn p call timeoutMs .testing .locking hproc
      · cases h
        exact .notRunning p call
    · cases h
  | critical p elapsedMs =>
    split at h
    · next call timeoutMs hproc =>
      cases h
      exact .criticalSection elapsedMs hproc
    · cases h
  | wake p =>
    split at h
    · next call timeoutMs hproc =>
      cases h
      exact .goOn p call timeoutMs .sleeping .testing hproc
    · cases h
  | interrupt p =>
    split at h
    · next call _ _ =>
      cases h
      exact .finish p _ rfl rfl id
    · cases h
  | postmasterDeath p =>
    split at h
    · cases h
      exact .exit p
    · cases h
  | terminate =>
    cases h
    exact .terminate

open ChannelState

@[simp] theorem pushed_finish (s : ChannelState P) (p : P) (r : ChannelReturn) :
    (s.finish p r).pushed = s.pushed ++ (r.pushedMsg.map KVMsg.parts).toList := by
  cases h : r.pushedMsg with
  | none | some m => simp [pushed, finish, h]

@[simp] theorem popped_finish (s : ChannelState P) (p : P) (r : ChannelReturn) :
    (s.finish p r).popped = s.popped ++ (r.poppedMsg.map KVMsg.parts).toList := by
  cases h : r.poppedMsg with
  | none | some m => simp [popped, finish, h]

/-- **A push that fails leaves no bytes behind.** -/
theorem ring_eq_of_failedPush {r : ChannelReturn}
    (h : channelStep s l = some s') (hr : s'.returned = s.returned ++ [r])
    (hfail : r.IsFailedPush) :
    s'.ring = s.ring := by
  -- of the moves that change the ring none returns a failed push
  have hlast : ∀ r', s.returned ++ [r'] = s.returned ++ [r] → r'.IsFailedPush := by
    intro r' heq
    obtain rfl : r' = r := by simpa using heq
    exact hfail
  cases ChannelMove.of_step h with
  | enter | goOn | finish | exit | terminate => rfl
  | push p msg timeoutMs ring hproc hpush | pop p msg ring hpop | corrupt p entitySize ring hpop =>
    cases hlast _ hr

/-! ### Runs -/

/-- Every message that is sent fits. -/
def sendsFit (_ : ChannelState P) : ChannelLabel P → Prop
  | .call _ (.pushMsg msg) _ => msg.Fits
  | _ => True

/-- The state is framed: the ring holds whole messages and nothing else. -/
structure ChannelInv (s : ChannelState P) : Prop where
  framed : Framed KVMsg.bytes KVMsg.parts s.pushed s.popped s.ring.content
  fits : ∀ p msg timeoutMs phase, s.proc p = .calling (.pushMsg msg) timeoutMs phase → msg.Fits
  uncorrupted : ∀ r ∈ s.returned, ¬ r.IsCorrupted

namespace ChannelInv

omit [DecidableEq P] in
theorem initial : ChannelInv (channelInit : ChannelState P) where
  framed := ⟨[], rfl, RingBuffer.content_empty _ _⟩
  fits := by
    nofun
  uncorrupted := by
    nofun

theorem fits_update (hI : ChannelInv s) {p : P} {c : ChannelProc}
    (hc : ∀ msg timeoutMs phase, c = .calling (.pushMsg msg) timeoutMs phase → msg.Fits) :
    ∀ q msg timeoutMs phase,
      update s.proc p c q = .calling (.pushMsg msg) timeoutMs phase → msg.Fits := by
  intro q msg timeoutMs phase hq
  by_cases hqp : q = p
  · subst hqp
    rw [update_self] at hq
    exact hc msg timeoutMs phase hq
  · rw [update_of_ne hqp] at hq
    exact hI.fits q msg timeoutMs phase hq

omit [DecidableEq P] in
theorem uncorrupted_append (hI : ChannelInv s) {r : ChannelReturn} (hr : ¬ r.IsCorrupted) :
    ∀ r' ∈ s.returned ++ [r], ¬ r'.IsCorrupted :=
  forall_mem_append.mpr ⟨hI.uncorrupted, forall_mem_singleton.mpr hr⟩

theorem step {s' : ChannelState P} (hI : ChannelInv s) (hstep : channelStep s l = some s')
    (hfits : sendsFit s l) : ChannelInv s' := by
  cases ChannelMove.of_step hstep with
  | enter p call timeoutMs phase =>
    refine ⟨hI.framed, hI.fits_update ?_, hI.uncorrupted⟩
    rintro msg _ _ ⟨⟩
    exact hfits
  | goOn p call timeoutMs phase phase' hproc =>
    refine ⟨hI.framed, hI.fits_update ?_, hI.uncorrupted⟩
    rintro msg _ _ ⟨⟩
    exact hI.fits p msg _ _ hproc
  | finish p r hpush hpop hr =>
    refine ⟨?_, hI.fits_update (by simp), hI.uncorrupted_append hr⟩
    rw [pushed_finish, popped_finish, hpush, hpop, Option.map_none, Option.toList_none,
      append_nil, append_nil]
    exact hI.framed
  | push p msg timeoutMs ring hproc hpush =>
    -- the block of the message is appended to the ring, and the message to those in flight
    refine ⟨?_, hI.fits_update (by simp), hI.uncorrupted_append id⟩
    have hframed := hI.framed.push msg
    rw [KVMsg.bytes, ← KVMsg.block_eq (hI.fits p msg _ _ hproc),
      ← RingBuffer.content_push hpush] at hframed
    rw [pushed_finish, popped_finish]
    show Framed _ _ (s.pushed ++ [msg.parts]) (s.popped ++ []) ring.content
    rwa [append_nil]
  | pop p msg ring hpop =>
    rcases unsafePopMsg_of_framed hI.framed with hnone | ⟨msg', ring', hpop', hframed⟩
    · cases hnone.symm.trans hpop
    · cases hpop'.symm.trans hpop
      refine ⟨?_, hI.fits_update (by simp), hI.uncorrupted_append id⟩
      rw [pushed_finish, popped_finish]
      show Framed _ _ (s.pushed ++ []) (s.popped ++ [_]) _
      rwa [append_nil]
  | corrupt p entitySize ring hpop =>
    -- the bytes behind a header are those of its entity, so this branch is not taken
    rcases unsafePopMsg_of_framed hI.framed with hnone | ⟨msg', ring', hpop', -⟩
    · cases hnone.symm.trans hpop
    · cases hpop'.symm.trans hpop
  | exit p => exact ⟨hI.framed, hI.fits_update (by simp), hI.uncorrupted⟩
  | terminate => exact ⟨hI.framed, hI.fits, hI.uncorrupted⟩

end ChannelInv

/-- **The channel is a queue of whole messages.** In every run in which the messages fit, the
messages pushed are the messages popped, in this order, and then those in flight; the ring
holds the bytes of the latter and no others; "Corrupted message" was not raised; and a step
that reports a failed push has not touched the ring. -/
theorem channel_fifo {s : ChannelState P} {ls : List (ChannelLabel P)}
    (hrun : ((channelSystem P).guard sendsFit).Run channelInit ls s) :
    (∃ inFlight : List KVMsg, s.pushed = s.popped ++ inFlight.map KVMsg.parts ∧
      s.ring.content = inFlight.flatMap fun m => m.header.toBytes ++ m.entityBytes) ∧
    (∀ r ∈ s.returned, ¬ r.IsCorrupted) ∧
    ∀ l s' r, channelStep s l = some s' → s'.returned = s.returned ++ [r] → r.IsFailedPush →
      s'.ring = s.ring := by
  have hI : ChannelInv s := by
    apply hrun.invariant ChannelInv.initial
    rintro s l s' hI ⟨hstep, hfits⟩
    exact hI.step hstep hfits
  refine ⟨hI.framed, hI.uncorrupted, ?_⟩
  intro l s' r hstep hr hfail
  exact ring_eq_of_failedPush hstep hr hfail

instance (s : ChannelState P) : (l : ChannelLabel P) → Decidable (sendsFit s l)
  | .call _ (.pushMsg msg) _ => inferInstanceAs (Decidable msg.Fits)
  | .call _ .popMsg _ => .isTrue trivial
  | .test _ | .critical _ _ | .wake _ | .interrupt _ | .postmasterDeath _ | .terminate =>
    .isTrue trivial

/-- A put request with an entity of four bytes. -/
def fourByteMsg : KVMsg where
  header := ⟨4, 16384, 0, 7, 4⟩
  entity := some (leBytes 4 305419896)
  entity_length := by
    rintro e ⟨⟩
    decide

/-- Two processes send, and the second receives. -/
def sendTwiceReceiveOnce : List (ChannelLabel Bool) :=
  [.call true (.pushMsg fourByteMsg) 0, .call false (.pushMsg fourByteMsg) (-1), .test true,
    .test false, .critical false 0, .critical true 0, .call false .popMsg 5, .test false,
    .critical false 1]

/-- One message comes out, and one stays in flight. -/
theorem channel_fifo_two_senders : ∃ s : ChannelState Bool,
    ((channelSystem Bool).guard sendsFit).Run channelInit sendTwiceReceiveOnce s ∧
    (s.popped = [fourByteMsg.parts] ∧ s.pushed.length = 2) ∧
    (∃ inFlight : List KVMsg, s.pushed = s.popped ++ inFlight.map KVMsg.parts ∧
      s.ring.content = inFlight.flatMap fun m => m.header.toBytes ++ m.entityBytes) ∧
    (∀ r ∈ s.returned, ¬ r.IsCorrupted) ∧
    ∀ l s' r, channelStep s l = some s' → s'.returned = s.returned ++ [r] → r.IsFailedPush →
      s'.ring = s.ring :=
  System.exists_guard_run_of_exec
    (P := fun s => s.popped = [fourByteMsg.parts] ∧ s.pushed.length = 2) (by decide +kernel)
    fun _ hrun hs => ⟨hs, channel_fifo hrun⟩

end NeurDB.Nram
