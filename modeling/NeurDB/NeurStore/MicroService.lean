import NeurDB.Framework.Bytes

/-!
# The TCP microservice

`microservice/ns_micro_server_main.cpp`: a thread for each connection reads request frames and
submits them to a pool of workers. A worker processes the request (`service_worker`), and its
callback `on_task_done` writes the reply as a frame: four bytes with the length, then the body,
each by as many calls of `write` as it takes.

The callback gets a pointer to the variable `fd` of the thread that has read the request. Nothing
makes a worker wait for another one, and the thread does not wait for the workers. Three
things can therefore go wrong: two workers may write replies to one connection at the same time,
or in another order than that of the requests; and once the thread has closed its descriptor and
returned, a worker reads the descriptor from memory that is not a variable any more, and the
number it finds may by then be that of another connection.

Each byte of the output of a connection is kept with the request it is an answer to (the
connection it came from, and its number there), so that one can say where a reply ends up.

`replies_in_order` is about the runs in which a connection ends, and sends its next request, only
when all its requests are answered; with a single worker it need not wait with the next one.
-/

namespace NeurDB.NeurStore

open Function List
open Option (getD_some ite_none_right_eq_some some)

/-! ### Messages and frames -/

/-- Big-endian bytes, as `htonl` makes them. -/
def beBytes (n x : ℕ) : List Byte := (leBytes n x).reverse

/-- `NSMicroTaskType`. -/
inductive NSMicroTaskType where
  | invalid
  | shutdown
  | saveModel
  | saveModels
  | loadModel
  | inference
  | cleanCache
  | ok
  | error
  deriving DecidableEq

def NSMicroTaskType.code : NSMicroTaskType → BitVec 32
  | invalid => 0
  | shutdown => 1
  | saveModel => 10
  | saveModels => 11
  | loadModel => 13
  | inference => 14
  | cleanCache => 15
  | ok => 1000
  | error => 1001

/-- A message. The payload has as many bytes as the header says. -/
structure NSMicroTaskMsg where
  type : BitVec 32
  respId : BitVec 32
  payloadSize : BitVec 32
  payload : List Byte
  payload_length : payload.length = payloadSize.toNat

theorem length_no_payload : ([] : List Byte).length = (0 : BitVec 32).toNat := rfl

/-- `sizeof(NSMicroTaskMsgHeader)`. -/
def microHeaderSize : ℕ := 12

/-- `ns_micro_msg_serialize`. -/
def NSMicroTaskMsg.serialize (m : NSMicroTaskMsg) : List Byte :=
  beBytes 4 m.type.toNat ++ beBytes 4 m.respId.toNat ++ beBytes 4 m.payloadSize.toNat ++ m.payload

/-- `ns_micro_msg_deserialize`. The sizes are compared as 32-bit integers; for what a frame can hold
the last test then succeeds. -/
def microDeserialize (bytes : List Byte) : Option NSMicroTaskMsg :=
  if bytes.length < microHeaderSize then none
  else
    let payloadSize := BitVec.ofNat 32 (beVal ((bytes.drop 8).take 4))
    if BitVec.ofNat 32 bytes.length ≠ BitVec.ofNat 32 microHeaderSize + payloadSize then none
    else if h : (bytes.drop microHeaderSize).length = payloadSize.toNat then
      some
        { type := BitVec.ofNat 32 (beVal (bytes.take 4))
          respId := BitVec.ofNat 32 (beVal ((bytes.drop 4).take 4))
          payloadSize
          payload := bytes.drop microHeaderSize
          payload_length := h }
    else none

/-- `NewMicroOkResponse`. -/
def newMicroOkResponse : NSMicroTaskMsg where
  type := NSMicroTaskType.ok.code
  respId := 0
  payloadSize := 0
  payload := []
  payload_length := length_no_payload

/-- `NewMicroErrorResponse`. -/
def newMicroErrorResponse (errmsg : List Byte) (h : errmsg.length + 1 < 2 ^ 32) :
    NSMicroTaskMsg where
  type := NSMicroTaskType.error.code
  respId := 0
  payloadSize := BitVec.ofNat 32 (errmsg.length + 1)
  payload := errmsg ++ [zeroByte]
  payload_length := by
    rw [length_append, length_singleton, BitVec.toNat_ofNat, Nat.mod_eq_of_lt h]

/-- `process_request`; `result` is what the handler returns, for the requests that have one. -/
def processRequest (req result : NSMicroTaskMsg) : NSMicroTaskMsg :=
  if req.type ∈ [NSMicroTaskType.saveModel.code, NSMicroTaskType.saveModels.code,
      NSMicroTaskType.loadModel.code, NSMicroTaskType.inference.code,
      NSMicroTaskType.cleanCache.code] then result
  else if req.type = NSMicroTaskType.shutdown.code then newMicroOkResponse
  else newMicroErrorResponse (ascii "unknown task type") (by decide)

/-- `MAX_FRAME`. -/
def maxFrame : ℕ := 268435456

/-- The request in the body of a frame, if `handle_client` accepts it. -/
def requestOf (body : List Byte) : Option NSMicroTaskMsg :=
  if body.length = 0 ∨ maxFrame < body.length then none else microDeserialize body

/-- The length in front of a body, as `ns_micro_frame_write` writes it. -/
def frameHeader (body : List Byte) : List Byte := beBytes 4 body.length

/-- A frame. -/
def frame (body : List Byte) : List Byte := frameHeader body ++ body

/-! ### The server -/

/-- What a worker is doing with a request. -/
inductive JobPhase where
  | queued
  | processing
  /-- `process_request` has returned; the body of the reply. -/
  | processed (body : List Byte)
  /-- `ns_micro_frame_write` on a descriptor: what is left of the length, and of the body. -/
  | writing (fd : ℕ) (header body : List Byte)
  deriving DecidableEq

/-- A request of a connection, by its number there. The context of its callback is the variable
`fd` of the thread of this connection. -/
structure Job (C : Type) where
  conn : C
  index : ℕ
  phase : JobPhase
  deriving DecidableEq

/-- The thread of a connection. -/
inductive ReaderState where
  | none
  /-- It runs, with its variable `fd`. -/
  | running (fd : ℕ)
  | returned
  deriving DecidableEq

/-- A byte of a reply, with the request it belongs to. -/
structure ReplyByte (C : Type) where
  conn : C
  index : ℕ
  byte : Byte
  deriving DecidableEq

structure MicroState (C : Type) where
  isServiceRunning : Bool
  reader : C → ReaderState
  /-- The connection an open descriptor belongs to. -/
  fds : ℕ → Option C
  /-- The client has not closed its side. -/
  connected : C → Bool
  /-- The requests that were submitted. -/
  requests : C → List NSMicroTaskMsg
  /-- The pool, in the order of submission; a job stays until its callback has returned. -/
  jobs : List (Job C)
  /-- The replies that `process_request` has made. -/
  reply : C → ℕ → Option (List Byte)
  /-- What was written to a connection. -/
  output : C → List (ReplyByte C)

inductive MicroLabel (C : Type) where
  /-- `accept` returns a descriptor that is not in use. -/
  | accept (c : C) (fd : ℕ)
  /-- The thread of a connection gets the body of a frame. -/
  | read (c : C) (body : List Byte)
  /-- The thread gets an error or the end of the input, or sees that the service stops. -/
  | leave (c : C)
  | disconnect (c : C)
  /-- A worker takes the first job in the queue. -/
  | start (i : ℕ)
  /-- `process_request` returns; `result` is what the handler of the request returns. -/
  | process (i : ℕ) (result : NSMicroTaskMsg)
  /-- The callback reads the descriptor; `found` is what it finds if the variable is gone. -/
  | callback (i : ℕ) (found : ℕ)
  /-- One call of `write` takes `n` bytes. -/
  | write (i : ℕ) (n : ℕ)
  /-- A call of `write` fails: the descriptor is closed, or the client has closed its side. -/
  | writeError (i : ℕ)
  | stop

variable {C : Type} [DecidableEq C]

namespace MicroState

/-- The thread closes its descriptor and returns. -/
def closeReader (s : MicroState C) (c : C) (fd : ℕ) : MicroState C :=
  { s with
    reader := update s.reader c .returned
    fds := update s.fds fd none }

/-- `ns_micro_service_submit`. -/
def submit (s : MicroState C) (c : C) (msg : NSMicroTaskMsg) : MicroState C :=
  { s with
    requests := update s.requests c (s.requests c ++ [msg])
    jobs := s.jobs ++ [⟨c, (s.requests c).length, .queued⟩] }

/-- The thread has got the body of a frame. -/
def readFrame (s : MicroState C) (c : C) (fd : ℕ) (body : List Byte) : MicroState C :=
  match requestOf body with
  | some msg => s.submit c msg
  | none => s.closeReader c fd

/-- Bytes of the reply to a job reach the connection a descriptor belongs to. -/
def emit (s : MicroState C) (target : C) (job : Job C) (bytes : List Byte) : MicroState C :=
  { s with
    output := update s.output target
      (s.output target ++ bytes.map (ReplyByte.mk job.conn job.index)) }

/-- A job changes its phase. -/
def setPhase (s : MicroState C) (i : ℕ) (job : Job C) (phase : JobPhase) : MicroState C :=
  { s with jobs := s.jobs.set i { job with phase } }

/-- `process_request` has returned. -/
def finishRequest (s : MicroState C) (i : ℕ) (job : Job C) (body : List Byte) : MicroState C :=
  { s.setPhase i job (.processed body) with
    reply := update s.reply job.conn
      (update (s.reply job.conn) job.index (some body)) }

/-- One `write` of `n` bytes, of the length or, when this is out, of the body; the job is done when
nothing is left. -/
def writeSome (s : MicroState C) (i : ℕ) (job : Job C) (fd : ℕ) (header body : List Byte)
    (n : ℕ) : Option (MicroState C) :=
  match s.fds fd with
  | none => none
  | some target =>
    if header ≠ [] then
      if 0 < n ∧ n ≤ header.length then
        some ((s.emit target job (header.take n)).setPhase i job
          (.writing fd (header.drop n) body))
      else none
    else if body ≠ [] then
      if 0 < n ∧ n ≤ body.length then
        some ((s.emit target job (body.take n)).setPhase i job (.writing fd [] (body.drop n)))
      else none
    else some { s with jobs := s.jobs.eraseIdx i }

end MicroState

/-- One step of the server, whose pool has `numThreads` threads; `none` where the label is not
enabled. A thread tests the flag of the service before it waits for a frame; here it is tested when
the frame arrives. A write to a closed connection fails, and no signal ends the process. -/
def microStep (numThreads : ℕ) (s : MicroState C) : MicroLabel C → Option (MicroState C)
  | .accept c fd =>
    if s.reader c = .none ∧ s.fds fd = none then
      some { s with
        reader := update s.reader c (.running fd)
        fds := update s.fds fd (some c) }
    else none
  | .read c body =>
    match s.reader c with
    | .running fd => if s.isServiceRunning then some (s.readFrame c fd body) else none
    | _ => none
  | .leave c =>
    match s.reader c with
    | .running fd => some (s.closeReader c fd)
    | _ => none
  | .disconnect c => some { s with connected := update s.connected c false }
  | .start i =>
    match s.jobs[i]? with
    | some ⟨c, k, .queued⟩ =>
      -- the jobs before it have been taken, and one of the threads is free
      if (∀ j ∈ s.jobs.take i, j.phase ≠ .queued) ∧
          (s.jobs.filter (·.phase ≠ .queued)).length < numThreads then
        some (s.setPhase i ⟨c, k, .queued⟩ .processing)
      else none
    | _ => none
  | .process i result =>
    match s.jobs[i]? with
    | some ⟨c, k, .processing⟩ =>
      match (s.requests c)[k]? with
      | some req =>
        let body := (processRequest req result).serialize
        some (s.finishRequest i ⟨c, k, .processing⟩ body)
      | none => none
    | _ => none
  | .callback i found =>
    match s.jobs[i]? with
    | some ⟨c, k, .processed body⟩ =>
      let fd := match s.reader c with
        | .running fd => fd
        | _ => found
      some (s.setPhase i ⟨c, k, .processed body⟩ (.writing fd (frameHeader body) body))
    | _ => none
  | .write i n =>
    match s.jobs[i]? with
    | some ⟨c, k, .writing fd header body⟩ =>
      s.writeSome i ⟨c, k, .writing fd header body⟩ fd header body n
    | _ => none
  | .writeError i =>
    match s.jobs[i]? with
    | some ⟨_, _, .writing fd _ _⟩ =>
      match s.fds fd with
      | some target =>
        if s.connected target then none else some { s with jobs := s.jobs.eraseIdx i }
      | none => some { s with jobs := s.jobs.eraseIdx i }
    | _ => none
  | .stop => some { s with isServiceRunning := false }

/-- The server listens, and nobody has connected yet. -/
def microInit : MicroState C where
  isServiceRunning := true
  reader := fun _ => .none
  fds := fun _ => none
  connected := fun _ => true
  requests := fun _ => []
  jobs := []
  reply := fun _ _ => none
  output := fun _ => []

def microSystem (C : Type) [DecidableEq C] (numThreads : ℕ) :
    System (MicroState C) (MicroLabel C) :=
  .ofFun (· = microInit) (microStep numThreads)

/-- No request of a connection is unanswered. -/
def MicroState.Quiet (s : MicroState C) (c : C) : Prop := ∀ j ∈ s.jobs, j.conn ≠ c

instance (s : MicroState C) (c : C) : Decidable (s.Quiet c) :=
  inferInstanceAs (Decidable (∀ j ∈ s.jobs, j.conn ≠ c))

/-- **Orderly**: a connection ends only when none of its requests is unanswered, and it sends a
request only then, unless there is but one worker. -/
def orderly (numThreads : ℕ) (s : MicroState C) : MicroLabel C → Prop
  | .read c body =>
    s.connected c ∧ (s.Quiet c ∨ numThreads ≤ 1 ∧ (requestOf body).isSome)
  | .leave c | .disconnect c => s.Quiet c
  | _ => True

instance (numThreads : ℕ) (s : MicroState C) :
    (l : MicroLabel C) → Decidable (orderly numThreads s l)
  | .read c body => inferInstanceAs (Decidable (_ ∧ (s.Quiet c ∨ _ ∧ (requestOf body).isSome)))
  | .leave c | .disconnect c => inferInstanceAs (Decidable (s.Quiet c))
  | .accept _ _ | .start _ | .process _ _ | .callback _ _ | .write _ _ | .writeError _ | .stop =>
    .isTrue trivial

/-- The frame of the reply to a request, with the request. -/
def MicroState.replyFrame (s : MicroState C) (c : C) (k : ℕ) : List (ReplyByte C) :=
  (frame ((s.reply c k).getD [])).map (ReplyByte.mk c k)

/-- The frames of the replies to the first `k` requests of a connection. -/
def MicroState.framesUpTo (s : MicroState C) (c : C) (k : ℕ) : List (ReplyByte C) :=
  (range k).flatMap (s.replyFrame c)

/-- The output of a connection is the replies to its requests, in order, and each of them whole
but the last, which may be on its way. -/
def MicroState.InOrder (s : MicroState C) (c : C) : Prop :=
  ∃ k ≤ (s.requests c).length, (∀ i < k, (s.reply c i).isSome) ∧
    ∃ part, s.output c = s.framesUpTo c k ++ part ∧
      (part = [] ∨ k < (s.requests c).length ∧ (s.reply c k).isSome ∧ part <+: s.replyFrame c k)

/-! ### The invariant -/

/-- The jobs of a connection. -/
def MicroState.pending (s : MicroState C) (c : C) : List (Job C) := s.jobs.filter (·.conn = c)

/-- How far the reply to request `k` of a connection is, in each phase of its job. -/
def PhaseOk (s : MicroState C) (c : C) (k : ℕ) : JobPhase → Prop
  | .queued | .processing => s.output c = s.framesUpTo c k
  | .processed body => s.output c = s.framesUpTo c k ∧ s.reply c k = some body
  | .writing fd header body =>
    s.reader c = .running fd ∧ ∃ reply written, s.reply c k = some reply ∧
      frame reply = written ++ (header ++ body) ∧
      s.output c = s.framesUpTo c k ++ written.map (ReplyByte.mk c k)

/-- The first `k` requests of a connection are answered; the jobs are those of the others, and
only the first of them may have been taken by a worker. -/
structure ConnInv (s : MicroState C) (c : C) (k : ℕ) : Prop where
  indices : (s.pending c).map Job.index = range' k (s.pending c).length
  count : k + (s.pending c).length = (s.requests c).length
  answered : ∀ i < k, (s.reply c i).isSome
  queued : ∀ j ∈ (s.pending c).tail, j.phase = .queued
  idle : s.pending c = [] → s.output c = s.framesUpTo c k
  active : ∀ job rest, s.pending c = job :: rest →
    s.connected c ∧ (∃ fd, s.reader c = .running fd) ∧ PhaseOk s c k job.phase

structure MicroInv (numThreads : ℕ) (s : MicroState C) : Prop where
  fds_of_reader : ∀ c fd, s.reader c = .running fd → s.fds fd = some c
  one_pending : 1 < numThreads → ∀ c, (s.pending c).length ≤ 1
  conn : ∀ c, ∃ k, ConnInv s c k

theorem microInv_init (numThreads : ℕ) : MicroInv numThreads (microInit : MicroState C) where
  fds_of_reader := nofun
  one_pending := fun _ _ => Nat.zero_le 1
  conn := fun _ => ⟨0, rfl, rfl, nofun, nofun, fun _ => rfl, nofun⟩

variable {s s' : MicroState C} {c : C} {k : ℕ} {b : ReplyByte C}

open MicroState

omit [DecidableEq C] in
theorem framesUpTo_congr (h : ∀ i < k, s'.reply c i = s.reply c i) :
    s'.framesUpTo c k = s.framesUpTo c k := by
  refine flatMap_congr fun i hi => ?_
  rw [replyFrame, replyFrame, h i (mem_range.mp hi)]

omit [DecidableEq C] in
theorem framesUpTo_succ (s : MicroState C) (c : C) (k : ℕ) :
    s.framesUpTo c (k + 1) = s.framesUpTo c k ++ s.replyFrame c k := by
  simp [framesUpTo, range_succ]

omit [DecidableEq C] in
theorem PhaseOk.congr {phase : JobPhase} (h : PhaseOk s c k phase)
    (hreader : s'.reader c = s.reader c) (hreply : s'.reply c = s.reply c)
    (houtput : s'.output c = s.output c) :
    PhaseOk s' c k phase := by
  have hframes : s'.framesUpTo c k = s.framesUpTo c k :=
    framesUpTo_congr fun i _ => congrFun hreply i
  cases phase <;> simpa only [PhaseOk, hreader, hreply, houtput, hframes] using h

/-- A step that does not touch a connection; one without jobs may also end. -/
theorem ConnInv.congr (h : ConnInv s c k) (hpending : s'.pending c = s.pending c)
    (hrequests : s'.requests c = s.requests c) (hreply : s'.reply c = s.reply c)
    (houtput : s'.output c = s.output c)
    (hlive : s.pending c ≠ [] → s'.connected c = s.connected c ∧ s'.reader c = s.reader c) :
    ConnInv s' c k where
  indices := by rw [hpending]; exact h.indices
  count := by rw [hpending, hrequests]; exact h.count
  answered := by rw [hreply]; exact h.answered
  queued := by rw [hpending]; exact h.queued
  idle hnil := by
    rw [houtput, framesUpTo_congr fun i _ => congrFun hreply i]
    exact h.idle (hpending ▸ hnil)
  active job rest hcons := by
    rw [hpending] at hcons
    obtain ⟨hconn, hrun, hphase⟩ := h.active job rest hcons
    obtain ⟨hconnected, hreader⟩ := hlive (by rw [hcons]; exact cons_ne_nil _ _)
    rw [hconnected, hreader]
    exact ⟨hconn, hrun, hphase.congr hreader hreply houtput⟩

theorem MicroState.Quiet.pending_eq_nil (h : s.Quiet c) : s.pending c = [] :=
  filter_eq_nil_iff.mpr fun j hj => by simpa using h j hj

/-- **What the invariant is for.** -/
theorem ConnInv.inOrder (h : ConnInv s c k) : s.InOrder c := by
  refine ⟨k, ?_, h.answered, ?_⟩
  · rw [← h.count]
    exact Nat.le_add_right _ _
  · cases hp : s.pending c with
    | nil => exact ⟨[], by rw [h.idle hp, append_nil], .inl rfl⟩
    | cons job rest =>
      obtain ⟨-, -, hphase⟩ := h.active job rest hp
      have hlt : k < (s.requests c).length := by
        rw [← h.count, hp, length_cons]
        omega
      cases hj : job.phase with
      | queued | processing =>
        rw [hj] at hphase
        exact ⟨[], by rw [append_nil]; exact hphase, .inl rfl⟩
      | processed body =>
        rw [hj] at hphase
        exact ⟨[], by rw [append_nil]; exact hphase.1, .inl rfl⟩
      | writing fd header body =>
        rw [hj] at hphase
        obtain ⟨-, reply, written, hreply, hframe, hout⟩ := hphase
        refine ⟨_, hout, .inr ⟨hlt, by rw [hreply]; rfl, ?_⟩⟩
        rw [replyFrame, hreply, getD_some, hframe, map_append]
        exact prefix_append _ _

/-! ### The steps of the workers -/

section Workers

variable {numThreads i k : ℕ} {s : MicroState C} {pre post : List (Job C)} {job : Job C}

omit [DecidableEq C] in
theorem exists_split (h : s.jobs[i]? = some job) :
    ∃ pre post, s.jobs = pre ++ job :: post ∧ pre.length = i := by
  obtain ⟨hlt, rfl⟩ := List.getElem?_eq_some_iff.mp h
  refine ⟨s.jobs.take i, s.jobs.drop (i + 1), ?_, length_take_of_le hlt.le⟩
  rw [getElem_cons_drop, take_append_drop]

section

variable (hjobs : s.jobs = pre ++ job :: post)

include hjobs

omit [DecidableEq C] in
theorem set_split (hi : pre.length = i) (job' : Job C) :
    s.jobs.set i job' = pre ++ job' :: post := by
  subst hi
  simp [hjobs]

omit [DecidableEq C] in
theorem eraseIdx_split (hi : pre.length = i) : s.jobs.eraseIdx i = pre ++ post := by
  subst hi
  simp [hjobs, eraseIdx_append_of_length_le]

theorem pending_of_first (hfirst : ∀ j ∈ pre, j.conn ≠ job.conn) :
    s.pending job.conn = job :: post.filter (·.conn = job.conn) := by
  have hpre : pre.filter (·.conn = job.conn) = [] :=
    filter_eq_nil_iff.mpr fun j hj => by simpa using hfirst j hj
  rw [pending, hjobs, filter_append, hpre, nil_append, filter_cons_of_pos (by simp)]

end

theorem ConnInv.index_eq (h : ConnInv s job.conn k) (hjobs : s.jobs = pre ++ job :: post)
    (hfirst : ∀ j ∈ pre, j.conn ≠ job.conn) : job.index = k := by
  have := h.indices
  rw [pending_of_first hjobs hfirst, map_cons, length_cons, range'_succ] at this
  exact (cons.inj this).1

/-- A job that a worker has taken is the first one of its connection: all others are queued. -/
theorem MicroInv.first_of_taken (h : MicroInv numThreads s) (hjobs : s.jobs = pre ++ job :: post)
    (htaken : job.phase ≠ .queued) : ∀ j ∈ pre, j.conn ≠ job.conn := by
  intro j hj hconn
  obtain ⟨k, hc⟩ := h.conn job.conn
  have hmem : j ∈ pre.filter (·.conn = job.conn) := mem_filter.mpr ⟨hj, by simpa using hconn⟩
  obtain ⟨head, rest, hsplit⟩ := exists_cons_of_ne_nil (ne_nil_of_mem hmem)
  refine htaken (hc.queued job ?_)
  rw [pending, hjobs, filter_append, hsplit, cons_append, tail_cons]
  exact mem_append_right _ (mem_filter.mpr ⟨mem_cons_self, by simp⟩)

/-- So is the one that is taken next. With several workers no other job of its connection is there;
with one worker, no other job has been taken. -/
theorem MicroInv.first_of_start (h : MicroInv numThreads s) (hjobs : s.jobs = pre ++ job :: post)
    (hpre : ∀ j ∈ pre, j.phase ≠ .queued)
    (hfree : (s.jobs.filter (·.phase ≠ .queued)).length < numThreads) :
    ∀ j ∈ pre, j.conn ≠ job.conn := by
  intro j hj hconn
  have hj' : j ∈ s.jobs := by
    rw [hjobs]
    exact mem_append_left _ hj
  by_cases hn : 1 < numThreads
  · have hone := h.one_pending hn job.conn
    have hpos : 0 < (pre.filter (·.conn = job.conn)).length :=
      length_pos_of_mem (mem_filter.mpr ⟨hj, by simpa using hconn⟩)
    rw [pending, hjobs, filter_append, length_append,
      filter_cons_of_pos (by simp), length_cons] at hone
    omega
  · have hpos : 0 < (s.jobs.filter (·.phase ≠ .queued)).length :=
      length_pos_of_mem (mem_filter.mpr ⟨hj', by simpa using hpre j hj⟩)
    omega

theorem filter_split_of_ne {c : C} (hc : job.conn ≠ c) (hjobs : s.jobs = pre ++ job :: post) :
    s.pending c = (pre ++ post).filter (·.conn = c) := by
  rw [pending, hjobs, filter_append, filter_cons_of_neg (by simpa using hc),
    filter_append]

/-- **A worker goes on** with a job: only its phase, its reply and the output of its connection
change, and the replies before it stay. -/
theorem MicroInv.advance (h : MicroInv numThreads s) (hjobs : s.jobs = pre ++ job :: post)
    (hfirst : ∀ j ∈ pre, j.conn ≠ job.conn) {phase : JobPhase} {s' : MicroState C}
    (hjobs' : s'.jobs = pre ++ { job with phase } :: post)
    (hreader : s'.reader = s.reader) (hfds : s'.fds = s.fds)
    (hconnected : s'.connected = s.connected) (hrequests : s'.requests = s.requests)
    (hreply : ∀ c, c ≠ job.conn → s'.reply c = s.reply c)
    (houtput : ∀ c, c ≠ job.conn → s'.output c = s.output c)
    (hbefore : ∀ i < job.index, s'.reply job.conn i = s.reply job.conn i)
    (hphase : PhaseOk s' job.conn job.index phase) : MicroInv numThreads s' := by
  have hself : s'.pending job.conn = { job with phase } :: post.filter (·.conn = job.conn) :=
    pending_of_first hjobs' hfirst
  have hother : ∀ c, c ≠ job.conn → s'.pending c = s.pending c := by
    intro c hc
    have hc' : ({ job with phase } : Job C).conn ≠ c := hc.symm
    rw [filter_split_of_ne hc' hjobs', filter_split_of_ne hc.symm hjobs]
  refine ⟨by rw [hreader, hfds]; exact h.fds_of_reader, fun hn c => ?_, fun c => ?_⟩
  · by_cases hc : c = job.conn
    · have := h.one_pending hn job.conn
      rw [pending_of_first hjobs hfirst] at this
      rw [hc, hself]
      exact this
    · rw [hother c hc]
      exact h.one_pending hn c
  · obtain ⟨k, hk⟩ := h.conn c
    refine ⟨k, ?_⟩
    by_cases hc : c = job.conn
    · subst hc
      have hindex : job.index = k := hk.index_eq hjobs hfirst
      have hold := pending_of_first hjobs hfirst
      have hactive := hk.active job _ hold
      exact
        { indices := by
            have := hk.indices
            rw [hold] at this
            rw [hself]
            exact this
          count := by
            have := hk.count
            rw [hold] at this
            rw [hself, hrequests]
            exact this
          answered := fun i hi => by
            rw [hbefore i (by omega)]
            exact hk.answered i hi
          queued := by
            have := hk.queued
            rw [hold] at this
            rw [hself]
            exact this
          idle := fun hnil => by
            rw [hself] at hnil
            exact absurd hnil (cons_ne_nil _ _)
          active := fun job' rest hcons => by
            rw [hself] at hcons
            obtain ⟨rfl, -⟩ := cons.inj hcons
            rw [hconnected, hreader]
            exact ⟨hactive.1, hactive.2.1, hindex ▸ hphase⟩ }
    · exact hk.congr (hother c hc) (congrFun hrequests c) (hreply c hc) (houtput c hc)
        fun _ => ⟨congrFun hconnected c, congrFun hreader c⟩

variable {fd : ℕ}

section

variable (h : MicroInv numThreads s) (hjobs : s.jobs = pre ++ job :: post) {body : List Byte}
  {header : List Byte}

include h hjobs

/-- **A worker is done** with a job: the frame of the reply is out. -/
theorem MicroInv.finish (hfirst : ∀ j ∈ pre, j.conn ≠ job.conn)
    (hphase : job.phase = .writing fd [] []) :
    MicroInv numThreads { s with jobs := pre ++ post } := by
  have hpre : pre.filter (·.conn = job.conn) = [] :=
    filter_eq_nil_iff.mpr fun j hj => by simpa using hfirst j hj
  have hself : ({ s with jobs := pre ++ post } : MicroState C).pending job.conn =
      post.filter (·.conn = job.conn) := by
    rw [pending, filter_append, hpre, nil_append]
  have hother : ∀ c, c ≠ job.conn →
      ({ s with jobs := pre ++ post } : MicroState C).pending c = s.pending c :=
    fun c hc => (filter_split_of_ne hc.symm hjobs).symm
  have hold := pending_of_first hjobs hfirst
  refine ⟨h.fds_of_reader, fun hn c => ?_, fun c => ?_⟩
  · by_cases hc : c = job.conn
    · have := h.one_pending hn job.conn
      rw [hold, length_cons] at this
      rw [hc, hself]
      omega
    · rw [hother c hc]
      exact h.one_pending hn c
  · obtain ⟨k, hk⟩ := h.conn c
    by_cases hc : c = job.conn
    · subst hc
      obtain ⟨hconn, hrun, -, reply, written, hreply, hframe, hout⟩ :=
        hphase ▸ hk.active job _ hold
      -- everything is written: the output now ends with the whole frame
      have hdone : s.output job.conn = s.framesUpTo job.conn (k + 1) := by
        rw [framesUpTo_succ, replyFrame, hreply, getD_some, hframe, hout,
          append_nil, append_nil]
      have hindices := hk.indices
      rw [hold, map_cons, length_cons, range'_succ] at hindices
      have hcount := hk.count
      rw [hold, length_cons] at hcount
      have hqueued := hk.queued
      rw [hold, tail_cons] at hqueued
      refine ⟨k + 1, ?_, ?_, fun i hi => ?_, ?_, fun _ => hdone, fun job' rest hcons => ?_⟩
      · rw [hself]
        exact (cons.inj hindices).2
      · rw [hself]
        show k + 1 + _ = (s.requests job.conn).length
        omega
      · rcases Nat.lt_succ_iff_lt_or_eq.mp hi with hlt | rfl
        · exact hk.answered i hlt
        · show (s.reply job.conn i).isSome
          rw [hreply]
          rfl
      · rw [hself]
        exact fun j hj => hqueued j (mem_of_mem_tail hj)
      · refine ⟨hconn, hrun, ?_⟩
        rw [hself] at hcons
        rw [hqueued job' (hcons ▸ mem_cons_self)]
        exact hdone
    · exact ⟨k, hk.congr (hother c hc) rfl rfl rfl fun _ => ⟨rfl, rfl⟩⟩

/-- What the invariant says of a job that is the first one of its connection. -/
theorem MicroInv.active_of_first (hfirst : ∀ j ∈ pre, j.conn ≠ job.conn) :
    s.connected job.conn ∧ (∃ fd, s.reader job.conn = .running fd) ∧
      PhaseOk s job.conn job.index job.phase := by
  obtain ⟨k, hk⟩ := h.conn job.conn
  rw [hk.index_eq hjobs hfirst]
  exact hk.active job _ (pending_of_first hjobs hfirst)

section

variable (hi : pre.length = i)

include hi

theorem MicroInv.start (hphase : job.phase = .queued) (hpre : ∀ j ∈ pre, j.phase ≠ .queued)
    (hfree : (s.jobs.filter (·.phase ≠ .queued)).length < numThreads) :
    MicroInv numThreads (s.setPhase i job .processing) := by
  have hfirst := h.first_of_start hjobs hpre hfree
  have hactive := (h.active_of_first hjobs hfirst).2.2
  rw [hphase] at hactive
  exact h.advance hjobs hfirst (set_split hjobs hi _) rfl rfl rfl rfl (fun _ _ => rfl)
    (fun _ _ => rfl) (fun _ _ => rfl) hactive

theorem MicroInv.process (hphase : job.phase = .processing)
    (body : List Byte) : MicroInv numThreads (s.finishRequest i job body) := by
  have hfirst := h.first_of_taken hjobs (by rw [hphase]; nofun)
  have hactive := (h.active_of_first hjobs hfirst).2.2
  rw [hphase] at hactive
  have hbefore : ∀ i' < job.index,
      (s.finishRequest i job body).reply job.conn i' = s.reply job.conn i' := by
    intro i' hlt
    show update s.reply job.conn _ job.conn i' = _
    rw [update_self, update_of_ne hlt.ne]
  refine h.advance hjobs hfirst (set_split hjobs hi _) rfl rfl rfl rfl
    (fun c hc => update_of_ne hc _ _) (fun _ _ => rfl) hbefore ⟨?_, ?_⟩
  · rw [framesUpTo_congr hbefore]
    exact hactive
  · show update s.reply job.conn _ job.conn job.index = _
    rw [update_self, update_self]

/-- The callback finds the descriptor of the connection, since the thread still runs. -/
theorem MicroInv.callback (hphase : job.phase = .processed body) (found : ℕ) :
    MicroInv numThreads (s.setPhase i job (.writing
      (match s.reader job.conn with
        | .running fd => fd
        | _ => found) (frameHeader body) body)) := by
  have hfirst := h.first_of_taken hjobs (by rw [hphase]; nofun)
  obtain ⟨-, ⟨fd, hreader⟩, hactive⟩ := h.active_of_first hjobs hfirst
  rw [hphase] at hactive
  obtain ⟨hout, hreply⟩ := hactive
  refine h.advance hjobs hfirst (set_split hjobs hi _) rfl rfl rfl rfl (fun _ _ => rfl)
    (fun _ _ => rfl) (fun _ _ => rfl) ⟨?_, body, [], hreply, rfl, ?_⟩
  · rw [hreader]
    exact hreader
  · rw [map_nil, append_nil]
    exact hout

theorem MicroInv.emit {chunk header' body' : List Byte}
    (hphase : job.phase = .writing fd header body)
    (hchunk : header ++ body = chunk ++ (header' ++ body')) {target : C}
    (htarget : s.fds fd = some target) :
    MicroInv numThreads
      ((s.emit target job chunk).setPhase i job (.writing fd header' body')) := by
  have hfirst := h.first_of_taken hjobs (by rw [hphase]; nofun)
  obtain ⟨-, -, hactive⟩ := h.active_of_first hjobs hfirst
  rw [hphase] at hactive
  obtain ⟨hreader, reply, written, hreply, hframe, hout⟩ := hactive
  -- the descriptor is still that of the connection
  obtain rfl : job.conn = target :=
    some.inj ((h.fds_of_reader job.conn fd hreader).symm.trans htarget)
  refine h.advance hjobs hfirst (set_split hjobs hi _) rfl rfl rfl rfl (fun _ _ => rfl)
    (fun c hc => update_of_ne hc _ _) (fun _ _ => rfl)
    ⟨hreader, reply, written ++ chunk, hreply, ?_, ?_⟩
  · rw [hframe, hchunk, append_assoc]
  · show update s.output job.conn _ job.conn = _
    rw [update_self, hout, map_append, append_assoc]
    rfl

theorem MicroInv.writeSome {n : ℕ}
    (hphase : job.phase = .writing fd header body) {s' : MicroState C}
    (hstep : s.writeSome i job fd header body n = some s') : MicroInv numThreads s' := by
  unfold MicroState.writeSome at hstep
  split at hstep
  · cases hstep
  · next target htarget =>
    split at hstep
    · -- a part of the length
      simp only [ite_none_right_eq_some, some.injEq] at hstep
      obtain ⟨-, rfl⟩ := hstep
      refine h.emit hjobs hi hphase ?_ htarget
      rw [← append_assoc, take_append_drop]
    · next hheader =>
      obtain rfl : header = [] := not_not.mp hheader
      split at hstep
      · -- a part of the body
        simp only [ite_none_right_eq_some, some.injEq] at hstep
        obtain ⟨-, rfl⟩ := hstep
        refine h.emit hjobs hi hphase ?_ htarget
        rw [nil_append, nil_append, take_append_drop]
      · next hbody =>
        obtain rfl : body = [] := not_not.mp hbody
        cases hstep
        rw [eraseIdx_split hjobs hi]
        exact h.finish hjobs (h.first_of_taken hjobs (by rw [hphase]; nofun)) hphase

end

theorem MicroInv.live_of_writing (hphase : job.phase = .writing fd header body) :
    s.fds fd = some job.conn ∧ s.connected job.conn = true := by
  have hfirst := h.first_of_taken hjobs (by rw [hphase]; nofun)
  obtain ⟨hconnected, -, hactive⟩ := h.active_of_first hjobs hfirst
  rw [hphase] at hactive
  exact ⟨h.fds_of_reader job.conn fd hactive.1, hconnected⟩

end

end Workers

/-! ### The steps of the threads -/

section Readers

variable {numThreads fd : ℕ} {s : MicroState C} {c : C}

section

variable (h : MicroInv numThreads s)

include h

theorem MicroInv.accept (hreader : s.reader c = .none) (hfd : s.fds fd = none) :
    MicroInv numThreads { s with
      reader := update s.reader c (.running fd)
      fds := update s.fds fd (some c) } := by
  refine ⟨fun c' fd' hrun => ?_, h.one_pending, fun c' => ?_⟩
  · show update s.fds fd (some c) fd' = some c'
    change update s.reader c (.running fd) c' = .running fd' at hrun
    by_cases hc : c' = c
    · subst hc
      rw [update_self] at hrun
      cases hrun
      rw [update_self]
    · rw [update_of_ne hc] at hrun
      have hold := h.fds_of_reader c' fd' hrun
      -- the new descriptor was not in use
      have hne : fd' ≠ fd := by
        rintro rfl
        rw [hfd] at hold
        cases hold
      rw [update_of_ne hne]
      exact hold
  · obtain ⟨k, hk⟩ := h.conn c'
    refine ⟨k, hk.congr rfl rfl rfl rfl fun hne => ⟨rfl, ?_⟩⟩
    show update s.reader c (.running fd) c' = s.reader c'
    refine update_of_ne ?_ _ _
    rintro rfl
    -- a connection with jobs has been accepted before
    obtain ⟨job, rest, hcons⟩ := exists_cons_of_ne_nil hne
    obtain ⟨-, ⟨fd', hrun⟩, -⟩ := hk.active job rest hcons
    rw [hreader] at hrun
    cases hrun

theorem MicroInv.closeReader (hreader : s.reader c = .running fd)
    (hquiet : s.Quiet c) : MicroInv numThreads (s.closeReader c fd) := by
  refine ⟨fun c' fd' hrun => ?_, h.one_pending, fun c' => ?_⟩
  · change update s.reader c .returned c' = .running fd' at hrun
    show update s.fds fd none fd' = some c'
    have hc : c' ≠ c := by
      rintro rfl
      rw [update_self] at hrun
      cases hrun
    rw [update_of_ne hc] at hrun
    have hold := h.fds_of_reader c' fd' hrun
    have hne : fd' ≠ fd := by
      rintro rfl
      rw [h.fds_of_reader c fd' hreader] at hold
      exact hc (some.inj hold).symm
    rw [update_of_ne hne]
    exact hold
  · obtain ⟨k, hk⟩ := h.conn c'
    refine ⟨k, hk.congr rfl rfl rfl rfl fun hne => ⟨rfl, update_of_ne ?_ _ _⟩⟩
    rintro rfl
    exact hne hquiet.pending_eq_nil

theorem MicroInv.disconnect (hquiet : s.Quiet c) :
    MicroInv numThreads { s with connected := update s.connected c false } := by
  refine ⟨h.fds_of_reader, h.one_pending, fun c' => ?_⟩
  obtain ⟨k, hk⟩ := h.conn c'
  refine ⟨k, hk.congr rfl rfl rfl rfl fun hne => ⟨update_of_ne ?_ _ _, rfl⟩⟩
  rintro rfl
  exact hne hquiet.pending_eq_nil

theorem MicroInv.submit (hreader : s.reader c = .running fd)
    (hconnected : s.connected c) (hpending : s.Quiet c ∨ numThreads ≤ 1) (msg : NSMicroTaskMsg) :
    MicroInv numThreads (s.submit c msg) := by
  have hself : (s.submit c msg).pending c =
      s.pending c ++ [⟨c, (s.requests c).length, .queued⟩] := by
    rw [MicroState.pending, MicroState.submit, filter_append]
    simp [pending]
  have hother : ∀ c', c' ≠ c → (s.submit c msg).pending c' = s.pending c' := by
    intro c' hc
    rw [MicroState.pending, MicroState.submit, filter_append,
      filter_cons_of_neg (by simpa using hc.symm), filter_nil, append_nil]
    rfl
  refine ⟨h.fds_of_reader, fun hn c' => ?_, fun c' => ?_⟩
  · by_cases hc : c' = c
    · have hquiet : s.Quiet c := hpending.resolve_right (Nat.not_le.mpr hn)
      rw [hc, hself, hquiet.pending_eq_nil]
      exact le_rfl
    · rw [hother c' hc]
      exact h.one_pending hn c'
  · obtain ⟨k, hk⟩ := h.conn c'
    refine ⟨k, ?_⟩
    by_cases hc : c' = c
    · subst hc
      have hrequests : (s.submit c' msg).requests c' = s.requests c' ++ [msg] :=
        update_self c' _ _
      exact
        { indices := by
            rw [hself, map_append, hk.indices, length_append, length_singleton,
              range'_concat, ← hk.count, Nat.one_mul]
            rfl
          count := by
            rw [hself, hrequests, length_append, length_append, ← hk.count]
            exact (Nat.add_assoc _ _ _).symm
          answered := hk.answered
          queued := fun j hj => by
            rw [hself] at hj
            cases hp : s.pending c' with
            | nil =>
              rw [hp] at hj
              cases hj
            | cons job rest =>
              rw [hp, cons_append, tail_cons] at hj
              rcases mem_append_singleton.mp hj with hrest | hnew
              · exact hk.queued j (by rw [hp]; exact hrest)
              · rw [hnew]
          idle := fun hnil => by
            rw [hself] at hnil
            exact absurd hnil (append_ne_nil_of_right_ne_nil _ (cons_ne_nil _ _))
          active := fun job rest hcons => by
            rw [hself] at hcons
            refine ⟨hconnected, ⟨fd, hreader⟩, ?_⟩
            cases hp : s.pending c' with
            | nil =>
              rw [hp] at hcons
              obtain ⟨rfl, -⟩ := cons.inj hcons
              exact hk.idle hp
            | cons job' rest' =>
              rw [hp] at hcons
              obtain ⟨rfl, -⟩ := cons.inj hcons
              exact (hk.active job' rest' hp).2.2.congr rfl rfl rfl }
    · exact hk.congr (hother c' hc) (update_of_ne hc _ _) rfl rfl fun _ => ⟨rfl, rfl⟩

end

end Readers

/-! ### Runs -/

theorem MicroInv.step {numThreads : ℕ} {l : MicroLabel C} (h : MicroInv numThreads s)
    (hl : orderly numThreads s l) (hstep : microStep numThreads s l = some s') :
    MicroInv numThreads s' := by
  cases l with
  | accept c fd =>
    simp only [microStep, ite_none_right_eq_some, some.injEq] at hstep
    obtain ⟨⟨hreader, hfd⟩, rfl⟩ := hstep
    exact h.accept hreader hfd
  | read c body =>
    obtain ⟨hconnected, hpending⟩ := hl
    cases hreader : s.reader c with
    | running fd =>
      simp only [microStep, hreader, ite_none_right_eq_some, some.injEq] at hstep
      obtain ⟨-, rfl⟩ := hstep
      unfold readFrame
      cases hreq : requestOf body with
      | some msg => exact h.submit hreader hconnected (hpending.imp_right And.left) msg
      | none =>
        -- the connection ends: then none of its requests is unanswered
        refine h.closeReader hreader (hpending.resolve_right ?_)
        rw [hreq]
        exact fun hbad => Bool.false_ne_true hbad.2
    | none | returned =>
      simp only [microStep, hreader] at hstep
      cases hstep
  | leave c =>
    cases hreader : s.reader c with
    | running fd =>
      simp only [microStep, hreader, some.injEq] at hstep
      subst hstep
      exact h.closeReader hreader hl
    | none | returned =>
      simp only [microStep, hreader] at hstep
      cases hstep
  | disconnect c =>
    cases hstep
    exact h.disconnect hl
  | start i =>
    simp only [microStep] at hstep
    split at hstep
    · next c k hjob =>
      simp only [ite_none_right_eq_some, some.injEq] at hstep
      obtain ⟨⟨hpre, hfree⟩, rfl⟩ := hstep
      obtain ⟨pre, post, hjobs, hi⟩ := exists_split hjob
      rw [hjobs, ← hi, take_left] at hpre
      exact h.start hjobs hi rfl hpre hfree
    · cases hstep
  | process i result =>
    simp only [microStep] at hstep
    split at hstep
    · next c k hjob =>
      split at hstep
      · next req hreq =>
        cases hstep
        obtain ⟨pre, post, hjobs, hi⟩ := exists_split hjob
        exact h.process hjobs hi rfl _
      · cases hstep
    · cases hstep
  | callback i found =>
    simp only [microStep] at hstep
    split at hstep
    · next c k body hjob =>
      cases hstep
      obtain ⟨pre, post, hjobs, hi⟩ := exists_split hjob
      exact h.callback hjobs hi rfl found
    · cases hstep
  | write i n =>
    simp only [microStep] at hstep
    split at hstep
    · next c k fd header body hjob =>
      obtain ⟨pre, post, hjobs, hi⟩ := exists_split hjob
      exact h.writeSome hjobs hi rfl hstep
    · cases hstep
  | writeError i =>
    simp only [microStep] at hstep
    split at hstep
    · next c k fd header body hjob =>
      obtain ⟨pre, post, hjobs, hi⟩ := exists_split hjob
      have hlive := h.live_of_writing hjobs rfl
      split at hstep
      · next target htarget =>
        rw [hlive.1] at htarget
        cases htarget
        rw [hlive.2, if_pos rfl] at hstep
        cases hstep
      · next hclosed =>
        rw [hlive.1] at hclosed
        cases hclosed
    · cases hstep
  | stop =>
    cases hstep
    refine ⟨h.fds_of_reader, h.one_pending, fun c => ?_⟩
    obtain ⟨k, hk⟩ := h.conn c
    exact ⟨k, hk.congr rfl rfl rfl rfl fun _ => ⟨rfl, rfl⟩⟩

/-- **Replies go to the right client, in order.** Along every orderly run, the output of each
connection is the frames of the replies to its requests: in the order of the requests, without
a byte of any other reply, and each of them whole but the last, which may be on its way. -/
theorem replies_in_order {numThreads : ℕ} {ls : List (MicroLabel C)} {s : MicroState C}
    (hrun : ((microSystem C numThreads).guard (orderly numThreads)).Run microInit ls s) (c : C) :
    s.InOrder c := by
  have hinv : MicroInv numThreads s :=
    hrun.invariant (microInv_init numThreads) fun _ _ _ h hstep => h.step hstep.2 hstep.1
  obtain ⟨k, hk⟩ := hinv.conn c
  exact hk.inOrder

/-- The body of a request without payload. -/
def bareRequest (type : NSMicroTaskType) : List Byte :=
  NSMicroTaskMsg.serialize ⟨type.code, 0, 0, [], length_no_payload⟩

/-- What a worker does with the job at position `i`, up to the first `write`. -/
def workerStarts (i : ℕ) : List (MicroLabel ℕ) :=
  [.start i, .process i newMicroOkResponse, .callback i 0]

/-- One client sends two requests without waiting to a single worker, while another one comes and
goes; both replies are out. -/
theorem replies_in_order_one_worker :
    ∃ ls s, ((microSystem ℕ 1).guard (orderly 1)).Run microInit ls s ∧
      (s.requests 0).length = 2 ∧ s.jobs = [] ∧ s.InOrder 0 :=
  ⟨[.accept 0 5, .read 0 (bareRequest .shutdown), .accept 1 6, .read 0 (bareRequest .invalid)] ++
      workerStarts 0 ++ [.leave 1, .write 0 3, .write 0 1, .write 0 12, .write 0 0] ++
      workerStarts 0 ++ [.write 0 4, .write 0 30, .write 0 0],
    System.exists_guard_run_of_exec (P := fun s => (s.requests 0).length = 2 ∧ s.jobs = [])
      (by decide +kernel)
      fun _ hrun ⟨hlength, hjobs⟩ => ⟨hlength, hjobs, replies_in_order hrun 0⟩⟩

/-! ### What goes wrong otherwise -/

omit [DecidableEq C] in
theorem mem_replyFrame (hb : b ∈ s.replyFrame c k) : b.conn = c ∧ b.index = k := by
  obtain ⟨byte, -, rfl⟩ := mem_map.mp hb
  exact ⟨rfl, rfl⟩

omit [DecidableEq C] in
theorem mem_framesUpTo (hb : b ∈ s.framesUpTo c k) : b.conn = c ∧ b.index < k := by
  obtain ⟨i, hi, hb⟩ := mem_flatMap.mp hb
  obtain ⟨hconn, rfl⟩ := mem_replyFrame hb
  exact ⟨hconn, mem_range.mp hi⟩

omit [DecidableEq C] in
theorem pairwise_framesUpTo (s : MicroState C) (c : C) (k : ℕ) :
    (s.framesUpTo c k).Pairwise (·.index ≤ ·.index) := by
  induction k with
  | zero => exact .nil
  | succ k ih =>
    rw [framesUpTo_succ, pairwise_append]
    refine ⟨ih, pairwise_of_forall_mem_list fun a ha b hb => ?_, fun a ha b hb => ?_⟩
    · rw [(mem_replyFrame ha).2, (mem_replyFrame hb).2]
    · rw [(mem_replyFrame hb).2]
      exact (mem_framesUpTo ha).2.le

omit [DecidableEq C] in
theorem MicroState.InOrder.exists_prefix (h : s.InOrder c) :
    ∃ k, s.output c <+: s.framesUpTo c k := by
  obtain ⟨k, -, -, part, hout, rfl | ⟨-, -, hpart⟩⟩ := h
  · exact ⟨k, by rw [hout, append_nil]⟩
  · refine ⟨k + 1, ?_⟩
    rw [hout, framesUpTo_succ]
    exact (prefix_append_right_inj _).mpr hpart

omit [DecidableEq C] in
theorem MicroState.InOrder.pairwise (h : s.InOrder c) :
    (s.output c).Pairwise (·.index ≤ ·.index) := by
  obtain ⟨k, hk⟩ := h.exists_prefix
  exact (pairwise_framesUpTo s c k).sublist hk.sublist

omit [DecidableEq C] in
theorem MicroState.InOrder.conn_eq (h : s.InOrder c) : ∀ b ∈ s.output c, b.conn = c := by
  intro b hb
  obtain ⟨k, hk⟩ := h.exists_prefix
  exact (mem_framesUpTo (hk.subset hb)).1

/-- The bytes of the replies of a connection, in the order of the requests. -/
def repliesOf (s : MicroState C) (c : C) (ks : List ℕ) : List Byte :=
  ks.flatMap fun k => frame ((s.reply c k).getD [])

/-- Two workers answer the two requests of one client in the wrong order: it gets the error message
for the request that was carried out. They write both replies at the same time: it
gets the length of the second frame in the middle of the first. And a client that leaves before its
reply is written: the descriptor goes to the next client, which gets the reply. -/
theorem replies_swapped_mixed_misdirected :
    (∃ ls s, (microSystem ℕ 2).Run microInit ls s ∧ s.jobs = [] ∧
      (s.output 0).map ReplyByte.byte = repliesOf s 0 [1, 0] ∧ ¬ s.InOrder 0) ∧
    (∃ ls s, (microSystem ℕ 2).Run microInit ls s ∧ s.jobs = [] ∧
      ((s.output 0).map ReplyByte.index).take 12 = [0, 0, 0, 0, 1, 1, 1, 1, 0, 0, 0, 0] ∧
      ¬ s.InOrder 0) ∧
    ∃ ls s, (microSystem ℕ 1).Run microInit ls s ∧ s.jobs = [] ∧ s.requests 1 = [] ∧
      (s.output 1).map ReplyByte.byte = repliesOf s 0 [0] ∧ ¬ s.InOrder 1 := by
  refine ⟨?_, ?_, ?_⟩
  · refine ⟨[.accept 0 5, .read 0 (bareRequest .shutdown), .read 0 (bareRequest .invalid), .start 0]
        ++ workerStarts 1 ++ [.write 1 4, .write 1 30, .write 1 0, .process 0 newMicroOkResponse,
          .callback 0 0, .write 0 4, .write 0 12, .write 0 0],
      System.exists_run_of_exec (P := fun s => s.jobs = [] ∧
        (s.output 0).map ReplyByte.byte = repliesOf s 0 [1, 0] ∧
        ¬ (s.output 0).Pairwise (·.index ≤ ·.index)) (by decide +kernel) ?_⟩
    rintro s - ⟨hjobs, hbytes, hbad⟩
    exact ⟨hjobs, hbytes, fun h => hbad h.pairwise⟩
  · refine ⟨[.accept 0 5, .read 0 (bareRequest .shutdown), .read 0 (bareRequest .invalid)]
        ++ workerStarts 0 ++ workerStarts 1 ++ [.write 0 4, .write 1 4, .write 0 12, .write 0 0,
          .write 0 30, .write 0 0],
      System.exists_run_of_exec (P := fun s => s.jobs = [] ∧
        ((s.output 0).map ReplyByte.index).take 12 = [0, 0, 0, 0, 1, 1, 1, 1, 0, 0, 0, 0] ∧
        ¬ (s.output 0).Pairwise (·.index ≤ ·.index)) (by decide +kernel) ?_⟩
    rintro s - ⟨hjobs, hbytes, hbad⟩
    exact ⟨hjobs, hbytes, fun h => hbad h.pairwise⟩
  · refine ⟨[.accept 0 5, .read 0 (bareRequest .shutdown), .start 0, .process 0 newMicroOkResponse,
        .callback 0 0, .disconnect 0, .leave 0, .accept 1 5, .write 0 4, .write 0 12, .write 0 0],
      System.exists_run_of_exec (P := fun s => s.jobs = [] ∧ s.requests 1 = [] ∧
        (s.output 1).map ReplyByte.byte = repliesOf s 0 [0] ∧ ¬ ∀ b ∈ s.output 1, b.conn = 1)
        (by decide +kernel) ?_⟩
    rintro s - ⟨hjobs, hreq, hbytes, hbad⟩
    exact ⟨hjobs, hreq, hbytes, fun h => hbad h.conn_eq⟩

end NeurDB.NeurStore
