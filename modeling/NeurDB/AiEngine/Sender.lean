import NeurDB.Framework.System

/-!
# The websocket sender of the AI engine

All connections of the server (`runtime/server.py`) share one `WebsocketSender` (`app/ws.py`): one
queue and one flag, both attributes of the class. The sender task of a new connection sets the flag
and replaces the queue; a disconnect clears the flag and replaces the queue. A message is put on the
queue that is current when the message is created, and is sent by the task that takes it from
there, on the connection of that task.

The model has one step for each stretch of a coroutine between two suspensions. It keeps the queue
objects apart, so that a task can wait on a queue that is no longer current. A message that is
created is recorded with the connection of its session in `created`, a message that is sent with the
connection it is sent on in `wire`; `Isolated` compares the two.

* With two clients messages change the connection or are lost, and even with one
  `ack_disconnect` may be lost (`sessions_mixed`).
* With one client at a time, whose disconnect request finds the sender idle, every message is sent
  once, on the connection of its session (`sessions_isolated`). The proof has two invariants, `Off`
  between two clients and `On` while one is served.
-/

namespace NeurDB.AiEngine

open Function List

/-! ### Model -/

/-- The messages that go through the sender. (The sender does not look into a message; what a result
carries is left out.) -/
inductive Event where
  | ackSetup
  | ackDisconnect
  | requestData
  | result
  deriving DecidableEq

structure Message where
  session : ℕ
  event : Event
  deriving DecidableEq

/-- Where a `start_websocket_sender_task` is. -/
inductive Sender where
  /-- In `message_queue.get()` of this queue object. -/
  | waiting (queue : ℕ)
  /-- In `websocket.send(data)`. -/
  | sending (data : Message)
  /-- Not started, or the loop has ended. -/
  | ended
  deriving DecidableEq

structure Server where
  /-- `WebsocketSender.active`. -/
  active : Bool
  /-- `WebsocketSender.message_queue`, as the number of the queue object. -/
  messageQueue : ℕ
  /-- The number of the next queue object. -/
  nextQueue : ℕ
  /-- The contents of the queue objects. -/
  queues : ℕ → List Message
  /-- The `put` coroutines that the event loop has still to run, each with its queue object. -/
  scheduled : List (ℕ × Message)
  /-- The number of connections so far. -/
  connections : ℕ
  /-- The sender task of each connection. -/
  senders : ℕ → Sender
  /-- The number of sessions so far; a session id is never used twice. -/
  sessions : ℕ
  /-- The connection a session was set up on. -/
  home : ℕ → ℕ
  /-- `config["clients"]`. -/
  clients : List ℕ
  /-- The sessions with a dispatcher thread. -/
  dispatchers : List ℕ
  /-- The sessions of the tasks that have not ended. -/
  running : List ℕ
  /-- The messages created so far, each with the connection of its session. -/
  created : List (ℕ × Message)
  /-- The messages sent so far, each with the connection it was sent on. -/
  wire : List (ℕ × Message)

namespace Server

/-- `WebsocketSender.send`: without an active sender the message is dropped. -/
def send (s : Server) (session : ℕ) (event : Event) : Server :=
  let created := s.created ++ [(s.home session, ⟨session, event⟩)]
  if s.active then
    { s with created := created
             scheduled := s.scheduled ++ [(s.messageQueue, ⟨session, event⟩)] }
  else { s with created := created }

/-- `WebsocketSender.stop`. -/
def stop (s : Server) : Server :=
  { s with active := false
           messageQueue := s.nextQueue
           nextQueue := s.nextQueue + 1 }

end Server

inductive Label where
  /-- A new connection: its sender task starts. -/
  | connect
  /-- `on_setup` on a connection. -/
  | setup (c : ℕ)
  /-- `on_disconnect` on a connection, for a session. -/
  | disconnect (c session : ℕ)
  /-- `on_task`. -/
  | task (session : ℕ)
  /-- `websocket_emit_request_data`. -/
  | requestData (session : ℕ)
  /-- The callback of a task that is done. -/
  | result (session : ℕ)
  /-- The event loop runs the next scheduled `put`. -/
  | put
  /-- The sender task of a connection gets a message. -/
  | get (c : ℕ)
  /-- `websocket.send` of a sender task returns. -/
  | sent (c : ℕ)
  deriving DecidableEq

/-- The steps the server makes on its own. -/
def Label.Internal : Label → Prop
  | .put | .get _ | .sent _ => True
  | .connect | .setup _ | .disconnect _ _ | .task _ | .requestData _ | .result _ => False

/-- One step. The first `receive` of a handler waits for the network, so that the sender task of the
connection starts before the first request is handled. -/
def step (s : Server) : Label → Option Server
  | .connect => some
      { s with active := true
               messageQueue := s.nextQueue
               nextQueue := s.nextQueue + 1
               connections := s.connections + 1
               senders := update s.senders s.connections (.waiting s.nextQueue) }
  | .setup c =>
    if c < s.connections then
      let s' := { s with sessions := s.sessions + 1
                         home := update s.home s.sessions c
                         clients := s.sessions :: s.clients }
      some (s'.send s.sessions .ackSetup)
    else none
  | .disconnect c session =>
    -- `clients.pop` raises for a session that is not there
    if c < s.connections ∧ session ∈ s.clients then
      let s' := { s with clients := s.clients.erase session }
      some (s'.send session .ackDisconnect).stop
    else none
  | .task session =>
    if session ∈ s.clients then
      some
        { s with dispatchers :=
                   if session ∈ s.dispatchers then s.dispatchers else session :: s.dispatchers
                 running := session :: s.running }
    else none
  | .requestData session =>
    if session ∈ s.dispatchers then some (s.send session .requestData) else none
  | .result session =>
    if session ∈ s.running then
      let s' := { s with running := s.running.erase session }
      some (s'.send session .result)
    else none
  | .put =>
    match s.scheduled with
    | [] => none
    | (q, m) :: rest => some
      { s with scheduled := rest
               queues := update s.queues q (s.queues q ++ [m]) }
  | .get c =>
    match s.senders c with
    | .waiting q =>
      match s.queues q with
      | [] => none
      | m :: rest => some
        { s with queues := update s.queues q rest
                 senders := update s.senders c (.sending m) }
    | .sending _ | .ended => none
  | .sent c =>
    match s.senders c with
    | .sending m => some
      { s with wire := s.wire ++ [(c, m)]
               senders := update s.senders c
                 (if s.active then .waiting s.messageQueue else .ended) }
    | .waiting _ | .ended => none

def init : Server where
  active := false
  messageQueue := 0
  nextQueue := 1
  queues := fun _ => []
  scheduled := []
  connections := 0
  senders := fun _ => .ended
  sessions := 0
  home := fun _ => 0
  clients := []
  dispatchers := []
  running := []
  created := []
  wire := []

/-- The server with any number of clients. -/
def server : System Server Label := .ofFun (· = init) step

/-- Nothing is left that the server would do on its own. -/
def Server.Quiet (s : Server) : Prop :=
  (step s .put).isNone ∧
    ∀ c < s.connections, (step s (.get c)).isNone ∧ (step s (.sent c)).isNone

instance (s : Server) : Decidable s.Quiet :=
  inferInstanceAs (Decidable (_ ∧ ∀ c < s.connections, _ ∧ _))

/-- The server gets quiet: there is a bound on the steps it makes on its own. -/
def Server.Settles (s : Server) : Prop :=
  ∃ n, ∀ ls s', (∀ l ∈ ls, l.Internal) → System.exec step s ls = some s' → ls.length ≤ n

/-- No message is sent twice or on another connection than that of its session; and when the server
gets quiet, every message has been sent. -/
def Server.Isolated (s : Server) : Prop :=
  s.wire.Subperm s.created ∧ s.Settles ∧ (s.Quiet → s.wire.Perm s.created)

/-! ### One client at a time -/

/-- The sender is active, and `c` is the newest connection. -/
def Server.Serves (s : Server) (c : ℕ) : Prop := s.active = true ∧ s.connections = c + 1

instance (s : Server) (c : ℕ) : Decidable (s.Serves c) := inferInstanceAs (Decidable (_ ∧ _))

/-- One client at a time: a client connects when every earlier sender task has ended, and messages
are created for a session of the newest connection, while its sender is active. The disconnect
request comes when every message has been sent. -/
def orderly (s : Server) : Label → Prop
  | .connect => s.scheduled = [] ∧ ∀ c < s.connections, s.senders c = .ended
  | .setup c => s.Serves c
  | .disconnect c session => s.Serves c ∧ s.home session = c ∧ s.Quiet
  | .requestData session | .result session => s.Serves (s.home session)
  | .task _ | .put | .get _ | .sent _ => True

instance (s : Server) : (l : Label) → Decidable (orderly s l)
  | .connect => inferInstanceAs (Decidable (_ ∧ ∀ c < s.connections, _))
  | .setup _ => inferInstanceAs (Decidable (Server.Serves _ _))
  | .disconnect _ _ => inferInstanceAs (Decidable (_ ∧ _ ∧ _))
  | .requestData _ | .result _ => inferInstanceAs (Decidable (Server.Serves _ _))
  | .task _ | .put | .get _ | .sent _ => inferInstanceAs (Decidable True)

/-- Between two clients: every sender task has ended, and every message has been sent. -/
structure Off (s : Server) : Prop where
  inactive : s.active = false
  ended : ∀ c, s.senders c = .ended
  scheduled : s.scheduled = []
  perm : s.wire.Perm s.created

/-- The message a sender task holds. -/
def Sender.held : Sender → List Message
  | .sending m => [m]
  | .waiting _ | .ended => []

/-- The messages on their way to connection `c` through the queue object `q`. -/
def Server.pending (s : Server) (c q : ℕ) : List Message :=
  (s.senders c).held ++ s.queues q ++ s.scheduled.map Prod.snd

/-- The steps until these messages are sent. -/
def Server.weight (s : Server) (c q : ℕ) : ℕ :=
  (s.senders c).held.length + 2 * (s.queues q).length + 3 * s.scheduled.length

/-- The client of connection `c` is served through the queue object `q`. Once it has
disconnected, the sender is no longer active and exactly one message is left, so that the task ends
with nothing lost. -/
structure On (c q : ℕ) (s : Server) : Prop where
  connections : s.connections = c + 1
  others : ∀ c', c' ≠ c → s.senders c' = .ended
  sender : s.senders c = .waiting q ∨ ∃ m, s.senders c = .sending m
  scheduled : ∀ p ∈ s.scheduled, p.1 = q
  perm : (s.wire ++ (s.pending c q).map (Prod.mk c)).Perm s.created
  mode : s.active = true ∧ s.messageQueue = q ∨ s.active = false ∧ (s.pending c q).length = 1
  lt : q < s.nextQueue

/-- The invariant. -/
structure Inv (s : Server) : Prop where
  fresh : ∀ q, s.nextQueue ≤ q → s.queues q = []
  phase : Off s ∨ ∃ c q, On c q s

theorem inv_init : Inv init where
  fresh _ _ := rfl
  phase := .inl ⟨rfl, fun _ => rfl, rfl, .refl _⟩

section Steps

variable {s s' : Server} {c q session : ℕ} {l : Label} {ls : List Label}

theorem On.send (h : On c q s) (hactive : s.active = true) (hhome : s.home session = c)
    (event : Event) : On c q (s.send session event) := by
  have hqueue : s.messageQueue = q := by
    rcases h.mode with ⟨-, hq⟩ | ⟨hinactive, -⟩
    · exact hq
    · rw [hactive] at hinactive
      cases hinactive
  rw [Server.send, if_pos hactive]
  refine ⟨h.connections, h.others, h.sender, ?_, ?_, .inl ⟨hactive, hqueue⟩, h.lt⟩
  · exact forall_mem_append.mpr ⟨h.scheduled, forall_mem_singleton.mpr hqueue⟩
  · have hperm := h.perm.append_right [(c, Message.mk session event)]
    simp only [Server.pending, map_append, append_assoc, map_cons, map_nil]
      at hperm ⊢
    rw [hhome]
    exact hperm

theorem Inv.send (h : Inv s) (hserves : s.Serves (s.home session)) (event : Event) :
    Inv (s.send session event) := by
  have hfresh : ∀ q, s.nextQueue ≤ q → (s.send session event).queues q = [] := by
    rw [Server.send, if_pos hserves.1]
    exact h.fresh
  have hnext : (s.send session event).nextQueue = s.nextQueue := by
    rw [Server.send, if_pos hserves.1]
  refine ⟨hnext ▸ hfresh, .inr ?_⟩
  rcases h.phase with hoff | ⟨c, q, hon⟩
  · exact absurd hserves.1 (by rw [hoff.inactive]; decide)
  · have hc : s.home session = c := by
      have := hserves.2.symm.trans hon.connections
      omega
    exact ⟨c, q, hon.send hserves.1 hc event⟩

/-- What the sender does not read may change. -/
theorem On.frame (h : On c q s) (sessions : ℕ) (home : ℕ → ℕ)
    (clients dispatchers running : List ℕ) :
    On c q { s with sessions := sessions
                    home := home
                    clients := clients
                    dispatchers := dispatchers
                    running := running } :=
  { h with }

theorem Inv.frame (h : Inv s) (sessions : ℕ) (home : ℕ → ℕ)
    (clients dispatchers running : List ℕ) :
    Inv { s with sessions := sessions
                 home := home
                 clients := clients
                 dispatchers := dispatchers
                 running := running } where
  fresh := h.fresh
  phase := h.phase.imp (fun hoff => { hoff with })
    fun ⟨c, q, hon⟩ => ⟨c, q, hon.frame _ _ _ _ _⟩

theorem On.pending_eq_nil (h : On c q s) (hquiet : s.Quiet) : s.pending c q = [] := by
  obtain ⟨hput, hsenders⟩ := hquiet
  obtain ⟨hget, hsent⟩ := hsenders c (by rw [h.connections]; exact Nat.lt_succ_self c)
  have hscheduled : s.scheduled = [] := by
    cases hs : s.scheduled with
    | nil => rfl
    | cons p rest => simp [step, hs] at hput
  rcases h.sender with hwaiting | ⟨m, hsending⟩
  · have hqueue : s.queues q = [] := by
      cases hq : s.queues q with
      | nil => rfl
      | cons m rest => simp [step, hwaiting, hq] at hget
    rw [Server.pending, hwaiting, hqueue, hscheduled]
    rfl
  · simp [step, hsending] at hsent

theorem Inv.connect (h : Inv s) (hl : orderly s .connect) (hstep : step s .connect = some s') :
    Inv s' := by
  obtain ⟨-, hended⟩ := hl
  have hoff : Off s := by
    rcases h.phase with hoff | ⟨c, q, hon⟩
    · exact hoff
    · have hc := hended c (by rw [hon.connections]; exact Nat.lt_succ_self c)
      rcases hon.sender with hs | ⟨m, hs⟩ <;> rw [hs] at hc <;> cases hc
  cases hstep
  refine ⟨fun q hq => h.fresh q (Nat.le_of_succ_le hq), .inr ⟨s.connections, s.nextQueue, ?_⟩⟩
  -- the new queue object is empty, and nothing is scheduled
  refine ⟨rfl, ?_, .inl (update_self ..), ?_, ?_, .inl ⟨rfl, rfl⟩, Nat.lt_succ_self _⟩
  · intro c' hc'
    exact (update_of_ne hc' _ _).trans (hoff.ended c')
  · intro p hp
    rw [hoff.scheduled] at hp
    cases hp
  · simpa [Server.pending, Sender.held, hoff.scheduled, h.fresh s.nextQueue le_rfl] using hoff.perm

theorem Inv.setup (h : Inv s) (hl : orderly s (.setup c)) (hstep : step s (.setup c) = some s') :
    Inv s' := by
  simp only [step] at hstep
  split at hstep
  · cases hstep
    have hframe := h.frame (s.sessions + 1) (update s.home s.sessions c)
      (s.sessions :: s.clients) s.dispatchers s.running
    refine hframe.send ⟨hl.1, ?_⟩ .ackSetup
    show s.connections = update s.home s.sessions c s.sessions + 1
    rw [update_self]
    exact hl.2
  · cases hstep

/-- After the disconnect request only its acknowledgement is on the way. -/
theorem On.disconnect (h : On c q s) (hactive : s.active = true) (hquiet : s.pending c q = [])
    (hhome : s.home session = c) :
    On c q (s.send session .ackDisconnect).stop := by
  have hon := h.send hactive hhome .ackDisconnect
  refine ⟨hon.connections, hon.others, hon.sender, hon.scheduled, hon.perm, .inr ⟨rfl, ?_⟩,
    hon.lt.trans (Nat.lt_succ_self _)⟩
  have hlen := congrArg List.length hquiet
  simp only [Server.pending, length_append, length_map, length_nil] at hlen
  simp only [Server.stop, Server.send, if_pos hactive, Server.pending, length_append,
    length_map, length_singleton]
  omega

theorem Inv.disconnect (h : Inv s) (hl : orderly s (.disconnect c session))
    (hstep : step s (.disconnect c session) = some s') : Inv s' := by
  obtain ⟨hserves, hhome, hquiet⟩ := hl
  simp only [step] at hstep
  split at hstep
  · cases hstep
    refine ⟨?_, .inr ?_⟩
    · intro q hq
      rw [Server.send, if_pos hserves.1] at hq ⊢
      exact h.fresh q (Nat.le_of_succ_le hq)
    · rcases h.phase with hoff | ⟨c', q, hon⟩
      · exact absurd hserves.1 (by rw [hoff.inactive]; decide)
      · obtain rfl : c' = c := by
          have := hserves.2.symm.trans hon.connections
          omega
        have hframe := hon.frame s.sessions s.home (s.clients.erase session) s.dispatchers s.running
        exact ⟨c', q, hframe.disconnect hserves.1 (hon.pending_eq_nil hquiet) hhome⟩
  · cases hstep

/-! The steps of the sender leave the messages on their way in place; only `sent` takes the
first one off. -/

theorem On.put (h : On c q s) (hstep : step s .put = some s') :
    On c q s' ∧ s'.weight c q < s.weight c q ∧ s'.nextQueue = s.nextQueue ∧
      ∀ q', q' ≠ q → s'.queues q' = s.queues q' := by
  cases hs : s.scheduled with
  | nil => simp [step, hs] at hstep
  | cons p rest =>
    obtain ⟨q', m⟩ := p
    obtain rfl : q' = q := h.scheduled (q', m) (by rw [hs]; exact mem_cons_self)
    simp only [step, hs, Option.some.injEq] at hstep
    subst hstep
    have hpending : Server.pending { s with
        scheduled := rest
        queues := update s.queues q' (s.queues q' ++ [m]) } c q' = s.pending c q' := by
      simp [Server.pending, hs]
    refine ⟨⟨h.connections, h.others, h.sender, ?_, ?_, ?_, h.lt⟩, ?_, rfl, ?_⟩
    · intro p hp
      exact h.scheduled p (by rw [hs]; exact mem_cons_of_mem _ hp)
    · rw [hpending]
      exact h.perm
    · rw [hpending]
      exact h.mode
    · simp only [Server.weight, hs, update_self, length_append, length_cons, length_nil]
      omega
    · intro q'' hq''
      exact update_of_ne hq'' _ _

theorem On.get {c' : ℕ} (h : On c q s) (hstep : step s (.get c') = some s') :
    On c q s' ∧ s'.weight c q < s.weight c q ∧ s'.nextQueue = s.nextQueue ∧
      ∀ q', q' ≠ q → s'.queues q' = s.queues q' := by
  -- only the sender of the connection that is served is not at its end
  obtain rfl : c' = c := by
    by_contra hne
    simp [step, h.others c' hne] at hstep
  rcases h.sender with hwaiting | ⟨m, hsending⟩
  · cases hq : s.queues q with
    | nil => simp [step, hwaiting, hq] at hstep
    | cons m rest =>
      simp only [step, hwaiting, hq, Option.some.injEq] at hstep
      subst hstep
      have hpending : Server.pending { s with
          queues := update s.queues q rest
          senders := update s.senders c' (.sending m) } c' q = s.pending c' q := by
        simp [Server.pending, hwaiting, hq, Sender.held]
      refine ⟨⟨h.connections, ?_, ?_, h.scheduled, ?_, ?_, h.lt⟩, ?_, rfl, ?_⟩
      · intro c'' hc''
        exact (update_of_ne hc'' _ _).trans (h.others c'' hc'')
      · exact .inr ⟨m, update_self ..⟩
      · rw [hpending]
        exact h.perm
      · rw [hpending]
        exact h.mode
      · simp only [Server.weight, hwaiting, hq, Sender.held, update_self, length_cons, length_nil]
        omega
      · intro q' hq'
        exact update_of_ne hq' _ _
  · simp [step, hsending] at hstep

theorem On.sent {c' : ℕ} (h : On c q s) (hstep : step s (.sent c') = some s') :
    (Off s' ∨ On c q s') ∧ s'.weight c q < s.weight c q ∧ s'.nextQueue = s.nextQueue ∧
      s'.queues = s.queues := by
  obtain rfl : c' = c := by
    by_contra hne
    simp [step, h.others c' hne] at hstep
  rcases h.sender with hwaiting | ⟨m, hsending⟩
  · simp [step, hwaiting] at hstep
  · simp only [step, hsending, Option.some.injEq] at hstep
    subst hstep
    refine ⟨?_, ?_, rfl, rfl⟩
    case refine_2 =>
      have hheld :
          (if s.active = true then Sender.waiting s.messageQueue else .ended).held = [] := by
        split <;> rfl
      simp only [Server.weight, update_self, hheld, hsending]
      simp [Sender.held]
    have hperm := h.perm
    simp only [Server.pending, hsending, Sender.held, cons_append, map_cons] at hperm
    rcases h.mode with ⟨hactive, hqueue⟩ | ⟨hinactive, hone⟩
    · -- the task takes the next message from the same queue
      right
      rw [if_pos hactive, hqueue]
      refine ⟨h.connections, ?_, .inl (update_self ..), h.scheduled, ?_, .inl ⟨hactive, rfl⟩, h.lt⟩
      · intro c'' hc''
        exact (update_of_ne hc'' _ _).trans (h.others c'' hc'')
      · simpa [Server.pending, Sender.held] using hperm
    · -- that was the last message
      left
      simp only [Server.pending, hsending, Sender.held, length_append, length_map,
        length_singleton] at hone
      have hempty : s.queues q = [] := eq_nil_of_length_eq_zero (by omega)
      have hscheduled : s.scheduled = [] := eq_nil_of_length_eq_zero (by omega)
      rw [if_neg (by rw [hinactive]; decide)]
      refine ⟨hinactive, ?_, hscheduled, ?_⟩
      · intro c''
        rcases eq_or_ne c'' c' with rfl | hne
        · exact update_self ..
        · exact (update_of_ne hne _ _).trans (h.others c'' hne)
      · simpa [hempty, hscheduled] using hperm

theorem On.internal (h : On c q s) (hl : l.Internal) (hstep : step s l = some s') :
    (Off s' ∨ On c q s') ∧ s'.weight c q < s.weight c q ∧ s'.nextQueue = s.nextQueue ∧
      ∀ q', q' ≠ q → s'.queues q' = s.queues q' := by
  cases l with
  | put =>
    obtain ⟨hon, hrest⟩ := h.put hstep
    exact ⟨.inr hon, hrest⟩
  | get c' =>
    obtain ⟨hon, hrest⟩ := h.get hstep
    exact ⟨.inr hon, hrest⟩
  | sent c' =>
    obtain ⟨hphase, hweight, hnext, hqueues⟩ := h.sent hstep
    exact ⟨hphase, hweight, hnext, fun q' _ => congrFun hqueues q'⟩
  | connect | setup _ | disconnect _ _ | task _ | requestData _ | result _ => exact hl.elim

theorem Off.not_internal (h : Off s) (hl : l.Internal) : step s l = none := by
  cases l with
  | put => simp [step, h.scheduled]
  | get c' | sent c' => simp [step, h.ended]
  | connect | setup _ | disconnect _ _ | task _ | requestData _ | result _ => exact hl.elim

theorem Inv.internal (h : Inv s) (hl : l.Internal) (hstep : step s l = some s') : Inv s' := by
  rcases h.phase with hoff | ⟨c, q, hon⟩
  · rw [hoff.not_internal hl] at hstep
    cases hstep
  · obtain ⟨hphase, -, hnext, hqueues⟩ := hon.internal hl hstep
    refine ⟨fun q' hq' => ?_, hphase.imp_right fun hon' => ⟨c, q, hon'⟩⟩
    rw [hnext] at hq'
    rw [hqueues q' (hon.lt.trans_le hq').ne']
    exact h.fresh q' hq'

theorem Inv.step (h : Inv s) (hl : orderly s l) (hstep : step s l = some s') : Inv s' := by
  cases l with
  | connect => exact h.connect hl hstep
  | setup c => exact h.setup hl hstep
  | disconnect c session => exact h.disconnect hl hstep
  | task session =>
    simp only [AiEngine.step] at hstep
    split at hstep
    · cases hstep
      exact h.frame _ _ _ _ _
    · cases hstep
  | requestData session =>
    simp only [AiEngine.step] at hstep
    split at hstep
    · cases hstep
      exact h.send hl .requestData
    · cases hstep
  | result session =>
    simp only [AiEngine.step] at hstep
    split at hstep
    · cases hstep
      have hframe := h.frame s.sessions s.home s.clients s.dispatchers (s.running.erase session)
      exact hframe.send hl .result
    · cases hstep
  | put => exact h.internal (l := .put) trivial hstep
  | get c => exact h.internal (l := .get c) trivial hstep
  | sent c => exact h.internal (l := .sent c) trivial hstep

theorem Off.settles (h : Off s) (hls : ∀ l ∈ ls, l.Internal)
    (hexec : System.exec AiEngine.step s ls = some s') : ls.length ≤ 0 := by
  cases ls with
  | nil => exact le_rfl
  | cons l ls => simp [System.exec, h.not_internal (hls l mem_cons_self)] at hexec

theorem On.settles (h : On c q s) (hls : ∀ l ∈ ls, l.Internal)
    (hexec : System.exec AiEngine.step s ls = some s') : ls.length ≤ s.weight c q := by
  induction ls generalizing s with
  | nil => exact Nat.zero_le _
  | cons l ls ih =>
    obtain ⟨s₁, hstep, hrest⟩ := Option.bind_eq_some_iff.mp hexec
    have htail : ∀ l' ∈ ls, l'.Internal := fun l' hl' => hls l' (mem_cons_of_mem _ hl')
    obtain ⟨hphase, hweight, -⟩ := h.internal (hls l mem_cons_self) hstep
    rw [length_cons]
    rcases hphase with hoff | hon
    · have := hoff.settles htail hrest
      omega
    · have := ih hon htail hrest
      omega

theorem Inv.isolated (h : Inv s) : s.Isolated := by
  rcases h.phase with hoff | ⟨c, q, hon⟩
  · exact ⟨hoff.perm.subperm, ⟨0, fun _ _ hls => hoff.settles hls⟩, fun _ => hoff.perm⟩
  · refine ⟨?_, ⟨s.weight c q, fun _ _ hls => hon.settles hls⟩, fun hquiet => ?_⟩
    · exact (sublist_append_left _ _).subperm.trans hon.perm.subperm
    · have hperm := hon.perm
      rw [hon.pending_eq_nil hquiet, map_nil, append_nil] at hperm
      exact hperm

end Steps

/-- **Sessions are isolated** along every run with one client at a time: each message is sent
once, on the connection its session was set up on. -/
theorem sessions_isolated {ls : List Label} {s : Server}
    (hrun : (server.guard orderly).Run init ls s) : s.Isolated := by
  have hinv : Inv s :=
    hrun.invariant inv_init fun _ _ _ h hstep => h.step hstep.2 hstep.1
  exact hinv.isolated

/-- A client that sets up a session, runs a task and disconnects, on connection `c`. -/
def oneClient (c : ℕ) : List Label :=
  [.connect, .setup c, .put, .get c, .sent c, .task c, .requestData c, .requestData c, .put, .get c,
    .put, .sent c, .get c, .sent c, .result c, .put, .get c, .sent c, .disconnect c c, .put, .get c,
    .sent c]

theorem sessions_isolated_two_clients :
    ∃ ls s, (server.guard orderly).Run init ls s ∧ s.created.length = 10 ∧ s.Quiet ∧
      s.Isolated :=
  ⟨oneClient 0 ++ oneClient 1, System.exists_guard_run_of_exec
    (P := fun s => s.created.length = 10 ∧ s.Quiet) (by decide +kernel)
    fun _ hrun ⟨hlength, hquiet⟩ => ⟨hlength, hquiet, sessions_isolated hrun⟩⟩

/-! ### What goes wrong otherwise -/

/-- A second client connects: the request for data of the first session is sent to the second
client. The second client disconnects: the result of the first session is dropped. And with one
client: if the sender is sending when the disconnect request is handled, its loop ends and the
acknowledgement stays in a queue. -/
theorem sessions_mixed :
    (∃ ls s, server.Run init ls s ∧ (1, ⟨0, .requestData⟩) ∈ s.wire ∧ s.home 0 = 0 ∧
      ¬ s.Isolated) ∧
    (∃ ls s, server.Run init ls s ∧ s.Quiet ∧ (0, ⟨0, .result⟩) ∈ s.created ∧
      (0, ⟨0, .result⟩) ∉ s.wire ∧ ¬ s.Isolated) ∧
    ∃ ls s, server.Run init ls s ∧ s.connections = 1 ∧ s.Quiet ∧
      (0, ⟨0, .ackDisconnect⟩) ∈ s.created ∧ (0, ⟨0, .ackDisconnect⟩) ∉ s.wire ∧
      ¬ s.Isolated := by
  refine ⟨?_, ?_, ?_⟩
  · refine ⟨[.connect, .setup 0, .put, .get 0, .sent 0, .task 0, .connect, .requestData 0, .put,
      .get 1, .sent 1], System.exists_run_of_exec (P := fun s => (1, ⟨0, .requestData⟩) ∈ s.wire ∧
        s.home 0 = 0 ∧ (1, ⟨0, .requestData⟩) ∉ s.created) (by decide +kernel) ?_⟩
    rintro s - ⟨hwire, hhome, hcreated⟩
    exact ⟨hwire, hhome, fun h => hcreated (h.1.subset hwire)⟩
  · refine ⟨[.connect, .setup 0, .put, .get 0, .sent 0, .task 0, .connect, .setup 1, .put, .get 1,
      .sent 1, .disconnect 1 1, .put, .get 1, .sent 1, .result 0], System.exists_run_of_exec
        (P := fun s => s.Quiet ∧ (0, ⟨0, .result⟩) ∈ s.created ∧ (0, ⟨0, .result⟩) ∉ s.wire)
        (by decide +kernel) ?_⟩
    rintro s - ⟨hquiet, hcreated, hwire⟩
    exact ⟨hquiet, hcreated, hwire, fun h => hwire ((h.2.2 hquiet).mem_iff.mpr hcreated)⟩
  · refine ⟨[.connect, .setup 0, .put, .get 0, .disconnect 0 0, .put, .sent 0],
      System.exists_run_of_exec (P := fun s => s.connections = 1 ∧ s.Quiet ∧
        (0, ⟨0, .ackDisconnect⟩) ∈ s.created ∧ (0, ⟨0, .ackDisconnect⟩) ∉ s.wire)
        (by decide +kernel) ?_⟩
    rintro s - ⟨hone, hquiet, hcreated, hwire⟩
    exact ⟨hone, hquiet, hcreated, hwire, fun h => hwire ((h.2.2 hquiet).mem_iff.mpr hcreated)⟩

end NeurDB.AiEngine
