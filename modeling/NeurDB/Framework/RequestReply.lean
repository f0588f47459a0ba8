import NeurDB.Framework.System

/-!
# Requests and replies without identifiers

A server owns a store and serves requests of many clients. A client sends a request, waits, and
takes the next message of its own reply channel for the answer: messages carry no identifier
that would say which request a reply belongs to. The server may serve the requests it has in
any order, and may send the replies it owes in any order.

A client may **abandon** the wait. The request stays where it is, so it may be served later,
and its reply stays in the channel; the client's next call takes it for its own.

The states keep two things that no party looks at. Each request has an identifier. And a client
that waits has the stores since it sent its request, up to the reply (`Call.seen`), and knows
whether the request was served (`Call.served`).

**The theorem** (`answered_of_prompt`): if clients send only when nothing of theirs is left over
from an earlier call (`prompt`), then every call that completes is **answered**: its own request
was served, and its result is what the request gets from a store between the sending and the
reply.
-/

namespace NeurDB.RequestReply

open Function List

/-! ### The protocol -/

/-- What the two sides do with requests and replies. -/
structure Service (Store Req Rep Res : Type) where
  /-- Serve a request; `none` if the server dies of it. -/
  serve : Store → Req → Option (Store × Rep)
  /-- What a client makes of the message it takes for the reply; `none` if it raises an
  error. -/
  receive : Req → Rep → Option Res
  /-- The result of a call whose request could not be sent, since the channel is closed. -/
  unsent : Req → Res
  /-- The request can be sent at all. -/
  sendable : Req → Bool

/-- A message in a channel, with the identifier of its request. -/
structure Message (Client Body : Type) where
  id : ℕ
  client : Client
  body : Body

/-- A call a client waits for. -/
structure Call (Store Req : Type) where
  id : ℕ
  request : Req
  /-- The stores since the request was sent, up to its reply. -/
  seen : List Store
  replied : Bool
  served : Bool

/-- A call that has returned. -/
structure Completion (Store Req Res : Type) where
  call : Call Store Req
  result : Res

structure State (Client Store Req Rep Res : Type) where
  store : Store
  /-- The server is alive. -/
  running : Bool
  /-- The request channel is open. A server that dies of a request leaves it open. -/
  accepting : Bool
  /-- Requests that are not served yet. -/
  requests : List (Message Client Req)
  /-- Replies that are not sent yet. -/
  replies : List (Message Client Rep)
  /-- The reply channel of each client. -/
  channel : Client → List (Message Client Rep)
  waiting : Client → Option (Call Store Req)
  nextId : ℕ
  completed : List (Completion Store Req Res)

inductive Label (Client Req : Type) where
  | send (c : Client) (request : Req)
  | serve (id : ℕ)
  | reply (id : ℕ)
  | receive (c : Client)
  | abandon (c : Client)
  | stop

variable {Client Store Req Rep Res : Type}

/-- The call after the server has served the request `id` and the store has become `store`. -/
def Call.afterServe (id : ℕ) (store : Store) (call : Call Store Req) : Call Store Req :=
  { call with
    seen := if call.replied then call.seen else store :: call.seen
    served := call.served || decide (call.id = id) }

/-- The call after the reply to the request `id` was sent. -/
def Call.afterReply (id : ℕ) (call : Call Store Req) : Call Store Req :=
  { call with replied := call.replied || decide (call.id = id) }

/-- One step; `none` where the label is not enabled. -/
def step [DecidableEq Client] (svc : Service Store Req Rep Res)
    (s : State Client Store Req Rep Res) :
    Label Client Req → Option (State Client Store Req Rep Res)
  | .send c request =>
    match s.waiting c with
    | some _ => none
    | none =>
      let call : Call Store Req := ⟨s.nextId, request, [s.store], false, false⟩
      if svc.sendable request = false then none
      else if s.accepting then
        some { s with
          requests := s.requests ++ [⟨s.nextId, c, request⟩]
          waiting := update s.waiting c (some call)
          nextId := s.nextId + 1 }
      else
        some { s with
          nextId := s.nextId + 1
          completed := ⟨call, svc.unsent request⟩ :: s.completed }
  | .serve id =>
    match s.running, s.requests.find? (·.id = id) with
    | true, some m =>
      let requests := s.requests.eraseP (·.id = id)
      match svc.serve s.store m.body with
      | some (store, reply) =>
        some { s with
          store
          requests
          replies := ⟨id, m.client, reply⟩ :: s.replies
          waiting := fun c => (s.waiting c).map (Call.afterServe id store) }
      | none => some { s with requests, running := false }
    | _, _ => none
  | .reply id =>
    match s.running, s.replies.find? (·.id = id) with
    | true, some m =>
      some { s with
        replies := s.replies.eraseP (·.id = id)
        channel := update s.channel m.client (s.channel m.client ++ [m])
        waiting := update s.waiting m.client
          ((s.waiting m.client).map (Call.afterReply id)) }
    | _, _ => none
  | .receive c =>
    match s.waiting c, s.channel c with
    | some call, m :: rest =>
      some { s with
        channel := update s.channel c rest
        waiting := update s.waiting c none
        completed :=
          ((svc.receive call.request m.body).map (Completion.mk call)).toList ++ s.completed }
    | _, _ => none
  | .abandon c =>
    match s.waiting c with
    | some _ => some { s with waiting := update s.waiting c none }
    | none => none
  | .stop => some { s with running := false, accepting := false }

/-- The protocol as a system: it starts with no messages and nobody waiting. -/
def system [DecidableEq Client] (svc : Service Store Req Rep Res) :
    System (State Client Store Req Rep Res) (Label Client Req) :=
  .ofFun
    (fun s => s.requests = [] ∧ s.replies = [] ∧ (∀ c, s.channel c = []) ∧
      (∀ c, s.waiting c = none) ∧ s.completed = [])
    (step svc)

/-- **Prompt steps**: a client sends into an open channel, and only when no request of its
earlier calls is unserved, no reply to them unsent, and none left in its channel. -/
def prompt [DecidableEq Client] (s : State Client Store Req Rep Res) :
    Label Client Req → Bool
  | .send c _ =>
    s.accepting && !(s.requests.any (·.client = c)) && !(s.replies.any (·.client = c)) &&
      (s.channel c).isEmpty
  | _ => true

/-- The call got an answer to its own request: the request was served, from one store the call
saw to another, and the result is what the client makes of the reply. -/
def Completion.Answered (svc : Service Store Req Rep Res) (d : Completion Store Req Res) : Prop :=
  d.call.served = true ∧ ∃ store ∈ d.call.seen, ∃ store' ∈ d.call.seen, ∃ reply,
    svc.serve store d.call.request = some (store', reply) ∧
      svc.receive d.call.request reply = some d.result

/-! ### The invariant -/

/-- The message answers the call: the call's request was served, and the message is what it gets
from a store the call has seen. -/
def Call.AnsweredBy (svc : Service Store Req Rep Res) (call : Call Store Req) (reply : Rep) :
    Prop :=
  call.served = true ∧ ∃ store ∈ call.seen, ∃ store' ∈ call.seen,
    svc.serve store call.request = some (store', reply)

/-- What holds of a client `c` that waits for `call`: its messages are those of this call. -/
structure Waits (svc : Service Store Req Rep Res) (s : State Client Store Req Rep Res)
    (c : Client) (call : Call Store Req) : Prop where
  current : call.replied = false → s.store ∈ call.seen
  requests : ∀ m ∈ s.requests, m.client = c →
    m.id = call.id ∧ m.body = call.request ∧ call.replied = false
  replies : ∀ m ∈ s.replies, m.client = c →
    call.AnsweredBy svc m.body ∧ ∀ m' ∈ s.requests, m'.client ≠ c
  channel : ∀ m ∈ s.channel c, call.AnsweredBy svc m.body

/-- What holds in every state of a prompt run. -/
structure Inv (svc : Service Store Req Rep Res) (s : State Client Store Req Rep Res) : Prop where
  /-- No client has two requests to be served. -/
  nodup : (s.requests.map (·.client)).Nodup
  waits : ∀ c call, s.waiting c = some call → Waits svc s c call
  answered : ∀ d ∈ s.completed, d.Answered svc

variable {svc : Service Store Req Rep Res} {s s' : State Client Store Req Rep Res}
  {m : Message Client Rep} {call : Call Store Req}

theorem Call.AnsweredBy.afterServe {reply : Rep}
    (h : call.AnsweredBy svc reply) (id : ℕ) (store : Store) :
    (call.afterServe id store).AnsweredBy svc reply := by
  obtain ⟨hserved, st, hst, st', hst', hserve⟩ := h
  have hseen : ∀ st ∈ call.seen, st ∈ (call.afterServe id store).seen := by
    intro st hst
    show st ∈ (if call.replied then call.seen else store :: call.seen)
    split
    · exact hst
    · exact mem_cons_of_mem _ hst
  exact ⟨by simp [Call.afterServe, hserved], st, hseen st hst, st', hseen st' hst', hserve⟩

theorem split_of_find? {α : Type} {l : List α} {p : α → Bool} {m : α} (h : l.find? p = some m) :
    p m = true ∧ ∃ l₁ l₂, l = l₁ ++ m :: l₂ ∧ l.eraseP p = l₁ ++ l₂ := by
  obtain ⟨hp, l₁, l₂, rfl, hl₁⟩ := find?_eq_some_iff_append.mp h
  have hno : ∀ a ∈ l₁, ¬ p a = true := fun a ha hpa => by simpa [hpa] using hl₁ a ha
  refine ⟨hp, l₁, l₂, rfl, ?_⟩
  rw [eraseP_append_right _ hno, eraseP_cons_of_pos hp]

/-! ### Steps -/

theorem Inv.send [DecidableEq Client] (h : Inv svc s) {c : Client} {request : Req}
    (hrequests : ∀ m ∈ s.requests, m.client ≠ c) (hreplies : ∀ m ∈ s.replies, m.client ≠ c)
    (hchannel : s.channel c = []) :
    Inv svc { s with
      requests := s.requests ++ [(⟨s.nextId, c, request⟩ : Message Client Req)]
      waiting := update s.waiting c
        (some (⟨s.nextId, request, [s.store], false, false⟩ : Call Store Req))
      nextId := s.nextId + 1 } := by
  refine ⟨?_, fun c' call hcall => ?_, h.answered⟩
  · rw [map_append, map_singleton, ← concat_eq_append]
    refine h.nodup.concat fun hc => ?_
    obtain ⟨m, hm, hmc⟩ := mem_map.mp hc
    exact hrequests m hm hmc
  · by_cases hc : c' = c
    · -- nothing of an earlier call is on its way, so the new request is all there is
      subst hc
      simp only [update_self, Option.some.injEq] at hcall
      subst hcall
      refine ⟨fun _ => mem_singleton_self _, fun m hm hmc => ?_, fun m hm hmc => ?_, fun m hm => ?_⟩
      · obtain hold | rfl := mem_append_singleton.mp hm
        · exact absurd hmc (hrequests m hold)
        · exact ⟨rfl, rfl, rfl⟩
      · exact absurd hmc (hreplies m hm)
      · rw [hchannel] at hm
        cases hm
    · -- the request of `c` is no message of another client
      simp only [update_of_ne hc] at hcall
      have hw := h.waits c' call hcall
      have hold : ∀ m ∈ s.requests ++ [⟨s.nextId, c, request⟩], m.client = c' →
          m ∈ s.requests := by
        intro m hm hmc
        obtain hm | rfl := mem_append_singleton.mp hm
        · exact hm
        · exact absurd hmc.symm hc
      refine ⟨hw.current, fun m hm hmc => hw.requests m (hold m hm hmc) hmc,
        fun m hm hmc => ⟨(hw.replies m hm hmc).1, fun m' hm' hmc' => ?_⟩, hw.channel⟩
      exact (hw.replies m hm hmc).2 m' (hold m' hm' hmc') hmc'

theorem Inv.serve (h : Inv svc s) {id : ℕ} {m : Message Client Req} {store : Store} {reply : Rep}
    (hfind : s.requests.find? (·.id = id) = some m)
    (hserve : svc.serve s.store m.body = some (store, reply)) :
    Inv svc { s with
      store
      requests := s.requests.eraseP (·.id = id)
      replies := ⟨id, m.client, reply⟩ :: s.replies
      waiting := fun c => (s.waiting c).map (Call.afterServe id store) } := by
  obtain ⟨hid, l₁, l₂, hl, herase⟩ := split_of_find? hfind
  have hm : m ∈ s.requests := mem_of_find?_eq_some hfind
  have hsub : ∀ m' ∈ s.requests.eraseP (·.id = id), m' ∈ s.requests :=
    fun m' hm' => mem_of_mem_eraseP hm'
  -- the client of `m` has no other request
  have hother : ∀ m' ∈ s.requests.eraseP (·.id = id), m'.client ≠ m.client := by
    intro m' hm' heq
    have hnd := h.nodup
    rw [hl, map_append, map_cons] at hnd
    rw [herase] at hm'
    refine (nodup_middle.mp hnd).notMem ?_
    rw [← map_append]
    exact mem_map.mpr ⟨m', hm', heq⟩
  refine ⟨?_, fun c call hcall => ?_, h.answered⟩
  · exact h.nodup.sublist ((eraseP_sublist).map _)
  · obtain ⟨call₀, hcall₀, rfl⟩ := Option.map_eq_some_iff.mp hcall
    have hw := h.waits c call₀ hcall₀
    refine ⟨fun hreplied => ?_, fun m' hm' hmc => hw.requests m' (hsub m' hm') hmc,
      fun m' hm' hmc => ?_, fun m' hm' => (hw.channel m' hm').afterServe id store⟩
    · -- a call without a reply sees the new store, whoever was served
      show store ∈ (if call₀.replied then call₀.seen else store :: call₀.seen)
      rw [if_neg (by simpa [Call.afterServe] using hreplied)]
      exact mem_cons_self
    · obtain rfl | hold := mem_cons.mp hm'
      · -- the new reply is what the request of `c` gets from the present store
        obtain rfl : m.client = c := hmc
        obtain ⟨hmid, hbody, hreplied⟩ := hw.requests m hm rfl
        have hidm : call₀.id = id := hmid.symm.trans (of_decide_eq_true hid)
        have hseen : (call₀.afterServe id store).seen = store :: call₀.seen := by
          simp [Call.afterServe, hreplied]
        refine ⟨⟨by simp [Call.afterServe, hidm], s.store, ?_, store, ?_, ?_⟩, hother⟩
        · rw [hseen]
          exact mem_cons_of_mem _ (hw.current hreplied)
        · rw [hseen]
          exact mem_cons_self
        · show svc.serve s.store call₀.request = some (store, reply)
          rw [← hbody]
          exact hserve
      · obtain ⟨hans, hnone⟩ := hw.replies m' hold hmc
        exact ⟨hans.afterServe id store, fun m'' hm'' => hnone m'' (hsub m'' hm'')⟩

theorem Inv.crash (h : Inv svc s) (id : ℕ) :
    Inv svc { s with requests := s.requests.eraseP (·.id = id), running := false } := by
  have hsub : ∀ m' ∈ s.requests.eraseP (·.id = id), m' ∈ s.requests :=
    fun m' hm' => mem_of_mem_eraseP hm'
  refine ⟨h.nodup.sublist ((eraseP_sublist).map _), fun c call hcall => ?_, h.answered⟩
  have hw := h.waits c call hcall
  exact ⟨hw.current, fun m hm hmc => hw.requests m (hsub m hm) hmc,
    fun m hm hmc => ⟨(hw.replies m hm hmc).1,
      fun m' hm' => (hw.replies m hm hmc).2 m' (hsub m' hm')⟩, hw.channel⟩

theorem Inv.reply [DecidableEq Client] (h : Inv svc s) {id : ℕ}
    (hfind : s.replies.find? (·.id = id) = some m) :
    Inv svc { s with
      replies := s.replies.eraseP (·.id = id)
      channel := update s.channel m.client (s.channel m.client ++ [m])
      waiting := update s.waiting m.client
        ((s.waiting m.client).map (Call.afterReply id)) } := by
  have hm : m ∈ s.replies := mem_of_find?_eq_some hfind
  have hsub : ∀ m' ∈ s.replies.eraseP (·.id = id), m' ∈ s.replies :=
    fun m' hm' => mem_of_mem_eraseP hm'
  refine ⟨h.nodup, fun c call hcall => ?_, h.answered⟩
  by_cases hc : c = m.client
  · subst hc
    simp only [update_self] at hcall
    obtain ⟨call₀, hcall₀, rfl⟩ := Option.map_eq_some_iff.mp hcall
    have hw := h.waits m.client call₀ hcall₀
    -- where there is a reply there is no request left, so none has to be of this call
    obtain ⟨hans, hnone⟩ := hw.replies m hm rfl
    refine ⟨fun hreplied => hw.current ?_, fun m' hm' hmc => absurd hmc (hnone m' hm'),
      fun m' hm' hmc => hw.replies m' (hsub m' hm') hmc, fun m' hm' => ?_⟩
    · exact (Bool.or_eq_false_iff.mp hreplied).1
    · simp only [update_self] at hm'
      obtain hold | rfl := mem_append_singleton.mp hm'
      · exact hw.channel m' hold
      · exact hans
  · simp only [update_of_ne hc] at hcall
    have hw := h.waits c call hcall
    refine ⟨hw.current, hw.requests, fun m' hm' hmc => hw.replies m' (hsub m' hm') hmc,
      fun m' hm' => hw.channel m' ?_⟩
    simpa only [update_of_ne hc] using hm'

theorem Inv.receive [DecidableEq Client] (h : Inv svc s) {c : Client}
    {rest : List (Message Client Rep)}
    (hcall : s.waiting c = some call) (hchannel : s.channel c = m :: rest) :
    Inv svc { s with
      channel := update s.channel c rest
      waiting := update s.waiting c none
      completed :=
        ((svc.receive call.request m.body).map (Completion.mk call)).toList ++ s.completed } := by
  refine ⟨h.nodup, fun c' call' hcall' => ?_, fun d hd => ?_⟩
  · -- `c` waits no more
    have hc : c' ≠ c := by
      rintro rfl
      simp at hcall'
    simp only [update_of_ne hc] at hcall'
    have hw := h.waits c' call' hcall'
    refine ⟨hw.current, hw.requests, hw.replies, fun m' hm' => hw.channel m' ?_⟩
    simpa only [update_of_ne hc] using hm'
  · obtain hnew | hold := mem_append.mp hd
    · -- the message at the head of the channel answers the call
      obtain ⟨hserved, store, hstore, store', hstore', hserve⟩ :=
        (h.waits c call hcall).channel m (by rw [hchannel]; exact mem_cons_self)
      obtain ⟨result, hresult, rfl⟩ := Option.map_eq_some_iff.mp (Option.mem_toList.mp hnew)
      exact ⟨hserved, store, hstore, store', hstore', m.body, hserve, hresult⟩
    · exact h.answered d hold

/-- A client that gives up leaves its messages behind; nobody waits for them. -/
theorem Inv.abandon [DecidableEq Client] (h : Inv svc s) (c : Client) :
    Inv svc { s with waiting := update s.waiting c none } := by
  refine ⟨h.nodup, fun c' call' hcall' => ?_, h.answered⟩
  have hc : c' ≠ c := by
    rintro rfl
    simp at hcall'
  simp only [update_of_ne hc] at hcall'
  have hw := h.waits c' call' hcall'
  exact ⟨hw.current, hw.requests, hw.replies, hw.channel⟩

theorem Inv.step [DecidableEq Client] {l : Label Client Req} (h : Inv svc s)
    (hprompt : prompt s l = true)
    (hstep : step svc s l = some s') : Inv svc s' := by
  cases l with
  | send c request =>
    -- the only step that a prompt run restricts
    simp only [prompt, Bool.and_eq_true, Bool.not_eq_true', any_eq_false,
      decide_eq_true_eq, List.isEmpty_iff] at hprompt
    obtain ⟨⟨⟨haccepting, hrequests⟩, hreplies⟩, hchannel⟩ := hprompt
    simp only [RequestReply.step, if_pos haccepting] at hstep
    split at hstep
    · cases hstep
    · split at hstep
      · cases hstep
      · cases hstep
        exact h.send hrequests hreplies hchannel
  | serve id =>
    simp only [RequestReply.step] at hstep
    split at hstep
    · next m _ hfind =>
      split at hstep
      · next store reply hserve =>
        cases hstep
        exact h.serve hfind hserve
      · cases hstep
        exact h.crash id
    · cases hstep
  | reply id =>
    simp only [RequestReply.step] at hstep
    split at hstep
    · next m _ hfind =>
      cases hstep
      exact h.reply hfind
    · cases hstep
  | receive c =>
    simp only [RequestReply.step] at hstep
    split at hstep
    · next call m rest hcall hchannel =>
      cases hstep
      exact h.receive hcall hchannel
    · cases hstep
  | abandon c =>
    simp only [RequestReply.step] at hstep
    split at hstep
    · cases hstep
      exact h.abandon c
    · cases hstep
  | stop =>
    cases hstep
    exact ⟨h.nodup, fun c call hcall => ⟨(h.waits c call hcall).current,
      (h.waits c call hcall).requests, (h.waits c call hcall).replies,
      (h.waits c call hcall).channel⟩, h.answered⟩

theorem Inv.initial [DecidableEq Client] (h₀ : (system svc).init s) : Inv svc s := by
  obtain ⟨hrequests, -, -, hwaiting, hcompleted⟩ := h₀
  refine ⟨by rw [hrequests]; exact nodup_nil, fun c call hcall => ?_, fun d hd => ?_⟩
  · cases (hwaiting c).symm.trans hcall
  · rw [hcompleted] at hd
    cases hd

/-- **In a prompt run every call that completes is answered.** -/
theorem answered_of_prompt [DecidableEq Client] {s₀ : State Client Store Req Rep Res}
    {ls : List (Label Client Req)} (h₀ : (system svc).init s₀)
    (hrun : ((system svc).guard fun s l => prompt s l = true).Run s₀ ls s) :
    ∀ d ∈ s.completed, d.Answered svc := by
  have h : Inv svc s := hrun.invariant (Inv.initial h₀)
    fun s l s' h hstep => h.step hstep.2 hstep.1
  exact h.answered

end NeurDB.RequestReply
