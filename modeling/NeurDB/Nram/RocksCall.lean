import NeurDB.Nram.Wire

/-!
# Calls to the storage service, end to end

A call of `RocksClientPut`, `RocksClientGet` or `RocksClientRangeScan` from the backend through
the channels to the store and back, in bytes. The calls follow one another here: each one is
pushed, served by an iteration of the loop of `run_rocks_no_thread` and popped before the next.

A put is refused where its message would be larger than `MSG_SIZE`. The reply to a range scan
is one message as well, and its size grows with the rows it found. `KVChannelPushMsg` raises
its error in the service then, where nothing catches it: the process ends, and is not started
again. The backend waits for the reply for good, as does every backend that calls later.

`calls_complete_iff`: all calls return exactly when the replies to the scans fit in a message.

A get of a key that is not stored is the other way to end the service. `rocksdb_get` gives a null
pointer for it, and `rocksengine_get` deserializes the null pointer; the callers of
`RocksClientGet` that look for `NULL` never see it (`get_distinguishes_absence_iff`). A process of
the server that ends by such a fault makes the postmaster end all others and start again; in the
model the service just does not serve any more.
-/

namespace NeurDB.Nram

open Function List
namespace Wire

/-- The service, its channel and the channels of the backends, which have the name of their
process id. Every backend is taken to have got its channel. -/
structure Session where
  db : RocksDB (List Byte)
  serving : Bool
  requests : RingBuffer Byte kvChannelBufsize
  responses : BitVec 32 → RingBuffer Byte kvChannelBufsize

/-- What `KVChannelPushMsg` comes to on a channel that runs. -/
inductive Sent where
  | sent (ring : RingBuffer Byte kvChannelBufsize)
  | tooLarge (totalSize : ℕ)
  /-- There is no room: a push without a timeout waits. -/
  | full

def send (ring : RingBuffer Byte kvChannelBufsize) (d : Draft) : Sent :=
  if h : kvMsgHeaderSize + d.entitySize ≤ msgSize then
    match ring.push (d.msg h).block with
    | some ring' => .sent ring'
    | none => .full
  else .tooLarge (kvMsgHeaderSize + d.entitySize)

variable (behind : List Byte → List Byte)

/-- An iteration of the loop of `run_rocks_no_thread`: take a request, process it, and push
what the result queue holds. -/
def serveOne (s : Session) : Session :=
  match unsafePopMsg s.requests with
  | .noHeader => s
  | .corrupted _ ring => { s with requests := ring, serving := false }
  | .message msg ring =>
    if msg.header.op = KVOp.kvClose.code then { s with requests := ring, serving := false }
    else
      match processRequest behind s.db msg with
      | .died => { s with requests := ring, serving := false }
      | .silent db => { s with db, requests := ring }
      | .responded db resp =>
        match send (s.responses resp.respChannel) resp with
        | .sent chan =>
          { s with
            db
            requests := ring
            responses := update s.responses resp.respChannel chan }
        -- the error ends the process; where there is no room, it waits for good
        | .tooLarge _ | .full => { s with db, requests := ring, serving := false }

/-- A call of the backend `pid`. -/
def rocksCall (s : Session) (pid : BitVec 32) (r : KVRequest) : Session × Outcome :=
  match send s.requests (requestDraft pid r) with
  | .tooLarge totalSize => (s, .raised (ChannelError.messageTooLarge totalSize).text)
  | .full => (s, .waiting)
  | .sent ring =>
    let pushed := { s with requests := ring }
    let served := if s.serving then serveOne behind pushed else pushed
    match unsafePopMsg (served.responses pid) with
    | .noHeader => (served, .waiting)
    | .corrupted entitySize ring =>
      ({ served with responses := update served.responses pid ring },
        .raised (ChannelError.corruptedMessage entitySize).text)
    | .message msg ring =>
      ({ served with responses := update served.responses pid ring },
        receive behind r msg)

/-- The calls one after the other, and how each of them ended. -/
def rocksCalls (s : Session) : List (BitVec 32 × KVRequest) → Session × List Outcome
  | [] => (s, [])
  | (pid, r) :: calls =>
    let (s₁, outcome) := rocksCall behind s pid r
    let (s₂, outcomes) := rocksCalls s₁ calls
    (s₂, outcome :: outcomes)

/-- The service has just started, with an empty store. -/
def sessionInit : Session where
  db := .empty
  serving := true
  requests := .empty (fun _ => zeroByte) kvChannelBufsize_pos
  responses := fun _ => .empty (fun _ => zeroByte) kvChannelBufsize_pos

/-! ### What the calls are for -/

/-- What a request does to the store and returns: the store itself, without messages. -/
def ideal (db : RocksDB NRAMValue) : KVRequest → RocksDB NRAMValue × KVResult
  | .kvGet key => (db, .get (rocksengineGet db key))
  | .kvPut key value => (rocksenginePut db key value, .put true)
  | .kvRange startKey endKey => (db, .range (rocksengineRangeScan db startKey endKey).toOption)

def idealCalls (db : RocksDB NRAMValue) : List (BitVec 32 × KVRequest) → List KVResult
  | [] => []
  | (_, r) :: calls => (ideal db r).2 :: idealCalls (ideal db r).1 calls

/-- The put is accepted, the key of the get is stored. -/
def InScope (db : RocksDB NRAMValue) : KVRequest → Prop
  | .kvGet key => (rocksengineGet db key).isSome
  | .kvPut _ value => value.Storable
  | .kvRange _ _ => True

/-- Every call is in scope when its turn comes. -/
def AllInScope (db : RocksDB NRAMValue) : List (BitVec 32 × KVRequest) → Prop
  | [] => True
  | (_, r) :: calls => InScope db r ∧ AllInScope (ideal db r).1 calls

/-- The reply to a range scan fits in a message. -/
def Fits (db : RocksDB NRAMValue) : KVRequest → Prop
  | .kvRange startKey endKey =>
    ∀ rows ∈ (rocksengineRangeScan db startKey endKey).toOption, rangeMsgSize rows ≤ msgSize
  | _ => True

/-- The reply to every range scan fits when its turn comes. -/
def AllFit (db : RocksDB NRAMValue) : List (BitVec 32 × KVRequest) → Prop
  | [] => True
  | (_, r) :: calls => Fits db r ∧ AllFit (ideal db r).1 calls

instance (db : RocksDB NRAMValue) : (r : KVRequest) → Decidable (InScope db r)
  | .kvGet key => inferInstanceAs (Decidable ((rocksengineGet db key).isSome = true))
  | .kvPut _ value => inferInstanceAs (Decidable value.Storable)
  | .kvRange _ _ => .isTrue trivial

instance decidableAllInScope (db : RocksDB NRAMValue) :
    (calls : List (BitVec 32 × KVRequest)) → Decidable (AllInScope db calls)
  | [] => .isTrue trivial
  | (_, r) :: calls =>
    have := decidableAllInScope (ideal db r).1 calls
    inferInstanceAs (Decidable (InScope db r ∧ AllInScope (ideal db r).1 calls))

instance (db : RocksDB NRAMValue) : (r : KVRequest) → Decidable (Fits db r)
  | .kvGet _ | .kvPut _ _ => .isTrue trivial
  | .kvRange startKey endKey => inferInstanceAs (Decidable
      (∀ rows ∈ (rocksengineRangeScan db startKey endKey).toOption, rangeMsgSize rows ≤ msgSize))

instance decidableAllFit (db : RocksDB NRAMValue) :
    (calls : List (BitVec 32 × KVRequest)) → Decidable (AllFit db calls)
  | [] => .isTrue trivial
  | (_, r) :: calls =>
    have := decidableAllFit (ideal db r).1 calls
    inferInstanceAs (Decidable (Fits db r ∧ AllFit (ideal db r).1 calls))

/-- Between two calls: the service runs, the channels are empty, and the store holds the bytes
of `db`. -/
structure Synced (db : RocksDB NRAMValue) (s : Session) : Prop where
  serving : s.serving = true
  store : s.db = storedBytes db
  requests : s.requests.content = []
  responses : ∀ pid, (s.responses pid).content = []
  storable : AllStorable db

/-! ### Messages through an empty channel -/

variable {d : Draft} {ring : RingBuffer Byte kvChannelBufsize}

theorem length_block (h : kvMsgHeaderSize + d.entitySize ≤ msgSize) :
    (d.msg h).Fits ∧ (d.msg h).block.length = kvMsgHeaderSize + d.entitySize := by
  have hsize : (d.msg h).header.entitySize.toNat = d.entitySize := by
    unfold kvMsgHeaderSize msgSize at h
    exact (BitVec.toNat_ofNat _ _).trans (Nat.mod_eq_of_lt (by omega))
  have hfits : (d.msg h).Fits := by
    unfold KVMsg.Fits
    rwa [hsize]
  refine ⟨hfits, ?_⟩
  rw [KVMsg.block_eq hfits, length_append, length_toBytes, KVMsg.length_entityBytes, hsize]

theorem send_of_empty (hring : ring.content = []) (h : kvMsgHeaderSize + d.entitySize ≤ msgSize) :
    ∃ ring' msg ring'', send ring d = .sent ring' ∧ unsafePopMsg ring' = .message msg ring'' ∧
      msg.parts = (d.msg h).parts ∧ ring''.content = [] := by
  obtain ⟨hfits, hlen⟩ := length_block h
  have hroom : ring.content.length + (d.msg h).block.length < kvChannelBufsize := by
    rw [hring, hlen, length_nil]
    unfold msgSize at h
    unfold kvChannelBufsize
    omega
  obtain ⟨ring', hpush⟩ := RingBuffer.exists_push hroom
  have hcontent := RingBuffer.content_push hpush
  rw [hring, nil_append, KVMsg.block_eq hfits, ← append_nil (_ ++ _)] at hcontent
  obtain ⟨msg, ring'', hpop, hparts, hrest⟩ := unsafePopMsg_of_content hcontent
  refine ⟨ring', msg, ring'', ?_, hpop, hparts, hrest⟩
  rw [send, dif_pos h, hpush]

theorem send_tooLarge (h : msgSize < kvMsgHeaderSize + d.entitySize) :
    send ring d = .tooLarge (kvMsgHeaderSize + d.entitySize) := by
  rw [send, dif_neg (by omega)]

theorem processRequest_congr (db : RocksDB (List Byte)) {msg msg' : KVMsg}
    (h : msg.parts = msg'.parts) :
    processRequest behind db msg = processRequest behind db msg' := by
  obtain ⟨hheader, hbytes⟩ := Prod.mk.inj h
  simp [processRequest, handleKvGet, handleKvPut, handleKvRangeScan, hheader, hbytes]

theorem receive_congr (r : KVRequest) {msg msg' : KVMsg} (h : msg.parts = msg'.parts) :
    receive behind r msg = receive behind r msg' := by
  obtain ⟨hheader, hbytes⟩ := Prod.mk.inj h
  simp only [receive, hheader, hbytes]

/-! ### One call -/

theorem requestDraft_ne_close (pid : BitVec 32) (r : KVRequest) (h) :
    ((requestDraft pid r).msg h).header.op ≠ KVOp.kvClose.code := by
  cases r <;> exact of_decide_eq_true rfl

variable {db : RocksDB NRAMValue} {s : Session} {r : KVRequest}

theorem serveOne_message {msg : KVMsg} {db : RocksDB (List Byte)} {resp : Draft}
    (hpop : unsafePopMsg s.requests = .message msg ring) (hop : msg.header.op ≠ KVOp.kvClose.code)
    (hproc : processRequest behind s.db msg = .responded db resp) :
    serveOne behind s =
      match send (s.responses resp.respChannel) resp with
      | .sent chan =>
        { s with
          db
          requests := ring
          responses := update s.responses resp.respChannel chan }
      | .tooLarge _ | .full => { s with db, requests := ring, serving := false } := by
  rw [serveOne, hpop]
  dsimp only
  rw [if_neg hop, hproc]

section

variable {db db' : RocksDB NRAMValue} {s : Session} {pid : BitVec 32} {r : KVRequest}
  {resp : Draft}

section

variable (hs : Synced db s) (hreq : kvMsgHeaderSize + (requestDraft pid r).entitySize ≤ msgSize)

include hs hreq

theorem request_of_synced :
    ∃ ring msg ring', send s.requests (requestDraft pid r) = .sent ring ∧
      unsafePopMsg ring = .message msg ring' ∧ msg.header.op ≠ KVOp.kvClose.code ∧
      processRequest behind s.db msg =
        processRequest behind (storedBytes db) ((requestDraft pid r).msg hreq) ∧
      ring'.content = [] := by
  obtain ⟨ring, msg, ring', hsend, hpop, hparts, hrest⟩ := send_of_empty hs.requests hreq
  refine ⟨ring, msg, ring', hsend, hpop, ?_, ?_, hrest⟩
  · rw [(Prod.mk.inj hparts).1]
    exact requestDraft_ne_close _ r hreq
  · rw [hs.store, processRequest_congr behind _ hparts]

theorem rocksCall_replied (hchan : resp.respChannel = pid)
    (hproc : processRequest behind (storedBytes db) ((requestDraft pid r).msg hreq) =
      .responded (storedBytes db') resp)
    (hresp : kvMsgHeaderSize + resp.entitySize ≤ msgSize) (hdb' : AllStorable db') :
    ∃ s', rocksCall behind s pid r = (s', receive behind r (resp.msg hresp)) ∧ Synced db' s' := by
  subst hchan
  obtain ⟨ring, msg, ring', hsend, hpop, hop, hprocess, hrest⟩ := request_of_synced behind hs hreq
  obtain ⟨chan, reply, chan', hsend', hpop', hparts', hrest'⟩ :=
    send_of_empty (hs.responses resp.respChannel) hresp
  have hserve := serveOne_message behind
    (show unsafePopMsg ({ s with requests := ring } : Session).requests = _ from hpop) hop
    (hprocess.trans hproc)
  rw [hsend'] at hserve
  refine ⟨⟨storedBytes db', s.serving, ring', update s.responses resp.respChannel chan'⟩, ?_, ?_⟩
  · rw [rocksCall, hsend]
    simp only [hs.serving, if_true] at hserve ⊢
    simp only [hserve, update_self, hpop', Function.update_idem]
    rw [receive_congr behind r hparts']
  · refine ⟨hs.serving, rfl, hrest, ?_, hdb'⟩
    intro pid
    dsimp only
    by_cases hpid : pid = resp.respChannel
    · subst hpid
      rw [update_self, hrest']
    · rw [update_of_ne hpid, hs.responses pid]

theorem rocksCall_tooLarge
    (hproc : processRequest behind (storedBytes db) ((requestDraft pid r).msg hreq) =
      .responded (storedBytes db') resp)
    (hresp : msgSize < kvMsgHeaderSize + resp.entitySize) :
    ∃ s', rocksCall behind s pid r = (s', .waiting) ∧ s'.serving = false := by
  obtain ⟨ring, msg, ring', hsend, hpop, hop, hprocess, -⟩ := request_of_synced behind hs hreq
  have hserve := serveOne_message behind
    (show unsafePopMsg ({ s with requests := ring } : Session).requests = _ from hpop) hop
    (hprocess.trans hproc)
  rw [send_tooLarge hresp] at hserve
  refine ⟨⟨storedBytes db', false, ring', s.responses⟩, ?_, rfl⟩
  rw [rocksCall, hsend]
  simp only [hs.serving, if_true] at hserve ⊢
  simp only [hserve, unsafePopMsg_of_empty (hs.responses pid)]

end

end

theorem requestDraft_fits (h : InScope db r) (pid : BitVec 32) :
    kvMsgHeaderSize + (requestDraft pid r).entitySize ≤ msgSize := by
  cases r with
  | kvGet key =>
    have hsize : (requestDraft pid (.kvGet key)).entitySize = 12 := length_tkeySerialize key
    rw [hsize]
    decide
  | kvPut key value =>
    have hv : value.Storable := h
    have hsize : (requestDraft pid (.kvPut key value)).entitySize = 8 + 12 + tvalueSize value := by
      simp only [Draft.entitySize, requestDraft, Option.getD_some, length_append,
        length_leBytes, length_tkeySerialize, hv.length_stored]
      omega
    rw [hsize]
    exact hv
  | kvRange startKey endKey =>
    have hsize : (requestDraft pid (.kvRange startKey endKey)).entitySize = 40 := by
      simp only [Draft.entitySize, requestDraft, Option.getD_some, length_append,
        length_leBytes, length_tkeySerialize]
    rw [hsize]
    decide

section

variable {db : RocksDB NRAMValue} {s : Session} (hs : Synced db s) (pid : BitVec 32)
  {rows : List (NRAMKey × NRAMValue)}
include hs

theorem rocksCall_get {key : NRAMKey} (h : (rocksengineGet db key).isSome) :
    ∃ s', rocksCall behind s pid (.kvGet key) =
      (s', .returned (.get (rocksengineGet db key))) ∧ Synced db s' := by
  obtain ⟨value, hget⟩ := Option.isSome_iff_exists.mp h
  have hv := hs.storable key value hget
  have hresp : kvMsgHeaderSize +
      (Draft.mk .kvGet key.tableOid .ok pid (some value.stored)).entitySize ≤ msgSize := by
    change kvMsgHeaderSize + value.stored.length ≤ msgSize
    rw [hv.length_stored]
    exact Nat.le_trans (by unfold putMsgSize kvMsgHeaderSize; omega) hv
  obtain ⟨s', hcall, hs'⟩ := rocksCall_replied behind hs
    (requestDraft_fits (show InScope db (.kvGet key) from h) pid) rfl
    (by rw [processRequest_get behind hs.storable, hget]) hresp hs.storable
  refine ⟨s', hcall.trans ?_, hs'⟩
  rw [receive, if_pos ⟨rfl, rfl⟩, entityBytes_msg, Option.getD_some,
    (deserializeBuffer_stored behind hv).1, hget]

theorem rocksCall_put (key : NRAMKey) {value : NRAMValue} (hv : value.Storable) :
    ∃ s', rocksCall behind s pid (.kvPut key value) = (s', .returned (.put true)) ∧
      Synced (rocksenginePut db key value) s' := by
  obtain ⟨s', hcall, hs'⟩ := rocksCall_replied behind hs
    (requestDraft_fits (show InScope db (.kvPut key value) from hv) pid) rfl
    (processRequest_put behind db key hv pid _)
    (show kvMsgHeaderSize + 0 ≤ msgSize by decide) (hs.storable.put key hv)
  refine ⟨s', hcall.trans ?_, hs'⟩
  rw [receive]
  simp only [Draft.msg, and_self, decide_true]

theorem rocksCall_range {startKey endKey : NRAMKey}
    (hscan : rocksengineRangeScan db startKey endKey = .ok rows)
    (hfits : rangeMsgSize rows ≤ msgSize) :
    ∃ s', rocksCall behind s pid (.kvRange startKey endKey) =
      (s', .returned (.range (some rows))) ∧ Synced db s' := by
  have hrows := hs.storable.of_rangeScan hscan
  have hresp : kvMsgHeaderSize +
      (Draft.mk .kvRange startKey.tableOid .ok pid (some (rangeReply rows))).entitySize ≤
      msgSize := by
    change kvMsgHeaderSize + (rangeReply rows).length ≤ msgSize
    rw [length_rangeReply hrows]
    exact hfits
  have hcount : rows.length < 2 ^ 32 := by
    have hlen := length_le_sum_of_one_le (rows.map fun r => 8 + 12 + 8 + tvalueSize r.2) (by
      intro n hn
      obtain ⟨row, -, rfl⟩ := mem_map.mp hn
      omega)
    rw [length_map] at hlen
    unfold rangeMsgSize msgSize at hfits
    omega
  obtain ⟨s', hcall, hs'⟩ := rocksCall_replied behind hs
    (requestDraft_fits (show InScope db (.kvRange startKey endKey) from trivial) pid) rfl
    (processRequest_range behind hs.storable hscan pid _) hresp hs.storable
  refine ⟨s', hcall.trans ?_, hs'⟩
  rw [receive, if_pos ⟨rfl, rfl⟩, entityBytes_msg, Option.getD_some, Reads.readRange hrows hcount]

/-- **A scan that finds too many rows ends the service.** -/
theorem rocksCall_range_tooLarge {startKey endKey : NRAMKey}
    (hscan : rocksengineRangeScan db startKey endKey = .ok rows)
    (hbig : msgSize < rangeMsgSize rows) :
    ∃ s', rocksCall behind s pid (.kvRange startKey endKey) = (s', .waiting) ∧
      s'.serving = false := by
  apply rocksCall_tooLarge behind hs
    (requestDraft_fits (show InScope db (.kvRange startKey endKey) from trivial) pid)
    (processRequest_range behind hs.storable hscan pid _)
  change msgSize < kvMsgHeaderSize + (rangeReply rows).length
  rwa [length_rangeReply (hs.storable.of_rangeScan hscan)]

end

/-! ### Sequences of calls -/

theorem rocksCall_cases (hs : Synced db s) (pid : BitVec 32) (hscope : InScope db r) :
    (Fits db r ∧ ∃ s', rocksCall behind s pid r = (s', .returned (ideal db r).2) ∧
      Synced (ideal db r).1 s') ∨
    ¬ Fits db r ∧ ∃ s', rocksCall behind s pid r = (s', .waiting) ∧ s'.serving = false := by
  cases r with
  | kvGet key => exact Or.inl ⟨trivial, rocksCall_get behind hs pid hscope⟩
  | kvPut key value => exact Or.inl ⟨trivial, rocksCall_put behind hs pid key hscope⟩
  | kvRange startKey endKey =>
    obtain ⟨rows, hscan, -⟩ := rangeScan_spec db startKey endKey
    have hfits : Fits db (.kvRange startKey endKey) ↔ rangeMsgSize rows ≤ msgSize := by
      simp only [Fits, hscan, Except.toOption, Option.mem_def, Option.some.injEq, forall_eq']
    have hideal : ideal db (.kvRange startKey endKey) = (db, .range (some rows)) := by
      simp only [ideal, hscan, Except.toOption]
    rw [hfits, hideal]
    rcases Nat.lt_or_ge msgSize (rangeMsgSize rows) with hbig | hle
    · exact Or.inr ⟨by omega, rocksCall_range_tooLarge behind hs pid hscan hbig⟩
    · exact Or.inl ⟨hle, rocksCall_range behind hs pid hscan hle⟩

theorem rocksCalls_complete_iff (hs : Synced db s) {calls : List (BitVec 32 × KVRequest)}
    (hscope : AllInScope db calls) :
    ((rocksCalls behind s calls).2 = (idealCalls db calls).map .returned ∧
      (rocksCalls behind s calls).1.serving = true) ↔ AllFit db calls := by
  induction calls generalizing db s with
  | nil => exact ⟨fun _ => trivial, fun _ => ⟨rfl, hs.serving⟩⟩
  | cons call calls ih =>
    obtain ⟨pid, r⟩ := call
    obtain ⟨hr, hrest⟩ := hscope
    rcases rocksCall_cases behind hs pid hr with ⟨hfits, s', hcall, hs'⟩ | ⟨hbig, s', hcall, -⟩
    · have h := ih hs' hrest
      simp only [rocksCalls, hcall, idealCalls, map_cons, cons.injEq, true_and, AllFit, hfits]
      exact h
    · -- the call that waits returns nothing, so the outcomes already differ here
      simp only [rocksCalls, hcall, idealCalls, map_cons, cons.injEq, AllFit, hbig,
        false_and, reduceCtorEq]

theorem sessionInit_synced : Synced .empty sessionInit where
  serving := rfl
  store := rfl
  requests := RingBuffer.content_empty _ _
  responses := fun _ => RingBuffer.content_empty _ _
  storable := by
    nofun

/-- **When scans are complete.** For every sequence of calls whose puts are accepted and whose
gets ask for stored keys: all calls return what the store gives, rows of the scans in their
order and with their keys and values, and the service still runs, exactly when the reply to
each of the scans fits in a message. -/
theorem calls_complete_iff (calls : List (BitVec 32 × KVRequest))
    (hscope : AllInScope .empty calls) :
    ((rocksCalls behind sessionInit calls).2 = (idealCalls .empty calls).map .returned ∧
      (rocksCalls behind sessionInit calls).1.serving = true) ↔ AllFit .empty calls :=
  rocksCalls_complete_iff behind sessionInit_synced hscope

/-- A row with one field of 300 bytes. -/
def wideValue (xactId : TransactionId) : NRAMValue :=
  ⟨xactId, 0, [⟨0, 25, leBytes 300 0⟩]⟩

/-- Rows of table 16384 are put, and the table is scanned. -/
def putAndScan (rows : List (BitVec 64)) : List (BitVec 32 × KVRequest) :=
  rows.map (fun tid => (100, .kvPut ⟨16384, tid⟩ (wideValue 7))) ++
    [(100, .kvRange ⟨16384, 0⟩ ⟨16385, 0⟩)]

/-- Two such rows can be scanned. -/
theorem calls_complete_two_rows :
    AllInScope .empty (putAndScan [1, 2]) ∧
      (rocksCalls (fun _ => []) sessionInit (putAndScan [1, 2])).2 =
        (idealCalls .empty (putAndScan [1, 2])).map .returned ∧
      (rocksCalls (fun _ => []) sessionInit (putAndScan [1, 2])).1.serving = true :=
  ⟨by decide +kernel,
    (calls_complete_iff (fun _ => []) _ (by decide +kernel)).mpr (by decide +kernel)⟩

/-- **Three rows end the service.** Each row was accepted, and the scan over the three never
returns: the reply of 1072 bytes ends the service. A get of a stored row that follows waits as
well. -/
theorem three_rows_end_service :
    AllInScope .empty (putAndScan [1, 2, 3] ++ [(101, .kvGet ⟨16384, 1⟩)]) ∧
      (rocksCalls (fun _ => []) sessionInit
        (putAndScan [1, 2, 3] ++ [(101, .kvGet ⟨16384, 1⟩)])).2 =
        [.returned (.put true), .returned (.put true), .returned (.put true), .waiting,
          .waiting] ∧
      (rocksCalls (fun _ => []) sessionInit
        (putAndScan [1, 2, 3] ++ [(101, .kvGet ⟨16384, 1⟩)])).1.serving = false := by
  decide +kernel

/-! ### Keys that are not stored -/

theorem rocksCall_get_absent (hs : Synced db s) (pid : BitVec 32) {key : NRAMKey}
    (hget : rocksengineGet db key = none) :
    ∃ s', rocksCall behind s pid (.kvGet key) = (s', .waiting) ∧ s'.serving = false := by
  have hreq : kvMsgHeaderSize + (requestDraft pid (.kvGet key)).entitySize ≤ msgSize := by
    change kvMsgHeaderSize + (tkeySerialize key).length ≤ msgSize
    rw [length_tkeySerialize]
    decide
  obtain ⟨ring, msg, ring', hsend, hpop, hop, hprocess, -⟩ := request_of_synced behind hs hreq
  rw [processRequest_get behind hs.storable, hget] at hprocess
  have hserve : serveOne behind { s with requests := ring } =
      { s with requests := ring', serving := false } := by
    rw [serveOne, hpop]
    dsimp only
    rw [if_neg hop, hprocess]
  refine ⟨{ s with requests := ring', serving := false }, ?_, rfl⟩
  rw [rocksCall, hsend]
  simp only [hs.serving, if_true] at hserve ⊢
  simp [hserve, unsafePopMsg_of_empty (hs.responses pid)]

/-- **Gets.** Whatever the store holds: `RocksClientGet` returns the value of the key or `NULL`, and
the service goes on, exactly if the key is stored. -/
theorem get_distinguishes_absence_iff {db : RocksDB NRAMValue} {s : Session} (hs : Synced db s)
    (pid : BitVec 32) (key : NRAMKey) :
    (∃ s', rocksCall behind s pid (.kvGet key) =
      (s', .returned (.get (rocksengineGet db key))) ∧ Synced db s') ↔
      (rocksengineGet db key).isSome := by
  constructor
  · rintro ⟨s', hcall, -⟩
    by_contra habsent
    obtain ⟨s'', hcall', -⟩ :=
      rocksCall_get_absent behind hs pid (Option.not_isSome_iff_eq_none.mp habsent)
    rw [hcall] at hcall'
    cases (Prod.mk.inj hcall').2
  · exact rocksCall_get behind hs pid

/-- A store with one row. -/
def oneRowStore : RocksDB NRAMValue := rocksenginePut .empty ⟨16384, 1⟩ (wideValue 7)

/-- The row is returned after it was put. -/
theorem stored_row_returned :
    ∃ s s', Synced oneRowStore s ∧
      rocksCall (fun _ => []) s 101 (.kvGet ⟨16384, 1⟩) =
        (s', .returned (.get (rocksengineGet oneRowStore ⟨16384, 1⟩))) ∧
      (rocksengineGet oneRowStore ⟨16384, 1⟩).isSome := by
  obtain ⟨s, -, hs⟩ := rocksCall_put (fun _ => []) sessionInit_synced 100 ⟨16384, 1⟩
    (by decide +kernel : (wideValue 7).Storable)
  have hstored : (rocksengineGet oneRowStore ⟨16384, 1⟩).isSome := by
    rw [oneRowStore, rocksengineGet_put_self]
    rfl
  obtain ⟨s', hcall, -⟩ :=
    (get_distinguishes_absence_iff (fun _ => []) hs 101 ⟨16384, 1⟩).mpr hstored
  exact ⟨s, s', hs, hcall, hstored⟩

/-- The first get of an absent key gets no answer, and neither does the put that follows. -/
theorem absent_get_ends_service :
    (rocksCalls (fun _ => []) sessionInit
      [(100, .kvGet ⟨16384, 1⟩), (101, .kvPut ⟨16384, 1⟩ (wideValue 7))]).2 =
        [.waiting, .waiting] ∧
      (rocksCalls (fun _ => []) sessionInit
        [(100, .kvGet ⟨16384, 1⟩), (101, .kvPut ⟨16384, 1⟩ (wideValue 7))]).1.serving = false := by
  decide +kernel

end Wire
end NeurDB.Nram
