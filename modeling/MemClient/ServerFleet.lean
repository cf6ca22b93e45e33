import MemClient.Demultiplexing
import MemClient.ProtocolServer
import MemClient.RequestOperations
import MemClient.RequestStream
import MemClient.SequentialService

/-!
# A client and its servers at work

The client with `Servers` configured, one connection for each server, and at the
other end of each a server that processes requests one after the other.  A keyed
operation goes through routing, the request table, the encoder, the posted send
and the write queue; its reply through the read loop and a posted handler.  What
a server does with a request is a parameter, and other clients use the same
servers.
-/

namespace MemClient

open ByteCodec EventRun SequentialService

/-! ## 1. Operations -/

namespace KeyedOp

/-- The operation as a request without extras, where it is one. -/
def call : KeyedOp → Option RequestCall
  | .get key _ => some (.get key)
  | .delete key => some (.delete key)
  | .append key value => some (.append key value)
  | .preAppend key value => some (.preAppend key value)
  | _ => none

variable {op : KeyedOp} {call : RequestCall}

theorem encode_of_call (hcall : op.call = some call) (junk : Nat → Byte)
    (requestId : BitVec 32) : op.encode junk requestId = call.buffers junk requestId := by
  cases op <;> cases hcall <;> rfl

theorem key_of_call (hcall : op.call = some call) : call.key = op.key := by
  cases op <;> cases hcall <;> rfl

theorem cls_result_of_call (hcall : op.call = some call) (mValue : Option Bytes) :
    op.result.cls ≠ .inc mValue := by
  cases op <;> cases hcall <;> simp [result, MemResult.new]

theorem not_isStat_result (op : KeyedOp) : ¬ op.result.IsStat := by
  cases op <;> exact id

end KeyedOp

/-- An operation that was performed: its frame, its id, its table entry, and what
    was handed to the socket. -/
structure SentOp where
  op : KeyedOp
  call : RequestCall
  call_eq : op.call = some call
  fits : call.Fits
  requestId : BitVec 32
  item : RequestItem
  bufs : List Bytes
  flatten_bufs : bufs.flatten = (call.frame requestId fits).bytes

namespace SentOp

variable (x : SentOp)

def frame : RequestFrame := x.call.frame x.requestId x.fits

def bytes : Bytes := x.frame.bytes

/-- The request as the server reads it. -/
def request : ParsedRequest := x.frame.view

def outstanding : Outstanding where
  requestId := x.requestId
  item := x.item
  result := x.op.result
  notStat := x.op.not_isStat_result

def ref : ResultRef := x.item.mResult

@[simp] theorem ref_outstanding : x.outstanding.ref = x.ref := rfl

theorem key_request : x.request.key = x.op.key := KeyedOp.key_of_call x.call_eq

theorem opaque_request :
    BitVec.ofNat 32 (leValue x.request.opaqueBytes) = x.requestId :=
  ofNat_leValue_leBytes (n := 4) (by norm_num) x.requestId

theorem bytes_ne_nil : x.bytes ≠ [] := x.frame.bytes_ne_nil

theorem bufs_ne_nil : x.bufs ≠ [] := by
  intro hnil
  have hbytes := x.flatten_bufs
  rw [hnil] at hbytes
  exact x.bytes_ne_nil hbytes.symm

end SentOp

/-! ## 2. Answers -/

/-- What a server says to a request. -/
structure ServerAnswer where
  status : BitVec 16
  extras : Bytes
  value : Bytes
  cas : BitVec 64
deriving DecidableEq

namespace ServerAnswer

variable (a : ServerAnswer)

def bytes (request : ParsedRequest) : Bytes :=
  replyBytes request.opcode a.status a.extras a.value request.opaqueBytes a.cas

/-- The status as the client decodes it, with its two bytes exchanged. -/
def seen : ERequestStatus := ntohs a.status

/-- The extras that the protocol gives to an answer for a result of this class. -/
def extlenFor (cls : ResultClass) : Nat :=
  match cls with
  | .get _ => if a.status = 0 then 4 else 0
  | _ => 0

/-- The answer is one that the client can take: a value that is empty has no
    extras, and one that is not fits the caller's buffer, if there is one. -/
structure Suits (r : MemResult) : Prop where
  body_lt : a.extras.length + a.value.length < 2 ^ 31
  extras : a.extras.length = a.extlenFor r.cls
  value : a.value = [] → a.extras = []
  buffer : a.value ≠ [] → ∀ buffer ∈ r.mValue, buffer.size = a.value.length

instance (r : MemResult) : Decidable (a.Suits r) :=
  decidable_of_iff (a.extras.length + a.value.length < 2 ^ 31 ∧
      a.extras.length = a.extlenFor r.cls ∧ (a.value = [] → a.extras = []) ∧
      (a.value ≠ [] → ∀ buffer ∈ r.mValue, buffer.size = a.value.length))
    ⟨fun ⟨h₁, h₂, h₃, h₄⟩ => ⟨h₁, h₂, h₃, h₄⟩,
      fun h => ⟨h.body_lt, h.extras, h.value, h.buffer⟩⟩

variable {a} in
theorem Suits.extras_lt {r : MemResult} (h : a.Suits r) : a.extras.length < 2 ^ 8 := by
  rw [h.extras]
  unfold extlenFor
  split
  · split <;> decide
  · decide

theorem seen_eq_success_iff : a.seen = ERequest_SUCCESS ↔ a.status = 0 := by
  constructor
  · intro h
    have hswap : ntohs a.seen = a.status := swapBytes_swapBytes (by norm_num) a.status
    rw [← hswap, h]
    decide
  · intro h
    rw [seen, h]
    decide

end ServerAnswer

/-- What an answer leaves in a result once the result is notified. -/
def MemResult.answered (r : MemResult) (a : ServerAnswer) : MemResult :=
  (if a.value = [] then r else r.received a.seen a.extras a.value).notify a.seen

/-- The client sees the wire status with its two bytes exchanged. -/
theorem status_replyFrame {opcode : Byte} {status : BitVec 16}
    {extras value opaqueBytes : Bytes} {cas : BitVec 64} {hext : extras.length < 2 ^ 8}
    {hbody : extras.length + value.length < 2 ^ 32} {hecho : opaqueBytes.length = 4} :
    (replyFrame opcode status extras value opaqueBytes cas hext hbody hecho).status =
      ntohs status := by
  apply BitVec.eq_of_toNat_eq
  have hslice : slice (replyHeader opcode status extras.length (extras.length + value.length)
      opaqueBytes cas) 6 2 = beBytes 2 status.toNat := by
    have h := slice_append_mid ([PROTOCOL_BINARY_RES, opcode] ++ beBytes 2 0 ++
        [BitVec.ofNat 8 extras.length, 0]) (beBytes 2 status.toNat)
        (beBytes 4 (extras.length + value.length) ++ opaqueBytes ++ beBytes 8 cas.toNat)
        (i := 6) (n := 2) (by simp) (by simp)
    simpa [replyHeader] using h
  refine (decodeReply_status (length_replyHeader hecho)).trans ?_
  rw [hslice]
  exact (toNat_swapBytes (by norm_num) status).symm

namespace SentOp

variable (x : SentOp)

/-- The reply that carries the answer. -/
def reply (a : ServerAnswer) (h : a.Suits x.op.result) : ReplyFrame :=
  replyFrame x.frame.opcode a.status a.extras a.value x.frame.opaqueBytes a.cas
    h.extras_lt (h.body_lt.trans (by norm_num)) x.frame.opaque_length

variable {x} {a : ServerAnswer} (h : a.Suits x.op.result)

theorem body_reply : (x.reply a h).body = a.extras ++ a.value := rfl

theorem status_reply : (x.reply a h).status = a.seen := by
  unfold reply
  rw [status_replyFrame]
  rfl

theorem value_reply : (x.reply a h).value = a.value := by
  unfold reply
  rw [value_replyFrame]

theorem keylen_reply : (x.reply a h).keylen = 0 := by
  unfold reply
  rw [keylen_replyFrame]

theorem extlen_reply : (x.reply a h).extlen = a.extras.length := by
  unfold reply
  rw [extlen_replyFrame]

theorem extras_reply : (x.reply a h).extras = a.extras := by
  rw [ReplyFrame.extras, body_reply, extlen_reply, List.take_left]

theorem body_reply_eq_nil_iff : (x.reply a h).body = [] ↔ a.value = [] := by
  rw [body_reply, List.append_eq_nil_iff]
  constructor
  · exact fun hnil => hnil.2
  · exact fun hvalue => ⟨h.value hvalue, hvalue⟩

theorem wellFormedFor_reply : (x.reply a h).WellFormedFor x.op.result.cls := by
  have hext := h.extras
  unfold ReplyFrame.WellFormedFor
  rw [extlen_reply, status_reply]
  unfold ServerAnswer.extlenFor at hext
  cases hcls : x.op.result.cls with
  | mem => simpa [hcls] using hext
  | get mFlag => simpa [hcls, a.seen_eq_success_iff] using hext
  | inc mValue => exact absurd hcls (KeyedOp.cls_result_of_call x.call_eq mValue)
  | stat mStats more => exact absurd (by simp [MemResult.IsStat, hcls]) x.op.not_isStat_result

theorem answers_reply : (x.reply a h).Answers x.op.result where
  lt := List.length_append.trans_lt h.body_lt
  shape := by
    rw [body_reply_eq_nil_iff, value_reply]
    by_cases hvalue : a.value = []
    · exact Or.inl hvalue
    · exact Or.inr ⟨keylen_reply h, hvalue, wellFormedFor_reply h, h.buffer hvalue⟩

theorem requestId_reply : (x.reply a h).requestId = x.requestId := by
  unfold reply
  rw [requestId_replyFrame]
  exact x.opaque_request

/-- The request with the answer to it. -/
def exchange : Exchange where
  toOutstanding := x.outstanding
  reply := x.reply a h
  opaque_eq := requestId_reply h
  answers := answers_reply h

/-- The result ends up as the answer says. -/
theorem final_exchange : (exchange h).final = x.op.result.answered a := by
  show (if (x.reply a h).body = [] then x.op.result
    else x.op.result.received (x.reply a h).status (x.reply a h).extras (x.reply a h).value).notify
      (x.reply a h).status = x.op.result.answered a
  unfold MemResult.answered
  rw [status_reply, extras_reply, value_reply, if_congr (body_reply_eq_nil_iff h) rfl rfl]

end SentOp

/-! ## 3. The fleet -/

/-- A connection of the client with what is under way on it, and the server at its
    other end. -/
structure Lane (σ : Type) where
  tcp : TcpClient Buffer Bytes
  headers : List Bytes
  toServer : Bytes
  server : σ
  incoming : Bytes

def Lane.link {σ : Type} (lane : Lane σ) (client : MemcachedClient) : Link where
  tcp := lane.tcp
  client := client
  incoming := lane.incoming
  headers := lane.headers

structure Fleet (σ : Type) where
  routing : RoutingClient
  lanes : ServerItem → Lane σ

namespace Fleet

variable {σ : Type}

/-- The servers of the list are connected, and nothing has been requested. -/
def start (servers : ServerList) (init : ServerItem → σ) : Fleet σ where
  routing :=
    { client := .new, servers := servers, mPendingRequests := fun _ => [], sends := fun _ => [] }
  lanes := fun i =>
    { tcp := .connected sizeofHeader, headers := [], toServer := [], server := init i,
      incoming := [] }

def client (s : Fleet σ) : MemcachedClient := s.routing.client

/-- The link that the client has to one server. -/
def link (s : Fleet σ) (i : ServerItem) : Link := (s.lanes i).link s.client

/-- The servers that `Servers` lists. -/
def listed (s : Fleet σ) : List ServerItem := s.routing.servers.mServers.values

def setLane (s : Fleet σ) (i : ServerItem) (lane : Lane σ) : Fleet σ :=
  { s with lanes := Function.update s.lanes i lane }

def setLink (s : Fleet σ) (i : ServerItem) (link : Link) : Fleet σ where
  routing := { s.routing with client := link.client }
  lanes := Function.update s.lanes i
    { s.lanes i with tcp := link.tcp, incoming := link.incoming, headers := link.headers }

/-- The sockets take what an operation handed to them. -/
def handOver (s : Fleet σ) (routing : RoutingClient) : Fleet σ where
  routing := routing
  lanes := fun i =>
    let tcp := (s.lanes i).tcp
    let handed := (routing.sends i).drop (s.routing.sends i).length
    { s.lanes i with tcp := { tcp with posted := tcp.posted ++ handed.map PostedIo.send } }

/-- An event of the client names the connection it happens on; `serveOther` is a
    request that another client sent. -/
inductive Event where
  | request (op : KeyedOp) (callback : Bool) (junk : Nat → Byte)
  | runSend (server : ServerItem) (k : Nat)
  | writeDone (server : ServerItem)
  | serve (server : ServerItem)
  | serveOther (server : ServerItem) (request : ParsedRequest)
  | read (server : ServerItem)
  | runPosted (k : Nat)

namespace Event

/-- The events that nobody has to ask for. -/
def internal : Event → Bool
  | request .. => false
  | serveOther .. => false
  | _ => true

def requested : Event → List KeyedOp
  | request op _ _ => [op]
  | _ => []

def foreign : Event → List (ServerItem × ParsedRequest)
  | serveOther i other => [(i, other)]
  | _ => []

end Event

variable (P : Platform) (S : Service σ ParsedRequest ServerAnswer)

/-- The server processes the next request of the connection. -/
def serve (s : Fleet σ) (i : ServerItem) : Option (Fleet σ) :=
  let lane := s.lanes i
  (parseRequest lane.toServer).map fun (request, rest) =>
    let (server, answer) := S.process lane.server request
    s.setLane i
      { lane with
        toServer := rest
        server := server
        incoming := lane.incoming ++ (answer.map fun a => a.bytes request).getD [] }

/-- No connection fails, and no server is added or removed.  A server gets the bytes
    of a write when the completion handler runs: the runs in which it answers before
    that are left out. -/
def step (s : Fleet σ) : Event → Option (Fleet σ)
  | .request op callback junk =>
      (op.run P junk s.routing callback).toOption.map fun routing => s.handOver routing
  | .runSend i k =>
      let lane := s.lanes i
      (TcpClient.step clientHandlers (lane.tcp, s.client) (.runPosted k)).map fun (tcp, _) =>
        s.setLane i { lane with tcp := tcp }
  | .writeDone i =>
      let lane := s.lanes i
      match lane.tcp.writes with
      | bufs :: _ =>
          (TcpClient.step clientHandlers (lane.tcp, s.client) (.writeDone 0 true)).map
            fun (tcp, _) =>
              s.setLane i { lane with tcp := tcp, toServer := lane.toServer ++ bufs.flatten }
      | [] => none
  | .serve i => s.serve S i
  | .serveOther i request =>
      let lane := s.lanes i
      some (s.setLane i { lane with server := (S.process lane.server request).1 })
  | .read i => (s.link i).read.map fun link => s.setLink i link
  | .runPosted k =>
      match s.client.runPosted k with
      | some (.ok client) => some { s with routing := { s.routing with client := client } }
      | _ => none

/-- Nothing is under way. -/
structure Quiescent (s : Fleet σ) : Prop where
  sends : ∀ i ∈ s.listed, (s.lanes i).tcp.posted = []
  writes : ∀ i ∈ s.listed, (s.lanes i).tcp.writes = []
  toServer : ∀ i ∈ s.listed, (s.lanes i).toServer = []
  reads : ∀ i ∈ s.listed, (s.lanes i).tcp.reads = [.header]
  incoming : ∀ i ∈ s.listed, (s.lanes i).incoming = []
  handlers : s.client.posted = []

/-- An operation is one that is framed and takes an id that no outstanding request
    has, and what a server answers to it suits its result. -/
def Answered (s : Fleet σ) : Event → Prop
  | .request op _ _ =>
      (∃ call, op.call = some call ∧ call.Fits) ∧
        s.client.mRequests s.client.mNextRequestId = none
  | .serve i => ∀ request rest, parseRequest (s.lanes i).toServer = some (request, rest) →
      ∀ a ∈ (S.process (s.lanes i).server request).2,
        ∀ item ∈ s.client.mRequests (BitVec.ofNat 32 (leValue request.opaqueBytes)),
          a.Suits (s.client.results item.mResult)
  | _ => True

instance (s : Fleet σ) (e : Event) : Decidable (s.Answered S e) :=
  match e with
  | .request op _ _ =>
      decidable_of_iff ((∃ call ∈ op.call, call.key.length < 2 ^ 16 ∧
          call.key.length + call.value.length < 2 ^ 32) ∧
        (s.client.mRequests s.client.mNextRequestId).isNone)
        (and_congr Iff.rfl Option.isNone_iff_eq_none)
  | .serve i =>
      decidable_of_iff (∀ parsed ∈ parseRequest (s.lanes i).toServer,
        ∀ a ∈ (S.process (s.lanes i).server parsed.1).2,
          ∀ item ∈ s.client.mRequests (BitVec.ofNat 32 (leValue parsed.1.opaqueBytes)),
            a.Suits (s.client.results item.mResult))
        ⟨fun h request rest hparse => h (request, rest) hparse,
          fun h parsed hparse => h parsed.1 parsed.2 hparse⟩
  | .runSend _ _ => isTrue trivial
  | .writeDone _ => isTrue trivial
  | .serveOther _ _ => isTrue trivial
  | .read _ => isTrue trivial
  | .runPosted _ => isTrue trivial

instance (s : Fleet σ) : Decidable s.Quiescent :=
  decidable_of_iff ((∀ i ∈ s.listed, (s.lanes i).tcp.posted.isEmpty ∧
      (s.lanes i).tcp.writes = [] ∧ (s.lanes i).toServer = [] ∧
      (s.lanes i).tcp.reads = [.header] ∧ (s.lanes i).incoming = []) ∧ s.client.posted = [])
    ⟨fun ⟨h, hposted⟩ => ⟨fun i hi => List.isEmpty_iff.mp (h i hi).1, fun i hi => (h i hi).2.1,
        fun i hi => (h i hi).2.2.1, fun i hi => (h i hi).2.2.2.1,
        fun i hi => (h i hi).2.2.2.2, hposted⟩,
      fun h => ⟨fun i hi => ⟨List.isEmpty_iff.mpr (h.sends i hi), h.writes i hi, h.toServer i hi,
        h.reads i hi, h.incoming i hi⟩, h.handlers⟩⟩

/-! ## 4. What a step does -/

@[simp] theorem lanes_setLane_self (s : Fleet σ) (i : ServerItem) (lane : Lane σ) :
    (s.setLane i lane).lanes i = lane := Function.update_self _ _ _

@[simp] theorem routing_setLane (s : Fleet σ) (i : ServerItem) (lane : Lane σ) :
    (s.setLane i lane).routing = s.routing := rfl

@[simp] theorem link_setLink_self (s : Fleet σ) (i : ServerItem) (link : Link) :
    (s.setLink i link).link i = link := by
  simp [Fleet.link, Lane.link, setLink, client]

variable {P S} {s next : Fleet σ}

/-- An operation is routed, enters the table, and is handed to the server's socket. -/
theorem step_request {op : KeyedOp} {callback : Bool} {junk : Nat → Byte} {call : RequestCall}
    (hcall : op.call = some call) (hfits : call.Fits)
    (hstep : s.step P S (.request op callback junk) = some next) :
    ∃ i servers, ∃ x : SentOp, s.routing.servers.get P op.key = .ok (some i, servers) ∧
      x.op = op ∧ x.requestId = s.client.mNextRequestId ∧
      x.item = ⟨s.client.nextResult, callback⟩ ∧
      next.client = s.client.request op.result callback ∧ next.routing.servers = servers ∧
      next.lanes = Function.update s.lanes i
        { s.lanes i with
          tcp := { (s.lanes i).tcp with posted := (s.lanes i).tcp.posted ++ [.send x.bufs] } } := by
  obtain ⟨routing, hrun, rfl⟩ := Option.map_eq_some_iff.mp hstep
  rw [toOption_eq_some_iff, op.run_eq] at hrun
  obtain ⟨bufs, hbufs, hflatten⟩ := call.buffers_eq_frame junk s.client.mNextRequestId hfits
  have hencode : op.encode junk s.routing.client.mNextRequestId = some bufs :=
    (KeyedOp.encode_of_call hcall junk _).trans hbufs
  cases hroute : s.routing.takeRequestId.2.route P op.key with
  | error fault => simp [RoutingClient.keyedOperation, hroute] at hrun
  | ok outcome =>
      obtain ⟨server, t⟩ := outcome
      rw [RoutingClient.keyedOperation_of_route hroute hencode] at hrun
      obtain ⟨servers, hget, rfl⟩ := RoutingClient.route_eq_ok hroute
      cases server with
      | none => cases hrun
      | some i =>
          cases hrun
          refine ⟨i, servers, ⟨op, call, hcall, hfits, s.client.mNextRequestId,
            ⟨s.client.nextResult, callback⟩, bufs, hflatten⟩, hget, rfl, rfl, rfl, rfl, rfl, ?_⟩
          funext j
          show Lane.mk _ _ _ _ _ = _
          by_cases hj : j = i
          · subst hj
            simp [RoutingClient.insertRequest, RoutingClient.takeRequestId]
          · simp [hj, RoutingClient.insertRequest, RoutingClient.takeRequestId]

end Fleet

end MemClient
