import MemClient.ReplyFraming
import MemClient.ServerItem

/-!
# The client and its servers

The whole client as one state machine: `ServerList` with its connections, the
request table, and the handlers posted to the io_service.  An event issues a
request, adds or removes a server, completes an operation of one connection, or
runs one posted handler; a connection that raises `OnError` removes its server.
Section 3 says once what each handler does to the client, section 4 what each
event of the system does.
-/

namespace MemClient

open ByteCodec EventRun

/-! ## 1. State and events -/

/-- `sent` records, beside the ids, the result objects of the requests sent to a
    server; no step looks at it. -/
structure ClientSystem where
  client : MemcachedClient
  mServers : Bytes → Option ServerItem
  created : List ServerItem
  connecting : ServerItem → Bool
  sockets : ServerItem → TcpClient Buffer Bytes
  mPendingRequests : ServerItem → List (BitVec 32)
  sent : ServerItem → List (BitVec 32 × ResultRef)
  fault : Option Fault

namespace ClientSystem

def new : ClientSystem where
  client := .new
  mServers := fun _ => none
  created := []
  connecting := fun _ => false
  sockets := fun _ => .new sizeofHeader
  mPendingRequests := fun _ => []
  sent := fun _ => []
  fault := none

/-- A request operation makes `result` and hands `bufs` to the socket of the
    server, which is one the caller holds or the one `ServerList::Get` picks. -/
inductive Event where
  | request (server : ServerItem) (result : MemResult) (callback : Bool) (bufs : List Bytes)
  | add (host : Bytes) (port : BitVec 32)
  | remove (host : Bytes) (port : BitVec 32)
  | connectDone (server : ServerItem) (ok : Bool)
  | io (server : ServerItem) (event : TcpClient.Event Bytes)
  | runPosted (k : Nat)

/-! ## 2. Steps -/

/-- `ServerList::Add`. -/
def addServer (s : ClientSystem) (host : Bytes) (port : BitVec 32) : ClientSystem :=
  let key := ServerItem.toStringOf host port
  if (s.mServers key).isSome then s
  else
    let server : ServerItem := ⟨s.created.length, host, port, 1⟩
    { s with
      mServers := Function.update s.mServers key (some server)
      created := s.created ++ [server]
      connecting := Function.update s.connecting server true }

/-- `ServerList::Remove`, with the client's `OnServerRemoved`. -/
def removeServer (s : ClientSystem) (host : Bytes) (port : BitVec 32) : ClientSystem :=
  let key := ServerItem.toStringOf host port
  match s.mServers key with
  | some server =>
      match s.client.onServerRemoved (s.mPendingRequests server) with
      | .ok client => { s with client := client, mServers := Function.update s.mServers key none }
      | .error fault => { s with fault := some fault }
  | none => s

/-- A request operation, ending in `ServerItem::SendRequest`. -/
def sendRequest (s : ClientSystem) (server : ServerItem) (result : MemResult) (callback : Bool)
    (bufs : List Bytes) : ClientSystem :=
  let requestId := s.client.mNextRequestId
  let socket := s.sockets server
  { s with
    client := s.client.request result callback
    mPendingRequests := Function.update s.mPendingRequests server
      (s.mPendingRequests server ++ [requestId])
    sent := Function.update s.sent server (s.sent server ++ [(requestId, s.client.nextResult)])
    sockets := Function.update s.sockets server
      { socket with posted := socket.posted ++ [.send bufs] } }

/-- Whether a connection raised `OnError` on the way from `before` to `after`. -/
def raisedError (before after : TcpClient Buffer Bytes) : Bool :=
  (after.signals.drop before.signals.length).any fun signal =>
    match signal with
    | .onError _ => true
    | .onClosed => false

/-- A connection and the client after one of its handlers; the handler of
    `OnError` removes the server by host and port. -/
def afterSocket (s : ClientSystem) (server : ServerItem) (socket : TcpClient Buffer Bytes)
    (client : MemcachedClient) : ClientSystem :=
  let next :=
    { s with client := client, sockets := Function.update s.sockets server socket }
  if raisedError (s.sockets server) socket then next.removeServer server.mHost server.mPort
  else next

def runHandler (s : ClientSystem) (k : Nat) : Option ClientSystem :=
  (s.client.runPosted k).map fun outcome =>
    match outcome with
    | .ok client => { s with client := client }
    | .error fault => { s with fault := some fault }

/-- After a fault nothing more is said about the program. -/
def step (s : ClientSystem) (e : Event) : Option ClientSystem :=
  if s.fault.isSome then none
  else
    match e with
    | .request server result callback bufs =>
        if server ∈ s.created then some (s.sendRequest server result callback bufs) else none
    | .add host port => some (s.addServer host port)
    | .remove host port => some (s.removeServer host port)
    | .connectDone server ok =>
        if s.connecting server then
          some (({ s with connecting := Function.update s.connecting server false }).afterSocket
            server ((s.sockets server).connectDone ok) s.client)
        else none
    | .io server event =>
        if server ∈ s.created then
          (TcpClient.step clientHandlers (s.sockets server, s.client) event).map
            fun (socket, client) => s.afterSocket server socket client
        else none
    | .runPosted k => s.runHandler k

end ClientSystem

/-! ## 3. What the handlers do to the client -/

namespace MemcachedClient

variable {c c' c'' : MemcachedClient} {hs hs' : List PostedFinish}

/-- From `c` to `c'` only results changed, and the handlers `hs` were posted, each
    for an entry of the table. -/
structure Posts (c c' : MemcachedClient) (hs : List PostedFinish) : Prop where
  mNextRequestId : c'.mNextRequestId = c.mNextRequestId
  mRequests : c'.mRequests = c.mRequests
  nextResult : c'.nextResult = c.nextResult
  notified : c'.notified = c.notified
  posted : c'.posted = c.posted ++ hs
  entry : ∀ h ∈ hs, ∃ item, c.mRequests h.requestId = some item ∧ item.mResult = h.mResult

theorem Posts.refl (c : MemcachedClient) : Posts c c [] :=
  ⟨rfl, rfl, rfl, rfl, by simp, by simp⟩

theorem Posts.trans (h : Posts c c' hs) (h' : Posts c' c'' hs') : Posts c c'' (hs ++ hs') where
  mNextRequestId := h'.mNextRequestId.trans h.mNextRequestId
  mRequests := h'.mRequests.trans h.mRequests
  nextResult := h'.nextResult.trans h.nextResult
  notified := h'.notified.trans h.notified
  posted := by rw [h'.posted, h.posted, List.append_assoc]
  entry := by
    intro handler hmem
    rcases List.mem_append.mp hmem with hold | hnew
    · exact h.entry handler hold
    · rw [← h.mRequests]
      exact h'.entry handler hnew

theorem posts_results (c : MemcachedClient) (results : ResultRef → MemResult) :
    Posts c { c with results := results } [] :=
  ⟨rfl, rfl, rfl, rfl, by simp, by simp⟩

theorem posts_finishRequest {requestId : BitVec 32} {item : RequestItem}
    (hitem : c.mRequests requestId = some item) (err : ERequestStatus) :
    Posts c (c.finishRequest requestId item err)
      (if (c.results item.mResult).hasMoreResult then []
        else [⟨requestId, item.mResult, err⟩]) := by
  unfold finishRequest
  split
  · exact .refl c
  · exact ⟨rfl, rfl, rfl, rfl, rfl, by simp [hitem]⟩

theorem posts_receive (c : MemcachedClient) (bufs : List Buffer) (data : Bytes) :
    Posts c (c.receive bufs data) [] := by
  unfold receive
  generalize bufs.zip (splitSizes (bufs.map Buffer.size) data) = pieces
  induction pieces generalizing c with
  | nil => exact .refl c
  | cons piece pieces ih => exact (posts_results c _).trans (ih _)

theorem posts_onHeaderReaded (c : MemcachedClient) (header : Bytes) :
    ∃ hs, Posts c (c.onHeaderReaded header).1 hs ∧
      (hs.map PostedFinish.requestId).Sublist
        (if replyValueLen (decodeReply header) = 0 then [(decodeReply header).opaqueId]
          else []) := by
  unfold onHeaderReaded
  dsimp only
  split <;> rename_i hitem
  · by_cases hlen : replyValueLen (decodeReply header) = 0
    · rw [if_pos hlen, if_pos hlen]
      refine ⟨_, posts_finishRequest hitem _, ?_⟩
      split <;> simp
    · rw [if_neg hlen, if_neg hlen]
      exact ⟨[], posts_results c _, by simp⟩
  · exact ⟨[], .refl c, by simp⟩

theorem posts_onBodayReaded (c : MemcachedClient) (header : Bytes) :
    ∃ hs, Posts c (c.onBodayReaded header) hs ∧
      (hs.map PostedFinish.requestId).Sublist [(ResponseHeader.ofBytes header).opaqueId] := by
  unfold onBodayReaded
  dsimp only
  split <;> rename_i hitem
  · refine ⟨_, posts_finishRequest hitem _, ?_⟩
    split <;> simp
  · exact ⟨[], .refl c, by simp⟩

/-- The handler that removing a server posts for one of its pending ids. -/
def networkFinish (c : MemcachedClient) (requestId : BitVec 32) : Option PostedFinish :=
  (c.mRequests requestId).bind fun item =>
    if (c.results item.mResult).hasMoreResult then none
    else some ⟨requestId, item.mResult, ERequest_NETWORK_ERROR⟩

theorem onServerRemoved_eq {ids : List (BitVec 32)} (h : ∀ id ∈ ids, (c.mRequests id).isSome) :
    c.onServerRemoved ids =
      .ok { c with posted := c.posted ++ ids.filterMap c.networkFinish } := by
  induction ids generalizing c with
  | nil => simp [onServerRemoved]
  | cons id ids ih =>
      obtain ⟨item, hitem⟩ := Option.isSome_iff_exists.mp (h id (by simp))
      have hrest : ∀ id' ∈ ids,
          ((c.finishRequest id item ERequest_NETWORK_ERROR).mRequests id').isSome := by
        intro id' hmem
        rw [(posts_finishRequest hitem _).mRequests]
        exact h id' (by simp [hmem])
      rw [onServerRemoved, hitem]
      simp only
      rw [ih hrest]
      unfold finishRequest networkFinish
      by_cases hmore : (c.results item.mResult).hasMoreResult
      · simp [hitem, hmore]
      · simp [hitem, hmore]

theorem onServerRemoved_eq_error {ids : List (BitVec 32)} {id : BitVec 32} (hmem : id ∈ ids)
    (hnone : c.mRequests id = none) : c.onServerRemoved ids = .error .endIterator := by
  induction ids generalizing c with
  | nil => cases hmem
  | cons head ids ih =>
      rw [onServerRemoved]
      cases hhead : c.mRequests head with
      | none => rfl
      | some item =>
          have hne : id ≠ head := by
            rintro rfl
            rw [hnone] at hhead
            cases hhead
          simp only
          refine ih (by simpa [hne] using hmem) ?_
          rw [(posts_finishRequest hhead _).mRequests, hnone]

theorem posts_onServerRemoved {ids : List (BitVec 32)}
    (h : c.onServerRemoved ids = .ok c') : Posts c c' (ids.filterMap c.networkFinish) := by
  have hpresent : ∀ id ∈ ids, (c.mRequests id).isSome := by
    intro id hmem
    by_contra hnone
    rw [onServerRemoved_eq_error hmem (Option.not_isSome_iff_eq_none.mp hnone)] at h
    cases h
  rw [onServerRemoved_eq hpresent] at h
  cases h
  refine ⟨rfl, rfl, rfl, rfl, rfl, ?_⟩
  intro handler hmem
  obtain ⟨id, -, hid⟩ := List.mem_filterMap.mp hmem
  obtain ⟨item, hitem, hif⟩ := Option.bind_eq_some_iff.mp hid
  split at hif
  · cases hif
  · obtain rfl := Option.some.inj hif
    exact ⟨item, hitem, rfl⟩

/-- Whether finishing this id would post a handler. -/
def finishes (c : MemcachedClient) (requestId : BitVec 32) : Bool :=
  (c.mRequests requestId).any fun item => !(c.results item.mResult).hasMoreResult

theorem map_requestId_networkFinish (c : MemcachedClient) (ids : List (BitVec 32)) :
    (ids.filterMap c.networkFinish).map PostedFinish.requestId = ids.filter c.finishes := by
  induction ids with
  | nil => rfl
  | cons id ids ih =>
      cases hitem : c.mRequests id with
      | none => simpa [networkFinish, finishes, hitem] using ih
      | some item =>
          by_cases hmore : (c.results item.mResult).hasMoreResult
          · simpa [networkFinish, finishes, hitem, hmore] using ih
          · simpa [networkFinish, finishes, hitem, hmore] using ih

end MemcachedClient

/-! ## 4. What an event does -/

namespace ClientSystem

open MemcachedClient

/-- The ids that a completed read of this connection hands to `FinishRequest`. -/
def readFinishes (socket : TcpClient Buffer Bytes) : TcpClient.Event Bytes → List (BitVec 32)
  | .readDone k (some data) =>
      match socket.reads[k]? with
      | some .header =>
          if replyValueLen (decodeReply data) = 0 then [(decodeReply data).opaqueId] else []
      | some .body => [(ResponseHeader.ofBytes socket.mHeaderBuffer).opaqueId]
      | none => []
  | _ => []

def fails : TcpClient.Event Bytes → Bool
  | .readDone _ none => true
  | .writeDone _ ok => !ok
  | _ => false

theorem raisedError_of_signals_eq {before after : TcpClient Buffer Bytes}
    (h : after.signals = before.signals) : raisedError before after = false := by
  simp [raisedError, h]

/-- What one event of a connection does to the client; an error leaves it alone. -/
theorem socket_step_cases {socket socket' : TcpClient Buffer Bytes} {c c' : MemcachedClient}
    {event : TcpClient.Event Bytes}
    (hstep : TcpClient.step clientHandlers (socket, c) event = some (socket', c')) :
    (c' = c ∧ (raisedError socket socket' = true → fails event = true)) ∨
      (raisedError socket socket' = false ∧
        ∃ hs, Posts c c' hs ∧
          (hs.map PostedFinish.requestId).Sublist (readFinishes socket event)) := by
  cases event with
  | send bufs =>
      cases hstep
      exact Or.inl ⟨rfl, fun h => by simp [raisedError] at h⟩
  | close =>
      cases hstep
      exact Or.inl ⟨rfl, fun h => by simp [raisedError] at h⟩
  | runPosted k =>
      rcases TcpClient.step_runPosted hstep with ⟨bufs, -, heq⟩ | ⟨-, heq⟩
      · cases heq
        have hquiet : raisedError socket
            (TcpClient.runSend { socket with posted := socket.posted.eraseIdx k } bufs) = false :=
          raisedError_of_signals_eq (TcpClient.signals_runSend _ bufs).1
        exact Or.inl ⟨rfl, fun h => absurd h (by simp [hquiet])⟩
      · cases heq
        exact Or.inl ⟨rfl, fun h => by simp [raisedError, TcpClient.runClose] at h⟩
  | writeDone k ok =>
      obtain ⟨bufs, -, heq⟩ := TcpClient.step_writeDone hstep
      cases heq
      cases ok with
      | false => exact Or.inl ⟨rfl, fun _ => rfl⟩
      | true =>
          have hquiet : raisedError socket (TcpClient.writeDone
              { socket with writes := socket.writes.eraseIdx k } bufs true) = false :=
            raisedError_of_signals_eq (TcpClient.signals_writeDone _ bufs).1
          exact Or.inl ⟨rfl, fun h => absurd h (by simp [hquiet])⟩
  | readDone k data =>
      rcases TcpClient.step_readDone hstep with ⟨hop, heq⟩ | ⟨hop, heq⟩
      · cases data with
        | none =>
            cases heq
            exact Or.inl ⟨rfl, fun _ => rfl⟩
        | some data =>
            -- the header handler never runs into the missing-buffer error
            obtain ⟨hs, hposts, hsub⟩ := posts_onHeaderReaded c data
            have hsocket : socket' = _ := congrArg Prod.fst heq
            have hclient : c' = _ := congrArg Prod.snd heq
            rw [TcpClient.headerReaded_snd] at hclient
            refine Or.inr ⟨raisedError_of_signals_eq ?_, hs, ?_, ?_⟩
            · rw [hsocket]
              exact TcpClient.signals_headerReaded (more_iff_bufs _ _).mp
            · rw [hclient]
              exact hposts
            · simpa only [readFinishes, hop] using hsub
      · cases data with
        | none =>
            cases heq
            exact Or.inl ⟨rfl, fun _ => rfl⟩
        | some data =>
            obtain ⟨hs, hposts, hsub⟩ := posts_onBodayReaded
              (c.receive socket.mReadBuffers data) socket.mHeaderBuffer
            cases heq
            refine Or.inr ⟨raisedError_of_signals_eq rfl, hs, ?_, ?_⟩
            · exact (posts_receive c _ _).trans hposts
            · simpa only [readFinishes, hop] using hsub

variable {s s' : ClientSystem} {e : Event}

/-- The pending ids of the server listed under a host and port. -/
def pendingOf (s : ClientSystem) (host : Bytes) (port : BitVec 32) : List (BitVec 32) :=
  (s.mServers (ServerItem.toStringOf host port)).elim [] s.mPendingRequests

/-- The ids that an event looks up because it removes a server. -/
def removals (s : ClientSystem) : Event → List (BitVec 32)
  | .remove host port => s.pendingOf host port
  | .connectDone server ok => if ok then [] else s.pendingOf server.mHost server.mPort
  | .io server event => if fails event then s.pendingOf server.mHost server.mPort else []
  | _ => []

/-- The ids that an event may finish: by a reply, or by removing a server. -/
def finished (s : ClientSystem) (e : Event) : List (BitVec 32) :=
  (match e with
    | .io server event => readFinishes (s.sockets server) event
    | _ => []) ++ (s.removals e).filter s.client.finishes

/-- From `s` to `s'` handlers were posted for some of `ids`, nothing else changed
    in the records of requests, and a fault can only come from an id of `removed`
    that is not in the table. -/
structure Effect (s s' : ClientSystem) (ids removed : List (BitVec 32)) : Prop where
  posts : ∃ hs, Posts s.client s'.client hs ∧ (hs.map PostedFinish.requestId).Sublist ids
  sent : s'.sent = s.sent
  mPendingRequests : s'.mPendingRequests = s.mPendingRequests
  fault : (∀ id ∈ removed, (s.client.mRequests id).isSome) → s'.fault = s.fault

theorem effect_addServer (s : ClientSystem) (host : Bytes) (port : BitVec 32) :
    Effect s (s.addServer host port) [] [] := by
  unfold addServer
  dsimp only
  split
  · exact ⟨⟨[], .refl _, by simp⟩, rfl, rfl, fun _ => rfl⟩
  · exact ⟨⟨[], .refl _, by simp⟩, rfl, rfl, fun _ => rfl⟩

theorem effect_removeServer (s : ClientSystem) (host : Bytes) (port : BitVec 32) :
    Effect s (s.removeServer host port) ((s.pendingOf host port).filter s.client.finishes)
      (s.pendingOf host port) := by
  unfold removeServer pendingOf
  dsimp only
  cases hserver : s.mServers (ServerItem.toStringOf host port) with
  | none => exact ⟨⟨[], .refl _, by simp⟩, rfl, rfl, fun _ => rfl⟩
  | some server =>
      simp only [Option.elim_some]
      cases hremoved : s.client.onServerRemoved (s.mPendingRequests server) with
      | ok client =>
          refine ⟨⟨_, posts_onServerRemoved hremoved, ?_⟩, rfl, rfl, fun _ => rfl⟩
          rw [map_requestId_networkFinish]
      | error fault =>
          refine ⟨⟨[], .refl _, by simp⟩, rfl, rfl, ?_⟩
          intro hpresent
          rw [onServerRemoved_eq hpresent] at hremoved
          cases hremoved

/-- A handler of a connection posts what the reply finishes; where it fails, its
    error removes the server. -/
theorem effect_afterSocket {server : ServerItem} {socket : TcpClient Buffer Bytes}
    {client : MemcachedClient} (read : List (BitVec 32)) (failed : Bool)
    (h : (client = s.client ∧ (raisedError (s.sockets server) socket = true → failed = true)) ∨
      (raisedError (s.sockets server) socket = false ∧
        ∃ hs, Posts s.client client hs ∧ (hs.map PostedFinish.requestId).Sublist read)) :
    Effect s (s.afterSocket server socket client)
      (read ++ (if failed then s.pendingOf server.mHost server.mPort else []).filter
        s.client.finishes)
      (if failed then s.pendingOf server.mHost server.mPort else []) := by
  unfold afterSocket
  dsimp only
  rcases h with ⟨rfl, herror⟩ | ⟨hno, hs, hposts, hsub⟩
  · split
    · next hraised =>
        obtain rfl := herror hraised
        have heffect := effect_removeServer
          { s with sockets := Function.update s.sockets server socket } server.mHost server.mPort
        obtain ⟨hs, hposts, hsub⟩ := heffect.posts
        have happend := List.sublist_append_right read
          ((s.pendingOf server.mHost server.mPort).filter s.client.finishes)
        exact ⟨⟨hs, hposts, hsub.trans happend⟩, heffect.sent, heffect.mPendingRequests,
          heffect.fault⟩
    · exact ⟨⟨[], .refl _, by simp⟩, rfl, rfl, fun _ => rfl⟩
  · rw [hno]
    exact ⟨⟨hs, hposts, hsub.trans (List.sublist_append_left _ _)⟩, rfl, rfl, fun _ => rfl⟩

/-- An event is a request, runs a posted handler, or posts handlers for ids that
    it may finish. -/
theorem step_cases (hstep : s.step e = some s') :
    s.fault = none ∧
      ((∃ server result callback bufs, e = .request server result callback bufs ∧
          s' = s.sendRequest server result callback bufs) ∨
        (∃ k, e = .runPosted k ∧ s.runHandler k = some s') ∨
        Effect s s' (s.finished e) (s.removals e)) := by
  unfold step at hstep
  split at hstep
  · cases hstep
  · next hfault =>
      refine ⟨by simpa using hfault, ?_⟩
      cases e with
      | request server result callback bufs =>
          simp only at hstep
          split at hstep
          · cases hstep
            exact Or.inl ⟨_, _, _, _, rfl, rfl⟩
          · cases hstep
      | runPosted k => exact Or.inr (Or.inl ⟨k, rfl, hstep⟩)
      | add host port =>
          cases hstep
          exact Or.inr (Or.inr (effect_addServer s host port))
      | remove host port =>
          cases hstep
          exact Or.inr (Or.inr (effect_removeServer s host port))
      | connectDone server ok =>
          simp only at hstep
          split at hstep
          · cases hstep
            have hraised :
                raisedError (s.sockets server) ((s.sockets server).connectDone ok) = true →
                  (!ok) = true := by
              cases ok with
              | true => simp [raisedError, TcpClient.connectDone, TcpClient.readHeader]
              | false => exact fun _ => rfl
            have heffect := effect_afterSocket [] (!ok)
              (s := { s with connecting := Function.update s.connecting server false })
              (Or.inl ⟨rfl, hraised⟩)
            refine Or.inr (Or.inr ⟨?_, heffect.sent, heffect.mPendingRequests, ?_⟩)
            · cases ok <;> exact heffect.posts
            · cases ok <;> exact heffect.fault
          · cases hstep
      | io server event =>
          simp only at hstep
          split at hstep
          · obtain ⟨⟨socket, client⟩, hsocket, rfl⟩ := Option.map_eq_some_iff.mp hstep
            exact Or.inr (Or.inr (effect_afterSocket _ _ (socket_step_cases hsocket)))
          · cases hstep

end ClientSystem

end MemClient
