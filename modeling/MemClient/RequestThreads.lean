import MemClient.RequestOperations

/-!
# Requests in threads of their own

The four steps of a request operation, interleaved with those of other threads
and with `Servers.Add` and `Servers.Remove`, which hold the mutex throughout.
Section 3: no request is lost as long as no server is removed between the
routing of a request and its registration with that server; the mutex of
`ServerList` covers the routing only.
-/

namespace MemClient

open ByteCodec EventRun

/-! ## 1. State and events -/

/-- What a request operation has got so far: nothing, its id, its server, its entry
    in the table. -/
inductive Phase where
  | called
  | numbered (requestId : BitVec 32)
  | routed (requestId : BitVec 32) (server : Option ServerItem)
  | inserted (requestId : BitVec 32) (server : Option ServerItem)

/-- A request operation in progress. -/
structure Operation where
  op : KeyedOp
  callback : Bool
  phase : Phase

/-- The shared client, and the operations that have not returned. -/
structure RequestThreads where
  shared : RoutingClient
  operations : List Operation

namespace Operation

/-- One step of an operation: the operation after it, unless it returned, and the
    client. -/
def advance (P : Platform) (junk : Nat → Byte) (o : Operation) (s : RoutingClient) :
    Except OperationFault (Option Operation × RoutingClient) :=
  match o.phase with
  | .called =>
      let (requestId, s) := s.takeRequestId
      .ok (some { o with phase := .numbered requestId }, s)
  | .numbered requestId =>
      match s.route P o.op.key with
      | .ok (server, s) => .ok (some { o with phase := .routed requestId server }, s)
      | .error fault => .error fault
  | .routed requestId server =>
      .ok (some { o with phase := .inserted requestId server },
        s.insertRequest requestId o.op.result o.callback)
  | .inserted requestId server =>
      match o.op.encode junk requestId with
      | some bufs =>
          match s.sendRequest server requestId bufs with
          | .ok s => .ok (none, s)
          | .error fault => .error fault
      | none => .error .outOfBlock

/-- The server the operation was routed to. -/
def target (o : Operation) : Option ServerItem :=
  match o.phase with
  | .routed _ server => server
  | .inserted _ server => server
  | _ => none

end Operation

namespace RequestThreads

/-- The replies of all connections are one thread, which may read anything. -/
inductive Event where
  | call (op : KeyedOp) (callback : Bool)
  | advance (k : Nat)
  | addServer (host : Bytes) (port : BitVec 32)
  | removeServer (host : Bytes) (port : BitVec 32)
  | headerReaded (header : Bytes)
  | bodyReaded (bufs : List Buffer) (data header : Bytes)
  | runPosted (k : Nat)

/-- A client whose first algorithm was just installed. -/
def start (P : Platform) (mHashFunc : Bytes → HashT)
    (algorithms : AlgorithmRef → DistributeAlgorithm) (first : AlgorithmRef) : RequestThreads where
  shared := (RoutingClient.new mHashFunc algorithms).setDistributeAlgorithm P first []
  operations := []

def setClient (s : RequestThreads) (client : MemcachedClient) : RequestThreads :=
  { s with shared := { s.shared with client := client } }

/-- A fault ends the run. -/
def step (P : Platform) (junk : Nat → Byte) (s : RequestThreads) : Event → Option RequestThreads
  | .call op callback => some { s with operations := s.operations ++ [⟨op, callback, .called⟩] }
  | .advance k =>
      match s.operations[k]? with
      | some o =>
          match o.advance P junk s.shared with
          | .ok (some o, shared) => some ⟨shared, s.operations.set k o⟩
          | .ok (none, shared) => some ⟨shared, s.operations.eraseIdx k⟩
          | .error _ => none
      | none => none
  | .addServer host port =>
      (s.shared.addServer P host port).toOption.map fun (_, shared) => { s with shared := shared }
  | .removeServer host port =>
      (s.shared.removeServer host port).toOption.map fun (_, shared) => { s with shared := shared }
  | .headerReaded header => some (s.setClient (s.shared.client.onHeaderReaded header).1)
  | .bodyReaded bufs data header =>
      some (s.setClient ((s.shared.client.receive bufs data).onBodayReaded header))
  | .runPosted k => (s.shared.client.runPosted k).bind fun outcome =>
      outcome.toOption.map fun client => s.setClient client

end RequestThreads

/-! ## 2. Alone, the steps are the operation -/

namespace RequestThreads

variable {P : Platform} {junk : Nat → Byte}

/-- Called with nobody interfering, an operation does in its steps what its
    function does. -/
theorem exec_call (s : RequestThreads) (op : KeyedOp) (callback : Bool) :
    let k := s.operations.length
    exec (step P junk) s
        [.call op callback, .advance k, .advance k, .advance k, .advance k] =
      (op.run P junk s.shared callback).toOption.map fun shared =>
        { s with shared := shared } := by
  intro k
  rw [op.run_eq]
  unfold RoutingClient.keyedOperation
  have hget : ∀ phase : Phase, (s.operations ++ [(⟨op, callback, phase⟩ : Operation)])[k]? =
      some ⟨op, callback, phase⟩ := fun phase => by simp [k]
  have hset : ∀ phase phase' : Phase,
      (s.operations ++ [(⟨op, callback, phase⟩ : Operation)]).set k ⟨op, callback, phase'⟩ =
        s.operations ++ [⟨op, callback, phase'⟩] := fun phase phase' => by simp [k]
  have herase : ∀ phase : Phase,
      (s.operations ++ [(⟨op, callback, phase⟩ : Operation)]).eraseIdx k = s.operations :=
    fun phase => by rw [List.eraseIdx_append_of_length_le le_rfl, Nat.sub_self]; simp
  simp only [exec, step, hget, Operation.advance, hset, Option.bind_some]
  cases hroute : s.shared.takeRequestId.2.route P op.key with
  | error fault => rfl
  | ok outcome =>
      obtain ⟨server, t⟩ := outcome
      simp only [hget, hset, Option.bind_some]
      cases hencode : op.encode junk s.shared.takeRequestId.1 with
      | none => rfl
      | some bufs =>
          simp only
          cases hsend : (t.insertRequest s.shared.takeRequestId.1 op.result callback).sendRequest
              server s.shared.takeRequestId.1 bufs with
          | error fault => rfl
          | ok u =>
              simp only [herase]
              rfl

end RequestThreads

/-! ## 3. Requests without an owner -/

namespace MemcachedClient

variable {c c' : MemcachedClient} {hs : List PostedFinish}

/-- The completion of this entry is posted. -/
def Posted (c : MemcachedClient) (requestId : BitVec 32) (item : RequestItem) : Prop :=
  ∃ handler ∈ c.posted, handler.requestId = requestId ∧ handler.mResult = item.mResult

theorem Posted.mono {requestId : BitVec 32} {item : RequestItem}
    (h : c.Posted requestId item) (hsub : c.posted ⊆ c'.posted) : c'.Posted requestId item := by
  obtain ⟨handler, hmem, hhandler⟩ := h
  exact ⟨handler, hsub hmem, hhandler⟩

theorem Posted.posts {requestId : BitVec 32} {item : RequestItem}
    (h : c.Posted requestId item) (hposts : Posts c c' hs) : c'.Posted requestId item := by
  apply h.mono
  rw [hposts.posted]
  exact List.subset_append_left _ _

/-- No result asks for more replies. -/
def Plain (c : MemcachedClient) : Prop := ∀ ref, (c.results ref).hasMoreResult = false

theorem plain_insertRequest (h : c.Plain) (requestId : BitVec 32) {result : MemResult}
    (hresult : result.hasMoreResult = false) (callback : Bool) :
    (c.insertRequest requestId result callback).Plain := by
  intro ref
  show (Function.update c.results c.nextResult result ref).hasMoreResult = false
  rw [Function.update_apply]
  split
  · exact hresult
  · exact h ref

theorem plain_onHeaderReaded (h : c.Plain) (header : Bytes) :
    (c.onHeaderReaded header).1.Plain :=
  fun ref => (hasMoreResult_onHeaderReaded c header ref).trans (h ref)

theorem plain_bodyReaded (h : c.Plain) (bufs : List Buffer) (data header : Bytes) :
    ((c.receive bufs data).onBodayReaded header).Plain := by
  intro ref
  rw [results_onBodayReaded, hasMoreResult_receive]
  exact h ref

/-- Removing a server posts the completion of every request that is pending there. -/
theorem posted_onServerRemoved (h : c.Plain) {ids : List (BitVec 32)}
    (hremoved : c.onServerRemoved ids = .ok c') {requestId : BitVec 32} (hmem : requestId ∈ ids)
    {item : RequestItem} (hitem : c.mRequests requestId = some item) :
    c'.Posted requestId item := by
  have hposts := posts_onServerRemoved hremoved
  refine ⟨⟨requestId, item.mResult, ERequest_NETWORK_ERROR⟩, ?_, rfl, rfl⟩
  rw [hposts.posted]
  refine List.mem_append_right _ (List.mem_filterMap.mpr ⟨requestId, hmem, ?_⟩)
  unfold networkFinish
  rw [hitem, Option.bind_some, h, if_neg Bool.false_ne_true]

theorem plain_onServerRemoved (h : c.Plain) {ids : List (BitVec 32)}
    (hremoved : c.onServerRemoved ids = .ok c') : c'.Plain := by
  induction ids generalizing c with
  | nil =>
      cases hremoved
      exact h
  | cons id ids ih =>
      rw [onServerRemoved] at hremoved
      split at hremoved
      · next item _ =>
          have hsame := c.results_finishRequest id item ERequest_NETWORK_ERROR
          exact ih (fun ref => by rw [hsame]; exact h ref) hremoved
      · cases hremoved

end MemcachedClient

namespace RequestThreads

variable {P : Platform} {junk : Nat → Byte} {s s' : RequestThreads}

/-- The id is in the pending list of a listed server. -/
def Pending (s : RequestThreads) (requestId : BitVec 32) : Prop :=
  ∃ server ∈ s.shared.servers.mServers.values, requestId ∈ s.shared.mPendingRequests server

/-- Every request has a posted completion or a listed server whose failure will
    finish it. -/
def NoOrphan (s : RequestThreads) : Prop :=
  ∀ requestId item, s.shared.client.mRequests requestId = some item →
    s.shared.client.Posted requestId item ∨ s.Pending requestId

/-- An operation holds the request, and will register it with its server. -/
def Held (s : RequestThreads) (requestId : BitVec 32) : Prop :=
  ∃ o ∈ s.operations, ∃ server, o.phase = .inserted requestId server

/-- The event removes no server that an operation in progress was routed to. -/
def KeepsTargets (s : RequestThreads) : Event → Prop
  | .removeServer host port =>
      ∀ o ∈ s.operations, ∀ server, o.target = some server →
        s.shared.servers.getServer host port ≠ some server
  | _ => True

structure Tended (s : RequestThreads) : Prop where
  routed : s.shared.servers.Routed
  plain : s.shared.client.Plain
  target : ∀ o ∈ s.operations, ∀ server, o.target = some server →
    server ∈ s.shared.servers.mServers.values
  entry : ∀ requestId item, s.shared.client.mRequests requestId = some item →
    s.shared.client.Posted requestId item ∨ s.Pending requestId ∨ s.Held requestId

theorem tended_start {mHashFunc : Bytes → HashT} {algorithms : AlgorithmRef → DistributeAlgorithm}
    (hempty : ∀ ref server, ¬ (algorithms ref).Holds server) (first : AlgorithmRef) :
    Tended (start P mHashFunc algorithms first) where
  routed := ServerList.routed_first hempty first
  plain := fun _ => rfl
  target := by
    rintro o hmem
    cases hmem
  entry := by
    rintro requestId item hitem
    cases hitem

/-- A handler of a connection only posts completions. -/
theorem Tended.posts (h : Tended s) {client : MemcachedClient} {hs : List PostedFinish}
    (hposts : s.shared.client.Posts client hs) (hplain : client.Plain) :
    Tended (s.setClient client) where
  routed := h.routed
  plain := hplain
  target := h.target
  entry := by
    intro requestId item hitem
    have hitem : client.mRequests requestId = some item := hitem
    rw [hposts.mRequests] at hitem
    rcases h.entry requestId item hitem with hposted | hrest
    · exact Or.inl (hposted.posts hposts)
    · exact Or.inr hrest

theorem Tended.runPosted (h : Tended s) {k : Nat} {client : MemcachedClient}
    (hrun : s.shared.client.runPosted k = some (.ok client)) : Tended (s.setClient client) := by
  obtain ⟨handler, item, hk, -, -, rfl⟩ := MemcachedClient.runPosted_eq_ok hrun
  constructor
  · exact h.routed
  · intro ref
    exact (MemcachedClient.hasMoreResult_update _ (MemResult.hasMoreResult_notify _ _) ref).trans
      (h.plain ref)
  · exact h.target
  · intro requestId other hother
    have hother : Function.update s.shared.client.mRequests handler.requestId none requestId =
      some other := hother
    by_cases hid : requestId = handler.requestId
    · rw [hid, Function.update_self] at hother
      cases hother
    · rw [Function.update_of_ne hid] at hother
      rcases h.entry requestId other hother with ⟨handler', hmem, hhandler'⟩ | hrest
      · -- the handler that ran was for another entry
        obtain ⟨i, hi⟩ := List.mem_iff_getElem?.mp hmem
        refine Or.inl ⟨handler', List.mem_eraseIdx_iff_getElem?.mpr ⟨i, ?_, hi⟩, hhandler'⟩
        rintro rfl
        rw [hk] at hi
        cases hi
        exact hid hhandler'.1.symm
      · exact Or.inr hrest

theorem Tended.addServer (h : Tended s) {host : Bytes} {port : BitVec 32} {b : Bool}
    {shared : RoutingClient} (hadd : s.shared.addServer P host port = .ok (b, shared)) :
    Tended { s with shared := shared } := by
  obtain ⟨servers, hservers, rfl⟩ := RoutingClient.addServer_eq_ok hadd
  have hkeep : ∀ server ∈ s.shared.servers.mServers.values, server ∈ servers.mServers.values :=
    fun server hmem => ServerList.mem_values_add hservers hmem
  constructor
  · exact ServerList.routed_add h.routed hservers
  · exact h.plain
  · intro o hmem server htarget
    exact hkeep server (h.target o hmem server htarget)
  · intro requestId item hitem
    rcases h.entry requestId item hitem with hposted | ⟨server, hserver, hpending⟩ | hheld
    · exact Or.inl hposted
    · exact Or.inr (Or.inl ⟨server, hkeep server hserver, hpending⟩)
    · exact Or.inr (Or.inr hheld)

/-- The removed server's requests are posted; the others' servers stay. -/
theorem Tended.removeServer (h : Tended s) {host : Bytes} {port : BitVec 32} {b : Bool}
    {shared : RoutingClient} (hguard : KeepsTargets s (.removeServer host port))
    (hremove : s.shared.removeServer host port = .ok (b, shared)) :
    Tended { s with shared := shared } := by
  rcases RoutingClient.removeServer_eq_ok hremove with rfl |
    ⟨removed, servers, client, hremoved, hservers, hclient, rfl⟩
  · exact h
  · have hposts := MemcachedClient.posts_onServerRemoved hclient
    have hkeep : ∀ server ∈ s.shared.servers.mServers.values, server ≠ removed →
        server ∈ servers.mServers.values :=
      fun server hmem hne => ServerList.mem_values_remove hservers hremoved hmem hne
    constructor
    · exact ServerList.routed_remove h.routed hservers
    · exact MemcachedClient.plain_onServerRemoved h.plain hclient
    · intro o hmem server htarget
      refine hkeep server (h.target o hmem server htarget) ?_
      rintro rfl
      exact hguard o hmem server htarget hremoved
    · intro requestId item hitem
      have hitem : client.mRequests requestId = some item := hitem
      rw [hposts.mRequests] at hitem
      rcases h.entry requestId item hitem with hposted | ⟨server, hserver, hpending⟩ | hheld
      · exact Or.inl (hposted.posts hposts)
      · by_cases hsame : server = removed
        · subst hsame
          exact Or.inl (MemcachedClient.posted_onServerRemoved h.plain hclient hpending hitem)
        · exact Or.inr (Or.inl ⟨server, hkeep server hserver hsame, hpending⟩)
      · exact Or.inr (Or.inr hheld)

/-- Replacing an operation that was not about to register its request. -/
theorem Tended.replace (h : Tended s) {k : Nat} {o o' : Operation} {shared : RoutingClient}
    (hget : s.operations[k]? = some o) (hphase : ∀ id server, o.phase ≠ .inserted id server)
    (hrouted : shared.servers.Routed) (hplain : shared.client.Plain)
    (hservers : shared.servers.mServers = s.shared.servers.mServers)
    (hposted : shared.client.posted = s.shared.client.posted)
    (hpending : shared.mPendingRequests = s.shared.mPendingRequests)
    (htarget : ∀ server, o'.target = some server → server ∈ shared.servers.mServers.values)
    (hentry : ∀ requestId item, shared.client.mRequests requestId = some item →
      s.shared.client.mRequests requestId = some item ∨
        ∃ server, o'.phase = .inserted requestId server) :
    Tended ⟨shared, s.operations.set k o'⟩ := by
  obtain ⟨hk, rfl⟩ := List.getElem?_eq_some_iff.mp hget
  constructor
  · exact hrouted
  · exact hplain
  · intro other hmem server hother
    rcases List.mem_or_eq_of_mem_set hmem with hold | rfl
    · show server ∈ shared.servers.mServers.values
      rw [hservers]
      exact h.target other hold server hother
    · exact htarget server hother
  · intro requestId item hitem
    rcases hentry requestId item hitem with hold | ⟨server, hinserted⟩
    · rcases h.entry requestId item hold with hold | ⟨server, hserver, hmem⟩ |
          ⟨other, hother, hinserted⟩
      · exact Or.inl (hold.mono (by rw [hposted]; exact List.Subset.refl _))
      · refine Or.inr (Or.inl ⟨server, ?_, ?_⟩)
        · rwa [← hservers] at hserver
        · rwa [← hpending] at hmem
      · -- another operation holds this request
        obtain ⟨i, hi⟩ := List.mem_iff_getElem?.mp hother
        obtain ⟨server, hinserted⟩ := hinserted
        refine Or.inr (Or.inr ⟨other, List.mem_iff_getElem?.mpr ⟨i, ?_⟩, server, hinserted⟩)
        rw [List.getElem?_set_ne, hi]
        rintro rfl
        rw [hget] at hi
        cases hi
        exact hphase _ _ hinserted
    · exact Or.inr (Or.inr ⟨o', List.mem_set hk o', server, hinserted⟩)

/-- Registering the request with a listed server makes it pending there. -/
theorem Tended.register (h : Tended s) {k : Nat} {o : Operation} {requestId : BitVec 32}
    {server : Option ServerItem} {bufs : List Bytes} {shared : RoutingClient}
    (hget : s.operations[k]? = some o) (hphase : o.phase = .inserted requestId server)
    (hsend : s.shared.sendRequest server requestId bufs = .ok shared) :
    Tended ⟨shared, s.operations.eraseIdx k⟩ := by
  have hmem : o ∈ s.operations := List.mem_of_getElem? hget
  cases server with
  | none => cases hsend
  | some item =>
      cases hsend
      have hlisted : item ∈ s.shared.servers.mServers.values := by
        apply h.target o hmem item
        unfold Operation.target
        rw [hphase]
      constructor
      · exact h.routed
      · exact h.plain
      · intro other hother
        exact h.target other (List.mem_of_mem_eraseIdx hother)
      · intro id entry hentry
        rcases h.entry id entry hentry with hold | ⟨other, hother, hpending⟩ |
            ⟨other, hother, server, hinserted⟩
        · exact Or.inl hold
        · refine Or.inr (Or.inl ⟨other, hother, ?_⟩)
          show id ∈ Function.update s.shared.mPendingRequests item _ other
          rw [Function.update_apply]
          split
          · next hsame => exact List.mem_append_left _ (hsame ▸ hpending)
          · exact hpending
        · by_cases hid : id = requestId
          · refine Or.inr (Or.inl ⟨item, hlisted, ?_⟩)
            show id ∈ Function.update s.shared.mPendingRequests item _ item
            rw [Function.update_self, hid]
            exact List.mem_append_right _ List.mem_cons_self
          · obtain ⟨i, hi⟩ := List.mem_iff_getElem?.mp hother
            refine Or.inr (Or.inr ⟨other, List.mem_eraseIdx_iff_getElem?.mpr ⟨i, ?_, hi⟩,
              server, hinserted⟩)
            rintro rfl
            rw [hget] at hi
            cases hi
            rw [hphase] at hinserted
            cases hinserted
            exact hid rfl

theorem Tended.advance (h : Tended s) {k : Nat} {o : Operation}
    (hget : s.operations[k]? = some o) {next : Option Operation} {shared : RoutingClient}
    (hadvance : o.advance P junk s.shared = .ok (next, shared)) :
    Tended ⟨shared, match next with
      | some o => s.operations.set k o
      | none => s.operations.eraseIdx k⟩ := by
  obtain ⟨op, callback, phase⟩ := o
  have hmem : (⟨op, callback, phase⟩ : Operation) ∈ s.operations := List.mem_of_getElem? hget
  cases phase with
  | called =>
      cases hadvance
      refine h.replace hget ?_ h.routed h.plain rfl rfl rfl ?_ fun id item hitem => Or.inl hitem
      · rintro id server ⟨⟩
      · rintro server ⟨⟩
  | numbered requestId =>
      simp only [Operation.advance] at hadvance
      split at hadvance
      · next server t hroute =>
          cases hadvance
          obtain ⟨servers, hservers, rfl⟩ := RoutingClient.route_eq_ok hroute
          have hsame : servers.mServers = s.shared.servers.mServers := by
            obtain ⟨ref, -, -, rfl⟩ := ServerList.get_eq_ok hservers
            rfl
          refine h.replace hget ?_ (ServerList.routed_get h.routed hservers) h.plain hsame rfl rfl
            ?_ fun id item hitem => Or.inl hitem
          · rintro id server ⟨⟩
          · rintro item ⟨⟩
            rw [hsame]
            exact ServerList.mem_values_of_get h.routed hservers
      · cases hadvance
  | routed requestId server =>
      cases hadvance
      refine h.replace hget ?_ h.routed ?_ rfl rfl rfl ?_ ?_
      · rintro id server ⟨⟩
      · exact MemcachedClient.plain_insertRequest h.plain requestId op.hasMoreResult_result callback
      · intro item htarget
        exact h.target _ hmem item htarget
      · intro id item hitem
        rcases MemcachedClient.insertRequest_mRequests hitem with hold | rfl
        · exact Or.inl hold
        · exact Or.inr ⟨server, rfl⟩
  | inserted requestId server =>
      simp only [Operation.advance] at hadvance
      split at hadvance
      · split at hadvance
        · next hsend =>
            cases hadvance
            exact h.register hget rfl hsend
        · cases hadvance
      · cases hadvance

theorem tended_step (h : Tended s) {e : Event} (hguard : KeepsTargets s e)
    (hstep : step P junk s e = some s') : Tended s' := by
  cases e with
  | call op callback =>
      cases hstep
      constructor
      · exact h.routed
      · exact h.plain
      · intro o hmem server htarget
        rcases List.mem_append.mp hmem with hold | hnew
        · exact h.target o hold server htarget
        · obtain rfl := List.mem_singleton.mp hnew
          cases htarget
      · intro requestId item hitem
        rcases h.entry requestId item hitem with hposted | hpending | ⟨o, hmem, hheld⟩
        · exact Or.inl hposted
        · exact Or.inr (Or.inl hpending)
        · exact Or.inr (Or.inr ⟨o, List.mem_append_left _ hmem, hheld⟩)
  | advance k =>
      simp only [step] at hstep
      split at hstep
      · next o hget =>
          split at hstep
          · next o' shared hadvance =>
              cases hstep
              exact h.advance hget hadvance
          · next shared hadvance =>
              cases hstep
              exact h.advance hget hadvance
          · cases hstep
      · cases hstep
  | addServer host port =>
      obtain ⟨⟨b, shared⟩, hadd, rfl⟩ := Option.map_eq_some_iff.mp hstep
      exact h.addServer (toOption_eq_some_iff.mp hadd)
  | removeServer host port =>
      obtain ⟨⟨b, shared⟩, hremove, rfl⟩ := Option.map_eq_some_iff.mp hstep
      exact h.removeServer hguard (toOption_eq_some_iff.mp hremove)
  | headerReaded header =>
      cases hstep
      obtain ⟨hs, hposts, -⟩ := MemcachedClient.posts_onHeaderReaded s.shared.client header
      exact h.posts hposts (MemcachedClient.plain_onHeaderReaded h.plain header)
  | bodyReaded bufs data header =>
      cases hstep
      obtain ⟨hs, hposts, -⟩ := MemcachedClient.posts_onBodayReaded
        (s.shared.client.receive bufs data) header
      exact h.posts ((MemcachedClient.posts_receive _ bufs data).trans hposts)
        (MemcachedClient.plain_bodyReaded h.plain bufs data header)
  | runPosted k =>
      obtain ⟨outcome, hrun, hoption⟩ := Option.bind_eq_some_iff.mp hstep
      obtain ⟨client, hok, rfl⟩ := Option.map_eq_some_iff.mp hoption
      obtain rfl := toOption_eq_some_iff.mp hok
      exact h.runPosted hrun

/-- **No orphaned request.**  Algorithms start empty.  In a run that removes no
    server while an operation in progress is routed to it, whenever no operation is
    in progress every request has a posted completion or is pending at a listed
    server. -/
theorem no_orphan {mHashFunc : Bytes → HashT} {algorithms : AlgorithmRef → DistributeAlgorithm}
    (hempty : ∀ ref server, ¬ (algorithms ref).Holds server) {first : AlgorithmRef}
    {es : List Event} (hrun : Run (step P junk) KeepsTargets
      (start P mHashFunc algorithms first) es s) (hidle : s.operations = []) : s.NoOrphan := by
  have htended : Tended s :=
    hrun.invariant (fun _ _ _ h hguard hstep => tended_step h hguard hstep)
      (tended_start hempty first)
  intro requestId item hitem
  rcases htended.entry requestId item hitem with hposted | hpending | ⟨o, hmem, -⟩
  · exact Or.inl hposted
  · exact Or.inr hpending
  · rw [hidle] at hmem
    cases hmem

/-- The server is removed when its request is registered and nothing is in progress. -/
theorem no_orphan_example :
    ∃ s, exec (step ServerList.examplePlatform fun _ => 0)
        (start ServerList.examplePlatform (fun _ => 0) ServerList.exampleAlgorithms 1)
        [.addServer [97] 1, .call (.delete [107]) true, .advance 0, .advance 0, .advance 0,
          .advance 0, .removeServer [97] 1] = some s ∧
      s.operations = [] ∧ s.NoOrphan := by
  have hrun : (exec (step ServerList.examplePlatform fun _ => 0)
      (start ServerList.examplePlatform (fun _ => 0) ServerList.exampleAlgorithms 1)
      [.addServer [97] 1, .call (.delete [107]) true, .advance 0, .advance 0, .advance 0,
        .advance 0]).any fun m => m.operations.isEmpty &&
          (step ServerList.examplePlatform (fun _ => 0) m (.removeServer [97] 1)).any fun s =>
            s.operations.isEmpty := by
    decide +kernel
  obtain ⟨m, hm, hlast⟩ := (Option.any_eq_true _ _).mp hrun
  obtain ⟨hidle, hlast⟩ := (Bool.and_eq_true_iff).mp hlast
  obtain ⟨s, hs, hdone⟩ := (Option.any_eq_true _ _).mp hlast
  rw [List.isEmpty_iff] at hidle hdone
  have hguard : KeepsTargets m (.removeServer [97] 1) := by
    intro o hmem
    rw [hidle] at hmem
    cases hmem
  have hfirst : Run _ KeepsTargets _ _ m := run_of_exec (by simp [KeepsTargets]) hm
  have hall := hfirst.append (.cons hguard hs (.nil s))
  exact ⟨s, hall.exec_eq, hdone, no_orphan ServerList.not_holds_exampleAlgorithms hall hdone⟩

/-- The server is removed after the routing: its request is registered with a
    server that nothing refers to. -/
theorem not_no_orphan :
    ¬ ∀ (P : Platform) (junk : Nat → Byte) (mHashFunc : Bytes → HashT)
      (algorithms : AlgorithmRef → DistributeAlgorithm) (first : AlgorithmRef) (es : List Event)
      (s : RequestThreads), (∀ ref server, ¬ (algorithms ref).Holds server) →
      exec (step P junk) (start P mHashFunc algorithms first) es = some s →
      s.operations = [] → s.NoOrphan := by
  intro hall
  have hrun : (exec (step ServerList.examplePlatform fun _ => 0)
      (start ServerList.examplePlatform (fun _ => 0) ServerList.exampleAlgorithms 1)
      [.addServer [97] 1, .call (.delete [107]) true, .advance 0, .advance 0,
        .removeServer [97] 1, .advance 0, .advance 0]).any fun s =>
          s.operations.isEmpty && (s.shared.client.mRequests 0).isSome &&
            s.shared.client.posted.isEmpty && s.shared.servers.mServers.values.isEmpty := by
    decide +kernel
  obtain ⟨s, hs, hlast⟩ := (Option.any_eq_true _ _).mp hrun
  simp only [Bool.and_eq_true, List.isEmpty_iff, Option.isSome_iff_exists] at hlast
  obtain ⟨⟨⟨hidle, item, hitem⟩, hposted⟩, hservers⟩ := hlast
  rcases hall _ _ _ _ _ _ s ServerList.not_holds_exampleAlgorithms hs hidle 0 item hitem with
    ⟨handler, hmem, -⟩ | ⟨server, hmem, -⟩
  · rw [hposted] at hmem
    cases hmem
  · rw [hservers] at hmem
    cases hmem

end RequestThreads

end MemClient
