import MemClient.ClientSystem
import MemClient.RequestEncoding
import MemClient.ServerList

/-!
# Request operations

The keyed operations of `memcachedClient/Mem*.cpp`, from the call to
`ServerItem::SendRequest`: take an id, route the key, insert into the request
table, encode, send.  Each step is a function of its own, so that the same steps
can also be interleaved.  Section 4: an operation is safe exactly when an
algorithm is installed and has a server, since nothing checks for it.
-/

namespace MemClient

open ByteCodec EventRun

/-! ## 1. The steps -/

namespace MemcachedClient

/-- `mNextRequestId.fetch_add(1)`. -/
def takeRequestId (c : MemcachedClient) : BitVec 32 × MemcachedClient :=
  (c.mNextRequestId, { c with mNextRequestId := c.mNextRequestId + 1 })

/-- Make the result and insert it into the table under an id taken before. -/
def insertRequest (c : MemcachedClient) (requestId : BitVec 32) (result : MemResult)
    (callback : Bool) : MemcachedClient :=
  { c with
    mRequests :=
      if (c.mRequests requestId).isSome then c.mRequests
      else Function.update c.mRequests requestId (some ⟨c.nextResult, callback⟩)
    results := Function.update c.results c.nextResult result
    nextResult := c.nextResult + 1 }

theorem insertRequest_takeRequestId (c : MemcachedClient) (result : MemResult) (callback : Bool) :
    c.takeRequestId.2.insertRequest c.takeRequestId.1 result callback =
      c.request result callback := rfl

theorem insertRequest_mRequests {c : MemcachedClient} {requestId id : BitVec 32}
    {result : MemResult} {callback : Bool} {item : RequestItem}
    (h : (c.insertRequest requestId result callback).mRequests id = some item) :
    c.mRequests id = some item ∨ id = requestId := by
  unfold insertRequest at h
  dsimp only at h
  split at h
  · exact Or.inl h
  · by_cases hid : id = requestId
    · exact Or.inr hid
    · rw [Function.update_of_ne hid] at h
      exact Or.inl h

end MemcachedClient

/-- What a request operation can run into. -/
inductive OperationFault where
  | missing (fault : MissingFault)
  | iterator (fault : Fault)
  | outOfBlock
deriving DecidableEq, Repr

/-- The client with its `Servers`, the pending ids of each server, and what was
    handed to each server's socket. -/
structure RoutingClient where
  client : MemcachedClient
  servers : ServerList
  mPendingRequests : ServerItem → List (BitVec 32)
  sends : ServerItem → List (List Bytes)

namespace RoutingClient

variable (P : Platform) (junk : Nat → Byte)

def new (mHashFunc : Bytes → HashT) (algorithms : AlgorithmRef → DistributeAlgorithm) :
    RoutingClient where
  client := .new
  servers := .new mHashFunc algorithms
  mPendingRequests := fun _ => []
  sends := fun _ => []

def takeRequestId (s : RoutingClient) : BitVec 32 × RoutingClient :=
  (s.client.takeRequestId.1, { s with client := s.client.takeRequestId.2 })

/-- `Servers.Get(key)`. -/
def route (s : RoutingClient) (key : Bytes) :
    Except OperationFault (Option ServerItem × RoutingClient) :=
  match s.servers.get P key with
  | .ok (server, servers) => .ok (server, { s with servers := servers })
  | .error fault => .error (.missing fault)

def insertRequest (s : RoutingClient) (requestId : BitVec 32) (result : MemResult)
    (callback : Bool) : RoutingClient :=
  { s with client := s.client.insertRequest requestId result callback }

/-- `server->SendRequest(requestId, ...)`. -/
def sendRequest (s : RoutingClient) (server : Option ServerItem) (requestId : BitVec 32)
    (bufs : List Bytes) : Except OperationFault RoutingClient :=
  match server with
  | some item =>
      .ok { s with
        mPendingRequests := Function.update s.mPendingRequests item
          (s.mPendingRequests item ++ [requestId])
        sends := Function.update s.sends item (s.sends item ++ [bufs]) }
  | none => .error (.missing .nullServer)

end RoutingClient

/-! ## 2. The operations -/

namespace RoutingClient

variable (P : Platform) (junk : Nat → Byte)

/-- What the keyed operations share. -/
def keyedOperation (s : RoutingClient) (key : Bytes) (result : MemResult) (callback : Bool)
    (encode : BitVec 32 → Option (List Bytes)) : Except OperationFault RoutingClient :=
  let (requestId, s) := s.takeRequestId
  match s.route P key with
  | .ok (server, s) =>
      let s := s.insertRequest requestId result callback
      match encode requestId with
      | some bufs => s.sendRequest server requestId bufs
      | none => .error .outOfBlock
  | .error fault => .error fault

def get (s : RoutingClient) (key : Bytes) (buf : Option SharedBuffer) (callback : Bool) :
    Except OperationFault RoutingClient :=
  s.keyedOperation P key (.new key buf (.get none)) callback (getRequest junk key)

def store (s : RoutingClient) (cmd : Byte) (key : Bytes) (flag expiry : BitVec 32) (buf : Bytes)
    (callback : Bool) : Except OperationFault RoutingClient :=
  s.keyedOperation P key (.new key none .mem) callback
    (storeCmdRequest junk cmd key flag expiry buf)

def set (s : RoutingClient) (key : Bytes) (flag expiry : BitVec 32) (buf : Bytes)
    (callback : Bool) : Except OperationFault RoutingClient :=
  s.store P junk PROTOCOL_BINARY_CMD_SET key flag expiry buf callback

def add (s : RoutingClient) (key : Bytes) (flag expiry : BitVec 32) (buf : Bytes)
    (callback : Bool) : Except OperationFault RoutingClient :=
  s.store P junk PROTOCOL_BINARY_CMD_ADD key flag expiry buf callback

def replace (s : RoutingClient) (key : Bytes) (flag expiry : BitVec 32) (buf : Bytes)
    (callback : Bool) : Except OperationFault RoutingClient :=
  s.store P junk PROTOCOL_BINARY_CMD_REPLACE key flag expiry buf callback

def delete (s : RoutingClient) (key : Bytes) (callback : Bool) :
    Except OperationFault RoutingClient :=
  s.keyedOperation P key (.new key none .mem) callback (deleteRequest junk key)

def selfOp (s : RoutingClient) (cmd : Byte) (key : Bytes) (delta initValue : BitVec 64)
    (expiry : BitVec 32) (callback : Bool) : Except OperationFault RoutingClient :=
  s.keyedOperation P key (.new key none (.inc none)) callback
    (selfOpRequest junk cmd key delta initValue expiry)

def increment (s : RoutingClient) (key : Bytes) (delta initValue : BitVec 64) (expiry : BitVec 32)
    (callback : Bool) : Except OperationFault RoutingClient :=
  s.selfOp P junk PROTOCOL_BINARY_CMD_INCREMENT key delta initValue expiry callback

def decrement (s : RoutingClient) (key : Bytes) (delta initValue : BitVec 64) (expiry : BitVec 32)
    (callback : Bool) : Except OperationFault RoutingClient :=
  s.selfOp P junk PROTOCOL_BINARY_CMD_DECREMENT key delta initValue expiry callback

def appendCmd (s : RoutingClient) (cmd : Byte) (key value : Bytes) (callback : Bool) :
    Except OperationFault RoutingClient :=
  s.keyedOperation P key (.new key none .mem) callback (appendCmdRequest junk cmd key value)

def append (s : RoutingClient) (key value : Bytes) (callback : Bool) :
    Except OperationFault RoutingClient :=
  s.appendCmd P junk PROTOCOL_BINARY_CMD_APPEND key value callback

def preAppend (s : RoutingClient) (key value : Bytes) (callback : Bool) :
    Except OperationFault RoutingClient :=
  s.appendCmd P junk PROTOCOL_BINARY_CMD_PREPEND key value callback

/-- `Servers.Add`. -/
def addServer (s : RoutingClient) (host : Bytes) (port : BitVec 32) :
    Except OperationFault (Bool × RoutingClient) :=
  match s.servers.add P host port with
  | .ok (added, servers) => .ok (added, { s with servers := servers })
  | .error fault => .error (.missing fault)

/-- `Servers.Remove`, with the client's `OnServerRemoved` on the way. -/
def removeServer (s : RoutingClient) (host : Bytes) (port : BitVec 32) :
    Except OperationFault (Bool × RoutingClient) :=
  match s.servers.remove host port with
  | .ok (removed, servers) =>
      match s.servers.getServer host port with
      | some server =>
          match s.client.onServerRemoved (s.mPendingRequests server) with
          | .ok client => .ok (removed, { s with servers := servers, client := client })
          | .error fault => .error (.iterator fault)
      | none => .ok (removed, { s with servers := servers })
  | .error fault => .error (.missing fault)

def setDistributeAlgorithm (s : RoutingClient) (algorithm : AlgorithmRef)
    (order : List ServerItem) : RoutingClient :=
  { s with servers := (s.servers.setDistributeAlgorithm P algorithm order).2 }

end RoutingClient

/-! ## 3. The family -/

/-- The calls that take a key, with their arguments. -/
inductive KeyedOp where
  | get (key : Bytes) (buf : Option SharedBuffer)
  | set (key : Bytes) (flag expiry : BitVec 32) (buf : Bytes)
  | add (key : Bytes) (flag expiry : BitVec 32) (buf : Bytes)
  | replace (key : Bytes) (flag expiry : BitVec 32) (buf : Bytes)
  | delete (key : Bytes)
  | increment (key : Bytes) (delta initValue : BitVec 64) (expiry : BitVec 32)
  | decrement (key : Bytes) (delta initValue : BitVec 64) (expiry : BitVec 32)
  | append (key value : Bytes)
  | preAppend (key value : Bytes)

namespace KeyedOp

def run (P : Platform) (junk : Nat → Byte) (s : RoutingClient) (callback : Bool) :
    KeyedOp → Except OperationFault RoutingClient
  | .get key buf => s.get P junk key buf callback
  | .set key flag expiry buf => s.set P junk key flag expiry buf callback
  | .add key flag expiry buf => s.add P junk key flag expiry buf callback
  | .replace key flag expiry buf => s.replace P junk key flag expiry buf callback
  | .delete key => s.delete P junk key callback
  | .increment key delta initValue expiry => s.increment P junk key delta initValue expiry callback
  | .decrement key delta initValue expiry => s.decrement P junk key delta initValue expiry callback
  | .append key value => s.append P junk key value callback
  | .preAppend key value => s.preAppend P junk key value callback

def key : KeyedOp → Bytes
  | .get key _ => key
  | .set key _ _ _ => key
  | .add key _ _ _ => key
  | .replace key _ _ _ => key
  | .delete key => key
  | .increment key _ _ _ => key
  | .decrement key _ _ _ => key
  | .append key _ => key
  | .preAppend key _ => key

def result : KeyedOp → MemResult
  | .get key buf => .new key buf (.get none)
  | .increment key _ _ _ => .new key none (.inc none)
  | .decrement key _ _ _ => .new key none (.inc none)
  | op => .new op.key none .mem

def encode (junk : Nat → Byte) : KeyedOp → BitVec 32 → Option (List Bytes)
  | .get key _ => getRequest junk key
  | .set key flag expiry buf => setRequest junk key flag expiry buf
  | .add key flag expiry buf => addRequest junk key flag expiry buf
  | .replace key flag expiry buf => replaceRequest junk key flag expiry buf
  | .delete key => deleteRequest junk key
  | .increment key delta initValue expiry => incrementRequest junk key delta initValue expiry
  | .decrement key delta initValue expiry => decrementRequest junk key delta initValue expiry
  | .append key value => appendRequest junk key value
  | .preAppend key value => preAppendRequest junk key value

variable (P : Platform) (junk : Nat → Byte)

/-- Every member is the shared operation at its own result and encoder. -/
theorem run_eq (s : RoutingClient) (callback : Bool) (op : KeyedOp) :
    op.run P junk s callback =
      s.keyedOperation P op.key op.result callback (op.encode junk) := by
  cases op <;> rfl

theorem isSome_encode (op : KeyedOp) (requestId : BitVec 32) :
    (op.encode junk requestId).isSome := by
  have hstore : ∀ cmd key flag expiry buf,
      (storeCmdRequest junk cmd key flag expiry buf requestId).isSome := by
    intro cmd key flag expiry buf
    obtain ⟨spill, -, heq⟩ := storeCmdRequest_eq junk cmd key flag expiry buf requestId
    rw [heq]
    rfl
  have happend : ∀ cmd key value, (appendCmdRequest junk cmd key value requestId).isSome := by
    intro cmd key value
    rw [appendCmdRequest_eq]
    rfl
  cases op with
  | get key buf =>
      show (getRequest junk key requestId).isSome
      rw [getRequest_eq]
      rfl
  | set key flag expiry buf => exact hstore _ _ _ _ _
  | add key flag expiry buf => exact hstore _ _ _ _ _
  | replace key flag expiry buf => exact hstore _ _ _ _ _
  | delete key =>
      show (deleteRequest junk key requestId).isSome
      rw [deleteRequest_eq]
      rfl
  | increment key delta initValue expiry => exact selfOpRequest_isSome _ _ _ _ _ _ _
  | decrement key delta initValue expiry => exact selfOpRequest_isSome _ _ _ _ _ _ _
  | append key value => exact happend _ _ _
  | preAppend key value => exact happend _ _ _

theorem hasMoreResult_result (op : KeyedOp) : op.result.hasMoreResult = false := by
  cases op <;> rfl

end KeyedOp

/-! ## 4. Missing servers -/

namespace RoutingClient

variable (P : Platform) (junk : Nat → Byte)

/-- An algorithm is installed and has a server to return. -/
def available (s : RoutingClient) : Bool :=
  match s.servers.mDistributeAlgorithm with
  | some ref => !(s.servers.algorithms ref).isEmpty
  | none => false

/-- The request is in the table, with the pending ids of a server, and on its way
    to that server's socket. -/
def Performed (s s' : RoutingClient) (op : KeyedOp) (callback : Bool) : Prop :=
  s'.client = s.client.request op.result callback ∧
    ∃ server bufs, op.encode junk s.client.mNextRequestId = some bufs ∧
      s'.mPendingRequests server = s.mPendingRequests server ++ [s.client.mNextRequestId] ∧
      s'.sends server = s.sends server ++ [bufs]

/-- The operation comes to its end; with a server it performs the request, and
    without one it leaves the table alone. -/
def Safe (s : RoutingClient) (op : KeyedOp) (callback : Bool) : Prop :=
  ∃ s', op.run P junk s callback = .ok s' ∧
    if s.available then s.Performed junk s' op callback
    else s'.client.mRequests = s.client.mRequests

variable {P junk} {s : RoutingClient}

/-- With a server, routing returns one. -/
theorem route_of_available (h : s.available) (key : Bytes) :
    ∃ server s', s.route P key = .ok (some server, s') ∧ s'.client = s.client ∧
      s'.mPendingRequests = s.mPendingRequests ∧ s'.sends = s.sends := by
  unfold available at h
  cases hinst : s.servers.mDistributeAlgorithm with
  | none => simp [hinst] at h
  | some ref =>
      have hempty : (s.servers.algorithms ref).isEmpty = false := by simpa [hinst] using h
      have hget := DistributeAlgorithm.get_of_not_isEmpty (P := P) hempty (s.servers.mHashFunc key)
      obtain ⟨server, hserver⟩ := Option.isSome_iff_exists.mp
        ((DistributeAlgorithm.isSome_find (P := P) (s.servers.mHashFunc key)).mpr hempty)
      unfold route ServerList.get
      simp only [hinst, hget, hserver]
      exact ⟨_, _, rfl, rfl, rfl, rfl⟩

/-- Without one it faults, or returns the null pointer that the operation uses. -/
theorem route_of_not_available (h : s.available = false) (key : Bytes) :
    (∃ fault, s.route P key = .error fault) ∨ ∃ s', s.route P key = .ok (none, s') := by
  unfold available at h
  unfold route ServerList.get
  cases hinst : s.servers.mDistributeAlgorithm with
  | none => exact Or.inl ⟨_, rfl⟩
  | some ref =>
      have hempty : (s.servers.algorithms ref).isEmpty = true := by simpa [hinst] using h
      have hget := DistributeAlgorithm.get_of_isEmpty (P := P) hempty (s.servers.mHashFunc key)
      simp only [hget]
      cases P.ndebug with
      | true => exact Or.inr ⟨_, rfl⟩
      | false => exact Or.inl ⟨_, rfl⟩

theorem keyedOperation_of_route {key : Bytes} {result : MemResult} {callback : Bool}
    {encode : BitVec 32 → Option (List Bytes)} {server : Option ServerItem} {t : RoutingClient}
    (hroute : s.takeRequestId.2.route P key = .ok (server, t)) {bufs : List Bytes}
    (hbufs : encode s.client.mNextRequestId = some bufs) :
    s.keyedOperation P key result callback encode =
      (t.insertRequest s.client.mNextRequestId result callback).sendRequest server
        s.client.mNextRequestId bufs := by
  have hbufs : encode s.takeRequestId.1 = some bufs := hbufs
  unfold keyedOperation
  simp only [hroute, hbufs]
  rfl

theorem route_eq_ok {key : Bytes} {server : Option ServerItem} {s' : RoutingClient}
    (h : s.route P key = .ok (server, s')) :
    ∃ servers, s.servers.get P key = .ok (server, servers) ∧
      s' = { s with servers := servers } := by
  unfold route at h
  split at h
  · next hservers =>
      cases h
      exact ⟨_, hservers, rfl⟩
  · cases h

theorem addServer_eq_ok {host : Bytes} {port : BitVec 32} {b : Bool} {s' : RoutingClient}
    (h : s.addServer P host port = .ok (b, s')) :
    ∃ servers, s.servers.add P host port = .ok (b, servers) ∧
      s' = { s with servers := servers } := by
  unfold addServer at h
  split at h
  · next hservers =>
      cases h
      exact ⟨_, hservers, rfl⟩
  · cases h

/-- `Remove` changes nothing, or unlists a server and finishes what is pending there. -/
theorem removeServer_eq_ok {host : Bytes} {port : BitVec 32} {b : Bool} {s' : RoutingClient}
    (h : s.removeServer host port = .ok (b, s')) :
    s' = s ∨ ∃ server servers client, s.servers.getServer host port = some server ∧
      s.servers.remove host port = .ok (b, servers) ∧
      s.client.onServerRemoved (s.mPendingRequests server) = .ok client ∧
      s' = { s with servers := servers, client := client } := by
  unfold removeServer at h
  split at h
  · next hservers =>
      split at h
      · next server hserver =>
          split at h
          · next client hclient =>
              cases h
              exact Or.inr ⟨server, _, client, hserver, hservers, hclient, rfl⟩
          · cases h
      · next hnone =>
          cases h
          -- a server that is not listed leaves the list as it was
          rcases ServerList.remove_eq_ok hservers with ⟨-, rfl, -⟩ | ⟨-, server, hserver, -⟩
          · exact Or.inl rfl
          · unfold ServerList.getServer at hnone
            rw [hserver] at hnone
            cases hnone
  · cases h

theorem safe_iff {op : KeyedOp} {callback : Bool} : s.Safe P junk op callback ↔ s.available := by
  have htaken : s.takeRequestId.2.available = s.available := rfl
  obtain ⟨bufs, hbufs⟩ := Option.isSome_iff_exists.mp
    (op.isSome_encode junk s.client.mNextRequestId)
  unfold Safe
  rw [op.run_eq]
  constructor
  · rintro ⟨s', hok, -⟩
    by_contra hnot
    rw [Bool.not_eq_true, ← htaken] at hnot
    rcases route_of_not_available (P := P) hnot op.key with ⟨fault, hroute⟩ | ⟨t, hroute⟩
    · simp [keyedOperation, hroute] at hok
    · rw [keyedOperation_of_route hroute hbufs] at hok
      cases hok
  · intro havail
    obtain ⟨server, t, hroute, hclient, hpending, hsends⟩ :=
      route_of_available (P := P) (htaken.trans havail) op.key
    rw [keyedOperation_of_route hroute hbufs]
    refine ⟨_, rfl, ?_⟩
    rw [if_pos havail]
    refine ⟨?_, server, bufs, hbufs, ?_, ?_⟩
    · show t.client.insertRequest s.client.mNextRequestId op.result callback = _
      rw [hclient]
      exact s.client.insertRequest_takeRequestId op.result callback
    · show Function.update t.mPendingRequests server _ server = _
      rw [Function.update_self]
      show t.mPendingRequests server ++ _ = _
      rw [hpending]
      rfl
    · show Function.update t.sends server _ server = _
      rw [Function.update_self]
      show t.sends server ++ _ = _
      rw [hsends]
      rfl

theorem addServer_isOk_iff {host : Bytes} {port : BitVec 32} :
    (∃ outcome, s.addServer P host port = .ok outcome) ↔
      s.servers.mDistributeAlgorithm.isSome ∨ (s.servers.getServer host port).isSome := by
  unfold addServer ServerList.add ServerList.getServer
  cases hlookup : s.servers.mServers.lookup (ServerItem.toStringOf host port) with
  | some server => simp
  | none =>
      have hsame : (s.servers.insertServer host port).2.mDistributeAlgorithm =
        s.servers.mDistributeAlgorithm := rfl
      cases hinst : s.servers.mDistributeAlgorithm with
      | none => simp [hsame, hinst]
      | some ref => simp [hsame, hinst]

/-- **Missing servers.**  A keyed operation is safe exactly when an installed
    algorithm has a server to return; `Servers.Add` exactly when an algorithm is
    installed or there is nothing to add. -/
theorem operations_safe_iff (P : Platform) (junk : Nat → Byte) (s : RoutingClient) :
    (∀ op callback, s.Safe P junk op callback ↔ s.available) ∧
    ∀ host port, (∃ outcome, s.addServer P host port = .ok outcome) ↔
      s.servers.mDistributeAlgorithm.isSome ∨ (s.servers.getServer host port).isSome :=
  ⟨fun _ _ => safe_iff, fun _ _ => addServer_isOk_iff⟩

/-! ## 5. Runs -/

inductive Event where
  | request (op : KeyedOp) (callback : Bool)
  | addServer (host : Bytes) (port : BitVec 32)
  | removeServer (host : Bytes) (port : BitVec 32)
  | setDistributeAlgorithm (algorithm : AlgorithmRef) (order : List ServerItem)

/-- Calls one after the other; a connection error is a call of `Remove`. -/
def step (P : Platform) (junk : Nat → Byte) (s : RoutingClient) : Event → Option RoutingClient
  | .request op callback => (op.run P junk s callback).toOption
  | .addServer host port => (s.addServer P host port).toOption.map Prod.snd
  | .removeServer host port => (s.removeServer host port).toOption.map Prod.snd
  | .setDistributeAlgorithm algorithm order =>
      if order.Perm s.servers.mServers.values then
        some (s.setDistributeAlgorithm P algorithm order)
      else none

/-- Nothing was done yet, or the only server was removed: both fault. -/
theorem not_operations_safe :
    ¬ ∀ (P : Platform) (junk : Nat → Byte) (mHashFunc : Bytes → HashT)
      (algorithms : AlgorithmRef → DistributeAlgorithm) (es : List Event) (s : RoutingClient),
      exec (step P junk) (new mHashFunc algorithms) es = some s →
        ∀ op callback, s.Safe P junk op callback := by
  intro hall
  have hlast : (exec (step ServerList.examplePlatform fun _ => 0)
      (new (fun _ => 0) fun _ => .memoDistri .new)
      [.setDistributeAlgorithm 0 [], .addServer [97] 1, .removeServer [97] 1]).any
        fun s => !s.available := by
    decide +kernel
  obtain ⟨s, hs, hnot⟩ := (Option.any_eq_true _ _).mp hlast
  have hsafe := hall _ _ _ _ _ s hs (.delete [107]) false
  rw [safe_iff] at hsafe
  simp [hsafe] at hnot

end RoutingClient

end MemClient
