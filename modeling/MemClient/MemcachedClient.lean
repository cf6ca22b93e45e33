import MemClient.MemResult
import MemClient.ProtocolBinary
import MemClient.TcpClient

/-!
# The client

The request table and the reply callbacks of `memcachedClient/MemcachedClient.cpp`.
`FinishRequest` only posts the notification and the erase; the posted handlers
are part of the state and run later, in any order.  An operation that would
dereference an iterator that is at the end or erased is a `Fault`.
-/

namespace MemClient

open ByteCodec

/-! ## 1. State -/

/-- An entry of `mRequests`.  The result object is made for the entry, so its
    address also identifies the entry an iterator points at. -/
structure RequestItem where
  mResult : ResultRef
  mCallback : Bool
deriving DecidableEq

/-- The handler `FinishRequest` posts: the captured iterator and error code. -/
structure PostedFinish where
  requestId : BitVec 32
  mResult : ResultRef
  err : ERequestStatus
deriving DecidableEq

/-- An execution of `RequestItem::Notify`; `callback` tells whether a callback was
    invoked. -/
structure Notification where
  mResult : ResultRef
  err : ERequestStatus
  callback : Bool
deriving DecidableEq

/-- An undefined behaviour the client can run into. -/
inductive Fault where
  | endIterator
  | erasedIterator
deriving DecidableEq, Repr

structure MemcachedClient where
  mNextRequestId : BitVec 32
  mRequests : BitVec 32 → Option RequestItem
  results : ResultRef → MemResult
  nextResult : ResultRef
  posted : List PostedFinish
  notified : List Notification

namespace MemcachedClient

def new : MemcachedClient where
  mNextRequestId := 0
  mRequests := fun _ => none
  results := fun _ => .new [] none .mem
  nextResult := 0
  posted := []
  notified := []

/-! ## 2. Operations -/

/-- What every request operation does to the client: take an id, make the result,
    insert into the table, which leaves an entry with the same id in place. -/
def request (c : MemcachedClient) (result : MemResult) (callback : Bool) : MemcachedClient where
  mNextRequestId := c.mNextRequestId + 1
  mRequests :=
    if (c.mRequests c.mNextRequestId).isSome then c.mRequests
    else Function.update c.mRequests c.mNextRequestId (some ⟨c.nextResult, callback⟩)
  results := Function.update c.results c.nextResult result
  nextResult := c.nextResult + 1
  posted := c.posted
  notified := c.notified

/-- `FinishRequest` on a valid iterator. -/
def finishRequest (c : MemcachedClient) (requestId : BitVec 32) (item : RequestItem)
    (err : ERequestStatus) : MemcachedClient :=
  if (c.results item.mResult).hasMoreResult then c
  else { c with posted := c.posted ++ [⟨requestId, item.mResult, err⟩] }

/-- `valueLen` of `OnHeaderReaded`: unsigned 32-bit subtraction, stored in an `int`. -/
def replyValueLen (response : ResponseHeader) : Int :=
  (response.bodylen - response.extlen.setWidth 32 - response.keylen.setWidth 32).toInt

/-- `OnHeaderReaded`: the client, the header as left in the buffer, the return
    value and the body buffers. -/
def onHeaderReaded (c : MemcachedClient) (header : Bytes) :
    MemcachedClient × Bytes × Bool × List Buffer :=
  let pHeader := decodeReply header
  let requestId := pHeader.opaqueId
  let valueLen := replyValueLen pHeader
  match c.mRequests requestId with
  | some item =>
      if valueLen = 0 then
        (c.finishRequest requestId item pHeader.status, pHeader.toBytes, false, [])
      else
        let (result, more, bufs) := (c.results item.mResult).fillReceiveBuffer item.mResult
          pHeader.status valueLen pHeader.keylen.toNat
        ({ c with results := Function.update c.results item.mResult result },
          pHeader.toBytes, more, bufs)
  | none => (c, pHeader.toBytes, false, [])

/-- `OnBodayReaded`; the header was converted by `OnHeaderReaded`. -/
def onBodayReaded (c : MemcachedClient) (header : Bytes) : MemcachedClient :=
  let pHeader := ResponseHeader.ofBytes header
  match c.mRequests pHeader.opaqueId with
  | some item => c.finishRequest pHeader.opaqueId item pHeader.status
  | none => c

def receiveOne (c : MemcachedClient) (buf : Buffer) (bytes : Bytes) : MemcachedClient :=
  { c with
    results := Function.update c.results buf.owner
      ((c.results buf.owner).write buf.target bytes) }

/-- The bytes of a completed body read, in buffer order. -/
def receive (c : MemcachedClient) (bufs : List Buffer) (data : Bytes) : MemcachedClient :=
  (bufs.zip (splitSizes (bufs.map Buffer.size) data)).foldl
    (fun c piece => c.receiveOne piece.1 piece.2) c

/-- `OnServerRemoved` over the pending ids of the removed server. -/
def onServerRemoved (c : MemcachedClient) : List (BitVec 32) → Except Fault MemcachedClient
  | [] => .ok c
  | request :: rest =>
      match c.mRequests request with
      | some item => (c.finishRequest request item ERequest_NETWORK_ERROR).onServerRemoved rest
      | none => .error .endIterator

/-- A posted handler: `Notify`, then erase. -/
def runFinish (c : MemcachedClient) (h : PostedFinish) : Except Fault MemcachedClient :=
  match c.mRequests h.requestId with
  | some item =>
      if item.mResult = h.mResult then
        .ok { c with
          results := Function.update c.results h.mResult ((c.results h.mResult).notify h.err)
          notified := c.notified ++ [⟨h.mResult, h.err, item.mCallback⟩]
          mRequests := Function.update c.mRequests h.requestId none }
      else .error .erasedIterator
  | none => .error .erasedIterator

/-- The io_service takes the `k`-th posted handler and runs it. -/
def runPosted (c : MemcachedClient) (k : Nat) : Option (Except Fault MemcachedClient) :=
  c.posted[k]?.map fun h => runFinish { c with posted := c.posted.eraseIdx k } h

/-! ## 3. What the handlers do to entries and results -/

/-- A posted handler finds its entry, notifies its result and erases it; without the
    entry it made the iterator to, it is a fault. -/
theorem runPosted_cases {c : MemcachedClient} {k : Nat} {outcome : Except Fault MemcachedClient}
    (hrun : c.runPosted k = some outcome) :
    ∃ handler, c.posted[k]? = some handler ∧
      ((∃ item, c.mRequests handler.requestId = some item ∧ item.mResult = handler.mResult ∧
          outcome = .ok { c with
            posted := c.posted.eraseIdx k
            results := Function.update c.results handler.mResult
              ((c.results handler.mResult).notify handler.err)
            notified := c.notified ++ [⟨handler.mResult, handler.err, item.mCallback⟩]
            mRequests := Function.update c.mRequests handler.requestId none }) ∨
        (outcome = .error .erasedIterator ∧ ∀ item,
          c.mRequests handler.requestId = some item → item.mResult ≠ handler.mResult)) := by
  obtain ⟨handler, hk, hfinish⟩ := Option.map_eq_some_iff.mp hrun
  refine ⟨handler, hk, ?_⟩
  unfold runFinish at hfinish
  dsimp only at hfinish
  split at hfinish
  · next item hitem =>
      split at hfinish
      · next href => exact Or.inl ⟨item, hitem, href, hfinish.symm⟩
      · next hne =>
          refine Or.inr ⟨hfinish.symm, ?_⟩
          intro item' hitem'
          rw [hitem] at hitem'
          obtain rfl := Option.some.inj hitem'
          exact hne
  · next hnone =>
      refine Or.inr ⟨hfinish.symm, ?_⟩
      intro item' hitem'
      rw [hnone] at hitem'
      cases hitem'

theorem runPosted_eq_ok {c c' : MemcachedClient} {k : Nat}
    (hrun : c.runPosted k = some (.ok c')) :
    ∃ handler item, c.posted[k]? = some handler ∧ c.mRequests handler.requestId = some item ∧
      item.mResult = handler.mResult ∧
      c' = { c with
        posted := c.posted.eraseIdx k
        results := Function.update c.results handler.mResult
          ((c.results handler.mResult).notify handler.err)
        notified := c.notified ++ [⟨handler.mResult, handler.err, item.mCallback⟩]
        mRequests := Function.update c.mRequests handler.requestId none } := by
  obtain ⟨handler, hk, ⟨item, hitem, href, hok⟩ | ⟨herror, -⟩⟩ := runPosted_cases hrun
  · exact ⟨handler, item, hk, hitem, href, Except.ok.inj hok⟩
  · cases herror

theorem runPosted_of_entry {c : MemcachedClient} {k : Nat} {handler : PostedFinish}
    {item : RequestItem} (hk : c.posted[k]? = some handler)
    (hitem : c.mRequests handler.requestId = some item) (href : item.mResult = handler.mResult) :
    c.runPosted k = some (.ok { c with
      posted := c.posted.eraseIdx k
      results := Function.update c.results handler.mResult
        ((c.results handler.mResult).notify handler.err)
      notified := c.notified ++ [⟨handler.mResult, handler.err, item.mCallback⟩]
      mRequests := Function.update c.mRequests handler.requestId none }) := by
  unfold runPosted runFinish
  rw [hk, Option.map_some]
  simp only [hitem, if_pos href]

theorem hasMoreResult_update (results : ResultRef → MemResult) {ref : ResultRef}
    {result : MemResult} (h : result.hasMoreResult = (results ref).hasMoreResult)
    (ref' : ResultRef) :
    (Function.update results ref result ref').hasMoreResult = (results ref').hasMoreResult := by
  rw [Function.update_apply]
  split
  · next href => rw [h, href]
  · rfl

@[simp] theorem results_finishRequest (c : MemcachedClient) (requestId : BitVec 32)
    (item : RequestItem) (err : ERequestStatus) :
    (c.finishRequest requestId item err).results = c.results := by
  unfold finishRequest
  split <;> rfl

theorem hasMoreResult_onHeaderReaded (c : MemcachedClient) (header : Bytes) (ref : ResultRef) :
    ((c.onHeaderReaded header).1.results ref).hasMoreResult = (c.results ref).hasMoreResult := by
  unfold onHeaderReaded
  dsimp only
  split
  · split
    · rw [results_finishRequest]
    · next hlen =>
        exact hasMoreResult_update c.results
          (MemResult.hasMoreResult_fillReceiveBuffer _ _ _ hlen _) ref
  · rfl

theorem hasMoreResult_receive (c : MemcachedClient) (bufs : List Buffer) (data : Bytes)
    (ref : ResultRef) :
    ((c.receive bufs data).results ref).hasMoreResult = (c.results ref).hasMoreResult := by
  unfold receive
  generalize bufs.zip (splitSizes (bufs.map Buffer.size) data) = pieces
  induction pieces generalizing c with
  | nil => rfl
  | cons piece pieces ih =>
      refine (ih _).trans ?_
      exact hasMoreResult_update c.results (MemResult.hasMoreResult_write _ _ _) ref

@[simp] theorem results_onBodayReaded (c : MemcachedClient) (header : Bytes) :
    (c.onBodayReaded header).results = c.results := by
  unfold onBodayReaded
  dsimp only
  split
  · exact results_finishRequest _ _ _ _
  · rfl

end MemcachedClient

/-- The callbacks that `OnServerAdded` installs on a server's connection. -/
def clientHandlers : Handlers MemcachedClient Buffer where
  bufferSize := Buffer.size
  onHeader := MemcachedClient.onHeaderReaded
  receive := MemcachedClient.receive
  onBody := fun c header _ => c.onBodayReaded header

end MemClient
