import MemClient.AssocCells
import MemClient.ReplyFraming

/-!
# Demultiplexing replies

A set of outstanding requests, one reply to each, and a link that delivers the
replies in some order while the posted completion handlers run at any time.
`Accounted` says where every request stands; each event moves one request one
place on.  Section 4: the outcome does not depend on the order.
-/

namespace MemClient

open ByteCodec EventRun AssocCells

/-! ## 1. What a reply leaves in its result -/

namespace MemResult

/-- The result once the body of a reply with a value has been received. -/
def received (r : MemResult) (status : ERequestStatus) (extras value : Bytes) : MemResult :=
  match r.cls with
  | .get _ =>
      if status = ERequest_SUCCESS then
        { r with mValue := some ⟨value.length, some value⟩, cls := .get (some extras) }
      else { r with mValue := some ⟨value.length, some value⟩ }
  | .inc _ =>
      if status = ERequest_SUCCESS then { r with cls := .inc (some value) }
      else { r with mValue := some ⟨value.length, some value⟩ }
  | _ => { r with mValue := some ⟨value.length, some value⟩ }

theorem hasMoreResult_eq_false {r : MemResult} (h : ¬ r.IsStat) : r.hasMoreResult = false := by
  unfold IsStat at h
  unfold hasMoreResult
  cases hcls : r.cls with
  | stat mStats more => simp [hcls] at h
  | mem => rfl
  | get mFlag => rfl
  | inc mValue => rfl

theorem hasMoreResult_received {r : MemResult} (h : ¬ r.IsStat) (status : ERequestStatus)
    (extras value : Bytes) : (r.received status extras value).hasMoreResult = false := by
  unfold IsStat at h
  unfold received
  cases hcls : r.cls with
  | stat mStats more => simp [hcls] at h
  | mem => simp [hasMoreResult]
  | get mFlag => by_cases hstatus : status = ERequest_SUCCESS <;> simp [hasMoreResult, hstatus]
  | inc mValue => by_cases hstatus : status = ERequest_SUCCESS <;> simp [hasMoreResult, hstatus]

/-- A buffer of the value's size serves as well as the one allocated here. -/
theorem baseFillReceiveBuffer_eq {r : MemResult} {n : Nat} (hn : n < 2 ^ 64)
    (hsize : ∀ buffer ∈ r.mValue, buffer.size = n) (self : ResultRef) (bufs : List Buffer) :
    r.baseFillReceiveBuffer self bufs n =
      ({ r with mValue := some (r.mValue.getD ⟨n, none⟩) }, true,
        bufs ++ [⟨self, .value, n⟩]) := by
  obtain ⟨mKey, mErrorCode, mValue, cls⟩ := r
  unfold baseFillReceiveBuffer
  cases mValue with
  | none => simp [sizeOfInt_natCast hn]
  | some buffer => simp [hsize buffer rfl]

theorem size_getD_mValue {r : MemResult} {n : Nat}
    (hsize : ∀ buffer ∈ r.mValue, buffer.size = n) : (r.mValue.getD ⟨n, none⟩).size = n := by
  cases hvalue : r.mValue with
  | none => rfl
  | some buffer => exact hsize buffer hvalue

end MemResult

namespace MemcachedClient

variable {c : MemcachedClient}

theorem receive_singleton {buf : Buffer} {data : Bytes} (h : data.length = buf.size) :
    c.receive [buf] data = c.receiveOne buf data := by
  simp [receive, splitSizes_singleton h]

theorem receive_pair {a b : Buffer} {front rest : Bytes} (ha : front.length = a.size)
    (hb : rest.length = b.size) :
    c.receive [a, b] (front ++ rest) = (c.receiveOne a front).receiveOne b rest := by
  simp [receive, splitSizes_pair ha hb]

theorem finishRequest_of_hasMoreResult_eq_false {item : RequestItem}
    (h : (c.results item.mResult).hasMoreResult = false) (requestId : BitVec 32)
    (err : ERequestStatus) :
    c.finishRequest requestId item err =
      { c with posted := c.posted ++ [⟨requestId, item.mResult, err⟩] } := by
  simp [finishRequest, h]

theorem onBodayReaded_eq {frame : ReplyFrame} {item : RequestItem}
    (hitem : c.mRequests frame.requestId = some item) :
    c.onBodayReaded (decodeReply frame.header).toBytes =
      c.finishRequest frame.requestId item frame.status := by
  simp only [onBodayReaded, ResponseHeader.ofBytes_toBytes, frame.decodeReply_opaqueId_eq, hitem,
    frame.decodeReply_status_eq]

theorem receive_fill {frame : ReplyFrame} {r : MemResult} {self : ResultRef}
    (hwf : frame.WellFormedFor r.cls) (hkey : frame.keylen = 0)
    (hsize : ∀ buffer ∈ r.mValue, buffer.size = frame.value.length)
    (hself : c.results self =
      (r.fillReceiveBuffer self frame.status frame.value.length frame.keylen).1) :
    c.receive (r.fillReceiveBuffer self frame.status frame.value.length frame.keylen).2.2
        frame.body =
      { c with
        results := Function.update c.results self
          (r.received frame.status frame.extras frame.value) } := by
  have hbody := frame.body_eq_of_keylen hkey
  have hlen := frame.body_length_eq
  have hlt := frame.length_body_lt
  have hfill := MemResult.baseFillReceiveBuffer_eq (n := frame.value.length) (by omega) hsize self
  have hget := MemResult.size_getD_mValue hsize
  have hvalue (hext : frame.extlen = 0) : frame.body = frame.value := by
    rw [hbody, List.length_eq_zero_iff.mp (frame.length_extras.trans hext), List.nil_append]
  unfold MemResult.fillReceiveBuffer at hself ⊢
  unfold MemResult.received
  cases hcls : r.cls with
  | stat mStats more => simp [ReplyFrame.WellFormedFor, hcls] at hwf
  | mem =>
      simp only [ReplyFrame.WellFormedFor, hcls, hfill, List.nil_append] at hwf hself ⊢
      rw [hvalue hwf, receive_singleton rfl]
      simp only [receiveOne, hself, MemResult.write, Option.map_some, hget]
  | get mFlag =>
      simp only [ReplyFrame.WellFormedFor, hcls, hfill] at hwf hself ⊢
      by_cases hstatus : frame.status = ERequest_SUCCESS
      · simp only [hstatus, if_true, List.cons_append, List.nil_append] at hwf hself ⊢
        rw [hbody, receive_pair (frame.length_extras.trans hwf) rfl]
        simp [receiveOne, hself, MemResult.write, hget]
      · simp only [if_neg hstatus, List.nil_append] at hwf hself ⊢
        rw [hvalue hwf, receive_singleton rfl]
        simp only [receiveOne, hself, MemResult.write, Option.map_some, hget]
  | inc mValue =>
      simp only [ReplyFrame.WellFormedFor, hcls, hfill] at hwf hself ⊢
      by_cases hstatus : frame.status = ERequest_SUCCESS
      · simp only [if_pos hstatus] at hself ⊢
        rw [hvalue hwf.1, receive_singleton (hwf.2 hstatus)]
        simp [receiveOne, hself, MemResult.write, hcls]
      · simp only [if_neg hstatus, List.nil_append] at hself ⊢
        rw [hvalue hwf.1, receive_singleton rfl]
        simp only [receiveOne, hself, MemResult.write, Option.map_some, hget]

end MemcachedClient

/-! ## 2. Requests and their replies -/

structure Outstanding where
  requestId : BitVec 32
  item : RequestItem
  result : MemResult
  notStat : ¬ result.IsStat

namespace Outstanding

def ref (o : Outstanding) : ResultRef := o.item.mResult

def entry (o : Outstanding) : BitVec 32 × RequestItem := (o.requestId, o.item)

def cell (o : Outstanding) : ResultRef × MemResult := (o.ref, o.result)

end Outstanding

/-- The replies that demultiplexing is about: no body, or a value without key
    and with the extras and the length the protocol gives to it.  A buffer that
    the caller supplied, if there is one, has the size of the value. -/
structure ReplyFrame.Answers (frame : ReplyFrame) (result : MemResult) : Prop where
  lt : frame.body.length < 2 ^ 31
  shape : frame.body = [] ∨
    frame.keylen = 0 ∧ frame.value ≠ [] ∧ frame.WellFormedFor result.cls ∧
      ∀ buffer ∈ result.mValue, buffer.size = frame.value.length

/-- An outstanding request with the reply to it. -/
structure Exchange extends Outstanding where
  reply : ReplyFrame
  opaque_eq : reply.requestId = requestId
  answers : reply.Answers result

namespace Exchange

variable (ex : Exchange)

def fill : MemResult × Bool × List Buffer :=
  ex.result.fillReceiveBuffer ex.ref ex.reply.status ex.reply.value.length ex.reply.keylen

def received : MemResult :=
  if ex.reply.body = [] then ex.result
  else ex.result.received ex.reply.status ex.reply.extras ex.reply.value

def final : MemResult := ex.received.notify ex.reply.status

def finish : PostedFinish := ⟨ex.requestId, ex.ref, ex.reply.status⟩

def notification : Notification := ⟨ex.ref, ex.reply.status, ex.item.mCallback⟩

theorem value_eq_nil_iff : ex.reply.value = [] ↔ ex.reply.body = [] := by
  constructor
  · intro hvalue
    rcases ex.answers.shape with hbody | ⟨-, hne, -⟩
    · exact hbody
    · exact absurd hvalue hne
  · intro hbody
    rw [ReplyFrame.value, hbody, List.drop_nil]

theorem shape_of_body_ne_nil (h : ex.reply.body ≠ []) :
    ex.reply.keylen = 0 ∧ ex.reply.WellFormedFor ex.result.cls ∧
      ∀ buffer ∈ ex.result.mValue, buffer.size = ex.reply.value.length := by
  rcases ex.answers.shape with hbody | ⟨hkey, -, hwf, hsize⟩
  · exact absurd hbody h
  · exact ⟨hkey, hwf, hsize⟩

theorem hasMoreResult_received : ex.received.hasMoreResult = false := by
  unfold received
  split
  · exact MemResult.hasMoreResult_eq_false ex.notStat
  · exact MemResult.hasMoreResult_received ex.notStat _ _ _

theorem fill_spec (h : ex.reply.body ≠ []) :
    ex.fill = (ex.fill.1, true, ex.fill.2.2) ∧ ex.fill.2.2 ≠ [] ∧
      (ex.fill.2.2.map Buffer.size).sum = ex.reply.body.length := by
  obtain ⟨hkey, hwf, hsize⟩ := ex.shape_of_body_ne_nil h
  have hvalue : ex.reply.value ≠ [] := fun hnil => h (ex.value_eq_nil_iff.mp hnil)
  obtain ⟨result, bufs, heq, hne, hsum⟩ := MemResult.fillReceiveBuffer_spec ex.notStat
    ex.ref ex.reply.status ex.reply.value.length ex.reply.keylen
  have hfits : ex.reply.FitsBuffers ex.result := by
    unfold ReplyFrame.FitsBuffers
    rw [if_neg hvalue]
    cases hbuffer : ex.result.mValue with
    | none => cases ex.result.cls <;> exact hkey
    | some buffer =>
        have hlen := hsize buffer hbuffer
        cases ex.result.cls <;> simp [hlen, hkey]
  rw [(ReplyFrame.fitsBuffers_iff_room hwf ex.answers.lt hvalue).mp hfits] at hsum
  unfold fill
  rw [heq]
  exact ⟨rfl, hne, hsum⟩

end Exchange

/-! ## 3. Where every request stands -/

namespace Link

/-- What is still to be delivered: the body of `reading`, then the replies of `todo`. -/
def Stream (reading : Option Exchange) (todo : List Exchange) (link : Link) : Prop :=
  match reading with
  | none => link.AtHeader ∧ link.incoming = todo.flatMap fun ex => ex.reply.bytes
  | some ex =>
      ex.reply.body ≠ [] ∧ link.AtBody ex.reply.body.length ∧
        link.tcp.mReadBuffers = ex.fill.2.2 ∧
        link.tcp.mHeaderBuffer = (decodeReply ex.reply.header).toBytes ∧
        link.incoming = ex.reply.body ++ todo.flatMap fun ex => ex.reply.bytes

theorem Stream.congr {reading : Option Exchange} {todo : List Exchange} {link next : Link}
    (h : Stream reading todo link) (hreads : TcpClient.SameReads link.tcp next.tcp)
    (hincoming : next.incoming = link.incoming) : Stream reading todo next := by
  cases reading with
  | none =>
      obtain ⟨hat, hin⟩ := h
      exact ⟨⟨hreads.reads.trans hat.reads, hreads.mHeaderLength.trans hat.headerLength⟩,
        hincoming.trans hin⟩
  | some ex =>
      obtain ⟨hbody, hat, hbufs, hheader, hin⟩ := h
      refine ⟨hbody,
        ⟨hreads.reads.trans hat.reads, hreads.mHeaderLength.trans hat.headerLength, ?_⟩,
        hreads.mReadBuffers.trans hbufs, hreads.mHeaderBuffer.trans hheader, hincoming.trans hin⟩
      rw [hreads.mReadBuffers]
      exact hat.size

/-- The entries of the request table, in the order of `posted`, `reading`,
    `todo`, `waiting`. -/
def entries (posted : List Exchange) (reading : Option Exchange) (todo : List Exchange)
    (waiting : List Outstanding) : List (BitVec 32 × RequestItem) :=
  (posted ++ (reading.toList ++ todo)).map (fun ex => ex.entry) ++
    waiting.map Outstanding.entry

def settled (done posted : List Exchange) : List (ResultRef × MemResult) :=
  done.map (fun ex => (ex.ref, ex.final)) ++ posted.map (fun ex => (ex.ref, ex.received))

def untouched (todo : List Exchange) (waiting : List Outstanding) :
    List (ResultRef × MemResult) :=
  todo.map (fun ex => ex.cell) ++ waiting.map Outstanding.cell

/-- The result objects, with what the place of their request says about them. -/
def cells (done posted : List Exchange) (reading : Option Exchange) (todo : List Exchange)
    (waiting : List Outstanding) : List (ResultRef × MemResult) :=
  settled done posted ++ (reading.toList.map (fun ex => (ex.ref, ex.fill.1)) ++
    untouched todo waiting)

theorem cells_todo (done posted : List Exchange) (ex : Exchange) (todo : List Exchange)
    (waiting : List Outstanding) :
    cells done posted none (ex :: todo) waiting =
      settled done posted ++ (ex.ref, ex.result) :: untouched todo waiting := rfl

theorem cells_reading (done posted : List Exchange) (ex : Exchange) (todo : List Exchange)
    (waiting : List Outstanding) :
    cells done posted (some ex) todo waiting =
      settled done posted ++ (ex.ref, ex.fill.1) :: untouched todo waiting := rfl

theorem cells_posted (done posted : List Exchange) (ex : Exchange) (todo : List Exchange)
    (waiting : List Outstanding) :
    cells done (posted ++ [ex]) none todo waiting =
      settled done posted ++ (ex.ref, ex.received) :: untouched todo waiting := by
  simp [cells, settled]

/-- Every request is in one place: notified, finished with its handler posted,
    being received, with its reply on the way, or waiting for a reply. -/
structure Accounted (done posted : List Exchange) (reading : Option Exchange)
    (todo : List Exchange) (waiting : List Outstanding) (link : Link) : Prop where
  notifications : link.client.notified = done.map Exchange.notification
  handlers : link.client.posted = posted.map Exchange.finish
  table : Represents link.client.mRequests (entries posted reading todo waiting)
  heap : Holds link.client.results (cells done posted reading todo waiting)
  stream : Stream reading todo link

variable {done posted todo : List Exchange} {reading : Option Exchange}
  {waiting : List Outstanding} {link : Link} {ex : Exchange}

/-- The request of the next reply is in the table, with its result as it was sent. -/
theorem Accounted.next_request (h : Accounted done posted none (ex :: todo) waiting link) :
    link.client.mRequests ex.reply.requestId = some ex.item ∧
      link.client.results ex.ref = ex.result := by
  have hcells := h.heap
  rw [cells_todo] at hcells
  refine ⟨?_, hcells.eq (ex.ref, ex.result) (by simp)⟩
  rw [ex.opaque_eq]
  exact h.table.get (by simp [entries, Outstanding.entry])

/-- The header of a reply without body finishes its request. -/
theorem Accounted.readEmpty (h : Accounted done posted none (ex :: todo) waiting link)
    (hbody : ex.reply.body = []) :
    ∃ next, link.read = some next ∧ Accounted done (posted ++ [ex]) none todo waiting next := by
  obtain ⟨hat, hin⟩ := h.stream
  rw [List.flatMap_cons] at hin
  obtain ⟨hitem, hresult⟩ := h.next_request
  have hcells := h.heap
  rw [cells_todo] at hcells
  have hmore : (link.client.results ex.item.mResult).hasMoreResult = false :=
    (congrArg _ hresult).trans (MemResult.hasMoreResult_eq_false ex.notStat)
  refine ⟨_, read_of_value_eq_nil hat hitem (ex.value_eq_nil_iff.mpr hbody) hin, ?_⟩
  rw [MemcachedClient.finishRequest_of_hasMoreResult_eq_false hmore, hbody, ex.opaque_eq]
  have hreceived : ex.received = ex.result := if_pos hbody
  exact
    { notifications := h.notifications
      handlers := by simp [headerRead, h.handlers, Exchange.finish, Outstanding.ref]
      table := by simpa [entries, headerRead] using h.table
      heap := by rw [cells_posted, hreceived]; exact hcells
      stream := ⟨⟨rfl, hat.headerLength⟩, rfl⟩ }

/-- The header of a reply with a body starts the body read. -/
theorem Accounted.readHeader (h : Accounted done posted none (ex :: todo) waiting link)
    (hbody : ex.reply.body ≠ []) :
    ∃ next, link.read = some next ∧ Accounted done posted (some ex) todo waiting next := by
  obtain ⟨hat, hin⟩ := h.stream
  rw [List.flatMap_cons] at hin
  obtain ⟨hitem, hresult⟩ := h.next_request
  have hcells := h.heap
  rw [cells_todo] at hcells
  obtain ⟨hfill, hne, hsum⟩ := ex.fill_spec hbody
  have hvalue : ex.reply.value ≠ [] := fun hnil => hbody (ex.value_eq_nil_iff.mp hnil)
  have hfill' : (link.client.results ex.item.mResult).fillReceiveBuffer ex.item.mResult
      ex.reply.status (MemcachedClient.replyValueLen (decodeReply ex.reply.header))
        (decodeReply ex.reply.header).keylen.toNat = (ex.fill.1, true, ex.fill.2.2) := by
    have hresult' : link.client.results ex.item.mResult = ex.result := hresult
    rw [ex.reply.replyValueLen_eq ex.answers.lt, decodeReply_keylen ex.reply.header_length,
      hresult', ← hfill]
    rfl
  refine ⟨_, (read_of_value_ne_nil hat hitem hvalue hfill' hin).2, ?_⟩
  exact
    { notifications := h.notifications
      handlers := h.handlers
      table := by simpa [entries, headerRead] using h.table
      heap := hcells.set_middle ex.fill.1
      stream := ⟨hbody, ⟨by simp [headerRead, hne], hat.headerLength, hsum⟩, rfl, rfl, rfl⟩ }

theorem Accounted.readBody (h : Accounted done posted (some ex) todo waiting link) :
    ∃ next, link.read = some next ∧ Accounted done (posted ++ [ex]) none todo waiting next := by
  obtain ⟨hbody, hat, hbufs, hheader, hin⟩ := h.stream
  obtain ⟨hkey, hwf, hsize⟩ := ex.shape_of_body_ne_nil hbody
  have hcells := h.heap
  rw [cells_reading] at hcells
  have hfilled : link.client.results ex.ref = ex.fill.1 := hcells.eq (ex.ref, ex.fill.1) (by simp)
  have hreceive := MemcachedClient.receive_fill hwf hkey hsize hfilled
  have hreceived : ex.received =
      ex.result.received ex.reply.status ex.reply.extras ex.reply.value := if_neg hbody
  rw [← hreceived] at hreceive
  have hitem : link.client.mRequests ex.reply.requestId = some ex.item := by
    rw [ex.opaque_eq]
    exact h.table.get (by simp [entries, Outstanding.entry])
  refine ⟨_, read_body hat rfl hin, ?_⟩
  have hclient : (link.client.receive link.tcp.mReadBuffers ex.reply.body).onBodayReaded
      link.tcp.mHeaderBuffer =
      { link.client with
        results := Function.update link.client.results ex.ref ex.received
        posted := link.client.posted ++ [ex.finish] } := by
    rw [hbufs, hheader]
    unfold Exchange.fill
    rw [hreceive, MemcachedClient.onBodayReaded_eq (by exact hitem),
      MemcachedClient.finishRequest_of_hasMoreResult_eq_false (by
        simp [Outstanding.ref, ex.hasMoreResult_received]), ex.opaque_eq]
    rfl
  rw [bodyRead, hclient]
  exact
    { notifications := h.notifications
      handlers := by simp [h.handlers]
      table := by simpa [entries] using h.table
      heap := by rw [cells_posted]; exact hcells.set_middle ex.received
      stream := ⟨⟨rfl, hat.headerLength⟩, rfl⟩ }

theorem Accounted.read_eq_none (h : Accounted done posted none [] waiting link) :
    link.read = none := by
  obtain ⟨hat, hin⟩ := h.stream
  have hsize : ¬ sizeofHeader ≤ 0 := by decide
  simp [read, hat.reads, TcpClient.readSize, hat.headerLength, hin, hsize]

theorem Accounted.runPosted (h : Accounted done posted reading todo waiting link) {k : Nat}
    (hk : posted[k]? = some ex) :
    ∃ next, link.runPosted k = some next ∧
      Accounted (done ++ [ex]) (posted.eraseIdx k) reading todo waiting next := by
  obtain ⟨hlt, rfl⟩ := List.getElem?_eq_some_iff.mp hk
  have hperm : posted.Perm (posted[k] :: posted.eraseIdx k) :=
    (List.getElem_cons_eraseIdx_perm hlt).symm
  generalize posted[k] = ex at hk hperm
  have htable : Represents link.client.mRequests
      ((ex.requestId, ex.item) :: entries (posted.eraseIdx k) reading todo waiting) :=
    h.table.perm (((hperm.append_right _).map _).append_right _)
  have hheap : Holds link.client.results
      ((ex.ref, ex.received) :: cells done (posted.eraseIdx k) reading todo waiting) :=
    h.heap.perm ((((hperm.map _).append_left _).trans List.perm_middle).append_right _)
  have hposted : link.client.posted[k]? = some ex.finish := by
    rw [h.handlers, List.getElem?_map, hk]
    rfl
  have hitem : link.client.mRequests ex.requestId = some ex.item := htable.get (by simp)
  have hrun : link.runPosted k = some
      { link with
        client :=
          { link.client with
            posted := link.client.posted.eraseIdx k
            results := Function.update link.client.results ex.ref ex.final
            notified := link.client.notified ++ [ex.notification]
            mRequests := Function.update link.client.mRequests ex.requestId none } } := by
    have href : link.client.results ex.ref = ex.received := hheap.head
    simp only [Link.runPosted, MemcachedClient.runPosted_of_entry hposted hitem rfl]
    simp only [Exchange.finish, href]
    rfl
  have hmove : ((ex.ref, ex.final) :: settled done (posted.eraseIdx k)).Perm
      (settled (done ++ [ex]) (posted.eraseIdx k)) := by
    rw [settled, settled, List.map_append, List.append_assoc]
    exact List.perm_middle.symm
  refine ⟨_, hrun, ?_⟩
  exact
    { notifications := by simp [h.notifications]
      handlers := by simp [h.handlers, List.eraseIdx_map]
      table := htable.erase
      heap := (hheap.set ex.final).perm (hmove.append_right _)
      stream := h.stream.congr (.refl _) rfl }

theorem Accounted.runPosted_eq_none (h : Accounted done posted reading todo waiting link)
    {k : Nat} (hk : posted[k]? = none) : link.runPosted k = none := by
  have hposted : link.client.posted[k]? = none := by simp [h.handlers, hk]
  simp [Link.runPosted, MemcachedClient.runPosted, hposted]

/-- The events that the replies of `posted`, `reading` and `todo` still need. -/
def work (posted : List Exchange) (reading : Option Exchange) (todo : List Exchange) : Nat :=
  posted.length + 2 * reading.toList.length + 3 * todo.length

/-- A read moves one request on, and no request changes its place in the order. -/
theorem Accounted.step_read (h : Accounted done posted reading todo waiting link) {next : Link}
    (hread : link.read = some next) :
    ∃ posted' reading' todo', Accounted done posted' reading' todo' waiting next ∧
      posted' ++ (reading'.toList ++ todo') = posted ++ (reading.toList ++ todo) ∧
      work posted' reading' todo' < work posted reading todo := by
  cases reading with
  | some ex =>
      obtain ⟨next', hread', hacc⟩ := h.readBody
      obtain rfl := Option.some.inj (hread.symm.trans hread')
      exact ⟨posted ++ [ex], none, todo, hacc, by simp, by simp [work]⟩
  | none =>
      cases todo with
      | nil => rw [h.read_eq_none] at hread; cases hread
      | cons ex todo =>
          by_cases hbody : ex.reply.body = []
          · obtain ⟨next', hread', hacc⟩ := h.readEmpty hbody
            obtain rfl := Option.some.inj (hread.symm.trans hread')
            exact ⟨posted ++ [ex], none, todo, hacc, by simp, by simp [work]; omega⟩
          · obtain ⟨next', hread', hacc⟩ := h.readHeader hbody
            obtain rfl := Option.some.inj (hread.symm.trans hread')
            exact ⟨posted, some ex, todo, hacc, by simp, by simp [work]; omega⟩

theorem Accounted.step_runPosted (h : Accounted done posted reading todo waiting link) {k : Nat}
    {next : Link} (hrun : link.runPosted k = some next) :
    ∃ ex, posted[k]? = some ex ∧
      Accounted (done ++ [ex]) (posted.eraseIdx k) reading todo waiting next := by
  cases hk : posted[k]? with
  | none => rw [h.runPosted_eq_none hk] at hrun; cases hrun
  | some ex =>
      obtain ⟨next', hrun', hacc⟩ := h.runPosted hk
      obtain rfl := Option.some.inj (hrun.symm.trans hrun')
      exact ⟨ex, rfl, hacc⟩

/-! ## 4. The outcome of a run -/

/-- The requests of `exchanges`, and no others, are outstanding. -/
structure Awaiting (exchanges : List Exchange) (link : Link) : Prop where
  atHeader : link.AtHeader
  notified : link.client.notified = []
  posted : link.client.posted = []
  table : Represents link.client.mRequests (exchanges.map fun ex => ex.entry)
  heap : Holds link.client.results (exchanges.map fun ex => ex.cell)

def delivering (link : Link) (order : List Exchange) : Link :=
  { link with incoming := order.flatMap fun ex => ex.reply.bytes }

def OwnEvent (_ : Link) : Event → Prop
  | .other _ => False
  | _ => True

structure Quiescent (link : Link) : Prop where
  read : link.read = none
  runPosted : ∀ k, link.runPosted k = none

/-- Every request was notified once, with the status and the bytes of its own
    reply, and none is left in the table. -/
structure Completed (exchanges : List Exchange) (link : Link) : Prop where
  notified : link.client.notified.Perm (exchanges.map Exchange.notification)
  table : link.client.mRequests = fun _ => none
  results : ∀ ex ∈ exchanges, link.client.results ex.ref = ex.final

/-- The requests of `exchanges` are accounted for, and `n` events are left. -/
def Progress (exchanges : List Exchange) (link : Link) (n : Nat) : Prop :=
  ∃ done posted reading todo, Accounted done posted reading todo [] link ∧
    (done ++ (posted ++ (reading.toList ++ todo))).Perm exchanges ∧
    work posted reading todo = n

theorem progress_delivering {exchanges order : List Exchange} (h : link.Awaiting exchanges)
    (hperm : order.Perm exchanges) :
    Progress exchanges (link.delivering order) (3 * exchanges.length) := by
  refine ⟨[], [], none, order, ?_, by simpa using hperm, by simp [work, hperm.length_eq]⟩
  exact
    { notifications := h.notified
      handlers := h.posted
      table := by simpa [entries, delivering] using h.table.perm (hperm.symm.map _)
      heap := by simpa [cells, settled, untouched, delivering] using h.heap.perm (hperm.symm.map _)
      stream := ⟨⟨h.atHeader.reads, h.atHeader.headerLength⟩, rfl⟩ }

theorem progress_step {exchanges : List Exchange} {e : Event} {next : Link} {n : Nat}
    (h : Progress exchanges link n) (hown : link.OwnEvent e) (hstep : link.step e = some next) :
    ∃ m, m < n ∧ Progress exchanges next m := by
  obtain ⟨done, posted, reading, todo, hacc, hperm, rfl⟩ := h
  cases e with
  | read =>
      obtain ⟨posted', reading', todo', hacc', hsame, hlt⟩ := hacc.step_read hstep
      exact ⟨_, hlt, done, posted', reading', todo', hacc', by rwa [hsame], rfl⟩
  | runPosted k =>
      obtain ⟨ex, hk, hacc'⟩ := hacc.step_runPosted hstep
      obtain ⟨hlt, rfl⟩ := List.getElem?_eq_some_iff.mp hk
      have hlen := List.length_eraseIdx_of_lt hlt
      refine ⟨_, ?_, _, _, _, _, hacc', ?_, rfl⟩
      · simp only [work, hlen]
        omega
      · refine List.Perm.trans ?_ hperm
        have hmove := (List.getElem_cons_eraseIdx_perm hlt).append_right (reading.toList ++ todo)
        simpa using hmove.append_left done
  | other client => exact hown.elim

theorem completed_of_quiescent {exchanges : List Exchange} {n : Nat}
    (h : Progress exchanges link n) (hquiet : link.Quiescent) : link.Completed exchanges := by
  obtain ⟨done, posted, reading, todo, hacc, hperm, -⟩ := h
  -- whoever is not notified yet could still move
  cases posted with
  | cons ex posted =>
      obtain ⟨next, hrun, -⟩ := hacc.runPosted (k := 0) rfl
      rw [hquiet.runPosted 0] at hrun
      cases hrun
  | nil =>
      cases reading with
      | some ex =>
          obtain ⟨next, hread, -⟩ := hacc.readBody
          rw [hquiet.read] at hread
          cases hread
      | none =>
          cases todo with
          | cons ex todo =>
              by_cases hbody : ex.reply.body = []
              · obtain ⟨next, hread, -⟩ := hacc.readEmpty hbody
                rw [hquiet.read] at hread
                cases hread
              · obtain ⟨next, hread, -⟩ := hacc.readHeader hbody
                rw [hquiet.read] at hread
                cases hread
          | nil =>
              simp only [Option.toList_none, List.append_nil] at hperm
              exact
                { notified := by rw [hacc.notifications]; exact hperm.map _
                  table := Represents.nil_iff.mp hacc.table
                  results := fun ex hmem => hacc.heap.eq (ex.ref, ex.final) (by
                    simp only [cells, settled, List.mem_append, List.mem_map]
                    exact Or.inl (Or.inl ⟨ex, hperm.mem_iff.mpr hmem, rfl⟩)) }

/-- One order: a run is bounded, and where it cannot go on every request is
    completed. -/
theorem demultiplexing {exchanges order : List Exchange} {es : List Event} {last : Link}
    (hawait : link.Awaiting exchanges) (hperm : order.Perm exchanges)
    (hrun : Run step OwnEvent (link.delivering order) es last) :
    es.length ≤ 3 * exchanges.length ∧ (last.Quiescent → last.Completed exchanges) := by
  obtain ⟨n, hle, hprogress⟩ := hrun.ranked (I := Progress exchanges)
    (fun _ _ _ _ => progress_step) (progress_delivering hawait hperm)
  exact ⟨by omega, completed_of_quiescent hprogress⟩

/-- **Demultiplexing is order independent.**  For any two orders of the replies
    and any interleavings with the posted handlers: the runs are bounded, where
    they end every request has been notified exactly once with its own reply,
    the table is empty, and the results are the same for both orders. -/
theorem demultiplexing_order_independent {exchanges order₁ order₂ : List Exchange}
    {es₁ es₂ : List Event} {last₁ last₂ : Link} (hawait : link.Awaiting exchanges)
    (hperm₁ : order₁.Perm exchanges) (hperm₂ : order₂.Perm exchanges)
    (hrun₁ : Run step OwnEvent (link.delivering order₁) es₁ last₁)
    (hrun₂ : Run step OwnEvent (link.delivering order₂) es₂ last₂) :
    es₁.length ≤ 3 * exchanges.length ∧ es₂.length ≤ 3 * exchanges.length ∧
      (last₁.Quiescent → last₁.Completed exchanges) ∧
      (last₂.Quiescent → last₂.Completed exchanges) ∧
      (last₁.Quiescent → last₂.Quiescent → ∀ ex ∈ exchanges,
        last₁.client.results ex.ref = last₂.client.results ex.ref) := by
  obtain ⟨hle₁, hdone₁⟩ := demultiplexing hawait hperm₁ hrun₁
  obtain ⟨hle₂, hdone₂⟩ := demultiplexing hawait hperm₂ hrun₂
  refine ⟨hle₁, hle₂, hdone₁, hdone₂, ?_⟩
  intro hquiet₁ hquiet₂ ex hmem
  rw [(hdone₁ hquiet₁).results ex hmem, (hdone₂ hquiet₂).results ex hmem]

def getExchange : Exchange where
  requestId := 0
  item := ⟨0, true⟩
  result := .new [107] none (.get none)
  notStat := id
  reply := hitFrame
  opaque_eq := by decide
  answers := ⟨by decide, Or.inr ⟨by decide, by decide, (by decide : hitFrame.extlen = 4),
    by simp [MemResult.new]⟩⟩

/-- A `Delete` that succeeds, under id 1. -/
def deleteExchange : Exchange where
  requestId := 1
  item := ⟨1, true⟩
  result := .new [107] none .mem
  notStat := id
  reply :=
    { header := [0x81, 0x04, 0, 0, 0, 0, 0, 0, 0, 0, 0, 0, 1, 0, 0, 0, 0, 0, 0, 0, 0, 0, 0, 0]
      body := []
      header_length := rfl
      body_length := by decide
      parts_le := by decide }
  opaque_eq := by decide
  answers := ⟨by decide, Or.inl rfl⟩

def twoRequests : Link where
  tcp := .connected sizeofHeader
  client := (MemcachedClient.new.request getExchange.result true).request deleteExchange.result true
  incoming := []
  headers := []

theorem awaiting_twoRequests : twoRequests.Awaiting [getExchange, deleteExchange] where
  atHeader := ⟨rfl, rfl⟩
  notified := rfl
  posted := rfl
  table := by
    have hget := (Represents.nil_iff (m := fun _ : BitVec 32 => none)).mpr rfl |>.insert
      (k := 0) rfl (⟨0, true⟩ : RequestItem)
    exact (hget.insert (k := 1) rfl ⟨1, true⟩).perm (List.Perm.swap _ _ _)
  heap := ⟨by decide, by decide⟩

/-- The replies in both orders; the second run notifies the `Delete` before the
    reply to the `Get` is read. -/
theorem demultiplexing_order_independent_get_delete :
    ∃ last₁ last₂,
      exec step (twoRequests.delivering [getExchange, deleteExchange])
        [.read, .read, .read, .runPosted 1, .runPosted 0] = some last₁ ∧
      exec step (twoRequests.delivering [deleteExchange, getExchange])
        [.read, .runPosted 0, .read, .read, .runPosted 0] = some last₂ ∧
      last₁.Completed [getExchange, deleteExchange] ∧
      last₂.Completed [getExchange, deleteExchange] ∧
      ∀ ex ∈ [getExchange, deleteExchange],
        last₁.client.results ex.ref = last₂.client.results ex.ref := by
  have hown (es : List Event) (hes : ∀ e ∈ es, ∀ client, e ≠ .other client) :
      ∀ e ∈ es, ∀ l : Link, l.OwnEvent e := by
    intro e he l
    cases e with
    | other client => exact absurd rfl (hes _ he client)
    | read => trivial
    | runPosted k => trivial
  have hend (last : Link) (h : last.read.isNone ∧ last.client.posted = []) : last.Quiescent := by
    refine ⟨Option.isNone_iff_eq_none.mp h.1, ?_⟩
    intro k
    simp [Link.runPosted, MemcachedClient.runPosted, h.2]
  have h₁ : ((exec step (twoRequests.delivering [getExchange, deleteExchange])
      [.read, .read, .read, .runPosted 1, .runPosted 0]).any fun l =>
        decide (l.read.isNone ∧ l.client.posted = [])) = true := by decide +kernel
  have h₂ : ((exec step (twoRequests.delivering [deleteExchange, getExchange])
      [.read, .runPosted 0, .read, .read, .runPosted 0]).any fun l =>
        decide (l.read.isNone ∧ l.client.posted = [])) = true := by decide +kernel
  obtain ⟨last₁, hexec₁, hquiet₁⟩ := (Option.any_eq_true _ _).mp h₁
  obtain ⟨last₂, hexec₂, hquiet₂⟩ := (Option.any_eq_true _ _).mp h₂
  obtain ⟨-, -, hdone₁, hdone₂, hsame⟩ := demultiplexing_order_independent awaiting_twoRequests
    (List.Perm.refl _) (List.Perm.swap _ _ _)
    (run_of_exec (hown _ (by simp)) hexec₁) (run_of_exec (hown _ (by simp)) hexec₂)
  have hend₁ := hend last₁ (of_decide_eq_true hquiet₁)
  have hend₂ := hend last₂ (of_decide_eq_true hquiet₂)
  exact ⟨last₁, last₂, hexec₁, hexec₂, hdone₁ hend₁, hdone₂ hend₂, hsame hend₁ hend₂⟩

end Link

end MemClient
