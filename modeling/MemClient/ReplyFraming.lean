import MemClient.Link

/-!
# Reply framing

How many bytes the read loop consumes for one reply.  The body read is sized by
`FillReceiveBuffer`, and the header alone is consumed when the value is empty;
section 2 says exactly for which replies the two together are the whole frame,
and that runs over such replies stay in step with the stream.
-/

namespace MemClient

open ByteCodec EventRun

/-! ## 1. The size of the body read -/

namespace MemResult

def baseRoom (r : MemResult) (valueLen : Int) : Nat :=
  match r.mValue with
  | some buffer => buffer.size
  | none => sizeOfInt valueLen

/-- The bytes a result other than a `MemStatResult` asks for. -/
def room (r : MemResult) (status : ERequestStatus) (valueLen : Int) : Nat :=
  match r.cls with
  | .get _ => (if status = ERequest_SUCCESS then 4 else 0) + r.baseRoom valueLen
  | .inc _ => if status = ERequest_SUCCESS then 8 else r.baseRoom valueLen
  | _ => r.baseRoom valueLen

def IsStat (r : MemResult) : Prop :=
  match r.cls with
  | .stat _ _ => True
  | _ => False

theorem baseFillReceiveBuffer_spec (r : MemResult) (self : ResultRef) (bufs : List Buffer)
    (valueLen : Int) :
    ∃ buf result, r.baseFillReceiveBuffer self bufs valueLen = (result, true, bufs ++ [buf]) ∧
      buf.size = r.baseRoom valueLen := by
  unfold baseFillReceiveBuffer baseRoom
  cases r.mValue with
  | some buffer => exact ⟨_, _, rfl, rfl⟩
  | none => exact ⟨_, _, rfl, rfl⟩

/-- Outside `Stat` a buffer is always given, and the buffers add up to `room`. -/
theorem fillReceiveBuffer_spec {r : MemResult} (hstat : ¬ r.IsStat) (self : ResultRef)
    (status : ERequestStatus) (valueLen : Int) (keyLen : Nat) :
    ∃ result bufs, r.fillReceiveBuffer self status valueLen keyLen = (result, true, bufs) ∧
      bufs ≠ [] ∧ (bufs.map Buffer.size).sum = r.room status valueLen := by
  unfold fillReceiveBuffer room
  cases hcls : r.cls with
  | mem =>
      obtain ⟨buf, result, heq, hsize⟩ := r.baseFillReceiveBuffer_spec self [] valueLen
      exact ⟨result, [buf], heq, by simp, by simpa using hsize⟩
  | get mFlag =>
      by_cases hstatus : status = ERequest_SUCCESS
      · obtain ⟨buf, result, heq, hsize⟩ :=
          r.baseFillReceiveBuffer_spec self [⟨self, .flag, 4⟩] valueLen
        exact ⟨result, _, by simpa [hstatus] using heq, by simp, by simp [hstatus, hsize]⟩
      · obtain ⟨buf, result, heq, hsize⟩ := r.baseFillReceiveBuffer_spec self [] valueLen
        exact ⟨result, [buf], by simpa [hstatus] using heq, by simp, by simp [hstatus, hsize]⟩
  | inc mValue =>
      by_cases hstatus : status = ERequest_SUCCESS
      · exact ⟨r, [⟨self, .counter, 8⟩], by simp [hstatus], by simp, by simp [hstatus]⟩
      · obtain ⟨buf, result, heq, hsize⟩ := r.baseFillReceiveBuffer_spec self [] valueLen
        exact ⟨result, [buf], by simpa [hstatus] using heq, by simp, by simp [hstatus, hsize]⟩
  | stat mStats more => exact absurd (by simp [IsStat, hcls]) hstat

/-- A reply with a value is always received somewhere. -/
theorem fillReceiveBuffer_of_ne_zero (r : MemResult) {valueLen : Int} (hlen : valueLen ≠ 0)
    (self : ResultRef) (status : ERequestStatus) (keyLen : Nat) :
    (r.fillReceiveBuffer self status valueLen keyLen).2.1 = true ∧
      (r.fillReceiveBuffer self status valueLen keyLen).2.2 ≠ [] := by
  by_cases hstat : r.IsStat
  · unfold IsStat at hstat
    split at hstat
    · next hcls => simp [fillReceiveBuffer, hcls, hlen]
    · exact hstat.elim
  · obtain ⟨result, bufs, heq, hne, -⟩ := fillReceiveBuffer_spec hstat self status valueLen keyLen
    rw [heq]
    exact ⟨rfl, hne⟩

end MemResult

namespace MemcachedClient

variable {c : MemcachedClient} {frame : ReplyFrame} {item : RequestItem}

theorem onHeaderReaded_of_value_eq_nil (hitem : c.mRequests frame.requestId = some item)
    (hvalue : frame.value = []) :
    c.onHeaderReaded frame.header =
      (c.finishRequest frame.requestId item frame.status, (decodeReply frame.header).toBytes,
        false, []) := by
  have hlen := frame.replyValueLen_eq_zero hvalue
  simp only [onHeaderReaded, frame.decodeReply_opaqueId_eq, hitem, hlen, if_true]
  rfl

theorem onHeaderReaded_of_value_ne_nil (hitem : c.mRequests frame.requestId = some item)
    (hvalue : frame.value ≠ []) {result : MemResult} {more : Bool} {bufs : List Buffer}
    (hfill : (c.results item.mResult).fillReceiveBuffer item.mResult frame.status
      (replyValueLen (decodeReply frame.header)) (decodeReply frame.header).keylen.toNat =
        (result, more, bufs)) :
    c.onHeaderReaded frame.header =
      ({ c with results := Function.update c.results item.mResult result },
        (decodeReply frame.header).toBytes, more, bufs) := by
  have hlen := frame.replyValueLen_ne_zero hvalue
  simp only [onHeaderReaded, frame.decodeReply_opaqueId_eq, hitem, if_neg hlen,
    frame.decodeReply_status_eq, hfill]

/-- A body is read exactly when there are buffers for it. -/
theorem more_iff_bufs (c : MemcachedClient) (header : Bytes) :
    (c.onHeaderReaded header).2.2.1 = true ↔ (c.onHeaderReaded header).2.2.2 ≠ [] := by
  unfold onHeaderReaded
  dsimp only
  split
  · by_cases hlen : replyValueLen (decodeReply header) = 0
    · simp [hlen]
    · rw [if_neg hlen]
      obtain ⟨hmore, hbufs⟩ := MemResult.fillReceiveBuffer_of_ne_zero _ hlen _ _ _
      exact iff_of_true hmore hbufs
  · simp

end MemcachedClient

/-- The bytes that are read after the header of a reply for this result. -/
def MemResult.bodyRoom (r : MemResult) (frame : ReplyFrame) : Nat :=
  if frame.value = [] then 0
  else
    match r.cls with
    | .stat _ _ =>
        frame.keylen + sizeOfInt (MemcachedClient.replyValueLen (decodeReply frame.header))
    | _ => r.room frame.status (MemcachedClient.replyValueLen (decodeReply frame.header))

theorem MemResult.bodyRoom_eq_room {r : MemResult} {frame : ReplyFrame} (hstat : ¬ r.IsStat)
    (hvalue : frame.value ≠ []) :
    r.bodyRoom frame =
      r.room frame.status (MemcachedClient.replyValueLen (decodeReply frame.header)) := by
  unfold bodyRoom
  rw [if_neg hvalue]
  split
  · next hcls => exact absurd (by simp [IsStat, hcls]) hstat
  · rfl

theorem MemcachedClient.sum_bufs_of_some {c : MemcachedClient} {frame : ReplyFrame}
    {item : RequestItem} (hitem : c.mRequests frame.requestId = some item) :
    ((c.onHeaderReaded frame.header).2.2.2.map Buffer.size).sum =
      (c.results item.mResult).bodyRoom frame := by
  by_cases hvalue : frame.value = []
  · rw [onHeaderReaded_of_value_eq_nil hitem hvalue, MemResult.bodyRoom, if_pos hvalue]
    rfl
  · have hlen := frame.replyValueLen_ne_zero hvalue
    by_cases hstat : (c.results item.mResult).IsStat
    · unfold MemResult.IsStat at hstat
      split at hstat
      · next mStats more hcls =>
          have hkey : (decodeReply frame.header).keylen.toNat = frame.keylen :=
            decodeReply_keylen frame.header_length
          have hbufs : (c.onHeaderReaded frame.header).2.2.2 =
              [⟨item.mResult, .statKey mStats.length, frame.keylen⟩,
                ⟨item.mResult, .statValue mStats.length,
                  sizeOfInt (replyValueLen (decodeReply frame.header))⟩] := by
            simp [onHeaderReaded, frame.decodeReply_opaqueId_eq, hitem, hlen,
              MemResult.fillReceiveBuffer, hcls, hkey]
          rw [hbufs, MemResult.bodyRoom, if_neg hvalue, hcls]
          simp
      · exact hstat.elim
    · obtain ⟨result, bufs, heq, -, hsum⟩ := MemResult.fillReceiveBuffer_spec hstat item.mResult
        frame.status (replyValueLen (decodeReply frame.header))
        (decodeReply frame.header).keylen.toNat
      rw [onHeaderReaded_of_value_ne_nil hitem hvalue heq, hsum,
        MemResult.bodyRoom_eq_room hstat hvalue]

theorem MemcachedClient.onHeaderReaded_of_none {c : MemcachedClient} {header : Bytes}
    (hnone : c.mRequests (decodeReply header).opaqueId = none) :
    c.onHeaderReaded header = (c, (decodeReply header).toBytes, false, []) := by
  simp only [onHeaderReaded, hnone]

/-! ## 2. Replies that are consumed whole -/

namespace ReplyFrame

/-- The extras and the value length that the protocol gives to a reply for a
    result of this class. -/
def WellFormedFor (frame : ReplyFrame) : ResultClass → Prop
  | .mem => frame.extlen = 0
  | .get _ => frame.extlen = if frame.status = ERequest_SUCCESS then 4 else 0
  | .inc _ => frame.extlen = 0 ∧ (frame.status = ERequest_SUCCESS → frame.value.length = 8)
  | .stat _ _ => False

/-- A reply with an empty value has an empty body; otherwise it has no key, or
    exactly fills a buffer that an earlier reply to the request has allocated. -/
def FitsBuffers (frame : ReplyFrame) (result : MemResult) : Prop :=
  if frame.value = [] then frame.body = []
  else
    match result.cls, result.mValue with
    | .inc _, some buffer =>
        if frame.status = ERequest_SUCCESS then frame.keylen = 0
        else buffer.size = frame.keylen + frame.value.length
    | _, some buffer => buffer.size = frame.keylen + frame.value.length
    | _, none => frame.keylen = 0

theorem not_isStat {frame : ReplyFrame} {result : MemResult}
    (hwf : frame.WellFormedFor result.cls) : ¬ result.IsStat := by
  intro hstat
  unfold MemResult.IsStat at hstat
  split at hstat
  · next hcls => rw [hcls] at hwf; exact hwf
  · exact hstat

theorem fitsBuffers_iff_room {frame : ReplyFrame} {result : MemResult}
    (hwf : frame.WellFormedFor result.cls) (hlt : frame.body.length < 2 ^ 31)
    (hvalue : frame.value ≠ []) :
    frame.FitsBuffers result ↔
      result.room frame.status frame.value.length = frame.body.length := by
  have hbody := frame.body_length_eq
  have hsize : sizeOfInt frame.value.length = frame.value.length :=
    sizeOfInt_natCast (by omega)
  unfold FitsBuffers MemResult.room MemResult.baseRoom
  rw [if_neg hvalue]
  cases hcls : result.cls with
  | mem =>
      rw [hcls] at hwf
      simp only [WellFormedFor] at hwf
      cases result.mValue with
      | some buffer => simp only; omega
      | none => simp only [hsize]; omega
  | get mFlag =>
      rw [hcls] at hwf
      simp only [WellFormedFor] at hwf
      cases result.mValue with
      | some buffer => simp only; omega
      | none => simp only [hsize]; omega
  | inc mValue =>
      rw [hcls] at hwf
      obtain ⟨hext, height⟩ := hwf
      by_cases hstatus : frame.status = ERequest_SUCCESS
      · have hlen := height hstatus
        cases result.mValue with
        | some buffer => simp only [if_pos hstatus]; omega
        | none => simp only [if_pos hstatus]; omega
      · cases result.mValue with
        | some buffer => simp only [if_neg hstatus]; omega
        | none => simp only [if_neg hstatus, hsize]; omega
  | stat mStats more =>
      rw [hcls] at hwf
      exact hwf.elim

end ReplyFrame

namespace Link

/-- The reads one header starts: the header, then the body if one was asked for. -/
def readReply (link : Link) : Option Link :=
  link.read.bind fun next => if next.tcp.reads = [.body] then next.read else some next

variable {link : Link} {frame : ReplyFrame} {item : RequestItem} {rest : Bytes}

theorem read_of_value_eq_nil (hat : link.AtHeader)
    (hitem : link.client.mRequests frame.requestId = some item) (hvalue : frame.value = [])
    (hin : link.incoming = frame.bytes ++ rest) :
    link.read = some (link.headerRead (link.client.finishRequest frame.requestId item frame.status)
      (decodeReply frame.header).toBytes [] frame.header (frame.body ++ rest)) :=
  read_header hat frame.header_length (by rw [hin, ReplyFrame.bytes, List.append_assoc])
    (MemcachedClient.onHeaderReaded_of_value_eq_nil hitem hvalue) (by simp)

theorem read_of_value_ne_nil (hat : link.AtHeader)
    (hitem : link.client.mRequests frame.requestId = some item) (hvalue : frame.value ≠ [])
    {result : MemResult} {more : Bool} {bufs : List Buffer}
    (hfill : (link.client.results item.mResult).fillReceiveBuffer item.mResult frame.status
      (MemcachedClient.replyValueLen (decodeReply frame.header))
        (decodeReply frame.header).keylen.toNat = (result, more, bufs))
    (hin : link.incoming = frame.bytes ++ rest) :
    bufs ≠ [] ∧ link.read = some (link.headerRead
      { link.client with results := Function.update link.client.results item.mResult result }
      (decodeReply frame.header).toBytes bufs frame.header (frame.body ++ rest)) := by
  have hlen := frame.replyValueLen_ne_zero hvalue
  obtain ⟨hmore, hbufs⟩ : more = true ∧ bufs ≠ [] := by
    have h := MemResult.fillReceiveBuffer_of_ne_zero (link.client.results item.mResult) hlen
      item.mResult frame.status (decodeReply frame.header).keylen.toNat
    rwa [hfill] at h
  exact ⟨hbufs, read_header hat frame.header_length
    (by rw [hin, ReplyFrame.bytes, List.append_assoc])
    (MemcachedClient.onHeaderReaded_of_value_ne_nil hitem hvalue hfill) (iff_of_true hmore hbufs)⟩

theorem eq_bodyRead_of_read {size : Nat} {next : Link} (hat : link.AtBody size)
    (hread : link.read = some next) :
    next = link.bodyRead (link.incoming.take size) (link.incoming.drop size) := by
  by_cases hle : size ≤ link.incoming.length
  · have hdata : (link.incoming.take size).length = size := by
      rw [List.length_take]
      omega
    rw [read_body hat hdata (List.take_append_drop size link.incoming).symm] at hread
    exact (Option.some.inj hread).symm
  · rw [read_body_none hat (by omega)] at hread
    cases hread

/-- The client once a reply with a value has been read: the buffers of the result hold what
    came behind the header. -/
theorem client_of_readReply (hat : link.AtHeader)
    (hitem : link.client.mRequests frame.requestId = some item) (hvalue : frame.value ≠ [])
    {result : MemResult} {more : Bool} {bufs : List Buffer}
    (hfill : (link.client.results item.mResult).fillReceiveBuffer item.mResult frame.status
      (MemcachedClient.replyValueLen (decodeReply frame.header))
        (decodeReply frame.header).keylen.toNat = (result, more, bufs))
    (hin : link.incoming = frame.bytes ++ rest) {next : Link}
    (hreply : link.readReply = some next) :
    next.client =
      (({ link.client with
        results := Function.update link.client.results item.mResult result } :
          MemcachedClient).receive bufs
            ((frame.body ++ rest).take (bufs.map Buffer.size).sum)).onBodayReaded
              (decodeReply frame.header).toBytes := by
  obtain ⟨hbufs, hread⟩ := read_of_value_ne_nil hat hitem hvalue hfill hin
  generalize hfirst : headerRead link _ _ bufs _ _ = first at hread
  have hreads : first.tcp.reads = [.body] := by
    rw [← hfirst]
    simp [headerRead, hbufs]
  rw [readReply, hread, Option.bind_some, if_pos hreads] at hreply
  have hbody : first.AtBody (bufs.map Buffer.size).sum :=
    ⟨hreads, by rw [← hfirst]; exact hat.headerLength, by rw [← hfirst]; rfl⟩
  rw [eq_bodyRead_of_read hbody hreply, ← hfirst]
  rfl

/-- The link after the header `data`, whatever it says. -/
def afterHeader (link : Link) (data rest : Bytes) : Link :=
  link.headerRead (link.client.onHeaderReaded data).1 (link.client.onHeaderReaded data).2.1
    (link.client.onHeaderReaded data).2.2.2 data rest

theorem read_afterHeader (hat : link.AtHeader) {data : Bytes} (hdata : data.length = sizeofHeader)
    (hin : link.incoming = data ++ rest) : link.read = some (link.afterHeader data rest) :=
  read_header hat hdata hin rfl (MemcachedClient.more_iff_bufs _ _)

theorem read_frame (hat : link.AtHeader) (hin : link.incoming = frame.bytes ++ rest) :
    link.read = some (link.afterHeader frame.header (frame.body ++ rest)) :=
  read_afterHeader hat frame.header_length (by rw [hin, ReplyFrame.bytes, List.append_assoc])

/-- A body follows exactly when the header asks for buffers. -/
theorem afterHeader_cases (hat : link.AtHeader) (data rest : Bytes) :
    ((link.client.onHeaderReaded data).2.2.2 = [] ∧ (link.afterHeader data rest).AtHeader) ∨
      (link.afterHeader data rest).AtBody
        ((link.client.onHeaderReaded data).2.2.2.map Buffer.size).sum := by
  by_cases hbufs : (link.client.onHeaderReaded data).2.2.2 = []
  · exact Or.inl ⟨hbufs, by simp [afterHeader, headerRead, hbufs], hat.headerLength⟩
  · exact Or.inr ⟨by simp [afterHeader, headerRead, hbufs], hat.headerLength, rfl⟩

/-- A reply is consumed whole exactly when the buffers it asks for are as long as its
    body. -/
theorem readReply_iff_sum (hat : link.AtHeader) (hin : link.incoming = frame.bytes ++ rest) :
    (∃ next, link.readReply = some next ∧ next.incoming = rest) ↔
      ((link.client.onHeaderReaded frame.header).2.2.2.map Buffer.size).sum =
        frame.body.length := by
  have hread := read_frame hat hin
  have hmid : (link.afterHeader frame.header (frame.body ++ rest)).incoming =
    frame.body ++ rest := rfl
  rcases afterHeader_cases hat frame.header (frame.body ++ rest) with ⟨hnil, hat'⟩ | hbody
  · have hreply : link.readReply = some (link.afterHeader frame.header (frame.body ++ rest)) := by
      rw [readReply, hread, Option.bind_some, if_neg]
      rw [hat'.reads]
      decide
    rw [hreply, hnil, List.map_nil, List.sum_nil]
    constructor
    · rintro ⟨next, hnext, hrest⟩
      cases hnext
      have hlen := congrArg List.length hrest
      rw [hmid, List.length_append] at hlen
      omega
    · intro hlength
      refine ⟨_, rfl, ?_⟩
      rw [hmid, List.eq_nil_of_length_eq_zero hlength.symm, List.nil_append]
  · have hreply : link.readReply =
        (link.afterHeader frame.header (frame.body ++ rest)).read := by
      rw [readReply, hread, Option.bind_some, if_pos hbody.reads]
    rw [hreply]
    generalize ((link.client.onHeaderReaded frame.header).2.2.2.map Buffer.size).sum = room
      at hbody ⊢
    generalize link.afterHeader frame.header (frame.body ++ rest) = mid at hbody hmid ⊢
    constructor
    · rintro ⟨next, hnext, hrest⟩
      -- the body read took `room` bytes, so `rest` is what follows them
      by_cases hle : room ≤ mid.incoming.length
      · have hdata : (mid.incoming.take room).length = room := by
          rw [List.length_take]
          omega
        rw [read_body hbody hdata (List.take_append_drop room mid.incoming).symm] at hnext
        obtain rfl := Option.some.inj hnext
        have hlen := congrArg List.length hrest
        simp only [bodyRead, List.length_drop, hmid, List.length_append] at hlen hle
        omega
      · rw [read_body_none hbody (by omega)] at hnext
        cases hnext
    · intro heq
      exact ⟨_, read_body hbody heq.symm hmid, rfl⟩

theorem readReply_iff (hat : link.AtHeader)
    (hitem : link.client.mRequests frame.requestId = some item)
    (hlt : frame.body.length < 2 ^ 31)
    (hwf : frame.WellFormedFor (link.client.results item.mResult).cls)
    (hin : link.incoming = frame.bytes ++ rest) :
    (∃ next, link.readReply = some next ∧ next.incoming = rest) ↔
      frame.FitsBuffers (link.client.results item.mResult) := by
  rw [readReply_iff_sum hat hin, MemcachedClient.sum_bufs_of_some hitem]
  by_cases hvalue : frame.value = []
  · rw [MemResult.bodyRoom, if_pos hvalue, ReplyFrame.FitsBuffers, if_pos hvalue, eq_comm,
      List.length_eq_zero_iff]
  · rw [MemResult.bodyRoom_eq_room (ReplyFrame.not_isStat hwf) hvalue, frame.replyValueLen_eq hlt,
      ReplyFrame.fitsBuffers_iff_room hwf hlt hvalue]

/-! ## 3. Runs over a stream of replies -/

/-- The reply at the head of the stream, when its header is about to be read,
    answers an outstanding request, is well formed and fits. -/
def NextFits (link : Link) : Event → Prop
  | .read =>
      link.tcp.reads = [.header] → ∀ (frame : ReplyFrame) (rest : Bytes),
        link.incoming = frame.bytes ++ rest →
        ∃ item, link.client.mRequests frame.requestId = some item ∧
          frame.body.length < 2 ^ 31 ∧
          frame.WellFormedFor (link.client.results item.mResult).cls ∧
          frame.FitsBuffers (link.client.results item.mResult)
  | _ => True

/-- The link is in step with the stream: it has read the headers of `done`, and
    what is delivered next is the rest of the last of them, then `todo`. -/
inductive InStep (before : List Bytes) (done todo : List ReplyFrame) (link : Link) : Prop where
  | header (hat : link.AtHeader)
      (hheaders : link.headers = before ++ done.map ReplyFrame.header)
      (hin : link.incoming = todo.flatMap ReplyFrame.bytes)
  | body (frame : ReplyFrame) (hat : link.AtBody frame.body.length)
      (hheaders : link.headers = before ++ done.map ReplyFrame.header)
      (hin : link.incoming = frame.body ++ todo.flatMap ReplyFrame.bytes)

theorem InStep.withClient {before : List Bytes} {done todo : List ReplyFrame}
    (h : InStep before done todo link) (client : MemcachedClient) :
    InStep before done todo { link with client := client } := by
  cases h with
  | header hat hheaders hin => exact .header ⟨hat.reads, hat.headerLength⟩ hheaders hin
  | body frame hat hheaders hin =>
      exact .body frame ⟨hat.reads, hat.headerLength, hat.size⟩ hheaders hin

theorem InStep.atHeader {before : List Bytes} {done todo : List ReplyFrame}
    (h : InStep before done todo link) (hreads : link.tcp.reads = [.header]) : link.AtHeader := by
  cases h with
  | header hat hheaders hin => exact hat
  | body frame hat hheaders hin =>
      rw [hat.reads] at hreads
      cases hreads

/-- A read of a link in step with the stream reads the next header or the rest of the
    last reply. -/
theorem InStep.read_cases {before : List Bytes} {done todo : List ReplyFrame} {next : Link}
    (h : InStep before done todo link)
    (hwhole : link.tcp.reads = [.header] → ∀ (frame : ReplyFrame) (rest : Bytes),
      link.incoming = frame.bytes ++ rest →
        ((link.client.onHeaderReaded frame.header).2.2.2.map Buffer.size).sum =
          frame.body.length)
    (hread : link.read = some next) :
    (∃ frame todo', todo = frame :: todo' ∧ link.AtHeader ∧
      link.incoming = frame.bytes ++ todo'.flatMap ReplyFrame.bytes ∧
      next = link.afterHeader frame.header (frame.body ++ todo'.flatMap ReplyFrame.bytes) ∧
      InStep before (done ++ [frame]) todo' next) ∨
    (∃ frame : ReplyFrame, link.AtBody frame.body.length ∧
      link.incoming = frame.body ++ todo.flatMap ReplyFrame.bytes ∧
      next = link.bodyRead frame.body (todo.flatMap ReplyFrame.bytes) ∧
      InStep before done todo next) := by
  cases h with
  | header hat hheaders hin =>
      left
      cases todo with
      | nil =>
          -- no byte is left, so no header can be read
          have hsize : ¬ sizeofHeader ≤ 0 := by decide
          simp [read, hat.reads, TcpClient.readSize, hat.headerLength, hin, hsize] at hread
      | cons frame todo =>
          rw [List.flatMap_cons] at hin
          have hsum := hwhole hat.reads frame _ hin
          rw [read_frame hat hin] at hread
          obtain rfl := Option.some.inj hread
          refine ⟨frame, todo, rfl, hat, hin, rfl, ?_⟩
          have hheaders' : (link.afterHeader frame.header
              (frame.body ++ todo.flatMap ReplyFrame.bytes)).headers =
                before ++ (done ++ [frame]).map ReplyFrame.header := by
            simp [afterHeader, headerRead, hheaders]
          rcases afterHeader_cases hat frame.header
            (frame.body ++ todo.flatMap ReplyFrame.bytes) with ⟨hnil, hat'⟩ | hbody
          · rw [hnil, List.map_nil, List.sum_nil] at hsum
            refine .header hat' hheaders' ?_
            show frame.body ++ _ = _
            rw [List.eq_nil_of_length_eq_zero hsum.symm, List.nil_append]
          · rw [hsum] at hbody
            exact .body frame hbody hheaders' rfl
  | body frame hat hheaders hin =>
      right
      rw [read_body hat rfl hin] at hread
      obtain rfl := Option.some.inj hread
      exact ⟨frame, hat, hin, rfl, .header ⟨rfl, hat.headerLength⟩ hheaders rfl⟩

theorem inStep_read {before : List Bytes} {done todo : List ReplyFrame} {next : Link}
    (h : InStep before done todo link) (hguard : link.NextFits .read)
    (hread : link.read = some next) :
    ∃ done' todo', done ++ todo = done' ++ todo' ∧ InStep before done' todo' next := by
  have hwhole : link.tcp.reads = [.header] → ∀ (frame : ReplyFrame) (rest : Bytes),
      link.incoming = frame.bytes ++ rest →
        ((link.client.onHeaderReaded frame.header).2.2.2.map Buffer.size).sum =
          frame.body.length := by
    intro hreads frame rest hin
    obtain ⟨item, hitem, hlt, hwf, hfits⟩ := hguard hreads frame rest hin
    have hat := h.atHeader hreads
    exact (readReply_iff_sum hat hin).mp ((readReply_iff hat hitem hlt hwf hin).mpr hfits)
  rcases h.read_cases hwhole hread with ⟨frame, todo', rfl, -, -, -, hnext⟩ | ⟨_, -, -, -, hnext⟩
  · exact ⟨done ++ [frame], todo', by simp, hnext⟩
  · exact ⟨done, todo, rfl, hnext⟩

theorem inStep_step {before : List Bytes} {frames : List ReplyFrame} {e : Event} {next : Link}
    (h : ∃ done todo, frames = done ++ todo ∧ InStep before done todo link)
    (hguard : link.NextFits e) (hstep : link.step e = some next) :
    ∃ done todo, frames = done ++ todo ∧ InStep before done todo next := by
  obtain ⟨done, todo, rfl, h⟩ := h
  cases e with
  | read => exact inStep_read h hguard hstep
  | runPosted k =>
      simp only [step, runPosted] at hstep
      split at hstep
      · next client _ =>
          obtain rfl := Option.some.inj hstep
          exact ⟨done, todo, rfl, h.withClient client⟩
      · cases hstep
  | other client =>
      obtain rfl := Option.some.inj hstep
      exact ⟨done, todo, rfl, h.withClient client⟩

/-- **Reply framing.**  A well-formed reply to an outstanding request is
    consumed whole exactly when it fits; and in every run whose replies all fit,
    with the client changing in any way in between, the headers read are those
    of the frames delivered, in order. -/
theorem reply_framing (hat : link.AtHeader) :
    (∀ (frame : ReplyFrame) (item : RequestItem) (rest : Bytes),
      link.client.mRequests frame.requestId = some item → frame.body.length < 2 ^ 31 →
      frame.WellFormedFor (link.client.results item.mResult).cls →
      link.incoming = frame.bytes ++ rest →
      ((∃ next, link.readReply = some next ∧ next.incoming = rest) ↔
        frame.FitsBuffers (link.client.results item.mResult))) ∧
    (∀ (frames : List ReplyFrame) (es : List Event) (next : Link),
      link.incoming = frames.flatMap ReplyFrame.bytes → Run step NextFits link es next →
      ∃ done todo, frames = done ++ todo ∧
        next.headers = link.headers ++ done.map ReplyFrame.header ∧
        (next.tcp.reads = [.header] → next.incoming = todo.flatMap ReplyFrame.bytes)) := by
  refine ⟨fun frame item rest hitem hlt hwf hin => readReply_iff hat hitem hlt hwf hin,
    fun frames es next hin hrun => ?_⟩
  have hinv := hrun.invariant
    (I := fun l => ∃ done todo, frames = done ++ todo ∧ InStep link.headers done todo l)
    (fun _ _ _ => inStep_step) ⟨[], frames, rfl, .header hat (by simp) hin⟩
  rcases hinv with ⟨done, todo, hframes, hin' | ⟨frame, hbody, hheaders, -⟩⟩
  · next hheaders hrest => exact ⟨done, todo, hframes, hheaders, fun _ => hrest⟩
  · exact ⟨done, todo, hframes, hheaders, fun hreads => by rw [hbody.reads] at hreads; cases hreads⟩

/-- A `Get` is outstanding under id 0, and `incoming` is on its way. -/
def afterGet (incoming : Bytes) : Link where
  tcp := .connected sizeofHeader
  client := MemcachedClient.new.request (.new [107] none (.get none)) true
  incoming := incoming
  headers := []

theorem atHeader_afterGet (incoming : Bytes) : (afterGet incoming).AtHeader := ⟨rfl, rfl⟩

def hitFrame : ReplyFrame where
  header := [0x81, 0x09, 0, 0, 4, 0, 0, 0, 0, 0, 0, 5, 0, 0, 0, 0, 0, 0, 0, 0, 0, 0, 0, 1]
  body := [0, 0, 0, 0, 118]
  header_length := rfl
  body_length := by decide
  parts_le := by decide

theorem reply_framing_hit :
    ((∃ next, (afterGet hitFrame.bytes).readReply = some next ∧ next.incoming = []) ↔
      hitFrame.FitsBuffers (.new [107] none (.get none))) ∧
    ∃ next, step (afterGet hitFrame.bytes) .read = some next ∧
      ∃ done todo, [hitFrame] = done ++ todo ∧
        next.headers = [] ++ done.map ReplyFrame.header ∧
        (next.tcp.reads = [.header] → next.incoming = todo.flatMap ReplyFrame.bytes) := by
  have hitem : (afterGet hitFrame.bytes).client.mRequests hitFrame.requestId = some ⟨0, true⟩ := by
    decide
  have hwf : hitFrame.WellFormedFor (.get none) := by
    unfold ReplyFrame.WellFormedFor
    decide
  have hfits : hitFrame.FitsBuffers (.new [107] none (.get none)) := by
    rw [ReplyFrame.FitsBuffers, if_neg (by decide)]
    exact (by decide : hitFrame.keylen = 0)
  have hguard : NextFits (afterGet hitFrame.bytes) .read := by
    intro _ frame rest hin
    obtain ⟨rfl, -⟩ := ReplyFrame.bytes_append_inj ((List.append_nil _).trans hin)
    exact ⟨⟨0, true⟩, hitem, by decide, hwf, hfits⟩
  have hin : (afterGet hitFrame.bytes).incoming = hitFrame.bytes ++ [] :=
    (List.append_nil _).symm
  have hread := read_frame (atHeader_afterGet _) hin
  obtain ⟨hone, hrun⟩ := reply_framing (atHeader_afterGet hitFrame.bytes)
  exact ⟨hone hitFrame ⟨0, true⟩ [] hitem (by decide) hwf hin,
    _, hread, hrun [hitFrame] [.read] _ (by simp [afterGet]) (.cons hguard hread (.nil _))⟩

/-- A hit on a key whose value is empty: four bytes of flags are the whole body. -/
def emptyHitFrame : ReplyFrame where
  header := [0x81, 0x09, 0, 0, 4, 0, 0, 0, 0, 0, 0, 4, 0, 0, 0, 0, 0, 0, 0, 0, 0, 0, 0, 1]
  body := [0, 0, 0, 0]
  header_length := rfl
  body_length := by decide
  parts_le := by decide

/-- The flags of an empty value stay in the stream. -/
theorem empty_hit_not_consumed :
    ¬ ∀ (link : Link) (frame : ReplyFrame) (item : RequestItem) (rest : Bytes),
      link.AtHeader → link.client.mRequests frame.requestId = some item →
      (link.client.results item.mResult).mValue = none → frame.body.length < 2 ^ 31 →
      frame.WellFormedFor (link.client.results item.mResult).cls →
      link.incoming = frame.bytes ++ rest →
      ∃ next, link.readReply = some next ∧ next.incoming = rest := by
  intro h
  have hwf : emptyHitFrame.WellFormedFor (.get none) := by
    unfold ReplyFrame.WellFormedFor
    decide
  have hitem : (afterGet emptyHitFrame.bytes).client.mRequests emptyHitFrame.requestId =
      some ⟨0, true⟩ := by decide
  have hnot : ¬ emptyHitFrame.FitsBuffers (.new [107] none (.get none)) := by
    rw [ReplyFrame.FitsBuffers, if_pos (by decide)]
    decide
  have hin : (afterGet emptyHitFrame.bytes).incoming = emptyHitFrame.bytes ++ [] :=
    (List.append_nil _).symm
  have hread := h _ emptyHitFrame ⟨0, true⟩ [] (atHeader_afterGet _) hitem rfl (by decide) hwf hin
  exact hnot ((readReply_iff (atHeader_afterGet _) hitem (by decide) hwf hin).mp hread)

end Link

end MemClient
