import MemClient.Demultiplexing

/-!
# Get into a caller's buffer

`Get(key, buf)` receives into memory of the caller's size.  `FillReceiveBuffer` takes
the size of that memory for the length of the value, so the reply is received as it
should be only when the two agree.
-/

namespace MemClient

open ByteCodec EventRun

/-- A reply to a `Get`: a value behind four bytes of flags, or a text behind an error
    status; it has no key. -/
structure IsGetReply (frame : ReplyFrame) : Prop where
  keylen : frame.keylen = 0
  extlen : frame.extlen = if frame.status = ERequest_SUCCESS then 4 else 0
  value : frame.value ≠ []

/-- Filling a buffer that is there does not look at the value length. -/
theorem MemResult.fillReceiveBuffer_of_buffer {r : MemResult} {mFlag : Option Bytes}
    (hcls : r.cls = .get mFlag) {buffer : SharedBuffer} (hbuffer : r.mValue = some buffer)
    (self : ResultRef) (status : ERequestStatus) (valueLen valueLen' : Int) (keyLen keyLen' : Nat) :
    r.fillReceiveBuffer self status valueLen keyLen =
      r.fillReceiveBuffer self status valueLen' keyLen' := by
  simp only [fillReceiveBuffer, hcls, baseFillReceiveBuffer, hbuffer]

namespace Link

variable {link : Link} {frame : ReplyFrame} {item : RequestItem} {rest : Bytes} {n : Nat}
  {old mFlag : Option Bytes}

/-- The reply completes the request with the bytes of its own frame, and fills at most
    the `n` bytes of the buffer, which start with the value if it fits. -/
def ReceivedInto (link : Link) (frame : ReplyFrame) (item : RequestItem) (n : Nat)
    (rest : Bytes) : Prop :=
  ∃ next, link.readReply = some next ∧ next.incoming = rest ∧
    next.client.posted =
      link.client.posted ++ [⟨frame.requestId, item.mResult, frame.status⟩] ∧
    ∃ data, (next.client.results item.mResult).mValue = some ⟨n, some data⟩ ∧ data.length ≤ n ∧
      (frame.value.length ≤ n → data.take frame.value.length = frame.value)

theorem bodyRoom_of_buffer {r : MemResult} (hreply : IsGetReply frame) (hcls : r.cls = .get mFlag)
    (hbuffer : r.mValue = some ⟨n, old⟩) :
    r.bodyRoom frame = frame.body.length ↔ n = frame.value.length := by
  have hstat : ¬ r.IsStat := by simp [MemResult.IsStat, hcls]
  have hlen := frame.body_length_eq
  rw [hreply.keylen, hreply.extlen] at hlen
  rw [MemResult.bodyRoom_eq_room hstat hreply.value, hlen]
  simp only [MemResult.room, hcls, MemResult.baseRoom, hbuffer]
  omega

/-- The client after a reply whose value is as long as the buffer. -/
theorem readReply_of_fits (hat : link.AtHeader)
    (hitem : link.client.mRequests frame.requestId = some item)
    (hcls : (link.client.results item.mResult).cls = .get mFlag)
    (hbuffer : (link.client.results item.mResult).mValue = some ⟨frame.value.length, old⟩)
    (hreply : IsGetReply frame) (hin : link.incoming = frame.bytes ++ rest) :
    ∃ next, link.readReply = some next ∧ next.incoming = rest ∧
      next.client = { link.client with
        results := Function.update link.client.results item.mResult
          ((link.client.results item.mResult).received frame.status frame.extras frame.value)
        posted := link.client.posted ++ [⟨frame.requestId, item.mResult, frame.status⟩] } := by
  generalize hresult : link.client.results item.mResult = r at hcls hbuffer ⊢
  have hstat : ¬ r.IsStat := by simp [MemResult.IsStat, hcls]
  have hsame := MemResult.fillReceiveBuffer_of_buffer hcls hbuffer item.mResult frame.status
    (MemcachedClient.replyValueLen (decodeReply frame.header)) frame.value.length
    (decodeReply frame.header).keylen.toNat frame.keylen
  obtain ⟨result, bufs, hfill, hne, hsum⟩ :=
    MemResult.fillReceiveBuffer_spec hstat item.mResult frame.status frame.value.length frame.keylen
  obtain ⟨-, hread⟩ := read_of_value_ne_nil hat hitem hreply.value
    ((congrArg (MemResult.fillReceiveBuffer · _ _ _ _) hresult).trans (hsame.trans hfill)) hin
  generalize hmid : link.headerRead _ _ bufs frame.header (frame.body ++ rest) = mid at hread
  have hbody : mid.AtBody frame.body.length := by
    rw [← hmid]
    refine ⟨by simp [headerRead, hne], hat.headerLength, hsum.trans ?_⟩
    have hroom := (bodyRoom_of_buffer hreply hcls hbuffer).mpr rfl
    rw [MemResult.bodyRoom_eq_room hstat hreply.value] at hroom
    rw [← hroom]
    simp only [MemResult.room, hcls, MemResult.baseRoom, hbuffer]
  have hwf : frame.WellFormedFor r.cls := by
    rw [hcls]
    exact hreply.extlen
  have hsize : ∀ buffer ∈ r.mValue, buffer.size = frame.value.length := by
    rw [hbuffer]
    rintro buffer ⟨⟩
    rfl
  have hclient : mid.client = { link.client with
      results := Function.update link.client.results item.mResult result } := by
    rw [← hmid]
    rfl
  have hself : mid.client.results item.mResult =
      (r.fillReceiveBuffer item.mResult frame.status frame.value.length frame.keylen).1 := by
    rw [hclient, hfill]
    exact Function.update_self _ _ _
  have hreceive := MemcachedClient.receive_fill hwf hreply.keylen hsize hself
  rw [hfill] at hreceive
  refine ⟨mid.bodyRead frame.body rest, ?_, rfl, ?_⟩
  · rw [readReply, hread, Option.bind_some, if_pos hbody.reads]
    refine read_body hbody rfl ?_
    rw [← hmid]
    rfl
  · have hbufs : mid.tcp.mReadBuffers = bufs := by rw [← hmid]; rfl
    have hheader : mid.tcp.mHeaderBuffer = (decodeReply frame.header).toBytes := by
      rw [← hmid]
      rfl
    have hitem' : mid.client.mRequests frame.requestId = some item := by
      rw [hclient]
      exact hitem
    show (mid.client.receive mid.tcp.mReadBuffers frame.body).onBodayReaded
      mid.tcp.mHeaderBuffer = _
    rw [hbufs, hheader, hreceive, MemcachedClient.onBodayReaded_eq (by exact hitem'),
      MemcachedClient.finishRequest_of_hasMoreResult_eq_false
        (by simp [MemResult.hasMoreResult_received hstat]), hclient]
    simp

/-- **Get into a caller's buffer.**  Whatever follows the reply, it is received as it
    should be exactly when the buffer has the length of the value. -/
theorem receivedInto_iff (hat : link.AtHeader)
    (hitem : link.client.mRequests frame.requestId = some item)
    (hcls : (link.client.results item.mResult).cls = .get mFlag)
    (hbuffer : (link.client.results item.mResult).mValue = some ⟨n, old⟩)
    (hreply : IsGetReply frame) (hin : link.incoming = frame.bytes ++ rest) :
    link.ReceivedInto frame item n rest ↔ n = frame.value.length := by
  constructor
  · rintro ⟨next, hread, hrest, -⟩
    have hsum := (readReply_iff_sum hat hin).mp ⟨next, hread, hrest⟩
    rw [MemcachedClient.sum_bufs_of_some hitem] at hsum
    exact (bodyRoom_of_buffer hreply hcls hbuffer).mp hsum
  · rintro rfl
    obtain ⟨next, hread, hrest, hclient⟩ := readReply_of_fits hat hitem hcls hbuffer hreply hin
    refine ⟨next, hread, hrest, by rw [hclient], frame.value, ?_, le_rfl, fun _ => ?_⟩
    · rw [hclient]
      simp only [Function.update_self, MemResult.received, hcls]
      split <;> rfl
    · exact List.take_length

/-- A `Get` into a buffer of `n` bytes is outstanding under id 0. -/
def afterGetInto (n : Nat) (incoming : Bytes) : Link where
  tcp := .connected sizeofHeader
  client := MemcachedClient.new.request (.new [107] (some ⟨n, none⟩) (.get none)) true
  incoming := incoming
  headers := []

theorem receivedInto_one :
    (afterGetInto 1 (hitFrame.bytes ++ [9])).ReceivedInto hitFrame ⟨0, true⟩ 1 [9] := by
  have hreply : IsGetReply hitFrame := ⟨by decide, by decide, by decide⟩
  exact (receivedInto_iff ⟨rfl, rfl⟩ (by decide) rfl rfl hreply rfl).mpr (by decide)

/-- A longer buffer takes a byte of what follows, a shorter one leaves the value there. -/
theorem receivedInto_not_one :
    ((afterGetInto 2 (hitFrame.bytes ++ [9])).readReply.map Link.incoming = some [] ∧
      ¬ (afterGetInto 2 (hitFrame.bytes ++ [9])).ReceivedInto hitFrame ⟨0, true⟩ 2 [9]) ∧
    ((afterGetInto 0 (hitFrame.bytes ++ [9])).readReply.map Link.incoming = some [118, 9] ∧
      ¬ (afterGetInto 0 (hitFrame.bytes ++ [9])).ReceivedInto hitFrame ⟨0, true⟩ 0 [9]) := by
  have hlong : (afterGetInto 2 (hitFrame.bytes ++ [9])).readReply.map Link.incoming = some [] := by
    decide +kernel
  have hshort : (afterGetInto 0 (hitFrame.bytes ++ [9])).readReply.map Link.incoming =
      some [118, 9] := by
    decide +kernel
  refine ⟨⟨hlong, ?_⟩, hshort, ?_⟩
  · rintro ⟨next, hread, hrest, -⟩
    rw [hread, Option.map_some, hrest] at hlong
    cases hlong
  · rintro ⟨next, hread, hrest, -⟩
    rw [hread, Option.map_some, hrest] at hshort
    cases hshort

end Link

end MemClient
