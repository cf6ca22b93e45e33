import MemClient.Demultiplexing

/-!
# Reply headers

What the client makes of any 24 bytes that arrive as a header.  Section 1: the two
conversions of `status` cancel, so the error code of a result is the wire status
with its two bytes exchanged.  Section 2: the value length is computed with 32 bits
and not checked, so some headers ask for more than they announce.
-/

namespace MemClient

open ByteCodec MemcachedClient

/-! ## 1. The status -/

/-- The fields are the values that the wire bytes denote. -/
structure Decoded (response : ResponseHeader) (header : Bytes) : Prop where
  keylen : response.keylen.toNat = beValue (slice header 2 2)
  extlen : response.extlen.toNat = beValue (slice header 4 1)
  status : response.status.toNat = beValue (slice header 6 2)
  bodylen : response.bodylen.toNat = beValue (slice header 8 4)
  opaqueId : leBytes 4 response.opaqueId.toNat = slice header 12 4

/-- A handler posted between the two clients, whenever it runs, shows the callback
    this error code. -/
def Delivers (c c' : MemcachedClient) (status : Nat) : Prop :=
  ∀ handler ∈ c'.posted.drop c.posted.length, ∀ (d : MemcachedClient) k e,
    d.posted[k]? = some handler → d.runPosted k = some (.ok e) →
      (e.results handler.mResult).mErrorCode.toNat = status

/-- Both orders agree on two bytes exactly when the bytes are equal. -/
theorem leValue_eq_beValue_iff {bs : Bytes} {i : Nat} (h : i + 1 < bs.length) :
    leValue (slice bs i 2) = beValue (slice bs i 2) ↔ bs.getD i 0 = bs.getD (i + 1) 0 := by
  have hslice : slice bs i 2 = [bs[i], bs[i + 1]] := by
    unfold slice
    rw [List.drop_eq_getElem_cons (by omega), List.drop_eq_getElem_cons h]
    rfl
  have hfirst : bs.getD i 0 = bs[i] := by
    rw [List.getD_eq_getElem?_getD, List.getElem?_eq_getElem (by omega), Option.getD_some]
  have hsecond : bs.getD (i + 1) 0 = bs[i + 1] := by
    rw [List.getD_eq_getElem?_getD, List.getElem?_eq_getElem h, Option.getD_some]
  rw [hslice, hfirst, hsecond, ← BitVec.toNat_inj]
  simp only [beValue, List.reverse_cons, List.reverse_nil, List.nil_append, List.singleton_append,
    leValue]
  omega

theorem beValue_singleton (b : Byte) : beValue [b] = leValue [b] := rfl

section Status

variable {header : Bytes}

theorem status_eq_iff (hlen : header.length = sizeofHeader) :
    (decodeReply header).status.toNat = beValue (slice header 6 2) ↔
      header.getD 6 0 = header.getD 7 0 := by
  rw [decodeReply_status hlen]
  exact leValue_eq_beValue_iff (by rw [hlen, sizeofHeader]; omega)

/-- Every field but `status` is converted once. -/
theorem decoded_iff (hlen : header.length = sizeofHeader) :
    Decoded (decodeReply header) header ↔ header.getD 6 0 = header.getD 7 0 := by
  rw [← status_eq_iff hlen]
  refine ⟨Decoded.status, fun hstatus => ?_⟩
  have hext : beValue (slice header 4 1) = leValue (slice header 4 1) := by
    unfold slice
    rw [List.drop_eq_getElem_cons (by rw [hlen, sizeofHeader]; omega)]
    exact beValue_singleton _
  have hfour : (slice header 12 4).length = 4 := length_slice (by rw [hlen, sizeofHeader]; omega)
  constructor
  · exact decodeReply_keylen hlen
  · rw [hext]
    exact decodeReply_extlen hlen
  · exact hstatus
  · exact decodeReply_bodylen hlen
  · have hlt := leValue_lt (slice header 12 4)
    rw [hfour] at hlt
    have hraw : (decodeReply header).opaqueId.toNat = leValue (slice header 12 4) :=
      Nat.mod_eq_of_lt hlt
    rw [hraw]
    exact leBytes_leValue_of_length hfour

/-- `OnBodayReaded` uses the header as `OnHeaderReaded` left it. -/
theorem ofBytes_onHeaderReaded (c : MemcachedClient) (header : Bytes) :
    ResponseHeader.ofBytes (c.onHeaderReaded header).2.1 = decodeReply header := by
  rw [← (decodeReply header).ofBytes_toBytes]
  congr 1
  unfold onHeaderReaded
  dsimp only
  split
  · split <;> rfl
  · rfl

theorem delivers_finishRequest {c : MemcachedClient} {requestId : BitVec 32} {item : RequestItem}
    (hitem : c.mRequests requestId = some item)
    (hmore : (c.results item.mResult).hasMoreResult = false) (err : ERequestStatus)
    (status : Nat) :
    Delivers c (c.finishRequest requestId item err) status ↔ err.toNat = status := by
  rw [finishRequest_of_hasMoreResult_eq_false hmore]
  constructor
  · intro h
    have hlast : (c.posted ++ [⟨requestId, item.mResult, err⟩])[c.posted.length]? =
        some ⟨requestId, item.mResult, err⟩ := List.getElem?_concat_length
    have herr := h ⟨requestId, item.mResult, err⟩ (by simp)
      { c with posted := c.posted ++ [⟨requestId, item.mResult, err⟩] } c.posted.length _ hlast
      (runPosted_of_entry hlast hitem rfl)
    simpa [MemResult.notify] using herr
  · rintro rfl handler hmem d k e hk hrun
    obtain rfl : handler = ⟨requestId, item.mResult, err⟩ := by simpa using hmem
    obtain ⟨handler', item', hk', -, -, rfl⟩ := runPosted_eq_ok hrun
    rw [hk] at hk'
    cases hk'
    simp [MemResult.notify]

/-- **Reply header decoding.**  The header is decoded as the wire bytes say, and a
    request that waits for this reply sees its status on either notification route,
    exactly when the two bytes of the status are equal. -/
theorem status_decoded_iff (hlen : header.length = sizeofHeader) :
    (∀ c : MemcachedClient,
      Decoded (decodeReply header) header ∧
          Decoded (ResponseHeader.ofBytes (c.onHeaderReaded header).2.1) header ↔
        header.getD 6 0 = header.getD 7 0) ∧
    ∀ (c : MemcachedClient) (item : RequestItem),
      c.mRequests (decodeReply header).opaqueId = some item →
      (c.results item.mResult).hasMoreResult = false →
      (replyValueLen (decodeReply header) = 0 →
        (Delivers c (c.onHeaderReaded header).1 (beValue (slice header 6 2)) ↔
          header.getD 6 0 = header.getD 7 0)) ∧
      ∀ before : MemcachedClient,
        (Delivers c (c.onBodayReaded (before.onHeaderReaded header).2.1)
            (beValue (slice header 6 2)) ↔
          header.getD 6 0 = header.getD 7 0) := by
  constructor
  · intro c
    rw [ofBytes_onHeaderReaded, and_self, decoded_iff hlen]
  · intro c item hitem hmore
    constructor
    · intro hvalue
      have hheader : (c.onHeaderReaded header).1 =
          c.finishRequest (decodeReply header).opaqueId item (decodeReply header).status := by
        simp only [onHeaderReaded, hitem, hvalue, if_true]
      rw [hheader, delivers_finishRequest hitem hmore, status_eq_iff hlen]
    · intro before
      have hbody : c.onBodayReaded (before.onHeaderReaded header).2.1 =
          c.finishRequest (decodeReply header).opaqueId item (decodeReply header).status := by
        simp only [onBodayReaded, ofBytes_onHeaderReaded, hitem]
      rw [hbody, delivers_finishRequest hitem hmore, status_eq_iff hlen]

end Status

/-- A `Get` is outstanding under id 0. -/
def oneGet : MemcachedClient := MemcachedClient.new.request (.new [107] none (.get none)) true

/-- A reply to it with the given status and no body. -/
def statusHeader (status : Bytes) : Bytes :=
  [0x81, 0, 0, 0, 0, 0] ++ status ++ [0, 0, 0, 0, 0, 0, 0, 0, 0, 0, 0, 0, 0, 0, 0, 0]

theorem status_decoded_success :
    Decoded (decodeReply (statusHeader [0, 0])) (statusHeader [0, 0]) ∧
      Delivers oneGet (oneGet.onHeaderReaded (statusHeader [0, 0])).1 0 := by
  have hlen : (statusHeader [0, 0]).length = sizeofHeader := rfl
  obtain ⟨hdecoded, hdelivers⟩ := status_decoded_iff hlen
  refine ⟨((hdecoded oneGet).mpr rfl).1, ?_⟩
  exact ((hdelivers oneGet ⟨0, true⟩ (by decide) rfl).1 (by decide)).mpr rfl

/-- `KEY_NOT_FOUND` is 1 on the wire and 256 for the callback. -/
theorem key_not_found_exchanged :
    beValue (slice (statusHeader [0, 1]) 6 2) = 1 ∧
      ¬ Decoded (decodeReply (statusHeader [0, 1])) (statusHeader [0, 1]) ∧
      Delivers oneGet (oneGet.onHeaderReaded (statusHeader [0, 1])).1 256 ∧
      ¬ Delivers oneGet (oneGet.onHeaderReaded (statusHeader [0, 1])).1 1 := by
  have hposted : (oneGet.onHeaderReaded (statusHeader [0, 1])).1 =
      oneGet.finishRequest 0 ⟨0, true⟩ 256 := rfl
  have hitem : oneGet.mRequests 0 = some ⟨0, true⟩ := rfl
  refine ⟨by decide, fun h => absurd h.status (by decide), ?_, ?_⟩
  · rw [hposted, delivers_finishRequest hitem rfl]
    rfl
  · rw [hposted, delivers_finishRequest hitem rfl]
    decide

/-! ## 2. The lengths -/

/-- `bodylen - extlen - keylen` as an integer. -/
def valueLength (response : ResponseHeader) : Int :=
  response.bodylen.toNat - response.extlen.toNat - response.keylen.toNat

/-- What `OnHeaderReaded` asks for stays within the announced body.  `supplied` are
    the results that receive into memory of the caller. -/
structure Contained (supplied : ResultRef → Prop) (c : MemcachedClient) (header : Bytes) :
    Prop where
  valueLen : ∀ item, c.mRequests (decodeReply header).opaqueId = some item →
    replyValueLen (decodeReply header) ≠ 0 →
      replyValueLen (decodeReply header) = valueLength (decodeReply header) ∧
        0 ≤ replyValueLen (decodeReply header) ∧
        replyValueLen (decodeReply header) ≤ (decodeReply header).bodylen.toNat
  buffers : ∀ item, c.mRequests (decodeReply header).opaqueId = some item →
    ¬ supplied item.mResult →
      ((c.onHeaderReaded header).2.2.2.map Buffer.size).sum ≤ (decodeReply header).bodylen.toNat
  short : (decodeReply header).bodylen.toNat <
      (decodeReply header).extlen.toNat + (decodeReply header).keylen.toNat →
    (c.onHeaderReaded header).1.results = c.results ∧ (c.onHeaderReaded header).2.2.2 = []

/-- A buffer that an earlier reply allocated, the flags of a hit and the counter are
    received whatever the header announces. -/
def FixedPartsFit (r : MemResult) (response : ResponseHeader) : Prop :=
  match r.cls, r.mValue with
  | .stat _ _, _ => True
  | .inc _, some buffer =>
      if response.status = ERequest_SUCCESS then 8 ≤ response.bodylen.toNat
      else buffer.size ≤ response.bodylen.toNat
  | .inc _, none => response.status = ERequest_SUCCESS → 8 ≤ response.bodylen.toNat
  | .get _, some buffer =>
      (if response.status = ERequest_SUCCESS then 4 else 0) + buffer.size ≤
        response.bodylen.toNat
  | .get _, none =>
      response.status = ERequest_SUCCESS → 4 ≤ response.extlen.toNat + response.keylen.toNat
  | .mem, some buffer => buffer.size ≤ response.bodylen.toNat
  | .mem, none => True

/-- The header announces the parts of its body, a value below `2 ^ 31` bytes, and room
    for what a result without a caller's buffer receives in any case. -/
def Announces (supplied : ResultRef → Prop) (c : MemcachedClient) (response : ResponseHeader) :
    Prop :=
  ∀ item, c.mRequests response.opaqueId = some item →
    response.bodylen.toNat = response.extlen.toNat + response.keylen.toNat ∨
      (response.extlen.toNat + response.keylen.toNat < response.bodylen.toNat ∧
        response.bodylen.toNat <
          response.extlen.toNat + response.keylen.toNat + 2 ^ 31 ∧
        (¬ supplied item.mResult → FixedPartsFit (c.results item.mResult) response))

/-- The unsigned difference, narrowed to an `int`. -/
theorem replyValueLen_eq_ite (response : ResponseHeader) :
    replyValueLen response =
      if valueLength response < 2 ^ 31 then valueLength response
      else valueLength response - 2 ^ 32 := by
  have hext : (response.extlen.setWidth 32).toNat = response.extlen.toNat :=
    BitVec.toNat_setWidth_of_le (by norm_num)
  have hkey : (response.keylen.setWidth 32).toNat = response.keylen.toNat :=
    BitVec.toNat_setWidth_of_le (by norm_num)
  have hextlt := response.extlen.isLt
  have hkeylt := response.keylen.isLt
  have hbody := response.bodylen.isLt
  unfold replyValueLen valueLength
  rw [BitVec.toInt_eq_toNat_cond, BitVec.toNat_sub, BitVec.toNat_sub, hext, hkey]
  split <;> split <;> omega

theorem replyValueLen_eq_zero_iff (response : ResponseHeader) :
    replyValueLen response = 0 ↔
      response.bodylen.toNat = response.extlen.toNat + response.keylen.toNat := by
  have hbody := response.bodylen.isLt
  rw [replyValueLen_eq_ite]
  unfold valueLength
  split <;> omega

/-- The buffers of a reply that announces its parts. -/
theorem sum_fillReceiveBuffer_le_iff {r : MemResult} {response : ResponseHeader}
    (hvalue : replyValueLen response = valueLength response) (hpos : 0 < valueLength response)
    (self : ResultRef) :
    (((r.fillReceiveBuffer self response.status (replyValueLen response)
        response.keylen.toNat).2.2.map Buffer.size).sum ≤ response.bodylen.toNat ↔
      FixedPartsFit r response) := by
  have hbody := response.bodylen.isLt
  have hsize : (sizeOfInt (replyValueLen response) : Int) = valueLength response := by
    rw [hvalue]
    unfold sizeOfInt valueLength at *
    omega
  unfold valueLength at hsize hpos
  by_cases hstat : r.IsStat
  · unfold MemResult.IsStat at hstat
    split at hstat
    · next mStats more hcls =>
        have hne : replyValueLen response ≠ 0 := by
          rw [hvalue]
          unfold valueLength
          omega
        simp only [MemResult.fillReceiveBuffer, FixedPartsFit, hcls, if_neg hne, List.map_cons,
          List.map_nil, List.sum_cons, List.sum_nil, iff_true]
        omega
    · exact hstat.elim
  · obtain ⟨result, bufs, heq, -, hsum⟩ := MemResult.fillReceiveBuffer_spec hstat self
      response.status (replyValueLen response) response.keylen.toNat
    rw [heq, hsum]
    unfold MemResult.room MemResult.baseRoom FixedPartsFit
    cases hcls : r.cls with
    | mem =>
        cases r.mValue with
        | some buffer => exact Iff.rfl
        | none =>
            simp only [iff_true]
            omega
    | get mFlag =>
        cases r.mValue with
        | some buffer => exact Iff.rfl
        | none =>
            by_cases hstatus : response.status = ERequest_SUCCESS
            · simp only [hstatus, if_true, true_imp_iff]
              omega
            · simp only [hstatus, if_false, false_imp_iff, iff_true]
              omega
    | inc mValue =>
        by_cases hstatus : response.status = ERequest_SUCCESS
        · cases r.mValue with
          | some buffer => simp [hstatus]
          | none => simp [hstatus]
        · cases r.mValue with
          | some buffer => simp [hstatus]
          | none =>
              simp only [hstatus, if_false, false_imp_iff, iff_true]
              omega
    | stat mStats more => exact absurd (by simp [MemResult.IsStat, hcls]) hstat

/-- A header that belongs to no outstanding request asks for nothing. -/
theorem contained_of_none (supplied : ResultRef → Prop) {c : MemcachedClient} {header : Bytes}
    (hnone : c.mRequests (decodeReply header).opaqueId = none) : Contained supplied c header := by
  refine ⟨?_, ?_, ?_⟩
  · intro item hitem
    rw [hnone] at hitem
    cases hitem
  · intro item hitem
    rw [hnone] at hitem
    cases hitem
  · intro _
    rw [onHeaderReaded_of_none hnone]
    exact ⟨rfl, rfl⟩

/-- A header without a value finishes the request. -/
theorem contained_of_empty (supplied : ResultRef → Prop) {c : MemcachedClient} {header : Bytes}
    {item : RequestItem} (hitem : c.mRequests (decodeReply header).opaqueId = some item)
    (hempty : replyValueLen (decodeReply header) = 0) : Contained supplied c header := by
  have hread : c.onHeaderReaded header =
      (c.finishRequest (decodeReply header).opaqueId item (decodeReply header).status,
        (decodeReply header).toBytes, false, []) := by
    simp only [onHeaderReaded, hitem, hempty, if_true]
  have hparts := (replyValueLen_eq_zero_iff (decodeReply header)).mp hempty
  refine ⟨fun _ _ hne => absurd hempty hne, ?_, ?_⟩
  · intro _ _ _
    rw [hread]
    exact Nat.zero_le _
  · intro hshort
    omega

/-- The length of a value below `2 ^ 31` bytes is not narrowed. -/
theorem replyValueLen_eq_valueLength {response : ResponseHeader}
    (hlt : response.bodylen.toNat <
      response.extlen.toNat + response.keylen.toNat + 2 ^ 31) :
    replyValueLen response = valueLength response := by
  rw [replyValueLen_eq_ite, if_pos]
  unfold valueLength
  omega

/-- A header with a value asks for buffers. -/
theorem contained_iff_of_value {supplied : ResultRef → Prop} {c : MemcachedClient}
    {header : Bytes} {item : RequestItem}
    (hitem : c.mRequests (decodeReply header).opaqueId = some item)
    (hvalue : replyValueLen (decodeReply header) ≠ 0) :
    Contained supplied c header ↔
      (decodeReply header).extlen.toNat + (decodeReply header).keylen.toNat <
          (decodeReply header).bodylen.toNat ∧
        (decodeReply header).bodylen.toNat <
          (decodeReply header).extlen.toNat + (decodeReply header).keylen.toNat + 2 ^ 31 ∧
        (¬ supplied item.mResult →
          FixedPartsFit (c.results item.mResult) (decodeReply header)) := by
  have hunique : ∀ other, c.mRequests (decodeReply header).opaqueId = some other →
      other = item := by
    intro other hother
    rw [hitem] at hother
    exact (Option.some.inj hother).symm
  have hbufs : (c.onHeaderReaded header).2.2.2 =
      ((c.results item.mResult).fillReceiveBuffer item.mResult (decodeReply header).status
        (replyValueLen (decodeReply header)) (decodeReply header).keylen.toNat).2.2 := by
    simp only [onHeaderReaded, hitem, if_neg hvalue]
  have hne := (MemResult.fillReceiveBuffer_of_ne_zero (c.results item.mResult) hvalue item.mResult
    (decodeReply header).status (decodeReply header).keylen.toNat).2
  have hparts := mt (replyValueLen_eq_zero_iff (decodeReply header)).mpr hvalue
  constructor
  · intro h
    obtain ⟨hexact, hnonneg, -⟩ := h.valueLen item hitem hvalue
    have hlong : ¬ (decodeReply header).bodylen.toNat <
        (decodeReply header).extlen.toNat + (decodeReply header).keylen.toNat := by
      intro hshort
      exact hne (hbufs ▸ (h.short hshort).2)
    have hpos : 0 < valueLength (decodeReply header) := by
      unfold valueLength
      omega
    refine ⟨by omega, ?_, fun hown => ?_⟩
    · have hnarrowed := replyValueLen_eq_ite (decodeReply header)
      rw [hexact] at hnarrowed
      unfold valueLength at hnarrowed
      split at hnarrowed <;> omega
    · have hsum := h.buffers item hitem hown
      rw [hbufs] at hsum
      exact (sum_fillReceiveBuffer_le_iff hexact hpos item.mResult).mp hsum
  · rintro ⟨hlong, hlt, hfit⟩
    have hexact := replyValueLen_eq_valueLength hlt
    have hpos : 0 < valueLength (decodeReply header) := by
      unfold valueLength
      omega
    refine ⟨fun _ _ _ => ⟨hexact, ?_, ?_⟩, ?_, ?_⟩
    · rw [hexact]
      exact hpos.le
    · rw [hexact]
      unfold valueLength
      omega
    · intro other hother hown
      obtain rfl := hunique other hother
      rw [hbufs]
      exact (sum_fillReceiveBuffer_le_iff hexact hpos other.mResult).mpr (hfit hown)
    · intro hshort
      omega

/-- **Malformed headers are contained** exactly when they belong to no outstanding
    request or announce what is received. -/
theorem contained_iff (supplied : ResultRef → Prop) (c : MemcachedClient) (header : Bytes) :
    Contained supplied c header ↔ Announces supplied c (decodeReply header) := by
  unfold Announces
  cases hitem : c.mRequests (decodeReply header).opaqueId with
  | none => exact iff_of_true (contained_of_none supplied hitem) fun _ hsome => by cases hsome
  | some item =>
      have hparts := replyValueLen_eq_zero_iff (decodeReply header)
      by_cases hvalue : replyValueLen (decodeReply header) = 0
      · exact iff_of_true (contained_of_empty supplied hitem hvalue)
          fun _ _ => Or.inl (hparts.mp hvalue)
      · rw [contained_iff_of_value hitem hvalue]
        constructor
        · rintro hannounced other hother
          obtain rfl := Option.some.inj hother
          exact Or.inr hannounced
        · intro h
          exact (h item rfl).resolve_left (mt hparts.mpr hvalue)

/-- An error reply with a key of one byte in an empty body. -/
def shortHeader : Bytes :=
  [0x81, 0, 0, 1, 0, 0, 0, 1, 0, 0, 0, 0, 0, 0, 0, 0, 0, 0, 0, 0, 0, 0, 0, 0]

/-- The value length is -1, and that many bytes are to be received. -/
theorem shortHeader_not_contained :
    replyValueLen (decodeReply shortHeader) = -1 ∧
      (oneGet.onHeaderReaded shortHeader).2.2.2.map Buffer.size = [2 ^ 64 - 1] ∧
      ¬ Contained (fun _ => False) oneGet shortHeader := by
  have hbufs : (oneGet.onHeaderReaded shortHeader).2.2.2.map Buffer.size = [2 ^ 64 - 1] := by
    decide
  refine ⟨by decide, hbufs, fun h => ?_⟩
  have hnone := (h.short (by decide)).2
  rw [hnone] at hbufs
  cases hbufs

end MemClient
