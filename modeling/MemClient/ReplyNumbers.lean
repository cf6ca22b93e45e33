import MemClient.StatReplies

/-!
# Numbers in replies

The flags of a `Get` reply and the counter of an `Increment` or `Decrement` reply travel in
network order and are received straight into `mFlag` and `mValue`.  Requests convert their
numbers; nothing converts these.  So the host reads the bytes in its own order, and the
number is the server's only when the bytes are the same both ways.
-/

namespace MemClient

open ByteCodec

/-! ## 1. The accessors -/

namespace MemResult

/-- `MemGetResult::Flag` on a little-endian host; `none` while the field is uninitialised. -/
def flag (r : MemResult) : Option (BitVec 32) :=
  match r.cls with
  | .get mFlag => mFlag.map fun bytes => BitVec.ofNat 32 (leValue bytes)
  | _ => none

/-- `MemIncResult::Value` on a little-endian host. -/
def incValue (r : MemResult) : Option (BitVec 64) :=
  match r.cls with
  | .inc mValue => mValue.map fun bytes => BitVec.ofNat 64 (leValue bytes)
  | _ => none

/-- A successful `Get` reply is received into the flags, then into the value. -/
theorem fillReceiveBuffer_get {r : MemResult} {mFlag : Option Bytes} (hcls : r.cls = .get mFlag)
    (self : ResultRef) (valueLen : Int) (keyLen : Nat) :
    ∃ filled size, r.fillReceiveBuffer self ERequest_SUCCESS valueLen keyLen =
        (filled, true, [⟨self, .flag, 4⟩, ⟨self, .value, size⟩]) ∧ filled.cls = .get mFlag := by
  simp only [fillReceiveBuffer, hcls, if_true, baseFillReceiveBuffer]
  cases r.mValue with
  | none => exact ⟨_, _, rfl, rfl⟩
  | some buffer => exact ⟨_, _, rfl, hcls⟩

theorem fillReceiveBuffer_inc {r : MemResult} {mValue : Option Bytes} (hcls : r.cls = .inc mValue)
    (self : ResultRef) (valueLen : Int) (keyLen : Nat) :
    r.fillReceiveBuffer self ERequest_SUCCESS valueLen keyLen =
      (r, true, [⟨self, .counter, 8⟩]) := by
  simp only [fillReceiveBuffer, hcls, if_true]

end MemResult

/-- A number sent in network order is read back by the host exactly when its bytes are a
    palindrome. -/
theorem ofNat_leValue_beBytes_eq_iff {n w : Nat} (hw : 2 ^ w = 256 ^ n) (x : BitVec w) :
    BitVec.ofNat w (leValue (beBytes n x.toNat)) = x ↔ (leBytes n x.toNat).Palindrome := by
  have hlt := leValue_lt (beBytes n x.toNat)
  rw [length_beBytes, ← hw] at hlt
  rw [← leBytes_eq_beBytes_iff]
  constructor
  · intro heq
    have hvalue : leValue (beBytes n x.toNat) = x.toNat := by
      have h := congrArg BitVec.toNat heq
      rwa [BitVec.toNat_ofNat, Nat.mod_eq_of_lt hlt] at h
    calc leBytes n x.toNat = leBytes n (leValue (beBytes n x.toNat)) := by rw [hvalue]
      _ = beBytes n x.toNat := leBytes_leValue_of_length (length_beBytes n x.toNat)
  · intro hsame
    rw [← hsame]
    exact ofNat_leValue_leBytes hw x

namespace Link

open MemcachedClient

/-! ## 2. Replies that carry a number -/

variable {link next : Link} {frame : ReplyFrame} {item : RequestItem} {rest : Bytes}
  {result : MemResult}

/-- The next reply on the link answers the request of `item`, whose result is fresh. -/
structure AnswersNext (link : Link) (item : RequestItem) (cls : ResultClass) (frame : ReplyFrame)
    (rest : Bytes) : Prop where
  atHeader : link.AtHeader
  request : link.client.mRequests frame.requestId = some item
  result : (link.client.results item.mResult).cls = cls
  status : frame.status = ERequest_SUCCESS
  incoming : link.incoming = frame.bytes ++ rest

/-- A successful `Get` reply: the flags as its extras, then a value. -/
structure AnswersGet (link : Link) (item : RequestItem) (f : BitVec 32) (frame : ReplyFrame)
    (rest : Bytes) : Prop extends AnswersNext link item (.get none) frame rest where
  extras : frame.extras = beBytes 4 f.toNat

/-- A successful `Increment` or `Decrement` reply: the counter as its value, and nothing else. -/
structure AnswersInc (link : Link) (item : RequestItem) (v : BitVec 64) (frame : ReplyFrame)
    (rest : Bytes) : Prop extends AnswersNext link item (.inc none) frame rest where
  extlen : frame.extlen = 0
  keylen : frame.keylen = 0
  value : frame.value = beBytes 8 v.toNat

/-- The reply is read, and then, whatever the client has done elsewhere, a posted handler
    notifies the result, which is left as `result`. -/
def CompletesWith (link : Link) (ref : ResultRef) (result : MemResult) : Prop :=
  ∃ (next : Link) (client : MemcachedClient) (k : Nat) (handler : PostedFinish)
    (done : MemcachedClient), link.readReply = some next ∧
    client.results ref = next.client.results ref ∧ client.posted[k]? = some handler ∧
    handler.mResult = ref ∧ client.runPosted k = some (.ok done) ∧ done.results ref = result

/-- Completion leaves the fields that the reply has filled. -/
theorem CompletesWith.cls {ref : ResultRef} (h : link.CompletesWith ref result) :
    ∃ next, link.readReply = some next ∧ result.cls = (next.client.results ref).cls := by
  obtain ⟨next, client, k, handler, done, hreply, hsame, hk, href, hrun, rfl⟩ := h
  obtain ⟨handler', item, hk', -, -, rfl⟩ := MemcachedClient.runPosted_eq_ok hrun
  rw [hk, Option.some.injEq] at hk'
  subst hk'
  refine ⟨next, hreply, ?_⟩
  rw [← hsame, ← href]
  dsimp only
  rw [Function.update_self]
  rfl

theorem cls_receive_flag {c : MemcachedClient} {ref : ResultRef} {mFlag : Option Bytes}
    (hcls : (c.results ref).cls = .get mFlag) (size : Nat) (data : Bytes) :
    ((c.receive [⟨ref, .flag, 4⟩, ⟨ref, .value, size⟩] data).results ref).cls =
      .get (some (data.take 4)) := by
  simp [receive, splitSizes, receiveOne, MemResult.write, hcls]

theorem cls_receive_counter {c : MemcachedClient} {ref : ResultRef} {mValue : Option Bytes}
    (hcls : (c.results ref).cls = .inc mValue) (data : Bytes) :
    ((c.receive [⟨ref, .counter, 8⟩] data).results ref).cls = .inc (some (data.take 8)) := by
  simp [receive, splitSizes, receiveOne, MemResult.write, hcls]

/-- A reply without a value leaves the results alone. -/
theorem results_of_readReply_nil {cls : ResultClass} (h : link.AnswersNext item cls frame rest)
    (hvalue : frame.value = []) (hreply : link.readReply = some next) :
    next.client.results = link.client.results := by
  have hread := read_of_value_eq_nil h.atHeader h.request hvalue h.incoming
  generalize hfirst : headerRead link _ _ [] _ _ = first at hread
  have hreads : first.tcp.reads ≠ [.body] := by
    rw [← hfirst]
    simp [headerRead]
  rw [readReply, hread, Option.bind_some, if_neg hreads, Option.some.injEq] at hreply
  rw [← hreply, ← hfirst]
  exact results_finishRequest _ _ _ _

/-- After a `Get` reply with a value, the flags field holds the extras as they came. -/
theorem cls_of_readReply_get {f : BitVec 32} (h : link.AnswersGet item f frame rest)
    (hvalue : frame.value ≠ []) (hreply : link.readReply = some next) :
    (next.client.results item.mResult).cls = .get (some (beBytes 4 f.toNat)) := by
  obtain ⟨filled, size, hfill, hcls⟩ := MemResult.fillReceiveBuffer_get h.result item.mResult
    (replyValueLen (decodeReply frame.header)) (decodeReply frame.header).keylen.toNat
  rw [← h.status] at hfill
  have hext : frame.extlen = 4 := by rw [← frame.length_extras, h.extras, length_beBytes]
  have hle : 4 ≤ frame.body.length := by
    have hlen := frame.body_length_eq
    omega
  have hfirst : ((frame.body ++ rest).take (4 + size)).take 4 = beBytes 4 f.toNat := by
    rw [List.take_take, min_eq_left (Nat.le_add_right 4 size),
      List.take_append_of_le_length hle, ← h.extras, ReplyFrame.extras, hext]
  rw [client_of_readReply h.atHeader h.request hvalue hfill h.incoming hreply,
    results_onBodayReaded, cls_receive_flag (by simpa using hcls)]
  exact congrArg (fun bytes => ResultClass.get (some bytes)) hfirst

/-- After an increment or decrement reply, `mValue` holds the value as it came. -/
theorem cls_of_readReply_inc {v : BitVec 64} (h : link.AnswersInc item v frame rest)
    (hreply : link.readReply = some next) :
    (next.client.results item.mResult).cls = .inc (some (beBytes 8 v.toNat)) := by
  have hfill := MemResult.fillReceiveBuffer_inc h.result item.mResult
    (replyValueLen (decodeReply frame.header)) (decodeReply frame.header).keylen.toNat
  rw [← h.status] at hfill
  have hlen : frame.value.length = 8 := by rw [h.value, length_beBytes]
  have hvalue : frame.value ≠ [] := by
    intro hnil
    rw [hnil] at hlen
    cases hlen
  have hbody : frame.body = frame.value := by
    rw [ReplyFrame.value, h.extlen, h.keylen, Nat.add_zero, List.drop_zero]
  have hfirst : ((frame.body ++ rest).take 8).take 8 = beBytes 8 v.toNat := by
    rw [hbody, List.take_take, min_self, List.take_append_of_le_length hlen.ge,
      List.take_of_length_le hlen.le, h.value]
  rw [client_of_readReply h.atHeader h.request hvalue hfill h.incoming hreply,
    results_onBodayReaded, cls_receive_counter (by simpa using h.result)]
  exact congrArg (fun bytes => ResultClass.inc (some bytes)) hfirst

/-! ## 3. When the number is the server's -/

theorem flag_iff {f : BitVec 32} (h : link.AnswersGet item f frame rest)
    (hdone : link.CompletesWith item.mResult result) :
    result.flag = some f ↔ frame.value ≠ [] ∧ (leBytes 4 f.toNat).Palindrome := by
  obtain ⟨next, hreply, hcls⟩ := hdone.cls
  by_cases hvalue : frame.value = []
  · -- the flags are never received
    rw [results_of_readReply_nil h.toAnswersNext hvalue hreply, h.result] at hcls
    simp [MemResult.flag, hcls, hvalue]
  · rw [cls_of_readReply_get h hvalue hreply] at hcls
    simp only [MemResult.flag, hcls, Option.map_some, Option.some.injEq, ne_eq, hvalue,
      not_false_eq_true, true_and]
    exact ofNat_leValue_beBytes_eq_iff (by norm_num) f

theorem incValue_iff {v : BitVec 64} (h : link.AnswersInc item v frame rest)
    (hdone : link.CompletesWith item.mResult result) :
    result.incValue = some v ↔ (leBytes 8 v.toNat).Palindrome := by
  obtain ⟨next, hreply, hcls⟩ := hdone.cls
  rw [cls_of_readReply_inc h hreply] at hcls
  simp only [MemResult.incValue, hcls, Option.map_some, Option.some.injEq]
  exact ofNat_leValue_beBytes_eq_iff (by norm_num) v

/-- **Numbers in replies.**  Once a request is completed, its result has the flags of the
    `Get` reply that answered it exactly when there was a value and the bytes of the flags
    are a palindrome, and the counter of an increment or decrement reply exactly when the
    bytes of the counter are one. -/
theorem reply_numbers_iff (hdone : link.CompletesWith item.mResult result) :
    (∀ f, link.AnswersGet item f frame rest →
      (result.flag = some f ↔ frame.value ≠ [] ∧ (leBytes 4 f.toNat).Palindrome)) ∧
    ∀ v, link.AnswersInc item v frame rest →
      (result.incValue = some v ↔ (leBytes 8 v.toNat).Palindrome) :=
  ⟨fun _ h => flag_iff h hdone, fun _ h => incValue_iff h hdone⟩

/-- Read a reply and run the first handler that is posted then. -/
def complete (link : Link) (ref : ResultRef) : Option MemResult :=
  match link.readReply with
  | some next =>
      match next.client.posted[0]?, next.client.runPosted 0 with
      | some handler, some (.ok done) =>
          if handler.mResult = ref then some (done.results ref) else none
      | _, _ => none
  | none => none

theorem completesWith_of_complete {ref : ResultRef} (h : link.complete ref = some result) :
    link.CompletesWith ref result := by
  unfold complete at h
  split at h
  · next next hreply =>
      split at h
      · next handler done hk hrun =>
          split at h
          · next href =>
              exact ⟨next, next.client, 0, handler, done, hreply, rfl, hk, href, hrun,
                Option.some.inj h⟩
          · cases h
      · cases h
  · cases h

/-- A hit on the key under id 0, with the flags `a, 0, 0, b`. -/
def flagsFrame (a b : Byte) : ReplyFrame where
  header := [0x81, 0x09, 0, 0, 4, 0, 0, 0, 0, 0, 0, 5, 0, 0, 0, 0, 0, 0, 0, 0, 0, 0, 0, 0]
  body := [a, 0, 0, b, 118]
  header_length := rfl
  body_length := by
    show 5 = _
    decide
  parts_le := by
    show _ ≤ 5
    decide

/-- An increment under id 0, with the counter `a, 0, 0, 0, 0, 0, 0, b`. -/
def counterFrame (a b : Byte) : ReplyFrame where
  header := [0x81, 0x05, 0, 0, 0, 0, 0, 0, 0, 0, 0, 8, 0, 0, 0, 0, 0, 0, 0, 0, 0, 0, 0, 0]
  body := [a, 0, 0, 0, 0, 0, 0, b]
  header_length := rfl
  body_length := by
    show 8 = _
    decide
  parts_le := by
    show _ ≤ 8
    decide

/-- A new request under id 0, and the bytes of its reply on the way. -/
def awaitingReply (cls : ResultClass) (frame : ReplyFrame) : Link :=
  listening (MemcachedClient.new.request (.new [107] none cls) true) frame.bytes

theorem answersGet_flagsFrame {a b : Byte} {f : BitVec 32} (hf : beBytes 4 f.toNat = [a, 0, 0, b]) :
    (awaitingReply (.get none) (flagsFrame a b)).AnswersGet ⟨0, true⟩ f (flagsFrame a b) [] where
  atHeader := ⟨rfl, rfl⟩
  request := rfl
  result := rfl
  status := (by decide : (flagsFrame 0 0).status = ERequest_SUCCESS)
  incoming := (List.append_nil _).symm
  extras := hf.symm

theorem answersInc_counterFrame {a b : Byte} {v : BitVec 64}
    (hv : beBytes 8 v.toNat = [a, 0, 0, 0, 0, 0, 0, b]) :
    (awaitingReply (.inc none) (counterFrame a b)).AnswersInc ⟨0, true⟩ v (counterFrame a b)
      [] where
  atHeader := ⟨rfl, rfl⟩
  request := rfl
  result := rfl
  status := (by decide : (counterFrame 0 0).status = ERequest_SUCCESS)
  incoming := (List.append_nil _).symm
  extlen := rfl
  keylen := rfl
  value := hv.symm

/-- The flags `0x05000005`, whose bytes are a palindrome, are read as sent. -/
theorem reply_numbers_iff_palindrome :
    ∃ result, (awaitingReply (.get none) (flagsFrame 5 5)).CompletesWith 0 result ∧
      result.flag = some 0x05000005 := by
  have hcomplete : (awaitingReply (.get none) (flagsFrame 5 5)).complete 0 =
      some ⟨[107], ERequest_SUCCESS, some ⟨1, some [118]⟩, .get (some [5, 0, 0, 5])⟩ := by
    decide +kernel
  have hdone := completesWith_of_complete hcomplete
  have hanswers : (awaitingReply (.get none) (flagsFrame 5 5)).AnswersGet ⟨0, true⟩ 0x05000005
      (flagsFrame 5 5) [] := answersGet_flagsFrame (by decide)
  refine ⟨_, hdone, ((reply_numbers_iff hdone).1 _ hanswers).mpr ?_⟩
  exact ⟨by decide, List.Palindrome.of_reverse_eq (by decide)⟩

/-- The flags 5 are not read as 5 (but as `0x05000000`), nor is the counter 7 as 7. -/
theorem not_reply_numbers :
    (∃ result, (awaitingReply (.get none) (flagsFrame 0 5)).CompletesWith 0 result ∧
      (awaitingReply (.get none) (flagsFrame 0 5)).AnswersGet ⟨0, true⟩ 5 (flagsFrame 0 5) [] ∧
      result.flag ≠ some 5) ∧
    ∃ result, (awaitingReply (.inc none) (counterFrame 0 7)).CompletesWith 0 result ∧
      (awaitingReply (.inc none) (counterFrame 0 7)).AnswersInc ⟨0, true⟩ 7 (counterFrame 0 7) [] ∧
      result.incValue ≠ some 7 := by
  constructor
  · have hcomplete : (awaitingReply (.get none) (flagsFrame 0 5)).complete 0 =
        some ⟨[107], ERequest_SUCCESS, some ⟨1, some [118]⟩, .get (some [0, 0, 0, 5])⟩ := by
      decide +kernel
    exact ⟨_, completesWith_of_complete hcomplete, answersGet_flagsFrame (by decide), by decide⟩
  · have hcomplete : (awaitingReply (.inc none) (counterFrame 0 7)).complete 0 =
        some ⟨[107], ERequest_SUCCESS, none, .inc (some [0, 0, 0, 0, 0, 0, 0, 7])⟩ := by
      decide +kernel
    exact ⟨_, completesWith_of_complete hcomplete, answersInc_counterFrame (by decide), by decide⟩

end Link

end MemClient
