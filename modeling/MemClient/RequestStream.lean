import MemClient.RequestEncoding

/-!
# The request stream on the wire

Section 1: the operations without extras (`Get`, `Delete`, `Append`,
`PreAppend`, `Version`) each put one well-formed frame on the wire, so any
sequence of them parses back into itself.  Section 2: the store operations do
not; their header announces no extras and a body eight bytes shorter than what
is sent.  Section 3: neither do the increments and decrements, with 24 bytes.
Section 4: a key of 2^16 bytes or more reaches the server cut to a shorter one.
-/

namespace MemClient

open ByteCodec

/-! ## 1. Requests without extras -/

/-- A call of one of the operations without extras. -/
inductive RequestCall where
  | get (key : Bytes)
  | delete (key : Bytes)
  | append (key value : Bytes)
  | preAppend (key value : Bytes)
  | version
deriving DecidableEq

namespace RequestCall

def opcode : RequestCall → Byte
  | get _ => PROTOCOL_BINARY_CMD_GETQ
  | delete _ => PROTOCOL_BINARY_CMD_DELETE
  | append _ _ => PROTOCOL_BINARY_CMD_APPEND
  | preAppend _ _ => PROTOCOL_BINARY_CMD_PREPEND
  | version => PROTOCOL_BINARY_CMD_VERSION

def key : RequestCall → Bytes
  | get key | delete key | append key _ | preAppend key _ => key
  | version => []

def value : RequestCall → Bytes
  | append _ value | preAppend _ value => value
  | _ => []

def buffers (junk : Nat → Byte) (requestId : BitVec 32) : RequestCall → Option (List Bytes)
  | get key => getRequest junk key requestId
  | delete key => deleteRequest junk key requestId
  | append key value => appendRequest junk key value requestId
  | preAppend key value => preAppendRequest junk key value requestId
  | version => versionRequest junk requestId

/-- The key fits `keylen`, key and value fit `bodylen`. -/
def Fits (call : RequestCall) : Prop :=
  call.key.length < 2 ^ 16 ∧ call.key.length + call.value.length < 2 ^ 32

def request (call : RequestCall) (requestId : BitVec 32) : ParsedRequest where
  opcode := call.opcode
  extras := []
  key := call.key
  value := call.value
  opaqueBytes := leBytes 4 requestId.toNat

def frame (call : RequestCall) (requestId : BitVec 32) (hfits : call.Fits) : RequestFrame where
  opcode := call.opcode
  extras := []
  key := call.key
  value := call.value
  opaqueBytes := leBytes 4 requestId.toNat
  extras_lt := by simp
  key_lt := hfits.1
  body_lt := by simpa using hfits.2
  opaque_length := by simp

theorem bytes_frame {call : RequestCall} (requestId : BitVec 32) (hfits : call.Fits) :
    (call.frame requestId hfits).bytes =
      (requestHeader call.opcode call.key.length (call.key.length + call.value.length)
        requestId).adjustEndian.toBytes ++ (call.key ++ call.value) := by
  rw [toBytes_requestHeader hfits.1 hfits.2]
  simp [RequestFrame.bytes, RequestFrame.header, RequestFrame.body, RequestFrame.bodylen, frame]

/-- Each encoder stays inside its block and sends the header, the key and the value. -/
theorem buffers_eq (junk : Nat → Byte) (requestId : BitVec 32) (call : RequestCall) :
    ∃ bufs, call.buffers junk requestId = some bufs ∧
      bufs.flatten = (requestHeader call.opcode call.key.length
        (call.key.length + call.value.length) requestId).adjustEndian.toBytes ++
          (call.key ++ call.value) := by
  cases call with
  | get key => exact ⟨_, getRequest_eq junk key requestId, by simp [RequestCall.key, value, opcode]⟩
  | delete key =>
      exact ⟨_, deleteRequest_eq junk key requestId, by simp [RequestCall.key, value, opcode]⟩
  | append key val =>
      exact ⟨_, appendCmdRequest_eq junk _ key val requestId, by
        simp [RequestCall.key, value, opcode]⟩
  | preAppend key val =>
      exact ⟨_, appendCmdRequest_eq junk _ key val requestId, by
        simp [RequestCall.key, value, opcode]⟩
  | version =>
      exact ⟨_, versionRequest_eq junk requestId, by simp [RequestCall.key, value, opcode]⟩

/-- A call that fits sends exactly its frame. -/
theorem buffers_eq_frame {call : RequestCall} (junk : Nat → Byte) (requestId : BitVec 32)
    (hfits : call.Fits) :
    ∃ bufs, call.buffers junk requestId = some bufs ∧
      bufs.flatten = (call.frame requestId hfits).bytes := by
  rw [bytes_frame]
  exact buffers_eq junk requestId call

end RequestCall

/-- A request as sent: the call, its 32-bit id, and what `malloc` left in its
    block. -/
structure SentRequest where
  call : RequestCall
  requestId : BitVec 32
  junk : Nat → Byte

def SentRequest.buffers (sent : SentRequest) : Option (List Bytes) :=
  sent.call.buffers sent.junk sent.requestId

def SentRequest.request (sent : SentRequest) : ParsedRequest := sent.call.request sent.requestId

section Sequence

variable {α : Type*} {buffers : α → Option (List Bytes)} {request : α → ParsedRequest}

/-- Every item sends one frame, so all of them send a sequence of frames. -/
theorem mapM_buffers_eq_frames {items : List α}
    (hframe : ∀ item ∈ items, ∃ (bufs : List Bytes) (frame : RequestFrame),
      buffers item = some bufs ∧ bufs.flatten = frame.bytes ∧ frame.view = request item) :
    ∃ (bufs : List (List Bytes)) (frames : List RequestFrame),
      items.mapM buffers = some bufs ∧
      bufs.flatten.flatten = frames.flatMap RequestFrame.bytes ∧
      frames.map RequestFrame.view = items.map request := by
  induction items with
  | nil => exact ⟨[], [], rfl, rfl, rfl⟩
  | cons item items ih =>
      obtain ⟨bufs, frames, hbufs, hbytes, hviews⟩ := ih fun other h => hframe other (by simp [h])
      obtain ⟨buf, frame, hbuf, hflatten, hview⟩ := hframe item (by simp)
      refine ⟨buf :: bufs, frame :: frames, ?_, ?_, ?_⟩
      · simp only [List.mapM_cons, hbuf, hbufs, Option.bind_eq_bind, Option.bind_some]
        rfl
      · simp [hflatten, hbytes]
      · rw [List.map_cons, List.map_cons, hview, hviews]

/-- The stream of such a sequence reads back as the requests. -/
theorem parseRequests_mapM_buffers {items : List α}
    (hframe : ∀ item ∈ items, ∃ (bufs : List Bytes) (frame : RequestFrame),
      buffers item = some bufs ∧ bufs.flatten = frame.bytes ∧ frame.view = request item) :
    ∃ bufs, items.mapM buffers = some bufs ∧
      parseRequests bufs.flatten.flatten = some (items.map request) := by
  obtain ⟨bufs, frames, hbufs, hbytes, hviews⟩ := mapM_buffers_eq_frames hframe
  refine ⟨bufs, hbufs, ?_⟩
  rw [hbytes, parseRequests_flatMap, hviews]

end Sequence

/-- **Request stream round trip.**  A binary-protocol parser reads the
    concatenation of the buffers of any request sequence as exactly that
    sequence, with nothing left over. -/
theorem request_stream_round_trip (sents : List SentRequest)
    (hfits : ∀ sent ∈ sents, sent.call.Fits) :
    ∃ bufs, sents.mapM SentRequest.buffers = some bufs ∧
      parseRequests bufs.flatten.flatten = some (sents.map SentRequest.request) := by
  apply parseRequests_mapM_buffers
  intro sent hsent
  have hfit := hfits sent hsent
  obtain ⟨bufs, hbufs, hbytes⟩ := RequestCall.buffers_eq_frame sent.junk sent.requestId hfit
  exact ⟨bufs, sent.call.frame sent.requestId hfit, hbufs, hbytes, rfl⟩

/-- A `Get` of the key `k`, then an `Append` of two bytes to it. -/
theorem request_stream_round_trip_get_append :
    ∃ bufs, [SentRequest.mk (.get [107]) 7 fun _ => 0,
        SentRequest.mk (.append [107] [1, 2]) 8 fun _ => 0].mapM SentRequest.buffers = some bufs ∧
      parseRequests bufs.flatten.flatten =
        some [⟨PROTOCOL_BINARY_CMD_GETQ, [], [107], [], [7, 0, 0, 0]⟩,
          ⟨PROTOCOL_BINARY_CMD_APPEND, [], [107], [1, 2], [8, 0, 0, 0]⟩] :=
  request_stream_round_trip
    [⟨.get [107], 7, fun _ => 0⟩, ⟨.append [107] [1, 2], 8, fun _ => 0⟩]
    (by simp [RequestCall.Fits, RequestCall.key, RequestCall.value])

/-- The frame of a request that is its header. -/
def headerFrame (opcode : Byte) (requestId : BitVec 32) : RequestFrame where
  opcode := opcode
  extras := []
  key := []
  value := []
  opaqueBytes := leBytes 4 requestId.toNat
  extras_lt := by simp
  key_lt := by simp
  body_lt := by simp
  opaque_length := by simp

theorem bytes_headerFrame (opcode : Byte) (requestId : BitVec 32) :
    (headerFrame opcode requestId).bytes =
      (requestHeader opcode 0 0 requestId).adjustEndian.toBytes := by
  rw [toBytes_requestHeader (by norm_num) (by norm_num)]
  simp [RequestFrame.bytes, RequestFrame.header, RequestFrame.body, RequestFrame.bodylen,
    headerFrame]

/-! ## 2. Store requests -/

/-- The stream is one frame of the store command with its eight bytes of extras,
    its key and its value, and nothing else. -/
def IsStoreFrame (cmd : Byte) (key : Bytes) (flag expiry : BitVec 32) (value stream : Bytes) :
    Prop :=
  ∃ request, parseRequest stream = some (request, []) ∧ request.opcode = cmd ∧
    request.extras = beBytes 4 flag.toNat ++ beBytes 4 expiry.toNat ∧
    request.key = key ∧ request.value = value

/-- A header that announces no extras is read without extras. -/
theorem extras_eq_nil_of_parseRequest {opcode : Byte} {keylen bodylen : Nat}
    {requestId : BitVec 32} {body rest : Bytes} {request : ParsedRequest}
    (h : parseRequest ((requestHeader opcode keylen bodylen requestId).adjustEndian.toBytes ++
      body) = some (request, rest)) : request.extras = [] := by
  have hext : slice ((requestHeader opcode keylen bodylen requestId).adjustEndian.toBytes ++ body)
      4 1 = [0] := by
    rw [slice_append_left (by simp [sizeofHeader])]
    rfl
  unfold parseRequest at h
  rw [hext] at h
  dsimp only at h
  split at h
  · cases h
    rfl
  · cases h

/-- What a server reads of a store request: a frame without extras whose value
    starts in the spilled bytes, and eight bytes that belong to no frame. -/
theorem storeCmdRequest_leaves_eight_bytes (junk : Nat → Byte) (cmd : Byte) (key : Bytes)
    (flag expiry : BitVec 32) (buf : Bytes) (requestId : BitVec 32) (hkey : key.length < 2 ^ 16)
    (hbody : 8 + key.length + buf.length < 2 ^ 32) :
    ∃ bufs request rest, storeCmdRequest junk cmd key flag expiry buf requestId = some bufs ∧
      parseRequest bufs.flatten = some (request, rest) ∧ request.key = key ∧
      request.extras = [] ∧ rest.length = 8 := by
  obtain ⟨spill, hspill, heq⟩ := storeCmdRequest_eq junk cmd key flag expiry buf requestId
  let frame : RequestFrame :=
    { opcode := cmd, extras := [], key := key, value := (spill ++ buf).take buf.length
      opaqueBytes := leBytes 4 requestId.toNat
      extras_lt := by simp
      key_lt := hkey
      body_lt := by
        simp only [List.length_nil, List.length_take, List.length_append]
        omega
      opaque_length := by simp }
  have hbodylen : frame.bodylen = key.length + buf.length := by
    simp [RequestFrame.bodylen, frame, hspill]
  have hbytes : frame.bytes =
      (requestHeader cmd key.length (key.length + buf.length) requestId).adjustEndian.toBytes ++
        (key ++ (spill ++ buf).take buf.length) := by
    rw [toBytes_requestHeader hkey (by omega)]
    simp [RequestFrame.bytes, RequestFrame.header, RequestFrame.body, hbodylen, frame]
  refine ⟨_, frame.view, (spill ++ buf).drop buf.length, heq, ?_, rfl, rfl, ?_⟩
  · rw [← frame.parseRequest_bytes, hbytes]
    simp only [List.flatten_cons, List.flatten_nil, List.append_nil, List.append_assoc,
      List.take_append_drop]
  · simp only [List.length_drop, List.length_append]
    omega

/-- No store request, whatever its arguments, is one frame that carries them. -/
theorem store_never_one_frame (junk : Nat → Byte) (cmd : Byte) (key : Bytes)
    (flag expiry : BitVec 32) (buf : Bytes) (requestId : BitVec 32) :
    ¬ ∃ bufs, storeCmdRequest junk cmd key flag expiry buf requestId = some bufs ∧
      IsStoreFrame cmd key flag expiry buf bufs.flatten := by
  rintro ⟨bufs, hbufs, request, hparse, -, hextras, -, -⟩
  obtain ⟨spill, -, heq⟩ := storeCmdRequest_eq junk cmd key flag expiry buf requestId
  rw [heq, Option.some.injEq] at hbufs
  subst hbufs
  rw [List.flatten_cons, List.append_assoc] at hparse
  have hnil := extras_eq_nil_of_parseRequest hparse
  have hlen := congrArg List.length (hextras.symm.trans hnil)
  simp at hlen

/-- `Set("k", 5, 9, [1, 2])` with id 1: the server reads a frame without extras. -/
theorem set_request_not_one_frame :
    ¬ ∃ bufs, setRequest (fun _ => 0) [107] 5 9 [1, 2] 1 = some bufs ∧
      IsStoreFrame PROTOCOL_BINARY_CMD_SET [107] 5 9 [1, 2] bufs.flatten := by
  rintro ⟨bufs, hbufs, request, hparse, -, hextras, -, -⟩
  have hset : setRequest (fun _ => 0) [107] 5 9 [1, 2] 1 =
      some [[0x80, 1, 0, 1, 0, 0, 0, 0, 0, 0, 0, 3, 1, 0, 0, 0, 0, 0, 0, 0, 0, 0, 0, 0,
        107, 0, 0, 5, 0, 0, 0, 9, 0], [1, 2]] := by decide
  rw [hset, Option.some.injEq] at hbufs
  subst hbufs
  have hread : parseRequest [0x80, 1, 0, 1, 0, 0, 0, 0, 0, 0, 0, 3, 1, 0, 0, 0, 0, 0, 0, 0,
      0, 0, 0, 0, 107, 0, 0, 5, 0, 0, 0, 9, 0, 1, 2] =
      some (⟨PROTOCOL_BINARY_CMD_SET, [], [107], [0, 0], [1, 0, 0, 0]⟩,
        [5, 0, 0, 0, 9, 0, 1, 2]) := by decide
  have hsame := hread.symm.trans hparse
  simp at hsame

/-! ## 3. Increments and decrements -/

/-- The stream is one frame of the command with delta, initial value and expiry as its 20
    bytes of extras, and the key alone behind them. -/
def IsSelfOpFrame (cmd : Byte) (key : Bytes) (delta initValue : BitVec 64) (expiry : BitVec 32)
    (stream : Bytes) : Prop :=
  ∃ request, parseRequest stream = some (request, []) ∧ request.opcode = cmd ∧
    request.extras = beBytes 8 delta.toNat ++ beBytes 8 initValue.toNat ++
      beBytes 4 expiry.toNat ∧
    request.key = key ∧ request.value = []

/-- What a server reads of an increment or decrement: a frame without extras that takes its
    key from the arguments, and 24 bytes that belong to no frame. -/
theorem selfOpRequest_leaves_24_bytes (junk : Nat → Byte) (cmd : Byte) (key : Bytes)
    (delta initValue : BitVec 64) (expiry requestId : BitVec 32) (hkey : key.length < 2 ^ 16) :
    ∃ bufs request rest, selfOpRequest junk cmd key delta initValue expiry requestId = some bufs ∧
      parseRequest bufs.flatten = some (request, rest) ∧ request.extras = [] ∧
      request.value = [] ∧ rest.length = 24 := by
  obtain ⟨pad, hpad, heq⟩ := selfOpRequest_eq junk cmd key delta initValue expiry requestId
  obtain ⟨front, rest, hsplit, hfront⟩ := exists_split (leBytes 8 (htonll delta).toNat ++
    (leBytes 8 (htonll initValue).toNat ++ (leBytes 4 (htonl expiry).toNat ++ (pad ++ key))))
    (n := key.length) (by
      simp only [List.length_append, length_leBytes]
      omega)
  let frame : RequestFrame :=
    { opcode := cmd, extras := [], key := front, value := []
      opaqueBytes := leBytes 4 requestId.toNat
      extras_lt := by simp
      key_lt := by omega
      body_lt := by
        simp only [List.length_nil]
        omega
      opaque_length := by simp }
  have hbytes : frame.bytes =
      (requestHeader cmd key.length key.length requestId).adjustEndian.toBytes ++ front := by
    rw [toBytes_requestHeader hkey (by omega)]
    simp [RequestFrame.bytes, RequestFrame.header, RequestFrame.body, RequestFrame.bodylen, frame,
      hfront]
  refine ⟨_, frame.view, rest, heq, ?_, rfl, rfl, ?_⟩
  · rw [← frame.parseRequest_bytes, hbytes, hsplit]
    simp only [List.flatten_cons, List.flatten_nil, List.append_nil, List.append_assoc]
  · have hlen := congrArg List.length hsplit
    simp only [List.length_append, length_leBytes, hpad, hfront] at hlen
    omega

/-- No increment or decrement, whatever its arguments, is one frame that carries them. -/
theorem self_op_never_one_frame (junk : Nat → Byte) (cmd : Byte) (key : Bytes)
    (delta initValue : BitVec 64) (expiry requestId : BitVec 32) :
    ¬ ∃ bufs, selfOpRequest junk cmd key delta initValue expiry requestId = some bufs ∧
      IsSelfOpFrame cmd key delta initValue expiry bufs.flatten := by
  rintro ⟨bufs, hbufs, request, hparse, -, hextras, -, -⟩
  obtain ⟨pad, -, heq⟩ := selfOpRequest_eq junk cmd key delta initValue expiry requestId
  rw [heq, Option.some.injEq] at hbufs
  subst hbufs
  rw [List.flatten_cons, List.append_assoc] at hparse
  have hnil := extras_eq_nil_of_parseRequest hparse
  have hlen := congrArg List.length (hextras.symm.trans hnil)
  simp at hlen

/-- `Increment("k", 5, 6, 7)` with id 1: the server reads a frame without extras, whose key
    is the low byte of `delta`. -/
theorem increment_request_not_one_frame :
    ¬ ∃ bufs, incrementRequest (fun _ => 0) [107] 5 6 7 1 = some bufs ∧
      IsSelfOpFrame PROTOCOL_BINARY_CMD_INCREMENT [107] 5 6 7 bufs.flatten := by
  rintro ⟨bufs, hbufs, request, hparse, -, hextras, -, -⟩
  have hincrement : incrementRequest (fun _ => 0) [107] 5 6 7 1 =
      some [[0x80, 5, 0, 1, 0, 0, 0, 0, 0, 0, 0, 1, 1, 0, 0, 0, 0, 0, 0, 0, 0, 0, 0, 0,
        5, 0, 0, 0, 0, 0, 0, 0, 6, 0, 0, 0, 0, 0, 0, 0, 0, 0, 0, 7, 0, 0, 0, 0, 107]] := by decide
  rw [hincrement, Option.some.injEq] at hbufs
  subst hbufs
  have hread : parseRequest [0x80, 5, 0, 1, 0, 0, 0, 0, 0, 0, 0, 1, 1, 0, 0, 0, 0, 0, 0, 0,
      0, 0, 0, 0, 5, 0, 0, 0, 0, 0, 0, 0, 6, 0, 0, 0, 0, 0, 0, 0, 0, 0, 0, 7, 0, 0, 0, 0, 107] =
      some (⟨PROTOCOL_BINARY_CMD_INCREMENT, [], [5], [], [1, 0, 0, 0]⟩,
        [0, 0, 0, 0, 0, 0, 0, 6, 0, 0, 0, 0, 0, 0, 0, 0, 0, 0, 7, 0, 0, 0, 0, 107]) := by decide
  have hsame := hread.symm.trans hparse
  simp at hsame

/-! ## 4. Keys that do not fit `keylen` -/

namespace RequestCall

/-- If the call sends something, the server reads a frame with the caller's key. -/
def AddressesOwnKey (junk : Nat → Byte) (requestId : BitVec 32) (call : RequestCall) : Prop :=
  ∀ bufs, call.buffers junk requestId = some bufs →
    ∃ request rest, parseRequest bufs.flatten = some (request, rest) ∧ request.key = call.key

/-- `keylen` keeps the low 16 bits of the key's length. -/
theorem requestHeader_keylen_mod (opcode : Byte) (keylen bodylen : Nat) (requestId : BitVec 32) :
    requestHeader opcode keylen bodylen requestId =
      requestHeader opcode (keylen % 2 ^ 16) bodylen requestId := by
  have hkeylen : BitVec.ofNat 16 keylen = BitVec.ofNat 16 (keylen % 2 ^ 16) := by
    apply BitVec.eq_of_toNat_eq
    rw [BitVec.toNat_ofNat, BitVec.toNat_ofNat, Nat.mod_mod]
  rw [requestHeader, requestHeader, hkeylen]

/-- The frame a server reads when only `bodylen` fits: the key ends where `keylen` says, and
    what is left of it counts as value. -/
def cutFrame (call : RequestCall) (requestId : BitVec 32)
    (hbody : call.key.length + call.value.length < 2 ^ 32) : RequestFrame where
  opcode := call.opcode
  extras := []
  key := call.key.take (call.key.length % 2 ^ 16)
  value := call.key.drop (call.key.length % 2 ^ 16) ++ call.value
  opaqueBytes := leBytes 4 requestId.toNat
  extras_lt := by simp
  key_lt := by
    rw [List.length_take]
    omega
  body_lt := by
    simp only [List.length_nil, List.length_append, List.length_take, List.length_drop]
    omega
  opaque_length := by simp

theorem buffers_eq_cutFrame (junk : Nat → Byte) (requestId : BitVec 32) (call : RequestCall)
    (hbody : call.key.length + call.value.length < 2 ^ 32) :
    ∃ bufs, call.buffers junk requestId = some bufs ∧
      bufs.flatten = (call.cutFrame requestId hbody).bytes := by
  obtain ⟨bufs, hbufs, hflatten⟩ := buffers_eq junk requestId call
  have hkeylen : (call.cutFrame requestId hbody).key.length = call.key.length % 2 ^ 16 := by
    rw [cutFrame, List.length_take]
    omega
  have hbodylen : (call.cutFrame requestId hbody).bodylen =
      call.key.length + call.value.length := by
    simp only [RequestFrame.bodylen, cutFrame, List.length_nil, List.length_append,
      List.length_take, List.length_drop]
    omega
  have hsent : (call.cutFrame requestId hbody).body = call.key ++ call.value := by
    simp only [RequestFrame.body, cutFrame, List.nil_append]
    rw [← List.append_assoc, List.take_append_drop]
  refine ⟨bufs, hbufs, ?_⟩
  rw [hflatten, requestHeader_keylen_mod, toBytes_requestHeader (Nat.mod_lt _ (by norm_num)) hbody]
  simp only [RequestFrame.bytes, RequestFrame.header, hkeylen, hbodylen, hsent]
  rfl

/-- What a call with too long a key asks the server for: the same command on the key's first
    `key.size() % 2^16` bytes. -/
theorem parseRequest_oversized (junk : Nat → Byte) (requestId : BitVec 32) (call : RequestCall)
    (hbody : call.key.length + call.value.length < 2 ^ 32) :
    ∃ bufs request, call.buffers junk requestId = some bufs ∧
      parseRequest bufs.flatten = some (request, []) ∧ request.opcode = call.opcode ∧
      request.key = call.key.take (call.key.length % 2 ^ 16) := by
  obtain ⟨bufs, hbufs, hflatten⟩ := buffers_eq_cutFrame junk requestId call hbody
  have hread := (call.cutFrame requestId hbody).parseRequest_bytes []
  rw [List.append_nil, ← hflatten] at hread
  exact ⟨bufs, (call.cutFrame requestId hbody).view, hbufs, hread, rfl, rfl⟩

/-- A call with a key of 2^16 bytes or more always sends a frame, and never one on its own
    key. -/
theorem oversized_never_own_key (junk : Nat → Byte) (requestId : BitVec 32) (call : RequestCall)
    (hkey : 2 ^ 16 ≤ call.key.length) (hbody : call.key.length + call.value.length < 2 ^ 32) :
    ¬ call.AddressesOwnKey junk requestId := by
  intro hown
  obtain ⟨bufs, request, hbufs, hread, -, hcut⟩ :=
    parseRequest_oversized junk requestId call hbody
  obtain ⟨request', rest, hread', hsame⟩ := hown bufs hbufs
  obtain ⟨rfl, -⟩ : request = request' ∧ [] = rest := by simpa [hread] using hread'
  have hlen := congrArg List.length (hcut.symm.trans hsame)
  rw [List.length_take] at hlen
  omega

/-- An append to a key of 65538 bytes. -/
theorem oversized_never_own_key_append :
    ¬ AddressesOwnKey (fun _ => 0) 7 (.append (List.replicate 65538 97) [1]) := by
  have hkey : (append (List.replicate 65538 97) [1]).key.length = 65538 := List.length_replicate
  apply oversized_never_own_key
  · rw [hkey]
    norm_num
  · rw [hkey]
    decide

/-- `Delete` of a key of 65537 bytes deletes a key of one byte. -/
theorem delete_oversized_deletes_other :
    ¬ AddressesOwnKey (fun _ => 0) 7 (.delete (List.replicate 65537 97)) := by
  intro hown
  have hkey : (delete (List.replicate 65537 97)).key.length = 65537 := List.length_replicate
  obtain ⟨bufs, request, hbufs, hread, -, hcut⟩ := parseRequest_oversized (fun _ => 0) 7
    (.delete (List.replicate 65537 97)) (by rw [hkey]; decide)
  obtain ⟨request', rest, hread', hsame⟩ := hown bufs hbufs
  obtain ⟨rfl, -⟩ : request = request' ∧ [] = rest := by simpa only [hread, Option.some.injEq,
    Prod.mk.injEq] using hread'
  have hone : request.key.length = 1 := by
    rw [hcut, List.length_take, hkey]
    norm_num
  rw [hsame, hkey] at hone
  omega

end RequestCall

end MemClient
