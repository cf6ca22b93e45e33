import MemClient.ProtocolBinary

/-!
# Request encoders

The buffers that `Get`, `Delete`, `Append`, `PreAppend`, `Version`, `Flush`,
`Stat`, `Increment`, `Decrement` and the store operations hand to the socket
(`memcachedClient/Mem*.cpp`).  An encoder is memory code: it allocates a block,
writes through typed views of it and copies the key behind a struct, so it takes
what `malloc` left in the block as `junk` and fails (`none`) where a write would
leave the block.
-/

namespace MemClient

open ByteCodec

/-! ## 1. The encoders -/

/-- The header fields every request operation assigns; `keylen` and `bodylen`
    arrive as `size_t` and are cut to the width of their fields. -/
def requestHeader (opcode : Byte) (keylen bodylen : Nat) (requestId : BitVec 32) :
    RequestHeader where
  magic := PROTOCOL_BINARY_REQ
  opcode := opcode
  keylen := BitVec.ofNat 16 keylen
  extlen := 0
  datatype := 0
  reserved := 0
  bodylen := BitVec.ofNat 32 bodylen
  opaqueId := requestId
  cas := 0

/-- The part the keyed operations share: allocate `structSize + key.size()`
    bytes, write the header in network order, copy the key behind the struct. -/
def keyedRequest (junk : Nat → Byte) (structSize : Nat) (opcode : Byte) (key : Bytes)
    (bodylen : Nat) (requestId : BitVec 32) : Option Bytes := do
  let requestBuf := malloc junk (structSize + key.length)
  let header := (requestHeader opcode key.length bodylen requestId).adjustEndian
  let requestBuf ← memcpy requestBuf 0 header.toBytes
  memcpy requestBuf structSize key

def getRequest (junk : Nat → Byte) (key : Bytes) (requestId : BitVec 32) :
    Option (List Bytes) := do
  let requestBuf ← keyedRequest junk sizeofHeader PROTOCOL_BINARY_CMD_GETQ key key.length requestId
  return [requestBuf]

def deleteRequest (junk : Nat → Byte) (key : Bytes) (requestId : BitVec 32) :
    Option (List Bytes) := do
  let requestBuf ←
    keyedRequest junk sizeofHeader PROTOCOL_BINARY_CMD_DELETE key key.length requestId
  return [requestBuf]

/-- `Append(cmd, ...)`: the value is a second buffer behind the request. -/
def appendCmdRequest (junk : Nat → Byte) (cmd : Byte) (key value : Bytes)
    (requestId : BitVec 32) : Option (List Bytes) := do
  let requestBuf ←
    keyedRequest junk sizeofHeader cmd key (key.length + value.length) requestId
  return [requestBuf, value]

def appendRequest (junk : Nat → Byte) (key value : Bytes) (requestId : BitVec 32) :
    Option (List Bytes) :=
  appendCmdRequest junk PROTOCOL_BINARY_CMD_APPEND key value requestId

def preAppendRequest (junk : Nat → Byte) (key value : Bytes) (requestId : BitVec 32) :
    Option (List Bytes) :=
  appendCmdRequest junk PROTOCOL_BINARY_CMD_PREPEND key value requestId

def versionRequest (junk : Nat → Byte) (requestId : BitVec 32) : Option (List Bytes) := do
  let header := (requestHeader PROTOCOL_BINARY_CMD_VERSION 0 0 requestId).adjustEndian
  let requestBuf ← memcpy (malloc junk sizeofHeader) 0 header.toBytes
  return [requestBuf]

/-- `Flush`: `extlen` and `bodylen` stay 0, and the expiry is written behind the header. -/
def flushRequest (junk : Nat → Byte) (expiry requestId : BitVec 32) : Option (List Bytes) := do
  let header := (requestHeader PROTOCOL_BINARY_CMD_FLUSH 0 0 requestId).adjustEndian
  let requestBuf ← memcpy (malloc junk sizeofRequestFlush) 0 header.toBytes
  let requestBuf ← memcpy requestBuf sizeofHeader (leBytes 4 (htonl expiry).toNat)
  return [requestBuf]

/-- `Stat`: the block is as long as the header, `bodylen` stays 0, and the key is copied
    behind it. -/
def statRequest (junk : Nat → Byte) (key : Bytes) (requestId : BitVec 32) :
    Option (List Bytes) := do
  let header := (requestHeader PROTOCOL_BINARY_CMD_STAT key.length 0 requestId).adjustEndian
  let requestBuf ← memcpy (malloc junk sizeofHeader) 0 header.toBytes
  let requestBuf ← memcpy requestBuf sizeofHeader key
  return [requestBuf]

/-- `Store(cmd, ...)`: `extlen` stays 0, `bodylen` counts key and value, and the
    key is copied behind a `protocol_binary_request_get`, over the two extras. -/
def storeCmdRequest (junk : Nat → Byte) (cmd : Byte) (key : Bytes) (flag expiry : BitVec 32)
    (buf : Bytes) (requestId : BitVec 32) : Option (List Bytes) := do
  let requestBuf := malloc junk (sizeofRequestSet + key.length)
  let header := (requestHeader cmd key.length (key.length + buf.length) requestId).adjustEndian
  let requestBuf ← memcpy requestBuf 0 header.toBytes
  let requestBuf ← memcpy requestBuf sizeofHeader (leBytes 4 (htonl flag).toNat)
  let requestBuf ← memcpy requestBuf (sizeofHeader + 4) (leBytes 4 (htonl expiry).toNat)
  let requestBuf ← memcpy requestBuf sizeofHeader key
  return [requestBuf, buf]

def setRequest (junk : Nat → Byte) (key : Bytes) (flag expiry : BitVec 32) (buf : Bytes)
    (requestId : BitVec 32) : Option (List Bytes) :=
  storeCmdRequest junk PROTOCOL_BINARY_CMD_SET key flag expiry buf requestId

def addRequest (junk : Nat → Byte) (key : Bytes) (flag expiry : BitVec 32) (buf : Bytes)
    (requestId : BitVec 32) : Option (List Bytes) :=
  storeCmdRequest junk PROTOCOL_BINARY_CMD_ADD key flag expiry buf requestId

def replaceRequest (junk : Nat → Byte) (key : Bytes) (flag expiry : BitVec 32) (buf : Bytes)
    (requestId : BitVec 32) : Option (List Bytes) :=
  storeCmdRequest junk PROTOCOL_BINARY_CMD_REPLACE key flag expiry buf requestId

/-- `SelfOp(cmd, ...)`: `extlen` stays 0 and `bodylen` counts the key only; the
    three arguments are written behind the header, the key behind the struct. -/
def selfOpRequest (junk : Nat → Byte) (cmd : Byte) (key : Bytes) (delta initValue : BitVec 64)
    (expiry : BitVec 32) (requestId : BitVec 32) : Option (List Bytes) := do
  let requestBuf := malloc junk (sizeofRequestIncr + key.length)
  let header := (requestHeader cmd key.length key.length requestId).adjustEndian
  let requestBuf ← memcpy requestBuf 0 header.toBytes
  let requestBuf ← memcpy requestBuf sizeofHeader (leBytes 8 (htonll delta).toNat)
  let requestBuf ← memcpy requestBuf (sizeofHeader + 8) (leBytes 8 (htonll initValue).toNat)
  let requestBuf ← memcpy requestBuf (sizeofHeader + 16) (leBytes 4 (htonl expiry).toNat)
  let requestBuf ← memcpy requestBuf sizeofRequestIncr key
  return [requestBuf]

def incrementRequest (junk : Nat → Byte) (key : Bytes) (delta initValue : BitVec 64)
    (expiry : BitVec 32) (requestId : BitVec 32) : Option (List Bytes) :=
  selfOpRequest junk PROTOCOL_BINARY_CMD_INCREMENT key delta initValue expiry requestId

def decrementRequest (junk : Nat → Byte) (key : Bytes) (delta initValue : BitVec 64)
    (expiry : BitVec 32) (requestId : BitVec 32) : Option (List Bytes) :=
  selfOpRequest junk PROTOCOL_BINARY_CMD_DECREMENT key delta initValue expiry requestId

/-! ## 2. What a block holds after the header is written -/

/-- The header image in network order: big-endian lengths, `opaque` as stored. -/
theorem toBytes_requestHeader {opcode : Byte} {keylen bodylen : Nat} {requestId : BitVec 32}
    (hkey : keylen < 2 ^ 16) (hbody : bodylen < 2 ^ 32) :
    (requestHeader opcode keylen bodylen requestId).adjustEndian.toBytes =
      [PROTOCOL_BINARY_REQ, opcode] ++ beBytes 2 keylen ++ [0, 0] ++ [0, 0] ++
        beBytes 4 bodylen ++ leBytes 4 requestId.toNat ++ leBytes 8 0 := by
  have hkeylen : leBytes 2 (htons (BitVec.ofNat 16 keylen)).toNat = beBytes 2 keylen := by
    rw [htons, leBytes_swapBytes (by norm_num), BitVec.toNat_ofNat, Nat.mod_eq_of_lt hkey]
  have hbodylen : leBytes 4 (htonl (BitVec.ofNat 32 bodylen)).toNat = beBytes 4 bodylen := by
    rw [htonl, leBytes_swapBytes (by norm_num), BitVec.toNat_ofNat, Nat.mod_eq_of_lt hbody]
  simp only [RequestHeader.toBytes, RequestHeader.adjustEndian, requestHeader, hkeylen, hbodylen]
  rfl

/-- Writing the header at the start of a fresh block leaves the rest junk. -/
theorem memcpy_header (junk : Nat → Byte) (extra : Nat) (header : RequestHeader) :
    ∃ rest, rest.length = extra ∧
      memcpy (malloc junk (sizeofHeader + extra)) 0 header.toBytes =
        some (header.toBytes ++ rest) := by
  obtain ⟨front, rest, hsplit, hfront⟩ :=
    exists_split (malloc junk (sizeofHeader + extra)) (n := sizeofHeader) (by simp)
  have hrest : rest.length = extra := by
    have hlen := congrArg List.length hsplit
    simp only [length_malloc, List.length_append, hfront] at hlen
    omega
  refine ⟨rest, hrest, ?_⟩
  rw [hsplit]
  exact memcpy_append [] front rest header.toBytes rfl (by simp [hfront])

theorem keyedRequest_eq (junk : Nat → Byte) (opcode : Byte) (key : Bytes) (bodylen : Nat)
    (requestId : BitVec 32) :
    keyedRequest junk sizeofHeader opcode key bodylen requestId =
      some ((requestHeader opcode key.length bodylen requestId).adjustEndian.toBytes ++ key) := by
  obtain ⟨rest, hrest, hheader⟩ := memcpy_header junk key.length
    (requestHeader opcode key.length bodylen requestId).adjustEndian
  have hkey := memcpy_append
    (requestHeader opcode key.length bodylen requestId).adjustEndian.toBytes rest [] key
    (RequestHeader.length_toBytes _).symm hrest.symm
  simp only [List.append_nil] at hkey
  simp only [keyedRequest, hheader, Option.bind_eq_bind, Option.bind_some, hkey]

theorem getRequest_eq (junk : Nat → Byte) (key : Bytes) (requestId : BitVec 32) :
    getRequest junk key requestId =
      some [(requestHeader PROTOCOL_BINARY_CMD_GETQ key.length key.length
        requestId).adjustEndian.toBytes ++ key] := by
  rw [getRequest, keyedRequest_eq]
  rfl

theorem deleteRequest_eq (junk : Nat → Byte) (key : Bytes) (requestId : BitVec 32) :
    deleteRequest junk key requestId =
      some [(requestHeader PROTOCOL_BINARY_CMD_DELETE key.length key.length
        requestId).adjustEndian.toBytes ++ key] := by
  rw [deleteRequest, keyedRequest_eq]
  rfl

theorem appendCmdRequest_eq (junk : Nat → Byte) (cmd : Byte) (key value : Bytes)
    (requestId : BitVec 32) :
    appendCmdRequest junk cmd key value requestId =
      some [(requestHeader cmd key.length (key.length + value.length)
        requestId).adjustEndian.toBytes ++ key, value] := by
  rw [appendCmdRequest, keyedRequest_eq]
  rfl

/-- A block as long as the header is the header. -/
theorem memcpy_header_only (junk : Nat → Byte) (header : RequestHeader) :
    memcpy (malloc junk sizeofHeader) 0 header.toBytes = some header.toBytes := by
  obtain ⟨rest, hrest, hheader⟩ := memcpy_header junk 0 header
  have hnil : rest = [] := List.length_eq_zero_iff.mp hrest
  rw [hnil, List.append_nil, Nat.add_zero] at hheader
  exact hheader

theorem versionRequest_eq (junk : Nat → Byte) (requestId : BitVec 32) :
    versionRequest junk requestId =
      some [(requestHeader PROTOCOL_BINARY_CMD_VERSION 0 0 requestId).adjustEndian.toBytes] := by
  rw [versionRequest, memcpy_header_only]
  rfl

/-- The block of a flush: the expiry behind the header, and four bytes of padding. -/
theorem flushRequest_eq (junk : Nat → Byte) (expiry requestId : BitVec 32) :
    ∃ pad : Bytes, pad.length = 4 ∧
      flushRequest junk expiry requestId =
        some [(requestHeader PROTOCOL_BINARY_CMD_FLUSH 0 0 requestId).adjustEndian.toBytes ++
          (leBytes 4 (htonl expiry).toNat ++ pad)] := by
  generalize hheader :
    (requestHeader PROTOCOL_BINARY_CMD_FLUSH 0 0 requestId).adjustEndian = header
  obtain ⟨rest, hrest, hwriteHeader⟩ := memcpy_header junk 8 header
  obtain ⟨body, pad, rfl, hbody⟩ := exists_split rest (n := 4) (by omega)
  rw [List.length_append, hbody] at hrest
  refine ⟨pad, by omega, ?_⟩
  have hwriteExpiry := memcpy_append header.toBytes body pad (leBytes 4 (htonl expiry).toNat)
    header.length_toBytes.symm (by simp [hbody])
  have hsize : sizeofRequestFlush = sizeofHeader + 8 := rfl
  simp only [flushRequest, hheader, hsize, hwriteHeader, hwriteExpiry, Option.bind_eq_bind,
    Option.bind_some]
  rfl

/-- Only the empty key fits the block of a stat request. -/
theorem statRequest_eq (junk : Nat → Byte) (key : Bytes) (requestId : BitVec 32) :
    statRequest junk key requestId =
      if key = [] then
        some [(requestHeader PROTOCOL_BINARY_CMD_STAT 0 0 requestId).adjustEndian.toBytes]
      else none := by
  simp only [statRequest, memcpy_header_only, Option.bind_eq_bind, Option.bind_some]
  by_cases hkey : key = []
  · subst hkey
    rw [if_pos rfl, memcpy_of_le (by simp)]
    simp [sizeofHeader, RequestHeader.toBytes]
  · rw [if_neg hkey, memcpy, if_neg]
    · rfl
    · have hpos := List.length_pos_of_ne_nil hkey
      rw [RequestHeader.length_toBytes]
      omega

/-- The store block: the key lies over the extras and eight bytes are left
    behind it. -/
theorem storeCmdRequest_eq (junk : Nat → Byte) (cmd : Byte) (key : Bytes) (flag expiry : BitVec 32)
    (buf : Bytes) (requestId : BitVec 32) :
    ∃ spill : Bytes, spill.length = 8 ∧
      storeCmdRequest junk cmd key flag expiry buf requestId =
        some [(requestHeader cmd key.length (key.length + buf.length)
          requestId).adjustEndian.toBytes ++ (key ++ spill), buf] := by
  obtain ⟨rest, hrest, hheader⟩ := memcpy_header junk (8 + key.length)
    (requestHeader cmd key.length (key.length + buf.length) requestId).adjustEndian
  obtain ⟨flags, rest', rfl, hflags⟩ := exists_split rest (n := 4) (by omega)
  obtain ⟨expiration, tail, rfl, hexpiration⟩ := exists_split rest' (n := 4) (by
    simp only [List.length_append] at hrest
    omega)
  have htail : tail.length = key.length := by
    simp only [List.length_append] at hrest
    omega
  have hbody : (leBytes 4 (htonl flag).toNat ++ (leBytes 4 (htonl expiry).toNat ++ tail)).length =
      key.length + 8 := by
    simp only [List.length_append, length_leBytes]
    omega
  obtain ⟨front, spill, hsplit, hfront⟩ := exists_split
    (leBytes 4 (htonl flag).toNat ++ (leBytes 4 (htonl expiry).toNat ++ tail))
    (n := key.length) (by omega)
  have hspill : spill.length = 8 := by
    rw [hsplit, List.length_append] at hbody
    omega
  refine ⟨spill, hspill, ?_⟩
  have hsize : sizeofRequestSet + key.length = sizeofHeader + (8 + key.length) := by
    simp only [sizeofRequestSet, sizeofHeader]
    omega
  -- the four writes, in the order of the source
  have hwriteFlags := memcpy_append
    (requestHeader cmd key.length (key.length + buf.length) requestId).adjustEndian.toBytes
    flags (expiration ++ tail) (leBytes 4 (htonl flag).toNat)
    (RequestHeader.length_toBytes _).symm (by simp [hflags])
  have hwriteExpiry := memcpy_append
    ((requestHeader cmd key.length (key.length + buf.length) requestId).adjustEndian.toBytes ++
      leBytes 4 (htonl flag).toNat) expiration tail (leBytes 4 (htonl expiry).toNat)
    (i := sizeofHeader + 4) (by simp) (by simp [hexpiration])
  have hwriteKey := memcpy_append
    (requestHeader cmd key.length (key.length + buf.length) requestId).adjustEndian.toBytes
    front spill key (RequestHeader.length_toBytes _).symm hfront.symm
  rw [List.append_assoc, List.append_assoc] at hwriteExpiry
  rw [← hsplit] at hwriteKey
  simp only [storeCmdRequest, hsize, hheader, hwriteFlags, hwriteExpiry, hwriteKey,
    Option.bind_eq_bind, Option.bind_some]
  rfl

/-- The block of an increment or decrement: the three arguments behind the header, four
    bytes of padding, the key. -/
theorem selfOpRequest_eq (junk : Nat → Byte) (cmd : Byte) (key : Bytes)
    (delta initValue : BitVec 64) (expiry requestId : BitVec 32) :
    ∃ pad : Bytes, pad.length = 4 ∧
      selfOpRequest junk cmd key delta initValue expiry requestId =
        some [(requestHeader cmd key.length key.length requestId).adjustEndian.toBytes ++
          (leBytes 8 (htonll delta).toNat ++ (leBytes 8 (htonll initValue).toNat ++
            (leBytes 4 (htonl expiry).toNat ++ (pad ++ key))))] := by
  generalize hheader : (requestHeader cmd key.length key.length requestId).adjustEndian = header
  obtain ⟨rest, hrest, hwriteHeader⟩ := memcpy_header junk (24 + key.length) header
  obtain ⟨first, rest, rfl, hfirst⟩ := exists_split rest (n := 8) (by omega)
  rw [List.length_append, hfirst] at hrest
  obtain ⟨second, rest, rfl, hsecond⟩ := exists_split rest (n := 8) (by omega)
  rw [List.length_append, hsecond] at hrest
  obtain ⟨third, rest, rfl, hthird⟩ := exists_split rest (n := 4) (by omega)
  rw [List.length_append, hthird] at hrest
  obtain ⟨pad, tail, rfl, hpad⟩ := exists_split rest (n := 4) (by omega)
  rw [List.length_append, hpad] at hrest
  refine ⟨pad, hpad, ?_⟩
  have hsize : sizeofRequestIncr + key.length = sizeofHeader + (24 + key.length) := by
    simp only [sizeofRequestIncr, sizeofHeader]
    omega
  -- the writes behind the header, in the order of the source
  have hwriteDelta := memcpy_append header.toBytes first (second ++ (third ++ (pad ++ tail)))
    (leBytes 8 (htonll delta).toNat) header.length_toBytes.symm (by simp [hfirst])
  have hwriteInitial := memcpy_append (header.toBytes ++ leBytes 8 (htonll delta).toNat) second
    (third ++ (pad ++ tail)) (leBytes 8 (htonll initValue).toNat) (i := sizeofHeader + 8)
    (by simp) (by simp [hsecond])
  have hwriteExpiry := memcpy_append
    (header.toBytes ++ (leBytes 8 (htonll delta).toNat ++ leBytes 8 (htonll initValue).toNat)) third
    (pad ++ tail) (leBytes 4 (htonl expiry).toNat) (i := sizeofHeader + 16) (by simp)
    (by simp [hthird])
  have hwriteKey := memcpy_append
    (header.toBytes ++ (leBytes 8 (htonll delta).toNat ++ (leBytes 8 (htonll initValue).toNat ++
      (leBytes 4 (htonl expiry).toNat ++ pad)))) tail [] key (i := sizeofRequestIncr)
    (by simp [hpad, sizeofRequestIncr, sizeofHeader]) (by omega)
  simp only [List.append_assoc, List.append_nil] at hwriteInitial hwriteExpiry hwriteKey
  simp only [selfOpRequest, hsize, hheader, hwriteHeader, hwriteDelta, hwriteInitial, hwriteExpiry,
    hwriteKey, Option.bind_eq_bind, Option.bind_some]
  rfl

theorem selfOpRequest_isSome (junk : Nat → Byte) (cmd : Byte) (key : Bytes)
    (delta initValue : BitVec 64) (expiry requestId : BitVec 32) :
    (selfOpRequest junk cmd key delta initValue expiry requestId).isSome := by
  obtain ⟨pad, -, heq⟩ := selfOpRequest_eq junk cmd key delta initValue expiry requestId
  rw [heq]
  rfl

end MemClient
