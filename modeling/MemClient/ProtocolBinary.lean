import MemClient.HostNetConversion

/-!
# The memcached binary protocol as the client sees it

Opcodes, the in-memory layout of the two packed 24-byte headers on a
little-endian host, and the client's `AdjustEndian` on each.  Section 4 is the
other side of the wire: the parser of a binary-protocol server, written from
the protocol and not from the client.
-/

namespace MemClient

open ByteCodec

/-! ## 1. Constants -/

def PROTOCOL_BINARY_REQ : Byte := 0x80
def PROTOCOL_BINARY_RES : Byte := 0x81

def PROTOCOL_BINARY_CMD_SET : Byte := 0x01
def PROTOCOL_BINARY_CMD_ADD : Byte := 0x02
def PROTOCOL_BINARY_CMD_REPLACE : Byte := 0x03
def PROTOCOL_BINARY_CMD_DELETE : Byte := 0x04
def PROTOCOL_BINARY_CMD_INCREMENT : Byte := 0x05
def PROTOCOL_BINARY_CMD_DECREMENT : Byte := 0x06
def PROTOCOL_BINARY_CMD_FLUSH : Byte := 0x08
def PROTOCOL_BINARY_CMD_GETQ : Byte := 0x09
def PROTOCOL_BINARY_CMD_VERSION : Byte := 0x0b
def PROTOCOL_BINARY_CMD_APPEND : Byte := 0x0e
def PROTOCOL_BINARY_CMD_PREPEND : Byte := 0x0f
def PROTOCOL_BINARY_CMD_STAT : Byte := 0x10

/-- `sizeof` of the header and of every request struct without extras. -/
def sizeofHeader : Nat := 24

/-- `sizeof(protocol_binary_request_set)`: the header, `flags`, `expiration`. -/
def sizeofRequestSet : Nat := 32

/-- `sizeof(protocol_binary_request_flush)`: the header and a field of 32 bits, padded to
    a multiple of 8. -/
def sizeofRequestFlush : Nat := 32

/-- `sizeof(protocol_binary_request_incr)`: the header, two 64-bit fields and one of
    32 bits, padded to a multiple of 8. -/
def sizeofRequestIncr : Nat := 48

/-! ## 2. Request headers -/

/-- `protocol_binary_request_header`; `opaqueId` is the field `opaque`. -/
structure RequestHeader where
  magic : Byte
  opcode : Byte
  keylen : BitVec 16
  extlen : Byte
  datatype : Byte
  reserved : BitVec 16
  bodylen : BitVec 32
  opaqueId : BitVec 32
  cas : BitVec 64
deriving DecidableEq

def RequestHeader.toBytes (h : RequestHeader) : Bytes :=
  [h.magic, h.opcode] ++ leBytes 2 h.keylen.toNat ++ [h.extlen, h.datatype] ++
    leBytes 2 h.reserved.toNat ++ leBytes 4 h.bodylen.toNat ++ leBytes 4 h.opaqueId.toNat ++
    leBytes 8 h.cas.toNat

@[simp] theorem RequestHeader.length_toBytes (h : RequestHeader) :
    h.toBytes.length = sizeofHeader := by
  simp [RequestHeader.toBytes, sizeofHeader]

/-- `MemcachedClient::AdjustEndian(protocol_binary_request_header*)`. -/
def RequestHeader.adjustEndian (request : RequestHeader) : RequestHeader :=
  { request with
    keylen := htons request.keylen
    bodylen := htonl request.bodylen
    cas := htonll request.cas }

/-! ## 3. Response headers -/

/-- `protocol_binary_response_header`; `opaqueId` is the field `opaque`. -/
structure ResponseHeader where
  magic : Byte
  opcode : Byte
  keylen : BitVec 16
  extlen : Byte
  datatype : Byte
  status : BitVec 16
  bodylen : BitVec 32
  opaqueId : BitVec 32
  cas : BitVec 64
deriving DecidableEq

/-- The struct that a 24-byte buffer holds once it is cast. -/
def ResponseHeader.ofBytes (bs : Bytes) : ResponseHeader where
  magic := BitVec.ofNat 8 (leValue (slice bs 0 1))
  opcode := BitVec.ofNat 8 (leValue (slice bs 1 1))
  keylen := BitVec.ofNat 16 (leValue (slice bs 2 2))
  extlen := BitVec.ofNat 8 (leValue (slice bs 4 1))
  datatype := BitVec.ofNat 8 (leValue (slice bs 5 1))
  status := BitVec.ofNat 16 (leValue (slice bs 6 2))
  bodylen := BitVec.ofNat 32 (leValue (slice bs 8 4))
  opaqueId := BitVec.ofNat 32 (leValue (slice bs 12 4))
  cas := BitVec.ofNat 64 (leValue (slice bs 16 8))

def ResponseHeader.toBytes (h : ResponseHeader) : Bytes :=
  [h.magic, h.opcode] ++ leBytes 2 h.keylen.toNat ++ [h.extlen, h.datatype] ++
    leBytes 2 h.status.toNat ++ leBytes 4 h.bodylen.toNat ++ leBytes 4 h.opaqueId.toNat ++
    leBytes 8 h.cas.toNat

@[simp] theorem ResponseHeader.length_toBytes (h : ResponseHeader) :
    h.toBytes.length = sizeofHeader := by
  simp [ResponseHeader.toBytes, sizeofHeader]

/-- A field that is stored to memory and loaded again is unchanged. -/
theorem ofNat_leValue_leBytes {n w : Nat} (hw : 2 ^ w = 256 ^ n) (x : BitVec w) :
    BitVec.ofNat w (leValue (leBytes n x.toNat)) = x := by
  have hlt : x.toNat < 256 ^ n := hw ▸ x.isLt
  apply BitVec.eq_of_toNat_eq
  rw [leValue_leBytes, Nat.mod_eq_of_lt hlt, BitVec.ofNat_toNat, BitVec.setWidth_eq]

theorem ResponseHeader.ofBytes_toBytes (h : ResponseHeader) :
    ResponseHeader.ofBytes h.toBytes = h := by
  have hkeylen := ofNat_leValue_leBytes (n := 2) (by norm_num) h.keylen
  have hstatus := ofNat_leValue_leBytes (n := 2) (by norm_num) h.status
  have hbodylen := ofNat_leValue_leBytes (n := 4) (by norm_num) h.bodylen
  have hecho := ofNat_leValue_leBytes (n := 4) (by norm_num) h.opaqueId
  have hcas := ofNat_leValue_leBytes (n := 8) (by norm_num) h.cas
  have hbyte (b : Byte) : BitVec.ofNat 8 (leValue [b]) = b := by simp [leValue]
  cases h
  simp only [ResponseHeader.mk.injEq, ResponseHeader.ofBytes]
  exact ⟨hbyte _, hbyte _, hkeylen, hbyte _, hbyte _, hstatus, hbodylen, hecho, hcas⟩

/-- `MemcachedClient::AdjustEndian(protocol_binary_response_header*)`; the last
    line converts `status` a second time, as the source does. -/
def ResponseHeader.adjustEndian (response : ResponseHeader) : ResponseHeader :=
  let response := { response with keylen := ntohs response.keylen }
  let response := { response with status := ntohs response.status }
  let response := { response with bodylen := ntohl response.bodylen }
  let response := { response with cas := ntohll response.cas }
  { response with status := ntohs response.status }

/-- The struct that `OnHeaderReaded` works on, for the bytes the network
    delivered. -/
def decodeReply (header : Bytes) : ResponseHeader := (ResponseHeader.ofBytes header).adjustEndian

section Decode

variable {header : Bytes} (hlen : header.length = sizeofHeader)
include hlen

theorem decodeReply_keylen : (decodeReply header).keylen.toNat = beValue (slice header 2 2) :=
  toNat_swapBytes_ofNat_leValue (by norm_num) (length_slice (by simp [hlen, sizeofHeader]))

theorem decodeReply_bodylen : (decodeReply header).bodylen.toNat = beValue (slice header 8 4) :=
  toNat_swapBytes_ofNat_leValue (by norm_num) (length_slice (by simp [hlen, sizeofHeader]))

theorem decodeReply_extlen : (decodeReply header).extlen.toNat = leValue (slice header 4 1) := by
  have hlt := leValue_lt (slice header 4 1)
  rw [length_slice (by simp [hlen, sizeofHeader])] at hlt
  exact Nat.mod_eq_of_lt hlt

/-- The two conversions of `status` cancel, so the client sees the wire bytes
    in the host's own order. -/
theorem decodeReply_status : (decodeReply header).status.toNat = leValue (slice header 6 2) := by
  have hswap : (decodeReply header).status = BitVec.ofNat 16 (leValue (slice header 6 2)) :=
    swapBytes_swapBytes (by norm_num) _
  have hlt := leValue_lt (slice header 6 2)
  rw [length_slice (by simp [hlen, sizeofHeader])] at hlt
  rw [hswap]
  exact Nat.mod_eq_of_lt hlt

theorem decodeReply_status_eq_zero_iff :
    (decodeReply header).status = 0 ↔ beValue (slice header 6 2) = 0 := by
  rw [beValue_eq_zero_iff, ← decodeReply_status hlen]
  constructor
  · intro h; simp [h]
  · intro h; exact BitVec.eq_of_toNat_eq (by simpa using h)

end Decode

/-! ## 4. A binary-protocol request parser -/

/-- One request frame as a server reads it. -/
structure ParsedRequest where
  opcode : Byte
  extras : Bytes
  key : Bytes
  value : Bytes
  opaqueBytes : Bytes
deriving DecidableEq

/-- Read one request frame: the header with big-endian `keylen` and `bodylen`,
    then `bodylen` bytes split into extras, key and value. -/
def parseRequest (bs : Bytes) : Option (ParsedRequest × Bytes) :=
  let keylen := beValue (slice bs 2 2)
  let extlen := beValue (slice bs 4 1)
  let bodylen := beValue (slice bs 8 4)
  let body := slice bs sizeofHeader bodylen
  if bs.head? = some PROTOCOL_BINARY_REQ ∧ extlen + keylen ≤ bodylen ∧
      sizeofHeader + bodylen ≤ bs.length then
    some
      ({ opcode := bs.getD 1 0
         extras := slice body 0 extlen
         key := slice body extlen keylen
         value := body.drop (extlen + keylen)
         opaqueBytes := slice bs 12 4 },
       bs.drop (sizeofHeader + bodylen))
  else none

/-- A well-formed request frame; the bounds are those of the header fields. -/
structure RequestFrame where
  opcode : Byte
  extras : Bytes
  key : Bytes
  value : Bytes
  opaqueBytes : Bytes
  extras_lt : extras.length < 2 ^ 8
  key_lt : key.length < 2 ^ 16
  body_lt : extras.length + key.length + value.length < 2 ^ 32
  opaque_length : opaqueBytes.length = 4

namespace RequestFrame

variable (frame : RequestFrame)

def bodylen : Nat := frame.extras.length + frame.key.length + frame.value.length

/-- The header of the frame on the wire, with data type, reserved field and
    `cas` zero. -/
def header : Bytes :=
  [PROTOCOL_BINARY_REQ, frame.opcode] ++ beBytes 2 frame.key.length ++
    [BitVec.ofNat 8 frame.extras.length, 0] ++ [0, 0] ++ beBytes 4 frame.bodylen ++
    frame.opaqueBytes ++ leBytes 8 0

def body : Bytes := frame.extras ++ (frame.key ++ frame.value)

def bytes : Bytes := frame.header ++ frame.body

def view : ParsedRequest where
  opcode := frame.opcode
  extras := frame.extras
  key := frame.key
  value := frame.value
  opaqueBytes := frame.opaqueBytes

@[simp] theorem length_header : frame.header.length = sizeofHeader := by
  simp [header, sizeofHeader, frame.opaque_length]

@[simp] theorem length_body : frame.body.length = frame.bodylen := by
  simp only [body, bodylen, List.length_append]
  omega

theorem bytes_ne_nil : frame.bytes ≠ [] := by
  simp [bytes, header]

theorem keylen_header : beValue (slice frame.header 2 2) = frame.key.length := by
  have hslice : slice frame.header 2 2 = beBytes 2 frame.key.length := by
    unfold header
    simp only [List.append_assoc]
    exact slice_append_mid [PROTOCOL_BINARY_REQ, frame.opcode] _ _ rfl (by simp)
  rw [hslice, beValue_beBytes]
  exact Nat.mod_eq_of_lt frame.key_lt

theorem extlen_header : beValue (slice frame.header 4 1) = frame.extras.length := by
  have hslice : slice frame.header 4 1 = [BitVec.ofNat 8 frame.extras.length] := by
    have h := slice_append_mid ([PROTOCOL_BINARY_REQ, frame.opcode] ++ beBytes 2 frame.key.length)
      [BitVec.ofNat 8 frame.extras.length]
      ([0, 0, 0] ++ beBytes 4 frame.bodylen ++ frame.opaqueBytes ++ leBytes 8 0)
      (i := 4) (n := 1) (by simp) rfl
    simpa [header] using h
  rw [hslice]
  have hval : beValue [BitVec.ofNat 8 frame.extras.length] = frame.extras.length % 2 ^ 8 := by
    simp [beValue, leValue]
  rw [hval]
  exact Nat.mod_eq_of_lt frame.extras_lt

theorem bodylen_header : beValue (slice frame.header 8 4) = frame.bodylen := by
  have hslice : slice frame.header 8 4 = beBytes 4 frame.bodylen := by
    have h := slice_append_mid ([PROTOCOL_BINARY_REQ, frame.opcode] ++
      beBytes 2 frame.key.length ++ [BitVec.ofNat 8 frame.extras.length, 0] ++ [0, 0])
      (beBytes 4 frame.bodylen) (frame.opaqueBytes ++ leBytes 8 0)
      (i := 8) (n := 4) (by simp) (by simp)
    simpa [header] using h
  rw [hslice, beValue_beBytes]
  exact Nat.mod_eq_of_lt frame.body_lt

theorem opaque_header : slice frame.header 12 4 = frame.opaqueBytes := by
  have h := slice_append_mid ([PROTOCOL_BINARY_REQ, frame.opcode] ++
    beBytes 2 frame.key.length ++ [BitVec.ofNat 8 frame.extras.length, 0] ++ [0, 0] ++
    beBytes 4 frame.bodylen) frame.opaqueBytes (leBytes 8 0)
    (i := 12) (n := 4) (by simp) (by simp [frame.opaque_length])
  simpa [header] using h

/-- The parser reads a frame back from the front of any stream and consumes
    exactly its bytes. -/
theorem parseRequest_bytes (rest : Bytes) :
    parseRequest (frame.bytes ++ rest) = some (frame.view, rest) := by
  have hshape : frame.bytes ++ rest = frame.header ++ (frame.body ++ rest) := by
    simp [bytes]
  have hfield (off len : Nat) (h : off + len ≤ sizeofHeader) :
      slice (frame.bytes ++ rest) off len = slice frame.header off len := by
    rw [hshape]
    exact slice_append_left (by rw [length_header]; exact h)
  have hkey := hfield 2 2 (by decide)
  have hext := hfield 4 1 (by decide)
  have hbodylen := hfield 8 4 (by decide)
  have hecho := hfield 12 4 (by decide)
  have hbody : slice (frame.bytes ++ rest) sizeofHeader frame.bodylen = frame.body := by
    rw [hshape]
    exact slice_append_mid _ _ _ frame.length_header.symm frame.length_body.symm
  have hrest : (frame.bytes ++ rest).drop (sizeofHeader + frame.bodylen) = rest := by
    have hlen : sizeofHeader + frame.bodylen = frame.bytes.length := by simp [bytes]
    rw [hlen, List.drop_left]
  have hmagic : (frame.bytes ++ rest).head? = some PROTOCOL_BINARY_REQ := rfl
  have hopcode : (frame.bytes ++ rest).getD 1 0 = frame.opcode := rfl
  have hextras : slice frame.body 0 frame.extras.length = frame.extras := by
    simp [slice, body]
  have hkeybytes : slice frame.body frame.extras.length frame.key.length = frame.key :=
    slice_append_mid _ _ _ rfl rfl
  have hvalue : frame.body.drop (frame.extras.length + frame.key.length) = frame.value := by
    simp [body, ← List.drop_drop]
  have hlen : sizeofHeader + frame.bodylen ≤ (frame.bytes ++ rest).length := by
    simp [bytes]
  simp only [parseRequest, hkey, hext, hbodylen, hecho, keylen_header, extlen_header,
    bodylen_header, opaque_header, hbody, hrest, hmagic, hopcode, hextras, hkeybytes, hvalue]
  rw [if_pos ⟨trivial, by unfold bodylen; omega, hlen⟩]
  rfl

end RequestFrame

def parseRequests (bs : Bytes) : Option (List ParsedRequest) :=
  parseAll parseRequest bs.length bs

/-- A concatenation of frames parses into exactly these frames. -/
theorem parseRequests_flatMap (frames : List RequestFrame) :
    parseRequests (frames.flatMap RequestFrame.bytes) = some (frames.map RequestFrame.view) :=
  parseAll_flatMap (fun frame _ rest => frame.parseRequest_bytes rest)
    (fun frame _ => frame.bytes_ne_nil) (Nat.le_refl _)

end MemClient
