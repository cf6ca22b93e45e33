import MemClient.Link

/-!
# A server that follows the binary protocol

The replies of a memcached server, written from the protocol and not from the
client: a quiet `GETQ` is answered on a hit only, every other command is answered
with one frame, and every answer echoes `opaque`.  What the server holds is a
parameter of each request it processes, so other clients may change it at any
time.
-/

namespace MemClient

open ByteCodec

/-- What a server holds when it processes a request, and what it says to a
    command that is not quiet. -/
structure ServerContents where
  lookup : Bytes → Option (BitVec 32 × Bytes)
  answer : ParsedRequest → BitVec 16 × Bytes
  cas : BitVec 64

def replyHeader (opcode : Byte) (status : BitVec 16) (extlen bodylen : Nat)
    (opaqueBytes : Bytes) (cas : BitVec 64) : Bytes :=
  [PROTOCOL_BINARY_RES, opcode] ++ beBytes 2 0 ++ [BitVec.ofNat 8 extlen, 0] ++
    beBytes 2 status.toNat ++ beBytes 4 bodylen ++ opaqueBytes ++ beBytes 8 cas.toNat

def replyBytes (opcode : Byte) (status : BitVec 16) (extras value opaqueBytes : Bytes)
    (cas : BitVec 64) : Bytes :=
  replyHeader opcode status extras.length (extras.length + value.length) opaqueBytes cas ++
    (extras ++ value)

/-- The bytes a server sends for one request, if any. -/
def serve (contents : ServerContents) (request : ParsedRequest) : Option Bytes :=
  if request.opcode = PROTOCOL_BINARY_CMD_GETQ then
    (contents.lookup request.key).map fun (flags, value) =>
      replyBytes request.opcode 0 (beBytes 4 flags.toNat) value request.opaqueBytes contents.cas
  else
    let (status, text) := contents.answer request
    some (replyBytes request.opcode status [] text request.opaqueBytes contents.cas)

theorem serve_getq_hit {contents : ServerContents} {request : ParsedRequest} {flags : BitVec 32}
    {value : Bytes} (hop : request.opcode = PROTOCOL_BINARY_CMD_GETQ)
    (hhit : contents.lookup request.key = some (flags, value)) :
    serve contents request =
      some (replyBytes request.opcode 0 (beBytes 4 flags.toNat) value request.opaqueBytes
        contents.cas) := by
  simp [serve, hop, hhit]

theorem serve_of_ne_getq {contents : ServerContents} {request : ParsedRequest}
    (hop : request.opcode ≠ PROTOCOL_BINARY_CMD_GETQ) :
    serve contents request =
      some (replyBytes request.opcode (contents.answer request).1 [] (contents.answer request).2
        request.opaqueBytes contents.cas) := by
  simp [serve, hop]

section Header

variable {opcode : Byte} {status : BitVec 16} {extlen bodylen : Nat} {opaqueBytes : Bytes}
  {cas : BitVec 64}

theorem length_replyHeader (hecho : opaqueBytes.length = 4) :
    (replyHeader opcode status extlen bodylen opaqueBytes cas).length = sizeofHeader := by
  simp [replyHeader, sizeofHeader, hecho]

theorem keylen_replyHeader :
    beValue (slice (replyHeader opcode status extlen bodylen opaqueBytes cas) 2 2) = 0 := by
  have hslice : slice (replyHeader opcode status extlen bodylen opaqueBytes cas) 2 2 =
      beBytes 2 0 := by
    unfold replyHeader
    simp only [List.append_assoc]
    exact slice_append_mid [PROTOCOL_BINARY_RES, opcode] _ _ rfl (by simp)
  rw [hslice, beValue_beBytes]
  rfl

theorem extlen_replyHeader (hext : extlen < 2 ^ 8) :
    leValue (slice (replyHeader opcode status extlen bodylen opaqueBytes cas) 4 1) = extlen := by
  have h := slice_append_mid ([PROTOCOL_BINARY_RES, opcode] ++ beBytes 2 0)
    [BitVec.ofNat 8 extlen] ([0] ++ beBytes 2 status.toNat ++ beBytes 4 bodylen ++ opaqueBytes ++
      beBytes 8 cas.toNat) (i := 4) (n := 1) (by simp) rfl
  have hslice : slice (replyHeader opcode status extlen bodylen opaqueBytes cas) 4 1 =
      [BitVec.ofNat 8 extlen] := by simpa [replyHeader] using h
  rw [hslice]
  have hval : leValue [BitVec.ofNat 8 extlen] = extlen % 2 ^ 8 := by simp [leValue]
  rw [hval]
  exact Nat.mod_eq_of_lt hext

theorem status_replyHeader :
    beValue (slice (replyHeader opcode status extlen bodylen opaqueBytes cas) 6 2) =
      status.toNat := by
  have h := slice_append_mid ([PROTOCOL_BINARY_RES, opcode] ++ beBytes 2 0 ++
      [BitVec.ofNat 8 extlen, 0]) (beBytes 2 status.toNat) (beBytes 4 bodylen ++ opaqueBytes ++
      beBytes 8 cas.toNat) (i := 6) (n := 2) (by simp) (by simp)
  have hslice : slice (replyHeader opcode status extlen bodylen opaqueBytes cas) 6 2 =
      beBytes 2 status.toNat := by simpa [replyHeader] using h
  rw [hslice, beValue_beBytes]
  exact Nat.mod_eq_of_lt status.isLt

theorem bodylen_replyHeader (hbody : bodylen < 2 ^ 32) :
    beValue (slice (replyHeader opcode status extlen bodylen opaqueBytes cas) 8 4) = bodylen := by
  have h := slice_append_mid ([PROTOCOL_BINARY_RES, opcode] ++ beBytes 2 0 ++
      [BitVec.ofNat 8 extlen, 0] ++ beBytes 2 status.toNat) (beBytes 4 bodylen)
      (opaqueBytes ++ beBytes 8 cas.toNat) (i := 8) (n := 4) (by simp) (by simp)
  have hslice : slice (replyHeader opcode status extlen bodylen opaqueBytes cas) 8 4 =
      beBytes 4 bodylen := by simpa [replyHeader] using h
  rw [hslice, beValue_beBytes]
  exact Nat.mod_eq_of_lt hbody

theorem opaque_replyHeader (hecho : opaqueBytes.length = 4) :
    slice (replyHeader opcode status extlen bodylen opaqueBytes cas) 12 4 = opaqueBytes := by
  have h := slice_append_mid ([PROTOCOL_BINARY_RES, opcode] ++ beBytes 2 0 ++
      [BitVec.ofNat 8 extlen, 0] ++ beBytes 2 status.toNat ++ beBytes 4 bodylen) opaqueBytes
      (beBytes 8 cas.toNat) (i := 12) (n := 4) (by simp) (by simp [hecho])
  simpa [replyHeader] using h

end Header

def replyFrame (opcode : Byte) (status : BitVec 16) (extras value opaqueBytes : Bytes)
    (cas : BitVec 64) (hext : extras.length < 2 ^ 8)
    (hbody : extras.length + value.length < 2 ^ 32) (hecho : opaqueBytes.length = 4) :
    ReplyFrame where
  header := replyHeader opcode status extras.length (extras.length + value.length) opaqueBytes cas
  body := extras ++ value
  header_length := length_replyHeader hecho
  body_length := by rw [bodylen_replyHeader hbody, List.length_append]
  parts_le := by
    rw [extlen_replyHeader hext, keylen_replyHeader, List.length_append]
    omega

section Frame

variable {opcode : Byte} {status : BitVec 16} {extras value opaqueBytes : Bytes}
  {cas : BitVec 64} {hext : extras.length < 2 ^ 8}
  {hbody : extras.length + value.length < 2 ^ 32} {hecho : opaqueBytes.length = 4}

@[simp] theorem bytes_replyFrame :
    (replyFrame opcode status extras value opaqueBytes cas hext hbody hecho).bytes =
      replyBytes opcode status extras value opaqueBytes cas := rfl

@[simp] theorem keylen_replyFrame :
    (replyFrame opcode status extras value opaqueBytes cas hext hbody hecho).keylen = 0 :=
  keylen_replyHeader

@[simp] theorem extlen_replyFrame :
    (replyFrame opcode status extras value opaqueBytes cas hext hbody hecho).extlen =
      extras.length :=
  extlen_replyHeader hext

@[simp] theorem value_replyFrame :
    (replyFrame opcode status extras value opaqueBytes cas hext hbody hecho).value = value := by
  rw [ReplyFrame.value, extlen_replyFrame, keylen_replyFrame]
  exact List.drop_left

theorem requestId_replyFrame :
    (replyFrame opcode status extras value opaqueBytes cas hext hbody hecho).requestId =
      BitVec.ofNat 32 (leValue opaqueBytes) := by
  rw [ReplyFrame.requestId]
  exact congrArg (fun bs => BitVec.ofNat 32 (leValue bs)) (opaque_replyHeader hecho)

theorem status_replyFrame_eq_success (hstatus : status = 0) :
    (replyFrame opcode status extras value opaqueBytes cas hext hbody hecho).status =
      ERequest_SUCCESS := by
  refine (decodeReply_status_eq_zero_iff (length_replyHeader hecho)).mpr ?_
  rw [status_replyHeader, hstatus]
  rfl

end Frame

end MemClient
