import MemClient.RequestStream

/-!
# Requests to a given server

`Flush`, `Stat` and `Version` go to one server that the caller names.  Each
encoder sets the size of its block, the lengths in the header and the writes
behind the header on its own.  Section 1 has the calls and what a server should
read of them; Section 2 says for which calls it does.
-/

namespace MemClient

open ByteCodec

/-! ## 1. Calls and frames -/

/-- A call of one of the operations that are directed to a server. -/
inductive DirectedCall where
  | flush (expiry : BitVec 32)
  | stat (key : Bytes)
  | version
deriving DecidableEq

namespace DirectedCall

def opcode : DirectedCall → Byte
  | flush _ => PROTOCOL_BINARY_CMD_FLUSH
  | stat _ => PROTOCOL_BINARY_CMD_STAT
  | version => PROTOCOL_BINARY_CMD_VERSION

/-- What the protocol lets a request say beside its key: the expiry of a flush. -/
def extras : DirectedCall → Bytes
  | flush expiry => beBytes 4 expiry.toNat
  | _ => []

def key : DirectedCall → Bytes
  | stat key => key
  | _ => []

def buffers (junk : Nat → Byte) (requestId : BitVec 32) : DirectedCall → Option (List Bytes)
  | flush expiry => flushRequest junk expiry requestId
  | stat key => statRequest junk key requestId
  | version => versionRequest junk requestId

def request (call : DirectedCall) (requestId : BitVec 32) : ParsedRequest where
  opcode := call.opcode
  extras := call.extras
  key := call.key
  value := []
  opaqueBytes := leBytes 4 requestId.toNat

/-- Nothing of the call has to travel behind the header: a version, or a stat without a
    key. -/
def HeaderOnly : DirectedCall → Prop
  | flush _ => False
  | stat key => key = []
  | version => True

theorem HeaderOnly.extras_key {call : DirectedCall} (hcall : call.HeaderOnly) :
    call.extras = [] ∧ call.key = [] := by
  cases call with
  | flush expiry => exact hcall.elim
  | stat key => exact ⟨rfl, hcall⟩
  | version => exact ⟨rfl, rfl⟩

end DirectedCall

/-- A call as sent: its 32-bit id, and what `malloc` left in its block. -/
structure SentDirected where
  call : DirectedCall
  requestId : BitVec 32
  junk : Nat → Byte

def SentDirected.buffers (sent : SentDirected) : Option (List Bytes) :=
  sent.call.buffers sent.junk sent.requestId

def SentDirected.request (sent : SentDirected) : ParsedRequest := sent.call.request sent.requestId

/-- The buffer is as long as its header says, and the header counts extras and key. -/
def IsWholeFrame (buf : Bytes) : Prop :=
  buf.length = sizeofHeader + beValue (slice buf 8 4) ∧
    beValue (slice buf 8 4) = beValue (slice buf 4 1) + beValue (slice buf 2 2)

/-- Every call hands one whole frame to the socket, written inside its block, and the
    server reads the calls back in order. -/
def CarriedExactly (sents : List SentDirected) : Prop :=
  (∀ sent ∈ sents, ∃ buf, sent.buffers = some [buf] ∧ IsWholeFrame buf) ∧
    ∃ bufs, sents.mapM SentDirected.buffers = some bufs ∧
      parseRequests bufs.flatten.flatten = some (sents.map SentDirected.request)

/-- What a header that announces no body is read as, whatever follows it. -/
theorem bodylen_requestHeader_zero (opcode : Byte) (requestId : BitVec 32) (rest : Bytes) :
    beValue (slice ((requestHeader opcode 0 0 requestId).adjustEndian.toBytes ++ rest) 8 4) =
      0 := by
  have hslice : slice ((requestHeader opcode 0 0 requestId).adjustEndian.toBytes ++ rest) 8 4 =
      beBytes 4 0 := by
    rw [slice_append_left (by simp [sizeofHeader]),
      toBytes_requestHeader (by norm_num) (by norm_num)]
    rfl
  rw [hslice, beValue_beBytes, Nat.zero_mod]

/-! ## 2. Which calls are carried -/

section Calls

variable (junk : Nat → Byte) (requestId : BitVec 32)

theorem isWholeFrame_headerFrame (opcode : Byte) :
    IsWholeFrame (headerFrame opcode requestId).bytes := by
  have hbytes : (headerFrame opcode requestId).bytes = (headerFrame opcode requestId).header := by
    simp [RequestFrame.bytes, RequestFrame.body, headerFrame]
  rw [IsWholeFrame, hbytes, RequestFrame.bodylen_header, RequestFrame.extlen_header,
    RequestFrame.keylen_header, RequestFrame.length_header]
  exact ⟨rfl, rfl⟩

/-- A call without extras and key sends its header and nothing else. -/
theorem DirectedCall.buffers_of_headerOnly {call : DirectedCall} (hcall : call.HeaderOnly) :
    call.buffers junk requestId = some [(headerFrame call.opcode requestId).bytes] := by
  rw [bytes_headerFrame]
  cases call with
  | flush expiry => exact hcall.elim
  | stat key =>
      have hkey : key = [] := hcall
      rw [buffers, statRequest_eq, if_pos hkey]
      rfl
  | version => exact versionRequest_eq junk requestId

/-- The block of a flush is eight bytes longer than its header announces. -/
theorem not_isWholeFrame_flush {expiry : BitVec 32} {buf : Bytes}
    (hbuf : flushRequest junk expiry requestId = some [buf]) : ¬ IsWholeFrame buf := by
  rintro ⟨hlen, -⟩
  obtain ⟨pad, hpad, heq⟩ := flushRequest_eq junk expiry requestId
  rw [heq, Option.some.injEq, List.cons.injEq] at hbuf
  rw [← hbuf.1, bodylen_requestHeader_zero] at hlen
  simp [hpad, sizeofHeader] at hlen

theorem DirectedCall.headerOnly_of_isWholeFrame {call : DirectedCall} {buf : Bytes}
    (hbuf : call.buffers junk requestId = some [buf]) (hwhole : IsWholeFrame buf) :
    call.HeaderOnly := by
  cases call with
  | flush expiry => exact absurd hwhole (not_isWholeFrame_flush junk requestId hbuf)
  | stat key =>
      -- a key is copied behind a block that ends with the header
      rw [buffers, statRequest_eq] at hbuf
      by_cases hkey : key = []
      · exact hkey
      · rw [if_neg hkey] at hbuf
        cases hbuf
  | version => exact trivial

end Calls

/-- **Directed requests.**  A sequence of flush, stat and version calls is carried exactly
    when no call of it has anything to carry behind the header. -/
theorem carriedExactly_iff (sents : List SentDirected) :
    CarriedExactly sents ↔ ∀ sent ∈ sents, sent.call.HeaderOnly := by
  constructor
  · intro hcarried sent hsent
    obtain ⟨buf, hbuf, hwhole⟩ := hcarried.1 sent hsent
    exact DirectedCall.headerOnly_of_isWholeFrame _ _ hbuf hwhole
  · intro hsents
    have hbuffers (sent : SentDirected) (hsent : sent ∈ sents) :
        sent.buffers = some [(headerFrame sent.call.opcode sent.requestId).bytes] :=
      DirectedCall.buffers_of_headerOnly _ _ (hsents sent hsent)
    constructor
    · intro sent hsent
      exact ⟨_, hbuffers sent hsent, isWholeFrame_headerFrame sent.requestId sent.call.opcode⟩
    · apply parseRequests_mapM_buffers
      intro sent hsent
      obtain ⟨hextras, hkey⟩ := (hsents sent hsent).extras_key
      refine ⟨_, headerFrame sent.call.opcode sent.requestId, hbuffers sent hsent, by simp, ?_⟩
      simp only [RequestFrame.view, headerFrame, SentDirected.request, DirectedCall.request,
        hextras, hkey]

/-- `Flush(10)` sends 32 bytes under a header that announces none behind it, and
    `Stat("k")` copies its key behind the end of its block. -/
theorem not_carried_flush_stat :
    ¬ CarriedExactly [⟨.flush 10, 1, fun _ => 0⟩] ∧
      ¬ CarriedExactly [⟨.stat [107], 1, fun _ => 0⟩] := by
  constructor
  · rintro ⟨hwhole, -⟩
    obtain ⟨buf, hbuf, hlen, -⟩ := hwhole _ (List.mem_singleton.mpr rfl)
    have hsent : SentDirected.buffers ⟨.flush 10, 1, fun _ => 0⟩ =
        some [[0x80, 8, 0, 0, 0, 0, 0, 0, 0, 0, 0, 0, 1, 0, 0, 0, 0, 0, 0, 0, 0, 0, 0, 0,
          0, 0, 0, 10, 0, 0, 0, 0]] := by decide
    rw [hsent, Option.some.injEq, List.cons.injEq] at hbuf
    rw [← hbuf.1] at hlen
    exact absurd hlen (by decide)
  · rintro ⟨hwhole, -⟩
    obtain ⟨buf, hbuf, -⟩ := hwhole _ (List.mem_singleton.mpr rfl)
    have hsent : SentDirected.buffers ⟨.stat [107], 1, fun _ => 0⟩ = none := by decide
    rw [hsent] at hbuf
    cases hbuf

end MemClient
