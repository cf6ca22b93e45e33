import MemClient.MemcachedClient

/-!
# Replies on a connection

A reply frame as the network delivers it, and the link that puts the read loop
of a connection, the client behind it and the undelivered bytes into one state.
Section 3 says once what each read does; what runs of the link do is derived
from these equations.
-/

namespace MemClient

open ByteCodec EventRun

/-! ## 1. Reply frames -/

/-- A complete reply: a 24-byte header and the body that it announces. -/
structure ReplyFrame where
  header : Bytes
  body : Bytes
  header_length : header.length = sizeofHeader
  body_length : body.length = beValue (slice header 8 4)
  parts_le : leValue (slice header 4 1) + beValue (slice header 2 2) ≤ body.length
deriving DecidableEq

namespace ReplyFrame

variable (frame : ReplyFrame)

def bytes : Bytes := frame.header ++ frame.body

def keylen : Nat := beValue (slice frame.header 2 2)

def extlen : Nat := leValue (slice frame.header 4 1)

def requestId : BitVec 32 := BitVec.ofNat 32 (leValue (slice frame.header 12 4))

def status : ERequestStatus := (decodeReply frame.header).status

def extras : Bytes := frame.body.take frame.extlen

def value : Bytes := frame.body.drop (frame.extlen + frame.keylen)

theorem body_length_eq :
    frame.body.length = frame.extlen + frame.keylen + frame.value.length := by
  have hparts := frame.parts_le
  simp only [value, extlen, keylen, List.length_drop]
  omega

theorem length_body_lt : frame.body.length < 2 ^ 32 := by
  have hlt := beValue_lt (slice frame.header 8 4)
  rw [length_slice (by rw [frame.header_length, sizeofHeader]; omega)] at hlt
  rw [frame.body_length]
  exact hlt

@[simp] theorem length_bytes : frame.bytes.length = sizeofHeader + frame.body.length := by
  rw [bytes, List.length_append, frame.header_length]

theorem bytes_ne_nil : frame.bytes ≠ [] := by
  intro h
  have hlen := frame.length_bytes
  rw [h, sizeofHeader, List.length_nil] at hlen
  omega

/-- A stream starts with at most one frame. -/
theorem bytes_append_inj {frame frame' : ReplyFrame} {rest rest' : Bytes}
    (h : frame.bytes ++ rest = frame'.bytes ++ rest') : frame = frame' ∧ rest = rest' := by
  simp only [bytes, List.append_assoc] at h
  obtain ⟨hheader, htail⟩ := List.append_inj h (by rw [frame.header_length, frame'.header_length])
  have hlen : frame.body.length = frame'.body.length := by
    rw [frame.body_length, frame'.body_length, hheader]
  obtain ⟨hbody, hrest⟩ := List.append_inj htail hlen
  refine ⟨?_, hrest⟩
  cases frame
  cases frame'
  cases hheader
  cases hbody
  rfl

theorem body_eq_of_keylen (hkey : frame.keylen = 0) :
    frame.body = frame.extras ++ frame.value := by
  rw [extras, value, hkey, Nat.add_zero, List.take_append_drop]

theorem length_extras : frame.extras.length = frame.extlen := by
  have hlen := frame.body_length_eq
  rw [extras, List.length_take]
  omega

/-- The unsigned subtraction of `OnHeaderReaded` leaves the length of the value. -/
theorem toNat_replyValueLen :
    ((decodeReply frame.header).bodylen - (decodeReply frame.header).extlen.setWidth 32
      - (decodeReply frame.header).keylen.setWidth 32).toNat = frame.value.length := by
  have hbody := decodeReply_bodylen frame.header_length
  have hext := decodeReply_extlen frame.header_length
  have hkey := decodeReply_keylen frame.header_length
  rw [← frame.body_length] at hbody
  have hlen := frame.body_length_eq
  have hext' : ((decodeReply frame.header).extlen.setWidth 32).toNat = frame.extlen := by
    rw [BitVec.toNat_setWidth_of_le (by norm_num), hext, extlen]
  have hkey' : ((decodeReply frame.header).keylen.setWidth 32).toNat = frame.keylen := by
    rw [BitVec.toNat_setWidth_of_le (by norm_num), hkey, keylen]
  rw [BitVec.toNat_sub_of_le, BitVec.toNat_sub_of_le, hbody, hext', hkey']
  · omega
  · rw [BitVec.le_def, hext', hbody]; omega
  · rw [BitVec.le_def, hkey', BitVec.toNat_sub_of_le, hbody, hext']
    · omega
    · rw [BitVec.le_def, hext', hbody]; omega

/-- `valueLen` of `OnHeaderReaded` is the length of the value. -/
theorem replyValueLen_eq (hlt : frame.body.length < 2 ^ 31) :
    MemcachedClient.replyValueLen (decodeReply frame.header) = frame.value.length := by
  have hnat := frame.toNat_replyValueLen
  have hlen := frame.body_length_eq
  rw [MemcachedClient.replyValueLen, BitVec.toInt_eq_toNat_of_lt (by rw [hnat]; omega), hnat]

theorem replyValueLen_eq_zero (hvalue : frame.value = []) :
    MemcachedClient.replyValueLen (decodeReply frame.header) = 0 := by
  have hnat := frame.toNat_replyValueLen
  rw [hvalue, List.length_nil] at hnat
  rw [MemcachedClient.replyValueLen, BitVec.eq_of_toNat_eq (hnat.trans BitVec.toNat_zero.symm),
    BitVec.toInt_zero]

theorem replyValueLen_ne_zero (hvalue : frame.value ≠ []) :
    MemcachedClient.replyValueLen (decodeReply frame.header) ≠ 0 := by
  intro hzero
  have hnat := frame.toNat_replyValueLen
  rw [BitVec.toInt_inj.mp (hzero.trans BitVec.toInt_zero.symm)] at hnat
  exact hvalue (List.length_eq_zero_iff.mp hnat.symm)

theorem decodeReply_status_eq : (decodeReply frame.header).status = frame.status := rfl

theorem decodeReply_opaqueId_eq : (decodeReply frame.header).opaqueId = frame.requestId := rfl

end ReplyFrame

/-! ## 2. The link -/

/-- A connection, the client behind it, and the bytes that are still to be
    delivered.  `headers` records the headers that were read. -/
structure Link where
  tcp : TcpClient Buffer Bytes
  client : MemcachedClient
  incoming : Bytes
  headers : List Bytes

namespace Link

/-- Complete the outstanding read with the next bytes of the stream. -/
def read (link : Link) : Option Link :=
  match link.tcp.reads with
  | [] => none
  | op :: _ =>
      let size := link.tcp.readSize clientHandlers op
      if size ≤ link.incoming.length then
        let data := link.incoming.take size
        (TcpClient.step clientHandlers (link.tcp, link.client) (.readDone 0 (some data))).map
          fun (tcp, client) =>
            { tcp := tcp
              client := client
              incoming := link.incoming.drop size
              headers := if op = .header then link.headers ++ [data] else link.headers }
      else none

def runPosted (link : Link) (k : Nat) : Option Link :=
  match link.client.runPosted k with
  | some (.ok client) => some { link with client := client }
  | _ => none

theorem runPosted_eq_some {link next : Link} {k : Nat} (hrun : link.runPosted k = some next) :
    ∃ client, link.client.runPosted k = some (.ok client) ∧
      next = { link with client := client } := by
  unfold runPosted at hrun
  split at hrun
  · next client hclient => exact ⟨client, hclient, (Option.some.inj hrun).symm⟩
  · cases hrun

/-- What happens between two reads: a posted handler runs, or the client is
    changed from elsewhere (a request, a removal, another connection). -/
inductive Event where
  | read
  | runPosted (k : Nat)
  | other (client : MemcachedClient)

def step (link : Link) : Event → Option Link
  | .read => link.read
  | .runPosted k => link.runPosted k
  | .other client => some { link with client := client }

/-! ## 3. What a read does -/

structure AtHeader (link : Link) : Prop where
  reads : link.tcp.reads = [.header]
  headerLength : link.tcp.mHeaderLength = sizeofHeader

structure AtBody (link : Link) (size : Nat) : Prop where
  reads : link.tcp.reads = [.body]
  headerLength : link.tcp.mHeaderLength = sizeofHeader
  size : (link.tcp.mReadBuffers.map Buffer.size).sum = size

/-- The link after a header read; the buffers decide whether a body follows. -/
def headerRead (link : Link) (client : MemcachedClient) (header : Bytes) (bufs : List Buffer)
    (data rest : Bytes) : Link where
  tcp := { link.tcp with
    reads := [if bufs = [] then .header else .body]
    mHeaderBuffer := header
    mReadBuffers := bufs }
  client := client
  incoming := rest
  headers := link.headers ++ [data]

theorem read_header {link : Link} (h : link.AtHeader) {data rest : Bytes}
    (hdata : data.length = sizeofHeader) (hin : link.incoming = data ++ rest)
    {client : MemcachedClient} {header : Bytes} {more : Bool} {bufs : List Buffer}
    (hon : link.client.onHeaderReaded data = (client, header, more, bufs))
    (hmore : more = true ↔ bufs ≠ []) :
    link.read = some (link.headerRead client header bufs data rest) := by
  have hlen : link.tcp.mHeaderLength ≤ link.incoming.length := by
    rw [h.headerLength, hin, List.length_append]
    omega
  have htake : link.incoming.take link.tcp.mHeaderLength = data := by
    rw [hin, h.headerLength, ← hdata, List.take_left]
  have hdrop : link.incoming.drop link.tcp.mHeaderLength = rest := by
    rw [hin, h.headerLength, ← hdata, List.drop_left]
  have hsize : data.length = link.tcp.mHeaderLength := by rw [hdata, h.headerLength]
  simp only [read, h.reads, TcpClient.readSize, hlen, htake, hdrop, if_true, TcpClient.step,
    List.getElem?_cons_zero, Option.all_some, hsize, beq_self_eq_true,
    List.eraseIdx_cons_zero, TcpClient.headerReaded, clientHandlers, hon, Option.map_some]
  cases more with
  | true =>
      have hne : bufs ≠ [] := hmore.mp rfl
      simp [headerRead, TcpClient.readBody, hne]
  | false =>
      have hnil : bufs = [] := by simpa using hmore
      simp [headerRead, TcpClient.readHeader, hnil]

def bodyRead (link : Link) (data rest : Bytes) : Link where
  tcp := { link.tcp with reads := [.header] }
  client := (link.client.receive link.tcp.mReadBuffers data).onBodayReaded link.tcp.mHeaderBuffer
  incoming := rest
  headers := link.headers

theorem read_body {link : Link} {size : Nat} (h : link.AtBody size) {data rest : Bytes}
    (hdata : data.length = size) (hin : link.incoming = data ++ rest) :
    link.read = some (link.bodyRead data rest) := by
  have hlen : size ≤ link.incoming.length := by
    rw [hin, List.length_append]
    omega
  have htake : link.incoming.take size = data := by rw [hin, ← hdata, List.take_left]
  have hdrop : link.incoming.drop size = rest := by rw [hin, ← hdata, List.drop_left]
  have hbufs : (link.tcp.mReadBuffers.map clientHandlers.bufferSize).sum = size := h.size
  simp only [read, h.reads, TcpClient.readSize, hbufs, hlen, htake, hdrop, if_true,
    TcpClient.step, List.getElem?_cons_zero, Option.all_some, hdata, beq_self_eq_true,
    List.eraseIdx_cons_zero, TcpClient.bodyReaded, Option.map_some]
  rfl

/-- A read is one event of the connection. -/
theorem read_step {link next : Link} (hread : link.read = some next) :
    ∃ data, TcpClient.step clientHandlers (link.tcp, link.client) (.readDone 0 (some data)) =
      some (next.tcp, next.client) := by
  unfold read at hread
  split at hread
  · cases hread
  · dsimp only at hread
    split at hread
    · obtain ⟨⟨tcp, client⟩, hstep, rfl⟩ := Option.map_eq_some_iff.mp hread
      exact ⟨_, hstep⟩
    · cases hread

theorem sameWrites_read {link next : Link} (hread : link.read = some next) :
    TcpClient.SameWrites link.tcp next.tcp := by
  obtain ⟨data, hstep⟩ := read_step hread
  exact TcpClient.sameWrites_readDone hstep

theorem read_body_none {link : Link} {size : Nat} (h : link.AtBody size)
    (hin : link.incoming.length < size) : link.read = none := by
  have hbufs : (link.tcp.mReadBuffers.map clientHandlers.bufferSize).sum = size := h.size
  simp only [read, h.reads, TcpClient.readSize, hbufs]
  exact if_neg (by omega)

end Link

end MemClient
