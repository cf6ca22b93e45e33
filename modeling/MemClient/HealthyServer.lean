import MemClient.ClientSystem
import MemClient.Demultiplexing
import MemClient.ProtocolServer
import MemClient.RequestStream

/-!
# Get and Delete against a healthy server

A client, its connection and a server that follows the protocol, down to the
bytes: a request goes through the encoder, the posted send, the write queue and
the server's parser, and its reply through the read loop and a posted handler.
`Outgoing` places the requests that wait for an answer; with `Accounted` it
accounts for every request that was issued.
-/

namespace MemClient

open ByteCodec EventRun AssocCells

/-! ## 1. Requests -/

inductive KeyCommand where
  | get (buffer : Option SharedBuffer)
  | delete

/-- A `Get` or a `Delete` on a key that the protocol allows. -/
structure KeyRequest where
  command : KeyCommand
  key : Bytes
  length_pos : 1 ≤ key.length
  length_le : key.length ≤ 250

namespace KeyRequest

def call (request : KeyRequest) : RequestCall :=
  match request.command with
  | .get _ => .get request.key
  | .delete => .delete request.key

def result (request : KeyRequest) : MemResult :=
  match request.command with
  | .get buffer => .new request.key buffer (.get none)
  | .delete => .new request.key none .mem

theorem not_isStat (request : KeyRequest) : ¬ request.result.IsStat := by
  unfold result
  split <;> exact id

theorem fits (request : KeyRequest) : request.call.Fits := by
  have hle := request.length_le
  unfold call
  split
  · exact ⟨by simp only [RequestCall.key]; omega,
      by simp only [RequestCall.key, RequestCall.value, List.length_nil]; omega⟩
  · exact ⟨by simp only [RequestCall.key]; omega,
      by simp only [RequestCall.key, RequestCall.value, List.length_nil]; omega⟩

end KeyRequest

/-- A request that was issued: its id and its table entry. -/
structure Issued where
  request : KeyRequest
  requestId : BitVec 32
  item : RequestItem

namespace Issued

def frame (x : Issued) : RequestFrame := x.request.call.frame x.requestId x.request.fits

def outstanding (x : Issued) : Outstanding where
  requestId := x.requestId
  item := x.item
  result := x.request.result
  notStat := x.request.not_isStat

theorem buffers_eq (x : Issued) (junk : Nat → Byte) :
    x.request.call.buffers junk x.requestId = some [x.frame.bytes] := by
  rw [frame, RequestCall.bytes_frame]
  unfold KeyRequest.call
  split
  · exact (getRequest_eq junk x.request.key x.requestId).trans (by
      simp [RequestCall.key, RequestCall.value, RequestCall.opcode])
  · exact (deleteRequest_eq junk x.request.key x.requestId).trans (by
      simp [RequestCall.key, RequestCall.value, RequestCall.opcode])

theorem opaque_eq (x : Issued) : BitVec.ofNat 32 (leValue x.frame.view.opaqueBytes) = x.requestId :=
  ofNat_leValue_leBytes (n := 4) (by norm_num) x.requestId

end Issued

/-! ## 2. The session -/

/-- A link, and the request bytes that were written and not yet processed. -/
structure Session where
  link : Link
  toServer : Bytes

namespace Session

def new : Session where
  link := { tcp := .connected sizeofHeader, client := .new, incoming := [], headers := [] }
  toServer := []

inductive Event where
  | request (request : KeyRequest) (callback : Bool) (junk : Nat → Byte)
  | runSend (k : Nat)
  | writeDone
  | serve (contents : ServerContents)
  | read
  | runPosted (k : Nat)

def socket (s : Session) (event : TcpClient.Event Bytes) : Option Session :=
  (TcpClient.step clientHandlers (s.link.tcp, s.link.client) event).map fun (tcp, client) =>
    { s with link := { s.link with tcp := tcp, client := client } }

/-- There are no connection errors, and the server reads what was written.  It gets
    the bytes of a write when the completion handler runs: the runs in which it
    answers before that are left out. -/
def step (s : Session) : Event → Option Session
  | .request request callback junk =>
      match request.call.buffers junk s.link.client.mNextRequestId with
      | some bufs =>
          let client := s.link.client.request request.result callback
          ({ s with link := { s.link with client := client } }).socket (.send bufs)
      | none => none
  | .runSend k => s.socket (.runPosted k)
  | .writeDone =>
      match s.link.tcp.writes with
      | bufs :: _ =>
          (s.socket (.writeDone 0 true)).map fun next =>
            { next with toServer := next.toServer ++ bufs.flatten }
      | [] => none
  | .serve contents =>
      match parseRequest s.toServer with
      | some (request, rest) =>
          some
            { link :=
                { s.link with
                  incoming := s.link.incoming ++ (serve contents request).getD [] }
              toServer := rest }
      | none => none
  | .read => s.link.read.map fun link => { s with link := link }
  | .runPosted k => (s.link.runPosted k).map fun link => { s with link := link }

/-- All sent frames are processed, all replies read, all posted handlers run. -/
structure Quiescent (s : Session) : Prop where
  sends : s.link.tcp.posted = []
  writes : s.link.tcp.writes = []
  toServer : s.toServer = []
  reads : s.link.tcp.reads = [.header]
  incoming : s.link.incoming = []
  handlers : s.link.client.posted = []

/-- The answer to `request` is one frame that the client can take: a `GETQ` hits a
    value that is not empty and fits the buffer of its result, if it has one. -/
def Answerable (c : MemcachedClient) (contents : ServerContents) (request : ParsedRequest) : Prop :=
  if request.opcode = PROTOCOL_BINARY_CMD_GETQ then
    ∃ flags value, contents.lookup request.key = some (flags, value) ∧ value ≠ [] ∧
      4 + value.length < 2 ^ 31 ∧
      ∀ item ∈ c.mRequests (BitVec.ofNat 32 (leValue request.opaqueBytes)),
        ∀ buffer ∈ (c.results item.mResult).mValue, buffer.size = value.length
  else (contents.answer request).2.length < 2 ^ 31

/-- A request takes an id that no outstanding request has, and what the server
    processes is answerable. -/
def Answered (s : Session) : Event → Prop
  | .request _ _ _ => s.link.client.mRequests s.link.client.mNextRequestId = none
  | .serve contents => ∀ request rest, parseRequest s.toServer = some (request, rest) →
      Answerable s.link.client contents request
  | _ => True

end Session

/-! ## 3. Accounts that requests join -/

namespace Link

variable {done posted todo : List Exchange} {reading : Option Exchange}
  {waiting waiting' : List Outstanding} {link next : Link}

theorem Accounted.congr (h : Accounted done posted reading todo waiting link)
    (hclient : next.client = link.client) (hreads : TcpClient.SameReads link.tcp next.tcp)
    (hincoming : next.incoming = link.incoming) :
    Accounted done posted reading todo waiting next where
  notifications := by rw [hclient]; exact h.notifications
  handlers := by rw [hclient]; exact h.handlers
  table := by rw [hclient]; exact h.table
  heap := by rw [hclient]; exact h.heap
  stream := h.stream.congr hreads hincoming

theorem Accounted.perm (h : Accounted done posted reading todo waiting link)
    (hperm : waiting.Perm waiting') : Accounted done posted reading todo waiting' link where
  notifications := h.notifications
  handlers := h.handlers
  table := h.table.perm ((hperm.map _).append_left _)
  heap := h.heap.perm ((((hperm.map _).append_left _).append_left _).append_left _)
  stream := h.stream

theorem Accounted.answer {ex : Exchange}
    (h : Accounted done posted reading todo (ex.toOutstanding :: waiting) link) :
    Accounted done posted reading (todo ++ [ex]) waiting
      { link with incoming := link.incoming ++ ex.reply.bytes } where
  notifications := h.notifications
  handlers := h.handlers
  table := by simpa [entries] using h.table
  heap := by simpa [cells, untouched] using h.heap
  stream := by
    have hstream := h.stream
    cases reading with
    | none =>
        obtain ⟨hat, hin⟩ := hstream
        exact ⟨⟨hat.reads, hat.headerLength⟩, by simp [hin]⟩
    | some current =>
        obtain ⟨hbody, hat, hbufs, hheader, hin⟩ := hstream
        exact ⟨hbody, ⟨hat.reads, hat.headerLength, hat.size⟩, hbufs, hheader, by simp [hin]⟩

def refs (done posted : List Exchange) (reading : Option Exchange) (todo : List Exchange)
    (waiting : List Outstanding) : List ResultRef :=
  (done ++ (posted ++ (reading.toList ++ todo))).map (fun ex => ex.ref) ++
    waiting.map Outstanding.ref

theorem map_fst_cells :
    (cells done posted reading todo waiting).map Prod.fst =
      refs done posted reading todo waiting := by
  simp [cells, settled, untouched, refs, Outstanding.cell, Function.comp_def]

theorem Accounted.request (h : Accounted done posted reading todo waiting link) {o : Outstanding}
    {callback : Bool} (hid : o.requestId = link.client.mNextRequestId)
    (hitem : o.item = ⟨link.client.nextResult, callback⟩)
    (hnone : link.client.mRequests link.client.mNextRequestId = none)
    (hfresh : link.client.nextResult ∉ refs done posted reading todo waiting) :
    Accounted done posted reading todo (o :: waiting)
      { link with client := link.client.request o.result callback } := by
  have href : o.ref = link.client.nextResult := by rw [Outstanding.ref, hitem]
  have htable := h.table.insert hnone ⟨link.client.nextResult, callback⟩
  have hheap := h.heap.insert (by rw [map_fst_cells]; exact hfresh) o.result
  exact
    { notifications := h.notifications
      handlers := h.handlers
      table := by
        simp only [MemcachedClient.request, hnone, Option.isSome_none, Bool.false_eq_true, if_false]
        apply htable.perm
        rw [← hid, ← hitem]
        exact List.perm_middle.symm
      heap := by
        apply hheap.perm
        rw [← href]
        simp only [cells, untouched, List.map_cons, ← List.append_assoc]
        exact List.perm_middle.symm
      stream := h.stream.congr (.refl _) rfl }

theorem nextResult_read (hread : link.read = some next) :
    next.client.nextResult = link.client.nextResult := by
  obtain ⟨data, hstep⟩ := read_step hread
  rcases ClientSystem.socket_step_cases hstep with ⟨hsame, -⟩ | ⟨-, hs, hposts, -⟩
  · rw [hsame]
  · exact hposts.nextResult

theorem runPosted_frame {k : Nat} (hrun : link.runPosted k = some next) :
    next.tcp = link.tcp ∧ next.client.nextResult = link.client.nextResult := by
  obtain ⟨client, hclient, rfl⟩ := runPosted_eq_some hrun
  obtain ⟨handler, item, -, -, -, rfl⟩ := MemcachedClient.runPosted_eq_ok hclient
  exact ⟨rfl, rfl⟩

end Link

/-! ## 4. Requests on their way to the server -/

/-- The write side carries whole frames: those being written, those that pend
    behind them, and those whose send handler has not run. -/
structure Carries (writing pending sends : List Issued) (tcp : TcpClient Buffer Bytes) : Prop where
  mWriteBuffers : tcp.mWriteBuffers = writing.map fun x => x.frame.bytes
  mPendingBuffers : tcp.mPendingBuffers = pending.map fun x => x.frame.bytes
  writes : tcp.writes = if writing = [] then [] else [writing.map fun x => x.frame.bytes]
  posted : tcp.posted = sends.map fun x => .send [x.frame.bytes]
  idle : writing = [] → pending = []

namespace Carries

variable {writing pending sends : List Issued} {tcp tcp' : TcpClient Buffer Bytes} {x : Issued}

theorem congr (h : Carries writing pending sends tcp) (hsame : TcpClient.SameWrites tcp tcp') :
    Carries writing pending sends tcp' where
  mWriteBuffers := hsame.mWriteBuffers.trans h.mWriteBuffers
  mPendingBuffers := hsame.mPendingBuffers.trans h.mPendingBuffers
  writes := hsame.writes.trans h.writes
  posted := hsame.posted.trans h.posted
  idle := h.idle

theorem send (h : Carries writing pending sends tcp) :
    Carries writing pending (sends ++ [x])
      { tcp with posted := tcp.posted ++ [.send [x.frame.bytes]] } where
  mWriteBuffers := h.mWriteBuffers
  mPendingBuffers := h.mPendingBuffers
  writes := h.writes
  posted := by simp [h.posted]
  idle := h.idle

theorem runSend (h : Carries writing pending sends tcp) (k : Nat) :
    ∃ writing' pending', writing' ++ pending' = writing ++ (pending ++ [x]) ∧
      Carries writing' pending' (sends.eraseIdx k)
        (TcpClient.runSend { tcp with posted := tcp.posted.eraseIdx k } [x.frame.bytes]) := by
  have hposted : tcp.posted.eraseIdx k =
      (sends.eraseIdx k).map fun x => .send [x.frame.bytes] := by
    rw [h.posted, List.eraseIdx_map]
  unfold TcpClient.runSend
  dsimp only
  by_cases hwriting : writing = []
  · obtain rfl := h.idle hwriting
    subst hwriting
    refine ⟨[x], [], rfl, ?_⟩
    rw [if_pos (by simp [h.mWriteBuffers])]
    exact
      { mWriteBuffers := by simp [TcpClient.sendPending, h.mPendingBuffers]
        mPendingBuffers := by simp [TcpClient.sendPending, h.mWriteBuffers]
        writes := by simp [TcpClient.sendPending, h.writes, h.mPendingBuffers]
        posted := hposted
        idle := by simp }
  · refine ⟨writing, pending ++ [x], rfl, ?_⟩
    rw [if_neg (by simpa [h.mWriteBuffers] using hwriting)]
    exact
      { mWriteBuffers := h.mWriteBuffers
        mPendingBuffers := by simp [h.mPendingBuffers]
        writes := h.writes
        posted := hposted
        idle := fun hnil => absurd hnil hwriting }

/-- The write that completes carries `writing`; what pends is written next. -/
theorem writeDone (h : Carries writing pending sends tcp) {bufs : List Bytes}
    (hbufs : tcp.writes[0]? = some bufs) :
    bufs = (writing.map fun x => x.frame.bytes) ∧
      Carries pending [] sends
        (TcpClient.writeDone { tcp with writes := tcp.writes.eraseIdx 0 } bufs true) := by
  have hwriting : writing ≠ [] := by
    intro hnil
    simp [h.writes, hnil] at hbufs
  have hwrites : tcp.writes = [writing.map fun x => x.frame.bytes] := by
    rw [h.writes, if_neg hwriting]
  refine ⟨by simpa [hwrites] using hbufs.symm, ?_⟩
  unfold TcpClient.writeDone
  dsimp only
  rw [if_pos rfl]
  by_cases hpending : pending = []
  · subst hpending
    rw [if_pos (by simp [h.mPendingBuffers])]
    exact
      { mWriteBuffers := rfl
        mPendingBuffers := h.mPendingBuffers
        writes := by simp [hwrites]
        posted := h.posted
        idle := fun _ => rfl }
  · rw [if_neg (by simpa [h.mPendingBuffers] using hpending)]
    exact
      { mWriteBuffers := h.mPendingBuffers
        mPendingBuffers := rfl
        writes := by simp [TcpClient.sendPending, hwrites, h.mPendingBuffers, hpending]
        posted := h.posted
        idle := fun _ => rfl }

end Carries

theorem Issued.exists_exchange (x : Issued) {c : MemcachedClient} {contents : ServerContents}
    (hitem : c.mRequests x.requestId = some x.item)
    (hresult : c.results x.item.mResult = x.request.result)
    (hanswer : Session.Answerable c contents x.frame.view) :
    ∃ ex : Exchange, ex.toOutstanding = x.outstanding ∧
      serve contents x.frame.view = some ex.reply.bytes := by
  have hecho : x.frame.view.opaqueBytes.length = 4 := x.frame.opaque_length
  unfold Session.Answerable at hanswer
  rw [x.opaque_eq] at hanswer
  cases hcommand : x.request.command with
  | get buffer =>
      have hop : x.frame.view.opcode = PROTOCOL_BINARY_CMD_GETQ := by
        simp [Issued.frame, RequestFrame.view, RequestCall.frame, KeyRequest.call, hcommand,
          RequestCall.opcode]
      have hcls : x.request.result.cls = .get none := by
        simp [KeyRequest.result, hcommand, MemResult.new]
      rw [if_pos hop] at hanswer
      obtain ⟨flags, value, hhit, hne, hlt, hsize⟩ := hanswer
      have hsize := hsize x.item hitem
      refine ⟨⟨x.outstanding, replyFrame x.frame.view.opcode 0 (beBytes 4 flags.toNat) value
        x.frame.view.opaqueBytes contents.cas (by simp) (by simp; omega) hecho, ?_, ?_⟩, rfl, ?_⟩
      · rw [requestId_replyFrame, x.opaque_eq]
        rfl
      · refine ⟨List.length_append.trans_lt (by simpa using hlt),
          Or.inr ⟨keylen_replyFrame, by rwa [value_replyFrame], ?_, ?_⟩⟩
        · have hcls' : x.outstanding.result.cls = .get none := hcls
          simp [hcls', ReplyFrame.WellFormedFor, status_replyFrame_eq_success]
        · rw [value_replyFrame]
          rw [hresult] at hsize
          exact hsize
      · rw [serve_getq_hit hop hhit, bytes_replyFrame]
  | delete =>
      have hop : x.frame.view.opcode ≠ PROTOCOL_BINARY_CMD_GETQ := by
        simp [Issued.frame, RequestFrame.view, RequestCall.frame, KeyRequest.call, hcommand,
          RequestCall.opcode]
        decide
      have hresult' : x.outstanding.result = .new x.request.key none .mem := by
        simp [Issued.outstanding, KeyRequest.result, hcommand]
      rw [if_neg hop] at hanswer
      refine ⟨⟨x.outstanding, replyFrame x.frame.view.opcode (contents.answer x.frame.view).1 []
        (contents.answer x.frame.view).2 x.frame.view.opaqueBytes contents.cas (by simp)
        (by simp; omega) hecho, ?_, ?_⟩, rfl, ?_⟩
      · rw [requestId_replyFrame, x.opaque_eq]
        rfl
      · refine ⟨hanswer, ?_⟩
        by_cases htext : (contents.answer x.frame.view).2 = []
        · exact Or.inl htext
        · refine Or.inr ⟨keylen_replyFrame, by rwa [value_replyFrame], ?_, ?_⟩
          · simp [hresult', MemResult.new, ReplyFrame.WellFormedFor]
          · simp [hresult', MemResult.new]
      · rw [serve_of_ne_getq hop, bytes_replyFrame]

namespace Session

/-! ## 5. Where every request stands -/

/-- The requests of a session, by how far they have come. -/
structure Places where
  done : List Exchange
  posted : List Exchange
  reading : Option Exchange
  todo : List Exchange
  written : List Issued
  writing : List Issued
  pending : List Issued
  sends : List Issued

def Places.waiting (p : Places) : List Outstanding :=
  (p.written ++ (p.writing ++ (p.pending ++ p.sends))).map Issued.outstanding

def Places.refs (p : Places) : List ResultRef :=
  Link.refs p.done p.posted p.reading p.todo p.waiting

/-- Every request that was issued stands at one of the places. -/
structure Located (p : Places) (s : Session) : Prop where
  accounted : s.link.Accounted p.done p.posted p.reading p.todo p.waiting
  carries : Carries p.writing p.pending p.sends s.link.tcp
  toServer : s.toServer = p.written.flatMap fun x => x.frame.bytes
  allocated : p.refs.Perm (List.range s.link.client.nextResult)

theorem located_new : Located ⟨[], [], none, [], [], [], [], []⟩ new where
  accounted :=
    { notifications := rfl
      handlers := rfl
      table := Represents.nil_iff.mpr rfl
      heap := ⟨by simp [Link.cells, Link.settled, Link.untouched, Places.waiting],
        by simp [Link.cells, Link.settled, Link.untouched, Places.waiting]⟩
      stream := ⟨⟨rfl, rfl⟩, rfl⟩ }
  carries := ⟨rfl, rfl, rfl, rfl, fun _ => rfl⟩
  toServer := rfl
  allocated := by simp [Places.refs, Link.refs, Places.waiting, new, MemcachedClient.new]

variable {p : Places} {s next : Session}

theorem Located.request (h : Located p s) {request : KeyRequest} {callback : Bool}
    {junk : Nat → Byte} (hnone : s.link.client.mRequests s.link.client.mNextRequestId = none)
    (hstep : s.step (.request request callback junk) = some next) : ∃ p', Located p' next := by
  let x : Issued := ⟨request, s.link.client.mNextRequestId, ⟨s.link.client.nextResult, callback⟩⟩
  have hbufs : request.call.buffers junk s.link.client.mNextRequestId = some [x.frame.bytes] :=
    x.buffers_eq junk
  simp only [step, hbufs, socket, TcpClient.step, Option.map_some, Option.some.injEq] at hstep
  subst hstep
  have hfresh : s.link.client.nextResult ∉ p.refs := by
    rw [h.allocated.mem_iff, List.mem_range]
    exact Nat.lt_irrefl _
  have hperm : (x.outstanding :: p.waiting).Perm
      { p with sends := p.sends ++ [x] : Places }.waiting := by
    simp only [Places.waiting, ← List.append_assoc, List.map_append]
    exact (List.perm_append_singleton _ _).symm
  have hacc := h.accounted.request (o := x.outstanding) rfl rfl hnone hfresh
  refine ⟨{ p with sends := p.sends ++ [x] }, ?_⟩
  exact
    { accounted := (hacc.perm hperm).congr rfl ⟨rfl, rfl, rfl, rfl⟩ rfl
      carries := h.carries.send
      toServer := h.toServer
      allocated := by
        have hrefs : { p with sends := p.sends ++ [x] : Places }.refs.Perm
            (s.link.client.nextResult :: p.refs) :=
          ((hperm.symm.map _).append_left _).trans List.perm_middle
        refine hrefs.trans ((h.allocated.cons _).trans ?_)
        simp only [MemcachedClient.request, List.range_succ]
        exact (List.perm_append_singleton _ _).symm }

theorem Located.runSend (h : Located p s) {k : Nat} (hstep : s.step (.runSend k) = some next) :
    ∃ p', Located p' next := by
  simp only [step, socket, TcpClient.step, h.carries.posted, List.getElem?_map] at hstep
  cases hk : p.sends[k]? with
  | none => simp [hk] at hstep
  | some x =>
      simp only [hk, Option.map_some, Option.some.injEq] at hstep
      rw [← h.carries.posted] at hstep
      subst hstep
      obtain ⟨writing, pending, hsplit, hcarries⟩ := h.carries.runSend (x := x) k
      obtain ⟨hlt, rfl⟩ := List.getElem?_eq_some_iff.mp hk
      let q : Places :=
        { p with writing := writing, pending := pending, sends := p.sends.eraseIdx k }
      have hperm : p.waiting.Perm q.waiting := by
        refine List.Perm.map _ (List.Perm.append_left _ ?_)
        have hmove : p.sends.Perm (p.sends[k] :: p.sends.eraseIdx k) :=
          (List.getElem_cons_eraseIdx_perm hlt).symm
        have hassoc : p.writing ++ (p.pending ++ p.sends[k] :: p.sends.eraseIdx k) =
            writing ++ (pending ++ p.sends.eraseIdx k) := by
          rw [← List.append_assoc writing, hsplit]
          simp
        have hjoin := (hmove.append_left p.pending).append_left p.writing
        rwa [hassoc] at hjoin
      refine ⟨q, ?_⟩
      exact
        { accounted := (h.accounted.perm hperm).congr rfl (TcpClient.sameReads_runSend _ _ _) rfl
          carries := hcarries
          toServer := h.toServer
          allocated := (((hperm.map _).append_left _).symm).trans h.allocated }

theorem Located.writeDone (h : Located p s) (hstep : s.step .writeDone = some next) :
    ∃ p', Located p' next := by
  simp only [step] at hstep
  split at hstep
  · next bufs rest hwrites =>
      have hk : s.link.tcp.writes[0]? = some bufs := by rw [hwrites]; rfl
      simp only [socket, TcpClient.step, hk, Option.map_some, Option.some.injEq] at hstep
      subst hstep
      obtain ⟨rfl, hcarries⟩ := h.carries.writeDone hk
      let q : Places :=
        { p with written := p.written ++ p.writing, writing := p.pending, pending := [] }
      have hwaiting : p.waiting = q.waiting := by simp [Places.waiting, q]
      refine ⟨q, ?_⟩
      exact
        { accounted := (h.accounted.perm (.of_eq hwaiting)).congr rfl
            (TcpClient.sameReads_writeDone s.link.tcp _ _ true) rfl
          carries := hcarries
          toServer := by simp [h.toServer, List.flatMap_def, q]
          allocated := by
            have hrefs := h.allocated
            rw [Places.refs, hwaiting] at hrefs
            exact hrefs }
  · cases hstep

theorem Located.serve (h : Located p s) {contents : ServerContents}
    (hguard : s.Answered (.serve contents)) (hstep : s.step (.serve contents) = some next) :
    ∃ p', Located p' next := by
  obtain ⟨done, posted, reading, todo, written, writing, pending, sends⟩ := p
  cases written with
  | nil =>
      -- nothing was written: there is no request to process
      have hto : s.toServer = [] := h.toServer
      have hnone : parseRequest [] = none := by decide
      simp [step, hto, hnone] at hstep
  | cons x written =>
      have hto : s.toServer = x.frame.bytes ++ written.flatMap fun x => x.frame.bytes := by
        rw [h.toServer, List.flatMap_cons]
      have hparse := x.frame.parseRequest_bytes (written.flatMap fun x => x.frame.bytes)
      rw [← hto] at hparse
      have hacc := h.accounted
      have hitem : s.link.client.mRequests x.requestId = some x.item :=
        hacc.table.get (by
          simp [Link.entries, Places.waiting, Outstanding.entry, Issued.outstanding])
      have hresult : s.link.client.results x.item.mResult = x.request.result :=
        hacc.heap.eq (x.item.mResult, x.request.result) (by
          simp [Link.cells, Link.untouched, Places.waiting, Outstanding.cell, Issued.outstanding,
            Outstanding.ref])
      obtain ⟨ex, hex, hserve⟩ := x.exists_exchange hitem hresult (hguard _ _ hparse)
      simp only [step, hparse, hserve, Option.getD_some, Option.some.injEq] at hstep
      subst hstep
      let q : Places := ⟨done, posted, reading, todo ++ [ex], written, writing, pending, sends⟩
      have hacc' : s.link.Accounted done posted reading todo (ex.toOutstanding :: q.waiting) := by
        rw [hex]
        exact hacc
      refine ⟨q, ?_⟩
      exact
        { accounted := hacc'.answer
          carries := h.carries
          toServer := rfl
          allocated := by
            have href : ex.ref = x.outstanding.ref := congrArg Outstanding.ref hex
            have hrefs := h.allocated
            simpa [Places.refs, Link.refs, Places.waiting, q, href] using hrefs }

theorem Located.read (h : Located p s) (hstep : s.step .read = some next) :
    ∃ p', Located p' next := by
  obtain ⟨link, hread, rfl⟩ := Option.map_eq_some_iff.mp hstep
  obtain ⟨posted, reading, todo, hacc, hsame, -⟩ := h.accounted.step_read hread
  refine ⟨{ p with posted := posted, reading := reading, todo := todo }, ?_⟩
  exact
    { accounted := hacc
      carries := h.carries.congr (Link.sameWrites_read hread)
      toServer := h.toServer
      allocated := by
        rw [Link.nextResult_read hread]
        have hrefs := h.allocated
        simp only [Places.refs, Link.refs, ← hsame] at hrefs
        exact hrefs }

theorem Located.runPosted (h : Located p s) {k : Nat} (hstep : s.step (.runPosted k) = some next) :
    ∃ p', Located p' next := by
  obtain ⟨link, hrun, rfl⟩ := Option.map_eq_some_iff.mp hstep
  obtain ⟨ex, hk, hacc⟩ := h.accounted.step_runPosted hrun
  obtain ⟨htcp, hnext⟩ := Link.runPosted_frame hrun
  obtain ⟨hlt, rfl⟩ := List.getElem?_eq_some_iff.mp hk
  refine ⟨{ p with done := p.done ++ [p.posted[k]], posted := p.posted.eraseIdx k }, ?_⟩
  exact
    { accounted := hacc
      carries := by rw [htcp]; exact h.carries
      toServer := h.toServer
      allocated := by
        rw [hnext]
        refine List.Perm.trans ?_ h.allocated
        have hmove := (List.getElem_cons_eraseIdx_perm hlt).append_right
          (p.reading.toList ++ p.todo)
        refine ((List.Perm.trans ?_ (hmove.append_left p.done)).map _).append_right _
        simp }

theorem located_step {e : Event} (h : ∃ p, Located p s) (hguard : s.Answered e)
    (hstep : s.step e = some next) : ∃ p, Located p next := by
  obtain ⟨p, h⟩ := h
  cases e with
  | request request callback junk => exact h.request hguard hstep
  | runSend k => exact h.runSend hstep
  | writeDone => exact h.writeDone hstep
  | serve contents => exact h.serve hguard hstep
  | read => exact h.read hstep
  | runPosted k => exact h.runPosted hstep

theorem Located.eq_done (h : Located p s) (hquiet : s.Quiescent) :
    p = ⟨p.done, [], none, [], [], [], [], []⟩ := by
  obtain ⟨done, posted, reading, todo, written, writing, pending, sends⟩ := p
  obtain rfl : sends = [] := List.map_eq_nil_iff.mp (h.carries.posted.symm.trans hquiet.sends)
  obtain rfl : writing = [] := by
    have hwrites := h.carries.writes.symm.trans hquiet.writes
    by_contra hne
    simp [hne] at hwrites
  obtain rfl : pending = [] := h.carries.idle rfl
  obtain rfl : written = [] := by
    have hto := h.toServer.symm.trans hquiet.toServer
    rw [List.flatMap_eq_nil_iff] at hto
    exact List.eq_nil_iff_forall_not_mem.mpr fun x hx => x.frame.bytes_ne_nil (hto x hx)
  obtain rfl : posted = [] :=
    List.map_eq_nil_iff.mp (h.accounted.handlers.symm.trans hquiet.handlers)
  obtain rfl : reading = none := by
    cases hreading : reading with
    | none => rfl
    | some ex =>
        obtain ⟨-, hat, -⟩ := hreading ▸ h.accounted.stream
        have hreads := hat.reads.symm.trans hquiet.reads
        simp at hreads
  obtain rfl : todo = [] := by
    have hin := h.accounted.stream.2.symm.trans hquiet.incoming
    rw [List.flatMap_eq_nil_iff] at hin
    exact List.eq_nil_iff_forall_not_mem.mpr fun ex hex => ex.reply.bytes_ne_nil (hin ex hex)
  rfl

/-! ## 6. Sessions -/

/-- **No request is left behind.**  A session whose every `Get` hits a value that
    is not empty ends, where it is quiescent, with an empty table and with every
    result notified exactly once. -/
theorem no_request_left_behind {es : List Event} (hrun : Run step Answered new es s)
    (hquiet : s.Quiescent) :
    s.link.client.mRequests = (fun _ => none) ∧
      (s.link.client.notified.map Notification.mResult).Perm
        (List.range s.link.client.nextResult) := by
  obtain ⟨p, h⟩ := hrun.invariant (I := fun s => ∃ p, Located p s)
    (fun _ _ _ hinv hguard hstep => located_step hinv hguard hstep) ⟨_, located_new⟩
  obtain ⟨done, hp⟩ : ∃ done, p = ⟨done, [], none, [], [], [], [], []⟩ := ⟨_, h.eq_done hquiet⟩
  subst hp
  refine ⟨Represents.nil_iff.mp h.accounted.table, ?_⟩
  have hrefs : done.map (fun ex => ex.ref) =
      s.link.client.notified.map Notification.mResult := by
    rw [h.accounted.notifications, List.map_map]
    rfl
  have hall := h.allocated
  simp only [Places.refs, Link.refs, Places.waiting, List.append_nil, Option.toList_none,
    List.map_nil, hrefs] at hall
  exact hall

/-- The server holds two bytes under the key `k`, and answers a `Delete`. -/
def oneKey : ServerContents where
  lookup := fun key => if key = [107] then some (7, [1, 2]) else none
  answer := fun _ => (0, [])
  cas := 1

def getKey (key : Bytes) (hpos : 1 ≤ key.length) (hle : key.length ≤ 250) : Event :=
  .request ⟨.get none, key, hpos, hle⟩ true fun _ => 0

def getWritten (key : Bytes) (hpos : 1 ≤ key.length) (hle : key.length ≤ 250) : List Event :=
  [getKey key hpos hle, .runSend 0, .writeDone]

instance (s : Session) : Decidable s.Quiescent :=
  decidable_of_iff (s.link.tcp.posted.isEmpty ∧ s.link.tcp.writes = [] ∧ s.toServer = [] ∧
      s.link.tcp.reads = [.header] ∧ s.link.incoming = [] ∧ s.link.client.posted = [])
    ⟨fun ⟨h₁, h₂, h₃, h₄, h₅, h₆⟩ => ⟨List.isEmpty_iff.mp h₁, h₂, h₃, h₄, h₅, h₆⟩,
      fun h => ⟨List.isEmpty_iff.mpr h.sends, h.writes, h.toServer, h.reads, h.incoming,
        h.handlers⟩⟩

/-- The `Get` of `k` is answered, and its handler runs. -/
theorem no_request_left_behind_hit :
    ∃ s, exec step new (getWritten [107] (by decide) (by decide) ++
        [.serve oneKey, .read, .read, .runPosted 0]) = some s ∧ s.Quiescent ∧
      s.link.client.mRequests = (fun _ => none) ∧
      (s.link.client.notified.map Notification.mResult).Perm
        (List.range s.link.client.nextResult) := by
  have hexec : ((exec step new (getWritten [107] (by decide) (by decide))).any fun m =>
      decide ((parseRequest m.toServer =
          some (⟨PROTOCOL_BINARY_CMD_GETQ, [], [107], [], [0, 0, 0, 0]⟩, []) ∧
        m.link.client.mRequests 0 = some ⟨0, true⟩ ∧
        (m.link.client.results 0).mValue = none) ∧
        (exec step m [.serve oneKey, .read, .read, .runPosted 0]).any fun s =>
          decide s.Quiescent)) = true := by decide +kernel
  obtain ⟨m, hm, hstate⟩ := (Option.any_eq_true _ _).mp hexec
  obtain ⟨⟨hparse, hitem, hvalue⟩, hend⟩ := of_decide_eq_true hstate
  obtain ⟨s, hs, hquiet⟩ := (Option.any_eq_true _ _).mp hend
  have hguard : m.Answered (.serve oneKey) := by
    intro request rest hsome
    rw [hparse] at hsome
    cases hsome
    refine ⟨7, [1, 2], rfl, by decide, by decide, ?_⟩
    intro item hmem buffer hbuffer
    have hsame : item = ⟨0, true⟩ := Option.some.inj (hmem.symm.trans hitem)
    subst hsame
    rw [hvalue] at hbuffer
    cases hbuffer
  have hrun : Run step Answered new (getWritten [107] (by decide) (by decide) ++
      [.serve oneKey, .read, .read, .runPosted 0]) s := by
    obtain ⟨m₀, hrequest, hwrite⟩ := Option.bind_eq_some_iff.mp hm
    obtain ⟨m₁, hserve, hreads⟩ := Option.bind_eq_some_iff.mp hs
    exact .append (.cons rfl hrequest (run_of_exec (by simp [Answered]) hwrite))
      (.cons hguard hserve (run_of_exec (by simp [Answered]) hreads))
  have hquiet' := of_decide_eq_true hquiet
  exact ⟨s, hrun.exec_eq, hquiet', no_request_left_behind hrun hquiet'⟩

/-- A `Get` of a key that the server does not have is left behind. -/
theorem get_miss_left_behind :
    ¬ ∀ (es : List Event) (s : Session), Run step Free new es s → s.Quiescent →
      s.link.client.mRequests = fun _ => none := by
  intro h
  have hexec : ((exec step new (getWritten [109] (by decide) (by decide) ++ [.serve oneKey])).any
      fun s => decide (s.Quiescent ∧ s.link.client.mRequests 0 = some ⟨0, true⟩)) = true := by
    decide +kernel
  obtain ⟨s, hs, hstate⟩ := (Option.any_eq_true _ _).mp hexec
  obtain ⟨hquiet, hitem⟩ := of_decide_eq_true hstate
  have hempty := h _ s (run_of_exec (fun _ _ _ => trivial) hs) hquiet
  rw [hempty] at hitem
  cases hitem

end Session

end MemClient
