import MemClient.HealthyServer
import MemClient.KeyAffinity
import MemClient.ServerFleet

/-!
# Where every request of a fleet stands

`LanePlaces` lists the requests of one connection by how far they have come, from
the posted send to the reply being read.  `Located` says that the requests made
so far, and nothing else, stand at these places, and that each server processed
what its part of the history says.  Section 6: every event keeps it, adds to the
history at its end, and brings the requests nearer to their notification.
-/

namespace MemClient

open ByteCodec EventRun AssocCells SequentialService

/-! ## 1. Accounts without a connection -/

theorem MemResult.not_isStat_fillReceiveBuffer {r : MemResult} (h : ¬ r.IsStat)
    (self : ResultRef) (status : ERequestStatus) (valueLen : Int) (keyLen : Nat) :
    ¬ (r.fillReceiveBuffer self status valueLen keyLen).1.IsStat := by
  have hbase : ∀ bufs, ¬ (r.baseFillReceiveBuffer self bufs valueLen).1.IsStat := by
    intro bufs
    unfold baseFillReceiveBuffer
    split <;> exact h
  unfold fillReceiveBuffer
  split
  · exact hbase _
  · exact hbase _
  · split
    · exact h
    · exact hbase _
  · next hcls => exact absurd (by simp [IsStat, hcls]) h

/-- The request of an exchange whose body is being read. -/
def Exchange.filling (ex : Exchange) : Outstanding where
  requestId := ex.requestId
  item := ex.item
  result := ex.fill.1
  notStat := MemResult.not_isStat_fillReceiveBuffer ex.notStat _ _ _ _

namespace Link

/-- A link on which nothing happens. -/
def bare (client : MemcachedClient) : Link where
  tcp := .connected sizeofHeader
  client := client
  incoming := []
  headers := []

theorem stream_bare (client : MemcachedClient) : Stream none [] (bare client) :=
  ⟨⟨rfl, rfl⟩, rfl⟩

variable {done posted todo : List Exchange} {reading : Option Exchange}
  {waiting : List Outstanding} {link : Link}

theorem entries_perm_bare :
    (entries posted reading todo waiting).Perm
      (entries posted none [] (reading.toList.map Exchange.filling ++
        (todo.map Exchange.toOutstanding ++ waiting))) := by
  apply List.Perm.of_eq
  cases reading <;> simp [entries, Exchange.filling, Outstanding.entry]

theorem cells_perm_bare :
    (cells done posted reading todo waiting).Perm
      (cells done posted none [] (reading.toList.map Exchange.filling ++
        (todo.map Exchange.toOutstanding ++ waiting))) := by
  apply List.Perm.of_eq
  cases reading <;>
    simp [cells, untouched, Exchange.filling, Outstanding.cell, Outstanding.ref, Exchange.fill]

/-- The account of a link is one of the client, and the stream of the link. -/
theorem accounted_iff_bare :
    Accounted done posted reading todo waiting link ↔
      Accounted done posted none [] (reading.toList.map Exchange.filling ++
        (todo.map Exchange.toOutstanding ++ waiting)) (bare link.client) ∧
      Stream reading todo link := by
  constructor
  · intro h
    exact ⟨⟨h.notifications, h.handlers, h.table.perm entries_perm_bare,
      h.heap.perm cells_perm_bare, stream_bare _⟩, h.stream⟩
  · rintro ⟨h, hstream⟩
    exact ⟨h.notifications, h.handlers, h.table.perm entries_perm_bare.symm,
      h.heap.perm cells_perm_bare.symm, hstream⟩

theorem refs_bare :
    refs done posted none [] (reading.toList.map Exchange.filling ++
      (todo.map Exchange.toOutstanding ++ waiting)) = refs done posted reading todo waiting := by
  cases reading <;> simp [refs, Exchange.filling, Outstanding.ref]

theorem refs_perm_bare {flights : List Outstanding}
    (hflights : flights.Perm (reading.toList.map Exchange.filling ++
      (todo.map Exchange.toOutstanding ++ waiting))) :
    (refs done posted none [] flights).Perm (refs done posted reading todo waiting) :=
  ((hflights.map Outstanding.ref).append_left _).trans (.of_eq refs_bare)

theorem Stream.answer (h : Stream reading todo link) (ex : Exchange) :
    Stream reading (todo ++ [ex])
      { link with incoming := link.incoming ++ ex.reply.bytes } := by
  cases reading with
  | none =>
      obtain ⟨hat, hin⟩ := h
      exact ⟨⟨hat.reads, hat.headerLength⟩, by simp [hin]⟩
  | some current =>
      obtain ⟨hbody, hat, hbufs, hheader, hin⟩ := h
      exact ⟨hbody, ⟨hat.reads, hat.headerLength, hat.size⟩, hbufs, hheader, by simp [hin]⟩

end Link

namespace Fleet

/-! ## 2. The places of a connection -/

/-- The requests on one connection.  `served` lists all that the server has
    processed, in order; of these, `missed` got no answer, `todo` and `reading`
    have an answer that was not read yet. -/
structure LanePlaces where
  served : List SentOp
  reading : Option Exchange
  todo : List Exchange
  missed : List SentOp
  written : List SentOp
  writing : List SentOp
  pending : List SentOp
  sends : List SentOp

namespace LanePlaces

def empty : LanePlaces := ⟨[], none, [], [], [], [], [], []⟩

/-- The requests that the server has not processed. -/
def unserved (l : LanePlaces) : List SentOp :=
  l.written ++ (l.writing ++ (l.pending ++ l.sends))

/-- The requests without an answer. -/
def unanswered (l : LanePlaces) : List SentOp := l.missed ++ l.unserved

/-- The requests that are outstanding, with what their results hold. -/
def flights (l : LanePlaces) : List Outstanding :=
  l.reading.toList.map Exchange.filling ++
    (l.todo.map Exchange.toOutstanding ++ l.unanswered.map SentOp.outstanding)

/-- The requests that were routed to the server. -/
def routed (l : LanePlaces) : List SentOp := l.served ++ l.unserved

/-- The answers on their way. -/
def answers (l : LanePlaces) : List Exchange := l.reading.toList ++ l.todo

/-- The events that the requests of the connection still need, at most. -/
def work (l : LanePlaces) : Nat :=
  Link.work [] l.reading l.todo + 4 * l.written.length +
    5 * (l.writing.length + l.pending.length) + 6 * l.sends.length

end LanePlaces

/-- The write side of a connection and the bytes at its server carry whole frames,
    in the order in which the send handlers ran. -/
structure Conveys {σ : Type} (l : LanePlaces) (lane : Lane σ) : Prop where
  writeInv : TcpClient.WriteInv lane.tcp
  notFailed : lane.tcp.writeFailed = false
  mWriteBuffers : lane.tcp.mWriteBuffers = l.writing.flatMap SentOp.bufs
  mPendingBuffers : lane.tcp.mPendingBuffers = l.pending.flatMap SentOp.bufs
  posted : lane.tcp.posted = l.sends.map fun x => .send x.bufs
  toServer : lane.toServer = l.written.flatMap SentOp.bytes
  executed : lane.tcp.executed.flatten =
    (l.served ++ (l.written ++ (l.writing ++ l.pending))).flatMap SentOp.bytes

theorem flatten_flatMap_bufs (xs : List SentOp) :
    (xs.flatMap SentOp.bufs).flatten = xs.flatMap SentOp.bytes := by
  induction xs with
  | nil => rfl
  | cons x xs ih =>
      rw [List.flatMap_cons, List.flatMap_cons, List.flatten_append, x.flatten_bufs, ih]
      rfl

theorem flatMap_bufs_eq_nil_iff {xs : List SentOp} : xs.flatMap SentOp.bufs = [] ↔ xs = [] := by
  rw [List.flatMap_eq_nil_iff]
  constructor
  · intro h
    exact List.eq_nil_iff_forall_not_mem.mpr fun x hx => x.bufs_ne_nil (h x hx)
  · rintro rfl
    simp

namespace Conveys

variable {σ : Type} {l : LanePlaces} {lane : Lane σ} {x : SentOp}

theorem writes_eq_nil_iff (h : Conveys l lane) : lane.tcp.writes = [] ↔ l.writing = [] := by
  rw [← flatMap_bufs_eq_nil_iff, ← h.mWriteBuffers]
  rcases h.writeInv.single with ⟨hwrites, hbuffers⟩ | ⟨hwrites, hbuffers⟩
  · exact iff_of_true hwrites hbuffers
  · exact iff_of_false (by simp [hwrites]) hbuffers

theorem pending_eq_nil (h : Conveys l lane) (hwriting : l.writing = []) : l.pending = [] := by
  have hidle := h.writeInv.idle (h.writes_eq_nil_iff.mpr hwriting) h.notFailed
  exact flatMap_bufs_eq_nil_iff.mp (h.mPendingBuffers.symm.trans hidle)

theorem send (h : Conveys l lane) :
    Conveys { l with sends := l.sends ++ [x] }
      { lane with tcp := { lane.tcp with posted := lane.tcp.posted ++ [.send x.bufs] } } where
  writeInv := by
    refine ⟨h.writeInv.single, h.writeInv.executed, h.writeInv.idle, h.writeInv.handed, ?_⟩
    intro bufs hmem
    rcases List.mem_append.mp hmem with hold | hnew
    · exact h.writeInv.posted bufs hold
    · cases List.mem_singleton.mp hnew
      exact x.bufs_ne_nil
  notFailed := h.notFailed
  mWriteBuffers := h.mWriteBuffers
  mPendingBuffers := h.mPendingBuffers
  posted := by simp [h.posted]
  toServer := h.toServer
  executed := h.executed

/-- A send handler puts its frame behind those that pend, or starts a write. -/
theorem runSend (h : Conveys l lane) (k : Nat) :
    ∃ writing pending, writing ++ pending = l.writing ++ (l.pending ++ [x]) ∧
      Conveys { l with writing := writing, pending := pending, sends := l.sends.eraseIdx k }
        { lane with
          tcp := TcpClient.runSend { lane.tcp with posted := lane.tcp.posted.eraseIdx k }
            x.bufs } := by
  have hinv := (h.writeInv.erasePosted k).runSend x.bufs_ne_nil
  have hposted : lane.tcp.posted.eraseIdx k =
      (l.sends.eraseIdx k).map fun x => .send x.bufs := by
    rw [h.posted, List.eraseIdx_map]
  have hexecuted : (lane.tcp.executed ++ x.bufs).flatten =
      (l.served ++ (l.written ++ (l.writing ++ (l.pending ++ [x])))).flatMap SentOp.bytes := by
    rw [List.flatten_append, h.executed, x.flatten_bufs]
    simp [SentOp.bytes, SentOp.frame]
  by_cases hwriting : l.writing = []
  · have hpending := h.pending_eq_nil hwriting
    have hbuffers : lane.tcp.mWriteBuffers = [] := by rw [h.mWriteBuffers, hwriting]; rfl
    have hpend : lane.tcp.mPendingBuffers = [] := by rw [h.mPendingBuffers, hpending]; rfl
    refine ⟨[x], [], by simp [hwriting, hpending], ?_⟩
    unfold TcpClient.runSend at hinv ⊢
    dsimp only at hinv ⊢
    rw [if_pos (by simp [hbuffers])] at hinv ⊢
    exact
      { writeInv := hinv
        notFailed := h.notFailed
        mWriteBuffers := by simp [TcpClient.sendPending, hpend]
        mPendingBuffers := by simp [TcpClient.sendPending, hbuffers]
        posted := hposted
        toServer := h.toServer
        executed := by
          refine hexecuted.trans ?_
          rw [hwriting, hpending]
          rfl }
  · refine ⟨l.writing, l.pending ++ [x], rfl, ?_⟩
    have hbuffers : lane.tcp.mWriteBuffers ≠ [] := by
      rw [h.mWriteBuffers]
      exact fun hnil => hwriting (flatMap_bufs_eq_nil_iff.mp hnil)
    unfold TcpClient.runSend at hinv ⊢
    dsimp only at hinv ⊢
    rw [if_neg (by simpa using hbuffers)] at hinv ⊢
    exact
      { writeInv := hinv
        notFailed := h.notFailed
        mWriteBuffers := h.mWriteBuffers
        mPendingBuffers := by simp [h.mPendingBuffers]
        posted := hposted
        toServer := h.toServer
        executed := hexecuted }

/-- A completed write brings its frames to the server; what pends is written next. -/
theorem writeDone (h : Conveys l lane) {bufs : List Bytes}
    (hbufs : lane.tcp.writes[0]? = some bufs) :
    Conveys { l with written := l.written ++ l.writing, writing := l.pending, pending := [] }
      { lane with
        tcp := TcpClient.writeDone { lane.tcp with writes := lane.tcp.writes.eraseIdx 0 } bufs true
        toServer := lane.toServer ++ bufs.flatten } := by
  have hinv := h.writeInv.writeDone hbufs true
  have hbufs' : bufs = l.writing.flatMap SentOp.bufs := by
    rw [← h.mWriteBuffers]
    rcases h.writeInv.single with ⟨hwrites, -⟩ | ⟨hwrites, -⟩
    · simp [hwrites] at hbufs
    · rw [hwrites] at hbufs
      exact (Option.some.inj hbufs).symm
  have hto : lane.toServer ++ bufs.flatten =
      (l.written ++ l.writing).flatMap SentOp.bytes := by
    rw [h.toServer, hbufs', flatten_flatMap_bufs, List.flatMap_append]
  have hexecuted : lane.tcp.executed.flatten =
      (l.served ++ (l.written ++ l.writing ++ (l.pending ++ []))).flatMap SentOp.bytes := by
    rw [h.executed]
    simp
  unfold TcpClient.writeDone at hinv ⊢
  dsimp only at hinv ⊢
  rw [if_pos rfl] at hinv ⊢
  by_cases hpending : l.pending = []
  · have hpend : lane.tcp.mPendingBuffers = [] := by rw [h.mPendingBuffers, hpending]; rfl
    rw [if_pos (by simp [hpend])] at hinv ⊢
    exact
      { writeInv := hinv
        notFailed := h.notFailed
        mWriteBuffers := by simp [hpending]
        mPendingBuffers := hpend
        posted := h.posted
        toServer := hto
        executed := hexecuted }
  · have hpend : lane.tcp.mPendingBuffers ≠ [] := by
      rw [h.mPendingBuffers]
      exact fun hnil => hpending (flatMap_bufs_eq_nil_iff.mp hnil)
    rw [if_neg (by simpa using hpend)] at hinv ⊢
    exact
      { writeInv := hinv
        notFailed := h.notFailed
        mWriteBuffers := by simp [TcpClient.sendPending, h.mPendingBuffers]
        mPendingBuffers := by simp [TcpClient.sendPending]
        posted := h.posted
        toServer := hto
        executed := hexecuted }

/-- The read side does not matter, nor what the server holds. -/
theorem congr (h : Conveys l lane) {tcp : TcpClient Buffer Bytes}
    (hsame : TcpClient.SameWrites lane.tcp tcp) {reading : Option Exchange}
    {todo : List Exchange} {server : σ} {incoming : Bytes} {headers : List Bytes} :
    Conveys { l with reading := reading, todo := todo }
      { lane with tcp := tcp, server := server, incoming := incoming, headers := headers } where
  writeInv := h.writeInv.congr hsame
  notFailed := hsame.writeFailed.trans h.notFailed
  mWriteBuffers := hsame.mWriteBuffers.trans h.mWriteBuffers
  mPendingBuffers := hsame.mPendingBuffers.trans h.mPendingBuffers
  posted := hsame.posted.trans h.posted
  toServer := h.toServer
  executed := by
    rw [hsame.executed]
    exact h.executed

end Conveys

/-! ## 3. The history -/

/-- A request that a server processed, of this client or of another one. -/
inductive Processed where
  | own (x : SentOp)
  | other (request : ParsedRequest)

namespace Processed

def request : Processed → ParsedRequest
  | own x => x.request
  | other request => request

def sentOp : Processed → Option SentOp
  | own x => some x
  | other _ => none

def foreign : Processed → Option ParsedRequest
  | own _ => none
  | other request => some request

end Processed

/-- What the servers processed, in the order in which they did. -/
abbrev History := List (ServerItem × Processed)

namespace History

def requestsAt (i : ServerItem) (history : History) : List ParsedRequest :=
  (history.filter fun e => e.1 = i).map fun e => e.2.request

def ownAt (i : ServerItem) (history : History) : List SentOp :=
  (history.filter fun e => e.1 = i).filterMap fun e => e.2.sentOp

def own (history : History) : List SentOp := history.filterMap fun e => e.2.sentOp

/-- The requests of other clients, with the servers that processed them. -/
def foreign (history : History) : List (ServerItem × ParsedRequest) :=
  history.filterMap fun e => e.2.foreign.map fun request => (e.1, request)

variable {history : History} {i j : ServerItem} {e : Processed} {x : SentOp}

theorem requestsAt_concat :
    requestsAt i (history ++ [(j, e)]) =
      requestsAt i history ++ if j = i then [e.request] else [] := by
  unfold requestsAt
  rw [List.filter_append, List.map_append]
  by_cases h : j = i <;> simp [h]

theorem ownAt_concat_own :
    ownAt i (history ++ [(j, .own x)]) = ownAt i history ++ if j = i then [x] else [] := by
  unfold ownAt
  rw [List.filter_append, List.filterMap_append]
  by_cases h : j = i <;> simp [h, Processed.sentOp]

theorem ownAt_concat_other {request : ParsedRequest} :
    ownAt i (history ++ [(j, .other request)]) = ownAt i history := by
  unfold ownAt
  rw [List.filter_append, List.filterMap_append]
  by_cases h : j = i <;> simp [h, Processed.sentOp]

theorem own_concat_own : own (history ++ [(j, .own x)]) = own history ++ [x] := by
  simp [own, Processed.sentOp]

theorem own_concat_other {request : ParsedRequest} :
    own (history ++ [(j, .other request)]) = own history := by
  simp [own, Processed.sentOp]

theorem foreign_concat_own : foreign (history ++ [(j, .own x)]) = foreign history := by
  simp [foreign, Processed.foreign]

theorem foreign_concat_other {request : ParsedRequest} :
    foreign (history ++ [(j, .other request)]) = foreign history ++ [(j, request)] := by
  simp [foreign, Processed.foreign]

theorem mem_own_iff : x ∈ own history ↔ ∃ i, (i, .own x) ∈ history := by
  unfold own
  rw [List.mem_filterMap]
  constructor
  · rintro ⟨⟨i, e⟩, hmem, he⟩
    cases e with
    | own y =>
        cases he
        exact ⟨i, hmem⟩
    | other request => cases he
  · rintro ⟨i, hmem⟩
    exact ⟨_, hmem, rfl⟩

theorem mem_ownAt_iff : x ∈ ownAt i history ↔ (i, .own x) ∈ history := by
  unfold ownAt
  rw [List.mem_filterMap]
  constructor
  · rintro ⟨⟨j, e⟩, hmem, he⟩
    obtain ⟨hhistory, hj⟩ := List.mem_filter.mp hmem
    obtain rfl : j = i := of_decide_eq_true hj
    cases e with
    | own y =>
        cases he
        exact hhistory
    | other request => cases he
  · intro hmem
    exact ⟨_, List.mem_filter.mpr ⟨hmem, by simp⟩, rfl⟩

theorem mem_foreign {request : ParsedRequest} (h : (i, .other request) ∈ history) :
    (i, request) ∈ foreign history :=
  List.mem_filterMap.mpr ⟨_, h, rfl⟩

section

variable {σ : Type} (S : Service σ ParsedRequest ServerAnswer) (init : ServerItem → σ)

/-- A server processed the request, and its answer was `answer`. -/
def Gave (history : History) (x : SentOp) (answer : Option ServerAnswer) : Prop :=
  ∃ i before after, history = before ++ (i, .own x) :: after ∧
    S.answerTo (init i) (requestsAt i before) x.request = answer

/-- The exchange carries the answer of a server. -/
def Justifies (history : History) (ex : Exchange) : Prop :=
  ∃ (x : SentOp) (a : ServerAnswer) (h : a.Suits x.op.result),
    history.Gave S init x (some a) ∧ ex = SentOp.exchange h

variable {S init}

theorem Gave.append {answer : Option ServerAnswer} (h : history.Gave S init x answer)
    (more : History) : Gave S init (history ++ more) x answer := by
  obtain ⟨i, before, after, rfl, hanswer⟩ := h
  exact ⟨i, before, after ++ more, by simp, hanswer⟩

theorem Justifies.append {ex : Exchange} (h : history.Justifies S init ex) (more : History) :
    Justifies S init (history ++ more) ex := by
  obtain ⟨x, a, hsuits, hgave, hex⟩ := h
  exact ⟨x, a, hsuits, hgave.append more, hex⟩

theorem gave_concat (history : History) (i : ServerItem) (x : SentOp) :
    Gave S init (history ++ [(i, .own x)]) x
      (S.answerTo (init i) (requestsAt i history) x.request) :=
  ⟨i, history, [], rfl, rfl⟩

end

end History

/-! ## 4. The whole fleet -/

/-- `made` lists the operations that were requested; `done` and `posted` list the
    exchanges whose handler has run, or waits to. -/
structure Places where
  made : List KeyedOp
  history : History
  done : List Exchange
  posted : List Exchange
  lane : ServerItem → LanePlaces

namespace Places

variable (p : Places) (listed : List ServerItem)

def setLane (i : ServerItem) (l : LanePlaces) : Places :=
  { p with lane := Function.update p.lane i l }

def flights : List Outstanding := listed.flatMap fun i => (p.lane i).flights

def answers : List Exchange :=
  (p.done ++ p.posted) ++ listed.flatMap fun i => (p.lane i).answers

def missed : List SentOp := listed.flatMap fun i => (p.lane i).missed

def work : Nat := p.posted.length + (listed.map fun i => (p.lane i).work).sum

end Places

section Lanes

variable {β : Type} {f : LanePlaces → List β} {lane : ServerItem → LanePlaces}
  {listed : List ServerItem} {i : ServerItem} {l : LanePlaces}

theorem flatMap_split (f : LanePlaces → List β) (lane : ServerItem → LanePlaces)
    (hi : i ∈ listed) :
    (listed.flatMap fun j => f (lane j)).Perm
      (f (lane i) ++ (listed.erase i).flatMap fun j => f (lane j)) := by
  have hsplit := (List.perm_cons_erase hi).flatMap_right fun j => f (lane j)
  rwa [List.flatMap_cons] at hsplit

theorem flatMap_update_split (f : LanePlaces → List β) (lane : ServerItem → LanePlaces)
    (l : LanePlaces) (hi : i ∈ listed) (hnodup : listed.Nodup) :
    (listed.flatMap fun j => f (Function.update lane i l j)).Perm
      (f l ++ (listed.erase i).flatMap fun j => f (lane j)) := by
  have hrest : ((listed.erase i).flatMap fun j => f (Function.update lane i l j)) =
      (listed.erase i).flatMap fun j => f (lane j) := by
    apply List.flatMap_congr
    intro j hj
    rw [Function.update_of_ne ((List.Nodup.mem_erase_iff hnodup).mp hj).1]
  have hsplit := flatMap_split f (Function.update lane i l) hi
  rwa [hrest, Function.update_self] at hsplit

/-- What balances at one connection balances over all of them. -/
theorem flatMap_update_perm (u v : List β) (hi : i ∈ listed) (hnodup : listed.Nodup)
    (h : (u ++ f l).Perm (v ++ f (lane i))) :
    (u ++ listed.flatMap fun j => f (Function.update lane i l j)).Perm
      (v ++ listed.flatMap fun j => f (lane j)) := by
  have hnew := flatMap_update_split f lane l hi hnodup
  have hold := flatMap_split f lane hi
  refine (hnew.append_left u).trans (List.Perm.trans ?_ (hold.append_left v).symm)
  rw [← List.append_assoc, ← List.append_assoc]
  exact h.append_right _

end Lanes

namespace Places

variable {p : Places} {listed : List ServerItem} {i : ServerItem} {l : LanePlaces}

theorem flights_setLane (v : List Outstanding) (hi : i ∈ listed) (hnodup : listed.Nodup)
    (h : l.flights.Perm (v ++ (p.lane i).flights)) :
    ((p.setLane i l).flights listed).Perm (v ++ p.flights listed) :=
  flatMap_update_perm [] v hi hnodup h

theorem answers_setLane (v : List Exchange) (hi : i ∈ listed) (hnodup : listed.Nodup)
    (h : l.answers.Perm (v ++ (p.lane i).answers)) :
    ((p.setLane i l).answers listed).Perm (v ++ p.answers listed) := by
  have hmore := flatMap_update_perm (f := LanePlaces.answers) [] v hi hnodup h
  refine (hmore.append_left (p.done ++ p.posted)).trans ?_
  rw [← List.append_assoc]
  refine (List.perm_append_comm.append_right _).trans ?_
  rw [List.append_assoc]
  exact .refl _

theorem flights_split (hi : i ∈ listed) :
    (p.flights listed).Perm ((p.lane i).flights ++ p.flights (listed.erase i)) :=
  flatMap_split LanePlaces.flights p.lane hi

/-- The requests in flight, with those of one connection in front. -/
theorem flights_grouped (hi : i ∈ listed) :
    (p.flights listed).Perm ((p.lane i).reading.toList.map Exchange.filling ++
      ((p.lane i).todo.map Exchange.toOutstanding ++
        ((p.lane i).unanswered.map SentOp.outstanding ++ p.flights (listed.erase i)))) := by
  refine (flights_split hi).trans (.of_eq ?_)
  simp [LanePlaces.flights]

theorem flights_setLane_split (hi : i ∈ listed) (hnodup : listed.Nodup) :
    ((p.setLane i l).flights listed).Perm (l.flights ++ p.flights (listed.erase i)) :=
  flatMap_update_split LanePlaces.flights p.lane l hi hnodup

theorem missed_setLane (v : List SentOp) (hi : i ∈ listed) (hnodup : listed.Nodup)
    (h : l.missed.Perm (v ++ (p.lane i).missed)) :
    ((p.setLane i l).missed listed).Perm (v ++ p.missed listed) :=
  flatMap_update_perm [] v hi hnodup h

theorem work_setLane {m n : Nat} (hi : i ∈ listed) (hnodup : listed.Nodup)
    (h : l.work + m ≤ (p.lane i).work + n) :
    (p.setLane i l).work listed + m ≤ p.work listed + n := by
  have hsplit (q : Places) : (listed.map fun j => (q.lane j).work).sum =
      (q.lane i).work + ((listed.erase i).map fun j => (q.lane j).work).sum := by
    rw [((List.perm_cons_erase hi).map _).sum_eq, List.map_cons, List.sum_cons]
  have hrest : ((listed.erase i).map fun j => ((p.setLane i l).lane j).work) =
      (listed.erase i).map fun j => (p.lane j).work := by
    apply List.map_congr_left
    intro j hj
    have hne := ((List.Nodup.mem_erase_iff hnodup).mp hj).1
    show (Function.update p.lane i l j).work = _
    rw [Function.update_of_ne hne]
  have hself : (p.setLane i l).lane i = l := Function.update_self _ _ _
  have hposted : (p.setLane i l).posted = p.posted := rfl
  unfold work
  rw [hsplit, hsplit, hrest, hself, hposted]
  omega

end Places

section

variable {σ : Type} (S : Service σ ParsedRequest ServerAnswer) (init : ServerItem → σ)

/-- The client's side of the books: every request that was made is notified,
    finished, or in flight, and what the servers processed they answered or not. -/
structure Tally (history : History) (done posted : List Exchange) (flights : List Outstanding)
    (answers : List Exchange) (missed : List SentOp) (c : MemcachedClient) : Prop where
  account : Link.Accounted done posted none [] flights (Link.bare c)
  justified : ∀ ex ∈ answers, history.Justifies S init ex
  silent : ∀ x ∈ missed, history.Gave S init x none
  processed : (history.own.map SentOp.outstanding).Perm
    (answers.map Exchange.toOutstanding ++ missed.map SentOp.outstanding)
  allocated : (Link.refs done posted none [] flights).Perm (List.range c.nextResult)

/-- The state of one connection and its server. -/
structure LaneAt (servers : ServerList) (made : List KeyedOp) (history : History)
    (i : ServerItem) (l : LanePlaces) (lane : Lane σ) : Prop where
  stream : ∀ c, Link.Stream l.reading l.todo (lane.link c)
  conveys : Conveys l lane
  idle : i ∉ servers.mServers.values → l = .empty
  assigned : ∀ x ∈ l.routed, servers.Assigns x.op.key i ∧ made[x.ref]? = some x.op
  server : lane.server = S.replay (init i) (history.requestsAt i)
  served : history.ownAt i = l.served

/-- Every request that was made stands at one of the places, and the servers did
    what the history says. -/
structure Located (p : Places) (s : Fleet σ) : Prop where
  routed : s.routing.servers.Routed
  tally : Tally S init p.history p.done p.posted (p.flights s.listed) (p.answers s.listed)
    (p.missed s.listed) s.client
  lane : ∀ i, LaneAt S init s.routing.servers p.made p.history i (p.lane i) (s.lanes i)
  made : s.client.nextResult = p.made.length

/-- What the events `es` lead to.  An event that nobody asks for uses up work. -/
structure Moves (es : List Event) (p : Places) (s : Fleet σ) (p' : Places) (next : Fleet σ) :
    Prop where
  located : Located S init p' next
  made : p'.made = p.made ++ es.flatMap Event.requested
  foreign : p'.history.foreign = p.history.foreign ++ es.flatMap Event.foreign
  history : p.history <+: p'.history
  work : p'.work next.listed + es.countP Event.internal ≤
    p.work s.listed + 6 * (es.flatMap Event.requested).length

end

section

variable {σ : Type} {S : Service σ ParsedRequest ServerAnswer} {init : ServerItem → σ}
  {P : Platform} {p : Places} {s next : Fleet σ} {i : ServerItem}

theorem tally_nil : Tally S init [] [] [] [] [] [] .new where
  account :=
    { notifications := rfl
      handlers := rfl
      table := Represents.nil_iff.mpr rfl
      heap := ⟨List.nodup_nil, fun _ hmem => absurd hmem List.not_mem_nil⟩
      stream := Link.stream_bare _ }
  justified := fun _ hmem => absurd hmem List.not_mem_nil
  silent := fun _ hmem => absurd hmem List.not_mem_nil
  processed := .refl _
  allocated := .refl _

theorem located_start {servers : ServerList} (hrouted : servers.Routed) :
    Located S init ⟨[], [], [], [], fun _ => .empty⟩ (start servers init) where
  routed := hrouted
  tally := by
    have hnil {β : Type} (is : List ServerItem) : (is.flatMap fun _ => ([] : List β)) = [] := by
      simp
    simp only [Places.flights, Places.answers, Places.missed, LanePlaces.flights,
      LanePlaces.answers, LanePlaces.unanswered, LanePlaces.unserved, LanePlaces.empty,
      Option.toList_none, List.map_nil, List.append_nil, hnil]
    exact tally_nil
  lane := fun i =>
    { stream := fun _ => ⟨⟨rfl, rfl⟩, rfl⟩
      conveys :=
        { writeInv := TcpClient.writeInv_connected sizeofHeader
          notFailed := rfl
          mWriteBuffers := rfl
          mPendingBuffers := rfl
          posted := rfl
          toServer := rfl
          executed := rfl }
      idle := fun _ => rfl
      assigned := by simp [LanePlaces.routed, LanePlaces.unserved, LanePlaces.empty]
      server := rfl
      served := rfl }
  made := rfl

/-! ## 5. The books -/

namespace Tally

variable {history : History} {done posted answers answers' : List Exchange}
  {flights flights' : List Outstanding} {missed missed' : List SentOp} {c : MemcachedClient}

theorem perm (h : Tally S init history done posted flights answers missed c)
    (hflights : flights.Perm flights') (hanswers : answers.Perm answers')
    (hmissed : missed.Perm missed') :
    Tally S init history done posted flights' answers' missed' c where
  account := h.account.perm hflights
  justified := fun ex hmem => h.justified ex (hanswers.mem_iff.mpr hmem)
  silent := fun x hmem => h.silent x (hmissed.mem_iff.mpr hmem)
  processed := h.processed.trans ((hanswers.map _).append (hmissed.map _))
  allocated := ((hflights.map _).append_left _).symm.trans h.allocated

/-- A new request takes a new result and a free id. -/
theorem request (h : Tally S init history done posted flights answers missed c) {o : Outstanding}
    {callback : Bool} (hid : o.requestId = c.mNextRequestId)
    (hitem : o.item = ⟨c.nextResult, callback⟩) (hnone : c.mRequests c.mNextRequestId = none) :
    Tally S init history done posted (o :: flights) answers missed
      (c.request o.result callback) where
  account := by
    have hfresh : c.nextResult ∉ Link.refs done posted none [] flights := by
      rw [h.allocated.mem_iff, List.mem_range]
      exact Nat.lt_irrefl _
    exact h.account.request hid hitem hnone hfresh
  justified := h.justified
  silent := h.silent
  processed := h.processed
  allocated := by
    have href : o.ref = c.nextResult := by rw [Outstanding.ref, hitem]
    have hrefs : (Link.refs done posted none [] (o :: flights)).Perm
        (c.nextResult :: Link.refs done posted none [] flights) := by
      unfold Link.refs
      rw [List.map_cons, href]
      exact List.perm_middle
    refine hrefs.trans ((h.allocated.cons _).trans ?_)
    simp only [MemcachedClient.request, List.range_succ]
    exact (List.perm_append_singleton _ _).symm

/-- A request gets an answer. -/
theorem answer (h : Tally S init history done posted flights answers missed c) {x : SentOp}
    {a : ServerAnswer} (hsuits : a.Suits x.op.result)
    (ha : S.answerTo (init i) (history.requestsAt i) x.request = some a) :
    Tally S init (history ++ [(i, .own x)]) done posted flights
      (SentOp.exchange hsuits :: answers) missed c where
  account := h.account
  justified := by
    intro ex hmem
    rcases List.mem_cons.mp hmem with rfl | hold
    · exact ⟨x, a, hsuits, ha ▸ History.gave_concat history i x, rfl⟩
    · exact (h.justified ex hold).append _
  silent := fun x hmem => (h.silent x hmem).append _
  processed := by
    rw [History.own_concat_own, List.map_append]
    exact (List.perm_append_singleton _ _).trans (h.processed.cons _)
  allocated := h.allocated

/-- A request gets no answer. -/
theorem miss (h : Tally S init history done posted flights answers missed c) {x : SentOp}
    (ha : S.answerTo (init i) (history.requestsAt i) x.request = none) :
    Tally S init (history ++ [(i, .own x)]) done posted flights answers (x :: missed) c where
  account := h.account
  justified := fun ex hmem => (h.justified ex hmem).append _
  silent := by
    intro y hmem
    rcases List.mem_cons.mp hmem with rfl | hold
    · exact ha ▸ History.gave_concat history i y
    · exact (h.silent y hold).append _
  processed := by
    rw [History.own_concat_own, List.map_append]
    refine (List.perm_append_singleton _ _).trans ((h.processed.cons _).trans ?_)
    exact List.perm_middle.symm
  allocated := h.allocated

/-- The client moves on; every answer and every result stays. -/
theorem advance (h : Tally S init history done posted flights answers missed c)
    {done' posted' : List Exchange} {c' : MemcachedClient}
    (haccount : Link.Accounted done' posted' none [] flights' (Link.bare c'))
    (hrefs : (Link.refs done' posted' none [] flights').Perm
      (Link.refs done posted none [] flights))
    (hnext : c'.nextResult = c.nextResult) :
    Tally S init history done' posted' flights' answers missed c' where
  account := haccount
  justified := h.justified
  silent := h.silent
  processed := h.processed
  allocated := by
    rw [hnext]
    exact hrefs.trans h.allocated

theorem other (h : Tally S init history done posted flights answers missed c)
    (request : ParsedRequest) :
    Tally S init (history ++ [(i, .other request)]) done posted flights answers missed c where
  account := h.account
  justified := fun ex hmem => (h.justified ex hmem).append _
  silent := fun x hmem => (h.silent x hmem).append _
  processed := by
    rw [History.own_concat_other]
    exact h.processed
  allocated := h.allocated

end Tally

/-! ## 6. Steps -/

theorem Located.nodup_listed (h : Located S init p s) : s.listed.Nodup :=
  ServerList.Keyed.nodup_values h.routed.key

theorem Located.mem_listed (h : Located S init p s) (hne : p.lane i ≠ .empty) : i ∈ s.listed := by
  by_contra hnot
  exact hne ((h.lane i).idle hnot)

theorem forall_update {Q : ServerItem → LanePlaces → Lane σ → Prop} {l : LanePlaces}
    {lane : Lane σ} (hi : Q i l lane) (hothers : ∀ j, j ≠ i → Q j (p.lane j) (s.lanes j))
    (j : ServerItem) : Q j (Function.update p.lane i l j) (Function.update s.lanes i lane j) := by
  by_cases hj : j = i
  · subst hj
    rw [Function.update_self, Function.update_self]
    exact hi
  · rw [Function.update_of_ne hj, Function.update_of_ne hj]
    exact hothers j hj

/-- Routing another key changes nothing for a connection. -/
theorem LaneAt.get {servers servers' : ServerList} {made : List KeyedOp} {history : History}
    {l : LanePlaces} {lane : Lane σ} (h : LaneAt S init servers made history i l lane)
    {key : Bytes} {outcome : Option ServerItem}
    (hget : servers.get P key = .ok (outcome, servers')) (more : List KeyedOp) :
    LaneAt S init servers' (made ++ more) history i l lane where
  stream := h.stream
  conveys := h.conveys
  idle := by
    obtain ⟨ref, -, -, rfl⟩ := ServerList.get_eq_ok hget
    exact h.idle
  assigned := by
    intro x hmem
    obtain ⟨hassigns, hmade⟩ := h.assigned x hmem
    have hlt : x.ref < made.length := (List.getElem?_eq_some_iff.mp hmade).1
    exact ⟨hassigns.get hget, (List.getElem?_append_left hlt).trans hmade⟩
  server := h.server
  served := h.served

/-- A request that another server processed changes nothing for a connection. -/
theorem LaneAt.elsewhere {servers : ServerList} {made : List KeyedOp} {history : History}
    {l : LanePlaces} {lane : Lane σ} {j : ServerItem}
    (h : LaneAt S init servers made history j l lane) (hj : j ≠ i) (e : Processed) :
    LaneAt S init servers made (history ++ [(i, e)]) j l lane where
  stream := h.stream
  conveys := h.conveys
  idle := h.idle
  assigned := h.assigned
  server := by
    rw [History.requestsAt_concat, if_neg (Ne.symm hj), List.append_nil]
    exact h.server
  served := by
    rw [← h.served]
    cases e with
    | own x => rw [History.ownAt_concat_own, if_neg (Ne.symm hj), List.append_nil]
    | other request => exact History.ownAt_concat_other

theorem Located.request (h : Located S init p s) {op : KeyedOp} {callback : Bool}
    {junk : Nat → Byte} (hguard : s.Answered S (.request op callback junk))
    (hstep : s.step P S (.request op callback junk) = some next) :
    ∃ p', Moves S init [.request op callback junk] p s p' next := by
  obtain ⟨⟨call, hcall, hfits⟩, hnone⟩ := hguard
  obtain ⟨i, servers, x, hget, rfl, hid, hitem, hclient, rfl, hlanes⟩ :=
    step_request hcall hfits hstep
  have hi : i ∈ s.listed := ServerList.mem_values_of_get h.routed hget
  have hlisted : next.listed = s.listed := by
    obtain ⟨ref, -, -, heq⟩ := ServerList.get_eq_ok hget
    unfold listed
    rw [heq]
    rfl
  let l : LanePlaces := { p.lane i with sends := (p.lane i).sends ++ [x] }
  have hwork : l.work + 0 ≤ (p.lane i).work + 6 := by
    simp only [LanePlaces.work, l, List.length_append, List.length_singleton]
    omega
  have hall := Places.work_setLane (p := p) hi h.nodup_listed hwork
  refine ⟨{ p.setLane i l with made := p.made ++ [x.op] },
    ⟨ServerList.routed_get h.routed hget, ?_, ?_, ?_⟩, rfl, (List.append_nil _).symm,
    List.prefix_rfl, ?_⟩
  · rw [hlisted, hclient]
    refine (h.tally.request (o := x.outstanding) hid hitem hnone).perm ?_ ?_ ?_
    · refine (Places.flights_setLane [x.outstanding] (l := l) hi h.nodup_listed ?_).symm
      simp only [LanePlaces.flights, LanePlaces.unanswered, LanePlaces.unserved, l,
        ← List.append_assoc, List.map_append, List.map_cons, List.map_nil]
      exact List.perm_append_singleton _ _
    · exact (Places.answers_setLane [] (l := l) hi h.nodup_listed (.refl _)).symm
    · exact (Places.missed_setLane [] (l := l) hi h.nodup_listed (.refl _)).symm
  · rw [hlanes]
    refine forall_update ?_ fun j _ => (h.lane j).get hget [x.op]
    have hold := (h.lane i).get hget [x.op]
    exact
      { stream := fun c => (hold.stream c).congr ⟨rfl, rfl, rfl, rfl⟩ rfl
        conveys := hold.conveys.send
        idle := fun hnot => absurd hi (by rwa [← hlisted])
        assigned := by
          intro y hmem
          simp only [LanePlaces.routed, LanePlaces.unserved, l, ← List.append_assoc] at hmem
          rcases List.mem_append.mp hmem with hbefore | hnew
          · exact hold.assigned y (by simpa [LanePlaces.routed, LanePlaces.unserved] using hbefore)
          · obtain rfl := List.mem_singleton.mp hnew
            refine ⟨ServerList.assigns_get hget, ?_⟩
            rw [SentOp.ref, hitem, h.made]
            exact List.getElem?_concat_length
        server := hold.server
        served := hold.served }
  · rw [hclient]
    show s.client.nextResult + 1 = _
    rw [h.made, List.length_append, List.length_singleton]
  · rw [hlisted]
    exact hall

/-- A step of one connection that moves no answer and leaves the client alone. -/
theorem Located.transmit (h : Located S init p s) (hi : i ∈ s.listed) {l : LanePlaces}
    {lane : Lane σ} (hflights : l.flights.Perm (p.lane i).flights)
    (hanswers : l.answers = (p.lane i).answers) (hmissed : l.missed = (p.lane i).missed)
    (hlane : LaneAt S init s.routing.servers p.made p.history i l lane) {e : Event}
    (hrequested : e.requested = []) (hforeign : e.foreign = [])
    (hwork : l.work + 1 ≤ (p.lane i).work + 0) :
    Moves S init [e] p s (p.setLane i l) (s.setLane i lane) where
  located :=
    { routed := h.routed
      tally := by
        refine h.tally.perm ?_ ?_ ?_
        · exact (Places.flights_setLane [] hi h.nodup_listed hflights).symm
        · exact (Places.answers_setLane [] hi h.nodup_listed (.of_eq hanswers)).symm
        · exact (Places.missed_setLane [] hi h.nodup_listed (.of_eq hmissed)).symm
      lane := forall_update hlane fun j _ => h.lane j
      made := h.made }
  made := by simp [hrequested, Places.setLane]
  foreign := by simp [hforeign, Places.setLane]
  history := List.prefix_rfl
  work := by
    have hall := Places.work_setLane (p := p) hi h.nodup_listed hwork
    have hle : [e].countP Event.internal ≤ 1 := List.countP_le_length
    have hlisted : (s.setLane i lane).listed = s.listed := rfl
    rw [hlisted]
    omega

theorem Located.runSend (h : Located S init p s) {k : Nat}
    (hstep : s.step P S (.runSend i k) = some next) :
    ∃ p', Moves S init [.runSend i k] p s p' next := by
  have hlane := h.lane i
  obtain ⟨⟨tcp, client⟩, htcp, rfl⟩ := Option.map_eq_some_iff.mp hstep
  rcases TcpClient.step_runPosted htcp with ⟨bufs, hk, heq⟩ | ⟨hk, -⟩
  · cases heq
    rw [hlane.conveys.posted, List.getElem?_map, Option.map_eq_some_iff] at hk
    obtain ⟨x, hx, hbufs⟩ := hk
    cases hbufs
    have hi : i ∈ s.listed := h.mem_listed fun hempty => by simp [hempty, LanePlaces.empty] at hx
    obtain ⟨writing, pending, hsplit, hconveys⟩ := hlane.conveys.runSend (x := x) k
    obtain ⟨hlt, rfl⟩ := List.getElem?_eq_some_iff.mp hx
    -- the frame leaves the posted sends and goes behind those that pend
    have hmove : (writing ++ (pending ++ (p.lane i).sends.eraseIdx k)).Perm
        ((p.lane i).writing ++ ((p.lane i).pending ++ (p.lane i).sends)) := by
      rw [← List.append_assoc, hsplit]
      simp only [List.append_assoc]
      refine List.Perm.append_left _ (List.Perm.append_left _ ?_)
      exact List.getElem_cons_eraseIdx_perm hlt
    let l : LanePlaces :=
      { p.lane i with
        writing := writing, pending := pending, sends := (p.lane i).sends.eraseIdx k }
    refine ⟨p.setLane i l, h.transmit (l := l) hi ?_ rfl rfl ?_ rfl rfl ?_⟩
    · exact ((((hmove.append_left _).append_left _).map _).append_left _).append_left _
    · exact
        { stream := fun c => (hlane.stream c).congr (TcpClient.sameReads_runSend _ _ _) rfl
          conveys := hconveys
          idle := fun hnot => absurd hi hnot
          assigned := fun y hmem => hlane.assigned y
            ((((hmove.append_left _).append_left _)).mem_iff.mp hmem)
          server := hlane.server
          served := hlane.served }
    · have hlen := congrArg List.length hsplit
      have herase := List.length_eraseIdx_of_lt hlt
      simp only [List.length_append, List.length_singleton] at hlen
      simp only [LanePlaces.work, l, herase]
      omega
  · rw [hlane.conveys.posted, List.getElem?_map, Option.map_eq_some_iff] at hk
    obtain ⟨x, -, hbufs⟩ := hk
    cases hbufs

theorem Located.writeDone (h : Located S init p s)
    (hstep : s.step P S (.writeDone i) = some next) :
    ∃ p', Moves S init [.writeDone i] p s p' next := by
  have hlane := h.lane i
  simp only [step] at hstep
  split at hstep
  · next bufs rest hwrites =>
      obtain ⟨⟨tcp, client⟩, htcp, rfl⟩ := Option.map_eq_some_iff.mp hstep
      obtain ⟨bufs', hk, heq⟩ := TcpClient.step_writeDone htcp
      obtain rfl : bufs = bufs' := by simpa [hwrites] using hk
      cases heq
      have hwriting : (p.lane i).writing ≠ [] := by
        intro hnil
        rw [← hlane.conveys.writes_eq_nil_iff, hwrites] at hnil
        cases hnil
      have hi : i ∈ s.listed := h.mem_listed fun hempty => hwriting (by rw [hempty]; rfl)
      let l : LanePlaces :=
        { p.lane i with
          written := (p.lane i).written ++ (p.lane i).writing
          writing := (p.lane i).pending
          pending := [] }
      refine ⟨p.setLane i l, h.transmit (l := l) hi ?_ rfl rfl ?_ rfl rfl ?_⟩
      · apply List.Perm.of_eq
        simp [LanePlaces.flights, LanePlaces.unanswered, LanePlaces.unserved, l]
      · exact
          { stream := fun c =>
              (hlane.stream c).congr (TcpClient.sameReads_writeDone (s.lanes i).tcp _ _ true) rfl
            conveys := hlane.conveys.writeDone hk
            idle := fun hnot => absurd hi hnot
            assigned := fun y hmem => hlane.assigned y (by
              simpa [LanePlaces.routed, LanePlaces.unserved, l] using hmem)
            server := hlane.server
            served := hlane.served }
      · have hpos := List.length_pos_iff.mpr hwriting
        simp only [LanePlaces.work, l, List.length_append, List.length_nil]
        omega
  · cases hstep

/-- A request without an answer is in the table, with its result as it was made. -/
theorem Located.unanswered (h : Located S init p s) {x : SentOp}
    (hx : x ∈ (p.lane i).unanswered) :
    s.client.mRequests x.requestId = some x.item ∧ s.client.results x.ref = x.op.result := by
  have hi : i ∈ s.listed := h.mem_listed fun hempty => by
    simp [hempty, LanePlaces.empty, LanePlaces.unanswered, LanePlaces.unserved] at hx
  have hflight : x.outstanding ∈ p.flights s.listed := by
    refine List.mem_flatMap.mpr ⟨i, hi, ?_⟩
    exact List.mem_append_right _ (List.mem_append_right _ (List.mem_map_of_mem hx))
  constructor
  · apply h.tally.account.table.get
    exact List.mem_append_right _ (List.mem_map_of_mem (f := Outstanding.entry) hflight)
  · refine h.tally.account.heap.eq (x.ref, x.op.result) ?_
    exact List.mem_append_right _ (List.mem_append_right _ (List.mem_append_right _
      (List.mem_map_of_mem (f := Outstanding.cell) hflight)))

/-- The server takes the next request from the connection. -/
theorem LaneAt.serve {servers : ServerList} {made : List KeyedOp} {history : History}
    {l : LanePlaces} {lane : Lane σ} (h : LaneAt S init servers made history i l lane)
    (hi : i ∈ servers.mServers.values) {x : SentOp}
    {written : List SentOp} (hwritten : l.written = x :: written) {todo : List Exchange}
    {missed : List SentOp} {incoming : Bytes}
    (hstream : ∀ c, Link.Stream l.reading todo (Lane.link { lane with incoming := incoming } c)) :
    LaneAt S init servers made (history ++ [(i, .own x)]) i
      { l with served := l.served ++ [x], todo := todo, missed := missed, written := written }
      { lane with
        toServer := written.flatMap SentOp.bytes
        server := (S.process lane.server x.request).1
        incoming := incoming } where
  stream := hstream
  conveys :=
    { writeInv := h.conveys.writeInv
      notFailed := h.conveys.notFailed
      mWriteBuffers := h.conveys.mWriteBuffers
      mPendingBuffers := h.conveys.mPendingBuffers
      posted := h.conveys.posted
      toServer := rfl
      executed := by simpa [hwritten] using h.conveys.executed }
  idle := fun hnot => absurd hi hnot
  assigned := fun y hmem => h.assigned y (by
    simpa [LanePlaces.routed, LanePlaces.unserved, hwritten] using hmem)
  server := by
    rw [History.requestsAt_concat, if_pos rfl, S.replay_concat, h.server]
    rfl
  served := by rw [History.ownAt_concat_own, if_pos rfl, h.served]

theorem Located.serve (h : Located S init p s) (hguard : s.Answered S (.serve i))
    (hstep : s.step P S (.serve i) = some next) :
    ∃ p', Moves S init [.serve i] p s p' next := by
  have hlane := h.lane i
  obtain ⟨⟨request, rest⟩, hparse, rfl⟩ := Option.map_eq_some_iff.mp hstep
  have hto := hlane.conveys.toServer
  cases hwritten : (p.lane i).written with
  | nil =>
      -- nothing was written: there is no request to process
      have hnone : parseRequest [] = none := by decide
      rw [hto, hwritten, List.flatMap_nil, hnone] at hparse
      cases hparse
  | cons x written =>
      rw [hwritten, List.flatMap_cons] at hto
      have hview := x.frame.parseRequest_bytes (written.flatMap SentOp.bytes)
      have hguard := hguard request rest hparse
      obtain ⟨rfl, rfl⟩ : x.request = request ∧ written.flatMap SentOp.bytes = rest := by
        rw [hto] at hparse
        exact Prod.mk.inj (Option.some.inj (hview.symm.trans hparse))
      have hi : i ∈ s.listed := h.mem_listed fun hempty => by
        simp [hempty, LanePlaces.empty] at hwritten
      have hanswerTo : S.answerTo (init i) (p.history.requestsAt i) x.request =
          (S.process (s.lanes i).server x.request).2 := by
        rw [hlane.server]
        rfl
      cases hanswer : (S.process (s.lanes i).server x.request).2 with
      | none =>
          let l : LanePlaces :=
            { p.lane i with
              served := (p.lane i).served ++ [x]
              missed := (p.lane i).missed ++ [x]
              written := written }
          have hwork : l.work + 1 ≤ (p.lane i).work + 0 := by
            simp only [LanePlaces.work, l, hwritten, List.length_cons]
            omega
          have hall := Places.work_setLane (p := p) hi h.nodup_listed hwork
          refine ⟨{ p.setLane i l with history := p.history ++ [(i, .own x)] },
            ⟨h.routed, ?_, ?_, h.made⟩, (List.append_nil _).symm,
            History.foreign_concat_own.trans (List.append_nil _).symm,
            List.prefix_append _ _, hall⟩
          · refine (h.tally.miss (hanswerTo.trans hanswer)).perm ?_ ?_ ?_
            · refine (Places.flights_setLane [] (l := l) hi h.nodup_listed (.of_eq ?_)).symm
              simp [LanePlaces.flights, LanePlaces.unanswered, LanePlaces.unserved, l, hwritten]
            · exact (Places.answers_setLane [] (l := l) hi h.nodup_listed (.refl _)).symm
            · exact (Places.missed_setLane [x] (l := l) hi h.nodup_listed
                (List.perm_append_singleton _ _)).symm
          · refine forall_update ?_ fun j hj => (h.lane j).elsewhere hj _
            refine hlane.serve hi hwritten fun c => (hlane.stream c).congr (.refl _) ?_
            simp [hanswer]
      | some a =>
          have hx : x ∈ (p.lane i).unanswered := by
            simp [LanePlaces.unanswered, LanePlaces.unserved, hwritten]
          obtain ⟨hentry, hresult⟩ := h.unanswered hx
          have hsuits : a.Suits x.op.result := by
            rw [← hresult]
            exact hguard a hanswer x.item (by rw [x.opaque_request]; exact hentry)
          let l : LanePlaces :=
            { p.lane i with
              served := (p.lane i).served ++ [x]
              todo := (p.lane i).todo ++ [SentOp.exchange hsuits]
              written := written }
          have hwork : l.work + 1 ≤ (p.lane i).work + 0 := by
            simp only [LanePlaces.work, Link.work, l, hwritten, List.length_cons,
              List.length_append, List.length_nil]
            omega
          have hall := Places.work_setLane (p := p) hi h.nodup_listed hwork
          refine ⟨{ p.setLane i l with history := p.history ++ [(i, .own x)] },
            ⟨h.routed, ?_, ?_, h.made⟩, (List.append_nil _).symm,
            History.foreign_concat_own.trans (List.append_nil _).symm,
            List.prefix_append _ _, hall⟩
          · refine (h.tally.answer hsuits (hanswerTo.trans hanswer)).perm ?_ ?_ ?_
            · refine (Places.flights_setLane [] (l := l) hi h.nodup_listed ?_).symm
              have hmove : (x :: ((p.lane i).missed ++ (written ++ ((p.lane i).writing ++
                  ((p.lane i).pending ++ (p.lane i).sends))))).Perm (p.lane i).unanswered := by
                rw [LanePlaces.unanswered, LanePlaces.unserved, hwritten]
                exact List.perm_middle.symm
              simp only [LanePlaces.flights, LanePlaces.unanswered, LanePlaces.unserved, l,
                List.map_append, List.append_assoc]
              refine List.Perm.append_left _ (List.Perm.append_left _ ?_)
              have hmap := hmove.map SentOp.outstanding
              simp only [LanePlaces.unanswered, LanePlaces.unserved, List.map_cons,
                List.map_append] at hmap
              exact hmap
            · refine (Places.answers_setLane [SentOp.exchange hsuits] (l := l) hi h.nodup_listed
                ?_).symm
              simp only [LanePlaces.answers, l, ← List.append_assoc]
              exact List.perm_append_singleton _ _
            · exact (Places.missed_setLane [] (l := l) hi h.nodup_listed (.refl _)).symm
          · refine forall_update ?_ fun j hj => (h.lane j).elsewhere hj _
            refine hlane.serve hi hwritten fun c => ?_
            have hstream := (hlane.stream c).answer (SentOp.exchange hsuits)
            exact hstream.congr (.refl _) (by simp [hanswer, Lane.link]; rfl)

/-- Another client uses the server. -/
theorem Located.serveOther (h : Located S init p s) {request : ParsedRequest}
    (hstep : s.step P S (.serveOther i request) = some next) :
    ∃ p', Moves S init [.serveOther i request] p s p' next := by
  cases hstep
  refine ⟨{ p with history := p.history ++ [(i, .other request)] },
    ⟨h.routed, h.tally.other request, ?_, h.made⟩, (List.append_nil _).symm,
    History.foreign_concat_other, List.prefix_append _ _, le_rfl⟩
  have hlane := h.lane i
  have hused : LaneAt S init s.routing.servers p.made (p.history ++ [(i, .other request)]) i
      (p.lane i) { s.lanes i with server := (S.process (s.lanes i).server request).1 } :=
    { stream := hlane.stream
      conveys := hlane.conveys.congr ⟨rfl, rfl, rfl, rfl, rfl, rfl, rfl, rfl⟩
      idle := hlane.idle
      assigned := hlane.assigned
      server := by
        rw [History.requestsAt_concat, if_pos rfl, S.replay_concat, hlane.server]
        rfl
      served := History.ownAt_concat_other.trans hlane.served }
  have hall := forall_update hused fun j hj => (h.lane j).elsewhere hj _
  rwa [Function.update_eq_self] at hall

/-- The account of one link, with the rest of the fleet as requests that wait. -/
theorem Located.account_link (h : Located S init p s) (hi : i ∈ s.listed) :
    Link.Accounted p.done p.posted (p.lane i).reading (p.lane i).todo
      ((p.lane i).unanswered.map SentOp.outstanding ++ p.flights (s.listed.erase i))
      (s.link i) := by
  exact Link.accounted_iff_bare.mpr
    ⟨h.tally.account.perm (Places.flights_grouped hi), (h.lane i).stream s.client⟩

/-- A read moves the request of one reply on. -/
theorem Located.read (h : Located S init p s) (hstep : s.step P S (.read i) = some next) :
    ∃ p', Moves S init [.read i] p s p' next := by
  have hlane := h.lane i
  obtain ⟨link, hread, rfl⟩ := Option.map_eq_some_iff.mp hstep
  by_cases hi : i ∈ s.listed
  · have haccount := h.account_link hi
    obtain ⟨posted, reading, todo, hnew, hsame, hlt⟩ := haccount.step_read hread
    obtain ⟨hbare, hstream⟩ := Link.accounted_iff_bare.mp hnew
    let l : LanePlaces := { p.lane i with reading := reading, todo := todo }
    have hflights : ((p.setLane i l).flights s.listed).Perm
        (reading.toList.map Exchange.filling ++ (todo.map Exchange.toOutstanding ++
          ((p.lane i).unanswered.map SentOp.outstanding ++ p.flights (s.listed.erase i)))) := by
      refine (Places.flights_setLane_split hi h.nodup_listed).trans (.of_eq ?_)
      simp [LanePlaces.flights, LanePlaces.unanswered, LanePlaces.unserved, l]
    refine ⟨{ p.setLane i l with posted := posted }, ⟨h.routed, ?_, ?_, ?_⟩,
      (List.append_nil _).symm, (List.append_nil _).symm, List.prefix_rfl, ?_⟩
    · have hrefs : (Link.refs p.done posted none [] ((p.setLane i l).flights s.listed)).Perm
          (Link.refs p.done p.posted none [] (p.flights s.listed)) := by
        have hgrouped : (p.flights s.listed).Perm _ := Places.flights_grouped hi
        refine (Link.refs_perm_bare hflights).trans
          (List.Perm.trans (.of_eq ?_) (Link.refs_perm_bare hgrouped).symm)
        unfold Link.refs
        rw [hsame]
      have hanswers : (p.answers s.listed).Perm
          ((p.done ++ posted) ++ s.listed.flatMap fun j =>
            (Function.update p.lane i l j).answers) := by
        refine (flatMap_update_perm (f := LanePlaces.answers) _ _ hi h.nodup_listed ?_).symm
        apply List.Perm.of_eq
        rw [List.append_assoc, List.append_assoc]
        exact congrArg (p.done ++ ·) hsame
      have htally := h.tally.advance (hbare.perm hflights.symm) hrefs
        (Link.nextResult_read hread)
      exact htally.perm (.refl _) hanswers
        (Places.missed_setLane [] (l := l) hi h.nodup_listed (.refl _)).symm
    · refine forall_update ?_ fun j _ => h.lane j
      exact
        { stream := fun c => hstream.congr (.refl _) rfl
          conveys := hlane.conveys.congr (Link.sameWrites_read hread)
          idle := fun hnot => absurd hi hnot
          assigned := hlane.assigned
          server := hlane.server
          served := hlane.served }
    · exact (Link.nextResult_read hread).trans h.made
    · have hwork : l.work + (posted.length + 1) ≤ (p.lane i).work + p.posted.length := by
        simp only [LanePlaces.work, Link.work, l, List.length_nil] at hlt ⊢
        omega
      have hall := Places.work_setLane hi h.nodup_listed hwork
      have hposted : (p.setLane i l).posted = p.posted := rfl
      have hlisted : (s.setLink i link).listed = s.listed := rfl
      rw [hlisted]
      show posted.length + (s.listed.map fun j => ((p.setLane i l).lane j).work).sum + 1 ≤
        p.work s.listed + 0
      rw [Places.work, hposted] at hall
      omega
  · -- nothing comes on a connection that was never used
    have hstream := hlane.stream s.client
    rw [hlane.idle hi] at hstream
    have haccount : Link.Accounted p.done p.posted none [] (p.flights s.listed) (s.link i) :=
      Link.accounted_iff_bare.mpr ⟨h.tally.account, hstream⟩
    rw [haccount.read_eq_none] at hread
    cases hread

theorem Located.runPosted (h : Located S init p s) {k : Nat}
    (hstep : s.step P S (.runPosted k) = some next) :
    ∃ p', Moves S init [.runPosted k] p s p' next := by
  simp only [step] at hstep
  split at hstep
  · next client hrun =>
      cases hstep
      have hbare : (Link.bare s.client).runPosted k = some (Link.bare client) := by
        simp [Link.runPosted, Link.bare, hrun]
      obtain ⟨ex, hk, haccount⟩ := h.tally.account.step_runPosted hbare
      obtain ⟨hlt, rfl⟩ := List.getElem?_eq_some_iff.mp hk
      have hmove : (p.done ++ [p.posted[k]] ++ p.posted.eraseIdx k).Perm (p.done ++ p.posted) := by
        rw [List.append_assoc]
        exact (List.getElem_cons_eraseIdx_perm hlt).append_left _
      have hrefs : (Link.refs (p.done ++ [p.posted[k]]) (p.posted.eraseIdx k) none []
          (p.flights s.listed)).Perm (Link.refs p.done p.posted none [] (p.flights s.listed)) := by
        simp only [Link.refs, Option.toList_none, List.append_nil]
        exact (hmove.map _).append_right _
      have htally := h.tally.advance haccount hrefs (Link.runPosted_frame hbare).2
      refine ⟨{ p with done := p.done ++ [p.posted[k]], posted := p.posted.eraseIdx k },
        ⟨h.routed, htally.perm (.refl _) (hmove.symm.append_right _) (.refl _), h.lane,
        (Link.runPosted_frame hbare).2.trans h.made⟩, (List.append_nil _).symm,
        (List.append_nil _).symm, List.prefix_rfl, ?_⟩
      have herase := List.length_eraseIdx_of_lt hlt
      show (p.posted.eraseIdx k).length + (s.listed.map fun i => (p.lane i).work).sum + 1 ≤
        p.posted.length + (s.listed.map fun i => (p.lane i).work).sum + 0
      omega
  · cases hstep

/-- **Every event keeps every request in its place.** -/
theorem located_step {e : Event} (h : Located S init p s) (hguard : s.Answered S e)
    (hstep : s.step P S e = some next) : ∃ p', Moves S init [e] p s p' next := by
  cases e with
  | request op callback junk => exact h.request hguard hstep
  | runSend i k => exact h.runSend hstep
  | writeDone i => exact h.writeDone hstep
  | serve i => exact h.serve hguard hstep
  | serveOther i request => exact h.serveOther hstep
  | read i => exact h.read hstep
  | runPosted k => exact h.runPosted hstep

end

end Fleet

end MemClient
