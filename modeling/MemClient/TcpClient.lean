import MemClient.ByteCodec
import MemClient.EventRun

/-!
# The connection

`TcpClient` of `network/TcpClient.cpp`: the read loop of header and body, and the
write queue with its two buffer vectors.  Asynchronous operations that are
outstanding and handlers that are posted to the io_service are part of the
state; an event completes one operation or runs one handler, in any order.  The
header and body callbacks are a parameter, acting on an environment of their
own.  Section 4: what counts as executed is what the events of the run handed
over.  Section 5: the bytes written are the sends, in order.
-/

namespace MemClient

open ByteCodec EventRun

/-! ## 1. State and callbacks -/

inductive ESocketError where
  | connect
  | readHeader
  | readBody
  | send
  | bodyBuffer
deriving DecidableEq, Repr

inductive Signal where
  | onError (type : ESocketError)
  | onClosed
deriving DecidableEq, Repr

/-- An `async_read` that is outstanding. -/
inductive ReadOp where
  | header
  | body
deriving DecidableEq, Repr

inductive PostedIo (γ : Type) where
  | send (bufs : List γ)
  | close

/-- The callbacks `OnHeader` and `OnBody` over an environment `σ` and receive
    buffers `β`.  `onHeader` may change the header in place; `receive` is what
    the bytes of a completed body read do to the memory behind the buffers. -/
structure Handlers (σ β : Type) where
  bufferSize : β → Nat
  onHeader : σ → Bytes → σ × Bytes × Bool × List β
  receive : σ → List β → Bytes → σ
  onBody : σ → Bytes → List β → σ

/-- A connection over receive buffers `β` and send buffers `γ`. -/
structure TcpClient (β γ : Type) where
  mWriteBuffers : List γ
  mPendingBuffers : List γ
  mReadBuffers : List β
  mSocketOpen : Bool
  mHeaderLength : Nat
  mHeaderBuffer : Bytes
  reads : List ReadOp
  writes : List (List γ)
  posted : List (PostedIo γ)
  -- what has happened so far; no handler looks at these
  signals : List Signal
  executed : List γ
  handed : List γ
  written : List γ
  writeFailed : Bool

namespace TcpClient

variable {σ β γ : Type}

/-! ## 2. The handlers -/

/-- A connection right after its connect handler ran, with the first header read
    under way. -/
def connected (headerLength : Nat) : TcpClient β γ where
  mWriteBuffers := []
  mPendingBuffers := []
  mReadBuffers := []
  mSocketOpen := true
  mHeaderLength := headerLength
  mHeaderBuffer := List.replicate headerLength 0
  reads := [.header]
  writes := []
  posted := []
  signals := []
  executed := []
  handed := []
  written := []
  writeFailed := false

def readHeader (t : TcpClient β γ) : TcpClient β γ := { t with reads := t.reads ++ [.header] }

def readBody (t : TcpClient β γ) : TcpClient β γ := { t with reads := t.reads ++ [.body] }

@[simp] theorem reads_readHeader (t : TcpClient β γ) :
    t.readHeader.reads = t.reads ++ [.header] := rfl

@[simp] theorem reads_readBody (t : TcpClient β γ) : t.readBody.reads = t.reads ++ [.body] := rfl

def new (headerLength : Nat) : TcpClient β γ :=
  { connected headerLength with mSocketOpen := false, reads := [] }

/-- The completion handler in `Connect`. -/
def connectDone (t : TcpClient β γ) (ok : Bool) : TcpClient β γ :=
  if ok then { t with mSocketOpen := true }.readHeader
  else { t with signals := t.signals ++ [.onError .connect] }

theorem connectDone_new (headerLength : Nat) :
    (new headerLength : TcpClient β γ).connectDone true = connected headerLength := rfl

def close4Error (t : TcpClient β γ) (type : ESocketError) : TcpClient β γ :=
  { t with mSocketOpen := false, signals := t.signals ++ [.onError type] }

/-- The completion handler in `ReadHeader`; `none` is an error code. -/
def headerReaded (H : Handlers σ β) (t : TcpClient β γ) (s : σ) :
    Option Bytes → TcpClient β γ × σ
  | some data =>
      let (s, header, more, bufs) := H.onHeader s data
      let t := { t with mHeaderBuffer := header, mReadBuffers := bufs }
      if more then
        if bufs.length ≠ 0 then (t.readBody, s) else (t.close4Error .bodyBuffer, s)
      else (t.readHeader, s)
  | none => (t.close4Error .readHeader, s)

theorem headerReaded_snd (H : Handlers σ β) (t : TcpClient β γ) (s : σ) (data : Bytes) :
    (headerReaded H t s (some data)).2 = (H.onHeader s data).1 := by
  unfold headerReaded
  dsimp only
  split
  · split <;> rfl
  · rfl

theorem signals_headerReaded {H : Handlers σ β} {t : TcpClient β γ} {s : σ} {data : Bytes}
    (h : (H.onHeader s data).2.2.1 = true → (H.onHeader s data).2.2.2 ≠ []) :
    (headerReaded H t s (some data)).1.signals = t.signals := by
  unfold headerReaded
  dsimp only
  split
  · next hmore =>
      rw [if_pos (by simpa using h hmore)]
      rfl
  · rfl

/-- The completion handler in `ReadBody`. -/
def bodyReaded (H : Handlers σ β) (t : TcpClient β γ) (s : σ) :
    Option Bytes → TcpClient β γ × σ
  | some data =>
      let s := H.receive s t.mReadBuffers data
      let s := H.onBody s t.mHeaderBuffer t.mReadBuffers
      (t.readHeader, s)
  | none => (t.close4Error .readBody, s)

/-- `Send()`: swap the two vectors and start one `async_write`. -/
def sendPending (t : TcpClient β γ) : TcpClient β γ :=
  let t := { t with mPendingBuffers := t.mWriteBuffers, mWriteBuffers := t.mPendingBuffers }
  { t with writes := t.writes ++ [t.mWriteBuffers], handed := t.handed ++ t.mWriteBuffers }

/-- The handler that `Send(buf)` and `Send(vbuf)` post. -/
def runSend (t : TcpClient β γ) (bufs : List γ) : TcpClient β γ :=
  let t := { t with mPendingBuffers := t.mPendingBuffers ++ bufs, executed := t.executed ++ bufs }
  if t.mWriteBuffers.isEmpty then t.sendPending else t

/-- The completion handler of a write of `bufs`. -/
def writeDone (t : TcpClient β γ) (bufs : List γ) (ok : Bool) : TcpClient β γ :=
  let t := { t with mWriteBuffers := [] }
  if ok then
    let t := { t with written := t.written ++ bufs }
    if t.mPendingBuffers.isEmpty then t else t.sendPending
  else { t with writeFailed := true }.close4Error .send

/-- The handler that `Close` posts. -/
def runClose (t : TcpClient β γ) : TcpClient β γ :=
  { t with mSocketOpen := false, signals := t.signals ++ [.onClosed] }

/-- Sending and a successful write signal nothing and leave the socket open. -/
theorem signals_runSend (t : TcpClient β γ) (bufs : List γ) :
    (runSend t bufs).signals = t.signals ∧ (runSend t bufs).mSocketOpen = t.mSocketOpen := by
  unfold runSend
  dsimp only
  split <;> exact ⟨rfl, rfl⟩

theorem signals_writeDone (t : TcpClient β γ) (bufs : List γ) :
    (writeDone t bufs true).signals = t.signals ∧
      (writeDone t bufs true).mSocketOpen = t.mSocketOpen := by
  unfold writeDone
  dsimp only
  rw [if_pos rfl]
  split <;> exact ⟨rfl, rfl⟩

/-- The number of bytes an `async_read` waits for. -/
def readSize (H : Handlers σ β) (t : TcpClient β γ) : ReadOp → Nat
  | .header => t.mHeaderLength
  | .body => (t.mReadBuffers.map H.bufferSize).sum

inductive Event (γ : Type) where
  | send (bufs : List γ)
  | close
  | runPosted (k : Nat)
  | writeDone (k : Nat) (ok : Bool)
  | readDone (k : Nat) (data : Option Bytes)

def step (H : Handlers σ β) : TcpClient β γ × σ → Event γ → Option (TcpClient β γ × σ)
  | (t, s), .send bufs => some ({ t with posted := t.posted ++ [.send bufs] }, s)
  | (t, s), .close => some ({ t with posted := t.posted ++ [.close] }, s)
  | (t, s), .runPosted k =>
      match t.posted[k]? with
      | some (.send bufs) => some (runSend { t with posted := t.posted.eraseIdx k } bufs, s)
      | some .close => some (runClose { t with posted := t.posted.eraseIdx k }, s)
      | none => none
  | (t, s), .writeDone k ok =>
      match t.writes[k]? with
      | some bufs => some (writeDone { t with writes := t.writes.eraseIdx k } bufs ok, s)
      | none => none
  | (t, s), .readDone k data =>
      match t.reads[k]? with
      | some op =>
          if data.all fun bytes => bytes.length == t.readSize H op then
            let t := { t with reads := t.reads.eraseIdx k }
            match op with
            | .header => some (headerReaded H t s data)
            | .body => some (bodyReaded H t s data)
          else none
      | none => none

section
variable {H : Handlers σ β} {t : TcpClient β γ} {s : σ} {y : TcpClient β γ × σ} {k : Nat}

theorem step_runPosted (hstep : step H (t, s) (.runPosted k) = some y) :
    (∃ bufs, t.posted[k]? = some (.send bufs) ∧
        y = (runSend { t with posted := t.posted.eraseIdx k } bufs, s)) ∨
      (t.posted[k]? = some .close ∧
        y = (runClose { t with posted := t.posted.eraseIdx k }, s)) := by
  simp only [step] at hstep
  split at hstep
  · next bufs hposted => exact Or.inl ⟨bufs, hposted, (Option.some.inj hstep).symm⟩
  · next hposted => exact Or.inr ⟨hposted, (Option.some.inj hstep).symm⟩
  · cases hstep

theorem step_writeDone {ok : Bool} (hstep : step H (t, s) (.writeDone k ok) = some y) :
    ∃ bufs, t.writes[k]? = some bufs ∧
      y = (writeDone { t with writes := t.writes.eraseIdx k } bufs ok, s) := by
  simp only [step] at hstep
  split at hstep
  · next bufs hwrite => exact ⟨bufs, hwrite, (Option.some.inj hstep).symm⟩
  · cases hstep

theorem step_readDone {data : Option Bytes} (hstep : step H (t, s) (.readDone k data) = some y) :
    (t.reads[k]? = some .header ∧
        y = headerReaded H { t with reads := t.reads.eraseIdx k } s data) ∨
      (t.reads[k]? = some .body ∧
        y = bodyReaded H { t with reads := t.reads.eraseIdx k } s data) := by
  simp only [step] at hstep
  split at hstep
  · next op hread =>
      split at hstep
      · cases op with
        | header => exact Or.inl ⟨hread, (Option.some.inj hstep).symm⟩
        | body => exact Or.inr ⟨hread, (Option.some.inj hstep).symm⟩
      · cases hstep
  · cases hstep

end

/-! ## 3. The two sides -/

structure SameWrites (t t' : TcpClient β γ) : Prop where
  mWriteBuffers : t'.mWriteBuffers = t.mWriteBuffers
  mPendingBuffers : t'.mPendingBuffers = t.mPendingBuffers
  writes : t'.writes = t.writes
  posted : t'.posted = t.posted
  executed : t'.executed = t.executed
  handed : t'.handed = t.handed
  written : t'.written = t.written
  writeFailed : t'.writeFailed = t.writeFailed

structure SameReads (t t' : TcpClient β γ) : Prop where
  mHeaderLength : t'.mHeaderLength = t.mHeaderLength
  mHeaderBuffer : t'.mHeaderBuffer = t.mHeaderBuffer
  mReadBuffers : t'.mReadBuffers = t.mReadBuffers
  reads : t'.reads = t.reads

theorem SameReads.refl (t : TcpClient β γ) : SameReads t t := ⟨rfl, rfl, rfl, rfl⟩

theorem sameWrites_headerReaded (H : Handlers σ β) (t : TcpClient β γ) (reads : List ReadOp)
    (s : σ) (data : Option Bytes) :
    SameWrites t (headerReaded H { t with reads := reads } s data).1 := by
  unfold headerReaded
  split
  · dsimp only
    split
    · split <;> exact ⟨rfl, rfl, rfl, rfl, rfl, rfl, rfl, rfl⟩
    · exact ⟨rfl, rfl, rfl, rfl, rfl, rfl, rfl, rfl⟩
  · exact ⟨rfl, rfl, rfl, rfl, rfl, rfl, rfl, rfl⟩

theorem sameWrites_bodyReaded (H : Handlers σ β) (t : TcpClient β γ) (reads : List ReadOp)
    (s : σ) (data : Option Bytes) :
    SameWrites t (bodyReaded H { t with reads := reads } s data).1 := by
  unfold bodyReaded
  split <;> exact ⟨rfl, rfl, rfl, rfl, rfl, rfl, rfl, rfl⟩

theorem sameWrites_readDone {H : Handlers σ β} {t t' : TcpClient β γ} {s s' : σ} {k : Nat}
    {data : Option Bytes} (hstep : step H (t, s) (.readDone k data) = some (t', s')) :
    SameWrites t t' := by
  rcases step_readDone hstep with ⟨-, heq⟩ | ⟨-, heq⟩
  · have hsame := sameWrites_headerReaded H t (t.reads.eraseIdx k) s data
    rwa [← heq] at hsame
  · have hsame := sameWrites_bodyReaded H t (t.reads.eraseIdx k) s data
    rwa [← heq] at hsame

theorem sameReads_runSend (t : TcpClient β γ) (posted : List (PostedIo γ)) (bufs : List γ) :
    SameReads t (runSend { t with posted := posted } bufs) := by
  unfold runSend
  dsimp only
  split <;> exact ⟨rfl, rfl, rfl, rfl⟩

theorem sameReads_writeDone (t : TcpClient β γ) (writes : List (List γ)) (bufs : List γ)
    (ok : Bool) : SameReads t (writeDone { t with writes := writes } bufs ok) := by
  unfold writeDone
  dsimp only
  split
  · split <;> exact ⟨rfl, rfl, rfl, rfl⟩
  · exact ⟨rfl, rfl, rfl, rfl⟩

/-- Only the completion of a read touches the reading side, or what the callbacks
    act on. -/
theorem sameReads_step {H : Handlers σ β} {t t' : TcpClient β γ} {s s' : σ} {e : Event γ}
    (hstep : step H (t, s) e = some (t', s')) :
    (∃ k data, e = .readDone k data) ∨ (SameReads t t' ∧ s' = s) := by
  cases e with
  | send bufs =>
      cases hstep
      exact Or.inr ⟨⟨rfl, rfl, rfl, rfl⟩, rfl⟩
  | close =>
      cases hstep
      exact Or.inr ⟨⟨rfl, rfl, rfl, rfl⟩, rfl⟩
  | runPosted k =>
      rcases step_runPosted hstep with ⟨bufs, -, heq⟩ | ⟨-, heq⟩
      · cases heq
        exact Or.inr ⟨sameReads_runSend t _ bufs, rfl⟩
      · cases heq
        exact Or.inr ⟨⟨rfl, rfl, rfl, rfl⟩, rfl⟩
  | writeDone k ok =>
      obtain ⟨bufs, -, heq⟩ := step_writeDone hstep
      cases heq
      exact Or.inr ⟨sameReads_writeDone t _ bufs ok, rfl⟩
  | readDone k data => exact Or.inl ⟨k, data, rfl⟩

/-! ## 4. The send handlers -/

/-- The buffers that an event hands over to `Send`. -/
def Event.sent : Event γ → List γ
  | .send bufs => bufs
  | _ => []

def PostedIo.bufs : PostedIo γ → List γ
  | .send bufs => bufs
  | .close => []

/-- The buffers of the send handler that an event runs. -/
def handled (t : TcpClient β γ) : Event γ → List γ
  | .runPosted k => (t.posted[k]?.map PostedIo.bufs).getD []
  | _ => []

/-- The buffers of the send handlers that a run runs, in order. -/
def handledIn (H : Handlers σ β) : TcpClient β γ × σ → List (Event γ) → List γ
  | _, [] => []
  | x, e :: es => handled x.1 e ++ ((step H x e).map fun y => handledIn H y es).getD []

theorem executed_runSend (t : TcpClient β γ) (bufs : List γ) :
    (runSend t bufs).executed = t.executed ++ bufs ∧ (runSend t bufs).posted = t.posted := by
  unfold runSend
  dsimp only
  split <;> exact ⟨rfl, rfl⟩

theorem executed_writeDone (t : TcpClient β γ) (bufs : List γ) (ok : Bool) :
    (writeDone t bufs ok).executed = t.executed ∧ (writeDone t bufs ok).posted = t.posted := by
  unfold writeDone
  dsimp only
  split
  · split <;> exact ⟨rfl, rfl⟩
  · exact ⟨rfl, rfl⟩

section
variable {H : Handlers σ β} {x y : TcpClient β γ × σ}

theorem executed_step {e : Event γ} (hstep : step H x e = some y) :
    y.1.executed = x.1.executed ++ handled x.1 e := by
  obtain ⟨t, s⟩ := x
  cases e with
  | send bufs =>
      cases hstep
      simp [handled]
  | close =>
      cases hstep
      simp [handled]
  | runPosted k =>
      rcases step_runPosted hstep with ⟨bufs, hk, rfl⟩ | ⟨hk, rfl⟩
      · simp [handled, hk, PostedIo.bufs, (executed_runSend _ bufs).1]
      · simp [handled, hk, PostedIo.bufs, runClose]
  | writeDone k ok =>
      obtain ⟨bufs, -, rfl⟩ := step_writeDone hstep
      simp [handled, (executed_writeDone _ bufs ok).1]
  | readDone k data =>
      obtain ⟨t', s'⟩ := y
      simp [handled, (sameWrites_readDone hstep).executed]

/-- **The executed buffers are those of the handlers the run ran**, in their order. -/
theorem executed_exec {es : List (Event γ)} (hexec : exec (step H) x es = some y) :
    y.1.executed = x.1.executed ++ handledIn H x es := by
  induction es generalizing x with
  | nil =>
      cases hexec
      simp [handledIn]
  | cons e es ih =>
      obtain ⟨m, hm, hrest⟩ := Option.bind_eq_some_iff.mp hexec
      rw [ih hrest, executed_step hm, List.append_assoc]
      simp [handledIn, hm]

/-- What a step hands over is posted, and what it executes was. -/
theorem sent_step {e : Event γ} (hstep : step H x e = some y) :
    (y.1.executed ++ y.1.posted.flatMap PostedIo.bufs).Perm
      (x.1.executed ++ x.1.posted.flatMap PostedIo.bufs ++ e.sent) := by
  rw [executed_step hstep, List.append_assoc, List.append_assoc]
  apply List.Perm.append_left
  obtain ⟨t, s⟩ := x
  cases e with
  | send bufs =>
      cases hstep
      simp [handled, Event.sent, PostedIo.bufs]
  | close =>
      cases hstep
      simp [handled, Event.sent, PostedIo.bufs]
  | runPosted k =>
      obtain ⟨io, hk, hposted⟩ : ∃ io, t.posted[k]? = some io ∧
          y.1.posted = t.posted.eraseIdx k := by
        rcases step_runPosted hstep with ⟨bufs, hk, rfl⟩ | ⟨hk, rfl⟩
        · exact ⟨_, hk, (executed_runSend _ bufs).2⟩
        · exact ⟨_, hk, rfl⟩
      obtain ⟨hlt, rfl⟩ := List.getElem?_eq_some_iff.mp hk
      have hmove := (List.getElem_cons_eraseIdx_perm hlt).flatMap_right PostedIo.bufs
      rw [List.flatMap_cons] at hmove
      rw [hposted]
      simpa [handled, hk, Event.sent] using hmove
  | writeDone k ok =>
      obtain ⟨bufs, -, rfl⟩ := step_writeDone hstep
      simp [handled, Event.sent, (executed_writeDone _ bufs ok).2]
  | readDone k data =>
      obtain ⟨t', s'⟩ := y
      simp [handled, Event.sent, (sameWrites_readDone hstep).posted]

/-- **No send is lost or doubled.**  The executed buffers and the posted ones together
    are those that the run handed over. -/
theorem sent_exec {es : List (Event γ)} (hexec : exec (step H) x es = some y) :
    (y.1.executed ++ y.1.posted.flatMap PostedIo.bufs).Perm
      (x.1.executed ++ x.1.posted.flatMap PostedIo.bufs ++ es.flatMap Event.sent) := by
  induction es generalizing x with
  | nil =>
      cases hexec
      simp
  | cons e es ih =>
      obtain ⟨m, hm, hrest⟩ := Option.bind_eq_some_iff.mp hexec
      refine (ih hrest).trans ?_
      rw [List.flatMap_cons, ← List.append_assoc]
      exact (sent_step hm).append_right _

end

/-! ## 5. The write queue -/

/-- A buffer vector that is sent is not empty. -/
def NonEmptySend (_ : TcpClient β γ × σ) : Event γ → Prop
  | .send bufs => bufs ≠ []
  | _ => True

/-- What ties the two vectors to the writes: nothing executed is lost, nothing
    pends without a write under way unless a write failed. -/
structure WriteInv (t : TcpClient β γ) : Prop where
  single : t.writes = [] ∧ t.mWriteBuffers = [] ∨
    t.writes = [t.mWriteBuffers] ∧ t.mWriteBuffers ≠ []
  executed : t.executed = t.handed ++ t.mPendingBuffers
  idle : t.writes = [] → t.writeFailed = false → t.mPendingBuffers = []
  handed : t.writeFailed = false → t.handed = t.written ++ t.mWriteBuffers
  posted : ∀ bufs, PostedIo.send bufs ∈ t.posted → bufs ≠ []

theorem writeInv_connected (headerLength : Nat) :
    WriteInv (connected headerLength : TcpClient β γ) where
  single := Or.inl ⟨rfl, rfl⟩
  executed := rfl
  idle := fun _ _ => rfl
  handed := fun _ => rfl
  posted := by simp [connected]

theorem WriteInv.congr {t t' : TcpClient β γ} (h : WriteInv t) (hsame : SameWrites t t') :
    WriteInv t' where
  single := by rw [hsame.writes, hsame.mWriteBuffers]; exact h.single
  executed := by rw [hsame.executed, hsame.handed, hsame.mPendingBuffers]; exact h.executed
  idle := by rw [hsame.writes, hsame.writeFailed, hsame.mPendingBuffers]; exact h.idle
  handed := by
    rw [hsame.writeFailed, hsame.handed, hsame.written, hsame.mWriteBuffers]
    exact h.handed
  posted := by rw [hsame.posted]; exact h.posted

theorem WriteInv.erasePosted {t : TcpClient β γ} (h : WriteInv t) (k : Nat) :
    WriteInv { t with posted := t.posted.eraseIdx k } where
  single := h.single
  executed := h.executed
  idle := h.idle
  handed := h.handed
  posted := fun bufs hmem => h.posted bufs (List.mem_of_mem_eraseIdx hmem)

/-- Starting a write of the pending buffers when none is outstanding. -/
theorem WriteInv.sendPending {t : TcpClient β γ} (hwrites : t.writes = [])
    (hbuffers : t.mWriteBuffers = []) (hpending : t.mPendingBuffers ≠ [])
    (hexecuted : t.executed = t.handed ++ t.mPendingBuffers)
    (hhanded : t.writeFailed = false → t.handed = t.written)
    (hposted : ∀ bufs, PostedIo.send bufs ∈ t.posted → bufs ≠ []) : WriteInv t.sendPending where
  single := Or.inr ⟨by simp [TcpClient.sendPending, hwrites], hpending⟩
  executed := by simp [TcpClient.sendPending, hbuffers, hexecuted]
  idle := by simp [TcpClient.sendPending]
  handed := by
    intro hfailed
    simp [TcpClient.sendPending, hhanded hfailed]
  posted := hposted

theorem WriteInv.runSend {t : TcpClient β γ} (h : WriteInv t) {bufs : List γ}
    (hne : bufs ≠ []) : WriteInv (t.runSend bufs) := by
  have hexecuted : t.executed ++ bufs = t.handed ++ (t.mPendingBuffers ++ bufs) := by
    rw [h.executed, List.append_assoc]
  unfold TcpClient.runSend
  dsimp only
  rcases h.single with ⟨hwrites, hbuffers⟩ | ⟨hwrites, hbuffers⟩
  · -- idle: everything pending, the new buffers last, goes into one write
    rw [if_pos (by simp [hbuffers])]
    refine WriteInv.sendPending hwrites hbuffers ?_ hexecuted ?_ h.posted
    · simp [hne]
    · intro hfailed
      rw [h.handed hfailed, hbuffers, List.append_nil]
  · -- a write is under way: its completion will find the buffers pending
    rw [if_neg (by simpa using hbuffers)]
    exact
      { single := Or.inr ⟨hwrites, hbuffers⟩
        executed := hexecuted
        idle := fun hnone => by simp [hwrites] at hnone
        handed := h.handed
        posted := h.posted }

theorem WriteInv.writeDone {t : TcpClient β γ} (h : WriteInv t) {k : Nat} {bufs : List γ}
    (hk : t.writes[k]? = some bufs) (ok : Bool) :
    WriteInv (writeDone { t with writes := t.writes.eraseIdx k } bufs ok) := by
  rcases h.single with ⟨hwrites, -⟩ | ⟨hwrites, hne⟩
  · simp [hwrites] at hk
  · -- the completed write is the only one, and it carries `mWriteBuffers`
    have hzero : k = 0 := by
      by_contra hpos
      rw [hwrites, List.getElem?_eq_none (by simp; omega)] at hk
      cases hk
    subst hzero
    have hbufs : bufs = t.mWriteBuffers := by
      rw [hwrites] at hk
      exact (Option.some.inj hk).symm
    subst hbufs
    have herase : t.writes.eraseIdx 0 = [] := by rw [hwrites]; rfl
    unfold TcpClient.writeDone
    dsimp only
    cases ok with
    | true =>
        rw [if_pos rfl]
        by_cases hpending : t.mPendingBuffers = []
        · rw [if_pos (by simp [hpending])]
          exact
            { single := Or.inl ⟨herase, rfl⟩
              executed := h.executed
              idle := fun _ _ => hpending
              handed := fun hfailed => by simp [h.handed hfailed]
              posted := h.posted }
        · rw [if_neg (by simpa using hpending)]
          exact WriteInv.sendPending herase rfl hpending h.executed h.handed h.posted
    | false =>
        rw [if_neg (by simp)]
        exact
          { single := Or.inl ⟨herase, rfl⟩
            executed := h.executed
            idle := fun _ hfailed => by simp [close4Error] at hfailed
            handed := fun hfailed => by simp [close4Error] at hfailed
            posted := h.posted }

theorem writeInv_step {H : Handlers σ β} {x y : TcpClient β γ × σ} {e : Event γ}
    (h : WriteInv x.1) (hguard : NonEmptySend x e) (hstep : step H x e = some y) :
    WriteInv y.1 := by
  obtain ⟨t, s⟩ := x
  cases e with
  | send bufs =>
      cases hstep
      refine ⟨h.single, h.executed, h.idle, h.handed, ?_⟩
      intro bufs' hmem
      rcases List.mem_append.mp hmem with hold | hnew
      · exact h.posted bufs' hold
      · cases List.mem_singleton.mp hnew
        exact hguard
  | close =>
      cases hstep
      refine ⟨h.single, h.executed, h.idle, h.handed, ?_⟩
      intro bufs' hmem
      rcases List.mem_append.mp hmem with hold | hnew
      · exact h.posted bufs' hold
      · cases List.mem_singleton.mp hnew
  | runPosted k =>
      rcases step_runPosted hstep with ⟨bufs, hk, rfl⟩ | ⟨-, rfl⟩
      · exact (h.erasePosted k).runSend (h.posted bufs (List.mem_of_getElem? hk))
      · exact (h.erasePosted k).congr ⟨rfl, rfl, rfl, rfl, rfl, rfl, rfl, rfl⟩
  | writeDone k ok =>
      obtain ⟨bufs, hk, rfl⟩ := step_writeDone hstep
      exact h.writeDone hk ok
  | readDone k data =>
      obtain ⟨t', s'⟩ := y
      exact h.congr (sameWrites_readDone hstep)

/-- **The outgoing stream is the sends, in order.**  In every run of a connected
    client: at most one `async_write` is outstanding, `mWriteBuffers` is
    non-empty exactly while one is, the buffers handed to the socket are a
    prefix of those of the executed send handlers, and when no write is
    outstanding and none has failed, all of them have been written. -/
theorem send_fifo {H : Handlers σ β} {headerLength : Nat} {s₀ s : σ} {es : List (Event γ)}
    {t : TcpClient β γ}
    (hrun : Run (step H) NonEmptySend (connected headerLength, s₀) es (t, s)) :
    t.writes.length ≤ 1 ∧ (t.mWriteBuffers ≠ [] ↔ t.writes ≠ []) ∧ t.handed <+: t.executed ∧
      (t.writes = [] → t.writeFailed = false → t.written = t.executed) := by
  have h : WriteInv t := hrun.invariant (I := fun x => WriteInv x.1)
    (fun _ _ _ hinv hguard hstep => writeInv_step hinv hguard hstep)
    (writeInv_connected headerLength)
  refine ⟨?_, ?_, ⟨t.mPendingBuffers, h.executed.symm⟩, ?_⟩
  · rcases h.single with ⟨hwrites, -⟩ | ⟨hwrites, -⟩ <;> simp [hwrites]
  · rcases h.single with ⟨hwrites, hbuffers⟩ | ⟨hwrites, hbuffers⟩
    · simp [hwrites, hbuffers]
    · simp [hwrites, hbuffers]
  · intro hwrites hfailed
    have hbuffers : t.mWriteBuffers = [] := by
      rcases h.single with ⟨-, hbuffers⟩ | ⟨hone, -⟩
      · exact hbuffers
      · rw [hone] at hwrites; cases hwrites
    rw [h.executed, h.handed hfailed, h.idle hwrites hfailed, hbuffers, List.append_nil,
      List.append_nil]

def noHandlers : Handlers Unit Unit where
  bufferSize := fun _ => 0
  onHeader := fun s header => (s, header, false, [])
  receive := fun s _ _ => s
  onBody := fun s _ _ => s

/-- One buffer is being written while a vector of two is sent; the vector goes
    out in a second write. -/
theorem send_fifo_two_sends :
    ∃ (t : TcpClient Unit Nat) (s : Unit), exec (step noHandlers) (connected 24, ())
        [.send [1], .send [2, 3], .runPosted 0, .runPosted 0, .writeDone 0 true,
          .writeDone 0 true] = some (t, s) ∧
      t.writes.length ≤ 1 ∧ (t.mWriteBuffers ≠ [] ↔ t.writes ≠ []) ∧ t.handed <+: t.executed ∧
      (t.writes = [] → t.writeFailed = false → t.written = t.executed) := by
  have hrun : Run (step noHandlers) NonEmptySend (connected 24, ())
      [.send [1], .send [2, 3], .runPosted 0, .runPosted 0, .writeDone 0 true,
        .writeDone 0 true] (_, ()) :=
    .cons (by simp [NonEmptySend]) rfl (.cons (by simp [NonEmptySend]) rfl (.cons trivial rfl
      (.cons trivial rfl (.cons trivial rfl (.cons trivial rfl (.nil _))))))
  exact ⟨_, _, hrun.exec_eq, send_fifo hrun⟩

end TcpClient

end MemClient
