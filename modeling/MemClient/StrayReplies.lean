import MemClient.ReplyFraming

/-!
# Stray replies

A reply is stray when no request is outstanding under its opaque when its header is
read.  `OnHeaderReaded` then asks for no body, so the next header is read from where
the body of the stray reply begins.  When stray replies have no body, a run is the
same run over the stream without them.
-/

namespace MemClient

open ByteCodec EventRun

namespace Link

variable {link link' next : Link} {frame : ReplyFrame} {frames : List ReplyFrame} {rest : Bytes}
  {e : Event} {es : List Event}

/-! ## 1. One stray reply -/

/-- The next read is that of a header. -/
def readsHeader (link : Link) : Event → Bool
  | .read => decide (link.tcp.reads = [.header])
  | _ => false

/-- The next read is that of a header whose opaque names no outstanding request. -/
def readsStray (link : Link) (e : Event) : Bool :=
  link.readsHeader e &&
    (link.client.mRequests (decodeReply (link.incoming.take sizeofHeader)).opaqueId).isNone

theorem readsHeader_eq_true (hat : link.AtHeader) : link.readsHeader .read = true := by
  simp [readsHeader, hat.reads]

theorem readsStray_read (hat : link.AtHeader) (hin : link.incoming = frame.bytes ++ rest) :
    link.readsStray .read = (link.client.mRequests frame.requestId).isNone := by
  have htake : link.incoming.take sizeofHeader = frame.header := by
    rw [hin, ReplyFrame.bytes, List.append_assoc, ← frame.header_length, List.take_left]
  rw [readsStray, readsHeader_eq_true hat, htake, frame.decodeReply_opaqueId_eq, Bool.true_and]

theorem readReply_iff_of_none (hat : link.AtHeader)
    (hnone : link.client.mRequests frame.requestId = none)
    (hin : link.incoming = frame.bytes ++ rest) :
    (∃ next, link.readReply = some next ∧ next.incoming = rest) ↔ frame.body = [] := by
  rw [readReply_iff_sum hat hin, MemcachedClient.onHeaderReaded_of_none hnone, List.map_nil,
    List.sum_nil, eq_comm, List.length_eq_zero_iff]

/-! ## 2. Links that read alike -/

/-- The client and the read loop are in the same state; a header or buffers left over
    from an earlier reply do not matter while a header is read. -/
structure ReadsAlike (link link' : Link) : Prop where
  client : link'.client = link.client
  reads : link'.tcp.reads = link.tcp.reads
  headerLength : link'.tcp.mHeaderLength = link.tcp.mHeaderLength
  body : link.tcp.reads = [.body] → link'.tcp.mHeaderBuffer = link.tcp.mHeaderBuffer ∧
    link'.tcp.mReadBuffers = link.tcp.mReadBuffers

theorem ReadsAlike.atHeader (h : ReadsAlike link link') (hat : link.AtHeader) : link'.AtHeader :=
  ⟨h.reads.trans hat.reads, h.headerLength.trans hat.headerLength⟩

theorem ReadsAlike.atBody (h : ReadsAlike link link') {size : Nat} (hat : link.AtBody size) :
    link'.AtBody size :=
  ⟨h.reads.trans hat.reads, h.headerLength.trans hat.headerLength,
    by rw [(h.body hat.reads).2, hat.size]⟩

theorem ReadsAlike.afterHeader (h : ReadsAlike link link') (data rest rest' : Bytes) :
    ReadsAlike (link.afterHeader data rest) (link'.afterHeader data rest') := by
  unfold Link.afterHeader headerRead
  rw [h.client]
  exact ⟨rfl, rfl, h.headerLength, fun _ => ⟨rfl, rfl⟩⟩

/-- A stray header changes nothing. -/
theorem ReadsAlike.afterStray (h : ReadsAlike link link') (hat : link.AtHeader) {data : Bytes}
    (hnone : link.client.mRequests (decodeReply data).opaqueId = none) (rest : Bytes) :
    ReadsAlike (link.afterHeader data rest) link' := by
  unfold Link.afterHeader headerRead
  rw [MemcachedClient.onHeaderReaded_of_none hnone]
  exact ⟨h.client, h.reads.trans hat.reads, h.headerLength, fun hreads => by cases hreads⟩

theorem ReadsAlike.bodyRead (h : ReadsAlike link link') {size : Nat} (hat : link.AtBody size)
    (data rest rest' : Bytes) :
    ReadsAlike (link.bodyRead data rest) (link'.bodyRead data rest') := by
  obtain ⟨hheader, hbufs⟩ := h.body hat.reads
  refine ⟨?_, rfl, h.headerLength, fun hreads => by cases hreads⟩
  unfold Link.bodyRead
  rw [h.client, hheader, hbufs]

/-- Anything but a read acts on the client alone. -/
theorem step_of_ne_read (hne : e ≠ .read) (hstep : link.step e = some next) :
    ∃ client, next = { link with client := client } := by
  cases e with
  | read => exact absurd rfl hne
  | runPosted k =>
      obtain ⟨client, -, rfl⟩ := runPosted_eq_some hstep
      exact ⟨client, rfl⟩
  | other client =>
      cases hstep
      exact ⟨client, rfl⟩

theorem ReadsAlike.step_of_ne_read (h : ReadsAlike link link') (hne : e ≠ .read)
    (hstep : link.step e = some next) :
    ∃ next', link'.step e = some next' ∧ ReadsAlike next next' ∧
      next'.incoming = link'.incoming ∧ next'.headers = link'.headers := by
  cases e with
  | read => exact absurd rfl hne
  | runPosted k =>
      obtain ⟨client, hclient, rfl⟩ := runPosted_eq_some hstep
      have hclient' : link'.runPosted k = some { link' with client := client } := by
        unfold Link.runPosted
        rw [h.client, hclient]
      exact ⟨_, hclient', ⟨rfl, h.reads, h.headerLength, h.body⟩, rfl, rfl⟩
  | other client =>
      cases hstep
      exact ⟨_, rfl, ⟨rfl, h.reads, h.headerLength, h.body⟩, rfl, rfl⟩

/-! ## 3. The stream without stray replies -/

/-- The events of a run that do not read a stray header. -/
def withoutStray : Link → List Event → List Event
  | _, [] => []
  | link, e :: es =>
      match link.step e with
      | none => []
      | some next => if link.readsStray e then withoutStray next es else e :: withoutStray next es

/-- The replies of a stream that are not stray when a run reads their headers. -/
def answered : Link → List ReplyFrame → List Event → List ReplyFrame
  | link, frame :: frames, e :: es =>
      match link.step e with
      | none => []
      | some next =>
          if link.readsStray e then answered next frames es
          else if link.readsHeader e then frame :: answered next frames es
          else answered next (frame :: frames) es
  | _, _, _ => []

/-- The reply at the head of the stream, when its header is about to be read, has no
    body if it is stray and is as long as the buffers it asks for if it is not. -/
def ReadsWhole (link : Link) : Event → Prop
  | .read =>
      link.tcp.reads = [.header] → ∀ (frame : ReplyFrame) (rest : Bytes),
        link.incoming = frame.bytes ++ rest →
        match link.client.mRequests frame.requestId with
        | none => frame.body = []
        | some item => (link.client.results item.mResult).bodyRoom frame = frame.body.length
  | _ => True

theorem ReadsWhole.sum_eq (h : link.ReadsWhole .read) (hreads : link.tcp.reads = [.header])
    (frame : ReplyFrame) (rest : Bytes) (hin : link.incoming = frame.bytes ++ rest) :
    ((link.client.onHeaderReaded frame.header).2.2.2.map Buffer.size).sum =
      frame.body.length := by
  have hwhole := h hreads frame rest hin
  cases hitem : link.client.mRequests frame.requestId with
  | none =>
      simp only [hitem] at hwhole
      rw [MemcachedClient.onHeaderReaded_of_none hitem, hwhole]
      rfl
  | some item =>
      simp only [hitem] at hwhole
      rw [MemcachedClient.sum_bufs_of_some hitem, hwhole]

theorem withoutStray_cons (hstep : link.step e = some next) (es : List Event) :
    withoutStray link (e :: es) =
      if link.readsStray e then withoutStray next es else e :: withoutStray next es := by
  simp only [withoutStray, hstep]

theorem answered_cons (hstep : link.step e = some next) (hreads : link.readsHeader e = true)
    (frame : ReplyFrame) (frames : List ReplyFrame) (es : List Event) :
    answered link (frame :: frames) (e :: es) =
      if link.readsStray e then answered next frames es
      else frame :: answered next frames es := by
  simp only [answered, hstep, hreads, if_true]

theorem answered_of_not_readsHeader (hstep : link.step e = some next)
    (hreads : link.readsHeader e = false) (frames : List ReplyFrame) (es : List Event) :
    answered link frames (e :: es) = answered next frames es := by
  have hstray : link.readsStray e = false := by rw [readsStray, hreads, Bool.false_and]
  cases frames with
  | nil => cases es <;> rfl
  | cons frame frames => simp [answered, hstep, hreads, hstray]

/-- From `link'`, the events that do not read a stray header lead to a link that reads
    like `next`, past the headers of the answered replies only. -/
def Mirrors (link link' next : Link) (read : List ReplyFrame) (es : List Event) : Prop :=
  ∃ next', exec step link' (withoutStray link es) = some next' ∧ ReadsAlike next next' ∧
    next'.incoming = next.incoming ∧
    next'.headers = link'.headers ++ (answered link read es).map ReplyFrame.header

/-- The first event is a header that is not stray. -/
theorem Mirrors.header {mid : Link} {read : List ReplyFrame} (hat : link.AtHeader)
    (hin : link.incoming = frame.bytes ++ rest) {item : RequestItem}
    (hitem : link.client.mRequests frame.requestId = some item)
    (hmid : mid = link.afterHeader frame.header (frame.body ++ rest)) {rest' : Bytes}
    (hin' : link'.incoming = frame.bytes ++ rest') (hat' : link'.AtHeader)
    (h : Mirrors mid (link'.afterHeader frame.header (frame.body ++ rest')) next read es) :
    Mirrors link link' next (frame :: read) (.read :: es) := by
  subst hmid
  have hstep : link.step .read = some (link.afterHeader frame.header (frame.body ++ rest)) :=
    read_frame hat hin
  have hstray : link.readsStray .read = false := by
    rw [readsStray_read hat hin, hitem]
    rfl
  obtain ⟨next', hexec, halike, hincoming, hheaders⟩ := h
  refine ⟨next', ?_, halike, hincoming, ?_⟩
  · rw [withoutStray_cons hstep, hstray]
    show (link'.step .read).bind _ = _
    have hstep' : link'.step .read = some (link'.afterHeader frame.header (frame.body ++ rest')) :=
      read_frame hat' hin'
    rw [hstep', Option.bind_some]
    exact hexec
  · rw [answered_cons hstep (readsHeader_eq_true hat), hstray, hheaders]
    simp [Link.afterHeader, headerRead]

/-- The first event is a stray header. -/
theorem Mirrors.stray {mid : Link} {read : List ReplyFrame} (hat : link.AtHeader)
    (hin : link.incoming = frame.bytes ++ rest)
    (hnone : link.client.mRequests frame.requestId = none)
    (hmid : mid = link.afterHeader frame.header (frame.body ++ rest))
    (h : Mirrors mid link' next read es) :
    Mirrors link link' next (frame :: read) (.read :: es) := by
  subst hmid
  have hstep : link.step .read = some (link.afterHeader frame.header (frame.body ++ rest)) :=
    read_frame hat hin
  have hstray : link.readsStray .read = true := by
    rw [readsStray_read hat hin, hnone]
    rfl
  unfold Mirrors
  rw [withoutStray_cons hstep, answered_cons hstep (readsHeader_eq_true hat), hstray]
  exact h

/-- The first event reads no header. -/
theorem Mirrors.other {mid mid' : Link} {read : List ReplyFrame} (hstep : link.step e = some mid)
    (hreads : link.readsHeader e = false) (hstep' : link'.step e = some mid')
    (hheaders : mid'.headers = link'.headers) (h : Mirrors mid mid' next read es) :
    Mirrors link link' next read (e :: es) := by
  have hstray : link.readsStray e = false := by rw [readsStray, hreads, Bool.false_and]
  obtain ⟨next', hexec, halike, hincoming, hlast⟩ := h
  refine ⟨next', ?_, halike, hincoming, ?_⟩
  · rw [withoutStray_cons hstep, hstray]
    show (link'.step e).bind _ = _
    rw [hstep', Option.bind_some]
    exact hexec
  · rw [answered_of_not_readsHeader hstep hreads, hlast, hheaders]

/-- Every link that reads like `link` and holds its stream without the stray replies
    mirrors the run.  `front` is what is left of the last reply. -/
def MirroredBy (link next : Link) (read left : List ReplyFrame) (es : List Event) : Prop :=
  ∀ (link' : Link) (front : Bytes), ReadsAlike link link' →
    link.incoming = front ++ (read ++ left).flatMap ReplyFrame.bytes →
    link'.incoming = front ++ (answered link read es ++ left).flatMap ReplyFrame.bytes →
    Mirrors link link' next read es

theorem MirroredBy.readHeader {mid : Link} {read left : List ReplyFrame}
    (hwhole : ReadsWhole link .read) (hstep : link.step .read = some mid) (hat : link.AtHeader)
    (hin : link.incoming = frame.bytes ++ (read ++ left).flatMap ReplyFrame.bytes)
    (hmid : mid = link.afterHeader frame.header
      (frame.body ++ (read ++ left).flatMap ReplyFrame.bytes))
    (h : MirroredBy mid next read left es) :
    MirroredBy link next (frame :: read) left (.read :: es) := by
  intro link' front halike hfront hin'
  obtain rfl : front = [] := by
    rw [hin] at hfront
    simpa using hfront
  have hmidin : mid.incoming = frame.body ++ (read ++ left).flatMap ReplyFrame.bytes := by
    rw [hmid]
    rfl
  cases hitem : link.client.mRequests frame.requestId with
  | none =>
      have hbody : frame.body = [] := by
        have hempty := hwhole hat.reads frame _ hin
        simpa only [hitem] using hempty
      have hstray : link.readsStray .read = true := by
        rw [readsStray_read hat hin, hitem]
        rfl
      rw [answered_cons hstep (readsHeader_eq_true hat), if_pos hstray] at hin'
      refine Mirrors.stray hat hin hitem hmid (h link' [] ?_ ?_ hin')
      · rw [hmid]
        exact halike.afterStray hat hitem _
      · rw [hmidin, hbody]
  | some item =>
      have hstray : link.readsStray .read = false := by
        rw [readsStray_read hat hin, hitem]
        rfl
      rw [answered_cons hstep (readsHeader_eq_true hat), if_neg (by simp [hstray]),
        List.nil_append, List.cons_append, List.flatMap_cons] at hin'
      refine Mirrors.header hat hin hitem hmid hin' (halike.atHeader hat)
        (h _ frame.body ?_ hmidin rfl)
      rw [hmid]
      exact halike.afterHeader _ _ _

theorem MirroredBy.readBody {mid : Link} {read left : List ReplyFrame}
    (hstep : link.step .read = some mid) (hat : link.AtBody frame.body.length)
    (hin : link.incoming = frame.body ++ (read ++ left).flatMap ReplyFrame.bytes)
    (hmid : mid = link.bodyRead frame.body ((read ++ left).flatMap ReplyFrame.bytes))
    (h : MirroredBy mid next read left es) : MirroredBy link next read left (.read :: es) := by
  have hreads : link.readsHeader .read = false := by simp [readsHeader, hat.reads]
  intro link' front halike hfront hin'
  obtain rfl : front = frame.body := by
    rw [hin] at hfront
    exact (List.append_cancel_right hfront).symm
  rw [answered_of_not_readsHeader hstep hreads] at hin'
  refine Mirrors.other hstep hreads (read_body (halike.atBody hat) rfl hin') rfl
    (h _ [] ?_ ?_ ?_)
  · rw [hmid]
    exact halike.bodyRead hat _ _ _
  · rw [hmid]
    rfl
  · rfl

theorem MirroredBy.ofNeRead {client : MemcachedClient} {read left : List ReplyFrame}
    (hne : e ≠ .read) (hstep : link.step e = some { link with client := client })
    (h : MirroredBy { link with client := client } next read left es) :
    MirroredBy link next read left (e :: es) := by
  have hreads : link.readsHeader e = false := by
    cases e with
    | read => exact absurd rfl hne
    | runPosted k => rfl
    | other client => rfl
  intro link' front halike hfront hin'
  obtain ⟨mid', hstep', hmid', hincoming', hheaders'⟩ := halike.step_of_ne_read hne hstep
  rw [answered_of_not_readsHeader hstep hreads] at hin'
  exact Mirrors.other hstep hreads hstep' hheaders'
    (h mid' front hmid' hfront (hincoming'.trans hin'))

/-- **A run without its stray replies.** -/
theorem mirrors_run {before : List Bytes} (hrun : Run step ReadsWhole link es next) :
    ∀ {done todo : List ReplyFrame}, InStep before done todo link →
      ∃ read left, todo = read ++ left ∧
        next.headers = link.headers ++ read.map ReplyFrame.header ∧
        MirroredBy link next read left es := by
  induction hrun with
  | nil link =>
      intro done todo _
      refine ⟨[], todo, rfl, by simp, fun link' front halike hin hin' => ?_⟩
      exact ⟨link', rfl, halike, hin'.trans hin.symm, by simp [answered]⟩
  | @cons link mid next e es hguard hstep rest ih =>
      intro done todo h
      by_cases hread : e = .read
      · subst hread
        rcases h.read_cases hguard.sum_eq hstep with
          ⟨frame, todo, rfl, hat, hin, hmid, hnext⟩ | ⟨frame, hat, hin, hmid, hnext⟩
        · obtain ⟨read, left, rfl, hheaders, hmirrored⟩ := ih hnext
          refine ⟨frame :: read, left, rfl, ?_,
            hmirrored.readHeader hguard hstep hat hin hmid⟩
          rw [hheaders, hmid]
          simp [Link.afterHeader, headerRead]
        · obtain ⟨read, left, rfl, hheaders, hmirrored⟩ := ih hnext
          refine ⟨read, left, rfl, ?_, hmirrored.readBody hstep hat hin hmid⟩
          rw [hheaders, hmid]
          rfl
      · obtain ⟨client, rfl⟩ := step_of_ne_read hread hstep
        obtain ⟨read, left, rfl, hheaders, hmirrored⟩ := ih (h.withClient client)
        exact ⟨read, left, rfl, hheaders, hmirrored.ofNeRead hread hstep⟩

/-- **Stray replies.**  A stray reply is consumed whole exactly when it has no body.  A
    run that reads whole replies reads the headers of `read` and leaves `left`; over
    the stream without the stray ones its other events read the same, and end in the
    same client and the same place in the stream. -/
theorem stray_replies (hat : link.AtHeader) :
    (∀ (frame : ReplyFrame) (rest : Bytes), link.client.mRequests frame.requestId = none →
      link.incoming = frame.bytes ++ rest →
      ((∃ next, link.readReply = some next ∧ next.incoming = rest) ↔ frame.body = [])) ∧
    (∀ (frames : List ReplyFrame) (es : List Event) (next : Link),
      link.incoming = frames.flatMap ReplyFrame.bytes → Run step ReadsWhole link es next →
      ∃ read left, frames = read ++ left ∧
        next.headers = link.headers ++ read.map ReplyFrame.header ∧
        Mirrors link
          { link with incoming := (answered link read es ++ left).flatMap ReplyFrame.bytes }
          next read es) := by
  refine ⟨fun frame rest hnone hin => readReply_iff_of_none hat hnone hin, ?_⟩
  intro frames es next hin hrun
  have hstart : InStep link.headers [] frames link := .header hat (by simp) hin
  obtain ⟨read, left, rfl, hheaders, hmirrored⟩ := mirrors_run hrun hstart
  exact ⟨read, left, rfl, hheaders,
    hmirrored _ [] ⟨rfl, rfl, rfl, fun _ => ⟨rfl, rfl⟩⟩ hin rfl⟩

/-- A reply with opaque 1 and no body. -/
def emptyStray : ReplyFrame where
  header := [0x81, 0x04, 0, 0, 0, 0, 0, 1, 0, 0, 0, 0, 1, 0, 0, 0, 0, 0, 0, 0, 0, 0, 0, 0]
  body := []
  header_length := rfl
  body_length := by decide
  parts_le := by decide

def strayThenHit : Link := afterGet ([emptyStray, hitFrame].flatMap ReplyFrame.bytes)

theorem stray_replies_strayThenHit : ∃ next,
    exec step strayThenHit [.read, .read, .read] = some next ∧
      ∃ read left, [emptyStray, hitFrame] = read ++ left ∧
        next.headers = [] ++ read.map ReplyFrame.header ∧
        Mirrors strayThenHit
          { strayThenHit with
            incoming := (answered strayThenHit read [.read, .read, .read] ++ left).flatMap
              ReplyFrame.bytes }
          next read [.read, .read, .read] := by
  have hat : strayThenHit.AtHeader := atHeader_afterGet _
  have hin : strayThenHit.incoming = emptyStray.bytes ++ hitFrame.bytes := rfl
  have hfirst := read_frame hat hin
  generalize hmid : strayThenHit.afterHeader emptyStray.header _ = mid at hfirst
  have hatMid : mid.AtHeader := by
    rw [← hmid]
    exact ⟨rfl, rfl⟩
  have hinMid : mid.incoming = hitFrame.bytes ++ [] := by
    rw [← hmid]
    rfl
  have hclient : mid.client = strayThenHit.client := by
    rw [← hmid]
    rfl
  have hsecond := read_frame hatMid hinMid
  have hbody : (mid.afterHeader hitFrame.header (hitFrame.body ++ [])).AtBody 5 := by
    rw [← hmid]
    exact ⟨rfl, rfl, rfl⟩
  obtain ⟨last, hthird⟩ : ∃ last, (mid.afterHeader hitFrame.header (hitFrame.body ++ [])).read =
      some last := ⟨_, read_body hbody (rfl : hitFrame.body.length = 5) rfl⟩
  have hrun : Run step ReadsWhole strayThenHit [.read, .read, .read] last := by
    refine .cons ?_ hfirst (.cons ?_ hsecond (.cons ?_ hthird (.nil _)))
    · intro _ frame rest hrest
      obtain ⟨rfl, -⟩ := ReplyFrame.bytes_append_inj (hin.symm.trans hrest)
      rfl
    · intro _ frame rest hrest
      obtain ⟨rfl, -⟩ := ReplyFrame.bytes_append_inj (hinMid.symm.trans hrest)
      rw [hclient]
      rfl
    · intro hreads
      rw [hbody.reads] at hreads
      cases hreads
  exact ⟨last, hrun.exec_eq, (stray_replies hat).2 [emptyStray, hitFrame] _ _ rfl hrun⟩

/-- A reply with opaque 1 whose body reads as the header of an error reply with
    opaque 0. -/
def strayWithBody : ReplyFrame where
  header := [0x81, 0x04, 0, 0, 0, 0, 0, 1, 0, 0, 0, 24, 1, 0, 0, 0, 0, 0, 0, 0, 0, 0, 0, 0]
  body := [0x81, 0, 0, 0, 0, 0, 1, 1, 0, 0, 0, 0, 0, 0, 0, 0, 0, 0, 0, 0, 0, 0, 0, 0]
  header_length := rfl
  body_length := by decide
  parts_le := by decide

/-- The body of the stray reply answers the request, which then gets the hit no more. -/
theorem strayWithBody_answers :
    (exec step (afterGet ([strayWithBody, hitFrame].flatMap ReplyFrame.bytes))
        [.read, .read]).map (fun link => (link.headers, link.client.posted)) =
      some ([strayWithBody.header, strayWithBody.body], [⟨0, 0, 0x0101⟩]) ∧
    (exec step (afterGet ([hitFrame].flatMap ReplyFrame.bytes)) [.read, .read]).map
        (fun link => (link.headers, link.client.posted)) =
      some ([hitFrame.header], [⟨0, 0, ERequest_SUCCESS⟩]) := by
  decide +kernel

end Link

end MemClient
