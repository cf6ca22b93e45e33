import MemClient.Demultiplexing
import MemClient.RequestLifetime

/-!
# Replies to a Stat request

A `Stat` request is answered by one reply for each entry and a last one that is
empty.  The replies are read one after the other, and what a reply posts runs
before the next one is read.  `mHasMoreResult` keeps the value it happens to
start with: the empty reply never reaches `MemStatResult`, which would clear it.
Section 3: which requests complete, and when.
-/

namespace MemClient

open ByteCodec EventRun

/-! ## 1. Replies in order -/

namespace MemcachedClient

/-- `Stat`, up to its buffer: the copy of a key that is not empty, which goes behind
    the end of the request's block, is not part of it.  `mHasMoreResult` is what the
    new result finds in its memory. -/
def stat (c : MemcachedClient) (key : Bytes) (mHasMoreResult callback : Bool) : MemcachedClient :=
  c.request (.new key none (.stat [] mHasMoreResult)) callback

/-- Nothing is posted, and the next result is a new object. -/
structure Settled (c : MemcachedClient) : Prop where
  posted : c.posted = []
  table : ∀ id item, c.mRequests id = some item → item.mResult < c.nextResult
  notified : ∀ n ∈ c.notified, n.mResult < c.nextResult

end MemcachedClient

/-- A client is settled whenever it has run what was posted. -/
theorem ClientSystem.Tracked.settled {s : ClientSystem} (h : Tracked s)
    (hposted : s.client.posted = []) : s.client.Settled where
  posted := hposted
  table := by
    intro id item hitem
    obtain ⟨server, hmem⟩ := h.table id item hitem
    exact h.bound server _ hmem
  notified := fun n hmem => h.completed n.mResult (List.mem_map_of_mem hmem)

/-- A reply to a `Stat` request that carries an entry. -/
structure IsStatReply (requestId : BitVec 32) (stat : Stat) (frame : ReplyFrame) : Prop where
  requestId : frame.requestId = requestId
  status : frame.status = ERequest_SUCCESS
  extlen : frame.extlen = 0
  keylen : frame.keylen = stat.Key.length
  body : frame.body = stat.Key ++ stat.Value
  key : stat.Key ≠ []
  value : stat.Value ≠ []

/-- The reply after the last entry. -/
structure IsTerminator (requestId : BitVec 32) (frame : ReplyFrame) : Prop where
  requestId : frame.requestId = requestId
  status : frame.status = ERequest_SUCCESS
  body : frame.body = []

theorem IsStatReply.value_ne_nil {requestId : BitVec 32} {stat : Stat} {frame : ReplyFrame}
    (h : IsStatReply requestId stat frame) : frame.value ≠ [] := by
  intro hnil
  have hlen := frame.body_length_eq
  rw [h.extlen, h.keylen, hnil, h.body, List.length_append] at hlen
  have hpos := List.length_pos_of_ne_nil h.value
  simp only [List.length_nil] at hlen
  omega

namespace Link

/-- Run `n` posted handlers, the oldest first. -/
def runHandlers : Nat → Link → Option Link
  | 0, link => some link
  | n + 1, link => (link.runPosted 0).bind (runHandlers n)

/-- Read a reply, and run what it posted. -/
def processReply (link : Link) : Option Link :=
  link.readReply.bind fun next => runHandlers next.client.posted.length next

def processReplies : Nat → Link → Option Link
  | 0, link => some link
  | n + 1, link => link.processReply.bind (processReplies n)

/-- A connection on which a reply is about to be read. -/
def listening (client : MemcachedClient) (incoming : Bytes) : Link where
  tcp := .connected sizeofHeader
  client := client
  incoming := incoming
  headers := []

/-- The entries notify nobody; the reply after them notifies once, and the result
    holds the entries in order. -/
def CompletesOnce (link : Link) (ref : ResultRef) (callback : Bool) (stats : List Stat) : Prop :=
  ∃ before after, processReplies stats.length link = some before ∧
    before.processReply = some after ∧
    (∀ n ∈ before.client.notified, n.mResult ≠ ref) ∧
    (after.client.notified.filter fun n => n.mResult == ref) =
      [⟨ref, ERequest_SUCCESS, callback⟩] ∧
    ∃ more, (after.client.results ref).cls = .stat stats more

end Link

/-! ## 2. What replies keep -/

/-- The handlers of a connection keep it. -/
structure Stable (I : MemcachedClient → Prop) : Prop where
  onHeaderReaded : ∀ c header, I c → I (c.onHeaderReaded header).1
  onBodayReaded : ∀ c bufs data header, I c → I ((c.receive bufs data).onBodayReaded header)
  runPosted : ∀ c k c', I c → c.runPosted k = some (.ok c') → I c'

namespace Link

variable {link next : Link} {I : MemcachedClient → Prop}

theorem client_of_read (hI : Stable I) (h : I link.client) (hread : link.read = some next) :
    I next.client := by
  obtain ⟨data, hstep⟩ := read_step hread
  rcases TcpClient.step_readDone hstep with ⟨-, heq⟩ | ⟨-, heq⟩
  · have hclient : next.client = _ := congrArg Prod.snd heq
    rw [TcpClient.headerReaded_snd] at hclient
    rw [hclient]
    exact hI.onHeaderReaded _ _ h
  · have hclient : next.client = _ := congrArg Prod.snd heq
    rw [hclient]
    exact hI.onBodayReaded _ _ _ _ h

theorem client_of_runHandlers (hI : Stable I) {n : Nat} (h : I link.client)
    (hrun : runHandlers n link = some next) : I next.client := by
  induction n generalizing link with
  | zero =>
      cases hrun
      exact h
  | succ n ih =>
      obtain ⟨mid, hmid, hrest⟩ := Option.bind_eq_some_iff.mp hrun
      obtain ⟨client, hclient, rfl⟩ := runPosted_eq_some hmid
      exact ih (hI.runPosted _ _ _ h hclient) hrest

theorem client_of_processReply (hI : Stable I) (h : I link.client)
    (hprocess : link.processReply = some next) : I next.client := by
  obtain ⟨mid, hmid, hrun⟩ := Option.bind_eq_some_iff.mp hprocess
  refine client_of_runHandlers hI ?_ hrun
  obtain ⟨first, hfirst, hsecond⟩ := Option.bind_eq_some_iff.mp hmid
  have hI' := client_of_read hI h hfirst
  split at hsecond
  · exact client_of_read hI hI' hsecond
  · cases hsecond
    exact hI'

theorem client_of_processReplies (hI : Stable I) {n : Nat} (h : I link.client)
    (hprocess : processReplies n link = some next) : I next.client := by
  induction n generalizing link with
  | zero =>
      cases hprocess
      exact h
  | succ n ih =>
      obtain ⟨mid, hmid, hrest⟩ := Option.bind_eq_some_iff.mp hprocess
      exact ih (client_of_processReply hI h hmid) hrest

end Link

namespace MemcachedClient

variable {c : MemcachedClient} {ref : ResultRef}

/-- What was notified stays notified. -/
theorem stable_notified (n : Notification) : Stable fun c => n ∈ c.notified where
  onHeaderReaded := by
    intro c header h
    obtain ⟨hs, hposts, -⟩ := posts_onHeaderReaded c header
    rw [hposts.notified]
    exact h
  onBodayReaded := by
    intro c bufs data header h
    obtain ⟨hs, hposts, -⟩ := posts_onBodayReaded (c.receive bufs data) header
    rw [hposts.notified, (posts_receive c bufs data).notified]
    exact h
  runPosted := by
    intro c k c' h hrun
    obtain ⟨handler, item, -, -, -, rfl⟩ := runPosted_eq_ok hrun
    exact List.mem_append_left _ h

/-- No notification will ever reach this result: no entry leads to it, or it keeps
    asking for more. -/
structure Unreached (ref : ResultRef) (c : MemcachedClient) : Prop where
  notified : ∀ n ∈ c.notified, n.mResult ≠ ref
  posted : ∀ handler ∈ c.posted, handler.mResult ≠ ref
  kept : (c.results ref).hasMoreResult = true ∨
    ∀ id item, c.mRequests id = some item → item.mResult ≠ ref

theorem unreached_finishRequest (h : Unreached ref c) {requestId : BitVec 32} {item : RequestItem}
    (hitem : c.mRequests requestId = some item) (err : ERequestStatus) :
    Unreached ref (c.finishRequest requestId item err) := by
  unfold finishRequest
  split
  · exact h
  · next hmore =>
      refine ⟨h.notified, ?_, h.kept⟩
      intro handler hmem
      rcases List.mem_append.mp hmem with hold | hnew
      · exact h.posted handler hold
      · obtain rfl := List.mem_singleton.mp hnew
        rintro rfl
        rcases h.kept with hkept | hkept
        · exact hmore hkept
        · exact hkept requestId item hitem rfl

theorem unreached_results (h : Unreached ref c) {results : ResultRef → MemResult}
    (hsame : (results ref).hasMoreResult = (c.results ref).hasMoreResult) :
    Unreached ref { c with results := results } where
  notified := h.notified
  posted := h.posted
  kept := h.kept.imp_left hsame.trans

theorem unreached_receive (h : Unreached ref c) (bufs : List Buffer) (data : Bytes) :
    Unreached ref (c.receive bufs data) := by
  have hposts := posts_receive c bufs data
  constructor
  · rw [hposts.notified]
    exact h.notified
  · rw [hposts.posted, List.append_nil]
    exact h.posted
  · rw [hposts.mRequests, hasMoreResult_receive]
    exact h.kept

theorem stable_unreached (ref : ResultRef) : Stable (Unreached ref) where
  onHeaderReaded := by
    intro c header h
    unfold onHeaderReaded
    dsimp only
    split
    · next item hitem =>
        split
        · exact unreached_finishRequest h hitem _
        · next hlen =>
            exact unreached_results h (hasMoreResult_update c.results
              (MemResult.hasMoreResult_fillReceiveBuffer _ _ _ hlen _) ref)
    · exact h
  onBodayReaded := by
    intro c bufs data header h
    have h' := unreached_receive h bufs data
    unfold onBodayReaded
    dsimp only
    split
    · next item hitem => exact unreached_finishRequest h' hitem _
    · exact h'
  runPosted := by
    intro c k c' h hrun
    obtain ⟨handler, item, hk, hitem, href, rfl⟩ := runPosted_eq_ok hrun
    have hne := h.posted handler (List.mem_of_getElem? hk)
    constructor
    · intro n hmem
      rcases List.mem_append.mp hmem with hold | hnew
      · exact h.notified n hold
      · obtain rfl := List.mem_singleton.mp hnew
        exact hne
    · intro other hmem
      exact h.posted other (List.mem_of_mem_eraseIdx hmem)
    · refine h.kept.imp ?_ ?_
      · intro hmore
        exact (hasMoreResult_update c.results (MemResult.hasMoreResult_notify _ _) ref).trans hmore
      · intro hkept id other hother
        have hother : Function.update c.mRequests handler.requestId none id = some other := hother
        rw [Function.update_apply] at hother
        split at hother
        · cases hother
        · exact hkept id other hother

end MemcachedClient

/-! ## 3. When a Stat request completes -/

namespace MemcachedClient

variable {c : MemcachedClient} {key : Bytes} {more callback : Bool}

theorem Settled.unreached_stat (h : Settled c)
    (hnever : more = true ∨ (c.mRequests c.mNextRequestId).isSome) :
    Unreached c.nextResult (c.stat key more callback) where
  notified := fun n hmem => Nat.ne_of_lt (h.notified n hmem)
  posted := by
    intro handler hmem
    have hmem : handler ∈ c.posted := hmem
    rw [h.posted] at hmem
    cases hmem
  kept := by
    rcases hnever with rfl | hused
    · left
      simp [stat, request, MemResult.hasMoreResult, MemResult.new]
    · right
      intro id item hitem
      have hitem : (if (c.mRequests c.mNextRequestId).isSome then c.mRequests else _) id =
        some item := hitem
      rw [if_pos hused] at hitem
      exact Nat.ne_of_lt (h.table id item hitem)

theorem mRequests_stat (hfree : c.mRequests c.mNextRequestId = none) :
    (c.stat key more callback).mRequests c.mNextRequestId = some ⟨c.nextResult, callback⟩ := by
  simp [stat, request, hfree]

theorem results_stat :
    (c.stat key more callback).results c.nextResult = .new key none (.stat [] more) := by
  simp [stat, request]

end MemcachedClient

namespace Link

open MemcachedClient

variable {c : MemcachedClient} {key : Bytes} {more callback : Bool} {ref : ResultRef}
  {stats : List Stat} {link next : Link}

theorem not_completesOnce_of_unreached (h : Unreached ref link.client) :
    ¬ link.CompletesOnce ref callback stats := by
  rintro ⟨before, after, hbefore, hafter, -, hcount, -⟩
  have hstable := stable_unreached ref
  have hafter := client_of_processReply hstable (client_of_processReplies hstable h hbefore) hafter
  have hmem : (⟨ref, ERequest_SUCCESS, callback⟩ : Notification) ∈
      after.client.notified.filter fun n => n.mResult == ref := by
    rw [hcount]
    exact List.mem_singleton_self _
  exact hafter.notified _ (List.mem_of_mem_filter hmem) rfl

/-- Running the only posted handler notifies its result. -/
theorem notified_of_runHandlers {handler : PostedFinish} (hposted : link.client.posted = [handler])
    (hrun : runHandlers link.client.posted.length link = some next) :
    ∃ n ∈ next.client.notified, n.mResult = handler.mResult := by
  rw [hposted] at hrun
  obtain ⟨mid, hmid, hrest⟩ := Option.bind_eq_some_iff.mp hrun
  cases hrest
  obtain ⟨client, hclient, rfl⟩ := runPosted_eq_some hmid
  obtain ⟨handler', item, hget, -, -, rfl⟩ := runPosted_eq_ok hclient
  rw [hposted] at hget
  cases hget
  exact ⟨_, List.mem_append_right _ List.mem_cons_self, rfl⟩

/-- A reply with a value completes a request that does not ask for more. -/
theorem posted_of_readReply (hat : link.AtHeader) {frame : ReplyFrame} {item : RequestItem}
    {rest : Bytes} (hitem : link.client.mRequests frame.requestId = some item)
    (hvalue : frame.value ≠ []) (hmore : (link.client.results item.mResult).hasMoreResult = false)
    (hin : link.incoming = frame.bytes ++ rest) (hreply : link.readReply = some next) :
    next.client.posted =
      link.client.posted ++ [⟨frame.requestId, item.mResult, frame.status⟩] := by
  have hlen := frame.replyValueLen_ne_zero hvalue
  rcases hfill : (link.client.results item.mResult).fillReceiveBuffer item.mResult frame.status
    (replyValueLen (decodeReply frame.header)) (decodeReply frame.header).keylen.toNat
    with ⟨result, asked, bufs⟩
  have hclient := client_of_readReply hat hitem hvalue hfill hin hreply
  generalize hfilled : ({ link.client with
    results := Function.update link.client.results item.mResult result } : MemcachedClient) = c
    at hclient
  have hposts := posts_receive c bufs
    ((frame.body ++ rest).take (bufs.map Buffer.size).sum)
  have hitem' : (c.receive bufs ((frame.body ++ rest).take (bufs.map Buffer.size).sum)).mRequests
      frame.requestId = some item := by
    rw [hposts.mRequests, ← hfilled]
    exact hitem
  rw [hclient, onBodayReaded_eq hitem', finishRequest_of_hasMoreResult_eq_false]
  · show (c.receive bufs _).posted ++ _ = _
    rw [hposts.posted, List.append_nil, ← hfilled]
  · have hkept := MemResult.hasMoreResult_fillReceiveBuffer (link.client.results item.mResult)
      item.mResult frame.status hlen (decodeReply frame.header).keylen.toNat
    rw [hfill] at hkept
    rw [hasMoreResult_receive, ← hfilled]
    exact (hasMoreResult_update link.client.results hkept item.mResult).trans hmore

/-- The first entry already notifies a request that does not ask for more. -/
theorem notified_of_entry (hposted : c.posted = [])
    (hfree : c.mRequests c.mNextRequestId = none) {stat : Stat} {frame : ReplyFrame}
    (hframe : IsStatReply c.mNextRequestId stat frame) {rest : Bytes}
    (hprocess : (listening (c.stat key false callback) (frame.bytes ++ rest)).processReply =
      some next) :
    ∃ n ∈ next.client.notified, n.mResult = c.nextResult := by
  obtain ⟨mid, hmid, hrun⟩ := Option.bind_eq_some_iff.mp hprocess
  have hitem : (c.stat key false callback).mRequests frame.requestId =
      some ⟨c.nextResult, callback⟩ := by
    rw [hframe.requestId]
    exact mRequests_stat hfree
  have hmore : ((c.stat key false callback).results c.nextResult).hasMoreResult = false := by
    rw [results_stat]
    rfl
  have hat : (listening (c.stat key false callback) (frame.bytes ++ rest)).AtHeader := ⟨rfl, rfl⟩
  have hdone : mid.client.posted = [⟨frame.requestId, c.nextResult, frame.status⟩] := by
    rw [posted_of_readReply hat hitem hframe.value_ne_nil hmore rfl hmid]
    show c.posted ++ _ = _
    rw [hposted]
    rfl
  exact notified_of_runHandlers hdone hrun

theorem not_completesOnce_of_entry (hposted : c.posted = [])
    (hfree : c.mRequests c.mNextRequestId = none) {stat : Stat} {frame : ReplyFrame}
    (hframe : IsStatReply c.mNextRequestId stat frame) {rest : Bytes} :
    ¬ (listening (c.stat key false callback) (frame.bytes ++ rest)).CompletesOnce c.nextResult
      callback (stat :: stats) := by
  rintro ⟨before, after, hbefore, -, hnone, -⟩
  obtain ⟨first, hfirst, hrest⟩ := Option.bind_eq_some_iff.mp hbefore
  obtain ⟨n, hmem, href⟩ := notified_of_entry hposted hfree hframe hfirst
  exact hnone n (client_of_processReplies (stable_notified n) hmem hrest) href

/-- The empty reply completes a request that does not ask for more. -/
theorem processReply_terminator (hposted : c.posted = [])
    (hfree : c.mRequests c.mNextRequestId = none) {frame : ReplyFrame}
    (hframe : IsTerminator c.mNextRequestId frame) (rest : Bytes) :
    ∃ after, (listening (c.stat key false callback) (frame.bytes ++ rest)).processReply =
        some after ∧
      after.client.notified =
        c.notified ++ [⟨c.nextResult, ERequest_SUCCESS, callback⟩] ∧
      (after.client.results c.nextResult).cls = .stat [] false := by
  have hitem : (c.stat key false callback).mRequests frame.requestId =
      some ⟨c.nextResult, callback⟩ := by
    rw [hframe.requestId]
    exact mRequests_stat hfree
  have hresults : (c.stat key false callback).results c.nextResult =
      .new key none (.stat [] false) := results_stat
  have hmore : ((c.stat key false callback).results c.nextResult).hasMoreResult = false := by
    rw [hresults]
    rfl
  have hat : (listening (c.stat key false callback) (frame.bytes ++ rest)).AtHeader := ⟨rfl, rfl⟩
  have hvalue : frame.value = [] := by
    unfold ReplyFrame.value
    rw [hframe.body, List.drop_nil]
  have hread := read_of_value_eq_nil hat hitem hvalue rfl
  generalize hnext : headerRead _ _ _ [] _ _ = next at hread
  have hreads : next.tcp.reads ≠ [.body] := by
    rw [← hnext]
    simp [headerRead]
  have hclient : next.client = { c.stat key false callback with
      posted := [⟨frame.requestId, c.nextResult, ERequest_SUCCESS⟩] } := by
    rw [← hnext]
    show (c.stat key false callback).finishRequest frame.requestId _ frame.status = _
    rw [finishRequest_of_hasMoreResult_eq_false hmore, hframe.status]
    have hnone : (c.stat key false callback).posted = [] := hposted
    rw [hnone]
    rfl
  have hhandler : next.client.posted[0]? =
      some ⟨frame.requestId, c.nextResult, ERequest_SUCCESS⟩ := by
    rw [hclient]
    rfl
  have hentry : next.client.mRequests frame.requestId = some ⟨c.nextResult, callback⟩ := by
    rw [hclient]
    exact hitem
  obtain ⟨done, hrun, hnotified, hresult⟩ : ∃ done, next.client.runPosted 0 = some (.ok done) ∧
      done.notified = c.notified ++ [⟨c.nextResult, ERequest_SUCCESS, callback⟩] ∧
      (done.results c.nextResult).cls = .stat [] false := by
    refine ⟨_, runPosted_of_entry hhandler hentry rfl, ?_, ?_⟩
    · show next.client.notified ++ _ = _
      rw [hclient]
      rfl
    · show (Function.update next.client.results c.nextResult _ c.nextResult).cls = _
      rw [Function.update_self, hclient]
      exact congrArg MemResult.cls hresults
  have hlength : next.client.posted.length = 1 := by
    rw [hclient]
    rfl
  refine ⟨{ next with client := done }, ?_, hnotified, hresult⟩
  rw [processReply, readReply, hread, Option.bind_some, if_neg hreads, Option.bind_some, hlength]
  simp only [runHandlers, Link.runPosted, hrun, Option.bind_some]

/-- **Stat requests.**  A settled client sends a Stat request and is answered by `n`
    entries and the empty reply.  The request completes once, after the last reply
    and with all entries, exactly when there is no entry, `mHasMoreResult` happens
    to be false, and the id of the request is free. -/
theorem stat_completes_iff (hc : c.Settled) (key : Bytes) (more callback : Bool)
    {frames : List ReplyFrame} (hframes : List.Forall₂ (IsStatReply c.mNextRequestId) stats frames)
    {terminator : ReplyFrame} (hterminator : IsTerminator c.mNextRequestId terminator)
    (rest : Bytes) :
    (listening (c.stat key more callback)
        (frames.flatMap ReplyFrame.bytes ++ (terminator.bytes ++ rest))).CompletesOnce
      c.nextResult callback stats ↔
      stats = [] ∧ more = false ∧ c.mRequests c.mNextRequestId = none := by
  constructor
  · intro hcompletes
    have hreached : ¬ (more = true ∨ (c.mRequests c.mNextRequestId).isSome) := by
      intro hnever
      exact not_completesOnce_of_unreached (hc.unreached_stat hnever) hcompletes
    obtain ⟨hmore, hfree⟩ := not_or.mp hreached
    obtain rfl : more = false := by simpa using hmore
    rw [Option.not_isSome_iff_eq_none] at hfree
    refine ⟨?_, rfl, hfree⟩
    cases hframes with
    | nil => rfl
    | cons hframe hframes =>
        rw [List.flatMap_cons, List.append_assoc] at hcompletes
        exact absurd hcompletes (not_completesOnce_of_entry hc.posted hfree hframe)
  · rintro ⟨rfl, rfl, hfree⟩
    cases hframes
    obtain ⟨after, hafter, hnotified, hresult⟩ :=
      processReply_terminator hc.posted hfree hterminator rest
    refine ⟨_, after, rfl, hafter, ?_, ?_, false, hresult⟩
    · exact fun n hmem => Nat.ne_of_lt (hc.notified n hmem)
    · have hold : (c.notified.filter fun n => n.mResult == c.nextResult) = [] := by
        rw [List.filter_eq_nil_iff]
        intro n hmem
        simpa using Nat.ne_of_lt (hc.notified n hmem)
      rw [hnotified, List.filter_append, hold]
      simp

/-- The reply after the entries to request 0. -/
def emptyStatFrame : ReplyFrame where
  header := [0x81, 0x10, 0, 0, 0, 0, 0, 0, 0, 0, 0, 0, 0, 0, 0, 0, 0, 0, 0, 0, 0, 0, 0, 0]
  body := []
  header_length := rfl
  body_length := by decide
  parts_le := by decide

/-- The entry `k = v` to request 0. -/
def statFrame : ReplyFrame where
  header := [0x81, 0x10, 0, 1, 0, 0, 0, 0, 0, 0, 0, 2, 0, 0, 0, 0, 0, 0, 0, 0, 0, 0, 0, 0]
  body := [107, 118]
  header_length := rfl
  body_length := by decide
  parts_le := by decide

theorem isTerminator_emptyStatFrame : IsTerminator 0 emptyStatFrame where
  requestId := by decide
  status := by decide
  body := rfl

theorem isStatReply_statFrame : IsStatReply 0 ⟨[107], [118]⟩ statFrame where
  requestId := by decide
  status := by decide
  extlen := by decide
  keylen := by decide
  body := rfl
  key := by decide
  value := by decide

theorem settled_new : MemcachedClient.new.Settled where
  posted := rfl
  table := by
    intro id item hitem
    cases hitem
  notified := by
    intro n hmem
    cases hmem

/-- A request without entries, whose result happens to start with false. -/
theorem stat_completes_iff_no_entry :
    (listening (MemcachedClient.new.stat [] false true)
      ([] ++ (emptyStatFrame.bytes ++ []))).CompletesOnce 0 true [] :=
  (stat_completes_iff settled_new [] false true .nil isTerminator_emptyStatFrame []).mpr
    ⟨rfl, rfl, rfl⟩

/-- One entry: the callback runs before the last reply is read. -/
theorem not_stat_completes :
    ¬ ∀ (c : MemcachedClient) (key : Bytes) (more callback : Bool) (stats : List Stat)
      (frames : List ReplyFrame) (terminator : ReplyFrame), c.Settled →
      List.Forall₂ (IsStatReply c.mNextRequestId) stats frames →
      IsTerminator c.mNextRequestId terminator →
      (listening (c.stat key more callback)
        (frames.flatMap ReplyFrame.bytes ++ terminator.bytes)).CompletesOnce
        c.nextResult callback stats := by
  intro hall
  have hone := hall .new [] false true [⟨[107], [118]⟩] [statFrame] emptyStatFrame settled_new
    (.cons isStatReply_statFrame .nil) isTerminator_emptyStatFrame
  rw [List.flatMap_cons, List.append_assoc] at hone
  exact not_completesOnce_of_entry rfl rfl isStatReply_statFrame hone

end Link

end MemClient
