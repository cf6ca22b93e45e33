import MemClient.ClientSystem

/-!
# The lifetime of a request

Section 1 is the invariant of every run: a result object belongs to one request,
sent to one server under one id, and a request that was notified is no longer in
the table.  Section 2: as long as no event finishes a request whose completion
is already posted, every posted handler finds its request and every request is
notified at most once.  Section 3: when removing a server finishes exactly its
unfinished requests.
-/

namespace MemClient

open ByteCodec EventRun

namespace ClientSystem

open MemcachedClient

variable {s s' : ClientSystem} {e : Event}

/-! ## 1. Requests and result objects -/

/-- The client has invoked `Notify` for the request with this result. -/
def Completed (s : ClientSystem) (ref : ResultRef) : Prop :=
  ref ∈ s.client.notified.map Notification.mResult

/-- What `sent` records, against the tables the program keeps. -/
structure Tracked (s : ClientSystem) : Prop where
  pending : ∀ server, s.mPendingRequests server = (s.sent server).map Prod.fst
  bound : ∀ server, ∀ request ∈ s.sent server, request.2 < s.client.nextResult
  owner : ∀ server server', ∀ request ∈ s.sent server, ∀ request' ∈ s.sent server',
    request.2 = request'.2 → server = server' ∧ request = request'
  nodup : ∀ server, ((s.sent server).map Prod.snd).Nodup
  table : ∀ id item, s.client.mRequests id = some item →
    ∃ server, (id, item.mResult) ∈ s.sent server
  live : ∀ id item, s.client.mRequests id = some item → ¬ s.Completed item.mResult
  completed : ∀ ref, s.Completed ref → ref < s.client.nextResult
  once : (s.client.notified.map Notification.mResult).Nodup

theorem tracked_new : Tracked .new where
  pending := fun _ => rfl
  bound := by simp [new]
  owner := by simp [new]
  nodup := by simp [new]
  table := by simp [new, MemcachedClient.new]
  live := by simp [new, MemcachedClient.new]
  completed := by simp [Completed, new, MemcachedClient.new]
  once := by simp [new, MemcachedClient.new]

theorem Tracked.effect {ids removed : List (BitVec 32)} (h : Tracked s)
    (heffect : Effect s s' ids removed) : Tracked s' := by
  obtain ⟨⟨hs, hposts, -⟩, hsent, hpending, -⟩ := heffect
  exact
    { pending := by rw [hsent, hpending]; exact h.pending
      bound := by rw [hsent, hposts.nextResult]; exact h.bound
      owner := by rw [hsent]; exact h.owner
      nodup := by rw [hsent]; exact h.nodup
      table := by rw [hsent, hposts.mRequests]; exact h.table
      live := by unfold Completed; rw [hposts.mRequests, hposts.notified]; exact h.live
      completed := by unfold Completed; rw [hposts.notified, hposts.nextResult]; exact h.completed
      once := by rw [hposts.notified]; exact h.once }

theorem request_mRequests {c : MemcachedClient} {result : MemResult} {callback : Bool}
    {id : BitVec 32} {item : RequestItem}
    (h : (c.request result callback).mRequests id = some item) :
    c.mRequests id = some item ∨
      c.mRequests id = none ∧ id = c.mNextRequestId ∧ item.mResult = c.nextResult := by
  unfold request at h
  dsimp only at h
  split at h
  · exact Or.inl h
  · next hnone =>
      by_cases hid : id = c.mNextRequestId
      · subst hid
        rw [Function.update_self] at h
        obtain rfl := Option.some.inj h
        exact Or.inr ⟨by simpa using hnone, rfl, rfl⟩
      · rw [Function.update_of_ne hid] at h
        exact Or.inl h

theorem mem_sent_sendRequest {server target : ServerItem} {result : MemResult} {callback : Bool}
    {bufs : List Bytes} {request : BitVec 32 × ResultRef} :
    request ∈ (s.sendRequest target result callback bufs).sent server ↔
      request ∈ s.sent server ∨
        server = target ∧ request = (s.client.mNextRequestId, s.client.nextResult) := by
  unfold sendRequest
  dsimp only
  by_cases hserver : server = target
  · subst hserver
    simp
  · simp [hserver]

theorem Tracked.sendRequest (h : Tracked s) (target : ServerItem) (result : MemResult)
    (callback : Bool) (bufs : List Bytes) :
    Tracked (s.sendRequest target result callback bufs) := by
  have hlt : s.client.nextResult < (s.client.request result callback).nextResult :=
    Nat.lt_succ_self _
  constructor
  case pending =>
    intro server
    unfold ClientSystem.sendRequest
    by_cases hserver : server = target
    · subst hserver
      simp [h.pending]
    · simp [hserver, h.pending]
  case bound =>
    intro server request hmem
    rcases mem_sent_sendRequest.mp hmem with hold | ⟨-, rfl⟩
    · exact (h.bound server request hold).trans hlt
    · exact hlt
  case owner =>
    intro server server' request hmem request' hmem' heq
    rcases mem_sent_sendRequest.mp hmem with hold | ⟨rfl, rfl⟩
    · rcases mem_sent_sendRequest.mp hmem' with hold' | ⟨rfl, rfl⟩
      · exact h.owner server server' request hold request' hold' heq
      · exact absurd heq (Nat.ne_of_lt (h.bound server request hold))
    · rcases mem_sent_sendRequest.mp hmem' with hold' | ⟨rfl, rfl⟩
      · exact absurd heq.symm (Nat.ne_of_lt (h.bound server' request' hold'))
      · exact ⟨rfl, rfl⟩
  case nodup =>
    intro server
    unfold ClientSystem.sendRequest
    by_cases hserver : server = target
    · subst hserver
      have hnew : s.client.nextResult ∉ (s.sent server).map Prod.snd := by
        intro hmem
        obtain ⟨request, hrequest, heq⟩ := List.mem_map.mp hmem
        exact absurd heq (Nat.ne_of_lt (h.bound server request hrequest))
      simp only [Function.update_self, List.map_append, List.map_cons, List.map_nil]
      rw [List.nodup_append]
      refine ⟨h.nodup server, List.nodup_singleton _, ?_⟩
      rintro a ha b hb rfl
      rw [List.mem_singleton] at hb
      exact hnew (hb ▸ ha)
    · simpa [hserver] using h.nodup server
  case table =>
    intro id item hitem
    rcases request_mRequests hitem with hold | ⟨-, rfl, href⟩
    · obtain ⟨server, hmem⟩ := h.table id item hold
      exact ⟨server, mem_sent_sendRequest.mpr (Or.inl hmem)⟩
    · exact ⟨target, mem_sent_sendRequest.mpr (Or.inr ⟨rfl, by rw [href]⟩)⟩
  case live =>
    intro id item hitem hdone
    rcases request_mRequests hitem with hold | ⟨-, -, href⟩
    · exact h.live id item hold hdone
    · exact absurd href (Nat.ne_of_lt (h.completed _ hdone))
  case completed =>
    intro ref hdone
    exact (h.completed ref hdone).trans hlt
  case once => exact h.once

/-- Two entries of the table never share a result object. -/
theorem Tracked.entry_inj (h : Tracked s) {id id' : BitVec 32} {item item' : RequestItem}
    (hitem : s.client.mRequests id = some item) (hitem' : s.client.mRequests id' = some item')
    (heq : item.mResult = item'.mResult) : id = id' := by
  obtain ⟨server, hmem⟩ := h.table id item hitem
  obtain ⟨server', hmem'⟩ := h.table id' item' hitem'
  have hsame := (h.owner server server' _ hmem _ hmem' heq).2
  exact congrArg Prod.fst hsame

/-- What the handler of a posted completion does when it finds its request. -/
structure Ran (s s' : ClientSystem) (k : Nat) (handler : PostedFinish) (item : RequestItem) :
    Prop where
  get : s.client.posted[k]? = some handler
  entry : s.client.mRequests handler.requestId = some item
  mResult : item.mResult = handler.mResult
  posted : s'.client.posted = s.client.posted.eraseIdx k
  notified : s'.client.notified =
    s.client.notified ++ [⟨handler.mResult, handler.err, item.mCallback⟩]
  mRequests : s'.client.mRequests = Function.update s.client.mRequests handler.requestId none
  nextResult : s'.client.nextResult = s.client.nextResult
  sent : s'.sent = s.sent
  mPendingRequests : s'.mPendingRequests = s.mPendingRequests
  fault : s'.fault = s.fault

theorem Ran.completed_after {k : Nat} {handler : PostedFinish} {item : RequestItem}
    (hran : Ran s s' k handler item) {ref : ResultRef} :
    s'.Completed ref ↔ s.Completed ref ∨ ref = handler.mResult := by
  simp [Completed, hran.notified]

/-- The entries that are left were there before. -/
theorem Ran.entry_of_entry {k : Nat} {handler : PostedFinish} {item item' : RequestItem}
    (hran : Ran s s' k handler item) {id : BitVec 32}
    (hitem' : s'.client.mRequests id = some item') :
    s.client.mRequests id = some item' ∧ id ≠ handler.requestId := by
  rw [hran.mRequests] at hitem'
  by_cases hid : id = handler.requestId
  · subst hid
    rw [Function.update_self] at hitem'
    cases hitem'
  · rw [Function.update_of_ne hid] at hitem'
    exact ⟨hitem', hid⟩

/-- A posted handler finds its request, or it is a fault that changes nothing else. -/
theorem runHandler_cases {k : Nat} (hrun : s.runHandler k = some s') :
    (∃ handler item, Ran s s' k handler item) ∨
      (s' = { s with fault := some .erasedIterator } ∧
        ∃ handler, s.client.posted[k]? = some handler ∧
          ∀ item, s.client.mRequests handler.requestId = some item →
            item.mResult ≠ handler.mResult) := by
  obtain ⟨outcome, houtcome, hs'⟩ := Option.map_eq_some_iff.mp hrun
  obtain ⟨handler, hk, ⟨item, hitem, href, rfl⟩ | ⟨rfl, hnone⟩⟩ := runPosted_cases houtcome
  · subst hs'
    exact Or.inl ⟨handler, item, hk, hitem, href, rfl, rfl, rfl, rfl, rfl, rfl, rfl⟩
  · exact Or.inr ⟨hs'.symm, handler, hk, hnone⟩

theorem Tracked.ran {k : Nat} {handler : PostedFinish} {item : RequestItem} (h : Tracked s)
    (hran : Ran s s' k handler item) : Tracked s' := by
  constructor
  case pending => rw [hran.mPendingRequests, hran.sent]; exact h.pending
  case bound => rw [hran.sent, hran.nextResult]; exact h.bound
  case owner => rw [hran.sent]; exact h.owner
  case nodup => rw [hran.sent]; exact h.nodup
  case table =>
    intro id item' hitem'
    rw [hran.sent]
    exact h.table id item' (hran.entry_of_entry hitem').1
  case live =>
    intro id item' hitem' hdone
    obtain ⟨hold, hne⟩ := hran.entry_of_entry hitem'
    rcases hran.completed_after.mp hdone with hdone | href
    · exact h.live id item' hold hdone
    · -- the erased entry was the only one with this result
      exact hne (h.entry_inj hold hran.entry (href.trans hran.mResult.symm))
  case completed =>
    intro ref hdone
    rw [hran.nextResult]
    rcases hran.completed_after.mp hdone with hdone | rfl
    · exact h.completed ref hdone
    · obtain ⟨server, hmem⟩ := h.table _ _ hran.entry
      have hbound := h.bound server _ hmem
      rwa [hran.mResult] at hbound
  case once =>
    rw [hran.notified, List.map_append, List.nodup_append]
    refine ⟨h.once, by simp, ?_⟩
    rintro a ha b hb rfl
    simp only [List.map_cons, List.map_nil, List.mem_singleton] at hb
    refine h.live _ item hran.entry ?_
    rw [hran.mResult, ← hb]
    exact ha

theorem tracked_step (h : Tracked s) (hstep : s.step e = some s') : Tracked s' := by
  obtain ⟨-, ⟨server, result, callback, bufs, -, rfl⟩ | ⟨k, -, hrun⟩ | heffect⟩ :=
    step_cases hstep
  · exact h.sendRequest server result callback bufs
  · rcases runHandler_cases hrun with ⟨handler, item, hran⟩ | ⟨rfl, -⟩
    · exact h.ran hran
    · exact ⟨h.pending, h.bound, h.owner, h.nodup, h.table, h.live, h.completed, h.once⟩
  · exact h.effect heffect

theorem tracked_run {guard : ClientSystem → Event → Prop} {es : List Event}
    (hrun : Run step guard .new es s) : Tracked s :=
  hrun.invariant (fun _ _ _ h _ hstep => tracked_step h hstep) tracked_new

/-! ## 2. At most one notification -/

/-- The event finishes no id twice and none whose completion is already posted,
    and it looks up no pending id that has left the table. -/
structure FinishesOnce (s : ClientSystem) (e : Event) : Prop where
  once : (s.finished e).Nodup
  fresh : ∀ handler ∈ s.client.posted, handler.requestId ∉ s.finished e
  present : ∀ id ∈ s.removals e, (s.client.mRequests id).isSome

theorem finishesOnce_of_nil (hfinished : s.finished e = []) (hremovals : s.removals e = []) :
    FinishesOnce s e where
  once := by simp [hfinished]
  fresh := by simp [hfinished]
  present := by simp [hremovals]

/-- Every posted handler will find its request, and no other handler takes it away. -/
structure Sound (s : ClientSystem) : Prop where
  tracked : Tracked s
  fault : s.fault = none
  once : (s.client.posted.map PostedFinish.requestId).Nodup
  found : ∀ handler ∈ s.client.posted, ∃ item,
    s.client.mRequests handler.requestId = some item ∧ item.mResult = handler.mResult

theorem sound_new : Sound .new where
  tracked := tracked_new
  fault := rfl
  once := by simp [new, MemcachedClient.new]
  found := by simp [new, MemcachedClient.new]

theorem Sound.sendRequest (h : Sound s) (server : ServerItem) (result : MemResult)
    (callback : Bool) (bufs : List Bytes) : Sound (s.sendRequest server result callback bufs) where
  tracked := h.tracked.sendRequest server result callback bufs
  fault := h.fault
  once := h.once
  found := by
    intro handler hmem
    obtain ⟨item, hitem, href⟩ := h.found handler hmem
    refine ⟨item, ?_, href⟩
    -- an entry that exists is left in place, whatever id the request drew
    simp only [ClientSystem.sendRequest, request]
    split
    · exact hitem
    · next hnone =>
        have hne : handler.requestId ≠ s.client.mNextRequestId := by
          intro heq
          rw [← heq, hitem] at hnone
          exact hnone rfl
        rw [Function.update_of_ne hne, hitem]

theorem Sound.effect (h : Sound s) (heffect : Effect s s' (s.finished e) (s.removals e))
    (hguard : FinishesOnce s e) : Sound s' := by
  obtain ⟨hs, hposts, hsub⟩ := heffect.posts
  constructor
  case tracked => exact h.tracked.effect heffect
  case fault => exact (heffect.fault hguard.present).trans h.fault
  case once =>
    rw [hposts.posted, List.map_append, List.nodup_append]
    refine ⟨h.once, hguard.once.sublist hsub, ?_⟩
    rintro id hold id' hnew rfl
    obtain ⟨handler, hmem, rfl⟩ := List.mem_map.mp hold
    exact hguard.fresh handler hmem (hsub.subset hnew)
  case found =>
    intro handler hmem
    rw [hposts.posted] at hmem
    rw [hposts.mRequests]
    rcases List.mem_append.mp hmem with hold | hnew
    · exact h.found handler hold
    · exact hposts.entry handler hnew

theorem Sound.ran {k : Nat} {handler : PostedFinish} {item : RequestItem} (h : Sound s)
    (hran : Ran s s' k handler item) : Sound s' where
  tracked := h.tracked.ran hran
  fault := hran.fault.trans h.fault
  once := by
    rw [hran.posted]
    exact h.once.sublist ((List.eraseIdx_sublist _ _).map _)
  found := by
    intro other hmem
    rw [hran.posted] at hmem
    obtain ⟨hlt, hk⟩ := List.getElem?_eq_some_iff.mp hran.get
    have hne : other.requestId ≠ handler.requestId := by
      intro heq
      have hperm := (List.getElem_cons_eraseIdx_perm hlt).map PostedFinish.requestId
      rw [hk, List.map_cons] at hperm
      have hnodup := List.nodup_cons.mp (hperm.nodup_iff.mpr h.once)
      exact hnodup.1 (heq ▸ List.mem_map.mpr ⟨other, hmem, rfl⟩)
    obtain ⟨item', hitem', href'⟩ := h.found other (List.mem_of_mem_eraseIdx hmem)
    exact ⟨item', by rw [hran.mRequests, Function.update_of_ne hne, hitem'], href'⟩

theorem sound_step (h : Sound s) (hguard : FinishesOnce s e) (hstep : s.step e = some s') :
    Sound s' := by
  obtain ⟨-, ⟨server, result, callback, bufs, -, rfl⟩ | ⟨k, -, hrun⟩ | heffect⟩ :=
    step_cases hstep
  · exact h.sendRequest server result callback bufs
  · rcases runHandler_cases hrun with ⟨handler, item, hran⟩ | ⟨-, handler, hk, hnot⟩
    · exact h.ran hran
    · obtain ⟨item, hitem, href⟩ := h.found handler (List.mem_of_getElem? hk)
      exact absurd href (hnot item hitem)
  · exact h.effect heffect hguard

/-- **Callbacks at most once.**  In every run whose events finish no request
    twice, no iterator is used that is no longer valid, `Notify` runs at most once for
    every request, and every posted handler has its request in the table.  The
    connections stay alive: what happens when a removed one is destroyed while a read
    is pending is not modelled. -/
theorem notify_at_most_once {es : List Event} (hrun : Run step FinishesOnce .new es s) :
    s.fault = none ∧ (s.client.notified.map Notification.mResult).Nodup ∧
      ∀ handler ∈ s.client.posted, ∃ item,
        s.client.mRequests handler.requestId = some item ∧ item.mResult = handler.mResult := by
  have h := hrun.invariant (I := Sound) (fun _ _ _ => sound_step) sound_new
  exact ⟨h.fault, h.tracked.once, h.found⟩

/-- The first server that `Add` makes, with host `"a"` and port 1. -/
def firstServer : ServerItem := ⟨0, [97], 1, 1⟩

/-- A `Delete` of the key `"k"` under id 0 is sent to that server. -/
def deleteSent : List Event :=
  [.add [97] 1, .connectDone firstServer true,
    .request firstServer (.new [107] none .mem) true
      [[0x80, 0x04, 0, 1, 0, 0, 0, 0, 0, 0, 0, 1, 0, 0, 0, 0, 0, 0, 0, 0, 0, 0, 0, 0, 107]]]

def deleteReplied : Event :=
  .io firstServer (.readDone 0 (some
    [0x81, 0x04, 0, 0, 0, 0, 0, 0, 0, 0, 0, 0, 0, 0, 0, 0, 0, 0, 0, 0, 0, 0, 0, 0]))

theorem notify_at_most_once_delete :
    ∃ s, exec step .new (deleteSent ++ [deleteReplied, .runPosted 0]) = some s ∧
      s.fault = none ∧ (s.client.notified.map Notification.mResult).Nodup ∧
      ∀ handler ∈ s.client.posted, ∃ item,
        s.client.mRequests handler.requestId = some item ∧ item.mResult = handler.mResult := by
  have hquiet : ∀ e ∈ deleteSent, ∀ s, FinishesOnce s e := by
    intro e he s
    simp only [deleteSent, List.mem_cons, List.not_mem_nil, or_false] at he
    rcases he with rfl | rfl | rfl <;> exact finishesOnce_of_nil rfl rfl
  have hsent : ((exec step .new deleteSent).any fun s => decide (s.client.posted = [])) = true := by
    decide +kernel
  have hexec : (exec step .new (deleteSent ++ [deleteReplied, .runPosted 0])).isSome = true := by
    decide +kernel
  obtain ⟨s, hs⟩ := Option.isSome_iff_exists.mp hexec
  obtain ⟨mid, hmid, hposted⟩ := (Option.any_eq_true _ _).mp hsent
  have hrest := hs
  rw [exec_append, hmid, Option.bind_some] at hrest
  obtain ⟨replied, hreplied, hlast⟩ := Option.bind_eq_some_iff.mp hrest
  -- no handler is posted when the reply arrives, and the reply finishes one id
  have hreply : FinishesOnce mid deleteReplied := by
    refine ⟨?_, ?_, by simp [removals, deleteReplied, fails]⟩
    · simp only [finished, removals, deleteReplied, fails, readFinishes]
      split
      · split <;> simp
      · simp
      · simp
    · simp [of_decide_eq_true hposted]
  have hran : ∀ e ∈ [Event.runPosted 0], ∀ s, FinishesOnce s e := by
    intro e he s
    obtain rfl := List.mem_singleton.mp he
    exact finishesOnce_of_nil rfl rfl
  have hrun : Run step FinishesOnce .new (deleteSent ++ [deleteReplied, .runPosted 0]) s :=
    (run_of_exec hquiet hmid).append (.cons hreply hreplied (run_of_exec hran hlast))
  exact ⟨s, hs, notify_at_most_once hrun⟩

/-- A second reply with the same opaque, before the first handler has run, posts
    a second handler, which then works on an erased iterator. -/
theorem duplicate_reply_finds_erased :
    ¬ ∀ (es : List Event) (s : ClientSystem), Run step Free .new es s →
      s.fault = none ∧ (s.client.notified.map Notification.mResult).Nodup ∧
        ∀ handler ∈ s.client.posted, ∃ item,
          s.client.mRequests handler.requestId = some item ∧ item.mResult = handler.mResult := by
  intro h
  have hexec : ((exec step .new
      (deleteSent ++ [deleteReplied, deleteReplied, .runPosted 0, .runPosted 0])).any fun s =>
        decide (s.fault = some .erasedIterator)) = true := by decide +kernel
  obtain ⟨s, hs, hfault⟩ := (Option.any_eq_true _ _).mp hexec
  have hnone := (h _ s (run_of_exec (fun _ _ _ => trivial) hs)).1
  rw [of_decide_eq_true hfault] at hnone
  cases hnone

/-! ## 3. Removing a server -/

/-- Removing the server finishes, without a fault, exactly the requests that were
    sent to it and are not completed, each once, with a network error. -/
structure RemovalExact (s : ClientSystem) (host : Bytes) (port : BitVec 32)
    (server : ServerItem) : Prop where
  fault : (s.removeServer host port).fault = none
  once : (s.removeServer host port).client.posted.Nodup
  mem_iff : ∀ handler, handler ∈ (s.removeServer host port).client.posted ↔
    handler.err = ERequest_NETWORK_ERROR ∧
      (handler.requestId, handler.mResult) ∈ s.sent server ∧ ¬ s.Completed handler.mResult

/-- Every request ever sent to the server is still in the table under its id and
    can be finished.  An entry that awaits more results stands there only after
    the request that was sent under the id has completed. -/
def NoneFinished (s : ClientSystem) (server : ServerItem) : Prop :=
  ∀ request ∈ s.sent server, ∃ item, s.client.mRequests request.1 = some item ∧
    if (s.client.results item.mResult).hasMoreResult then s.Completed request.2
    else item.mResult = request.2

theorem eq_of_nodup_filterMap {α β : Type} {f : α → Option β} {xs : List α} {x y : α} {b : β}
    (hnodup : (xs.filterMap f).Nodup) (hx : x ∈ xs) (hy : y ∈ xs) (hfx : f x = some b)
    (hfy : f y = some b) : x = y := by
  induction xs with
  | nil => cases hx
  | cons a xs ih =>
      rcases List.mem_cons.mp hx with rfl | hx'
      · rcases List.mem_cons.mp hy with rfl | hy'
        · rfl
        · rw [List.filterMap_cons_some hfx, List.nodup_cons] at hnodup
          exact absurd (List.mem_filterMap.mpr ⟨y, hy', hfy⟩) hnodup.1
      · rcases List.mem_cons.mp hy with rfl | hy'
        · rw [List.filterMap_cons_some hfy, List.nodup_cons] at hnodup
          exact absurd (List.mem_filterMap.mpr ⟨x, hx', hfx⟩) hnodup.1
        · refine ih (hnodup.sublist ?_) hx' hy'
          exact (List.sublist_cons_self a xs).filterMap f

/-- A `filterMap` that agrees with `g` where it gives a value is a part of `map g`. -/
theorem filterMap_sublist_map {α β : Type} {f : α → Option β} {g : α → β} {xs : List α}
    (h : ∀ x ∈ xs, ∀ b, f x = some b → b = g x) : (xs.filterMap f).Sublist (xs.map g) := by
  induction xs with
  | nil => exact .slnil
  | cons x xs ih =>
      have hrest := ih fun y hy => h y (List.mem_cons_of_mem x hy)
      cases hx : f x with
      | none =>
          rw [List.filterMap_cons_none hx]
          exact hrest.cons (g x)
      | some b =>
          rw [List.filterMap_cons_some hx, h x (by simp) b hx]
          exact hrest.cons_cons (g x)

theorem networkFinish_eq_some {c : MemcachedClient} {id : BitVec 32} {handler : PostedFinish} :
    c.networkFinish id = some handler ↔
      ∃ item, c.mRequests id = some item ∧ (c.results item.mResult).hasMoreResult = false ∧
        handler = ⟨id, item.mResult, ERequest_NETWORK_ERROR⟩ := by
  constructor
  · intro h
    obtain ⟨item, hitem, hif⟩ := Option.bind_eq_some_iff.mp h
    split at hif
    · cases hif
    · next hmore => exact ⟨item, hitem, by simpa using hmore, (Option.some.inj hif).symm⟩
  · rintro ⟨item, hitem, hmore, rfl⟩
    simp [networkFinish, hitem, hmore]

/-- The two outcomes of removing a listed server with no handler posted. -/
theorem removeServer_eq {host : Bytes} {port : BitVec 32} {server : ServerItem} (h : Tracked s)
    (hposted : s.client.posted = [])
    (hserver : s.mServers (ServerItem.toStringOf host port) = some server) :
    (∃ request ∈ s.sent server, s.client.mRequests request.1 = none) ∧
        (s.removeServer host port).fault = some .endIterator ∨
      (∀ request ∈ s.sent server, (s.client.mRequests request.1).isSome) ∧
        (s.removeServer host port).fault = s.fault ∧
        (s.removeServer host port).client.posted =
          (s.sent server).filterMap fun request => s.client.networkFinish request.1 := by
  unfold removeServer
  simp only [hserver, h.pending server]
  by_cases hall : ∀ request ∈ s.sent server, (s.client.mRequests request.1).isSome
  · right
    rw [onServerRemoved_eq (by simpa using hall)]
    refine ⟨hall, rfl, ?_⟩
    simp [hposted, List.filterMap_map]
  · left
    obtain ⟨request, hrequest⟩ := not_forall.mp hall
    obtain ⟨hmem, hnone⟩ := Classical.not_imp.mp hrequest
    have hnone' := Option.not_isSome_iff_eq_none.mp hnone
    rw [onServerRemoved_eq_error (List.mem_map.mpr ⟨request, hmem, rfl⟩) hnone']
    exact ⟨⟨request, hmem, hnone'⟩, rfl⟩

theorem noneFinished_of_removalExact {host : Bytes} {port : BitVec 32} {server : ServerItem}
    (h : Tracked s) (hposted : s.client.posted = [])
    (hserver : s.mServers (ServerItem.toStringOf host port) = some server)
    (hexact : s.RemovalExact host port server) : s.NoneFinished server := by
  rcases removeServer_eq h hposted hserver with ⟨-, hfault⟩ | ⟨hall, -, hhandlers⟩
  · rw [hexact.fault] at hfault
    cases hfault
  · intro request hmem
    obtain ⟨item, hitem⟩ := Option.isSome_iff_exists.mp (hall request hmem)
    refine ⟨item, hitem, ?_⟩
    by_cases hmore : (s.client.results item.mResult).hasMoreResult
    · -- nothing is posted under this id, so the request cannot be an unfinished one
      rw [if_pos hmore]
      by_contra hopen
      have hin := (hexact.mem_iff ⟨request.1, request.2, ERequest_NETWORK_ERROR⟩).mpr
        ⟨rfl, hmem, hopen⟩
      rw [hhandlers] at hin
      obtain ⟨other, -, hother⟩ := List.mem_filterMap.mp hin
      obtain ⟨item', hitem', hmore', heq⟩ := networkFinish_eq_some.mp hother
      have hid : request.1 = other.1 := congrArg PostedFinish.requestId heq
      rw [← hid, hitem] at hitem'
      obtain rfl := Option.some.inj hitem'
      rw [hmore] at hmore'
      cases hmore'
    · -- the entry's own request was sent here under this id; two of them would post twice
      rw [if_neg hmore]
      have hpost : s.client.networkFinish request.1 =
          some ⟨request.1, item.mResult, ERequest_NETWORK_ERROR⟩ :=
        networkFinish_eq_some.mpr ⟨item, hitem, by simpa using hmore, rfl⟩
      have hin : (⟨request.1, item.mResult, ERequest_NETWORK_ERROR⟩ : PostedFinish) ∈
          (s.removeServer host port).client.posted := by
        rw [hhandlers]
        exact List.mem_filterMap.mpr ⟨request, hmem, hpost⟩
      obtain ⟨-, hsent, -⟩ := (hexact.mem_iff _).mp hin
      have honce := hexact.once
      rw [hhandlers] at honce
      have heq := eq_of_nodup_filterMap honce hsent hmem hpost hpost
      exact congrArg Prod.snd heq

theorem removalExact_of_noneFinished {host : Bytes} {port : BitVec 32} {server : ServerItem}
    (h : Tracked s) (hfault : s.fault = none) (hposted : s.client.posted = [])
    (hserver : s.mServers (ServerItem.toStringOf host port) = some server)
    (hnone : s.NoneFinished server) : s.RemovalExact host port server := by
  rcases removeServer_eq h hposted hserver with ⟨⟨request, hmem, habsent⟩, -⟩ | ⟨-, hok, hhandlers⟩
  · obtain ⟨item, hitem, -⟩ := hnone request hmem
    rw [habsent] at hitem
    cases hitem
  · -- whatever is posted for a request is posted for its own result
    have hown : ∀ request ∈ s.sent server, ∀ handler,
        s.client.networkFinish request.1 = some handler →
          handler = ⟨request.1, request.2, ERequest_NETWORK_ERROR⟩ ∧ ¬ s.Completed request.2 := by
      intro request hmem handler hpost
      obtain ⟨item, hitem, hmore, rfl⟩ := networkFinish_eq_some.mp hpost
      obtain ⟨item', hitem', hif⟩ := hnone request hmem
      rw [hitem] at hitem'
      obtain rfl := Option.some.inj hitem'
      rw [hmore, if_neg (by simp)] at hif
      exact ⟨by rw [hif], hif ▸ h.live _ _ hitem⟩
    refine ⟨hok.trans hfault, ?_, fun handler => ?_⟩
    · rw [hhandlers]
      refine List.Nodup.of_map PostedFinish.mResult (List.Nodup.sublist ?_ (h.nodup server))
      rw [List.map_filterMap]
      refine filterMap_sublist_map fun request hmem ref href => ?_
      obtain ⟨handler, hpost, rfl⟩ := Option.map_eq_some_iff.mp href
      rw [(hown request hmem handler hpost).1]
    · rw [hhandlers, List.mem_filterMap]
      constructor
      · rintro ⟨request, hmem, hpost⟩
        obtain ⟨rfl, hopen⟩ := hown request hmem handler hpost
        exact ⟨rfl, hmem, hopen⟩
      · rintro ⟨herr, hmem, hopen⟩
        refine ⟨_, hmem, networkFinish_eq_some.mpr ?_⟩
        obtain ⟨item, hitem, hif⟩ := hnone _ hmem
        by_cases hmore : (s.client.results item.mResult).hasMoreResult
        · rw [if_pos hmore] at hif
          exact absurd hif hopen
        · rw [if_neg hmore] at hif
          refine ⟨item, hitem, by simpa using hmore, ?_⟩
          rw [hif, ← herr]

/-- **Removing a server.**  In a reachable state with no handler outstanding, the
    removal finishes exactly the unfinished requests of the server if and only
    if none of the requests sent to it has been finished. -/
theorem removal_exact_iff {es : List Event} {host : Bytes} {port : BitVec 32}
    {server : ServerItem} (hrun : Run step Free .new es s) (hfault : s.fault = none)
    (hposted : s.client.posted = [])
    (hserver : s.mServers (ServerItem.toStringOf host port) = some server) :
    s.RemovalExact host port server ↔ s.NoneFinished server :=
  ⟨noneFinished_of_removalExact (tracked_run hrun) hposted hserver,
    removalExact_of_noneFinished (tracked_run hrun) hfault hposted hserver⟩

theorem removal_exact_iff_delete :
    ∃ s, exec step .new deleteSent = some s ∧
      (s.RemovalExact [97] 1 firstServer ↔ s.NoneFinished firstServer) := by
  have hexec : ((exec step .new deleteSent).any fun s =>
      decide (s.fault = none ∧ s.client.posted = [] ∧
        s.mServers (ServerItem.toStringOf [97] 1) = some firstServer)) = true := by decide +kernel
  obtain ⟨s, hs, hstate⟩ := (Option.any_eq_true _ _).mp hexec
  obtain ⟨hfault, hposted, hserver⟩ := of_decide_eq_true hstate
  exact ⟨s, hs, removal_exact_iff (run_of_exec (fun _ _ _ => trivial) hs) hfault hposted hserver⟩

/-- The completed `Delete` is still among the pending ids of its server: the
    removal dereferences the end iterator. -/
theorem removal_after_completion :
    ¬ ∀ (es : List Event) (s : ClientSystem) (host : Bytes) (port : BitVec 32)
      (server : ServerItem), Run step Free .new es s → s.fault = none → s.client.posted = [] →
      s.mServers (ServerItem.toStringOf host port) = some server →
      s.RemovalExact host port server := by
  intro h
  have hexec : ((exec step .new (deleteSent ++ [deleteReplied, .runPosted 0])).any fun s =>
      decide ((s.fault = none ∧ s.client.posted = [] ∧
        s.mServers (ServerItem.toStringOf [97] 1) = some firstServer) ∧
        (s.removeServer [97] 1).fault = some .endIterator)) = true := by decide +kernel
  obtain ⟨s, hs, hstate⟩ := (Option.any_eq_true _ _).mp hexec
  obtain ⟨⟨hfault, hposted, hserver⟩, hend⟩ := of_decide_eq_true hstate
  have hexact := h _ s _ _ _ (run_of_exec (fun _ _ _ => trivial) hs) hfault hposted hserver
  rw [hexact.fault] at hend
  cases hend

end ClientSystem

end MemClient
