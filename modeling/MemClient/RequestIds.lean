import MemClient.RequestEncoding
import MemClient.RequestLifetime

/-!
# Request ids

`mNextRequestId` counts the requests modulo `2 ^ 32`, so the id of a request is
issued again after `2 ^ 32` more.  An entry keeps its id in use as long as its
request is outstanding, and a server keeps the ids of its requests for good.
-/

namespace MemClient

open ByteCodec EventRun

namespace ClientSystem

open MemcachedClient

variable {s s' : ClientSystem} {e : Event}

/-! ## 1. What an id stands for -/

/-- The server that an event removes from the list. -/
def removing (s : ClientSystem) : Event → Option ServerItem
  | .remove host port => s.mServers (ServerItem.toStringOf host port)
  | .connectDone server ok =>
      if ok then none else s.mServers (ServerItem.toStringOf server.mHost server.mPort)
  | .io server event =>
      if fails event then s.mServers (ServerItem.toStringOf server.mHost server.mPort) else none
  | _ => none

/-- The event looks up the id of this request to complete it: its server is removed,
    or a reply with this opaque is read on its connection.  `answers` says which of the
    requests with one id a reply is for. -/
def IssuedFor (answers : ClientSystem → Event → ResultRef → Prop) (s : ClientSystem) (e : Event)
    (request : BitVec 32 × ResultRef) : Prop :=
  (∃ server, s.removing e = some server ∧ request ∈ s.sent server) ∨
    ∃ server event, e = .io server event ∧ request ∈ s.sent server ∧
      request.1 ∈ readFinishes (s.sockets server) event ∧ answers s e request.2

/-- A request operation draws an id that is no key of the table, and no reply or
    removal finds another request under the id of the one it is issued for. -/
structure OwnId (answers : ClientSystem → Event → ResultRef → Prop) (s : ClientSystem)
    (e : Event) : Prop where
  fresh : ∀ server result callback bufs, e = .request server result callback bufs →
    s.client.mRequests s.client.mNextRequestId = none
  own : ∀ request, IssuedFor answers s e request → ∀ item,
    s.client.mRequests request.1 = some item → item.mResult = request.2

/-- Fewer than `2 ^ 32` requests were issued since any outstanding one, and since a
    request whose id is looked up while it is in use.  Results are numbered in the
    order of the requests. -/
structure Recent (answers : ClientSystem → Event → ResultRef → Prop) (s : ClientSystem)
    (e : Event) : Prop where
  outstanding : ∀ server result callback bufs, e = .request server result callback bufs →
    ∀ id item, s.client.mRequests id = some item →
      s.client.nextResult < item.mResult + 2 ^ 32
  issued : ∀ request, IssuedFor answers s e request →
    (s.client.mRequests request.1).isSome → s.client.nextResult ≤ request.2 + 2 ^ 32

/-- Ids are the request numbers modulo `2 ^ 32`, and every entry is one of the last
    `2 ^ 32` requests. -/
structure Numbered (s : ClientSystem) : Prop where
  tracked : Tracked s
  next : s.client.mNextRequestId = BitVec.ofNat 32 s.client.nextResult
  sent : ∀ server, ∀ request ∈ s.sent server, request.1 = BitVec.ofNat 32 request.2
  window : ∀ id item, s.client.mRequests id = some item →
    s.client.nextResult ≤ item.mResult + 2 ^ 32

/-- Every request that is not completed is the entry under its id. -/
def Registered (s : ClientSystem) : Prop :=
  ∀ server, ∀ request ∈ s.sent server, ¬ s.Completed request.2 →
    ∃ item, s.client.mRequests request.1 = some item ∧ item.mResult = request.2

/-- Two numbers of a window with the same id are equal. -/
theorem eq_of_window {a b n : Nat} (heq : BitVec.ofNat 32 a = BitVec.ofNat 32 b) (ha : a < n)
    (hb : b < n) (ha' : n ≤ a + 2 ^ 32) (hb' : n ≤ b + 2 ^ 32) : a = b := by
  have hmod : a % 2 ^ 32 = b % 2 ^ 32 := by
    rw [← BitVec.toNat_ofNat, ← BitVec.toNat_ofNat, heq]
  omega

theorem Numbered.entry (h : Numbered s) {id : BitVec 32} {item : RequestItem}
    (hitem : s.client.mRequests id = some item) :
    id = BitVec.ofNat 32 item.mResult ∧ item.mResult < s.client.nextResult := by
  obtain ⟨server, hmem⟩ := h.tracked.table id item hitem
  exact ⟨h.sent server _ hmem, h.tracked.bound server _ hmem⟩

theorem IssuedFor.mem_sent {answers : ClientSystem → Event → ResultRef → Prop}
    {request : BitVec 32 × ResultRef} (h : IssuedFor answers s e request) :
    ∃ server, request ∈ s.sent server := by
  rcases h with ⟨server, -, hmem⟩ | ⟨server, event, -, hmem, -⟩
  · exact ⟨server, hmem⟩
  · exact ⟨server, hmem⟩

/-! ## 2. When ids are distinct -/

/-- The next id is a key of the table exactly when an entry is `2 ^ 32` requests old. -/
theorem Numbered.fresh_iff (h : Numbered s) :
    s.client.mRequests s.client.mNextRequestId = none ↔
      ∀ id item, s.client.mRequests id = some item →
        s.client.nextResult < item.mResult + 2 ^ 32 := by
  rw [h.next]
  constructor
  · intro hnone id item hitem
    have hwindow := h.window id item hitem
    have hid := (h.entry hitem).1
    by_contra hnot
    have hold : s.client.nextResult = item.mResult + 2 ^ 32 :=
      Nat.le_antisymm hwindow (Nat.not_lt.mp hnot)
    have hsame : BitVec.ofNat 32 s.client.nextResult = id := by
      rw [hid, hold]
      apply BitVec.eq_of_toNat_eq
      simp
    rw [hsame, hitem] at hnone
    cases hnone
  · intro hrecent
    by_contra hsome
    obtain ⟨item, hitem⟩ := Option.ne_none_iff_exists'.mp hsome
    obtain ⟨hid, hlt⟩ := h.entry hitem
    have hone : s.client.nextResult + 1 ≤ s.client.nextResult + 2 ^ 32 :=
      Nat.add_le_add_left (by decide) _
    have heq := eq_of_window hid (Nat.lt_succ_self _) (Nat.lt_succ_of_lt hlt) hone
      (hrecent _ item hitem)
    exact absurd heq (Nat.ne_of_gt hlt)

theorem Numbered.own_iff (h : Numbered s) {server : ServerItem}
    {request : BitVec 32 × ResultRef} (hmem : request ∈ s.sent server) :
    (∀ item, s.client.mRequests request.1 = some item → item.mResult = request.2) ↔
      ((s.client.mRequests request.1).isSome → s.client.nextResult ≤ request.2 + 2 ^ 32) := by
  cases hitem : s.client.mRequests request.1 with
  | none => simp
  | some item =>
      obtain ⟨hid, hlt⟩ := h.entry hitem
      have hwindow := h.window _ item hitem
      have hbound := h.tracked.bound server request hmem
      simp only [Option.some.injEq, forall_eq', Option.isSome_some, true_imp_iff]
      constructor
      · intro heq
        rw [← heq]
        exact hwindow
      · intro hrecent
        rw [h.sent server request hmem] at hid
        exact eq_of_window hid.symm hlt hbound hwindow hrecent

theorem Numbered.recent_iff (h : Numbered s) (answers : ClientSystem → Event → ResultRef → Prop)
    (e : Event) : Recent answers s e ↔ OwnId answers s e := by
  constructor
  · intro hrecent
    refine ⟨fun server result callback bufs he => ?_, fun request hissued => ?_⟩
    · exact h.fresh_iff.mpr (hrecent.outstanding server result callback bufs he)
    · obtain ⟨server, hmem⟩ := hissued.mem_sent
      exact (h.own_iff hmem).mpr (hrecent.issued request hissued)
  · intro hown
    refine ⟨fun server result callback bufs he => ?_, fun request hissued => ?_⟩
    · exact h.fresh_iff.mp (hown.fresh server result callback bufs he)
    · obtain ⟨server, hmem⟩ := hissued.mem_sent
      exact (h.own_iff hmem).mp (hown.own request hissued)

theorem numbered_new : Numbered .new where
  tracked := tracked_new
  next := rfl
  sent := by simp [new]
  window := by simp [new, MemcachedClient.new]

theorem Numbered.sendRequest (h : Numbered s) {target : ServerItem} {result : MemResult}
    {callback : Bool} {bufs : List Bytes}
    (hrecent : ∀ id item, s.client.mRequests id = some item →
      s.client.nextResult < item.mResult + 2 ^ 32) :
    Numbered (s.sendRequest target result callback bufs) where
  tracked := h.tracked.sendRequest target result callback bufs
  next := by
    show s.client.mNextRequestId + 1 = BitVec.ofNat 32 (s.client.nextResult + 1)
    rw [h.next]
    apply BitVec.eq_of_toNat_eq
    simp
  sent := by
    intro server request hmem
    rcases mem_sent_sendRequest.mp hmem with hold | ⟨-, rfl⟩
    · exact h.sent server request hold
    · exact h.next
  window := by
    intro id item hitem
    show s.client.nextResult + 1 ≤ item.mResult + 2 ^ 32
    rcases request_mRequests hitem with hold | ⟨-, -, href⟩
    · exact hrecent id item hold
    · rw [href]
      exact Nat.add_le_add_left (by decide) _

theorem mNextRequestId_runHandler {k : Nat} (hrun : s.runHandler k = some s') :
    s'.client.mNextRequestId = s.client.mNextRequestId := by
  obtain ⟨outcome, houtcome, hs'⟩ := Option.map_eq_some_iff.mp hrun
  obtain ⟨handler, -, ⟨item, -, -, rfl⟩ | ⟨rfl, -⟩⟩ := runPosted_cases houtcome
  · rw [← hs']
  · rw [← hs']

theorem numbered_step {answers : ClientSystem → Event → ResultRef → Prop} (h : Numbered s)
    (hrecent : Recent answers s e) (hstep : s.step e = some s') : Numbered s' := by
  have htracked := tracked_step h.tracked hstep
  obtain ⟨-, ⟨server, result, callback, bufs, rfl, rfl⟩ | ⟨k, -, hrun⟩ | heffect⟩ :=
    step_cases hstep
  · exact h.sendRequest (hrecent.outstanding server result callback bufs rfl)
  · rcases runHandler_cases hrun with ⟨handler, item, hran⟩ | ⟨rfl, -⟩
    · refine ⟨htracked, ?_, ?_, ?_⟩
      · rw [mNextRequestId_runHandler hrun, hran.nextResult, h.next]
      · rw [hran.sent]
        exact h.sent
      · intro id item' hitem'
        rw [hran.nextResult]
        exact h.window id item' (hran.entry_of_entry hitem').1
    · exact ⟨htracked, h.next, h.sent, h.window⟩
  · obtain ⟨hs, hposts, -⟩ := heffect.posts
    refine ⟨htracked, ?_, ?_, ?_⟩
    · rw [hposts.mNextRequestId, hposts.nextResult, h.next]
    · rw [heffect.sent]
      exact h.sent
    · rw [hposts.mRequests, hposts.nextResult]
      exact h.window

/-! ## 3. Requests stay registered -/

theorem Registered.sendRequest (h : Registered s) {target : ServerItem} {result : MemResult}
    {callback : Bool} {bufs : List Bytes}
    (hfresh : s.client.mRequests s.client.mNextRequestId = none) :
    Registered (s.sendRequest target result callback bufs) := by
  have htable : (s.sendRequest target result callback bufs).client.mRequests =
      Function.update s.client.mRequests s.client.mNextRequestId
        (some ⟨s.client.nextResult, callback⟩) := by
    simp [ClientSystem.sendRequest, request, hfresh]
  intro server request hmem hopen
  rw [htable]
  rcases mem_sent_sendRequest.mp hmem with hold | ⟨-, rfl⟩
  · obtain ⟨item, hitem, href⟩ := h server request hold hopen
    have hne : request.1 ≠ s.client.mNextRequestId := by
      intro heq
      rw [heq, hfresh] at hitem
      cases hitem
    exact ⟨item, by rw [Function.update_of_ne hne, hitem], href⟩
  · exact ⟨_, Function.update_self _ _ _, rfl⟩

theorem registered_step (h : Registered s)
    (hfresh : ∀ server result callback bufs, e = .request server result callback bufs →
      s.client.mRequests s.client.mNextRequestId = none)
    (hstep : s.step e = some s') : Registered s' := by
  obtain ⟨-, ⟨server, result, callback, bufs, rfl, rfl⟩ | ⟨k, -, hrun⟩ | heffect⟩ :=
    step_cases hstep
  · exact h.sendRequest (hfresh server result callback bufs rfl)
  · rcases runHandler_cases hrun with ⟨handler, item, hran⟩ | ⟨rfl, -⟩
    · intro server request hmem hopen
      rw [hran.sent] at hmem
      obtain ⟨item', hitem', href'⟩ := h server request hmem fun hdone =>
        hopen (hran.completed_after.mpr (Or.inl hdone))
      have hne : request.1 ≠ handler.requestId := by
        intro heq
        rw [heq, hran.entry] at hitem'
        obtain rfl := Option.some.inj hitem'
        exact hopen (hran.completed_after.mpr (Or.inr (href'.symm.trans hran.mResult)))
      exact ⟨item', by rw [hran.mRequests, Function.update_of_ne hne, hitem'], href'⟩
    · exact h
  · obtain ⟨hs, hposts, -⟩ := heffect.posts
    intro server request hmem hopen
    rw [heffect.sent] at hmem
    unfold Completed at hopen
    rw [hposts.notified] at hopen
    rw [hposts.mRequests]
    exact h server request hmem hopen

/-- **Request ids.**  In a run, no id is drawn that is in use and no id is looked up for
    another request, exactly when requests are completed and looked up before `2 ^ 32`
    others are issued; then every outstanding request is the entry under its id. -/
theorem request_ids_iff (answers : ClientSystem → Event → ResultRef → Prop) (es : List Event)
    (s : ClientSystem) :
    Run step (Recent answers) .new es s ↔
      Run step (OwnId answers) .new es s ∧ Registered s := by
  have hiff : Run step (Recent answers) .new es s ↔ Run step (OwnId answers) .new es s :=
    run_congr (fun _ _ _ h hrecent hstep => numbered_step h hrecent hstep)
      (fun _ e h => h.recent_iff answers e) numbered_new
  rw [hiff, iff_self_and]
  intro hrun
  have hstart : Registered .new := by simp [Registered, new]
  exact hrun.invariant (fun _ _ _ h hown hstep => registered_step h hown.fresh hstep) hstart

/-- What `Delete` of the key `"k"` sends when it draws the id number `n`. -/
def deleteBufs (n : Nat) : List Bytes :=
  (deleteRequest (fun _ => 0) [107] (BitVec.ofNat 32 n)).getD []

/-- The request number `n` of a client that sends only such `Delete`s, to the first
    server. -/
def nthDelete (n : Nat) : Event :=
  .request firstServer (.new [107] none .mem) true (deleteBufs n)

/-- After `n` requests and no reply, the first one is still outstanding. -/
structure FirstOutstanding (s : ClientSystem) (n : Nat) : Prop where
  fault : s.fault = none
  created : firstServer ∈ s.created
  nextResult : s.client.nextResult = n
  next : s.client.mNextRequestId = BitVec.ofNat 32 n
  entry : s.client.mRequests 0 = some ⟨0, true⟩
  notified : s.client.notified = []

theorem FirstOutstanding.step {n : Nat} (h : FirstOutstanding s n) :
    ∃ s', s.step (nthDelete n) = some s' ∧ FirstOutstanding s' (n + 1) := by
  refine ⟨s.sendRequest firstServer (.new [107] none .mem) true (deleteBufs n), ?_, ?_⟩
  · simp [ClientSystem.step, nthDelete, h.fault, h.created]
  · refine ⟨h.fault, h.created, congrArg (· + 1) h.nextResult, ?_, ?_, h.notified⟩
    · show s.client.mNextRequestId + 1 = _
      rw [h.next]
      apply BitVec.eq_of_toNat_eq
      simp
    · show (s.client.request (.new [107] none .mem) true).mRequests 0 = _
      unfold request
      dsimp only
      split
      · exact h.entry
      · next hfree =>
          have hne : (0 : BitVec 32) ≠ s.client.mNextRequestId := by
            intro heq
            rw [← heq, h.entry] at hfree
            exact hfree rfl
          rw [Function.update_of_ne hne, h.entry]

theorem exec_deleteRequests {n : Nat} (hn : 1 ≤ n) :
    ∃ s, exec step .new (.add [97] 1 :: (List.range n).map nthDelete) = some s ∧
      FirstOutstanding s n := by
  induction n, hn using Nat.le_induction with
  | base => exact ⟨_, rfl, rfl, List.mem_singleton_self _, rfl, rfl, rfl, rfl⟩
  | succ n hn ih =>
      obtain ⟨s, hs, hfirst⟩ := ih
      obtain ⟨s', hstep, hfirst'⟩ := hfirst.step
      refine ⟨s', ?_, hfirst'⟩
      rw [List.range_succ, List.map_append, ← List.cons_append, exec_append, hs,
        Option.bind_some]
      simp [exec, hstep]

/-- The first request is never answered.  After `2 ^ 32` requests its id is drawn again:
    the next request is not registered, and its id leads to the first one. -/
theorem request_id_drawn_again :
    ∃ s s', exec step .new (.add [97] 1 :: (List.range (2 ^ 32)).map nthDelete) = some s ∧
      s.client.mRequests s.client.mNextRequestId = some ⟨0, true⟩ ∧
      s.step (nthDelete (2 ^ 32)) = some s' ∧ (0, 2 ^ 32) ∈ s'.sent firstServer ∧
      s'.client.mRequests 0 = some ⟨0, true⟩ ∧ ¬ Registered s' := by
  obtain ⟨s, hs, hfirst⟩ := exec_deleteRequests (Nat.one_le_two_pow : 1 ≤ 2 ^ 32)
  obtain ⟨s', hstep, hfirst'⟩ := hfirst.step
  have hzero : s.client.mNextRequestId = 0 := hfirst.next
  have hs' : s' = s.sendRequest firstServer (.new [107] none .mem) true
      (deleteBufs (2 ^ 32)) := by
    simp only [ClientSystem.step, nthDelete, hfirst.fault, hfirst.created] at hstep
    exact (Option.some.inj hstep).symm
  have hsent : (0, 2 ^ 32) ∈ s'.sent firstServer := by
    rw [hs', mem_sent_sendRequest]
    exact Or.inr ⟨rfl, by rw [hzero, hfirst.nextResult]⟩
  refine ⟨s, s', hs, by rw [hzero, hfirst.entry], hstep, hsent, hfirst'.entry, fun h => ?_⟩
  obtain ⟨item, hitem, href⟩ := h firstServer _ hsent (by simp [Completed, hfirst'.notified])
  rw [hfirst'.entry] at hitem
  cases hitem
  cases href

end ClientSystem

end MemClient
