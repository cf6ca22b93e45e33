import MemClient.FleetAccounts
import MemClient.KeyRouting

/-!
# What a fleet does

Whatever the order of the events, one history explains a run: what each server
processed, and that every notification carries the answer of the server.  Section 3:
the events that nobody asks for come to an end, and where they have, every request
is settled.  Section 4: where the requests on one key go to one server, the fleet
answers like a single store.
-/

namespace MemClient

open ByteCodec EventRun AssocCells SequentialService

namespace Fleet

variable {σ : Type} {S : Service σ ParsedRequest ServerAnswer} {init : ServerItem → σ}
  {P : Platform} {p : Places} {s mid last : Fleet σ} {es fs : List Event}

/-! ## 1. Runs -/

theorem Moves.nil (h : Located S init p s) : Moves S init [] p s p s :=
  ⟨h, (List.append_nil _).symm, (List.append_nil _).symm, List.prefix_rfl, le_rfl⟩

theorem Moves.append {p' p'' : Places} (h : Moves S init es p s p' mid)
    (h' : Moves S init fs p' mid p'' last) : Moves S init (es ++ fs) p s p'' last where
  located := h'.located
  made := by rw [h'.made, h.made, List.flatMap_append, List.append_assoc]
  foreign := by rw [h'.foreign, h.foreign, List.flatMap_append, List.append_assoc]
  history := h.history.trans h'.history
  work := by
    have hfirst := h.work
    have hsecond := h'.work
    rw [List.countP_append, List.flatMap_append, List.length_append]
    omega

/-- A run moves the requests on, event by event. -/
theorem moves_run (hrun : Run (step P S) (Answered S) s es last) (h : Located S init p s) :
    ∃ p', Moves S init es p s p' last := by
  induction hrun generalizing p with
  | nil s => exact ⟨p, .nil h⟩
  | cons hguard hstep rest ih =>
      obtain ⟨p', hfirst⟩ := located_step h hguard hstep
      obtain ⟨p'', hrest⟩ := ih hfirst.located
      exact ⟨p'', hfirst.append hrest⟩

/-- The places after a run that begins with nothing requested. -/
theorem located_of_run {servers : ServerList} (hrouted : servers.Routed)
    (hrun : Run (step P S) (Answered S) (start servers init) es last) :
    ∃ p, Located S init p last ∧ p.made = es.flatMap Event.requested ∧
      p.history.foreign = es.flatMap Event.foreign ∧
      p.work last.listed + es.countP Event.internal ≤
        6 * (es.flatMap Event.requested).length := by
  obtain ⟨p, h⟩ := moves_run hrun (located_start hrouted)
  refine ⟨p, h.located, h.made, h.foreign, ?_⟩
  have hwork := h.work
  have hnil (is : List ServerItem) :
      (is.map fun i => ((fun _ => LanePlaces.empty) i : LanePlaces).work).sum = 0 := by
    simp [LanePlaces.work, LanePlaces.empty, Link.work]
  simp only [Places.work, List.length_nil, hnil] at hwork
  simp only [Places.work]
  omega

/-! ## 2. Histories -/

/-- The history accounts for a run: it holds the requests of the client and of
    others and nothing else, the servers did what it says, and what the client was
    told are the answers in it. -/
structure Explains (S : Service σ ParsedRequest ServerAnswer) (init : ServerItem → σ)
    (es : List Event) (history : History) (s : Fleet σ) : Prop where
  requested : ∀ x ∈ history.own, (es.flatMap Event.requested)[x.ref]? = some x.op
  once : (history.own.map SentOp.ref).Nodup
  foreign : history.foreign = es.flatMap Event.foreign
  server : ∀ i, (s.lanes i).server = S.replay (init i) (history.requestsAt i)
  order : ∀ i, (history.ownAt i).flatMap SentOp.bytes <+: (s.lanes i).tcp.executed.flatten
  told : ∀ n ∈ s.client.notified, ∃ (x : SentOp) (a : ServerAnswer),
    history.Gave S init x (some a) ∧ n = ⟨x.ref, a.seen, x.item.mCallback⟩ ∧
      s.client.results x.ref = x.op.result.answered a
  toldOnce : (s.client.notified.map Notification.mResult).Nodup

theorem LanePlaces.refs_flights (l : LanePlaces) :
    l.flights.map Outstanding.ref =
      l.answers.map (fun ex => ex.ref) ++
        (l.missed.map SentOp.ref ++ l.unserved.map SentOp.ref) := by
  have hsent : Outstanding.ref ∘ SentOp.outstanding = SentOp.ref := rfl
  have hfilling : Outstanding.ref ∘ Exchange.filling = fun ex => ex.ref := rfl
  have htodo : Outstanding.ref ∘ Exchange.toOutstanding = fun ex => ex.ref := rfl
  simp only [flights, answers, unanswered, List.map_append, List.map_map, hsent, hfilling, htodo,
    List.append_assoc]

theorem Places.refs_flights (listed : List ServerItem) :
    ((p.flights listed).map Outstanding.ref).Perm
      ((listed.flatMap fun i => (p.lane i).answers).map (fun ex => ex.ref) ++
        ((p.missed listed).map SentOp.ref ++
          (listed.flatMap fun i => (p.lane i).unserved).map SentOp.ref)) := by
  unfold flights missed
  simp only [List.map_flatMap, LanePlaces.refs_flights]
  have hinner := List.flatMap_append_perm listed (fun i => (p.lane i).missed.map SentOp.ref)
    fun i => (p.lane i).unserved.map SentOp.ref
  have houter := List.flatMap_append_perm listed
    (fun i => (p.lane i).answers.map fun ex => ex.ref)
    fun i => (p.lane i).missed.map SentOp.ref ++ (p.lane i).unserved.map SentOp.ref
  exact houter.symm.trans (hinner.symm.append_left _)

/-- The requests are those that were processed, and those that were not. -/
theorem Located.refs_perm (h : Located S init p s) :
    (p.history.own.map SentOp.ref ++
      (s.listed.flatMap fun i => (p.lane i).unserved).map SentOp.ref).Perm
        (List.range p.made.length) := by
  have hallocated := h.tally.allocated
  rw [h.made] at hallocated
  have hprocessed := h.tally.processed.map Outstanding.ref
  simp only [List.map_append, List.map_map] at hprocessed
  refine ((hprocessed.append_right _).trans ?_).trans hallocated
  have hflights := Places.refs_flights (p := p) s.listed
  simp only [Link.refs, Option.toList_none, List.append_nil]
  refine List.Perm.trans (.of_eq ?_) (hflights.symm.append_left _)
  simp [Places.answers, Function.comp_def, Outstanding.ref, SentOp.ref, SentOp.outstanding]

theorem Located.notified_eq (h : Located S init p s) :
    s.client.notified = p.done.map Exchange.notification := h.tally.account.notifications

theorem Located.own (h : Located S init p s) {i : ServerItem} {x : SentOp}
    (hmem : (i, .own x) ∈ p.history) :
    s.routing.servers.Assigns x.request.key i ∧ p.made[x.ref]? = some x.op := by
  rw [x.key_request]
  apply (h.lane i).assigned
  rw [LanePlaces.routed, ← (h.lane i).served]
  exact List.mem_append_left _ (History.mem_ownAt_iff.mpr hmem)

theorem Located.explains (h : Located S init p s) (hmade : p.made = es.flatMap Event.requested)
    (hforeign : p.history.foreign = es.flatMap Event.foreign) :
    Explains S init es p.history s where
  requested := by
    intro x hmem
    obtain ⟨i, hi⟩ := History.mem_own_iff.mp hmem
    rw [← hmade]
    exact (h.own hi).2
  once := by
    have hnodup := h.refs_perm.nodup_iff.mpr List.nodup_range
    exact hnodup.of_append_left
  foreign := hforeign
  server := fun i => (h.lane i).server
  order := by
    intro i
    rw [(h.lane i).served, (h.lane i).conveys.executed, List.flatMap_append]
    exact List.prefix_append _ _
  told := by
    intro n hmem
    rw [h.notified_eq] at hmem
    obtain ⟨ex, hex, rfl⟩ := List.mem_map.mp hmem
    have hanswer : ex ∈ p.answers s.listed :=
      List.mem_append_left _ (List.mem_append_left _ hex)
    have hcell : (ex.ref, ex.final) ∈ Link.cells p.done p.posted none [] (p.flights s.listed) :=
      List.mem_append_left _ (List.mem_append_left _ (List.mem_map_of_mem hex))
    have hresult := h.tally.account.heap.eq _ hcell
    obtain ⟨x, a, hsuits, hgave, rfl⟩ := h.tally.justified ex hanswer
    refine ⟨x, a, hgave, ?_, hresult.trans (SentOp.final_exchange hsuits)⟩
    have hstatus : (SentOp.exchange hsuits).reply.status = a.seen := SentOp.status_reply hsuits
    rw [Exchange.notification, hstatus]
    rfl
  toldOnce := by
    have hnodup := h.tally.account.heap.nodup
    rw [Link.map_fst_cells] at hnodup
    have hdone : s.client.notified.map Notification.mResult = p.done.map fun ex => ex.ref := by
      rw [h.notified_eq, List.map_map]
      rfl
    rw [hdone]
    have hall := hnodup.of_append_left
    rw [List.map_append] at hall
    exact hall.of_append_left

/-- **One history explains a run.**  It only grows: what the client has been told by
    some moment stays explained as the run goes on, and a request that is made after
    that moment comes behind. -/
theorem history_explains {servers : ServerList} (hrouted : servers.Routed)
    (hmid : Run (step P S) (Answered S) (start servers init) es mid)
    (hlast : Run (step P S) (Answered S) mid fs last) :
    ∃ before after : History, Explains S init es before mid ∧
      Explains S init (es ++ fs) (before ++ after) last := by
  obtain ⟨p, hp, hmade, hforeign, -⟩ := located_of_run hrouted hmid
  obtain ⟨p', hmoves⟩ := moves_run hlast hp
  obtain ⟨after, hafter⟩ := hmoves.history
  refine ⟨p.history, after, hp.explains hmade hforeign, ?_⟩
  rw [hafter]
  apply hmoves.located.explains
  · rw [hmoves.made, hmade, List.flatMap_append]
  · rw [hmoves.foreign, hforeign, List.flatMap_append]

/-- The items of a server, extras and value for each key.  A `Get` that misses is not
    answered. -/
def itemCells : KeyedService Bytes (Option (Bytes × Bytes)) ParsedRequest ServerAnswer where
  key := ParsedRequest.key
  cell := fun request item =>
    match item with
    | some (flags, value) =>
        if request.opcode = PROTOCOL_BINARY_CMD_GETQ then (item, some ⟨0, flags, value, 0⟩)
        else if request.opcode = PROTOCOL_BINARY_CMD_DELETE then (none, some ⟨0, [], [], 0⟩)
        else if request.opcode = PROTOCOL_BINARY_CMD_APPEND then
          (some (flags, value ++ request.value), some ⟨0, [], [], 0⟩)
        else if request.opcode = PROTOCOL_BINARY_CMD_PREPEND then
          (some (flags, request.value ++ value), some ⟨0, [], [], 0⟩)
        else (item, some ⟨0x81, [], [], 0⟩)
    | none =>
        if request.opcode = PROTOCOL_BINARY_CMD_GETQ then (item, none)
        else if request.opcode = PROTOCOL_BINARY_CMD_DELETE then (item, some ⟨1, [], [], 0⟩)
        else (item, some ⟨5, [], [], 0⟩)

/-- The key `k` belongs to host `a` and the key `l` to host `b`. -/
def twoServers : ServerList :=
  (exec (ServerList.step ServerList.examplePlatform) ServerList.exampleRing
    [.add [97] 1, .add [98] 1]).getD ServerList.exampleRing

def hostA : ServerItem := ⟨0, [97], 1, 1⟩

def hostB : ServerItem := ⟨1, [98], 1, 1⟩

theorem routed_twoServers : twoServers.Routed := by
  let rings : AlgorithmRef → DistributeAlgorithm := fun _ => .consistentHashDistri (.new 4)
  have hclears (ref : AlgorithmRef) : (rings ref).Clears := trivial
  have hempty (ref : AlgorithmRef) (server : ServerItem) : ¬ (rings ref).Holds server := by
    rintro ⟨p, hp⟩
    cases hp
  have hring : ServerList.exampleRing.Routed :=
    ServerList.routed_setDistributeAlgorithm (ServerList.routed_new hempty) hclears (.refl _)
  have hkept := ServerList.kept_clears (P := ServerList.examplePlatform).setDistributeAlgorithm
    (s := .new ServerList.exampleHash rings) hclears 0 []
  unfold twoServers
  cases hexec : exec (ServerList.step ServerList.examplePlatform) ServerList.exampleRing
      [.add [97] 1, .add [98] 1] with
  | none => exact hring
  | some servers =>
      exact (ServerList.routed_run ServerList.kept_clears (fun _ h => h)
        (run_of_exec (fun _ _ _ => trivial) hexec) hring hkept).1

def exampleItems (_ : ServerItem) (key : Bytes) : Option (Bytes × Bytes) :=
  if key = [107] then some ([0, 0, 0, 7], [1, 2]) else none

/-- An `Append` and a `Get` of `k`, with a `Get` of `l` between them; the `Append` is
    answered. -/
def firstEvents : List Event :=
  [.request (.append [107] [3]) true fun _ => 0, .request (.get [108] none) true fun _ => 0,
    .request (.get [107] none) true fun _ => 0, .runSend hostA 0, .writeDone hostA,
    .runSend hostA 0, .serve hostA, .read hostA, .runPosted 0]

/-- Another client asks for `l`, and the rest is processed. -/
def lastEvents : List Event :=
  [.serveOther hostB ⟨PROTOCOL_BINARY_CMD_GETQ, [], [108], [], [0, 0, 0, 0]⟩, .runSend hostB 0,
    .writeDone hostB, .serve hostB, .writeDone hostA, .serve hostA, .read hostA, .read hostA,
    .runPosted 0]

/-- The `Append` is explained when it is notified, and still when the run has ended. -/
theorem history_explains_two_servers :
    ∃ mid last, exec (step ServerList.examplePlatform itemCells.service)
        (start twoServers exampleItems) firstEvents = some mid ∧
      exec (step ServerList.examplePlatform itemCells.service) mid lastEvents = some last ∧
      mid.client.notified = [⟨0, ERequest_SUCCESS, true⟩] ∧
      last.client.notified = [⟨0, ERequest_SUCCESS, true⟩, ⟨2, ERequest_SUCCESS, true⟩] ∧
      ∃ before after : History,
        Explains itemCells.service exampleItems firstEvents before mid ∧
        Explains itemCells.service exampleItems (firstEvents ++ lastEvents) (before ++ after)
          last := by
  have hexec : ((execGuarded (step ServerList.examplePlatform itemCells.service)
      (Answered itemCells.service) (start twoServers exampleItems) firstEvents).any fun mid =>
        decide (mid.client.notified = [⟨0, ERequest_SUCCESS, true⟩]) &&
        (execGuarded (step ServerList.examplePlatform itemCells.service)
          (Answered itemCells.service) mid lastEvents).any fun last =>
            decide (last.client.notified =
              [⟨0, ERequest_SUCCESS, true⟩, ⟨2, ERequest_SUCCESS, true⟩])) = true := by
    decide +kernel
  obtain ⟨mid, hmid, hrest⟩ := (Option.any_eq_true _ _).mp hexec
  obtain ⟨hnotified, hrest⟩ := (Bool.and_eq_true _ _).mp hrest
  obtain ⟨last, hlast, hend⟩ := (Option.any_eq_true _ _).mp hrest
  have hfirst := run_of_execGuarded hmid
  have hsecond := run_of_execGuarded hlast
  exact ⟨mid, last, hfirst.exec_eq, hsecond.exec_eq, of_decide_eq_true hnotified,
    of_decide_eq_true hend, history_explains routed_twoServers hfirst hsecond⟩

/-! ## 3. Completion -/

/-- No event is left but those that somebody has to ask for. -/
def Idle (P : Platform) (S : Service σ ParsedRequest ServerAnswer) (s : Fleet σ) : Prop :=
  ∀ e : Event, e.internal → s.step P S e = none

/-- A link with a reply on its way can read. -/
theorem read_of_stream {link : Link} {done posted todo : List Exchange}
    {reading : Option Exchange} {waiting : List Outstanding}
    (h : Link.Accounted done posted reading todo waiting link) (hnone : link.read = none) :
    reading = none ∧ todo = [] := by
  cases reading with
  | some ex =>
      obtain ⟨next, hread, -⟩ := h.readBody
      rw [hnone] at hread
      cases hread
  | none =>
      cases todo with
      | nil => exact ⟨rfl, rfl⟩
      | cons ex todo =>
          by_cases hbody : ex.reply.body = []
          · obtain ⟨next, hread, -⟩ := h.readEmpty hbody
            rw [hnone] at hread
            cases hread
          · obtain ⟨next, hread, -⟩ := h.readHeader hbody
            rw [hnone] at hread
            cases hread

/-- Nothing is under way. -/
structure Places.AtRest (p : Places) (listed : List ServerItem) : Prop where
  lane : ∀ i ∈ listed, (p.lane i).reading = none ∧ (p.lane i).todo = [] ∧
    (p.lane i).unserved = []
  posted : p.posted = []

theorem LanePlaces.unserved_eq_nil_iff {l : LanePlaces} :
    l.unserved = [] ↔ l.written = [] ∧ l.writing = [] ∧ l.pending = [] ∧ l.sends = [] := by
  simp only [unserved, List.append_eq_nil_iff]

theorem Located.unserved_of_idle (h : Located S init p s) (hidle : s.Idle P S) (i : ServerItem) :
    (p.lane i).unserved = [] := by
  have hlane := h.lane i
  have hsends : (p.lane i).sends = [] := by
    cases hsends : (p.lane i).sends with
    | nil => rfl
    | cons x rest =>
        have hnone := hidle (.runSend i 0) rfl
        have hposted : (s.lanes i).tcp.posted[0]? = some (.send x.bufs) := by
          simp [hlane.conveys.posted, hsends]
        simp [step, TcpClient.step, hposted] at hnone
  have hwriting : (p.lane i).writing = [] := by
    rw [← hlane.conveys.writes_eq_nil_iff]
    cases hwrites : (s.lanes i).tcp.writes with
    | nil => rfl
    | cons bufs rest =>
        have hnone := hidle (.writeDone i) rfl
        simp [step, TcpClient.step, hwrites] at hnone
  have hwritten : (p.lane i).written = [] := by
    cases hwritten : (p.lane i).written with
    | nil => rfl
    | cons x rest =>
        have hnone := hidle (.serve i) rfl
        have hto := hlane.conveys.toServer
        rw [hwritten, List.flatMap_cons] at hto
        have hview := x.frame.parseRequest_bytes (rest.flatMap SentOp.bytes)
        rw [step, Fleet.serve, hto, SentOp.bytes, hview] at hnone
        cases hnone
  have hpending := hlane.conveys.pending_eq_nil hwriting
  exact LanePlaces.unserved_eq_nil_iff.mpr ⟨hwritten, hwriting, hpending, hsends⟩

theorem Located.atRest_of_idle (h : Located S init p s) (hidle : s.Idle P S) :
    p.AtRest s.listed where
  lane := by
    intro i hi
    have hread : (s.link i).read = none := by
      have hnone := hidle (.read i) rfl
      rwa [step, Option.map_eq_none_iff] at hnone
    obtain ⟨hreading, htodo⟩ := read_of_stream (h.account_link hi) hread
    exact ⟨hreading, htodo, h.unserved_of_idle hidle i⟩
  posted := by
    cases hposted : p.posted with
    | nil => rfl
    | cons ex rest =>
        have haccount := h.tally.account
        rw [hposted] at haccount
        obtain ⟨next, hrun, -⟩ := haccount.runPosted (k := 0) rfl
        obtain ⟨client, hclient, -⟩ := Link.runPosted_eq_some hrun
        have hnone := hidle (.runPosted 0) rfl
        have hclient : s.client.runPosted 0 = some (.ok client) := hclient
        simp [step, hclient] at hnone

/-- A connection that the list does not know is at rest anyway. -/
theorem Located.rest_everywhere (h : Located S init p s) (hrest : p.AtRest s.listed)
    (i : ServerItem) :
    (p.lane i).reading = none ∧ (p.lane i).todo = [] ∧ (p.lane i).unserved = [] := by
  by_cases hi : i ∈ s.listed
  · exact hrest.lane i hi
  · rw [(h.lane i).idle hi]
    exact ⟨rfl, rfl, rfl⟩

theorem Located.idle_of_atRest (h : Located S init p s) (hrest : p.AtRest s.listed) :
    s.Idle P S := by
  intro e he
  cases e with
  | request op callback junk => cases he
  | serveOther i request => cases he
  | runSend i k =>
      obtain ⟨-, -, hunserved⟩ := h.rest_everywhere hrest i
      obtain ⟨-, -, -, hsends⟩ := LanePlaces.unserved_eq_nil_iff.mp hunserved
      have hposted : (s.lanes i).tcp.posted = [] := by
        rw [(h.lane i).conveys.posted, hsends]
        rfl
      simp [step, TcpClient.step, hposted]
  | writeDone i =>
      obtain ⟨-, -, hunserved⟩ := h.rest_everywhere hrest i
      obtain ⟨-, hwriting, -, -⟩ := LanePlaces.unserved_eq_nil_iff.mp hunserved
      simp [step, (h.lane i).conveys.writes_eq_nil_iff.mpr hwriting]
  | serve i =>
      obtain ⟨-, -, hunserved⟩ := h.rest_everywhere hrest i
      obtain ⟨hwritten, -, -, -⟩ := LanePlaces.unserved_eq_nil_iff.mp hunserved
      have hnone : parseRequest [] = none := by decide
      rw [step, Fleet.serve, (h.lane i).conveys.toServer, hwritten, List.flatMap_nil, hnone]
      rfl
  | read i =>
      obtain ⟨hreading, htodo, -⟩ := h.rest_everywhere hrest i
      have hstream := (h.lane i).stream s.client
      rw [hreading, htodo] at hstream
      have haccount : Link.Accounted p.done p.posted none [] (p.flights s.listed) (s.link i) :=
        Link.accounted_iff_bare.mpr ⟨h.tally.account, hstream⟩
      rw [step, haccount.read_eq_none]
      rfl
  | runPosted k =>
      have hnone := h.tally.account.runPosted_eq_none (k := k) (by rw [hrest.posted]; rfl)
      simp only [step]
      split
      · next client hclient => simp [Link.runPosted, Link.bare, hclient] at hnone
      · rfl

theorem Located.atRest_iff_quiescent (h : Located S init p s) :
    p.AtRest s.listed ↔ s.Quiescent := by
  have hhandlers : s.client.posted = p.posted.map Exchange.finish := h.tally.account.handlers
  constructor
  · intro hrest
    have hunserved {i : ServerItem} (hi : i ∈ s.listed) :=
      LanePlaces.unserved_eq_nil_iff.mp (hrest.lane i hi).2.2
    have hstream {i : ServerItem} (hi : i ∈ s.listed) :
        Link.Stream none [] ((s.lanes i).link s.client) := by
      have hstream := (h.lane i).stream s.client
      rwa [(hrest.lane i hi).1, (hrest.lane i hi).2.1] at hstream
    exact
      { sends := fun i hi => by rw [(h.lane i).conveys.posted, (hunserved hi).2.2.2]; rfl
        writes := fun i hi => (h.lane i).conveys.writes_eq_nil_iff.mpr (hunserved hi).2.1
        toServer := fun i hi => by rw [(h.lane i).conveys.toServer, (hunserved hi).1]; rfl
        reads := fun i hi => (hstream hi).1.reads
        incoming := fun i hi => (hstream hi).2
        handlers := by rw [hhandlers, hrest.posted]; rfl }
  · intro hquiet
    refine ⟨?_, List.map_eq_nil_iff.mp (hhandlers.symm.trans hquiet.handlers)⟩
    intro i hi
    have hlane := h.lane i
    have hstream := hlane.stream s.client
    have hwriting := hlane.conveys.writes_eq_nil_iff.mp (hquiet.writes i hi)
    have hsends := List.map_eq_nil_iff.mp (hlane.conveys.posted.symm.trans (hquiet.sends i hi))
    have hwritten : (p.lane i).written = [] := by
      have hnil := hlane.conveys.toServer.symm.trans (hquiet.toServer i hi)
      rw [List.flatMap_eq_nil_iff] at hnil
      exact List.eq_nil_iff_forall_not_mem.mpr fun x hx => x.bytes_ne_nil (hnil x hx)
    have hreading : (p.lane i).reading = none := by
      cases hreading : (p.lane i).reading with
      | none => rfl
      | some ex =>
          rw [hreading] at hstream
          have hreads := hstream.2.1.reads.symm.trans (hquiet.reads i hi)
          cases hreads
    have htodo : (p.lane i).todo = [] := by
      rw [hreading] at hstream
      have hnil := hstream.2.symm.trans (hquiet.incoming i hi)
      rw [List.flatMap_eq_nil_iff] at hnil
      exact List.eq_nil_iff_forall_not_mem.mpr fun ex hex => ex.reply.bytes_ne_nil (hnil ex hex)
    exact ⟨hreading, htodo, LanePlaces.unserved_eq_nil_iff.mpr
      ⟨hwritten, hwriting, hlane.conveys.pending_eq_nil hwriting, hsends⟩⟩

theorem Located.idle_iff_quiescent (h : Located S init p s) : s.Idle P S ↔ s.Quiescent := by
  rw [← h.atRest_iff_quiescent]
  exact ⟨h.atRest_of_idle, h.idle_of_atRest⟩

/-- Every request was processed; those in `missed` got no answer and are still in the
    table, and the client was told of all others. -/
structure Settled (S : Service σ ParsedRequest ServerAnswer) (init : ServerItem → σ)
    (es : List Event) (history : History) (missed : List SentOp) (s : Fleet σ) : Prop where
  processed : (history.own.map SentOp.ref).Perm
    (List.range (es.flatMap Event.requested).length)
  silent : ∀ x ∈ missed, history.Gave S init x none
  told : (s.client.notified.map Notification.mResult ++ missed.map SentOp.ref).Perm
    (List.range (es.flatMap Event.requested).length)
  table : Represents s.client.mRequests (missed.map fun x => (x.requestId, x.item))

theorem Located.settled (h : Located S init p s) (hrest : p.AtRest s.listed)
    (hmade : p.made = es.flatMap Event.requested) :
    Settled S init es p.history (p.missed s.listed) s := by
  have hunserved : (s.listed.flatMap fun i => (p.lane i).unserved) = [] :=
    List.flatMap_eq_nil_iff.mpr fun i hi => (hrest.lane i hi).2.2
  have hanswers : (s.listed.flatMap fun i => (p.lane i).answers) = [] := by
    refine List.flatMap_eq_nil_iff.mpr fun i hi => ?_
    obtain ⟨hreading, htodo, -⟩ := hrest.lane i hi
    rw [LanePlaces.answers, hreading, htodo]
    rfl
  have hprocessed := h.refs_perm
  rw [hunserved, List.map_nil, List.append_nil, hmade] at hprocessed
  have hflights : p.flights s.listed = (p.missed s.listed).map SentOp.outstanding := by
    unfold Places.flights Places.missed
    rw [List.map_flatMap]
    apply List.flatMap_congr
    intro i hi
    obtain ⟨hreading, htodo, hnone⟩ := hrest.lane i hi
    simp [LanePlaces.flights, LanePlaces.unanswered, hreading, htodo, hnone]
  exact
    { processed := hprocessed
      silent := h.tally.silent
      told := by
        have hpartition := (h.tally.processed.map Outstanding.ref).symm
        have hown : (p.history.own.map SentOp.outstanding).map Outstanding.ref =
            p.history.own.map SentOp.ref := List.map_map
        rw [hown] at hpartition
        refine List.Perm.trans (.of_eq ?_) (hpartition.trans hprocessed)
        rw [h.notified_eq, Places.answers, hanswers, hrest.posted, List.append_nil, List.append_nil]
        simp [Function.comp_def, Exchange.notification, Outstanding.ref, SentOp.ref,
          SentOp.outstanding]
      table := by
        have htable : Represents s.client.mRequests (Link.entries p.posted none []
          (p.flights s.listed)) := h.tally.account.table
        rw [hrest.posted, hflights] at htable
        simpa [Link.entries, Outstanding.entry, SentOp.outstanding, Function.comp_def]
          using htable }

/-- **A run ends, and where it ends every request is settled.**  Of the events that
    nobody asks for a run has at most six for each request; there are none left exactly
    when nothing is under way, and then each request was processed once and the client
    was told of exactly those that a server answered. -/
theorem requests_settled {servers : ServerList} (hrouted : servers.Routed)
    (hrun : Run (step P S) (Answered S) (start servers init) es last) :
    es.countP Event.internal ≤ 6 * (es.flatMap Event.requested).length ∧
      (last.Idle P S ↔ last.Quiescent) ∧
      (last.Quiescent → ∃ history missed,
        Explains S init es history last ∧ Settled S init es history missed last) := by
  obtain ⟨p, h, hmade, hforeign, hwork⟩ := located_of_run hrouted hrun
  refine ⟨by omega, h.idle_iff_quiescent, ?_⟩
  intro hquiet
  have hrest := h.atRest_iff_quiescent.mpr hquiet
  exact ⟨p.history, p.missed last.listed, h.explains hmade hforeign, h.settled hrest hmade⟩

/-- The `Get` of `l` is not answered; the other two requests are notified. -/
theorem requests_settled_two_servers :
    ∃ last, exec (step ServerList.examplePlatform itemCells.service)
        (start twoServers exampleItems) (firstEvents ++ lastEvents) = some last ∧
      last.Quiescent ∧ last.client.notified.length = 2 ∧
      ∃ history missed,
        Explains itemCells.service exampleItems (firstEvents ++ lastEvents) history last ∧
        Settled itemCells.service exampleItems (firstEvents ++ lastEvents) history missed
          last := by
  have hexec : ((execGuarded (step ServerList.examplePlatform itemCells.service)
      (Answered itemCells.service) (start twoServers exampleItems)
        (firstEvents ++ lastEvents)).any fun last =>
          decide (last.Quiescent ∧ last.client.notified.length = 2)) = true := by
    decide +kernel
  obtain ⟨last, hlast, hend⟩ := (Option.any_eq_true _ _).mp hexec
  obtain ⟨hquiet, hnotified⟩ := of_decide_eq_true hend
  have hrun := run_of_execGuarded hlast
  exact ⟨last, hrun.exec_eq, hquiet, hnotified,
    (requests_settled routed_twoServers hrun).2.2 hquiet⟩

/-! ## 4. One store -/

namespace History

/-- The requests in the order of the history, wherever they were processed. -/
def requests (history : History) : List ParsedRequest := history.map fun e => e.2.request

/-- What a server has seen of a key is all there is of it, where nobody sends the key to
    another server. -/
theorem requestsAt_filter {history : History} {i : ServerItem} {key : Bytes}
    (h : ∀ e ∈ history, e.2.request.key = key → e.1 = i) :
    ((requestsAt i history).filter fun q => q.key = key) =
      (requests history).filter fun q => q.key = key := by
  unfold requestsAt requests
  rw [List.filter_map, List.filter_map, List.filter_filter]
  congr 1
  apply List.filter_congr
  intro e hmem
  by_cases hkey : e.2.request.key = key
  · simp [hkey, h e hmem hkey]
  · simp [hkey]

end History

/-- The other clients send the keys that this client has a server for to that server. -/
def Agrees (s : Fleet σ) (requests : List (ServerItem × ParsedRequest)) : Prop :=
  ∀ e ∈ requests, ∀ i, s.routing.servers.Assigns e.2.key i → e.1 = i

/-- All requests on a key are at the server of the key. -/
theorem Located.placed (h : Located S init p s) (hagrees : s.Agrees p.history.foreign)
    {key : Bytes} {i : ServerItem} (hassigns : s.routing.servers.Assigns key i)
    {e : ServerItem × Processed} (hmem : e ∈ p.history) (hkey : e.2.request.key = key) :
    e.1 = i := by
  obtain ⟨j, e⟩ := e
  cases e with
  | own x =>
      have hkey : x.request.key = key := hkey
      have hown := (h.own hmem).1
      rw [hkey] at hown
      exact hown.unique hassigns
  | other request =>
      have hkey : request.key = key := hkey
      exact hagrees _ (History.mem_foreign hmem) i (by rwa [hkey])

/-- **The fleet is one store.**  With servers that keep a cell for each key, and other
    clients that use the same server for a key: the cell of every key that has a server
    holds what it would hold in a single store that processed the whole history, and
    what the client is told is what that store answers. -/
theorem single_store {V : Type} {T : KeyedService Bytes V ParsedRequest ServerAnswer}
    (hkey : T.key = ParsedRequest.key) {init : ServerItem → Bytes → V} {store : Bytes → V}
    {servers : ServerList} (hrouted : servers.Routed) {es : List Event}
    {last : Fleet (Bytes → V)}
    (hrun : Run (step P T.service) (Answered T.service) (start servers init) es last)
    (hinit : ∀ key i, last.routing.servers.Assigns key i → init i key = store key)
    (hagrees : last.Agrees (es.flatMap Event.foreign)) :
    ∃ history, Explains T.service init es history last ∧
      (∀ key i, last.routing.servers.Assigns key i →
        (last.lanes i).server key = T.service.replay store history.requests key) ∧
      ∀ n ∈ last.client.notified, ∃ i before, ∃ x : SentOp, ∃ after a,
        history = before ++ (i, .own x) :: after ∧
          T.service.answerTo store (History.requests before) x.request = some a ∧
          n = ⟨x.ref, a.seen, x.item.mCallback⟩ ∧
          last.client.results x.ref = x.op.result.answered a := by
  obtain ⟨p, h, hmade, hforeign, -⟩ := located_of_run hrouted hrun
  rw [← hforeign] at hagrees
  have hexplains := h.explains hmade hforeign
  refine ⟨p.history, hexplains, ?_, ?_⟩
  · intro key i hassigns
    rw [hexplains.server i, T.replay_apply, T.replay_apply, hinit key i hassigns, hkey,
      History.requestsAt_filter fun e hmem => h.placed hagrees hassigns hmem]
  · intro n hmem
    obtain ⟨x, a, ⟨i, before, after, hsplit, hanswer⟩, hnotified, hresult⟩ :=
      hexplains.told n hmem
    refine ⟨i, before, x, after, a, hsplit, ?_, hnotified, hresult⟩
    rw [← hanswer]
    -- the server of the key of `x` has seen every request on it
    have hown : (i, Processed.own x) ∈ p.history := by rw [hsplit]; simp
    have hassigns := (h.own hown).1
    have hbefore : ∀ e ∈ before, e.2.request.key = x.request.key → e.1 = i := by
      intro e he
      apply h.placed hagrees hassigns
      rw [hsplit]
      exact List.mem_append_left _ he
    have hlog := History.requestsAt_filter hbefore
    apply T.answerTo_congr
    · rw [hkey]
      exact (hinit _ i hassigns).symm
    · rw [hkey]
      exact hlog.symm

/-- Two servers with the same items, and another client that asks the right one for `l`. -/
theorem single_store_two_servers :
    ∃ last, exec (step ServerList.examplePlatform itemCells.service)
        (start twoServers exampleItems) (firstEvents ++ lastEvents) = some last ∧
      ∃ history : History, (last.lanes hostA).server [107] =
        itemCells.service.replay (exampleItems hostA) history.requests [107] := by
  have hexec : ((execGuarded (step ServerList.examplePlatform itemCells.service)
      (Answered itemCells.service) (start twoServers exampleItems)
        (firstEvents ++ lastEvents)).any fun last =>
          decide (last.routing.servers.Assigns [107] hostA ∧
            last.routing.servers.Assigns [108] hostB)) = true := by
    decide +kernel
  obtain ⟨last, hlast, hend⟩ := (Option.any_eq_true _ _).mp hexec
  obtain ⟨hk, hl⟩ := of_decide_eq_true hend
  have hrun := run_of_execGuarded hlast
  have hagrees : last.Agrees ((firstEvents ++ lastEvents).flatMap Event.foreign) := by
    intro e hmem i hassigns
    obtain rfl := List.mem_singleton.mp hmem
    exact hl.unique hassigns
  have hinit : ∀ key i, last.routing.servers.Assigns key i →
      exampleItems i key = exampleItems hostA key := fun _ _ _ => rfl
  obtain ⟨history, -, hcells, -⟩ := single_store (T := itemCells) rfl routed_twoServers hrun hinit
    hagrees
  exact ⟨last, hrun.exec_eq, history, hcells [107] hostA hk⟩

end Fleet

end MemClient
