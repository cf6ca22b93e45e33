import MemClient.FleetHistory

/-!
# What the reads of a fleet write to

`async_read` fills buffers that point into a result object, while the strands of
other connections and the posted handlers run on.  The result is only owned by its
entry of the request table, so the entry has to stay until the read is done.
-/

namespace MemClient

open ByteCodec EventRun AssocCells SequentialService

/-! ## 1. Receive buffers -/

/-- The buffer covers a field of the result, to its end. -/
def MemResult.Provides (r : MemResult) (buffer : Buffer) : Prop :=
  match buffer.target with
  | .value => ∃ memory, r.mValue = some memory ∧ memory.size = buffer.size
  | .flag => (∃ mFlag, r.cls = .get mFlag) ∧ buffer.size = 4
  | .counter => (∃ mValue, r.cls = .inc mValue) ∧ buffer.size = 8
  | .statKey i => ∃ mStats more, r.cls = .stat mStats more ∧
      (mStats[i]?).map (fun stat => stat.Key.length) = some buffer.size
  | .statValue i => ∃ mStats more, r.cls = .stat mStats more ∧
      (mStats[i]?).map (fun stat => stat.Value.length) = some buffer.size

namespace MemResult

theorem provides_baseFillReceiveBuffer (r : MemResult) (self : ResultRef) (bufs : List Buffer)
    (valueLen : Int) :
    (r.baseFillReceiveBuffer self bufs valueLen).1.cls = r.cls ∧
      ∀ buffer ∈ (r.baseFillReceiveBuffer self bufs valueLen).2.2, buffer ∉ bufs →
        buffer.owner = self ∧ (r.baseFillReceiveBuffer self bufs valueLen).1.Provides buffer := by
  unfold baseFillReceiveBuffer
  cases hvalue : r.mValue with
  | some memory =>
      refine ⟨rfl, ?_⟩
      intro buffer hmem hnew
      rcases List.mem_append.mp hmem with hold | hlast
      · exact absurd hold hnew
      · cases List.mem_singleton.mp hlast
        exact ⟨rfl, memory, hvalue, rfl⟩
  | none =>
      refine ⟨rfl, ?_⟩
      intro buffer hmem hnew
      rcases List.mem_append.mp hmem with hold | hlast
      · exact absurd hold hnew
      · cases List.mem_singleton.mp hlast
        exact ⟨rfl, _, rfl, rfl⟩

/-- Whatever the class, the buffers lie in the result that hands them out. -/
theorem provides_fillReceiveBuffer (r : MemResult) (self : ResultRef) (status : ERequestStatus)
    (valueLen : Int) (keyLen : Nat) :
    ∀ buffer ∈ (r.fillReceiveBuffer self status valueLen keyLen).2.2,
      buffer.owner = self ∧
        (r.fillReceiveBuffer self status valueLen keyLen).1.Provides buffer := by
  have hbase := r.provides_baseFillReceiveBuffer self [] valueLen
  unfold fillReceiveBuffer
  cases hcls : r.cls with
  | mem =>
      intro buffer hmem
      exact hbase.2 buffer hmem List.not_mem_nil
  | get mFlag =>
      intro buffer hmem
      by_cases hstatus : status = ERequest_SUCCESS
      · simp only [hstatus, if_true] at hmem ⊢
        have hflag := r.provides_baseFillReceiveBuffer self [⟨self, .flag, 4⟩] valueLen
        by_cases hbuffer : buffer ∈ [⟨self, .flag, 4⟩]
        · cases List.mem_singleton.mp hbuffer
          exact ⟨rfl, ⟨mFlag, hflag.1.trans hcls⟩, rfl⟩
        · exact hflag.2 buffer hmem hbuffer
      · simp only [if_neg hstatus] at hmem ⊢
        exact hbase.2 buffer hmem List.not_mem_nil
  | inc mValue =>
      intro buffer hmem
      by_cases hstatus : status = ERequest_SUCCESS
      · simp only [if_pos hstatus] at hmem ⊢
        cases List.mem_singleton.mp hmem
        exact ⟨rfl, ⟨mValue, hcls⟩, rfl⟩
      · simp only [if_neg hstatus] at hmem ⊢
        exact hbase.2 buffer hmem List.not_mem_nil
  | stat mStats more =>
      intro buffer hmem
      by_cases hlen : valueLen = 0
      · simp [hlen] at hmem
      · simp only [if_neg hlen] at hmem ⊢
        rcases List.mem_cons.mp hmem with rfl | hmem
        · exact ⟨rfl, _, _, rfl, by simp⟩
        · cases List.mem_singleton.mp hmem
          exact ⟨rfl, _, _, rfl, by simp⟩

end MemResult

namespace Fleet

variable {σ : Type} {P : Platform} {S : Service σ ParsedRequest ServerAnswer}
  {init : ServerItem → σ} {p : Places} {s last : Fleet σ} {i j : ServerItem} {es : List Event}

/-! ## 2. The read of one connection -/

/-- The read of a body on connection `i` fills the result of the request `x`, which
    is in the table and stays there: no handler to finish it has been posted. -/
structure Receives (s : Fleet σ) (i : ServerItem) (x : SentOp) : Prop where
  registered : s.client.mRequests x.requestId = some x.item
  unfinished : ∀ h ∈ s.client.posted, h.requestId ≠ x.requestId
  unnotified : ∀ n ∈ s.client.notified, n.mResult ≠ x.ref
  buffers : ∀ buffer ∈ (s.lanes i).tcp.mReadBuffers, buffer.owner = x.ref ∧
    (s.client.results x.ref).Provides buffer

/-- A body is read for the exchange that the books have as being read. -/
theorem Located.reading_of_reads (h : Located S init p s)
    (hreads : (s.lanes i).tcp.reads = [.body]) :
    ∃ ex, (p.lane i).reading = some ex ∧ i ∈ s.listed ∧
      (s.lanes i).tcp.mReadBuffers = ex.fill.2.2 := by
  have hlane := h.lane i
  have hstream := hlane.stream s.client
  cases hreading : (p.lane i).reading with
  | none =>
      rw [hreading] at hstream
      obtain ⟨hat, -⟩ := hstream
      have hheader : (s.lanes i).tcp.reads = [.header] := hat.reads
      rw [hreads] at hheader
      cases hheader
  | some ex =>
      rw [hreading] at hstream
      obtain ⟨-, -, hbufs, -, -⟩ := hstream
      refine ⟨ex, rfl, ?_, hbufs⟩
      by_contra hnot
      have hempty := hlane.idle hnot
      rw [hempty] at hreading
      cases hreading

theorem LanePlaces.filling_mem_flights {l : LanePlaces} {ex : Exchange}
    (hreading : l.reading = some ex) : ex.filling ∈ l.flights := by
  unfold LanePlaces.flights
  rw [hreading]
  exact List.mem_append_left _ (List.mem_singleton.mpr rfl)

theorem Places.filling_mem_flights {listed : List ServerItem} {ex : Exchange} (hi : i ∈ listed)
    (hreading : (p.lane i).reading = some ex) : ex.filling ∈ p.flights listed :=
  List.mem_flatMap.mpr ⟨i, hi, LanePlaces.filling_mem_flights hreading⟩

/-- What the table and the heap hold for a request in flight. -/
theorem Located.of_mem_flights (h : Located S init p s) {o : Outstanding}
    (ho : o ∈ p.flights s.listed) :
    s.client.mRequests o.requestId = some o.item ∧
      (∀ handler ∈ s.client.posted, handler.requestId ≠ o.requestId) ∧
      (∀ n ∈ s.client.notified, n.mResult ≠ o.ref) ∧ s.client.results o.ref = o.result := by
  have haccount := h.tally.account
  have hentry : o.entry ∈ (p.flights s.listed).map Outstanding.entry := List.mem_map_of_mem ho
  have hcell : o.cell ∈ (p.flights s.listed).map Outstanding.cell := List.mem_map_of_mem ho
  refine ⟨haccount.table.get (List.mem_append_right _ hentry), ?_, ?_, ?_⟩
  · intro handler hmem heq
    rw [show s.client.posted = p.posted.map Exchange.finish from haccount.handlers] at hmem
    obtain ⟨ex, hex, rfl⟩ := List.mem_map.mp hmem
    have hnodup := haccount.table.nodup
    rw [Link.entries, List.map_append, List.nodup_append] at hnodup
    refine hnodup.2.2 ex.requestId ?_ o.requestId ?_ heq
    · exact List.mem_map.mpr ⟨ex.entry, List.mem_map.mpr ⟨ex, by simp [hex], rfl⟩, rfl⟩
    · exact List.mem_map.mpr ⟨o.entry, hentry, rfl⟩
  · intro n hmem heq
    rw [h.notified_eq] at hmem
    obtain ⟨ex, hex, rfl⟩ := List.mem_map.mp hmem
    have hnodup := haccount.heap.nodup
    rw [Link.map_fst_cells, Link.refs, List.nodup_append] at hnodup
    refine hnodup.2.2 ex.ref ?_ o.ref ?_ heq
    · exact List.mem_map.mpr ⟨ex, by simp [hex], rfl⟩
    · exact List.mem_map.mpr ⟨o, ho, rfl⟩
  · have hmem : o.cell ∈ Link.cells p.done p.posted none [] (p.flights s.listed) := by
      apply List.mem_append_right
      simpa [Link.untouched] using hcell
    exact haccount.heap.eq o.cell hmem

theorem Located.nodup_flights (h : Located S init p s) :
    ((p.flights s.listed).map Outstanding.ref).Nodup := by
  have hnodup := h.tally.account.heap.nodup
  rw [Link.map_fst_cells] at hnodup
  exact hnodup.of_append_right

theorem History.mem_own_of_gave {history : History} {x : SentOp} {answer : Option ServerAnswer}
    (h : history.Gave S init x answer) : x ∈ history.own := by
  obtain ⟨i, before, after, rfl, -⟩ := h
  exact History.mem_own_iff.mpr ⟨i, List.mem_append_right _ List.mem_cons_self⟩

/-- Two connections receive for two requests. -/
theorem Located.ref_ne (h : Located S init p s) {ex other : Exchange} (hne : j ≠ i)
    (hi : i ∈ s.listed) (hj : j ∈ s.listed) (hreading : (p.lane i).reading = some ex)
    (hother : (p.lane j).reading = some other) : other.ref ≠ ex.ref := by
  have hnodup := h.nodup_flights
  rw [Places.flights, List.map_flatMap, List.nodup_flatMap] at hnodup
  have hsymm : Std.Symm (Function.onFun List.Disjoint
      fun i => (p.lane i).flights.map Outstanding.ref) := ⟨fun _ _ hd => hd.symm⟩
  have hdisjoint := hnodup.2.forall hj hi hne
  intro heq
  refine hdisjoint (a := ex.ref) ?_ ?_
  · exact List.mem_map.mpr ⟨other.filling, LanePlaces.filling_mem_flights hother, heq⟩
  · exact List.mem_map.mpr ⟨ex.filling, LanePlaces.filling_mem_flights hreading, rfl⟩

/-! ## 3. All connections -/

/-- **A read never writes to memory that the client has given up.**  While the body
    of a reply is read, its buffers lie in the result of one request that was made and
    is still in the table, and no other connection reads into that result. -/
theorem reads_receive {servers : ServerList} (hrouted : servers.Routed)
    (hrun : Run (step P S) (Answered S) (start servers init) es last)
    (hreads : (last.lanes i).tcp.reads = [.body]) :
    ∃ x : SentOp, (es.flatMap Event.requested)[x.ref]? = some x.op ∧ Receives last i x ∧
      ∀ j ≠ i, (last.lanes j).tcp.reads = [.body] →
        ∀ buffer ∈ (last.lanes j).tcp.mReadBuffers, buffer.owner ≠ x.ref := by
  obtain ⟨p, h, hmade, hforeign, -⟩ := located_of_run hrouted hrun
  obtain ⟨ex, hreading, hi, hbufs⟩ := h.reading_of_reads hreads
  have hanswer : ex ∈ p.answers last.listed := by
    apply List.mem_append_right
    refine List.mem_flatMap.mpr ⟨i, hi, ?_⟩
    simp [LanePlaces.answers, hreading]
  obtain ⟨x, a, hsuits, hgave, rfl⟩ := h.tally.justified ex hanswer
  obtain ⟨hregistered, hunfinished, hunnotified, hresult⟩ :=
    h.of_mem_flights (Places.filling_mem_flights hi hreading)
  have hown := History.mem_own_of_gave hgave
  refine ⟨x, (h.explains hmade hforeign).requested x hown, ?_, ?_⟩
  · refine ⟨hregistered, hunfinished, hunnotified, ?_⟩
    intro buffer hmem
    rw [hbufs] at hmem
    have hprovides := MemResult.provides_fillReceiveBuffer _ _ _ _ _ buffer hmem
    refine ⟨hprovides.1, ?_⟩
    rw [show last.client.results x.ref = _ from hresult]
    exact hprovides.2
  · intro j hne hother buffer hmem
    obtain ⟨other, hreading', hj, hbufs'⟩ := h.reading_of_reads hother
    rw [hbufs'] at hmem
    rw [(MemResult.provides_fillReceiveBuffer _ _ _ _ _ buffer hmem).1]
    exact h.ref_ne hne hi hj hreading hreading'

/-- A `Get` of `k` and one of `l`, until both hosts' bodies are being read. -/
def bothReading : List Event :=
  [.request (.get [107] none) true fun _ => 0, .request (.get [108] none) true fun _ => 0,
    .runSend hostA 0, .runSend hostB 0, .writeDone hostB, .writeDone hostA, .serve hostA,
    .serve hostB, .read hostB, .read hostA]

theorem reads_receive_two_servers :
    ∃ last, exec (step ServerList.examplePlatform itemCells.service)
        (start twoServers fun _ _ => some ([0, 0, 0, 7], [1, 2])) bothReading = some last ∧
      (last.lanes hostB).tcp.reads = [.body] ∧
      ∃ x : SentOp, (bothReading.flatMap Event.requested)[x.ref]? = some x.op ∧
        Receives last hostA x ∧
        ∀ j ≠ hostA, (last.lanes j).tcp.reads = [.body] →
          ∀ buffer ∈ (last.lanes j).tcp.mReadBuffers, buffer.owner ≠ x.ref := by
  have hexec : ((execGuarded (step ServerList.examplePlatform itemCells.service)
      (Answered itemCells.service)
      (start twoServers fun _ _ => some ([0, 0, 0, 7], [1, 2])) bothReading).any fun last =>
        decide ((last.lanes hostA).tcp.reads = [.body]) &&
        decide ((last.lanes hostB).tcp.reads = [.body])) = true := by
    decide +kernel
  obtain ⟨last, hlast, hend⟩ := (Option.any_eq_true _ _).mp hexec
  obtain ⟨hreadsA, hreadsB⟩ := (Bool.and_eq_true _ _).mp hend
  have hrun := run_of_execGuarded hlast
  exact ⟨last, hrun.exec_eq, of_decide_eq_true hreadsB,
    reads_receive routed_twoServers hrun (of_decide_eq_true hreadsA)⟩

end Fleet

end MemClient
