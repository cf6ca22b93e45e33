import MemClient.TcpClient

/-!
# Whole runs of a connection

What one connection signals, and which of its callbacks it calls, over a run of
any length.  Section 1: a completion that fails signals `OnError`, whatever was
signalled before.  Section 2 records the calls of the callbacks; the read loop
keeps header and body of a frame together.
-/

namespace MemClient

open ByteCodec EventRun

/-! ## 1. Signals -/

namespace Signal

def isError : Signal → Bool
  | .onError _ => true
  | .onClosed => false

end Signal

/-- `OnError` at most once, and not after `OnClosed`. -/
structure OneError (signals : List Signal) : Prop where
  once : signals.countP Signal.isError ≤ 1
  closed : signals.Pairwise fun earlier later => earlier = .onClosed → later.isError = false

theorem oneError_nil : OneError [] := ⟨by simp, by simp⟩

theorem OneError.of_append {signals more : List Signal} (h : OneError (signals ++ more)) :
    OneError signals where
  once := by
    have honce := h.once
    rw [List.countP_append] at honce
    omega
  closed := (List.pairwise_append.mp h.closed).1

theorem OneError.append_onClosed {signals : List Signal} (h : OneError signals) :
    OneError (signals ++ [.onClosed]) where
  once := by simpa [Signal.isError] using h.once
  closed := List.pairwise_append.mpr ⟨h.closed, by simp, by simp [Signal.isError]⟩

/-- A further error is allowed only as the first signal of all. -/
theorem oneError_append_onError {signals : List Signal} {type : ESocketError} :
    OneError (signals ++ [.onError type]) ↔ signals = [] := by
  constructor
  · rintro ⟨honce, hclosed⟩
    cases signals with
    | nil => rfl
    | cons first rest =>
        exfalso
        cases first with
        | onError type' =>
            simp only [List.cons_append, List.countP_cons, List.countP_append, Signal.isError,
              if_true, List.countP_nil] at honce
            omega
        | onClosed =>
            have hlast := (List.pairwise_cons.mp hclosed).1 (.onError type) (by simp) rfl
            cases hlast
  · rintro rfl
    exact ⟨by simp [Signal.isError], by simp⟩

namespace TcpClient

variable {σ β γ : Type} {H : Handlers σ β} {x y : TcpClient β γ × σ} {e : Event γ}

/-- A header read closes the connection, starts a body read or the next header read. -/
theorem headerReaded_cases (H : Handlers σ β) (t : TcpClient β γ) (s : σ) (data : Bytes) :
    let call := H.onHeader s data
    let t' := { t with mHeaderBuffer := call.2.1, mReadBuffers := call.2.2.2 }
    (call.2.2 = (true, []) ∧
        headerReaded H t s (some data) = (t'.close4Error .bodyBuffer, call.1)) ∨
      (call.2.2.1 = true ∧ call.2.2.2 ≠ [] ∧
        headerReaded H t s (some data) = (t'.readBody, call.1)) ∨
      (call.2.2.1 = false ∧ headerReaded H t s (some data) = (t'.readHeader, call.1)) := by
  intro call t'
  rcases hcall : H.onHeader s data with ⟨s', header, more, bufs⟩
  simp only [call, t', headerReaded, hcall]
  cases more with
  | false => exact Or.inr (Or.inr ⟨rfl, rfl⟩)
  | true =>
      cases bufs with
      | nil => exact Or.inl ⟨rfl, rfl⟩
      | cons buf bufs => exact Or.inr (Or.inl ⟨rfl, List.cons_ne_nil _ _, rfl⟩)

/-- The event is a completion with an error, or of a header whose body has no
    buffers. -/
def Fails (H : Handlers σ β) (x : TcpClient β γ × σ) : Event γ → Prop
  | .writeDone _ ok => ok = false
  | .readDone _ none => True
  | .readDone k (some data) => x.1.reads[k]? = some .header ∧
      (H.onHeader x.2 data).2.2 = (true, [])
  | _ => False

/-- Nothing fails once the socket is closed, by an earlier failure or by `Close`. -/
def FailsWhileOpen (H : Handlers σ β) (x : TcpClient β γ × σ) (e : Event γ) : Prop :=
  Fails H x e → x.1.mSocketOpen = true

/-- A failing event signals an error and closes the socket; another one closes it
    with `OnClosed`, or leaves both alone. -/
theorem signals_cases (hstep : step H x e = some y) :
    (Fails H x e ∧ (∃ type, y.1.signals = x.1.signals ++ [.onError type]) ∧
        y.1.mSocketOpen = false) ∨
      (¬ Fails H x e ∧ y.1.signals = x.1.signals ++ [.onClosed] ∧ y.1.mSocketOpen = false) ∨
      (¬ Fails H x e ∧ y.1.signals = x.1.signals ∧ y.1.mSocketOpen = x.1.mSocketOpen) := by
  obtain ⟨t, s⟩ := x
  cases e with
  | send bufs =>
      cases hstep
      exact Or.inr (Or.inr ⟨id, rfl, rfl⟩)
  | close =>
      cases hstep
      exact Or.inr (Or.inr ⟨id, rfl, rfl⟩)
  | runPosted k =>
      rcases step_runPosted hstep with ⟨bufs, -, rfl⟩ | ⟨-, rfl⟩
      · exact Or.inr (Or.inr ⟨id, signals_runSend _ bufs⟩)
      · exact Or.inr (Or.inl ⟨id, rfl, rfl⟩)
  | writeDone k ok =>
      obtain ⟨bufs, -, rfl⟩ := step_writeDone hstep
      cases ok with
      | true => exact Or.inr (Or.inr ⟨Bool.noConfusion, signals_writeDone _ bufs⟩)
      | false => exact Or.inl ⟨rfl, ⟨.send, rfl⟩, rfl⟩
  | readDone k data =>
      rcases step_readDone hstep with ⟨hop, rfl⟩ | ⟨hop, rfl⟩
      · cases data with
        | none => exact Or.inl ⟨trivial, ⟨.readHeader, rfl⟩, rfl⟩
        | some data =>
            rcases headerReaded_cases H { t with reads := t.reads.eraseIdx k } s data with
              ⟨hnone, heq⟩ | ⟨-, hbufs, heq⟩ | ⟨hmore, heq⟩
            · rw [heq]
              exact Or.inl ⟨⟨hop, hnone⟩, ⟨.bodyBuffer, rfl⟩, rfl⟩
            · rw [heq]
              refine Or.inr (Or.inr ⟨?_, rfl, rfl⟩)
              rintro ⟨-, hnone⟩
              exact hbufs (congrArg Prod.snd hnone)
            · rw [heq]
              refine Or.inr (Or.inr ⟨?_, rfl, rfl⟩)
              rintro ⟨-, hnone⟩
              rw [congrArg Prod.fst hnone] at hmore
              cases hmore
      · cases data with
        | none => exact Or.inl ⟨trivial, ⟨.readBody, rfl⟩, rfl⟩
        | some data =>
            refine Or.inr (Or.inr ⟨?_, rfl, rfl⟩)
            rintro ⟨hheader, -⟩
            rw [hop] at hheader
            cases hheader

/-- The socket is open until the first signal. -/
def OpenUntilSignal (x : TcpClient β γ × σ) : Prop := x.1.mSocketOpen = true ↔ x.1.signals = []

theorem openUntilSignal_step (h : OpenUntilSignal x) (hstep : step H x e = some y) :
    OpenUntilSignal y := by
  unfold OpenUntilSignal at h ⊢
  rcases signals_cases hstep with ⟨-, ⟨type, hsignals⟩, hclosed⟩ | ⟨-, hsignals, hclosed⟩ |
    ⟨-, hsignals, hopen⟩
  · simp [hsignals, hclosed]
  · simp [hsignals, hclosed]
  · rw [hsignals, hopen]
    exact h

theorem oneError_step_iff (h : OpenUntilSignal x) (hone : OneError x.1.signals)
    (hstep : step H x e = some y) : FailsWhileOpen H x e ↔ OneError y.1.signals := by
  unfold FailsWhileOpen
  rcases signals_cases hstep with ⟨hfails, ⟨type, hsignals⟩, -⟩ | ⟨hfails, hsignals, -⟩ |
    ⟨hfails, hsignals, -⟩
  · have hopen : x.1.mSocketOpen = true ↔ x.1.signals = [] := h
    rw [hsignals, oneError_append_onError, ← hopen]
    exact ⟨fun hopen => hopen hfails, fun hopen _ => hopen⟩
  · rw [hsignals]
    exact iff_of_true (fun hfails' => absurd hfails' hfails) hone.append_onClosed
  · rw [hsignals]
    exact iff_of_true (fun hfails' => absurd hfails' hfails) hone

theorem oneError_back (hstep : step H x e = some y) (h : OneError y.1.signals) :
    OneError x.1.signals := by
  rcases signals_cases hstep with ⟨-, ⟨type, hsignals⟩, -⟩ | ⟨-, hsignals, -⟩ | ⟨-, hsignals, -⟩
  · rw [hsignals] at h
    exact h.of_append
  · rw [hsignals] at h
    exact h.of_append
  · rwa [hsignals] at h

/-- **Error events.**  A run signals `OnError` at most once and not after `OnClosed`
    exactly when nothing fails in it once the socket is closed. -/
theorem oneError_iff (H : Handlers σ β) (headerLength : Nat) (s₀ : σ) (es : List (Event γ))
    {t : TcpClient β γ} {s : σ}
    (hexec : exec (step H) (connected headerLength, s₀) es = some (t, s)) :
    Run (step H) (FailsWhileOpen H) (connected headerLength, s₀) es (t, s) ↔
      OneError t.signals :=
  run_iff_last (I := OpenUntilSignal) (G := fun x => OneError x.1.signals)
    (fun _ _ _ h hstep => openUntilSignal_step h hstep)
    (fun _ _ _ h hone hstep => oneError_step_iff h hone hstep)
    (fun _ _ _ hstep hone => oneError_back hstep hone)
    (iff_of_true rfl rfl) oneError_nil hexec

/-- The peer closes the connection while nothing is being written; `Close` follows. -/
theorem oneError_iff_read_fails :
    ∃ (t : TcpClient Unit Nat) (s : Unit), exec (step noHandlers) (connected 24, ())
        [.send [1], .runPosted 0, .writeDone 0 true, .readDone 0 none, .close, .runPosted 0] =
          some (t, s) ∧ OneError t.signals := by
  have hrun : Run (step noHandlers) (FailsWhileOpen noHandlers) (connected 24, ())
      [.send [1], .runPosted 0, .writeDone 0 true, .readDone 0 none, .close, .runPosted 0]
      (_, ()) :=
    .cons nofun rfl (.cons nofun rfl (.cons nofun rfl (.cons (fun _ => rfl) rfl
      (.cons nofun rfl (.cons nofun rfl (.nil _))))))
  exact ⟨_, _, hrun.exec_eq, (oneError_iff noHandlers 24 () _ hrun.exec_eq).mp hrun⟩

/-- The connection breaks while a write is outstanding: its completion fails after
    that of the read. -/
theorem not_oneError :
    ¬ ∀ (H : Handlers Unit Unit) (headerLength : Nat) (s₀ : Unit) (es : List (Event Nat))
      (t : TcpClient Unit Nat) (s : Unit),
      exec (step H) (connected headerLength, s₀) es = some (t, s) → OneError t.signals := by
  intro hall
  have htwo := hall noHandlers 24 () [.send [1], .runPosted 0, .readDone 0 none,
    .writeDone 0 false] _ _ rfl
  exact absurd htwo.once (by decide)

end TcpClient

/-! ## 2. The read loop -/

/-- A call of a callback: the header before and after `OnHeader`, with what it
    returned; the header and the buffers that `OnBody` was given. -/
inductive Call (β : Type) where
  | onHeader (before after : Bytes) (more : Bool) (bufs : List β)
  | onBody (header : Bytes) (bufs : List β)

/-- The same callbacks, with every call recorded. -/
def Handlers.logged {σ β : Type} (H : Handlers σ β) : Handlers (σ × List (Call β)) β where
  bufferSize := H.bufferSize
  onHeader := fun (s, log) before =>
    let (s, after, more, bufs) := H.onHeader s before
    ((s, log ++ [.onHeader before after more bufs]), after, more, bufs)
  receive := fun (s, log) bufs data => (H.receive s bufs data, log)
  onBody := fun (s, log) header bufs => (H.onBody s header bufs, log ++ [.onBody header bufs])

namespace TcpClient

variable {σ β γ : Type} {H : Handlers σ β}

def unlogged (x : TcpClient β γ × (σ × List (Call β))) : TcpClient β γ × σ := (x.1, x.2.1)

theorem unlogged_headerReaded (H : Handlers σ β) (t : TcpClient β γ) (s : σ)
    (log : List (Call β)) (data : Option Bytes) :
    unlogged (headerReaded H.logged t (s, log) data) = headerReaded H t s data := by
  cases data with
  | none => rfl
  | some data =>
      rcases hcall : H.onHeader s data with ⟨s', header, more, bufs⟩
      simp only [headerReaded, Handlers.logged, hcall]
      cases more with
      | false => rfl
      | true => cases bufs <;> rfl

theorem step_logged (H : Handlers σ β) (x : TcpClient β γ × (σ × List (Call β))) (e : Event γ) :
    (step H.logged x e).map unlogged = step H (unlogged x) e := by
  obtain ⟨t, s, log⟩ := x
  cases e with
  | send bufs => rfl
  | close => rfl
  | runPosted k =>
      simp only [step, unlogged]
      split <;> rfl
  | writeDone k ok =>
      simp only [step, unlogged]
      split <;> rfl
  | readDone k data =>
      simp only [step, unlogged]
      cases t.reads[k]? with
      | none => rfl
      | some op =>
          have hsize : t.readSize H.logged op = t.readSize H op := by cases op <;> rfl
          simp only [hsize]
          split
          · next hall =>
              simp only [hall, if_true]
              cases op with
              | header => exact congrArg some (unlogged_headerReaded H _ s log data)
              | body => cases data <;> rfl
          · next hall =>
              simp only [hall]
              rfl

/-- Recording changes nothing else: the runs are those of the connection. -/
theorem exec_logged (H : Handlers σ β) (x : TcpClient β γ × (σ × List (Call β)))
    (es : List (Event γ)) :
    (exec (step H.logged) x es).map unlogged = exec (step H) (unlogged x) es := by
  induction es generalizing x with
  | nil => rfl
  | cons e es ih =>
      simp only [exec]
      rw [← step_logged]
      cases step H.logged x e with
      | none => rfl
      | some y => exact ih y

/-- Each `OnBody` comes right after an `OnHeader` that returned true, with the header
    as that call left it and the buffers it supplied. -/
def Paired (log : List (Call β)) : Prop :=
  ∀ before header bufs after, log = before ++ .onBody header bufs :: after →
    ∃ calls received, before = calls ++ [.onHeader received header true bufs] ∧ bufs ≠ []

theorem Paired.append_onHeader {log : List (Call β)} (h : Paired log) (received header : Bytes)
    (more : Bool) (bufs : List β) : Paired (log ++ [.onHeader received header more bufs]) := by
  intro before header' bufs' after heq
  rcases List.eq_nil_or_concat after with rfl | ⟨after, last, rfl⟩
  · have hlast := List.append_inj_right' heq rfl
    cases hlast
  · rw [List.concat_eq_append, ← List.cons_append, ← List.append_assoc] at heq
    exact h before header' bufs' after (List.append_inj_left' heq rfl)

theorem Paired.append_onBody {log : List (Call β)} {received header : Bytes} {bufs : List β}
    (h : Paired (log ++ [.onHeader received header true bufs])) (hbufs : bufs ≠ []) :
    Paired (log ++ [.onHeader received header true bufs] ++ [.onBody header bufs]) := by
  intro before header' bufs' after heq
  rcases List.eq_nil_or_concat after with rfl | ⟨after, last, rfl⟩
  · obtain ⟨hbefore, hlast⟩ := List.append_inj' heq rfl
    cases hlast
    exact ⟨log, received, hbefore.symm, hbufs⟩
  · rw [List.concat_eq_append, ← List.cons_append, ← List.append_assoc] at heq
    exact h before header' bufs' after (List.append_inj_left' heq rfl)

/-- One read at a time; while a body is read, the last call is the `OnHeader` that
    left the header buffer and supplied the read buffers. -/
structure LoopInv (x : TcpClient β γ × (σ × List (Call β))) : Prop where
  reads : x.1.reads = [] ∨ x.1.reads = [.header] ∨
    x.1.reads = [.body] ∧ x.1.mReadBuffers ≠ [] ∧ ∃ calls received,
      x.2.2 = calls ++ [.onHeader received x.1.mHeaderBuffer true x.1.mReadBuffers]
  paired : Paired x.2.2

theorem loopInv_connected (headerLength : Nat) (s₀ : σ) :
    LoopInv ((connected headerLength : TcpClient β γ), (s₀, ([] : List (Call β)))) where
  reads := Or.inr (Or.inl rfl)
  paired := by
    intro before header bufs after heq
    cases before <;> cases heq

theorem LoopInv.congr {t t' : TcpClient β γ} {s : σ × List (Call β)} (h : LoopInv (t, s))
    (hsame : SameReads t t') : LoopInv (t', s) where
  reads := by
    rw [hsame.reads, hsame.mHeaderBuffer, hsame.mReadBuffers]
    exact h.reads
  paired := h.paired

/-- A read can only complete when it is the one that is outstanding. -/
theorem LoopInv.readDone {x : TcpClient β γ × (σ × List (Call β))} (h : LoopInv x) {k : Nat}
    {op : ReadOp} (hop : x.1.reads[k]? = some op) : x.1.reads = [op] ∧ k = 0 := by
  rcases h.reads with hreads | hreads | ⟨hreads, -⟩
  · rw [hreads] at hop
    cases hop
  · rw [hreads] at hop ⊢
    cases k with
    | zero => exact ⟨congrArg (fun o => [o]) (Option.some.inj hop), rfl⟩
    | succ k => cases hop
  · rw [hreads] at hop ⊢
    cases k with
    | zero => exact ⟨congrArg (fun o => [o]) (Option.some.inj hop), rfl⟩
    | succ k => cases hop

theorem LoopInv.headerReaded {t : TcpClient β γ} {s : σ} {log : List (Call β)}
    (h : LoopInv (t, (s, log))) (hreads : t.reads = []) (data : Option Bytes) :
    LoopInv (headerReaded H.logged t (s, log) data) := by
  cases data with
  | none => exact ⟨Or.inl hreads, h.paired⟩
  | some data =>
      rcases hcall : H.onHeader s data with ⟨s', header, more, bufs⟩
      have hlogged : H.logged.onHeader (s, log) data =
          ((s', log ++ [.onHeader data header more bufs]), header, more, bufs) := by
        simp only [Handlers.logged, hcall]
      have hpaired := h.paired.append_onHeader data header more bufs
      rcases headerReaded_cases H.logged t (s, log) data with
        ⟨-, heq⟩ | ⟨hmore, hbufs, heq⟩ | ⟨-, heq⟩
      · rw [heq, hlogged]
        exact ⟨Or.inl hreads, hpaired⟩
      · rw [hlogged] at hmore hbufs
        obtain rfl : more = true := hmore
        rw [heq, hlogged]
        refine ⟨Or.inr (Or.inr ⟨?_, hbufs, log, data, rfl⟩), hpaired⟩
        rw [reads_readBody, hreads, List.nil_append]
      · rw [heq, hlogged]
        refine ⟨Or.inr (Or.inl ?_), hpaired⟩
        rw [reads_readHeader, hreads, List.nil_append]

theorem LoopInv.bodyReaded {t : TcpClient β γ} {s : σ} {log calls : List (Call β)}
    {received : Bytes} (hpaired : Paired log)
    (hlog : log = calls ++ [.onHeader received t.mHeaderBuffer true t.mReadBuffers])
    (hreads : t.reads = []) (hbufs : t.mReadBuffers ≠ []) (data : Option Bytes) :
    LoopInv (bodyReaded H.logged t (s, log) data) := by
  subst hlog
  cases data with
  | none => exact ⟨Or.inl hreads, hpaired⟩
  | some data =>
      have hnext : t.readHeader.reads = [.header] := by
        rw [reads_readHeader, hreads, List.nil_append]
      exact ⟨Or.inr (Or.inl hnext), hpaired.append_onBody hbufs⟩

theorem loopInv_step {x y : TcpClient β γ × (σ × List (Call β))} {e : Event γ} (h : LoopInv x)
    (hstep : step H.logged x e = some y) : LoopInv y := by
  obtain ⟨t, s, log⟩ := x
  rcases sameReads_step hstep with ⟨k, data, rfl⟩ | ⟨hsame, hlog⟩
  · rcases step_readDone hstep with ⟨hop, rfl⟩ | ⟨hop, rfl⟩
    · obtain ⟨hreads, rfl⟩ := h.readDone hop
      have hreads : t.reads = [.header] := hreads
      have hnone : LoopInv ({ t with reads := t.reads.eraseIdx 0 }, (s, log)) :=
        ⟨Or.inl (by simp [hreads]), h.paired⟩
      exact hnone.headerReaded (by simp [hreads]) data
    · obtain ⟨hreads, rfl⟩ := h.readDone hop
      have hreads : t.reads = [.body] := hreads
      rcases h.reads with hother | hother | ⟨-, hbufs, calls, received, hlog⟩
      · rw [show t.reads = [] from hother] at hreads
        cases hreads
      · rw [show t.reads = [.header] from hother] at hreads
        cases hreads
      · exact LoopInv.bodyReaded (t := { t with reads := t.reads.eraseIdx 0 }) h.paired
          hlog (by simp [hreads]) hbufs data
  · obtain ⟨t', s'⟩ := y
    obtain rfl : s' = (s, log) := hlog
    exact h.congr hsame

/-- A read that fails, or a header whose body has no buffers. -/
def StopsReading (H : Handlers σ β) (x : TcpClient β γ × σ) : Event γ → Prop
  | .readDone k data => Fails H x (.readDone k data)
  | _ => False

theorem reads_of_stopsReading {x y : TcpClient β γ × (σ × List (Call β))} {e : Event γ}
    (h : LoopInv x) (hstops : StopsReading H (unlogged x) e)
    (hstep : step H.logged x e = some y) : y.1.reads = [] := by
  obtain ⟨t, s, log⟩ := x
  cases e with
  | readDone k data =>
      rcases step_readDone hstep with ⟨hop, rfl⟩ | ⟨hop, rfl⟩
      · obtain ⟨hreads, rfl⟩ := h.readDone hop
        have hrest : t.reads.eraseIdx 0 = [] := congrArg (List.eraseIdx · 0) hreads
        cases data with
        | none => exact hrest
        | some data =>
            have hnone : (H.onHeader s data).2.2 = (true, []) := hstops.2
            simp only [headerReaded, Handlers.logged, hnone]
            exact hrest
      · obtain ⟨hreads, rfl⟩ := h.readDone hop
        cases data with
        | none => exact congrArg (List.eraseIdx · 0) hreads
        | some data =>
            have hheader : t.reads[0]? = some .header := hstops.1
            rw [hop] at hheader
            cases hheader
  | _ => exact hstops.elim

/-- Without an outstanding read no callback is called again. -/
theorem silent_step {x y : TcpClient β γ × (σ × List (Call β))} {e : Event γ}
    (h : x.1.reads = []) (hstep : step H.logged x e = some y) :
    y.1.reads = [] ∧ y.2.2 = x.2.2 := by
  rcases sameReads_step hstep with ⟨k, data, rfl⟩ | ⟨hsame, hlog⟩
  · simp [step, h] at hstep
  · exact ⟨hsame.reads.trans h, congrArg Prod.snd hlog⟩

theorem silent_exec {x y : TcpClient β γ × (σ × List (Call β))} {es : List (Event γ)}
    (h : x.1.reads = []) (hexec : exec (step H.logged) x es = some y) : y.2.2 = x.2.2 := by
  induction es generalizing x with
  | nil =>
      cases hexec
      rfl
  | cons e es ih =>
      obtain ⟨z, hz, hrest⟩ := Option.bind_eq_some_iff.mp hexec
      obtain ⟨hreads, hlog⟩ := silent_step h hz
      rw [ih hreads hrest, hlog]

/-- **The read loop.**  Whatever the callbacks do and the network delivers, in every
    run of a connected client at most one read is outstanding, every `OnBody` is
    called right after the `OnHeader` of its frame, with its header and its buffers,
    and after a failed read or a true result without buffers no callback is called. -/
theorem read_loop (H : Handlers σ β) (headerLength : Nat) (s₀ : σ) (es : List (Event γ))
    {t : TcpClient β γ} {s : σ}
    (hexec : exec (step H) (connected headerLength, s₀) es = some (t, s)) :
    ∃ log, exec (step H.logged) (connected headerLength, (s₀, [])) es = some (t, (s, log)) ∧
      t.reads.length ≤ 1 ∧ Paired log ∧
      ∀ es₁ e es₂ x y, es = es₁ ++ e :: es₂ →
        exec (step H.logged) (connected headerLength, (s₀, [])) es₁ = some x →
        StopsReading H (unlogged x) e → step H.logged x e = some y → log = y.2.2 := by
  obtain ⟨⟨t', s', log⟩, hlogged, hunlogged⟩ := Option.map_eq_some_iff.mp
    ((exec_logged H (connected headerLength, (s₀, [])) es).trans hexec)
  cases hunlogged
  have hinv : ∀ (es : List (Event γ)) z,
      exec (step H.logged) (connected headerLength, (s₀, [])) es = some z → LoopInv z := by
    intro es z hz
    have hrun : Run (step H.logged) Free (connected headerLength, (s₀, [])) es z :=
      run_of_exec (fun _ _ _ => trivial) hz
    exact hrun.invariant (fun _ _ _ h _ hstep => loopInv_step h hstep)
      (loopInv_connected headerLength s₀)
  have h := hinv es _ hlogged
  refine ⟨log, hlogged, ?_, h.paired, ?_⟩
  · rcases h.reads with hreads | hreads | ⟨hreads, -⟩
    · exact (congrArg List.length hreads).trans_le (Nat.zero_le 1)
    · exact (congrArg List.length hreads).le
    · exact (congrArg List.length hreads).le
  · rintro es₁ e es₂ x y rfl hx hstops hy
    rw [exec_append, hx, Option.bind_some, exec, hy, Option.bind_some] at hlogged
    exact silent_exec (reads_of_stopsReading (hinv es₁ x hx) hstops hy) hlogged

/-- Callbacks that ask for one buffer after every header. -/
def oneBuffer : Handlers Unit Unit where
  bufferSize := fun _ => 1
  onHeader := fun s header => (s, header, true, [()])
  receive := fun s _ _ => s
  onBody := fun s _ _ => s

/-- A header, its body, and an error while the next header is read. -/
theorem read_loop_one_frame :
    ∃ (t : TcpClient Unit Nat) (log : List (Call Unit)),
      exec (step oneBuffer.logged) (connected 1, ((), []))
        [.readDone 0 (some [7]), .readDone 0 (some [8]), .readDone 0 none] = some (t, ((), log)) ∧
      t.reads.length ≤ 1 ∧ Paired log := by
  have hexec : exec (step oneBuffer) ((connected 1 : TcpClient Unit Nat), ())
      [.readDone 0 (some [7]), .readDone 0 (some [8]), .readDone 0 none] = some (_, ()) := rfl
  obtain ⟨log, hlogged, hreads, hpaired, -⟩ := read_loop oneBuffer 1 () _ hexec
  exact ⟨_, log, hlogged, hreads, hpaired⟩

end TcpClient

end MemClient
