import Mathlib.Tactic

/-!
# Runs of an event-driven system

A system is a partial step function: `step s e` is the state after event `e`,
or `none` when `e` cannot happen in `s`.  All choice (which handler runs next,
what the network delivers) is in the events, so a run is a list of events.
`Run step guard` is the runs whose every step meets `guard`; the invariant rule
`Run.invariant` turns a step lemma into a statement about whole runs,
`Run.simulates` into a run of a more abstract system, and `Run.ranked` also
bounds their length.
-/

namespace EventRun

variable {σ ε : Type*}

def exec (step : σ → ε → Option σ) : σ → List ε → Option σ
  | s, [] => some s
  | s, e :: es => (step s e).bind fun s' => exec step s' es

/-- A step that runs a fallible operation happens when the operation succeeds. -/
theorem toOption_eq_some_iff {α : Type*} {x : Except ε α} {a : α} :
    x.toOption = some a ↔ x = .ok a := by
  cases x with
  | error fault => simp [Except.toOption]
  | ok b => simp [Except.toOption]

theorem exec_append (step : σ → ε → Option σ) (s : σ) (es fs : List ε) :
    exec step s (es ++ fs) = (exec step s es).bind fun t => exec step t fs := by
  induction es generalizing s with
  | nil => rfl
  | cons e es ih =>
      simp only [List.cons_append, exec]
      cases step s e with
      | none => rfl
      | some s' => exact ih s'

/-- A run from one state to another whose every step meets `guard`. -/
inductive Run (step : σ → ε → Option σ) (guard : σ → ε → Prop) : σ → List ε → σ → Prop
  | nil (s : σ) : Run step guard s [] s
  | cons {s s' t : σ} {e : ε} {es : List ε} (hguard : guard s e) (hstep : step s e = some s')
      (rest : Run step guard s' es t) : Run step guard s (e :: es) t

/-- The guard every step meets. -/
def Free (_ : σ) (_ : ε) : Prop := True

variable {step : σ → ε → Option σ} {guard : σ → ε → Prop}

/-- The invariant rule. -/
theorem Run.invariant {I : σ → Prop}
    (hstep : ∀ s e s', I s → guard s e → step s e = some s' → I s')
    {s t : σ} {es : List ε} (hrun : Run step guard s es t) (hs : I s) : I t := by
  induction hrun with
  | nil s => exact hs
  | cons hguard h rest ih => exact ih (hstep _ _ _ hs hguard h)

theorem Run.mono {guard' : σ → ε → Prop} (hsub : ∀ s e, guard s e → guard' s e)
    {s t : σ} {es : List ε} (hrun : Run step guard s es t) : Run step guard' s es t := by
  induction hrun with
  | nil s => exact .nil s
  | cons hguard h rest ih => exact .cons (hsub _ _ hguard) h ih

/-- Two guards that agree on the states of an invariant allow the same runs. -/
theorem run_congr {guard' : σ → ε → Prop} {I : σ → Prop}
    (hstep : ∀ s e s', I s → guard s e → step s e = some s' → I s')
    (hiff : ∀ s e, I s → (guard s e ↔ guard' s e)) {s t : σ} {es : List ε} (hs : I s) :
    Run step guard s es t ↔ Run step guard' s es t := by
  constructor
  · intro hrun
    induction hrun with
    | nil s => exact .nil s
    | cons hguard h rest ih =>
        exact .cons ((hiff _ _ hs).mp hguard) h (ih (hstep _ _ _ hs hguard h))
  · intro hrun
    induction hrun with
    | nil s => exact .nil s
    | cons hguard h rest ih =>
        have hguard := (hiff _ _ hs).mpr hguard
        exact .cons hguard h (ih (hstep _ _ _ hs hguard h))

theorem Run.append {s m t : σ} {es fs : List ε} (h : Run step guard s es m)
    (h' : Run step guard m fs t) : Run step guard s (es ++ fs) t := by
  induction h with
  | nil s => exact h'
  | cons hguard hstep rest ih => exact .cons hguard hstep (ih h')

theorem Run.exec_eq {s t : σ} {es : List ε} (h : Run step guard s es t) :
    exec step s es = some t := by
  induction h with
  | nil s => rfl
  | cons hguard hstep rest ih => simp [exec, hstep, ih]

theorem run_of_exec {s t : σ} {es : List ε} (hguard : ∀ e ∈ es, ∀ s, guard s e)
    (h : exec step s es = some t) : Run step guard s es t := by
  induction es generalizing s with
  | nil =>
      cases h
      exact .nil _
  | cons e es ih =>
      obtain ⟨m, hm, hrest⟩ := Option.bind_eq_some_iff.mp h
      exact .cons (hguard e (by simp) s) hm (ih (fun e' he' => hguard e' (by simp [he'])) hrest)

/-- Execution that checks the guard before each step. -/
def execGuarded (step : σ → ε → Option σ) (guard : σ → ε → Prop)
    [∀ s e, Decidable (guard s e)] : σ → List ε → Option σ
  | s, [] => some s
  | s, e :: es =>
      if guard s e then (step s e).bind fun s' => execGuarded step guard s' es else none

theorem run_of_execGuarded [∀ s e, Decidable (guard s e)] {s t : σ} {es : List ε}
    (h : execGuarded step guard s es = some t) : Run step guard s es t := by
  induction es generalizing s with
  | nil =>
      cases h
      exact .nil _
  | cons e es ih =>
      unfold execGuarded at h
      split at h
      · next hguard =>
          obtain ⟨m, hm, hrest⟩ := Option.bind_eq_some_iff.mp h
          exact .cons hguard hm (ih hrest)
      · cases h

/-- When a step reaches a good state exactly when it meets the guard, so does a run:
    it goes through good states only exactly when every step meets the guard. -/
theorem run_iff_throughout {I G : σ → Prop}
    (hinv : ∀ s e s', I s → step s e = some s' → I s')
    (hstep : ∀ s e s', I s → G s → step s e = some s' → (guard s e ↔ G s'))
    {s t : σ} {es : List ε} (hI : I s) (hG : G s) (hexec : exec step s es = some t) :
    Run step guard s es t ↔ ∀ fs m, fs <+: es → exec step s fs = some m → G m := by
  induction es generalizing s with
  | nil =>
      cases hexec
      refine ⟨?_, fun _ => .nil _⟩
      intro _ fs m hprefix hm
      obtain rfl := List.prefix_nil.mp hprefix
      cases hm
      exact hG
  | cons e es ih =>
      obtain ⟨s', hs', hrest⟩ := Option.bind_eq_some_iff.mp hexec
      constructor
      · intro hrun fs m hprefix hm
        cases hrun with
        | cons hguard hs'' rest =>
            rw [hs'] at hs''
            cases hs''
            have hG' := (hstep s e s' hI hG hs').mp hguard
            cases fs with
            | nil =>
                cases hm
                exact hG
            | cons f fs =>
                obtain ⟨rfl, htail⟩ := List.cons_prefix_cons.mp hprefix
                have hm : exec step s' fs = some m := by simpa [exec, hs'] using hm
                exact (ih (hinv s f s' hI hs') hG' hrest).mp rest fs m htail hm
      · intro hall
        have hG' : G s' := hall [e] s' (List.cons_prefix_cons.mpr ⟨rfl, List.nil_prefix⟩)
          (by simp [exec, hs'])
        refine .cons ((hstep s e s' hI hG hs').mpr hG') hs'
          ((ih (hinv s e s' hI hs') hG' hrest).mpr ?_)
        intro fs m hprefix hm
        exact hall (e :: fs) m (List.cons_prefix_cons.mpr ⟨rfl, hprefix⟩) (by simp [exec, hs', hm])

theorem exec_back {G : σ → Prop} (hback : ∀ s e s', step s e = some s' → G s' → G s)
    {s t : σ} {es : List ε} (hexec : exec step s es = some t) (hG : G t) : G s := by
  induction es generalizing s with
  | nil =>
      cases hexec
      exact hG
  | cons e es ih =>
      obtain ⟨s', hs', hrest⟩ := Option.bind_eq_some_iff.mp hexec
      exact hback s e s' hs' (ih hrest)

/-- For a property that is never regained it is enough to look at the last state. -/
theorem run_iff_last {I G : σ → Prop}
    (hinv : ∀ s e s', I s → step s e = some s' → I s')
    (hstep : ∀ s e s', I s → G s → step s e = some s' → (guard s e ↔ G s'))
    (hback : ∀ s e s', step s e = some s' → G s' → G s)
    {s t : σ} {es : List ε} (hI : I s) (hG : G s) (hexec : exec step s es = some t) :
    Run step guard s es t ↔ G t := by
  rw [run_iff_throughout hinv hstep hI hG hexec]
  constructor
  · intro hall
    exact hall es t List.prefix_rfl hexec
  · rintro hlast fs m ⟨gs, rfl⟩ hm
    rw [exec_append, hm, Option.bind_some] at hexec
    exact exec_back hback hexec hlast

/-- The runs of a step relation. -/
inductive Trace {τ : Type*} (next : τ → ε → τ → Prop) : τ → List ε → τ → Prop
  | nil (t : τ) : Trace next t [] t
  | cons {t t' last : τ} {e : ε} {es : List ε} (hnext : next t e t')
      (rest : Trace next t' es last) : Trace next t (e :: es) last

/-- The simulation rule. -/
theorem Run.simulates {τ : Type*} {next : τ → ε → τ → Prop} {R : σ → τ → Prop}
    (hstep : ∀ s e s' t, R s t → guard s e → step s e = some s' → ∃ t', next t e t' ∧ R s' t')
    {s s' : σ} {es : List ε} {t : τ} (hrun : Run step guard s es s') (h : R s t) :
    ∃ t', Trace next t es t' ∧ R s' t' := by
  induction hrun generalizing t with
  | nil s => exact ⟨t, .nil t, h⟩
  | cons hguard hone rest ih =>
      obtain ⟨t', hnext, h'⟩ := hstep _ _ _ _ h hguard hone
      obtain ⟨last, hrest, hlast⟩ := ih h'
      exact ⟨last, .cons hnext hrest, hlast⟩

/-- The ranked invariant rule: `I s n` says that `n` bounds the work left in `s`,
    so a run is no longer than the rank it starts with. -/
theorem Run.ranked {I : σ → Nat → Prop}
    (hstep : ∀ s e s' n, I s n → guard s e → step s e = some s' → ∃ m, m < n ∧ I s' m)
    {s t : σ} {es : List ε} {n : Nat} (h : Run step guard s es t) (hs : I s n) :
    ∃ m, es.length + m ≤ n ∧ I t m := by
  induction h generalizing n with
  | nil s => exact ⟨n, by simp, hs⟩
  | cons hguard hstep' rest ih =>
      obtain ⟨m, hlt, hm⟩ := hstep _ _ _ _ hs hguard hstep'
      obtain ⟨k, hle, hk⟩ := ih hm
      exact ⟨k, by simp only [List.length_cons]; omega, hk⟩

end EventRun
