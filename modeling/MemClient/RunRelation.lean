import Mathlib.Tactic

/-!
# Two runs side by side

Two programs with a state and exceptions are related when, from two given states, they end the
same way: both with a result, or both with the same exception.  The rules follow the syntax of
`do` blocks.
-/

namespace RunRelation

universe u

variable {ε σ τ α β γ δ : Type u}

/-- From `s` and `t` both programs return, and `Q` holds of what they return and of the states
    that they leave, or both throw the same, and leave states in the relation `R`. -/
def Related (R : σ → τ → Prop) (x : EStateM ε σ α) (y : EStateM ε τ β)
    (Q : α → σ → β → τ → Prop) (s : σ) (t : τ) : Prop :=
  match x.run s, y.run t with
  | .ok a s', .ok b t' => Q a s' b t'
  | .error e s', .error e' t' => e = e' ∧ R s' t'
  | _, _ => False

section Rules

variable {R : σ → τ → Prop} {s : σ} {t : τ}

theorem related_pure {Q : α → σ → β → τ → Prop} {a : α} {b : β} (h : Q a s b t) :
    Related R (pure a : EStateM ε σ α) (pure b) Q s t := h

theorem related_throw {Q : α → σ → β → τ → Prop} {e : ε} (h : R s t) :
    Related R (throw e : EStateM ε σ α) (throw e) Q s t := ⟨rfl, h⟩

theorem related_modify {Q : PUnit → σ → PUnit → τ → Prop} {f : σ → σ} {g : τ → τ}
    (h : Q ⟨⟩ (f s) ⟨⟩ (g t)) : Related R (modify f : EStateM ε σ PUnit) (modify g) Q s t := h

/-- One program after another. -/
theorem related_bind {P : α → σ → β → τ → Prop} {Q : γ → σ → δ → τ → Prop}
    {x : EStateM ε σ α} {y : EStateM ε τ β} {f : α → EStateM ε σ γ} {g : β → EStateM ε τ δ}
    (hx : Related R x y P s t)
    (hf : ∀ a s' b t', P a s' b t' → Related R (f a) (g b) Q s' t') :
    Related R (x >>= f) (y >>= g) Q s t := by
  unfold Related at hx ⊢
  rw [EStateM.run_bind, EStateM.run_bind]
  cases hs : x.run s with
  | ok a s' =>
      cases ht : y.run t with
      | ok b t' =>
          rw [hs, ht] at hx
          exact hf a s' b t' hx
      | error e' t' =>
          rw [hs, ht] at hx
          exact absurd hx id
  | error e s' =>
      cases ht : y.run t with
      | ok b t' =>
          rw [hs, ht] at hx
          exact absurd hx id
      | error e' t' =>
          rw [hs, ht] at hx
          exact hx

/-- The same branch of both. -/
theorem related_ite {Q : α → σ → β → τ → Prop} {c : Prop} [Decidable c] {x x' : EStateM ε σ α}
    {y y' : EStateM ε τ β} (hthen : c → Related R x y Q s t)
    (helse : ¬ c → Related R x' y' Q s t) :
    Related R (if c then x else x') (if c then y else y') Q s t := by
  by_cases hc : c
  · rw [if_pos hc, if_pos hc]
    exact hthen hc
  · rw [if_neg hc, if_neg hc]
    exact helse hc

section First

variable {Q : γ → σ → δ → τ → Prop}

theorem related_get {f : σ → EStateM ε σ γ} {g : τ → EStateM ε τ δ}
    (h : Related R (f s) (g t) Q s t) : Related R (get >>= f) (get >>= g) Q s t := h

theorem related_set {s' : σ} {t' : τ} {f : PUnit → EStateM ε σ γ} {g : PUnit → EStateM ε τ δ}
    (h : Related R (f ⟨⟩) (g ⟨⟩) Q s' t') :
    Related R (set s' >>= f) (set t' >>= g) Q s t := h

theorem related_modify_bind {f' : σ → σ} {g' : τ → τ} {f : PUnit → EStateM ε σ γ}
    {g : PUnit → EStateM ε τ δ} (h : Related R (f ⟨⟩) (g ⟨⟩) Q (f' s) (g' t)) :
    Related R (modify f' >>= f) (modify g' >>= g) Q s t := h

theorem related_throw_bind {e : ε} {f : α → EStateM ε σ γ} {g : β → EStateM ε τ δ} (h : R s t) :
    Related R (throw e >>= f) (throw e >>= g) Q s t := ⟨rfl, h⟩

end First

end Rules

end RunRelation
