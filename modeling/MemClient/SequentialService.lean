import Mathlib.Tactic

/-!
# Sequential services

A deterministic service changes its state with each request and answers some of
them.  `replay` is the state that a list of requests leads to, and `answerTo` the
answer to a request that comes behind such a list.  Section 2: where each request
works on the cell of one key, the service can be cut into shards, and every
request gets the answer that the uncut service would give.
-/

namespace SequentialService

/-! ## 1. Replaying requests -/

/-- A state machine that answers some of its requests. -/
structure Service (σ Q A : Type*) where
  process : σ → Q → σ × Option A

namespace Service

variable {σ Q A : Type*} (S : Service σ Q A)

/-- The state after the requests of `log`, in order. -/
def replay (s : σ) (log : List Q) : σ := log.foldl (fun s q => (S.process s q).1) s

/-- The answer to `q` once the requests of `before` have been processed. -/
def answerTo (s : σ) (before : List Q) (q : Q) : Option A := (S.process (S.replay s before) q).2

@[simp] theorem replay_nil (s : σ) : S.replay s [] = s := rfl

@[simp] theorem replay_concat (s : σ) (log : List Q) (q : Q) :
    S.replay s (log ++ [q]) = (S.process (S.replay s log) q).1 := by
  unfold replay
  rw [List.foldl_append]
  rfl

end Service

/-! ## 2. Services on cells -/

/-- A service whose requests each read and write the cell of their key. -/
structure KeyedService (K V Q A : Type*) where
  key : Q → K
  cell : Q → V → V × Option A

namespace KeyedService

variable {K V Q A : Type*} [DecidableEq K] (T : KeyedService K V Q A)

def service : Service (K → V) Q A where
  process := fun s q =>
    (Function.update s (T.key q) (T.cell q (s (T.key q))).1, (T.cell q (s (T.key q))).2)

/-- The cell that a list of requests on its key leads to. -/
def cellAfter (v : V) (log : List Q) : V := log.foldl (fun v q => (T.cell q v).1) v

/-- A cell has seen the requests on its key, and no others. -/
theorem replay_apply (s : K → V) (log : List Q) (k : K) :
    T.service.replay s log k = T.cellAfter (s k) (log.filter fun q => T.key q = k) := by
  induction log generalizing s with
  | nil => rfl
  | cons q log ih =>
      have hstep : T.service.replay s (q :: log) =
          T.service.replay (T.service.process s q).1 log := rfl
      rw [hstep, ih]
      by_cases hkey : T.key q = k
      · subst hkey
        have hcell : (T.service.process s q).1 (T.key q) = (T.cell q (s (T.key q))).1 :=
          Function.update_self _ _ _
        rw [hcell, List.filter_cons_of_pos (by simp)]
        rfl
      · have hcell : (T.service.process s q).1 k = s k :=
          Function.update_of_ne (fun heq => hkey heq.symm) _ _
        rw [hcell, List.filter_cons_of_neg (by simpa using hkey)]

/-- An answer depends on the cell of the request's key and on the requests on it. -/
theorem answerTo_congr {s t : K → V} {log log' : List Q} {q : Q}
    (hcell : s (T.key q) = t (T.key q))
    (hlog : (log.filter fun q' => T.key q' = T.key q) =
      log'.filter fun q' => T.key q' = T.key q) :
    T.service.answerTo s log q = T.service.answerTo t log' q := by
  have hstate : T.service.replay s log (T.key q) = T.service.replay t log' (T.key q) := by
    rw [replay_apply, replay_apply, hcell, hlog]
  have hanswer (u : K → V) : (T.service.process u q).2 = (T.cell q (u (T.key q))).2 := rfl
  unfold Service.answerTo
  rw [hanswer, hanswer, hstate]

end KeyedService

end SequentialService
