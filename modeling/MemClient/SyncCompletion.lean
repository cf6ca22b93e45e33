import MemClient.EventRun
import MemClient.MemResult

/-!
# Synchronous completion

`MemResult::Finish` and `MemResult::Notify` (`memcachedClient/MemResult.cpp`) as
processes over the mutex, the condition variable and the error code of one
result: one `Notify`, any number of `Finish`.  `Finish` waits without looking at
the error code, so it depends on when it starts to wait and on what wakes it.
Section 3: the runs in which it works.
-/

namespace MemClient

open ByteCodec EventRun

/-! ## 1. State and events -/

/-- Who holds the mutex. -/
inductive Holder where
  | notify
  | finish (k : Nat)
deriving DecidableEq, Repr

/-- `Notify` before its lock, with the lock, with the error code set, with everybody
    woken, and after it. -/
inductive NotifyPhase where
  | called
  | locked
  | stored
  | notified
  | done
deriving DecidableEq, Repr

/-- `Finish` before its lock, with the lock, blocked in `wait`, woken, with the lock
    again, and after it. -/
inductive FinishPhase where
  | called
  | locked
  | waiting
  | woken
  | resumed
  | returned (err : ERequestStatus)
deriving DecidableEq, Repr

structure SyncCompletion where
  result : MemResult
  mSyncMut : Option Holder
  notifier : NotifyPhase
  finishers : List FinishPhase

namespace FinishPhase

/-- `notify_all`, for one process. -/
def wake : FinishPhase → FinishPhase
  | .waiting => .woken
  | phase => phase

end FinishPhase

namespace SyncCompletion

/-- A result that no `Finish` was called on. -/
def start (result : MemResult) : SyncCompletion where
  result := result
  mSyncMut := none
  notifier := .called
  finishers := []

/-- `wake` is a spurious wake-up. -/
inductive Event where
  | call
  | finish (k : Nat)
  | wake (k : Nat)
  | notify
deriving DecidableEq, Repr

/-- The `k`-th `Finish` goes to a phase, and the mutex to `holder`. -/
def move (s : SyncCompletion) (k : Nat) (phase : FinishPhase) (holder : Option Holder) :
    SyncCompletion :=
  { s with mSyncMut := holder, finishers := s.finishers.set k phase }

def finish (s : SyncCompletion) (k : Nat) : Option SyncCompletion :=
  match s.finishers[k]? with
  | some .called => if s.mSyncMut = none then some (s.move k .locked (some (.finish k))) else none
  | some .locked => some (s.move k .waiting none)
  | some .woken => if s.mSyncMut = none then some (s.move k .resumed (some (.finish k))) else none
  | some .resumed => some (s.move k (.returned s.result.mErrorCode) none)
  | _ => none

def notify (err : ERequestStatus) (s : SyncCompletion) : Option SyncCompletion :=
  match s.notifier with
  | .called =>
      if s.mSyncMut = none then some { s with mSyncMut := some .notify, notifier := .locked }
      else none
  | .locked => some { s with result := s.result.notify err, notifier := .stored }
  | .stored =>
      some { s with finishers := s.finishers.map FinishPhase.wake, notifier := .notified }
  | .notified => some { s with mSyncMut := none, notifier := .done }
  | .done => none

def step (err : ERequestStatus) (s : SyncCompletion) : Event → Option SyncCompletion
  | .call => some { s with finishers := s.finishers ++ [.called] }
  | .finish k => s.finish k
  | .wake k => if s.finishers[k]? = some .waiting then some (s.move k .woken s.mSyncMut) else none
  | .notify => s.notify err

/-! ## 2. The mutex -/

/-- Whoever is past its lock holds the mutex, and the error code is the one that
    `Notify` has or has not set. -/
structure Disciplined (err : ERequestStatus) (s : SyncCompletion) : Prop where
  notifier : s.notifier ∈ [.locked, .stored, .notified] → s.mSyncMut = some .notify
  finisher : ∀ k phase, s.finishers[k]? = some phase → phase ∈ [.locked, .resumed] →
    s.mSyncMut = some (.finish k)
  value : s.result.mErrorCode =
    if s.notifier ∈ [.called, .locked] then ERequest_PENDING else err
  awake : s.notifier = .notified → .waiting ∉ s.finishers

variable {err : ERequestStatus} {s s' : SyncCompletion}

theorem disciplined_start (key : Bytes) (buffer : Option SharedBuffer) (cls : ResultClass) :
    Disciplined err (start (.new key buffer cls)) where
  notifier := by simp [start]
  finisher := by simp [start]
  value := rfl
  awake := by simp [start]

/-- While a `Finish` has the mutex, `Notify` is before its lock or over. -/
theorem Disciplined.not_notifying (h : Disciplined err s) {k : Nat}
    (howner : s.mSyncMut = some (.finish k)) : s.notifier ∉ [.locked, .stored, .notified] := by
  intro hmem
  have hnotify := h.notifier hmem
  rw [howner] at hnotify
  cases hnotify

/-- A `Finish` takes the free mutex for its call or after its wait, or gives it
    back to wait or to return. -/
theorem finish_cases {k : Nat} (hstep : s.finish k = some s') :
    (s.mSyncMut = none ∧
        (s.finishers[k]? = some .called ∧ s' = s.move k .locked (some (.finish k)) ∨
          s.finishers[k]? = some .woken ∧ s' = s.move k .resumed (some (.finish k)))) ∨
      (s.finishers[k]? = some .locked ∧ s' = s.move k .waiting none) ∨
      (s.finishers[k]? = some .resumed ∧
        s' = s.move k (.returned s.result.mErrorCode) none) := by
  unfold finish at hstep
  split at hstep
  · next hget =>
      split at hstep
      · next hnone => exact Or.inl ⟨hnone, Or.inl ⟨hget, (Option.some.inj hstep).symm⟩⟩
      · cases hstep
  · next hget => exact Or.inr (Or.inl ⟨hget, (Option.some.inj hstep).symm⟩)
  · next hget =>
      split at hstep
      · next hnone => exact Or.inl ⟨hnone, Or.inr ⟨hget, (Option.some.inj hstep).symm⟩⟩
      · cases hstep
  · next hget => exact Or.inr (Or.inr ⟨hget, (Option.some.inj hstep).symm⟩)
  · cases hstep

/-- A move of one `Finish` that takes, keeps or gives back the mutex. -/
theorem Disciplined.move (h : Disciplined err s) {k : Nat} {phase : FinishPhase}
    {holder : Option Holder}
    (hnotifier : s.notifier ∈ [.locked, .stored, .notified] → holder = some .notify)
    (hothers : ∀ j phase, s.finishers[j]? = some phase → phase ∈ [.locked, .resumed] → j ≠ k →
      holder = some (.finish j))
    (hself : phase ∈ [.locked, .resumed] → holder = some (.finish k))
    (hawake : phase = .waiting → s.notifier ≠ .notified) :
    Disciplined err (s.move k phase holder) where
  notifier := hnotifier
  finisher := by
    intro j other hget hother
    have hget : (s.finishers.set k phase)[j]? = some other := hget
    by_cases hj : j = k
    · subst hj
      rw [List.getElem?_set_self'] at hget
      obtain ⟨_, _, rfl⟩ := Option.map_eq_some_iff.mp hget
      exact hself hother
    · rw [List.getElem?_set_ne (Ne.symm hj)] at hget
      exact hothers j other hget hother hj
  value := h.value
  awake := by
    intro hnotified hmem
    rcases List.mem_or_eq_of_mem_set hmem with hold | hnew
    · exact h.awake hnotified hold
    · exact hawake hnew.symm hnotified

theorem disciplined_finish (h : Disciplined err s) {k : Nat} (hstep : s.finish k = some s') :
    Disciplined err s' := by
  -- whoever holds the mutex is the process that moves, or nobody
  have hfree : ∀ phase holder, s.mSyncMut = none →
      (phase ∈ [.locked, .resumed] → holder = some (.finish k)) →
      (phase = .waiting → s.notifier ≠ .notified) → Disciplined err (s.move k phase holder) := by
    intro phase holder hnone hself hawake
    refine h.move ?_ ?_ hself hawake
    · intro hmem
      have howner := h.notifier hmem
      rw [hnone] at howner
      cases howner
    · intro j other hget hmem
      have howner := h.finisher j other hget hmem
      rw [hnone] at howner
      cases howner
  have hheld : ∀ phase holder, s.mSyncMut = some (.finish k) → phase ∉ [.locked, .resumed] →
      Disciplined err (s.move k phase holder) := by
    intro phase holder howner hphase
    have hno := h.not_notifying howner
    refine h.move (fun hmem => absurd hmem hno) ?_ (fun hmem => absurd hmem hphase) ?_
    · intro j other hget hmem hj
      have hother := h.finisher j other hget hmem
      rw [howner] at hother
      cases hother
      exact absurd rfl hj
    · rintro - hnotified
      exact hno (by simp [hnotified])
  rcases finish_cases hstep with ⟨hnone, ⟨-, rfl⟩ | ⟨-, rfl⟩⟩ | ⟨hget, rfl⟩ | ⟨hget, rfl⟩
  · exact hfree _ _ hnone (fun _ => rfl) (by simp)
  · exact hfree _ _ hnone (fun _ => rfl) (by simp)
  · exact hheld _ _ (h.finisher k _ hget (by simp)) (by simp)
  · exact hheld _ _ (h.finisher k _ hget (by simp)) (by simp)

theorem wake_ne_waiting (phase : FinishPhase) : phase.wake ≠ .waiting := by
  cases phase <;> simp [FinishPhase.wake]

theorem wake_eq_of_holds {phase phase' : FinishPhase} (hphase : phase' ∈ [.locked, .resumed])
    (h : phase.wake = phase') : phase = phase' := by
  subst h
  cases phase <;> simp_all [FinishPhase.wake]

theorem disciplined_notify (h : Disciplined err s) (hstep : s.notify err = some s') :
    Disciplined err s' := by
  obtain ⟨hnotifier, hfinisher, hvalue, hawake⟩ := h
  unfold notify at hstep
  split at hstep
  · next hphase =>
      split at hstep
      · next hnone =>
          cases hstep
          refine ⟨fun _ => rfl, ?_, by simpa [hphase] using hvalue, by simp⟩
          intro k phase hget hmem
          have howner := hfinisher k phase hget hmem
          rw [hnone] at howner
          cases howner
      · cases hstep
  · next hphase =>
      cases hstep
      exact ⟨fun _ => hnotifier (by simp [hphase]), hfinisher, by simp [MemResult.notify], by simp⟩
  · next hphase =>
      cases hstep
      have howner := hnotifier (by simp [hphase])
      refine ⟨fun _ => howner, ?_, by simpa [hphase] using hvalue, ?_⟩
      · intro k phase hget hmem
        rw [List.getElem?_map] at hget
        obtain ⟨before, hbefore, hwake⟩ := Option.map_eq_some_iff.mp hget
        rw [wake_eq_of_holds hmem hwake] at hbefore
        exact hfinisher k phase hbefore hmem
      · rintro - hmem
        obtain ⟨before, -, hwake⟩ := List.mem_map.mp hmem
        exact wake_ne_waiting before hwake
  · next hphase =>
      cases hstep
      refine ⟨by simp, ?_, by simpa [hphase] using hvalue, by simp⟩
      intro k phase hget hmem
      have howner := hfinisher k phase hget hmem
      rw [hnotifier (by simp [hphase])] at howner
      cases howner
  · cases hstep

theorem disciplined_step (h : Disciplined err s) {e : Event} (hstep : step err s e = some s') :
    Disciplined err s' := by
  cases e with
  | call =>
      cases hstep
      refine ⟨h.notifier, ?_, h.value, ?_⟩
      · intro k phase hget hmem
        rw [List.getElem?_append] at hget
        split at hget
        · exact h.finisher k phase hget hmem
        · obtain rfl := List.mem_singleton.mp (List.mem_of_getElem? hget)
          simp at hmem
      · intro hnotified hmem
        rcases List.mem_append.mp hmem with hold | hnew
        · exact h.awake hnotified hold
        · simp at hnew
  | finish k => exact disciplined_finish h hstep
  | wake k =>
      simp only [step] at hstep
      split at hstep
      · cases hstep
        exact h.move h.notifier (fun j phase hget hmem _ => h.finisher j phase hget hmem)
          (by simp) (by simp)
      · cases hstep
  | notify => exact disciplined_notify h hstep

/-! ## 3. No lost wake-up -/

/-- Nobody is left blocked when `Notify` is over, and everybody returned its code. -/
structure Completed (err : ERequestStatus) (s : SyncCompletion) : Prop where
  awake : s.notifier = .done → .waiting ∉ s.finishers
  value : ∀ e, .returned e ∈ s.finishers → e = err ∧ e ≠ ERequest_PENDING

/-- No `Finish` goes to wait after `Notify`, and none returns before it. -/
def InTime (err : ERequestStatus) (s : SyncCompletion) : Event → Prop
  | .finish k =>
      (s.finishers[k]? = some .locked → s.notifier ≠ .done) ∧
        (s.finishers[k]? = some .resumed → s.notifier = .done ∧ err ≠ ERequest_PENDING)
  | _ => True

theorem completed_start (result : MemResult) : Completed err (start result) where
  awake := by simp [start]
  value := by simp [start]

/-- What a move has to meet; the other processes stay as they are. -/
theorem completed_move_iff (h : Completed err s) {k : Nat} {before : FinishPhase}
    (hget : s.finishers[k]? = some before) (phase : FinishPhase) (holder : Option Holder) :
    Completed err (s.move k phase holder) ↔
      (phase = .waiting → s.notifier ≠ .done) ∧
        ∀ e, phase = .returned e → e = err ∧ e ≠ ERequest_PENDING := by
  obtain ⟨hk, -⟩ := List.getElem?_eq_some_iff.mp hget
  have hself : phase ∈ s.finishers.set k phase := List.mem_set hk phase
  constructor
  · intro hmoved
    refine ⟨?_, ?_⟩
    · rintro rfl hdone
      exact hmoved.awake hdone hself
    · rintro e rfl
      exact hmoved.value e hself
  · rintro ⟨hwaiting, hreturned⟩
    constructor
    · intro hdone hmem
      rcases List.mem_or_eq_of_mem_set hmem with hold | hnew
      · exact h.awake hdone hold
      · exact hwaiting hnew.symm hdone
    · intro e hmem
      rcases List.mem_or_eq_of_mem_set hmem with hold | hnew
      · exact h.value e hold
      · exact hreturned e hnew.symm

theorem completed_finish_iff (hd : Disciplined err s) (h : Completed err s) {k : Nat}
    (hstep : s.finish k = some s') : InTime err s (.finish k) ↔ Completed err s' := by
  rcases finish_cases hstep with ⟨-, ⟨hget, rfl⟩ | ⟨hget, rfl⟩⟩ | ⟨hget, rfl⟩ | ⟨hget, rfl⟩
  · rw [completed_move_iff h hget]
    simp [InTime, hget]
  · rw [completed_move_iff h hget]
    simp [InTime, hget]
  · rw [completed_move_iff h hget]
    simp [InTime, hget]
  · rw [completed_move_iff h hget]
    have hno := hd.not_notifying (hd.finisher k _ hget (by simp))
    have hvalue := hd.value
    cases hphase : s.notifier with
    | called =>
        simp only [hphase, List.mem_cons, true_or, if_true] at hvalue
        simp [InTime, hget, hphase, hvalue]
    | done =>
        have hvalue : s.result.mErrorCode = err := by simpa [hphase] using hvalue
        simp [InTime, hget, hphase, hvalue]
    | locked => exact absurd (by simp [hphase]) hno
    | stored => exact absurd (by simp [hphase]) hno
    | notified => exact absurd (by simp [hphase]) hno

theorem completed_notify (hd : Disciplined err s) (h : Completed err s)
    (hstep : s.notify err = some s') : Completed err s' := by
  unfold notify at hstep
  split at hstep
  · split at hstep
    · cases hstep
      exact ⟨by simp, h.value⟩
    · cases hstep
  · cases hstep
    exact ⟨by simp, h.value⟩
  · cases hstep
    refine ⟨by simp, ?_⟩
    intro e hmem
    obtain ⟨before, hbefore, hwake⟩ := List.mem_map.mp hmem
    obtain rfl : before = .returned e := by
      cases before <;> simp_all [FinishPhase.wake]
    exact h.value e hbefore
  · next hphase =>
      cases hstep
      exact ⟨fun _ => hd.awake hphase, h.value⟩
  · cases hstep

theorem completed_step_iff (hd : Disciplined err s) (h : Completed err s) {e : Event}
    (hstep : step err s e = some s') : InTime err s e ↔ Completed err s' := by
  cases e with
  | call =>
      cases hstep
      refine iff_of_true trivial ⟨?_, ?_⟩
      · intro hdone hmem
        rcases List.mem_append.mp hmem with hold | hnew
        · exact h.awake hdone hold
        · simp at hnew
      · intro e hmem
        rcases List.mem_append.mp hmem with hold | hnew
        · exact h.value e hold
        · simp at hnew
  | finish k => exact completed_finish_iff hd h hstep
  | wake k =>
      simp only [step] at hstep
      split at hstep
      · next hget =>
          cases hstep
          rw [completed_move_iff h hget]
          simp [InTime]
      · cases hstep
  | notify => exact iff_of_true trivial (completed_notify hd h hstep)

/-- **No lost wake-up.**  A run of one `Notify(err)` and any number of `Finish` goes
    through good states only exactly when every `Finish` waits before `Notify` and
    returns after it, with a code that is not the pending one. -/
theorem completed_iff (key : Bytes) (buffer : Option SharedBuffer) (cls : ResultClass)
    (err : ERequestStatus) (es : List Event) {s : SyncCompletion}
    (hexec : exec (step err) (start (.new key buffer cls)) es = some s) :
    Run (step err) (InTime err) (start (.new key buffer cls)) es s ↔
      ∀ fs m, fs <+: es → exec (step err) (start (.new key buffer cls)) fs = some m →
        Completed err m :=
  run_iff_throughout (fun _ _ _ hd hstep => disciplined_step hd hstep)
    (fun _ _ _ hd h hstep => completed_step_iff hd h hstep)
    (disciplined_start key buffer cls) (completed_start _) hexec

/-- One `Finish` waits, is woken by `Notify`, and returns its code. -/
theorem completed_iff_waiting :
    ∃ s, exec (step ERequest_SUCCESS) (start (.new [] none .mem))
        [.call, .finish 0, .finish 0, .notify, .notify, .notify, .notify, .finish 0, .finish 0] =
          some s ∧
      ∀ fs m, fs <+: [.call, .finish 0, .finish 0, .notify, .notify, .notify, .notify, .finish 0,
          .finish 0] →
        exec (step ERequest_SUCCESS) (start (.new [] none .mem)) fs = some m →
        Completed ERequest_SUCCESS m := by
  refine ⟨_, rfl, (completed_iff [] none .mem ERequest_SUCCESS _ rfl).mp ?_⟩
  have hne : ERequest_SUCCESS ≠ ERequest_PENDING := by decide
  iterate 9 refine .cons (by simp [InTime, move, start, FinishPhase.wake, hne]) rfl ?_
  exact .nil _

/-- The reply arrives before `Finish` is called: it waits for ever. -/
theorem not_completed :
    ¬ ∀ (key : Bytes) (buffer : Option SharedBuffer) (cls : ResultClass) (err : ERequestStatus)
      (es : List Event) (s : SyncCompletion), err ≠ ERequest_PENDING →
      exec (step err) (start (.new key buffer cls)) es = some s → Completed err s := by
  intro hall
  have hblocked := hall [] none .mem ERequest_SUCCESS
    [.notify, .notify, .notify, .notify, .call, .finish 0, .finish 0] _ (by decide) rfl
  exact hblocked.awake rfl (by decide)

end SyncCompletion

end MemClient
