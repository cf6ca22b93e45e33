import MemClient.LoggerLookup

/-!
# Which records reach a sink

A sink's redirecting filter is a chain of closures: each logger that `GetLogger`
makes adds its id range and its filter to every sink it is linked with, once.
`Routed` says, for the loggers made so far, what that chain amounts to.  Loading
establishes it with no logger made, and one call of `GetLogger` keeps it, whether
the call finds the logger under the name, falls back on an ancestor's or on the
root's, and whether or not it has to make it.
-/

namespace MemClient

open ByteCodec

namespace LogManager

variable {α : Type} {m : LogManager α}

/-! ## 1. Opening one logger -/

section AddFilters

variable (sinks : List Nat) (filt1 filt2 : LogFilter α)

theorem reDirectFilter_addFilters (m : LogManager α) {t : Nat} (ht : t < m.mSinkInfoPool.length)
    (values : AttributeValues α) :
    ((m.addFilters sinks filt1 filt2).sink t).ReDirectFilter values = true ↔
      t ∈ sinks ∧ filt1 values = true ∧ filt2 values = true ∨
        (m.sink t).ReDirectFilter values = true := by
  induction sinks generalizing m with
  | nil => simp [addFilters]
  | cons s sinks ih =>
      have hrest := ih (m.modifySink s fun sink => sink.addFilter filt1 filt2)
        (length_modifySink m s _ ▸ ht)
      have hone : ((m.modifySink s fun sink => sink.addFilter filt1 filt2).sink t).ReDirectFilter
          values = true ↔ t = s ∧ filt1 values = true ∧ filt2 values = true ∨
            (m.sink t).ReDirectFilter values = true := by
        rw [sink_modifySink]
        by_cases hst : s = t
        · rw [if_pos ⟨hst, ht⟩]
          simp [SinkInfo.addFilter, hst]
        · rw [if_neg fun h => hst h.1]
          simp [Ne.symm hst]
      rw [hone] at hrest
      rw [List.mem_cons, or_and_right, or_assoc, or_left_comm]
      exact hrest

end AddFilters

/-! ## 2. What the chains amount to -/

/-- A logger is linked with a sink, and accepts a record. -/
def Routes (m : LogManager α) (p s : Nat) (values : AttributeValues α) : Prop :=
  s ∈ (m.info p).SinkInfos ∧ (m.info p).accepts values = true

/-- The managers that calls of `GetLogger` lead to, with the loggers that they
    returned. -/
structure Routed (m : LogManager α) (opened : List Nat) : Prop extends Allocated m where
  opened_lt : ∀ p ∈ opened, p < m.infos.length
  isSome_log : ∀ p, (m.info p).Log.isSome = true ↔ p ∈ opened
  redirect : ∀ s, s < m.mSinkInfoPool.length → ∀ values,
    (m.sink s).ReDirectFilter values = true ↔ ∃ p ∈ opened, Routes m p s values

theorem Loaded.routed (hload : Loaded m) : Routed m [] where
  toAllocated := hload.toAllocated
  opened_lt := fun p hp => absurd hp List.not_mem_nil
  isSome_log := fun p => by simp [hload.unopened p]
  redirect := fun s _ values => by simp [hload.silent s values]

section Calls

variable {opened : List Nat}

theorem Routed.congr (hrouted : Routed m opened) {opened' : List Nat}
    (hmem : ∀ p, p ∈ opened ↔ p ∈ opened') : Routed m opened' where
  toAllocated := hrouted.toAllocated
  opened_lt p hp := hrouted.opened_lt p ((hmem p).mpr hp)
  isSome_log p := (hrouted.isSome_log p).trans (hmem p)
  redirect s hs values := by
    rw [hrouted.redirect s hs values]
    apply exists_congr
    intro p
    rw [hmem p]

/-- An info that is not made a logger yet makes no route. -/
theorem Routed.newInfo (hrouted : Routed m opened) {info : LoggerInfo α} (hlog : info.Log = none) :
    Routed (m.newInfo info) opened := by
  refine ⟨hrouted.toAllocated.newInfo info, ?_, ?_, ?_⟩
  · intro p hp
    exact length_newInfo m info ▸ Nat.lt_succ_of_lt (hrouted.opened_lt p hp)
  · intro p
    rw [info_newInfo]
    split
    · next hp =>
      have hnew : p ∉ opened := fun hmem => Nat.ne_of_lt (hrouted.opened_lt p hmem) hp
      simp [hnew, hlog]
    · exact hrouted.isSome_log p
  · intro s hs values
    refine (hrouted.redirect s hs values).trans ?_
    apply exists_congr
    intro p
    apply and_congr_right
    intro hp
    rw [Routes, Routes, info_newInfo, if_neg (Nat.ne_of_lt (hrouted.opened_lt p hp))]

/-- Nor does making the root's. -/
theorem Routed.rootInfo (hrouted : Routed m opened) : Routed m.rootInfo.2 opened := by
  have halloc := hrouted.toAllocated.rootInfo.1
  unfold LogManager.rootInfo at halloc ⊢
  cases hroot : m.mRootInfo with
  | some p => exact hrouted
  | none =>
      rw [hroot] at halloc
      have hnew : Routed (m.newInfo {}) opened := hrouted.newInfo rfl
      exact ⟨halloc, hnew.opened_lt, hnew.isSome_log, hnew.redirect⟩

theorem Routed.rootInfo_eq (hrouted : Routed m opened) (hopened : m.rootInfo.1 ∈ opened) :
    m.rootInfo.2 = m := by
  unfold LogManager.rootInfo at hopened ⊢
  cases hroot : m.mRootInfo with
  | some p => rfl
  | none =>
      rw [hroot] at hopened
      exact absurd (hrouted.opened_lt _ hopened) (Nat.lt_irrefl _)

theorem routes_makeLogger (m : LogManager α) (p q s : Nat) (values : AttributeValues α) :
    Routes (m.makeLogger p) q s values ↔ Routes m q s values := by
  rw [Routes, makeLogger, info_modifyInfo]
  split
  · exact Iff.rfl
  · exact Iff.rfl

theorem isSome_log_makeLogger {p : Nat} (hp : p < m.infos.length) (q : Nat) :
    ((m.makeLogger p).info q).Log.isSome = true ↔ (m.info q).Log.isSome = true ∨ q = p := by
  rw [makeLogger, info_modifyInfo]
  by_cases hpq : p = q
  · subst hpq
    simp [hp]
  · simp [hpq, Ne.symm hpq]

theorem info_openLogger (m : LogManager α) (p q : Nat) :
    (m.openLogger p).info q = (m.makeLogger p).info q := by
  unfold LogManager.info LogManager.openLogger
  rw [(addFilters_frame (m.info p).SinkInfos (isInRange (m.info p).Id (m.info p).nextId)
    (m.info p).Filter (m.makeLogger p)).1]

theorem routes_openLogger (m : LogManager α) (p q s : Nat) (values : AttributeValues α) :
    Routes (m.openLogger p) q s values ↔ Routes m q s values := by
  rw [Routes, info_openLogger]
  exact routes_makeLogger m p q s values

/-- A logger that was not made yet adds its route to its sinks. -/
theorem Routed.openLogger (hrouted : Routed m opened) {p : Nat} (hp : p < m.infos.length) :
    Routed (m.openLogger p) (opened ++ [p]) := by
  obtain ⟨hcount, -, -, -, hlength⟩ := openLogger_frame m p
  refine ⟨hrouted.toAllocated.openLogger p, ?_, ?_, ?_⟩
  · intro q hq
    rw [hcount]
    rcases List.mem_append.mp hq with hq | hq
    · exact hrouted.opened_lt q hq
    · exact List.mem_singleton.mp hq ▸ hp
  · intro q
    rw [info_openLogger, isSome_log_makeLogger hp, hrouted.isSome_log, List.mem_append,
      List.mem_singleton]
  · intro s hs values
    have hs' : s < m.mSinkInfoPool.length := hlength ▸ hs
    have hchain := reDirectFilter_addFilters (m.info p).SinkInfos
      (isInRange (m.info p).Id (m.info p).nextId) (m.info p).Filter (m.makeLogger p) hs' values
    have hself : s ∈ (m.info p).SinkInfos ∧
        isInRange (m.info p).Id (m.info p).nextId values = true ∧ (m.info p).Filter values = true ↔
          Routes m p s values := by
      rw [Routes, LoggerInfo.accepts, Bool.and_eq_true]
    rw [hself] at hchain
    refine hchain.trans ?_
    rw [show ((m.makeLogger p).sink s).ReDirectFilter values = (m.sink s).ReDirectFilter values
      from rfl, hrouted.redirect s hs' values]
    constructor
    · rintro (hroute | ⟨q, hq, hroute⟩)
      · exact ⟨p, List.mem_append_right _ (List.mem_singleton_self p),
          (routes_openLogger m p p s values).mpr hroute⟩
      · exact ⟨q, List.mem_append_left _ hq, (routes_openLogger m p q s values).mpr hroute⟩
    · rintro ⟨q, hq, hroute⟩
      rw [routes_openLogger] at hroute
      rcases List.mem_append.mp hq with hq | hq
      · exact Or.inr ⟨q, hq, hroute⟩
      · exact Or.inl (List.mem_singleton.mp hq ▸ hroute)

/-! ## 3. Calls -/

/-- What a lookup finds is an allocated info, and a lookup that finds a logger
    already returned leaves the manager as it is. -/
theorem Routed.getLoggerInfo (hrouted : Routed m opened) {fuel : Nat} {name : Bytes} {p : Nat}
    {m' : LogManager α} (hcall : m.getLoggerInfo fuel name = some (p, m')) :
    Routed m' opened ∧ p < m'.infos.length ∧ (p ∈ opened → m' = m) := by
  rcases getLoggerInfo_cases hcall with ⟨key, -, hkey, rfl⟩ | ⟨-, hroot⟩
  · exact ⟨hrouted, hrouted.loggers key p hkey, fun _ => rfl⟩
  · obtain ⟨rfl, rfl⟩ := Prod.mk.inj hroot
    exact ⟨hrouted.rootInfo, hrouted.toAllocated.rootInfo.2, hrouted.rootInfo_eq⟩

/-- **One call of `GetLogger`** adds the route of the logger it returns, and changes
    nothing when that logger was returned before. -/
theorem Routed.getLogger (hrouted : Routed m opened) {fuel : Nat} {name : Bytes} {p : Nat}
    {m' : LogManager α} (hcall : m.getLogger fuel name = some (p, m')) :
    Routed m' (opened ++ [p]) ∧ (p ∈ opened → m' = m) := by
  obtain ⟨⟨q, found⟩, hfound, hresult⟩ := Option.map_eq_some_iff.mp hcall
  obtain ⟨rfl, rfl⟩ := Prod.mk.inj hresult
  obtain ⟨hrouted', hlt, hsame⟩ := hrouted.getLoggerInfo hfound
  by_cases hq : q ∈ opened
  · have hlog : (found.info q).Log.isNone = false := by
      have hsome := (hrouted'.isSome_log q).mpr hq
      rw [← Option.not_isSome, hsome]
      rfl
    simp only [hlog]
    refine ⟨hrouted'.congr fun p => ?_, hsame⟩
    rw [List.mem_append, List.mem_singleton]
    exact ⟨Or.inl, fun h => h.elim id fun heq => heq ▸ hq⟩
  · have hlog : (found.info q).Log.isNone = true := by
      rw [← Option.not_isSome, Bool.not_eq_true', ← Bool.not_eq_true, hrouted'.isSome_log]
      exact hq
    simp only [hlog, if_true]
    exact ⟨hrouted'.openLogger hlt, fun hmem => absurd hmem hq⟩

theorem getLoggers_cons_iff {fuel : Nat} {name : Bytes} {names : List Bytes} {pInfos : List Nat}
    {m' : LogManager α} : m.getLoggers fuel (name :: names) = some (pInfos, m') ↔
      ∃ p m₁ ps, m.getLogger fuel name = some (p, m₁) ∧
        m₁.getLoggers fuel names = some (ps, m') ∧ pInfos = p :: ps := by
  constructor
  · intro hcalls
    obtain ⟨⟨p, m₁⟩, hcall, hrest⟩ := Option.bind_eq_some_iff.mp hcalls
    obtain ⟨⟨ps, m₂⟩, hcalls', hresult⟩ := Option.bind_eq_some_iff.mp hrest
    obtain ⟨rfl, rfl⟩ := Prod.mk.inj (Option.some.inj hresult)
    exact ⟨p, m₁, ps, hcall, hcalls', rfl⟩
  · rintro ⟨p, m₁, ps, hcall, hcalls, rfl⟩
    exact Option.bind_eq_some_iff.mpr ⟨_, hcall, Option.bind_eq_some_iff.mpr ⟨_, hcalls, rfl⟩⟩

/-- **A run of `GetLogger` calls.** -/
theorem Routed.getLoggers {fuel : Nat} : ∀ {names : List Bytes} {m m' : LogManager α}
    {opened pInfos : List Nat}, Routed m opened →
    m.getLoggers fuel names = some (pInfos, m') → Routed m' (opened ++ pInfos) := by
  intro names
  induction names with
  | nil =>
      rintro m m' opened pInfos hrouted hcalls
      obtain ⟨rfl, rfl⟩ := Prod.mk.inj (Option.some.inj hcalls)
      rwa [List.append_nil]
  | cons name names ih =>
      intro m m' opened pInfos hrouted hcalls
      obtain ⟨p, m₁, ps, hcall, hcalls', rfl⟩ := getLoggers_cons_iff.mp hcalls
      have hstep := ih (hrouted.getLogger hcall).1 hcalls'
      rwa [List.append_assoc, List.singleton_append] at hstep

end Calls

/-! ## 4. Routing -/

/-- **Which records a sink takes**, after `Initialize` on a new manager and any calls
    of `GetLogger` that return: those that pass its own filter and that one of the
    returned loggers routes to it.  A call for a logger returned before changes
    nothing. -/
theorem filtFun_iff (setup : LogSetup α) (files : List ConfigFile) (fuel : Nat)
    (names : List Bytes) {pInfos : List Nat}
    (hcalls : (after (Initialize setup files) init).getLoggers fuel names = some (pInfos, m)) :
    (∀ sinkName s, m.mSinks.lookup sinkName = some s → ∀ (x : BitVec 64) (v : α),
      (m.sink s).filtFun ⟨some x, v⟩ = true ↔
        (m.sink s).InitFilter ⟨some x, v⟩ = true ∧
          ∃ p ∈ pInfos, s ∈ (m.info p).SinkInfos ∧ (m.info p).Id ≤ x ∧ x < (m.info p).nextId ∧
            (m.info p).Filter ⟨some x, v⟩ = true) ∧
    (∀ fuel' name p m', m.getLogger fuel' name = some (p, m') → p ∈ pInfos → m' = m) := by
  have hrouted : Routed m ([] ++ pInfos) :=
    (loaded_after_Initialize setup files loaded_init).routed.getLoggers hcalls
  rw [List.nil_append] at hrouted
  constructor
  · intro sinkName s hs x v
    have hredirect := hrouted.redirect s (hrouted.sinks sinkName s hs) ⟨some x, v⟩
    unfold SinkInfo.filtFun
    rw [Bool.and_eq_true, hredirect]
    simp [Routes, LoggerInfo.accepts, isInRange, and_assoc]
  · intro fuel' name p m' hcall hp
    exact (hrouted.getLogger hcall).2 hp

theorem filtFun_iff_feeder : ∃ m : LogManager Nat,
    (after (Initialize severitySetup [.settings feederLog]) init).getLoggers 100
      [feeder ++ dot :: feedSource, feeder, feeder ++ dot :: feedSource] = some ([0, 1, 0], m) ∧
    (∀ sinkName s, m.mSinks.lookup sinkName = some s → ∀ (x : BitVec 64) (v : Nat),
      (m.sink s).filtFun ⟨some x, v⟩ = true ↔
        (m.sink s).InitFilter ⟨some x, v⟩ = true ∧
          ∃ p ∈ [0, 1, 0], s ∈ (m.info p).SinkInfos ∧ (m.info p).Id ≤ x ∧
            x < (m.info p).nextId ∧ (m.info p).Filter ⟨some x, v⟩ = true) ∧
    (∀ fuel' name p m', m.getLogger fuel' name = some (p, m') → p ∈ [0, 1, 0] → m' = m) := by
  have hreturned : ((after (Initialize severitySetup [.settings feederLog]) init).getLoggers 100
      [feeder ++ dot :: feedSource, feeder, feeder ++ dot :: feedSource]).map Prod.fst =
        some [0, 1, 0] := by decide
  obtain ⟨⟨pInfos, m⟩, hcalls, rfl⟩ := Option.map_eq_some_iff.mp hreturned
  exact ⟨m, hcalls, filtFun_iff severitySetup _ _ _ hcalls⟩

end LogManager

end MemClient
