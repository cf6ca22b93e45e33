import MemClient.PairedLoading
import MemClient.SinkRouting

/-!
# Loggers fetched before the configuration

A `GetLogger` before `Initialize` returns the root logger, and makes it, while it has no sinks
yet.  The configuration comes out the same but for the infos (`Alike`), and the calls after
it find the logger made, so that the root logger's route is never added.
-/

namespace MemClient

open ByteCodec NameHierarchy

namespace LogManager

variable {α : Type} {m n : LogManager α}

/-! ## 1. Calls that get the root logger -/

/-- The root logger is the one under its name. -/
structure RootNamed (m : LogManager α) : Prop extends Allocated m where
  named : ∀ p, m.mLoggerInfos.lookup rootName = some p → m.mRootInfo = some p

theorem loadInvariant_rootNamed : LoadInvariant (α := α) RootNamed
    (fun m strName p => p < m.infos.length ∧ (strName = rootName → m.mRootInfo = some p)) where
  nextFile h := ⟨⟨h.loggers, h.root, h.sinks⟩, h.named⟩
  insertId h _ _ _ _ := ⟨⟨h.loggers, h.root, h.sinks⟩, h.named⟩
  rootInfo := by
    intro m h
    obtain ⟨halloc, hlt⟩ := h.toAllocated.rootInfo
    refine ⟨⟨halloc, ?_⟩, hlt, fun _ => mRootInfo_rootInfo m⟩
    intro p hp
    rw [mLoggerInfos_rootInfo] at hp
    rw [mRootInfo_rootInfo, rootInfo_of_some (h.named p hp)]
  newInfo := by
    intro m strName id h hroot _
    exact ⟨⟨h.toAllocated.newInfo _, h.named⟩, length_newInfo m _ ▸ Nat.lt_succ_self _,
      fun heq => absurd heq hroot⟩
  modifyInfo h p _ _ := ⟨h.toAllocated.modifyInfo p _, h.named⟩
  modifyEntered := by
    intro m strName p henter q f _
    rw [length_modifyInfo]
    exact henter
  insertLogger := by
    intro m strName p h henter
    refine ⟨h.toAllocated.insertLogger henter.1 strName, ?_⟩
    intro q hq
    rcases lookup_insertNew_cases hq with hold | ⟨heq, rfl⟩
    · exact h.named q hold
    · exact henter.2 heq.symm
  newSink h name := ⟨h.toAllocated.newSink name, h.named⟩
  insertSink h hs name filter := ⟨h.toAllocated.insertSink hs name filter, h.named⟩

/-- The root logger is made, and no sink has a route. -/
structure RootMade (r : Nat) (m : LogManager α) : Prop where
  lt : r < m.infos.length
  root : m.mRootInfo = some r
  made : (m.info r).Log.isSome = true
  silent : ∀ s values, (m.sink s).ReDirectFilter values = false

theorem RootMade.newInfo {r : Nat} (h : RootMade r m) (info : LoggerInfo α) :
    RootMade r (m.newInfo info) where
  lt := by
    rw [length_newInfo]
    exact Nat.lt_succ_of_lt h.lt
  root := h.root
  made := by
    rw [info_newInfo, if_neg (Nat.ne_of_lt h.lt)]
    exact h.made
  silent := h.silent

/-- Loading does not make the root logger again. -/
theorem loadInvariant_rootMade (r : Nat) :
    LoadInvariant (α := α) (RootMade r) (fun _ _ _ => True) where
  nextFile h := ⟨h.lt, h.root, h.made, h.silent⟩
  insertId h _ _ _ _ := ⟨h.lt, h.root, h.made, h.silent⟩
  rootInfo := by
    intro m h
    rw [rootInfo_of_some h.root]
    exact ⟨h, trivial⟩
  newInfo h _ _ := ⟨h.newInfo _, trivial⟩
  modifyInfo := by
    intro m h p f hf
    refine ⟨?_, h.root, ?_, h.silent⟩
    · rw [length_modifyInfo]
      exact h.lt
    · rw [(hf.fields m p r).2.2]
      exact h.made
  modifyEntered _ _ _ _ := trivial
  insertLogger h _ := ⟨h.lt, h.root, h.made, h.silent⟩
  newSink := by
    intro m h name
    refine ⟨h.lt, h.root, h.made, ?_⟩
    intro s values
    rw [sink_newSink]
    split
    · rfl
    · exact h.silent s values
  insertSink := by
    intro m s h _ name filter
    refine ⟨h.lt, h.root, h.made, ?_⟩
    intro t values
    show ((m.modifySink s _).sink t).ReDirectFilter values = false
    rw [sink_modifySink]
    split
    · exact h.silent t values
    · exact h.silent t values

/-- No name of the calls has an ancestor in both maps other than the root logger's. -/
def UnderRoot (m : LogManager α) (names : List Bytes) : Prop :=
  ∀ name ∈ names, ∀ key, IsAncestor dot key name → m.InBothMaps key → key = rootName

section Calls

variable {r fuel : Nat} {name : Bytes} {names : List Bytes} {p : Nat} {ps : List Nat}
  {m' : LogManager α}

theorem UnderRoot.head (h : UnderRoot m (name :: names)) : UnderRoot m [name] := by
  intro other hother
  exact h other (List.mem_cons.mpr (Or.inl (List.mem_singleton.mp hother)))

theorem UnderRoot.tail (h : UnderRoot m (name :: names)) : UnderRoot m names :=
  fun other hother => h other (List.mem_cons_of_mem name hother)

theorem UnderRoot.congr (h : UnderRoot m names)
    (hkeys : ∀ key, n.InBothMaps key → m.InBothMaps key) : UnderRoot n names :=
  fun other hother key hkey hboth => h other hother key hkey (hkeys key hboth)

theorem getLoggerInfo_root (hnamed : RootNamed m) (hunder : UnderRoot m [name])
    (hcall : m.getLoggerInfo fuel name = some (p, m')) : (p, m') = m.rootInfo := by
  rcases getLoggerInfo_cases hcall with ⟨key, hnearest, hkey, rfl⟩ | ⟨-, hroot⟩
  · have heq := hunder name (List.mem_singleton_self name) key hnearest.ancestor
      hnearest.inBothMaps
    exact (rootInfo_of_some (hnamed.named p (heq ▸ hkey))).symm
  · exact hroot

/-- **One call** returns the root logger, and makes it if it is not made. -/
theorem getLogger_root (hnamed : RootNamed m) (hunder : UnderRoot m [name])
    (hcall : m.getLogger fuel name = some (p, m')) :
    m' = if (m.rootInfo.2.info m.rootInfo.1).Log.isNone then m.rootInfo.2.openLogger m.rootInfo.1
      else m.rootInfo.2 := by
  obtain ⟨⟨q, m₁⟩, hfound, hresult⟩ := Option.map_eq_some_iff.mp hcall
  obtain ⟨rfl, rfl⟩ := Prod.mk.inj hresult
  rw [← getLoggerInfo_root hnamed hunder hfound]

/-- Calls after the root logger is made change nothing. -/
theorem getLoggers_of_made (hroot : m.mRootInfo = some r) (hmade : (m.info r).Log.isSome = true)
    (hnamed : RootNamed m) (hunder : UnderRoot m names)
    (hcalls : m.getLoggers fuel names = some (ps, m')) : m' = m := by
  induction names generalizing ps with
  | nil => exact (Prod.mk.inj (Option.some.inj hcalls)).2.symm
  | cons name names ih =>
      obtain ⟨p, m₁, qs, hcall, hcalls', -⟩ := getLoggers_cons_iff.mp hcalls
      have hone := getLogger_root hnamed hunder.head hcall
      have hsome : (m.info r).Log.isNone = false := by
        rw [← Option.not_isSome, hmade]
        rfl
      rw [rootInfo_of_some hroot] at hone
      simp only [hsome, Bool.false_eq_true, if_false] at hone
      rw [hone] at hcalls'
      exact ih hunder.tail hcalls'

theorem mIdMap_openLogger (m : LogManager α) (p : Nat) : (m.openLogger p).mIdMap = m.mIdMap := by
  have hfilters (sinks : List Nat) (filt1 filt2 : LogFilter α) (m : LogManager α) :
      (m.addFilters sinks filt1 filt2).mIdMap = m.mIdMap := by
    induction sinks generalizing m with
    | nil => rfl
    | cons s sinks ih => exact ih _
  exact hfilters _ _ _ (m.makeLogger p)

theorem initFilter_openLogger (m : LogManager α) (p s : Nat) :
    ((m.openLogger p).sink s).InitFilter = (m.sink s).InitFilter := by
  have hfilters (sinks : List Nat) (filt1 filt2 : LogFilter α) (m : LogManager α) :
      ((m.addFilters sinks filt1 filt2).sink s).InitFilter = (m.sink s).InitFilter := by
    induction sinks generalizing m with
    | nil => rfl
    | cons t sinks ih =>
        refine (ih _).trans ?_
        rw [sink_modifySink]
        split
        · rfl
        · rfl
  exact hfilters _ _ _ (m.makeLogger p)

/-- **A run of calls** makes the root logger once. -/
theorem getLoggers_of_unmade (hnamed : RootNamed m)
    (hlog : (m.rootInfo.2.info m.rootInfo.1).Log = none) (hunder : UnderRoot m names)
    (hne : names ≠ []) (hcalls : m.getLoggers fuel names = some (ps, m')) :
    m' = m.rootInfo.2.openLogger m.rootInfo.1 := by
  obtain ⟨name, names, rfl⟩ := List.exists_cons_of_ne_nil hne
  obtain ⟨p, m₁, qs, hcall, hcalls', -⟩ := getLoggers_cons_iff.mp hcalls
  have hone := getLogger_root hnamed hunder.head hcall
  rw [hlog] at hone
  have hmade : m₁ = m.rootInfo.2.openLogger m.rootInfo.1 := hone
  obtain ⟨halloc, hlt⟩ := hnamed.toAllocated.rootInfo
  obtain ⟨-, hloggers, hroot, -, -⟩ := openLogger_frame m.rootInfo.2 m.rootInfo.1
  obtain ⟨infos, hframe⟩ := exists_rootInfo_eq m
  have hloggers' : m₁.mLoggerInfos = m.mLoggerInfos := by
    rw [hmade, hloggers, mLoggerInfos_rootInfo]
  have hids : m₁.mIdMap = m.mIdMap := by
    rw [hmade, mIdMap_openLogger, hframe]
  have hroot' : m₁.mRootInfo = some m.rootInfo.1 := by
    rw [hmade, hroot, mRootInfo_rootInfo]
  have hisSome : (m₁.info m.rootInfo.1).Log.isSome = true := by
    rw [hmade, info_openLogger, isSome_log_makeLogger hlt]
    exact Or.inr rfl
  have hnamed' : RootNamed m₁ := by
    refine ⟨hmade ▸ halloc.openLogger _, ?_⟩
    intro p hp
    rw [hloggers'] at hp
    rw [hroot', rootInfo_of_some (hnamed.named p hp)]
  have hunder' : UnderRoot m₁ names := by
    apply hunder.tail.congr
    intro key hboth
    unfold InBothMaps at hboth ⊢
    rwa [hids, hloggers'] at hboth
  rw [getLoggers_of_made hroot' hisSome hnamed' hunder' hcalls', hmade]

end Calls

/-! ## 2. The two orders -/

/-- A new manager from which a logger was fetched. -/
def rootFetched : LogManager α := { init with infos := [{ Log := some ⟨0⟩ }], mRootInfo := some 0 }

theorem rootNamed_init : RootNamed (init : LogManager α) where
  toAllocated := loaded_init.toAllocated
  named := fun p h => by cases h

theorem rootNamed_rootFetched : RootNamed (rootFetched : LogManager α) where
  loggers := fun name p h => by cases h
  root := fun p h => Option.some.inj h ▸ Nat.zero_lt_one
  sinks := fun name s h => by cases h
  named := fun p h => by cases h

theorem rootMade_rootFetched : RootMade 0 (rootFetched : LogManager α) :=
  ⟨Nat.zero_lt_one, rfl, rfl, fun _ _ => rfl⟩

theorem alike_init_rootFetched : Alike init (rootFetched : LogManager α) :=
  ⟨rootNamed_init.toAllocated, rootNamed_rootFetched.toAllocated, rfl, rfl, rfl, rfl, rfl, rfl,
    fun _ => rfl, rfl⟩

/-- The same sinks, and the same records accepted by each. -/
structure SameFilters (m n : LogManager α) : Prop where
  mSinks : m.mSinks = n.mSinks
  count : m.mSinkInfoPool.length = n.mSinkInfoPool.length
  filtFun : ∀ s < m.mSinkInfoPool.length, ∀ values,
    (m.sink s).filtFun values = (n.sink s).filtFun values

section Orders

variable {fuel p s : Nat} {names : List Bytes} {ps : List Nat} {m' : LogManager α}

/-- Whatever is fetched from a new manager, it is the root logger. -/
theorem getLoggers_init (hne : names ≠ [])
    (hcalls : (init : LogManager α).getLoggers fuel names = some (ps, m')) : m' = rootFetched := by
  refine getLoggers_of_unmade rootNamed_init rfl ?_ hne hcalls
  rintro name - key - ⟨hid, -⟩
  cases hid

/-- The filters after one logger is made. -/
theorem filtFun_openLogger (hload : Loaded m) (hp : p < m.infos.length)
    (hs : s < m.mSinkInfoPool.length) (values : AttributeValues α) :
    ((m.openLogger p).sink s).filtFun values = true ↔
      (m.sink s).InitFilter values = true ∧ Routes m p s values := by
  have hlength := (openLogger_frame m p).2.2.2.2
  have hredirect := (hload.routed.openLogger hp).redirect s (hlength ▸ hs) values
  unfold SinkInfo.filtFun
  rw [initFilter_openLogger, Bool.and_eq_true, hredirect]
  simp [routes_openLogger]

theorem RootMade.filtFun {r : Nat} (h : RootMade r m) (s : Nat) (values : AttributeValues α) :
    (m.sink s).filtFun values = false := by
  unfold SinkInfo.filtFun
  rw [h.silent s values, Bool.and_false]

end Orders

section Theorem

variable (setup : LogSetup α) (files : List ConfigFile)

/-- The manager after a load that configures the root logger, and calls that get it. -/
theorem getLoggers_loaded {fuel r : Nat} {names : List Bytes} {ps : List Nat} {m : LogManager α}
    (hroot : (after (Initialize setup files) init).mLoggerInfos.lookup rootName = some r)
    (hunder : UnderRoot (after (Initialize setup files) init) names) (hne : names ≠ [])
    (hcalls : (after (Initialize setup files) init).getLoggers fuel names = some (ps, m)) :
    m = (after (Initialize setup files) init).openLogger r := by
  have hnamed := loadInvariant_rootNamed.Initialize setup files rootNamed_init
  have hload := loaded_after_Initialize setup files loaded_init
  have hrootInfo : (after (Initialize setup files) init).rootInfo =
      (r, after (Initialize setup files) init) := rootInfo_of_some (hnamed.named r hroot)
  have hmade := getLoggers_of_unmade hnamed (by rw [hrootInfo]; exact hload.unopened r) hunder hne
    hcalls
  rwa [hrootInfo] at hmade

theorem getLoggers_fetched {fuel : Nat} {names : List Bytes} {ps : List Nat} {n : LogManager α}
    (hunder : UnderRoot (after (Initialize setup files) init) names)
    (hcalls : (after (Initialize setup files) rootFetched).getLoggers fuel names = some (ps, n)) :
    n = after (Initialize setup files) rootFetched := by
  have halike := alike_init_rootFetched.Initialize setup files
  have hmade := (loadInvariant_rootMade 0).Initialize setup files rootMade_rootFetched
  have hnamed := loadInvariant_rootNamed.Initialize setup files rootNamed_rootFetched
  refine getLoggers_of_made hmade.root hmade.made hnamed (hunder.congr ?_) hcalls
  intro key hboth
  unfold InBothMaps at hboth ⊢
  rwa [halike.mIdMap, halike.keys key]

/-- Calls for the same names, in whatever order and however often, come to the same. -/
theorem getLoggers_congr {fuel r : Nat} {names names' : List Bytes} {ps qs : List Nat}
    {m n : LogManager α}
    (hroot : (after (Initialize setup files) init).mLoggerInfos.lookup rootName = some r)
    (hunder : UnderRoot (after (Initialize setup files) init) names)
    (hnames : ∀ name, name ∈ names ↔ name ∈ names')
    (hcalls : (after (Initialize setup files) init).getLoggers fuel names = some (ps, m))
    (hcalls' : (after (Initialize setup files) init).getLoggers fuel names' = some (qs, n)) :
    m = n := by
  by_cases hne : names = []
  · have hne' : names' = [] := by
      apply List.eq_nil_iff_forall_not_mem.mpr
      intro name hname
      rw [← hnames, hne] at hname
      exact List.not_mem_nil hname
    rw [hne] at hcalls
    rw [hne'] at hcalls'
    rw [← (Prod.mk.inj (Option.some.inj hcalls)).2, ← (Prod.mk.inj (Option.some.inj hcalls')).2]
  · have hne' : names' ≠ [] := by
      obtain ⟨name, hname⟩ := List.exists_mem_of_ne_nil names hne
      exact List.ne_nil_of_mem ((hnames name).mp hname)
    have hunder' : UnderRoot (after (Initialize setup files) init) names' :=
      fun name hname => hunder name ((hnames name).mpr hname)
    rw [getLoggers_loaded setup files hroot hunder hne hcalls,
      getLoggers_loaded setup files hroot hunder' hne' hcalls']

/-- The root logger made after a load, against one made before it. -/
theorem sameFilters_openLogger_iff {r : Nat} {m n : LogManager α} (hload : Loaded m)
    (halike : Alike m n) (hmade : RootMade 0 n) (hlt : r < m.infos.length) :
    SameFilters (m.openLogger r) n ↔ ∀ s < m.mSinkInfoPool.length, ∀ values,
      s ∈ (m.info r).SinkInfos → (m.info r).accepts values = true →
      (m.sink s).InitFilter values = false := by
  obtain ⟨-, -, -, hsinks, hlength⟩ := openLogger_frame m r
  constructor
  · intro hsame s hs values hlinked haccepts
    have hfilter := hsame.filtFun s (hlength.symm ▸ hs) values
    rw [hmade.filtFun, Bool.eq_false_iff, ne_eq, filtFun_openLogger hload hlt hs] at hfilter
    rw [Bool.eq_false_iff]
    exact fun hinit => hfilter ⟨hinit, hlinked, haccepts⟩
  · intro hrefused
    refine ⟨hsinks.trans halike.mSinks, ?_, ?_⟩
    · rw [hlength, halike.mSinkInfoPool]
    · intro s hs values
      rw [hlength] at hs
      rw [hmade.filtFun, Bool.eq_false_iff, ne_eq, filtFun_openLogger hload hlt hs]
      rintro ⟨hinit, hlinked, haccepts⟩
      rw [hrefused s hs values hlinked haccepts] at hinit
      cases hinit

/-- **Early fetches.**  Where the configuration has a root logger and every name fetched gets it,
    the fetches before `Initialize` make no difference exactly when there are none or no sink
    takes a record from the root logger. -/
theorem sameFilters_iff {fuel r : Nat} {names early late : List Bytes} {ps qs rs : List Nat}
    {m n₀ n : LogManager α}
    (hroot : (after (Initialize setup files) init).mLoggerInfos.lookup rootName = some r)
    (hunder : UnderRoot (after (Initialize setup files) init) names)
    (hnames : ∀ name, name ∈ names ↔ name ∈ early ∨ name ∈ late)
    (hcalls : (after (Initialize setup files) init).getLoggers fuel names = some (ps, m))
    (hearly : init.getLoggers fuel early = some (qs, n₀))
    (hlate : (after (Initialize setup files) n₀).getLoggers fuel late = some (rs, n)) :
    SameFilters m n ↔ early = [] ∨
      ∀ s < (after (Initialize setup files) init).mSinkInfoPool.length, ∀ values,
        s ∈ ((after (Initialize setup files) init).info r).SinkInfos →
        ((after (Initialize setup files) init).info r).accepts values = true →
        ((after (Initialize setup files) init).sink s).InitFilter values = false := by
  by_cases hearlyNil : early = []
  · -- the calls are in one order only, and their names are the same up to repetition
    refine iff_of_true ?_ (Or.inl hearlyNil)
    subst hearlyNil
    obtain ⟨-, rfl⟩ := Prod.mk.inj (Option.some.inj hearly)
    obtain rfl := getLoggers_congr setup files hroot hunder
      (fun name => (hnames name).trans (by simp)) hcalls hlate
    exact ⟨rfl, rfl, fun _ _ _ => rfl⟩
  · -- the root logger is made before it has a sink, so that no sink ever gets its route
    have hne : names ≠ [] := by
      obtain ⟨name, hname⟩ := List.exists_mem_of_ne_nil early hearlyNil
      exact List.ne_nil_of_mem ((hnames name).mpr (Or.inl hname))
    have hload := loaded_after_Initialize setup files loaded_init
    rw [or_iff_right hearlyNil, getLoggers_loaded setup files hroot hunder hne hcalls]
    rw [getLoggers_init hearlyNil hearly] at hlate
    rw [getLoggers_fetched setup files
      (fun name hname => hunder name ((hnames name).mpr (Or.inr hname))) hlate]
    exact sameFilters_openLogger_iff hload (alike_init_rootFetched.Initialize setup files)
      ((loadInvariant_rootMade 0).Initialize setup files rootMade_rootFetched)
      (hload.loggers rootName r hroot)

end Theorem

/-- `test/conf/Core_log.conf`, without the sink's format. -/
def coreLog : PropertyTree :=
  .ofList [
    (⟨ascii ['C', 'o', 'r', 'e'], by decide⟩, .ofList [
      (⟨ascii ['D', 'i', 's', 'a', 'b', 'l', 'e', 'L', 'o', 'g', 'g', 'i', 'n', 'g'], by decide⟩,
        .node (ascii ['f', 'a', 'l', 's', 'e']) .nil)]),
    (sinksName, .ofList [(consoleName, .ofList [(destinationName, .node console .nil)])]),
    (loggersName, .ofList [(⟨rootName, by decide⟩, .ofList [
      (sinksName, .node console .nil)])])]

/-- The name that `TcpClient` fetches. -/
def tcpClientName : Bytes :=
  ascii ['N', 'e', 't', 'w', 'o', 'r', 'k', '.', 'T', 'c', 'p', 'C', 'l', 'i', 'e', 'n', 't']

theorem underRoot_coreLog (names : List Bytes) :
    UnderRoot (after (Initialize severitySetup [.settings coreLog]) init) names := by
  have hids : (after (Initialize severitySetup [.settings coreLog]) init).mIdMap.keys = [] := by
    decide
  rintro name - key - ⟨hid, -⟩
  rw [AList.lookup_isSome, AList.mem_keys, hids] at hid
  exact absurd hid List.not_mem_nil

theorem sameFilters_iff_coreLog : ∃ m n₀ n : LogManager Nat,
    (after (Initialize severitySetup [.settings coreLog]) init).getLoggers 100 [tcpClientName] =
      some ([0], m) ∧
    init.getLoggers 100 [tcpClientName] = some ([0], n₀) ∧
    (after (Initialize severitySetup [.settings coreLog]) n₀).getLoggers 100 [] = some ([], n) ∧
    (SameFilters m n ↔ [tcpClientName] = [] ∨
      ∀ s < (after (Initialize severitySetup [.settings coreLog]) init).mSinkInfoPool.length,
        ∀ values,
        s ∈ ((after (Initialize severitySetup [.settings coreLog]) init).info 0).SinkInfos →
        ((after (Initialize severitySetup [.settings coreLog]) init).info 0).accepts values = true →
        ((after (Initialize severitySetup [.settings coreLog]) init).sink s).InitFilter values =
          false) := by
  have hreturned : ((after (Initialize severitySetup [.settings coreLog]) init).getLoggers 100
      [tcpClientName]).map Prod.fst = some [0] := by decide
  have hfetched : ((init : LogManager Nat).getLoggers 100 [tcpClientName]).map Prod.fst =
      some [0] := by decide
  obtain ⟨⟨_, m⟩, hcalls, rfl⟩ := Option.map_eq_some_iff.mp hreturned
  obtain ⟨⟨_, n₀⟩, hearly, rfl⟩ := Option.map_eq_some_iff.mp hfetched
  have hlate : (after (Initialize severitySetup [.settings coreLog]) n₀).getLoggers 100 [] =
      some ([], after (Initialize severitySetup [.settings coreLog]) n₀) := rfl
  exact ⟨m, n₀, _, hcalls, hearly, hlate, sameFilters_iff severitySetup [.settings coreLog]
    (by decide) (underRoot_coreLog _) (by simp) hcalls hearly hlate⟩

/-- A fetch before `Initialize` is not the same as one after it. -/
theorem not_sameFilters_coreLog : ¬ ∀ (setup : LogSetup Nat) (files : List ConfigFile)
    (fuel r : Nat) (names early late : List Bytes) (ps qs rs : List Nat)
    (m n₀ n : LogManager Nat),
    (after (Initialize setup files) init).mLoggerInfos.lookup rootName = some r →
    UnderRoot (after (Initialize setup files) init) names →
    (∀ name, name ∈ names ↔ name ∈ early ∨ name ∈ late) →
    (after (Initialize setup files) init).getLoggers fuel names = some (ps, m) →
    init.getLoggers fuel early = some (qs, n₀) →
    (after (Initialize setup files) n₀).getLoggers fuel late = some (rs, n) →
    SameFilters m n := by
  intro hclaim
  have hpassed : ((after (Initialize severitySetup [.settings coreLog]) init).getLoggers 100
      [tcpClientName]).map (fun result => (result.2.mSinkInfoPool.length,
        (result.2.sink 0).filtFun ⟨some 0, 0⟩)) = some (1, true) := by decide
  have hrefused : ((init : LogManager Nat).getLoggers 100 [tcpClientName]).map
      (fun result => ((after (Initialize severitySetup [.settings coreLog])
        result.2).sink 0).filtFun ⟨some 0, 0⟩) = some false := by decide
  obtain ⟨⟨ps, m⟩, hcalls, hm⟩ := Option.map_eq_some_iff.mp hpassed
  obtain ⟨⟨qs, n₀⟩, hearly, hn⟩ := Option.map_eq_some_iff.mp hrefused
  obtain ⟨hcount, hpass⟩ := Prod.mk.inj hm
  have hsame := hclaim severitySetup [.settings coreLog] 100 0 [tcpClientName] [tcpClientName] []
    ps qs [] m n₀ _ (by decide) (underRoot_coreLog _) (by simp) hcalls hearly rfl
  have hfilter := hsame.filtFun 0 (hcount ▸ Nat.zero_lt_one) ⟨some 0, 0⟩
  rw [hpass, hn] at hfilter
  cases hfilter

end LogManager

end MemClient
