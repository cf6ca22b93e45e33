import MemClient.LogDelivery

/-!
# What later calls keep

`Initialize` and `GetLogger` only add to a manager: ids, infos and sinks that are
there stay as they are, also when a load throws, and a sink goes on taking every
record that it takes.  So what a load leaves undone when it throws stays undone:
its loggers are never linked with a sink.
-/

namespace MemClient

open ByteCodec NameHierarchy EventRun Std.Do

set_option mvcgen.warning false

mutual

/-- The names that `LoadLogger` configures in a section. -/
def PropertyTree.loggerNames : PropertyTree → Bytes → List Bytes
  | .node data children, strName =>
      if (PropertyTree.node data children).count LogManager.sinksKey = 1 then [strName]
      else children.loggerNames (LogManager.childName strName)

def PropertyTrees.loggerNames : PropertyTrees → Bytes → List Bytes
  | .nil, _ => []
  | .cons name childSec rest, childName =>
      childSec.loggerNames (childName ++ name.val) ++ rest.loggerNames childName

end

def ConfigFile.loggerNames : ConfigFile → List Bytes
  | .settings setts =>
      match setts.child LogManager.loggersKey with
      | some logger_params => logger_params.loggerNames []
      | none => []
  | _ => []

theorem loggerNames_of_empty {tree : PropertyTree} (h : tree.empty = true) (strName : Bytes) :
    tree.loggerNames strName = [] := by
  cases tree with
  | node data children =>
      cases children with
      | nil => rfl
      | cons name child rest => cases h

namespace LogManager

variable {α : Type} {m m' m₀ : LogManager α}

/-! ## 1. Growth -/

/-- An info with the parameters of an earlier one, and its logger once it is made. -/
structure Unchanged (info info' : LoggerInfo α) : Prop where
  Id : info'.Id = info.Id
  Level : info'.Level = info.Level
  FileId : info'.FileId = info.FileId
  Filter : info'.Filter = info.Filter
  SinkNames : info'.SinkNames = info.SinkNames
  SinkInfos : info'.SinkInfos = info.SinkInfos
  Log : info.Log.isSome = true → info'.Log = info.Log

theorem Unchanged.refl (info : LoggerInfo α) : Unchanged info info :=
  ⟨rfl, rfl, rfl, rfl, rfl, rfl, fun _ => rfl⟩

theorem Unchanged.trans {info₁ info₂ info₃ : LoggerInfo α} (h : Unchanged info₁ info₂)
    (h' : Unchanged info₂ info₃) : Unchanged info₁ info₃ where
  Id := h'.Id.trans h.Id
  Level := h'.Level.trans h.Level
  FileId := h'.FileId.trans h.FileId
  Filter := h'.Filter.trans h.Filter
  SinkNames := h'.SinkNames.trans h.SinkNames
  SinkInfos := h'.SinkInfos.trans h.SinkInfos
  Log hmade := by
    have hlog := h.Log hmade
    exact (h'.Log (hlog ▸ hmade)).trans hlog

/-- A sink that takes what it took before. -/
structure Widened (sink sink' : SinkInfo α) : Prop where
  Name : sink'.Name = sink.Name
  InitFilter : sink'.InitFilter = sink.InitFilter
  ReDirectFilter : ∀ values, sink.ReDirectFilter values = true → sink'.ReDirectFilter values = true

theorem Widened.refl (sink : SinkInfo α) : Widened sink sink := ⟨rfl, rfl, fun _ h => h⟩

theorem Widened.trans {sink₁ sink₂ sink₃ : SinkInfo α} (h : Widened sink₁ sink₂)
    (h' : Widened sink₂ sink₃) : Widened sink₁ sink₃ where
  Name := h'.Name.trans h.Name
  InitFilter := h'.InitFilter.trans h.InitFilter
  ReDirectFilter values hvalues := h'.ReDirectFilter values (h.ReDirectFilter values hvalues)

theorem Widened.filtFun {sink sink' : SinkInfo α} (h : Widened sink sink')
    {values : AttributeValues α} (hvalues : sink.filtFun values = true) :
    sink'.filtFun values = true := by
  obtain ⟨hinit, hredirect⟩ := Bool.and_eq_true_iff.mp hvalues
  rw [SinkInfo.filtFun, h.InitFilter]
  exact Bool.and_eq_true_iff.mpr ⟨hinit, h.ReDirectFilter values hredirect⟩

/-- An info that no load writes to any more: any but the root logger's before a file
    configured it. -/
structure Settled (m : LogManager α) (p : Nat) : Prop where
  lt : p < m.infos.length
  root : m.mRootInfo = some p → (m.info p).FileId ≠ 0

/-- A later manager has what an earlier one has. -/
structure Extends (m m' : LogManager α) : Prop where
  mIdMap : UnorderedMap.Extends m.mIdMap m'.mIdMap
  mLoggerInfos : UnorderedMap.Extends m.mLoggerInfos m'.mLoggerInfos
  mSinks : UnorderedMap.Extends m.mSinks m'.mSinks
  root : ∀ p, m.mRootInfo = some p → m'.mRootInfo = some p
  newRoot : ∀ p, m'.mRootInfo = some p → m.mRootInfo = some p ∨ m.infos.length ≤ p
  infos : m.infos.length ≤ m'.infos.length
  sinks : m.mSinkInfoPool.length ≤ m'.mSinkInfoPool.length
  unchanged : ∀ p, m.Settled p → Unchanged (m.info p) (m'.info p)
  widened : ∀ s < m.mSinkInfoPool.length, Widened (m.sink s) (m'.sink s)

namespace Extends

theorem refl (m : LogManager α) : Extends m m where
  mIdMap := .refl _
  mLoggerInfos := .refl _
  mSinks := .refl _
  root _ h := h
  newRoot _ h := Or.inl h
  infos := Nat.le_refl _
  sinks := Nat.le_refl _
  unchanged _ _ := .refl _
  widened _ _ := .refl _

/-- A root logger that is not settled was not settled before. -/
theorem settled_of_root (h : Extends m m') {p : Nat} (hroot : m'.mRootInfo = some p)
    (hp : m.Settled p) : (m'.info p).FileId ≠ 0 := by
  rw [(h.unchanged p hp).FileId]
  rcases h.newRoot p hroot with hold | hnew
  · exact hp.root hold
  · exact absurd hp.lt (Nat.not_lt_of_le hnew)

theorem settled (h : Extends m m') {p : Nat} (hp : m.Settled p) : m'.Settled p where
  lt := Nat.lt_of_lt_of_le hp.lt h.infos
  root hroot := h.settled_of_root hroot hp

theorem trans {m'' : LogManager α} (h : Extends m m') (h' : Extends m' m'') : Extends m m'' where
  mIdMap := h.mIdMap.trans h'.mIdMap
  mLoggerInfos := h.mLoggerInfos.trans h'.mLoggerInfos
  mSinks := h.mSinks.trans h'.mSinks
  root p hp := h'.root p (h.root p hp)
  newRoot := by
    intro p hp
    rcases h'.newRoot p hp with hold | hnew
    · exact h.newRoot p hold
    · exact Or.inr (Nat.le_trans h.infos hnew)
  infos := Nat.le_trans h.infos h'.infos
  sinks := Nat.le_trans h.sinks h'.sinks
  unchanged p hp := (h.unchanged p hp).trans (h'.unchanged p (h.settled hp))
  widened s hs := (h.widened s hs).trans (h'.widened s (Nat.lt_of_lt_of_le hs h.sinks))

/-! ## 2. The updates -/

theorem newInfo (h : Extends m₀ m) (info : LoggerInfo α) : Extends m₀ (m.newInfo info) := by
  refine { h with infos := ?_, unchanged := ?_ }
  · rw [length_newInfo]
    exact Nat.le_succ_of_le h.infos
  · intro p hp
    rw [info_newInfo, if_neg (Nat.ne_of_lt (Nat.lt_of_lt_of_le hp.lt h.infos))]
    exact h.unchanged p hp

theorem rootInfo (h : Extends m₀ m) : Extends m₀ m.rootInfo.2 := by
  unfold LogManager.rootInfo
  cases hroot : m.mRootInfo with
  | some p => exact h
  | none =>
      refine { h.newInfo {} with root := ?_, newRoot := ?_ }
      · intro p hp
        have hsome := h.root p hp
        rw [hroot] at hsome
        cases hsome
      · intro p hp
        rw [← Option.some.inj hp]
        exact Or.inr h.infos

theorem modifyInfo (h : Extends m₀ m) {p : Nat} (hp : ¬ m₀.Settled p)
    (f : LoggerInfo α → LoggerInfo α) : Extends m₀ (m.modifyInfo p f) := by
  refine { h with infos := ?_, unchanged := ?_ }
  · rw [length_modifyInfo]
    exact h.infos
  · intro q hq
    have hne : p ≠ q := by
      rintro rfl
      exact hp hq
    rw [info_modifyInfo, if_neg (mt And.left hne)]
    exact h.unchanged q hq

theorem linkLoggerWithSink (h : Extends m₀ m) {loggers : List Nat}
    (hloggers : ∀ p ∈ loggers, ¬ m₀.Settled p) :
    Extends m₀ (m.linkLoggerWithSink loggers) := by
  induction loggers generalizing m with
  | nil => exact h
  | cons p loggers ih =>
      obtain ⟨hp, hrest⟩ := List.forall_mem_cons.mp hloggers
      exact ih (h.modifyInfo hp _) hrest

theorem newSink (h : Extends m₀ m) (name : Bytes) : Extends m₀ (m.newSink name) := by
  refine { h with sinks := ?_, widened := ?_ }
  · rw [length_newSink]
    exact Nat.le_succ_of_le h.sinks
  · intro s hs
    rw [sink_newSink, if_neg (Nat.ne_of_lt (Nat.lt_of_lt_of_le hs h.sinks))]
    exact h.widened s hs

theorem insertSink (h : Extends m₀ m) {s : Nat} (hs : m₀.mSinkInfoPool.length ≤ s) (name : Bytes)
    (f : SinkInfo α → SinkInfo α) :
    Extends m₀ { m.modifySink s f with mSinks := UnorderedMap.insertNew m.mSinks name s } := by
  refine { h with mSinks := ?_, sinks := ?_, widened := ?_ }
  · exact h.mSinks.trans (UnorderedMap.extends_insertNew _ _ _)
  · exact Nat.le_trans h.sinks (Nat.le_of_eq (length_modifySink m s f).symm)
  · intro t ht
    have hne : s ≠ t := by
      rintro rfl
      exact Nat.not_lt_of_le hs ht
    show Widened (m₀.sink t) ((m.modifySink s f).sink t)
    rw [sink_modifySink, if_neg (mt And.left hne)]
    exact h.widened t ht

end Extends

/-! ## 3. Loading -/

/-- What a load that began with `m₀` knows of an info that it configures. -/
structure Entering (m₀ : LogManager α) (strName : Bytes) (p : Nat) : Prop where
  unsettled : ¬ m₀.Settled p
  new : strName = rootName ∨ m₀.infos.length ≤ p

/-- A load that began with `m₀`: none of its loggers was settled, infos made since then have no
    sinks, and a name entered since then, but for the root's, has one of these infos. -/
structure Underway (m₀ m : LogManager α) (loggers : List Nat) : Prop extends Extends m₀ m where
  unsettled : ∀ p ∈ loggers, ¬ m₀.Settled p
  unlinked : ∀ p, m₀.infos.length ≤ p → (m.info p).SinkInfos = []
  entered : ∀ name p, m.mLoggerInfos.lookup name = some p →
    m₀.mLoggerInfos.lookup name = some p ∨ name = rootName ∨ m₀.infos.length ≤ p

theorem Underway.refl (m : LogManager α) : Underway m m [] where
  toExtends := .refl m
  unsettled p hp := absurd hp List.not_mem_nil
  unlinked p hp := by
    have hdefault : m.info p = {} := by
      unfold LogManager.info
      rw [List.getD_eq_getElem?_getD, List.getElem?_eq_none hp, Option.getD_none]
    rw [hdefault]
  entered _ _ h := Or.inl h

theorem Underway.rootInfo {loggers : List Nat} (h : Underway m₀ m loggers) :
    Underway m₀ m.rootInfo.2 loggers := by
  refine ⟨h.toExtends.rootInfo, h.unsettled, ?_, ?_⟩
  · intro p hp
    rw [info_rootInfo]
    exact h.unlinked p hp
  · rw [mLoggerInfos_rootInfo]
    exact h.entered

theorem Underway.newInfo {loggers : List Nat} (h : Underway m₀ m loggers) {info : LoggerInfo α}
    (hunlinked : info.SinkInfos = []) : Underway m₀ (m.newInfo info) loggers := by
  refine ⟨h.toExtends.newInfo info, h.unsettled, ?_, h.entered⟩
  intro p hp
  rw [info_newInfo]
  split
  · exact hunlinked
  · exact h.unlinked p hp

theorem Underway.modifyInfo {loggers : List Nat} (h : Underway m₀ m loggers) {p : Nat}
    (hp : ¬ m₀.Settled p) {f : LoggerInfo α → LoggerInfo α} (hf : KeepsLinks f) :
    Underway m₀ (m.modifyInfo p f) loggers := by
  refine ⟨h.toExtends.modifyInfo hp f, h.unsettled, ?_, h.entered⟩
  intro q hq
  rw [info_modifyInfo]
  split
  · rw [hf.SinkInfos]
    exact h.unlinked q hq
  · exact h.unlinked q hq

theorem Underway.insertLogger {loggers : List Nat} (h : Underway m₀ m loggers) {strName : Bytes}
    {p : Nat} (henter : Entering m₀ strName p) :
    Underway m₀ { m with mLoggerInfos := UnorderedMap.insertNew m.mLoggerInfos strName p }
      (loggers ++ [p]) := by
  have hentries := h.mLoggerInfos.trans (UnorderedMap.extends_insertNew m.mLoggerInfos strName p)
  refine ⟨{ h.toExtends with mLoggerInfos := hentries }, ?_, h.unlinked, ?_⟩
  · intro q hq
    rcases List.mem_append.mp hq with hq | hq
    · exact h.unsettled q hq
    · rw [List.mem_singleton.mp hq]
      exact henter.unsettled
  · intro name q hq
    rcases lookup_insertNew_cases hq with hold | ⟨rfl, rfl⟩
    · exact h.entered name q hold
    · exact Or.inr henter.new

theorem fileInvariant_underway (m₀ : LogManager α) :
    FileInvariant (Underway m₀) (fun _ strName p => Entering m₀ strName p)
      (fun _ s => m₀.mSinkInfoPool.length ≤ s) where
  insertId h hnew _ id _ := by
    have hids := h.mIdMap.trans (UnorderedMap.extends_insert hnew id)
    exact ⟨{ h.toExtends with mIdMap := hids }, h.unsettled, h.unlinked, h.entered⟩
  rootInfo := by
    intro m loggers h
    refine ⟨h.rootInfo, fun hfile => ⟨?_, Or.inl rfl⟩⟩
    intro hsettled
    exact h.rootInfo.settled_of_root (mRootInfo_rootInfo m) hsettled hfile
  newInfo := by
    intro m loggers strName id h _ _
    have hnew : ¬ m₀.Settled m.infos.length := fun hp => Nat.not_lt_of_le h.infos hp.lt
    exact ⟨h.newInfo rfl, hnew, Or.inr h.infos⟩
  modifyInfo h henter hf := ⟨h.modifyInfo henter.unsettled hf, henter⟩
  insertLogger h henter := h.insertLogger henter
  nextFile h := ⟨{ h.toExtends with }, h.unsettled, h.unlinked, h.entered⟩
  newSink h name := ⟨⟨h.toExtends.newSink name, h.unsettled, h.unlinked, h.entered⟩, h.sinks⟩
  insertSink h hs name filter :=
    ⟨h.toExtends.insertSink hs name _, h.unsettled, h.unlinked, h.entered⟩

section Calls

variable (setup : LogSetup α)

/-- **A load** that throws is left where it was, and one that returns links its loggers. -/
theorem run_Initialize (files : List ConfigFile) (m : LogManager α) :
    (∀ b m', (Initialize setup files).run m = .ok b m' → Extends m m') ∧
      ∀ e m', (Initialize setup files).run m = .error e m' → Underway m m' [] := by
  have hleave (m' : LogManager α) (loggers : List Nat) (h : Underway m m' loggers) :
      Underway m m' [] :=
    ⟨h.toExtends, fun p hp => absurd hp List.not_mem_nil, h.unlinked, h.entered⟩
  apply run_of_spec (keeps_Initialize setup (fileInvariant_underway m) hleave ?_ files)
  · exact .refl m
  · intro m' loggers h
    exact h.toExtends.linkLoggerWithSink h.unsettled

theorem extends_Initialize (files : List ConfigFile) (m : LogManager α) :
    Extends m (after (Initialize setup files) m) := by
  obtain ⟨hok, hthrow⟩ := run_Initialize setup files m
  unfold after
  split
  · next heq => exact hok _ _ heq
  · next heq => exact (hthrow _ _ heq).toExtends

/-! ## 4. Calls -/

theorem widened_addFilters (sinks : List Nat) (filt1 filt2 : LogFilter α) (m : LogManager α)
    (s : Nat) : Widened (m.sink s) ((m.addFilters sinks filt1 filt2).sink s) := by
  induction sinks generalizing m with
  | nil => exact .refl _
  | cons t sinks ih =>
      apply Widened.trans _ (ih _)
      rw [sink_modifySink]
      split
      · refine ⟨rfl, rfl, fun values h => ?_⟩
        simp [SinkInfo.addFilter, h]
      · exact .refl _

theorem Extends.openLogger (h : Extends m₀ m) {p : Nat}
    (hunmade : (m.info p).Log.isNone = true) : Extends m₀ (m.openLogger p) := by
  obtain ⟨hcount, hloggers, hroot, hsinks, hlength⟩ := openLogger_frame m p
  refine ⟨?_, ?_, ?_, ?_, ?_, ?_, ?_, ?_, ?_⟩
  · rw [mIdMap_openLogger]
    exact h.mIdMap
  · rw [hloggers]
    exact h.mLoggerInfos
  · rw [hsinks]
    exact h.mSinks
  · rw [hroot]
    exact h.root
  · rw [hroot]
    exact h.newRoot
  · rw [hcount]
    exact h.infos
  · rw [hlength]
    exact h.sinks
  · intro q hq
    have hold := h.unchanged q hq
    rw [info_openLogger, makeLogger, info_modifyInfo]
    split
    · next hpq =>
      refine { hold with Log := ?_ }
      -- A logger that was made is not made again.
      intro hmade
      rw [hpq.1, hold.Log hmade, Option.isNone_iff_eq_none] at hunmade
      rw [hunmade] at hmade
      cases hmade
    · exact hold
  · intro s hs
    exact (h.widened s hs).trans (widened_addFilters _ _ _ (m.makeLogger p) s)

/-- What a call for a logger does after the lookup. -/
theorem getLogger_cases {fuel p : Nat} {name : Bytes}
    (hcall : m.getLogger fuel name = some (p, m')) :
    ∃ m₁, m.getLoggerInfo fuel name = some (p, m₁) ∧
      ((m₁.info p).Log.isNone = true ∧ m' = m₁.openLogger p ∨ m' = m₁) := by
  obtain ⟨⟨q, m₁⟩, hfound, hresult⟩ := Option.map_eq_some_iff.mp hcall
  obtain ⟨rfl, rfl⟩ := Prod.mk.inj hresult
  refine ⟨m₁, hfound, ?_⟩
  split
  · next hunmade => exact Or.inl ⟨hunmade, rfl⟩
  · exact Or.inr rfl

/-- A lookup makes at most the root logger. -/
theorem manager_of_getLoggerInfo {fuel p : Nat} {name : Bytes}
    (hcall : m.getLoggerInfo fuel name = some (p, m')) : m' = m ∨ m' = m.rootInfo.2 := by
  rcases getLoggerInfo_cases hcall with ⟨-, -, -, rfl⟩ | ⟨-, hroot⟩
  · exact Or.inl rfl
  · exact Or.inr (Prod.mk.inj hroot).2

theorem extends_getLogger {fuel p : Nat} {name : Bytes}
    (hcall : m.getLogger fuel name = some (p, m')) : Extends m m' := by
  obtain ⟨m₁, hfound, hopen⟩ := getLogger_cases hcall
  have h : Extends m m₁ := by
    rcases manager_of_getLoggerInfo hfound with rfl | rfl
    · exact .refl _
    · exact (Extends.refl m).rootInfo
  rcases hopen with ⟨hunmade, rfl⟩ | rfl
  · exact h.openLogger hunmade
  · exact h

/-- A call of the manager. -/
inductive ManagerCall where
  | Initialize (files : List ConfigFile)
  | GetLogger (fuel : Nat) (name : Bytes)

/-- The manager after a call; a call for a logger has to return. -/
def call (m : LogManager α) : ManagerCall → Option (LogManager α)
  | .Initialize files => some (after (Initialize setup files) m)
  | .GetLogger fuel name => (m.getLogger fuel name).map Prod.snd

variable {setup} {calls : List ManagerCall}

theorem extends_call {c : ManagerCall} (hcall : call setup m c = some m') : Extends m m' := by
  cases c with
  | Initialize files =>
      obtain rfl := Option.some.inj hcall
      exact extends_Initialize setup files m
  | GetLogger fuel name =>
      obtain ⟨⟨p, _⟩, hlookup, rfl⟩ := Option.map_eq_some_iff.mp hcall
      exact extends_getLogger hlookup

theorem Reachable.call {c : ManagerCall} (hreach : Reachable setup m)
    (hcall : call setup m c = some m') : Reachable setup m' := by
  cases c with
  | Initialize files =>
      obtain rfl := Option.some.inj hcall
      exact hreach.Initialize files
  | GetLogger fuel name =>
      obtain ⟨⟨p, _⟩, hlookup, rfl⟩ := Option.map_eq_some_iff.mp hcall
      exact hreach.GetLogger hlookup

theorem run_calls (hexec : exec (call setup) m calls = some m') :
    Run (call setup) Free m calls m' :=
  run_of_exec (fun _ _ _ => trivial) hexec

/-- **A run of calls** only adds to the manager. -/
theorem Extends.run (hexec : exec (LogManager.call setup) m calls = some m') : Extends m m' :=
  (run_calls hexec).invariant (I := Extends m) (fun _ _ _ h _ hcall => h.trans (extends_call hcall))
    (.refl m)

theorem Reachable.run (hreach : Reachable setup m)
    (hexec : exec (LogManager.call setup) m calls = some m') : Reachable setup m' :=
  (run_calls hexec).invariant (fun _ _ _ h _ hcall => h.call hcall) hreach

/-- An info under a name other than the root's is written once. -/
theorem Separate.settled (hsep : Separate m) {name : Bytes} {p : Nat}
    (hp : m.mLoggerInfos.lookup name = some p) (hroot : name ≠ rootName ∨ (m.info p).FileId ≠ 0) :
    m.Settled p where
  lt := hsep.loggers name p hp
  root hmade := by
    rcases hroot with hname | hfile
    · exact absurd (hsep.rootOnly name p hmade hp) hname
    · exact hfile

/-- **Later calls** keep the ids, the infos that were configured and the sinks, and a sink goes
    on taking the records that it takes.  An exception makes no difference. -/
theorem calls_only_add (hreach : Reachable setup m)
    (hlater : exec (call setup) m calls = some m') :
    (∀ name id, m.mIdMap.lookup name = some id → m'.mIdMap.lookup name = some id) ∧
    (∀ name p, m.mLoggerInfos.lookup name = some p → m'.mLoggerInfos.lookup name = some p ∧
      (name ≠ rootName ∨ (m.info p).FileId ≠ 0 → Unchanged (m.info p) (m'.info p))) ∧
    ∀ name s, m.mSinks.lookup name = some s → m'.mSinks.lookup name = some s ∧
      ∀ values, (m.sink s).filtFun values = true → (m'.sink s).filtFun values = true := by
  have hextends := Extends.run hlater
  have hsep := hreach.separate
  refine ⟨hextends.mIdMap, ?_, ?_⟩
  · intro name p hp
    exact ⟨hextends.mLoggerInfos name p hp,
      fun hroot => hextends.unchanged p (hsep.settled hp hroot)⟩
  · intro name s hs
    have hwidened := hextends.widened s (hsep.sinks name s hs)
    exact ⟨hextends.mSinks name s hs, fun values => hwidened.filtFun⟩

/-- `test/conf/Feeder_log.conf`, loaded. -/
def feederManager : LogManager Nat := after (Initialize severitySetup [.settings feederLog]) init

/-- A second load of the file throws at its logger. -/
theorem calls_only_add_feeder : ∃ m' : LogManager Nat,
    exec (call severitySetup) feederManager [.GetLogger 100 (feeder ++ dot :: feedSource),
      .Initialize [.settings feederLog]] = some m' ∧
    (∀ name id, feederManager.mIdMap.lookup name = some id → m'.mIdMap.lookup name = some id) ∧
    (∀ name p, feederManager.mLoggerInfos.lookup name = some p →
      m'.mLoggerInfos.lookup name = some p ∧
      (name ≠ rootName ∨ (feederManager.info p).FileId ≠ 0 →
        Unchanged (feederManager.info p) (m'.info p))) ∧
    ∀ name s, feederManager.mSinks.lookup name = some s → m'.mSinks.lookup name = some s ∧
      ∀ values, (feederManager.sink s).filtFun values = true →
        (m'.sink s).filtFun values = true := by
  have hreach : Reachable severitySetup feederManager := Reachable.init.Initialize _
  have hreturned : (exec (call severitySetup) feederManager
      [.GetLogger 100 (feeder ++ dot :: feedSource),
        .Initialize [.settings feederLog]]).isSome = true := by
    decide
  obtain ⟨m', hlater⟩ := Option.isSome_iff_exists.mp hreturned
  exact ⟨m', hlater, calls_only_add hreach hlater⟩

end Calls

/-! ## 5. What a load that threw leaves -/

section Thrown

variable {name : Bytes}

/-- A name with an info has an id, but for the root logger's. -/
def Identified (m : LogManager α) : Prop :=
  ∀ name p, m.mLoggerInfos.lookup name = some p → name ≠ rootName →
    (m.mIdMap.lookup name).isSome = true

theorem mIdMap_rootInfo (m : LogManager α) : m.rootInfo.2.mIdMap = m.mIdMap := by
  unfold LogManager.rootInfo
  cases m.mRootInfo <;> rfl

theorem loadInvariant_identified : LoadInvariant (α := α) Identified
    (fun m strName _ => strName ≠ rootName → (m.mIdMap.lookup strName).isSome = true) where
  nextFile h := h
  insertId := by
    intro m strName h _ _ id mIds name p hp hroot
    rw [UnorderedMap.lookup_insert_eq]
    split
    · rfl
    · exact h name p hp hroot
  rootInfo := by
    intro m h
    refine ⟨?_, fun hroot => absurd rfl hroot⟩
    unfold Identified
    rw [mLoggerInfos_rootInfo, mIdMap_rootInfo]
    exact h
  newInfo := by
    intro m strName id h _ hid
    exact ⟨h, fun _ => Option.isSome_iff_exists.mpr ⟨id, hid⟩⟩
  modifyInfo h _ _ _ := h
  modifyEntered h _ _ _ := h
  insertLogger := by
    intro m strName p h henter name q hq hroot
    rcases lookup_insertNew_cases hq with hold | ⟨rfl, rfl⟩
    · exact h name q hold hroot
    · exact henter hroot
  newSink h _ := h
  insertSink h _ _ _ := h

theorem maps_getLogger {fuel p : Nat} (hcall : m.getLogger fuel name = some (p, m')) :
    m'.mLoggerInfos = m.mLoggerInfos ∧ m'.mIdMap = m.mIdMap := by
  obtain ⟨m₁, hfound, hopen⟩ := getLogger_cases hcall
  have hmaps : m₁.mLoggerInfos = m.mLoggerInfos ∧ m₁.mIdMap = m.mIdMap := by
    rcases manager_of_getLoggerInfo hfound with rfl | rfl
    · exact ⟨rfl, rfl⟩
    · exact ⟨mLoggerInfos_rootInfo m, mIdMap_rootInfo m⟩
  rcases hopen with ⟨-, rfl⟩ | rfl
  · obtain ⟨-, hloggers, -⟩ := openLogger_frame m₁ p
    rw [hloggers, mIdMap_openLogger]
    exact hmaps
  · exact hmaps

theorem Reachable.identified {setup : LogSetup α} (hreach : Reachable setup m) : Identified m := by
  induction hreach with
  | init =>
      intro name p hp
      cases hp
  | Initialize files _ ih => exact loadInvariant_identified.Initialize setup files ih
  | GetLogger _ hcall ih =>
      obtain ⟨hloggers, hids⟩ := maps_getLogger hcall
      unfold Identified
      rw [hloggers, hids]
      exact ih

/-- A name in both maps is found in the first round. -/
theorem getLoggerInfo_of_lookup {p : Nat} (hid : (m.mIdMap.lookup name).isSome = true)
    (hp : m.mLoggerInfos.lookup name = some p) (fuel : Nat) :
    m.getLoggerInfo (fuel + 1) name = some (p, m) := by
  have hboth : m.InBothMaps name := ⟨hid, Option.isSome_iff_exists.mpr ⟨p, hp⟩⟩
  have hfound : m.registered (name.take name.length) = some p := by
    rw [List.take_length]
    exact registered_eq_some_iff.mpr ⟨hboth, hp⟩
  rw [getLoggerInfo, getLoggerInfoLoop, hfound]
  rfl

/-- Making a logger without sinks adds to no sink. -/
theorem getLogger_of_unlinked {p : Nat} (hid : (m.mIdMap.lookup name).isSome = true)
    (hp : m.mLoggerInfos.lookup name = some p) (hunlinked : (m.info p).SinkInfos = [])
    (fuel : Nat) :
    ∃ m', m.getLogger (fuel + 1) name = some (p, m') ∧ m'.mSinkInfoPool = m.mSinkInfoPool := by
  rw [getLogger, getLoggerInfo_of_lookup hid hp fuel, Option.map_some]
  refine ⟨_, rfl, ?_⟩
  split
  · rw [LogManager.openLogger, hunlinked]
    rfl
  · rfl

/-- Whether a name has a logger info. -/
def Taken (name : Bytes) (m : LogManager α) : Prop := (m.mLoggerInfos.lookup name).isSome = true

theorem Taken.insertLogger (h : Taken name m) (strName : Bytes) (p : Nat) :
    Taken name { m with mLoggerInfos := UnorderedMap.insertNew m.mLoggerInfos strName p } := by
  obtain ⟨q, hq⟩ := Option.isSome_iff_exists.mp h
  exact Option.isSome_iff_exists.mpr ⟨q, UnorderedMap.extends_insertNew _ _ _ name q hq⟩

theorem Taken.rootInfo (h : Taken name m) : Taken name m.rootInfo.2 := by
  unfold Taken
  rw [mLoggerInfos_rootInfo]
  exact h

theorem loadInvariant_taken (name : Bytes) :
    LoadInvariant (α := α) (Taken name) (fun _ _ _ => True) where
  nextFile h := h
  insertId h _ _ _ _ := h
  rootInfo h := ⟨h.rootInfo, trivial⟩
  newInfo h _ _ := ⟨h, trivial⟩
  modifyInfo h _ _ _ := h
  modifyEntered _ _ _ _ := trivial
  insertLogger h _ := h.insertLogger _ _
  newSink h _ := h
  insertSink h _ _ _ := h

variable (setup : LogSetup α)

theorem getId_taken (name strName : Bytes) (level : BitVec 8) (parentId : BitVec 64) :
    ⦃fun m => ⌜Taken name m⌝⦄ (getId strName level parentId : LogM α (BitVec 64))
    ⦃post⟨fun _ m => ⌜Taken name m⌝, fun _ _ => ⌜True⌝⟩⦄ := by
  mvcgen [getId]

theorem enterLogger_taken (hname : name ≠ rootName) (nLevel : BitVec 8) (strName : Bytes)
    (parentId : BitVec 64) :
    ⦃fun m => ⌜Taken name m⌝⦄ (enterLogger nLevel strName parentId : LogM α Nat)
    ⦃post⟨fun _ m => ⌜Taken name m ∧ name ≠ strName⌝, fun _ _ => ⌜True⌝⟩⦄ := by
  have hid := getId_taken (α := α) name
  mvcgen [enterLogger, hid]
  case vc1.isTrue.isFalse hroot m hm _ _ =>
    exact ⟨hm.rootInfo, fun hsame => hname (hsame.trans hroot)⟩
  case vc3.isFalse.isFalse.post.success _ m hm _ hfree _ _ hstate =>
    refine ⟨hstate, ?_⟩
    rintro rfl
    exact hfree hm

theorem configureLogger_taken (hname : name ≠ rootName) (sec : PropertyTree) (nLevel : BitVec 8)
    (loggers : List Nat) (strName : Bytes) (parentId : BitVec 64) :
    ⦃fun m => ⌜Taken name m⌝⦄ configureLogger setup sec nLevel loggers strName parentId
    ⦃post⟨fun _ m => ⌜Taken name m ∧ name ≠ strName⌝, fun _ _ => ⌜True⌝⟩⦄ := by
  have henter := enterLogger_taken (α := α) hname nLevel strName parentId
  have hread := parseFilter_spec setup (fun m => Taken name m ∧ name ≠ strName) sec
  mvcgen [configureLogger, henter, hread]
  case vc3.post.success.post.success =>
    exact ⟨Taken.insertLogger (And.left ‹_›) _ _, And.right ‹_›⟩

mutual

theorem loadLogger_taken (hname : name ≠ rootName) : ∀ (tree : PropertyTree) (nLevel : BitVec 8)
    (loggers : List Nat) (strName : Bytes) (parentId : BitVec 64),
    ⦃fun m => ⌜Taken name m⌝⦄ loadLogger setup tree nLevel loggers strName parentId
    ⦃post⟨fun _ m => ⌜Taken name m ∧ name ∉ tree.loggerNames strName⌝, fun _ _ => ⌜True⌝⟩⦄
  | .node data children, nLevel, loggers, strName, parentId => by
      have hconfigure := configureLogger_taken setup hname (.node data children)
      have hid := getId_taken (α := α) name
      have hchildren := fun id => loadLoggers_taken hname children nLevel loggers strName id
      unfold loadLogger
      mvcgen [hconfigure, hid, hchildren]
      case vc2.isTrue.post.success hsinks _ _ _ _ =>
        intro hm hne
        refine ⟨hm, ?_⟩
        rw [PropertyTree.loggerNames, if_pos hsinks]
        exact mt List.mem_singleton.mp hne
      case vc5.isFalse.isTrue.isTrue.post.success.post.success hsinks _ _ _ _ _ _ _ _ _ _ =>
        rw [PropertyTree.loggerNames, if_neg hsinks]
        exact And.intro
      case vc7.isFalse.isTrue.isFalse.post.success hsinks _ _ _ _ _ _ _ =>
        rw [PropertyTree.loggerNames, if_neg hsinks]
        exact And.intro
      case vc8.isFalse.isFalse hempty m hm =>
        rw [loggerNames_of_empty (eq_true_of_ne_false hempty)]
        exact ⟨hm, List.not_mem_nil⟩

theorem loadLoggers_taken (hname : name ≠ rootName) : ∀ (trees : PropertyTrees)
    (nLevel : BitVec 8) (loggers : List Nat) (strName : Bytes) (parentId : BitVec 64),
    ⦃fun m => ⌜Taken name m⌝⦄
    loadLoggers setup trees nLevel loggers (childName strName) parentId
    ⦃post⟨fun _ m => ⌜Taken name m ∧ name ∉ trees.loggerNames (childName strName)⌝,
      fun _ _ => ⌜True⌝⟩⦄
  | .nil, nLevel, loggers, strName, parentId => by
      mvcgen [loadLoggers]
      exact ⟨‹Taken name _›, List.not_mem_nil⟩
  | .cons key childSec rest, nLevel, loggers, strName, parentId => by
      have hchild := loadLogger_taken hname childSec (nLevel + 1) loggers
        (childName strName ++ key.val) parentId
      have hrest := fun loggers => loadLoggers_taken hname rest nLevel loggers strName parentId
      unfold loadLoggers
      mvcgen [hchild, hrest]
      case vc2.isTrue.post.success.pre =>
        exact And.left ‹_›
      case vc3.isTrue.post.success.post.success m hm _ _ =>
        intro hm' hlast
        refine ⟨hm', fun hmem => ?_⟩
        rcases List.mem_append.mp hmem with hfirst | hrest
        · exact hm.2 hfirst
        · exact hlast hrest
      case vc5.isFalse.post.success hempty _ _ _ _ =>
        intro hm hlast
        rw [PropertyTrees.loggerNames, loggerNames_of_empty (eq_true_of_ne_false hempty)]
        exact ⟨hm, hlast⟩

end

/-- **A file** that configures a name which has an info does not get through. -/
theorem loadConfig_taken (hname : name ≠ rootName) (file : ConfigFile) (loggers : List Nat) :
    ⦃fun m => ⌜Taken name m⌝⦄ loadConfig setup file loggers
    ⦃post⟨fun _ m => ⌜Taken name m ∧ name ∉ file.loggerNames⌝, fun _ _ => ⌜True⌝⟩⦄ := by
  cases file with
  | notOpened =>
      mvcgen [loadConfig]
      exact ⟨‹Taken name _›, List.not_mem_nil⟩
  | malformed => mvcgen [loadConfig]
  | settings setts =>
      have hcore := applyCore_spec setup (Taken name) setts
      have hsinks : ⦃fun m => ⌜Taken name m⌝⦄ applySinks setup setts
          ⦃post⟨fun _ m => ⌜Taken name m⌝, fun _ m => ⌜Taken name m⌝⟩⦄ := by
        have hsink := fun tree =>
          keeps_loadSink setup (loadInvariant_taken name).fileInvariant [] tree []
        mvcgen [applySinks, hsink]
      have hloggers : ⦃fun m => ⌜Taken name m⌝⦄ applyLoggers setup setts loggers
          ⦃post⟨fun _ m => ⌜Taken name m ∧ name ∉ (ConfigFile.settings setts).loggerNames⌝,
            fun _ _ => ⌜True⌝⟩⦄ := by
        cases hchild : setts.child loggersKey with
        | some logger_params =>
            simp only [applyLoggers, ConfigFile.loggerNames, hchild]
            exact loadLogger_taken setup hname logger_params _ loggers [] 0
        | none =>
            simp only [applyLoggers, ConfigFile.loggerNames, hchild]
            mvcgen
            exact ⟨‹Taken name _›, List.not_mem_nil⟩
      mvcgen [loadConfig, hcore, hsinks, hloggers]

theorem loadConfigs_taken (hname : name ≠ rootName) : ∀ (files : List ConfigFile)
    (loggers : List Nat),
    ⦃fun m => ⌜Taken name m⌝⦄ loadConfigs setup files loggers
    ⦃post⟨fun _ _ => ⌜∀ file ∈ files, name ∉ file.loggerNames⌝, fun _ _ => ⌜True⌝⟩⦄ := by
  intro files
  induction files with
  | nil =>
      intro loggers
      mvcgen [loadConfigs]
      exact fun file hfile => absurd hfile List.not_mem_nil
  | cons file files ih =>
      intro loggers
      have hfile := loadConfig_taken setup hname file
      mvcgen [loadConfigs, hfile, ih]
      case vc2.cons.post.success.pre =>
        exact And.left ‹_›
      case vc3.cons.post.success.post.success m hm _ _ =>
        intro hrest
        exact List.forall_mem_cons.mpr ⟨hm.2, hrest⟩

theorem Initialize_taken (hname : name ≠ rootName) (files : List ConfigFile) :
    ⦃fun m => ⌜Taken name m⌝⦄ Initialize setup files
    ⦃post⟨fun _ _ => ⌜∀ file ∈ files, name ∉ file.loggerNames⌝, fun _ _ => ⌜True⌝⟩⦄ := by
  cases files with
  | nil =>
      mvcgen [Initialize]
      exact fun file hfile => absurd hfile List.not_mem_nil
  | cons file files =>
      have hfiles := loadConfigs_taken setup hname (file :: files)
      mvcgen [Initialize, hfiles]

variable {setup}

/-- What a load that threw entered under a new name has no sinks. -/
theorem Underway.unlinked_of_new (h : Underway m₀ m []) {p : Nat} (hname : name ≠ rootName)
    (hbefore : m₀.mLoggerInfos.lookup name = none) (hafter : m.mLoggerInfos.lookup name = some p) :
    (m.info p).SinkInfos = [] := by
  rcases h.entered name p hafter with hold | hroot | hnew
  · rw [hbefore] at hold
    cases hold
  · exact absurd hroot hname
  · exact h.unlinked p hnew

/-- **A load that threw** cannot be made up for: a logger that it entered gets no sinks whatever
    is called later, a call for it returns it and changes no sink, and a load that configures it
    again throws. -/
theorem thrown_load_stays {m₁ : LogManager α} {files : List ConfigFile} {e : LogError} {p : Nat}
    {calls : List ManagerCall} (hreach : Reachable setup m)
    (hthrown : (Initialize setup files).run m = .error e m₁) (hname : name ≠ rootName)
    (hbefore : m.mLoggerInfos.lookup name = none) (hafter : m₁.mLoggerInfos.lookup name = some p)
    (hlater : exec (call setup) m₁ calls = some m') :
    m'.mLoggerInfos.lookup name = some p ∧ (m'.info p).SinkInfos = [] ∧
    (∀ fuel, ∃ m'', m'.getLogger (fuel + 1) name = some (p, m'') ∧
      m''.mSinkInfoPool = m'.mSinkInfoPool) ∧
    ∀ files', (∃ file ∈ files', name ∈ file.loggerNames) →
      ∃ e' m'', (Initialize setup files').run m' = .error e' m'' := by
  have hreach₁ : Reachable setup m₁ := after_of_error hthrown ▸ hreach.Initialize files
  have hextends := Extends.run hlater
  have hp := hextends.mLoggerInfos name p hafter
  have hunlinked : (m'.info p).SinkInfos = [] := by
    have hsettled := hreach₁.separate.settled hafter (Or.inl hname)
    rw [(hextends.unchanged p hsettled).SinkInfos]
    exact ((run_Initialize setup files m).2 e m₁ hthrown).unlinked_of_new hname hbefore hafter
  refine ⟨hp, hunlinked, ?_, ?_⟩
  · have hid := (hreach₁.run hlater).identified name p hp hname
    exact getLogger_of_unlinked hid hp hunlinked
  · rintro files' ⟨file, hfile, hagain⟩
    have htaken : Taken name m' := Option.isSome_iff_exists.mpr ⟨p, hp⟩
    cases hrun : (Initialize setup files').run m' with
    | ok b m'' =>
        have hnames := (run_of_spec (Initialize_taken setup hname files') htaken).1 b m'' hrun
        exact absurd hagain (hnames file hfile)
    | error e' m'' => exact ⟨e', m'', rfl⟩

/-- The file after it cannot be parsed. -/
theorem thrown_load_stays_feeder : ∃ m₁ m' : LogManager Nat,
    (Initialize severitySetup [.settings feederLog, .malformed]).run init = .error .setup m₁ ∧
    exec (call severitySetup) m₁ [.GetLogger 100 (feeder ++ dot :: feedSource)] = some m' ∧
    m'.mLoggerInfos.lookup (feeder ++ dot :: feedSource) = some 0 ∧
    (m'.info 0).SinkInfos = [] ∧
    (∀ fuel, ∃ m'', m'.getLogger (fuel + 1) (feeder ++ dot :: feedSource) = some (0, m'') ∧
      m''.mSinkInfoPool = m'.mSinkInfoPool) ∧
    ∀ files', (∃ file ∈ files', feeder ++ dot :: feedSource ∈ file.loggerNames) →
      ∃ e' m'', (Initialize severitySetup files').run m' = .error e' m'' := by
  have hthrown : thrown ((Initialize severitySetup [.settings feederLog, .malformed]).run init) =
      some .setup := by
    decide
  obtain ⟨m₁, hrun⟩ := exists_error_of_thrown hthrown
  have hafter : m₁.mLoggerInfos.lookup (feeder ++ dot :: feedSource) = some 0 := by
    rw [← after_of_error hrun]
    decide
  have hreturned : (exec (call severitySetup) m₁
      [.GetLogger 100 (feeder ++ dot :: feedSource)]).isSome = true := by
    rw [← after_of_error hrun]
    decide
  obtain ⟨m', hlater⟩ := Option.isSome_iff_exists.mp hreturned
  exact ⟨m₁, m', hrun, hlater, thrown_load_stays .init hrun (by decide) rfl hafter hlater⟩

example : (ConfigFile.settings feederLog).loggerNames = [feeder ++ dot :: feedSource] := by decide

end Thrown

end LogManager

end MemClient
