import MemClient.NameHierarchy
import MemClient.ServerItem
import MemClient.UnorderedMap

/-!
# The log manager

`log/LogManager.cpp`, `log/LoggerInfo.h` and `log/SinkInfo.h`: configuration
files are loaded into logger infos and sink infos, the names in each file's
`Loggers` section receive ids, and `GetLogger` opens a logger's route to its
sinks the first time it is asked for.

A pointer to a `LoggerInfo` or a `SinkInfo` is its index among those allocated.
What Boost.Log does itself is a parameter (`LogSetup`).  An exception leaves the
state as it was at the throw (`EStateM`).
-/

namespace MemClient

open ByteCodec NameHierarchy

/-! ## 1. Settings -/

def ascii (text : List Char) : Bytes := text.map fun c => BitVec.ofNat 8 c.toNat

def dot : Byte := 46
def comma : Byte := 44

/-- One component of a section's path.  The settings parser splits paths at the
    dots.  An empty component never gets through a load: in a property tree the
    section at the empty path is the section itself, so `LoadSink` and
    `LoadLogger` would descend without end. -/
abbrev SectionName := Segment dot

mutual

/-- `boost::property_tree::ptree`, which is what a settings section refers to. -/
inductive PropertyTree where
  | node (data : Bytes) (children : PropertyTrees)

/-- The children of a tree, in their order.  The settings parser puts each value
    at its path, so the child found under an iterated name is the one iterated. -/
inductive PropertyTrees where
  | nil
  | cons (name : SectionName) (tree : PropertyTree) (rest : PropertyTrees)

end

namespace PropertyTrees

def count (key : Bytes) : PropertyTrees → Nat
  | .nil => 0
  | .cons name _ rest => (if name.val = key then 1 else 0) + count key rest

def find (key : Bytes) : PropertyTrees → Option PropertyTree
  | .nil => none
  | .cons name tree rest => if name.val = key then some tree else find key rest

end PropertyTrees

namespace PropertyTree

def data : PropertyTree → Bytes
  | .node data _ => data

def children : PropertyTree → PropertyTrees
  | .node _ children => children

/-- Whether a section has neither parameters nor sections in it. -/
def empty : PropertyTree → Bool
  | .node _ .nil => true
  | .node _ (.cons ..) => false

def count (tree : PropertyTree) (key : Bytes) : Nat := tree.children.count key

def child (tree : PropertyTree) (key : Bytes) : Option PropertyTree := tree.children.find key

/-- `sec[key].get()`. -/
def get (tree : PropertyTree) (key : Bytes) : Option Bytes := (tree.child key).map data

end PropertyTree

/-- What `LoadConfig` finds at a path: no file it can open, text that
    `parse_settings` rejects, or settings. -/
inductive ConfigFile where
  | notOpened
  | malformed
  | settings (setts : PropertyTree)

/-! ## 2. Filters, sinks and loggers -/

/-- `logging::attribute_value_set`: the logger id, where the record has one, and
    all other attributes. -/
structure AttributeValues (α : Type) where
  LoggerId : Option (BitVec 64)
  others : α

abbrev LogFilter (α : Type) := AttributeValues α → Bool

/-- `expr::is_in_range(logger_id, least, most)`, a half-open range. -/
def isInRange {α : Type} (least most : BitVec 64) : LogFilter α := fun values =>
  match values.LoggerId with
  | some id => least ≤ id && id < most
  | none => false

/-- The functions of Boost.Log that loading calls.  `parse_filter` gives `none`
    and the other two `false` where they throw. -/
structure LogSetup (α : Type) where
  parse_filter : Bytes → Option (LogFilter α)
  construct_sink_from_settings : PropertyTree → Bool
  apply_core_settings : PropertyTree → Bool

structure SinkInfo (α : Type) where
  ReDirectFilter : LogFilter α := fun _ => false
  /-- A default constructed `logging::filter` passes every record. -/
  InitFilter : LogFilter α := fun _ => true
  Name : Bytes

namespace SinkInfo

variable {α : Type}

def addFilter (sink : SinkInfo α) (filt1 filt2 : LogFilter α) : SinkInfo α :=
  { sink with
    ReDirectFilter := fun values => (filt1 values && filt2 values) || sink.ReDirectFilter values }

def filtFun (sink : SinkInfo α) : LogFilter α := fun values =>
  sink.InitFilter values && sink.ReDirectFilter values

end SinkInfo

def LEVEL_BITS : Nat := 8
def MAX_LEVEL : Nat := 8

/-- A `Logger` with the attribute that `GetLogger` adds to it. -/
structure Logger where
  LoggerId : BitVec 64

structure LoggerInfo (α : Type) where
  Id : BitVec 64 := 0
  Level : BitVec 8 := 0
  FileId : BitVec 32 := 0
  Filter : LogFilter α := fun _ => true
  SinkNames : Bytes := []
  SinkInfos : List Nat := []
  Log : Option Logger := none

/-- The shift is computed in `int` and then converted to 64 bits. -/
def LoggerInfo.nextId {α : Type} (info : LoggerInfo α) : BitVec 64 :=
  let shift := BitVec.ofInt 64 (LEVEL_BITS * ((MAX_LEVEL : Int) - info.Level.toNat - 1))
  let delta := (1 : BitVec 64) <<< shift.toNat
  info.Id + delta

/-- Whether a logger's range and its filter accept a record, which is what it
    adds to each of its sinks. -/
def LoggerInfo.accepts {α : Type} (info : LoggerInfo α) : LogFilter α := fun values =>
  isInRange info.Id info.nextId values && info.Filter values

/-- How loading ends early: an exception of the manager's own, one of Boost.Log's,
    or the use of a level that `mIds` has no element for. -/
inductive LogError where
  | runtime_error (what : Bytes)
  | setup
  | pastLastLevel
deriving DecidableEq

structure LogManager (α : Type) where
  mLoggerInfos : UnorderedMap Bytes Nat := ∅
  mSinks : UnorderedMap Bytes Nat := ∅
  mIdMap : UnorderedMap Bytes (BitVec 64) := ∅
  mIds : Vector (BitVec 32) MAX_LEVEL
  mIdMultiple : Vector (BitVec 64) MAX_LEVEL
  mFileId : BitVec 32 := 0
  /-- Set by the first call of `RootInfo`. -/
  mRootInfo : Option Nat := none
  /-- The logger infos allocated so far. -/
  infos : List (LoggerInfo α) := []
  mSinkInfoPool : List (SinkInfo α) := []

abbrev LogM (α : Type) := EStateM LogError (LogManager α)

namespace LogManager

variable {α : Type}

/-- The loop of the constructor: at each step the two tables and `multiple`. -/
def tables : Vector (BitVec 32) MAX_LEVEL × Vector (BitVec 64) MAX_LEVEL × BitVec 64 :=
  let stepMulti := BitVec.ofNat 64 (1 <<< LEVEL_BITS)
  (List.finRange MAX_LEVEL).foldl
    (fun (mIds, mIdMultiple, multiple) (i : Fin MAX_LEVEL) =>
      (mIds.set i 1, mIdMultiple.set i.rev multiple, multiple * stepMulti))
    (Vector.replicate MAX_LEVEL 0, Vector.replicate MAX_LEVEL 0, 1)

/-- The manager as constructed. -/
def init : LogManager α where
  mIds := tables.1
  mIdMultiple := tables.2.1

def info (m : LogManager α) (p : Nat) : LoggerInfo α := m.infos.getD p {}

def sink (m : LogManager α) (s : Nat) : SinkInfo α := m.mSinkInfoPool.getD s { Name := [] }

def modifyInfo (m : LogManager α) (p : Nat) (f : LoggerInfo α → LoggerInfo α) : LogManager α :=
  { m with infos := m.infos.modify p f }

def modifySink (m : LogManager α) (s : Nat) (f : SinkInfo α → SinkInfo α) : LogManager α :=
  { m with mSinkInfoPool := m.mSinkInfoPool.modify s f }

/-- A pool with one object changed. -/
theorem getD_modify {β : Type} (pool : List β) (p q : Nat) (f : β → β) (default : β) :
    (pool.modify p f).getD q default =
      if p = q ∧ q < pool.length then f (pool.getD q default) else pool.getD q default := by
  simp only [List.getD_eq_getElem?_getD, List.getElem?_modify]
  split_ifs with h₁ h₂ h₂ <;> simp_all

theorem info_modifyInfo (m : LogManager α) (p q : Nat) (f : LoggerInfo α → LoggerInfo α) :
    (m.modifyInfo p f).info q = if p = q ∧ q < m.infos.length then f (m.info q) else m.info q := by
  exact getD_modify _ _ _ _ _

theorem length_modifyInfo (m : LogManager α) (p : Nat) (f : LoggerInfo α → LoggerInfo α) :
    (m.modifyInfo p f).infos.length = m.infos.length := List.length_modify ..

theorem sink_modifySink (m : LogManager α) (s t : Nat) (f : SinkInfo α → SinkInfo α) :
    (m.modifySink s f).sink t =
      if s = t ∧ t < m.mSinkInfoPool.length then f (m.sink t) else m.sink t := by
  exact getD_modify _ _ _ _ _

theorem length_modifySink (m : LogManager α) (s : Nat) (f : SinkInfo α → SinkInfo α) :
    (m.modifySink s f).mSinkInfoPool.length = m.mSinkInfoPool.length := List.length_modify ..

/-- A pool with one more object. -/
theorem getD_concat {β : Type} (pool : List β) (object default : β) (q : Nat) :
    (pool ++ [object]).getD q default =
      if q = pool.length then object else pool.getD q default := by
  simp only [List.getD_eq_getElem?_getD]
  rcases Nat.lt_trichotomy q pool.length with hlt | rfl | hgt
  · rw [List.getElem?_append_left hlt, if_neg (Nat.ne_of_lt hlt)]
  · rw [List.getElem?_concat_length, if_pos rfl, Option.getD_some]
  · rw [if_neg (Nat.ne_of_gt hgt), List.getElem?_eq_none (Nat.le_of_lt hgt),
      List.getElem?_eq_none (by rw [List.length_append, List.length_singleton]; omega)]

/-- `new LoggerInfo()` and the first assignments to its fields. -/
def newInfo (m : LogManager α) (info : LoggerInfo α) : LogManager α :=
  { m with infos := m.infos ++ [info] }

theorem info_newInfo (m : LogManager α) (info : LoggerInfo α) (q : Nat) :
    (m.newInfo info).info q = if q = m.infos.length then info else m.info q := by
  exact getD_concat _ _ _ _

theorem length_newInfo (m : LogManager α) (info : LoggerInfo α) :
    (m.newInfo info).infos.length = m.infos.length + 1 := List.length_append

/-- `mSinkInfoPool.construct(name, pSink)`. -/
def newSink (m : LogManager α) (name : Bytes) : LogManager α :=
  { m with mSinkInfoPool := m.mSinkInfoPool ++ [{ Name := name }] }

theorem sink_newSink (m : LogManager α) (name : Bytes) (t : Nat) :
    (m.newSink name).sink t =
      if t = m.mSinkInfoPool.length then { Name := name } else m.sink t := by
  exact getD_concat _ _ _ _

theorem length_newSink (m : LogManager α) (name : Bytes) :
    (m.newSink name).mSinkInfoPool.length = m.mSinkInfoPool.length + 1 := List.length_append

/-- `RootInfo()`: the pointer, and the manager with the root logger made. -/
def rootInfo (m : LogManager α) : Nat × LogManager α :=
  match m.mRootInfo with
  | some p => (p, m)
  | none => (m.infos.length, { m.newInfo {} with mRootInfo := some m.infos.length })

/-! ## 3. Loading -/

def getId (name : Bytes) (level : BitVec 8) (parentId : BitVec 64) : LogM α (BitVec 64) := do
  let m ← get
  match m.mIdMap.lookup name with
  | some id => pure id
  | none =>
      if h : level.toNat < MAX_LEVEL then
        let id := m.mIds[level.toNat].setWidth 64 * m.mIdMultiple[level.toNat] + parentId
        set { m with
          mIds := m.mIds.set level.toNat (m.mIds[level.toNat] + 1)
          mIdMap := m.mIdMap.insert name id }
        pure id
      else throw .pastLastLevel

section Loading

variable (setup : LogSetup α)

/-- `parse_filter` on the section's filter, if it has one. -/
def parseFilter (sec : PropertyTree) : LogM α (Option (LogFilter α)) :=
  match sec.get (ascii ['F', 'i', 'l', 't', 'e', 'r']) with
  | none => pure none
  | some text =>
      match setup.parse_filter text with
      | some filter => pure (some filter)
      | none => throw .setup

def doubleInitialize (what : List Char) (name : Bytes) : LogError :=
  .runtime_error (ascii ['D', 'o', 'u', 'b', 'l', 'e', ' ', 'i', 'n', 'i', 't', 'i', 'a', 'l',
      'i', 'z', 'e', ' '] ++ ascii what ++ name ++
    ascii [' ', 'd', 'o', 'e', 's', 'n'] ++ 39 ::
      ascii ['t', ' ', 'a', 'l', 'l', 'o', 'w', 'e', 'd', '.'])

/-- The branch of `LoadSink` for a section with a destination. -/
def constructSink (sinkSec : PropertyTree) (strName : Bytes) : LogM α Unit := do
  let m ← get
  if (m.mSinks.lookup strName).isSome then throw (doubleInitialize [] strName)
  let name := strName ++ decimal m.mFileId.toNat
  if setup.construct_sink_from_settings sinkSec = false then throw .setup
  let pSinkInfo := m.mSinkInfoPool.length
  set (m.newSink name)
  let filter ← parseFilter setup sinkSec
  modify fun m =>
    { m.modifySink pSinkInfo fun sink => { sink with InitFilter := filter.getD sink.InitFilter }
      with mSinks := UnorderedMap.insertNew m.mSinks name pSinkInfo }

/-- `childName`: the name and a dot, or nothing for the outermost section. -/
def childName (strName : Bytes) : Bytes := if strName.length ≠ 0 then strName ++ [dot] else strName

mutual

def loadSink : PropertyTree → Bytes → LogM α Unit
  | .node data children, strName =>
      if (PropertyTree.node data children).count
          (ascii ['D', 'e', 's', 't', 'i', 'n', 'a', 't', 'i', 'o', 'n']) = 1 then
        constructSink setup (.node data children) strName
      else loadSinks children (childName strName)

/-- The loop of `LoadSink` over the sections in a section. -/
def loadSinks : PropertyTrees → Bytes → LogM α Unit
  | .nil, _ => pure ()
  | .cons name childSec rest, childName => do
      if childSec.empty = false then loadSink childSec (childName ++ name.val)
      loadSinks rest childName

end

def rootName : Bytes := ascii ['R', 'o', 'o', 't']

/-- The logger info of a section with sinks, before its parameters are read. -/
def enterLogger (nLevel : BitVec 8) (strName : Bytes) (parentId : BitVec 64) : LogM α Nat := do
  if strName = rootName then
    let (pInfo, m) := (← get).rootInfo
    set m
    if (m.info pInfo).FileId ≠ 0 then
      throw (doubleInitialize ['R', 'o', 'o', 't', ' ', 'l', 'o', 'g', 'g', 'e', 'r'] [])
    pure pInfo
  else
    let m ← get
    if (m.mLoggerInfos.lookup strName).isSome then
      throw (doubleInitialize ['L', 'o', 'g', 'g', 'e', 'r', ' '] strName)
    let id ← getId strName nLevel parentId
    let m ← get
    set (m.newInfo { Id := id, Level := nLevel })
    pure m.infos.length

def sinksKey : Bytes := ascii ['S', 'i', 'n', 'k', 's']

/-- The branch of `LoadLogger` for a section with sinks. -/
def configureLogger (sec : PropertyTree) (nLevel : BitVec 8) (loggers : List Nat)
    (strName : Bytes) (parentId : BitVec 64) : LogM α (List Nat) := do
  let pInfo ← enterLogger nLevel strName parentId
  modify fun m => m.modifyInfo pInfo fun info =>
    { info with FileId := m.mFileId, SinkNames := (sec.get sinksKey).getD info.SinkNames }
  let filter ← parseFilter setup sec
  modify fun m =>
    { m.modifyInfo pInfo fun info => { info with Filter := filter.getD info.Filter } with
      mLoggerInfos := UnorderedMap.insertNew m.mLoggerInfos strName pInfo }
  pure (loggers ++ [pInfo])

mutual

def loadLogger : PropertyTree → BitVec 8 → List Nat → Bytes → BitVec 64 → LogM α (List Nat)
  | .node data children, nLevel, loggers, strName, parentId => do
      if (PropertyTree.node data children).count sinksKey = 1 then
        configureLogger setup (.node data children) nLevel loggers strName parentId
      else if (PropertyTree.node data children).empty = false then
        let parentId ←
          if strName.length ≠ 0 then getId strName nLevel parentId else pure parentId
        loadLoggers children nLevel loggers (childName strName) parentId
      else pure loggers

/-- The loop of `LoadLogger` over the sections in a section. -/
def loadLoggers : PropertyTrees → BitVec 8 → List Nat → Bytes → BitVec 64 → LogM α (List Nat)
  | .nil, _, loggers, _, _ => pure loggers
  | .cons name childSec rest, nLevel, loggers, childName, parentId => do
      let loggers ←
        if childSec.empty = false then
          loadLogger childSec (nLevel + 1) loggers (childName ++ name.val) parentId
        else pure loggers
      loadLoggers rest nLevel loggers childName parentId

end

/-- Apply core settings. -/
def applyCore (setts : PropertyTree) : LogM α Unit :=
  match setts.child (ascii ['C', 'o', 'r', 'e']) with
  | some core_params =>
      if core_params.empty || setup.apply_core_settings core_params then pure ()
      else throw .setup
  | none => pure ()

/-- Construct and initialize sinks. -/
def applySinks (setts : PropertyTree) : LogM α Unit :=
  match setts.child (ascii ['S', 'i', 'n', 'k', 's']) with
  | some sink_params => loadSink setup sink_params []
  | none => pure ()

def loggersKey : Bytes := ascii ['L', 'o', 'g', 'g', 'e', 'r', 's']

/-- The level -1 is passed in 8 bits. -/
def applyLoggers (setts : PropertyTree) (loggers : List Nat) : LogM α (List Nat) :=
  match setts.child loggersKey with
  | some logger_params => loadLogger setup logger_params 255#8 loggers [] 0
  | none => pure loggers

def nextFile (m : LogManager α) : LogManager α := { m with mFileId := m.mFileId + 1 }

def loadConfig (file : ConfigFile) (loggers : List Nat) : LogM α (List Nat) :=
  match file with
  | .notOpened => pure loggers
  | .malformed => do
      modify nextFile
      throw .setup
  | .settings setts => do
      modify nextFile
      applyCore setup setts
      applySinks setup setts
      applyLoggers setup setts loggers

def loadConfigs : List ConfigFile → List Nat → LogM α (List Nat)
  | [], loggers => pure loggers
  | config :: configs, loggers => do
      let loggers ← loadConfig setup config loggers
      loadConfigs configs loggers

/-- `boost::split` at commas with `token_compress_on`: adjacent commas count as one. -/
def splitTokens : Bytes → List Bytes
  | [] => [[]]
  | c :: cs =>
      if c = comma then
        if cs.head? = some comma then splitTokens cs else [] :: splitTokens cs
      else
        match splitTokens cs with
        | [] => [[c]]
        | token :: tokens => (c :: token) :: tokens

/-- The body of the loop of `LinkLoggerWithSink`. -/
def linkLogger (m : LogManager α) (pLogInfo : Nat) : LogManager α :=
  let fileId := decimal (m.info pLogInfo).FileId.toNat
  let sinks := (splitTokens (m.info pLogInfo).SinkNames).filterMap fun name =>
    m.mSinks.lookup (name ++ fileId)
  m.modifyInfo pLogInfo fun info => { info with SinkInfos := info.SinkInfos ++ sinks }

def linkLoggerWithSink (m : LogManager α) (loggers : List Nat) : LogManager α :=
  loggers.foldl linkLogger m

/-- `Initialize`, from the files found at its path on. -/
def Initialize (configs : List ConfigFile) : LogM α Bool :=
  match configs with
  | [] => pure false
  | config :: configs => do
      let loggers ← loadConfigs setup (config :: configs) []
      modify fun m => m.linkLoggerWithSink loggers
      pure true

/-- The manager after a call, whether it returned or threw. -/
def after {β : Type} (x : LogM α β) (m : LogManager α) : LogManager α :=
  match x.run m with
  | .ok _ m => m
  | .error _ m => m

/-- Configuration files loaded one after another, each with the vector of loggers
    that the call was given. -/
def loadAll (loads : List (ConfigFile × List Nat)) (m : LogManager α) : LogManager α :=
  loads.foldl (fun m load => after (loadConfig setup load.1 load.2) m) m

end Loading

/-! ## 4. Lookup -/

/-- `name.find_last_of('.', pos)`. -/
def findLastOf (name : Bytes) (pos : Nat) : Option Nat :=
  (List.range name.length).reverse.find? fun i => i ≤ pos && name[i]? == some dot

/-- `lastPos - 1` in `size_t`: before the first position comes `npos`. -/
def before (lastPos : Nat) : Nat := if lastPos = 0 then 2 ^ 64 - 1 else lastPos - 1

/-- The info under a key that both maps have. -/
def registered (m : LogManager α) (key : Bytes) : Option Nat :=
  if (m.mIdMap.lookup key).isSome then m.mLoggerInfos.lookup key else none

/-- The loop of `GetLoggerInfo`, at most `fuel` rounds of it: `none` where it is
    still running then, `some none` where it ends without a logger info. -/
def getLoggerInfoLoop (m : LogManager α) (name : Bytes) : Nat → Nat → Option (Option Nat)
  | 0, _ => none
  | fuel + 1, lastPos =>
      match m.registered (name.take lastPos) with
      | some pInfo => some (some pInfo)
      | none =>
          match findLastOf name (before lastPos) with
          | some pos => getLoggerInfoLoop m name fuel pos
          | none => some none

def getLoggerInfo (m : LogManager α) (fuel : Nat) (name : Bytes) :
    Option (Nat × LogManager α) :=
  (m.getLoggerInfoLoop name fuel name.length).map fun found =>
    match found with
    | some pInfo => (pInfo, m)
    | none => m.rootInfo

/-- The loop of `GetLogger` over a logger's sinks. -/
def addFilters (m : LogManager α) (sinks : List Nat) (filt1 filt2 : LogFilter α) :
    LogManager α :=
  sinks.foldl (fun m pSink => m.modifySink pSink fun sink => sink.addFilter filt1 filt2) m

/-- The logger of an info, with its attribute. -/
def makeLogger (m : LogManager α) (pInfo : Nat) : LogManager α :=
  m.modifyInfo pInfo fun info => { info with Log := some ⟨info.Id⟩ }

/-- A logger made, and its route added to each of its sinks. -/
def openLogger (m : LogManager α) (pInfo : Nat) : LogManager α :=
  (m.makeLogger pInfo).addFilters (m.info pInfo).SinkInfos
    (isInRange (m.info pInfo).Id (m.info pInfo).nextId) (m.info pInfo).Filter

/-- `GetLogger`: the info whose logger it returns, and the manager after it. -/
def getLogger (m : LogManager α) (fuel : Nat) (name : Bytes) : Option (Nat × LogManager α) :=
  (m.getLoggerInfo fuel name).map fun (pInfo, m) =>
    (pInfo, if (m.info pInfo).Log.isNone then m.openLogger pInfo else m)

/-- A sequence of `GetLogger` calls on which every lookup returns: the infos whose
    loggers they returned, and the manager after them. -/
def getLoggers (m : LogManager α) (fuel : Nat) : List Bytes → Option (List Nat × LogManager α)
  | [] => some ([], m)
  | name :: names => do
      let (pInfo, m) ← m.getLogger fuel name
      let (pInfos, m) ← m.getLoggers fuel names
      pure (pInfo :: pInfos, m)

end LogManager

/-! ## 5. A configuration -/

/-- A section with the given parameters and sections in it. -/
def PropertyTree.ofList (children : List (SectionName × PropertyTree)) : PropertyTree :=
  .node [] (children.foldr (fun child rest => .cons child.1 child.2 rest) .nil)

def feeder : Bytes := ascii ['F', 'e', 'e', 'd', 'e', 'r']
def feedSource : Bytes := ascii ['F', 'e', 'e', 'd', 'S', 'o', 'u', 'r', 'c', 'e']
def console : Bytes := ascii ['C', 'o', 'n', 's', 'o', 'l', 'e']
def severityFilter : Bytes :=
  ascii ['%', 'S', 'e', 'v', 'e', 'r', 'i', 't', 'y', '%', ' ', '>', ' ', '1']

namespace LogManager

def sinksName : SectionName := ⟨sinksKey, by decide⟩
def loggersName : SectionName := ⟨loggersKey, by decide⟩
def destinationName : SectionName :=
  ⟨ascii ['D', 'e', 's', 't', 'i', 'n', 'a', 't', 'i', 'o', 'n'], by decide⟩
def consoleName : SectionName := ⟨console, by decide⟩
def feederName : SectionName := ⟨feeder, by decide⟩
def feedSourceName : SectionName := ⟨feedSource, by decide⟩
def filterName : SectionName := ⟨ascii ['F', 'i', 'l', 't', 'e', 'r'], by decide⟩

end LogManager

/-- `test/conf/Feeder_log.conf`, with one of its sinks. -/
def feederLog : PropertyTree :=
  .ofList [
    (⟨LogManager.sinksKey, by decide⟩, .ofList [(⟨console, by decide⟩, .ofList [
      (⟨ascii ['D', 'e', 's', 't', 'i', 'n', 'a', 't', 'i', 'o', 'n'], by decide⟩,
        .node console .nil)])]),
    (⟨LogManager.loggersKey, by decide⟩, .ofList [(⟨feeder, by decide⟩, .ofList [
      (⟨feedSource, by decide⟩, .ofList [
        (⟨LogManager.sinksKey, by decide⟩, .node console .nil),
        (⟨ascii ['F', 'i', 'l', 't', 'e', 'r'], by decide⟩, .node severityFilter .nil)])])])]

/-- Records with a severity, and the one filter text of that configuration. -/
def severitySetup : LogSetup Nat where
  parse_filter text := if text = severityFilter then some fun values => values.others > 1 else none
  construct_sink_from_settings _ := true
  apply_core_settings _ := true

end MemClient
