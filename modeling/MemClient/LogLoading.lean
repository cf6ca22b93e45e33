import MemClient.LogManager

/-!
# What a load of configuration files keeps

A `FileInvariant` is kept by each of the manager's updates, where they happen; one
triple for each function that loads says that it is kept by loading.  A
`LoadInvariant` does not ask where an update happens.  `Loaded` is what every
manager satisfies on which no `GetLogger` was called yet: the pointers in its
maps are allocated, the info under a name has the id and the level of that name,
no logger is made and every sink still turns all records away.
-/

namespace MemClient

open ByteCodec NameHierarchy Std.Do

set_option mvcgen.warning false

namespace LogManager

variable {α : Type} {m : LogManager α}

/-! ## 1. Levels -/

/-- The level that comes with a name: the dots in it, and 255 with the empty name
    of the section `Loggers` itself. -/
def levelOf (name : Bytes) : BitVec 8 :=
  if name = [] then 255#8 else BitVec.ofNat 8 (name.count dot)

theorem childName_ne_nil (strName : Bytes) (name : SectionName) :
    childName strName ++ name.val ≠ [] := by
  intro hnil
  exact name.property.1 (List.append_eq_nil_iff.mp hnil).2

theorem levelOf_childName (strName : Bytes) (name : SectionName) :
    levelOf (childName strName ++ name.val) = levelOf strName + 1 := by
  have hname : name.val.count dot = 0 := List.count_eq_zero.mpr name.property.2
  rw [levelOf, if_neg (childName_ne_nil strName name), List.count_append, hname, levelOf]
  by_cases hnil : strName = []
  · subst hnil
    rfl
  · have hlength : strName.length ≠ 0 := mt List.length_eq_zero_iff.mp hnil
    rw [if_neg hnil, childName, if_pos hlength, List.count_append]
    apply BitVec.eq_of_toNat_eq
    simp

/-! ## 2. The invariant -/

/-- Every pointer that the manager keeps is one to something allocated. -/
structure Allocated (m : LogManager α) : Prop where
  loggers : ∀ name p, m.mLoggerInfos.lookup name = some p → p < m.infos.length
  root : ∀ p, m.mRootInfo = some p → p < m.infos.length
  sinks : ∀ name s, m.mSinks.lookup name = some s → s < m.mSinkInfoPool.length

theorem Allocated.newInfo (halloc : Allocated m) (info : LoggerInfo α) :
    Allocated (m.newInfo info) := by
  refine ⟨?_, ?_, halloc.sinks⟩
  · intro name p hp
    rw [length_newInfo]
    exact Nat.lt_succ_of_lt (halloc.loggers name p hp)
  · intro p hp
    rw [length_newInfo]
    exact Nat.lt_succ_of_lt (halloc.root p hp)

theorem Allocated.modifyInfo (halloc : Allocated m) (p : Nat)
    (f : LoggerInfo α → LoggerInfo α) : Allocated (m.modifyInfo p f) := by
  refine ⟨?_, ?_, halloc.sinks⟩
  · intro name q hq
    rw [length_modifyInfo]
    exact halloc.loggers name q hq
  · intro q hq
    rw [length_modifyInfo]
    exact halloc.root q hq

theorem Allocated.rootInfo (halloc : Allocated m) :
    Allocated m.rootInfo.2 ∧ m.rootInfo.1 < m.rootInfo.2.infos.length := by
  unfold LogManager.rootInfo
  cases hroot : m.mRootInfo with
  | some p => exact ⟨halloc, halloc.root p hroot⟩
  | none =>
      have hnew : Allocated (m.newInfo {}) := halloc.newInfo {}
      have hlt : m.infos.length < (m.newInfo {}).infos.length :=
        length_newInfo m {} ▸ Nat.lt_succ_self _
      refine ⟨⟨hnew.loggers, ?_, hnew.sinks⟩, hlt⟩
      intro p hp
      exact Option.some.inj hp ▸ hlt

/-- What a new name changes in a map of pointers. -/
theorem lookup_insertNew_cases {strName name : Bytes} {p q : Nat} {map : UnorderedMap Bytes Nat}
    (hq : (UnorderedMap.insertNew map strName p).lookup name = some q) :
    map.lookup name = some q ∨ name = strName ∧ q = p := by
  rw [UnorderedMap.lookup_insertNew_eq] at hq
  by_cases hname : name = strName
  · rw [if_pos hname] at hq
    cases hold : map.lookup strName with
    | none =>
        rw [hold] at hq
        exact Or.inr ⟨hname, (Option.some.inj hq).symm⟩
    | some r =>
        rw [hold] at hq
        rw [hname, hold]
        exact Or.inl hq
  · rw [if_neg hname] at hq
    exact Or.inl hq

theorem Allocated.insertLogger (halloc : Allocated m) {p : Nat} (hp : p < m.infos.length)
    (strName : Bytes) :
    Allocated { m with mLoggerInfos := UnorderedMap.insertNew m.mLoggerInfos strName p } := by
  refine ⟨?_, halloc.root, halloc.sinks⟩
  intro name q hq
  rcases lookup_insertNew_cases hq with hold | ⟨rfl, rfl⟩
  · exact halloc.loggers name q hold
  · exact hp

theorem Allocated.newSink (halloc : Allocated m) (name : Bytes) : Allocated (m.newSink name) := by
  refine ⟨halloc.loggers, halloc.root, ?_⟩
  intro other s hs
  have hlt := halloc.sinks other s hs
  simp only [LogManager.newSink, List.length_append, List.length_singleton]
  omega

theorem Allocated.insertSink (halloc : Allocated m) {s : Nat} (hs : s < m.mSinkInfoPool.length)
    (name : Bytes) (filter : Option (LogFilter α)) :
    Allocated { m.modifySink s fun sink => { sink with InitFilter := filter.getD sink.InitFilter }
      with mSinks := UnorderedMap.insertNew m.mSinks name s } := by
  refine ⟨halloc.loggers, halloc.root, ?_⟩
  intro other t ht
  show t < (m.modifySink s _).mSinkInfoPool.length
  rw [length_modifySink]
  rcases lookup_insertNew_cases ht with hold | ⟨rfl, rfl⟩
  · exact halloc.sinks other t hold
  · exact hs

/-- What a manager satisfies until a logger is asked for. -/
structure Loaded (m : LogManager α) : Prop extends Allocated m where
  /-- The info under any name but the root logger's has the name's id and level. -/
  named : ∀ name p, m.mLoggerInfos.lookup name = some p → name ≠ rootName →
    m.mIdMap.lookup name = some (m.info p).Id ∧ (m.info p).Level = levelOf name
  nameless : m.mIdMap.lookup [] = none
  unopened : ∀ p, (m.info p).Log = none
  silent : ∀ s values, (m.sink s).ReDirectFilter values = false

theorem loaded_init : Loaded (init : LogManager α) where
  loggers := fun name p h => by cases h
  root := fun p h => by cases h
  named := fun name p h => by cases h
  nameless := rfl
  unopened := fun p => rfl
  sinks := fun name s h => by cases h
  silent := fun s values => rfl

theorem Loaded.nextFile (hload : Loaded m) : Loaded m.nextFile :=
  ⟨⟨hload.loggers, hload.root, hload.sinks⟩, hload.named, hload.nameless, hload.unopened,
    hload.silent⟩

theorem Loaded.insertId (hload : Loaded m) {name : Bytes} (hnew : m.mIdMap.lookup name = none)
    (hne : name ≠ []) (id : BitVec 64) (mIds : Vector (BitVec 32) MAX_LEVEL) :
    Loaded { m with mIds := mIds, mIdMap := m.mIdMap.insert name id } := by
  refine ⟨⟨hload.loggers, hload.root, hload.sinks⟩, ?_, ?_, hload.unopened, hload.silent⟩
  · intro other p hother hroot
    obtain ⟨hid, hlevel⟩ := hload.named other p hother hroot
    refine ⟨?_, hlevel⟩
    rw [UnorderedMap.lookup_insert_eq, if_neg, hid]
    · rfl
    · rintro rfl
      rw [hnew] at hid
      cases hid
  · rw [UnorderedMap.lookup_insert_eq, if_neg hne.symm, hload.nameless]

theorem Loaded.newInfo (hload : Loaded m) {info : LoggerInfo α} (hlog : info.Log = none) :
    Loaded (m.newInfo info) := by
  refine ⟨hload.toAllocated.newInfo info, ?_, hload.nameless, ?_, hload.silent⟩
  · intro name p hp hroot
    rw [info_newInfo, if_neg (Nat.ne_of_lt (hload.loggers name p hp))]
    exact hload.named name p hp hroot
  · intro p
    rw [info_newInfo]
    split
    · exact hlog
    · exact hload.unopened p

theorem Loaded.rootInfo (hload : Loaded m) : Loaded m.rootInfo.2 := by
  have halloc := hload.toAllocated.rootInfo.1
  unfold LogManager.rootInfo at halloc ⊢
  cases hroot : m.mRootInfo with
  | some p => exact hload
  | none =>
      rw [hroot] at halloc
      have hnew : Loaded (m.newInfo {}) := hload.newInfo rfl
      exact ⟨halloc, hnew.named, hnew.nameless, hnew.unopened, hnew.silent⟩

/-- An update of the fields that a section's parameters give. -/
structure SetsParameters (f : LoggerInfo α → LoggerInfo α) : Prop where
  Id : ∀ info, (f info).Id = info.Id
  Level : ∀ info, (f info).Level = info.Level
  Log : ∀ info, (f info).Log = info.Log

theorem SetsParameters.fields {f : LoggerInfo α → LoggerInfo α} (hf : SetsParameters f)
    (m : LogManager α) (p q : Nat) :
    ((m.modifyInfo p f).info q).Id = (m.info q).Id ∧
      ((m.modifyInfo p f).info q).Level = (m.info q).Level ∧
      ((m.modifyInfo p f).info q).Log = (m.info q).Log := by
  rw [info_modifyInfo]
  split
  · exact ⟨hf.Id _, hf.Level _, hf.Log _⟩
  · exact ⟨rfl, rfl, rfl⟩

theorem Loaded.modifyInfo (hload : Loaded m) (p : Nat) {f : LoggerInfo α → LoggerInfo α}
    (hf : SetsParameters f) : Loaded (m.modifyInfo p f) := by
  have hsame := hf.fields m p
  refine ⟨hload.toAllocated.modifyInfo p f, ?_, hload.nameless, ?_, hload.silent⟩
  · intro name q hq hroot
    rw [(hsame q).1, (hsame q).2.1]
    exact hload.named name q hq hroot
  · intro q
    rw [(hsame q).2.2]
    exact hload.unopened q

/-- What `LoadLogger` knows of the info it configures under a name. -/
structure Entered (m : LogManager α) (strName : Bytes) (p : Nat) : Prop where
  lt : p < m.infos.length
  named : strName ≠ rootName →
    m.mIdMap.lookup strName = some (m.info p).Id ∧ (m.info p).Level = levelOf strName

theorem Entered.modifyInfo {strName : Bytes} {p : Nat} (henter : Entered m strName p) (q : Nat)
    {f : LoggerInfo α → LoggerInfo α} (hf : SetsParameters f) :
    Entered (m.modifyInfo q f) strName p := by
  have hsame := hf.fields m q p
  refine ⟨length_modifyInfo m q f ▸ henter.lt, fun hroot => ?_⟩
  rw [hsame.1, hsame.2.1]
  exact henter.named hroot

theorem Loaded.insertLogger (hload : Loaded m) {strName : Bytes} {p : Nat}
    (henter : Entered m strName p) :
    Loaded { m with mLoggerInfos := UnorderedMap.insertNew m.mLoggerInfos strName p } := by
  refine ⟨hload.toAllocated.insertLogger henter.lt strName, ?_, hload.nameless, hload.unopened,
    hload.silent⟩
  intro name q hq hroot
  rcases lookup_insertNew_cases hq with hold | ⟨rfl, rfl⟩
  · exact hload.named name q hold hroot
  · exact henter.named hroot

theorem Loaded.newSink (hload : Loaded m) (name : Bytes) :
    Loaded (m.newSink name) := by
  refine ⟨hload.toAllocated.newSink name, hload.named, hload.nameless, hload.unopened, ?_⟩
  intro s values
  rw [sink_newSink]
  split
  · rfl
  · exact hload.silent s values

/-- A sink gets its filter and its name. -/
theorem Loaded.insertSink (hload : Loaded m) {s : Nat} (hs : s < m.mSinkInfoPool.length)
    (name : Bytes) (filter : Option (LogFilter α)) :
    Loaded { m.modifySink s fun sink => { sink with InitFilter := filter.getD sink.InitFilter }
      with mSinks := UnorderedMap.insertNew m.mSinks name s } := by
  refine ⟨hload.toAllocated.insertSink hs name filter, hload.named, hload.nameless,
    hload.unopened, ?_⟩
  intro t values
  show ((m.modifySink s _).sink t).ReDirectFilter values = false
  rw [sink_modifySink]
  split
  · exact hload.silent t values
  · exact hload.silent t values

/-- What every update of loading keeps.  `E m name p` is what `LoadLogger` knows of the info
    that it configures under a name. -/
structure LoadInvariant (I : LogManager α → Prop) (E : LogManager α → Bytes → Nat → Prop) :
    Prop where
  nextFile : ∀ {m}, I m → I m.nextFile
  insertId : ∀ {m name}, I m → m.mIdMap.lookup name = none → name ≠ [] → ∀ id mIds,
    I { m with mIds := mIds, mIdMap := m.mIdMap.insert name id }
  rootInfo : ∀ {m}, I m → I m.rootInfo.2 ∧ E m.rootInfo.2 rootName m.rootInfo.1
  newInfo : ∀ {m strName id}, I m → strName ≠ rootName → m.mIdMap.lookup strName = some id →
    I (m.newInfo { Id := id, Level := levelOf strName }) ∧
      E (m.newInfo { Id := id, Level := levelOf strName }) strName m.infos.length
  modifyInfo : ∀ {m}, I m → ∀ p {f}, SetsParameters f → I (m.modifyInfo p f)
  modifyEntered : ∀ {m strName p}, E m strName p → ∀ q {f}, SetsParameters f →
    E (m.modifyInfo q f) strName p
  insertLogger : ∀ {m strName p}, I m → E m strName p →
    I { m with mLoggerInfos := UnorderedMap.insertNew m.mLoggerInfos strName p }
  newSink : ∀ {m}, I m → ∀ name, I (m.newSink name)
  insertSink : ∀ {m s}, I m → s < m.mSinkInfoPool.length → ∀ name (filter : Option (LogFilter α)),
    I { m.modifySink s fun sink => { sink with InitFilter := filter.getD sink.InitFilter }
      with mSinks := UnorderedMap.insertNew m.mSinks name s }

/-- An update of the parameters that leaves the linked sinks as they are. -/
structure KeepsLinks (f : LoggerInfo α → LoggerInfo α) : Prop extends SetsParameters f where
  SinkInfos : ∀ info, (f info).SinkInfos = info.SinkInfos

/-- What every update of `LoadLogger` keeps, of the manager and the vector of loggers. -/
structure LoggerInvariant (J : LogManager α → List Nat → Prop)
    (E : LogManager α → Bytes → Nat → Prop) : Prop where
  insertId : ∀ {m loggers name}, J m loggers → m.mIdMap.lookup name = none → name ≠ [] →
    ∀ id mIds, J { m with mIds := mIds, mIdMap := m.mIdMap.insert name id } loggers
  rootInfo : ∀ {m loggers}, J m loggers →
    J m.rootInfo.2 loggers ∧ E m.rootInfo.2 rootName m.rootInfo.1
  newInfo : ∀ {m loggers strName id}, J m loggers → strName ≠ rootName →
    m.mIdMap.lookup strName = some id →
    J (m.newInfo { Id := id, Level := levelOf strName }) loggers ∧
      E (m.newInfo { Id := id, Level := levelOf strName }) strName m.infos.length
  modifyInfo : ∀ {m loggers}, J m loggers → ∀ p {f}, KeepsLinks f → J (m.modifyInfo p f) loggers
  modifyEntered : ∀ {m strName p}, E m strName p → ∀ q {f}, KeepsLinks f →
    E (m.modifyInfo q f) strName p
  insertLogger : ∀ {m loggers strName p}, J m loggers → E m strName p →
    J { m with mLoggerInfos := UnorderedMap.insertNew m.mLoggerInfos strName p } (loggers ++ [p])

/-- What every update of `LoadLogger` keeps, where an info is changed only while it is
    configured and the root logger's only where no file configured it yet. -/
structure EntryInvariant (J : LogManager α → List Nat → Prop)
    (E : LogManager α → Bytes → Nat → Prop) : Prop where
  insertId : ∀ {m loggers name}, J m loggers → m.mIdMap.lookup name = none → name ≠ [] →
    ∀ id mIds, J { m with mIds := mIds, mIdMap := m.mIdMap.insert name id } loggers
  rootInfo : ∀ {m loggers}, J m loggers → J m.rootInfo.2 loggers ∧
    ((m.rootInfo.2.info m.rootInfo.1).FileId = 0 → E m.rootInfo.2 rootName m.rootInfo.1)
  newInfo : ∀ {m loggers strName id}, J m loggers → strName ≠ rootName →
    m.mIdMap.lookup strName = some id →
    J (m.newInfo { Id := id, Level := levelOf strName }) loggers ∧
      E (m.newInfo { Id := id, Level := levelOf strName }) strName m.infos.length
  modifyInfo : ∀ {m loggers strName p f}, J m loggers → E m strName p → KeepsLinks f →
    J (m.modifyInfo p f) loggers ∧ E (m.modifyInfo p f) strName p
  insertLogger : ∀ {m loggers strName p}, J m loggers → E m strName p →
    J { m with mLoggerInfos := UnorderedMap.insertNew m.mLoggerInfos strName p } (loggers ++ [p])

/-- What every update of `LoadConfig` keeps, where a sink is changed only while it is
    constructed: `F m s` is what `LoadSink` knows of it then. -/
structure FileInvariant (J : LogManager α → List Nat → Prop)
    (E : LogManager α → Bytes → Nat → Prop) (F : LogManager α → Nat → Prop) : Prop
    extends EntryInvariant J E where
  nextFile : ∀ {m loggers}, J m loggers → J m.nextFile loggers
  newSink : ∀ {m loggers}, J m loggers → ∀ name,
    J (m.newSink name) loggers ∧ F (m.newSink name) m.mSinkInfoPool.length
  insertSink : ∀ {m loggers s}, J m loggers → F m s → ∀ name (filter : Option (LogFilter α)),
    J { m.modifySink s fun sink => { sink with InitFilter := filter.getD sink.InitFilter }
      with mSinks := UnorderedMap.insertNew m.mSinks name s } loggers

theorem LoggerInvariant.entryInvariant {J : LogManager α → List Nat → Prop}
    {E : LogManager α → Bytes → Nat → Prop} (hJ : LoggerInvariant J E) : EntryInvariant J E where
  insertId := hJ.insertId
  rootInfo hm := ⟨(hJ.rootInfo hm).1, fun _ => (hJ.rootInfo hm).2⟩
  newInfo := hJ.newInfo
  modifyInfo hm henter hf := ⟨hJ.modifyInfo hm _ hf, hJ.modifyEntered henter _ hf⟩
  insertLogger := hJ.insertLogger

theorem LoadInvariant.fileInvariant {I : LogManager α → Prop}
    {E : LogManager α → Bytes → Nat → Prop} (hI : LoadInvariant I E) :
    FileInvariant (fun m _ => I m) E (fun m s => s < m.mSinkInfoPool.length) where
  insertId := hI.insertId
  rootInfo hm := ⟨(hI.rootInfo hm).1, fun _ => (hI.rootInfo hm).2⟩
  newInfo := hI.newInfo
  modifyInfo hm henter hf :=
    ⟨hI.modifyInfo hm _ hf.toSetsParameters, hI.modifyEntered henter _ hf.toSetsParameters⟩
  insertLogger := hI.insertLogger
  nextFile := hI.nextFile
  newSink hm name := ⟨hI.newSink hm name, length_newSink _ name ▸ Nat.lt_succ_self _⟩
  insertSink hm hs name filter := hI.insertSink hm hs name filter

theorem loadInvariant_loaded : LoadInvariant (α := α) Loaded Entered where
  nextFile := Loaded.nextFile
  insertId hload hnew hne id mIds := hload.insertId hnew hne id mIds
  rootInfo hload :=
    ⟨hload.rootInfo, hload.toAllocated.rootInfo.2, fun hne => absurd rfl hne⟩
  newInfo := by
    intro m strName id hload _ hid
    refine ⟨hload.newInfo rfl, length_newInfo m _ ▸ Nat.lt_succ_self _, fun _ => ?_⟩
    rw [info_newInfo, if_pos rfl]
    exact ⟨hid, rfl⟩
  modifyInfo := Loaded.modifyInfo
  modifyEntered := Entered.modifyInfo
  insertLogger hload henter := hload.insertLogger henter
  newSink := Loaded.newSink
  insertSink hload hs name filter := hload.insertSink hs name filter

/-! ## 3. Loading -/

section Load

variable (setup : LogSetup α)

/-- Reading a filter changes nothing, and what it throws is Boost.Log's. -/
theorem parseFilter_spec (P : LogManager α → Prop) (sec : PropertyTree) :
    ⦃fun m => ⌜P m⌝⦄ parseFilter setup sec
    ⦃post⟨fun _ m => ⌜P m⌝, fun e m => ⌜P m ∧ e ≠ .pastLastLevel⌝⟩⦄ := by
  unfold parseFilter
  mvcgen

theorem applyCore_spec (P : LogManager α → Prop) (setts : PropertyTree) :
    ⦃fun m => ⌜P m⌝⦄ applyCore setup setts
    ⦃post⟨fun _ m => ⌜P m⌝, fun e m => ⌜P m ∧ e ≠ .pastLastLevel⌝⟩⦄ := by
  unfold applyCore
  mvcgen

section KeepsLoggers

variable {J : LogManager α → List Nat → Prop} {E : LogManager α → Bytes → Nat → Prop}
  {B : LogManager α → Prop}

theorem keeps_getId (hJ : EntryInvariant J E) (loggers : List Nat) (name : Bytes)
    (parentId : BitVec 64) :
    ⦃fun m => ⌜J m loggers⌝⦄ (getId name (levelOf name) parentId : LogM α (BitVec 64))
    ⦃post⟨fun id m => ⌜J m loggers ∧ m.mIdMap.lookup name = some id⌝,
      fun _ m => ⌜J m loggers⌝⟩⦄ := by
  mvcgen [getId]
  case vc2.h_2.isTrue m hm hnone hlt id =>
    have hne : name ≠ [] := by
      rintro rfl
      exact absurd hlt (by decide)
    exact ⟨hJ.insertId hm hnone hne id _, AList.lookup_insert _⟩

theorem keeps_enterLogger (hJ : EntryInvariant J E) (loggers : List Nat) (strName : Bytes)
    (parentId : BitVec 64) :
    ⦃fun m => ⌜J m loggers⌝⦄ (enterLogger (levelOf strName) strName parentId : LogM α Nat)
    ⦃post⟨fun p m => ⌜J m loggers ∧ E m strName p⌝, fun _ m => ⌜J m loggers⌝⟩⦄ := by
  have hid := keeps_getId hJ loggers strName parentId
  mvcgen [enterLogger, hid]
  case vc1.isTrue.isTrue _ m hm _ _ =>
    exact (hJ.rootInfo hm).1
  case vc2.isTrue.isFalse hroot m hm _ hfile =>
    rw [hroot]
    exact ⟨(hJ.rootInfo hm).1, (hJ.rootInfo hm).2 (not_not.mp hfile)⟩
  case vc5.isFalse.isFalse.post.success hroot _ _ _ _ id m hstate =>
    exact hJ.newInfo hstate.1 hroot hstate.2

theorem keeps_configureLogger (hJ : EntryInvariant J E) (hB : ∀ m loggers, J m loggers → B m)
    (sec : PropertyTree) (loggers : List Nat) (strName : Bytes) (parentId : BitVec 64) :
    ⦃fun m => ⌜J m loggers⌝⦄
    configureLogger setup sec (levelOf strName) loggers strName parentId
    ⦃post⟨fun loggers' m => ⌜J m loggers'⌝, fun _ m => ⌜B m⌝⟩⦄ := by
  have henter := keeps_enterLogger hJ loggers strName parentId
  have hread := fun p => parseFilter_spec setup (fun m => J m loggers ∧ E m strName p) sec
  mvcgen [configureLogger, henter, hread]
  case vc3.post.success.pre _ _ p m hstate _ =>
    have hset : KeepsLinks fun info : LoggerInfo α =>
        { info with FileId := m.mFileId, SinkNames := (sec.get sinksKey).getD info.SinkNames } :=
      ⟨⟨fun _ => rfl, fun _ => rfl, fun _ => rfl⟩, fun _ => rfl⟩
    exact hJ.modifyInfo hstate.1 hstate.2 hset
  case vc4.post.success.post.success _ _ p _ _ _ filter m hstate _ =>
    have hset : KeepsLinks fun info : LoggerInfo α =>
        { info with Filter := filter.getD info.Filter } :=
      ⟨⟨fun _ => rfl, fun _ => rfl, fun _ => rfl⟩, fun _ => rfl⟩
    have hset := hJ.modifyInfo hstate.1 hstate.2 hset
    exact hJ.insertLogger hset.1 hset.2
  case vc5.post.success.post.except.handle =>
    intro hm _ _
    exact hB _ _ hm
  case vc6.post.except.handle =>
    exact hB _ _

mutual

theorem keeps_loadLogger (hJ : EntryInvariant J E) (hB : ∀ m loggers, J m loggers → B m) :
    ∀ (tree : PropertyTree) (loggers : List Nat) (strName : Bytes) (parentId : BitVec 64),
    ⦃fun m => ⌜J m loggers⌝⦄ loadLogger setup tree (levelOf strName) loggers strName parentId
    ⦃post⟨fun loggers' m => ⌜J m loggers'⌝, fun _ m => ⌜B m⌝⟩⦄
  | .node data children, loggers, strName, parentId => by
      have hconfigure := keeps_configureLogger setup hJ hB (.node data children)
      have hid := keeps_getId hJ loggers
      have hchildren := fun id => keeps_loadLoggers hJ hB children loggers strName id
      unfold loadLogger
      mvcgen [hconfigure, hid, hchildren]
      case vc3.isFalse.isTrue.isTrue.post.success _ _ _ _ _ _ id m hstate =>
        exact hstate.1
      case vc4.isFalse.isTrue.isTrue.post.except.handle =>
        exact hB _ _

theorem keeps_loadLoggers (hJ : EntryInvariant J E) (hB : ∀ m loggers, J m loggers → B m) :
    ∀ (trees : PropertyTrees) (loggers : List Nat) (strName : Bytes) (parentId : BitVec 64),
    ⦃fun m => ⌜J m loggers⌝⦄
    loadLoggers setup trees (levelOf strName) loggers (childName strName) parentId
    ⦃post⟨fun loggers' m => ⌜J m loggers'⌝, fun _ m => ⌜B m⌝⟩⦄
  | .nil, loggers, strName, parentId => by
      mvcgen [loadLoggers]
  | .cons name childSec rest, loggers, strName, parentId => by
      have hchild :=
        keeps_loadLogger hJ hB childSec loggers (childName strName ++ name.val) parentId
      have hrest := fun loggers => keeps_loadLoggers hJ hB rest loggers strName parentId
      rw [levelOf_childName] at hchild
      unfold loadLoggers
      mvcgen [hchild, hrest]

end

theorem keeps_applyLoggers (hJ : EntryInvariant J E) (hB : ∀ m loggers, J m loggers → B m)
    (setts : PropertyTree) (loggers : List Nat) :
    ⦃fun m => ⌜J m loggers⌝⦄ applyLoggers setup setts loggers
    ⦃post⟨fun loggers' m => ⌜J m loggers'⌝, fun _ m => ⌜B m⌝⟩⦄ := by
  unfold applyLoggers
  split
  · exact keeps_loadLogger setup hJ hB _ loggers [] 0
  · mvcgen

end KeepsLoggers

section Keeps

variable {J : LogManager α → List Nat → Prop} {E : LogManager α → Bytes → Nat → Prop}
  {F : LogManager α → Nat → Prop} {B : LogManager α → Prop}

theorem keeps_constructSink (hJ : FileInvariant J E F) (loggers : List Nat)
    (sinkSec : PropertyTree) (strName : Bytes) :
    ⦃fun m => ⌜J m loggers⌝⦄ constructSink setup sinkSec strName
    ⦃post⟨fun _ m => ⌜J m loggers⌝, fun _ m => ⌜J m loggers⌝⟩⦄ := by
  have hread := fun s => parseFilter_spec setup (fun m => J m loggers ∧ F m s) sinkSec
  mvcgen [constructSink, hread]
  case vc4.isFalse.isFalse.pre m hm _ _ name _ _ _ =>
    exact hJ.newSink hm name
  case vc5.isFalse.isFalse.post.success _ _ _ _ name _ _ s filter m hstate _ =>
    exact hJ.insertSink hstate.1 hstate.2 name filter
  case vc6.isFalse.isFalse.post.except.handle =>
    intro hm _ _
    exact hm

mutual

theorem keeps_loadSink (hJ : FileInvariant J E F) (loggers : List Nat) :
    ∀ (tree : PropertyTree) (strName : Bytes),
    ⦃fun m => ⌜J m loggers⌝⦄ loadSink setup tree strName
    ⦃post⟨fun _ m => ⌜J m loggers⌝, fun _ m => ⌜J m loggers⌝⟩⦄
  | .node data children, strName => by
      have hconstruct := keeps_constructSink setup hJ loggers (.node data children) strName
      have hchildren := keeps_loadSinks hJ loggers children (childName strName)
      unfold loadSink
      mvcgen [hconstruct, hchildren]

theorem keeps_loadSinks (hJ : FileInvariant J E F) (loggers : List Nat) :
    ∀ (trees : PropertyTrees) (name : Bytes),
    ⦃fun m => ⌜J m loggers⌝⦄ loadSinks setup trees name
    ⦃post⟨fun _ m => ⌜J m loggers⌝, fun _ m => ⌜J m loggers⌝⟩⦄
  | .nil, name => by
      mvcgen [loadSinks]
  | .cons sinkName childSec rest, name => by
      have hchild := keeps_loadSink hJ loggers childSec (name ++ sinkName.val)
      have hrest := keeps_loadSinks hJ loggers rest name
      unfold loadSinks
      mvcgen [hchild, hrest]

end

theorem keeps_loadConfig (hJ : FileInvariant J E F) (hB : ∀ m loggers, J m loggers → B m)
    (file : ConfigFile) (loggers : List Nat) :
    ⦃fun m => ⌜J m loggers⌝⦄ loadConfig setup file loggers
    ⦃post⟨fun loggers' m => ⌜J m loggers'⌝, fun _ m => ⌜B m⌝⟩⦄ := by
  cases file with
  | notOpened => mvcgen [loadConfig]
  | malformed =>
      mvcgen [loadConfig]
      case vc1.malformed m hm _ =>
        exact hB _ _ (hJ.nextFile hm)
  | settings setts =>
      have hcore := applyCore_spec setup (fun m => J m loggers) setts
      have hsinks : ⦃fun m => ⌜J m loggers⌝⦄ applySinks setup setts
          ⦃post⟨fun _ m => ⌜J m loggers⌝, fun _ m => ⌜J m loggers⌝⟩⦄ := by
        have hsink := fun tree => keeps_loadSink setup hJ loggers tree []
        mvcgen [applySinks, hsink]
      have hloggers := keeps_applyLoggers setup hJ.toEntryInvariant hB setts loggers
      mvcgen [loadConfig, hcore, hsinks, hloggers]
      case vc1.settings.pre m hm _ =>
        exact hJ.nextFile hm
      case vc4.settings.post.success.post.except.handle =>
        exact hB _ _
      case vc5.settings.post.except.handle =>
        intro hm _
        exact hB _ _ hm

theorem keeps_loadConfigs (hJ : FileInvariant J E F) (hB : ∀ m loggers, J m loggers → B m) :
    ∀ (files : List ConfigFile) (loggers : List Nat),
    ⦃fun m => ⌜J m loggers⌝⦄ loadConfigs setup files loggers
    ⦃post⟨fun loggers' m => ⌜J m loggers'⌝, fun _ m => ⌜B m⌝⟩⦄ := by
  intro files
  induction files with
  | nil =>
      intro loggers
      mvcgen [loadConfigs]
  | cons file files ih =>
      intro loggers
      have hfile := keeps_loadConfig setup hJ hB
      mvcgen [loadConfigs, hfile, ih]

/-- **`Initialize`** keeps the invariant up to the links, whether it returns or throws. -/
theorem keeps_Initialize (hJ : FileInvariant J E F) (hB : ∀ m loggers, J m loggers → B m)
    {I : LogManager α → Prop}
    (hlink : ∀ {m loggers}, J m loggers → I (m.linkLoggerWithSink loggers))
    (files : List ConfigFile) :
    ⦃fun m => ⌜J m []⌝⦄ Initialize setup files
    ⦃post⟨fun _ m => ⌜I m⌝, fun _ m => ⌜B m⌝⟩⦄ := by
  cases files with
  | nil =>
      mvcgen [Initialize]
      exact hlink ‹J _ []›
  | cons file files =>
      have hconfigs := keeps_loadConfigs setup hJ hB
      mvcgen [Initialize, hconfigs]
      case vc2.cons.post.success _ _ loggers m hm _ =>
        exact hlink hm

theorem LoadInvariant.linkLoggerWithSink {I : LogManager α → Prop} (hI : LoadInvariant I E)
    {m : LogManager α} (hm : I m) (loggers : List Nat) : I (m.linkLoggerWithSink loggers) := by
  induction loggers generalizing m with
  | nil => exact hm
  | cons p loggers ih =>
      exact ih (hI.modifyInfo hm p ⟨fun _ => rfl, fun _ => rfl, fun _ => rfl⟩)

end Keeps

end Load

/-! ## 4. Runs -/

/-- What a specification says of the result. -/
theorem run_of_spec {β : Type} {x : LogM α β} {P : LogManager α → Prop}
    {Q : β → LogManager α → Prop} {E : LogError → LogManager α → Prop}
    (hspec : ⦃fun m => ⌜P m⌝⦄ x ⦃post⟨fun b m => ⌜Q b m⌝, fun e m => ⌜E e m⌝⟩⦄) (hm : P m) :
    (∀ b m', x.run m = .ok b m' → Q b m') ∧ ∀ e m', x.run m = .error e m' → E e m' := by
  have hrun := hspec m hm
  simp only [wp, PredTrans.apply] at hrun
  constructor
  · intro b m' hx
    rw [hx] at hrun
    exact hrun
  · intro e m' hx
    rw [hx] at hrun
    exact hrun

theorem after_of_spec {β : Type} {x : LogM α β} {P : LogManager α → Prop}
    {E : LogError → LogManager α → Prop}
    (hspec : ⦃fun m => ⌜P m⌝⦄ x ⦃post⟨fun _ m => ⌜P m⌝, fun e m => ⌜E e m⌝⟩⦄)
    (herror : ∀ e m, E e m → P m) (hm : P m) : P (after x m) := by
  obtain ⟨hok, hthrow⟩ := run_of_spec hspec hm
  unfold after
  split
  · next heq => exact hok _ _ heq
  · next heq => exact herror _ _ (hthrow _ _ heq)

theorem after_of_ok {β : Type} {x : LogM α β} {b : β} {m' : LogManager α}
    (hrun : x.run m = .ok b m') : after x m = m' := by
  unfold after
  rw [hrun]

theorem after_of_error {β : Type} {x : LogM α β} {e : LogError} {m' : LogManager α}
    (hrun : x.run m = .error e m') : after x m = m' := by
  unfold after
  rw [hrun]

theorem after_bind_of_ok {β γ : Type} {x : LogM α β} {f : β → LogM α γ} {b : β}
    {m' : LogManager α} (hrun : x.run m = .ok b m') : after (x >>= f) m = after (f b) m' := by
  unfold after
  rw [EStateM.run_bind, hrun]

theorem after_bind_of_error {β γ : Type} {x : LogM α β} {f : β → LogM α γ} {e : LogError}
    {m' : LogManager α} (hrun : x.run m = .error e m') : after (x >>= f) m = m' := by
  unfold after
  rw [EStateM.run_bind, hrun]

/-- The exception that a call ended with. -/
def thrown {β : Type} : EStateM.Result LogError (LogManager α) β → Option LogError
  | .ok _ _ => none
  | .error e _ => some e

theorem exists_error_of_thrown {β : Type} {x : EStateM.Result LogError (LogManager α) β}
    {e : LogError} (h : thrown x = some e) : ∃ m', x = .error e m' := by
  cases x with
  | ok b m' => cases h
  | error e' m' => exact ⟨m', by rw [Option.some.inj h]⟩

section Runs

variable (setup : LogSetup α)

theorem LoadInvariant.loadAll {I : LogManager α → Prop} {E : LogManager α → Bytes → Nat → Prop}
    (hI : LoadInvariant I E) (loads : List (ConfigFile × List Nat)) (hm : I m) :
    I (loadAll setup loads m) := by
  induction loads generalizing m with
  | nil => exact hm
  | cons load loads ih =>
      exact ih (after_of_spec
        (keeps_loadConfig setup hI.fileInvariant (fun _ _ h => h) load.1 load.2)
        (fun _ _ h => h) hm)

theorem LoadInvariant.Initialize {I : LogManager α → Prop} {E : LogManager α → Bytes → Nat → Prop}
    (hI : LoadInvariant I E) (files : List ConfigFile) (hm : I m) :
    I (after (Initialize setup files) m) :=
  after_of_spec
    (keeps_Initialize setup hI.fileInvariant (fun _ _ h => h)
      (fun hm => hI.linkLoggerWithSink hm _) files) (fun _ _ h => h) hm

theorem loaded_loadAll (loads : List (ConfigFile × List Nat)) (hload : Loaded m) :
    Loaded (loadAll setup loads m) :=
  loadInvariant_loaded.loadAll setup loads hload

theorem loaded_after_Initialize (files : List ConfigFile) (hload : Loaded m) :
    Loaded (after (Initialize setup files) m) :=
  loadInvariant_loaded.Initialize setup files hload

end Runs

end LogManager

end MemClient
