import MemClient.LogLoading
import MemClient.RunRelation

/-!
# Loading side by side

`Alike` managers have the same tables: their logger infos may lie at different places and may have
loggers or not.  Loading the same files ends the same way on both, and leaves them alike.
-/

namespace MemClient

open ByteCodec NameHierarchy RunRelation

namespace LogManager

variable {α : Type} {m n : LogManager α}

/-! ## 1. The same configuration -/

/-- The number of the file that configured the root logger. -/
def rootFile (m : LogManager α) : BitVec 32 :=
  match m.mRootInfo with
  | some p => (m.info p).FileId
  | none => 0

/-- Two managers with the same tables.  Their logger infos may lie at different places, and may
    have loggers or not. -/
structure Alike (m n : LogManager α) : Prop where
  left : Allocated m
  right : Allocated n
  mIdMap : m.mIdMap = n.mIdMap
  mIds : m.mIds = n.mIds
  mIdMultiple : m.mIdMultiple = n.mIdMultiple
  mSinks : m.mSinks = n.mSinks
  mSinkInfoPool : m.mSinkInfoPool = n.mSinkInfoPool
  mFileId : m.mFileId = n.mFileId
  keys : ∀ name, (m.mLoggerInfos.lookup name).isSome = (n.mLoggerInfos.lookup name).isSome
  rootFile : rootFile m = rootFile n

/-- What is known of an info that is being configured in both. -/
structure BothEntered (p : Nat) (m : LogManager α) (q : Nat) (n : LogManager α) : Prop where
  alike : Alike m n
  left : p < m.infos.length
  right : q < n.infos.length
  root : m.mRootInfo = some p ↔ n.mRootInfo = some q

section Updates

theorem fileId_rootInfo (m : LogManager α) :
    (m.rootInfo.2.info m.rootInfo.1).FileId = rootFile m := by
  unfold rootFile LogManager.rootInfo
  cases m.mRootInfo with
  | some p => rfl
  | none =>
      have hnew : (m.newInfo {}).info m.infos.length = {} := by rw [info_newInfo, if_pos rfl]
      exact congrArg LoggerInfo.FileId hnew

theorem rootFile_rootInfo (m : LogManager α) : rootFile m.rootInfo.2 = rootFile m := by
  have hfile := fileId_rootInfo m
  unfold LogManager.rootInfo at hfile ⊢
  cases hroot : m.mRootInfo with
  | some p => rfl
  | none =>
      rw [hroot] at hfile
      exact hfile

theorem mRootInfo_rootInfo (m : LogManager α) : m.rootInfo.2.mRootInfo = some m.rootInfo.1 := by
  rw [LogManager.rootInfo]
  cases hroot : m.mRootInfo with
  | some p => exact hroot
  | none => rfl

theorem rootFile_newInfo (halloc : Allocated m) (info : LoggerInfo α) :
    rootFile (m.newInfo info) = rootFile m := by
  unfold rootFile
  show (match m.mRootInfo with
    | some p => ((m.newInfo info).info p).FileId
    | none => 0) = _
  cases hroot : m.mRootInfo with
  | some p =>
      simp only [info_newInfo, if_neg (Nat.ne_of_lt (halloc.root p hroot))]
  | none => rfl

/-- The parameters of a logger other than the root's do not matter. -/
theorem rootFile_modifyInfo (halloc : Allocated m) (p : Nat) (f : LoggerInfo α → LoggerInfo α) :
    rootFile (m.modifyInfo p f) =
      if m.mRootInfo = some p then (f (m.info p)).FileId else rootFile m := by
  unfold rootFile
  show (match m.mRootInfo with
    | some q => ((m.modifyInfo p f).info q).FileId
    | none => 0) = _
  cases hroot : m.mRootInfo with
  | some q =>
      have hq := halloc.root q hroot
      by_cases hpq : p = q
      · subst hpq
        simp [info_modifyInfo, hq]
      · simp [info_modifyInfo, hpq, Ne.symm hpq]
  | none => simp

theorem rootInfo_of_some {p : Nat} (h : m.mRootInfo = some p) : m.rootInfo = (p, m) := by
  rw [LogManager.rootInfo, h]

theorem exists_rootInfo_eq (m : LogManager α) : ∃ infos,
    m.rootInfo.2 = { m with infos := infos, mRootInfo := some m.rootInfo.1 } := by
  have hroot := mRootInfo_rootInfo m
  unfold LogManager.rootInfo at hroot ⊢
  cases hsome : m.mRootInfo with
  | some p => exact ⟨m.infos, by simp only [← hsome]⟩
  | none => exact ⟨(m.newInfo {}).infos, rfl⟩

theorem Alike.rootInfo (h : Alike m n) :
    BothEntered m.rootInfo.1 m.rootInfo.2 n.rootInfo.1 n.rootInfo.2 := by
  obtain ⟨hleft, hltLeft⟩ := h.left.rootInfo
  obtain ⟨hright, hltRight⟩ := h.right.rootInfo
  have hfile : LogManager.rootFile m.rootInfo.2 = LogManager.rootFile n.rootInfo.2 := by
    rw [rootFile_rootInfo, rootFile_rootInfo, h.rootFile]
  obtain ⟨infos, hm⟩ := exists_rootInfo_eq m
  obtain ⟨infos', hn⟩ := exists_rootInfo_eq n
  rw [hm] at hleft hltLeft hfile ⊢
  rw [hn] at hright hltRight hfile ⊢
  exact ⟨⟨hleft, hright, h.mIdMap, h.mIds, h.mIdMultiple, h.mSinks, h.mSinkInfoPool, h.mFileId,
    h.keys, hfile⟩, hltLeft, hltRight, iff_of_true rfl rfl⟩

theorem Alike.newInfo (h : Alike m n) (info : LoggerInfo α) :
    BothEntered m.infos.length (m.newInfo info) n.infos.length (n.newInfo info) := by
  refine ⟨⟨h.left.newInfo info, h.right.newInfo info, h.mIdMap, h.mIds, h.mIdMultiple, h.mSinks,
    h.mSinkInfoPool, h.mFileId, h.keys, ?_⟩, ?_, ?_, ?_⟩
  · rw [rootFile_newInfo h.left, rootFile_newInfo h.right, h.rootFile]
  · rw [length_newInfo]
    exact Nat.lt_succ_self _
  · rw [length_newInfo]
    exact Nat.lt_succ_self _
  · exact iff_of_false (fun hroot => Nat.lt_irrefl _ (h.left.root _ hroot))
      (fun hroot => Nat.lt_irrefl _ (h.right.root _ hroot))

/-- The same update of an info in both. -/
theorem BothEntered.modifyInfo {p q : Nat} (h : BothEntered p m q n)
    {f g : LoggerInfo α → LoggerInfo α}
    (hfile : (f (m.info p)).FileId = (g (n.info q)).FileId) :
    BothEntered p (m.modifyInfo p f) q (n.modifyInfo q g) := by
  refine ⟨⟨h.alike.left.modifyInfo p f, h.alike.right.modifyInfo q g, h.alike.mIdMap, h.alike.mIds,
    h.alike.mIdMultiple, h.alike.mSinks, h.alike.mSinkInfoPool, h.alike.mFileId, h.alike.keys, ?_⟩,
    ?_, ?_, h.root⟩
  · rw [rootFile_modifyInfo h.alike.left, rootFile_modifyInfo h.alike.right, h.alike.rootFile,
      hfile]
    simp only [h.root]
  · rw [length_modifyInfo]
    exact h.left
  · rw [length_modifyInfo]
    exact h.right

theorem BothEntered.insertLogger {p q : Nat} (h : BothEntered p m q n) (strName : Bytes) :
    Alike { m with mLoggerInfos := UnorderedMap.insertNew m.mLoggerInfos strName p }
      { n with mLoggerInfos := UnorderedMap.insertNew n.mLoggerInfos strName q } := by
  refine ⟨h.alike.left.insertLogger h.left strName, h.alike.right.insertLogger h.right strName,
    h.alike.mIdMap, h.alike.mIds, h.alike.mIdMultiple, h.alike.mSinks, h.alike.mSinkInfoPool,
    h.alike.mFileId, ?_, h.alike.rootFile⟩
  intro name
  simp only [UnorderedMap.lookup_insertNew_eq]
  split
  · rfl
  · exact h.alike.keys name

theorem Alike.symm (h : Alike m n) : Alike n m :=
  ⟨h.right, h.left, h.mIdMap.symm, h.mIds.symm, h.mIdMultiple.symm, h.mSinks.symm,
    h.mSinkInfoPool.symm, h.mFileId.symm, fun name => (h.keys name).symm, h.rootFile.symm⟩

theorem Alike.nextFile (h : Alike m n) : Alike m.nextFile n.nextFile :=
  ⟨⟨h.left.loggers, h.left.root, h.left.sinks⟩, ⟨h.right.loggers, h.right.root, h.right.sinks⟩,
    h.mIdMap, h.mIds, h.mIdMultiple, h.mSinks, h.mSinkInfoPool, congrArg (· + 1) h.mFileId, h.keys,
    h.rootFile⟩

theorem Alike.setTables (h : Alike m n) (mIdMap : UnorderedMap Bytes (BitVec 64))
    (mIds : Vector (BitVec 32) MAX_LEVEL) (mIdMultiple : Vector (BitVec 64) MAX_LEVEL) :
    Alike { m with mIdMap := mIdMap, mIds := mIds, mIdMultiple := mIdMultiple }
      { n with mIdMap := mIdMap, mIds := mIds, mIdMultiple := mIdMultiple } :=
  ⟨⟨h.left.loggers, h.left.root, h.left.sinks⟩, ⟨h.right.loggers, h.right.root, h.right.sinks⟩,
    rfl, rfl, rfl, h.mSinks, h.mSinkInfoPool, h.mFileId, h.keys, h.rootFile⟩

theorem Alike.newSink (h : Alike m n) (name : Bytes) : Alike (m.newSink name) (n.newSink name) :=
  ⟨h.left.newSink name, h.right.newSink name, h.mIdMap, h.mIds, h.mIdMultiple, h.mSinks,
    congrArg (· ++ [({ Name := name } : SinkInfo α)]) h.mSinkInfoPool, h.mFileId, h.keys,
    h.rootFile⟩

theorem Alike.insertSink (h : Alike m n) {s : Nat} (hs : s < m.mSinkInfoPool.length)
    (name : Bytes) (filter : Option (LogFilter α)) :
    Alike { m.modifySink s fun sink => { sink with InitFilter := filter.getD sink.InitFilter }
        with mSinks := UnorderedMap.insertNew m.mSinks name s }
      { n.modifySink s fun sink => { sink with InitFilter := filter.getD sink.InitFilter }
        with mSinks := UnorderedMap.insertNew n.mSinks name s } := by
  have hs' : s < n.mSinkInfoPool.length := h.mSinkInfoPool ▸ hs
  refine ⟨h.left.insertSink hs name filter, h.right.insertSink hs' name filter, h.mIdMap, h.mIds,
    h.mIdMultiple, ?_, ?_, h.mFileId, h.keys, h.rootFile⟩
  · exact congrArg (fun map => UnorderedMap.insertNew map name s) h.mSinks
  · exact congrArg (List.modify · s _) h.mSinkInfoPool

/-- Linking changes neither the tables nor which file an info is from. -/
theorem Alike.linkLogger (h : Alike m n) (p : Nat) : Alike (m.linkLogger p) n := by
  refine ⟨h.left.modifyInfo p _, h.right, h.mIdMap, h.mIds, h.mIdMultiple, h.mSinks,
    h.mSinkInfoPool, h.mFileId, h.keys, ?_⟩
  unfold LogManager.linkLogger
  rw [rootFile_modifyInfo h.left, ← h.rootFile]
  split
  · next hroot =>
    unfold LogManager.rootFile
    rw [hroot]
  · rfl

theorem Alike.linkLoggerWithSink (h : Alike m n) (loggers : List Nat) :
    Alike (m.linkLoggerWithSink loggers) n := by
  induction loggers generalizing m with
  | nil => exact h
  | cons p loggers ih => exact ih (h.linkLogger p)

end Updates

/-! ## 2. Loading side by side -/

section Load

variable (setup : LogSetup α)

theorem related_getId (h : Alike m n) (name : Bytes) (level : BitVec 8) (parentId : BitVec 64) :
    Related Alike (getId name level parentId : LogM α (BitVec 64)) (getId name level parentId)
      (fun id m id' n => id = id' ∧ Alike m n) m n := by
  unfold getId
  apply related_get
  rw [← h.mIdMap, ← h.mIds, ← h.mIdMultiple]
  cases m.mIdMap.lookup name with
  | some id => exact related_pure ⟨rfl, h⟩
  | none =>
      by_cases hlt : level.toNat < MAX_LEVEL
      · simp only [dif_pos hlt]
        apply related_set
        exact related_pure ⟨rfl, h.setTables _ _ _⟩
      · simp only [dif_neg hlt]
        exact related_throw h

theorem related_parseFilter {R : LogManager α → LogManager α → Prop} (h : R m n)
    (sec : PropertyTree) :
    Related R (parseFilter setup sec) (parseFilter setup sec)
      (fun filter m' filter' n' => filter = filter' ∧ m' = m ∧ n' = n) m n := by
  unfold parseFilter
  cases sec.get (ascii ['F', 'i', 'l', 't', 'e', 'r']) with
  | none => exact related_pure ⟨rfl, rfl, rfl⟩
  | some text =>
      cases hparse : setup.parse_filter text with
      | some filter =>
          simp only [hparse]
          exact related_pure ⟨rfl, rfl, rfl⟩
      | none =>
          simp only [hparse]
          exact related_throw h

theorem related_enterLogger (h : Alike m n) (nLevel : BitVec 8) (strName : Bytes)
    (parentId : BitVec 64) :
    Related Alike (enterLogger nLevel strName parentId : LogM α Nat)
      (enterLogger nLevel strName parentId) BothEntered m n := by
  unfold enterLogger
  by_cases hroot : strName = rootName
  · simp only [if_pos hroot]
    apply related_get
    apply related_set
    rw [fileId_rootInfo, fileId_rootInfo, ← h.rootFile]
    apply related_ite
    · exact fun _ => related_throw_bind h.rootInfo.alike
    · exact fun _ => related_pure h.rootInfo
  · simp only [if_neg hroot]
    apply related_get
    rw [← h.keys strName]
    apply related_ite
    · exact fun _ => related_throw_bind h
    · intro _
      apply related_bind (related_getId h strName nLevel parentId)
      rintro id m' _ n' ⟨rfl, h'⟩
      apply related_get
      apply related_set
      exact related_pure (h'.newInfo { Id := id, Level := nLevel })

theorem related_configureLogger (h : Alike m n) (sec : PropertyTree) (nLevel : BitVec 8)
    (loggers loggers' : List Nat) (strName : Bytes) (parentId : BitVec 64) :
    Related Alike (configureLogger setup sec nLevel loggers strName parentId)
      (configureLogger setup sec nLevel loggers' strName parentId)
      (fun _ m _ n => Alike m n) m n := by
  unfold configureLogger
  apply related_bind (related_enterLogger h nLevel strName parentId)
  intro p m' q n' hentered
  apply related_modify_bind
  have hparameters : BothEntered p
      (m'.modifyInfo p fun info => { info with
        FileId := m'.mFileId, SinkNames := (sec.get sinksKey).getD info.SinkNames }) q
      (n'.modifyInfo q fun info => { info with
        FileId := n'.mFileId, SinkNames := (sec.get sinksKey).getD info.SinkNames }) :=
    hentered.modifyInfo hentered.alike.mFileId
  apply related_bind (related_parseFilter setup hparameters.alike sec)
  rintro filter _ _ _ ⟨rfl, rfl, rfl⟩
  apply related_modify_bind
  have hfilter := hparameters.modifyInfo
    (f := fun info => { info with Filter := filter.getD info.Filter })
    (g := fun info => { info with Filter := filter.getD info.Filter }) (by
      show (LogManager.info _ p).FileId = (LogManager.info _ q).FileId
      rw [info_modifyInfo, info_modifyInfo, if_pos ⟨rfl, hentered.left⟩,
        if_pos ⟨rfl, hentered.right⟩]
      exact hentered.alike.mFileId)
  exact related_pure (hfilter.insertLogger strName)

mutual

theorem related_loadLogger : ∀ (tree : PropertyTree) {m n : LogManager α}, Alike m n →
    ∀ (nLevel : BitVec 8) (loggers loggers' : List Nat) (strName : Bytes) (parentId : BitVec 64),
    Related Alike (loadLogger setup tree nLevel loggers strName parentId)
      (loadLogger setup tree nLevel loggers' strName parentId) (fun _ m _ n => Alike m n) m n
  | .node data children, m, n, h, nLevel, loggers, loggers', strName, parentId => by
      unfold loadLogger
      apply related_ite
      · exact fun _ => related_configureLogger setup h (.node data children) nLevel loggers loggers'
          strName parentId
      · intro _
        apply related_ite
        · intro _
          apply related_ite
          · intro _
            apply related_bind (related_getId h strName nLevel parentId)
            rintro id m' _ n' ⟨rfl, h'⟩
            exact related_loadLoggers children h' nLevel loggers loggers' (childName strName) id
          · exact fun _ => related_loadLoggers children h nLevel loggers loggers'
              (childName strName) parentId
        · exact fun _ => related_pure h

theorem related_loadLoggers : ∀ (trees : PropertyTrees) {m n : LogManager α}, Alike m n →
    ∀ (nLevel : BitVec 8) (loggers loggers' : List Nat) (name : Bytes) (parentId : BitVec 64),
    Related Alike (loadLoggers setup trees nLevel loggers name parentId)
      (loadLoggers setup trees nLevel loggers' name parentId) (fun _ m _ n => Alike m n) m n
  | .nil, m, n, h, nLevel, loggers, loggers', name, parentId => by
      unfold loadLoggers
      exact related_pure h
  | .cons child childSec rest, m, n, h, nLevel, loggers, loggers', name, parentId => by
      unfold loadLoggers
      apply related_ite
      · intro _
        apply related_bind (related_loadLogger childSec h (nLevel + 1) loggers loggers'
          (name ++ child.val) parentId)
        intro loggers m' loggers' n' h'
        exact related_loadLoggers rest h' nLevel loggers loggers' name parentId
      · exact fun _ => related_loadLoggers rest h nLevel loggers loggers' name parentId

end

theorem related_constructSink (h : Alike m n) (sinkSec : PropertyTree) (strName : Bytes) :
    Related Alike (constructSink setup sinkSec strName) (constructSink setup sinkSec strName)
      (fun _ m _ n => Alike m n) m n := by
  unfold constructSink
  apply related_get
  rw [← h.mSinks, ← h.mFileId, ← h.mSinkInfoPool]
  apply related_ite
  · exact fun _ => related_throw_bind h
  · intro _
    apply related_ite
    · exact fun _ => related_throw_bind h
    · intro _
      apply related_set
      have hnew := h.newSink (strName ++ decimal m.mFileId.toNat)
      apply related_bind (related_parseFilter setup hnew sinkSec)
      rintro filter _ _ _ ⟨rfl, rfl, rfl⟩
      refine related_modify (hnew.insertSink ?_ _ filter)
      exact length_newSink m _ ▸ Nat.lt_succ_self _

mutual

theorem related_loadSink : ∀ (tree : PropertyTree) {m n : LogManager α}, Alike m n →
    ∀ strName : Bytes, Related Alike (loadSink setup tree strName) (loadSink setup tree strName)
      (fun _ m _ n => Alike m n) m n
  | .node data children, m, n, h, strName => by
      unfold loadSink
      apply related_ite
      · exact fun _ => related_constructSink setup h (.node data children) strName
      · exact fun _ => related_loadSinks children h (childName strName)

theorem related_loadSinks : ∀ (trees : PropertyTrees) {m n : LogManager α}, Alike m n →
    ∀ name : Bytes, Related Alike (loadSinks setup trees name) (loadSinks setup trees name)
      (fun _ m _ n => Alike m n) m n
  | .nil, m, n, h, name => by
      unfold loadSinks
      exact related_pure h
  | .cons child childSec rest, m, n, h, name => by
      unfold loadSinks
      apply related_ite
      · intro _
        apply related_bind (related_loadSink childSec h (name ++ child.val))
        intro _ m' _ n' h'
        exact related_loadSinks rest h' name
      · exact fun _ => related_loadSinks rest h name

end

theorem related_applyCore (h : Alike m n) (setts : PropertyTree) :
    Related Alike (applyCore setup setts) (applyCore setup setts) (fun _ m _ n => Alike m n)
      m n := by
  unfold applyCore
  split
  · split
    · exact related_pure h
    · exact related_throw h
  · exact related_pure h

theorem related_loadConfig (h : Alike m n) (file : ConfigFile) (loggers loggers' : List Nat) :
    Related Alike (loadConfig setup file loggers) (loadConfig setup file loggers')
      (fun _ m _ n => Alike m n) m n := by
  cases file with
  | notOpened => exact related_pure h
  | malformed =>
      apply related_modify_bind
      exact related_throw h.nextFile
  | settings setts =>
      apply related_modify_bind
      apply related_bind (related_applyCore setup h.nextFile setts)
      intro _ m₁ _ n₁ h₁
      have hsinks : Related Alike (applySinks setup setts) (applySinks setup setts)
          (fun _ m _ n => Alike m n) m₁ n₁ := by
        unfold applySinks
        split
        · exact related_loadSink setup _ h₁ []
        · exact related_pure h₁
      apply related_bind hsinks
      intro _ m₂ _ n₂ h₂
      unfold applyLoggers
      split
      · exact related_loadLogger setup _ h₂ 255#8 loggers loggers' [] 0
      · exact related_pure h₂

theorem related_loadConfigs (files : List ConfigFile) : ∀ {m n : LogManager α}, Alike m n →
    ∀ loggers loggers' : List Nat, Related Alike (loadConfigs setup files loggers)
      (loadConfigs setup files loggers') (fun _ m _ n => Alike m n) m n := by
  induction files with
  | nil =>
      intro m n h loggers loggers'
      exact related_pure h
  | cons file files ih =>
      intro m n h loggers loggers'
      apply related_bind (related_loadConfig setup h file loggers loggers')
      intro loggers₁ m₁ loggers₁' n₁ h₁
      exact ih h₁ loggers₁ loggers₁'

/-- **Loading** ends the same way on both, and leaves the same tables. -/
theorem related_Initialize (h : Alike m n) (files : List ConfigFile) :
    Related Alike (Initialize setup files) (Initialize setup files) (fun _ m _ n => Alike m n)
      m n := by
  cases files with
  | nil => exact related_pure h
  | cons file files =>
      apply related_bind (related_loadConfigs setup (file :: files) h [] [])
      intro loggers m₁ loggers' n₁ h₁
      apply related_modify_bind
      exact related_pure ((h₁.linkLoggerWithSink loggers).symm.linkLoggerWithSink loggers').symm

theorem Alike.Initialize (h : Alike m n) (files : List ConfigFile) :
    Alike (after (Initialize setup files) m) (after (Initialize setup files) n) := by
  have hrun := related_Initialize setup h files
  unfold Related at hrun
  unfold after
  split at hrun
  · next hm hn =>
    rw [hm, hn]
    exact hrun
  · next hm hn =>
    rw [hm, hn]
    exact hrun.2
  · exact absurd hrun id

end Load

end LogManager

end MemClient
