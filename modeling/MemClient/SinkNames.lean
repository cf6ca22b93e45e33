import MemClient.LogLoading

/-!
# Sinks and the files that configure them

`LoadSink` asks for a sink under its name and enters it under its name with the number of the
file behind.  Each configured sink has an entry of its own, and a logger is linked with those
of its own file, as long as these keys tell the sinks apart (`KeysApart`) and no name in a
list of sinks runs into one of another file (`LinksApart`).
-/

namespace MemClient

open ByteCodec NameHierarchy Std.Do

set_option mvcgen.warning false

/-! ## 1. The sinks of a configuration -/

abbrev destinationKey : Bytes :=
  ascii ['D', 'e', 's', 't', 'i', 'n', 'a', 't', 'i', 'o', 'n']

mutual

/-- The names for which `LoadSink` constructs a sink, in their order. -/
def PropertyTree.sinkNames : PropertyTree → Bytes → List Bytes
  | .node data children, strName =>
      if (PropertyTree.node data children).count destinationKey = 1 then [strName]
      else children.sinkNames (LogManager.childName strName)

def PropertyTrees.sinkNames : PropertyTrees → Bytes → List Bytes
  | .nil, _ => []
  | .cons name childSec rest, childName =>
      childSec.sinkNames (childName ++ name.val) ++ rest.sinkNames childName

end

def ConfigFile.sinkNames : ConfigFile → List Bytes
  | .settings setts =>
      match setts.child (ascii ['S', 'i', 'n', 'k', 's']) with
      | some sink_params => sink_params.sinkNames []
      | none => []
  | _ => []

/-- A sink with the number of its file. -/
abbrev FileSink := BitVec 32 × Bytes

/-- The sinks of files that are loaded when the last file had the given number. -/
def fileSinks : BitVec 32 → List ConfigFile → List FileSink
  | _, [] => []
  | fileId, .notOpened :: files => fileSinks fileId files
  | fileId, file :: files =>
      file.sinkNames.map (fileId + 1, ·) ++ fileSinks (fileId + 1) files

/-- The number of the last of the files. -/
def lastFile : BitVec 32 → List ConfigFile → BitVec 32
  | fileId, [] => fileId
  | fileId, .notOpened :: files => lastFile fileId files
  | fileId, _ :: files => lastFile (fileId + 1) files

theorem fileSinks_append (fileId : BitVec 32) (files later : List ConfigFile) :
    fileSinks fileId (files ++ later) =
      fileSinks fileId files ++ fileSinks (lastFile fileId files) later := by
  induction files generalizing fileId with
  | nil => rfl
  | cons file files ih =>
      cases file <;> simp [fileSinks, lastFile, ih]

/-- The key of a sink in `mSinks`. -/
def sinkKey (sink : FileSink) : Bytes := sink.2 ++ decimal sink.1.toNat

/-- No two sinks have the same key, and no sink is called like the key of an earlier one. -/
structure KeysApart (sinks : List FileSink) : Prop where
  nodup : (sinks.map sinkKey).Nodup
  unseen : ∀ before sink after, sinks = before ++ sink :: after → sink.2 ∉ before.map sinkKey

theorem KeysApart.of_append {sinks later : List FileSink} (h : KeysApart (sinks ++ later)) :
    KeysApart sinks where
  nodup := by
    have hnodup := h.nodup
    rw [List.map_append] at hnodup
    exact hnodup.of_append_left
  unseen := by
    rintro before sink after rfl
    exact h.unseen before sink (after ++ later) (by simp)

theorem KeysApart.next {sinks : List FileSink} {sink : FileSink} (h : KeysApart (sinks ++ [sink])) :
    sinkKey sink ∉ sinks.map sinkKey ∧ sink.2 ∉ sinks.map sinkKey := by
  constructor
  · have hnodup := h.nodup
    rw [List.map_append, List.map_singleton] at hnodup
    intro hmem
    exact (List.nodup_append.mp hnodup).2.2 _ hmem _ (List.mem_singleton_self _) rfl
  · exact h.unseen sinks sink [] rfl

namespace LogManager

variable {α : Type} {m : LogManager α}

/-! ## 2. Loading sinks -/

/-- `mSinks` has an entry for each of the sinks, the place of the sink among them. -/
def SinkEntries (m : LogManager α) (sinks : List FileSink) : Prop :=
  ∀ key s, m.mSinks.lookup key = some s ↔ ∃ sink, sinks[s]? = some sink ∧ sinkKey sink = key

theorem SinkEntries.lookup_eq_none {sinks : List FileSink} (h : SinkEntries m sinks) {key : Bytes}
    (hkey : key ∉ sinks.map sinkKey) : m.mSinks.lookup key = none := by
  rw [Option.eq_none_iff_forall_not_mem]
  intro s hs
  obtain ⟨sink, hsink, rfl⟩ := (h key s).mp hs
  exact hkey (List.mem_map_of_mem (List.mem_of_getElem? hsink))

/-- A sink with a new key. -/
theorem SinkEntries.insert {sinks : List FileSink} (h : SinkEntries m sinks) {sink : FileSink}
    (hkey : sinkKey sink ∉ sinks.map sinkKey) (pool : List (SinkInfo α)) :
    SinkEntries { m with
      mSinks := UnorderedMap.insertNew m.mSinks (sinkKey sink) sinks.length
      mSinkInfoPool := pool } (sinks ++ [sink]) := by
  intro key s
  rw [UnorderedMap.lookup_insertNew_eq]
  by_cases hsame : key = sinkKey sink
  · rw [if_pos hsame, h.lookup_eq_none hkey, hsame]
    constructor
    · intro hs
      obtain rfl := Option.some.inj hs
      exact ⟨sink, List.getElem?_concat_length, rfl⟩
    · rintro ⟨other, hother, hname⟩
      rcases Nat.lt_or_ge s sinks.length with hlt | hge
      · rw [List.getElem?_append_left hlt] at hother
        exact absurd (hname ▸ List.mem_map_of_mem (List.mem_of_getElem? hother)) hkey
      · have hlt := (List.getElem?_eq_some_iff.mp hother).1
        rw [List.length_append, List.length_singleton] at hlt
        obtain rfl : sinks.length = s := by omega
        rfl
  · rw [if_neg hsame, h key s]
    constructor
    · rintro ⟨other, hother, hname⟩
      refine ⟨other, ?_, hname⟩
      rw [List.getElem?_append_left (List.getElem?_eq_some_iff.mp hother).1, hother]
    · rintro ⟨other, hother, hname⟩
      refine ⟨other, ?_, hname⟩
      rcases Nat.lt_or_ge s sinks.length with hlt | hge
      · rwa [List.getElem?_append_left hlt] at hother
      · have hmem := List.mem_of_getElem? hother
        rw [List.getElem?_append_right hge] at hother
        have hlast := List.mem_singleton.mp (List.mem_of_getElem? hother)
        exact absurd (hlast ▸ hname).symm hsame

/-- The pointers of the loggers so far, which are not linked yet. -/
structure Unlinked (m : LogManager α) (loggers : List Nat) : Prop where
  loggers : ∀ p ∈ loggers, p < m.infos.length
  root : ∀ p, m.mRootInfo = some p → p < m.infos.length
  unlinked : ∀ p, (m.info p).SinkInfos = []

/-- A manager in the middle of loading, with the number of the file that it is at. -/
structure Loading (m : LogManager α) (sinks : List FileSink) (fileId : BitVec 32)
    (loggers : List Nat) : Prop extends Unlinked m loggers where
  entries : SinkEntries m sinks
  count : m.mSinkInfoPool.length = sinks.length
  mFileId : m.mFileId = fileId

theorem loading_init : Loading (init : LogManager α) [] 0 [] where
  loggers p hp := absurd hp List.not_mem_nil
  root p hp := by cases hp
  unlinked p := rfl
  entries key s := by
    constructor
    · intro h
      cases h
    · rintro ⟨sink, hsink, -⟩
      cases hsink
  count := rfl
  mFileId := rfl

section Loading

variable {sinks : List FileSink} {fileId : BitVec 32} {loggers : List Nat}

theorem Unlinked.newInfo (h : Unlinked m loggers) {info : LoggerInfo α}
    (hinfo : info.SinkInfos = []) : Unlinked (m.newInfo info) loggers := by
  refine ⟨?_, ?_, ?_⟩
  · intro p hp
    rw [length_newInfo]
    exact Nat.lt_succ_of_lt (h.loggers p hp)
  · intro p hp
    rw [length_newInfo]
    exact Nat.lt_succ_of_lt (h.root p hp)
  · intro p
    rw [info_newInfo]
    split
    · exact hinfo
    · exact h.unlinked p

theorem Unlinked.rootInfo (h : Unlinked m loggers) :
    Unlinked m.rootInfo.2 loggers ∧ m.rootInfo.1 < m.rootInfo.2.infos.length := by
  unfold LogManager.rootInfo
  cases hroot : m.mRootInfo with
  | some p => exact ⟨h, h.root p hroot⟩
  | none =>
      have hnew : Unlinked (m.newInfo {}) loggers := h.newInfo rfl
      have hlt : m.infos.length < (m.newInfo {}).infos.length :=
        length_newInfo m {} ▸ Nat.lt_succ_self _
      refine ⟨⟨hnew.loggers, ?_, hnew.unlinked⟩, hlt⟩
      intro p hp
      exact Option.some.inj hp ▸ hlt

theorem Unlinked.modifyInfo (h : Unlinked m loggers) (p : Nat) {f : LoggerInfo α → LoggerInfo α}
    (hf : KeepsLinks f) : Unlinked (m.modifyInfo p f) loggers := by
  refine ⟨?_, ?_, ?_⟩
  · intro q hq
    rw [length_modifyInfo]
    exact h.loggers q hq
  · intro q hq
    rw [length_modifyInfo]
    exact h.root q hq
  · intro q
    rw [info_modifyInfo]
    split
    · rw [hf.SinkInfos, h.unlinked]
    · exact h.unlinked q

/-- What `LoadLogger` does concerns no sink and no number of a file. -/
theorem Loading.congr (h : Loading m sinks fileId loggers) {m' : LogManager α}
    {loggers' : List Nat} (hunlinked : Unlinked m' loggers') (hsinks : m'.mSinks = m.mSinks)
    (hpool : m'.mSinkInfoPool = m.mSinkInfoPool) (hfile : m'.mFileId = m.mFileId) :
    Loading m' sinks fileId loggers' where
  toUnlinked := hunlinked
  entries := by
    intro key s
    rw [hsinks]
    exact h.entries key s
  count := hpool ▸ h.count
  mFileId := hfile.trans h.mFileId

theorem Loading.nextFile (h : Loading m sinks fileId loggers) :
    Loading m.nextFile sinks (fileId + 1) loggers where
  toUnlinked := ⟨h.loggers, h.root, h.unlinked⟩
  entries := h.entries
  count := h.count
  mFileId := congrArg (· + 1) h.mFileId

variable (sinks fileId) in
theorem loggerInvariant_loading : LoggerInvariant (α := α)
    (fun m loggers => Loading m sinks fileId loggers) (fun m _ p => p < m.infos.length) where
  insertId h _ _ _ _ := h.congr ⟨h.loggers, h.root, h.unlinked⟩ rfl rfl rfl
  rootInfo := by
    intro m loggers h
    obtain ⟨hunlinked, hlt⟩ := h.toUnlinked.rootInfo
    refine ⟨h.congr hunlinked ?_ ?_ ?_, hlt⟩ <;>
      unfold LogManager.rootInfo <;> cases m.mRootInfo <;> rfl
  newInfo := by
    intro m loggers strName id h _ _
    exact ⟨h.congr (h.toUnlinked.newInfo rfl) rfl rfl rfl,
      length_newInfo m _ ▸ Nat.lt_succ_self _⟩
  modifyInfo h p _ hf := h.congr (h.toUnlinked.modifyInfo p hf) rfl rfl rfl
  modifyEntered := by
    intro m strName p hp q f _
    rwa [length_modifyInfo]
  insertLogger := by
    intro m loggers strName p h hp
    refine h.congr ⟨?_, h.root, h.unlinked⟩ rfl rfl rfl
    intro q hq
    rcases List.mem_append.mp hq with hq | hq
    · exact h.loggers q hq
    · exact List.mem_singleton.mp hq ▸ hp

/-- The sink that was made last gets its filter and its entry. -/
theorem Unlinked.insertSink (h : Unlinked m loggers) (hentries : SinkEntries m sinks)
    (hcount : m.mSinkInfoPool.length = sinks.length + 1) (hfile : m.mFileId = fileId)
    {strName : Bytes} (hkey : sinkKey (fileId, strName) ∉ sinks.map sinkKey)
    (filter : Option (LogFilter α)) :
    Loading { m.modifySink sinks.length fun sink =>
        { sink with InitFilter := filter.getD sink.InitFilter } with
      mSinks := UnorderedMap.insertNew m.mSinks (sinkKey (fileId, strName)) sinks.length }
      (sinks ++ [(fileId, strName)]) fileId loggers := by
  refine ⟨⟨h.loggers, h.root, h.unlinked⟩, hentries.insert hkey _, ?_, hfile⟩
  rw [List.length_append, List.length_singleton, ← hcount]
  exact length_modifySink ..

variable (setup : LogSetup α)

theorem parseFilter_setup (P : LogManager α → Prop) (sec : PropertyTree) :
    ⦃fun m => ⌜P m⌝⦄ parseFilter setup sec
    ⦃post⟨fun _ m => ⌜P m⌝, fun e _ => ⌜e = .setup⌝⟩⦄ := by
  unfold parseFilter
  mvcgen

/-- **A sink** gets an entry of its own, and what is thrown is Boost.Log's. -/
theorem constructSink_loading {strName : Bytes}
    (hapart : KeysApart (sinks ++ [(fileId, strName)])) (sinkSec : PropertyTree) :
    ⦃fun m => ⌜Loading m sinks fileId loggers⌝⦄ constructSink setup sinkSec strName
    ⦃post⟨fun _ m => ⌜Loading m (sinks ++ [(fileId, strName)]) fileId loggers⌝,
      fun e _ => ⌜e = .setup⌝⟩⦄ := by
  obtain ⟨hkey, hname⟩ := hapart.next
  have hread := parseFilter_setup setup (fun m => m.mSinkInfoPool.length = sinks.length + 1 ∧
    SinkEntries m sinks ∧ Unlinked m loggers ∧ m.mFileId = fileId) sinkSec
  mvcgen [constructSink, hread]
  case vc1.isTrue m hm _ hsome =>
    rw [hm.entries.lookup_eq_none hname] at hsome
    cases hsome
  case vc2.isFalse.isFalse.pre m hm _ _ _ _ _ _ =>
    refine ⟨?_, hm.entries, ⟨hm.loggers, hm.root, hm.unlinked⟩, hm.mFileId⟩
    rw [newSink, List.length_append, hm.count, List.length_singleton]
  case vc3.isFalse.isFalse.post.success m hm _ _ name _ _ s filter m' hm' _ =>
    obtain ⟨hcount, hentries, hunlinked, hfile⟩ := hm'
    have hsink : sinkKey (fileId, strName) = strName ++ decimal m.mFileId.toNat := by
      rw [sinkKey, hm.mFileId]
    have hloading := hunlinked.insertSink hentries hcount hfile hkey filter
    rw [hsink, ← hm.count] at hloading
    exact hloading

theorem sinkNames_of_empty {tree : PropertyTree} (h : tree.empty = true) (strName : Bytes) :
    tree.sinkNames strName = [] := by
  cases tree with
  | node data children =>
      cases children with
      | nil => rfl
      | cons name child rest => cases h

mutual

theorem loadSink_loading : ∀ (tree : PropertyTree) (strName : Bytes) (sinks : List FileSink),
    KeysApart (sinks ++ (tree.sinkNames strName).map (fileId, ·)) →
    ⦃fun m => ⌜Loading m sinks fileId loggers⌝⦄ loadSink setup tree strName
    ⦃post⟨fun _ m =>
        ⌜Loading m (sinks ++ (tree.sinkNames strName).map (fileId, ·)) fileId loggers⌝,
      fun e _ => ⌜e = .setup⌝⟩⦄
  | .node data children, strName, sinks => by
      intro hapart
      unfold PropertyTree.sinkNames at hapart ⊢
      unfold loadSink
      split
      · next hcount =>
        rw [if_pos hcount] at hapart
        exact constructSink_loading setup hapart _
      · next hcount =>
        rw [if_neg hcount] at hapart
        exact loadSinks_loading children (childName strName) sinks hapart

theorem loadSinks_loading : ∀ (trees : PropertyTrees) (name : Bytes) (sinks : List FileSink),
    KeysApart (sinks ++ (trees.sinkNames name).map (fileId, ·)) →
    ⦃fun m => ⌜Loading m sinks fileId loggers⌝⦄ loadSinks setup trees name
    ⦃post⟨fun _ m => ⌜Loading m (sinks ++ (trees.sinkNames name).map (fileId, ·)) fileId loggers⌝,
      fun e _ => ⌜e = .setup⌝⟩⦄
  | .nil, name, sinks => by
      intro _
      unfold PropertyTrees.sinkNames
      rw [List.map_nil, List.append_nil]
      mvcgen [loadSinks]
  | .cons sinkName childSec rest, name, sinks => by
      intro hapart
      unfold PropertyTrees.sinkNames at hapart ⊢
      rw [List.map_append, ← List.append_assoc] at hapart ⊢
      have hchild := loadSink_loading childSec (name ++ sinkName.val) sinks hapart.of_append
      have hrest := loadSinks_loading rest name _ hapart
      unfold loadSinks
      by_cases hempty : childSec.empty = true
      · rw [sinkNames_of_empty hempty, List.map_nil, List.append_nil] at hrest ⊢
        simp only [hempty]
        mvcgen [hrest]
      · simp only [Bool.eq_false_iff.mpr hempty]
        mvcgen [hchild, hrest]

end

variable (loggers) in
theorem applySinks_loading {setts : PropertyTree}
    (hapart : KeysApart (sinks ++ (ConfigFile.settings setts).sinkNames.map (fileId, ·))) :
    ⦃fun m => ⌜Loading m sinks fileId loggers⌝⦄ applySinks setup setts
    ⦃post⟨fun _ m => ⌜Loading m
        (sinks ++ (ConfigFile.settings setts).sinkNames.map (fileId, ·)) fileId loggers⌝,
      fun e _ => ⌜e = .setup⌝⟩⦄ := by
  unfold ConfigFile.sinkNames at hapart ⊢
  unfold applySinks
  split
  · next sink_params hsinks =>
    simp only [hsinks] at hapart ⊢
    exact loadSink_loading setup sink_params [] sinks hapart
  · next hsinks =>
    simp only [hsinks, List.map_nil, List.append_nil]
    mvcgen

/-! ## 3. Files -/

variable (loggers) in
theorem loadConfig_loading {file : ConfigFile}
    (hapart : KeysApart (sinks ++ fileSinks fileId [file])) :
    ⦃fun m => ⌜Loading m sinks fileId loggers⌝⦄ loadConfig setup file loggers
    ⦃post⟨fun loggers' m => ⌜Loading m (sinks ++ fileSinks fileId [file])
        (lastFile fileId [file]) loggers'⌝, fun _ _ => ⌜True⌝⟩⦄ := by
  cases file with
  | notOpened =>
      simp only [fileSinks, lastFile, List.append_nil]
      mvcgen [loadConfig]
  | malformed => mvcgen [loadConfig]
  | settings setts =>
      simp only [fileSinks, lastFile, List.append_nil] at hapart ⊢
      have hcore := applyCore_spec setup (fun m => Loading m sinks (fileId + 1) loggers) setts
      have hsinks := applySinks_loading loggers setup hapart
      have hloggers := keeps_applyLoggers (B := fun _ : LogManager α => True) setup
        (loggerInvariant_loading (sinks ++ (ConfigFile.settings setts).sinkNames.map
          (fileId + 1, ·)) (fileId + 1)).entryInvariant (fun _ _ _ => trivial) setts loggers
      mvcgen [loadConfig, hcore, hsinks, hloggers]
      case vc1.settings.pre m hm _ =>
        exact hm.nextFile

/-- **Files one after the other**: every sink has its entry. -/
theorem loadConfigs_loading : ∀ (files : List ConfigFile) (sinks : List FileSink)
    (fileId : BitVec 32) (loggers : List Nat), KeysApart (sinks ++ fileSinks fileId files) →
    ⦃fun m => ⌜Loading m sinks fileId loggers⌝⦄ loadConfigs setup files loggers
    ⦃post⟨fun loggers' m => ⌜Loading m (sinks ++ fileSinks fileId files)
        (lastFile fileId files) loggers'⌝, fun _ _ => ⌜True⌝⟩⦄ := by
  intro files
  induction files with
  | nil =>
      intro sinks fileId loggers _
      rw [fileSinks, List.append_nil]
      mvcgen [loadConfigs, lastFile]
  | cons file files ih =>
      intro sinks fileId loggers hapart
      have hsplit : fileSinks fileId (file :: files) =
          fileSinks fileId [file] ++ fileSinks (lastFile fileId [file]) files :=
        fileSinks_append fileId [file] files
      rw [hsplit, ← List.append_assoc] at hapart ⊢
      have hfile := loadConfig_loading loggers setup hapart.of_append
      have hrest := fun loggers => ih (sinks ++ fileSinks fileId [file]) (lastFile fileId [file])
        loggers hapart
      have hlast : lastFile (lastFile fileId [file]) files = lastFile fileId (file :: files) := by
        cases file <;> rfl
      rw [hlast] at hrest
      mvcgen [loadConfigs, hfile, hrest]

end Loading

/-! ## 4. Links -/

/-- The sinks that the list of a logger finds. -/
def linkedSinks (m : LogManager α) (p : Nat) : List Nat :=
  (splitTokens (m.info p).SinkNames).filterMap fun name =>
    m.mSinks.lookup (name ++ decimal (m.info p).FileId.toNat)

theorem linkedSinks_linkLogger (m : LogManager α) (p q : Nat) :
    linkedSinks (m.linkLogger p) q = linkedSinks m q := by
  unfold linkedSinks
  have hnames : ((m.linkLogger p).info q).SinkNames = (m.info q).SinkNames := by
    rw [linkLogger, info_modifyInfo]
    split <;> rfl
  have hfile : ((m.linkLogger p).info q).FileId = (m.info q).FileId := by
    rw [linkLogger, info_modifyInfo]
    split <;> rfl
  rw [hnames, hfile]
  rfl

/-- Linking adds what the lists find, and nothing else. -/
theorem mem_sinkInfos_linkLoggerWithSink (m : LogManager α) (loggers : List Nat) {q s : Nat}
    (hq : q < m.infos.length) :
    s ∈ ((m.linkLoggerWithSink loggers).info q).SinkInfos ↔
      s ∈ (m.info q).SinkInfos ∨ q ∈ loggers ∧ s ∈ linkedSinks m q := by
  induction loggers generalizing m with
  | nil => simp [linkLoggerWithSink]
  | cons p loggers ih =>
      have hlength : (m.linkLogger p).infos.length = m.infos.length := length_modifyInfo ..
      have hself : s ∈ ((m.linkLogger p).info q).SinkInfos ↔
          s ∈ (m.info q).SinkInfos ∨ q = p ∧ s ∈ linkedSinks m q := by
        rw [linkLogger, info_modifyInfo]
        by_cases hpq : p = q
        · subst hpq
          simp [hq, linkedSinks]
        · simp [hpq, Ne.symm hpq]
      refine (ih (m.linkLogger p) (hlength ▸ hq)).trans ?_
      rw [hself, linkedSinks_linkLogger, List.mem_cons, or_assoc, or_and_right]

/-- No name in a logger's list of sinks, with the number of its file, is the key of another
    sink. -/
def LinksApart (m : LogManager α) (sinks : List FileSink) (loggers : List Nat) : Prop :=
  ∀ p ∈ loggers, ∀ token ∈ splitTokens (m.info p).SinkNames, ∀ sink ∈ sinks,
    sinkKey sink = token ++ decimal (m.info p).FileId.toNat → sink = ((m.info p).FileId, token)

theorem SinkEntries.mem_linkedSinks {sinks : List FileSink} (h : SinkEntries m sinks) (p s : Nat) :
    s ∈ linkedSinks m p ↔ ∃ token ∈ splitTokens (m.info p).SinkNames, ∃ sink,
      sinks[s]? = some sink ∧ sinkKey sink = token ++ decimal (m.info p).FileId.toNat := by
  rw [linkedSinks, List.mem_filterMap]
  apply exists_congr
  intro token
  apply and_congr_right
  intro htoken
  exact h _ s

/-- Loggers are linked with the sinks of their file exactly when no list runs into another sink. -/
theorem SinkEntries.linksApart_iff {sinks : List FileSink} {loggers : List Nat}
    (h : SinkEntries m sinks) :
    LinksApart m sinks loggers ↔ ∀ p ∈ loggers, ∀ s, s ∈ linkedSinks m p ↔
      ∃ token ∈ splitTokens (m.info p).SinkNames,
        sinks[s]? = some ((m.info p).FileId, token) := by
  constructor
  · intro hlinks p hp s
    rw [h.mem_linkedSinks]
    apply exists_congr
    intro token
    apply and_congr_right
    intro htoken
    constructor
    · rintro ⟨sink, hsink, hkey⟩
      rw [hsink, hlinks p hp token htoken sink (List.mem_of_getElem? hsink) hkey]
    · intro hsink
      exact ⟨_, hsink, rfl⟩
  · intro hown p hp token htoken sink hsink hkey
    obtain ⟨s, hs⟩ := List.mem_iff_getElem?.mp hsink
    have hlinked := (h.mem_linkedSinks p s).mpr ⟨token, htoken, sink, hs, hkey⟩
    obtain ⟨other, -, hother⟩ := (hown p hp s).mp hlinked
    obtain rfl := Option.some.inj (hs.symm.trans hother)
    rw [List.append_cancel_right (show other ++ _ = token ++ _ from hkey)]

/-! ## 5. Runs -/

/-- **Sink names are local to their file** in a run of files whose sinks have keys that tell
    them apart: `LoadSink` lets only exceptions of Boost.Log's through, `mSinks` ends with an
    entry for each sink, and loggers are linked with the sinks of their file that their lists
    name exactly when no list runs into another sink's key. -/
theorem sinks_local (setup : LogSetup α) {files : List ConfigFile}
    (hapart : KeysApart (fileSinks 0 files)) :
    (∀ before setts after loggers m, files = before ++ .settings setts :: after →
      (loadConfigs setup before []).run init = .ok loggers m → ∀ e m',
        (applySinks setup setts).run m.nextFile = .error e m' → e = .setup) ∧
    ∀ loggers m, (loadConfigs setup files []).run init = .ok loggers m →
      SinkEntries m (fileSinks 0 files) ∧
      (LinksApart m (fileSinks 0 files) loggers ↔ ∀ p ∈ loggers, ∀ s,
        s ∈ ((m.linkLoggerWithSink loggers).info p).SinkInfos ↔
          ∃ token ∈ splitTokens (m.info p).SinkNames,
            (fileSinks 0 files)[s]? = some ((m.info p).FileId, token)) := by
  constructor
  · rintro before setts after loggers m rfl hrun
    have hnext : fileSinks (lastFile 0 before) (.settings setts :: after) =
        (ConfigFile.settings setts).sinkNames.map (lastFile 0 before + 1, ·) ++
          fileSinks (lastFile 0 before + 1) after := rfl
    rw [fileSinks_append, hnext, ← List.append_assoc] at hapart
    have hbefore := loadConfigs_loading setup before [] 0 [] hapart.of_append.of_append
    have hm := (run_of_spec hbefore loading_init).1 loggers m hrun
    exact (run_of_spec (applySinks_loading loggers setup hapart.of_append) hm.nextFile).2
  · intro loggers m hrun
    have hm := (run_of_spec (loadConfigs_loading setup files [] 0 [] hapart) loading_init).1
      loggers m hrun
    rw [List.nil_append] at hm
    refine ⟨hm.entries, hm.entries.linksApart_iff.trans ?_⟩
    apply forall₂_congr
    intro p hp
    apply forall_congr'
    intro s
    rw [mem_sinkInfos_linkLoggerWithSink m loggers (hm.loggers p hp), hm.unlinked]
    simp [hp]

/-- A file with one sink. -/
def sinkFile (name : SectionName) : ConfigFile :=
  .settings (.ofList [(⟨ascii ['S', 'i', 'n', 'k', 's'], by decide⟩, .ofList [(name, .ofList [
    (⟨destinationKey, by decide⟩, .node console .nil)])])])

/-- A sink called `Console` in each of two files. -/
theorem sinks_local_console :
    KeysApart (fileSinks 0 [.settings feederLog, sinkFile consoleName]) ∧
    (∀ before setts after loggers m,
      [.settings feederLog, sinkFile consoleName] = before ++ .settings setts :: after →
      (loadConfigs severitySetup before []).run init = .ok loggers m → ∀ e m',
        (applySinks severitySetup setts).run m.nextFile = .error e m' → e = .setup) ∧
    ∀ loggers m, (loadConfigs severitySetup [.settings feederLog, sinkFile consoleName] []).run
        init = .ok loggers m →
      SinkEntries m (fileSinks 0 [.settings feederLog, sinkFile consoleName]) ∧
      (LinksApart m (fileSinks 0 [.settings feederLog, sinkFile consoleName]) loggers ↔
        ∀ p ∈ loggers, ∀ s, s ∈ ((m.linkLoggerWithSink loggers).info p).SinkInfos ↔
          ∃ token ∈ splitTokens (m.info p).SinkNames,
            (fileSinks 0 [.settings feederLog, sinkFile consoleName])[s]? =
              some ((m.info p).FileId, token)) := by
  have hapart : KeysApart (fileSinks 0 [.settings feederLog, sinkFile consoleName]) := by
    have hsinks : fileSinks 0 [.settings feederLog, sinkFile consoleName] =
        [(1, console), (2, console)] := by decide
    rw [hsinks]
    refine ⟨by decide, ?_⟩
    rintro (_ | ⟨first, _ | ⟨second, before⟩⟩) sink after hsplit
    · exact List.not_mem_nil
    · obtain ⟨rfl, rfl, -⟩ : (1, console) = first ∧ (2, console) = sink ∧ after = [] := by
        simpa using hsplit
      decide
    · simp at hsplit
  exact ⟨hapart, sinks_local severitySetup hapart⟩

def console1Name : SectionName := ⟨console ++ [49], by decide⟩

/-- `Console` of the first file is entered as `Console1`, and the second file has a sink of
    this name. -/
theorem not_sinks_local :
    (∀ file ∈ [sinkFile consoleName, sinkFile console1Name], file.sinkNames.Nodup) ∧
    ∃ m', (loadConfigs severitySetup [sinkFile consoleName, sinkFile console1Name] []).run init =
      .error (doubleInitialize [] console1Name.val) m' := by
  constructor
  · decide
  · apply exists_error_of_thrown
    decide +kernel

end LogManager

end MemClient
