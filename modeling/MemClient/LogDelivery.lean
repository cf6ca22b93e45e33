import MemClient.EarlyFetch
import MemClient.LoggerHierarchy
import MemClient.LoggerIds

/-!
# The sinks that a record reaches

Programs that configure the log manager, fetch loggers and write records to them
run as a hierarchy of loggers does.  The names are those of the configuration;
the root logger stands beside the others and not above them.
-/

namespace MemClient

open ByteCodec NameHierarchy EventRun LoggerHierarchy

namespace LogManager

variable {α : Type} {m m₀ : LogManager α}

/-! ## 1. Configured managers -/

/-- Calls of `Initialize` on a new manager. -/
def configured (setup : LogSetup α) (calls : List (List ConfigFile)) : LogManager α :=
  calls.foldl (fun m files => after (Initialize setup files) m) init

theorem LoadInvariant.configured {I : LogManager α → Prop} {E : LogManager α → Bytes → Nat → Prop}
    (hI : LoadInvariant I E) (hinit : I init) (setup : LogSetup α)
    (calls : List (List ConfigFile)) : I (configured setup calls) := by
  unfold LogManager.configured
  induction calls using List.reverseRecOn with
  | nil => exact hinit
  | append_singleton calls files ih =>
      rw [List.foldl_append]
      exact hI.Initialize setup files ih

/-- The root logger has the id 0 and the topmost level. -/
structure RootZero (m : LogManager α) : Prop extends Allocated m where
  zero : ∀ r, m.mRootInfo = some r → (m.info r).Id = 0 ∧ (m.info r).Level = 0

theorem RootZero.newInfo (h : RootZero m) (info : LoggerInfo α) : RootZero (m.newInfo info) := by
  refine ⟨h.toAllocated.newInfo info, ?_⟩
  intro r hr
  rw [info_newInfo, if_neg (Nat.ne_of_lt (h.root r hr))]
  exact h.zero r hr

/-- What is not allocated reads as a new info. -/
theorem info_length (m : LogManager α) : m.info m.infos.length = {} := by
  simp [LogManager.info]

theorem info_rootInfo (m : LogManager α) (p : Nat) : m.rootInfo.2.info p = m.info p := by
  unfold LogManager.rootInfo
  cases m.mRootInfo with
  | some r => rfl
  | none =>
      refine (info_newInfo m {} p).trans ?_
      split
      · next hp =>
        subst hp
        exact (info_length m).symm
      · rfl

theorem RootZero.info_root (h : RootZero m) :
    (m.info m.rootInfo.1).Id = 0 ∧ (m.info m.rootInfo.1).Level = 0 := by
  cases hroot : m.mRootInfo with
  | some r =>
      rw [rootInfo_of_some hroot]
      exact h.zero r hroot
  | none =>
      have hnew : m.rootInfo.1 = m.infos.length := by
        rw [LogManager.rootInfo, hroot]
      have hdefault : m.info m.rootInfo.1 = {} := by
        rw [hnew, info_length]
      rw [hdefault]
      exact ⟨rfl, rfl⟩

theorem loadInvariant_rootZero :
    LoadInvariant (α := α) RootZero (fun m _ p => p < m.infos.length) where
  nextFile h := ⟨⟨h.loggers, h.root, h.sinks⟩, h.zero⟩
  insertId h _ _ _ _ := ⟨⟨h.loggers, h.root, h.sinks⟩, h.zero⟩
  rootInfo := by
    intro m h
    obtain ⟨halloc, hlt⟩ := h.toAllocated.rootInfo
    refine ⟨⟨halloc, ?_⟩, hlt⟩
    intro r hr
    rw [mRootInfo_rootInfo] at hr
    rw [info_rootInfo, ← Option.some.inj hr]
    exact h.info_root
  newInfo h _ _ := ⟨h.newInfo _, length_newInfo _ _ ▸ Nat.lt_succ_self _⟩
  modifyInfo := by
    intro m h p f hf
    refine ⟨h.toAllocated.modifyInfo p f, ?_⟩
    intro r hr
    obtain ⟨hid, hlevel, -⟩ := hf.fields m p r
    rw [hid, hlevel]
    exact h.zero r hr
  modifyEntered := by
    intro m strName p hlt q f _
    rwa [length_modifyInfo]
  insertLogger h hlt := ⟨h.toAllocated.insertLogger hlt _, h.zero⟩
  newSink h name := ⟨h.toAllocated.newSink name, h.zero⟩
  insertSink h hs name filter := ⟨h.toAllocated.insertSink hs name filter, h.zero⟩

theorem rootZero_init : RootZero (init : LogManager α) where
  toAllocated := loaded_init.toAllocated
  zero := fun r h => by cases h

theorem IdState.linkLoggerWithSink {names : Finset LoggerPath}
    {known : Set (Bytes × BitVec 64)} (hstate : IdState names known m) (loggers : List Nat) :
    IdState names known (m.linkLoggerWithSink loggers) := by
  induction loggers generalizing m with
  | nil => exact hstate
  | cons p loggers ih =>
      have hone : IdState names known (m.linkLogger p) := hstate.congr rfl rfl rfl
      exact ih hone

theorem idState_Initialize (setup : LogSetup α) {names : Finset LoggerPath}
    (hroom : LevelRoom names) {files : List ConfigFile}
    (hpaths : ∀ path ∈ loggerPaths files, path ∈ names) (hstate : IdState names ∅ m) :
    IdState names ∅ (after (Initialize setup files) m) := by
  cases files with
  | nil => exact hstate
  | cons file files =>
      obtain ⟨loads, hprefix, hafter⟩ := exists_loadAll_loadConfigs setup (file :: files) [] m
      have hloads : IdState names ∅ (loadAll setup loads m) := by
        apply idState_loadAll setup hroom ∅ loads _ hstate
        exact fun path hpath => hpaths path (loggerPaths_subset hprefix.subset hpath)
      rw [← hafter] at hloads
      unfold Initialize
      cases hrun : (loadConfigs setup (file :: files) []).run m with
      | ok loggers m' =>
          rw [after_bind_of_ok hrun]
          rw [after_of_ok hrun] at hloads
          exact hloads.linkLoggerWithSink loggers
      | error e m' =>
          rw [after_bind_of_error hrun]
          rwa [after_of_error hrun] at hloads

theorem idState_configured (setup : LogSetup α) {calls : List (List ConfigFile)}
    {names : Finset LoggerPath} (hroom : LevelRoom names)
    (hpaths : ∀ path ∈ loggerPaths calls.flatten, path ∈ names) :
    IdState names ∅ (configured setup calls) := by
  unfold configured
  induction calls using List.reverseRecOn with
  | nil => exact idState_init
  | append_singleton calls files ih =>
      rw [List.foldl_append]
      rw [List.flatten_append, List.flatten_singleton] at hpaths
      apply idState_Initialize setup hroom
      · exact fun path hpath =>
          hpaths path (loggerPaths_subset (List.subset_append_right _ _) hpath)
      · exact ih fun path hpath =>
          hpaths path (loggerPaths_subset (List.subset_append_left _ _) hpath)

/-! ## 2. Loggers by name -/

/-- The logger that a name belongs to: its nearest configured ancestor, or else the
    root logger. -/
inductive Belongs (m : LogManager α) (name : Bytes) : Option Bytes → Prop
  | configured {p : Bytes} (hnearest : m.IsNearest p name) (hne : p ≠ rootName) :
      Belongs m name (some p)
  | root (hroot : ∀ p, m.IsNearest p name → p = rootName) : Belongs m name none

theorem IsNearest.unique {p q name : Bytes} (hp : m.IsNearest p name) (hq : m.IsNearest q name) :
    p = q := by
  have hle := hp.longest q hq.ancestor hq.inBothMaps
  have hge := hq.longest p hp.ancestor hp.inBothMaps
  exact hp.ancestor.eq_of_length hq.ancestor (Nat.le_antisymm hge hle)

theorem Belongs.unique {name : Bytes} {l l' : Option Bytes} (h : Belongs m name l)
    (h' : Belongs m name l') : l = l' := by
  cases h with
  | configured hp hne =>
      cases h' with
      | configured hq hne' => rw [hp.unique hq]
      | root hroot => exact absurd (hroot _ hp) hne
  | root hroot =>
      cases h' with
      | configured hq hne' => exact absurd (hroot _ hq) hne'
      | root hroot' => rfl

/-- A logger governs its descendants and itself, the root logger only itself. -/
def Governs : Option Bytes → Option Bytes → Prop
  | none, other => other = none
  | some p, some q => IsAncestor dot p q
  | some _, none => False

/-- What was configured for a logger. -/
def infoOf (m : LogManager α) : Option Bytes → LoggerInfo α
  | none => m.info m.rootInfo.1
  | some p => ((m.mLoggerInfos.lookup p).map m.info).getD {}

/-- The info of a logger. -/
def Stands (m : LogManager α) (p : Nat) : Option Bytes → Prop
  | none => p = m.rootInfo.1
  | some name => m.mLoggerInfos.lookup name = some p ∧ name ≠ rootName

theorem Stands.infoOf_eq {p : Nat} {l : Option Bytes} (h : Stands m p l) :
    m.infoOf l = m.info p := by
  cases l with
  | none =>
      subst h
      rfl
  | some name =>
      have hlookup : m.infoOf (some name) = ((some p).map m.info).getD {} := by
        rw [← h.1]
        rfl
      exact hlookup

section Ranges

variable {names : Finset LoggerPath}

theorem IdState.range_iff (hroom : Room names) (hstate : IdState names ∅ m) {a b : Bytes}
    {idB : BitVec 64} {info : LoggerInfo α} (ha : m.mIdMap.lookup a = some info.Id)
    (hlevel : info.Level = levelOf a) (hb : m.mIdMap.lookup b = some idB) :
    info.Id ≤ idB ∧ idB < info.nextId ↔ IsAncestor dot a b := by
  obtain ⟨⟨arrivals, hnum, hsub⟩, -⟩ := hstate
  obtain ⟨p, hp, rfl, hidA⟩ := (hnum.lookup_iff _ _).mp ha
  obtain ⟨q, hq, rfl, hidB⟩ := (hnum.lookup_iff _ _).mp hb
  have hpwidth := hroom.levels p (hsub p hp)
  have hpne : p ≠ [] := fun hnil => arrivals.nil_notMem (hnil ▸ hp)
  have hbound := hroom.id_add_le hsub hp
  have hn := toNat_levelOf hpne hpwidth
  rw [← hlevel] at hn
  rw [hidA] at hbound
  have hnext := toNat_nextId hn hpwidth (by omega)
  have hrange := Arrivals.id_range_iff_ancestor (hroom.levelRoom.level_lt hsub) hp hq hpwidth
    (hroom.levels q (hsub q hq))
  rw [hidA, hidB, ← hnext] at hrange
  rw [BitVec.le_def, BitVec.lt_def, hrange, isAncestor_separated_iff hpne]

/-- The ids of the names start past the root logger's range. -/
theorem IdState.pow_le (hstate : IdState names ∅ m) {a : Bytes}
    {id : BitVec 64} (ha : m.mIdMap.lookup a = some id) : 256 ^ 7 ≤ id.toNat := by
  obtain ⟨⟨arrivals, hnum, hsub⟩, -⟩ := hstate
  obtain ⟨p, hp, -, hid⟩ := (hnum.lookup_iff _ _).mp ha
  rw [← hid]
  exact Arrivals.pow_le_id hp

/-- **Id ranges are ancestry**, within the capacity of the id scheme. -/
theorem governs_iff (hroom : Room names) (hstate : IdState names ∅ m) (hload : Loaded m)
    (hzero : RootZero m) {p q : Nat} {l l' : Option Bytes} (hp : Stands m p l)
    (hq : Stands m q l') :
    ((m.info q).Id ≤ (m.info p).Id ∧ (m.info p).Id < (m.info q).nextId) ↔ Governs l' l := by
  obtain ⟨hid, hlevel⟩ := hzero.info_root
  have hnext : (m.info m.rootInfo.1).nextId.toNat = 256 ^ 7 := by
    have h : (m.info m.rootInfo.1).nextId.toNat = (m.info m.rootInfo.1).Id.toNat + 256 ^ 7 :=
      toNat_nextId (n := 1) (by rw [hlevel]; rfl) (by norm_num) (by rw [hid]; decide)
    rw [h, hid]
    rfl
  cases l' with
  | none =>
      obtain rfl : q = m.rootInfo.1 := hq
      rw [BitVec.lt_def, hnext]
      cases l with
      | none =>
          obtain rfl : p = m.rootInfo.1 := hp
          rw [hid]
          exact iff_of_true ⟨BitVec.le_refl _, by decide⟩ rfl
      | some b =>
          have hpast := hstate.pow_le (hload.named b p hp.1 hp.2).1
          refine iff_of_false ?_ (fun h => Option.some_ne_none b h)
          rintro ⟨-, hlt⟩
          omega
  | some a =>
      obtain ⟨ha, halevel⟩ := hload.named a q hq.1 hq.2
      cases l with
      | none =>
          obtain rfl : p = m.rootInfo.1 := hp
          have hpast := hstate.pow_le ha
          refine iff_of_false ?_ id
          rintro ⟨hle, -⟩
          rw [hid, BitVec.le_def] at hle
          have hzero : (0 : BitVec 64).toNat = 0 := rfl
          omega
      | some b => exact hstate.range_iff hroom ha halevel (hload.named b p hp.1 hp.2).1

end Ranges

/-! ## 3. What fetching keeps -/

/-- The configuration of a manager, whatever loggers have been made from it. -/
structure Keeps (m₀ m : LogManager α) : Prop where
  mLoggerInfos : m.mLoggerInfos = m₀.mLoggerInfos
  mIdMap : m.mIdMap = m₀.mIdMap
  mSinks : m.mSinks = m₀.mSinks
  root : m.rootInfo.1 = m₀.rootInfo.1
  info : ∀ p, m.info p = { m₀.info p with Log := (m.info p).Log }
  made : ∀ p, ∀ logger ∈ (m.info p).Log, logger.LoggerId = (m₀.info p).Id
  initFilter : ∀ s, (m.sink s).InitFilter = (m₀.sink s).InitFilter

theorem Loaded.keeps (hload : Loaded m) : Keeps m m where
  mLoggerInfos := rfl
  mIdMap := rfl
  mSinks := rfl
  root := rfl
  info := fun _ => rfl
  made := by
    intro p logger hlogger
    rw [hload.unopened p] at hlogger
    cases hlogger
  initFilter := fun _ => rfl

theorem rootInfo_fst_congr {n : LogManager α} (hroot : n.mRootInfo = m.mRootInfo)
    (hcount : n.infos.length = m.infos.length) : n.rootInfo.1 = m.rootInfo.1 := by
  unfold LogManager.rootInfo
  rw [hroot, hcount]
  cases m.mRootInfo with
  | none => rfl
  | some r => rfl

theorem Keeps.rootInfo (h : Keeps m₀ m) : Keeps m₀ m.rootInfo.2 := by
  obtain ⟨infos, heq⟩ := exists_rootInfo_eq m
  have hids : m.rootInfo.2.mIdMap = m.mIdMap := by rw [heq]
  have hsinks : m.rootInfo.2.mSinks = m.mSinks := by rw [heq]
  have hsink (s : Nat) : m.rootInfo.2.sink s = m.sink s := by
    rw [heq]
    rfl
  refine ⟨?_, hids.trans h.mIdMap, hsinks.trans h.mSinks, ?_, ?_, ?_, ?_⟩
  · rw [mLoggerInfos_rootInfo, h.mLoggerInfos]
  · rw [rootInfo_of_some (mRootInfo_rootInfo m), h.root]
  · intro p
    rw [info_rootInfo]
    exact h.info p
  · intro p
    rw [info_rootInfo]
    exact h.made p
  · intro s
    rw [hsink]
    exact h.initFilter s

theorem Keeps.openLogger (h : Keeps m₀ m) (q : Nat) : Keeps m₀ (m.openLogger q) := by
  obtain ⟨hcount, hloggers, hroot, hsinks, -⟩ := openLogger_frame m q
  have hinfo (p : Nat) : (m.openLogger q).info p =
      if q = p ∧ p < m.infos.length then { m.info p with Log := some ⟨(m.info p).Id⟩ }
      else m.info p := by
    rw [info_openLogger, makeLogger, info_modifyInfo]
  refine ⟨hloggers.trans h.mLoggerInfos, (mIdMap_openLogger m q).trans h.mIdMap,
    hsinks.trans h.mSinks, (rootInfo_fst_congr hroot hcount).trans h.root, ?_, ?_, ?_⟩
  · intro p
    have hold := h.info p
    rw [hinfo]
    split
    · rw [hold]
    · exact hold
  · intro p logger hlogger
    rw [hinfo] at hlogger
    split at hlogger
    · cases Option.mem_some_iff.mp hlogger
      rw [h.info p]
    · exact h.made p logger hlogger
  · intro s
    rw [initFilter_openLogger]
    exact h.initFilter s

theorem Keeps.inBothMaps_iff (h : Keeps m₀ m) (key : Bytes) :
    m.InBothMaps key ↔ m₀.InBothMaps key := by
  unfold InBothMaps
  rw [h.mIdMap, h.mLoggerInfos]

theorem Keeps.isNearest_iff (h : Keeps m₀ m) (p name : Bytes) :
    m.IsNearest p name ↔ m₀.IsNearest p name := by
  constructor
  · rintro ⟨hancestor, hboth, hlongest⟩
    exact ⟨hancestor, (h.inBothMaps_iff p).mp hboth,
      fun q hq hqboth => hlongest q hq ((h.inBothMaps_iff q).mpr hqboth)⟩
  · rintro ⟨hancestor, hboth, hlongest⟩
    exact ⟨hancestor, (h.inBothMaps_iff p).mpr hboth,
      fun q hq hqboth => hlongest q hq ((h.inBothMaps_iff q).mp hqboth)⟩

section Fetch

variable {fuel p : Nat} {name : Bytes} {m' : LogManager α}

/-- A lookup gives the info of the logger that the name belongs to. -/
theorem Keeps.getLoggerInfo (h : Keeps m₀ m) (hnamed : RootNamed m₀)
    (hcall : m.getLoggerInfo fuel name = some (p, m')) :
    Keeps m₀ m' ∧ ∃ l, Belongs m₀ name l ∧ Stands m₀ p l := by
  rcases getLoggerInfo_cases hcall with ⟨key, hnearest, hkey, rfl⟩ | ⟨hnone, hroot⟩
  · refine ⟨h, ?_⟩
    rw [h.isNearest_iff] at hnearest
    rw [h.mLoggerInfos] at hkey
    by_cases hname : key = rootName
    · subst hname
      refine ⟨none, .root fun q hq => hq.unique hnearest, ?_⟩
      have hroot := hnamed.named p hkey
      show p = m₀.rootInfo.1
      rw [rootInfo_of_some hroot]
    · exact ⟨some key, .configured hnearest hname, hkey, hname⟩
  · obtain ⟨rfl, rfl⟩ := Prod.mk.inj hroot
    refine ⟨h.rootInfo, none, .root ?_, h.root⟩
    intro q hq
    exact absurd ((h.inBothMaps_iff q).mpr hq.inBothMaps) (hnone q hq.ancestor)

theorem Keeps.getLogger (h : Keeps m₀ m) (hnamed : RootNamed m₀)
    (hcall : m.getLogger fuel name = some (p, m')) :
    Keeps m₀ m' ∧ ∃ l, Belongs m₀ name l ∧ Stands m₀ p l := by
  obtain ⟨⟨q, found⟩, hfound, hresult⟩ := Option.map_eq_some_iff.mp hcall
  obtain ⟨hkeeps, howner⟩ := h.getLoggerInfo hnamed hfound
  obtain ⟨rfl, rfl⟩ := Prod.mk.inj hresult
  refine ⟨?_, howner⟩
  split
  · exact hkeeps.openLogger q
  · exact hkeeps

end Fetch

/-! ## 4. Programs that log -/

/-- The sinks whose filters take a record.  Every sink of `mSinks` is asked, also one
    that `LoadSink` inserted before it threw, which the core never got. -/
def takers (m : LogManager α) (values : AttributeValues α) : List Nat :=
  (UnorderedMap.values m.mSinks).filter fun s => (m.sink s).filtFun values

end LogManager

/-- A program: the loggers that it got from the manager, in order, and the sinks that
    took each of its records. -/
structure LogProgram (α : Type) where
  manager : LogManager α
  loggers : List Nat := []
  taken : List (List Nat) := []

namespace LogProgram

variable {α : Type} {m₀ : LogManager α} {fuel : Nat} {s s' : LogProgram α}
  {es es' : List (Event Bytes α)}

/-- A record carries the id of the logger that it is written to. -/
def step (fuel : Nat) (s : LogProgram α) : Event Bytes α → Option (LogProgram α)
  | .fetch name =>
      (s.manager.getLogger fuel name).map fun (pInfo, m) =>
        { s with manager := m, loggers := s.loggers ++ [pInfo] }
  | .write k v =>
      match s.loggers[k]? with
      | none => none
      | some pInfo =>
          (s.manager.info pInfo).Log.map fun logger =>
            { s with taken := s.taken ++ [s.manager.takers ⟨some logger.LoggerId, v⟩] }

/-- The loggers of a configuration, and where each of them passes records on to. -/
def hierarchy (m : LogManager α) (governs : Option Bytes → Option Bytes → Prop) :
    Hierarchy Bytes (Option Bytes) Nat α (AttributeValues α) where
  owner := m.Belongs
  record l v := ⟨some (m.infoOf l).Id, v⟩
  governs := governs
  routes l r := {t | t ∈ UnorderedMap.values m.mSinks ∧ (m.sink t).InitFilter r = true ∧
    t ∈ (m.infoOf l).SinkInfos ∧ (m.infoOf l).Filter r = true}

/-- A program and the journal of its hierarchy. -/
structure Simulates (m₀ : LogManager α) (s : LogProgram α)
    (j : Journal (Option Bytes) Nat) : Prop where
  keeps : m₀.Keeps s.manager
  routed : s.manager.Routed s.loggers
  stands : List.Forall₂ m₀.Stands s.loggers j.held
  taken : s.taken.map (fun ts => {t | t ∈ ts}) = j.taken

variable {j : Journal (Option Bytes) Nat} {governs : Option Bytes → Option Bytes → Prop}

theorem simulates_start (hload : m₀.Loaded) : Simulates m₀ ⟨m₀, [], []⟩ {} :=
  ⟨hload.keeps, hload.routed, .nil, rfl⟩

/-- The range test of the filters, as a relation of loggers. -/
def GovernsById (m : LogManager α) (q l : Option Bytes) : Prop :=
  (m.infoOf q).Id ≤ (m.infoOf l).Id ∧ (m.infoOf l).Id < (m.infoOf q).nextId

theorem Simulates.fetch (h : Simulates m₀ s j) (hnamed : m₀.RootNamed) {name : Bytes}
    (hstep : s.step fuel (.fetch name) = some s') :
    ∃ j', (hierarchy m₀ governs).Next j (.fetch name) j' ∧ Simulates m₀ s' j' := by
  obtain ⟨⟨p, m⟩, hcall, rfl⟩ := Option.map_eq_some_iff.mp hstep
  obtain ⟨hkeeps, l, howner, hstands⟩ := h.keeps.getLogger hnamed hcall
  exact ⟨{ j with held := j.held ++ [l] }, .fetch howner, hkeeps, (h.routed.getLogger hcall).1,
    List.rel_append h.stands (.cons hstands .nil), h.taken⟩

/-- What a record of a logger finds at a sink. -/
theorem Simulates.filtFun_eq_true_iff (h : Simulates m₀ s j) (l : Option Bytes) (v : α) {t : Nat}
    (ht : t ∈ UnorderedMap.values m₀.mSinks) :
    (s.manager.sink t).filtFun ⟨some (m₀.infoOf l).Id, v⟩ = true ↔
      t ∈ (hierarchy m₀ (GovernsById m₀)).takes j.held l v := by
  have hlt : t < s.manager.mSinkInfoPool.length := by
    obtain ⟨name, hname⟩ := UnorderedMap.mem_values.mp ht
    rw [← h.keeps.mSinks] at hname
    exact h.routed.sinks name t hname
  have hredirect := h.routed.redirect t hlt ⟨some (m₀.infoOf l).Id, v⟩
  unfold SinkInfo.filtFun
  rw [Bool.and_eq_true, hredirect, h.keeps.initFilter]
  have hroutes {p : Nat} {q : Option Bytes} (hstands : m₀.Stands p q) :
      s.manager.Routes p t ⟨some (m₀.infoOf l).Id, v⟩ ↔ GovernsById m₀ q l ∧
        t ∈ (m₀.infoOf q).SinkInfos ∧
          (m₀.infoOf q).Filter ⟨some (m₀.infoOf l).Id, v⟩ = true := by
    rw [LogManager.Routes, h.keeps.info p, GovernsById, hstands.infoOf_eq]
    simp [LoggerInfo.accepts, isInRange, LoggerInfo.nextId]
    tauto
  constructor
  · rintro ⟨hinit, p, hp, hroute⟩
    obtain ⟨q, hq, hstands⟩ := exists_right_of_mem h.stands hp
    obtain ⟨hgoverns, hlinked, hpasses⟩ := (hroutes hstands).mp hroute
    exact ⟨q, hq, hgoverns, ht, hinit, hlinked, hpasses⟩
  · rintro ⟨q, hq, hgoverns, -, hinit, hlinked, hpasses⟩
    obtain ⟨p, hp, hstands⟩ := exists_left_of_mem h.stands hq
    exact ⟨hinit, p, hp, (hroutes hstands).mpr ⟨hgoverns, hlinked, hpasses⟩⟩

/-- The relation of names may stand for the test of ids. -/
theorem takes_hierarchy_congr {held : List (Option Bytes)} {l : Option Bytes}
    (hgov : ∀ q ∈ held, GovernsById m₀ q l ↔ governs q l) (v : α) :
    (hierarchy m₀ (GovernsById m₀)).takes held l v = (hierarchy m₀ governs).takes held l v := by
  ext t
  apply exists_congr
  intro q
  apply and_congr_right
  intro hq
  exact and_congr_left' (hgov q hq)

theorem Simulates.write_eq (h : Simulates m₀ s j) {k : Nat} {l : Option Bytes}
    (hl : j.held[k]? = some l) (v : α) :
    s.step fuel (.write k v) =
      some { s with taken := s.taken ++ [s.manager.takers ⟨some (m₀.infoOf l).Id, v⟩] } := by
  obtain ⟨p, hp, hstands⟩ := exists_getElem?_right h.stands.flip hl
  have hmade := (h.routed.isSome_log p).mpr (List.mem_of_getElem? hp)
  obtain ⟨logger, hlogger⟩ := Option.isSome_iff_exists.mp hmade
  have hid : logger.LoggerId = (m₀.infoOf l).Id := by
    rw [LogManager.Stands.infoOf_eq hstands]
    exact h.keeps.made p logger hlogger
  simp only [step, hp, hlogger, Option.map_some, hid]

theorem Simulates.mem_takers_iff (h : Simulates m₀ s j) (l : Option Bytes) (v : α) (t : Nat) :
    t ∈ s.manager.takers ⟨some (m₀.infoOf l).Id, v⟩ ↔
      t ∈ (hierarchy m₀ (GovernsById m₀)).takes j.held l v := by
  unfold LogManager.takers
  rw [h.keeps.mSinks, List.mem_filter]
  constructor
  · rintro ⟨ht, hfilt⟩
    exact (h.filtFun_eq_true_iff l v ht).mp hfilt
  · rintro ⟨q, hq, hgoverns, ht, hroute⟩
    exact ⟨ht, (h.filtFun_eq_true_iff l v ht).mpr ⟨q, hq, hgoverns, ht, hroute⟩⟩

theorem Simulates.write (h : Simulates m₀ s j)
    (hgov : ∀ p q l l', m₀.Stands p l → m₀.Stands q l' → (GovernsById m₀ l' l ↔ governs l' l))
    {k : Nat} {v : α} (hstep : s.step fuel (.write k v) = some s') :
    ∃ j', (hierarchy m₀ governs).Next j (.write k v) j' ∧ Simulates m₀ s' j' := by
  cases hk : s.loggers[k]? with
  | none => simp [step, hk] at hstep
  | some p =>
      obtain ⟨l, hl, hstands⟩ := exists_getElem?_right h.stands hk
      rw [h.write_eq hl v] at hstep
      obtain rfl := Option.some.inj hstep
      refine ⟨_, .write hl v, h.keeps, h.routed, h.stands, ?_⟩
      have htakes : {t | t ∈ s.manager.takers ⟨some (m₀.infoOf l).Id, v⟩} =
          (hierarchy m₀ governs).takes j.held l v := by
        have hheld : ∀ q ∈ j.held, GovernsById m₀ q l ↔ governs q l := by
          intro q hq
          obtain ⟨r, -, hr⟩ := exists_left_of_mem h.stands hq
          exact hgov p r l q hstands hr
        rw [← takes_hierarchy_congr hheld]
        ext t
        exact h.mem_takers_iff l v t
      rw [List.map_append, h.taken, List.map_singleton, htakes]

theorem simulates_step (hnamed : m₀.RootNamed)
    (hgov : ∀ p q l l', m₀.Stands p l → m₀.Stands q l' → (GovernsById m₀ l' l ↔ governs l' l))
    {e : Event Bytes α} (h : Simulates m₀ s j) (hstep : s.step fuel e = some s') :
    ∃ j', (hierarchy m₀ governs).Next j e j' ∧ Simulates m₀ s' j' := by
  cases e with
  | fetch name => exact h.fetch hnamed hstep
  | write k v => exact h.write hgov hstep

theorem simulates_run (hnamed : m₀.RootNamed)
    (hgov : ∀ p q l l', m₀.Stands p l → m₀.Stands q l' → (GovernsById m₀ l' l ↔ governs l' l))
    (hrun : Run (step fuel) Free s es s') (h : Simulates m₀ s j) :
    ∃ j', Trace (hierarchy m₀ governs).Next j es j' ∧ Simulates m₀ s' j' := by
  apply Run.simulates _ hrun h
  intro s e s' j h _ hstep
  exact simulates_step hnamed hgov h hstep

section Configured

variable (setup : LogSetup α) {calls : List (List ConfigFile)}

theorem rootNamed_configured (calls : List (List ConfigFile)) :
    (LogManager.configured setup calls).RootNamed :=
  LogManager.loadInvariant_rootNamed.configured LogManager.rootNamed_init setup calls

theorem loaded_configured (calls : List (List ConfigFile)) :
    (LogManager.configured setup calls).Loaded :=
  LogManager.loadInvariant_loaded.configured LogManager.loaded_init setup calls

/-- **Programs log hierarchically.**  After any configuration within the capacity of
    the id scheme, the sinks that take the records of a program are those that the
    hierarchy of the configured names says: a record reaches the sinks of the fetched
    loggers whose names are ancestors of its logger's. -/
theorem logs_hierarchically (hcap : WithinCapacity calls.flatten) {last : LogProgram α}
    (hrun : Run (step fuel) Free ⟨LogManager.configured setup calls, [], []⟩ es last) :
    ∃ j, Trace (hierarchy (LogManager.configured setup calls) LogManager.Governs).Next {} es j ∧
      last.taken.map (fun ts => {t | t ∈ ts}) = j.taken := by
  have hload := loaded_configured setup calls
  have hzero : (LogManager.configured setup calls).RootZero :=
    LogManager.loadInvariant_rootZero.configured LogManager.rootZero_init setup calls
  have hstate := LogManager.idState_configured setup hcap.room.levelRoom
    fun path hpath => List.mem_toFinset.mpr hpath
  have hgov (p q : Nat) (l l' : Option Bytes)
      (hp : (LogManager.configured setup calls).Stands p l)
      (hq : (LogManager.configured setup calls).Stands q l') :
      GovernsById (LogManager.configured setup calls) l' l ↔ LogManager.Governs l' l := by
    rw [GovernsById, hp.infoOf_eq, hq.infoOf_eq]
    exact LogManager.governs_iff hcap.room hstate hload hzero hp hq
  obtain ⟨j, htrace, hj⟩ := simulates_run (rootNamed_configured setup calls) hgov hrun
    (simulates_start hload)
  exact ⟨j, htrace, hj.taken⟩

/-- Two calls of `Initialize`, of one file each. -/
def feederAndCore : List (List ConfigFile) :=
  [[.settings feederLog], [.settings LogManager.coreLog]]

theorem withinCapacity_feederAndCore : WithinCapacity feederAndCore.flatten where
  noSinks := by decide
  levels := by decide
  top := by decide
  deeper n _ := (Finset.card_filter_le _ _).trans (by decide)

/-- A record below the filter of its logger, one above it, and one of the root logger. -/
theorem logs_hierarchically_feederAndCore :
    ∃ last, exec (step 100) ⟨LogManager.configured severitySetup feederAndCore, [], []⟩
        [.fetch (feeder ++ dot :: feedSource), .write 0 1, .fetch LogManager.tcpClientName,
          .write 0 2, .write 1 0] = some last ∧
      last.taken = [[], [0], [1]] ∧
      ∃ j, Trace (hierarchy (LogManager.configured severitySetup feederAndCore)
          LogManager.Governs).Next {}
          [.fetch (feeder ++ dot :: feedSource), .write 0 1, .fetch LogManager.tcpClientName,
            .write 0 2, .write 1 0] j ∧
        last.taken.map (fun ts => {t | t ∈ ts}) = j.taken := by
  have htaken : (exec (step 100) ⟨LogManager.configured severitySetup feederAndCore, [], []⟩
      [.fetch (feeder ++ dot :: feedSource), .write 0 1, .fetch LogManager.tcpClientName,
        .write 0 2, .write 1 0]).map LogProgram.taken = some [[], [0], [1]] := by decide
  obtain ⟨last, hlast, hends⟩ := Option.map_eq_some_iff.mp htaken
  have hrun := run_of_exec (fun _ _ _ => trivial) hlast
  exact ⟨last, hlast, hends,
    logs_hierarchically severitySetup withinCapacity_feederAndCore hrun⟩

/-- **Fetching in another order, or again, is no matter**: programs that fetched the
    same names have their records on one name taken by the same sinks. -/
theorem takers_of_same_names {last last' : LogProgram α}
    (hrun : Run (step fuel) Free ⟨LogManager.configured setup calls, [], []⟩ es last)
    (hrun' : Run (step fuel) Free ⟨LogManager.configured setup calls, [], []⟩ es' last')
    (hsame : ∀ name, name ∈ es.filterMap Event.name ↔ name ∈ es'.filterMap Event.name)
    {k k' : Nat} {name : Bytes} (hk : (es.filterMap Event.name)[k]? = some name)
    (hk' : (es'.filterMap Event.name)[k']? = some name) (v : α) :
    ∃ ts, last.step fuel (.write k v) = some { last with taken := last.taken ++ [ts] } ∧
      last'.step fuel (.write k' v) = some { last' with taken := last'.taken ++ [ts] } := by
  have hnamed := rootNamed_configured setup calls
  have hstart := simulates_start (loaded_configured setup calls)
  obtain ⟨j, htrace, hj⟩ := simulates_run hnamed (fun _ _ _ _ _ _ => Iff.rfl) hrun hstart
  obtain ⟨j', htrace', hj'⟩ := simulates_run hnamed (fun _ _ _ _ _ _ => Iff.rfl) hrun' hstart
  have hheld := Hierarchy.held_of_trace htrace .nil
  have hheld' := Hierarchy.held_of_trace htrace' .nil
  rw [List.nil_append] at hheld hheld'
  obtain ⟨l, hl, howner⟩ := exists_getElem?_right hheld hk
  obtain ⟨l', hl', howner'⟩ := exists_getElem?_right hheld' hk'
  obtain rfl := LogManager.Belongs.unique howner howner'
  refine ⟨_, hj.write_eq hl v, ?_⟩
  have htakers : last'.manager.takers ⟨some ((LogManager.configured setup calls).infoOf l).Id, v⟩ =
      last.manager.takers ⟨some ((LogManager.configured setup calls).infoOf l).Id, v⟩ := by
    unfold LogManager.takers
    rw [hj.keeps.mSinks, hj'.keeps.mSinks]
    apply List.filter_congr
    intro t ht
    have htakes := Hierarchy.takes_of_same_names (fun _ _ _ => LogManager.Belongs.unique) hheld
      hheld' hsame
    rw [Bool.eq_iff_iff, hj.filtFun_eq_true_iff l v ht, hj'.filtFun_eq_true_iff l v ht, htakes]
  rw [hj'.write_eq hl' v, htakers]

theorem takers_of_same_names_feederAndCore :
    ∃ last last' : LogProgram Nat,
      exec (step 100) ⟨LogManager.configured severitySetup feederAndCore, [], []⟩
        [.fetch (feeder ++ dot :: feedSource), .fetch LogManager.tcpClientName] = some last ∧
      exec (step 100) ⟨LogManager.configured severitySetup feederAndCore, [], []⟩
        [.fetch LogManager.tcpClientName, .write 0 3, .fetch LogManager.tcpClientName,
          .fetch (feeder ++ dot :: feedSource)] = some last' ∧
      ∃ ts, last.step 100 (.write 0 2) = some { last with taken := last.taken ++ [ts] } ∧
        last'.step 100 (.write 2 2) = some { last' with taken := last'.taken ++ [ts] } := by
  have hsome : (exec (step 100) ⟨LogManager.configured severitySetup feederAndCore, [], []⟩
      [.fetch (feeder ++ dot :: feedSource), .fetch LogManager.tcpClientName]).isSome := by decide
  have hsome' : (exec (step 100) ⟨LogManager.configured severitySetup feederAndCore, [], []⟩
      [.fetch LogManager.tcpClientName, .write 0 3, .fetch LogManager.tcpClientName,
        .fetch (feeder ++ dot :: feedSource)]).isSome := by decide
  obtain ⟨last, hlast⟩ := Option.isSome_iff_exists.mp hsome
  obtain ⟨last', hlast'⟩ := Option.isSome_iff_exists.mp hsome'
  have hrun := run_of_exec (fun _ _ _ => trivial) hlast
  have hrun' := run_of_exec (fun _ _ _ => trivial) hlast'
  refine ⟨last, last', hlast, hlast', ?_⟩
  exact takers_of_same_names severitySetup hrun hrun' (by simp [Event.name]; tauto) rfl rfl 2

end Configured

end LogProgram

end MemClient
