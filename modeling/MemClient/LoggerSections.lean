import MemClient.LoggerIds
import MemClient.LoggerLookup

/-!
# The loggers of a configuration

`LoadLogger` looks for sections with sinks from the top down and does not look into one that
it found.  `reached` are the sections that it finds; loading gives each of them an entry with
its sinks and its filter, and no other name has one.
-/

namespace MemClient

open ByteCodec NameHierarchy Std.Do

set_option mvcgen.warning false

/-! ## 1. Sections -/

namespace PropertyTree

/-- The section at a path. -/
def sectionAt : LoggerPath → PropertyTree → Option PropertyTree
  | [], tree => some tree
  | name :: path, tree => (tree.child name.val).bind (sectionAt path)

def Configured (sec : PropertyTree) : Prop := (sec.child LogManager.sinksKey).isSome

instance (sec : PropertyTree) : Decidable sec.Configured := inferInstanceAs (Decidable (_ = true))

end PropertyTree

mutual

/-- The names in a section are pairwise distinct, at every depth. -/
def PropertyTree.Distinct : PropertyTree → Prop
  | .node _ children => children.Distinct

def PropertyTrees.Distinct : PropertyTrees → Prop
  | .nil => True
  | .cons name tree rest => rest.find name.val = none ∧ tree.Distinct ∧ rest.Distinct

end

theorem PropertyTrees.Distinct.count {key : Bytes} : ∀ {trees : PropertyTrees}, trees.Distinct →
    trees.count key = if (trees.find key).isSome then 1 else 0
  | .nil, _ => rfl
  | .cons name tree rest, hdistinct => by
      obtain ⟨hname, -, hrest⟩ := hdistinct
      rw [PropertyTrees.count, PropertyTrees.find, hrest.count]
      by_cases hkey : name.val = key
      · rw [if_pos hkey, if_pos hkey, ← hkey, hname]
        rfl
      · rw [if_neg hkey, if_neg hkey, Nat.zero_add]

theorem PropertyTree.Distinct.count_eq_one {tree : PropertyTree} (hdistinct : tree.Distinct) :
    tree.count LogManager.sinksKey = 1 ↔ tree.Configured := by
  cases tree with
  | node data children =>
      rw [PropertyTree.count, PropertyTree.children, hdistinct.count, PropertyTree.Configured]
      simp [PropertyTree.child, PropertyTree.children, Option.isSome_iff_ne_none]

theorem PropertyTrees.Distinct.find {key : Bytes} {child : PropertyTree} :
    ∀ {trees : PropertyTrees}, trees.Distinct → trees.find key = some child → child.Distinct
  | .nil, _, hfind => by cases hfind
  | .cons name tree rest, ⟨_, htree, hrest⟩, hfind => by
      rw [PropertyTrees.find] at hfind
      split at hfind
      · exact Option.some.inj hfind ▸ htree
      · exact hrest.find hfind

theorem PropertyTree.Distinct.sectionAt {path : LoggerPath} {tree sec : PropertyTree}
    (hdistinct : tree.Distinct) (hsec : tree.sectionAt path = some sec) : sec.Distinct := by
  induction path generalizing tree with
  | nil => exact Option.some.inj hsec ▸ hdistinct
  | cons name path ih =>
      obtain ⟨child, hchild, hinner⟩ := Option.bind_eq_some_iff.mp hsec
      cases tree with
      | node data children => exact ih (PropertyTrees.Distinct.find hdistinct hchild) hinner

mutual

/-- All sections with their paths. -/
def PropertyTree.sections : PropertyTree → LoggerPath → List (LoggerPath × PropertyTree)
  | .node data children, path => (path, .node data children) :: children.sections path

def PropertyTrees.sections : PropertyTrees → LoggerPath → List (LoggerPath × PropertyTree)
  | .nil, _ => []
  | .cons name tree rest, path => tree.sections (path ++ [name]) ++ rest.sections path

end

theorem PropertyTrees.find_cons_cases {name other : SectionName} {tree child : PropertyTree}
    {rest : PropertyTrees}
    (hfind : (PropertyTrees.cons other tree rest).find name.val = some child) :
    (other = name ∧ tree = child) ∨ rest.find name.val = some child := by
  rw [PropertyTrees.find] at hfind
  split at hfind
  · next hname => exact Or.inl ⟨Subtype.ext hname, Option.some.inj hfind⟩
  · exact Or.inr hfind

theorem PropertyTrees.mem_sections {name : SectionName} {path : LoggerPath} {child : PropertyTree}
    {e : LoggerPath × PropertyTree} (he : e ∈ child.sections (path ++ [name])) :
    ∀ {trees : PropertyTrees}, trees.find name.val = some child → e ∈ trees.sections path
  | .nil, hfind => by cases hfind
  | .cons other tree rest, hfind => by
      rcases PropertyTrees.find_cons_cases hfind with ⟨rfl, rfl⟩ | hrest
      · exact List.mem_append_left _ he
      · exact List.mem_append_right _ (PropertyTrees.mem_sections he hrest)

theorem PropertyTree.mem_sections {path : LoggerPath} {tree sec : PropertyTree}
    (hsec : tree.sectionAt path = some sec) (front : LoggerPath) :
    (front ++ path, sec) ∈ tree.sections front := by
  induction path generalizing tree front with
  | nil =>
      obtain rfl := Option.some.inj hsec
      cases tree with
      | node data children =>
          rw [List.append_nil]
          exact List.mem_cons_self
  | cons name path ih =>
      obtain ⟨child, hchild, hinner⟩ := Option.bind_eq_some_iff.mp hsec
      have hmem := ih hinner (front ++ [name])
      rw [List.append_assoc, List.singleton_append] at hmem
      cases tree with
      | node data children =>
          exact List.mem_cons_of_mem _ (PropertyTrees.mem_sections hmem hchild)

/-! ## 2. The sections that LoadLogger finds -/

namespace PropertyTree

/-- There are sinks at the path and nowhere on the way to it. -/
inductive Reached : PropertyTree → LoggerPath → PropertyTree → Prop
  | here {tree} : tree.Configured → Reached tree [] tree
  | inside {tree child sec name path} : ¬tree.Configured → tree.child name.val = some child →
      Reached child path sec → Reached tree (name :: path) sec

theorem Reached.sectionAt {tree sec : PropertyTree} {path : LoggerPath}
    (h : Reached tree path sec) : tree.sectionAt path = some sec ∧ sec.Configured := by
  induction h with
  | here hconfigured => exact ⟨rfl, hconfigured⟩
  | inside _ hchild _ ih => exact ⟨Option.bind_eq_some_iff.mpr ⟨_, hchild, ih.1⟩, ih.2⟩

theorem Reached.not_configured {tree sec : PropertyTree} {front back : LoggerPath}
    (h : Reached tree (front ++ back) sec) (hback : back ≠ []) {passed : PropertyTree}
    (hpassed : tree.sectionAt front = some passed) : ¬passed.Configured := by
  induction front generalizing tree with
  | nil =>
      obtain rfl := Option.some.inj hpassed
      rw [List.nil_append] at h
      cases h with
      | here => exact absurd rfl hback
      | inside hnot _ _ => exact hnot
  | cons name front ih =>
      obtain ⟨child, hchild, hinner⟩ := Option.bind_eq_some_iff.mp hpassed
      cases h with
      | inside _ hchild' hreached =>
          obtain rfl := Option.some.inj (hchild'.symm.trans hchild)
          exact ih hreached hinner

/-- Where nothing on the way has sinks, a section with sinks is reached. -/
theorem reached_of_sectionAt {tree sec : PropertyTree} {path : LoggerPath}
    (hsec : tree.sectionAt path = some sec) (hconfigured : sec.Configured)
    (hway : ∀ front back passed, path = front ++ back → back ≠ [] →
      tree.sectionAt front = some passed → ¬passed.Configured) : Reached tree path sec := by
  induction path generalizing tree with
  | nil =>
      obtain rfl := Option.some.inj hsec
      exact .here hconfigured
  | cons name path ih =>
      obtain ⟨child, hchild, hinner⟩ := Option.bind_eq_some_iff.mp hsec
      refine .inside (hway [] (name :: path) tree rfl (List.cons_ne_nil _ _) rfl) hchild ?_
      apply ih hinner
      rintro front back passed rfl hback hpassed
      exact hway (name :: front) back passed rfl hback
        (Option.bind_eq_some_iff.mpr ⟨child, hchild, hpassed⟩)

/-- With their paths, for a tree that lies at a path itself. -/
def reached (tree : PropertyTree) (path : LoggerPath) : Set (LoggerPath × PropertyTree) :=
  {e | ∃ inner, e.1 = path ++ inner ∧ Reached tree inner e.2}

end PropertyTree

def PropertyTrees.reached (trees : PropertyTrees) (path : LoggerPath) :
    Set (LoggerPath × PropertyTree) :=
  {e | ∃ name child, trees.find name.val = some child ∧ e ∈ child.reached (path ++ [name])}

theorem PropertyTree.reached_of_configured {tree : PropertyTree} (h : tree.Configured)
    (path : LoggerPath) : tree.reached path = {(path, tree)} := by
  ext ⟨other, sec⟩
  constructor
  · rintro ⟨inner, rfl, hreached⟩
    cases hreached with
    | here => simp
    | inside hnot _ _ => exact absurd h hnot
  · rintro heq
    obtain ⟨rfl, rfl⟩ := Prod.mk.inj heq
    exact ⟨[], (List.append_nil _).symm, .here h⟩

theorem PropertyTree.reached_of_not_configured {data : Bytes} {children : PropertyTrees}
    (h : ¬(PropertyTree.node data children).Configured) (path : LoggerPath) :
    (PropertyTree.node data children).reached path = children.reached path := by
  ext ⟨other, sec⟩
  constructor
  · rintro ⟨inner, rfl, hreached⟩
    cases hreached with
    | here hconfigured => exact absurd hconfigured h
    | @inside _ child _ name rest _ hchild hreached =>
        exact ⟨name, child, hchild, rest, by simp, hreached⟩
  · rintro ⟨name, child, hchild, rest, hpath, hreached⟩
    refine ⟨name :: rest, ?_, .inside h hchild hreached⟩
    rw [hpath, List.append_assoc, List.singleton_append]

theorem PropertyTrees.reached_nil (path : LoggerPath) :
    PropertyTrees.nil.reached path = ∅ := by
  rw [Set.eq_empty_iff_forall_notMem]
  rintro e ⟨name, child, hchild, -⟩
  cases hchild

theorem PropertyTrees.reached_cons {name : SectionName} {child : PropertyTree}
    {rest : PropertyTrees} (h : rest.find name.val = none) (path : LoggerPath) :
    (PropertyTrees.cons name child rest).reached path =
      child.reached (path ++ [name]) ∪ rest.reached path := by
  ext e
  constructor
  · rintro ⟨other, found, hfind, he⟩
    rcases PropertyTrees.find_cons_cases hfind with ⟨rfl, rfl⟩ | hrest
    · exact Or.inl he
    · exact Or.inr ⟨other, found, hrest, he⟩
  · rintro (he | ⟨other, found, hfind, he⟩)
    · exact ⟨name, child, by rw [PropertyTrees.find, if_pos rfl], he⟩
    · refine ⟨other, found, ?_, he⟩
      rw [PropertyTrees.find, if_neg, hfind]
      intro hname
      rw [← hname, h] at hfind
      cases hfind

/-! ## 3. The loggers so far -/

/-- The filter of a section, which passes every record where it has none. -/
def LogSetup.filterOf {α : Type} (setup : LogSetup α) (sec : PropertyTree) :
    Option (LogFilter α) :=
  match sec.get (ascii ['F', 'i', 'l', 't', 'e', 'r']) with
  | none => some fun _ => true
  | some text => setup.parse_filter text

namespace LogManager

variable {α : Type} {m : LogManager α} (setup : LogSetup α)

/-- An info has the sinks and the filter of a section. -/
def Describes (sec : PropertyTree) (info : LoggerInfo α) : Prop :=
  info.SinkNames = (sec.get sinksKey).getD [] ∧ setup.filterOf sec = some info.Filter

/-- The names with a logger info are those of the given sections. -/
structure LoggersAre (m : LogManager α) (S : Set (LoggerPath × PropertyTree)) : Prop
    extends Separate m where
  loaded : ∀ e ∈ S, ∃ p, m.mLoggerInfos.lookup (separated e.1) = some p ∧
    Describes setup e.2 (m.info p)
  only : ∀ name p, m.mLoggerInfos.lookup name = some p → ∃ e ∈ S, separated e.1 = name

/-- The root logger has not been configured. -/
def PlainRoot (m : LogManager α) : Prop :=
  ∀ p, m.mRootInfo = some p → (m.info p).FileId = 0 ∧ (m.info p).Filter = fun _ => true

/-- What `LoadLogger` keeps. -/
structure Loads (m : LogManager α) (S : Set (LoggerPath × PropertyTree)) : Prop where
  loggers : LoggersAre setup m S
  root : (∀ e ∈ S, separated e.1 ≠ rootName) → PlainRoot m

/-- An info that waits for its parameters. -/
structure Awaits (m : LogManager α) (S : Set (LoggerPath × PropertyTree)) (strName : Bytes)
    (p : Nat) : Prop where
  loggers : LoggersAre setup m S
  unshared : Unshared m strName p
  root : (∀ e ∈ S, separated e.1 ≠ rootName) → strName ≠ rootName → PlainRoot m

variable {setup} {S : Set (LoggerPath × PropertyTree)} {strName : Bytes} {p : Nat}

theorem LoggersAre.lookup_eq_none (h : LoggersAre setup m S)
    (hnew : ∀ e ∈ S, separated e.1 ≠ strName) : m.mLoggerInfos.lookup strName = none := by
  rw [Option.eq_none_iff_forall_not_mem]
  intro p hp
  obtain ⟨e, he, hname⟩ := h.only strName p hp
  exact hnew e he hname

/-- An info that no name has changes nothing under the names. -/
theorem LoggersAre.modifyInfo (h : LoggersAre setup m S)
    (hp : ∀ name, m.mLoggerInfos.lookup name ≠ some p) (f : LoggerInfo α → LoggerInfo α) :
    LoggersAre setup (m.modifyInfo p f) S := by
  refine ⟨h.toSeparate.modifyInfo p f, ?_, h.only⟩
  intro e he
  obtain ⟨q, hq, hdescribes⟩ := h.loaded e he
  refine ⟨q, hq, ?_⟩
  rw [info_modifyInfo, if_neg]
  · exact hdescribes
  · rintro ⟨rfl, -⟩
    exact hp _ hq

theorem LoggersAre.newInfo (h : LoggersAre setup m S) (info : LoggerInfo α) :
    LoggersAre setup (m.newInfo info) S := by
  refine ⟨h.toSeparate.newInfo info, ?_, h.only⟩
  intro e he
  obtain ⟨q, hq, hdescribes⟩ := h.loaded e he
  refine ⟨q, hq, ?_⟩
  rwa [info_newInfo, if_neg (Nat.ne_of_lt (h.toAllocated.loggers _ q hq))]

theorem LoggersAre.rootInfo (h : LoggersAre setup m S) : LoggersAre setup m.rootInfo.2 S := by
  have hsep := h.toSeparate.rootInfo.1
  unfold LogManager.rootInfo at hsep ⊢
  cases hroot : m.mRootInfo with
  | some q => exact h
  | none =>
      rw [hroot] at hsep
      have hnew := h.newInfo {}
      exact ⟨hsep, hnew.loaded, hnew.only⟩

theorem PlainRoot.newInfo (h : PlainRoot m) (halloc : Allocated m) (info : LoggerInfo α) :
    PlainRoot (m.newInfo info) := by
  intro p hp
  rw [info_newInfo, if_neg (Nat.ne_of_lt (halloc.root p hp))]
  exact h p hp

/-- The root logger's info is plain when it is made. -/
theorem PlainRoot.rootInfo (h : PlainRoot m) : (m.rootInfo.2.info m.rootInfo.1).FileId = 0 ∧
    (m.rootInfo.2.info m.rootInfo.1).Filter = fun _ => true := by
  unfold LogManager.rootInfo
  cases hroot : m.mRootInfo with
  | some p => exact h p hroot
  | none =>
      have hnew : (m.newInfo {}).info m.infos.length = {} := by rw [info_newInfo, if_pos rfl]
      exact ⟨congrArg LoggerInfo.FileId hnew, congrArg LoggerInfo.Filter hnew⟩

theorem Awaits.notMem (h : Awaits setup m S strName p) (hnew : ∀ e ∈ S, separated e.1 ≠ strName)
    (name : Bytes) : m.mLoggerInfos.lookup name ≠ some p := by
  intro hname
  have hsole := h.unshared.sole name hname
  rw [hsole, h.loggers.lookup_eq_none hnew] at hname
  cases hname

theorem Awaits.modifyInfo (h : Awaits setup m S strName p)
    (hnew : ∀ e ∈ S, separated e.1 ≠ strName) (f : LoggerInfo α → LoggerInfo α) :
    Awaits setup (m.modifyInfo p f) S strName p := by
  refine ⟨h.loggers.modifyInfo (h.notMem hnew) f, h.unshared.modifyInfo p f, ?_⟩
  intro hroot hne q hq
  rw [info_modifyInfo, if_neg]
  · exact h.root hroot hne q hq
  · rintro ⟨rfl, -⟩
    exact hne (h.unshared.rootOnly hq)

/-- A new name with the info of its section. -/
theorem Awaits.insertLogger {path : LoggerPath} {sec : PropertyTree}
    (h : Awaits setup m S (separated path) p)
    (hnew : ∀ e ∈ S, separated e.1 ≠ separated path) (hdescribes : Describes setup sec (m.info p)) :
    Loads setup { m with mLoggerInfos := UnorderedMap.insertNew m.mLoggerInfos (separated path) p }
      (S ∪ {(path, sec)}) := by
  have hnone := h.loggers.lookup_eq_none hnew
  refine ⟨⟨h.loggers.toSeparate.insertLogger h.unshared, ?_, ?_⟩, ?_⟩
  · rintro e (he | rfl)
    · obtain ⟨q, hq, hold⟩ := h.loggers.loaded e he
      refine ⟨q, ?_, hold⟩
      rw [UnorderedMap.lookup_insertNew_eq, if_neg (hnew e he), hq]
    · refine ⟨p, ?_, hdescribes⟩
      rw [UnorderedMap.lookup_insertNew_eq, if_pos rfl, hnone]
      rfl
  · intro name q hq
    rcases lookup_insertNew_cases hq with hold | ⟨rfl, -⟩
    · obtain ⟨e, he, hname⟩ := h.loggers.only name q hold
      exact ⟨e, Or.inl he, hname⟩
    · exact ⟨(path, sec), Or.inr rfl, rfl⟩
  · intro hroot
    exact h.root (fun e he => hroot e (Or.inl he)) (hroot (path, sec) (Or.inr rfl))

/-! ## 4. Loading -/

/-- An id is found or made, and concerns no logger info. -/
theorem getId_frame (strName : Bytes) {P : LogManager α → Prop} {level : BitVec 8}
    (hlevel : level.toNat < MAX_LEVEL)
    (hP : ∀ m mIds mIdMap, P m → P { m with mIds := mIds, mIdMap := mIdMap })
    (parentId : BitVec 64) :
    ⦃fun m => ⌜P m⌝⦄ (getId strName level parentId : LogM α (BitVec 64))
    ⦃post⟨fun _ m => ⌜P m⌝, fun _ _ => ⌜False⌝⟩⦄ := by
  mvcgen [getId]
  case vc2.h_2.isTrue m hm _ _ id =>
    exact hP m _ _ hm

theorem Loads.setIds (h : Loads setup m S) (mIds : Vector (BitVec 32) MAX_LEVEL)
    (mIdMap : UnorderedMap Bytes (BitVec 64)) :
    Loads setup { m with mIds := mIds, mIdMap := mIdMap } S :=
  ⟨⟨⟨⟨h.loggers.loggers, h.loggers.root, h.loggers.sinks⟩, h.loggers.unique, h.loggers.rootOnly⟩,
    h.loggers.loaded, h.loggers.only⟩, h.root⟩

variable (setup) in
theorem parseFilter_parses (P : LogManager α → Prop) {sec : PropertyTree}
    (hfilter : (setup.filterOf sec).isSome) :
    ⦃fun m => ⌜P m⌝⦄ (parseFilter setup sec : LogM α (Option (LogFilter α)))
    ⦃post⟨fun filter m => ⌜P m ∧ setup.filterOf sec = some (filter.getD fun _ => true)⌝,
      fun _ _ => ⌜False⌝⟩⦄ := by
  unfold parseFilter
  mvcgen
  all_goals simp_all [LogSetup.filterOf]

variable (setup) in
theorem enterLogger_awaits {path : LoggerPath} (hne : path ≠ []) (hlength : path.length ≤ 8)
    (hnew : ∀ e ∈ S, separated e.1 ≠ separated path) (parentId : BitVec 64) :
    ⦃fun m => ⌜Loads setup m S⌝⦄
    (enterLogger (levelOf (separated path)) (separated path) parentId : LogM α Nat)
    ⦃post⟨fun p m => ⌜Awaits setup m S (separated path) p ∧
      (m.info p).Filter = fun _ => true⌝, fun _ _ => ⌜False⌝⟩⦄ := by
  have hlevel : (levelOf (separated path)).toNat < MAX_LEVEL := by
    have hmax : MAX_LEVEL = 8 := rfl
    have hlevelOf := toNat_levelOf hne hlength
    omega
  have hid := getId_frame (separated path) (P := fun m => Loads setup m S) hlevel
    (fun m mIds mIdMap h => h.setIds mIds mIdMap) parentId
  mvcgen [enterLogger, hid]
  case vc1.isTrue.isTrue hname m hm _ hfile =>
    exact hfile ((hm.root fun e he => hname ▸ hnew e he).rootInfo).1
  case vc2.isTrue.isFalse hname m hm _ _ =>
    have hplain := (hm.root fun e he => hname ▸ hnew e he).rootInfo
    rw [hname]
    exact ⟨⟨hm.loggers.rootInfo, hm.loggers.toSeparate.rootInfo.2,
      fun _ hroot => absurd rfl hroot⟩, hplain.2⟩
  case vc3.isFalse.isTrue m hm _ hsome =>
    rw [hm.loggers.lookup_eq_none hnew] at hsome
    cases hsome
  case vc5.isFalse.isFalse.post.success _ _ _ _ _ id m hm =>
    refine ⟨⟨hm.loggers.newInfo _, hm.loggers.toSeparate.unshared_newInfo _ _, ?_⟩, ?_⟩
    · intro hroot _
      exact (hm.root hroot).newInfo hm.loggers.toAllocated _
    · rw [info_newInfo, if_pos rfl]

/-- Where a section has sinks, they are those of its logger. -/
theorem getD_of_configured {sec : PropertyTree} (hsec : sec.Configured) (names : Bytes) :
    (sec.get sinksKey).getD names = (sec.get sinksKey).getD [] := by
  obtain ⟨child, hchild⟩ := Option.isSome_iff_exists.mp hsec
  rw [PropertyTree.get, hchild]
  rfl

theorem Awaits.info_modifyInfo (h : Awaits setup m S strName p)
    (f : LoggerInfo α → LoggerInfo α) : (m.modifyInfo p f).info p = f (m.info p) := by
  rw [LogManager.info_modifyInfo, if_pos ⟨rfl, h.unshared.lt⟩]

variable (setup)

/-- **A section with sinks** gets an entry with its sinks and its filter. -/
theorem configureLogger_loads {path : LoggerPath} (hne : path ≠ []) (hlength : path.length ≤ 8)
    (hnew : ∀ e ∈ S, separated e.1 ≠ separated path) {sec : PropertyTree}
    (hsec : sec.Configured) (hfilter : (setup.filterOf sec).isSome) (loggers : List Nat)
    (parentId : BitVec 64) :
    ⦃fun m => ⌜Loads setup m S⌝⦄
    configureLogger setup sec (levelOf (separated path)) loggers (separated path) parentId
    ⦃post⟨fun _ m => ⌜Loads setup m (S ∪ {(path, sec)})⌝, fun _ _ => ⌜False⌝⟩⦄ := by
  have henter := enterLogger_awaits setup hne hlength hnew parentId
  have hread := fun p => parseFilter_parses setup (fun m : LogManager α =>
    Awaits setup m S (separated path) p ∧ (m.info p).SinkNames = (sec.get sinksKey).getD [] ∧
      (m.info p).Filter = fun _ => true) hfilter
  mvcgen [configureLogger, henter, hread]
  case vc3.post.success.pre _ _ p m hm _ =>
    obtain ⟨hawaits, hplain⟩ := hm
    refine ⟨hawaits.modifyInfo hnew _, ?_, ?_⟩
    · rw [hawaits.info_modifyInfo]
      exact getD_of_configured hsec _
    · rw [hawaits.info_modifyInfo]
      exact hplain
  case vc4.post.success.post.success _ _ p _ _ _ filter m hm _ =>
    obtain ⟨⟨hawaits, hnames, hplain⟩, hparsed⟩ := hm
    apply (hawaits.modifyInfo hnew fun info =>
      { info with Filter := filter.getD info.Filter }).insertLogger hnew
    rw [hawaits.info_modifyInfo]
    refine ⟨hnames, ?_⟩
    rw [hparsed, hplain]

/-! ### Trees -/

/-- Sections at a depth that a path of the given length leads to have a level. -/
def Bounded (length : Nat) (tree : PropertyTree) : Prop :=
  ∀ path sec, tree.sectionAt path = some sec → sec.empty = false → length + path.length ≤ 8

def Parses (tree : PropertyTree) : Prop :=
  ∀ path sec, tree.sectionAt path = some sec → sec.Configured → (setup.filterOf sec).isSome

theorem reached_of_empty {tree : PropertyTree} (h : tree.empty = true) (path : LoggerPath) :
    tree.reached path = ∅ := by
  cases tree with
  | node data children =>
      cases children with
      | nil =>
          rw [PropertyTree.reached_of_not_configured (by simp [PropertyTree.Configured,
            PropertyTree.child, PropertyTree.children, PropertyTrees.find]),
            PropertyTrees.reached_nil]
      | cons name child rest => cases h

theorem PropertyTrees.find_cons_self (name : SectionName) (child : PropertyTree)
    (rest : PropertyTrees) : (PropertyTrees.cons name child rest).find name.val = some child := by
  rw [PropertyTrees.find, if_pos rfl]

theorem PropertyTrees.find_cons_of_find {name : SectionName} {child found : PropertyTree}
    {rest : PropertyTrees} {key : Bytes} (hname : rest.find name.val = none)
    (hkey : rest.find key = some found) :
    (PropertyTrees.cons name child rest).find key = some found := by
  rw [PropertyTrees.find, if_neg, hkey]
  rintro rfl
  rw [hname] at hkey
  cases hkey

mutual

theorem loadLogger_loads : ∀ (tree : PropertyTree) (path : LoggerPath) (parentId : BitVec 64)
    (loggers : List Nat) (S : Set (LoggerPath × PropertyTree)),
    tree.Distinct → (path = [] → ¬tree.Configured) → Bounded path.length tree →
    Parses setup tree → (∀ e ∈ S, ¬path <+: e.1) →
    ⦃fun m => ⌜Loads setup m S⌝⦄
    loadLogger setup tree (levelOf (separated path)) loggers (separated path) parentId
    ⦃post⟨fun _ m => ⌜Loads setup m (S ∪ tree.reached path)⌝, fun _ _ => ⌜False⌝⟩⦄
  | .node data children, path, parentId, loggers, S => by
      intro hdistinct htop hbounded hparses hnew
      have hcount := hdistinct.count_eq_one
      unfold loadLogger
      by_cases hconfigured : (PropertyTree.node data children).Configured
      · have hempty : (PropertyTree.node data children).empty = false := by
          cases children with
          | nil => cases hconfigured
          | cons => rfl
        rw [if_pos (hcount.mpr hconfigured), PropertyTree.reached_of_configured hconfigured]
        apply configureLogger_loads setup (fun hnil => htop hnil hconfigured)
          (hbounded [] _ rfl hempty) _ hconfigured (hparses [] _ rfl hconfigured)
        intro e he hname
        exact hnew e he (separated_injective hname ▸ List.prefix_rfl)
      · rw [if_neg (mt hcount.mp hconfigured)]
        by_cases hempty : (PropertyTree.node data children).empty = true
        · rw [reached_of_empty hempty, Set.union_empty]
          simp only [hempty]
          mvcgen
        · have hempty := Bool.eq_false_iff.mpr hempty
          rw [PropertyTree.reached_of_not_configured hconfigured]
          have hchildren := fun id => loadLoggers_loads children path id loggers S hdistinct
            (fun name child hfind inner sec hsec hsub => by
              have hlength := hbounded (name :: inner) sec
                (Option.bind_eq_some_iff.mpr ⟨child, hfind, hsec⟩) hsub
              rw [List.length_cons] at hlength
              omega)
            (fun name child hfind inner sec hsec => hparses (name :: inner) sec
              (Option.bind_eq_some_iff.mpr ⟨child, hfind, hsec⟩))
            (fun name _ e he hprefix => hnew e he ((List.prefix_append _ _).trans hprefix))
          by_cases hpath : path = []
          · have hname : ¬(separated path).length ≠ 0 := by simp [hpath]
            mvcgen [hchildren]
          · have hname : (separated path).length ≠ 0 := by simpa using hpath
            have hlevel : (levelOf (separated path)).toNat < MAX_LEVEL := by
              have hmax : MAX_LEVEL = 8 := rfl
              have hlength := hbounded [] _ rfl hempty
              have hlevelOf := toNat_levelOf hpath hlength
              rw [List.length_nil] at hlength
              omega
            have hid := getId_frame (separated path) (P := fun m => Loads setup m S)
              hlevel (fun m mIds mIdMap h => h.setIds mIds mIdMap) parentId
            mvcgen [hid, hchildren]

theorem loadLoggers_loads : ∀ (trees : PropertyTrees) (path : LoggerPath) (parentId : BitVec 64)
    (loggers : List Nat) (S : Set (LoggerPath × PropertyTree)),
    trees.Distinct →
    (∀ (name : SectionName) (child : PropertyTree), trees.find name.val = some child →
      Bounded (path.length + 1) child) →
    (∀ (name : SectionName) (child : PropertyTree), trees.find name.val = some child →
      Parses setup child) →
    (∀ name : SectionName, (trees.find name.val).isSome → ∀ e ∈ S, ¬path ++ [name] <+: e.1) →
    ⦃fun m => ⌜Loads setup m S⌝⦄
    loadLoggers setup trees (levelOf (separated path)) loggers (childName (separated path)) parentId
    ⦃post⟨fun _ m => ⌜Loads setup m (S ∪ trees.reached path)⌝, fun _ _ => ⌜False⌝⟩⦄
  | .nil, path, parentId, loggers, S => by
      intro _ _ _ _
      rw [PropertyTrees.reached_nil, Set.union_empty]
      mvcgen [loadLoggers]
  | .cons name childSec rest, path, parentId, loggers, S => by
      intro hdistinct hbounded hparses hnew
      obtain ⟨hname, hchildDistinct, hrestDistinct⟩ := hdistinct
      have hself := PropertyTrees.find_cons_self name childSec rest
      have hchild := loadLogger_loads childSec (path ++ [name]) parentId loggers S hchildDistinct
        (fun hnil => absurd hnil (by simp))
        (by simpa using hbounded name childSec hself) (hparses name childSec hself)
        (hnew name (by rw [hself]; rfl))
      rw [← childName_separated, levelOf_childName] at hchild
      have hrest := fun loggers => loadLoggers_loads rest path parentId loggers
        (S ∪ childSec.reached (path ++ [name])) hrestDistinct
        (fun other found hfind => hbounded other found
          (PropertyTrees.find_cons_of_find hname hfind))
        (fun other found hfind => hparses other found
          (PropertyTrees.find_cons_of_find hname hfind))
        (by
          intro other hother e he hprefix
          obtain ⟨found, hfound⟩ := Option.isSome_iff_exists.mp hother
          rcases he with he | ⟨inner, hinner, -⟩
          · refine hnew other ?_ e he hprefix
            rw [PropertyTrees.find_cons_of_find hname hfound]
            rfl
          · rw [hinner, List.append_assoc, List.prefix_append_right_inj] at hprefix
            have hsame : other = name := by simpa using hprefix
            rw [hsame, hname] at hfound
            cases hfound)
      rw [PropertyTrees.reached_cons hname, ← Set.union_assoc]
      unfold loadLoggers
      by_cases hempty : childSec.empty = true
      · rw [reached_of_empty hempty, Set.union_empty] at hrest ⊢
        simp only [hempty]
        mvcgen [hrest]
      · simp only [Bool.eq_false_iff.mpr hempty]
        mvcgen [hchild, hrest]

end

/-! ## 5. Every configured logger -/

/-- Before the loggers of a first file: none is loaded, and the root logger is as it is made. -/
structure Unconfigured (m : LogManager α) : Prop extends Allocated m where
  unloaded : ∀ name, m.mLoggerInfos.lookup name = none
  nameless : m.mIdMap.lookup [] = none
  plainRoot : PlainRoot m

theorem unconfigured_init : Unconfigured (init : LogManager α) where
  toAllocated := loaded_init.toAllocated
  unloaded _ := rfl
  nameless := rfl
  plainRoot p h := by cases h

theorem Unconfigured.loads (hm : Unconfigured m) : Loads setup m ∅ where
  loggers := by
    refine ⟨⟨hm.toAllocated, ?_, ?_⟩, ?_, ?_⟩
    · intro name other p hp
      rw [hm.unloaded name] at hp
      cases hp
    · intro name p _ hp
      rw [hm.unloaded name] at hp
      cases hp
    · intro e he
      exact absurd he (Set.notMem_empty e)
    · intro name p hp
      rw [hm.unloaded name] at hp
      cases hp
  root _ := hm.plainRoot

theorem exists_run_of_spec {β : Type} {x : LogM α β} {P : LogManager α → Prop}
    {Q : β → LogManager α → Prop}
    (hspec : ⦃fun m => ⌜P m⌝⦄ x ⦃post⟨fun b m => ⌜Q b m⌝, fun _ _ => ⌜False⌝⟩⦄) (hm : P m) :
    ∃ b m', x.run m = .ok b m' ∧ Q b m' := by
  obtain ⟨hok, hthrow⟩ := run_of_spec hspec hm
  cases hx : x.run m with
  | ok b m' => exact ⟨b, m', rfl, hok b m' hx⟩
  | error e m' => exact absurd (hthrow e m' hx) id

/-- The sections below `Loggers` that have sinks have an entry with these and their filter, and
    no other name has an entry. -/
structure AllLoaded (tree : PropertyTree) (m : LogManager α) : Prop where
  loaded : ∀ path sec, path ≠ [] → tree.sectionAt path = some sec → sec.Configured →
    ∃ p, m.mLoggerInfos.lookup (separated path) = some p ∧ Describes setup sec (m.info p)
  only : ∀ name p, m.mLoggerInfos.lookup name = some p → ∃ path sec, path ≠ [] ∧
    tree.sectionAt path = some sec ∧ sec.Configured ∧ separated path = name

/-- The level of the section `Loggers` itself is none. -/
theorem loadLogger_configured {tree : PropertyTree} (hdistinct : tree.Distinct)
    (hconfigured : tree.Configured) (hm : Unconfigured m) (loggers : List Nat) :
    ∃ m', (loadLogger setup tree 255#8 loggers [] 0).run m = .error .pastLastLevel m' := by
  cases tree with
  | node data children =>
      have hcount := hdistinct.count_eq_one.mpr hconfigured
      have hroot : ([] : Bytes) ≠ rootName := by decide
      have hlevel : ¬255 < MAX_LEVEL := by decide
      have hid : (getId [] 255#8 0#64 : LogM α (BitVec 64)).run m = .error .pastLastLevel m := by
        simp [getId, hm.nameless, hlevel]
        rfl
      refine ⟨m, ?_⟩
      rw [loadLogger, if_pos hcount]
      simp [configureLogger, enterLogger, hm.unloaded, hroot, hid]

/-- **Every configured logger is loaded** if and only if the section `Loggers` itself has no
    sinks and no section with sinks lies below another. -/
theorem loadLogger_allLoaded_iff {tree : PropertyTree} (hdistinct : tree.Distinct)
    (hdepth : ∀ path sec, tree.sectionAt path = some sec → sec.empty = false → path.length ≤ 8)
    (hfilters : Parses setup tree) (hm : Unconfigured m) (loggers : List Nat) :
    (∃ loggers' m', (loadLogger setup tree 255#8 loggers [] 0).run m = .ok loggers' m' ∧
      AllLoaded setup tree m') ↔
    ¬tree.Configured ∧ ∀ path inner sec below, inner ≠ [] → tree.sectionAt path = some sec →
      tree.sectionAt (path ++ inner) = some below → sec.Configured → ¬below.Configured := by
  by_cases hconfigured : tree.Configured
  · obtain ⟨m₁, herror⟩ := loadLogger_configured setup hdistinct hconfigured hm loggers
    constructor
    · rintro ⟨loggers', m', hrun, -⟩
      cases herror.symm.trans hrun
    · exact fun h => absurd hconfigured h.1
  obtain ⟨loggers', m', hrun, hloads⟩ := exists_run_of_spec
    (loadLogger_loads setup tree [] 0 loggers ∅ hdistinct (fun _ => hconfigured)
      (fun path sec hsec hempty => by simpa using hdepth path sec hsec hempty) hfilters
      (fun e he => absurd he (Set.notMem_empty e))) (hm.loads setup)
  rw [Set.empty_union] at hloads
  constructor
  · rintro ⟨loggers'', m'', hrun', hall⟩
    obtain ⟨rfl, rfl⟩ : loggers' = loggers'' ∧ m' = m'' := by
      have heq := hrun.symm.trans hrun'
      simpa using heq
    refine ⟨hconfigured, ?_⟩
    intro path inner sec below hinner hsec hbelow hsinks hsinks'
    obtain ⟨p, hp, -⟩ := hall.loaded (path ++ inner) below (by simp [hinner]) hbelow hsinks'
    obtain ⟨⟨found, passed⟩, ⟨route, hroute, hreached⟩, hname⟩ := hloads.loggers.only _ _ hp
    obtain rfl : route = path ++ inner := by
      rw [← separated_injective hname]
      exact hroute.symm
    exact hreached.not_configured hinner hsec hsinks
  · rintro ⟨-, hflat⟩
    refine ⟨loggers', m', hrun, ?_, ?_⟩
    · intro path sec hpath hsec hsinks
      apply hloads.loggers.loaded (path, sec)
      refine ⟨path, rfl, PropertyTree.reached_of_sectionAt hsec hsinks ?_⟩
      rintro front back passed rfl hback hpassed hpassedSinks
      exact hflat front back passed sec hback hpassed hsec hpassedSinks hsinks
    · intro name p hp
      obtain ⟨⟨path, sec⟩, ⟨inner, hinner, hreached⟩, hname⟩ := hloads.loggers.only name p hp
      obtain ⟨hsec, hsinks⟩ := hreached.sectionAt
      obtain rfl : path = inner := hinner
      refine ⟨path, sec, ?_, hsec, hsinks, hname⟩
      rintro rfl
      obtain rfl := Option.some.inj hsec
      exact hconfigured hsinks

/-- Two loggers below `Feeder`, one of them with a filter, and one beside it. -/
def threeLoggers : PropertyTree :=
  .ofList [
    (feederName, .ofList [
      (feedSourceName, .ofList [
        (sinksName, .node console .nil),
        (filterName, .node severityFilter .nil)]),
      (consoleName, .ofList [(sinksName, .node console .nil)])]),
    (feedSourceName, .ofList [(sinksName, .node console .nil)])]

theorem loadLogger_allLoaded_iff_feeder :
    (threeLoggers.Distinct ∧
      (∀ path sec, threeLoggers.sectionAt path = some sec → sec.empty = false →
        path.length ≤ 8) ∧
      Parses severitySetup threeLoggers ∧ Unconfigured (init : LogManager Nat)) ∧
    ((∃ loggers' m', (loadLogger severitySetup threeLoggers 255#8 [] [] 0).run init =
        .ok loggers' m' ∧ AllLoaded severitySetup threeLoggers m') ↔
      ¬threeLoggers.Configured ∧ ∀ path inner sec below, inner ≠ [] →
        threeLoggers.sectionAt path = some sec →
        threeLoggers.sectionAt (path ++ inner) = some below →
          sec.Configured → ¬below.Configured) := by
  have hdistinct : threeLoggers.Distinct := by
    simp [threeLoggers, PropertyTree.ofList, PropertyTree.Distinct, PropertyTrees.Distinct,
      PropertyTrees.find]
    decide
  have hsection : ∀ e ∈ threeLoggers.sections [],
      e.1.length ≤ 8 ∧ (severitySetup.filterOf e.2).isSome := by decide
  have hdepth : ∀ path sec, threeLoggers.sectionAt path = some sec → sec.empty = false →
      path.length ≤ 8 := fun path sec hsec _ =>
    (hsection _ (PropertyTree.mem_sections hsec [])).1
  have hfilters : Parses severitySetup threeLoggers := fun path sec hsec _ =>
    (hsection _ (PropertyTree.mem_sections hsec [])).2
  exact ⟨⟨hdistinct, hdepth, hfilters, unconfigured_init⟩,
    loadLogger_allLoaded_iff severitySetup hdistinct hdepth hfilters unconfigured_init []⟩

/-- A logger with another in it. -/
def feederNested : PropertyTree :=
  .ofList [(feederName, .ofList [(sinksName, .node console .nil),
    (feedSourceName, .ofList [(sinksName, .node console .nil)])])]

/-- The inner one is not loaded. -/
theorem not_allLoaded_nested : feederNested.Distinct ∧
    (∀ e ∈ feederNested.sections [], e.1.length ≤ 8) ∧
    ∃ m', (loadLogger severitySetup feederNested 255#8 [] [] 0).run init = .ok [0] m' ∧
      ¬AllLoaded severitySetup feederNested m' := by
  refine ⟨?_, by decide, ?_⟩
  · simp [feederNested, PropertyTree.ofList, PropertyTree.Distinct, PropertyTrees.Distinct,
      PropertyTrees.find]
    decide
  · refine ⟨_, rfl, fun hall => ?_⟩
    obtain ⟨p, hp, -⟩ := hall.loaded [feederName, feedSourceName]
      (.ofList [(sinksName, .node console .nil)]) (by simp) rfl rfl
    have hnone : (after (loadLogger severitySetup feederNested 255#8 [] [] 0)
        (init : LogManager Nat)).mLoggerInfos.lookup (separated [feederName, feedSourceName]) =
          none := by decide
    cases hnone.symm.trans hp

end LogManager

end MemClient
