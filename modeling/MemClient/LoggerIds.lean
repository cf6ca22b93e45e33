import MemClient.LogLoading

/-!
# Logger ids mirror the name hierarchy

The names that `LoadLogger` asks ids for, file after file, arrive at `GetId`
parent first.  So `mIdMap` and `mIds` always stand for a list of arrivals
(`Numbered`), and the ids are the positional numbers of `NameHierarchy`.  Within
the capacity of the scheme none of the code's words overflows, and a logger's
range holds the ids of its own name and its descendants', and no others.
-/

namespace MemClient

open ByteCodec NameHierarchy Std.Do

set_option mvcgen.warning false

abbrev LoggerPath := List SectionName

/-! ## 1. The names in a configuration -/

mutual

/-- The paths of the sections for which `LoadLogger` asks an id: every section it
    enters but the root logger's. -/
def PropertyTree.loggerPaths : PropertyTree → LoggerPath → List LoggerPath
  | .node data children, path =>
      if (PropertyTree.node data children).count LogManager.sinksKey = 1 then
        if separated path = LogManager.rootName then [] else [path]
      else if (PropertyTree.node data children).empty then []
      else (if path = [] then [] else [path]) ++ children.loggerPaths path

def PropertyTrees.loggerPaths : PropertyTrees → LoggerPath → List LoggerPath
  | .nil, _ => []
  | .cons name childSec rest, path =>
      childSec.loggerPaths (path ++ [name]) ++ rest.loggerPaths path

end

/-- The `Loggers` section of a file. -/
def ConfigFile.loggers : ConfigFile → Option PropertyTree
  | .settings setts => setts.child LogManager.loggersKey
  | _ => none

def loggerPaths (files : List ConfigFile) : List LoggerPath :=
  (files.filterMap ConfigFile.loggers).flatMap fun sec => sec.loggerPaths []

mutual

theorem PropertyTree.ne_nil_of_mem_loggerPaths : ∀ {tree : PropertyTree} {path p : LoggerPath},
    path ≠ [] ∨ tree.count LogManager.sinksKey ≠ 1 → p ∈ tree.loggerPaths path → p ≠ []
  | .node data children, path, p => by
      intro hpath hp
      unfold PropertyTree.loggerPaths at hp
      split at hp
      · next hsinks =>
        split at hp
        · exact absurd hp List.not_mem_nil
        · rw [List.mem_singleton.mp hp]
          exact hpath.resolve_right (absurd hsinks)
      · split at hp
        · exact absurd hp List.not_mem_nil
        · rcases List.mem_append.mp hp with hself | hinner
          · split at hself
            · exact absurd hself List.not_mem_nil
            · next hne => exact List.mem_singleton.mp hself ▸ hne
          · exact PropertyTrees.ne_nil_of_mem_loggerPaths hinner

theorem PropertyTrees.ne_nil_of_mem_loggerPaths : ∀ {trees : PropertyTrees} {path p : LoggerPath},
    p ∈ trees.loggerPaths path → p ≠ []
  | .nil, path, p => by
      intro hp
      exact absurd hp List.not_mem_nil
  | .cons name childSec rest, path, p => by
      intro hp
      rcases List.mem_append.mp hp with hchild | hrest
      · exact PropertyTree.ne_nil_of_mem_loggerPaths (Or.inl (by simp)) hchild
      · exact PropertyTrees.ne_nil_of_mem_loggerPaths hrest

end

theorem mem_loggerPaths {files : List ConfigFile} {path : LoggerPath} :
    path ∈ loggerPaths files ↔
      ∃ file ∈ files, ∃ sec ∈ file.loggers, path ∈ sec.loggerPaths [] := by
  simp only [loggerPaths, List.mem_flatMap, List.mem_filterMap, Option.mem_def]
  constructor
  · rintro ⟨sec, ⟨file, hfile, hsec⟩, hpath⟩
    exact ⟨file, hfile, sec, hsec, hpath⟩
  · rintro ⟨file, hfile, sec, hsec, hpath⟩
    exact ⟨sec, ⟨file, hfile, hsec⟩, hpath⟩

theorem loggerPaths_subset {files files' : List ConfigFile} (hsub : files ⊆ files') :
    loggerPaths files ⊆ loggerPaths files' := by
  intro path hpath
  obtain ⟨file, hfile, hmem⟩ := mem_loggerPaths.mp hpath
  exact mem_loggerPaths.mpr ⟨file, hsub hfile, hmem⟩

/-- The distinct names with the given number of segments. -/
def namesOfLevel (paths : List LoggerPath) (n : Nat) : Finset LoggerPath :=
  paths.toFinset.filter fun path => path.length = n

/-- What the id scheme has room for, over all files together. -/
structure WithinCapacity (files : List ConfigFile) : Prop where
  noSinks : ∀ sec ∈ files.filterMap ConfigFile.loggers, sec.count LogManager.sinksKey ≠ 1
  levels : ∀ path ∈ loggerPaths files, path.length ≤ 8
  top : (namesOfLevel (loggerPaths files) 1).card ≤ 254
  deeper : ∀ n, 2 ≤ n → (namesOfLevel (loggerPaths files) n).card ≤ 255

/-- There is room for the given names, each of which has a segment. -/
structure Room (names : Finset LoggerPath) : Prop where
  nil_notMem : [] ∉ names
  levels : ∀ path ∈ names, path.length ≤ 8
  top : (names.filter fun path => path.length = 1).card ≤ 254
  deeper : ∀ n, 2 ≤ n → (names.filter fun path => path.length = n).card ≤ 255

section Room

variable {names : Finset LoggerPath} {arrivals : Arrivals SectionName}

theorem length_level_le (harrivals : ∀ path ∈ arrivals.names, path ∈ names) (n : Nat) :
    (arrivals.level n).length ≤ (names.filter fun path => path.length = n).card := by
  have hnodup : (arrivals.level n).Nodup := arrivals.nodup.filter _
  rw [← List.toFinset_card_of_nodup hnodup]
  apply Finset.card_le_card
  intro path hpath
  obtain ⟨hmem, hlength⟩ := Arrivals.mem_level.mp (List.mem_toFinset.mp hpath)
  exact Finset.mem_filter.mpr ⟨harrivals path hmem, hlength⟩

theorem Room.card_lt (hroom : Room names) (n : Nat) :
    (names.filter fun path => path.length = n).card < 256 := by
  rcases Nat.lt_or_ge n 2 with hn | hn
  · rcases Nat.eq_zero_or_pos n with rfl | hpos
    · rw [Finset.filter_eq_empty_iff.mpr]
      · decide
      · intro path hpath hlength
        exact hroom.nil_notMem (List.length_eq_zero_iff.mp hlength ▸ hpath)
    · obtain rfl : n = 1 := by omega
      exact Nat.lt_of_le_of_lt hroom.top (by decide)
  · exact Nat.lt_of_le_of_lt (hroom.deeper n hn) (by decide)

/-- There is a digit for each of the given names on its level, and a level for each. -/
structure LevelRoom (names : Finset LoggerPath) : Prop where
  nil_notMem : [] ∉ names
  levels : ∀ path ∈ names, path.length ≤ 8
  card_lt : ∀ n, (names.filter fun path => path.length = n).card < 256

theorem Room.levelRoom (hroom : Room names) : LevelRoom names :=
  ⟨hroom.nil_notMem, hroom.levels, hroom.card_lt⟩

theorem LevelRoom.level_lt (hroom : LevelRoom names)
    (harrivals : ∀ path ∈ arrivals.names, path ∈ names) (n : Nat) :
    (arrivals.level n).length < 256 :=
  Nat.lt_of_le_of_lt (length_level_le harrivals n) (hroom.card_lt n)

/-- No range of an id ends past the last 64-bit number. -/
theorem Room.id_add_le (hroom : Room names) (harrivals : ∀ path ∈ arrivals.names, path ∈ names)
    {path : LoggerPath} (hpath : path ∈ arrivals.names) :
    arrivals.id 256 8 path + 256 ^ (8 - path.length) ≤ 255 * 256 ^ 7 := by
  have htop : (arrivals.level 1).length ≤ 254 := (length_level_le harrivals 1).trans hroom.top
  calc arrivals.id 256 8 path + 256 ^ (8 - path.length)
      ≤ ((arrivals.level 1).length + 1) * 256 ^ 7 :=
        Arrivals.id_add_le (hroom.levelRoom.level_lt harrivals) hpath
          (hroom.levels path (harrivals path hpath))
    _ ≤ 255 * 256 ^ 7 := Nat.mul_le_mul_right _ (Nat.succ_le_succ htop)

/-- No id is past it. -/
theorem LevelRoom.id_lt (hroom : LevelRoom names)
    (harrivals : ∀ path ∈ arrivals.names, path ∈ names) {path : LoggerPath}
    (hpath : path ∈ arrivals.names) : arrivals.id 256 8 path < 2 ^ 64 := by
  have hbound : arrivals.id 256 8 path + 256 ^ (8 - path.length) ≤
      ((arrivals.level 1).length + 1) * 256 ^ 7 :=
    Arrivals.id_add_le (hroom.level_lt harrivals) hpath
      (hroom.levels path (harrivals path hpath))
  have htop : ((arrivals.level 1).length + 1) * 256 ^ 7 ≤ 256 * 256 ^ 7 :=
    Nat.mul_le_mul_right _ (hroom.level_lt harrivals 1)
  have hpow : 0 < 256 ^ (8 - path.length) := Nat.pow_pos (by norm_num)
  omega

theorem LevelRoom.toNat_ofNat_id (hroom : LevelRoom names)
    (harrivals : ∀ path ∈ arrivals.names, path ∈ names) {path : LoggerPath}
    (hpath : path ∈ arrivals.names) :
    (BitVec.ofNat 64 (arrivals.id 256 8 path)).toNat = arrivals.id 256 8 path := by
  rw [BitVec.toNat_ofNat, Nat.mod_eq_of_lt (hroom.id_lt harrivals hpath)]

theorem nil_notMem_loggerPaths {files : List ConfigFile}
    (hsinks : ∀ sec ∈ files.filterMap ConfigFile.loggers, sec.count LogManager.sinksKey ≠ 1) :
    [] ∉ loggerPaths files := by
  intro hnil
  obtain ⟨file, hfile, sec, hsec, hmem⟩ := mem_loggerPaths.mp hnil
  have hcount := hsinks sec (List.mem_filterMap.mpr ⟨file, hfile, hsec⟩)
  exact PropertyTree.ne_nil_of_mem_loggerPaths (Or.inr hcount) hmem rfl

theorem WithinCapacity.room {files : List ConfigFile} (hcap : WithinCapacity files) :
    Room (loggerPaths files).toFinset where
  nil_notMem hnil := nil_notMem_loggerPaths hcap.noSinks (List.mem_toFinset.mp hnil)
  levels path hpath := hcap.levels path (List.mem_toFinset.mp hpath)
  top := hcap.top
  deeper := hcap.deeper

end Room

namespace LogManager

variable {α : Type} {m : LogManager α}

/-! ## 2. The ids stand for arrivals -/

/-- The id tables of a manager hold the names of the arrivals and no others. -/
structure Numbered (m : LogManager α) (arrivals : Arrivals SectionName) : Prop where
  lookup_iff : ∀ name id, m.mIdMap.lookup name = some id ↔
    ∃ path ∈ arrivals.names, separated path = name ∧ arrivals.id 256 8 path = id.toNat
  mIds : ∀ (l : Nat) (_ : l < MAX_LEVEL), m.mIds[l].toNat = (arrivals.level (l + 1)).length + 1
  mIdMultiple : m.mIdMultiple = tables.2.1

theorem mIdMultiple_eq : ∀ (l : Nat) (_ : l < MAX_LEVEL),
    (tables.2.1[l] : BitVec 64).toNat = 256 ^ (8 - (l + 1)) := by decide

theorem numbered_init : Numbered (init : LogManager α) Arrivals.empty := by
  have hids : ∀ (l : Nat) (_ : l < MAX_LEVEL), (tables.1[l] : BitVec 32).toNat = 1 := by decide
  refine ⟨?_, hids, rfl⟩
  intro name id
  constructor
  · intro h
    cases h
  · rintro ⟨path, hpath, -⟩
    cases hpath

/-- The state of the id tables while a configuration is loaded: they stand for
    arrivals from among `names`, and the entries of `known` are in `mIdMap`. -/
def IdState (names : Finset LoggerPath) (known : Set (Bytes × BitVec 64)) (m : LogManager α) :
    Prop :=
  (∃ arrivals, Numbered m arrivals ∧ ∀ path ∈ arrivals.names, path ∈ names) ∧
    ∀ e ∈ known, m.mIdMap.lookup e.1 = some e.2

theorem IdState.insert {names : Finset LoggerPath} {known : Set (Bytes × BitVec 64)}
    (hstate : IdState names known m) {name : Bytes} {id : BitVec 64}
    (hid : m.mIdMap.lookup name = some id) : IdState names (insert (name, id) known) m := by
  refine ⟨hstate.1, ?_⟩
  rintro e (rfl | he)
  · exact hid
  · exact hstate.2 e he

/-- Nothing but the id tables matters. -/
theorem IdState.congr {names : Finset LoggerPath} {known : Set (Bytes × BitVec 64)}
    (hstate : IdState names known m) {m' : LogManager α} (hmap : m'.mIdMap = m.mIdMap)
    (hids : m'.mIds = m.mIds) (hmultiple : m'.mIdMultiple = m.mIdMultiple) :
    IdState names known m' := by
  obtain ⟨⟨arrivals, hnum, harrivals⟩, hknown⟩ := hstate
  refine ⟨⟨arrivals, ⟨?_, ?_, ?_⟩, harrivals⟩, ?_⟩
  · rw [hmap]
    exact hnum.lookup_iff
  · rw [hids]
    exact hnum.mIds
  · rw [hmultiple]
    exact hnum.mIdMultiple
  · rw [hmap]
    exact hknown

theorem IdState.mono {names : Finset LoggerPath} {known known' : Set (Bytes × BitVec 64)}
    (hstate : IdState names known m) (hsub : known' ⊆ known) : IdState names known' m :=
  ⟨hstate.1, fun e he => hstate.2 e (hsub he)⟩

theorem IdState.rootInfo {names : Finset LoggerPath} {known : Set (Bytes × BitVec 64)}
    (hstate : IdState names known m) : IdState names known m.rootInfo.2 := by
  unfold LogManager.rootInfo
  split
  · exact hstate
  · exact hstate.congr rfl rfl rfl

theorem idState_init {names : Finset LoggerPath} : IdState names ∅ (init : LogManager α) :=
  ⟨⟨Arrivals.empty, numbered_init, fun _ h => absurd h List.not_mem_nil⟩,
    fun _ h => absurd h (Set.notMem_empty _)⟩

/-- The id of a path, or the 0 that stands for the parent of the topmost names. -/
def IsId (known : Set (Bytes × BitVec 64)) (path : LoggerPath) (id : BitVec 64) : Prop :=
  path = [] ∧ id = 0 ∨ (separated path, id) ∈ known

/-! ## 3. One id -/

section GetId

variable {names : Finset LoggerPath} {known : Set (Bytes × BitVec 64)} {path : LoggerPath}
  {parentId : BitVec 64} {arrivals : Arrivals SectionName}

theorem toNat_levelOf {path : LoggerPath} (hne : path ≠ []) (hlength : path.length ≤ 8) :
    (levelOf (separated path)).toNat + 1 = path.length := by
  have hpos : 0 < path.length := List.length_pos_iff.mpr hne
  rw [levelOf, if_neg (mt separated_eq_nil.mp hne), count_separated, BitVec.toNat_ofNat]
  omega

theorem Numbered.id_eq (hnum : Numbered m arrivals) {id : BitVec 64}
    (hid : m.mIdMap.lookup (separated path) = some id) :
    path ∈ arrivals.names ∧ arrivals.id 256 8 path = id.toNat := by
  obtain ⟨other, hother, hname, heq⟩ := (hnum.lookup_iff _ _).mp hid
  obtain rfl := separated_injective hname
  exact ⟨hother, heq⟩

/-- A parent's id is known as such, and the topmost names have no parent. -/
theorem parent_of_isId (hnum : Numbered m arrivals)
    (hknown : ∀ e ∈ known, m.mIdMap.lookup e.1 = some e.2) (hparent : IsId known path parentId) :
    (path ≠ [] → path ∈ arrivals.names) ∧ arrivals.id 256 8 path = parentId.toNat := by
  rcases hparent with ⟨rfl, rfl⟩ | hmem
  · exact ⟨fun hne => absurd rfl hne, rfl⟩
  · obtain ⟨hpath, hid⟩ := hnum.id_eq (hknown _ hmem)
    exact ⟨fun _ => hpath, hid⟩

theorem Numbered.toNat_mIds (hnum : Numbered m arrivals) {l : Fin MAX_LEVEL}
    (hl : l.val + 1 = path.length) :
    (m.mIds[l.val] : BitVec 32).toNat = (arrivals.level path.length).length + 1 := by
  rw [← hl]
  exact hnum.mIds l.val l.isLt

/-- The names of an arrival are among `names` still. -/
theorem arrive_names_subset (harrivals : ∀ path ∈ arrivals.names, path ∈ names)
    (hpath : path ∈ names) (hnew : path ∉ arrivals.names) (hne : path ≠ [])
    (hparent : path.dropLast ≠ [] → path.dropLast ∈ arrivals.names) :
    ∀ p ∈ (arrivals.arrive path hnew hne hparent).names, p ∈ names := by
  intro p hp
  rcases List.mem_append.mp hp with hp | hp
  · exact harrivals p hp
  · exact List.mem_singleton.mp hp ▸ hpath

/-- The id that `GetId` computes does not overflow. -/
theorem Numbered.toNat_newId (hroom : LevelRoom names) (hnum : Numbered m arrivals)
    (harrivals : ∀ path ∈ arrivals.names, path ∈ names) (hpath : path ∈ names)
    (hnew : path ∉ arrivals.names) (hne : path ≠ [])
    (hparent : path.dropLast ≠ [] → path.dropLast ∈ arrivals.names)
    (hid : arrivals.id 256 8 path.dropLast = parentId.toNat) {l : Fin MAX_LEVEL}
    (hl : l.val + 1 = path.length) :
    (m.mIds[l.val].setWidth 64 * m.mIdMultiple[l.val] + parentId).toNat =
      (arrivals.arrive path hnew hne hparent).id 256 8 path := by
  have hmultiple : (m.mIdMultiple[l.val] : BitVec 64).toNat = 256 ^ (8 - path.length) := by
    rw [← hl, hnum.mIdMultiple]
    exact mIdMultiple_eq l.val l.isLt
  have hlevel := hroom.level_lt harrivals path.length
  have hself : (arrivals.arrive path hnew hne hparent).id 256 8 path =
      arrivals.id 256 8 path.dropLast +
        ((arrivals.level path.length).length + 1) * 256 ^ (8 - path.length) :=
    Arrivals.id_arrive_self (hroom.levels path hpath)
  have hbound := hroom.id_lt (arrive_names_subset harrivals hpath hnew hne hparent)
    (List.mem_append_right _ (List.mem_singleton_self path))
  rw [hself, hid] at hbound
  rw [hself, hid, BitVec.toNat_add, BitVec.toNat_mul, BitVec.toNat_setWidth,
    hnum.toNat_mIds hl, hmultiple,
    Nat.mod_eq_of_lt (show (arrivals.level path.length).length + 1 < 2 ^ 64 by omega)]
  generalize ((arrivals.level path.length).length + 1) * 256 ^ (8 - path.length) = step at hbound
  omega

/-- What `GetId` does for a new name is that the name arrives. -/
theorem Numbered.insert (hroom : LevelRoom names) (hnum : Numbered m arrivals)
    (harrivals : ∀ path ∈ arrivals.names, path ∈ names) (hpath : path ∈ names)
    (hnew : path ∉ arrivals.names) (hne : path ≠ [])
    (hparent : path.dropLast ≠ [] → path.dropLast ∈ arrivals.names)
    (hid : arrivals.id 256 8 path.dropLast = parentId.toNat) (l : Fin MAX_LEVEL)
    (hl : l.val + 1 = path.length) :
    Numbered
      { m with
        mIds := m.mIds.set l.val (m.mIds[l.val] + 1)
        mIdMap := m.mIdMap.insert (separated path)
          (m.mIds[l.val].setWidth 64 * m.mIdMultiple[l.val] + parentId) }
      (arrivals.arrive path hnew hne hparent) := by
  have hcount := hnum.toNat_mIds hl
  have hlevel := hroom.level_lt harrivals path.length
  have hmem : path ∈ (arrivals.arrive path hnew hne hparent).names :=
    List.mem_append_right _ (List.mem_singleton_self path)
  have hnewId := hnum.toNat_newId hroom harrivals hpath hnew hne hparent hid hl
  refine ⟨?_, ?_, hnum.mIdMultiple⟩
  · intro name id
    rw [UnorderedMap.lookup_insert_eq]
    by_cases hname : name = separated path
    · rw [if_pos hname, hname]
      constructor
      · rintro heq
        obtain rfl := Option.some.inj heq
        exact ⟨path, hmem, rfl, hnewId.symm⟩
      · rintro ⟨other, -, hother, heq⟩
        obtain rfl := separated_injective hother
        exact congrArg some (BitVec.eq_of_toNat_eq (hnewId.trans heq))
    · rw [if_neg hname, hnum.lookup_iff]
      constructor
      · rintro ⟨other, hother, rfl, heq⟩
        refine ⟨other, List.mem_append_left _ hother, rfl, ?_⟩
        rw [Arrivals.id_arrive_of_mem hother, heq]
      · rintro ⟨other, hother, rfl, heq⟩
        rcases List.mem_append.mp hother with hold | hold
        · refine ⟨other, hold, rfl, ?_⟩
          rw [← heq, Arrivals.id_arrive_of_mem hold]
        · exact absurd (List.mem_singleton.mp hold ▸ rfl) hname
  · intro k hmax
    rw [Arrivals.level_arrive, List.length_append]
    by_cases hk : l.val = k
    · have hlt : (m.mIds[l.val] : BitVec 32).toNat + 1 < 2 ^ 32 := by omega
      subst hk
      rw [if_pos hl.symm, hl]
      simp [hcount]
      omega
    · have hne' : path.length ≠ k + 1 := by omega
      rw [if_neg hne', List.length_nil, Nat.add_zero, ← hnum.mIds k hmax]
      simp [hk]

/-- **`GetId`**: the name has an id from now on, and all other entries stay. -/
theorem getId_spec (hroom : LevelRoom names) (hpath : path ∈ names)
    (hparent : IsId known path.dropLast parentId) :
    ⦃fun m => ⌜IdState names known m⌝⦄
    (getId (separated path) (levelOf (separated path)) parentId : LogM α (BitVec 64))
    ⦃post⟨fun id m => ⌜IdState names (insert (separated path, id) known) m⌝,
      fun _ _ => ⌜False⌝⟩⦄ := by
  have hne : path ≠ [] := fun hnil => hroom.nil_notMem (hnil ▸ hpath)
  have hlevel := toNat_levelOf hne (hroom.levels path hpath)
  have hmax : MAX_LEVEL = 8 := rfl
  mvcgen [getId]
  case vc1.h_1 m hstate id hid =>
    exact hstate.insert hid
  case vc2.h_2.isTrue m hstate hnone hlt id =>
    obtain ⟨⟨arrivals, hnum, harrivals⟩, hknown⟩ := hstate
    obtain ⟨hmem, hid⟩ := parent_of_isId hnum hknown hparent
    have hnew : path ∉ arrivals.names := fun hold => by
      rw [(hnum.lookup_iff _ (BitVec.ofNat 64 (arrivals.id 256 8 path))).mpr
        ⟨path, hold, rfl, (hroom.toNat_ofNat_id harrivals hold).symm⟩] at hnone
      cases hnone
    refine IdState.insert ⟨⟨_, hnum.insert hroom harrivals hpath hnew hne hmem hid
      ⟨(levelOf (separated path)).toNat, hlt⟩ hlevel,
        arrive_names_subset harrivals hpath hnew hne hmem⟩, ?_⟩ (AList.lookup_insert _)
    intro e he
    have hold := hknown e he
    rw [UnorderedMap.lookup_insert_eq, if_neg, hold]
    rintro hname
    rw [hname, hnone] at hold
    cases hold
  case vc3.h_2.isFalse m hstate hnone hge =>
    have hlength := hroom.levels path hpath
    omega

end GetId

/-! ## 4. Loading -/

section Load

variable (setup : LogSetup α) {names : Finset LoggerPath}

theorem enterLogger_spec (hroom : LevelRoom names) {known : Set (Bytes × BitVec 64)}
    {path : LoggerPath} {parentId : BitVec 64}
    (hpath : separated path ≠ rootName → path ∈ names)
    (hparent : IsId known path.dropLast parentId) :
    ⦃fun m => ⌜IdState names known m⌝⦄
    (enterLogger (levelOf (separated path)) (separated path) parentId : LogM α Nat)
    ⦃post⟨fun _ m => ⌜IdState names known m⌝,
      fun e m => ⌜IdState names known m ∧ e ≠ .pastLastLevel⌝⟩⦄ := by
  have hid := fun hne => getId_spec (α := α) hroom (hpath hne) hparent
  mvcgen [enterLogger, hid]
  case vc1.isTrue.isTrue m hstate _ _ =>
    exact ⟨hstate.rootInfo, by simp [doubleInitialize]⟩
  case vc2.isTrue.isFalse m hstate _ _ =>
    exact hstate.rootInfo
  case vc3.isFalse.isTrue m hstate _ _ =>
    exact ⟨hstate, by simp [doubleInitialize]⟩
  case vc6.isFalse.isFalse.post.success _ _ _ _ _ id m hstate =>
    exact (hstate.mono (Set.subset_insert _ _)).congr rfl rfl rfl

theorem configureLogger_spec (hroom : LevelRoom names) {known : Set (Bytes × BitVec 64)}
    {path : LoggerPath} {parentId : BitVec 64} {sec : PropertyTree} {loggers : List Nat}
    (hpath : separated path ≠ rootName → path ∈ names)
    (hparent : IsId known path.dropLast parentId) :
    ⦃fun m => ⌜IdState names known m⌝⦄
    configureLogger setup sec (levelOf (separated path)) loggers (separated path) parentId
    ⦃post⟨fun _ m => ⌜IdState names known m⌝,
      fun e m => ⌜IdState names known m ∧ e ≠ .pastLastLevel⌝⟩⦄ := by
  have henter := enterLogger_spec (α := α) hroom hpath hparent
  have hread := parseFilter_spec setup (IdState names known) sec
  mvcgen [configureLogger, henter, hread]
  case vc2.post.success.pre _ _ pInfo m hstate _ =>
    exact hstate.congr rfl rfl rfl
  case vc3.post.success.post.success _ _ _ _ _ _ filter m hstate _ =>
    exact hstate.congr rfl rfl rfl

theorem childName_separated {path : LoggerPath} (name : SectionName) :
    childName (separated path) ++ name.val = separated (path ++ [name]) := by
  by_cases hpath : path = []
  · subst hpath
    rw [List.nil_append, separated_singleton]
    rfl
  · have hlength : (separated path).length ≠ 0 :=
      mt List.length_eq_zero_iff.mp (mt separated_eq_nil.mp hpath)
    rw [childName, if_pos hlength, separated_concat hpath, List.append_assoc,
      List.singleton_append]

mutual

/-- **`LoadLogger`** keeps the id tables in order, whether it throws or not. -/
theorem loadLogger_spec (hroom : LevelRoom names) : ∀ (tree : PropertyTree) (path : LoggerPath)
    (known : Set (Bytes × BitVec 64)) (parentId : BitVec 64) (loggers : List Nat),
    (∀ p ∈ tree.loggerPaths path, p ∈ names) → IsId known path.dropLast parentId →
    (path = [] → parentId = 0) →
    ⦃fun m => ⌜IdState names known m⌝⦄
    loadLogger setup tree (levelOf (separated path)) loggers (separated path) parentId
    ⦃post⟨fun _ m => ⌜IdState names known m⌝,
      fun e m => ⌜IdState names known m ∧ e ≠ .pastLastLevel⌝⟩⦄
  | .node data children, path, known, parentId, loggers => by
      intro hpaths hparent htop
      unfold loadLogger
      unfold PropertyTree.loggerPaths at hpaths
      split
      · next hsinks =>
        apply configureLogger_spec setup hroom _ hparent
        intro hroot
        rw [if_pos hsinks, if_neg hroot] at hpaths
        exact hpaths path (List.mem_singleton_self path)
      · next hsinks =>
        rw [if_neg hsinks] at hpaths
        by_cases hempty : (PropertyTree.node data children).empty = true
        · simp only [hempty]
          mvcgen
        · rw [if_neg hempty] at hpaths
          have hinner : ∀ p ∈ children.loggerPaths path, p ∈ names := fun p hp =>
            hpaths p (List.mem_append_right _ hp)
          by_cases hpath : path = []
          · have hid : IsId known path parentId := Or.inl ⟨hpath, htop hpath⟩
            have hchildren := loadLoggers_spec hroom children path known parentId loggers hinner hid
            have hname : ¬(separated path).length ≠ 0 := by simp [hpath]
            mvcgen [hchildren]
          · have hmem : path ∈ names := hpaths path (by simp [hpath])
            have hid := getId_spec (α := α) hroom hmem hparent
            have hchildren := fun id => loadLoggers_spec hroom children path
              (insert (separated path, id) known) id loggers hinner
              (Or.inr (Set.mem_insert _ _))
            have hname : (separated path).length ≠ 0 := by simpa using hpath
            mvcgen [hid, hchildren]
            case vc3.neg.isTrue.isTrue.post.success.post.success =>
              intro hstate
              exact hstate.mono (Set.subset_insert _ _)
            case vc4.neg.isTrue.isTrue.post.success.post.except.handle =>
              intro hstate herror
              exact ⟨hstate.mono (Set.subset_insert _ _), herror⟩

theorem loadLoggers_spec (hroom : LevelRoom names) : ∀ (trees : PropertyTrees) (path : LoggerPath)
    (known : Set (Bytes × BitVec 64)) (parentId : BitVec 64) (loggers : List Nat),
    (∀ p ∈ trees.loggerPaths path, p ∈ names) → IsId known path parentId →
    ⦃fun m => ⌜IdState names known m⌝⦄
    loadLoggers setup trees (levelOf (separated path)) loggers (childName (separated path)) parentId
    ⦃post⟨fun _ m => ⌜IdState names known m⌝,
      fun e m => ⌜IdState names known m ∧ e ≠ .pastLastLevel⌝⟩⦄
  | .nil, path, known, parentId, loggers => by
      intro _ _
      mvcgen [loadLoggers]
  | .cons name childSec rest, path, known, parentId, loggers => by
      intro hpaths hid
      have hchild := loadLogger_spec hroom childSec (path ++ [name]) known parentId loggers
        (fun p hp => hpaths p (List.mem_append_left _ hp)) (by rwa [List.dropLast_concat])
        (fun hnil => absurd hnil (by simp))
      have hrest := fun loggers => loadLoggers_spec hroom rest path known parentId loggers
        (fun p hp => hpaths p (List.mem_append_right _ hp)) hid
      rw [← childName_separated, levelOf_childName] at hchild
      unfold loadLoggers
      mvcgen [hchild, hrest]

end

section Sinks

variable (names) (known : Set (Bytes × BitVec 64))

theorem constructSink_spec (sinkSec : PropertyTree)
    (strName : Bytes) :
    ⦃fun m => ⌜IdState names known m⌝⦄ constructSink setup sinkSec strName
    ⦃post⟨fun _ m => ⌜IdState names known m⌝,
      fun e m => ⌜IdState names known m ∧ e ≠ .pastLastLevel⌝⟩⦄ := by
  have hread := parseFilter_spec setup (IdState names known) sinkSec
  mvcgen [constructSink, hread]
  case vc1.isTrue m hstate _ _ =>
    exact ⟨hstate, by simp [doubleInitialize]⟩
  case vc3.isFalse.isFalse.pre m hstate _ _ _ _ _ _ =>
    exact hstate.congr rfl rfl rfl
  case vc4.isFalse.isFalse.post.success _ _ _ _ _ _ _ _ filter m hstate _ =>
    exact hstate.congr rfl rfl rfl

mutual

theorem loadSink_spec : ∀ (tree : PropertyTree) (strName : Bytes),
    ⦃fun m => ⌜IdState names known m⌝⦄ loadSink setup tree strName
    ⦃post⟨fun _ m => ⌜IdState names known m⌝,
      fun e m => ⌜IdState names known m ∧ e ≠ .pastLastLevel⌝⟩⦄
  | .node data children, strName => by
      have hconstruct := constructSink_spec setup names known (.node data children) strName
      have hchildren := loadSinks_spec children (childName strName)
      unfold loadSink
      mvcgen [hconstruct, hchildren]

theorem loadSinks_spec : ∀ (trees : PropertyTrees) (name : Bytes),
    ⦃fun m => ⌜IdState names known m⌝⦄ loadSinks setup trees name
    ⦃post⟨fun _ m => ⌜IdState names known m⌝,
      fun e m => ⌜IdState names known m ∧ e ≠ .pastLastLevel⌝⟩⦄
  | .nil, name => by
      unfold loadSinks
      mvcgen
  | .cons sinkName childSec rest, name => by
      have hchild := loadSink_spec childSec (name ++ sinkName.val)
      have hrest := loadSinks_spec rest name
      unfold loadSinks
      mvcgen [hchild, hrest]

end

end Sinks

/-- **`LoadConfig`** keeps the id tables in order, whether it returns or throws, and
    never uses a level that they do not have. -/
theorem loadConfig_spec (hroom : LevelRoom names) (known : Set (Bytes × BitVec 64))
    (file : ConfigFile) (loggers : List Nat)
    (hfile : ∀ sec ∈ file.loggers, ∀ p ∈ sec.loggerPaths [], p ∈ names) :
    ⦃fun m => ⌜IdState names known m⌝⦄ loadConfig setup file loggers
    ⦃post⟨fun _ m => ⌜IdState names known m⌝,
      fun e m => ⌜IdState names known m ∧ e ≠ .pastLastLevel⌝⟩⦄ := by
  have hnext : ∀ m : LogManager α, IdState names known m → IdState names known m.nextFile :=
    fun m hstate => hstate.congr rfl rfl rfl
  cases file with
  | notOpened => mvcgen [loadConfig]
  | malformed =>
      mvcgen [loadConfig]
      case vc1.malformed m hstate _ =>
        exact ⟨hnext m hstate, by decide⟩
  | settings setts =>
      have hcore := applyCore_spec setup (IdState names known) setts
      have hsinks : ⦃fun m => ⌜IdState names known m⌝⦄ applySinks setup setts
          ⦃post⟨fun _ m => ⌜IdState names known m⌝,
            fun e m => ⌜IdState names known m ∧ e ≠ .pastLastLevel⌝⟩⦄ := by
        have hsink := fun tree => loadSink_spec setup names known tree []
        mvcgen [applySinks, hsink]
      have hloggers : ⦃fun m => ⌜IdState names known m⌝⦄ applyLoggers setup setts loggers
          ⦃post⟨fun _ m => ⌜IdState names known m⌝,
            fun e m => ⌜IdState names known m ∧ e ≠ .pastLastLevel⌝⟩⦄ := by
        unfold applyLoggers
        split
        · next sec hsec =>
          exact loadLogger_spec setup hroom sec [] known 0 loggers (hfile sec hsec)
            (Or.inl ⟨rfl, rfl⟩) fun _ => rfl
        · mvcgen
      mvcgen [loadConfig, hcore, hsinks, hloggers]
      case vc1.settings.pre m hstate _ =>
        exact hnext m hstate

end Load

/-! ## 5. Runs -/

section Runs

variable (setup : LogSetup α) {names : Finset LoggerPath}

/-- **The id tables are in order after every run.** -/
theorem idState_loadAll (hroom : LevelRoom names) (known : Set (Bytes × BitVec 64)) :
    ∀ (loads : List (ConfigFile × List Nat)),
      (∀ p ∈ loggerPaths (loads.map Prod.fst), p ∈ names) →
      ∀ {m : LogManager α}, IdState names known m →
        IdState names known (loadAll setup loads m) := by
  intro loads
  induction loads with
  | nil =>
      intro _ m hstate
      exact hstate
  | cons load loads ih =>
      intro hpaths m hstate
      have hfile := loadConfig_spec setup hroom known load.1 load.2 fun sec hsec p hp =>
        hpaths p (mem_loggerPaths.mpr ⟨load.1, List.mem_cons_self, sec, hsec, hp⟩)
      apply ih
      · intro p hp
        exact hpaths p (loggerPaths_subset (List.subset_cons_self _ _) hp)
      · exact after_of_spec hfile (fun _ _ herror => herror.1) hstate

/-- What a call of `Initialize` loads is such a run: some of its files, in order,
    up to the first that throws. -/
theorem exists_loadAll_loadConfigs : ∀ (files : List ConfigFile) (loggers : List Nat)
    (m : LogManager α), ∃ loads : List (ConfigFile × List Nat), loads.map Prod.fst <+: files ∧
      after (loadConfigs setup files loggers) m = loadAll setup loads m := by
  intro files
  induction files with
  | nil =>
      intro loggers m
      exact ⟨[], List.nil_prefix, rfl⟩
  | cons file files ih =>
      intro loggers m
      cases hrun : (loadConfig setup file loggers).run m with
      | ok loggers' m' =>
          obtain ⟨loads, hfiles, hafter⟩ := ih loggers' m'
          refine ⟨(file, loggers) :: loads, List.cons_prefix_cons.mpr ⟨rfl, hfiles⟩, ?_⟩
          rw [loadConfigs, after_bind_of_ok hrun, hafter, loadAll, loadAll, List.foldl_cons,
            after_of_ok hrun]
      | error e m' =>
          refine ⟨[(file, loggers)], List.cons_prefix_cons.mpr ⟨rfl, List.nil_prefix⟩, ?_⟩
          rw [loadConfigs, after_bind_of_error hrun, loadAll, List.foldl_cons,
            after_of_error hrun]
          rfl

end Runs

/-! ## 6. Ranges -/

theorem toNat_nextId {info : LoggerInfo α} {n : Nat} (hlevel : info.Level.toNat + 1 = n)
    (hn : n ≤ 8) (hbound : info.Id.toNat + 256 ^ (8 - n) < 2 ^ 64) :
    info.nextId.toNat = info.Id.toNat + 256 ^ (8 - n) := by
  have hshift : BitVec.ofInt 64 (LEVEL_BITS * ((MAX_LEVEL : Int) - info.Level.toNat - 1)) =
      BitVec.ofNat 64 (8 * (8 - n)) := by
    have hint : (LEVEL_BITS : Int) * ((MAX_LEVEL : Int) - info.Level.toNat - 1) =
        ((8 * (8 - n) : Nat) : Int) := by
      simp only [LEVEL_BITS, MAX_LEVEL]
      omega
    rw [hint, BitVec.ofInt_natCast]
  have hpow : 2 ^ (8 * (8 - n)) = 256 ^ (8 - n) := pow_mul 2 8 (8 - n)
  have hdelta : ((1 : BitVec 64) <<< (8 * (8 - n))).toNat = 256 ^ (8 - n) := by
    have hone : (1 : BitVec 64).toNat = 1 := rfl
    rw [BitVec.toNat_shiftLeft, Nat.shiftLeft_eq, hone, Nat.one_mul, hpow]
    exact Nat.mod_eq_of_lt (Nat.lt_of_le_of_lt (Nat.le_add_left _ _) hbound)
  have hnext : info.nextId = info.Id + (1 : BitVec 64) <<< (8 * (8 - n)) := by
    simp only [LoggerInfo.nextId]
    rw [hshift, BitVec.toNat_ofNat, Nat.mod_eq_of_lt (by omega)]
  rw [hnext, BitVec.toNat_add, hdelta, Nat.mod_eq_of_lt hbound]

/-- The infos that loading puts under a name carry the name's id and level. -/
theorem info_configured (setup : LogSetup α) (loads : List (ConfigFile × List Nat)) {name : Bytes}
    {p : Nat} (hp : (loadAll setup loads init).mLoggerInfos.lookup name = some p)
    (hroot : name ≠ rootName) :
    (loadAll setup loads init).mIdMap.lookup name = some ((loadAll setup loads init).info p).Id ∧
      ((loadAll setup loads init).info p).Level = levelOf name :=
  (loaded_loadAll setup loads loaded_init).named name p hp hroot

/-- **A logger's range holds the ids of its own name and its descendants', and no
    others**, in every run within the capacity of the scheme. -/
theorem id_mem_range_iff (setup : LogSetup α) (loads : List (ConfigFile × List Nat))
    (hcap : WithinCapacity (loads.map Prod.fst)) {a b : Bytes} {idA idB : BitVec 64}
    (ha : (loadAll setup loads init).mIdMap.lookup a = some idA)
    (hb : (loadAll setup loads init).mIdMap.lookup b = some idB) :
    (∀ info : LoggerInfo α, info.Id = idA → info.Level = levelOf a →
      (info.Id ≤ idB ∧ idB < info.nextId ↔ b = a ∨ a ++ [dot] <+: b)) ∧
    (idA = idB → a = b) ∧
    (∀ earlier later id, loads = earlier ++ later →
      (loadAll setup earlier init).mIdMap.lookup a = some id → id = idA) := by
  obtain ⟨⟨arrivals, hnum, hsub⟩, -⟩ := idState_loadAll setup hcap.room.levelRoom ∅ loads
    (fun p hp => List.mem_toFinset.mpr hp) idState_init
  have hlevel := hcap.room.levelRoom.level_lt hsub
  obtain ⟨p, hp, rfl, hidA⟩ := (hnum.lookup_iff _ _).mp ha
  obtain ⟨q, hq, rfl, hidB⟩ := (hnum.lookup_iff _ _).mp hb
  have hpwidth := hcap.room.levels p (hsub p hp)
  have hqwidth := hcap.room.levels q (hsub q hq)
  have hpne : p ≠ [] := fun hnil => arrivals.nil_notMem (hnil ▸ hp)
  refine ⟨?_, ?_, ?_⟩
  · rintro info rfl hinfo
    have hbound := hcap.room.id_add_le hsub hp
    have hn := toNat_levelOf hpne hpwidth
    rw [← hinfo] at hn
    rw [hidA] at hbound
    have hnext := toNat_nextId hn hpwidth (by omega)
    have hrange := Arrivals.id_range_iff_ancestor hlevel hp hq hpwidth hqwidth
    rw [hidA, hidB, ← hnext] at hrange
    rw [BitVec.le_def, BitVec.lt_def, hrange, separated_prefix_iff hpne]
    by_cases heq : q = p
    · simp [heq]
    · have hname : separated q ≠ separated p := fun hname => heq (separated_injective hname)
      simp [heq, hname]
  · rintro rfl
    have hpq := Arrivals.eq_of_id_eq hlevel hp hq hpwidth hqwidth (hidA.trans hidB.symm)
    rw [hpq]
  · rintro earlier later id rfl hid
    have hearlier : IdState (loggerPaths ((earlier ++ later).map Prod.fst)).toFinset ∅
        (loadAll setup earlier init) := by
      apply idState_loadAll setup hcap.room.levelRoom ∅ earlier _ idState_init
      intro path hpath
      rw [List.map_append]
      exact List.mem_toFinset.mpr (loggerPaths_subset (List.subset_append_left _ _) hpath)
    have hlater : ∀ path ∈ loggerPaths (later.map Prod.fst),
        path ∈ (loggerPaths ((earlier ++ later).map Prod.fst)).toFinset := by
      intro path hpath
      rw [List.map_append]
      exact List.mem_toFinset.mpr (loggerPaths_subset (List.subset_append_right _ _) hpath)
    have hall := idState_loadAll setup hcap.room.levelRoom _ later hlater (hearlier.insert hid)
    have hlookup := hall.2 _ (Set.mem_insert _ _)
    rw [loadAll, List.foldl_append] at ha
    exact Option.some.inj (hlookup.symm.trans ha)

theorem feederLog_withinCapacity : WithinCapacity [.settings feederLog] where
  noSinks := by decide
  levels := by decide
  top := by decide
  deeper n _ := (Finset.card_filter_le _ _).trans (by decide)

theorem id_mem_range_iff_feeder :
    (∀ info : LoggerInfo Nat, info.Id = 0x0100000000000000 → info.Level = levelOf feeder →
      (info.Id ≤ 0x0101000000000000 ∧ 0x0101000000000000 < info.nextId ↔
        feeder ++ dot :: feedSource = feeder ∨
          feeder ++ [dot] <+: feeder ++ dot :: feedSource)) ∧
    ((0x0100000000000000 : BitVec 64) = 0x0101000000000000 →
      feeder = feeder ++ dot :: feedSource) ∧
    (∀ earlier later id, [(ConfigFile.settings feederLog, [])] = earlier ++ later →
      (loadAll severitySetup earlier init).mIdMap.lookup feeder = some id →
        id = 0x0100000000000000) :=
  id_mem_range_iff severitySetup [(.settings feederLog, [])] feederLog_withinCapacity (by decide)
    (by decide)

end LogManager

end MemClient
