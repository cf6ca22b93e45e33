import MemClient.LoggerIds

/-!
# How many loggers the id scheme has room for

A level has 8 bits of an id and a counter of 32.  With at most 255 names on each of at most 8
levels the ids are different from each other and from the root logger's; the counter goes on
past that, and nothing stops the level.
-/

namespace MemClient

open ByteCodec NameHierarchy Std.Do

/-! ## 1. Within the levels -/

/-- At most 8 levels with at most 255 names each, over all files together. -/
structure WithinLevels (files : List ConfigFile) : Prop where
  noSinks : ∀ sec ∈ files.filterMap ConfigFile.loggers, sec.count LogManager.sinksKey ≠ 1
  levels : ∀ path ∈ loggerPaths files, path.length ≤ 8
  names : ∀ n, (namesOfLevel (loggerPaths files) n).card ≤ 255

theorem WithinLevels.levelRoom {files : List ConfigFile} (hlevels : WithinLevels files) :
    LevelRoom (loggerPaths files).toFinset where
  nil_notMem hnil := nil_notMem_loggerPaths hlevels.noSinks (List.mem_toFinset.mp hnil)
  levels path hpath := hlevels.levels path (List.mem_toFinset.mp hpath)
  card_lt n := Nat.lt_succ_of_le (hlevels.names n)

namespace LogManager

variable {α : Type}

/-- What the ids of a manager are for: none is the root logger's, and no two are the same. -/
structure IdsApart (m : LogManager α) : Prop where
  ne_zero : ∀ name id, m.mIdMap.lookup name = some id → id ≠ 0
  unique : ∀ a b id, m.mIdMap.lookup a = some id → m.mIdMap.lookup b = some id → a = b

theorem IdState.idsApart {names : Finset LoggerPath} {known : Set (Bytes × BitVec 64)}
    {m : LogManager α} (hroom : LevelRoom names) (hstate : IdState names known m) :
    IdsApart m := by
  obtain ⟨⟨arrivals, hnum, hsub⟩, -⟩ := hstate
  constructor
  · intro name id hid
    obtain ⟨path, hpath, -, heq⟩ := (hnum.lookup_iff name id).mp hid
    have hpos : 0 < arrivals.id 256 8 path :=
      Arrivals.id_pos (by norm_num) hpath (hroom.levels path (hsub path hpath))
    rw [heq] at hpos
    rintro rfl
    exact absurd hpos (by decide)
  · intro a b id ha hb
    obtain ⟨p, hp, rfl, hidA⟩ := (hnum.lookup_iff a id).mp ha
    obtain ⟨q, hq, rfl, hidB⟩ := (hnum.lookup_iff b id).mp hb
    rw [Arrivals.eq_of_id_eq (hroom.level_lt hsub) hp hq (hroom.levels p (hsub p hp))
      (hroom.levels q (hsub q hq)) (hidA.trans hidB.symm)]

/-- **Within the levels** no load uses a level that the tables do not have, and the ids are
    apart after every run. -/
theorem idsApart_loadAll (setup : LogSetup α) {loads : List (ConfigFile × List Nat)}
    (hlevels : WithinLevels (loads.map Prod.fst)) :
    (∀ earlier load later, loads = earlier ++ load :: later → ∀ m',
      (loadConfig setup load.1 load.2).run (loadAll setup earlier init) ≠
        .error .pastLastLevel m') ∧
    IdsApart (loadAll setup loads init) := by
  have hroom := hlevels.levelRoom
  have hmem : ∀ path ∈ loggerPaths (loads.map Prod.fst),
      path ∈ (loggerPaths (loads.map Prod.fst)).toFinset := fun path => List.mem_toFinset.mpr
  constructor
  · rintro earlier load later rfl m'
    have hearlier : IdState (loggerPaths ((earlier ++ load :: later).map Prod.fst)).toFinset ∅
        (loadAll setup earlier init) := by
      apply idState_loadAll setup hroom ∅ earlier _ idState_init
      intro path hpath
      apply hmem
      rw [List.map_append]
      exact loggerPaths_subset (List.subset_append_left _ _) hpath
    have hload := loadConfig_spec setup hroom ∅ load.1 load.2 fun sec hsec path hpath =>
      hmem path (mem_loggerPaths.mpr ⟨load.1, by simp, sec, hsec, hpath⟩)
    exact fun herror => ((run_of_spec hload hearlier).2 _ m' herror).2 rfl
  · exact (idState_loadAll setup hroom ∅ loads hmem idState_init).idsApart hroom

theorem feederLog_withinLevels : WithinLevels [.settings feederLog] where
  noSinks := by decide
  levels := by decide
  names n := (Finset.card_filter_le _ _).trans (by decide)

theorem idsApart_loadAll_feeder :
    WithinLevels ([(ConfigFile.settings feederLog, ([] : List Nat))].map Prod.fst) ∧
    (∀ earlier load later, [(ConfigFile.settings feederLog, [])] = earlier ++ load :: later →
      ∀ m', (loadConfig severitySetup load.1 load.2).run (loadAll severitySetup earlier init) ≠
        .error .pastLastLevel m') ∧
    IdsApart (loadAll severitySetup [(.settings feederLog, [])] init) :=
  ⟨feederLog_withinLevels, idsApart_loadAll severitySetup feederLog_withinLevels⟩

/-! ## 2. Past the levels -/

/-- A logger below the given number of sections, all called `a`. -/
def nested : Nat → PropertyTree
  | 0 => .ofList [(sinksName, .node console .nil)]
  | n + 1 => .ofList [(⟨[97], by decide⟩, nested n)]

def nestedFile (n : Nat) : ConfigFile := .settings (.ofList [(loggersName, nested n)])

/-- A logger on the ninth level uses an element of `mIds` that is not there. -/
theorem nested_pastLastLevel : ∃ m', (loadConfig severitySetup (nestedFile 9) []).run init =
    .error .pastLastLevel m' := by
  apply exists_error_of_thrown
  decide +kernel

end LogManager

end MemClient
