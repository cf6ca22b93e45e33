import MemClient.FileDiscovery
import MemClient.LogManager
import MemClient.WildcardPattern

/-!
# From the path of `ConfigLog` to the files that are loaded

`LogManager::Initialize` cuts its path before the first wildcard, looks for the files below
what is left, and filters them by the pattern it makes of the whole path.  The file system
and the regular expressions are parameters.
-/

namespace MemClient

open ByteCodec NameHierarchy SearchPattern

/-! ## 1. Initialize -/

/-- What `fs::exists`, `fs::is_regular_file` and `fs::is_directory` tell of a path. -/
inductive FileStatus where
  | missing
  | regularFile
  | directory (dir : Directory)
  | other

structure FileSystem where
  system_complete : Path → Path
  status : Path → FileStatus
  /-- What `LoadConfig` reads. -/
  settingFile : Path → ConfigFile

def isWildcard (c : Byte) : Bool := c = star || c = question

/-- The vector `configs`; `none` where `sregex::compile` throws. -/
def FileSystem.configs (fs : FileSystem) (compile : Bytes → Option (Path → Bool))
    (strPath : Path) : Option (List Path) :=
  let fullPath := fs.system_complete (strPath.takeWhile fun c => !isWildcard c)
  match fs.status fullPath with
  | .missing => some []
  | .regularFile => some [fullPath]
  | .directory dir =>
      (compile (wildcard2Regex strPath)).map fun pattern => findMatching pattern dir fullPath []
  | .other => some []

/-- `LogManager::Initialize` as it is called. -/
def LogManager.InitializePath {α : Type} (setup : LogSetup α) (fs : FileSystem)
    (compile : Bytes → Option (Path → Bool)) (strPath : Path) : Option (LogM α Bool) :=
  (fs.configs compile strPath).map fun configs =>
    LogManager.Initialize setup (configs.map fs.settingFile)

/-! ## 2. The directory in front of the wildcards -/

section Prefix

variable {dirPath rest t : Bytes}

theorem takeWhile_prefix (hdir : ∀ c ∈ dirPath, isWildcard c = false)
    (hrest : ∀ c ∈ rest.head?, isWildcard c) :
    (dirPath ++ rest).takeWhile (fun c => !isWildcard c) = dirPath := by
  rw [List.takeWhile_append_of_pos fun c hc => by simp [hdir c hc]]
  cases rest with
  | nil => simp
  | cons c rest => simp [hrest c rfl]

/-- Characters that are no wildcards match themselves. -/
theorem wildcardMatches_append (hdir : ∀ c ∈ dirPath, isWildcard c = false) :
    WildcardMatches (dirPath ++ rest) t ↔ ∃ u, WildcardMatches rest u ∧ dirPath ++ u = t := by
  induction dirPath generalizing t with
  | nil => simp
  | cons c dirPath ih =>
      have hc := hdir c List.mem_cons_self
      simp only [isWildcard, Bool.or_eq_false_iff, decide_eq_false_iff_not] at hc
      rw [List.cons_append, wildcardMatches_itself hc.1 hc.2]
      constructor
      · rintro ⟨v, hv, rfl⟩
        obtain ⟨u, hu, rfl⟩ := (ih fun d hd => hdir d (List.mem_cons_of_mem c hd)).mp hv
        exact ⟨u, hu, rfl⟩
      · rintro ⟨u, hu, rfl⟩
        exact ⟨dirPath ++ u,
          (ih fun d hd => hdir d (List.mem_cons_of_mem c hd)).mpr ⟨u, hu, rfl⟩, rfl⟩

theorem WildcardMatches.of_suffix {v : Bytes} (hstar : rest.head? = some star)
    (h : WildcardMatches rest t) (hsuffix : t <:+ v) : WildcardMatches rest v := by
  obtain ⟨w, rfl⟩ : ∃ w, rest = star :: w := by
    cases rest with
    | nil => cases hstar
    | cons c w => exact ⟨w, by rw [Option.some.inj hstar]⟩
  obtain ⟨u, w', hw, rfl⟩ := wildcardMatches_star.mp h
  obtain ⟨before, rfl⟩ := hsuffix
  rw [← List.append_assoc]
  exact .anyString (before ++ u) hw

theorem suffix_of_append_suffix {u v : Bytes} (h : dirPath ++ u <:+ dirPath ++ v) : u <:+ v := by
  have hu : u <:+ dirPath ++ v := (List.suffix_append dirPath u).trans h
  apply List.suffix_of_suffix_length_le hu (List.suffix_append dirPath v)
  have hlength := h.length_le
  rw [List.length_append, List.length_append] at hlength
  omega

/-- A path that begins with a separator does not begin again in its last name. -/
theorem eq_of_append_suffix {u v : Bytes} (hroot : dirPath.head? = some slash) (hv : slash ∉ v)
    (h : dirPath ++ u <:+ dirPath ++ v) : u = v := by
  obtain ⟨before, hbefore⟩ := h
  have hcount := congrArg (List.count slash) hbefore
  simp only [List.count_append, List.count_eq_zero_of_not_mem hv] at hcount
  cases before with
  | nil => exact List.append_cancel_left hbefore
  | cons c before =>
      have hhead := congrArg List.head? hbefore
      rw [List.head?_append_of_ne_nil dirPath (by rintro rfl; cases hroot), hroot] at hhead
      obtain rfl : c = slash := Option.some.inj hhead
      rw [List.count_cons_self] at hcount
      omega

end Prefix

/-! ## 3. The files that are loaded -/

section Discovery

variable {compile : Bytes → Option (Path → Bool)} {dir : Directory} {dirPath rest : Bytes}

/-- A file is found if the end of its path, from any character on, is matched. -/
theorem exists_pattern
    (hsearch : Documented fun s text => (compile text).map fun search => search s) {w : Bytes}
    (hbraces : NoBraces w) :
    ∃ pattern, compile (wildcard2Regex w) = some pattern ∧
      ∀ s, OneLine s → (pattern s = true ↔ ∃ t, t <:+ s ∧ WildcardMatches w t) := by
  have hpreserves := preservesMeaning_of_noBraces hsearch hbraces
  cases hcompile : compile (wildcard2Regex w) with
  | none =>
      obtain ⟨found, hfound, -⟩ := hpreserves [] fun c hc => absurd hc List.not_mem_nil
      simp [hcompile] at hfound
  | some pattern =>
      refine ⟨pattern, rfl, ?_⟩
      intro s hs
      obtain ⟨found, hfound, hiff⟩ := hpreserves s hs
      simp only [hcompile, Option.map_some, Option.some.injEq] at hfound
      rw [hfound]
      exact hiff

/-- Without directories in it, a directory has its files at the top. -/
theorem Directory.Contains.eq_singleton {names : List FileName} {kind : EntryKind}
    (h : dir.Contains names kind) (hflat : ∀ name, ¬ dir.Contains [name] .directory) :
    ∃ name, names = [name] := by
  induction h with
  | @file name rest => exact ⟨name, rfl⟩
  | afterFile _ ih => exact ih fun name hname => hflat name (.afterFile hname)
  | @directory name entries rest => exact ⟨name, rfl⟩
  | @inside name entries rest path kind _ _ => exact absurd .directory (hflat name)
  | afterDirectory _ ih => exact ih fun name hname => hflat name (.afterDirectory hname)

/-- Below a directory that the path spells out, the end of a path is matched when the
    name below the directory is. -/
theorem exists_suffix_iff {names : List FileName} {kind : EntryKind}
    (hroot : dirPath.head? = some slash) (hdir : ∀ c ∈ dirPath, isWildcard c = false)
    (hshape : rest.head? = some star ∨ ∀ name, ¬ dir.Contains [name] .directory)
    (hcontains : dir.Contains names kind) :
    (∃ t, t <:+ dirPath ++ separated names ∧ WildcardMatches (dirPath ++ rest) t) ↔
      WildcardMatches rest (separated names) := by
  constructor
  · rintro ⟨t, hsuffix, ht⟩
    obtain ⟨u, hu, rfl⟩ := (wildcardMatches_append hdir).mp ht
    rcases hshape with hstar | hflat
    · exact hu.of_suffix hstar (suffix_of_append_suffix hsuffix)
    · obtain ⟨name, rfl⟩ := hcontains.eq_singleton hflat
      rw [separated_singleton] at hsuffix ⊢
      rwa [← eq_of_append_suffix hroot name.property.2 hsuffix]
  · intro hmatch
    exact ⟨_, List.suffix_refl _, (wildcardMatches_append hdir).mpr ⟨_, hmatch, rfl⟩⟩

/-- The entries that are found: the files whose name below the directory is matched, and
    every directory. -/
structure Discovered (dir : Directory) (rest : Bytes)
    (found : List (List FileName × EntryKind)) : Prop where
  inOrder : found.Sublist dir.entriesBelow
  file : ∀ names, (names, .file) ∈ found ↔
    dir.Contains names .file ∧ WildcardMatches rest (separated names)
  directory : ∀ names, (names, .directory) ∈ found ↔ dir.Contains names .directory

/-- **A wildcard path loads what it matches.**  The path is a directory, with its last
    separator, and a pattern that begins with a wildcard or is empty; there are no braces in
    it, no newlines in the names, and no subdirectories unless the pattern begins with a
    star.  What the pattern matches is read, in the order of the traversal; so is every
    directory, as if it were a configuration file. -/
theorem LogManager.InitializePath_of_wildcard {α : Type} (setup : LogSetup α) (fs : FileSystem)
    (hsearch : Documented fun s text => (compile text).map fun search => search s)
    (hbraces : NoBraces (dirPath ++ rest)) (hdir : ∀ c ∈ dirPath, isWildcard c = false)
    (hrest : ∀ c ∈ rest.head?, isWildcard c) (hroot : dirPath.head? = some slash)
    (hend : dirPath.getLast? = some slash) (hcomplete : fs.system_complete dirPath = dirPath)
    (hstatus : fs.status dirPath = .directory dir)
    (hline : ∀ names kind, dir.Contains names kind → OneLine (dirPath ++ separated names))
    (hshape : rest.head? = some star ∨ ∀ name, ¬ dir.Contains [name] .directory) :
    ∃ found, Discovered dir rest found ∧
      InitializePath setup fs compile (dirPath ++ rest) = some (Initialize setup
        (found.map fun e => fs.settingFile (dirPath ++ separated e.1))) := by
  obtain ⟨pattern, hcompile, hpattern⟩ := exists_pattern hsearch hbraces
  have hstem : Path.stem dirPath = dirPath := if_pos (Or.inr hend)
  have hbelow {names : List FileName} {kind : EntryKind} (h : dir.Contains names kind) :
      Path.below dirPath names = dirPath ++ separated names := by
    rw [below_eq h.ne_nil, hstem]
  have hmatch {names : List FileName} {kind : EntryKind} (h : dir.Contains names kind) :
      pattern (Path.below dirPath names) = true ↔ WildcardMatches rest (separated names) := by
    rw [hbelow h, hpattern _ (hline names kind h)]
    exact exists_suffix_iff hroot hdir hshape h
  refine ⟨dir.entriesBelow.filter (collected pattern dirPath), ?_, ?_⟩
  · refine ⟨List.filter_sublist, ?_, ?_⟩
    · intro names
      rw [List.mem_filter, Directory.mem_entriesBelow]
      apply and_congr_right
      intro hcontains
      rw [← hmatch hcontains]
      simp [collected]
    · intro names
      rw [List.mem_filter, Directory.mem_entriesBelow]
      simp [collected]
  · have hconfigs : fs.configs compile (dirPath ++ rest) =
        some (findMatching pattern dir dirPath []) := by
      simp only [FileSystem.configs, takeWhile_prefix hdir hrest, hcomplete, hstatus, hcompile,
        Option.map_some]
    rw [InitializePath, hconfigs, findMatching_eq, List.nil_append, Option.map_some, List.map_map]
    congr 2
    apply List.map_congr_left
    intro e he
    have hcontains := Directory.mem_entriesBelow.mp (List.mem_of_mem_filter he)
    exact congrArg fs.settingFile (hbelow hcontains)

end Discovery

/-- Regular expressions by their meaning; no other text compiles. -/
noncomputable def compileByMeaning (text : Bytes) : Option (Path → Bool) :=
  (searchByMeaning [] text).map fun _ path => searchByMeaning path text = some true

theorem documented_compileByMeaning :
    Documented fun s text => (compileByMeaning text).map fun search => search s := by
  intro p s hs
  obtain ⟨found, hfound, hiff⟩ := documented_searchByMeaning p s hs
  obtain ⟨empty, hempty, -⟩ := documented_searchByMeaning p [] fun c hc =>
    absurd hc List.not_mem_nil
  refine ⟨found, ?_, hiff⟩
  simp [compileByMeaning, hempty, hfound]

/-- The directory `/c` with the files `old` and `conf` in it. -/
def twoFiles : FileSystem where
  system_complete path := path
  status path :=
    if path = [47, 99, 47] then .directory (.file oldName (.file confName .empty)) else .missing
  settingFile path :=
    if path = [47, 99, 47] ++ confName.val then .settings feederLog else .notOpened

/-- `/c/*f` loads `/c/conf`. -/
theorem LogManager.InitializePath_of_wildcard_twoFiles :
    ∃ found, Discovered (.file oldName (.file confName .empty)) [star, 102] found ∧
      InitializePath severitySetup twoFiles compileByMeaning ([47, 99, 47] ++ [star, 102]) =
        some (Initialize severitySetup
          (found.map fun e => twoFiles.settingFile ([47, 99, 47] ++ separated e.1))) := by
  have hline : ∀ e ∈ (Directory.file oldName (.file confName .empty)).entriesBelow,
      ∀ c ∈ [47, 99, 47] ++ separated e.1, c ∉ newlines := by decide
  exact InitializePath_of_wildcard severitySetup twoFiles documented_compileByMeaning
    (by unfold NoBraces; decide) (by decide) (by decide) rfl rfl rfl rfl
    (fun names kind h => hline (names, kind) (Directory.mem_entriesBelow.mpr h)) (Or.inl rfl)

end MemClient
