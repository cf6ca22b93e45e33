import MemClient.ByteCodec
import MemClient.NameHierarchy

/-!
# The files that FindFiles finds

`common/FileHandler.cpp`: one filter decides which entries of a directory are collected and
which directories are entered.  A directory is the list of its entries in the order of the
iterator; what the manager's pattern accepts is a parameter.
-/

namespace MemClient

open ByteCodec NameHierarchy

/-! ## 1. Directories -/

def slash : Byte := 47

/-- What `path::string` gives. -/
abbrev Path := Bytes

abbrev FileName := Segment slash

inductive Directory where
  | empty
  | file (name : FileName) (rest : Directory)
  | directory (name : FileName) (entries rest : Directory)

inductive EntryKind where
  | file
  | directory
deriving DecidableEq

namespace Directory

/-- The names of the entries. -/
def names : Directory → List FileName
  | .empty => []
  | .file name rest => name :: rest.names
  | .directory name _ rest => name :: rest.names

/-- The entries of a directory have different names, at every depth. -/
def Distinct : Directory → Prop
  | .empty => True
  | .file name rest => name ∉ rest.names ∧ rest.Distinct
  | .directory name entries rest => name ∉ rest.names ∧ entries.Distinct ∧ rest.Distinct

/-- What lies at a path below a directory. -/
inductive Contains : Directory → List FileName → EntryKind → Prop
  | file {name rest} : Contains (.file name rest) [name] .file
  | afterFile {name rest path kind} : Contains rest path kind → Contains (.file name rest) path kind
  | directory {name entries rest} : Contains (.directory name entries rest) [name] .directory
  | inside {name entries rest path kind} :
      Contains entries path kind → Contains (.directory name entries rest) (name :: path) kind
  | afterDirectory {name entries rest path kind} :
      Contains rest path kind → Contains (.directory name entries rest) path kind

end Directory

/-- `path / name`: a separator comes between them unless the path ends with one or is empty. -/
def Path.append (path : Path) (name : FileName) : Path :=
  if path = [] ∨ path.getLast? = some slash then path ++ name.val else path ++ slash :: name.val

/-- The path of an entry below a directory. -/
def Path.below (dirPath : Path) (names : List FileName) : Path := names.foldl Path.append dirPath

/-! ## 2. FindFiles -/

def findFiles (filter : Path → Bool → Bool) : Directory → Path → List Path → List Path
  | .empty, _, out => out
  | .file name rest, dirPath, out =>
      findFiles filter rest dirPath
        (if filter (dirPath.append name) false then out ++ [dirPath.append name] else out)
  | .directory name entries rest, dirPath, out =>
      findFiles filter rest dirPath
        (if filter (dirPath.append name) true then
          findFiles filter entries (dirPath.append name) (out ++ [dirPath.append name])
        else out)

/-- The overload that `Initialize` calls, with what `regex_search` accepts. -/
def findMatching (pattern : Path → Bool) (dir : Directory) (dirPath : Path) (out : List Path) :
    List Path :=
  findFiles (fun path isDir => isDir || pattern path) dir dirPath out

/-! ## 3. Paths -/

section Paths

/-- Up to the separator before the first name. -/
def Path.stem (dirPath : Path) : Bytes :=
  if dirPath = [] ∨ dirPath.getLast? = some slash then dirPath else dirPath ++ [slash]

theorem append_eq_stem (dirPath : Path) (name : FileName) :
    dirPath.append name = dirPath.stem ++ name.val := by
  unfold Path.append Path.stem
  split <;> simp

/-- A name does not end with a separator. -/
theorem stem_append (dirPath : Path) (name : FileName) :
    (dirPath.append name).stem = dirPath.append name ++ [slash] := by
  have hlast : (dirPath.append name).getLast? = name.val.getLast? := by
    rw [append_eq_stem, List.getLast?_append_of_ne_nil _ name.property.1]
  have hslash : name.val.getLast? ≠ some slash := fun h =>
    name.property.2 (List.mem_of_getLast? h)
  have hne : dirPath.append name ≠ [] := by
    rw [append_eq_stem]
    exact fun h => name.property.1 (List.append_eq_nil_iff.mp h).2
  rw [Path.stem, hlast, if_neg (not_or.mpr ⟨hne, hslash⟩)]

theorem below_eq {names : List FileName} (hnames : names ≠ []) (dirPath : Path) :
    dirPath.below names = dirPath.stem ++ separated names := by
  induction names generalizing dirPath with
  | nil => exact absurd rfl hnames
  | cons name names ih =>
      by_cases hnil : names = []
      · rw [hnil, separated_singleton]
        exact append_eq_stem dirPath name
      · rw [separated_cons hnil]
        refine (ih hnil (dirPath.append name)).trans ?_
        rw [stem_append, append_eq_stem]
        simp

theorem below_injective (dirPath : Path) {names names' : List FileName} (hnames : names ≠ [])
    (hnames' : names' ≠ []) (h : dirPath.below names = dirPath.below names') : names = names' := by
  rw [below_eq hnames, below_eq hnames', List.append_cancel_left_eq] at h
  exact separated_injective h

end Paths

/-! ## 4. What is collected -/

namespace Directory

/-- Everything below a directory, in the order of the traversal. -/
def entriesBelow : Directory → List (List FileName × EntryKind)
  | .empty => []
  | .file name rest => ([name], .file) :: rest.entriesBelow
  | .directory name entries rest =>
      ([name], .directory) :: entries.entriesBelow.map (fun e => (name :: e.1, e.2)) ++
        rest.entriesBelow

theorem mem_entriesBelow {dir : Directory} {path : List FileName} {kind : EntryKind} :
    (path, kind) ∈ dir.entriesBelow ↔ dir.Contains path kind := by
  constructor
  · intro hmem
    induction dir generalizing path kind with
    | empty => cases hmem
    | file name rest ih =>
        rcases List.mem_cons.mp hmem with heq | hrest
        · obtain ⟨rfl, rfl⟩ := Prod.mk.inj heq
          exact .file
        · exact .afterFile (ih hrest)
    | directory name entries rest ihEntries ihRest =>
        rcases List.mem_append.mp hmem with hentry | hrest
        · rcases List.mem_cons.mp hentry with heq | hinside
          · obtain ⟨rfl, rfl⟩ := Prod.mk.inj heq
            exact .directory
          · obtain ⟨⟨inner, innerKind⟩, hinner, heq⟩ := List.mem_map.mp hinside
            obtain ⟨rfl, rfl⟩ := Prod.mk.inj heq
            exact .inside (ihEntries hinner)
        · exact .afterDirectory (ihRest hrest)
  · intro hcontains
    induction hcontains with
    | file => exact List.mem_cons_self
    | afterFile _ ih => exact List.mem_cons_of_mem _ ih
    | directory => exact List.mem_append_left _ List.mem_cons_self
    | inside _ ih =>
        exact List.mem_append_left _ (List.mem_cons_of_mem _ (List.mem_map.mpr ⟨_, ih, rfl⟩))
    | afterDirectory _ ih => exact List.mem_append_right _ ih

theorem Contains.ne_nil {dir : Directory} {path : List FileName} {kind : EntryKind}
    (h : dir.Contains path kind) : path ≠ [] := by
  induction h with
  | file | directory | inside => exact List.cons_ne_nil _ _
  | afterFile _ ih | afterDirectory _ ih => exact ih

/-- A path begins with the name of an entry. -/
theorem Contains.mem_names {dir : Directory} {name : FileName} {path : List FileName}
    {kind : EntryKind} (h : dir.Contains (name :: path) kind) : name ∈ dir.names := by
  generalize hwhole : name :: path = whole at h
  induction h with
  | file | directory | inside => exact (List.cons.inj hwhole).1 ▸ List.mem_cons_self
  | afterFile _ ih | afterDirectory _ ih => exact List.mem_cons_of_mem _ (ih hwhole)

theorem cons_notMem_paths {dir : Directory} {name : FileName} (hname : name ∉ dir.names)
    (path : List FileName) : name :: path ∉ dir.entriesBelow.map Prod.fst := by
  intro hmem
  obtain ⟨⟨whole, kind⟩, hentry, rfl⟩ := List.mem_map.mp hmem
  exact hname (mem_entriesBelow.mp hentry).mem_names

/-- Below a directory every path has one entry, and the traversal comes to it once. -/
theorem Distinct.nodup {dir : Directory} (hdir : dir.Distinct) :
    (dir.entriesBelow.map Prod.fst).Nodup := by
  induction dir with
  | empty => exact List.nodup_nil
  | file name rest ih =>
      obtain ⟨hname, hrest⟩ := hdir
      exact List.nodup_cons.mpr ⟨cons_notMem_paths hname [], ih hrest⟩
  | directory name entries rest ihEntries ihRest =>
      obtain ⟨hname, hentries, hrest⟩ := hdir
      have hinside : (entries.entriesBelow.map fun e => (name :: e.1, e.2)).map Prod.fst =
          (entries.entriesBelow.map Prod.fst).map (name :: ·) := by
        rw [List.map_map, List.map_map]
        rfl
      rw [entriesBelow, List.map_append, List.map_cons, hinside]
      refine List.nodup_append.mpr ⟨List.nodup_cons.mpr ⟨?_, ?_⟩, ihRest hrest, ?_⟩
      · intro hmem
        obtain ⟨path, hpath, heq⟩ := List.mem_map.mp hmem
        obtain ⟨⟨whole, kind⟩, hentry, rfl⟩ := List.mem_map.mp hpath
        exact (mem_entriesBelow.mp hentry).ne_nil (List.cons.inj heq).2
      · exact (ihEntries hentries).map (List.cons_injective)
      · rintro path hpath other hother rfl
        obtain ⟨inner, rfl⟩ : ∃ inner, path = name :: inner := by
          rcases List.mem_cons.mp hpath with rfl | hmem
          · exact ⟨[], rfl⟩
          · obtain ⟨inner, -, rfl⟩ := List.mem_map.mp hmem
            exact ⟨inner, rfl⟩
        exact cons_notMem_paths hname inner hother

/-- So nothing is both a directory and not one. -/
theorem Distinct.kind_unique {dir : Directory} (hdir : dir.Distinct) {path : List FileName}
    {kind kind' : EntryKind} (h : dir.Contains path kind) (h' : dir.Contains path kind') :
    kind = kind' := by
  have heq := List.inj_on_of_nodup_map hdir.nodup (mem_entriesBelow.mpr h)
    (mem_entriesBelow.mpr h') rfl
  exact (Prod.mk.inj heq).2

end Directory

/-- Directories are collected whatever their path is. -/
def collected (pattern : Path → Bool) (dirPath : Path) (e : List FileName × EntryKind) : Bool :=
  e.2 = .directory || pattern (dirPath.below e.1)

theorem findMatching_eq (pattern : Path → Bool) (dir : Directory) (dirPath : Path)
    (out : List Path) : findMatching pattern dir dirPath out =
      out ++ (dir.entriesBelow.filter (collected pattern dirPath)).map
        fun e => dirPath.below e.1 := by
  unfold findMatching
  induction dir generalizing dirPath out with
  | empty => exact (List.append_nil out).symm
  | file name rest ih =>
      have hself : collected pattern dirPath ([name], .file) = pattern (dirPath.append name) := rfl
      rw [findFiles, ih, Directory.entriesBelow, List.filter_cons, hself, Bool.false_or]
      split
      · rw [List.map_cons, List.append_assoc, List.singleton_append]
        rfl
      · rfl
  | directory name entries rest ihEntries ihRest =>
      have hself : collected pattern dirPath ([name], .directory) = true := rfl
      have hinside : collected pattern dirPath ∘ (fun e => (name :: e.1, e.2)) =
          collected pattern (dirPath.append name) := rfl
      rw [findFiles, Bool.true_or, if_pos rfl, ihEntries, ihRest, Directory.entriesBelow,
        List.filter_append, List.filter_cons, if_pos hself, List.filter_map, hinside,
        List.map_append, List.map_cons, List.map_map]
      simp only [List.append_assoc, List.cons_append, List.nil_append]
      rfl

/-! ## 5. Discovery -/

/-- What is in `out` afterwards: after its earlier content the paths of the matching entries
    below `dirPath` that are no directories, each once, and no directory. -/
def AppendsMatchingFiles (pattern : Path → Bool) (dir : Directory) (dirPath : Path)
    (out out' : List Path) : Prop :=
  ∃ found, out' = out ++ found ∧ found.Nodup ∧
    (∀ path, path ∈ found ↔
      ∃ names, dir.Contains names .file ∧ dirPath.below names = path ∧ pattern path) ∧
    ∀ names, dir.Contains names .directory → dirPath.below names ∉ found

section Found

variable {pattern : Path → Bool} {dir : Directory} {dirPath : Path}

theorem mem_found {path : Path} :
    path ∈ (dir.entriesBelow.filter (collected pattern dirPath)).map
        (fun e => dirPath.below e.1) ↔
      ∃ names kind, dir.Contains names kind ∧ dirPath.below names = path ∧
        (kind = .directory ∨ pattern path) := by
  simp only [List.mem_map, List.mem_filter, collected, Bool.or_eq_true, decide_eq_true_eq]
  constructor
  · rintro ⟨⟨names, kind⟩, ⟨hmem, hkind⟩, rfl⟩
    exact ⟨names, kind, Directory.mem_entriesBelow.mp hmem, rfl, hkind⟩
  · rintro ⟨names, kind, hcontains, rfl, hkind⟩
    exact ⟨(names, kind), ⟨Directory.mem_entriesBelow.mpr hcontains, hkind⟩, rfl⟩

theorem nodup_found (hdir : dir.Distinct) :
    ((dir.entriesBelow.filter (collected pattern dirPath)).map
      fun e => dirPath.below e.1).Nodup := by
  have hfiltered : (dir.entriesBelow.filter (collected pattern dirPath)).Nodup :=
    (hdir.nodup.of_map _).filter _
  apply hfiltered.map_on
  rintro ⟨names, kind⟩ hmem ⟨names', kind'⟩ hmem' hpath
  have hcontains := Directory.mem_entriesBelow.mp (List.mem_of_mem_filter hmem)
  have hcontains' := Directory.mem_entriesBelow.mp (List.mem_of_mem_filter hmem')
  obtain rfl := below_injective dirPath hcontains.ne_nil hcontains'.ne_nil hpath
  obtain rfl := hdir.kind_unique hcontains hcontains'
  rfl

/-- Directories lie in directories: where the outermost has none, there are none. -/
theorem Directory.Contains.top {names : List FileName} (h : dir.Contains names .directory) :
    ∃ name, dir.Contains [name] .directory := by
  induction dir generalizing names with
  | empty => cases h
  | file name rest ih =>
      cases h with
      | afterFile hrest =>
          obtain ⟨other, hother⟩ := ih hrest
          exact ⟨other, .afterFile hother⟩
  | directory name entries rest _ _ => exact ⟨name, .directory⟩

end Found

/-- **FindFiles** appends the matching files and nothing else if and only if the directory
    has no directory in it. -/
theorem appendsMatchingFiles_iff (pattern : Path → Bool) {dir : Directory} (hdir : dir.Distinct)
    (dirPath : Path) (out : List Path) :
    AppendsMatchingFiles pattern dir dirPath out (findMatching pattern dir dirPath out) ↔
      ∀ name, ¬dir.Contains [name] .directory := by
  rw [findMatching_eq]
  constructor
  · rintro ⟨found, hout, -, -, hnone⟩ name hname
    obtain rfl := List.append_cancel_left hout
    exact hnone [name] hname (mem_found.mpr ⟨[name], .directory, hname, rfl, Or.inl rfl⟩)
  · intro hflat
    have hnone : ∀ names, ¬dir.Contains names .directory := fun names hnames =>
      hnames.top.elim hflat
    refine ⟨_, rfl, nodup_found hdir, ?_, fun names hnames => absurd hnames (hnone names)⟩
    intro path
    rw [mem_found]
    constructor
    · rintro ⟨names, kind, hcontains, hpath, hkind⟩
      cases kind with
      | file => exact ⟨names, hcontains, hpath, hkind.resolve_left (by decide)⟩
      | directory => exact absurd hcontains (hnone names)
    · rintro ⟨names, hcontains, hpath, hpattern⟩
      exact ⟨names, .file, hcontains, hpath, Or.inr hpattern⟩

def confName : FileName := ⟨[99, 111, 110, 102], by decide⟩
def oldName : FileName := ⟨[111, 108, 100], by decide⟩

/-- A directory `conf` with the files `old` and `conf` in it. -/
theorem appendsMatchingFiles_flat :
    (Directory.file oldName (.file confName .empty)).Distinct ∧
    (AppendsMatchingFiles (fun path => path.getLast? = some 102)
        (.file oldName (.file confName .empty)) confName.val []
        (findMatching (fun path => path.getLast? = some 102)
          (.file oldName (.file confName .empty)) confName.val []) ↔
      ∀ name, ¬(Directory.file oldName (.file confName .empty)).Contains [name] .directory) := by
  have hdir : (Directory.file oldName (.file confName .empty)).Distinct := by
    simp [Directory.Distinct, Directory.names, oldName, confName]
  exact ⟨hdir, appendsMatchingFiles_iff _ hdir _ _⟩

/-- An empty directory `conf/old` is among the files found in `conf`. -/
theorem not_appendsMatchingFiles_directory :
    ¬AppendsMatchingFiles (fun path => path.getLast? = some 102)
      (.directory oldName .empty .empty) confName.val []
      (findMatching (fun path => path.getLast? = some 102)
        (.directory oldName .empty .empty) confName.val []) := by
  rintro ⟨found, hout, -, -, hnone⟩
  have hfound : found = [Path.below confName.val [oldName]] := by
    rw [← List.nil_append found, ← hout]
    decide
  exact hnone [oldName] .directory (hfound ▸ List.mem_singleton_self _)

end MemClient
