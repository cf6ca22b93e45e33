import MemClient.FileDiscovery
import MemClient.LogManager
import MemClient.TextReplacement

/-!
# Replacing in a file

`FindAndReplace` in `common/FileHandler.cpp` rewrites a file line by line.  The loop of its
visitor searches the line it is rewriting: what lies before the index is done, what lies behind
it is as it was (`SReplaceVisit.loop_eq`).  The empty text is found at every index, so that the
loop does not end.
-/

namespace MemClient

open ByteCodec TextReplacement

/-! ## 1. The visitor -/

structure SReplaceVisit where
  m_strFrom : Bytes
  m_strTo : Bytes

namespace SReplaceVisit

/-- The loop of `operator()` with what `find` gave last; at most `fuel` rounds, `none` where it
    is still running then. -/
def loop (visit : SReplaceVisit) : Nat → Bytes → Option Nat → Option Bytes
  | _, strLine, none => some strLine
  | 0, _, some _ => none
  | fuel + 1, strLine, some nIndex =>
      let strLine := replace strLine nIndex visit.m_strFrom.length visit.m_strTo
      visit.loop fuel strLine (find strLine visit.m_strFrom (nIndex + visit.m_strTo.length))

/-- `operator()`: what it leaves in the line. -/
def operator (visit : SReplaceVisit) (fuel : Nat) (strLine : Bytes) : Option Bytes :=
  visit.loop fuel strLine (find strLine visit.m_strFrom 0)

/-- The loop ends with every occurrence replaced. -/
def ReplacesOccurrences (visit : SReplaceVisit) (strLine : Bytes) : Prop :=
  ∃ out, Replaced visit.m_strFrom visit.m_strTo strLine out ∧
    ∃ enough, ∀ fuel ≥ enough, visit.operator fuel strLine = some out

/-! ## 2. Its loop -/

section Loop

variable {visit : SReplaceVisit}

@[simp] theorem loop_none (fuel : Nat) (strLine : Bytes) :
    visit.loop fuel strLine none = some strLine := by
  cases fuel with
  | zero => rfl
  | succ fuel => rfl

/-- **Each round** moves the first occurrence that is left from the rest of the line to what is
    done. -/
theorem loop_eq (hfrom : visit.m_strFrom ≠ []) {front rest : Bytes} {fuel : Nat}
    (hfuel : rest.length ≤ fuel) :
    visit.loop fuel (front ++ rest) (find (front ++ rest) visit.m_strFrom front.length) =
      some (front ++ replaceAll visit.m_strFrom visit.m_strTo rest) := by
  induction fuel generalizing front rest with
  | zero =>
      obtain rfl := List.eq_nil_of_length_eq_zero (Nat.le_zero.mp hfuel)
      rcases find_behind front [] visit.m_strFrom with ⟨hfind, -⟩ | ⟨before, rest, hsplit, -, -⟩
      · rw [hfind]
        rfl
      · simp [hfrom] at hsplit
  | succ fuel ih =>
      rcases find_behind front rest visit.m_strFrom with
        ⟨hfind, hnone⟩ | ⟨before, rest, rfl, hfirst, hfind⟩
      · rw [hfind, loop_none, replaceAll_of_not_occursAt hnone]
      · have hpos := List.length_pos_iff.mpr hfrom
        have hround : replace (front ++ (before ++ visit.m_strFrom ++ rest))
            (front ++ before).length visit.m_strFrom.length visit.m_strTo =
              (front ++ before ++ visit.m_strTo) ++ rest := by
          rw [← replace_append (front ++ before) visit.m_strFrom]
          simp only [List.append_assoc]
        rw [hfind, loop, hround, ← List.length_append, replaceAll_of_first hfrom hfirst]
        refine (ih ?_).trans ?_
        · simp only [List.length_append] at hfuel
          omega
        · simp only [List.append_assoc]

/-- The loop ends after as many rounds as the line has characters, at the latest. -/
theorem operator_eq (hfrom : visit.m_strFrom ≠ []) {strLine : Bytes} {fuel : Nat}
    (hfuel : strLine.length ≤ fuel) :
    visit.operator fuel strLine = some (replaceAll visit.m_strFrom visit.m_strTo strLine) :=
  @loop_eq visit hfrom [] strLine fuel hfuel

theorem loop_mono {fuel fuel' : Nat} (hle : fuel ≤ fuel') {strLine out : Bytes}
    {nIndex : Option Nat} (h : visit.loop fuel strLine nIndex = some out) :
    visit.loop fuel' strLine nIndex = some out := by
  induction fuel generalizing fuel' strLine nIndex with
  | zero =>
      cases nIndex with
      | none => simpa using h
      | some nIndex => cases h
  | succ fuel ih =>
      cases nIndex with
      | none => simpa using h
      | some nIndex =>
          obtain ⟨fuel', rfl⟩ := Nat.exists_eq_add_one.mpr (Nat.zero_lt_of_lt hle)
          exact ih (Nat.le_of_succ_le_succ hle) h

/-- However many rounds are allowed: a line that is returned has its replacements. -/
theorem eq_replaceAll_of_operator (hfrom : visit.m_strFrom ≠ []) {strLine out : Bytes}
    {fuel : Nat} (h : visit.operator fuel strLine = some out) :
    out = replaceAll visit.m_strFrom visit.m_strTo strLine := by
  have hmore : visit.operator (max fuel strLine.length) strLine = some out :=
    loop_mono (Nat.le_max_left _ _) h
  rw [operator_eq hfrom (Nat.le_max_right _ _)] at hmore
  exact (Option.some.inj hmore).symm

/-- What is put in is not searched. -/
example : SReplaceVisit.operator ⟨ascii ['a', 'a'], ascii ['b', 'a', 'a']⟩ 5
    (ascii ['a', 'a', 'a', 'a', 'a']) =
      some (ascii ['b', 'a', 'a', 'b', 'a', 'a', 'a']) := by decide

/-- The empty text is found again behind each replacement. -/
theorem loop_eq_none (hfrom : visit.m_strFrom = []) {strLine : Bytes} {nIndex : Nat}
    (hindex : nIndex ≤ strLine.length) (fuel : Nat) :
    visit.loop fuel strLine (some nIndex) = none := by
  induction fuel generalizing strLine nIndex with
  | zero => rfl
  | succ fuel ih =>
      have hnext : nIndex + visit.m_strTo.length ≤
          (replace strLine nIndex visit.m_strFrom.length visit.m_strTo).length := by
        rw [replace, List.length_append, List.length_append, List.length_take_of_le hindex]
        exact Nat.le_add_right _ _
      rw [loop, hfrom, find_nil (hfrom ▸ hnext)]
      exact ih (hfrom ▸ hnext)

theorem operator_eq_none (hfrom : visit.m_strFrom = []) (strLine : Bytes) (fuel : Nat) :
    visit.operator fuel strLine = none := by
  rw [operator, hfrom, find_nil (Nat.zero_le _)]
  exact loop_eq_none hfrom (Nat.zero_le _) fuel

end Loop

/-- **The visitor** replaces every occurrence once, unless it searches for the empty text:
    then its loop never ends. -/
theorem replacesOccurrences_iff (visit : SReplaceVisit) (strLine : Bytes) :
    visit.ReplacesOccurrences strLine ↔ visit.m_strFrom ≠ [] := by
  constructor
  · rintro ⟨out, -, enough, hends⟩ hfrom
    have hout := hends enough (Nat.le_refl enough)
    rw [operator_eq_none hfrom] at hout
    cases hout
  · intro hfrom
    refine ⟨replaceAll visit.m_strFrom visit.m_strTo strLine, ?_, strLine.length, ?_⟩
    · exact (replaced_iff hfrom).mpr rfl
    · intro fuel hfuel
      exact operator_eq hfrom hfuel

theorem not_replacesOccurrences :
    ¬(⟨[], []⟩ : SReplaceVisit).ReplacesOccurrences (ascii ['a']) := by
  rintro ⟨out, -, enough, hends⟩
  have hout := hends enough (Nat.le_refl enough)
  rw [operator_eq_none rfl] at hout
  cases hout

end SReplaceVisit

/-! ## 3. The file -/

def newline : Byte := 10

/-- `getline`: the text up to a newline and what is behind it; `none` at the end of the file. -/
def getline (fileIn : Bytes) : Option (Bytes × Bytes) :=
  if fileIn = [] then none
  else some (fileIn.takeWhile (· ≠ newline), (fileIn.dropWhile (· ≠ newline)).drop 1)

/-- The contents of the files, by path. -/
abbrev Files := Path → Option Bytes

def Files.rename (files : Files) (oldPath newPath : Path) : Files :=
  Function.update (Function.update files newPath (files oldPath)) oldPath none

/-- The loop over the lines of the file. -/
def visitLines (visit : Bytes → Option Bytes) : Nat → Bytes → Bytes → Option Bytes
  | 0, _, _ => none
  | fuel + 1, fileIn, fileOut =>
      match getline fileIn with
      | none => some fileOut
      | some (strLine, fileIn) =>
          (visit strLine).bind fun strLine =>
            visitLines visit fuel fileIn (fileOut ++ strLine ++ [newline])

def tempFileName (filePath : Path) : Path := filePath ++ ascii ['t', 'e', 'm', 'p', '~']

/-- The temporary file is written, and takes the place of the one that was read. -/
def Files.rewrite (files : Files) (filePath : Path) (fileOut : Bytes) : Files :=
  let files : Files := Function.update files (tempFileName filePath) (some fileOut)
  let files : Files := Function.update files filePath none
  files.rename (tempFileName filePath) filePath

/-- What the exception says. -/
def openError (filePath : Path) : Bytes :=
  ascii ['c', 'a', 'n', ' ', 'n', 'o', 't', ' ', 'o', 'p', 'e', 'n', ' ',
    'f', 'i', 'l', 'e', ' '] ++ filePath

def traverseFile (fuel : Nat) (files : Files) (filePath : Path) (visit : Bytes → Option Bytes) :
    Option (Except Bytes Files) :=
  match files filePath with
  | none => some (.error (openError filePath))
  | some fileIn =>
      (visitLines visit fuel fileIn []).map fun fileOut => .ok (files.rewrite filePath fileOut)

def findAndReplace (fuel : Nat) (files : Files) (filePath : Path) (strFrom strTo : Bytes) :
    Option (Except Bytes Files) :=
  traverseFile fuel files filePath (SReplaceVisit.operator ⟨strFrom, strTo⟩ fuel)

section Lines

/-- A file with the given lines; behind the last newline may be something more. -/
def fileText (strLines : List Bytes) (last : Bytes) : Bytes :=
  strLines.flatMap (· ++ [newline]) ++ last

theorem exists_fileText (fileIn : Bytes) : ∃ strLines last,
    fileIn = fileText strLines last ∧ (∀ strLine ∈ strLines, newline ∉ strLine) ∧
      newline ∉ last := by
  induction fileIn with
  | nil => exact ⟨[], [], rfl, by simp, by simp⟩
  | cons c fileIn ih =>
      obtain ⟨strLines, last, rfl, hlines, hlast⟩ := ih
      by_cases hc : c = newline
      · subst hc
        exact ⟨[] :: strLines, last, rfl, by simpa using hlines, hlast⟩
      · cases strLines with
        | nil =>
            refine ⟨[], c :: last, rfl, by simp, ?_⟩
            simpa [Ne.symm hc] using hlast
        | cons strLine strLines =>
            refine ⟨(c :: strLine) :: strLines, last, rfl, ?_, hlast⟩
            simpa [Ne.symm hc] using hlines

theorem takeWhile_line {strLine : Bytes} (hline : newline ∉ strLine) (rest : Bytes) :
    (strLine ++ rest).takeWhile (· ≠ newline) = strLine ++ rest.takeWhile (· ≠ newline) := by
  apply List.takeWhile_append_of_pos
  intro c hc
  simpa using fun h : c = newline => hline (h ▸ hc)

theorem dropWhile_line {strLine : Bytes} (hline : newline ∉ strLine) (rest : Bytes) :
    (strLine ++ rest).dropWhile (· ≠ newline) = rest.dropWhile (· ≠ newline) := by
  apply List.dropWhile_append_of_pos
  intro c hc
  simpa using fun h : c = newline => hline (h ▸ hc)

theorem getline_line {strLine : Bytes} (hline : newline ∉ strLine) (rest : Bytes) :
    getline (strLine ++ newline :: rest) = some (strLine, rest) := by
  rw [getline, if_neg (by simp), takeWhile_line hline, dropWhile_line hline]
  simp

theorem getline_last {last : Bytes} (hne : last ≠ []) (hlast : newline ∉ last) :
    getline last = some (last, []) := by
  have htake := takeWhile_line hlast []
  have hdrop := dropWhile_line hlast []
  rw [List.append_nil] at htake hdrop
  rw [getline, if_neg hne, htake, hdrop]
  simp

theorem fileText_cons (strLine : Bytes) (strLines : List Bytes) (last : Bytes) :
    fileText (strLine :: strLines) last = strLine ++ newline :: fileText strLines last := by
  simp [fileText]

/-- The lines after a visit, a newline behind each. -/
def rewritten (visit : Bytes → Bytes) (strLines : List Bytes) (last : Bytes) : Bytes :=
  (strLines ++ if last = [] then [] else [last]).flatMap fun strLine => visit strLine ++ [newline]

theorem rewritten_cons (visit : Bytes → Bytes) (strLine : Bytes) (strLines : List Bytes)
    (last : Bytes) : rewritten visit (strLine :: strLines) last =
      visit strLine ++ [newline] ++ rewritten visit strLines last := by
  simp [rewritten]

/-- **The loop** visits the lines one after the other. -/
theorem visitLines_eq {visit : Bytes → Option Bytes} {visited : Bytes → Bytes} {size : Nat}
    (hvisit : ∀ strLine, strLine.length ≤ size → visit strLine = some (visited strLine))
    {strLines : List Bytes} {last : Bytes} (hlines : ∀ strLine ∈ strLines, newline ∉ strLine)
    (hlast : newline ∉ last) (hsize : (fileText strLines last).length ≤ size) {fuel : Nat}
    (hfuel : (fileText strLines last).length < fuel) (fileOut : Bytes) :
    visitLines visit fuel (fileText strLines last) fileOut =
      some (fileOut ++ rewritten visited strLines last) := by
  induction strLines generalizing fuel fileOut with
  | nil =>
      have htext : fileText [] last = last := rfl
      rw [htext] at hsize hfuel ⊢
      obtain ⟨fuel, rfl⟩ := Nat.exists_eq_succ_of_ne_zero (Nat.ne_zero_of_lt hfuel)
      by_cases hne : last = []
      · subst hne
        simp [visitLines, getline, rewritten]
      · have hpos := List.length_pos_iff.mpr hne
        obtain ⟨fuel, rfl⟩ := Nat.exists_eq_succ_of_ne_zero (show fuel ≠ 0 by omega)
        have hend : visitLines visit (fuel + 1) [] (fileOut ++ visited last ++ [newline]) =
            some (fileOut ++ visited last ++ [newline]) := rfl
        rw [visitLines, getline_last hne hlast]
        simp only [hvisit last hsize, Option.bind_some]
        rw [hend, rewritten, if_neg hne]
        simp
  | cons strLine strLines ih =>
      obtain ⟨hline, hlines⟩ := List.forall_mem_cons.mp hlines
      rw [fileText_cons, List.length_append, List.length_cons] at hsize hfuel
      obtain ⟨fuel, rfl⟩ := Nat.exists_eq_succ_of_ne_zero (Nat.ne_zero_of_lt hfuel)
      rw [fileText_cons, visitLines, getline_line hline]
      simp only [hvisit strLine (by omega), Option.bind_some]
      rw [ih hlines (by omega) (by omega), rewritten_cons]
      simp only [List.append_assoc]

end Lines

section Files

variable {files : Files} {filePath : Path} {strFrom strTo : Bytes}

theorem tempFileName_ne (filePath : Path) : tempFileName filePath ≠ filePath := by
  intro h
  have hlength := congrArg List.length h
  simp [tempFileName, ascii] at hlength

theorem rewrite_self (fileOut : Bytes) :
    files.rewrite filePath fileOut filePath = some fileOut := by
  have htemp := tempFileName_ne filePath
  simp [Files.rewrite, Files.rename, htemp, htemp.symm]

theorem rewrite_tempFileName (fileOut : Bytes) :
    files.rewrite filePath fileOut (tempFileName filePath) = none := by
  simp [Files.rewrite, Files.rename]

/-- The other files are as they were. -/
theorem rewrite_of_ne {path : Path} (hpath : path ≠ filePath) (htemp : path ≠ tempFileName filePath)
    (fileOut : Bytes) : files.rewrite filePath fileOut path = files path := by
  simp [Files.rewrite, Files.rename, hpath, htemp]

/-- **FindAndReplace** replaces in every line. -/
theorem findAndReplace_eq (hfrom : strFrom ≠ []) {strLines : List Bytes} {last : Bytes}
    (hlines : ∀ strLine ∈ strLines, newline ∉ strLine) (hlast : newline ∉ last)
    (hfile : files filePath = some (fileText strLines last)) {fuel : Nat}
    (hfuel : (fileText strLines last).length < fuel) :
    findAndReplace fuel files filePath strFrom strTo = some (.ok
      (files.rewrite filePath (rewritten (replaceAll strFrom strTo) strLines last))) := by
  have hvisit (strLine : Bytes) (hsize : strLine.length ≤ (fileText strLines last).length) :
      SReplaceVisit.operator ⟨strFrom, strTo⟩ fuel strLine =
        some (replaceAll strFrom strTo strLine) :=
    SReplaceVisit.operator_eq hfrom (hsize.trans hfuel.le)
  rw [findAndReplace, traverseFile, hfile]
  simp only [visitLines_eq hvisit hlines hlast (Nat.le_refl _) hfuel, Option.map_some,
    List.nil_append]

/-- A file with something in it has a first line. -/
theorem visitLines_eq_none {visit : Bytes → Option Bytes} (hvisit : ∀ strLine, visit strLine = none)
    {fileIn : Bytes} (hne : fileIn ≠ []) (fuel : Nat) (fileOut : Bytes) :
    visitLines visit fuel fileIn fileOut = none := by
  cases fuel with
  | zero => rfl
  | succ fuel =>
      rw [visitLines, getline, if_neg hne]
      simp only [hvisit, Option.bind_none]

/-- **It returns** unless it has a line to search for the empty text. -/
theorem findAndReplace_returns_iff :
    (∃ fuel result, findAndReplace fuel files filePath strFrom strTo = some result) ↔
      strFrom ≠ [] ∨ files filePath = none ∨ files filePath = some [] := by
  cases hfile : files filePath with
  | none =>
      refine iff_of_true ⟨0, .error (openError filePath), ?_⟩ (Or.inr (Or.inl rfl))
      rw [findAndReplace, traverseFile, hfile]
  | some fileIn =>
      obtain ⟨strLines, last, rfl, hlines, hlast⟩ := exists_fileText fileIn
      by_cases hfrom : strFrom = []
      · by_cases hempty : fileText strLines last = []
        · refine iff_of_true ⟨1, .ok (files.rewrite filePath []), ?_⟩ (Or.inr (Or.inr ?_))
          · rw [findAndReplace, traverseFile, hfile, hempty]
            rfl
          · rw [hempty]
        · refine iff_of_false ?_ ?_
          · rintro ⟨fuel, result, hreturns⟩
            have hvisit (strLine : Bytes) :
                SReplaceVisit.operator ⟨strFrom, strTo⟩ fuel strLine = none :=
              SReplaceVisit.operator_eq_none hfrom strLine fuel
            rw [findAndReplace, traverseFile, hfile] at hreturns
            simp [visitLines_eq_none hvisit hempty] at hreturns
          · simp [hfrom, hempty]
      · exact iff_of_true ⟨_, _, findAndReplace_eq hfrom hlines hlast hfile (Nat.lt_succ_self _)⟩
          (Or.inl hfrom)

end Files

end MemClient
