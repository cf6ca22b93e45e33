import MemClient.LineReplacement
import Mathlib.Logic.Relation

/-!
# Rewriting a file, step by step

`TraverseFile` in `common/FileHandler.hpp`, where it may be stopped.  The lines go to a
temporary file; the file itself is removed once the streams are closed, and the temporary
file takes its name.  Section 3: a traversal after a traversal is one with the two visits
behind each other.
-/

namespace MemClient

open ByteCodec Relation

/-! ## 1. The states of a traversal -/

/-- What a traversal is about to do: read a line of what is left, remove the file, or rename
    the temporary file. -/
inductive TraversePhase where
  | reading (fileIn : Bytes)
  | closed
  | removed
  | renamed

structure Traversal where
  files : Files
  phase : TraversePhase

def Files.append (files : Files) (path : Path) (text : Bytes) : Files :=
  Function.update files path ((files path).map (· ++ text))

def Files.remove (files : Files) (path : Path) : Files := Function.update files path none

namespace Traversal

variable {visit : Bytes → Option Bytes} {opened : Bool} {files : Files} {filePath : Path}
  {fileIn : Bytes} {s s' : Traversal}

/-- The temporary file with the text written so far, if it could be opened.  Nothing checks
    whether it could: what a stream that is not open is given is lost. -/
def written (opened : Bool) (files : Files) (filePath : Path) (fileOut : Bytes) : Files :=
  if opened then Function.update files (tempFileName filePath) (some fileOut) else files

/-- One step; `none` where the visit does not return, where `rename` throws, and at the end. -/
def step (visit : Bytes → Option Bytes) (opened : Bool) (filePath : Path) (s : Traversal) :
    Option Traversal :=
  match s.phase with
  | .reading fileIn =>
      match getline fileIn with
      | some (strLine, fileIn) =>
          (visit strLine).map fun strLine =>
            { files := if opened then
                s.files.append (tempFileName filePath) (strLine ++ [newline]) else s.files
              phase := .reading fileIn }
      | none => some { s with phase := .closed }
  | .closed => some { files := s.files.remove filePath, phase := .removed }
  | .removed =>
      match s.files (tempFileName filePath) with
      | some _ =>
          some { files := s.files.rename (tempFileName filePath) filePath, phase := .renamed }
      | none => none
  | .renamed => none

/-- A state on the way of the traversal of a file that could be opened. -/
def Reaches (visit : Bytes → Option Bytes) (opened : Bool) (files : Files) (filePath : Path)
    (fileIn : Bytes) (s : Traversal) : Prop :=
  ReflTransGen (fun s s' => step visit opened filePath s = some s')
    ⟨written opened files filePath [], .reading fileIn⟩ s

/-- The visit returns on every line, and this is what it makes of the rest of the file. -/
def Rewrites (visit : Bytes → Option Bytes) (fileIn fileOut out : Bytes) : Prop :=
  ∃ fuel, visitLines visit fuel fileIn fileOut = some out

theorem rewrites_of_getline_none {fileOut out : Bytes} (hend : getline fileIn = none) :
    Rewrites visit fileIn fileOut out ↔ out = fileOut := by
  constructor
  · rintro ⟨fuel, hout⟩
    cases fuel with
    | zero => cases hout
    | succ fuel =>
        rw [visitLines, hend] at hout
        exact (Option.some.inj hout).symm
  · rintro rfl
    refine ⟨1, ?_⟩
    rw [visitLines, hend]

theorem rewrites_of_getline_some {strLine rest fileOut out : Bytes}
    (hline : getline fileIn = some (strLine, rest)) :
    Rewrites visit fileIn fileOut out ↔ ∃ visited, visit strLine = some visited ∧
      Rewrites visit rest (fileOut ++ visited ++ [newline]) out := by
  constructor
  · rintro ⟨fuel, hout⟩
    cases fuel with
    | zero => cases hout
    | succ fuel =>
        rw [visitLines, hline] at hout
        obtain ⟨visited, hvisit, hrest⟩ := Option.bind_eq_some_iff.mp hout
        exact ⟨visited, hvisit, fuel, hrest⟩
  · rintro ⟨visited, hvisit, fuel, hrest⟩
    refine ⟨fuel + 1, ?_⟩
    rw [visitLines, hline]
    exact Option.bind_eq_some_iff.mpr ⟨visited, hvisit, hrest⟩

theorem Rewrites.unique {fileOut out out' : Bytes} (h : Rewrites visit fileIn fileOut out)
    (h' : Rewrites visit fileIn fileOut out') : out = out' := by
  obtain ⟨fuel, hout⟩ := h
  induction fuel generalizing fileIn fileOut with
  | zero => cases hout
  | succ fuel ih =>
      rw [visitLines] at hout
      cases hline : getline fileIn with
      | none =>
          rw [hline] at hout
          rw [rewrites_of_getline_none hline] at h'
          exact (Option.some.inj hout).symm.trans h'.symm
      | some line =>
          obtain ⟨strLine, rest⟩ := line
          rw [hline] at hout
          obtain ⟨visited, hvisit, hrest⟩ := Option.bind_eq_some_iff.mp hout
          obtain ⟨visited', hvisit', hrest'⟩ := (rewrites_of_getline_some hline).mp h'
          obtain rfl := Option.some.inj (hvisit.symm.trans hvisit')
          exact ih hrest' hrest

/-! ## 2. Where it is stopped -/

/-- How far a traversal is, and what the files are then. -/
inductive Progress (visit : Bytes → Option Bytes) (opened : Bool) (files : Files)
    (filePath : Path) (fileIn : Bytes) : Traversal → Prop
  | reading {rest fileOut : Bytes}
      (hrest : ∀ out, Rewrites visit rest fileOut out ↔ Rewrites visit fileIn [] out) :
      Progress visit opened files filePath fileIn
        ⟨written opened files filePath fileOut, .reading rest⟩
  | closed {out : Bytes} (hout : Rewrites visit fileIn [] out) :
      Progress visit opened files filePath fileIn ⟨written opened files filePath out, .closed⟩
  | removed {out : Bytes} (hout : Rewrites visit fileIn [] out) :
      Progress visit opened files filePath fileIn
        ⟨(written opened files filePath out).remove filePath, .removed⟩
  | renamed {out : Bytes} (hout : Rewrites visit fileIn [] out) :
      Progress visit opened files filePath fileIn
        ⟨((written opened files filePath out).remove filePath).rename (tempFileName filePath)
          filePath, .renamed⟩

theorem append_written (fileOut text : Bytes) :
    (if opened then (written opened files filePath fileOut).append (tempFileName filePath) text
      else written opened files filePath fileOut) =
        written opened files filePath (fileOut ++ text) := by
  cases opened with
  | false => rfl
  | true => simp [written, Files.append]

theorem Progress.step (h : Progress visit opened files filePath fileIn s)
    (hstep : s.step visit opened filePath = some s') :
    Progress visit opened files filePath fileIn s' := by
  cases h with
  | @reading rest fileOut hrest =>
      cases hline : getline rest with
      | none =>
          simp only [Traversal.step, hline, Option.some.injEq] at hstep
          obtain rfl := hstep
          exact .closed ((hrest fileOut).mp ((rewrites_of_getline_none hline).mpr rfl))
      | some line =>
          obtain ⟨strLine, rest'⟩ := line
          simp only [Traversal.step, hline] at hstep
          obtain ⟨visited, hvisit, rfl⟩ := Option.map_eq_some_iff.mp hstep
          rw [append_written]
          apply Progress.reading
          intro out
          rw [← hrest out, rewrites_of_getline_some hline, ← List.append_assoc]
          constructor
          · exact fun hout => ⟨visited, hvisit, hout⟩
          · rintro ⟨visited', hvisit', hout⟩
            obtain rfl := Option.some.inj (hvisit.symm.trans hvisit')
            exact hout
  | closed hout =>
      obtain rfl := Option.some.inj hstep
      exact .removed hout
  | @removed out hout =>
      simp only [Traversal.step] at hstep
      split at hstep
      · obtain rfl := Option.some.inj hstep
        exact .renamed hout
      · cases hstep
  | renamed hout => cases hstep

/-- **Every state on the way.** -/
theorem Reaches.progress (h : Reaches visit opened files filePath fileIn s) :
    Progress visit opened files filePath fileIn s := by
  induction h with
  | refl => exact .reading fun out => Iff.rfl
  | tail _ hstep ih => exact ih.step hstep

theorem Reaches.step (h : Reaches visit opened files filePath fileIn s)
    (hstep : s.step visit opened filePath = some s') :
    Reaches visit opened files filePath fileIn s' := ReflTransGen.tail h hstep

/-- A traversal whose visit returns comes to the end of the file. -/
theorem reaches_closed {rest fileOut out : Bytes} (hout : Rewrites visit rest fileOut out)
    (h : Reaches visit opened files filePath fileIn
      ⟨written opened files filePath fileOut, .reading rest⟩) :
    Reaches visit opened files filePath fileIn ⟨written opened files filePath out, .closed⟩ := by
  obtain ⟨fuel, hout⟩ := hout
  induction fuel generalizing rest fileOut with
  | zero => cases hout
  | succ fuel ih =>
      rw [visitLines] at hout
      cases hline : getline rest with
      | none =>
          rw [hline] at hout
          obtain rfl := Option.some.inj hout
          apply h.step
          simp only [Traversal.step, hline]
      | some line =>
          obtain ⟨strLine, rest'⟩ := line
          rw [hline] at hout
          obtain ⟨visited, hvisit, hrest⟩ := Option.bind_eq_some_iff.mp hout
          refine ih (h.step ?_) hrest
          simp only [Traversal.step, hline, hvisit, Option.map_some, append_written,
            List.append_assoc]

theorem reaches_removed {out : Bytes} (hout : Rewrites visit fileIn [] out) :
    Reaches visit opened files filePath fileIn
      ⟨(written opened files filePath out).remove filePath, .removed⟩ :=
  (reaches_closed hout .refl).step rfl

/-- The text is there, as it was or as the visit makes it. -/
def Survives (visit : Bytes → Option Bytes) (filePath : Path) (fileIn : Bytes) (s : Traversal) :
    Prop :=
  s.files filePath = some fileIn ∨ ∃ out, Rewrites visit fileIn [] out ∧
    (s.files filePath = some out ∨ s.files (tempFileName filePath) = some out)

theorem written_self (fileOut : Bytes) :
    written opened files filePath fileOut filePath = files filePath := by
  cases opened with
  | false => rfl
  | true => simp [written, (tempFileName_ne filePath).symm]

theorem written_tempFileName (fileOut : Bytes) :
    written true files filePath fileOut (tempFileName filePath) = some fileOut := by
  simp [written]

theorem rewrite_eq (fileOut : Bytes) :
    ((written true files filePath fileOut).remove filePath).rename (tempFileName filePath)
      filePath = files.rewrite filePath fileOut := rfl

/-- What else there is stays as it is. -/
theorem Progress.files_of_ne (h : Progress visit opened files filePath fileIn s) {path : Path}
    (hpath : path ≠ filePath) (htemp : path ≠ tempFileName filePath) :
    s.files path = files path := by
  have hwritten (fileOut : Bytes) : written opened files filePath fileOut path = files path := by
    cases opened with
    | false => rfl
    | true => simp [written, htemp]
  cases h with
  | reading hrest => exact hwritten _
  | closed hout => exact hwritten _
  | removed hout => simp [Files.remove, hpath, hwritten]
  | renamed hout => simp [Files.rename, Files.remove, hpath, htemp, hwritten]

theorem Progress.survives (h : Progress visit opened files filePath fileIn s)
    (hfile : files filePath = some fileIn)
    (htemp : opened = true ∨
      ∀ out, Rewrites visit fileIn [] out → files (tempFileName filePath) = some out) :
    Survives visit filePath fileIn s := by
  have hkept {out : Bytes} (hout : Rewrites visit fileIn [] out) :
      written opened files filePath out (tempFileName filePath) = some out := by
    rcases htemp with rfl | htemp
    · exact written_tempFileName out
    · cases opened with
      | false => exact htemp out hout
      | true => exact written_tempFileName out
  have hne := tempFileName_ne filePath
  cases h with
  | reading hrest => exact Or.inl ((written_self _).trans hfile)
  | closed hout => exact Or.inl ((written_self _).trans hfile)
  | removed hout =>
      refine Or.inr ⟨_, hout, Or.inr ?_⟩
      simp [Files.remove, hne, hkept hout]
  | renamed hout =>
      refine Or.inr ⟨_, hout, Or.inl ?_⟩
      simp [Files.rename, Files.remove, hne, hne.symm, hkept hout]

/-- **The text survives wherever the traversal is stopped** exactly if the temporary file
    could be opened, unless there was one already with the right text in it. -/
theorem survives_iff (hfile : files filePath = some fileIn) :
    (∀ s, Reaches visit opened files filePath fileIn s → Survives visit filePath fileIn s ∧
      ∀ path, path ≠ filePath → path ≠ tempFileName filePath → s.files path = files path) ↔
      opened = true ∨
        ∀ out, Rewrites visit fileIn [] out → files (tempFileName filePath) = some out := by
  constructor
  · intro hall
    cases opened with
    | true => exact Or.inl rfl
    | false =>
        refine Or.inr fun out hout => ?_
        have hne := tempFileName_ne filePath
        rcases (hall _ (reaches_removed hout)).1 with hself | ⟨out', hout', hself | htemp⟩
        · simp [Files.remove] at hself
        · simp [Files.remove] at hself
        · obtain rfl := hout.unique hout'
          simpa [Files.remove, hne, written] using htemp
  · intro htemp s hs
    exact ⟨hs.progress.survives hfile htemp, fun path => hs.progress.files_of_ne⟩

def exampleFiles : Files := fun path =>
  if path = ascii ['f'] then some (ascii ['a', 'b', 'a']) else none

/-- A temporary file that cannot be opened. -/
theorem survives_iff_unopened :
    exampleFiles (ascii ['f']) = some (ascii ['a', 'b', 'a']) ∧
    ((∀ s, Reaches some false exampleFiles (ascii ['f']) (ascii ['a', 'b', 'a']) s →
        Survives some (ascii ['f']) (ascii ['a', 'b', 'a']) s ∧
        ∀ path, path ≠ ascii ['f'] → path ≠ tempFileName (ascii ['f']) →
          s.files path = exampleFiles path) ↔
      false = true ∨ ∀ out, Rewrites some (ascii ['a', 'b', 'a']) [] out →
        exampleFiles (tempFileName (ascii ['f'])) = some out) :=
  ⟨rfl, survives_iff rfl⟩

theorem traverseFile_eq_ok_iff (hfile : files filePath = some fileIn) {files' : Files} :
    (∃ fuel, traverseFile fuel files filePath visit = some (.ok files')) ↔
      ∃ out, Rewrites visit fileIn [] out ∧ files' = files.rewrite filePath out := by
  constructor
  · rintro ⟨fuel, hreturns⟩
    rw [traverseFile, hfile] at hreturns
    obtain ⟨out, hout, heq⟩ := Option.map_eq_some_iff.mp hreturns
    cases heq
    exact ⟨out, ⟨fuel, hout⟩, rfl⟩
  · rintro ⟨out, ⟨fuel, hout⟩, rfl⟩
    refine ⟨fuel, ?_⟩
    rw [traverseFile, hfile]
    exact Option.map_eq_some_iff.mpr ⟨out, hout, rfl⟩

theorem traverseFile_ne_ok (hfile : files filePath = none) (fuel : Nat) (files' : Files) :
    traverseFile fuel files filePath visit ≠ some (.ok files') := by
  intro hreturns
  rw [traverseFile, hfile] at hreturns
  cases hreturns

/-- **The steps amount to `TraverseFile`**, where the temporary file can be opened. -/
theorem reaches_renamed_iff (hfile : files filePath = some fileIn) {files' : Files} :
    Reaches visit true files filePath fileIn ⟨files', .renamed⟩ ↔
      ∃ fuel, traverseFile fuel files filePath visit = some (.ok files') := by
  rw [traverseFile_eq_ok_iff hfile]
  constructor
  · intro h
    cases h.progress with
    | renamed hout => exact ⟨_, hout, rewrite_eq _⟩
  · rintro ⟨out, hout, rfl⟩
    have hremoved : Reaches visit true files filePath fileIn
        ⟨(written true files filePath out).remove filePath, .removed⟩ := reaches_removed hout
    apply hremoved.step
    have htemp : ((written true files filePath out).remove filePath) (tempFileName filePath) =
        some out := by
      simp [Files.remove, tempFileName_ne, written]
    simp only [step, htemp, rewrite_eq]

/-! ## 3. One traversal after another -/

theorem visitLines_append (fuel : Nat) (front fileOut : Bytes) :
    visitLines visit fuel fileIn (front ++ fileOut) =
      (visitLines visit fuel fileIn fileOut).map (front ++ ·) := by
  induction fuel generalizing fileIn fileOut with
  | zero => rfl
  | succ fuel ih =>
      rw [visitLines, visitLines]
      cases getline fileIn with
      | none => rfl
      | some line =>
          obtain ⟨strLine, rest⟩ := line
          cases hvisit : visit strLine with
          | none => simp [hvisit]
          | some visited =>
              simp only [hvisit, Option.bind_some, List.append_assoc]
              exact ih _

theorem rewrites_append_iff {front out : Bytes} :
    Rewrites visit fileIn front out ↔
      ∃ rest, out = front ++ rest ∧ Rewrites visit fileIn [] rest := by
  have hlines (fuel : Nat) : visitLines visit fuel fileIn (front ++ []) =
      (visitLines visit fuel fileIn []).map (front ++ ·) := visitLines_append fuel front []
  simp only [List.append_nil] at hlines
  constructor
  · rintro ⟨fuel, hout⟩
    rw [hlines] at hout
    obtain ⟨rest, hrest, rfl⟩ := Option.map_eq_some_iff.mp hout
    exact ⟨rest, rfl, fuel, hrest⟩
  · rintro ⟨rest, rfl, fuel, hrest⟩
    refine ⟨fuel, ?_⟩
    rw [hlines, hrest]
    rfl

theorem newline_notMem_of_getline {strLine rest : Bytes}
    (hline : getline fileIn = some (strLine, rest)) : newline ∉ strLine := by
  unfold getline at hline
  split at hline
  · cases hline
  · cases hline
    intro hmem
    have hall := List.all_eq_true.mp List.all_takeWhile newline hmem
    simp at hall

theorem length_lt_of_getline {strLine rest : Bytes}
    (hline : getline fileIn = some (strLine, rest)) : rest.length < fileIn.length := by
  unfold getline at hline
  split at hline
  · cases hline
  · next hne =>
    cases hline
    have hpos := List.length_pos_iff.mpr hne
    have hdrop := (List.dropWhile_sublist (l := fileIn) (· ≠ newline)).length_le
    rw [List.length_drop]
    omega

/-- The first line of what a visit has written. -/
theorem rewrites_line_iff {strLine rest : Bytes} (hline : getline fileIn = some (strLine, rest))
    {out : Bytes} : Rewrites visit fileIn [] out ↔
      ∃ visited out', visit strLine = some visited ∧ out = visited ++ newline :: out' ∧
        Rewrites visit rest [] out' := by
  rw [rewrites_of_getline_some hline]
  constructor
  · rintro ⟨visited, hvisit, h⟩
    obtain ⟨out', rfl, hout'⟩ := rewrites_append_iff.mp h
    exact ⟨visited, out', hvisit, by simp, hout'⟩
  · rintro ⟨visited, out', hvisit, rfl, hout'⟩
    exact ⟨visited, hvisit, rewrites_append_iff.mpr ⟨out', by simp, hout'⟩⟩

section Composition

variable {visit₁ visit₂ : Bytes → Option Bytes}

/-- The lines of the first visit's text are those that it has returned. -/
theorem rewrites_comp_iff (hline : ∀ strLine out, newline ∉ strLine →
      visit₁ strLine = some out → newline ∉ out) {out : Bytes} :
    Rewrites (fun strLine => (visit₁ strLine).bind visit₂) fileIn [] out ↔
      ∃ mid, Rewrites visit₁ fileIn [] mid ∧ Rewrites visit₂ mid [] out := by
  induction hlength : fileIn.length using Nat.strong_induction_on generalizing fileIn out with
  | _ n ih =>
      cases hget : getline fileIn with
      | none =>
          rw [rewrites_of_getline_none hget]
          constructor
          · rintro rfl
            exact ⟨[], (rewrites_of_getline_none hget).mpr rfl, 1, rfl⟩
          · rintro ⟨mid, hmid, hout⟩
            rw [rewrites_of_getline_none hget] at hmid
            subst hmid
            exact (rewrites_of_getline_none rfl).mp hout
      | some line =>
          obtain ⟨strLine, rest⟩ := line
          have hshorter : rest.length < n := hlength ▸ length_lt_of_getline hget
          have hnewline := newline_notMem_of_getline hget
          rw [rewrites_line_iff hget]
          constructor
          · rintro ⟨visited, out', hvisit, rfl, hout'⟩
            obtain ⟨visited₁, hvisit₁, hvisit₂⟩ := Option.bind_eq_some_iff.mp hvisit
            obtain ⟨mid, hmid, hmid'⟩ := (ih rest.length hshorter rfl).mp hout'
            have hfirst := getline_line (hline strLine visited₁ hnewline hvisit₁) mid
            refine ⟨visited₁ ++ newline :: mid, ?_, ?_⟩
            · exact (rewrites_line_iff hget).mpr ⟨visited₁, mid, hvisit₁, rfl, hmid⟩
            · exact (rewrites_line_iff hfirst).mpr ⟨visited, out', hvisit₂, rfl, hmid'⟩
          · rintro ⟨mid, hmid, hout⟩
            obtain ⟨visited₁, mid', hvisit₁, rfl, hmid'⟩ := (rewrites_line_iff hget).mp hmid
            have hfirst := getline_line (hline strLine visited₁ hnewline hvisit₁) mid'
            obtain ⟨visited, out', hvisit₂, rfl, hout'⟩ := (rewrites_line_iff hfirst).mp hout
            have hvisit := Option.bind_eq_some_iff.mpr ⟨visited₁, hvisit₁, hvisit₂⟩
            refine ⟨visited, out', hvisit, rfl, ?_⟩
            exact (ih rest.length hshorter rfl).mpr ⟨mid', hmid', hout'⟩

theorem rewrite_rewrite (mid out : Bytes) :
    (files.rewrite filePath mid).rewrite filePath out = files.rewrite filePath out := by
  funext path
  by_cases hpath : path = filePath
  · subst hpath
    rw [rewrite_self, rewrite_self]
  · by_cases htemp : path = tempFileName filePath
    · subst htemp
      rw [rewrite_tempFileName, rewrite_tempFileName]
    · rw [rewrite_of_ne hpath htemp, rewrite_of_ne hpath htemp, rewrite_of_ne hpath htemp]

/-- A file that is rewritten twice is rewritten once, with both rewritings. -/
theorem rewrite_comp_iff {first second : Files → Prop} {rewrites₁ : Bytes → Prop}
    {rewrites₂ : Bytes → Bytes → Prop} {files' : Files}
    (hfirst : ∀ files₁, first files₁ ↔ ∃ mid, rewrites₁ mid ∧ files₁ = files.rewrite filePath mid)
    (hsecond : ∀ mid, second (files.rewrite filePath mid) ↔ ∃ out, rewrites₂ mid out ∧
      files' = (files.rewrite filePath mid).rewrite filePath out) :
    (∃ files₁, first files₁ ∧ second files₁) ↔
      ∃ out, (∃ mid, rewrites₁ mid ∧ rewrites₂ mid out) ∧ files' = files.rewrite filePath out := by
  constructor
  · rintro ⟨files₁, hone, htwo⟩
    obtain ⟨mid, hmid, rfl⟩ := (hfirst files₁).mp hone
    obtain ⟨out, hout, rfl⟩ := (hsecond mid).mp htwo
    exact ⟨out, ⟨mid, hmid, hout⟩, rewrite_rewrite mid out⟩
  · rintro ⟨out, ⟨mid, hmid, hout⟩, rfl⟩
    refine ⟨files.rewrite filePath mid, (hfirst _).mpr ⟨mid, hmid, rfl⟩, (hsecond mid).mpr ?_⟩
    exact ⟨out, hout, (rewrite_rewrite mid out).symm⟩

/-- **A traversal after a traversal** is one traversal, with the second visit behind the first,
    where the first puts no newline into a line. -/
theorem traverseFile_comp_iff (hline : ∀ strLine out, newline ∉ strLine →
      visit₁ strLine = some out → newline ∉ out) {files' : Files} :
    (∃ fuel, traverseFile fuel files filePath (fun strLine => (visit₁ strLine).bind visit₂) =
        some (.ok files')) ↔
      ∃ mid, (∃ fuel, traverseFile fuel files filePath visit₁ = some (.ok mid)) ∧
        ∃ fuel, traverseFile fuel mid filePath visit₂ = some (.ok files') := by
  cases hfile : files filePath with
  | none =>
      refine iff_of_false ?_ ?_
      · rintro ⟨fuel, hreturns⟩
        exact traverseFile_ne_ok hfile fuel _ hreturns
      · rintro ⟨mid, ⟨fuel, hreturns⟩, -⟩
        exact traverseFile_ne_ok hfile fuel _ hreturns
  | some fileIn =>
      refine Iff.trans ?_ (rewrite_comp_iff (fun _ => traverseFile_eq_ok_iff hfile)
        fun mid => traverseFile_eq_ok_iff (rewrite_self mid)).symm
      rw [traverseFile_eq_ok_iff hfile]
      simp only [rewrites_comp_iff hline]

/-- `a` becomes `bb`, and `b` goes: nothing is left of `aba`. -/
theorem traverseFile_comp_iff_replaceAll :
    ∃ mid, (∃ fuel, traverseFile fuel exampleFiles (ascii ['f']) (fun strLine =>
        some (TextReplacement.replaceAll (ascii ['a']) (ascii ['b', 'b']) strLine)) =
          some (.ok mid)) ∧
      ∃ fuel, traverseFile fuel mid (ascii ['f']) (fun strLine =>
        some (TextReplacement.replaceAll (ascii ['b']) [] strLine)) =
          some (.ok (exampleFiles.rewrite (ascii ['f']) [newline])) := by
  have hline : ∀ strLine out, newline ∉ strLine →
      some (TextReplacement.replaceAll (ascii ['a']) (ascii ['b', 'b']) strLine) = some out →
        newline ∉ out := by
    rintro strLine out hline ⟨⟩
    exact TextReplacement.notMem_replaceAll (by decide) hline
  exact (traverseFile_comp_iff hline).mp ⟨2, rfl⟩

/-- A visit that returns more does not change what is returned. -/
theorem visitLines_mono (hvisit : ∀ strLine out, visit₁ strLine = some out →
      visit₂ strLine = some out) {fuel : Nat} {fileOut out : Bytes}
    (h : visitLines visit₁ fuel fileIn fileOut = some out) :
    visitLines visit₂ fuel fileIn fileOut = some out := by
  induction fuel generalizing fileIn fileOut with
  | zero => cases h
  | succ fuel ih =>
      rw [visitLines] at h ⊢
      cases hline : getline fileIn with
      | none => rwa [hline] at h
      | some line =>
          obtain ⟨strLine, rest⟩ := line
          rw [hline] at h
          obtain ⟨visited, hvisited, hrest⟩ := Option.bind_eq_some_iff.mp h
          exact Option.bind_eq_some_iff.mpr ⟨visited, hvisit _ _ hvisited, ih hrest⟩

end Composition

section FindAndReplace

variable {strFrom strTo strFrom₁ strTo₁ strFrom₂ strTo₂ : Bytes} {files' : Files}

/-- `FindAndReplace` is the traversal that makes all replacements in each line. -/
theorem findAndReplace_eq_ok_iff (hfrom : strFrom ≠ []) (hfile : files filePath = some fileIn) :
    (∃ fuel, findAndReplace fuel files filePath strFrom strTo = some (.ok files')) ↔
      ∃ out, Rewrites (fun strLine => some (TextReplacement.replaceAll strFrom strTo strLine))
        fileIn [] out ∧ files' = files.rewrite filePath out := by
  constructor
  · rintro ⟨fuel, hreturns⟩
    rw [findAndReplace, traverseFile, hfile] at hreturns
    obtain ⟨out, hout, heq⟩ := Option.map_eq_some_iff.mp hreturns
    cases heq
    refine ⟨out, ⟨fuel, visitLines_mono ?_ hout⟩, rfl⟩
    intro strLine visited hvisited
    rw [SReplaceVisit.eq_replaceAll_of_operator hfrom hvisited]
  · rintro ⟨out, hout, rfl⟩
    obtain ⟨strLines, last, rfl, hlines, hlast⟩ := exists_fileText fileIn
    have hrewritten : Rewrites
        (fun strLine => some (TextReplacement.replaceAll strFrom strTo strLine))
        (fileText strLines last) []
        (rewritten (TextReplacement.replaceAll strFrom strTo) strLines last) :=
      ⟨_, visitLines_eq (fun _ _ => rfl) hlines hlast (Nat.le_refl _) (Nat.lt_succ_self _) []⟩
    obtain rfl := hout.unique hrewritten
    exact ⟨_, findAndReplace_eq hfrom hlines hlast hfile (Nat.lt_succ_self _)⟩

/-- **Two calls of `FindAndReplace`** are one traversal that makes both replacements in each
    line, where the first puts no newline in. -/
theorem findAndReplace_comp_iff (hfrom₁ : strFrom₁ ≠ []) (hfrom₂ : strFrom₂ ≠ [])
    (hto : newline ∉ strTo₁) :
    (∃ mid, (∃ fuel, findAndReplace fuel files filePath strFrom₁ strTo₁ = some (.ok mid)) ∧
        ∃ fuel, findAndReplace fuel mid filePath strFrom₂ strTo₂ = some (.ok files')) ↔
      ∃ fuel, traverseFile fuel files filePath (fun strLine =>
        some (TextReplacement.replaceAll strFrom₂ strTo₂
          (TextReplacement.replaceAll strFrom₁ strTo₁ strLine))) = some (.ok files') := by
  cases hfile : files filePath with
  | none =>
      refine iff_of_false ?_ ?_
      · rintro ⟨mid, ⟨fuel, hreturns⟩, -⟩
        exact traverseFile_ne_ok hfile fuel _ hreturns
      · rintro ⟨fuel, hreturns⟩
        exact traverseFile_ne_ok hfile fuel _ hreturns
  | some fileIn =>
      have hline : ∀ strLine out, newline ∉ strLine →
          some (TextReplacement.replaceAll strFrom₁ strTo₁ strLine) = some out →
            newline ∉ out := by
        rintro strLine out hline ⟨⟩
        exact TextReplacement.notMem_replaceAll hto hline
      have hcomp (out : Bytes) :
          Rewrites (fun strLine =>
              (some (TextReplacement.replaceAll strFrom₁ strTo₁ strLine)).bind fun strLine =>
                some (TextReplacement.replaceAll strFrom₂ strTo₂ strLine)) fileIn [] out ↔
            ∃ mid, Rewrites (fun strLine =>
                some (TextReplacement.replaceAll strFrom₁ strTo₁ strLine)) fileIn [] mid ∧
              Rewrites (fun strLine =>
                some (TextReplacement.replaceAll strFrom₂ strTo₂ strLine)) mid [] out :=
        rewrites_comp_iff hline
      refine (rewrite_comp_iff (fun _ => findAndReplace_eq_ok_iff hfrom₁ hfile)
        fun mid => findAndReplace_eq_ok_iff hfrom₂ (rewrite_self mid)).trans ?_
      rw [traverseFile_eq_ok_iff hfile]
      simp only [← hcomp, Option.bind_some]

end FindAndReplace

end Traversal

end MemClient
