import MemClient.LogLoading

/-!
# Which logger info a name gets

`GetLoggerInfo` walks from the end of a name to the left, from dot to dot, until
what stands before the place is a key of both maps.  What carries the walk is that
no longer ancestor of the name is a key of both (`Passed`); where a name starts
with a dot the walk starts over from the right after its last step, and by then
there is nothing left to find, so that it never ends.  That an info stands under
one name only (`Separate`) is kept by loading and by calls of `GetLogger`.
-/

namespace MemClient

open ByteCodec NameHierarchy

namespace LogManager

variable {α : Type} {m : LogManager α}

/-! ## 1. The nearest ancestor -/

/-- Whether a name has an id and a logger info. -/
def InBothMaps (m : LogManager α) (key : Bytes) : Prop :=
  (m.mIdMap.lookup key).isSome ∧ (m.mLoggerInfos.lookup key).isSome

/-- The longest of a name's ancestors that both maps have. -/
structure IsNearest (m : LogManager α) (p name : Bytes) : Prop where
  ancestor : IsAncestor dot p name
  inBothMaps : m.InBothMaps p
  longest : ∀ q, IsAncestor dot q name → m.InBothMaps q → q.length ≤ p.length

theorem registered_eq_some_iff {key : Bytes} {p : Nat} :
    m.registered key = some p ↔ m.InBothMaps key ∧ m.mLoggerInfos.lookup key = some p := by
  unfold registered InBothMaps
  cases hid : m.mIdMap.lookup key with
  | none => simp
  | some id =>
      simp only [Option.isSome_some, if_true, true_and]
      exact ⟨fun h => ⟨h ▸ rfl, h⟩, fun h => h.2⟩

theorem registered_eq_none_iff {key : Bytes} : m.registered key = none ↔ ¬ m.InBothMaps key := by
  constructor
  · intro hnone hboth
    obtain ⟨p, hp⟩ := Option.isSome_iff_exists.mp hboth.2
    rw [registered_eq_some_iff.mpr ⟨hboth, hp⟩] at hnone
    cases hnone
  · intro hboth
    rw [Option.eq_none_iff_forall_ne_some]
    intro p hp
    exact hboth (registered_eq_some_iff.mp hp).1

/-! ## 2. The walk -/

/-- `find_last_of` gives the last dot up to a position. -/
theorem isGreatest_findLastOf {name : Bytes} {pos i : Nat} (hi : findLastOf name pos = some i) :
    IsGreatest {j | j ≤ pos ∧ name[j]? = some dot} i := by
  obtain ⟨hdot, later, earlier, hsplit, hlater⟩ := List.find?_eq_some_iff_append.mp hi
  rw [Bool.and_eq_true, decide_eq_true_eq, beq_iff_eq] at hdot
  refine ⟨hdot, ?_⟩
  rintro j ⟨hle, hget⟩
  have hmem : j ∈ later ++ i :: earlier := by
    rw [← hsplit, List.mem_reverse, List.mem_range]
    exact (List.getElem?_eq_some_iff.mp hget).1
  have horder : (later ++ i :: earlier).Pairwise (· > ·) := by
    rw [← hsplit, List.pairwise_reverse]
    exact List.pairwise_lt_range
  rcases List.mem_append.mp hmem with hj | hj
  · have hnot := hlater j hj
    simp [hle, hget] at hnot
  · rcases List.mem_cons.mp hj with rfl | hj
    · exact Nat.le_refl _
    · have hsuffix := (List.pairwise_append.mp horder).2.1
      exact Nat.le_of_lt ((List.pairwise_cons.mp hsuffix).1 j hj)

theorem not_dot_of_findLastOf {name : Bytes} {pos : Nat} (hnone : findLastOf name pos = none)
    {j : Nat} (hle : j ≤ pos) : name[j]? ≠ some dot := by
  intro hget
  have hmem : j ∈ (List.range name.length).reverse := by
    rw [List.mem_reverse, List.mem_range]
    exact (List.getElem?_eq_some_iff.mp hget).1
  have hnot := List.find?_eq_none.mp hnone j hmem
  simp [hle, hget] at hnot

/-- No ancestor of the name that ends right of the position is in both maps. -/
def Passed (m : LogManager α) (name : Bytes) (lastPos : Nat) : Prop :=
  ∀ q, IsAncestor dot q name → m.InBothMaps q → q.length ≤ lastPos

section Walk

variable {name : Bytes} {lastPos : Nat}

theorem passed_length (m : LogManager α) (name : Bytes) : Passed m name name.length :=
  fun _ hq _ => hq.isPrefix.length_le

/-- What is found with nothing left right of it is the nearest. -/
theorem Passed.isNearest (hpassed : Passed m name lastPos) (hpos : IsBoundary dot name lastPos)
    (hboth : m.InBothMaps (name.take lastPos)) : m.IsNearest (name.take lastPos) name where
  ancestor := hpos.isAncestor
  inBothMaps := hboth
  longest := by
    rw [hpos.length_take]
    exact hpassed

/-- An ancestor in both maps that does not end right of a position where the walk
    found none ends left of it, and a dot follows it. -/
theorem lt_of_not_inBothMaps (hpos : IsBoundary dot name lastPos)
    (hboth : ¬ m.InBothMaps (name.take lastPos)) {q : Bytes} (hq : IsAncestor dot q name)
    (hqboth : m.InBothMaps q) (hle : q.length ≤ lastPos) :
    q.length < lastPos ∧ name[q.length]? = some dot := by
  have hlt : q.length < lastPos := by
    apply Nat.lt_of_le_of_ne hle
    intro hlength
    have heq := hq.eq_of_length hpos.isAncestor (hlength.trans hpos.length_take.symm)
    exact hboth (heq ▸ hqboth)
  refine ⟨hlt, hq.isBoundary.resolve_left ?_⟩
  exact Nat.ne_of_lt (Nat.lt_of_lt_of_le hlt hpos.le)

theorem le_before {n : Nat} (hlt : n < lastPos) : n ≤ before lastPos := by
  unfold before
  split <;> omega

/-- **One round of the walk** passes nothing that is in both maps.  At position 0
    nothing is left, so what `find_last_of` does there with `npos` is no matter. -/
theorem Passed.next (hpassed : Passed m name lastPos) (hpos : IsBoundary dot name lastPos)
    (hboth : ¬ m.InBothMaps (name.take lastPos)) {pos : Nat}
    (hnext : findLastOf name (before lastPos) = some pos) :
    Passed m name pos ∧ IsBoundary dot name pos := by
  have hgreatest := isGreatest_findLastOf hnext
  refine ⟨?_, Or.inr hgreatest.1.2⟩
  intro q hq hqboth
  obtain ⟨hlt, hdot⟩ := lt_of_not_inBothMaps hpos hboth hq hqboth (hpassed q hq hqboth)
  exact hgreatest.2 ⟨le_before hlt, hdot⟩

/-- Where the walk ends without an info there is none to find. -/
theorem Passed.stop (hpassed : Passed m name lastPos) (hpos : IsBoundary dot name lastPos)
    (hboth : ¬ m.InBothMaps (name.take lastPos))
    (hnext : findLastOf name (before lastPos) = none) {q : Bytes} (hq : IsAncestor dot q name) :
    ¬ m.InBothMaps q := by
  intro hqboth
  obtain ⟨hlt, hdot⟩ := lt_of_not_inBothMaps hpos hboth hq hqboth (hpassed q hq hqboth)
  exact not_dot_of_findLastOf hnext (le_before hlt) hdot

/-- **A whole walk** that ends. -/
theorem Passed.loop {found : Option Nat} : ∀ {fuel lastPos : Nat}, Passed m name lastPos →
    IsBoundary dot name lastPos → m.getLoggerInfoLoop name fuel lastPos = some found →
    (∃ p pInfo, m.IsNearest p name ∧ m.mLoggerInfos.lookup p = some pInfo ∧ found = some pInfo) ∨
      (∀ q, IsAncestor dot q name → ¬ m.InBothMaps q) ∧ found = none := by
  intro fuel
  induction fuel with
  | zero =>
      intro lastPos _ _ hloop
      cases hloop
  | succ fuel ih =>
      intro lastPos hpassed hpos hloop
      unfold getLoggerInfoLoop at hloop
      split at hloop
      · next pInfo hfound =>
        obtain ⟨hboth, hlookup⟩ := registered_eq_some_iff.mp hfound
        exact Or.inl ⟨_, pInfo, hpassed.isNearest hpos hboth, hlookup,
          (Option.some.inj hloop).symm⟩
      · next hnone =>
        have hboth := registered_eq_none_iff.mp hnone
        split at hloop
        · next pos hnext =>
          obtain ⟨hpassed', hpos'⟩ := hpassed.next hpos hboth hnext
          exact ih hpassed' hpos' hloop
        · next hnext =>
          exact Or.inr ⟨fun q hq => hpassed.stop hpos hboth hnext hq,
            (Option.some.inj hloop).symm⟩

end Walk

/-! ## 3. Infos of their own -/

/-- Each info stands under one name, and the root logger's under the root's. -/
structure Separate (m : LogManager α) : Prop extends Allocated m where
  unique : ∀ name other p, m.mLoggerInfos.lookup name = some p →
    m.mLoggerInfos.lookup other = some p → name = other
  rootOnly : ∀ name p, m.mRootInfo = some p → m.mLoggerInfos.lookup name = some p →
    name = rootName

/-- What `LoadLogger` knows of the info it configures: no other name has it. -/
structure Unshared (m : LogManager α) (strName : Bytes) (p : Nat) : Prop where
  lt : p < m.infos.length
  sole : ∀ name, m.mLoggerInfos.lookup name = some p → name = strName
  rootOnly : m.mRootInfo = some p → strName = rootName

theorem separate_init : Separate (init : LogManager α) where
  toAllocated := loaded_init.toAllocated
  unique name other p h := by cases h
  rootOnly name p h := by cases h

theorem Separate.newInfo (hsep : Separate m) (info : LoggerInfo α) : Separate (m.newInfo info) :=
  ⟨hsep.toAllocated.newInfo info, hsep.unique, hsep.rootOnly⟩

/-- No name has the info that is allocated next. -/
theorem Allocated.fresh (halloc : Allocated m) {name : Bytes} :
    m.mLoggerInfos.lookup name ≠ some m.infos.length :=
  fun h => Nat.lt_irrefl _ (halloc.loggers name _ h)

theorem Separate.unshared_newInfo (hsep : Separate m) (info : LoggerInfo α) (strName : Bytes) :
    Unshared (m.newInfo info) strName m.infos.length where
  lt := length_newInfo m info ▸ Nat.lt_succ_self _
  sole _ h := absurd h hsep.toAllocated.fresh
  rootOnly h := absurd (hsep.root _ h) (Nat.lt_irrefl _)

theorem Separate.rootInfo (hsep : Separate m) :
    Separate m.rootInfo.2 ∧ Unshared m.rootInfo.2 rootName m.rootInfo.1 := by
  obtain ⟨halloc, hlt⟩ := hsep.toAllocated.rootInfo
  unfold LogManager.rootInfo at halloc hlt ⊢
  cases hroot : m.mRootInfo with
  | some p => exact ⟨hsep, hsep.root p hroot, fun name => hsep.rootOnly name p hroot, fun _ => rfl⟩
  | none =>
      rw [hroot] at halloc hlt
      refine ⟨⟨halloc, hsep.unique, ?_⟩, hlt, ?_, fun _ => rfl⟩
      · intro name p hp hname
        obtain rfl := Option.some.inj hp
        exact absurd hname hsep.toAllocated.fresh
      · intro name hname
        exact absurd hname hsep.toAllocated.fresh

theorem mLoggerInfos_rootInfo (m : LogManager α) :
    m.rootInfo.2.mLoggerInfos = m.mLoggerInfos := by
  unfold LogManager.rootInfo
  cases m.mRootInfo <;> rfl

theorem Separate.modifyInfo (hsep : Separate m) (p : Nat) (f : LoggerInfo α → LoggerInfo α) :
    Separate (m.modifyInfo p f) :=
  ⟨hsep.toAllocated.modifyInfo p f, hsep.unique, hsep.rootOnly⟩

theorem Unshared.modifyInfo {strName : Bytes} {p : Nat} (hunshared : Unshared m strName p)
    (q : Nat) (f : LoggerInfo α → LoggerInfo α) : Unshared (m.modifyInfo q f) strName p := by
  exact ⟨length_modifyInfo m q f ▸ hunshared.lt, hunshared.sole, hunshared.rootOnly⟩

theorem Separate.insertLogger (hsep : Separate m) {strName : Bytes} {p : Nat}
    (hunshared : Unshared m strName p) :
    Separate { m with mLoggerInfos := UnorderedMap.insertNew m.mLoggerInfos strName p } := by
  refine ⟨hsep.toAllocated.insertLogger hunshared.lt strName, ?_, ?_⟩
  · intro name other q hname hother
    rcases lookup_insertNew_cases hname with hold | ⟨rfl, rfl⟩ <;>
      rcases lookup_insertNew_cases hother with hold' | ⟨rfl, hq⟩
    · exact hsep.unique name other q hold hold'
    · exact hunshared.sole name (hq ▸ hold)
    · exact (hunshared.sole other hold').symm
    · rfl
  · intro name q hroot hname
    rcases lookup_insertNew_cases hname with hold | ⟨rfl, rfl⟩
    · exact hsep.rootOnly name q hroot hold
    · exact hunshared.rootOnly hroot

theorem loadInvariant_separate : LoadInvariant (α := α) Separate Unshared where
  nextFile hsep := ⟨⟨hsep.loggers, hsep.root, hsep.sinks⟩, hsep.unique, hsep.rootOnly⟩
  insertId hsep _ _ _ _ := ⟨⟨hsep.loggers, hsep.root, hsep.sinks⟩, hsep.unique, hsep.rootOnly⟩
  rootInfo hsep := hsep.rootInfo
  newInfo hsep _ _ := ⟨hsep.newInfo _, hsep.unshared_newInfo _ _⟩
  modifyInfo hsep p _ _ := hsep.modifyInfo p _
  modifyEntered hunshared q _ _ := hunshared.modifyInfo q _
  insertLogger hsep hunshared := hsep.insertLogger hunshared
  newSink hsep name := ⟨hsep.toAllocated.newSink name, hsep.unique, hsep.rootOnly⟩
  insertSink hsep hs name filter :=
    ⟨hsep.toAllocated.insertSink hs name filter, hsep.unique, hsep.rootOnly⟩

/-! ## 4. Lookups -/

/-- Only the sinks' filters change. -/
theorem addFilters_frame (sinks : List Nat) (filt1 filt2 : LogFilter α) (m : LogManager α) :
    (m.addFilters sinks filt1 filt2).infos = m.infos ∧
      (m.addFilters sinks filt1 filt2).mLoggerInfos = m.mLoggerInfos ∧
      (m.addFilters sinks filt1 filt2).mRootInfo = m.mRootInfo ∧
      (m.addFilters sinks filt1 filt2).mSinks = m.mSinks ∧
      (m.addFilters sinks filt1 filt2).mSinkInfoPool.length = m.mSinkInfoPool.length := by
  induction sinks generalizing m with
  | nil => exact ⟨rfl, rfl, rfl, rfl, rfl⟩
  | cons s sinks ih =>
      obtain ⟨hinfos, hloggers, hroot, hsinks, hlength⟩ :=
        ih (m.modifySink s fun sink => sink.addFilter filt1 filt2)
      exact ⟨hinfos, hloggers, hroot, hsinks, hlength.trans (length_modifySink ..)⟩

/-- What opening a logger leaves as it is. -/
theorem openLogger_frame (m : LogManager α) (p : Nat) :
    (m.openLogger p).infos.length = m.infos.length ∧
      (m.openLogger p).mLoggerInfos = m.mLoggerInfos ∧
      (m.openLogger p).mRootInfo = m.mRootInfo ∧
      (m.openLogger p).mSinks = m.mSinks ∧
      (m.openLogger p).mSinkInfoPool.length = m.mSinkInfoPool.length := by
  obtain ⟨hinfos, hrest⟩ := addFilters_frame (m.info p).SinkInfos
    (isInRange (m.info p).Id (m.info p).nextId) (m.info p).Filter (m.makeLogger p)
  refine ⟨?_, hrest⟩
  unfold openLogger
  rw [hinfos]
  exact length_modifyInfo ..

theorem Allocated.openLogger (halloc : Allocated m) (p : Nat) : Allocated (m.openLogger p) := by
  obtain ⟨hcount, hloggers, hroot, hsinks, hlength⟩ := openLogger_frame m p
  refine ⟨?_, ?_, ?_⟩
  · intro name q hq
    rw [hcount]
    exact halloc.loggers name q (hloggers ▸ hq)
  · intro q hq
    rw [hcount]
    exact halloc.root q (hroot ▸ hq)
  · intro name s hs
    rw [hlength]
    exact halloc.sinks name s (hsinks ▸ hs)

section Lookups

variable {setup : LogSetup α} {fuel : Nat} {name : Bytes} {pInfo : Nat} {m' : LogManager α}

theorem Separate.openLogger (hsep : Separate m) (p : Nat) : Separate (m.openLogger p) := by
  obtain ⟨-, hloggers, hroot, -, -⟩ := openLogger_frame m p
  refine ⟨hsep.toAllocated.openLogger p, ?_, ?_⟩
  · rw [hloggers]
    exact hsep.unique
  · rw [hloggers, hroot]
    exact hsep.rootOnly

/-- What a lookup that returns gives. -/
theorem getLoggerInfo_cases (hcall : m.getLoggerInfo fuel name = some (pInfo, m')) :
    (∃ p, m.IsNearest p name ∧ m.mLoggerInfos.lookup p = some pInfo ∧ m' = m) ∨
      (∀ p, IsAncestor dot p name → ¬ m.InBothMaps p) ∧ (pInfo, m') = m.rootInfo := by
  obtain ⟨found, hloop, hresult⟩ := Option.map_eq_some_iff.mp hcall
  rcases (passed_length m name).loop (Or.inl rfl) hloop with
    ⟨p, q, hnearest, hlookup, rfl⟩ | ⟨hnone, rfl⟩
  · obtain ⟨rfl, rfl⟩ := Prod.mk.inj hresult
    exact Or.inl ⟨p, hnearest, hlookup, rfl⟩
  · exact Or.inr ⟨hnone, hresult.symm⟩

theorem Separate.getLogger (hsep : Separate m)
    (hcall : m.getLogger fuel name = some (pInfo, m')) : Separate m' := by
  obtain ⟨⟨p, m₁⟩, hfound, hresult⟩ := Option.map_eq_some_iff.mp hcall
  obtain ⟨rfl, rfl⟩ := Prod.mk.inj hresult
  have hsep₁ : Separate m₁ := by
    rcases getLoggerInfo_cases hfound with ⟨-, -, -, rfl⟩ | ⟨-, hroot⟩
    · exact hsep
    · obtain ⟨-, rfl⟩ := Prod.mk.inj hroot
      exact hsep.rootInfo.1
  split
  · exact hsep₁.openLogger p
  · exact hsep₁

/-- The managers that loads of configuration files and calls for loggers lead to,
    in any order.  A load that throws leaves what it entered up to there. -/
inductive Reachable (setup : LogSetup α) : LogManager α → Prop
  | init : Reachable setup init
  | Initialize {m : LogManager α} (configs : List ConfigFile) :
      Reachable setup m → Reachable setup (after (Initialize setup configs) m)
  | GetLogger {m m' : LogManager α} {fuel : Nat} {name : Bytes} {pInfo : Nat} :
      Reachable setup m → m.getLogger fuel name = some (pInfo, m') → Reachable setup m'

theorem Reachable.separate (hreach : Reachable setup m) : Separate m := by
  induction hreach with
  | init => exact separate_init
  | Initialize configs _ ih => exact loadInvariant_separate.Initialize setup configs ih
  | GetLogger _ hcall ih => exact ih.getLogger hcall

/-- **The info that a lookup returns** is that of the longest ancestor of the name
    which both maps have, and the root logger's where they have none; it is never
    one that stands under a name which is no ancestor, but for the root logger's,
    which may have been configured under the root's name. -/
theorem getLoggerInfo_nearest (hreach : Reachable setup m)
    (hcall : m.getLoggerInfo fuel name = some (pInfo, m')) :
    ((∃ p, m.IsNearest p name ∧ m.mLoggerInfos.lookup p = some pInfo ∧ m' = m) ∨
      (∀ p, IsAncestor dot p name → ¬ m.InBothMaps p) ∧ (pInfo, m') = m.rootInfo) ∧
    ∀ other, m.mLoggerInfos.lookup other = some pInfo →
      IsAncestor dot other name ∨ other = rootName ∧ (pInfo, m') = m.rootInfo := by
  have hresult := getLoggerInfo_cases hcall
  refine ⟨hresult, ?_⟩
  intro other hother
  rcases hresult with ⟨p, hnearest, hlookup, -⟩ | ⟨-, hroot⟩
  · rw [hreach.separate.unique other p pInfo hother hlookup]
    exact Or.inl hnearest.ancestor
  · refine Or.inr ⟨?_, hroot⟩
    obtain ⟨rfl, rfl⟩ := Prod.mk.inj hroot
    apply hreach.separate.rootInfo.2.sole other
    rwa [mLoggerInfos_rootInfo]

theorem getLoggerInfo_nearest_feeder :
    ∃ m : LogManager Nat, Reachable severitySetup m ∧
      m.getLoggerInfo 2 (feeder ++ dot :: feedSource ++ [dot]) = some (0, m) ∧
      ((∃ p, m.IsNearest p (feeder ++ dot :: feedSource ++ [dot]) ∧
          m.mLoggerInfos.lookup p = some 0 ∧ m = m) ∨
        (∀ p, IsAncestor dot p (feeder ++ dot :: feedSource ++ [dot]) → ¬ m.InBothMaps p) ∧
          (0, m) = m.rootInfo) ∧
      ∀ other, m.mLoggerInfos.lookup other = some 0 →
        IsAncestor dot other (feeder ++ dot :: feedSource ++ [dot]) ∨
          other = rootName ∧ (0, m) = m.rootInfo := by
  have hreach : Reachable severitySetup
      (after (Initialize severitySetup [.settings feederLog]) init) :=
    Reachable.init.Initialize [.settings feederLog]
  -- The second round of the walk looks up the name before its last dot.
  have hloop : (after (Initialize severitySetup [.settings feederLog]) init).getLoggerInfoLoop
      (feeder ++ dot :: feedSource ++ [dot]) 2 18 = some (some 0) := by decide
  have hcall : (after (Initialize severitySetup [.settings feederLog]) init).getLoggerInfo 2
      (feeder ++ dot :: feedSource ++ [dot]) =
        some (0, after (Initialize severitySetup [.settings feederLog]) init) :=
    Option.map_eq_some_iff.mpr ⟨some 0, hloop, rfl⟩
  exact ⟨_, hreach, hcall, getLoggerInfo_nearest hreach hcall⟩

end Lookups

/-! ## 5. Lookups that end -/

section Termination

variable {name : Bytes} {lastPos : Nat}

/-- A walk over a name that starts with a dot and has nothing to be found goes on for
    ever: from position 0 it starts over at the last dot. -/
theorem getLoggerInfoLoop_eq_none (hdot : name.head? = some dot)
    (hnothing : ∀ p, IsAncestor dot p name → ¬ m.InBothMaps p) {fuel : Nat}
    (hpos : IsBoundary dot name lastPos) : m.getLoggerInfoLoop name fuel lastPos = none := by
  induction fuel generalizing lastPos with
  | zero => rfl
  | succ fuel ih =>
      have hunregistered := registered_eq_none_iff.mpr (hnothing _ hpos.isAncestor)
      rw [getLoggerInfoLoop, hunregistered]
      cases hnext : findLastOf name (before lastPos) with
      | none =>
          rw [List.head?_eq_getElem?] at hdot
          exact absurd hdot (not_dot_of_findLastOf hnext (Nat.zero_le _))
      | some pos => exact ih (Or.inr (isGreatest_findLastOf hnext).1.2)

/-- An ancestor that both maps have and that the walk has not passed yet. -/
def Ahead (m : LogManager α) (name : Bytes) (lastPos : Nat) : Prop :=
  ∃ p, IsAncestor dot p name ∧ m.InBothMaps p ∧ p.length ≤ lastPos

/-- Where nothing is found, what is ahead stays ahead of the next position. -/
theorem Ahead.next (hahead : Ahead m name lastPos) (hpos : IsBoundary dot name lastPos)
    (hboth : ¬ m.InBothMaps (name.take lastPos)) {pos : Nat}
    (hnext : findLastOf name (before lastPos) = some pos) :
    Ahead m name pos ∧ 0 < lastPos := by
  obtain ⟨p, hp, hpboth, hle⟩ := hahead
  obtain ⟨hlt, hdot⟩ := lt_of_not_inBothMaps hpos hboth hp hpboth hle
  refine ⟨⟨p, hp, hpboth, ?_⟩, Nat.zero_lt_of_lt hlt⟩
  exact (isGreatest_findLastOf hnext).2 ⟨le_before hlt, hdot⟩

/-- Before position 0 the positions go down. -/
theorem lt_of_findLastOf {pos : Nat} (hlast : 0 < lastPos)
    (hnext : findLastOf name (before lastPos) = some pos) : pos < lastPos := by
  have hle := (isGreatest_findLastOf hnext).1.1
  rw [before, if_neg (Nat.ne_of_gt hlast)] at hle
  omega

/-- A walk with something ahead ends, and so does one over a name that does not
    start with a dot, since it never comes to position 0. -/
theorem exists_getLoggerInfoLoop (hpos : IsBoundary dot name lastPos)
    (hends : name.head? ≠ some dot ∨ Ahead m name lastPos) :
    ∃ fuel found, m.getLoggerInfoLoop name fuel lastPos = some found := by
  induction lastPos using Nat.strong_induction_on with
  | _ lastPos ih =>
      cases hfound : m.registered (name.take lastPos) with
      | some pInfo => exact ⟨1, some pInfo, by rw [getLoggerInfoLoop, hfound]⟩
      | none =>
          have hboth := registered_eq_none_iff.mp hfound
          cases hnext : findLastOf name (before lastPos) with
          | none =>
              refine ⟨1, none, ?_⟩
              rw [getLoggerInfoLoop, hfound]
              simp only [hnext]
          | some pos =>
              have hpos' : IsBoundary dot name pos := Or.inr (isGreatest_findLastOf hnext).1.2
              have hstep : 0 < lastPos ∧ (name.head? ≠ some dot ∨ Ahead m name pos) := by
                rcases hends with hhead | hahead
                · refine ⟨Nat.pos_of_ne_zero ?_, Or.inl hhead⟩
                  rintro rfl
                  rcases hpos with hnil | hdot
                  · rw [List.eq_nil_of_length_eq_zero hnil.symm] at hnext
                    cases hnext
                  · exact hhead (List.head?_eq_getElem?.trans hdot)
                · obtain ⟨hahead', hlast⟩ := hahead.next hpos hboth hnext
                  exact ⟨hlast, Or.inr hahead'⟩
              obtain ⟨fuel, found, hloop⟩ := ih pos (lt_of_findLastOf hstep.1 hnext) hpos' hstep.2
              refine ⟨fuel + 1, found, ?_⟩
              rw [getLoggerInfoLoop, hfound]
              simp only [hnext]
              exact hloop

/-- **A lookup ends** exactly when the name does not start with a dot or one of its
    ancestors is in both maps. -/
theorem getLoggerInfo_returns_iff (m : LogManager α) (name : Bytes) :
    (∃ fuel, (m.getLoggerInfo fuel name).isSome) ↔
      name.head? ≠ some dot ∨ ∃ p, IsAncestor dot p name ∧ m.InBothMaps p := by
  constructor
  · rintro ⟨fuel, hreturned⟩
    by_contra hneither
    obtain ⟨hdot, hnothing⟩ := not_or.mp hneither
    have hloop : m.getLoggerInfoLoop name fuel name.length = none := by
      apply getLoggerInfoLoop_eq_none (not_not.mp hdot)
      · exact fun p hp hboth => hnothing ⟨p, hp, hboth⟩
      · exact Or.inl rfl
    rw [getLoggerInfo, hloop] at hreturned
    cases hreturned
  · intro hends
    have hahead : name.head? ≠ some dot ∨ Ahead m name name.length := by
      apply hends.imp_right
      rintro ⟨p, hp, hboth⟩
      exact ⟨p, hp, hboth, hp.isPrefix.length_le⟩
    obtain ⟨fuel, found, hloop⟩ := exists_getLoggerInfoLoop (Or.inl rfl) hahead
    exact ⟨fuel, by rw [getLoggerInfo, hloop]; rfl⟩

/-- On a new manager the lookup of a lone dot does not end. -/
theorem getLoggerInfo_dot_never_returns :
    ¬ ∃ fuel, ((init : LogManager Nat).getLoggerInfo fuel [dot]).isSome := by
  rintro ⟨fuel, hreturned⟩
  have hloop : (init : LogManager Nat).getLoggerInfoLoop [dot] fuel 1 = none :=
    getLoggerInfoLoop_eq_none rfl (fun _ _ hboth => Bool.noConfusion hboth.1) (Or.inl rfl)
  rw [getLoggerInfo, show [dot].length = 1 from rfl, hloop] at hreturned
  cases hreturned

end Termination

end LogManager

end MemClient
