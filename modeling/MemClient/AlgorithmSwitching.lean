import MemClient.ServerList

/-!
# Switching the distribution algorithm

What the object given to `SetDistributeAlgorithm` holds afterwards.  The object
that is installed already is filled and then cleared, so it ends up empty
(section 2).  A `ModuloDistri` is not cleared when it is replaced, so installing it
again adds the list to what it held then (section 3).
-/

namespace MemClient

open ByteCodec EventRun

/-! ## 1. Filling an object -/

namespace DistributeAlgorithm

variable {P : Platform} {a : DistributeAlgorithm} {servers : List ServerItem}

/-- The object holds the servers of the list and no others.  A ring holds a server
    that owns a point. -/
def HoldsExactly (a : DistributeAlgorithm) (servers : List ServerItem) : Prop :=
  match a with
  | .consistentHashDistri ring =>
      ∀ server, (∃ p, ring.mCircle.find? p = some server) ↔ server ∈ servers
  | .memoDistri memo =>
      memo.servers.Perm servers ∧ ∀ server ∈ memo.mKeyServerMapping.values, server ∈ servers
  | .moduloDistri modulo => modulo.mServers.Perm servers

theorem HoldsExactly.holds (h : a.HoldsExactly servers) {server : ServerItem}
    (hmem : server ∈ servers) : a.Holds server := by
  cases a with
  | consistentHashDistri ring => exact (h server).mpr hmem
  | memoDistri memo => exact Or.inl (h.1.mem_iff.mpr hmem)
  | moduloDistri modulo => exact h.mem_iff.mpr hmem

theorem HoldsExactly.perm {servers' : List ServerItem} (h : a.HoldsExactly servers)
    (hperm : servers.Perm servers') : a.HoldsExactly servers' := by
  cases a with
  | consistentHashDistri ring => exact fun server => (h server).trans hperm.mem_iff
  | memoDistri memo =>
      exact ⟨h.1.trans hperm, fun server hvalue => hperm.mem_iff.mp (h.2 server hvalue)⟩
  | moduloDistri modulo => exact h.trans hperm

theorem holdsExactly_nil (hempty : ∀ server, ¬ a.Holds server) : a.HoldsExactly [] := by
  cases a with
  | consistentHashDistri ring =>
      intro server
      exact iff_of_false (hempty server) List.not_mem_nil
  | memoDistri memo =>
      refine ⟨?_, fun server hvalue => absurd (Or.inr hvalue) (hempty server)⟩
      rw [List.perm_nil]
      exact List.eq_nil_iff_forall_not_mem.mpr fun server hmem => hempty server (Or.inl hmem)
  | moduloDistri modulo =>
      show modulo.mServers.Perm []
      rw [List.perm_nil]
      exact List.eq_nil_iff_forall_not_mem.mpr hempty

theorem HoldsExactly.isEmpty_eq_false (h : a.HoldsExactly servers) (hne : servers ≠ []) :
    a.isEmpty = false := by
  obtain ⟨server, hmem⟩ := List.exists_mem_of_ne_nil _ hne
  cases a with
  | consistentHashDistri ring =>
      obtain ⟨p, hp⟩ := (h server).mpr hmem
      exact List.isEmpty_eq_false_iff.mpr
        (List.ne_nil_of_mem (ring.mCircle.find?_eq_some_iff.mp hp))
  | memoDistri memo =>
      obtain ⟨info, hinfo, -⟩ := List.mem_map.mp (h.1.mem_iff.mpr hmem)
      exact List.isEmpty_eq_false_iff.mpr (List.ne_nil_of_mem hinfo)
  | moduloDistri modulo =>
      exact List.isEmpty_eq_false_iff.mpr (List.ne_nil_of_mem (h.mem_iff.mpr hmem))

/-- Filled with the servers in this order, a ring gives the server a point that no
    later server takes. -/
def Visible (md5 : Bytes → HexDigest) (replis : BitVec 32) (order : List ServerItem)
    (server : ServerItem) : Prop :=
  ∃ before after, order = before ++ server :: after ∧
    ∃ p ∈ ConsistentHashDistri.points md5 replis server,
      ∀ later ∈ after, p ∉ ConsistentHashDistri.points md5 replis later

theorem foldl_add_ring (ring : ConsistentHashDistri) :
    servers.foldl (fun a server => add P a server) (.consistentHashDistri ring) =
      .consistentHashDistri (servers.foldl (ConsistentHashDistri.add P.md5) ring) :=
  List.foldl_hom consistentHashDistri fun _ _ => rfl

theorem foldl_add_memo (memo : MemoDistri) :
    servers.foldl (fun a server => add P a server) (.memoDistri memo) =
      .memoDistri (servers.foldl (MemoDistri.add P.heap) memo) :=
  List.foldl_hom memoDistri fun _ _ => rfl

theorem foldl_add_modulo (modulo : ModuloDistri) :
    servers.foldl (fun a server => add P a server) (.moduloDistri modulo) =
      .moduloDistri ⟨modulo.mServers ++ servers⟩ := by
  induction servers generalizing modulo with
  | nil => simp
  | cons server servers ih =>
      rw [List.foldl_cons]
      show servers.foldl _ (moduloDistri (modulo.add server)) = _
      rw [ih]
      simp [ModuloDistri.add]

theorem mReplications_foldl_add (md5 : Bytes → HexDigest) (ring : ConsistentHashDistri) :
    (servers.foldl (ConsistentHashDistri.add md5) ring).mReplications = ring.mReplications := by
  induction servers generalizing ring with
  | nil => rfl
  | cons server servers ih => exact ih (ring.add md5 server)

/-- A point belongs to the last server added that has it. -/
theorem find?_foldl_add (md5 : Bytes → HexDigest) (ring : ConsistentHashDistri) (p : HashT) :
    (servers.foldl (ConsistentHashDistri.add md5) ring).mCircle.find? p =
      (servers.reverse.find? fun server =>
        decide (p ∈ ConsistentHashDistri.points md5 ring.mReplications server)).or
        (ring.mCircle.find? p) := by
  induction servers using List.reverseRecOn with
  | nil => rfl
  | append_singleton servers server ih =>
      rw [List.foldl_append, List.foldl_cons, List.foldl_nil, ConsistentHashDistri.find?_add,
        mReplications_foldl_add, List.reverse_append, List.reverse_singleton, List.singleton_append,
        List.find?_cons]
      split
      · next hp => simp [hp]
      · next hp => simp [hp, ih]

theorem holds_foldl_ring {md5 : Bytes → HexDigest} {ring : ConsistentHashDistri}
    (hempty : ∀ p, ring.mCircle.find? p = none) {server : ServerItem} :
    (∃ p, (servers.foldl (ConsistentHashDistri.add md5) ring).mCircle.find? p = some server) ↔
      Visible md5 ring.mReplications servers server := by
  simp only [find?_foldl_add, hempty, Option.or_none, List.find?_eq_some_iff_append]
  constructor
  · rintro ⟨p, hp, after, before, hsplit, hafter⟩
    refine ⟨before.reverse, after.reverse, ?_, p, by simpa using hp, ?_⟩
    · rw [← List.reverse_reverse servers, hsplit]
      simp
    · intro later hlater
      simpa using hafter later (List.mem_reverse.mp hlater)
  · rintro ⟨before, after, rfl, p, hp, hafter⟩
    refine ⟨p, by simpa using hp, after.reverse, before.reverse, by simp, ?_⟩
    intro later hlater
    simpa using hafter later (List.mem_reverse.mp hlater)

theorem servers_foldl_add (heap : BinaryHeap.HeapAlgorithms ServerBalanceInfo)
    (servers : List ServerItem) (memo : MemoDistri) :
    (servers.foldl (MemoDistri.add heap) memo).servers.Perm (servers ++ memo.servers) ∧
      (servers.foldl (MemoDistri.add heap) memo).mKeyServerMapping = memo.mKeyServerMapping := by
  induction servers generalizing memo with
  | nil => exact ⟨.refl _, rfl⟩
  | cons server servers ih =>
      obtain ⟨hservers, hmapping⟩ := ih (memo.add heap server)
      refine ⟨hservers.trans ?_, hmapping⟩
      exact ((memo.servers_add heap server).append_left servers).trans List.perm_middle

/-- An object that held nothing holds the servers it is filled with, except those
    whose points a ring gives to others. -/
theorem holdsExactly_foldl_add (hempty : ∀ server, ¬ a.Holds server) :
    (servers.foldl (fun a server => a.add P server) a).HoldsExactly servers ↔
      ∀ ring, a = .consistentHashDistri ring →
        ∀ server ∈ servers, Visible P.md5 ring.mReplications servers server := by
  cases a with
  | consistentHashDistri ring =>
      have hnone : ∀ p, ring.mCircle.find? p = none :=
        fun p => Option.eq_none_iff_forall_ne_some.mpr fun server hp => hempty server ⟨p, hp⟩
      rw [foldl_add_ring]
      constructor
      · rintro hexact _ ⟨⟩ server hmem
        exact (holds_foldl_ring hnone).mp ((hexact server).mpr hmem)
      · intro hvisible server
        refine (holds_foldl_ring hnone).trans ⟨?_, hvisible ring rfl server⟩
        rintro ⟨before, after, rfl, -⟩
        simp
  | memoDistri memo =>
      rw [foldl_add_memo]
      obtain ⟨hservers, hmapping⟩ := servers_foldl_add P.heap servers memo
      have hnil : memo.servers = [] :=
        List.eq_nil_iff_forall_not_mem.mpr fun server hmem => hempty server (Or.inl hmem)
      rw [hnil, List.append_nil] at hservers
      refine iff_of_true ⟨hservers, fun server hvalue => ?_⟩ fun _ h => by cases h
      rw [hmapping] at hvalue
      exact absurd (Or.inr hvalue) (hempty server)
  | moduloDistri modulo =>
      have hnil : modulo.mServers = [] := List.eq_nil_iff_forall_not_mem.mpr hempty
      rw [foldl_add_modulo, hnil, List.nil_append]
      exact iff_of_true (.refl _) fun _ h => by cases h

end DistributeAlgorithm

/-! ## 2. Rings and memorized distributions -/

namespace ServerList

open DistributeAlgorithm

variable {P : Platform} {s s' : ServerList}

/-- The installed object holds the listed servers and no others, and finds one for
    every key when there is one. -/
structure Routable (P : Platform) (s : ServerList) : Prop where
  holds : ∃ ref, s.mDistributeAlgorithm = some ref ∧
    (s.algorithms ref).HoldsExactly s.mServers.values
  get : s.mServers.values ≠ [] → ∀ key, ∃ server s', s.get P key = .ok (some server, s')

/-- A ring with the default replication, or a memorized distribution. -/
def DefaultObject : DistributeAlgorithm → Prop
  | .consistentHashDistri ring => ring.mReplications = 200
  | .memoDistri _ => True
  | .moduloDistri _ => False

theorem kept_defaultObject : Kept P DefaultObject where
  add := by
    intro a server h
    cases a <;> exact h
  remove := by
    intro a server h
    cases a <;> exact h
  find := by
    intro a hash h
    cases a <;> exact h
  clear := by
    intro a h
    cases a <;> exact h

theorem clears_of_defaultObject (a : DistributeAlgorithm) (h : DefaultObject a) : a.Clears := by
  cases a with
  | consistentHashDistri ring => trivial
  | memoDistri memo => trivial
  | moduloDistri modulo => exact h

theorem get_of_holdsExactly {ref : AlgorithmRef} (hinst : s.mDistributeAlgorithm = some ref)
    (hexact : (s.algorithms ref).HoldsExactly s.mServers.values) (hne : s.mServers.values ≠ [])
    (key : Bytes) : ∃ server s', s.get P key = .ok (some server, s') := by
  have hnonempty := hexact.isEmpty_eq_false hne
  obtain ⟨server, hserver⟩ := Option.isSome_iff_exists.mp
    ((isSome_find (P := P) (s.mHashFunc key)).mpr hnonempty)
  have hfind : (s.algorithms ref).get P (s.mHashFunc key) =
      .ok (some server, ((s.algorithms ref).find P (s.mHashFunc key)).2) := by
    rw [get_of_not_isEmpty hnonempty, ← hserver]
  refine ⟨server, s.setAlgorithm ref ((s.algorithms ref).find P (s.mHashFunc key)).2, ?_⟩
  simp only [get, hinst, hfind]

/-- Installing the installed object empties it. -/
theorem routable_of_installed {ref : AlgorithmRef} (hinst : s.mDistributeAlgorithm = some ref)
    (hclears : ∀ ref, (s.algorithms ref).Clears) (order : List ServerItem) :
    Routable P (s.setDistributeAlgorithm P ref order).2 ↔ s.mServers.values = [] := by
  obtain ⟨hservers, -, hinst'⟩ := s.setDistributeAlgorithm_frame (P := P) ref order
  have hcleared : ∀ server,
      ¬ ((s.setDistributeAlgorithm P ref order).2.algorithms ref).Holds server := by
    intro server
    rw [algorithms_setDistributeAlgorithm, if_pos hinst]
    dsimp only
    rw [if_pos rfl]
    exact not_holds_clear (kept_clears.foldl_add (hclears ref))
  constructor
  · rintro ⟨⟨ref', href', hexact⟩, -⟩
    rw [hinst'] at href'
    cases href'
    rw [hservers] at hexact
    exact List.eq_nil_iff_forall_not_mem.mpr fun server hmem =>
      hcleared server (hexact.holds hmem)
  · intro hnil
    refine ⟨⟨ref, hinst', ?_⟩, fun hne => ?_⟩
    · rw [hservers, hnil]
      exact holdsExactly_nil hcleared
    · rw [hservers] at hne
      exact absurd hnil hne

/-- Another object, which held nothing, holds what it is filled with. -/
theorem routable_of_not_installed {ref : AlgorithmRef} (hinst : s.mDistributeAlgorithm ≠ some ref)
    (hempty : ∀ server, ¬ (s.algorithms ref).Holds server) {order : List ServerItem}
    (horder : order.Perm s.mServers.values) :
    Routable P (s.setDistributeAlgorithm P ref order).2 ↔
      ∀ ring, s.algorithms ref = .consistentHashDistri ring →
        ∀ server ∈ order, Visible P.md5 ring.mReplications order server := by
  obtain ⟨hservers, -, hinst'⟩ := s.setDistributeAlgorithm_frame (P := P) ref order
  have hfilled : (s.setDistributeAlgorithm P ref order).2.algorithms ref =
      order.foldl (fun a server => a.add P server) (s.algorithms ref) := by
    rw [algorithms_setDistributeAlgorithm, if_neg hinst]
    dsimp only
    rw [if_pos rfl]
  rw [← holdsExactly_foldl_add (P := P) hempty, ← hfilled]
  constructor
  · rintro ⟨⟨ref', href', hexact⟩, -⟩
    rw [hinst'] at href'
    cases href'
    rw [hservers] at hexact
    exact hexact.perm horder.symm
  · intro hexact
    have hexact := hexact.perm horder
    rw [← hservers] at hexact
    exact ⟨⟨ref, hinst', hexact⟩, get_of_holdsExactly hinst' hexact⟩

/-- **Changing the algorithm keeps the servers routable** exactly when the list is
    empty, or the object is not the installed one and, if it is a ring, every server
    keeps a point of its own. -/
theorem routable_iff {mHashFunc : Bytes → HashT} {algorithms : AlgorithmRef → DistributeAlgorithm}
    (hnew : ∀ ref, algorithms ref = .consistentHashDistri (.new 200) ∨
      algorithms ref = .memoDistri .new)
    {es : List Event} (hrun : Run (step P) Free (new mHashFunc algorithms) es s)
    (ref : AlgorithmRef) {order : List ServerItem} (horder : order.Perm s.mServers.values) :
    Routable P (s.setDistributeAlgorithm P ref order).2 ↔
      s.mServers.values = [] ∨
        s.mDistributeAlgorithm ≠ some ref ∧
          ∀ ring, s.algorithms ref = .consistentHashDistri ring →
            ∀ server ∈ order, Visible P.md5 200 order server := by
  have hempty : ∀ ref server, ¬ (algorithms ref).Holds server := by
    intro ref server hholds
    rcases hnew ref with h | h
    · rw [h] at hholds
      obtain ⟨p, hp⟩ := hholds
      cases hp
    · rw [h] at hholds
      rcases hholds with hserver | hvalue
      · cases hserver
      · cases hvalue
  have hdefault : ∀ ref, DefaultObject (algorithms ref) := by
    intro ref
    rcases hnew ref with h | h
    · rw [h]
      exact rfl
    · rw [h]
      trivial
  obtain ⟨hrouted, hdefault⟩ := routed_run kept_defaultObject clears_of_defaultObject hrun
    (routed_new hempty) hdefault
  by_cases hinst : s.mDistributeAlgorithm = some ref
  · rw [routable_of_installed hinst fun ref => clears_of_defaultObject _ (hdefault ref)]
    exact (or_iff_left fun h => h.1 hinst).symm
  · have hreplis : ∀ ring, s.algorithms ref = .consistentHashDistri ring →
        ring.mReplications = 200 := by
      intro ring hring
      have hobject := hdefault ref
      rw [hring] at hobject
      exact hobject
    rw [routable_of_not_installed hinst (fun server hholds => hinst (hrouted.holds ref _ hholds).1)
      horder]
    constructor
    · intro hvisible
      refine Or.inr ⟨hinst, fun ring hring server hmem => ?_⟩
      rw [← hreplis ring hring]
      exact hvisible ring hring server hmem
    · rintro (hnil | ⟨-, hvisible⟩) ring hring server hmem
      · have hmem := horder.mem_iff.mp hmem
        rw [hnil] at hmem
        cases hmem
      · rw [hreplis ring hring]
        exact hvisible ring hring server hmem

def exampleServer : ServerItem := ⟨0, [97], 1, 1⟩

/-- One server, and the memorized distribution at address 1 installed. -/
def exampleSetup : List Event := [.setDistributeAlgorithm 1 [], .add [97] 1]

theorem exec_exampleSetup : ∃ s,
    exec (step examplePlatform) (new (fun _ => 0) exampleAlgorithms) exampleSetup = some s ∧
      s.mDistributeAlgorithm = some 1 ∧ s.mServers.values = [exampleServer] ∧
      s.algorithms 2 = .memoDistri .new := by
  refine ⟨_, rfl, rfl, rfl, rfl⟩

/-- Another memorized distribution is installed. -/
theorem routable_iff_exampleSetup : ∃ s,
    exec (step examplePlatform) (new (fun _ => 0) exampleAlgorithms) exampleSetup = some s ∧
      Routable examplePlatform (s.setDistributeAlgorithm examplePlatform 2 [exampleServer]).2 := by
  obtain ⟨s, hs, hinst, hvalues, hobject⟩ := exec_exampleSetup
  have hnew : ∀ ref, exampleAlgorithms ref = .consistentHashDistri (.new 200) ∨
      exampleAlgorithms ref = .memoDistri .new := by
    intro ref
    unfold exampleAlgorithms
    split
    · exact Or.inl rfl
    · exact Or.inr rfl
  refine ⟨s, hs, (routable_iff hnew (run_of_exec (fun _ _ _ => trivial) hs) 2 ?_).mpr
    (Or.inr ⟨?_, ?_⟩)⟩
  · rw [hvalues]
  · rw [hinst]
    decide
  · intro ring hring
    rw [hobject] at hring
    cases hring

/-- The memorized distribution at address 1 is installed again and holds no server
    afterwards. -/
theorem not_routable_exampleSetup : ∃ s,
    exec (step examplePlatform) (new (fun _ => 0) exampleAlgorithms) exampleSetup = some s ∧
      [exampleServer].Perm s.mServers.values ∧
      ¬ Routable examplePlatform
        (s.setDistributeAlgorithm examplePlatform 1 [exampleServer]).2 := by
  obtain ⟨s, hs, hinst, hvalues, -⟩ := exec_exampleSetup
  have hrun : Run (step examplePlatform) Free _ exampleSetup s :=
    run_of_exec (fun _ _ _ => trivial) hs
  have hclears : ∀ ref, (s.algorithms ref).Clears :=
    hrun.invariant (fun _ _ _ h _ hstep => kept_step kept_clears h hstep) clears_exampleAlgorithms
  refine ⟨s, hs, ?_, ?_⟩
  · rw [hvalues]
  · rw [routable_of_installed hinst hclears, hvalues]
    simp

/-! ## 3. Modulo -/

/-- The installed object has each listed server once and nothing else: keys go to
    listed servers, and each server is at one residue. -/
structure ModuloEven (P : Platform) (s : ServerList) (modulo : ModuloDistri) : Prop where
  once : modulo.mServers.Perm s.mServers.values ∧ modulo.mServers.Nodup
  get : ∀ key server s', s.get P key = .ok (some server, s') → server ∈ s.mServers.values
  residue : ∀ key server s', s.get P key = .ok (server, s') →
    server = modulo.mServers[(s.mHashFunc key).val % s.mServers.values.length]?
  share : ∀ server ∈ s.mServers.values, ∃! r : Nat, modulo.mServers[r]? = some server

/-- The installed object, when it is a `ModuloDistri`, has the property. -/
def InstalledModulo (s : ServerList) (Q : ModuloDistri → Prop) : Prop :=
  ∀ ref modulo, s.mDistributeAlgorithm = some ref → s.algorithms ref = .moduloDistri modulo →
    Q modulo

/-- A `ModuloDistri` is installed only while it holds no servers. -/
def FillsEmpty (s : ServerList) : Event → Prop
  | .setDistributeAlgorithm ref _ =>
      ∀ modulo, s.algorithms ref = .moduloDistri modulo → modulo.mServers = []
  | _ => True

/-- The rest of `ModuloEven` follows. -/
theorem moduloEven_iff (h : Keyed s) {ref : AlgorithmRef} {modulo : ModuloDistri}
    (hinst : s.mDistributeAlgorithm = some ref)
    (hobject : s.algorithms ref = .moduloDistri modulo) :
    ModuloEven P s modulo ↔ modulo.mServers.Perm s.mServers.values := by
  constructor
  · exact fun heven => heven.once.1
  · intro hperm
    have hnodup := hperm.nodup_iff.mpr h.nodup_values
    have hfind : ∀ key server s', s.get P key = .ok (server, s') →
        server = modulo.get (s.mHashFunc key) := by
      intro key server s' hget
      obtain ⟨ref', href', hserver, -⟩ := get_eq_ok hget
      rw [hinst] at href'
      cases href'
      rw [hserver, hobject]
      rfl
    refine ⟨⟨hperm, hnodup⟩, ?_, ?_, ?_⟩
    · intro key server s' hget
      exact hperm.mem_iff.mp (mem_of_modulo_get (hfind key _ s' hget).symm)
    · intro key server s' hget
      rw [hfind key server s' hget, ← hperm.length_eq]
      unfold ModuloDistri.get
      split
      · rfl
      · next hlength =>
          have hlength : modulo.mServers.length = 0 := by simpa using hlength
          rw [List.getElem?_eq_none (by omega)]
    · intro server hmem
      obtain ⟨r, hr⟩ := List.mem_iff_getElem?.mp (hperm.mem_iff.mpr hmem)
      refine ⟨r, hr, fun r' hr' => ?_⟩
      obtain ⟨hlt, hr'⟩ := List.getElem?_eq_some_iff.mp hr'
      obtain ⟨hlt', hr⟩ := List.getElem?_eq_some_iff.mp hr
      exact (hnodup.getElem_inj_iff).mp (hr'.trans hr.symm)

theorem keyed_step (h : Keyed s) {e : Event} (hstep : step P s e = some s') : Keyed s' := by
  cases e with
  | add host port =>
      obtain ⟨b, hadd⟩ := step_add_iff.mp hstep
      rcases add_eq_ok hadd with ⟨-, rfl⟩ | ⟨-, -, ref, -, rfl⟩
      · exact h
      · exact keyed_insertServer h
  | remove host port =>
      obtain ⟨b, hremove⟩ := step_remove_iff.mp hstep
      rcases remove_eq_ok hremove with ⟨-, rfl, -⟩ | ⟨-, server, -, ref, -, rfl⟩
      · exact h
      · exact keyed_erase h _
  | get key =>
      obtain ⟨server, hget⟩ := step_get_iff.mp hstep
      obtain ⟨ref, -, -, rfl⟩ := get_eq_ok hget
      exact h
  | setDistributeAlgorithm ref order =>
      obtain ⟨-, rfl⟩ := step_setDistributeAlgorithm_iff.mp hstep
      obtain ⟨hservers, hcreated, -⟩ := s.setDistributeAlgorithm_frame (P := P) ref order
      unfold Keyed
      rw [hservers, hcreated]
      exact h

/-- `Add`, `Remove` and `Get` of a `ModuloDistri`, seen from outside. -/
theorem eq_modulo_of_add {a : DistributeAlgorithm} {server : ServerItem} {modulo : ModuloDistri}
    (h : a.add P server = .moduloDistri modulo) :
    ∃ before, a = .moduloDistri before ∧ modulo = before.add server := by
  cases a <;> cases h
  exact ⟨_, rfl, rfl⟩

theorem eq_modulo_of_remove {a : DistributeAlgorithm} {server : ServerItem} {modulo : ModuloDistri}
    (h : a.remove server = .moduloDistri modulo) :
    ∃ before, a = .moduloDistri before ∧ modulo = before.remove server := by
  cases a <;> cases h
  exact ⟨_, rfl, rfl⟩

theorem eq_modulo_of_find {a : DistributeAlgorithm} {hash : HashT} {modulo : ModuloDistri}
    (h : (a.find P hash).2 = .moduloDistri modulo) : a = .moduloDistri modulo := by
  cases a <;> cases h
  rfl

/-- Installing a `ModuloDistri` adds the list to what it holds, also when it is
    installed already. -/
theorem modulo_setDistributeAlgorithm {ref : AlgorithmRef} {order : List ServerItem}
    {modulo : ModuloDistri} :
    (s.setDistributeAlgorithm P ref order).2.algorithms ref = .moduloDistri modulo ↔
      ∃ before, s.algorithms ref = .moduloDistri before ∧
        modulo = ⟨before.mServers ++ order⟩ := by
  rw [algorithms_setDistributeAlgorithm]
  dsimp only
  rw [if_pos rfl]
  cases s.algorithms ref with
  | consistentHashDistri ring =>
      rw [foldl_add_ring]
      split <;> simp [clear]
  | memoDistri memo =>
      rw [foldl_add_memo]
      split <;> simp [clear]
  | moduloDistri before =>
      rw [foldl_add_modulo]
      split <;> simp [clear, ModuloDistri.clear, eq_comm]

/-- **One step keeps the installed `ModuloDistri` even** exactly when it does not
    install one that holds servers. -/
theorem fillsEmpty_iff_step
    (h : InstalledModulo s fun modulo => modulo.mServers.Perm s.mServers.values) {e : Event}
    (hstep : step P s e = some s') :
    FillsEmpty s e ↔ InstalledModulo s' fun modulo => modulo.mServers.Perm s'.mServers.values := by
  cases e with
  | add host port =>
      refine iff_of_true trivial ?_
      obtain ⟨b, hadd⟩ := step_add_iff.mp hstep
      rcases add_eq_ok hadd with ⟨-, rfl⟩ | ⟨-, hnone, ref, hinst, rfl⟩
      · exact h
      · intro ref' modulo hinst' hobject
        obtain rfl : ref = ref' := Option.some.inj (hinst.symm.trans hinst')
        rw [algorithms_setAlgorithm, if_pos rfl] at hobject
        obtain ⟨before, hbefore, rfl⟩ := eq_modulo_of_add hobject
        show (before.mServers ++ [_]).Perm (UnorderedMap.values (s.mServers.insert _ _))
        rw [UnorderedMap.values_insert_of_lookup_eq_none hnone]
        exact (List.perm_append_singleton _ _).trans ((h ref before hinst hbefore).cons _)
  | remove host port =>
      refine iff_of_true trivial ?_
      obtain ⟨b, hremove⟩ := step_remove_iff.mp hstep
      rcases remove_eq_ok hremove with ⟨-, rfl, -⟩ | ⟨-, server, hserver, ref, hinst, rfl⟩
      · exact h
      · intro ref' modulo hinst' hobject
        obtain rfl : ref = ref' := Option.some.inj (hinst.symm.trans hinst')
        have hobject : (s.setAlgorithm ref ((s.algorithms ref).remove server)).algorithms ref =
          .moduloDistri modulo := hobject
        rw [algorithms_setAlgorithm, if_pos rfl] at hobject
        obtain ⟨before, hbefore, rfl⟩ := eq_modulo_of_remove hobject
        have hperm := (h ref before hinst hbefore).trans (UnorderedMap.values_perm_erase hserver)
        show (before.mServers.eraseP fun other => decide (other = server)).Perm _
        rw [eraseP_eq_erase]
        simpa using hperm.erase server
  | get key =>
      refine iff_of_true trivial ?_
      obtain ⟨server, hget⟩ := step_get_iff.mp hstep
      obtain ⟨ref, hinst, -, rfl⟩ := get_eq_ok hget
      intro ref' modulo hinst' hobject
      obtain rfl : ref = ref' := Option.some.inj (hinst.symm.trans hinst')
      rw [algorithms_setAlgorithm, if_pos rfl] at hobject
      exact h ref modulo hinst (eq_modulo_of_find hobject)
  | setDistributeAlgorithm ref order =>
      obtain ⟨horder, rfl⟩ := step_setDistributeAlgorithm_iff.mp hstep
      obtain ⟨hservers, -, hinst⟩ := s.setDistributeAlgorithm_frame (P := P) ref order
      constructor
      · intro hfills ref' modulo hinst' hobject
        obtain rfl : ref = ref' := Option.some.inj (hinst.symm.trans hinst')
        obtain ⟨before, hbefore, rfl⟩ := modulo_setDistributeAlgorithm.mp hobject
        rw [hservers, hfills before hbefore]
        exact horder
      · intro heven modulo hobject
        have hperm := heven ref _ hinst (modulo_setDistributeAlgorithm.mpr ⟨modulo, hobject, rfl⟩)
        rw [hservers] at hperm
        -- the object has the list already, so what it held before has length zero
        have hlength := hperm.length_eq
        rw [List.length_append, horder.length_eq] at hlength
        exact List.eq_nil_of_length_eq_zero (by omega)

/-- **Installing a `ModuloDistri` again.**  In every state of a run the installed one
    is even, exactly when none is installed in it while it holds servers. -/
theorem moduloDistri_even {mHashFunc : Bytes → HashT}
    {algorithms : AlgorithmRef → DistributeAlgorithm} {es : List Event}
    (hexec : exec (step P) (new mHashFunc algorithms) es = some s) :
    Run (step P) FillsEmpty (new mHashFunc algorithms) es s ↔
      ∀ fs m, fs <+: es → exec (step P) (new mHashFunc algorithms) fs = some m →
        InstalledModulo m (ModuloEven P m) := by
  have hiff : ∀ s, Keyed s → (InstalledModulo s (ModuloEven P s) ↔
      InstalledModulo s fun modulo => modulo.mServers.Perm s.mServers.values) := by
    intro s hkeyed
    refine forall₄_congr fun ref modulo hinst hobject => ?_
    exact moduloEven_iff hkeyed hinst hobject
  have hkeyed : Keyed (new mHashFunc algorithms) := by
    intro key server hlookup
    cases hlookup
  refine run_iff_throughout (fun _ _ _ hkeyed hstep => keyed_step hkeyed hstep) ?_ hkeyed ?_ hexec
  · intro s e s' hkeyed heven hstep
    rw [hiff s' (keyed_step hkeyed hstep)]
    exact fillsEmpty_iff_step ((hiff s hkeyed).mp heven) hstep
  · intro ref modulo hinst
    cases hinst

/-- A `ModuloDistri` at address 0 and memorized distributions elsewhere. -/
def moduloAlgorithms (ref : AlgorithmRef) : DistributeAlgorithm :=
  if ref = 0 then .moduloDistri ⟨[]⟩ else .memoDistri .new

/-- The `ModuloDistri` is replaced and not installed again. -/
theorem moduloDistri_even_replaced : ∃ s,
    exec (step examplePlatform) (new (fun _ => 0) moduloAlgorithms)
        [.setDistributeAlgorithm 0 [], .add [97] 1, .setDistributeAlgorithm 1 [exampleServer]] =
      some s ∧
    ∀ fs m, fs <+: [.setDistributeAlgorithm 0 [], .add [97] 1,
        .setDistributeAlgorithm 1 [exampleServer]] →
      exec (step examplePlatform) (new (fun _ => 0) moduloAlgorithms) fs = some m →
      InstalledModulo m (ModuloEven examplePlatform m) := by
  refine ⟨_, rfl, (moduloDistri_even rfl).mp ?_⟩
  refine .cons ?_ rfl (.cons trivial rfl (.cons ?_ rfl (.nil _)))
  · rintro modulo ⟨⟩
    rfl
  · rintro modulo ⟨⟩

/-- Installed again, the `ModuloDistri` has the server twice, so one copy is left when
    the server is removed, and every key goes to it. -/
theorem not_moduloEven_reinstalled : ∃ s,
    exec (step examplePlatform) (new (fun _ => 0) moduloAlgorithms)
        [.setDistributeAlgorithm 0 [], .add [97] 1, .setDistributeAlgorithm 1 [exampleServer],
          .setDistributeAlgorithm 0 [exampleServer], .remove [97] 1] = some s ∧
      s.mServers.values = [] ∧
      (∀ key, ∃ s', s.get examplePlatform key = .ok (some exampleServer, s')) ∧
      ¬ InstalledModulo s (ModuloEven examplePlatform s) := by
  refine ⟨_, rfl, rfl, fun key => ⟨_, rfl⟩, fun heven => ?_⟩
  have hlisted := (heven 0 ⟨[exampleServer]⟩ rfl rfl).get [] exampleServer _ rfl
  cases hlisted

end ServerList

end MemClient
