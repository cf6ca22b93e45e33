import MemClient.KeyAffinity

/-!
# Routing keys while servers come and go

Runs of a server list whose algorithm is a ring, or a memorized distribution, and
stays installed.  No key moves between two servers that stay in the list.
-/

namespace MemClient

open ByteCodec EventRun

namespace ServerList

/-! ## 1. Runs on one algorithm -/

/-- The algorithm is not switched, and on a ring a new server has no point in common
    with a listed one. -/
def Apart (P : Platform) (s : ServerList) : Event → Prop
  | .add host port => ∀ ref ring, s.mDistributeAlgorithm = some ref →
      s.algorithms ref = .consistentHashDistri ring → ∀ other ∈ s.mServers.values,
        ∀ p ∈ ConsistentHashDistri.points P.md5 ring.mReplications (s.insertServer host port).1,
          p ∉ ConsistentHashDistri.points P.md5 ring.mReplications other
  | .setDistributeAlgorithm _ _ => False
  | _ => True

/-- `Apart` for an addition, as a test. -/
def apartAdd (P : Platform) (s : ServerList) (host : Bytes) (port : BitVec 32) : Bool :=
  match s.mDistributeAlgorithm with
  | none => true
  | some ref =>
      match s.algorithms ref with
      | .consistentHashDistri ring =>
          s.mServers.values.all fun other =>
            (ConsistentHashDistri.points P.md5 ring.mReplications (s.insertServer host port).1).all
              fun p => decide (p ∉ ConsistentHashDistri.points P.md5 ring.mReplications other)
      | _ => true

theorem apartAdd_iff (P : Platform) (s : ServerList) (host : Bytes) (port : BitVec 32) :
    apartAdd P s host port ↔ Apart P s (.add host port) := by
  unfold apartAdd Apart
  cases s.mDistributeAlgorithm with
  | none =>
      refine iff_of_true rfl ?_
      rintro ref ring ⟨⟩
  | some ref =>
      cases hring : s.algorithms ref with
      | consistentHashDistri ring =>
          simp only [hring, List.all_eq_true, decide_eq_true_eq]
          constructor
          · rintro h ref' ring' ⟨⟩ hring'
            cases hring.symm.trans hring'
            exact h
          · intro h
            exact h ref ring rfl hring
      | memoDistri memo =>
          simp only [hring]
          refine iff_of_true trivial ?_
          rintro ref' ring ⟨⟩ hring'
          cases hring.symm.trans hring'
      | moduloDistri modulo =>
          simp only [hring]
          refine iff_of_true trivial ?_
          rintro ref' ring ⟨⟩ hring'
          cases hring.symm.trans hring'

instance (P : Platform) (s : ServerList) (e : Event) : Decidable (Apart P s e) :=
  match e with
  | .add host port => decidable_of_iff _ (apartAdd_iff P s host port)
  | .remove _ _ => isTrue trivial
  | .get _ => isTrue trivial
  | .setDistributeAlgorithm _ _ => isFalse id

variable {P : Platform} {s s' : ServerList}

/-- What such an event can do. -/
inductive Changes (P : Platform) (s : ServerList) : ServerList → Prop
  | same : Changes P s s
  | added (host : Bytes) (port : BitVec 32) (ref : AlgorithmRef)
      (hnone : s.mServers.lookup (ServerItem.toStringOf host port) = none)
      (hinst : s.mDistributeAlgorithm = some ref) (hapart : Apart P s (.add host port)) :
      Changes P s ((s.insertServer host port).2.setAlgorithm ref
        ((s.algorithms ref).add P (s.insertServer host port).1))
  | removed (key : Bytes) (server : ServerItem) (ref : AlgorithmRef)
      (hserver : s.mServers.lookup key = some server)
      (hinst : s.mDistributeAlgorithm = some ref) :
      Changes P s { s.setAlgorithm ref ((s.algorithms ref).remove server) with
        mServers := s.mServers.erase key }
  | asked (hash : HashT) (ref : AlgorithmRef) (hinst : s.mDistributeAlgorithm = some ref) :
      Changes P s (s.setAlgorithm ref ((s.algorithms ref).find P hash).2)

theorem changes_of_step {e : Event} (hapart : Apart P s e) (hstep : step P s e = some s') :
    Changes P s s' := by
  cases e with
  | add host port =>
      obtain ⟨⟨added, next⟩, hadd, rfl⟩ := Option.map_eq_some_iff.mp hstep
      rw [toOption_eq_some_iff] at hadd
      rcases add_eq_ok hadd with ⟨-, rfl⟩ | ⟨-, hnone, ref, hinst, rfl⟩
      · exact .same
      · exact .added host port ref hnone hinst hapart
  | remove host port =>
      obtain ⟨⟨removed, next⟩, hremove, rfl⟩ := Option.map_eq_some_iff.mp hstep
      rw [toOption_eq_some_iff] at hremove
      rcases remove_eq_ok hremove with ⟨-, rfl, -⟩ | ⟨-, server, hserver, ref, hinst, rfl⟩
      · exact .same
      · exact .removed _ server ref hserver hinst
  | get key =>
      obtain ⟨⟨server, next⟩, hget, rfl⟩ := Option.map_eq_some_iff.mp hstep
      rw [toOption_eq_some_iff] at hget
      obtain ⟨ref, hinst, -, rfl⟩ := get_eq_ok hget
      exact .asked _ ref hinst
  | setDistributeAlgorithm ref order => exact hapart.elim

theorem changes_get {key : Bytes} {server : Option ServerItem}
    (hget : s.get P key = .ok (server, s')) : Changes P s s' := by
  obtain ⟨ref, hinst, -, rfl⟩ := get_eq_ok hget
  exact .asked _ ref hinst

theorem values_insertServer {host : Bytes} {port : BitVec 32}
    (hnone : s.mServers.lookup (ServerItem.toStringOf host port) = none) :
    (s.insertServer host port).2.mServers.values =
      (s.insertServer host port).1 :: s.mServers.values :=
  UnorderedMap.values_insert_of_lookup_eq_none hnone _

theorem Changes.keyed (h : Changes P s s') (hkeyed : Keyed s) : Keyed s' := by
  cases h with
  | same => exact hkeyed
  | added host port ref hnone hinst hapart => exact keyed_insertServer hkeyed
  | removed key server ref hserver hinst => exact keyed_erase hkeyed _
  | asked hash ref hinst => exact hkeyed

theorem mem_values_erase_iff (h : Keyed s) {key : Bytes} {server other : ServerItem}
    (hserver : s.mServers.lookup key = some server) :
    other ∈ UnorderedMap.values (s.mServers.erase key) ↔
      other ∈ s.mServers.values ∧ other ≠ server := by
  have hperm := UnorderedMap.values_perm_erase hserver
  have hnodup := hperm.nodup_iff.mp h.nodup_values
  constructor
  · intro hmem
    refine ⟨hperm.mem_iff.mpr (List.mem_cons_of_mem _ hmem), ?_⟩
    rintro rfl
    exact (List.nodup_cons.mp hnodup).1 hmem
  · rintro ⟨hmem, hne⟩
    exact (List.mem_cons.mp (hperm.mem_iff.mp hmem)).resolve_left hne

/-- The installed object is a ring with exactly the points of the listed servers. -/
structure OnRing (P : Platform) (mHashFunc : Bytes → HashT) (replis : BitVec 32)
    (s : ServerList) : Prop where
  keyed : Keyed s
  hashFunc : s.mHashFunc = mHashFunc
  weight : ∀ server ∈ s.mServers.values, server.mWeight = 1
  ring : ∃ ref ring, s.mDistributeAlgorithm = some ref ∧
    s.algorithms ref = .consistentHashDistri ring ∧ ring.mReplications = replis ∧
      ConsistentHashDistri.Owns P.md5 s.mServers.values.toFinset ring

/-- The installed object is a memorized distribution of the listed servers. -/
structure OnMemo (mHashFunc : Bytes → HashT) (s : ServerList) : Prop where
  keyed : Keyed s
  hashFunc : s.mHashFunc = mHashFunc
  memo : ∃ ref memo, s.mDistributeAlgorithm = some ref ∧ s.algorithms ref = .memoDistri memo ∧
    memo.Listed ∧ ∀ server, server ∈ memo.servers ↔ server ∈ s.mServers.values

variable {mHashFunc : Bytes → HashT} {replis : BitVec 32}

theorem algorithms_setAlgorithm_self (ref : AlgorithmRef) (a : DistributeAlgorithm) :
    (s.setAlgorithm ref a).algorithms ref = a := by
  rw [algorithms_setAlgorithm, if_pos rfl]

theorem OnRing.changes (h : OnRing P mHashFunc replis s) (hchanges : Changes P s s') :
    OnRing P mHashFunc replis s' := by
  have hkeyed := hchanges.keyed h.keyed
  obtain ⟨ref', ring, hinst', hring, hreplis, howns⟩ := h.ring
  cases hchanges with
  | same => exact h
  | added host port ref hnone hinst hapart =>
      obtain rfl : ref = ref' := Option.some.inj (hinst.symm.trans hinst')
      have hvalues := values_insertServer hnone
      refine ⟨hkeyed, h.hashFunc, ?_, ref, ring.add P.md5 (s.insertServer host port).1, hinst, ?_,
        hreplis, ?_⟩
      · intro server hmem
        rcases List.mem_cons.mp (hvalues ▸ hmem) with rfl | hold
        · rfl
        · exact h.weight server hold
      · rw [algorithms_setAlgorithm_self, hring]
        rfl
      · have hfinset : (s.insertServer host port).2.mServers.values.toFinset =
            insert (s.insertServer host port).1 s.mServers.values.toFinset := by
          rw [hvalues, List.toFinset_cons]
        have hadd := ConsistentHashDistri.owns_add P.md5 howns
          fun other hother => hapart ref ring hinst hring other (List.mem_toFinset.mp hother)
        rwa [← hfinset] at hadd
  | removed key server ref hserver hinst =>
      obtain rfl : ref = ref' := Option.some.inj (hinst.symm.trans hinst')
      refine ⟨hkeyed, h.hashFunc, ?_, ref, ring.remove server, hinst, ?_, hreplis, ?_⟩
      · intro other hmem
        exact h.weight other ((mem_values_erase_iff h.keyed hserver).mp hmem).1
      · refine (algorithms_setAlgorithm_self ref _).trans ?_
        rw [hring]
        rfl
      · have hfinset : (UnorderedMap.values (s.mServers.erase key)).toFinset =
            s.mServers.values.toFinset.erase server := by
          ext other
          rw [List.mem_toFinset, mem_values_erase_iff h.keyed hserver, Finset.mem_erase,
            List.mem_toFinset, and_comm]
        have hremove : ConsistentHashDistri.Owns P.md5 (s.mServers.values.toFinset.erase server)
            (ring.remove server) := ConsistentHashDistri.owns_remove P.md5 howns
        rwa [← hfinset] at hremove
  | asked hash ref hinst =>
      obtain rfl : ref = ref' := Option.some.inj (hinst.symm.trans hinst')
      refine ⟨hkeyed, h.hashFunc, h.weight, ref, ring, hinst, ?_, hreplis, howns⟩
      rw [algorithms_setAlgorithm_self, hring]
      rfl

theorem OnMemo.changes (h : OnMemo mHashFunc s) (hchanges : Changes P s s') :
    OnMemo mHashFunc s' := by
  have hkeyed := hchanges.keyed h.keyed
  obtain ⟨ref', memo, hinst', hmemo, hlisted, hservers⟩ := h.memo
  cases hchanges with
  | same => exact h
  | added host port ref hnone hinst hapart =>
      obtain rfl : ref = ref' := Option.some.inj (hinst.symm.trans hinst')
      have hfresh : (s.insertServer host port).1 ∉ memo.servers := fun hmem =>
        h.keyed.insertServer_notMem host port ((hservers _).mp hmem)
      refine ⟨hkeyed, h.hashFunc, ref, memo.add P.heap (s.insertServer host port).1, hinst, ?_,
        ?_, ?_⟩
      · rw [algorithms_setAlgorithm_self, hmemo]
        rfl
      · have hstep : MemoDistri.step P.heap memo (.add (s.insertServer host port).1) = some _ := rfl
        exact MemoDistri.listed_step (e := .add _) hlisted hfresh hstep
      · intro server
        show _ ↔ server ∈ (s.insertServer host port).2.mServers.values
        rw [values_insertServer hnone, (MemoDistri.servers_add P.heap memo _).mem_iff,
          List.mem_cons, List.mem_cons, hservers]
  | removed key server ref hserver hinst =>
      obtain rfl : ref = ref' := Option.some.inj (hinst.symm.trans hinst')
      refine ⟨hkeyed, h.hashFunc, ref, memo.remove server, hinst, ?_, ?_, ?_⟩
      · refine (algorithms_setAlgorithm_self ref _).trans ?_
        rw [hmemo]
        rfl
      · have hstep : MemoDistri.step P.heap memo (.remove server) = some _ := rfl
        exact MemoDistri.listed_step (e := .remove _) hlisted trivial hstep
      · intro other
        show _ ↔ other ∈ UnorderedMap.values (s.mServers.erase key)
        rw [MemoDistri.servers_remove, List.Nodup.mem_erase_iff hlisted.nodup, hservers,
          mem_values_erase_iff h.keyed hserver, and_comm]
  | asked hash ref hinst =>
      obtain rfl : ref = ref' := Option.some.inj (hinst.symm.trans hinst')
      refine ⟨hkeyed, h.hashFunc, ref, (memo.get P.heap hash).2, hinst, ?_, ?_, ?_⟩
      · rw [algorithms_setAlgorithm_self, hmemo]
        rfl
      · have hstep : MemoDistri.step P.heap memo (.get hash) = some _ := rfl
        exact MemoDistri.listed_step (e := .get _) hlisted trivial hstep
      · intro server
        rw [(MemoDistri.servers_get P.heap memo hash).mem_iff]
        exact hservers server

/-- An empty list on which the algorithm `first` is installed. -/
def installed (P : Platform) (mHashFunc : Bytes → HashT)
    (algorithms : AlgorithmRef → DistributeAlgorithm) (first : AlgorithmRef) : ServerList :=
  ((new mHashFunc algorithms).setDistributeAlgorithm P first []).2

theorem onRing_installed (P : Platform) (mHashFunc : Bytes → HashT)
    {algorithms : AlgorithmRef → DistributeAlgorithm}
    {first : AlgorithmRef} (hfirst : algorithms first = .consistentHashDistri (.new replis)) :
    OnRing P mHashFunc replis (installed P mHashFunc algorithms first) where
  keyed := by
    intro key server hlookup
    cases hlookup
  hashFunc := rfl
  weight := fun server hmem => absurd hmem List.not_mem_nil
  ring := by
    refine ⟨first, .new replis, rfl, ?_, rfl, ?_⟩
    · exact (algorithms_setAlgorithm_self first _).trans hfirst
    · intro p server
      constructor
      · intro hp
        cases hp
      · rintro ⟨hmem, -⟩
        exact absurd (List.mem_toFinset.mp hmem) List.not_mem_nil

theorem onMemo_installed (P : Platform) (mHashFunc : Bytes → HashT)
    {algorithms : AlgorithmRef → DistributeAlgorithm}
    {first : AlgorithmRef} (hfirst : algorithms first = .memoDistri .new) :
    OnMemo mHashFunc (installed P mHashFunc algorithms first) where
  keyed := by
    intro key server hlookup
    cases hlookup
  hashFunc := rfl
  memo := by
    refine ⟨first, .new, rfl, ?_, MemoDistri.listed_new, fun server => Iff.rfl⟩
    exact (algorithms_setAlgorithm_self first _).trans hfirst

theorem OnRing.run {es : List Event} (h : OnRing P mHashFunc replis s)
    (hrun : Run (step P) (Apart P) s es s') : OnRing P mHashFunc replis s' :=
  hrun.invariant (fun _ _ _ h hapart hstep => h.changes (changes_of_step hapart hstep)) h

theorem OnMemo.run {es : List Event} (h : OnMemo mHashFunc s)
    (hrun : Run (step P) (Apart P) s es s') : OnMemo mHashFunc s' :=
  hrun.invariant (fun _ _ _ h hapart hstep => h.changes (changes_of_step hapart hstep)) h

/-! ## 2. Servers that stay -/

theorem OnRing.get_eq (h : OnRing P mHashFunc replis s) {key : Bytes}
    {server : Option ServerItem} (hget : s.get P key = .ok (server, s')) :
    ∃ ring, ring.mReplications = replis ∧
      ConsistentHashDistri.Owns P.md5 s.mServers.values.toFinset ring ∧
        server = ring.get (mHashFunc key) := by
  obtain ⟨ref', ring, hinst', hring, hreplis, howns⟩ := h.ring
  obtain ⟨ref, hinst, hserver, -⟩ := get_eq_ok hget
  obtain rfl : ref = ref' := Option.some.inj (hinst.symm.trans hinst')
  rw [hring, h.hashFunc] at hserver
  exact ⟨ring, hreplis, howns, hserver⟩

/-- A ring sends a key of which two states have different owners to a server that
    one of them does not list. -/
theorem OnRing.get_eq_get {last last' : ServerList} (h : OnRing P mHashFunc replis s)
    (hlast : OnRing P mHashFunc replis last) {key : Bytes} {server server' : ServerItem}
    (hget : s.get P key = .ok (some server, s'))
    (hget' : last.get P key = .ok (some server', last'))
    (hstays : server ∈ last.mServers.values) (hwas : server' ∈ s.mServers.values) :
    server = server' := by
  obtain ⟨ring, hreplis, howns, hserver⟩ := h.get_eq hget
  obtain ⟨ring', hreplis', howns', hserver'⟩ := hlast.get_eq hget'
  have howner := ConsistentHashDistri.get_eq_some_iff.mp hserver.symm
  apply howner.eq_of_common (ConsistentHashDistri.get_eq_some_iff.mp hserver'.symm)
  · intro p hp
    obtain ⟨-, hpoint⟩ := (howns p server).mp hp
    exact (howns' p server).mpr ⟨List.mem_toFinset.mpr hstays, by rwa [hreplis', ← hreplis]⟩
  · intro p hp
    obtain ⟨-, hpoint⟩ := (howns' p server').mp hp
    exact (howns p server').mpr ⟨List.mem_toFinset.mpr hwas, by rwa [hreplis, ← hreplis']⟩

/-- The server is memorized for the key for as long as it is listed; it does not come
    back. -/
structure Memorizes (mHashFunc : Bytes → HashT) (key : Bytes) (server : ServerItem)
    (s : ServerList) : Prop where
  onMemo : OnMemo mHashFunc s
  created : server.address < s.created
  known : server ∈ s.mServers.values → ∀ ref memo, s.mDistributeAlgorithm = some ref →
    s.algorithms ref = .memoDistri memo →
      memo.mKeyServerMapping.lookup (mHashFunc key) = some server

theorem Memorizes.changes {key : Bytes} {server : ServerItem}
    (h : Memorizes mHashFunc key server s) (hchanges : Changes P s s') :
    Memorizes mHashFunc key server s' := by
  have honMemo := h.onMemo.changes hchanges
  obtain ⟨ref', memo, hinst', hmemo, -, -⟩ := h.onMemo.memo
  -- the memo after an event, where the server has not been removed
  have hstep {e : MemoDistri.Event} {memo₁ memo₂ : MemoDistri} (hmem : server ∈ s.mServers.values)
      (hkeeps : MemoDistri.Keeps server memo e)
      (hmemo₁ : MemoDistri.step P.heap memo e = some memo₁)
      (heq : DistributeAlgorithm.memoDistri memo₁ = .memoDistri memo₂) :
      memo₂.mKeyServerMapping.lookup (mHashFunc key) = some server := by
    cases heq
    exact MemoDistri.lookup_step hkeeps hmemo₁ (h.known hmem ref' memo hinst' hmemo)
  cases hchanges with
  | same => exact h
  | added host port ref hnone hinst hapart =>
      obtain rfl : ref = ref' := Option.some.inj (hinst.symm.trans hinst')
      refine ⟨honMemo, Nat.lt_succ_of_lt h.created, ?_⟩
      intro hmem ref₂ memo₂ hinst₂ hmemo₂
      obtain rfl : ref = ref₂ := Option.some.inj (hinst.symm.trans hinst₂)
      have hmem : server ∈ (s.insertServer host port).2.mServers.values := hmem
      rw [values_insertServer hnone] at hmem
      rw [algorithms_setAlgorithm_self, hmemo] at hmemo₂
      rcases List.mem_cons.mp hmem with rfl | hold
      · exact absurd h.created (Nat.lt_irrefl _)
      · exact hstep (e := .add _) hold trivial rfl hmemo₂
  | removed key' other ref hserver hinst =>
      obtain rfl : ref = ref' := Option.some.inj (hinst.symm.trans hinst')
      refine ⟨honMemo, h.created, ?_⟩
      intro hmem ref₂ memo₂ hinst₂ hmemo₂
      obtain rfl : ref = ref₂ := Option.some.inj (hinst.symm.trans hinst₂)
      obtain ⟨hold, hne⟩ := (mem_values_erase_iff h.onMemo.keyed hserver).mp hmem
      have hmemo₂ := (algorithms_setAlgorithm_self ref _).symm.trans hmemo₂
      rw [hmemo] at hmemo₂
      exact hstep (e := .remove other) hold (Ne.symm hne) rfl hmemo₂
  | asked hash ref hinst =>
      obtain rfl : ref = ref' := Option.some.inj (hinst.symm.trans hinst')
      refine ⟨honMemo, h.created, ?_⟩
      intro hmem ref₂ memo₂ hinst₂ hmemo₂
      obtain rfl : ref = ref₂ := Option.some.inj (hinst.symm.trans hinst₂)
      rw [algorithms_setAlgorithm_self, hmemo] at hmemo₂
      exact hstep (e := .get hash) hmem trivial rfl hmemo₂

theorem memorizes_get (h : OnMemo mHashFunc s) {key : Bytes} {server : ServerItem}
    (hget : s.get P key = .ok (some server, s')) : Memorizes mHashFunc key server s' := by
  have honMemo := h.changes (changes_get hget)
  obtain ⟨ref', memo, hinst', hmemo, hlisted, hservers⟩ := h.memo
  obtain ⟨ref, hinst, hserver, rfl⟩ := get_eq_ok hget
  obtain rfl : ref = ref' := Option.some.inj (hinst.symm.trans hinst')
  rw [hmemo, h.hashFunc] at hserver
  have hlookup := MemoDistri.lookup_get hserver.symm
  refine ⟨honMemo, ?_, ?_⟩
  · have hstep : MemoDistri.step P.heap memo (.get (mHashFunc key)) = some _ := rfl
    have hafter := MemoDistri.listed_step (e := .get _) hlisted trivial hstep
    have hmem := hafter.mapped server (UnorderedMap.mem_values.mpr ⟨_, hlookup⟩)
    rw [(MemoDistri.servers_get P.heap memo _).mem_iff, hservers] at hmem
    obtain ⟨key', hkey'⟩ := UnorderedMap.mem_values.mp hmem
    exact (h.keyed key' server hkey').2
  · intro _ ref₂ memo₂ hinst₂ hmemo₂
    obtain rfl : ref = ref₂ := Option.some.inj (hinst.symm.trans hinst₂)
    rw [algorithms_setAlgorithm_self, hmemo, h.hashFunc] at hmemo₂
    cases hmemo₂
    exact hlookup

theorem Memorizes.run {es : List Event} {key : Bytes} {server : ServerItem}
    (h : Memorizes mHashFunc key server s) (hrun : Run (step P) (Apart P) s es s') :
    Memorizes mHashFunc key server s' :=
  hrun.invariant (fun _ _ _ h hapart hstep => h.changes (changes_of_step hapart hstep)) h

theorem Memorizes.get_eq {key : Bytes} {server : ServerItem} {server' : Option ServerItem}
    (h : Memorizes mHashFunc key server s) (hget : s.get P key = .ok (server', s'))
    (hstays : server ∈ s.mServers.values) : server' = some server := by
  obtain ⟨ref', memo, hinst', hmemo, hlisted, -⟩ := h.onMemo.memo
  obtain ⟨ref, hinst, rfl, -⟩ := get_eq_ok hget
  obtain rfl : ref = ref' := Option.some.inj (hinst.symm.trans hinst')
  rw [hmemo, h.onMemo.hashFunc]
  have hknown := h.known hstays ref memo hinst hmemo
  exact hlisted.get_known hknown

/-- **No key moves between two servers that stay.**  On a ring or a memorized
    distribution, in any run of additions, removals and lookups: if the server of a key
    is still listed at the end, and the one that has the key then was listed before,
    they are the same. -/
theorem key_stays {algorithms : AlgorithmRef → DistributeAlgorithm} {first : AlgorithmRef}
    (hfirst : algorithms first = .consistentHashDistri (.new replis) ∨
      algorithms first = .memoDistri .new)
    {mid mid' last last' : ServerList} {es fs : List Event}
    (hmid : Run (step P) (Apart P) (installed P mHashFunc algorithms first) es mid)
    {key : Bytes} {server server' : ServerItem} (hget : mid.get P key = .ok (some server, mid'))
    (hlast : Run (step P) (Apart P) mid' fs last)
    (hget' : last.get P key = .ok (some server', last'))
    (hstays : server ∈ last.mServers.values) (hwas : server' ∈ mid.mServers.values) :
    server' = server := by
  rcases hfirst with hring | hmemo
  · have honMid := (onRing_installed P mHashFunc hring).run hmid
    have honLast := (honMid.changes (changes_get hget)).run hlast
    exact (honMid.get_eq_get honLast hget hget' hstays hwas).symm
  · have honMid := (onMemo_installed P mHashFunc hmemo).run hmid
    have hmemorizes := (memorizes_get honMid hget).run hlast
    exact Option.some.inj (hmemorizes.get_eq hget' hstays)

def exampleHash (key : Bytes) : HashT := Fin.ofNat _ (0x30303030 + leValue key - 107)

/-- A ring that gives the key `k` to host `a`, and the key `l` to a host that does not
    begin with `a`. -/
def exampleRing : ServerList :=
  installed examplePlatform exampleHash (fun _ => .consistentHashDistri (.new 4)) 0

/-- `k` stays with host `a` when `b` leaves and `c` comes. -/
theorem key_stays_example :
    ∃ mid last : ServerList,
      exec (step examplePlatform) exampleRing [.add [97] 1, .add [98] 1] = some mid ∧
      exec (step examplePlatform) mid [.get [107], .remove [98] 1, .add [99] 1] = some last ∧
      ∀ server next, last.get examplePlatform [107] = .ok (some server, next) →
        server ∈ mid.mServers.values → server = ⟨0, [97], 1, 1⟩ := by
  have hexec : ((execGuarded (step examplePlatform) (Apart examplePlatform) exampleRing
      [.add [97] 1, .add [98] 1]).any fun mid =>
        (mid.get examplePlatform [107]).toOption.any fun first =>
          decide (first.1 = some ⟨0, [97], 1, 1⟩) &&
            (execGuarded (step examplePlatform) (Apart examplePlatform) first.2
              [.remove [98] 1, .add [99] 1]).any fun last =>
                decide (⟨0, [97], 1, 1⟩ ∈ last.mServers.values)) = true := by
    decide +kernel
  obtain ⟨mid, hmid, hrest⟩ := (Option.any_eq_true _ _).mp hexec
  obtain ⟨⟨first, mid'⟩, hget, hrest⟩ := (Option.any_eq_true _ _).mp hrest
  have hget := toOption_eq_some_iff.mp hget
  obtain ⟨hserver, hrest⟩ := (Bool.and_eq_true _ _).mp hrest
  obtain ⟨last, hlast, hstays⟩ := (Option.any_eq_true _ _).mp hrest
  obtain rfl : first = some ⟨0, [97], 1, 1⟩ := of_decide_eq_true hserver
  have hfirst := run_of_execGuarded hmid
  have hsecond := run_of_execGuarded hlast
  refine ⟨mid, last, hfirst.exec_eq, ?_, ?_⟩
  · have hstep : step examplePlatform mid (.get [107]) = some mid' := by
      rw [step, hget]
      rfl
    simp only [exec, hstep]
    exact hsecond.exec_eq
  · intro server next hget' hwas
    exact key_stays (Or.inl rfl) hfirst hget hsecond hget' (of_decide_eq_true hstays) hwas

end ServerList

end MemClient
