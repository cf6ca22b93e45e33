import MemClient.DistributeAlgorithm

/-!
# The server list

`serverManager/ServerList.cpp`: the table of servers by their string, and the
installed distribution algorithm, which is an object on a heap of such objects
that the caller keeps.  Section 3: the installed algorithm refers to listed
servers only, and no other object to any (`Routed`).
-/

namespace MemClient

open ByteCodec EventRun

/-! ## 1. State -/

/-- The address of a `DistributeAlgorithm` object. -/
abbrev AlgorithmRef := Nat

/-- `created` numbers the server objects made so far. -/
structure ServerList where
  mServers : UnorderedMap Bytes ServerItem
  mDistributeAlgorithm : Option AlgorithmRef
  mHashFunc : Bytes → HashT
  algorithms : AlgorithmRef → DistributeAlgorithm
  created : Nat

namespace ServerList

/-- The constructor, with the objects that may be installed later. -/
def new (mHashFunc : Bytes → HashT) (algorithms : AlgorithmRef → DistributeAlgorithm) :
    ServerList where
  mServers := ∅
  mDistributeAlgorithm := none
  mHashFunc := mHashFunc
  algorithms := algorithms
  created := 0

def setAlgorithm (s : ServerList) (ref : AlgorithmRef) (a : DistributeAlgorithm) : ServerList :=
  { s with algorithms := Function.update s.algorithms ref a }

/-! ## 2. Operations -/

variable (P : Platform)

/-- The first half of `Add`: the new server in the table.  It has the default
    weight. -/
def insertServer (s : ServerList) (host : Bytes) (port : BitVec 32) : ServerItem × ServerList :=
  let server : ServerItem := ⟨s.created, host, port, 1⟩
  (server,
    { s with
      mServers := s.mServers.insert (ServerItem.toStringOf host port) server
      created := s.created + 1 })

/-- `Add`, when `Connect` does not throw. -/
def add (s : ServerList) (host : Bytes) (port : BitVec 32) :
    Except MissingFault (Bool × ServerList) :=
  match s.mServers.lookup (ServerItem.toStringOf host port) with
  | some _ => .ok (false, s)
  | none =>
      let (server, s) := s.insertServer host port
      match s.mDistributeAlgorithm with
      | some ref => .ok (true, s.setAlgorithm ref ((s.algorithms ref).add P server))
      | none => .error .nullAlgorithm

def remove (s : ServerList) (host : Bytes) (port : BitVec 32) :
    Except MissingFault (Bool × ServerList) :=
  let key := ServerItem.toStringOf host port
  match s.mServers.lookup key with
  | some server =>
      match s.mDistributeAlgorithm with
      | some ref =>
          let s := s.setAlgorithm ref ((s.algorithms ref).remove server)
          .ok (true, { s with mServers := s.mServers.erase key })
      | none => .error .nullAlgorithm
  | none => .ok (false, s)

/-- `Get(key)`. -/
def get (s : ServerList) (key : Bytes) :
    Except MissingFault (Option ServerItem × ServerList) :=
  match s.mDistributeAlgorithm with
  | some ref =>
      match (s.algorithms ref).get P (s.mHashFunc key) with
      | .ok (server, a) => .ok (server, s.setAlgorithm ref a)
      | .error fault => .error fault
  | none => .error .nullAlgorithm

/-- `Get(host, port)`. -/
def getServer (s : ServerList) (host : Bytes) (port : BitVec 32) : Option ServerItem :=
  s.mServers.lookup (ServerItem.toStringOf host port)

/-- `SetDistributeAlgorithm`; `order` is the order in which the hash table is
    traversed. -/
def setDistributeAlgorithm (s : ServerList) (algorithm : AlgorithmRef) (order : List ServerItem) :
    Option AlgorithmRef × ServerList :=
  let oldAlgorithm := s.mDistributeAlgorithm
  let s := { s with mDistributeAlgorithm := some algorithm }
  let s := s.setAlgorithm algorithm
    (order.foldl (fun a server => a.add P server) (s.algorithms algorithm))
  match oldAlgorithm with
  | some old => (oldAlgorithm, s.setAlgorithm old (s.algorithms old).clear)
  | none => (oldAlgorithm, s)

def count (s : ServerList) : Nat := s.mServers.size

inductive Event where
  | add (host : Bytes) (port : BitVec 32)
  | remove (host : Bytes) (port : BitVec 32)
  | get (key : Bytes)
  | setDistributeAlgorithm (algorithm : AlgorithmRef) (order : List ServerItem)

/-- A fault ends the run; a traversal visits every server once. -/
def step (s : ServerList) : Event → Option ServerList
  | .add host port => (s.add P host port).toOption.map Prod.snd
  | .remove host port => (s.remove host port).toOption.map Prod.snd
  | .get key => (s.get P key).toOption.map Prod.snd
  | .setDistributeAlgorithm algorithm order =>
      if order.Perm s.mServers.values then some (s.setDistributeAlgorithm P algorithm order).2
      else none

end ServerList

/-! ## 3. Keys are routed to listed servers -/

namespace ServerList

/-- Every server is in the table under its string, and the next one will have a new
    address. -/
def Keyed (s : ServerList) : Prop :=
  ∀ key server, s.mServers.lookup key = some server →
    key = server.toString ∧ server.address < s.created

/-- Every object that refers to a server is the installed one, and the server is
    in the list. -/
structure Routed (s : ServerList) : Prop where
  key : ∀ key server, s.mServers.lookup key = some server →
    key = server.toString ∧ server.address < s.created
  holds : ∀ ref server, (s.algorithms ref).Holds server →
    s.mDistributeAlgorithm = some ref ∧ server ∈ s.mServers.values
  single : ∀ ref, (s.algorithms ref).Single

variable {P} {s s' : ServerList}

theorem Keyed.nodup_values (h : Keyed s) : s.mServers.values.Nodup := by
  have hkeys : s.mServers.values.map ServerItem.toString = s.mServers.keys := by
    unfold UnorderedMap.values AList.keys List.keys
    rw [List.map_map]
    apply List.map_congr_left
    rintro ⟨key, server⟩ hmem
    exact (h key server (AList.mem_lookup_iff.mpr hmem)).1.symm
  refine List.Nodup.of_map ServerItem.toString ?_
  rw [hkeys]
  exact s.mServers.keys_nodup

theorem Keyed.insertServer_notMem (h : Keyed s) (host : Bytes) (port : BitVec 32) :
    (s.insertServer host port).1 ∉ s.mServers.values := by
  intro hmem
  obtain ⟨key, hlookup⟩ := UnorderedMap.mem_values.mp hmem
  exact absurd (h key _ hlookup).2 (Nat.lt_irrefl _)

theorem routed_new {mHashFunc : Bytes → HashT} {algorithms : AlgorithmRef → DistributeAlgorithm}
    (hempty : ∀ ref server, ¬ (algorithms ref).Holds server) :
    Routed (new mHashFunc algorithms) where
  key := by
    intro key server hlookup
    cases hlookup
  holds := fun ref server hholds => absurd hholds (hempty ref server)
  single := fun ref => DistributeAlgorithm.single_of_empty (hempty ref)

theorem algorithms_setAlgorithm (s : ServerList) (ref ref' : AlgorithmRef)
    (a : DistributeAlgorithm) :
    (s.setAlgorithm ref a).algorithms ref' = if ref' = ref then a else s.algorithms ref' := by
  unfold setAlgorithm
  exact Function.update_apply s.algorithms ref a ref'

theorem add_eq_ok {host : Bytes} {port : BitVec 32} {b : Bool}
    (h : s.add P host port = .ok (b, s')) :
    (b = false ∧ s' = s) ∨
    (b = true ∧ s.mServers.lookup (ServerItem.toStringOf host port) = none ∧
      ∃ ref, s.mDistributeAlgorithm = some ref ∧
        s' = (s.insertServer host port).2.setAlgorithm ref
          ((s.algorithms ref).add P (s.insertServer host port).1)) := by
  unfold add at h
  cases hlookup : s.mServers.lookup (ServerItem.toStringOf host port) with
  | some server =>
      rw [hlookup] at h
      cases h
      exact Or.inl ⟨rfl, rfl⟩
  | none =>
      rw [hlookup] at h
      have hsame : (s.insertServer host port).2.mDistributeAlgorithm = s.mDistributeAlgorithm := rfl
      cases hinst : s.mDistributeAlgorithm with
      | none => simp [hsame, hinst] at h
      | some ref =>
          simp only [hsame, hinst] at h
          cases h
          exact Or.inr ⟨rfl, rfl, ref, rfl, rfl⟩

theorem remove_eq_ok {host : Bytes} {port : BitVec 32} {b : Bool}
    (h : s.remove host port = .ok (b, s')) :
    (b = false ∧ s' = s ∧ s.mServers.lookup (ServerItem.toStringOf host port) = none) ∨
    (b = true ∧ ∃ server, s.mServers.lookup (ServerItem.toStringOf host port) = some server ∧
      ∃ ref, s.mDistributeAlgorithm = some ref ∧
        s' = { s.setAlgorithm ref ((s.algorithms ref).remove server) with
          mServers := s.mServers.erase (ServerItem.toStringOf host port) }) := by
  unfold remove at h
  cases hlookup : s.mServers.lookup (ServerItem.toStringOf host port) with
  | none =>
      simp only [hlookup] at h
      cases h
      exact Or.inl ⟨rfl, rfl, rfl⟩
  | some server =>
      cases hinst : s.mDistributeAlgorithm with
      | none => simp [hlookup, hinst] at h
      | some ref =>
          simp only [hlookup, hinst] at h
          cases h
          exact Or.inr ⟨rfl, server, rfl, ref, rfl, rfl⟩

theorem get_eq_ok {key : Bytes} {server : Option ServerItem} (h : s.get P key = .ok (server, s')) :
    ∃ ref, s.mDistributeAlgorithm = some ref ∧
      server = ((s.algorithms ref).find P (s.mHashFunc key)).1 ∧
      s' = s.setAlgorithm ref ((s.algorithms ref).find P (s.mHashFunc key)).2 := by
  unfold get at h
  cases hinst : s.mDistributeAlgorithm with
  | none => simp [hinst] at h
  | some ref =>
      simp only [hinst] at h
      cases hget : (s.algorithms ref).get P (s.mHashFunc key) with
      | error fault => simp [hget] at h
      | ok outcome =>
          simp only [hget] at h
          cases h
          obtain rfl := DistributeAlgorithm.get_eq_ok hget
          exact ⟨ref, rfl, rfl, rfl⟩

theorem keyed_insertServer (h : Keyed s) {host : Bytes} {port : BitVec 32} :
    Keyed (s.insertServer host port).2 := by
  intro key server hlookup
  have hlookup : (s.mServers.insert (ServerItem.toStringOf host port)
    (s.insertServer host port).1).lookup key = some server := hlookup
  rw [UnorderedMap.lookup_insert_eq] at hlookup
  split at hlookup
  · next hkey =>
      cases hlookup
      exact ⟨hkey, Nat.lt_succ_self _⟩
  · obtain ⟨hkey, haddr⟩ := h key server hlookup
    exact ⟨hkey, Nat.lt_succ_of_lt haddr⟩

theorem keyed_erase (h : Keyed s) (key : Bytes) :
    Keyed { s with mServers := s.mServers.erase key } := by
  intro key' server hlookup
  have hlookup : (s.mServers.erase key).lookup key' = some server := hlookup
  rw [UnorderedMap.lookup_erase_eq] at hlookup
  split at hlookup
  · cases hlookup
  · exact h key' server hlookup

theorem routed_add (h : Routed s) {host : Bytes} {port : BitVec 32} {b : Bool}
    (hadd : s.add P host port = .ok (b, s')) : Routed s' := by
  rcases add_eq_ok hadd with ⟨-, rfl⟩ | ⟨-, hnone, ref, hinst, rfl⟩
  · exact h
  · have hvalues := UnorderedMap.values_insert_of_lookup_eq_none hnone
      (s.insertServer host port).1
    constructor
    · exact keyed_insertServer h.key
    · intro ref' server hholds
      rw [algorithms_setAlgorithm] at hholds
      show s.mDistributeAlgorithm = some ref' ∧ server ∈ UnorderedMap.values
        (s.mServers.insert (ServerItem.toStringOf host port) (s.insertServer host port).1)
      rw [hvalues]
      split at hholds
      · next href =>
          refine ⟨href ▸ hinst, ?_⟩
          rcases DistributeAlgorithm.holds_add hholds with rfl | hold
          · exact List.mem_cons_self
          · exact List.mem_cons_of_mem _ (h.holds ref server hold).2
      · obtain ⟨href, hmem⟩ := h.holds ref' server hholds
        exact ⟨href, List.mem_cons_of_mem _ hmem⟩
    · intro ref'
      rw [algorithms_setAlgorithm]
      split
      · refine DistributeAlgorithm.single_add (h.single ref) fun hholds => ?_
        exact Keyed.insertServer_notMem h.key host port (h.holds ref _ hholds).2
      · exact h.single ref'

theorem mem_values_add {host : Bytes} {port : BitVec 32} {b : Bool}
    (hadd : s.add P host port = .ok (b, s')) {server : ServerItem}
    (hmem : server ∈ s.mServers.values) : server ∈ s'.mServers.values := by
  rcases add_eq_ok hadd with ⟨-, rfl⟩ | ⟨-, hnone, ref, -, rfl⟩
  · exact hmem
  · show server ∈ UnorderedMap.values (s.mServers.insert (ServerItem.toStringOf host port)
      (s.insertServer host port).1)
    rw [UnorderedMap.values_insert_of_lookup_eq_none hnone]
    exact List.mem_cons_of_mem _ hmem

theorem mem_values_remove {host : Bytes} {port : BitVec 32} {b : Bool}
    (hremove : s.remove host port = .ok (b, s')) {removed server : ServerItem}
    (hremoved : s.getServer host port = some removed) (hmem : server ∈ s.mServers.values)
    (hne : server ≠ removed) : server ∈ s'.mServers.values := by
  rcases remove_eq_ok hremove with ⟨-, rfl, -⟩ | ⟨-, -, -, ref, -, rfl⟩
  · exact hmem
  · exact UnorderedMap.mem_values_erase_of_ne hremoved hmem hne

theorem routed_remove (h : Routed s) {host : Bytes} {port : BitVec 32} {b : Bool}
    (hremove : s.remove host port = .ok (b, s')) : Routed s' := by
  rcases remove_eq_ok hremove with ⟨-, rfl, -⟩ | ⟨-, server, hserver, ref, hinst, rfl⟩
  · exact h
  · constructor
    · exact keyed_erase h.key _
    · intro ref' other hholds
      have hholds : ((s.setAlgorithm ref ((s.algorithms ref).remove server)).algorithms ref').Holds
        other := hholds
      rw [algorithms_setAlgorithm] at hholds
      show s.mDistributeAlgorithm = some ref' ∧ other ∈ UnorderedMap.values (s.mServers.erase _)
      split at hholds
      · next href =>
          obtain ⟨hne, hold⟩ := DistributeAlgorithm.holds_remove (h.single ref) hholds
          have hmem := (h.holds ref other hold).2
          exact ⟨href ▸ hinst, UnorderedMap.mem_values_erase_of_ne hserver hmem hne⟩
      · next href =>
          have hinst' := (h.holds ref' other hholds).1
          rw [hinst] at hinst'
          exact absurd (Option.some.inj hinst').symm href
    · intro ref'
      show ((s.setAlgorithm ref ((s.algorithms ref).remove server)).algorithms ref').Single
      rw [algorithms_setAlgorithm]
      split
      · exact DistributeAlgorithm.single_remove (h.single ref)
      · exact h.single ref'

theorem routed_get (h : Routed s) {key : Bytes} {server : Option ServerItem}
    (hget : s.get P key = .ok (server, s')) : Routed s' := by
  obtain ⟨ref, hinst, -, rfl⟩ := get_eq_ok hget
  constructor
  · exact h.key
  · intro ref' other hholds
    rw [algorithms_setAlgorithm] at hholds
    split at hholds
    · next href => exact href ▸ h.holds ref other (DistributeAlgorithm.holds_find hholds)
    · exact h.holds ref' other hholds
  · intro ref'
    rw [algorithms_setAlgorithm]
    split
    · exact DistributeAlgorithm.single_find (h.single ref)
    · exact h.single ref'

theorem mem_values_of_get (h : Routed s) {key : Bytes} {server : ServerItem}
    (hget : s.get P key = .ok (some server, s')) : server ∈ s.mServers.values := by
  obtain ⟨ref, -, hfind, -⟩ := get_eq_ok hget
  exact (h.holds ref server (DistributeAlgorithm.holds_of_find hfind.symm)).2

/-- The installed object as `SetDistributeAlgorithm` fills it. -/
theorem algorithms_setDistributeAlgorithm (s : ServerList) (ref : AlgorithmRef)
    (order : List ServerItem) (ref' : AlgorithmRef) :
    let filled := fun r => if r = ref then
      order.foldl (fun a server => a.add P server) (s.algorithms ref) else s.algorithms r
    (s.setDistributeAlgorithm P ref order).2.algorithms ref' =
      if s.mDistributeAlgorithm = some ref' then (filled ref').clear else filled ref' := by
  intro filled
  have hfilled : ∀ r, (({ s with mDistributeAlgorithm := some ref } : ServerList).setAlgorithm ref
      (order.foldl (fun a server => a.add P server) (s.algorithms ref))).algorithms r = filled r :=
    fun r => algorithms_setAlgorithm _ ref r _
  unfold setDistributeAlgorithm
  cases s.mDistributeAlgorithm with
  | none =>
      rw [if_neg (by simp)]
      exact hfilled ref'
  | some old =>
      dsimp only
      rw [algorithms_setAlgorithm, hfilled, hfilled]
      by_cases hold : ref' = old
      · rw [if_pos hold, if_pos (by rw [hold]), hold]
      · rw [if_neg hold, if_neg (by simpa using Ne.symm hold)]

theorem setDistributeAlgorithm_frame (s : ServerList) (ref : AlgorithmRef)
    (order : List ServerItem) :
    (s.setDistributeAlgorithm P ref order).2.mServers = s.mServers ∧
      (s.setDistributeAlgorithm P ref order).2.created = s.created ∧
      (s.setDistributeAlgorithm P ref order).2.mDistributeAlgorithm = some ref := by
  unfold setDistributeAlgorithm
  cases s.mDistributeAlgorithm with
  | none => exact ⟨rfl, rfl, rfl⟩
  | some old => exact ⟨rfl, rfl, rfl⟩

/-- A property of objects that every operation keeps. -/
structure Kept (P : Platform) (Q : DistributeAlgorithm → Prop) : Prop where
  add : ∀ a server, Q a → Q (a.add P server)
  remove : ∀ a server, Q a → Q (a.remove server)
  find : ∀ a hash, Q a → Q (a.find P hash).2
  clear : ∀ a, Q a → Q a.clear

theorem kept_clears : Kept P DistributeAlgorithm.Clears where
  add := fun _ _ h => DistributeAlgorithm.clears_add.mpr h
  remove := fun _ _ h => DistributeAlgorithm.clears_remove.mpr h
  find := fun _ _ h => DistributeAlgorithm.clears_find.mpr h
  clear := fun _ h => DistributeAlgorithm.clears_clear.mpr h

variable {Q : DistributeAlgorithm → Prop}

theorem Kept.foldl_add (hkept : Kept P Q) {servers : List ServerItem} {a : DistributeAlgorithm}
    (h : Q a) : Q (servers.foldl (fun a server => a.add P server) a) := by
  induction servers generalizing a with
  | nil => exact h
  | cons server servers ih => exact ih (hkept.add a server h)

theorem forall_setAlgorithm (h : ∀ ref, Q (s.algorithms ref)) (ref : AlgorithmRef)
    {a : DistributeAlgorithm} (ha : Q a) (ref' : AlgorithmRef) :
    Q ((s.setAlgorithm ref a).algorithms ref') := by
  rw [algorithms_setAlgorithm]
  split
  · exact ha
  · exact h ref'

theorem Kept.setDistributeAlgorithm (hkept : Kept P Q) (h : ∀ ref, Q (s.algorithms ref))
    (ref : AlgorithmRef) (order : List ServerItem) (ref' : AlgorithmRef) :
    Q ((s.setDistributeAlgorithm P ref order).2.algorithms ref') := by
  rw [algorithms_setDistributeAlgorithm]
  have hfilled : Q (if ref' = ref then
      order.foldl (fun a server => a.add P server) (s.algorithms ref)
      else s.algorithms ref') := by
    split
    · exact hkept.foldl_add (h ref)
    · exact h ref'
  split
  · exact hkept.clear _ hfilled
  · exact hfilled

/-- Switching algorithms: the new object gets the listed servers and the old one
    is cleared; when they are the same object it ends up empty. -/
theorem routed_setDistributeAlgorithm (h : Routed s) (hclears : ∀ ref, (s.algorithms ref).Clears)
    {ref : AlgorithmRef} {order : List ServerItem} (horder : order.Perm s.mServers.values) :
    Routed (s.setDistributeAlgorithm P ref order).2 := by
  obtain ⟨hservers, hcreated, hinst⟩ := s.setDistributeAlgorithm_frame (P := P) ref order
  have hcleared : ∀ ref', s.mDistributeAlgorithm = some ref' → ∀ server,
      ¬ ((s.setDistributeAlgorithm P ref order).2.algorithms ref').Holds server := by
    intro ref' hold server
    have hclears' := kept_clears.setDistributeAlgorithm (P := P) hclears ref order ref'
    rw [algorithms_setDistributeAlgorithm, if_pos hold] at hclears' ⊢
    exact DistributeAlgorithm.not_holds_clear (DistributeAlgorithm.clears_clear.mp hclears')
  constructor
  · rw [hservers, hcreated]
    exact h.key
  · intro ref' server hholds
    rw [hservers, hinst]
    by_cases hold : s.mDistributeAlgorithm = some ref'
    · exact absurd hholds (hcleared ref' hold server)
    · rw [algorithms_setDistributeAlgorithm, if_neg hold] at hholds
      dsimp only at hholds
      split at hholds
      · next href =>
          refine ⟨congrArg some href.symm, ?_⟩
          rcases DistributeAlgorithm.holds_foldl_add hholds with hmem | hold'
          · exact horder.mem_iff.mp hmem
          · exact (h.holds ref server hold').2
      · exact absurd (h.holds ref' server hholds).1 hold
  · intro ref'
    by_cases hold : s.mDistributeAlgorithm = some ref'
    · exact DistributeAlgorithm.single_of_empty (hcleared ref' hold)
    · rw [algorithms_setDistributeAlgorithm, if_neg hold]
      dsimp only
      split
      · next href =>
          refine DistributeAlgorithm.single_foldl_add (h.single ref)
            (horder.nodup_iff.mpr (Keyed.nodup_values h.key)) fun server _ hholds => ?_
          exact hold (href ▸ (h.holds ref server hholds).1)
      · exact h.single ref'

/-- The first algorithm is installed into an empty list. -/
theorem routed_first {mHashFunc : Bytes → HashT} {algorithms : AlgorithmRef → DistributeAlgorithm}
    (hempty : ∀ ref server, ¬ (algorithms ref).Holds server) (first : AlgorithmRef) :
    Routed ((new mHashFunc algorithms).setDistributeAlgorithm P first []).2 := by
  have halgorithms :
      ((new mHashFunc algorithms).setDistributeAlgorithm P first []).2.algorithms = algorithms :=
    Function.update_eq_self first algorithms
  have hnew : Routed (new mHashFunc algorithms) := routed_new hempty
  constructor
  · exact hnew.key
  · intro ref server hholds
    rw [halgorithms] at hholds
    exact absurd hholds (hempty ref server)
  · intro ref
    rw [halgorithms]
    exact DistributeAlgorithm.single_of_empty (hempty ref)

theorem step_add_iff {host : Bytes} {port : BitVec 32} :
    step P s (.add host port) = some s' ↔ ∃ b, s.add P host port = .ok (b, s') := by
  simp [step, toOption_eq_some_iff]

theorem step_remove_iff {host : Bytes} {port : BitVec 32} :
    step P s (.remove host port) = some s' ↔ ∃ b, s.remove host port = .ok (b, s') := by
  simp [step, toOption_eq_some_iff]

theorem step_get_iff {key : Bytes} :
    step P s (.get key) = some s' ↔ ∃ server, s.get P key = .ok (server, s') := by
  simp [step, toOption_eq_some_iff]

theorem step_setDistributeAlgorithm_iff {ref : AlgorithmRef} {order : List ServerItem} :
    step P s (.setDistributeAlgorithm ref order) = some s' ↔
      order.Perm s.mServers.values ∧ s' = (s.setDistributeAlgorithm P ref order).2 := by
  simp [step, eq_comm]

theorem kept_step (hkept : Kept P Q) (h : ∀ ref, Q (s.algorithms ref)) {e : Event}
    (hstep : step P s e = some s') : ∀ ref, Q (s'.algorithms ref) := by
  cases e with
  | add host port =>
      obtain ⟨b, hadd⟩ := step_add_iff.mp hstep
      rcases add_eq_ok hadd with ⟨-, rfl⟩ | ⟨-, -, ref, -, rfl⟩
      · exact h
      · exact forall_setAlgorithm h ref (hkept.add _ _ (h ref))
  | remove host port =>
      obtain ⟨b, hremove⟩ := step_remove_iff.mp hstep
      rcases remove_eq_ok hremove with ⟨-, rfl, -⟩ | ⟨-, server, -, ref, -, rfl⟩
      · exact h
      · exact forall_setAlgorithm h ref (hkept.remove _ _ (h ref))
  | get key =>
      obtain ⟨server, hget⟩ := step_get_iff.mp hstep
      obtain ⟨ref, -, -, rfl⟩ := get_eq_ok hget
      exact forall_setAlgorithm h ref (hkept.find _ _ (h ref))
  | setDistributeAlgorithm ref order =>
      obtain ⟨-, rfl⟩ := step_setDistributeAlgorithm_iff.mp hstep
      exact hkept.setDistributeAlgorithm h ref order

theorem routed_step (h : Routed s) (hclears : ∀ ref, (s.algorithms ref).Clears) {e : Event}
    (hstep : step P s e = some s') : Routed s' := by
  cases e with
  | add host port =>
      obtain ⟨b, hadd⟩ := step_add_iff.mp hstep
      exact routed_add h hadd
  | remove host port =>
      obtain ⟨b, hremove⟩ := step_remove_iff.mp hstep
      exact routed_remove h hremove
  | get key =>
      obtain ⟨server, hget⟩ := step_get_iff.mp hstep
      exact routed_get h hget
  | setDistributeAlgorithm ref order =>
      obtain ⟨horder, rfl⟩ := step_setDistributeAlgorithm_iff.mp hstep
      exact routed_setDistributeAlgorithm h hclears horder

/-- Objects with a property that makes `Clear` clear, from when none holds a server. -/
theorem routed_run (hkept : Kept P Q) (hclears : ∀ a, Q a → a.Clears) {es : List Event}
    (hrun : Run (step P) Free s es s') (hrouted : Routed s) (h : ∀ ref, Q (s.algorithms ref)) :
    Routed s' ∧ ∀ ref, Q (s'.algorithms ref) :=
  hrun.invariant (I := fun s => Routed s ∧ ∀ ref, Q (s.algorithms ref))
    (fun _ _ _ h _ hstep =>
      ⟨routed_step h.1 (fun ref => hclears _ (h.2 ref)) hstep, kept_step hkept h.2 hstep⟩)
    ⟨hrouted, h⟩

/-- **Keys are routed to listed servers.**  Rings and memorized distributions that
    start empty are installed, replaced and installed again: `Get` returns null or
    a server of the list, and no object but the installed one holds a server. -/
theorem get_listed {mHashFunc : Bytes → HashT} {algorithms : AlgorithmRef → DistributeAlgorithm}
    (hclears : ∀ ref, (algorithms ref).Clears)
    (hempty : ∀ ref server, ¬ (algorithms ref).Holds server) {first : AlgorithmRef}
    {es : List Event}
    (hrun : Run (step P) Free
      ((new mHashFunc algorithms).setDistributeAlgorithm P first []).2 es s) :
    (∀ key server s', s.get P key = .ok (server, s') →
      server = none ∨ ∃ item ∈ s.mServers.values, server = some item) ∧
    ∀ ref, s.mDistributeAlgorithm ≠ some ref → ∀ server, ¬ (s.algorithms ref).Holds server := by
  obtain ⟨hrouted, -⟩ := routed_run kept_clears (fun _ h => h) hrun
    (routed_setDistributeAlgorithm (routed_new hempty) hclears (.refl _))
    (kept_clears.setDistributeAlgorithm hclears first [])
  constructor
  · intro key server s' hget
    cases server with
    | none => exact Or.inl rfl
    | some item => exact Or.inr ⟨item, mem_values_of_get hrouted hget, rfl⟩
  · intro ref hne server hholds
    exact hne (hrouted.holds ref server hholds).1

/-- A debug build with sifting heap algorithms, for the executions below. -/
def examplePlatform : Platform where
  md5 := ConsistentHashDistri.firstLetterDigest
  heap := (BinaryHeap.siftHeap ServerBalanceInfo).toHeapAlgorithms
  ndebug := false

/-- A ring at address 0 and memorized distributions elsewhere. -/
def exampleAlgorithms (ref : AlgorithmRef) : DistributeAlgorithm :=
  if ref = 0 then .consistentHashDistri (.new 200) else .memoDistri .new

def exampleList : ServerList :=
  ((new (fun _ => 0) exampleAlgorithms).setDistributeAlgorithm examplePlatform 1 []).2

theorem not_holds_exampleAlgorithms (ref : AlgorithmRef) (server : ServerItem) :
    ¬ (exampleAlgorithms ref).Holds server := by
  unfold exampleAlgorithms
  split
  · rintro ⟨p, hp⟩
    cases hp
  · rintro (hserver | hvalue)
    · cases hserver
    · cases hvalue

theorem clears_exampleAlgorithms (ref : AlgorithmRef) : (exampleAlgorithms ref).Clears := by
  unfold exampleAlgorithms
  split <;> trivial

/-- The object installed last is installed again, which empties it. -/
theorem get_listed_example :
    ∃ s, exec (step examplePlatform) exampleList
        [.add [97] 1, .setDistributeAlgorithm 2 [⟨0, [97], 1, 1⟩],
          .setDistributeAlgorithm 2 [⟨0, [97], 1, 1⟩], .add [98] 1] = some s ∧
      (∀ key server s', s.get examplePlatform key = .ok (server, s') →
        server = none ∨ ∃ item ∈ s.mServers.values, server = some item) ∧
      ∀ ref, s.mDistributeAlgorithm ≠ some ref →
        ∀ server, ¬ (s.algorithms ref).Holds server := by
  have hsome : (exec (step examplePlatform) exampleList
      [.add [97] 1, .setDistributeAlgorithm 2 [⟨0, [97], 1, 1⟩],
        .setDistributeAlgorithm 2 [⟨0, [97], 1, 1⟩], .add [98] 1]).isSome := by
    decide +kernel
  obtain ⟨s, hs⟩ := Option.isSome_iff_exists.mp hsome
  exact ⟨s, hs, get_listed clears_exampleAlgorithms not_holds_exampleAlgorithms
    (run_of_exec (fun _ _ _ => trivial) hs)⟩

end ServerList

end MemClient
