import MemClient.ConsistentHashDistri
import MemClient.MemoDistri

/-!
# Distribution algorithms

The interface `DistributeAlgorithm` and its three implementations: the hash ring,
the memorized distribution and `serverManager/ModuloDistri.cpp`.  Section 3: which
servers an object holds after each operation.  Section 4: `Get` finds a server
exactly when there is one to find.
-/

namespace MemClient

open ByteCodec BinaryHeap

/-! ## 1. Modulo -/

structure ModuloDistri where
  mServers : List ServerItem

namespace ModuloDistri

def add (modulo : ModuloDistri) (pServer : ServerItem) : ModuloDistri :=
  { modulo with mServers := modulo.mServers ++ [pServer] }

def remove (modulo : ModuloDistri) (pServer : ServerItem) : ModuloDistri :=
  { modulo with mServers := modulo.mServers.eraseP fun server => decide (server = pServer) }

def get (modulo : ModuloDistri) (hash : HashT) : Option ServerItem :=
  if modulo.mServers.length ≠ 0 then modulo.mServers[hash.val % modulo.mServers.length]? else none

/-- `Clear` has an empty body. -/
def clear (modulo : ModuloDistri) : ModuloDistri := modulo

end ModuloDistri

/-! ## 2. The interface -/

/-- What the program is built with: the digest function, the heap algorithms of
    the standard library, and whether `NDEBUG` removes the assertions. -/
structure Platform where
  md5 : Bytes → HexDigest
  heap : HeapAlgorithms ServerBalanceInfo
  ndebug : Bool

/-- An operation on something that is not there. -/
inductive MissingFault where
  | nullAlgorithm
  | assertion
  | nullServer
deriving DecidableEq, Repr

/-- An object behind a `DistributeAlgorithm::Ptr`. -/
inductive DistributeAlgorithm where
  | consistentHashDistri (ring : ConsistentHashDistri)
  | memoDistri (memo : MemoDistri)
  | moduloDistri (modulo : ModuloDistri)

namespace DistributeAlgorithm

variable (P : Platform)

def add (a : DistributeAlgorithm) (pServer : ServerItem) : DistributeAlgorithm :=
  match a with
  | .consistentHashDistri ring => .consistentHashDistri (ring.add P.md5 pServer)
  | .memoDistri memo => .memoDistri (memo.add P.heap pServer)
  | .moduloDistri modulo => .moduloDistri (modulo.add pServer)

def remove (a : DistributeAlgorithm) (pServer : ServerItem) : DistributeAlgorithm :=
  match a with
  | .consistentHashDistri ring => .consistentHashDistri (ring.remove pServer)
  | .memoDistri memo => .memoDistri (memo.remove pServer)
  | .moduloDistri modulo => .moduloDistri (modulo.remove pServer)

/-- `0 == size()` of the container that `Get` takes servers from. -/
def isEmpty (a : DistributeAlgorithm) : Bool :=
  match a with
  | .consistentHashDistri ring => ring.mCircle.entries.isEmpty
  | .memoDistri memo => memo.mBalanceInfos.isEmpty
  | .moduloDistri modulo => modulo.mServers.isEmpty

/-- What `Get` does after the assertion. -/
def find (a : DistributeAlgorithm) (hash : HashT) : Option ServerItem × DistributeAlgorithm :=
  match a with
  | .consistentHashDistri ring => (ring.get hash, .consistentHashDistri ring)
  | .memoDistri memo => ((memo.get P.heap hash).1, .memoDistri (memo.get P.heap hash).2)
  | .moduloDistri modulo => (modulo.get hash, .moduloDistri modulo)

/-- `Get`, which first asserts that there is a server. -/
def get (a : DistributeAlgorithm) (hash : HashT) :
    Except MissingFault (Option ServerItem × DistributeAlgorithm) :=
  if a.isEmpty && !P.ndebug then .error .assertion else .ok (a.find P hash)

def clear (a : DistributeAlgorithm) : DistributeAlgorithm :=
  match a with
  | .consistentHashDistri ring => .consistentHashDistri ring.clear
  | .memoDistri memo => .memoDistri memo.clear
  | .moduloDistri modulo => .moduloDistri modulo.clear

/-! ## 3. Held servers -/

/-- The object refers to the server anywhere, the remembered hashes included. -/
def Holds (a : DistributeAlgorithm) (server : ServerItem) : Prop :=
  match a with
  | .consistentHashDistri ring => ∃ p, ring.mCircle.find? p = some server
  | .memoDistri memo => server ∈ memo.servers ∨ server ∈ memo.mKeyServerMapping.values
  | .moduloDistri modulo => server ∈ modulo.mServers

/-- No server is listed twice, so `Remove` removes it whole. -/
def Single (a : DistributeAlgorithm) : Prop :=
  match a with
  | .consistentHashDistri _ => True
  | .memoDistri memo => memo.servers.Nodup
  | .moduloDistri modulo => modulo.mServers.Nodup

/-- The objects whose `Clear` clears. -/
def Clears (a : DistributeAlgorithm) : Prop :=
  match a with
  | .moduloDistri _ => False
  | _ => True

variable {P} {a : DistributeAlgorithm} {server other : ServerItem}

theorem single_of_empty (h : ∀ server, ¬ a.Holds server) : a.Single := by
  cases a with
  | consistentHashDistri ring => trivial
  | memoDistri memo =>
      have hnil : memo.servers = [] :=
        List.eq_nil_iff_forall_not_mem.mpr fun server hmem => h server (Or.inl hmem)
      show memo.servers.Nodup
      rw [hnil]
      exact List.nodup_nil
  | moduloDistri modulo =>
      have hnil : modulo.mServers = [] := List.eq_nil_iff_forall_not_mem.mpr h
      show modulo.mServers.Nodup
      rw [hnil]
      exact List.nodup_nil

theorem holds_add (h : (a.add P server).Holds other) : other = server ∨ a.Holds other := by
  cases a with
  | consistentHashDistri ring =>
      obtain ⟨p, hp⟩ := h
      rw [ConsistentHashDistri.find?_add] at hp
      split at hp
      · exact Or.inl (Option.some.inj hp).symm
      · exact Or.inr ⟨p, hp⟩
  | memoDistri memo =>
      rcases h with hserver | hvalue
      · have hmem := (memo.servers_add P.heap server).mem_iff.mp hserver
        rcases List.mem_cons.mp hmem with hnew | hold
        · exact Or.inl hnew
        · exact Or.inr (Or.inl hold)
      · exact Or.inr (Or.inr hvalue)
  | moduloDistri modulo =>
      rcases List.mem_append.mp h with hold | hnew
      · exact Or.inr hold
      · exact Or.inl (List.mem_singleton.mp hnew)

theorem holds_foldl_add {servers : List ServerItem}
    (h : (servers.foldl (fun a server => a.add P server) a).Holds other) :
    other ∈ servers ∨ a.Holds other := by
  induction servers generalizing a with
  | nil => exact Or.inr h
  | cons server servers ih =>
      rcases ih h with hrest | hadd
      · exact Or.inl (List.mem_cons_of_mem server hrest)
      · rcases holds_add hadd with rfl | hold
        · exact Or.inl List.mem_cons_self
        · exact Or.inr hold

theorem eraseP_eq_erase (servers : List ServerItem) (server : ServerItem) :
    (servers.eraseP fun s => decide (s = server)) = servers.erase server := by
  rw [List.erase_eq_eraseP']
  congr 1

theorem holds_remove (hsingle : a.Single) (h : (a.remove server).Holds other) :
    other ≠ server ∧ a.Holds other := by
  cases a with
  | consistentHashDistri ring =>
      obtain ⟨p, hp⟩ := h
      rw [ConsistentHashDistri.find?_remove] at hp
      split at hp
      · cases hp
      · next hne =>
          refine ⟨?_, p, hp⟩
          rintro rfl
          exact hne hp
  | memoDistri memo =>
      rcases h with hserver | hvalue
      · rw [MemoDistri.servers_remove, List.Nodup.mem_erase_iff hsingle] at hserver
        exact ⟨hserver.1, Or.inl hserver.2⟩
      · obtain ⟨hold, hne⟩ := UnorderedMap.mem_values_eraseValue.mp hvalue
        exact ⟨hne, Or.inr hold⟩
  | moduloDistri modulo =>
      have h : other ∈ modulo.mServers.eraseP fun s => decide (s = server) := h
      rw [eraseP_eq_erase, List.Nodup.mem_erase_iff hsingle] at h
      exact h

theorem not_holds_clear (hclears : a.Clears) : ¬ a.clear.Holds server := by
  intro h
  cases a with
  | consistentHashDistri ring =>
      obtain ⟨p, hp⟩ := h
      cases hp
  | memoDistri memo =>
      rcases h with hserver | hvalue
      · cases hserver
      · cases hvalue
  | moduloDistri modulo => exact hclears

theorem mem_of_modulo_get {modulo : ModuloDistri} {hash : HashT}
    (h : modulo.get hash = some server) : server ∈ modulo.mServers := by
  unfold ModuloDistri.get at h
  split at h
  · exact List.mem_of_getElem? h
  · cases h

theorem holds_find {hash : HashT} (h : (a.find P hash).2.Holds other) : a.Holds other := by
  cases a with
  | consistentHashDistri ring => exact h
  | memoDistri memo =>
      rcases h with hserver | hvalue
      · exact Or.inl ((memo.servers_get P.heap hash).mem_iff.mp hserver)
      · have hvalue : other ∈ (memo.get P.heap hash).2.mKeyServerMapping.values := hvalue
        rcases memo.get_cases P.heap hash with
          ⟨-, hget⟩ | ⟨-, _, -, hget⟩ | ⟨hnew, server, infos, hmem, -, hget⟩
        · rw [hget] at hvalue
          exact Or.inr hvalue
        · rw [hget] at hvalue
          exact Or.inr hvalue
        · rw [hget] at hvalue
          rw [UnorderedMap.values_insert_of_lookup_eq_none hnew] at hvalue
          rcases List.mem_cons.mp hvalue with rfl | hold
          · exact Or.inl hmem
          · exact Or.inr hold
  | moduloDistri modulo => exact h

theorem holds_of_find {hash : HashT} (h : (a.find P hash).1 = some other) : a.Holds other := by
  cases a with
  | consistentHashDistri ring =>
      obtain ⟨p, -, hp⟩ := ConsistentHashDistri.get_eq_some_iff.mp h
      exact ⟨p, hp⟩
  | memoDistri memo =>
      have h : (memo.get P.heap hash).1 = some other := h
      rcases memo.get_cases P.heap hash with
        ⟨-, hget⟩ | ⟨-, server, hknown, hget⟩ | ⟨-, server, infos, hmem, -, hget⟩
      · rw [hget] at h
        cases h
      · rw [hget] at h
        cases h
        exact Or.inr (UnorderedMap.mem_values.mpr ⟨hash, hknown⟩)
      · rw [hget] at h
        cases h
        exact Or.inl hmem
  | moduloDistri modulo => exact mem_of_modulo_get h

theorem single_add (hsingle : a.Single) (hnew : ¬ a.Holds server) : (a.add P server).Single := by
  cases a with
  | consistentHashDistri ring => trivial
  | memoDistri memo =>
      have hserver : server ∉ memo.servers := fun hmem => hnew (Or.inl hmem)
      exact (memo.servers_add P.heap server).nodup_iff.mpr (List.nodup_cons.mpr ⟨hserver, hsingle⟩)
  | moduloDistri modulo =>
      exact (List.perm_append_singleton server modulo.mServers).nodup_iff.mpr
        (List.nodup_cons.mpr ⟨hnew, hsingle⟩)

theorem single_foldl_add {servers : List ServerItem} (hsingle : a.Single) (hnodup : servers.Nodup)
    (hnew : ∀ server ∈ servers, ¬ a.Holds server) :
    (servers.foldl (fun a server => a.add P server) a).Single := by
  induction servers generalizing a with
  | nil => exact hsingle
  | cons server servers ih =>
      obtain ⟨hhead, htail⟩ := List.nodup_cons.mp hnodup
      refine ih (single_add hsingle (hnew server List.mem_cons_self)) htail ?_
      intro other hother hholds
      rcases holds_add hholds with rfl | hold
      · exact hhead hother
      · exact hnew other (List.mem_cons_of_mem server hother) hold

theorem single_remove (hsingle : a.Single) : (a.remove server).Single := by
  cases a with
  | consistentHashDistri ring => trivial
  | memoDistri memo =>
      show (memo.remove server).servers.Nodup
      rw [MemoDistri.servers_remove]
      exact hsingle.erase server
  | moduloDistri modulo =>
      show (modulo.mServers.eraseP fun s => decide (s = server)).Nodup
      rw [eraseP_eq_erase]
      exact hsingle.erase server

theorem single_find {hash : HashT} (hsingle : a.Single) : (a.find P hash).2.Single := by
  cases a with
  | consistentHashDistri ring => trivial
  | memoDistri memo => exact (memo.servers_get P.heap hash).nodup_iff.mpr hsingle
  | moduloDistri modulo => exact hsingle

@[simp] theorem clears_add : (a.add P server).Clears ↔ a.Clears := by cases a <;> exact Iff.rfl

@[simp] theorem clears_remove : (a.remove server).Clears ↔ a.Clears := by cases a <;> exact Iff.rfl

@[simp] theorem clears_find {hash : HashT} : (a.find P hash).2.Clears ↔ a.Clears := by
  cases a <;> exact Iff.rfl

@[simp] theorem clears_clear : a.clear.Clears ↔ a.Clears := by cases a <;> exact Iff.rfl

/-! ## 4. Finding a server -/

theorem isSome_find (hash : HashT) : (a.find P hash).1.isSome ↔ a.isEmpty = false := by
  cases a with
  | consistentHashDistri ring =>
      show (ring.get hash).isSome ↔ ring.mCircle.entries.isEmpty = false
      rw [← Option.ne_none_iff_isSome, Ne, ConsistentHashDistri.get_eq_none_iff,
        List.isEmpty_eq_false_iff, not_iff_not]
      constructor
      · intro hnone
        by_contra hne
        obtain ⟨⟨p, owner⟩, hmem⟩ := List.exists_mem_of_ne_nil _ hne
        have hfind := ring.mCircle.find?_eq_some_iff.mpr hmem
        rw [hnone p] at hfind
        cases hfind
      · intro hnil q
        simp [SortedMap.find?, hnil]
  | memoDistri memo =>
      show (memo.get P.heap hash).1.isSome ↔ memo.mBalanceInfos.isEmpty = false
      rw [List.isEmpty_eq_false_iff]
      rcases memo.get_cases P.heap hash with
        ⟨hnil, hget⟩ | ⟨hne, server, -, hget⟩ | ⟨-, server, infos, hmem, -, hget⟩
      · simp [hget, hnil]
      · simp [hget, hne]
      · obtain ⟨info, hinfo, -⟩ := List.mem_map.mp hmem
        simp [hget, List.ne_nil_of_mem hinfo]
  | moduloDistri modulo =>
      show (modulo.get hash).isSome ↔ modulo.mServers.isEmpty = false
      rw [List.isEmpty_eq_false_iff, ← List.length_pos_iff]
      unfold ModuloDistri.get
      by_cases hlen : modulo.mServers.length = 0
      · simp [hlen]
      · have hpos : 0 < modulo.mServers.length := Nat.pos_of_ne_zero hlen
        rw [if_pos hlen, List.getElem?_eq_getElem (Nat.mod_lt _ hpos)]
        simp [hpos]

/-- `Get` returns a server when there is one; otherwise it trips the assertion of
    a debug build, or returns null. -/
theorem get_of_isEmpty (hempty : a.isEmpty) (hash : HashT) :
    a.get P hash = if P.ndebug then .ok (none, (a.find P hash).2) else .error .assertion := by
  have hnone : (a.find P hash).1 = none := by
    rw [← Option.not_isSome_iff_eq_none, isSome_find, hempty]
    simp
  unfold get
  cases P.ndebug with
  | true => simp [← hnone]
  | false => simp [hempty]

theorem get_of_not_isEmpty (hempty : a.isEmpty = false) (hash : HashT) :
    a.get P hash = .ok (a.find P hash) := by
  unfold get
  rw [hempty]
  rfl

theorem get_eq_ok {hash : HashT} {outcome : Option ServerItem × DistributeAlgorithm}
    (h : a.get P hash = .ok outcome) : outcome = a.find P hash := by
  unfold get at h
  split at h
  · cases h
  · exact (Except.ok.inj h).symm

end DistributeAlgorithm

end MemClient
