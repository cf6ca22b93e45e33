import MemClient.ServerList
import MemClient.StickyRouting

/-!
# Key affinity

`Assigns`: an algorithm answers a hash with one server, and goes on to while the
servers stay.  A ring and a modulo assign every hash from the start, a memorized
distribution from the first time it is asked.
-/

namespace MemClient

open ByteCodec EventRun

/-! ## 1. Assigned hashes -/

namespace DistributeAlgorithm

/-- The hash belongs to the server, and asking for hashes does not change that. -/
def Assigns (a : DistributeAlgorithm) (hash : HashT) (server : ServerItem) : Prop :=
  match a with
  | .consistentHashDistri ring => ring.get hash = some server
  | .memoDistri memo =>
      memo.mBalanceInfos ≠ [] ∧ memo.mKeyServerMapping.lookup hash = some server
  | .moduloDistri modulo => modulo.get hash = some server

instance (a : DistributeAlgorithm) (hash : HashT) (server : ServerItem) :
    Decidable (a.Assigns hash server) :=
  match a with
  | .consistentHashDistri ring => inferInstanceAs (Decidable (ring.get hash = some server))
  | .memoDistri memo =>
      inferInstanceAs (Decidable (memo.mBalanceInfos ≠ [] ∧
        memo.mKeyServerMapping.lookup hash = some server))
  | .moduloDistri modulo => inferInstanceAs (Decidable (modulo.get hash = some server))

variable {P : Platform} {a : DistributeAlgorithm} {hash other : HashT} {server : ServerItem}

theorem mBalanceInfos_get_ne_nil {memo : MemoDistri} (hne : memo.mBalanceInfos ≠ []) :
    (memo.get P.heap hash).2.mBalanceInfos ≠ [] := by
  intro hnil
  have hlen := (memo.servers_get P.heap hash).length_eq
  unfold MemoDistri.servers at hlen
  rw [hnil, List.length_map, List.length_map] at hlen
  exact hne (List.length_eq_zero_iff.mp hlen.symm)

/-- What `Get` answers it assigns. -/
theorem assigns_find (h : (a.find P hash).1 = some server) :
    (a.find P hash).2.Assigns hash server := by
  cases a with
  | consistentHashDistri ring => exact h
  | memoDistri memo =>
      have hne : memo.mBalanceInfos ≠ [] := by
        intro hnil
        have hnone : (memo.get P.heap hash).1 = none := by
          rw [MemoDistri.get_empty hnil P.heap hash]
        exact absurd (hnone.symm.trans h) (by simp)
      exact ⟨mBalanceInfos_get_ne_nil hne, MemoDistri.lookup_get h⟩
  | moduloDistri modulo => exact h

theorem Assigns.find (h : a.Assigns hash server) : (a.find P other).2.Assigns hash server := by
  cases a with
  | consistentHashDistri ring => exact h
  | memoDistri memo =>
      exact ⟨mBalanceInfos_get_ne_nil h.1,
        MemoDistri.lookup_step (e := .get other) trivial
          (show MemoDistri.step P.heap memo (.get other) = some _ from rfl) h.2⟩
  | moduloDistri modulo => exact h

theorem Assigns.find_eq (h : a.Assigns hash server) : (a.find P hash).1 = some server := by
  cases a with
  | consistentHashDistri ring => exact h
  | memoDistri memo =>
      show (memo.get P.heap hash).1 = some server
      rw [MemoDistri.get_known h.1 P.heap h.2]
  | moduloDistri modulo => exact h

theorem Assigns.unique {server' : ServerItem} (h : a.Assigns hash server)
    (h' : a.Assigns hash server') : server = server' := by
  cases a with
  | consistentHashDistri ring => exact Option.some.inj (Eq.trans (Eq.symm h) h')
  | memoDistri memo => exact Option.some.inj (h.2.symm.trans h'.2)
  | moduloDistri modulo => exact Option.some.inj (Eq.trans (Eq.symm h) h')

end DistributeAlgorithm

namespace ServerList

/-- The installed algorithm assigns the key to the server. -/
def Assigns (s : ServerList) (key : Bytes) (server : ServerItem) : Prop :=
  ∃ ref, s.mDistributeAlgorithm = some ref ∧
    (s.algorithms ref).Assigns (s.mHashFunc key) server

instance (s : ServerList) (key : Bytes) (server : ServerItem) : Decidable (s.Assigns key server) :=
  decidable_of_iff (∃ ref ∈ s.mDistributeAlgorithm,
    (s.algorithms ref).Assigns (s.mHashFunc key) server) Iff.rfl

variable {P : Platform} {s s' : ServerList} {key other : Bytes} {server : ServerItem}

theorem assigns_get (hget : s.get P key = .ok (some server, s')) : s'.Assigns key server := by
  obtain ⟨ref, hinst, hfind, rfl⟩ := get_eq_ok hget
  refine ⟨ref, hinst, ?_⟩
  rw [algorithms_setAlgorithm, if_pos rfl]
  exact DistributeAlgorithm.assigns_find hfind.symm

theorem Assigns.get (h : s.Assigns key server) {outcome : Option ServerItem}
    (hget : s.get P other = .ok (outcome, s')) : s'.Assigns key server := by
  obtain ⟨ref, hinst, hassigns⟩ := h
  obtain ⟨ref', hinst', -, rfl⟩ := get_eq_ok hget
  obtain rfl := Option.some.inj (hinst.symm.trans hinst')
  refine ⟨ref, hinst, ?_⟩
  rw [algorithms_setAlgorithm, if_pos rfl]
  exact hassigns.find

theorem Assigns.get_eq (h : s.Assigns key server) {outcome : Option ServerItem}
    (hget : s.get P key = .ok (outcome, s')) : outcome = some server := by
  obtain ⟨ref, hinst, hassigns⟩ := h
  obtain ⟨ref', hinst', rfl, -⟩ := get_eq_ok hget
  obtain rfl := Option.some.inj (hinst.symm.trans hinst')
  exact hassigns.find_eq

theorem Assigns.unique {server' : ServerItem} (h : s.Assigns key server)
    (h' : s.Assigns key server') : server = server' := by
  obtain ⟨ref, hinst, hassigns⟩ := h
  obtain ⟨ref', hinst', hassigns'⟩ := h'
  obtain rfl := Option.some.inj (hinst.symm.trans hinst')
  exact hassigns.unique hassigns'

end ServerList

end MemClient
