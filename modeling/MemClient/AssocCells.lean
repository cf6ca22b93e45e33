import Mathlib.Data.List.Perm.Basic
import Mathlib.Logic.Function.Basic
import Mathlib.Tactic

/-!
# Maps and memories as lists of cells

`Represents m entries`: the partial map `m` has exactly the listed entries, one
for each key.  `Holds m cells`: the memory `m` has the listed contents, at
pairwise different addresses, and may have anything elsewhere.  Neither depends
on the order of the list, so an update is stated at its head and `perm` moves
the entry there.
-/

namespace AssocCells

variable {κ ν : Type*}

/-! ## 1. Partial maps -/

structure Represents (m : κ → Option ν) (entries : List (κ × ν)) : Prop where
  nodup : (entries.map Prod.fst).Nodup
  iff : ∀ k v, m k = some v ↔ (k, v) ∈ entries

namespace Represents

variable {m : κ → Option ν} {entries entries' : List (κ × ν)} {k : κ} {v : ν}

theorem perm (h : Represents m entries) (hperm : entries.Perm entries') :
    Represents m entries' where
  nodup := (hperm.map Prod.fst).nodup_iff.mp h.nodup
  iff := fun k v => (h.iff k v).trans hperm.mem_iff

theorem get (h : Represents m entries) (hmem : (k, v) ∈ entries) : m k = some v :=
  (h.iff k v).mpr hmem

theorem eq_none_iff (h : Represents m entries) : m k = none ↔ k ∉ entries.map Prod.fst := by
  rw [Option.eq_none_iff_forall_ne_some]
  constructor
  · intro hnone hmem
    obtain ⟨⟨k', v⟩, hentry, rfl⟩ := List.mem_map.mp hmem
    exact hnone v (h.get hentry)
  · intro hnot v hv
    exact hnot (List.mem_map.mpr ⟨(k, v), (h.iff k v).mp hv, rfl⟩)

theorem nil_iff : Represents m [] ↔ m = fun _ => none := by
  constructor
  · intro h
    funext k
    exact h.eq_none_iff.mpr (by simp)
  · rintro rfl
    exact ⟨by simp, by simp⟩

variable [DecidableEq κ]

/-- A new key may be inserted; `perm` then moves it. -/
theorem insert (h : Represents m entries) (hnew : m k = none) (v : ν) :
    Represents (Function.update m k (some v)) ((k, v) :: entries) where
  nodup := by
    rw [List.map_cons, List.nodup_cons]
    exact ⟨h.eq_none_iff.mp hnew, h.nodup⟩
  iff := by
    intro k' v'
    by_cases hk : k' = k
    · subst hk
      have hnot : (k', v') ∉ entries := fun hmem => by rw [h.get hmem] at hnew; cases hnew
      simp [hnot, eq_comm]
    · simp [hk, h.iff]

theorem erase (h : Represents m ((k, v) :: entries)) :
    Represents (Function.update m k none) entries where
  nodup := (List.nodup_cons.mp h.nodup).2
  iff := by
    intro k' v'
    have hnot : k ∉ entries.map Prod.fst := (List.nodup_cons.mp h.nodup).1
    by_cases hk : k' = k
    · subst hk
      have hmem : (k', v') ∉ entries := fun hmem => hnot (List.mem_map.mpr ⟨_, hmem, rfl⟩)
      simp [hmem]
    · simp [hk, h.iff]

end Represents

/-! ## 2. Memories -/

structure Holds (m : κ → ν) (cells : List (κ × ν)) : Prop where
  nodup : (cells.map Prod.fst).Nodup
  eq : ∀ cell ∈ cells, m cell.1 = cell.2

namespace Holds

variable {m : κ → ν} {cells cells' : List (κ × ν)} {k : κ} {v : ν}

theorem perm (h : Holds m cells) (hperm : cells.Perm cells') : Holds m cells' where
  nodup := (hperm.map Prod.fst).nodup_iff.mp h.nodup
  eq := fun cell hmem => h.eq cell (hperm.mem_iff.mpr hmem)

theorem head (h : Holds m ((k, v) :: cells)) : m k = v := h.eq (k, v) (by simp)

variable [DecidableEq κ]

theorem set (h : Holds m ((k, v) :: cells)) (v' : ν) :
    Holds (Function.update m k v') ((k, v') :: cells) where
  nodup := h.nodup
  eq := by
    have hnot : k ∉ cells.map Prod.fst := (List.nodup_cons.mp h.nodup).1
    intro cell hmem
    rcases List.mem_cons.mp hmem with rfl | hmem
    · simp
    · have hne : cell.1 ≠ k := fun heq => hnot (heq ▸ List.mem_map.mpr ⟨cell, hmem, rfl⟩)
      rw [Function.update_of_ne hne, h.eq cell (by simp [hmem])]

theorem set_middle {before after : List (κ × ν)} (h : Holds m (before ++ (k, v) :: after))
    (v' : ν) : Holds (Function.update m k v') (before ++ (k, v') :: after) :=
  ((h.perm List.perm_middle).set v').perm List.perm_middle.symm

theorem insert (h : Holds m cells) (hnew : k ∉ cells.map Prod.fst) (v : ν) :
    Holds (Function.update m k v) ((k, v) :: cells) := by
  have hold : Holds m ((k, m k) :: cells) :=
    ⟨List.nodup_cons.mpr ⟨hnew, h.nodup⟩, by simpa using h.eq⟩
  exact hold.set v

end Holds

end AssocCells
