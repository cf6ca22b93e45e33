import Mathlib.Data.List.AList
import Mathlib.Tactic

/-!
# Hash maps

`boost::unordered_map` as an association list with distinct keys.  The order of
the list is not part of the meaning: a program that iterates over the map does
so in an order of its own.  On top of Mathlib's `AList`: the values, the keys of
a value, and erasing by value.
-/

abbrev UnorderedMap (K V : Type*) := AList fun _ : K => V

namespace UnorderedMap

variable {K V : Type*}

def size (m : UnorderedMap K V) : Nat := m.entries.length

def values (m : UnorderedMap K V) : List V := m.entries.map Sigma.snd

@[simp] theorem size_empty : size (∅ : UnorderedMap K V) = 0 := rfl

@[simp] theorem values_empty : values (∅ : UnorderedMap K V) = [] := rfl

/-! ## 1. Lookup -/

section Lookup

variable [DecidableEq K]

/-- `insert` of the program's map, which keeps an entry that is already there. -/
def insertNew (m : UnorderedMap K V) (k : K) (v : V) : UnorderedMap K V :=
  if (m.lookup k).isSome then m else m.insert k v

theorem mem_values {m : UnorderedMap K V} {v : V} :
    v ∈ values m ↔ ∃ k, m.lookup k = some v := by
  constructor
  · intro hv
    obtain ⟨⟨k, w⟩, hmem, rfl⟩ := List.mem_map.mp hv
    exact ⟨k, AList.mem_lookup_iff.mpr hmem⟩
  · rintro ⟨k, hk⟩
    exact List.mem_map.mpr ⟨⟨k, v⟩, AList.mem_lookup_iff.mp hk, rfl⟩

theorem lookup_insert_eq (m : UnorderedMap K V) (k k' : K) (v : V) :
    (m.insert k v).lookup k' = if k' = k then some v else m.lookup k' := by
  by_cases h : k' = k
  · subst h
    rw [if_pos rfl, AList.lookup_insert]
  · rw [if_neg h, AList.lookup_insert_ne h]

theorem lookup_insertNew_eq (m : UnorderedMap K V) (k k' : K) (v : V) :
    (insertNew m k v).lookup k' = if k' = k then some ((m.lookup k).getD v) else m.lookup k' := by
  unfold insertNew
  cases hk : m.lookup k with
  | none => simpa using lookup_insert_eq m k k' v
  | some w =>
      rw [Option.isSome_some, if_pos rfl, Option.getD_some]
      split
      · next h => rw [h, hk]
      · rfl

theorem lookup_erase_eq (m : UnorderedMap K V) (k k' : K) :
    (m.erase k).lookup k' = if k' = k then none else m.lookup k' := by
  by_cases h : k' = k
  · subst h
    rw [if_pos rfl, AList.lookup_erase]
  · rw [if_neg h, AList.lookup_erase_ne h]

/-- Erasing a key keeps every value but its own. -/
theorem mem_values_erase_of_ne {m : UnorderedMap K V} {k : K} {v w : V} (h : m.lookup k = some v)
    (hw : w ∈ values m) (hne : w ≠ v) : w ∈ values (m.erase k) := by
  obtain ⟨k', hk'⟩ := mem_values.mp hw
  refine mem_values.mpr ⟨k', ?_⟩
  rw [lookup_erase_eq, if_neg, hk']
  rintro rfl
  rw [h] at hk'
  exact hne (Option.some.inj hk').symm

/-- The values are those left after erasing a key, and the key's own. -/
theorem values_perm_erase {m : UnorderedMap K V} {k : K} {v : V} (h : m.lookup k = some v) :
    (values m).Perm (v :: values (m.erase k)) := by
  obtain ⟨w, before, after, -, hentries, hrest⟩ :=
    List.exists_of_kerase (AList.mem_keys.mp (AList.lookup_isSome.mp (by rw [h]; rfl)))
  have herase : (m.erase k).entries = before ++ after := hrest
  have hw : m.lookup k = some w := by
    rw [← Option.mem_def, AList.mem_lookup_iff, hentries]
    simp
  rw [h] at hw
  cases hw
  unfold values
  rw [hentries, herase, List.map_append, List.map_append, List.map_cons]
  exact List.perm_middle

theorem size_insert_of_lookup_eq_none {m : UnorderedMap K V} {k : K} (h : m.lookup k = none)
    (v : V) : size (m.insert k v) = size m + 1 := by
  unfold size
  rw [AList.entries_insert_of_notMem (AList.lookup_eq_none.mp h), List.length_cons]

theorem values_insert_of_lookup_eq_none {m : UnorderedMap K V} {k : K} (h : m.lookup k = none)
    (v : V) : values (m.insert k v) = v :: values m := by
  unfold values
  rw [AList.entries_insert_of_notMem (AList.lookup_eq_none.mp h), List.map_cons]

theorem size_erase_of_lookup_eq_some {m : UnorderedMap K V} {k : K} {v : V}
    (h : m.lookup k = some v) : size (m.erase k) + 1 = size m := by
  have hkeys : ∀ m : UnorderedMap K V, size m = m.keys.length := by
    intro m
    unfold size AList.keys List.keys
    rw [List.length_map]
  have hmem : k ∈ m.keys := AList.lookup_isSome.mp (by rw [h]; rfl)
  rw [hkeys, hkeys, AList.keys_erase, List.length_erase_of_mem hmem]
  have hpos := List.length_pos_of_mem hmem
  omega

/-- A later map has the entries of an earlier one. -/
def Extends (m m' : UnorderedMap K V) : Prop :=
  ∀ k v, m.lookup k = some v → m'.lookup k = some v

theorem Extends.refl (m : UnorderedMap K V) : Extends m m := fun _ _ h => h

theorem Extends.trans {m m' m'' : UnorderedMap K V} (h : Extends m m') (h' : Extends m' m'') :
    Extends m m'' := fun k v hv => h' k v (h k v hv)

theorem extends_insert {m : UnorderedMap K V} {k : K} (hnew : m.lookup k = none) (v : V) :
    Extends m (m.insert k v) := by
  intro k' w hw
  rw [lookup_insert_eq, if_neg, hw]
  rintro rfl
  rw [hnew] at hw
  cases hw

theorem extends_insertNew (m : UnorderedMap K V) (k : K) (v : V) :
    Extends m (insertNew m k v) := by
  unfold insertNew
  split
  · exact Extends.refl m
  · next hnew => exact extends_insert (Option.not_isSome_iff_eq_none.mp hnew) v

end Lookup

/-! ## 2. Keys of a value -/

variable [DecidableEq V]

def keysOf (m : UnorderedMap K V) (v : V) : List K :=
  (m.entries.filter fun e => decide (e.2 = v)).map Sigma.fst

/-- Erase every entry with the value `v`. -/
def eraseValue (m : UnorderedMap K V) (v : V) : UnorderedMap K V :=
  ⟨m.entries.filter fun e => decide (e.2 ≠ v), m.nodupKeys.sublist List.filter_sublist⟩

theorem mem_values_eraseValue {m : UnorderedMap K V} {v w : V} :
    w ∈ values (eraseValue m v) ↔ w ∈ values m ∧ w ≠ v := by
  simp only [values, eraseValue, List.mem_map, List.mem_filter, decide_eq_true_eq]
  constructor
  · rintro ⟨e, ⟨hmem, hne⟩, rfl⟩
    exact ⟨⟨e, hmem, rfl⟩, hne⟩
  · rintro ⟨⟨e, hmem, rfl⟩, hne⟩
    exact ⟨e, ⟨hmem, hne⟩, rfl⟩

/-- A map with one value only has as many entries as that value has keys. -/
theorem length_keysOf_eq_size {m : UnorderedMap K V} {v : V} (h : ∀ w ∈ values m, w = v) :
    (keysOf m v).length = size m := by
  have hall : (m.entries.filter fun e => decide (e.2 = v)) = m.entries := by
    rw [List.filter_eq_self]
    intro e he
    simpa using h e.2 (List.mem_map.mpr ⟨e, he, rfl⟩)
  unfold keysOf size
  rw [List.length_map, hall]

theorem eraseValue_eq_self {m : UnorderedMap K V} {v : V} (h : v ∉ values m) :
    eraseValue m v = m := by
  apply AList.ext
  show (m.entries.filter fun e => decide (e.2 ≠ v)) = m.entries
  rw [List.filter_eq_self]
  intro e he
  have hne : e.2 ≠ v := fun heq => h (List.mem_map.mpr ⟨e, he, heq⟩)
  simpa using hne

theorem size_eraseValue_eq_zero {m : UnorderedMap K V} {v : V} (h : ∀ w ∈ values m, w = v) :
    size (eraseValue m v) = 0 := by
  unfold size
  rw [List.length_eq_zero_iff]
  show (m.entries.filter fun e => decide (e.2 ≠ v)) = []
  rw [List.filter_eq_nil_iff]
  intro e he
  simpa using h e.2 (List.mem_map.mpr ⟨e, he, rfl⟩)

variable [DecidableEq K]

theorem mem_keysOf {m : UnorderedMap K V} {k : K} {v : V} :
    k ∈ keysOf m v ↔ m.lookup k = some v := by
  constructor
  · intro hk
    obtain ⟨⟨k', w⟩, hmem, rfl⟩ := List.mem_map.mp hk
    obtain ⟨hentry, hw⟩ := List.mem_filter.mp hmem
    obtain rfl : w = v := by simpa using hw
    exact AList.mem_lookup_iff.mpr hentry
  · intro hk
    refine List.mem_map.mpr ⟨⟨k, v⟩, List.mem_filter.mpr ⟨AList.mem_lookup_iff.mp hk, ?_⟩, rfl⟩
    simp

theorem lookup_eraseValue (m : UnorderedMap K V) (v : V) (k : K) :
    (eraseValue m v).lookup k = if m.lookup k = some v then none else m.lookup k := by
  have hmem : ∀ w, (eraseValue m v).lookup k = some w ↔ m.lookup k = some w ∧ w ≠ v := by
    intro w
    rw [← Option.mem_def, AList.mem_lookup_iff, ← Option.mem_def, AList.mem_lookup_iff]
    simp [eraseValue, List.mem_filter]
  apply Option.ext
  intro w
  rw [hmem]
  by_cases hv : m.lookup k = some v
  · simp [hv, eq_comm]
  · rw [if_neg hv]
    constructor
    · exact And.left
    · intro hw
      exact ⟨hw, fun heq => hv (heq ▸ hw)⟩

end UnorderedMap
