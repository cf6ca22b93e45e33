import MemClient.EventRun

/-!
# Loggers in a hierarchy

Programs fetch loggers by name and write records to the loggers that they have
fetched.  Loggers govern one another: a record goes where the loggers pass it on
that were fetched by then and govern the one it was written to.
-/

namespace LoggerHierarchy

open EventRun

/-! ## 1. Lists side by side -/

section Lists

variable {A B : Type*} {R : A → B → Prop} {as : List A} {bs : List B}

theorem exists_left_of_mem (h : List.Forall₂ R as bs) {b : B} (hb : b ∈ bs) :
    ∃ a ∈ as, R a b := by
  induction h with
  | nil => cases hb
  | cons hab rest ih =>
      rcases List.mem_cons.mp hb with rfl | hb
      · exact ⟨_, List.mem_cons_self, hab⟩
      · obtain ⟨a, ha, hR⟩ := ih hb
        exact ⟨a, List.mem_cons_of_mem _ ha, hR⟩

theorem exists_right_of_mem (h : List.Forall₂ R as bs) {a : A} (ha : a ∈ as) :
    ∃ b ∈ bs, R a b :=
  exists_left_of_mem (R := flip R) h.flip ha

theorem exists_getElem?_right (h : List.Forall₂ R as bs) {k : Nat} {a : A}
    (hk : as[k]? = some a) : ∃ b, bs[k]? = some b ∧ R a b := by
  obtain ⟨hlt, rfl⟩ := List.getElem?_eq_some_iff.mp hk
  have hlt' : k < bs.length := h.length_eq ▸ hlt
  exact ⟨bs[k], List.getElem?_eq_getElem hlt', h.get hlt hlt'⟩

end Lists

/-! ## 2. Hierarchies -/

/-- The names, loggers, sinks, texts and records of a hierarchy. -/
structure Hierarchy (N L T V R : Type*) where
  owner : N → L → Prop
  record : L → V → R
  governs : L → L → Prop
  /-- Where a logger passes a record on to. -/
  routes : L → R → Set T

/-- `write k` is a write to the logger that was fetched as the `k`-th. -/
inductive Event (N V : Type*) where
  | fetch (name : N)
  | write (k : Nat) (text : V)

/-- The loggers fetched so far, and the sinks that took each of the records. -/
structure Journal (L T : Type*) where
  held : List L := []
  taken : List (Set T) := []

def Event.name {N V : Type*} : Event N V → Option N
  | .fetch name => some name
  | .write _ _ => none

namespace Hierarchy

variable {N L T V R : Type*} {H : Hierarchy N L T V R} {names names' : List N}
  {held held' : List L} {es : List (Event N V)} {j j' : Journal L T}

/-- The sinks that take a record, when these loggers were fetched. -/
def takes (H : Hierarchy N L T V R) (held : List L) (l : L) (text : V) : Set T :=
  {t | ∃ q ∈ held, H.governs q l ∧ t ∈ H.routes q (H.record l text)}

inductive Next (H : Hierarchy N L T V R) : Journal L T → Event N V → Journal L T → Prop
  | fetch {j : Journal L T} {name : N} {l : L} (hown : H.owner name l) :
      Next H j (.fetch name) { j with held := j.held ++ [l] }
  | write {j : Journal L T} {k : Nat} {l : L} (hheld : j.held[k]? = some l) (text : V) :
      Next H j (.write k text) { j with taken := j.taken ++ [H.takes j.held l text] }

/-- The loggers held are those of the names fetched, in that order. -/
theorem held_of_trace (h : Trace H.Next j es j') (hheld : List.Forall₂ H.owner names j.held) :
    List.Forall₂ H.owner (names ++ es.filterMap Event.name) j'.held := by
  induction h generalizing names with
  | nil j => simpa using hheld
  | cons hnext rest ih =>
      cases hnext with
      | @fetch name l hown =>
          have hrest := ih (List.rel_append hheld (.cons hown .nil))
          rwa [List.append_assoc] at hrest
      | write hget text => exact ih hheld

/-- Only which loggers were fetched matters, and not in what order or how often. -/
theorem takes_congr (hsame : ∀ l, l ∈ held ↔ l ∈ held') : H.takes held = H.takes held' := by
  funext l text
  ext t
  apply exists_congr
  intro q
  rw [hsame]

theorem mem_of_names (hown : ∀ n l l', H.owner n l → H.owner n l' → l = l')
    (h : List.Forall₂ H.owner names held) (h' : List.Forall₂ H.owner names' held')
    (hsub : ∀ n ∈ names, n ∈ names') {l : L} (hl : l ∈ held) : l ∈ held' := by
  obtain ⟨n, hn, howner⟩ := exists_left_of_mem h hl
  obtain ⟨l', hl', howner'⟩ := exists_right_of_mem h' (hsub n hn)
  exact hown n l l' howner howner' ▸ hl'

/-- Where a name belongs to one logger, only the set of the names matters. -/
theorem takes_of_same_names (hown : ∀ n l l', H.owner n l → H.owner n l' → l = l')
    (h : List.Forall₂ H.owner names held) (h' : List.Forall₂ H.owner names' held')
    (hsame : ∀ n, n ∈ names ↔ n ∈ names') : H.takes held = H.takes held' := by
  apply takes_congr
  intro l
  exact ⟨mem_of_names hown h h' fun n => (hsame n).mp,
    mem_of_names hown h' h fun n => (hsame n).mpr⟩

end Hierarchy

end LoggerHierarchy
