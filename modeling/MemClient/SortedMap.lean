import Mathlib.Tactic
import Mathlib.Order.Basic

/-!
# Sorted maps and successor ownership

A finite map with ordered keys, kept as a strictly sorted list of entries, with
the operations of an ordered dictionary: lookup, overwriting insert, erasing by
value, the first entry above a key, the first entry.  Over it, the abstract
notion used by hash rings: the owner of `h` is the value at the closest point at
or after `h`, wrapping around to the smallest point.  Ownership is a relation on
partial functions `K → Option V`, so its laws (`IsOwner.of_extend`,
`IsOwner.of_restrict`) do not depend on how the ring is stored.
-/

/-- A map from `K` to `V` as a list of entries in strictly increasing key order. -/
structure SortedMap (K V : Type*) [LinearOrder K] where
  entries : List (K × V)
  sorted : entries.Pairwise fun a b => a.1 < b.1

namespace SortedMap

variable {K V : Type*} [LinearOrder K]

/-! ## 1. Operations -/

def empty : SortedMap K V := ⟨[], .nil⟩

def find? (m : SortedMap K V) (k : K) : Option V :=
  (m.entries.find? fun e => decide (e.1 = k)).map Prod.snd

/-- The first entry whose key is greater than `k`. -/
def upperBound (m : SortedMap K V) (k : K) : Option (K × V) :=
  m.entries.find? fun e => decide (k < e.1)

def first (m : SortedMap K V) : Option (K × V) := m.entries.head?

/-- Insert into a sorted list, overwriting an entry with the same key. -/
def insertEntry (k : K) (v : V) : List (K × V) → List (K × V)
  | [] => [(k, v)]
  | e :: es =>
      if k < e.1 then (k, v) :: e :: es
      else if k = e.1 then (k, v) :: es
      else e :: insertEntry k v es

theorem mem_insertEntry {k : K} {v : V} {es : List (K × V)}
    (hs : es.Pairwise fun a b => a.1 < b.1) {x : K × V} :
    x ∈ insertEntry k v es ↔ x = (k, v) ∨ x ∈ es ∧ x.1 ≠ k := by
  induction es with
  | nil => simp [insertEntry]
  | cons e es ih =>
      obtain ⟨hhead, htail⟩ := List.pairwise_cons.mp hs
      have hgt : ∀ y ∈ es, k ≤ e.1 → y.1 ≠ k := fun y hy hle =>
        (lt_of_le_of_lt hle (hhead y hy)).ne'
      unfold insertEntry
      split
      · next hlt =>
          simp only [List.mem_cons]
          constructor
          · rintro (h | rfl | h)
            · exact Or.inl h
            · exact Or.inr ⟨Or.inl rfl, hlt.ne'⟩
            · exact Or.inr ⟨Or.inr h, hgt x h hlt.le⟩
          · rintro (h | ⟨h, -⟩)
            · exact Or.inl h
            · exact Or.inr h
      · split
        · next heq =>
            simp only [List.mem_cons]
            constructor
            · rintro (h | h)
              · exact Or.inl h
              · exact Or.inr ⟨Or.inr h, hgt x h heq.le⟩
            · rintro (h | ⟨rfl | h, hne⟩)
              · exact Or.inl h
              · exact absurd heq.symm hne
              · exact Or.inr h
        · next hne =>
            simp only [List.mem_cons, ih htail]
            constructor
            · rintro (rfl | h | ⟨h, hk⟩)
              · exact Or.inr ⟨Or.inl rfl, Ne.symm hne⟩
              · exact Or.inl h
              · exact Or.inr ⟨Or.inr h, hk⟩
            · rintro (h | ⟨rfl | h, hk⟩)
              · exact Or.inr (Or.inl h)
              · exact Or.inl rfl
              · exact Or.inr (Or.inr ⟨h, hk⟩)

theorem sorted_insertEntry {k : K} {v : V} {es : List (K × V)}
    (hs : es.Pairwise fun a b => a.1 < b.1) :
    (insertEntry k v es).Pairwise fun a b => a.1 < b.1 := by
  induction es with
  | nil => simp [insertEntry]
  | cons e es ih =>
      obtain ⟨hhead, htail⟩ := List.pairwise_cons.mp hs
      unfold insertEntry
      split
      · next hlt =>
          refine List.pairwise_cons.mpr ⟨?_, hs⟩
          intro y hy
          rcases List.mem_cons.mp hy with rfl | hy
          · exact hlt
          · exact hlt.trans (hhead y hy)
      · split
        · next heq => exact List.pairwise_cons.mpr ⟨fun y hy => heq ▸ hhead y hy, htail⟩
        · next hnlt hne =>
            refine List.pairwise_cons.mpr ⟨?_, ih htail⟩
            intro y hy
            rcases (mem_insertEntry htail).mp hy with rfl | ⟨hy, -⟩
            · exact lt_of_le_of_ne (not_lt.mp hnlt) (Ne.symm hne)
            · exact hhead y hy

def insert (m : SortedMap K V) (k : K) (v : V) : SortedMap K V :=
  ⟨insertEntry k v m.entries, sorted_insertEntry m.sorted⟩

def eraseValue [DecidableEq V] (m : SortedMap K V) (v : V) : SortedMap K V :=
  ⟨m.entries.filter fun e => decide (e.2 ≠ v), m.sorted.filter _⟩

/-! ## 2. What the operations do to lookup -/

variable (m : SortedMap K V)

theorem eq_of_mem {m : SortedMap K V} {a b : K × V} (ha : a ∈ m.entries) (hb : b ∈ m.entries)
    (hkey : a.1 = b.1) : a = b := by
  by_contra hne
  have hpair : m.entries.Pairwise fun x y => x.1 ≠ y.1 := m.sorted.imp ne_of_lt
  have : Std.Symm fun x y : K × V => x.1 ≠ y.1 := ⟨fun _ _ h => Ne.symm h⟩
  exact hpair.forall ha hb hne hkey

theorem find?_eq_some_iff {k : K} {v : V} : m.find? k = some v ↔ (k, v) ∈ m.entries := by
  unfold find?
  constructor
  · intro h
    obtain ⟨e, he, rfl⟩ := Option.map_eq_some_iff.mp h
    have hkey : e.1 = k := by simpa using List.find?_some he
    subst hkey
    exact List.mem_of_find?_eq_some he
  · intro h
    cases hfind : m.entries.find? fun e => decide (e.1 = k) with
    | none =>
        have hnone := List.find?_eq_none.mp hfind (k, v) h
        simp at hnone
    | some e =>
        have hkey : e.1 = k := by simpa using List.find?_some hfind
        have heq := eq_of_mem (List.mem_of_find?_eq_some hfind) h hkey
        simp [heq]

theorem isSome_find?_iff {k : K} : (m.find? k).isSome ↔ ∃ e ∈ m.entries, e.1 = k := by
  rw [Option.isSome_iff_exists]
  constructor
  · rintro ⟨v, hv⟩
    exact ⟨(k, v), m.find?_eq_some_iff.mp hv, rfl⟩
  · rintro ⟨e, he, rfl⟩
    exact ⟨e.2, m.find?_eq_some_iff.mpr he⟩

theorem find?_insert (k : K) (v : V) (q : K) :
    (m.insert k v).find? q = if q = k then some v else m.find? q := by
  apply Option.ext
  intro w
  rw [find?_eq_some_iff]
  show (q, w) ∈ insertEntry k v m.entries ↔ _
  rw [mem_insertEntry m.sorted]
  by_cases hq : q = k
  · simp [hq, eq_comm]
  · simp [hq, m.find?_eq_some_iff]

theorem find?_eraseValue [DecidableEq V] (v : V) (q : K) :
    (m.eraseValue v).find? q = if m.find? q = some v then none else m.find? q := by
  apply Option.ext
  intro w
  rw [find?_eq_some_iff]
  simp only [eraseValue, List.mem_filter, decide_eq_true_eq, ← m.find?_eq_some_iff]
  by_cases hq : m.find? q = some v
  · simp [hq, eq_comm]
  · rw [if_neg hq]
    constructor
    · exact And.left
    · intro h
      exact ⟨h, fun hw => hq (hw ▸ h)⟩

@[simp] theorem find?_empty (q : K) : (empty : SortedMap K V).find? q = none := rfl

theorem upperBound_eq_some {k : K} {e : K × V} (h : m.upperBound k = some e) :
    e ∈ m.entries ∧ k < e.1 ∧ ∀ x ∈ m.entries, k < x.1 → e.1 ≤ x.1 := by
  obtain ⟨hk, front, back, hsplit, hfront⟩ := List.find?_eq_some_iff_append.mp h
  refine ⟨by simp [hsplit], by simpa using hk, ?_⟩
  intro x hx hkx
  rw [hsplit, List.mem_append, List.mem_cons] at hx
  rcases hx with hx | rfl | hx
  · have hnot := hfront x hx
    simp only [Bool.not_eq_true', decide_eq_false_iff_not] at hnot
    exact absurd hkx hnot
  · exact le_refl _
  · have hsorted := m.sorted
    rw [hsplit] at hsorted
    exact ((List.pairwise_cons.mp (List.pairwise_append.mp hsorted).2.1).1 x hx).le

theorem upperBound_eq_none {k : K} (h : m.upperBound k = none) : ∀ x ∈ m.entries, x.1 ≤ k := by
  intro x hx
  simpa using List.find?_eq_none.mp h x hx

theorem first_eq_some {e : K × V} (h : m.first = some e) :
    e ∈ m.entries ∧ ∀ x ∈ m.entries, e.1 ≤ x.1 := by
  unfold first at h
  cases hentries : m.entries with
  | nil => simp [hentries] at h
  | cons a as =>
      simp only [hentries, List.head?_cons, Option.some.injEq] at h
      subst h
      have hsorted := m.sorted
      rw [hentries] at hsorted
      refine ⟨by simp, ?_⟩
      intro x hx
      rcases List.mem_cons.mp hx with rfl | hx
      · exact le_refl _
      · exact ((List.pairwise_cons.mp hsorted).1 x hx).le

end SortedMap

/-! ## 3. Successors and owners -/

section Successor

variable {K V : Type*} [LinearOrder K]

/-- `p` is the closest point at or after `h`, or the smallest one when every
    point lies before `h`. -/
structure IsSuccessor (points : K → Prop) (h p : K) : Prop where
  point : points p
  closest : (h ≤ p ∧ ∀ q, points q → h ≤ q → p ≤ q) ∨
    ((∀ q, points q → q < h) ∧ ∀ q, points q → p ≤ q)

theorem IsSuccessor.unique {points : K → Prop} {h p q : K} (hp : IsSuccessor points h p)
    (hq : IsSuccessor points h q) : p = q := by
  rcases hp.closest with ⟨hhp, hpmin⟩ | ⟨hall, hpmin⟩
  · rcases hq.closest with ⟨hhq, hqmin⟩ | ⟨hall, -⟩
    · exact le_antisymm (hpmin q hq.point hhq) (hqmin p hp.point hhp)
    · exact absurd (hall p hp.point) (not_lt.mpr hhp)
  · rcases hq.closest with ⟨hhq, -⟩ | ⟨-, hqmin⟩
    · exact absurd (hall q hq.point) (not_lt.mpr hhq)
    · exact le_antisymm (hpmin q hq.point) (hqmin p hp.point)

/-- With fewer points, a successor that is still a point stays the successor. -/
theorem IsSuccessor.of_subset {points points' : K → Prop} {h p : K}
    (hsub : ∀ q, points q → points' q) (hp : IsSuccessor points' h p) (hpoint : points p) :
    IsSuccessor points h p := by
  refine ⟨hpoint, ?_⟩
  rcases hp.closest with ⟨hhp, hmin⟩ | ⟨hall, hmin⟩
  · exact Or.inl ⟨hhp, fun q hq => hmin q (hsub q hq)⟩
  · exact Or.inr ⟨fun q hq => hall q (hsub q hq), fun q hq => hmin q (hsub q hq)⟩

/-- `v` is the value at the successor of `h`. -/
def IsOwner (ring : K → Option V) (h : K) (v : V) : Prop :=
  ∃ p, IsSuccessor (fun q => (ring q).isSome) h p ∧ ring p = some v

variable {ring ring' : K → Option V} {h : K} {v w : V}

theorem IsOwner.unique (hv : IsOwner ring h v) (hw : IsOwner ring h w) : v = w := by
  obtain ⟨p, hp, hpv⟩ := hv
  obtain ⟨q, hq, hqw⟩ := hw
  rw [hp.unique hq] at hpv
  exact Option.some.inj (hpv.symm.trans hqw)

/-- When points are added or overwritten for `s` only, an owner is `s` or was
    the owner before. -/
theorem IsOwner.of_extend {s : V} (hext : ∀ p, ring' p = some s ∨ ring' p = ring p)
    (hsub : ∀ p, (ring p).isSome → (ring' p).isSome) (hv : IsOwner ring' h v) :
    v = s ∨ IsOwner ring h v := by
  obtain ⟨p, hp, hpv⟩ := hv
  rcases hext p with hs | hsame
  · exact Or.inl (Option.some.inj (hpv.symm.trans hs))
  · have hpoint : (ring p).isSome := by rw [← hsame, hpv]; rfl
    exact Or.inr ⟨p, hp.of_subset hsub hpoint, hsame ▸ hpv⟩

/-- When only points of other values disappear, an owner that keeps its points
    stays the owner. -/
theorem IsOwner.of_restrict (hkeep : ∀ p, ring p = some v → ring' p = some v)
    (hsub : ∀ p, (ring' p).isSome → (ring p).isSome) (hv : IsOwner ring h v) :
    IsOwner ring' h v := by
  obtain ⟨p, hp, hpv⟩ := hv
  have hpoint : (ring' p).isSome := by rw [hkeep p hpv]; rfl
  exact ⟨p, hp.of_subset hsub hpoint, hkeep p hpv⟩

/-- Above every point, all keys have the same owner. -/
theorem IsOwner.of_above {h' : K} (hbelow : ∀ p, (ring p).isSome → p < h)
    (hbelow' : ∀ p, (ring p).isSome → p < h') (hv : IsOwner ring h v) : IsOwner ring h' v := by
  obtain ⟨p, hp, hpv⟩ := hv
  refine ⟨p, ⟨hp.point, Or.inr ⟨hbelow', ?_⟩⟩, hpv⟩
  rcases hp.closest with ⟨hhp, -⟩ | ⟨-, hmin⟩
  · exact absurd (hbelow p hp.point) (not_lt.mpr hhp)
  · exact hmin

/-- Two rings on which the two owners have the same points: each keeps the other from
    coming first. -/
theorem IsOwner.eq_of_common (hv : IsOwner ring h v) (hw : IsOwner ring' h w)
    (hpv : ∀ p, ring p = some v → ring' p = some v)
    (hpw : ∀ p, ring' p = some w → ring p = some w) : v = w := by
  obtain ⟨p, hp, hvalue⟩ := hv
  obtain ⟨q, hq, hvalue'⟩ := hw
  have hsub (x : K) (hx : x = p ∨ x = q) : (ring x).isSome := by
    rcases hx with rfl | rfl
    · rw [hvalue]; rfl
    · rw [hpw _ hvalue']; rfl
  have hsub' (x : K) (hx : x = p ∨ x = q) : (ring' x).isSome := by
    rcases hx with rfl | rfl
    · rw [hpv _ hvalue]; rfl
    · rw [hvalue']; rfl
  have heq : p = q := (hp.of_subset hsub (Or.inl rfl)).unique (hq.of_subset hsub' (Or.inr rfl))
  rw [heq] at hvalue
  exact Option.some.inj (hvalue.symm.trans (hpw q hvalue'))

/-- Rings whose values have the same names have owners of the same name. -/
theorem IsOwner.name_eq {V' N : Type*} {name : V → N} {name' : V' → N} {ring' : K → Option V'}
    {w : V'} (hsame : ∀ p, (ring p).map name = (ring' p).map name') (hv : IsOwner ring h v)
    (hw : IsOwner ring' h w) : name v = name' w := by
  obtain ⟨p, hp, hvalue⟩ := hv
  obtain ⟨q, hq, hvalue'⟩ := hw
  have hpoints (x : K) : (ring x).isSome ↔ (ring' x).isSome := by
    rw [← Option.isSome_map (f := name), hsame, Option.isSome_map]
  have heq : p = q := (hp.of_subset (fun x => (hpoints x).mpr)
    ((hpoints p).mp hp.point)).unique hq
  have hname := hsame p
  rw [hvalue, heq, hvalue'] at hname
  exact Option.some.inj hname

end Successor

namespace SortedMap

variable {K V : Type*} [LinearOrder K]

/-- Search by `upperBound` with wrap-around to `first`. -/
def successor (m : SortedMap K V) (h : K) : Option V :=
  match m.find? h with
  | some v => some v
  | none =>
      match m.upperBound h with
      | some e => some e.2
      | none => m.first.map Prod.snd

theorem isOwner_of_successor (m : SortedMap K V) {h : K} {v : V} (hv : m.successor h = some v) :
    IsOwner m.find? h v := by
  have hpoint {q : K} : (m.find? q).isSome → ∃ e ∈ m.entries, e.1 = q := m.isSome_find?_iff.mp
  unfold successor at hv
  cases hfind : m.find? h with
  | some w =>
      simp only [hfind, Option.some.injEq] at hv
      subst hv
      exact ⟨h, ⟨by simp [hfind], Or.inl ⟨le_refl h, fun q _ hq => hq⟩⟩, hfind⟩
  | none =>
      -- no point equals `h`, so a point at or after `h` is a point after `h`
      have hne : ∀ e ∈ m.entries, e.1 ≠ h := by
        intro e he heq
        have hsome := m.isSome_find?_iff.mpr ⟨e, he, heq⟩
        simp [hfind] at hsome
      simp only [hfind] at hv
      cases hupper : m.upperBound h with
      | some e =>
          simp only [hupper, Option.some.injEq] at hv
          obtain ⟨hmem, hlt, hmin⟩ := m.upperBound_eq_some hupper
          have hget : m.find? e.1 = some e.2 := m.find?_eq_some_iff.mpr hmem
          refine ⟨e.1, ⟨by simp [hget], Or.inl ⟨hlt.le, ?_⟩⟩, hv ▸ hget⟩
          intro q hq hle
          obtain ⟨x, hx, rfl⟩ := hpoint hq
          exact hmin x hx (lt_of_le_of_ne hle (Ne.symm (hne x hx)))
      | none =>
          simp only [hupper] at hv
          obtain ⟨e, hfirst, hev⟩ := Option.map_eq_some_iff.mp hv
          obtain ⟨hmem, hmin⟩ := m.first_eq_some hfirst
          have hget : m.find? e.1 = some e.2 := m.find?_eq_some_iff.mpr hmem
          refine ⟨e.1, ⟨by simp [hget], Or.inr ⟨?_, ?_⟩⟩, hev ▸ hget⟩
          · intro q hq
            obtain ⟨x, hx, rfl⟩ := hpoint hq
            exact lt_of_le_of_ne (m.upperBound_eq_none hupper x hx) (hne x hx)
          · intro q hq
            obtain ⟨x, hx, rfl⟩ := hpoint hq
            exact hmin x hx

theorem successor_eq_none_iff (m : SortedMap K V) {h : K} :
    m.successor h = none ↔ ∀ q, m.find? q = none := by
  constructor
  · intro hnone q
    have hentries : m.entries = [] := by
      unfold successor at hnone
      cases hfind : m.find? h with
      | some w => simp [hfind] at hnone
      | none =>
          cases hupper : m.upperBound h with
          | some e => simp [hfind, hupper] at hnone
          | none =>
              simp only [hfind, hupper, Option.map_eq_none_iff] at hnone
              exact List.head?_eq_none_iff.mp hnone
    simp [find?, hentries]
  · intro hnone
    cases hsucc : m.successor h with
    | none => rfl
    | some v =>
        obtain ⟨p, -, hp⟩ := m.isOwner_of_successor hsucc
        simp [hnone p] at hp

theorem successor_eq_some_iff (m : SortedMap K V) {h : K} {v : V} :
    m.successor h = some v ↔ IsOwner m.find? h v := by
  constructor
  · exact m.isOwner_of_successor
  · intro hv
    cases hsucc : m.successor h with
    | none =>
        obtain ⟨p, -, hp⟩ := hv
        simp [m.successor_eq_none_iff.mp hsucc p] at hp
    | some w => rw [(m.isOwner_of_successor hsucc).unique hv]

/-- Two rings with the same points and values answer every search alike. -/
theorem successor_congr {m m' : SortedMap K V} (hsame : ∀ q, m.find? q = m'.find? q) (h : K) :
    m.successor h = m'.successor h := by
  have hfun : m.find? = m'.find? := funext hsame
  apply Option.ext
  intro v
  rw [successor_eq_some_iff, successor_eq_some_iff, hfun]

end SortedMap
