import Mathlib.Data.List.Infix
import Mathlib.Tactic

/-!
# Hierarchical names and ids that mirror them

Names are paths of segments.  Written out, the segments are joined by a
separator; a path's id is a positional number whose digits tell, level by level,
how early each of its ancestors arrived among the names of that level.  Two
facts make such ids useful: a name starts with another name and the separator
exactly if its path runs through the other's (`separated_prefix_iff`), and the
ids of a name's descendants are those in a range of their own
(`Arrivals.id_range_iff_ancestor`).
-/

namespace NameHierarchy

/-! ## 1. Separated names -/

section Separated

variable {α : Type*} {sep : α}

/-- A segment of a name: not empty and without a separator in it. -/
abbrev Segment (sep : α) := { segment : List α // segment ≠ [] ∧ sep ∉ segment }

/-- A path written out. -/
def separated (path : List (Segment sep)) : List α := [sep].intercalate (path.map Subtype.val)

theorem separated_nil : separated ([] : List (Segment sep)) = [] := rfl

theorem separated_singleton (segment : Segment sep) : separated [segment] = segment.val :=
  List.intercalate_singleton

theorem separated_cons {path : List (Segment sep)} (hpath : path ≠ []) (segment : Segment sep) :
    separated (segment :: path) = segment.val ++ sep :: separated path := by
  have hne : path.map Subtype.val ≠ [] := mt List.map_eq_nil_iff.mp hpath
  unfold separated
  rw [List.map_cons, List.intercalate_cons_of_ne_nil hne, List.append_assoc, List.singleton_append]

theorem separated_append {front back : List (Segment sep)} (hfront : front ≠ [])
    (hback : back ≠ []) :
    separated (front ++ back) = separated front ++ sep :: separated back := by
  induction front with
  | nil => exact absurd rfl hfront
  | cons segment front ih =>
      by_cases hnil : front = []
      · rw [hnil, List.singleton_append, separated_cons hback, separated_singleton]
      · have hne : front ++ back ≠ [] := mt List.append_eq_nil_iff.mp fun h => hnil h.1
        rw [List.cons_append, separated_cons hne, ih hnil, separated_cons hnil]
        simp only [List.append_assoc, List.cons_append]

theorem separated_concat {path : List (Segment sep)} (hpath : path ≠ []) (segment : Segment sep) :
    separated (path ++ [segment]) = separated path ++ sep :: segment.val := by
  rw [separated_append hpath (List.cons_ne_nil _ _), separated_singleton]

variable [DecidableEq α]

theorem count_separated (path : List (Segment sep)) :
    (separated path).count sep = path.length - 1 := by
  induction path with
  | nil => rfl
  | cons segment path ih =>
      have hsegment : segment.val.count sep = 0 := List.count_eq_zero.mpr segment.property.2
      by_cases hpath : path = []
      · rw [hpath, separated_singleton, hsegment]
        rfl
      · have hpos : 0 < path.length := List.length_pos_iff.mpr hpath
        rw [separated_cons hpath, List.count_append, List.count_cons_self, hsegment, ih,
          List.length_cons]
        omega

theorem splitOn_separated {path : List (Segment sep)} (hpath : path ≠ []) :
    (separated path).splitOn sep = path.map Subtype.val := by
  apply List.splitOn_intercalate
  · intro segment hsegment
    obtain ⟨s, -, rfl⟩ := List.mem_map.mp hsegment
    exact s.property.2
  · exact mt List.map_eq_nil_iff.mp hpath

@[simp] theorem separated_eq_nil {path : List (Segment sep)} : separated path = [] ↔ path = [] := by
  constructor
  · intro hnil
    by_contra hpath
    have hsplit := splitOn_separated hpath
    rw [hnil] at hsplit
    cases path with
    | nil => exact hpath rfl
    | cons segment path =>
        simp only [List.splitOn_nil, List.map_cons, List.cons.injEq] at hsplit
        exact segment.property.1 hsplit.1.symm
  · rintro rfl
    rfl

theorem separated_injective :
    Function.Injective (separated : List (Segment sep) → List α) := by
  intro p q heq
  by_cases hp : p = []
  · subst hp
    exact (separated_eq_nil.mp heq.symm).symm
  · have hq : q ≠ [] := fun hnil => hp (separated_eq_nil.mp (by rw [heq, hnil]; rfl))
    have hsplit := splitOn_separated hp
    rw [heq, splitOn_separated hq] at hsplit
    exact (List.map_injective_iff.mpr Subtype.val_injective hsplit).symm

/-- **A name starts with another name and a separator exactly if its path runs
    through the other's.** -/
theorem separated_prefix_iff {p q : List (Segment sep)} (hp : p ≠ []) :
    separated p ++ [sep] <+: separated q ↔ p <+: q ∧ q ≠ p := by
  constructor
  · rintro ⟨rest, hrest⟩
    have hq : q ≠ [] := by
      rintro rfl
      simp [separated_nil] at hrest
    have hsplit : q.map Subtype.val = p.map Subtype.val ++ rest.splitOn sep := by
      rw [← splitOn_separated hq, ← splitOn_separated hp, ← hrest, List.append_assoc,
        List.singleton_append, List.splitOn_append_cons_self]
    have htake : p = q.take p.length := by
      apply List.map_injective_iff.mpr Subtype.val_injective
      rw [List.map_take, hsplit, List.take_left' (by simp)]
    refine ⟨htake ▸ List.take_prefix _ _, ?_⟩
    rintro rfl
    exact List.splitOn_ne_nil sep rest (List.self_eq_append_right.mp hsplit)
  · rintro ⟨⟨rest, rfl⟩, hne⟩
    have hrest : rest ≠ [] := by
      rintro rfl
      simp at hne
    rw [separated_append hp hrest]
    exact ⟨separated rest, by simp⟩

end Separated

/-! ### Ancestors -/

section Ancestors

variable {α : Type*} {sep : α} {p q name : List α}

/-- A name itself, or what stands before one of the separators in it.  The name
    may be any list, with separators next to each other or at its ends. -/
def IsAncestor (sep : α) (p name : List α) : Prop := p = name ∨ p ++ [sep] <+: name

/-- A place where an ancestor of the name ends. -/
def IsBoundary (sep : α) (name : List α) (i : Nat) : Prop :=
  i = name.length ∨ name[i]? = some sep

theorem IsBoundary.le {i : Nat} (hi : IsBoundary sep name i) : i ≤ name.length := by
  rcases hi with rfl | hget
  · exact Nat.le_refl _
  · exact Nat.le_of_lt (List.getElem?_eq_some_iff.mp hget).1

theorem IsBoundary.length_take {i : Nat} (hi : IsBoundary sep name i) :
    (name.take i).length = i :=
  List.length_take_of_le hi.le

theorem IsBoundary.isAncestor {i : Nat} (hi : IsBoundary sep name i) :
    IsAncestor sep (name.take i) name := by
  rcases hi with rfl | hget
  · exact Or.inl List.take_length
  · obtain ⟨hlt, hsep⟩ := List.getElem?_eq_some_iff.mp hget
    apply Or.inr
    rw [← hsep, List.take_append_getElem]
    exact List.take_prefix _ _

theorem IsAncestor.isPrefix (hp : IsAncestor sep p name) : p <+: name := by
  rcases hp with rfl | hprefix
  · exact List.prefix_rfl
  · exact (List.prefix_append _ _).trans hprefix

theorem IsAncestor.isBoundary (hp : IsAncestor sep p name) : IsBoundary sep name p.length := by
  rcases hp with rfl | ⟨rest, rfl⟩
  · exact Or.inl rfl
  · apply Or.inr
    simp

/-- Two ancestors of one name are told apart by their lengths. -/
theorem IsAncestor.eq_of_length (hp : IsAncestor sep p name) (hq : IsAncestor sep q name)
    (hlength : p.length = q.length) : p = q :=
  (List.prefix_of_prefix_length_le hp.isPrefix hq.isPrefix hlength.le).eq_of_length hlength

theorem isAncestor_separated_iff [DecidableEq α] {path other : List (Segment sep)}
    (hpath : path ≠ []) :
    IsAncestor sep (separated path) (separated other) ↔ path <+: other := by
  rw [IsAncestor, separated_prefix_iff hpath]
  by_cases heq : other = path
  · simp [heq]
  · have hname : separated path ≠ separated other := fun h => heq (separated_injective h).symm
    simp [heq, hname]

end Ancestors

/-! ## 2. Positional numbers -/

/-- The number with `width` positions that starts with the given digits, all
    others zero. -/
def value (base : Nat) : Nat → List Nat → Nat
  | _, [] => 0
  | 0, _ :: _ => 0
  | width + 1, d :: ds => d * base ^ width + value base width ds

section Value

variable {base : Nat}

@[simp] theorem value_nil (width : Nat) : value base width [] = 0 := by
  cases width <;> rfl

@[simp] theorem value_cons (width d : Nat) (ds : List Nat) :
    value base (width + 1) (d :: ds) = d * base ^ width + value base width ds := rfl

theorem value_concat {ds : List Nat} (d : Nat) : ∀ {width : Nat}, ds.length < width →
    value base width (ds ++ [d]) = value base width ds + d * base ^ (width - ds.length - 1) := by
  induction ds with
  | nil =>
      intro width hlength
      obtain ⟨width, rfl⟩ := Nat.exists_eq_succ_of_ne_zero (Nat.ne_of_gt hlength)
      simp
  | cons e ds ih =>
      intro width hlength
      obtain ⟨width, rfl⟩ :=
        Nat.exists_eq_succ_of_ne_zero (Nat.ne_of_gt (Nat.zero_lt_of_lt hlength))
      rw [List.length_cons] at hlength
      have hsub : width + 1 - (ds.length + 1) - 1 = width - ds.length - 1 := by omega
      rw [List.cons_append, Nat.succ_eq_add_one, value_cons, value_cons, List.length_cons, hsub,
        ih (by omega), Nat.add_assoc]

/-- The numbers that start with the given digits end below the width's bound. -/
theorem value_add_le {ds : List Nat} (hdigits : ∀ d ∈ ds, d < base) :
    ∀ {width : Nat}, ds.length ≤ width →
      value base width ds + base ^ (width - ds.length) ≤ base ^ width := by
  induction ds with
  | nil => intro width _; simp
  | cons d ds ih =>
      intro width hlength
      obtain ⟨width, rfl⟩ := Nat.exists_eq_succ_of_ne_zero
        (Nat.ne_of_gt (Nat.lt_of_lt_of_le ds.length.succ_pos hlength))
      have hrest := ih (fun e he => hdigits e (List.mem_cons_of_mem _ he))
        (Nat.le_of_succ_le_succ hlength)
      have hd : (d + 1) * base ^ width ≤ base * base ^ width :=
        Nat.mul_le_mul_right _ (hdigits d (by simp))
      rw [Nat.succ_eq_add_one, value_cons, List.length_cons, Nat.add_sub_add_right, pow_succ']
      rw [Nat.add_mul, Nat.one_mul] at hd
      omega

/-- **A number lies in the range of the numbers that start with given digits
    exactly if its own digits do.** -/
theorem value_mem_range_iff (hbase : 0 < base) {ds : List Nat} (hpos : ∀ d ∈ ds, 0 < d)
    (hds : ∀ d ∈ ds, d < base) : ∀ {width : Nat} {es : List Nat}, (∀ e ∈ es, e < base) →
      ds.length ≤ width → es.length ≤ width →
      (value base width ds ≤ value base width es ∧
        value base width es < value base width ds + base ^ (width - ds.length) ↔ ds <+: es) := by
  induction ds with
  | nil =>
      intro width es hes _ hlength
      have hle := value_add_le hes hlength
      have hpow : 0 < base ^ (width - es.length) := Nat.pow_pos hbase
      have hlt : value base width es < base ^ width := by omega
      simpa using hlt
  | cons d ds ih =>
      intro width es hes hlength hlength'
      obtain ⟨width, rfl⟩ := Nat.exists_eq_succ_of_ne_zero
        (Nat.ne_of_gt (Nat.lt_of_lt_of_le ds.length.succ_pos hlength))
      have hds' : ∀ d ∈ ds, d < base := fun e he => hds e (List.mem_cons_of_mem _ he)
      have hlow := value_add_le hds' (Nat.le_of_succ_le_succ hlength)
      have hpow : 0 < base ^ (width - ds.length) := Nat.pow_pos hbase
      cases es with
      | nil =>
          have hd : 1 * base ^ width ≤ d * base ^ width :=
            Nat.mul_le_mul_right _ (hpos d List.mem_cons_self)
          have hwidth : 0 < base ^ width := Nat.pow_pos hbase
          simp only [value_nil, Nat.succ_eq_add_one, value_cons, List.prefix_nil,
            List.cons_ne_nil, iff_false, not_and]
          omega
      | cons e es =>
          have hes' : ∀ e ∈ es, e < base := fun d hd => hes d (List.mem_cons_of_mem _ hd)
          have hhigh := value_add_le hes' (Nat.le_of_succ_le_succ hlength')
          have hpow' : 0 < base ^ (width - es.length) := Nat.pow_pos hbase
          rw [Nat.succ_eq_add_one, value_cons, value_cons, List.length_cons,
            Nat.add_sub_add_right, List.cons_prefix_cons,
            ← ih (fun d hd => hpos d (List.mem_cons_of_mem _ hd)) hds' hes'
              (Nat.le_of_succ_le_succ hlength) (Nat.le_of_succ_le_succ hlength')]
          -- The leading digits decide unless they are the same.
          rcases Nat.lt_trichotomy d e with hlt | rfl | hgt
          · have hstep : (d + 1) * base ^ width ≤ e * base ^ width := Nat.mul_le_mul_right _ hlt
            rw [Nat.add_mul, Nat.one_mul] at hstep
            have hne : d ≠ e := Nat.ne_of_lt hlt
            simp only [hne, false_and, iff_false, not_and]
            omega
          · simp only [true_and]
            omega
          · have hstep : (e + 1) * base ^ width ≤ d * base ^ width := Nat.mul_le_mul_right _ hgt
            rw [Nat.add_mul, Nat.one_mul] at hstep
            have hne : d ≠ e := Nat.ne_of_gt hgt
            simp only [hne, false_and, iff_false, not_and]
            omega

end Value

/-! ## 3. Names in the order of their arrival -/

/-- Paths in the order in which they arrived, each after its parent. -/
structure Arrivals (κ : Type*) where
  names : List (List κ)
  nodup : names.Nodup
  nil_notMem : [] ∉ names
  parent_mem : ∀ {path : List κ} {segment : κ}, path ++ [segment] ∈ names → path ≠ [] →
    path ∈ names

namespace Arrivals

variable {κ : Type*}

def empty : Arrivals κ := ⟨[], List.nodup_nil, List.not_mem_nil, fun h => absurd h List.not_mem_nil⟩

theorem take_mem (arrivals : Arrivals κ) {path : List κ} (hpath : path ∈ arrivals.names) {n : Nat}
    (hn : 0 < n) : path.take n ∈ arrivals.names := by
  induction path using List.reverseRecOn with
  | nil => exact absurd hpath arrivals.nil_notMem
  | append_singleton path segment ih =>
      by_cases hlength : (path ++ [segment]).length ≤ n
      · rwa [List.take_of_length_le hlength]
      · rw [List.length_append, List.length_singleton] at hlength
        rw [List.take_append_of_le_length (by omega)]
        apply ih
        apply arrivals.parent_mem hpath
        rintro rfl
        simp at hlength
        omega

/-- The paths with the given number of segments. -/
def level (arrivals : Arrivals κ) (n : Nat) : List (List κ) :=
  arrivals.names.filter fun path => path.length = n

theorem mem_level {arrivals : Arrivals κ} {n : Nat} {path : List κ} :
    path ∈ arrivals.level n ↔ path ∈ arrivals.names ∧ path.length = n := by
  simp [level]

/-- A path arrives after its parent. -/
def arrive (arrivals : Arrivals κ) (path : List κ) (hnew : path ∉ arrivals.names) (hne : path ≠ [])
    (hparent : path.dropLast ≠ [] → path.dropLast ∈ arrivals.names) : Arrivals κ where
  names := arrivals.names ++ [path]
  nodup := by simpa using arrivals.nodup.concat hnew
  nil_notMem := by
    rw [List.mem_append, List.mem_singleton]
    rintro (hmem | rfl)
    · exact arrivals.nil_notMem hmem
    · exact hne rfl
  parent_mem := by
    intro parent segment hmem hparent'
    rw [List.mem_append, List.mem_singleton] at hmem ⊢
    rcases hmem with hmem | rfl
    · exact Or.inl (arrivals.parent_mem hmem hparent')
    · rw [List.dropLast_concat] at hparent
      exact Or.inl (hparent hparent')

theorem level_arrive {arrivals : Arrivals κ} {path : List κ} {hnew : path ∉ arrivals.names}
    {hne : path ≠ []} {hparent : path.dropLast ≠ [] → path.dropLast ∈ arrivals.names} (n : Nat) :
    (arrivals.arrive path hnew hne hparent).level n =
    arrivals.level n ++ if path.length = n then [path] else [] := by
  simp [level, arrive, List.filter_append, List.filter_singleton]

variable [DecidableEq κ]

/-- The place of a path among those of its level, from 1 on. -/
def digit (arrivals : Arrivals κ) (path : List κ) : Nat :=
  (arrivals.level path.length).idxOf path + 1

theorem digit_le (arrivals : Arrivals κ) {path : List κ} (hpath : path ∈ arrivals.names) :
    arrivals.digit path ≤ (arrivals.level path.length).length :=
  List.idxOf_lt_length_of_mem (mem_level.mpr ⟨hpath, rfl⟩)

theorem eq_of_digit_eq (arrivals : Arrivals κ) {p q : List κ} (hp : p ∈ arrivals.names)
    (hlength : p.length = q.length) (hdigit : arrivals.digit p = arrivals.digit q) : p = q := by
  have hmem : p ∈ arrivals.level q.length := mem_level.mpr ⟨hp, hlength⟩
  unfold digit at hdigit
  rw [hlength] at hdigit
  exact (List.idxOf_inj hmem).mp (Nat.succ.inj hdigit)

/-- The digits of a path's ancestors and its own. -/
def digits (arrivals : Arrivals κ) (path : List κ) : List Nat :=
  (List.range path.length).map fun i => arrivals.digit (path.take (i + 1))

@[simp] theorem length_digits (arrivals : Arrivals κ) (path : List κ) :
    (arrivals.digits path).length = path.length := by
  simp [digits]

theorem digits_concat (arrivals : Arrivals κ) (path : List κ) (segment : κ) :
    arrivals.digits (path ++ [segment]) =
      arrivals.digits path ++ [arrivals.digit (path ++ [segment])] := by
  have hold : ∀ i ∈ List.range path.length,
      arrivals.digit ((path ++ [segment]).take (i + 1)) = arrivals.digit (path.take (i + 1)) := by
    intro i hi
    rw [List.take_append_of_le_length (List.mem_range.mp hi)]
  have hself : (path ++ [segment]).take (path.length + 1) = path ++ [segment] :=
    List.take_of_length_le (by simp)
  unfold digits
  rw [List.length_append, List.length_singleton, List.range_succ, List.map_append,
    List.map_congr_left hold, List.map_singleton, hself]

theorem digit_of_mem_digits (arrivals : Arrivals κ) {path : List κ} (hpath : path ∈ arrivals.names)
    {d : Nat} (hd : d ∈ arrivals.digits path) :
    ∃ q ∈ arrivals.names, arrivals.digit q = d := by
  obtain ⟨i, -, rfl⟩ := List.mem_map.mp hd
  exact ⟨_, arrivals.take_mem hpath i.succ_pos, rfl⟩

theorem digits_prefix_iff (arrivals : Arrivals κ) {p q : List κ} (hp : p ∈ arrivals.names)
    (hq : q ∈ arrivals.names) : arrivals.digits p <+: arrivals.digits q ↔ p <+: q := by
  constructor
  · -- The last digit of `p` alone names the ancestor of `q` on the level of `p`.
    intro hdigits
    have hle : p.length ≤ q.length := by simpa using hdigits.length_le
    have hpos : 0 < p.length := by
      apply List.length_pos_iff.mpr
      rintro rfl
      exact arrivals.nil_notMem hp
    obtain ⟨_, hget⟩ := List.prefix_iff_getElem.mp hdigits
    have hdigit := hget (p.length - 1) (by simp; omega)
    simp only [digits, List.getElem_map, List.getElem_range, Nat.sub_add_cancel hpos,
      List.take_length] at hdigit
    have heq := arrivals.eq_of_digit_eq hp (by simp [hle]) hdigit
    exact heq ▸ List.take_prefix _ _
  · rintro ⟨rest, rfl⟩
    induction rest using List.reverseRecOn with
    | nil => simp
    | append_singleton rest segment ih =>
        rw [← List.append_assoc] at hq ⊢
        rw [digits_concat]
        refine (ih (arrivals.parent_mem hq ?_)).trans (List.prefix_append _ _)
        intro hnil
        exact arrivals.nil_notMem ((List.append_eq_nil_iff.mp hnil).1 ▸ hp)

/-! ### Ids -/

/-- The id of a path in a scheme with `width` levels. -/
def id (arrivals : Arrivals κ) (base width : Nat) (path : List κ) : Nat :=
  value base width (arrivals.digits path)

theorem id_concat (arrivals : Arrivals κ) {base width : Nat} {path : List κ} (segment : κ)
    (hlength : path.length < width) :
    arrivals.id base width (path ++ [segment]) = arrivals.id base width path +
      arrivals.digit (path ++ [segment]) * base ^ (width - path.length - 1) := by
  unfold id
  rw [digits_concat, value_concat _ (by simpa using hlength), length_digits]

section Range

variable {arrivals : Arrivals κ} {base width : Nat}

theorem digits_lt (hbase : ∀ n, (arrivals.level n).length < base) {path : List κ}
    (hpath : path ∈ arrivals.names) : ∀ d ∈ arrivals.digits path, d < base := by
  intro d hd
  obtain ⟨q, hq, rfl⟩ := arrivals.digit_of_mem_digits hpath hd
  exact Nat.lt_of_le_of_lt (arrivals.digit_le hq) (hbase q.length)

/-- **The ids of a name and its descendants are those in its range.** -/
theorem id_range_iff_ancestor (hbase : ∀ n, (arrivals.level n).length < base) {p q : List κ}
    (hp : p ∈ arrivals.names) (hq : q ∈ arrivals.names) (hpwidth : p.length ≤ width)
    (hqwidth : q.length ≤ width) :
    (arrivals.id base width p ≤ arrivals.id base width q ∧
      arrivals.id base width q < arrivals.id base width p + base ^ (width - p.length) ↔
        p <+: q) := by
  have hpos : ∀ d ∈ arrivals.digits p, 0 < d := by
    intro d hd
    obtain ⟨r, -, rfl⟩ := arrivals.digit_of_mem_digits hp hd
    exact Nat.succ_pos _
  have hrange := value_mem_range_iff (Nat.zero_lt_of_lt (hbase 0)) hpos (digits_lt hbase hp)
    (digits_lt hbase hq) (by simpa using hpwidth) (by simpa using hqwidth)
  rw [length_digits, arrivals.digits_prefix_iff hp hq] at hrange
  exact hrange

theorem eq_of_id_eq (hbase : ∀ n, (arrivals.level n).length < base) {p q : List κ}
    (hp : p ∈ arrivals.names) (hq : q ∈ arrivals.names) (hpwidth : p.length ≤ width)
    (hqwidth : q.length ≤ width) (hid : arrivals.id base width p = arrivals.id base width q) :
    p = q := by
  have hpow : ∀ n, 0 < base ^ n := fun n => Nat.pow_pos (Nat.zero_lt_of_lt (hbase 0))
  have hpq : p <+: q := by
    apply (id_range_iff_ancestor hbase hp hq hpwidth hqwidth).mp
    have hlt := hpow (width - p.length)
    omega
  have hqp : q <+: p := by
    apply (id_range_iff_ancestor hbase hq hp hqwidth hpwidth).mp
    have hlt := hpow (width - q.length)
    omega
  exact hpq.eq_of_length_le hqp.length_le

/-- No name has the id 0. -/
theorem id_pos (hbase : 0 < base) {p : List κ} (hp : p ∈ arrivals.names)
    (hwidth : p.length ≤ width) : 0 < arrivals.id base width p := by
  cases p with
  | nil => exact absurd hp arrivals.nil_notMem
  | cons segment path =>
      obtain ⟨width, rfl⟩ := Nat.exists_eq_add_one.mpr (Nat.zero_lt_of_lt hwidth)
      have hcons : arrivals.digits (segment :: path) = arrivals.digit [segment] ::
          (arrivals.digits (segment :: path)).tail := by
        simp [digits, List.range_succ_eq_map]
      have hdigit : 0 < arrivals.digit [segment] * base ^ width :=
        Nat.mul_pos (Nat.succ_pos _) (Nat.pow_pos hbase)
      rw [id, hcons, value_cons]
      omega

/-- An id is past all the numbers whose topmost digit is 0. -/
theorem pow_le_id {p : List κ} (hp : p ∈ arrivals.names) :
    base ^ width ≤ arrivals.id base (width + 1) p := by
  cases p with
  | nil => exact absurd hp arrivals.nil_notMem
  | cons segment path =>
      have hcons : arrivals.digits (segment :: path) = arrivals.digit [segment] ::
          (arrivals.digits (segment :: path)).tail := by
        simp [digits, List.range_succ_eq_map]
      have hdigit : base ^ width ≤ arrivals.digit [segment] * base ^ width :=
        Nat.le_mul_of_pos_left _ (Nat.succ_pos _)
      rw [id, hcons, value_cons]
      omega

/-- A name's range ends where that of its topmost ancestor does, or before. -/
theorem id_add_le (hbase : ∀ n, (arrivals.level n).length < base) {p : List κ}
    (hp : p ∈ arrivals.names) (hwidth : p.length ≤ width + 1) :
    arrivals.id base (width + 1) p + base ^ (width + 1 - p.length) ≤
      ((arrivals.level 1).length + 1) * base ^ width := by
  cases p with
  | nil => exact absurd hp arrivals.nil_notMem
  | cons segment path =>
      have htop : [segment] ∈ arrivals.names := by
        simpa using arrivals.take_mem hp Nat.one_pos
      have hcons : arrivals.digits (segment :: path) = arrivals.digit [segment] ::
          (arrivals.digits (segment :: path)).tail := by
        simp [digits, List.range_succ_eq_map]
      have hlt := digits_lt hbase hp
      rw [hcons] at hlt
      have hrest := value_add_le (fun d hd => hlt d (List.mem_cons_of_mem _ hd))
        (show (arrivals.digits (segment :: path)).tail.length ≤ width by simpa using hwidth)
      have hdigit : (arrivals.digit [segment] + 1) * base ^ width ≤
          ((arrivals.level 1).length + 1) * base ^ width :=
        Nat.mul_le_mul_right _ (Nat.succ_le_succ (arrivals.digit_le htop))
      unfold id
      rw [hcons, value_cons, List.length_cons, Nat.add_sub_add_right]
      rw [List.length_tail, length_digits, List.length_cons, Nat.add_sub_cancel] at hrest
      rw [Nat.add_mul, Nat.one_mul] at hdigit
      omega

end Range

/-! ### One more name -/

section Arrive

variable {arrivals : Arrivals κ} {path : List κ} {hnew : path ∉ arrivals.names} {hne : path ≠ []}
  {hparent : path.dropLast ≠ [] → path.dropLast ∈ arrivals.names}

theorem digit_arrive_of_mem {q : List κ} (hq : q ∈ arrivals.names) :
    (arrivals.arrive path hnew hne hparent).digit q = arrivals.digit q := by
  unfold digit
  rw [level_arrive, List.idxOf_append_of_mem (mem_level.mpr ⟨hq, rfl⟩)]

theorem digit_arrive_self : (arrivals.arrive path hnew hne hparent).digit path =
    (arrivals.level path.length).length + 1 := by
  have hnotMem : path ∉ arrivals.level path.length := fun h => hnew (mem_level.mp h).1
  unfold digit
  rw [level_arrive, if_pos rfl, List.idxOf_append_of_notMem hnotMem]
  simp

theorem digits_arrive_of_mem {q : List κ} (hq : q ∈ arrivals.names) :
    (arrivals.arrive path hnew hne hparent).digits q = arrivals.digits q := by
  unfold digits
  apply List.map_congr_left
  intro i _
  exact digit_arrive_of_mem (arrivals.take_mem hq i.succ_pos)

/-- The names that were there keep their ids. -/
theorem id_arrive_of_mem {base width : Nat} {q : List κ} (hq : q ∈ arrivals.names) :
    (arrivals.arrive path hnew hne hparent).id base width q = arrivals.id base width q := by
  unfold id
  rw [digits_arrive_of_mem hq]

/-- The new name's id is made from its parent's and the next digit of its level. -/
theorem id_arrive_self {base width : Nat} (hlength : path.length ≤ width) :
    (arrivals.arrive path hnew hne hparent).id base width path =
      arrivals.id base width path.dropLast +
        ((arrivals.level path.length).length + 1) * base ^ (width - path.length) := by
  have hlast := List.dropLast_concat_getLast hne
  have hpos : 0 < path.length := List.length_pos_iff.mpr hne
  have hold : (arrivals.arrive path hnew hne hparent).id base width path.dropLast =
      arrivals.id base width path.dropLast := by
    by_cases hnil : path.dropLast = []
    · rw [hnil]
      rfl
    · exact id_arrive_of_mem (hparent hnil)
  calc (arrivals.arrive path hnew hne hparent).id base width path
      = (arrivals.arrive path hnew hne hparent).id base width
          (path.dropLast ++ [path.getLast hne]) := by rw [hlast]
    _ = (arrivals.arrive path hnew hne hparent).id base width path.dropLast +
          (arrivals.arrive path hnew hne hparent).digit (path.dropLast ++ [path.getLast hne]) *
            base ^ (width - path.dropLast.length - 1) := by
        apply id_concat
        rw [List.length_dropLast]
        omega
    _ = _ := by
        rw [hold, hlast, digit_arrive_self, List.length_dropLast]
        congr 3
        omega

end Arrive

end Arrivals

end NameHierarchy
