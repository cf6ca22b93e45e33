import Mathlib.Data.List.Infix
import Mathlib.Tactic

/-!
# Replacing text

One text is put in the place of every occurrence of another, from left to right, and the search
goes on behind what was replaced.  Escaping a set of characters one after the other puts a mark
in front of each of them, and an escaped text can be rewritten pair by pair.  `Replaced` says
without an algorithm what a replacement from left to right is (`replaced_iff`).
-/

namespace TextReplacement

variable {α β : Type}

section Replace

variable [DecidableEq α]

/-- The replacement in a text of which `skip` more characters belong to an occurrence. -/
def replaceAllFrom (search format : List α) : Nat → List α → List α
  | _, [] => []
  | skip + 1, _ :: rest => replaceAllFrom search format skip rest
  | 0, c :: rest =>
      if search ≠ [] ∧ search <+: c :: rest then
        format ++ replaceAllFrom search format (search.length - 1) rest
      else c :: replaceAllFrom search format 0 rest

/-- `boost::replace_all`.  An empty text has no occurrences. -/
def replaceAll (search format text : List α) : List α := replaceAllFrom search format 0 text

section Characters

variable {c : α} {format : List α}

theorem replaceAll_cons_of_occurs {search rest : List α} (hne : search ≠ [])
    (hoccurs : search <+: c :: rest) : replaceAll search format (c :: rest) =
      format ++ replaceAllFrom search format (search.length - 1) rest :=
  if_pos ⟨hne, hoccurs⟩

theorem replaceAll_cons_of_not_occurs {search rest : List α} (hoccurs : ¬ search <+: c :: rest) :
    replaceAll search format (c :: rest) = c :: replaceAll search format rest :=
  if_neg fun h => hoccurs h.2

/-- One character replaced. -/
theorem replaceAll_singleton (c : α) (format text : List α) :
    replaceAll [c] format text = text.flatMap fun d => if d = c then format else [d] := by
  induction text with
  | nil => rfl
  | cons d text ih =>
      rw [List.flatMap_cons, ← ih]
      by_cases hd : d = c
      · subst hd
        rw [if_pos rfl]
        exact replaceAll_cons_of_occurs (List.cons_ne_nil d []) (List.prefix_append [d] text)
      · rw [if_neg hd]
        apply replaceAll_cons_of_not_occurs
        rw [List.cons_prefix_cons]
        exact fun h => hd h.1.symm

theorem notMem_replaceAllFrom {search text : List α} (hformat : c ∉ format) (htext : c ∉ text)
    (skip : Nat) : c ∉ replaceAllFrom search format skip text := by
  induction text generalizing skip with
  | nil =>
      cases skip with
      | zero => exact List.not_mem_nil
      | succ skip => exact List.not_mem_nil
  | cons d text ih =>
      rw [List.mem_cons, not_or] at htext
      obtain ⟨hd, htext⟩ := htext
      cases skip with
      | succ skip => exact ih htext skip
      | zero =>
          unfold replaceAllFrom
          split
          · rw [List.mem_append, not_or]
            exact ⟨hformat, ih htext _⟩
          · rw [List.mem_cons, not_or]
            exact ⟨hd, ih htext 0⟩

/-- What is neither in the text nor in the replacement does not come in. -/
theorem notMem_replaceAll {search text : List α} (hformat : c ∉ format) (htext : c ∉ text) :
    c ∉ replaceAll search format text :=
  notMem_replaceAllFrom hformat htext 0

end Characters

/-! ## Escaping -/

section Escapes

variable {e : α}

/-- A character with the mark in front, if it is one of those escaped so far. -/
def escape (e : α) (escaped : List α) (c : α) : List α := if c ∈ escaped then [e, c] else [c]

theorem escape_nil (e : α) (text : List α) : text.flatMap (escape e []) = text := by
  have hescape : escape e [] = List.singleton := by
    funext c
    exact if_neg List.not_mem_nil
  rw [hescape]
  exact List.flatMap_singleton' text

/-- One more character escaped.  The marks put in before must not be escaped again. -/
theorem replaceAll_escape {escaped : List α} {c : α} (hnew : c ∉ escaped)
    (hmark : escaped = [] ∨ c ≠ e) (text : List α) :
    replaceAll [c] [e, c] (text.flatMap (escape e escaped)) =
      text.flatMap (escape e (escaped ++ [c])) := by
  rw [replaceAll_singleton, List.flatMap_assoc]
  congr 1
  funext d
  unfold escape
  by_cases hd : d ∈ escaped
  · have hne : c ≠ e := hmark.resolve_left (List.ne_nil_of_mem hd)
    have hdc : d ≠ c := fun h => hnew (h ▸ hd)
    rw [if_pos hd, if_pos (List.mem_append_left _ hd)]
    simp [hne.symm, hdc]
  · rw [if_neg hd, List.flatMap_singleton]
    by_cases hdc : d = c
    · subst hdc
      simp
    · simp [hd, hdc]

/-- **Escaping** one character after the other. -/
theorem foldl_replaceAll_escape {marks : List α} (hnodup : marks.Nodup) (text : List α) :
    ∀ {escaped : List α}, (∀ c ∈ marks, c ∉ escaped ∧ c ≠ e) →
      marks.foldl (fun text c => replaceAll [c] [e, c] text) (text.flatMap (escape e escaped)) =
        text.flatMap (escape e (escaped ++ marks)) := by
  induction marks with
  | nil =>
      intro escaped _
      rw [List.append_nil]
      rfl
  | cons c marks ih =>
      intro escaped hmarks
      obtain ⟨hhead, htail⟩ := List.nodup_cons.mp hnodup
      obtain ⟨hnew, hne⟩ := hmarks c List.mem_cons_self
      rw [List.foldl_cons, replaceAll_escape hnew (Or.inr hne), ih htail]
      · rw [List.append_assoc, List.singleton_append]
      · intro d hd
        obtain ⟨hd', hne'⟩ := hmarks d (List.mem_cons_of_mem c hd)
        refine ⟨?_, hne'⟩
        rw [List.mem_append, List.mem_singleton]
        rintro (hold | rfl)
        · exact hd' hold
        · exact hhead hd

end Escapes

end Replace

/-! ## Pairs -/

section Pairs

variable {e q : α} {piece : β → List α}

/-- Every piece of a text is one character or a mark with the character it escapes. -/
def Escaped (e q : α) (piece : β → List α) : Prop :=
  ∀ b, (∃ d, d ≠ e ∧ d ≠ q ∧ piece b = [d]) ∨ ∃ d, piece b = [e, d]

/-- No pair starts inside another: behind a mark comes what it escapes. -/
theorem Escaped.not_occurs (hpiece : Escaped e q piece) (hne : e ≠ q) (d : α) (text : List β) :
    ¬ [e, q] <+: d :: text.flatMap piece := by
  rw [List.cons_prefix_cons]
  rintro ⟨-, hq⟩
  cases text with
  | nil => exact List.cons_ne_nil q [] (List.prefix_nil.mp hq)
  | cons b text =>
      rw [List.flatMap_cons] at hq
      rcases hpiece b with ⟨d', -, hd', hb⟩ | ⟨d', hb⟩
      · rw [hb, List.singleton_append, List.cons_prefix_cons] at hq
        exact hd' hq.1.symm
      · rw [hb, List.cons_append, List.cons_prefix_cons] at hq
        exact hne hq.1.symm

variable [DecidableEq α]

/-- **One pair replaced** in a text of such pieces. -/
theorem Escaped.replaceAll_pair (hpiece : Escaped e q piece) (hne : e ≠ q) (format : List α)
    (text : List β) : replaceAll [e, q] format (text.flatMap piece) =
      text.flatMap fun b => if piece b = [e, q] then format else piece b := by
  induction text with
  | nil => rfl
  | cons b text ih =>
      rw [List.flatMap_cons, List.flatMap_cons, ← ih]
      rcases hpiece b with ⟨d, hd, -, hb⟩ | ⟨d, hb⟩
      · have hpair : piece b ≠ [e, q] := by simp [hb]
        rw [if_neg hpair, hb]
        apply replaceAll_cons_of_not_occurs
        rw [List.cons_prefix_cons]
        exact fun h => hd h.1.symm
      · by_cases hdq : d = q
        · subst hdq
          rw [if_pos hb, hb]
          exact replaceAll_cons_of_occurs (List.cons_ne_nil e [d]) (List.prefix_append [e, d] _)
        · have hpair : piece b ≠ [e, q] := by simp [hb, hdq]
          rw [if_neg hpair, hb]
          refine (replaceAll_cons_of_not_occurs ?_).trans ?_
          · simp [List.cons_prefix_cons, Ne.symm hdq]
          · exact congrArg (e :: ·)
              (replaceAll_cons_of_not_occurs (hpiece.not_occurs hne d text))

end Pairs

/-! ## From left to right -/

section LeftToRight

variable {search format text rest : List α} {k : Nat}

/-- An occurrence, by the position where it starts. -/
def OccursAt (search text : List α) (k : Nat) : Prop := k ≤ text.length ∧ search <+: text.drop k

instance [DecidableEq α] (search text : List α) (k : Nat) : Decidable (OccursAt search text k) :=
  inferInstanceAs (Decidable (_ ∧ _))

/-- The text with the occurrences replaced that are found from left to right, each behind the
    one before; what is between them stays.  The empty text occurs in front of every character
    and at the end. -/
inductive Replaced (search format : List α) : List α → List α → Prop
  | unchanged {text : List α} (hnone : ∀ k, ¬OccursAt search text k) :
      Replaced search format text text
  | occurrence {before rest out : List α} (hne : search ≠ [])
      (hfirst : ∀ k < before.length, ¬OccursAt search (before ++ search ++ rest) k)
      (hrest : Replaced search format rest out) :
      Replaced search format (before ++ search ++ rest) (before ++ format ++ out)
  | emptyBefore {c : α} {rest out : List α} (hempty : search = [])
      (hrest : Replaced search format rest out) :
      Replaced search format (c :: rest) (format ++ c :: out)
  | emptyAtEnd (hempty : search = []) : Replaced search format [] format

theorem occursAt_append (front : List α) :
    OccursAt search (front ++ text) (front.length + k) ↔ OccursAt search text k := by
  rw [OccursAt, OccursAt, List.drop_append, List.drop_of_length_le (Nat.le_add_right _ _),
    List.nil_append, Nat.add_sub_cancel_left, List.length_append, Nat.add_le_add_iff_left]

theorem occursAt_cons_succ (c : α) :
    OccursAt search (c :: text) (k + 1) ↔ OccursAt search text k := by
  rw [Nat.add_comm]
  exact occursAt_append [c]

theorem occursAt_zero : OccursAt search text 0 ↔ search <+: text := by
  rw [OccursAt, List.drop_zero]
  exact and_iff_right (Nat.zero_le _)

/-- The empty text occurs everywhere. -/
theorem occursAt_nil (hk : k ≤ text.length) : OccursAt [] text k := ⟨hk, List.nil_prefix⟩

/-- An occurrence splits the text. -/
theorem OccursAt.eq_append (h : OccursAt search text k) :
    ∃ before rest, text = before ++ search ++ rest ∧ before.length = k := by
  obtain ⟨hk, rest, hrest⟩ := h
  refine ⟨text.take k, rest, ?_, List.length_take_of_le hk⟩
  rw [List.append_assoc, hrest, List.take_append_drop]

section Executable

variable [DecidableEq α]

theorem replaceAll_of_not_occursAt (hnone : ∀ k, ¬OccursAt search text k) :
    replaceAll search format text = text := by
  induction text with
  | nil => rfl
  | cons c text ih =>
      have hhead : ¬search <+: c :: text := fun h => hnone 0 (occursAt_zero.mpr h)
      have htail := ih fun k h => hnone (k + 1) ((occursAt_cons_succ c).mpr h)
      rw [replaceAll_cons_of_not_occurs hhead, htail]

/-- The characters of an occurrence are skipped. -/
theorem replaceAllFrom_append (front rest : List α) :
    replaceAllFrom search format front.length (front ++ rest) = replaceAll search format rest := by
  induction front with
  | nil => rfl
  | cons c front ih => exact ih

theorem replaceAll_append (hne : search ≠ []) (rest : List α) :
    replaceAll search format (search ++ rest) = format ++ replaceAll search format rest := by
  obtain ⟨c, tail, rfl⟩ := List.exists_cons_of_ne_nil hne
  have hoccurs : c :: tail <+: c :: (tail ++ rest) := List.prefix_append (c :: tail) rest
  apply (replaceAll_cons_of_occurs hne hoccurs).trans
  exact congrArg (format ++ ·) (replaceAllFrom_append tail rest)

/-- The first occurrence is replaced and the search goes on behind it. -/
theorem replaceAll_of_first {before : List α} (hne : search ≠ [])
    (hfirst : ∀ k < before.length, ¬OccursAt search (before ++ search ++ rest) k) :
    replaceAll search format (before ++ search ++ rest) =
      before ++ format ++ replaceAll search format rest := by
  induction before with
  | nil => exact replaceAll_append hne rest
  | cons c before ih =>
      have hhead : ¬search <+: c :: (before ++ search ++ rest) := fun h =>
        hfirst 0 (Nat.zero_lt_succ _) (occursAt_zero.mpr h)
      have htail := ih fun k hk h =>
        hfirst (k + 1) (Nat.succ_lt_succ hk) ((occursAt_cons_succ c).mpr h)
      refine (replaceAll_cons_of_not_occurs hhead).trans ?_
      rw [htail]
      rfl

/-- **Replacing** is what `replaceAll` computes, for a text that can be searched for. -/
theorem replaced_iff (hne : search ≠ []) {out : List α} :
    Replaced search format text out ↔ out = replaceAll search format text := by
  constructor
  · intro h
    induction h with
    | unchanged hnone => exact (replaceAll_of_not_occursAt hnone).symm
    | occurrence _ hfirst hrest ih => rw [replaceAll_of_first hne hfirst, ← ih]
    | emptyBefore hempty hrest ih => exact absurd hempty hne
    | emptyAtEnd hempty => exact absurd hempty hne
  · rintro rfl
    induction hlen : text.length using Nat.strong_induction_on generalizing text with
    | _ n ih =>
        by_cases hoccurs : ∃ k, OccursAt search text k
        · obtain ⟨before, rest, hsplit, hbefore⟩ := (Nat.find_spec hoccurs).eq_append
          have hfirst : ∀ k < before.length, ¬OccursAt search (before ++ search ++ rest) k := by
            intro k hk
            rw [← hsplit]
            rw [hbefore] at hk
            exact Nat.find_min hoccurs hk
          have hshorter : rest.length < n := by
            have hpos := List.length_pos_iff.mpr hne
            rw [← hlen, hsplit, List.length_append, List.length_append]
            omega
          rw [hsplit, replaceAll_of_first hne hfirst]
          exact .occurrence hne hfirst (ih rest.length hshorter rfl)
        · rw [replaceAll_of_not_occursAt (not_exists.mp hoccurs)]
          exact .unchanged (not_exists.mp hoccurs)

/-- There is always a text to come out. -/
theorem exists_replaced (search format text : List α) : ∃ out, Replaced search format text out := by
  by_cases hempty : search = []
  · induction text with
    | nil => exact ⟨format, .emptyAtEnd hempty⟩
    | cons c text ih =>
        obtain ⟨out, hout⟩ := ih
        exact ⟨format ++ c :: out, .emptyBefore hempty hout⟩
  · exact ⟨_, (replaced_iff hempty).mpr rfl⟩

/-- `std::string::find`: the first occurrence from `pos` on, `none` for `npos`. -/
def find (text search : List α) (pos : Nat) : Option Nat :=
  (List.range (text.length + 1)).find? fun k => decide (pos ≤ k ∧ OccursAt search text k)

theorem find_eq_some_iff {pos : Nat} : find text search pos = some k ↔
    IsLeast {k | pos ≤ k ∧ OccursAt search text k} k := by
  rw [find, List.find?_range_eq_some]
  constructor
  · rintro ⟨hoccurs, -, hleast⟩
    refine ⟨of_decide_eq_true hoccurs, fun j hj => ?_⟩
    by_contra hlt
    have hmin := hleast j (Nat.lt_of_not_le hlt)
    exact of_decide_eq_false (Bool.not_eq_true' _ ▸ hmin) hj
  · rintro ⟨hoccurs, hleast⟩
    refine ⟨decide_eq_true hoccurs, ?_, fun j hj => ?_⟩
    · exact List.mem_range.mpr (Nat.lt_succ_of_le hoccurs.2.1)
    · have hnot : ¬(pos ≤ j ∧ OccursAt search text j) := fun h =>
        absurd (hleast h) (Nat.not_le.mpr hj)
      simp [hnot]

theorem find_eq_none_iff {pos : Nat} : find text search pos = none ↔
    ∀ k, pos ≤ k → ¬OccursAt search text k := by
  rw [find, List.find?_range_eq_none]
  constructor
  · intro h k hpos hoccurs
    have hk := h k (Nat.lt_succ_of_le hoccurs.1)
    simp [hpos, hoccurs] at hk
  · intro h k _
    have hnot : ¬(pos ≤ k ∧ OccursAt search text k) := fun hk => h k hk.1 hk.2
    simp [hnot]

theorem find_nil {pos : Nat} (hpos : pos ≤ text.length) : find text [] pos = some pos :=
  find_eq_some_iff.mpr ⟨⟨Nat.le_refl pos, occursAt_nil hpos⟩, fun _ hk => hk.1⟩

/-- A search behind `front` finds nothing in the rest, or what splits the rest first. -/
theorem find_behind (front text search : List α) :
    (find (front ++ text) search front.length = none ∧ ∀ k, ¬OccursAt search text k) ∨
      ∃ before rest, text = before ++ search ++ rest ∧
        (∀ k < before.length, ¬OccursAt search (before ++ search ++ rest) k) ∧
          find (front ++ text) search front.length = some (front ++ before).length := by
  cases hfind : find (front ++ text) search front.length with
  | none =>
      refine Or.inl ⟨rfl, fun k h => ?_⟩
      exact find_eq_none_iff.mp hfind _ (Nat.le_add_right _ k) ((occursAt_append front).mpr h)
  | some nIndex =>
      obtain ⟨⟨hpos, hoccurs⟩, hleast⟩ := find_eq_some_iff.mp hfind
      obtain ⟨k, rfl⟩ := Nat.exists_eq_add_of_le hpos
      obtain ⟨before, rest, hsplit, rfl⟩ := ((occursAt_append front).mp hoccurs).eq_append
      refine Or.inr ⟨before, rest, hsplit, fun j hj h => ?_, ?_⟩
      · rw [← hsplit] at h
        have hle := hleast ⟨Nat.le_add_right _ j, (occursAt_append front).mpr h⟩
        omega
      · rw [List.length_append]

end Executable

/-- `std::string::replace`. -/
def replace (text : List α) (pos length : Nat) (format : List α) : List α :=
  text.take pos ++ format ++ text.drop (pos + length)

theorem replace_append (front search rest format : List α) :
    replace (front ++ search ++ rest) front.length search.length format =
      front ++ format ++ rest := by
  rw [replace, List.append_assoc front search, List.take_left, ← List.append_assoc front search,
    ← List.length_append, List.drop_left]

end LeftToRight

end TextReplacement
