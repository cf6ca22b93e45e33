import MemClient.ByteCodec
import Mathlib.Computability.Language

/-!
# Search patterns

Regular expressions in the ECMAScript syntax, as far as they are a sequence of characters with
repetitions: their text, the language that they stand for, and that a text can be read in one way
only (`text_injective`).  A brace is part of a repetition and nothing else.
-/

namespace SearchPattern

open ByteCodec

/-! ## 1. Syntax -/

def backslash : Byte := 92
def period : Byte := 46
def star : Byte := 42
def question : Byte := 63
def dollar : Byte := 36
def openBrace : Byte := 123
def closeBrace : Byte := 125
def comma : Byte := 44

/-- The characters that a backslash in front makes plain, other than the braces. -/
def metacharacters : Bytes :=
  -- \ ^ . $ | ( ) [ ] * + ? /
  [backslash, 94, period, dollar, 124, 40, 41, 91, 93, star, 43, question, 47]

/-- A character that stands for itself. -/
def Plain (c : Byte) : Prop := c ∉ metacharacters ∧ c ≠ openBrace ∧ c ≠ closeBrace

inductive Atom where
  | any
  | plain (c : {c : Byte // Plain c})
  | escaped (c : {c : Byte // c ∈ metacharacters})

def Atom.text : Atom → Bytes
  | .any => [period]
  | .plain c => [c.val]
  | .escaped c => [backslash, c.val]

/-- A number in a repetition, which fits an `int`. -/
structure Numeral where
  digits : Bytes
  ne_nil : digits ≠ []
  isDigit : ∀ d ∈ digits, 48 ≤ d ∧ d ≤ 57
  fits : digits.foldl (fun n d => 10 * n + (d.toNat - 48)) 0 < 2 ^ 31

def Numeral.value (n : Numeral) : Nat := n.digits.foldl (fun n d => 10 * n + (d.toNat - 48)) 0

/-- How often at most, where at least `n` times are required. -/
inductive Limit (n : Numeral) where
  | same
  | none
  | upTo (m : Numeral) (h : n.value ≤ m.value)

def Limit.text {n : Numeral} : Limit n → Bytes
  | .same => []
  | .none => [comma]
  | .upTo m _ => comma :: m.digits

inductive Quantifier where
  | once
  | many
  | braces (n : Numeral) (limit : Limit n)

namespace Quantifier

def text : Quantifier → Bytes
  | .once => []
  | .many => [star]
  | .braces n limit => openBrace :: (n.digits ++ (limit.text ++ [closeBrace]))

def least : Quantifier → Nat
  | .once => 1
  | .many => 0
  | .braces n _ => n.value

def most : Quantifier → Option Nat
  | .once => some 1
  | .many => none
  | .braces n .same => some n.value
  | .braces _ .none => none
  | .braces _ (.upTo m _) => some m.value

end Quantifier

structure Term where
  atom : Atom
  quantifier : Quantifier

def Term.text (term : Term) : Bytes := term.atom.text ++ term.quantifier.text

abbrev Pattern := List Term

def Pattern.text (p : Pattern) : Bytes := p.flatMap Term.text

/-! ## 2. Meaning -/

def Atom.language : Atom → Language Byte
  | .any => {t | ∃ c, t = [c]}
  | .plain c => {[c.val]}
  | .escaped c => {[c.val]}

def Term.language (term : Term) : Language Byte :=
  {t | ∃ k, term.quantifier.least ≤ k ∧ (∀ m ∈ term.quantifier.most, k ≤ m) ∧
    t ∈ term.atom.language ^ k}

def Pattern.language (p : Pattern) : Language Byte := (p.map Term.language).prod

theorem Term.mem_language_once {atom : Atom} {t : Bytes} :
    t ∈ Term.language ⟨atom, .once⟩ ↔ t ∈ atom.language := by
  constructor
  · rintro ⟨k, hleast, hmost, ht⟩
    obtain rfl : k = 1 := Nat.le_antisymm (hmost 1 rfl) hleast
    rwa [pow_one] at ht
  · intro ht
    refine ⟨1, Nat.le_refl 1, fun m hm => (Option.some.inj hm).le, ?_⟩
    rwa [pow_one]

theorem Term.mem_language_any_many (t : Bytes) : t ∈ Term.language ⟨.any, .many⟩ := by
  refine ⟨t.length, Nat.zero_le _, ?_, ?_⟩
  · intro m hm
    cases hm
  · rw [Language.mem_pow]
    refine ⟨t.map List.singleton, (List.flatMap_singleton' t).symm, List.length_map _, ?_⟩
    intro y hy
    obtain ⟨c, -, rfl⟩ := List.mem_map.mp hy
    exact ⟨c, rfl⟩

theorem Pattern.mem_language_cons {term : Term} {p : Pattern} {t : Bytes} :
    t ∈ Pattern.language (term :: p) ↔
      ∃ u ∈ term.language, ∃ v ∈ Pattern.language p, u ++ v = t := by
  rw [Pattern.language, List.map_cons, List.prod_cons, Language.mem_mul]
  exact Iff.rfl

/-- The characters before which the end of a line is. -/
def newlines : Bytes := [10, 13, 12]

def OneLine (s : Bytes) : Prop := ∀ c ∈ s, c ∉ newlines

/-- What the documented syntax says of a search for a pattern with a `$` behind it, in a subject
    of one line: the pattern is accepted, and found where it matches up to the end. -/
def Documented (regex_search : Bytes → Bytes → Option Bool) : Prop :=
  ∀ (p : Pattern) (s : Bytes), OneLine s → ∃ found,
    regex_search s (p.text ++ [dollar]) = some found ∧
      (found = true ↔ ∃ t, t <:+ s ∧ t ∈ p.language)

/-! ## 3. A text has one reading -/

section Readings

theorem Plain.ne {c d : Byte} (hc : Plain c) (hd : d ∈ metacharacters) : c ≠ d :=
  fun h => hc.1 (h ▸ hd)

theorem Atom.text_append {a b : Atom} {r r' : Bytes} (h : a.text ++ r = b.text ++ r') :
    a = b ∧ r = r' := by
  cases a with
  | any =>
      cases b with
      | any => exact ⟨rfl, (List.cons.inj h).2⟩
      | plain c => exact absurd (List.cons.inj h).1.symm (c.property.ne (by decide))
      | escaped c => exact absurd (List.cons.inj h).1 (by decide)
  | plain c =>
      cases b with
      | any => exact absurd (List.cons.inj h).1 (c.property.ne (by decide))
      | plain d =>
          obtain ⟨hc, hr⟩ := List.cons.inj h
          exact ⟨congrArg Atom.plain (Subtype.ext hc), hr⟩
      | escaped d => exact absurd (List.cons.inj h).1 (c.property.ne (by decide))
  | escaped c =>
      cases b with
      | any => exact absurd (List.cons.inj h).1 (by decide)
      | plain d => exact absurd (List.cons.inj h).1.symm (d.property.ne (by decide))
      | escaped d =>
          obtain ⟨hc, hr⟩ := List.cons.inj (List.cons.inj h).2
          exact ⟨congrArg Atom.escaped (Subtype.ext hc), hr⟩

/-- The digits of a number end where no digit follows. -/
theorem Numeral.digits_append {n m : Numeral} {c c' : Byte} {r r' : Bytes}
    (hc : ¬ (48 ≤ c ∧ c ≤ 57)) (hc' : ¬ (48 ≤ c' ∧ c' ≤ 57))
    (h : n.digits ++ c :: r = m.digits ++ c' :: r') : n = m ∧ c :: r = c' :: r' := by
  have hread (n : Numeral) {c : Byte} (r : Bytes) (hc : ¬ (48 ≤ c ∧ c ≤ 57)) :
      (n.digits ++ c :: r).takeWhile (fun d => 48 ≤ d ∧ d ≤ 57) = n.digits := by
    rw [List.takeWhile_append_of_pos fun d hd => decide_eq_true (n.isDigit d hd),
      List.takeWhile_cons_of_neg (by simpa using hc), List.append_nil]
  have hdigits : n.digits = m.digits := by
    rw [← hread n r hc, h, hread m r' hc']
  have hnumeral : n = m := by
    cases n
    cases m
    cases hdigits
    rfl
  subst hnumeral
  exact ⟨rfl, List.append_cancel_left h⟩

theorem Numeral.head_ne {n : Numeral} {c : Byte} {r r' : Bytes} (hc : ¬ (48 ≤ c ∧ c ≤ 57)) :
    c :: r ≠ n.digits ++ r' := by
  obtain ⟨d, digits, hdigits⟩ := List.exists_cons_of_ne_nil n.ne_nil
  intro h
  rw [hdigits] at h
  apply hc
  rw [(List.cons.inj h).1]
  exact n.isDigit d (hdigits ▸ List.mem_cons_self)

theorem Limit.text_append {n : Numeral} {limit other : Limit n} {r r' : Bytes}
    (h : limit.text ++ closeBrace :: r = other.text ++ closeBrace :: r') :
    limit = other ∧ r = r' := by
  cases limit with
  | same =>
      cases other with
      | same => exact ⟨rfl, (List.cons.inj h).2⟩
      | none => exact absurd (List.cons.inj h).1 (by decide)
      | upTo m _ => exact absurd (List.cons.inj h).1 (by decide)
  | none =>
      cases other with
      | same => exact absurd (List.cons.inj h).1 (by decide)
      | none => exact ⟨rfl, (List.cons.inj (List.cons.inj h).2).2⟩
      | upTo m _ => exact absurd (List.cons.inj h).2 (Numeral.head_ne (by decide))
  | upTo m _ =>
      cases other with
      | same => exact absurd (List.cons.inj h).1 (by decide)
      | none => exact absurd (List.cons.inj h).2.symm (Numeral.head_ne (by decide))
      | upTo m' _ =>
          obtain ⟨rfl, hr⟩ := Numeral.digits_append (by decide) (by decide) (List.cons.inj h).2
          exact ⟨rfl, (List.cons.inj hr).2⟩

/-- What follows a term: no sign of a repetition. -/
def Fresh (r : Bytes) : Prop := ∀ c ∈ r.head?, c ≠ star ∧ c ≠ openBrace

theorem Quantifier.text_append {q q' : Quantifier} {r r' : Bytes} (hr : Fresh r) (hr' : Fresh r')
    (h : q.text ++ r = q'.text ++ r') : q = q' ∧ r = r' := by
  cases q with
  | once =>
      cases q' with
      | once => exact ⟨rfl, h⟩
      | many =>
          subst h
          exact absurd rfl (hr star rfl).1
      | braces n limit =>
          subst h
          exact absurd rfl (hr openBrace rfl).2
  | many =>
      cases q' with
      | once =>
          subst h
          exact absurd rfl (hr' star rfl).1
      | many => exact ⟨rfl, (List.cons.inj h).2⟩
      | braces n limit => exact absurd (List.cons.inj h).1 (by decide)
  | braces n limit =>
      cases q' with
      | once =>
          subst h
          exact absurd rfl (hr' openBrace rfl).2
      | many => exact absurd (List.cons.inj h).1 (by decide)
      | braces m other =>
          have hbraces : n.digits ++ (limit.text ++ closeBrace :: r) =
              m.digits ++ (other.text ++ closeBrace :: r') := by
            simpa [Quantifier.text] using h
          have hlimit {n : Numeral} (limit : Limit n) (r : Bytes) : ∃ c rest,
              ¬ (48 ≤ c ∧ c ≤ 57) ∧ limit.text ++ closeBrace :: r = c :: rest := by
            cases limit with
            | same => exact ⟨_, _, by decide, rfl⟩
            | none => exact ⟨_, _, by decide, rfl⟩
            | upTo m _ => exact ⟨_, _, by decide, rfl⟩
          obtain ⟨c, rest, hc, hrest⟩ := hlimit limit r
          obtain ⟨c', rest', hc', hrest'⟩ := hlimit other r'
          rw [hrest, hrest'] at hbraces
          obtain ⟨rfl, hsame⟩ := Numeral.digits_append hc hc' hbraces
          rw [← hrest, ← hrest'] at hsame
          obtain ⟨rfl, hr⟩ := Limit.text_append hsame
          exact ⟨rfl, hr⟩

theorem Pattern.fresh_text (p : Pattern) : Fresh p.text := by
  cases p with
  | nil =>
      intro c hc
      cases hc
  | cons term p =>
      intro c hc
      have hhead : (Pattern.text (term :: p)).head? = term.atom.text.head? := by
        obtain ⟨atom, quantifier⟩ := term
        cases atom <;> rfl
      rw [hhead] at hc
      cases hatom : term.atom with
      | any =>
          rw [hatom] at hc
          exact Option.some.inj hc ▸ by decide
      | plain d =>
          rw [hatom] at hc
          exact Option.some.inj hc ▸ ⟨d.property.ne (by decide), d.property.2.1⟩
      | escaped d =>
          rw [hatom] at hc
          exact Option.some.inj hc ▸ by decide

/-- **A text has one reading.** -/
theorem Pattern.text_injective : Function.Injective Pattern.text := by
  intro p
  induction p with
  | nil =>
      intro q h
      cases q with
      | nil => rfl
      | cons term q =>
          obtain ⟨atom, quantifier⟩ := term
          cases atom <;> cases h
  | cons term p ih =>
      intro q h
      cases q with
      | nil =>
          obtain ⟨atom, quantifier⟩ := term
          cases atom <;> cases h
      | cons other q =>
          have hterms : term.atom.text ++ (term.quantifier.text ++ Pattern.text p) =
              other.atom.text ++ (other.quantifier.text ++ Pattern.text q) := by
            simpa [Pattern.text, Term.text] using h
          obtain ⟨hatom, hrest⟩ := Atom.text_append hterms
          obtain ⟨hquantifier, htext⟩ :=
            Quantifier.text_append (Pattern.fresh_text p) (Pattern.fresh_text q) hrest
          rw [ih htext]
          obtain ⟨atom, quantifier⟩ := term
          cases hatom
          cases hquantifier
          rfl

end Readings

open Classical in
/-- A search by meaning, with no other text accepted. -/
noncomputable def searchByMeaning (s text : Bytes) : Option Bool :=
  if h : ∃ p : Pattern, text = p.text ++ [dollar] then
    some (decide (∃ t, t <:+ s ∧ t ∈ h.choose.language))
  else none

open Classical in
theorem documented_searchByMeaning : Documented searchByMeaning := by
  intro p s _
  have hread : ∃ q : Pattern, p.text ++ [dollar] = q.text ++ [dollar] := ⟨p, rfl⟩
  have hchoose : hread.choose = p :=
    Pattern.text_injective (List.append_cancel_right hread.choose_spec).symm
  refine ⟨_, dif_pos hread, ?_⟩
  rw [decide_eq_true_iff, hchoose]

/-! ## 4. Words on one line -/

section Words

/-- A newline that every word has. -/
def NeedsNewline (p : Pattern) : Prop :=
  ∃ term ∈ p, ∃ c, term.atom = .plain c ∧ c.val ∈ newlines ∧ 0 < term.quantifier.least

def NoBraces (t : Bytes) : Prop := ∀ c ∈ t, c ≠ openBrace ∧ c ≠ closeBrace

theorem Quantifier.least_le_most (q : Quantifier) : ∀ m ∈ q.most, q.least ≤ m := by
  cases q with
  | once =>
      intro m hm
      exact (Option.some.inj hm).le
  | many =>
      intro m hm
      cases hm
  | braces n limit =>
      cases limit with
      | same =>
          intro m hm
          exact (Option.some.inj hm).le
      | none =>
          intro m hm
          cases hm
      | upTo m h =>
          intro m' hm
          exact Option.some.inj hm ▸ h

/-- One character that an atom matches. -/
def Atom.sample : Atom → Byte
  | .any => 120
  | .plain c => c.val
  | .escaped c => c.val

theorem Atom.sample_mem (a : Atom) : [a.sample] ∈ a.language := by
  cases a with
  | any => exact ⟨_, rfl⟩
  | plain c => exact rfl
  | escaped c => exact rfl

/-- Metacharacters are neither braces nor newlines. -/
theorem metacharacters_apart : ∀ c ∈ metacharacters,
    (c ≠ openBrace ∧ c ≠ closeBrace) ∧ c ∉ newlines := by
  decide +kernel

theorem Atom.sample_ne_brace (a : Atom) : a.sample ≠ openBrace ∧ a.sample ≠ closeBrace := by
  cases a with
  | any => decide
  | plain c => exact c.property.2
  | escaped c => exact (metacharacters_apart c.val c.property).1

theorem Atom.sample_notMem_newlines {a : Atom} (h : ∀ c, a = .plain c → c.val ∉ newlines) :
    a.sample ∉ newlines := by
  cases a with
  | any => decide
  | plain c => exact h c rfl
  | escaped c => exact (metacharacters_apart c.val c.property).2

/-- A term has a word on one line and without braces, unless it needs a newline. -/
theorem Term.exists_word {term : Term} (h : ∀ c, term.atom = .plain c → c.val ∈ newlines →
    term.quantifier.least = 0) : ∃ t ∈ term.language, OneLine t ∧ NoBraces t := by
  refine ⟨(List.replicate term.quantifier.least [term.atom.sample]).flatten,
    ⟨_, Nat.le_refl _, term.quantifier.least_le_most, ?_⟩, ?_⟩
  · rw [Language.mem_pow]
    refine ⟨_, rfl, List.length_replicate, ?_⟩
    intro y hy
    rw [List.eq_of_mem_replicate hy]
    exact term.atom.sample_mem
  · have hmem : ∀ c ∈ (List.replicate term.quantifier.least [term.atom.sample]).flatten,
        term.quantifier.least ≠ 0 ∧ c = term.atom.sample := by
      intro c hc
      obtain ⟨y, hy, hcy⟩ := List.mem_flatten.mp hc
      rw [List.mem_replicate] at hy
      rw [hy.2] at hcy
      exact ⟨hy.1, List.mem_singleton.mp hcy⟩
    constructor
    · intro c hc
      obtain ⟨hleast, rfl⟩ := hmem c hc
      exact Atom.sample_notMem_newlines fun c hatom hnewline => hleast (h c hatom hnewline)
    · intro c hc
      obtain ⟨-, rfl⟩ := hmem c hc
      exact term.atom.sample_ne_brace

/-- So does a pattern. -/
theorem Pattern.exists_word {p : Pattern} (h : ¬ NeedsNewline p) :
    ∃ t ∈ p.language, OneLine t ∧ NoBraces t := by
  induction p with
  | nil =>
      refine ⟨[], rfl, ?_, ?_⟩
      · intro c hc
        cases hc
      · intro c hc
        cases hc
  | cons term p ih =>
      obtain ⟨v, hv, hline, hbraces⟩ := ih (by
        rintro ⟨other, hmem, hother⟩
        exact h ⟨other, List.mem_cons_of_mem term hmem, hother⟩)
      obtain ⟨u, hu, hline', hbraces'⟩ := Term.exists_word (by
        intro c hatom hnewline
        by_contra hleast
        exact h ⟨term, List.mem_cons_self, c, hatom, hnewline, Nat.pos_of_ne_zero hleast⟩)
      refine ⟨u ++ v, Pattern.mem_language_cons.mpr ⟨u, hu, v, hv, rfl⟩, ?_, ?_⟩
      · exact fun c hc => (List.mem_append.mp hc).elim (hline' c) (hline c)
      · exact fun c hc => (List.mem_append.mp hc).elim (hbraces' c) (hbraces c)

theorem NeedsNewline.not_oneLine {p : Pattern} (h : NeedsNewline p) {t : Bytes}
    (ht : t ∈ p.language) : ¬ OneLine t := by
  induction p generalizing t with
  | nil =>
      obtain ⟨term, hmem, -⟩ := h
      cases hmem
  | cons other p ih =>
      obtain ⟨u, hu, v, hv, rfl⟩ := Pattern.mem_language_cons.mp ht
      obtain ⟨term, hmem, hterm⟩ := h
      rcases List.mem_cons.mp hmem with rfl | hmem
      · obtain ⟨c, hatom, hnewline, hleast⟩ := hterm
        obtain ⟨k, hk, -, hpow⟩ := hu
        rw [hatom, Language.mem_pow] at hpow
        obtain ⟨words, rfl, hlength, hwords⟩ := hpow
        obtain ⟨w, hw⟩ := List.exists_mem_of_length_pos
          (Nat.lt_of_lt_of_le hleast (hlength ▸ hk))
        have hc : c.val ∈ w := by
          rw [show w = [c.val] from hwords w hw]
          exact List.mem_singleton_self _
        intro hline
        exact hline c.val (List.mem_append_left v (List.mem_flatten.mpr ⟨w, hw, hc⟩)) hnewline
      · intro hline
        exact ih ⟨term, hmem, hterm⟩ hv fun c hc => hline c (List.mem_append_right u hc)

theorem NeedsNewline.exists_mem_text {p : Pattern} (h : NeedsNewline p) :
    ∃ c ∈ p.text, c ∈ newlines := by
  obtain ⟨term, hmem, c, hatom, hnewline, -⟩ := h
  refine ⟨c.val, List.mem_flatMap.mpr ⟨term, hmem, ?_⟩, hnewline⟩
  rw [Term.text, hatom]
  exact List.mem_cons_self

end Words

end SearchPattern
