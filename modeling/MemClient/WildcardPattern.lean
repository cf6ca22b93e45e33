import MemClient.LogManager
import MemClient.SearchPattern
import MemClient.TextReplacement

/-!
# Wildcard patterns

`Wildcard2Regex` in `common/FileHandler.cpp` makes a search pattern of a wildcard pattern by
fifteen replacements.  What they come to is one piece of text for each character
(`wildcard2Regex_eq`); the braces have no piece of their own, and mean a repetition behind it.
-/

namespace MemClient

open ByteCodec SearchPattern TextReplacement

/-! ## 1. The translation -/

/-- What is escaped after the backslash, in this order. -/
def escapedMarks : Bytes :=
  -- ^ . $ | ( ) [ ] * + ? /
  [94, period, dollar, 124, 40, 41, 91, 93, star, 43, question, 47]

def wildcard2Regex (wildcardPattern : Bytes) : Bytes :=
  let text := replaceAll [backslash] [backslash, backslash] wildcardPattern
  let text := escapedMarks.foldl (fun text c => replaceAll [c] [backslash, c] text) text
  let text := replaceAll [backslash, question] [period] text
  let text := replaceAll [backslash, star] [period, star] text
  text ++ [dollar]

/-- What a wildcard pattern matches: `*` any string, `?` any character, and every other
    character itself. -/
inductive WildcardMatches : Bytes → Bytes → Prop
  | nil : WildcardMatches [] []
  | anyString {w t : Bytes} (u : Bytes) :
      WildcardMatches w t → WildcardMatches (star :: w) (u ++ t)
  | anyCharacter {w t : Bytes} (c : Byte) :
      WildcardMatches w t → WildcardMatches (question :: w) (c :: t)
  | itself {w t : Bytes} {c : Byte} : c ≠ star → c ≠ question →
      WildcardMatches w t → WildcardMatches (c :: w) (c :: t)

/-- `regex_search` finds the translation of `w` in a path exactly when `w` matches the path's
    end. -/
def PreservesMeaning (regex_search : Bytes → Bytes → Option Bool) (w : Bytes) : Prop :=
  ∀ s, OneLine s → ∃ found, regex_search s (wildcard2Regex w) = some found ∧
    (found = true ↔ ∃ t, t <:+ s ∧ WildcardMatches w t)

/-! ## 2. Piece by piece -/

section Pieces

/-- What a character becomes. -/
def piece (c : Byte) : Bytes :=
  if c = star then [period, star]
  else if c = question then [period]
  else escape backslash metacharacters c

theorem escaped_escape {q : Byte} (hq : q ∈ metacharacters) :
    Escaped backslash q (escape backslash metacharacters) := by
  intro c
  by_cases hc : c ∈ metacharacters
  · exact Or.inr ⟨c, if_pos hc⟩
  · refine Or.inl ⟨c, ?_, ?_, if_neg hc⟩
    · rintro rfl
      exact hc (by decide)
    · rintro rfl
      exact hc hq

theorem escape_eq_pair {c q : Byte} (hq : q ∈ metacharacters) :
    escape backslash metacharacters c = [backslash, q] ↔ c = q := by
  unfold escape
  by_cases hc : c ∈ metacharacters
  · rw [if_pos hc]
    simp
  · rw [if_neg hc]
    have hne : c ≠ q := fun h => hc (h ▸ hq)
    simp [hne]

/-- What a character has become before the last replacement. -/
def pieceBeforeStar (c : Byte) : Bytes :=
  if c = question then [period] else escape backslash metacharacters c

theorem escaped_pieceBeforeStar : Escaped backslash star pieceBeforeStar := by
  intro c
  unfold pieceBeforeStar
  by_cases hc : c = question
  · exact Or.inl ⟨period, by decide, by decide, if_pos hc⟩
  · rw [if_neg hc]
    exact escaped_escape (by decide) c

/-- **The fifteen replacements** rewrite each character on its own. -/
theorem wildcard2Regex_eq (w : Bytes) : wildcard2Regex w = w.flatMap piece ++ [dollar] := by
  have hbackslash : replaceAll [backslash] [backslash, backslash] w =
      w.flatMap (escape backslash [backslash]) := by
    have hescape := replaceAll_escape (List.not_mem_nil : backslash ∉ ([] : Bytes))
      (e := backslash) (Or.inl rfl) w
    rwa [escape_nil] at hescape
  have hmarks : escapedMarks.foldl (fun text c => replaceAll [c] [backslash, c] text)
      (w.flatMap (escape backslash [backslash])) = w.flatMap (escape backslash metacharacters) :=
    foldl_replaceAll_escape (by decide +kernel) w (by decide +kernel)
  have hquestion : replaceAll [backslash, question] [period]
      (w.flatMap (escape backslash metacharacters)) = w.flatMap pieceBeforeStar := by
    rw [(escaped_escape (by decide)).replaceAll_pair (by decide)]
    simp only [escape_eq_pair (show question ∈ metacharacters by decide)]
    rfl
  have hstar : replaceAll [backslash, star] [period, star] (w.flatMap pieceBeforeStar) =
      w.flatMap piece := by
    rw [escaped_pieceBeforeStar.replaceAll_pair (by decide)]
    congr 1
    funext c
    unfold piece pieceBeforeStar
    by_cases hc : c = question
    · subst hc
      decide
    · simp only [if_neg hc, escape_eq_pair (show star ∈ metacharacters by decide)]
  unfold wildcard2Regex
  simp only [hbackslash, hmarks, hquestion, hstar]

example : wildcard2Regex (ascii ['a', '\\', '?', '.', '*']) =
    ascii ['a', '\\', '\\', '.', '\\', '.', '.', '*', '$'] := by decide

theorem piece_subset (c : Byte) : piece c ⊆ [period, star, backslash, c] := by
  intro d hd
  unfold piece escape at hd
  split_ifs at hd with hstar hquestion hmeta
  · exact List.mem_append_left [backslash, c] hd
  · exact List.mem_append_left [star, backslash, c] hd
  · exact List.mem_append_right [period, star] hd
  · exact List.mem_append_right [period, star, backslash] hd

/-- A newline in the translation is one of the pattern's. -/
theorem mem_of_mem_wildcard2Regex {w : Bytes} {c : Byte} (hc : c ∈ newlines)
    (hmem : c ∈ wildcard2Regex w) : c ∈ w := by
  have hmarks : ∀ c ∈ newlines, c ∉ [period, star, backslash] ∧ c ∉ [dollar] := by
    decide +kernel
  obtain ⟨hpieces, hend⟩ := hmarks c hc
  rw [wildcard2Regex_eq, List.mem_append, List.mem_flatMap] at hmem
  obtain ⟨d, hd, hpiece⟩ := hmem.resolve_right hend
  have hcd : c ∈ [period, star, backslash] ++ [d] := piece_subset d hpiece
  rw [List.mem_append, List.mem_singleton] at hcd
  exact hcd.resolve_left hpieces ▸ hd

end Pieces

/-! ## 3. What the pieces mean -/

section Readings

variable {w t : Bytes} {c : Byte}

theorem wildcardMatches_nil : WildcardMatches [] t ↔ t = [] := by
  constructor
  · intro h
    cases h
    rfl
  · rintro rfl
    exact .nil

theorem wildcardMatches_star :
    WildcardMatches (star :: w) t ↔ ∃ u v, WildcardMatches w v ∧ u ++ v = t := by
  constructor
  · intro h
    cases h with
    | anyString u hv => exact ⟨u, _, hv, rfl⟩
    | itself hstar => exact absurd rfl hstar
  · rintro ⟨u, v, hv, rfl⟩
    exact .anyString u hv

theorem wildcardMatches_question :
    WildcardMatches (question :: w) t ↔ ∃ c v, WildcardMatches w v ∧ [c] ++ v = t := by
  constructor
  · intro h
    cases h with
    | anyCharacter c hv => exact ⟨c, _, hv, rfl⟩
    | itself _ hquestion => exact absurd rfl hquestion
  · rintro ⟨c, v, hv, rfl⟩
    exact .anyCharacter c hv

theorem wildcardMatches_itself (hstar : c ≠ star) (hquestion : c ≠ question) :
    WildcardMatches (c :: w) t ↔ ∃ v, WildcardMatches w v ∧ [c] ++ v = t := by
  constructor
  · intro h
    cases h with
    | anyString => exact absurd rfl hstar
    | anyCharacter => exact absurd rfl hquestion
    | itself _ _ hv => exact ⟨_, hv, rfl⟩
  · rintro ⟨v, hv, rfl⟩
    exact .itself hstar hquestion hv

/-- A character that stands for itself is in whatever is matched. -/
theorem WildcardMatches.mem (h : WildcardMatches w t) (hc : c ∈ w) (hstar : c ≠ star)
    (hquestion : c ≠ question) : c ∈ t := by
  induction h with
  | nil => exact hc
  | anyString u _ ih =>
      rcases List.mem_cons.mp hc with rfl | hc
      · exact absurd rfl hstar
      · exact List.mem_append_right u (ih hc)
  | anyCharacter d _ ih =>
      rcases List.mem_cons.mp hc with rfl | hc
      · exact absurd rfl hquestion
      · exact List.mem_cons_of_mem d (ih hc)
  | itself _ _ _ ih =>
      rcases List.mem_cons.mp hc with rfl | hc
      · exact List.mem_cons_self
      · exact List.mem_cons_of_mem _ (ih hc)

/-- The term that a character other than a brace becomes, and its meaning. -/
theorem exists_term (hc : c ≠ openBrace ∧ c ≠ closeBrace) (w : Bytes) : ∃ term : Term,
    term.text = piece c ∧ ∀ t, WildcardMatches (c :: w) t ↔
      ∃ u ∈ term.language, ∃ v, WildcardMatches w v ∧ u ++ v = t := by
  by_cases hstar : c = star
  · subst hstar
    refine ⟨⟨.any, .many⟩, rfl, fun t => wildcardMatches_star.trans ?_⟩
    simp [Term.mem_language_any_many]
  by_cases hquestion : c = question
  · subst hquestion
    refine ⟨⟨.any, .once⟩, rfl, fun t => wildcardMatches_question.trans ?_⟩
    simp only [Term.mem_language_once]
    constructor
    · rintro ⟨c, v, hv, rfl⟩
      exact ⟨[c], ⟨c, rfl⟩, v, hv, rfl⟩
    · rintro ⟨_, ⟨c, rfl⟩, v, hv, rfl⟩
      exact ⟨c, v, hv, rfl⟩
  have hpiece : piece c = escape backslash metacharacters c := by
    unfold piece
    rw [if_neg hstar, if_neg hquestion]
  have hmeaning {atom : Atom} (hatom : atom.language = {[c]}) (t : Bytes) :
      WildcardMatches (c :: w) t ↔
        ∃ u ∈ Term.language ⟨atom, .once⟩, ∃ v, WildcardMatches w v ∧ u ++ v = t := by
    rw [wildcardMatches_itself hstar hquestion]
    simp only [Term.mem_language_once, hatom]
    constructor
    · rintro ⟨v, hv, rfl⟩
      exact ⟨[c], rfl, v, hv, rfl⟩
    · rintro ⟨_, rfl, v, hv, rfl⟩
      exact ⟨v, hv, rfl⟩
  by_cases hmeta : c ∈ metacharacters
  · refine ⟨⟨.escaped ⟨c, hmeta⟩, .once⟩, ?_, hmeaning rfl⟩
    rw [hpiece, escape, if_pos hmeta]
    rfl
  · refine ⟨⟨.plain ⟨c, hmeta, hc⟩, .once⟩, ?_, hmeaning rfl⟩
    rw [hpiece, escape, if_neg hmeta]
    rfl

/-- A wildcard pattern without braces becomes a pattern with its meaning. -/
theorem exists_reading (h : NoBraces w) : ∃ p : Pattern,
    p.text = w.flatMap piece ∧ ∀ t, t ∈ p.language ↔ WildcardMatches w t := by
  induction w with
  | nil => exact ⟨[], rfl, fun t => wildcardMatches_nil.symm⟩
  | cons c w ih =>
      obtain ⟨p, htext, hlanguage⟩ := ih fun d hd => h d (List.mem_cons_of_mem c hd)
      obtain ⟨term, hterm, hmeaning⟩ := exists_term (h c List.mem_cons_self) w
      refine ⟨term :: p, ?_, ?_⟩
      · rw [List.flatMap_cons, ← htext, ← hterm]
        rfl
      · intro t
        rw [Pattern.mem_language_cons, hmeaning]
        simp only [hlanguage]

end Readings

/-! ## 4. What is preserved -/

section Meaning

variable {regex_search : Bytes → Bytes → Option Bool} {w : Bytes} {p : Pattern}

theorem preservesMeaning_of_noBraces (hsearch : Documented regex_search) (hbraces : NoBraces w) :
    PreservesMeaning regex_search w := by
  intro s hs
  obtain ⟨p, htext, hlanguage⟩ := exists_reading hbraces
  obtain ⟨found, hfound, hiff⟩ := hsearch p s hs
  refine ⟨found, ?_, ?_⟩
  · rw [wildcard2Regex_eq, ← htext, hfound]
  · simp only [hiff, hlanguage]

/-- A word of the translation on one line has no brace, so that a pattern with one does not
    match it. -/
theorem noBraces_of_preservesMeaning (hsearch : Documented regex_search)
    (htext : p.text ++ [dollar] = wildcard2Regex w) (hnewline : ¬ NeedsNewline p)
    (hpreserves : PreservesMeaning regex_search w) : NoBraces w := by
  obtain ⟨t, ht, hline, hword⟩ := Pattern.exists_word hnewline
  obtain ⟨found, hfound, hiff⟩ := hsearch p t hline
  obtain ⟨found', hfound', hiff'⟩ := hpreserves t hline
  rw [← htext, hfound] at hfound'
  obtain rfl := Option.some.inj hfound'
  obtain ⟨u, hsuffix, hmatch⟩ := hiff'.mp (hiff.mpr ⟨t, List.suffix_refl t, ht⟩)
  intro c hc
  by_contra hbrace
  have hne : c ≠ star ∧ c ≠ question := by
    constructor
    · rintro rfl
      exact hbrace (by decide)
    · rintro rfl
      exact hbrace (by decide)
  exact hbrace (hword c (hsuffix.subset (hmatch.mem hc hne.1 hne.2)))

/-- With a newline that has to be there, neither side matches in a path of one line. -/
theorem preservesMeaning_of_needsNewline (hsearch : Documented regex_search)
    (htext : p.text ++ [dollar] = wildcard2Regex w) (hnewline : NeedsNewline p) :
    PreservesMeaning regex_search w := by
  intro s hs
  obtain ⟨found, hfound, hiff⟩ := hsearch p s hs
  refine ⟨found, htext ▸ hfound, hiff.trans (iff_of_false ?_ ?_)⟩
  · rintro ⟨t, hsuffix, ht⟩
    exact hnewline.not_oneLine ht fun c hc => hs c (hsuffix.subset hc)
  · rintro ⟨t, hsuffix, hmatch⟩
    obtain ⟨c, hc, hcnewline⟩ := hnewline.exists_mem_text
    have hcw : c ∈ w := mem_of_mem_wildcard2Regex hcnewline (htext ▸ List.mem_append_left _ hc)
    have hne : ∀ c ∈ newlines, c ≠ star ∧ c ≠ question := by decide
    exact hs c (hsuffix.subset (hmatch.mem hcw (hne c hcnewline).1 (hne c hcnewline).2)) hcnewline

theorem not_preservesMeaning_of_unread (hunread : ∀ p : Pattern,
    p.text ++ [dollar] ≠ wildcard2Regex w) : ¬ PreservesMeaning searchByMeaning w := by
  intro hpreserves
  obtain ⟨found, hfound, -⟩ := hpreserves [] fun c hc => absurd hc List.not_mem_nil
  have hrejected : searchByMeaning [] (wildcard2Regex w) = none :=
    dif_neg fun ⟨p, htext⟩ => hunread p htext.symm
  rw [hrejected] at hfound
  cases hfound

end Meaning

/-- **Wildcards.**  A wildcard pattern without braces keeps its meaning, whatever its other
    characters are.  Where the documented syntax reads a pattern `p` in the text that comes out,
    these are all that do, up to patterns with a newline that no path has; where it reads none, it
    does not say that the meaning is kept. -/
theorem preservesMeaning_iff {regex_search : Bytes → Bytes → Option Bool}
    (hsearch : Documented regex_search) (w : Bytes) :
    (NoBraces w → PreservesMeaning regex_search w) ∧
    (∀ p : Pattern, p.text ++ [dollar] = wildcard2Regex w →
      (PreservesMeaning regex_search w ↔ NoBraces w ∨ NeedsNewline p)) ∧
    ((∀ p : Pattern, p.text ++ [dollar] ≠ wildcard2Regex w) →
      ∃ other, Documented other ∧ ¬ PreservesMeaning other w) := by
  refine ⟨preservesMeaning_of_noBraces hsearch, fun p htext => ⟨?_, ?_⟩, ?_⟩
  · intro hpreserves
    by_contra hnot
    obtain ⟨hbraces, hnewline⟩ := not_or.mp hnot
    exact hbraces (noBraces_of_preservesMeaning hsearch htext hnewline hpreserves)
  · rintro (hbraces | hnewline)
    · exact preservesMeaning_of_noBraces hsearch hbraces
    · exact preservesMeaning_of_needsNewline hsearch htext hnewline
  · intro hunread
    exact ⟨searchByMeaning, documented_searchByMeaning, not_preservesMeaning_of_unread hunread⟩

/-- `conf\*_log.conf`, as on Windows. -/
def logConfigs : Bytes :=
  ascii ['c', 'o', 'n', 'f', '\\', '*', '_', 'l', 'o', 'g', '.', 'c', 'o', 'n', 'f']

theorem preservesMeaning_logConfigs :
    NoBraces logConfigs ∧ PreservesMeaning searchByMeaning logConfigs := by
  have hbraces : NoBraces logConfigs := by
    unfold NoBraces
    decide
  exact ⟨hbraces, (preservesMeaning_iff documented_searchByMeaning logConfigs).1 hbraces⟩

def two : Numeral where
  digits := [50]
  ne_nil := by decide
  isDigit := by decide
  fits := by decide

/-- A name with braces, which the translation turns into a repetition. -/
def bracedName : Bytes := [97, openBrace, 50, closeBrace]

/-- `a` twice. -/
def twice : Pattern := [⟨.plain ⟨97, by unfold Plain; decide⟩, .braces two .same⟩]

/-- What comes out for `bracedName` finds two `a` and not the name itself. -/
theorem not_preservesMeaning : ¬ ∀ regex_search, Documented regex_search →
    ∀ w, PreservesMeaning regex_search w := by
  intro hclaim
  have htext : Pattern.text twice ++ [dollar] = wildcard2Regex bracedName := by decide
  have hword : [97, 97] ∈ Pattern.language twice := by
    refine Pattern.mem_language_cons.mpr ⟨[97, 97], ⟨2, Nat.le_refl 2, ?_, ?_⟩, [], rfl, rfl⟩
    · exact fun m hm => (Option.some.inj hm).le
    · exact Language.mem_pow.mpr ⟨[[97], [97]], rfl, rfl, by
        intro y hy
        obtain rfl : y = [97] := by simpa using hy
        exact rfl⟩
  have hline : OneLine [97, 97] := by
    unfold OneLine
    decide
  obtain ⟨found, hfound, hiff⟩ := documented_searchByMeaning twice [97, 97] hline
  obtain ⟨found', hfound', hiff'⟩ :=
    hclaim searchByMeaning documented_searchByMeaning bracedName [97, 97] hline
  rw [← htext, hfound] at hfound'
  obtain rfl := Option.some.inj hfound'
  obtain ⟨t, hsuffix, hmatch⟩ := hiff'.mp (hiff.mpr ⟨[97, 97], List.suffix_refl _, hword⟩)
  have hbrace : openBrace ∈ t := hmatch.mem (by decide) (by decide) (by decide)
  exact absurd (hsuffix.subset hbrace) (by decide)

end MemClient
