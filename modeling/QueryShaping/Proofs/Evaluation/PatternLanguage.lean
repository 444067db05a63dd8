import Mathlib.Computability.Language
import QueryShaping.Evaluation.Like

/-!
# The language of a pattern

A pattern is read from left to right into parts, and each part stands for some texts. The texts of the whole pattern
are those that can be cut into one text for each part. Matching looks for such a cut. It has a choice only where a part
stands for any text, and there it tries every way to go on.
-/

namespace QueryShaping

/-- What stands in a pattern once its escapes have been read. -/
inductive PatternPart where
  | literal (c : Char)
  | anyChar
  | anyText

namespace PatternPart

/-- The texts that a part stands for. -/
def language : PatternPart → Language Char
  | .literal c => {[c]}
  | .anyChar => {text | text.length = 1}
  | .anyText => ⊤

/-- What a character stands for that is no escape and not escaped. -/
def ofChar (c : Char) : PatternPart :=
  if c = '%' then .anyText else if c = '_' then .anyChar else .literal c

/-- The parts of a pattern. An escape is looked for first; where nothing comes after it, the pattern cannot be read. -/
def read (escape : Option Char) : List Char → Option (List PatternPart)
  | [] => some []
  | p :: rest =>
    if some p = escape then
      match rest with
      | [] => none
      | c :: rest => (read escape rest).map (.literal c :: ·)
    else (read escape rest).map (ofChar p :: ·)

theorem mem_literal_mul (p : Char) (l : Language Char) (text : List Char) :
    text ∈ (literal p).language * l ↔ ∃ rest, p :: rest = text ∧ rest ∈ l := by
  rw [Language.mem_mul]
  constructor
  · rintro ⟨_, rfl, rest, hrest, rfl⟩
    exact ⟨rest, rfl, hrest⟩
  · rintro ⟨rest, rfl, hrest⟩
    exact ⟨[p], rfl, rest, hrest, rfl⟩

theorem mem_anyChar_mul (l : Language Char) (text : List Char) :
    text ∈ anyChar.language * l ↔ ∃ c rest, c :: rest = text ∧ rest ∈ l := by
  rw [Language.mem_mul]
  constructor
  · rintro ⟨first, hfirst, rest, hrest, rfl⟩
    obtain ⟨c, rfl⟩ := List.length_eq_one_iff.1 hfirst
    exact ⟨c, rest, rfl, hrest⟩
  · rintro ⟨c, rest, rfl, hrest⟩
    exact ⟨[c], rfl, rest, hrest, rfl⟩

end PatternPart

/-- The texts that a pattern stands for. -/
def patternLanguage (escape : Option Char) (pattern : List Char) : Language Char :=
  match PatternPart.read escape pattern with
  | some parts => (parts.map PatternPart.language).prod
  | none => 0

/-- A pattern with one more part in front. -/
theorem patternLanguage_of_read {escape : Option Char} {pattern rest : List Char} {part : PatternPart}
    (h : PatternPart.read escape pattern = (PatternPart.read escape rest).map (part :: ·)) :
    patternLanguage escape pattern = part.language * patternLanguage escape rest := by
  unfold patternLanguage
  rw [h]
  cases PatternPart.read escape rest <;> simp

theorem anySuffix_iff {α : Type} (test : List α → Bool) (l : List α) :
    anySuffix test l ↔ ∃ skipped rest, skipped ++ rest = l ∧ test rest := by
  induction l with
  | nil => simp [anySuffix]
  | cons a l ih =>
    rw [anySuffix, Bool.or_eq_true, ih]
    constructor
    · rintro (h | ⟨skipped, rest, rfl, h⟩)
      · exact ⟨[], a :: l, rfl, h⟩
      · exact ⟨a :: skipped, rest, rfl, h⟩
    · rintro ⟨skipped, rest, heq, h⟩
      cases skipped with
      | nil => exact .inl (heq ▸ h)
      | cons b skipped => exact .inr ⟨skipped, rest, (List.cons.inj heq).2, h⟩

/-- Matching goes through the pattern part by part. An escape and what it escapes are one part, so the induction goes
on below both. -/
theorem likeChars_iff (escape : Option Char) :
    ∀ pattern text : List Char, likeChars escape pattern text ↔ text ∈ patternLanguage escape pattern
  | [], text => by
    show text.isEmpty ↔ text ∈ (1 : Language Char)
    rw [Language.mem_one, List.isEmpty_iff]
  | p :: rest, text => by
    unfold likeChars
    by_cases hescape : some p = escape
    · rw [if_pos hescape]
      cases rest with
      | nil => simp [patternLanguage, PatternPart.read, hescape]
      | cons literal rest =>
        have hread : PatternPart.read escape (p :: literal :: rest) =
            (PatternPart.read escape rest).map (.literal literal :: ·) := by
          rw [PatternPart.read.eq_def]
          exact if_pos hescape
        rw [patternLanguage_of_read hread, PatternPart.mem_literal_mul]
        cases text with
        | nil => simp
        | cons c text => simp [likeChars_iff escape rest text]
    · have hread : PatternPart.read escape (p :: rest) =
          (PatternPart.read escape rest).map (PatternPart.ofChar p :: ·) := by
        rw [PatternPart.read.eq_def]
        exact if_neg hescape
      rw [if_neg hescape, patternLanguage_of_read hread, PatternPart.ofChar]
      by_cases hany : p = '%'
      · rw [if_pos hany, if_pos hany, Language.mem_mul]
        cases rest with
        | nil =>
          -- Nothing comes after the part for any text, so the text is taken whole.
          exact iff_of_true rfl ⟨text, trivial, [], rfl, List.append_nil text⟩
        | cons q rest =>
          rw [List.isEmpty_cons, Bool.false_or, anySuffix_iff]
          constructor
          · rintro ⟨skipped, rest', rfl, h⟩
            exact ⟨skipped, trivial, rest', (likeChars_iff escape (q :: rest) rest').1 h, rfl⟩
          · rintro ⟨skipped, -, rest', h, rfl⟩
            exact ⟨skipped, rest', rfl, (likeChars_iff escape (q :: rest) rest').2 h⟩
      · rw [if_neg hany, if_neg hany]
        by_cases hone : p = '_'
        · rw [if_pos hone, PatternPart.mem_anyChar_mul]
          cases text with
          | nil => simp
          | cons c text => simp [hone, likeChars_iff escape rest text]
        · rw [if_neg hone, PatternPart.mem_literal_mul]
          cases text with
          | nil => simp
          | cons c text => simp [hone, likeChars_iff escape rest text]

/-- Matching decides the language of the pattern. -/
theorem likeMatches_iff (text pattern : String) (escape : Option Char) :
    likeMatches text pattern escape ↔ text.toList ∈ patternLanguage escape pattern.toList :=
  likeChars_iff escape pattern.toList text.toList

end QueryShaping
