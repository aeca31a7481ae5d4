import Breadboard.Proofs.Binary64.Whole
import Breadboard.Proofs.Script.ConstantDefinition
import Breadboard.Proofs.Sketch.Relexing

set_option autoImplicit false

namespace Breadboard.Script

open Sketch hiding stripComments

theorem allBlank_render {tokens : List Token} (all : ∀ token ∈ tokens, Text.allBlank token.text = true) :
    Text.allBlank (render tokens) = true := by
  refine List.all_eq_true.mpr fun c member => ?_
  obtain ⟨token, inTokens, inText⟩ := List.mem_flatMap.mp member
  exact List.all_eq_true.mp (all token inTokens) c inText

/-- A number ends in front of the first character that stands in no number. -/
theorem number_run {number : Token} {behind : List Token}
    (cut : tokenize (render (number :: behind)) = number :: behind) (isNumber : number.kind = .number) :
    (∀ c ∈ number.text, isNumberChar c = true) ∧
      ∀ c ∈ (render behind).head?, isNumberChar c = false := by
  cases text : render (number :: behind) with
  | nil =>
      rw [text, tokenize_nil] at cut
      cases cut
  | cons c rest =>
      rw [text, tokenize_cons] at cut
      obtain ⟨rfl, left⟩ := List.cons.inj cut
      have kind : (scan c rest).1 = .number := isNumber
      obtain ⟨whole, stop⟩ := @isLexeme_scan c rest (by simp [kind]) (by simp [kind])
      rw [kind] at whole
      refine ⟨isNumberChar_of_isLexeme whole, fun next isNext => ?_⟩
      rw [← left, render_tokenize] at isNext
      simpa [Token.endsBefore, kind] using stop next isNext

namespace ConstantDefinition

variable {source : Text} (definition : ConstantDefinition source)

/-- What stands behind the name of a directive or the equals sign of a declaration. -/
def valueText : Text :=
  render (definition.number ++ definition.behind)

/-- The definition gives its value: it is a directive on one line and a literal of the value is the rest of
the line, or it is a declaration and a literal of the value is all up to its semicolon. -/
def IsAsWritten : Prop :=
  match definition.form with
  | .directive => '\n' ∉ render definition.opening ∧
      IsSignedLiteral (Text.trim (definition.valueText.takeWhile (· != '\n'))) definition.constant.value
  | .declaration => ';' ∈ definition.valueText ∧
      IsSignedLiteral (Text.trim (definition.valueText.takeWhile (· != ';'))) definition.constant.value

/-- Behind the first number of the definition only blanks stand, up to its end. -/
def IsClosed : Prop :=
  match definition.form with
  | .directive => '\n' ∉ render (definition.opening ++ definition.number) ∧
      Text.allBlank ((render definition.behind).takeWhile (· != '\n')) = true
  | .declaration => ';' ∈ render definition.behind ∧
      Text.allBlank ((render definition.behind).takeWhile (· != ';')) = true

instance decidableIsClosed : (definition : ConstantDefinition source) → Decidable definition.IsClosed
  | ⟨.directive, _, opening, number, behind, _, _, _, _⟩ =>
    inferInstanceAs (Decidable ('\n' ∉ render (opening ++ number) ∧
      Text.allBlank ((render behind).takeWhile (· != '\n')) = true))
  | ⟨.declaration, _, _, _, behind, _, _, _, _⟩ =>
    inferInstanceAs (Decidable (';' ∈ render behind ∧
      Text.allBlank ((render behind).takeWhile (· != ';')) = true))

/-- The value is the one of a number in the text, with blanks before it and none of its characters behind
it. -/
theorem exists_isNumberText (commentFree : ∀ token ∈ tokenize source, token.kind ≠ .comment) :
    ∃ gap sign literal negate magnitude, render definition.number = gap ++ (sign ++ literal) ∧
      definition.constant.value = negate magnitude ∧
      IsNumberText gap sign literal (render definition.behind) negate magnitude := by
  obtain ⟨form, before, opening, number, behind, ⟨name, value⟩, isOpening, isValue, tokens⟩ := definition
  have blank : ∀ {gap : List Token}, (∀ token ∈ gap, token.isTrivia = true) → gap ⊆ tokenize source →
      Text.allBlank (render gap) = true := by
    intro gap trivia inside
    refine allBlank_render fun token member => allBlank_of_mem_tokenize (inside member) ?_
    have visible := trivia token member
    rw [Token.isTrivia, Bool.or_eq_true, beq_iff_eq, beq_iff_eq] at visible
    exact visible.resolve_right (commentFree token (inside member))
  dsimp only at isValue ⊢
  cases isValue with
  | @plain gap number value gapTrivia isNumber denotes =>
      have cut : tokenize (render (number :: behind)) = number :: behind :=
        tokenize_render_behind (tokens.trans (by simp : _ = (before ++ opening ++ gap) ++ number :: behind))
      obtain ⟨run, apart⟩ := number_run cut isNumber
      have inside : gap ⊆ tokenize source := fun token member => by simp [tokens, member]
      exact ⟨render gap, [], number.text, id, value, by simp, rfl, blank gapTrivia inside, .absent, run,
        denotes, apart⟩
  | @negated gap inner minus number value gapTrivia isMinus innerTrivia isNumber denotes =>
      have cut : tokenize (render (number :: behind)) = number :: behind := tokenize_render_behind
        (tokens.trans (by simp : _ = (before ++ opening ++ gap ++ minus :: inner) ++ number :: behind))
      obtain ⟨run, apart⟩ := number_run cut isNumber
      have inside : gap ⊆ tokenize source := fun token member => by simp [tokens, member]
      have innerInside : inner ⊆ tokenize source := fun token member => by simp [tokens, member]
      have isText : minus.text = ['-'] := by rw [eq_of_isPunct isMinus]; rfl
      exact ⟨render gap, '-' :: render inner, number.text, Binary64.neg, value, by simp [isText], rfl,
        blank gapTrivia inside, .minus (blank innerTrivia innerInside), run, denotes, apart⟩

/-- A definition gives its value just in case it ends behind its first number. -/
theorem isAsWritten_iff (commentFree : ∀ token ∈ tokenize source, token.kind ≠ .comment) :
    definition.IsAsWritten ↔ definition.IsClosed := by
  obtain ⟨gap, sign, literal, negate, magnitude, numberText, value, isNumber⟩ :=
    definition.exists_isNumberText commentFree
  have text : definition.valueText = gap ++ (sign ++ literal) ++ render definition.behind := by
    rw [valueText, render_append, numberText]
  rw [IsAsWritten, IsClosed]
  split
  · rw [text, value, isNumber.isSignedLiteral_iff (by decide), render_append, numberText]
    simp only [List.mem_append, not_or, and_assoc]
  · have absent := isNumber.not_mem_of_visible (show isNumberChar ';' = false by decide) (by decide)
      (by decide)
    rw [text, value, isNumber.isSignedLiteral_iff (by decide), List.mem_append]
    simp [absent]

end ConstantDefinition

/-- The constants of a sketch without comments, each with the value that its last definition is read with. The
definition gives that value just in case it ends behind its first number. -/
theorem constants_as_written_iff {source : Text}
    (commentFree : ∀ token ∈ tokenize source, token.kind ≠ .comment) :
    (∀ constant, constant ∈ (Context.harvest source).constants ↔
      ∃ definition : ConstantDefinition source, definition.constant = constant ∧ definition.IsLast) ∧
    ∀ definition : ConstantDefinition source, definition.IsAsWritten ↔ definition.IsClosed :=
  ⟨fun _ => mem_constants_iff, fun definition => definition.isAsWritten_iff commentFree⟩

theorem numericLiteral?_digit : numericLiteral? ['2'] = some (Binary64.ofNat 2) :=
  @numericLiteral?_ofNat 2 (by decide)

theorem isValue_two : IsValue [⟨.space, [' ']⟩, ⟨.number, ['2']⟩] (Binary64.ofNat 2) := by
  refine @IsValue.plain [⟨.space, [' ']⟩] ⟨.number, ['2']⟩ _ ?_ rfl numericLiteral?_digit
  decide

theorem isValue_negative :
    IsValue [⟨.space, [' ']⟩, ⟨.punct, ['-']⟩, ⟨.number, ['2']⟩] (Binary64.ofNat 2).neg := by
  refine @IsValue.negated [⟨.space, [' ']⟩] [] ⟨.punct, ['-']⟩ ⟨.number, ['2']⟩ _ ?_ rfl ?_ rfl
    numericLiteral?_digit
  · decide
  · decide

/-- A directive of a negative number. -/
def negativeMacro : Text :=
  "#define OFFSET -2\n".toList

theorem tokenize_negativeMacro : tokenize negativeMacro =
    [⟨.punct, ['#']⟩, ⟨.ident, "define".toList⟩, ⟨.space, [' ']⟩, ⟨.ident, "OFFSET".toList⟩,
      ⟨.space, [' ']⟩, ⟨.punct, ['-']⟩, ⟨.number, ['2']⟩, ⟨.space, ['\n']⟩] := by
  cbv

def negativeDefinition : ConstantDefinition negativeMacro where
  form := .directive
  before := []
  opening := [⟨.punct, ['#']⟩, ⟨.ident, "define".toList⟩, ⟨.space, [' ']⟩, ⟨.ident, "OFFSET".toList⟩]
  number := [⟨.space, [' ']⟩, ⟨.punct, ['-']⟩, ⟨.number, ['2']⟩]
  behind := [⟨.space, ['\n']⟩]
  constant := ⟨"OFFSET".toList, (Binary64.ofNat 2).neg⟩
  isOpening := @IsOpening.directive ⟨.punct, ['#']⟩ ⟨.ident, "define".toList⟩ ⟨.ident, "OFFSET".toList⟩ []
    [⟨.space, [' ']⟩] (by decide) (by decide) (by decide) (by decide) rfl
  isValue := by dsimp only; exact isValue_negative
  tokens := tokenize_negativeMacro

theorem constants_as_written_iff_negativeMacro :
    (∀ token ∈ tokenize negativeMacro, token.kind ≠ .comment) ∧
    (∀ constant, constant ∈ (Context.harvest negativeMacro).constants ↔
      ∃ definition : ConstantDefinition negativeMacro,
        definition.constant = constant ∧ definition.IsLast) ∧
    negativeDefinition.IsAsWritten := by
  have commentFree : ∀ token ∈ tokenize negativeMacro, token.kind ≠ .comment := by
    rw [tokenize_negativeMacro]
    decide
  have isClosed : negativeDefinition.IsClosed := by decide
  have written := constants_as_written_iff commentFree
  exact ⟨commentFree, written.1, (written.2 negativeDefinition).mpr isClosed⟩

/-- A directive of a sum. -/
def sumMacro : Text :=
  "#define LIMIT 2 + 3\n".toList

theorem tokenize_sumMacro : tokenize sumMacro =
    [⟨.punct, ['#']⟩, ⟨.ident, "define".toList⟩, ⟨.space, [' ']⟩, ⟨.ident, "LIMIT".toList⟩,
      ⟨.space, [' ']⟩, ⟨.number, ['2']⟩, ⟨.space, [' ']⟩, ⟨.punct, ['+']⟩, ⟨.space, [' ']⟩,
      ⟨.number, ['3']⟩, ⟨.space, ['\n']⟩] := by
  cbv

def sumDefinition : ConstantDefinition sumMacro where
  form := .directive
  before := []
  opening := [⟨.punct, ['#']⟩, ⟨.ident, "define".toList⟩, ⟨.space, [' ']⟩, ⟨.ident, "LIMIT".toList⟩]
  number := [⟨.space, [' ']⟩, ⟨.number, ['2']⟩]
  behind := [⟨.space, [' ']⟩, ⟨.punct, ['+']⟩, ⟨.space, [' ']⟩, ⟨.number, ['3']⟩, ⟨.space, ['\n']⟩]
  constant := ⟨"LIMIT".toList, Binary64.ofNat 2⟩
  isOpening := @IsOpening.directive ⟨.punct, ['#']⟩ ⟨.ident, "define".toList⟩ ⟨.ident, "LIMIT".toList⟩ []
    [⟨.space, [' ']⟩] (by decide) (by decide) (by decide) (by decide) rfl
  isValue := by dsimp only; exact isValue_two
  tokens := tokenize_sumMacro

/-- The constant has the value of the sum's first term. -/
theorem sumMacro_records_first_term :
    (∀ token ∈ tokenize sumMacro, token.kind ≠ .comment) ∧
    (Context.harvest sumMacro).constants = [⟨"LIMIT".toList, Binary64.ofNat 2⟩] ∧
    sumDefinition.constant = ⟨"LIMIT".toList, Binary64.ofNat 2⟩ ∧
    sumDefinition.valueText = " 2 + 3\n".toList ∧
    ¬ sumDefinition.IsAsWritten := by
  have commentFree : ∀ token ∈ tokenize sumMacro, token.kind ≠ .comment := by
    rw [tokenize_sumMacro]
    decide
  have constants : (Context.harvest sumMacro).constants = [⟨"LIMIT".toList, Binary64.ofNat 2⟩] := by
    have found : constantAt? (tokenize sumMacro) = some sumDefinition.constant := by
      rw [sumDefinition.tokens]
      exact sumDefinition.constantAt?_eq
    rw [tokenize_sumMacro] at found
    rw [constants_harvest, tokenize_sumMacro, definitions_cons, found]
    rfl
  have isOpen : ¬ sumDefinition.IsClosed := by decide
  exact ⟨commentFree, constants, rfl, by decide, fun written =>
    isOpen ((sumDefinition.isAsWritten_iff commentFree).mp written)⟩

end Breadboard.Script
