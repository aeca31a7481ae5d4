import Breadboard.Proofs.Script.BlockTokens

set_option autoImplicit false

namespace Breadboard.Script

open Sketch hiding stripComments

theorem IsGap.unmarked {gap : List Token} (isGap : IsGap gap) :
    ∀ token ∈ gap, token.isBlockMark = false := by
  intro token member
  rw [Token.isBlockMark, Token.isPunct, Token.isPunct, Token.isPunct, (isGap token member).1]
  rfl

/-- Tokens that end no logical line outside of parentheses. -/
def IsInline (tokens : List Token) : Prop :=
  ∀ token ∈ tokens, token.text.contains '\n' = false ∧ token.isBlockMark = false

theorem IsInline.append {first second : List Token} (firstInline : IsInline first)
    (secondInline : IsInline second) : IsInline (first ++ second) := by
  intro token member
  rcases List.mem_append.mp member with inFirst | inSecond
  · exact firstInline token inFirst
  · exact secondInline token inSecond

theorem IsInline.cons {token : Token} {rest : List Token}
    (plain : token.text.contains '\n' = false ∧ token.isBlockMark = false)
    (restInline : IsInline rest) : IsInline (token :: rest) := by
  intro other member
  rcases List.mem_cons.mp member with rfl | inRest
  · exact plain
  · exact restInline other inRest

theorem Code.isInline (code : Code) : IsInline (tokenize code.text) := by
  intro token member
  refine ⟨?_, code.unmarked token member⟩
  by_contra breaks
  rw [Bool.not_eq_false, List.contains_iff_mem] at breaks
  have inLine := List.all_eq_true.mp (code.isFragment.inLine token member) '\n' breaks
  cases inLine

theorem Spacing.isInline (spacing : Spacing) : IsInline spacing.tokens := by
  rw [Gap.tokens, blankTokens]
  split
  · simp [IsInline]
  · intro token member
    rw [List.mem_singleton.mp member]
    exact ⟨spacing.sameLine, rfl⟩

theorem Guard.isInline (guard : Guard) : IsInline guard.tokens := by
  rw [Guard.tokens]
  refine guard.before.isInline.append (.cons (by decide) (.append (.append (.append ?_ ?_) ?_) ?_))
  · exact guard.inside.isInline
  · exact guard.condition.isInline
  · exact guard.behind.isInline
  · exact .cons (by decide) (by simp [IsInline])

theorem Guard.parenDepth?_tokens (guard : Guard) : parenDepth? 0 guard.tokens = some 0 := by
  have openGroup (rest : List Token) : parenDepth? 0 (openParen :: rest) = parenDepth? 1 rest := rfl
  have condition : parenDepth? 1 (tokenize guard.condition.text) = some 1 := by
    simpa using parenDepth?_add guard.condition.balanced 1
  rw [Guard.tokens, parenDepth?_append, parenDepth?_trivia guard.before.isGap.isTrivia,
    Option.bind_some, openGroup, parenDepth?_append, parenDepth?_append, parenDepth?_append,
    parenDepth?_trivia guard.inside.isGap.isTrivia, Option.bind_some, condition, Option.bind_some,
    parenDepth?_trivia guard.behind.isGap.isTrivia, Option.bind_some]
  rfl

/-- Blank characters at the start of the current line are of no account. -/
theorem linesFrom_blank_append {blank : Text} (all : Text.allBlank blank = true) (depth : Nat)
    (collected : Text) (tokens : List Token) :
    linesFrom depth (blank ++ collected) tokens = linesFrom depth collected tokens := by
  have same (text : Text) : finishLine (blank ++ text) = finishLine text := by
    rw [finishLine, finishLine, Text.trim_blank_append all]
  induction tokens generalizing depth collected with
  | nil => exact same collected
  | cons token rest ih => simp only [linesFrom, List.append_assoc, ih, same]

theorem linesFrom_cons_inline {token : Token}
    (plain : token.text.contains '\n' = false ∧ token.isBlockMark = false) (depth : Nat)
    (collected : Text) (rest : List Token) :
    linesFrom depth collected (token :: rest) =
      linesFrom (if token.isPunct "(" then depth + 1 else if token.isPunct ")" then depth - 1
        else depth) (collected ++ token.text) rest := by
  obtain ⟨noBreak, noMark⟩ := plain
  rw [Token.isBlockMark, Bool.or_eq_false_iff, Bool.or_eq_false_iff] at noMark
  obtain ⟨⟨notSemicolon, notOpening⟩, notClosing⟩ := noMark
  simp only [linesFrom, noBreak, notSemicolon, notOpening, notClosing, Bool.and_false,
    Bool.or_false, Bool.false_and, Bool.false_eq_true, if_false]
  split
  · rfl
  · split <;> rfl

/-- Tokens that end no line are collected. -/
theorem linesFrom_append {tokens : List Token} (inline : IsInline tokens) {depth last : Nat}
    (ends : parenDepth? depth tokens = some last) (collected : Text) (rest : List Token) :
    linesFrom depth collected (tokens ++ rest) = linesFrom last (collected ++ render tokens) rest := by
  induction tokens generalizing depth collected with
  | nil =>
      obtain rfl : depth = last := by simpa [parenDepth?] using ends
      simp
  | cons token more ih =>
      have moreInline : IsInline more := fun other member =>
        inline other (List.mem_cons_of_mem _ member)
      rw [List.cons_append, linesFrom_cons_inline (inline token List.mem_cons_self), render_cons,
        ← List.append_assoc]
      rw [parenDepth?_cons] at ends
      by_cases isOpen : token.isPunct "(" = true
      · rw [if_pos isOpen] at ends ⊢
        exact ih moreInline ends _
      · rw [if_neg isOpen] at ends ⊢
        by_cases isClose : token.isPunct ")" = true
        · rw [if_pos isClose] at ends ⊢
          cases depth with
          | zero => cases ends
          | succ depth => exact ih moreInline ends _
        · rw [if_neg isClose] at ends ⊢
          exact ih moreInline ends _

theorem Gap.allBlank (gap : Gap) : Text.allBlank gap.text = true :=
  List.all_eq_true.mpr fun c member =>
    isBlank_of_isSpaceChar (List.all_eq_true.mp gap.blank c member)

theorem linesFrom_gap_break {gap : Gap} (breaks : gap.text.contains '\n' = true) (collected : Text)
    (rest : List Token) :
    linesFrom 0 collected (gap.tokens ++ rest) = finishLine collected ++ linesFrom 0 [] rest := by
  have notEmpty : ¬ gap.text.isEmpty = true := by
    intro empty
    rw [List.isEmpty_iff.mp empty] at breaks
    cases breaks
  rw [Gap.tokens, blankTokens, if_neg notEmpty, List.singleton_append, linesFrom,
    if_pos (by simpa using breaks)]

/-- A gap is collected, or it ends the line. -/
theorem linesFrom_gap_append (gap : Gap) (collected : Text) (rest : List Token) :
    linesFrom 0 collected (gap.tokens ++ rest) = linesFrom 0 (collected ++ gap.text) rest ∨
      linesFrom 0 collected (gap.tokens ++ rest) = finishLine collected ++ linesFrom 0 [] rest := by
  by_cases breaks : gap.text.contains '\n' = true
  · exact Or.inr (linesFrom_gap_break breaks collected rest)
  · let spacing : Spacing := ⟨gap, by simpa using breaks⟩
    have ends := parenDepth?_trivia gap.isGap.isTrivia 0
    left
    rw [linesFrom_append spacing.isInline ends, spacing.render_tokens]

theorem finishLine_nil : finishLine [] = [] := rfl

/-- A gap at the start of a line leaves nothing. -/
theorem linesFrom_gap (gap : Gap) (rest : List Token) :
    linesFrom 0 [] (gap.tokens ++ rest) = linesFrom 0 [] rest := by
  rcases linesFrom_gap_append gap [] rest with collected | ended
  · have vanishes := linesFrom_blank_append gap.allBlank 0 [] rest
    rw [List.append_nil] at vanishes
    rw [collected, List.nil_append, vanishes]
  · rw [ended, finishLine_nil, List.nil_append]

theorem linesFrom_semicolon (collected : Text) (rest : List Token) :
    linesFrom 0 collected (semicolon :: rest) =
      finishLine (collected ++ [';']) ++ linesFrom 0 [] rest := rfl

theorem linesFrom_openBrace (collected : Text) (rest : List Token) :
    linesFrom 0 collected (openBrace :: rest) =
      finishLine (collected ++ ['\x7b']) ++ linesFrom 0 [] rest := rfl

/-- The next significant token is no `else`. -/
def NoElse (tokens : List Token) : Prop :=
  (dropTrivia tokens).head?.any (·.isIdent "else") = false

theorem linesFrom_closeBrace {rest : List Token} (noElse : NoElse rest) :
    linesFrom 0 [] (closeBrace :: rest) = ['\x7d'] :: linesFrom 0 [] rest := by
  have step : linesFrom 0 [] (closeBrace :: rest) =
      if (dropTrivia rest).head?.any (·.isIdent "else") then linesFrom 0 ['\x7d'] rest
      else ['\x7d'] :: linesFrom 0 [] rest := rfl
  rw [step, show _ = false from noElse]
  rfl

theorem linesFrom_closeBrace_else {rest : List Token}
    (isElse : (dropTrivia rest).head?.any (·.isIdent "else") = true) :
    linesFrom 0 [] (closeBrace :: rest) = linesFrom 0 ['\x7d'] rest := by
  have step : linesFrom 0 [] (closeBrace :: rest) =
      if (dropTrivia rest).head?.any (·.isIdent "else") then linesFrom 0 ['\x7d'] rest
      else ['\x7d'] :: linesFrom 0 [] rest := rfl
  rw [step, if_pos isElse]

end Breadboard.Script
