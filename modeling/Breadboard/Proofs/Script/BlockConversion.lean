import Breadboard.Proofs.Script.BlockLines
import Breadboard.Proofs.Script.LineBreak

set_option autoImplicit false

namespace Breadboard.Script

open Sketch hiding stripComments

/-- The `pass` of a block that is closed without a line. -/
def passFor (filled : Bool) (depth : Nat) : List ScriptLine :=
  if filled then [] else [⟨depth, passText⟩]

theorem closeBlocks_one (filled : Bool) (outer : OpenBlocks) :
    closeBlocks 1 (filled :: outer) = (passFor filled (outer.length + 1), outer) := by
  cases filled <;> rfl

@[simp] theorem length_fillInnermost (blocks : OpenBlocks) :
    (fillInnermost blocks).length = blocks.length := by
  cases blocks <;> rfl

@[simp] theorem fillInnermost_fillInnermost (blocks : OpenBlocks) :
    fillInnermost (fillInnermost blocks) = fillInnermost blocks := by
  cases blocks <;> rfl

theorem convertLines_cons_filled {context : Context} {blocks inner : OpenBlocks} {line : Text}
    {closes opens : Nat} {passes : List ScriptLine} (counts : braceCounts line = (closes, opens))
    (closed : closeBlocks closes blocks = (passes, inner))
    (filled : convertLine context line ≠ []) (more : List Text) :
    convertLines context blocks (line :: more) =
      passes ++ ⟨inner.length, convertLine context line⟩ ::
        convertLines context (List.replicate opens false ++ fillInnermost inner) more := by
  have notEmpty : (convertLine context line).isEmpty = false := by simpa using filled
  simp [convertLines, convertLogicalLine, counts, closed, notEmpty]

theorem convertLines_cons_empty {context : Context} {blocks inner : OpenBlocks} {line : Text}
    {closes opens : Nat} {passes : List ScriptLine} (counts : braceCounts line = (closes, opens))
    (closed : closeBlocks closes blocks = (passes, inner))
    (empty : convertLine context line = []) (more : List Text) :
    convertLines context blocks (line :: more) =
      passes ++ convertLines context (List.replicate opens false ++ inner) more := by
  simp [convertLines, convertLogicalLine, counts, closed, empty]

theorem countP_brace_of_unmarked {tokens : List Token}
    (unmarked : ∀ token ∈ tokens, token.isBlockMark = false) :
    tokens.countP (·.isPunct "\x7d") = 0 ∧ tokens.countP (·.isPunct "\x7b") = 0 := by
  rw [List.countP_eq_zero, List.countP_eq_zero]
  constructor
  · intro token member isMark
    have := unmarked token member
    rw [Token.isBlockMark, isMark, Bool.or_true] at this
    cases this
  · intro token member isMark
    have := unmarked token member
    rw [Token.isBlockMark, isMark, Bool.or_true] at this
    cases this

theorem braceCounts_of_unmarked {line : Text}
    (unmarked : ∀ token ∈ tokenize line, token.isBlockMark = false ∨ token = semicolon) :
    braceCounts line = (0, 0) := by
  have noBrace : ∀ token ∈ tokenize line,
      token.isPunct "\x7d" = false ∧ token.isPunct "\x7b" = false := by
    intro token member
    rcases unmarked token member with plain | rfl
    · rw [Token.isBlockMark, Bool.or_eq_false_iff, Bool.or_eq_false_iff] at plain
      exact ⟨plain.2, plain.1.2⟩
    · decide
  have closes : (tokenize line).countP (·.isPunct "\x7d") = 0 :=
    List.countP_eq_zero.mpr fun token member => by simp [(noBrace token member).1]
  have opens : (tokenize line).countP (·.isPunct "\x7b") = 0 :=
    List.countP_eq_zero.mpr fun token member => by simp [(noBrace token member).2]
  simp only [braceCounts, closes, opens]

theorem tokenize_openBrace : tokenize ['\x7b'] = [openBrace] := by
  cbv

theorem tokenize_closeBrace : tokenize ['\x7d'] = [closeBrace] := by
  cbv

/-- A brace on a line of its own opens a block. -/
theorem convertLines_openBrace {context : Context} (names : context.HasScriptNames)
    (blocks : OpenBlocks) (more : List Text) :
    convertLines context blocks (['\x7b'] :: more) = convertLines context (false :: blocks) more := by
  have counts : braceCounts ['\x7b'] = (0, 1) := by
    simp only [braceCounts, tokenize_openBrace]
    decide
  have empty := convertLine_brace names (Or.inl rfl) tokenize_openBrace
  rw [convertLines_cons_empty counts rfl empty]
  rfl

/-- A brace on a line of its own closes the innermost block. -/
theorem convertLines_closeBrace {context : Context} (names : context.HasScriptNames)
    (filled : Bool) (outer : OpenBlocks) (more : List Text) :
    convertLines context (filled :: outer) (['\x7d'] :: more) =
      passFor filled (outer.length + 1) ++ convertLines context outer more := by
  have counts : braceCounts ['\x7d'] = (1, 0) := by
    simp only [braceCounts, tokenize_closeBrace]
    decide
  have empty := convertLine_brace names (Or.inr rfl) tokenize_closeBrace
  rw [convertLines_cons_empty counts (closeBlocks_one filled outer) empty]
  rfl

/-- The tokens of a header up to the gap before its brace, and the line that they become, also behind
the brace of the block before. -/
structure IsHeader (context : Context) (lead : List Token) (after : Gap) (text : Text) : Prop where
  inline : IsInline lead
  balanced : IsBalanced lead
  cut : IsCut (lead ++ (after.tokens ++ [openBrace]))
  starts : ∃ word rest, lead = word :: rest ∧ word.kind = .ident
  ends : ∃ c, (render lead).getLast? = some c ∧ Text.isBlank c = false
  filled : text ≠ []
  converts : ∀ {closer gap brace : List Token} {line : Text}, IsCloser closer → IsGap gap →
    IsBrace brace → tokenize line = closer ++ (lead ++ (gap ++ brace)) →
    convertLine context line = text

theorem isBlank_eq_false_of_isWordStart {c : Char} (start : isWordStart c = true) :
    Text.isBlank c = false :=
  isBlank_eq_false (isLineChar_of_isWordChar (isWordChar_of_isWordStart start))
    (isSpaceChar_eq_false start rfl)

section

variable {context : Context} {lead : List Token} {after : Gap} {text : Text}

theorem IsHeader.startsTight (header : IsHeader context lead after text) (tail : List Token) :
    StartsTight (lead ++ tail) := by
  obtain ⟨word, rest, rfl, ident⟩ := header.starts
  exact startsTight_cons (by simp [ident]) _

theorem IsHeader.first (header : IsHeader context lead after text) {closer : List Token}
    (isCloser : IsCloser closer) (tail : List Token) :
    ∀ c ∈ (render (closer ++ (lead ++ tail))).head?, Text.isBlank c = false := by
  intro c first
  rcases isCloser with rfl | ⟨gap, -, rfl⟩
  · obtain ⟨word, rest, rfl, ident⟩ := header.starts
    obtain ⟨d, more, textEq, start⟩ := IsLexeme.exists_wordStart
      (header.cut.whole word (by simp)) ident
    obtain rfl : d = c := by simpa [textEq] using first
    exact isBlank_eq_false_of_isWordStart start
  · obtain rfl := Option.some.inj first
    rfl

theorem finishLine_of_tight {collected : Text} (notEmpty : collected ≠ [])
    (first : ∀ c ∈ collected.head?, Text.isBlank c = false)
    (last : ∀ c ∈ collected.getLast?, Text.isBlank c = false) : finishLine collected = [collected] := by
  rw [finishLine, Text.trim_of_tight first last]
  simp [notEmpty]

theorem IsHeader.finishLine_lead (header : IsHeader context lead after text) {closer : List Token}
    (isCloser : IsCloser closer) : finishLine (render (closer ++ lead)) = [render (closer ++ lead)] := by
  obtain ⟨c, isLast, notBlank⟩ := header.ends
  have leadNotEmpty : render lead ≠ [] := by
    intro empty
    rw [empty] at isLast
    cases isLast
  have first := header.first isCloser []
  rw [List.append_nil] at first
  refine finishLine_of_tight (by simp [leadNotEmpty]) first fun d last => ?_
  rw [render_append, List.getLast?_append_of_ne_nil _ leadNotEmpty, isLast] at last
  obtain rfl := Option.some.inj last
  exact notBlank

/-- A header's tokens make one line, or its brace stands on a line of its own. -/
theorem IsHeader.linesFrom_append (header : IsHeader context lead after text) {closer : List Token}
    (isCloser : IsCloser closer) (rest : List Token) :
    linesFrom 0 (render closer) (lead ++ (after.tokens ++ openBrace :: rest)) =
        render (closer ++ (lead ++ (after.tokens ++ [openBrace]))) :: linesFrom 0 [] rest ∨
      linesFrom 0 (render closer) (lead ++ (after.tokens ++ openBrace :: rest)) =
        render (closer ++ lead) :: ['\x7b'] :: linesFrom 0 [] rest := by
  rw [Script.linesFrom_append header.inline header.balanced, ← render_append]
  rcases linesFrom_gap_append after (render (closer ++ lead)) (openBrace :: rest) with
    collected | ended
  · left
    have line : render (closer ++ lead) ++ after.text ++ ['\x7b'] =
        render (closer ++ (lead ++ (after.tokens ++ [openBrace]))) := by
      simp [openBrace]
    rw [collected, linesFrom_openBrace, line,
      finishLine_of_tight (by rw [← line]; simp) (header.first isCloser _) fun d last => ?_]
    · rfl
    · rw [← line, List.getLast?_concat] at last
      obtain rfl := Option.some.inj last
      rfl
  · right
    rw [ended, linesFrom_openBrace, header.finishLine_lead isCloser]
    rfl

theorem IsCloser.countP {closer : List Token} (isCloser : IsCloser closer) :
    closer.countP (·.isPunct "\x7b") = 0 := by
  rcases isCloser with rfl | ⟨gap, isGap, rfl⟩
  · rfl
  · rw [List.countP_cons, (countP_brace_of_unmarked isGap.unmarked).2]
    rfl

/-- A header on a line without its brace closes what the brace before it closes and puts out its line. -/
theorem IsHeader.convertLines_lead (header : IsHeader context lead after text) {closer : List Token}
    (isCloser : IsCloser closer) (cut : IsCut (closer ++ lead)) {blocks inner : OpenBlocks}
    {passes : List ScriptLine}
    (closed : closeBlocks (closer.countP (·.isPunct "\x7d")) blocks = (passes, inner))
    (more : List Text) :
    Script.convertLines context blocks (render (closer ++ lead) :: more) =
      passes ++ ⟨inner.length, text⟩ :: Script.convertLines context (fillInnermost inner) more := by
  have leadCounts := countP_brace_of_unmarked fun token member => (header.inline token member).2
  have cutAt := cut.tokenize_render
  have noTail : tokenize (render (closer ++ lead)) = closer ++ (lead ++ ([] ++ [])) := by
    simpa using cutAt
  have converted := @IsHeader.converts _ _ _ _ header closer [] [] _ isCloser (by simp [IsGap])
    (Or.inl rfl) noTail
  have counts : braceCounts (render (closer ++ lead)) =
      (closer.countP (·.isPunct "\x7d"), 0) := by
    simp only [braceCounts, cutAt, List.countP_append, leadCounts, isCloser.countP]
    rfl
  rw [convertLines_cons_filled counts closed (by rw [converted]; exact header.filled), converted]
  rfl

/-- A header closes what the brace before it closes, then puts out its line and opens a block. -/
theorem IsHeader.convertLines (header : IsHeader context lead after text)
    (names : context.HasScriptNames) {closer : List Token} (isCloser : IsCloser closer)
    (cut : IsCut (closer ++ (lead ++ (after.tokens ++ [openBrace])))) {blocks inner : OpenBlocks}
    {passes : List ScriptLine}
    (closed : closeBlocks (closer.countP (·.isPunct "\x7d")) blocks = (passes, inner))
    (rest : List Token) :
    Script.convertLines context blocks
        (linesFrom 0 (render closer) (lead ++ (after.tokens ++ openBrace :: rest))) =
      passes ++ ⟨inner.length, text⟩ ::
        Script.convertLines context (false :: fillInnermost inner) (linesFrom 0 [] rest) := by
  have leadCounts := countP_brace_of_unmarked fun token member => (header.inline token member).2
  have gapCounts := countP_brace_of_unmarked after.isGap.unmarked
  rcases header.linesFrom_append isCloser rest with oneLine | twoLines
  · have cutAt := cut.tokenize_render
    have converted := header.converts isCloser after.isGap (Or.inr rfl) cutAt
    have counts : braceCounts (render (closer ++ (lead ++ (after.tokens ++ [openBrace])))) =
        (closer.countP (·.isPunct "\x7d"), 1) := by
      simp only [braceCounts, cutAt, List.countP_append, leadCounts, gapCounts, isCloser.countP]
      rfl
    rw [oneLine, convertLines_cons_filled counts closed (by rw [converted]; exact header.filled),
      converted]
    rfl
  · have prefixCut : IsCut (closer ++ lead) := by
      refine cut.part (List.IsPrefix.isInfix ?_)
      rw [← List.append_assoc]
      exact List.prefix_append _ _
    rw [twoLines, header.convertLines_lead isCloser prefixCut closed, convertLines_openBrace names]

end

theorem IsKeyword.balanced {keyword : String} {key : List Token} (isKey : IsKeyword keyword key) :
    IsBalanced key := by
  rcases isKey with ⟨-, rfl⟩ | ⟨-, rfl⟩ | ⟨-, gap, isGap, rfl⟩
  · rfl
  · rfl
  · rw [IsBalanced, parenDepth?_cons_ident rfl, parenDepth?_append,
      parenDepth?_trivia isGap.isTrivia]
    rfl

theorem IsKeyword.starts {keyword : String} {key : List Token} (isKey : IsKeyword keyword key) :
    ∃ word rest, key = word :: rest ∧ word.kind = .ident := by
  rcases isKey with ⟨-, rfl⟩ | ⟨-, rfl⟩ | ⟨-, gap, -, rfl⟩
  · exact ⟨_, _, rfl, rfl⟩
  · exact ⟨_, _, rfl, rfl⟩
  · exact ⟨_, _, rfl, rfl⟩

theorem Guard.isHeader {context : Context} (names : context.HasScriptNames) (guard : Guard)
    {keyword : String} {key : List Token} (isKey : IsKeyword keyword key) (inline : IsInline key)
    (cut : IsCut (key ++ (guard.tokens ++ (guard.after.tokens ++ [openBrace])))) :
    IsHeader context (key ++ guard.tokens) guard.after
      (keyword.toList ++ ' ' :: conditionText context guard.condition.text ++ [':']) where
  inline := inline.append guard.isInline
  balanced := by
    rw [IsBalanced, parenDepth?_append, isKey.balanced, Option.bind_some, guard.parenDepth?_tokens]
  cut := by
    rw [List.append_assoc]
    exact cut
  starts := by
    obtain ⟨word, rest, rfl, ident⟩ := isKey.starts
    exact ⟨word, rest ++ guard.tokens, rfl, ident⟩
  ends := by
    refine ⟨')', ?_, rfl⟩
    rw [render_append, Guard.tokens]
    simp [closeParen, List.getLast?_cons]
  filled := by simp
  converts := by
    intro closer gap brace line isCloser isGap isBrace cutAt
    have regrouped : tokenize line = closer ++ key ++ (guard.before.tokens ++
        ⟨.punct, "(".toList⟩ :: (guard.inside.tokens ++ tokenize guard.condition.text ++
          guard.behind.tokens ++ ⟨.punct, ")".toList⟩ :: (gap ++ brace))) := by
      rw [cutAt, Guard.tokens, openParen, closeParen]
      simp
    rw [convertLine_header names isCloser isKey guard.before.isGap guard.inside.isGap
      guard.condition.isFragment guard.condition.balanced guard.behind.isGap isGap isBrace regrouped,
      render_tokenize]

theorem isCut_openBrace : IsCut [openBrace] :=
  isCut_delimiter_cons rfl isCut_nil

theorem startsTight_openBrace : StartsTight [openBrace] :=
  startsTight_cons (by decide) []

theorem isInline_nil : IsInline [] := by
  simp [IsInline]

theorem Guard.isHeader_if {context : Context} (names : context.HasScriptNames) (guard : Guard) :
    IsHeader context (ifWord :: guard.tokens) guard.after (guard.line context 0 "if").text :=
  @Guard.isHeader _ names guard "if" [ifWord] (Or.inl ⟨rfl, rfl⟩) (.cons (by decide) isInline_nil)
    (isCut_headed isLexeme_ifWord rfl guard isCut_openBrace startsTight_openBrace)

theorem Guard.isHeader_while {context : Context} (names : context.HasScriptNames) (guard : Guard) :
    IsHeader context (whileWord :: guard.tokens) guard.after (guard.line context 0 "while").text :=
  @Guard.isHeader _ names guard "while" [whileWord] (Or.inr (Or.inl ⟨rfl, rfl⟩))
    (.cons (by decide) isInline_nil)
    (isCut_headed isLexeme_whileWord rfl guard isCut_openBrace startsTight_openBrace)

theorem Guard.isHeader_elif {context : Context} (names : context.HasScriptNames) (guard : Guard)
    {between : Spacing} (apart : between.text ≠ []) :
    IsHeader context (elseWord :: (between.tokens ++ [ifWord]) ++ guard.tokens) guard.after
      (guard.line context 0 "elif").text := by
  have cut := isCut_elseIf guard apart isCut_openBrace startsTight_openBrace
  refine @Guard.isHeader _ names guard "elif" (elseWord :: (between.tokens ++ [ifWord]))
    (Or.inr (Or.inr ⟨rfl, between.tokens, between.isGap, rfl⟩)) ?_ ?_
  · exact .cons (by decide) (between.isInline.append (.cons (by decide) isInline_nil))
  · simpa using cut

theorem isHeader_else {context : Context} (names : context.HasScriptNames) (after : Gap) :
    IsHeader context [elseWord] after "else:".toList where
  inline := .cons (by decide) isInline_nil
  balanced := rfl
  cut := isCut_word_cons isLexeme_elseWord rfl
    (after.isCut_append isCut_openBrace startsTight_openBrace)
    (after.startsApart_append (startsApart_delimiter rfl _))
  starts := ⟨elseWord, [], rfl, rfl⟩
  ends := ⟨'e', by decide, rfl⟩
  filled := by decide
  converts := fun isCloser isGap isBrace cutAt =>
    convertLine_else names isCloser isGap isBrace cutAt

/-- The lines that the tokens become from the start of a line on, inside open blocks. -/
def linesAfter (context : Context) (blocks : OpenBlocks) (tokens : List Token) : List ScriptLine :=
  convertLines context blocks (linesFrom 0 [] tokens)

theorem linesAfter_gap (context : Context) (blocks : OpenBlocks) (gap : Gap) (rest : List Token) :
    linesAfter context blocks (gap.tokens ++ rest) = linesAfter context blocks rest := by
  rw [linesAfter, linesFrom_gap, linesAfter]

theorem linesAfter_closeBrace {context : Context} (names : context.HasScriptNames) (filled : Bool)
    (outer : OpenBlocks) {rest : List Token} (noElse : NoElse rest) :
    linesAfter context (filled :: outer) (closeBrace :: rest) =
      passFor filled (outer.length + 1) ++ linesAfter context outer rest := by
  rw [linesAfter, linesFrom_closeBrace noElse, convertLines_closeBrace names, linesAfter]

/-- A header without a brace before it. -/
theorem IsHeader.linesAfter_append {context : Context} {lead : List Token} {after : Gap}
    {text : Text} (header : IsHeader context lead after text) (names : context.HasScriptNames)
    (blocks : OpenBlocks) (rest : List Token) :
    linesAfter context blocks (lead ++ (after.tokens ++ openBrace :: rest)) =
      ⟨blocks.length, text⟩ :: linesAfter context (false :: fillInnermost blocks) rest :=
  @IsHeader.convertLines _ _ _ _ header names [] (Or.inl rfl) header.cut blocks blocks [] rfl rest

theorem isCloser_closeBrace (before : Gap) : IsCloser (closeBrace :: before.tokens) :=
  Or.inr ⟨_, before.isGap, rfl⟩

theorem closeBlocks_closer (before : Gap) (filled : Bool) (outer : OpenBlocks) :
    closeBlocks ((closeBrace :: before.tokens).countP (·.isPunct "\x7d")) (filled :: outer) =
      (passFor filled (outer.length + 1), outer) := by
  have count : (closeBrace :: before.tokens).countP (·.isPunct "\x7d") = 1 := by
    rw [List.countP_cons, (countP_brace_of_unmarked before.isGap.unmarked).1]
    rfl
  rw [count]
  exact closeBlocks_one filled outer

/-- An `else` stays on one line with the brace before it, or the gap between them ends that line. -/
theorem linesAfter_closeBrace_else {context : Context} (names : context.HasScriptNames)
    {tail : List Token} (isElse : (dropTrivia tail).head?.any (·.isIdent "else") = true)
    (filled : Bool) (outer : OpenBlocks) (before : Gap) {made : List ScriptLine}
    (sameLine : convertLines context (filled :: outer)
        (linesFrom 0 (render (closeBrace :: before.tokens)) tail) =
      passFor filled (outer.length + 1) ++ made)
    (nextLine : linesAfter context outer tail = made) :
    linesAfter context (filled :: outer) (closeBrace :: (before.tokens ++ tail)) =
      passFor filled (outer.length + 1) ++ made := by
  have next : (dropTrivia (before.tokens ++ tail)).head?.any (·.isIdent "else") = true := by
    rw [dropTrivia_gap_append before.isGap]
    exact isElse
  rw [linesAfter, linesFrom_closeBrace_else next]
  rcases linesFrom_gap_append before ['\x7d'] tail with collected | ended
  · have text : ['\x7d'] ++ before.text = render (closeBrace :: before.tokens) := by
      rw [render_cons, before.render_tokens]
      rfl
    rw [collected, text, sameLine]
  · rw [ended, finishLine_of_tight (by simp) (by simp; decide) (by simp; decide),
      List.singleton_append, convertLines_closeBrace names, ← nextLine]
    rfl

theorem IsHeader.dropTrivia_append {context : Context} {lead : List Token} {after : Gap}
    {text : Text} (header : IsHeader context lead after text) (tail : List Token) :
    dropTrivia (lead ++ tail) = lead ++ tail := by
  obtain ⟨word, more, rfl, ident⟩ := header.starts
  exact List.dropWhile_cons_of_neg (by simp [Token.isTrivia, ident])

/-- A header behind the brace that closes the block before it. -/
theorem IsHeader.linesAfter_closeBrace {context : Context} {lead : List Token} {after : Gap}
    {text : Text} (header : IsHeader context lead after text) (names : context.HasScriptNames)
    (isElse : lead.head?.any (·.isIdent "else") = true) (filled : Bool) (outer : OpenBlocks)
    (before : Gap) (rest : List Token) :
    linesAfter context (filled :: outer)
        (closeBrace :: (before.tokens ++ (lead ++ (after.tokens ++ openBrace :: rest)))) =
      passFor filled (outer.length + 1) ++ ⟨outer.length, text⟩ ::
        linesAfter context (false :: fillInnermost outer) rest := by
  have cut : IsCut (closeBrace :: before.tokens ++ (lead ++ (after.tokens ++ [openBrace]))) :=
    isCut_delimiter_cons rfl (before.isCut_append header.cut (header.startsTight _))
  refine linesAfter_closeBrace_else names ?_ filled outer before ?_ ?_
  · rw [header.dropTrivia_append, List.head?_append_of_ne_nil]
    · exact isElse
    · rintro rfl
      cases isElse
  · exact header.convertLines names (isCloser_closeBrace before) cut
      (closeBlocks_closer before filled outer) rest
  · exact header.linesAfter_append names outer rest

theorem noElse_gap {gap : Gap} {rest : List Token} (noElse : NoElse rest) :
    NoElse (gap.tokens ++ rest) := by
  rw [NoElse, dropTrivia_gap_append gap.isGap]
  exact noElse

theorem noElse_closeBrace (rest : List Token) : NoElse (closeBrace :: rest) :=
  rfl

theorem Statement.noElse {context : Context} (statement : Statement context) (rest : List Token) :
    NoElse (statement.tokens ++ rest) := by
  cases statement with
  | simple code =>
      have start := code.start
      have noHeader := code.noHeader
      have noComment := code.noComment
      rw [NoElse, Statement.tokens, Simple.tokens]
      cases tokens : tokenize code.text with
      | nil => simp [tokens] at start
      | cons token more =>
          rw [tokens, List.head?_cons, Option.any_some] at start noHeader
          rw [Bool.or_eq_false_iff, Bool.or_eq_false_iff] at noHeader
          have notTrivia : token.isTrivia = false := by
            have notComment := noComment token (by rw [tokens]; exact List.mem_cons_self)
            simpa [Token.isTrivia, notComment] using start
          rw [List.cons_append, List.cons_append, dropTrivia,
            List.dropWhile_cons_of_neg (by simp [notTrivia])]
          exact noHeader.1.2
  | branch guard body next => rfl
  | loop guard body => rfl

theorem Block.noElse {context : Context} (block : Block context) {rest : List Token}
    (noElse : NoElse rest) : NoElse (block.tokens ++ rest) := by
  cases block with
  | done gap =>
      rw [Block.tokens]
      exact noElse_gap noElse
  | cons gap statement more =>
      rw [Block.tokens, List.append_assoc, List.append_assoc]
      exact noElse_gap (statement.noElse _)

/-- Code starts with a character that is not blank. -/
theorem Code.first (code : Code) (more : Text) :
    ∀ c ∈ (code.text ++ more).head?, Text.isBlank c = false := by
  have start := code.start
  intro c first
  cases tokens : tokenize code.text with
  | nil => simp [tokens] at start
  | cons token rest =>
      have fragment := code.isFragment
      rw [tokens] at start fragment
      have whole := fragment.cut.whole token List.mem_cons_self
      have text : code.text = token.text ++ render rest := by
        rw [← render_tokenize code.text, tokens, render_cons]
      rw [text, List.append_assoc, List.head?_append_of_ne_nil _ whole.text_ne_nil] at first
      rcases whole.blank_or_tight (fragment.inLine token List.mem_cons_self) with
        ⟨trivia, -⟩ | ⟨-, tight, -⟩
      · have notSpace : token.kind ≠ .space := by simpa using start
        have notComment := IsLexeme.kind_ne_comment whole
        simp [Token.isTrivia, notSpace, notComment] at trivia
      · exact tight c first

/-- A simple statement is one line. -/
theorem Simple.linesAfter_append {context : Context} (simple : Simple context)
    (blocks : OpenBlocks) (rest : List Token) :
    linesAfter context blocks (simple.tokens ++ rest) =
      ⟨blocks.length, convertLine context simple.source⟩ ::
        linesAfter context (fillInnermost blocks) rest := by
  have front : IsInline (tokenize simple.text ++ simple.trailing.tokens) :=
    simple.toCode.isInline.append simple.trailing.isInline
  have balanced : IsBalanced (tokenize simple.text ++ simple.trailing.tokens) := by
    rw [IsBalanced, parenDepth?_append, simple.balanced, Option.bind_some,
      parenDepth?_trivia simple.trailing.isGap.isTrivia]
  have counts : braceCounts simple.source = (0, 0) := by
    refine braceCounts_of_unmarked fun token member => ?_
    rw [simple.tokenize_source, Simple.tokens, ← List.append_assoc] at member
    rcases List.mem_append.mp member with inFront | isEnd
    · exact Or.inl (front token inFront).2
    · exact Or.inr (List.mem_singleton.mp isEnd)
  have collected : linesFrom 0 [] (simple.tokens ++ rest) =
      finishLine simple.source ++ linesFrom 0 [] rest := by
    rw [Simple.tokens, ← List.append_assoc, List.append_assoc, linesFrom_append front balanced,
      List.singleton_append, linesFrom_semicolon]
    simp [Simple.source, render_tokenize]
  have finished : finishLine simple.source = [simple.source] := by
    refine finishLine_of_tight (by simp [Simple.source]) ?_ fun c last => ?_
    · rw [Simple.source, List.append_assoc]
      exact simple.toCode.first _
    · rw [Simple.source, List.getLast?_concat] at last
      obtain rfl := Option.some.inj last
      rfl
  rw [linesAfter, collected, finished, List.singleton_append,
    convertLines_cons_filled counts rfl simple.converts]
  rfl

theorem orPass_eq (depth : Nat) (lines : List ScriptLine) :
    orPass depth lines = lines ++ passFor (!lines.isEmpty) depth := by
  cases lines <;> simp [orPass, passFor]

/-- The open blocks behind the lines. -/
def fillWith (lines : List ScriptLine) (blocks : OpenBlocks) : OpenBlocks :=
  if lines.isEmpty then blocks else fillInnermost blocks

theorem Statement.lines_ne_nil {context : Context} (statement : Statement context) (depth : Nat) :
    statement.lines depth ≠ [] := by
  cases statement <;> simp [Statement.lines]

/-- A block in braces puts out its lines one level deeper, or a `pass`. -/
theorem linesAfter_braces {context : Context} {outer : OpenBlocks} {inner after : List Token}
    {bodyLines nextLines rest : List ScriptLine}
    (body : linesAfter context (false :: outer) (inner ++ closeBrace :: after) =
      bodyLines ++ linesAfter context (fillWith bodyLines (false :: outer)) (closeBrace :: after))
    (next : ∀ filled, linesAfter context (filled :: outer) (closeBrace :: after) =
      passFor filled (outer.length + 1) ++ (nextLines ++ rest)) :
    linesAfter context (false :: outer) (inner ++ closeBrace :: after) =
      orPass (outer.length + 1) bodyLines ++ (nextLines ++ rest) := by
  have state : fillWith bodyLines (false :: outer) = (!bodyLines.isEmpty) :: outer := by
    cases bodyLines <;> rfl
  rw [body, state, next, orPass_eq, List.append_assoc]

mutual

theorem Statement.linesAfter_append {context : Context} (names : context.HasScriptNames) :
    ∀ (statement : Statement context) (blocks : OpenBlocks) {rest : List Token}, NoElse rest →
      linesAfter context blocks (statement.tokens ++ rest) =
        statement.lines blocks.length ++ linesAfter context (fillInnermost blocks) rest
  | .simple code, blocks, rest, _ => by
      rw [Statement.tokens, code.linesAfter_append, Statement.lines]
      rfl
  | .branch guard body next, blocks, rest, noElse => by
      have inner := linesAfter_braces
        (body.linesAfter_append names (false :: fillInnermost blocks)
          (noElse_closeBrace (next.tokens ++ rest)))
        (fun filled => next.linesAfter_closeBrace names filled (fillInnermost blocks)
          (fillInnermost_fillInnermost blocks) noElse)
      have opened := (guard.isHeader_if names).linesAfter_append names blocks
        (body.tokens ++ closeBrace :: (next.tokens ++ rest))
      rw [inner, length_fillInnermost] at opened
      simpa [Statement.tokens, Statement.lines, Guard.line] using opened
  | .loop guard body, blocks, rest, noElse => by
      have inner := @linesAfter_braces _ _ _ _ _ []
        (linesAfter context (fillInnermost blocks) rest)
        (body.linesAfter_append names (false :: fillInnermost blocks) (noElse_closeBrace rest))
        (fun filled => linesAfter_closeBrace names filled _ noElse)
      have opened := (guard.isHeader_while names).linesAfter_append names blocks
        (body.tokens ++ closeBrace :: rest)
      rw [inner, length_fillInnermost] at opened
      simpa [Statement.tokens, Statement.lines, Guard.line] using opened

theorem Alternative.linesAfter_closeBrace {context : Context} (names : context.HasScriptNames) :
    ∀ (next : Alternative context) (filled : Bool) (outer : OpenBlocks) {rest : List Token},
      fillInnermost outer = outer → NoElse rest →
      linesAfter context (filled :: outer) (closeBrace :: (next.tokens ++ rest)) =
        passFor filled (outer.length + 1) ++ (next.lines outer.length ++ linesAfter context outer rest)
  | .none, filled, outer, rest, _, noElse => by
      rw [Alternative.tokens, List.nil_append, Alternative.lines, List.nil_append]
      exact Script.linesAfter_closeBrace names filled outer noElse
  | .otherwise before after body, filled, outer, rest, isFilled, noElse => by
      have inner := @linesAfter_braces _ _ _ _ _ [] (linesAfter context outer rest)
        (body.linesAfter_append names (false :: outer) (noElse_closeBrace rest))
        (fun filled => Script.linesAfter_closeBrace names filled outer noElse)
      have opened := (isHeader_else names after).linesAfter_closeBrace names rfl filled outer before
        (body.tokens ++ closeBrace :: rest)
      rw [isFilled, inner] at opened
      simpa [Alternative.tokens, Alternative.lines, elseLine] using opened
  | .elseIf before between apart guard body next, filled, outer, rest, isFilled, noElse => by
      have inner := linesAfter_braces
        (body.linesAfter_append names (false :: outer) (noElse_closeBrace (next.tokens ++ rest)))
        (fun filled => next.linesAfter_closeBrace names filled outer isFilled noElse)
      have opened := (guard.isHeader_elif names apart).linesAfter_closeBrace names rfl filled outer
        before (body.tokens ++ closeBrace :: (next.tokens ++ rest))
      rw [isFilled, inner] at opened
      simpa [Alternative.tokens, Alternative.lines, Guard.line] using opened

theorem Block.linesAfter_append {context : Context} (names : context.HasScriptNames) :
    ∀ (block : Block context) (blocks : OpenBlocks) {rest : List Token}, NoElse rest →
      linesAfter context blocks (block.tokens ++ rest) =
        block.lines blocks.length ++
          linesAfter context (fillWith (block.lines blocks.length) blocks) rest
  | .done gap, blocks, rest, _ => by
      rw [Block.tokens, linesAfter_gap]
      rfl
  | .cons gap statement more, blocks, rest, noElse => by
      have first := statement.linesAfter_append names blocks (more.noElse noElse)
      have others := more.linesAfter_append names (fillInnermost blocks) noElse
      have state : fillWith (more.lines blocks.length) (fillInnermost blocks) =
          fillWith (statement.lines blocks.length ++ more.lines blocks.length) blocks := by
        simp [fillWith, statement.lines_ne_nil]
      rw [length_fillInnermost, state] at others
      rw [Block.tokens, List.append_assoc, linesAfter_gap, List.append_assoc, first, others,
        Block.lines, List.append_assoc]

end

/-- A converted block has the lines of its tree. -/
theorem Block.convertBlock_eq {context : Context} (names : context.HasScriptNames)
    (body : Block context) : convertBlock context body.source = orPass 0 (body.lines 0) := by
  have all := @Block.linesAfter_append _ names body [] [] rfl
  have nothing : linesAfter context (fillWith (body.lines 0) []) [] = [] := by
    unfold fillWith
    split <;> rfl
  rw [List.append_nil, List.length_nil, nothing, List.append_nil] at all
  rw [convertBlock, logicalLines, body.tokenize_source]
  exact congrArg (orPass 0) all

/-- The loop of a script has the lines of the block that the sketch's text was written from, whatever
the layout, and none of them breaks. -/
theorem convertBlock_source (sketch : Text) (body : Block (Context.harvest sketch)) :
    convertBlock (Context.harvest sketch) body.source = orPass 0 (body.lines 0) ∧
      AreUnbroken (orPass 0 (body.lines 0)) := by
  have names := Context.hasScriptNames_harvest sketch
  exact ⟨body.convertBlock_eq names, (body.areUnbroken_lines names 0).orPass 0⟩

end Breadboard.Script
