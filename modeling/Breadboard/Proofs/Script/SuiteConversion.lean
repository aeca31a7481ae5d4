import Breadboard.Proofs.Script.BlockCode
import Breadboard.Proofs.Script.BlockConversion
import Breadboard.Proofs.Script.SuiteLine

set_option autoImplicit false

namespace Breadboard.Script

open Sketch hiding stripComments

/-- A header that can also have a statement, or nothing, in front of a semicolon on its line. -/
structure IsLead (context : Context) (lead : List Token) (after : Gap) (text : Text) : Prop extends
    IsHeader context lead after text where
  takes : ∀ {closer gap tail trailing : List Token} {line : Text}, IsCloser closer → IsGap gap →
    IsFragment tail → IsBalanced tail → IsPlain context tail → IsGap trailing →
    tokenize line = closer ++ (lead ++ (gap ++ (tail ++ (trailing ++ [semicolon])))) →
    convertLine context line = text ++ tailText (conditionText context (render tail))

theorem Guard.isLead {context : Context} (names : context.HasScriptNames) {guard : Guard}
    {keyword : String} {key : List Token} (isKey : IsKeyword keyword key)
    (header : IsHeader context (key ++ guard.tokens) guard.after (guard.header context keyword)) :
    IsLead context (key ++ guard.tokens) guard.after (guard.header context keyword) where
  toIsHeader := header
  takes := by
    intro closer gap tail trailing line isCloser isGap isTail balanced _ isTrailing cutAt
    have regrouped : tokenize line = closer ++ key ++ (guard.before.tokens ++
        ⟨.punct, "(".toList⟩ :: (guard.inside.tokens ++ tokenize guard.condition.text ++
          guard.behind.tokens ++ ⟨.punct, ")".toList⟩ ::
            (gap ++ (tail ++ (trailing ++ [semicolon]))))) := by
      rw [cutAt, Guard.tokens, openParen, closeParen]
      simp
    rw [convertLine_guard_tail names isCloser isKey guard.before.isGap guard.inside.isGap
      guard.condition.isFragment guard.condition.balanced guard.behind.isGap isGap isTail balanced
      isTrailing regrouped, render_tokenize]
    rfl

theorem Guard.isLead_if {context : Context} (names : context.HasScriptNames) (guard : Guard) :
    IsLead context (ifWord :: guard.tokens) guard.after (guard.header context "if") :=
  @Guard.isLead _ names guard "if" [ifWord] (Or.inl ⟨rfl, rfl⟩) (guard.isHeader_if names)

theorem Guard.isLead_while {context : Context} (names : context.HasScriptNames) (guard : Guard) :
    IsLead context (whileWord :: guard.tokens) guard.after (guard.header context "while") :=
  @Guard.isLead _ names guard "while" [whileWord] (Or.inr (Or.inl ⟨rfl, rfl⟩))
    (guard.isHeader_while names)

theorem Guard.isLead_elif {context : Context} (names : context.HasScriptNames) (guard : Guard)
    {between : Spacing} (apart : between.text ≠ []) :
    IsLead context (elseWord :: (between.tokens ++ [ifWord]) ++ guard.tokens) guard.after
      (guard.header context "elif") :=
  guard.isLead names (Or.inr (Or.inr ⟨rfl, between.tokens, between.isGap, rfl⟩))
    (guard.isHeader_elif names apart)

theorem isLead_else {context : Context} (names : context.HasScriptNames) (after : Gap) :
    IsLead context [elseWord] after "else:".toList where
  toIsHeader := isHeader_else names after
  takes := fun isCloser isGap isTail balanced plain isTrailing cutAt =>
    convertLine_else_tail names isCloser isGap isTail balanced plain isTrailing cutAt

section

variable {context : Context} {lead : List Token} {after : Gap} {text : Text}

/-- What stands behind a header on its line is put out on the header's line. -/
theorem IsLead.convertLines_sameLine (isLead : IsLead context lead after text)
    {closer tail : List Token} (isCloser : IsCloser closer)
    (sameLine : after.text.contains '\n' = false) (isTail : IsFragment tail) (inline : IsInline tail)
    (balanced : IsBalanced tail) (plain : IsPlain context tail) (trailing : Spacing)
    (cut : IsCut (closer ++ (lead ++ (after.tokens ++ (tail ++ (trailing.tokens ++ [semicolon]))))))
    {blocks inner : OpenBlocks} {passes : List ScriptLine}
    (closed : closeBlocks (closer.countP (·.isPunct "\x7d")) blocks = (passes, inner))
    (rest : List Token) :
    convertLines context blocks (linesFrom 0 (render closer)
        (lead ++ (after.tokens ++ (tail ++ (trailing.tokens ++ semicolon :: rest))))) =
      passes ++ ⟨inner.length, text ++ tailText (conditionText context (render tail))⟩ ::
        linesAfter context (fillInnermost inner) rest := by
  let spacing : Spacing := ⟨after, sameLine⟩
  let front := lead ++ (after.tokens ++ (tail ++ trailing.tokens))
  have frontInline : IsInline front :=
    isLead.inline.append (spacing.isInline.append (inline.append trailing.isInline))
  have frontBalanced : IsBalanced front := by
    rw [IsBalanced, parenDepth?_append, isLead.balanced, Option.bind_some, parenDepth?_append,
      parenDepth?_trivia after.isGap.isTrivia, Option.bind_some, parenDepth?_append, balanced,
      Option.bind_some, parenDepth?_trivia trailing.isGap.isTrivia]
  have line : closer ++ (lead ++ (after.tokens ++ (tail ++ (trailing.tokens ++ [semicolon])))) =
      closer ++ front ++ [semicolon] := by
    simp [front]
  have cutAt := cut.tokenize_render
  have converted := isLead.takes isCloser after.isGap isTail balanced plain trailing.isGap cutAt
  have frontCounts := countP_brace_of_unmarked fun token member => (frontInline token member).2
  have counts : braceCounts (render (closer ++ front ++ [semicolon])) =
      (closer.countP (·.isPunct "\x7d"), 0) := by
    simp only [braceCounts, ← line, cutAt]
    simp only [line, List.countP_append, frontCounts, isCloser.countP]
    rfl
  have collected : linesFrom 0 (render closer)
      (lead ++ (after.tokens ++ (tail ++ (trailing.tokens ++ semicolon :: rest)))) =
        render (closer ++ front ++ [semicolon]) :: linesFrom 0 [] rest := by
    have regroup : lead ++ (after.tokens ++ (tail ++ (trailing.tokens ++ semicolon :: rest))) =
        front ++ semicolon :: rest := by
      simp [front]
    have first := isLead.first isCloser (after.tokens ++ (tail ++ (trailing.tokens ++ [semicolon])))
    have ended : render closer ++ render front ++ [';'] = render (closer ++ front ++ [semicolon]) := by
      simp [semicolon]
    rw [regroup, linesFrom_append frontInline frontBalanced, linesFrom_semicolon, ended,
      finishLine_of_tight (by rw [← ended]; simp) (by rw [← line]; exact first) fun c last => ?_]
    · rfl
    · rw [← ended, List.getLast?_concat] at last
      obtain rfl := Option.some.inj last
      rfl
  rw [← line] at counts collected
  rw [collected, convertLines_cons_filled counts closed (by rw [converted]; simp [isLead.filled]),
    converted]
  rfl

/-- A header whose line ends in front of what stands behind it. -/
theorem IsHeader.convertLines_nextLine (header : IsHeader context lead after text)
    {closer : List Token} (isCloser : IsCloser closer)
    (breaks : after.text.contains '\n' = true) (cut : IsCut (closer ++ lead))
    {blocks inner : OpenBlocks} {passes : List ScriptLine}
    (closed : closeBlocks (closer.countP (·.isPunct "\x7d")) blocks = (passes, inner))
    (rest : List Token) :
    Script.convertLines context blocks
        (linesFrom 0 (render closer) (lead ++ (after.tokens ++ rest))) =
      passes ++ ⟨inner.length, text⟩ :: linesAfter context (fillInnermost inner) rest := by
  rw [Script.linesFrom_append header.inline header.balanced, ← render_append, linesFrom_gap_break breaks,
    header.finishLine_lead isCloser]
  exact header.convertLines_lead isCloser cut closed (linesFrom 0 [] rest)

end

/-- A semicolon on a line of its own leaves nothing. -/
theorem linesAfter_semicolon {context : Context} (names : context.HasScriptNames)
    (blocks : OpenBlocks) (rest : List Token) :
    linesAfter context blocks (semicolon :: rest) = linesAfter context blocks rest := by
  have cutAt : tokenize [';'] = [semicolon] := by cbv
  have counts : braceCounts [';'] = (0, 0) := by
    simp only [braceCounts, cutAt]
    decide
  have frames : ∀ token ∈ [semicolon], isFrame token = true := by decide
  have empty : convertLine context [';'] = [] := by
    rw [convertLine, cutAt, convertTokens_eq context
      (fun token member => kind_ne_comment_of_isFrame (frames token member)),
      convertCalls_of_isFrame names frames, normalizeWords_of_isFrame frames]
    rfl
  rw [linesAfter, linesFrom_semicolon, finishLine_of_tight (by simp) (by simp; decide)
    (by simp; decide), List.nil_append, List.singleton_append,
    convertLines_cons_empty counts rfl empty]
  rfl

/-- The lines that what follows a suite becomes, behind a statement and behind a brace. -/
structure Follows (context : Context) (outer : OpenBlocks) (follow : List Token)
    (result : List ScriptLine) : Prop where
  behindBrace : ∀ filled, linesAfter context (filled :: outer) (closeBrace :: follow) =
    passFor filled (outer.length + 1) ++ result
  behindLine : linesAfter context outer follow = result

theorem follows_of_noElse {context : Context} (names : context.HasScriptNames) (outer : OpenBlocks)
    {rest : List Token} (noElse : NoElse rest) :
    Follows context outer rest (linesAfter context outer rest) where
  behindBrace := fun filled => linesAfter_closeBrace names filled outer noElse
  behindLine := rfl

/-- A header with its suite puts out the same on the line of the brace before it and on its own line. -/
theorem follows_header {context : Context} (names : context.HasScriptNames) {lead : List Token}
    {after : Gap} {text : Text} (header : IsHeader context lead after text)
    (isElse : lead.head?.any (·.isIdent "else") = true) (before : Gap) {outer : OpenBlocks}
    {inside behind : List Token} {made : List ScriptLine} (cut : IsCut (lead ++ inside))
    (emits : ∀ {closer : List Token}, IsCloser closer → IsCut (closer ++ (lead ++ inside)) →
      ∀ {blocks : OpenBlocks} {passes : List ScriptLine},
        closeBlocks (closer.countP (·.isPunct "\x7d")) blocks = (passes, outer) →
        convertLines context blocks (linesFrom 0 (render closer) (lead ++ behind)) = passes ++ made) :
    Follows context outer (before.tokens ++ (lead ++ behind)) made := by
  have alone : linesAfter context outer (lead ++ behind) = made :=
    @emits [] (Or.inl rfl) cut outer [] rfl
  have closerCut : IsCut (closeBrace :: before.tokens ++ (lead ++ inside)) :=
    isCut_delimiter_cons rfl (before.isCut_append cut (header.startsTight inside))
  refine ⟨fun filled => ?_, ?_⟩
  · refine linesAfter_closeBrace_else names ?_ filled outer before
      (emits (isCloser_closeBrace before) closerCut (closeBlocks_closer before filled outer)) alone
    rw [header.dropTrivia_append, List.head?_append_of_ne_nil]
    · exact isElse
    · rintro rfl
      cases isElse
  · rw [linesAfter_gap]
    exact alone

theorem Step.noElse {context : Context} (step : Step context) (rest : List Token) :
    NoElse (step.tokens ++ rest) := by
  cases step with
  | simple code => exact (Statement.simple code).noElse rest
  | compound compound => cases compound <;> rfl

theorem Steps.noElse {context : Context} (steps : Steps context) {rest : List Token}
    (noElse : NoElse rest) : NoElse (steps.tokens ++ rest) := by
  cases steps with
  | done gap =>
      rw [Steps.tokens]
      exact noElse_gap noElse
  | cons gap step more =>
      rw [Steps.tokens, List.append_assoc, List.append_assoc]
      exact noElse_gap (step.noElse _)

theorem Suite.lines_ne_nil {context : Context} {word : Bool} {gap : Gap}
    (suite : Suite context word gap) (depth : Nat) (header : Text) :
    suite.lines depth header ≠ [] := by
  cases suite with
  | bare apart code plain =>
      rw [Suite.lines]
      split <;> exact List.cons_ne_nil _ _
  | _ => simp [Suite.lines]

theorem Step.lines_ne_nil {context : Context} (step : Step context) (depth : Nat) :
    step.lines depth ≠ [] := by
  cases step with
  | simple code => simp [Step.lines]
  | compound compound =>
      cases compound <;> simp [Step.lines, Compound.lines, Suite.lines_ne_nil]

theorem isCut_part_closer {closer lead : List Token} {gap : Gap} {tokens : List Token}
    (cut : IsCut (closer ++ (lead ++ (gap.tokens ++ tokens)))) : IsCut (closer ++ lead) := by
  refine cut.part (List.IsPrefix.isInfix ?_)
  rw [← List.append_assoc]
  exact List.prefix_append _ _

mutual

/-- What a suite behind a header puts out, whether or not a brace stands before the header. -/
theorem Suite.convertLines_append {context : Context} (names : context.HasScriptNames) {word : Bool}
    {gap : Gap} : ∀ (suite : Suite context word gap) {lead : List Token} {text : Text},
      IsLead context lead gap text → ∀ {closer : List Token}, IsCloser closer →
      IsCut (closer ++ (lead ++ (gap.tokens ++ suite.tokens))) →
      ∀ {blocks inner : OpenBlocks} {passes : List ScriptLine},
        closeBlocks (closer.countP (·.isPunct "\x7d")) blocks = (passes, inner) →
      ∀ {follow : List Token} {result : List ScriptLine},
        Follows context (fillInnermost inner) follow result →
        convertLines context blocks
            (linesFrom 0 (render closer) (lead ++ (gap.tokens ++ (suite.tokens ++ follow)))) =
          passes ++ (suite.lines inner.length text ++ result)
  | .braces steps, lead, text, isLead, closer, isCloser, cut, blocks, inner, passes, closed, follow,
      result, follows => by
      have headerCut : IsCut (closer ++ (lead ++ (gap.tokens ++ [openBrace]))) := by
        refine cut.part ⟨[], steps.tokens ++ [closeBrace], ?_⟩
        simp [Suite.tokens]
      have opened := isLead.convertLines names isCloser headerCut closed
        (steps.tokens ++ closeBrace :: follow)
      have body := @linesAfter_braces _ _ _ _ _ [] result
        (steps.linesAfter_append names (false :: fillInnermost inner) (noElse_closeBrace follow))
        (fun filled => follows.behindBrace filled)
      rw [linesAfter] at body
      rw [body, length_fillInnermost] at opened
      simpa [Suite.tokens, Suite.lines] using opened
  | .bare apart code plain, lead, text, isLead, closer, isCloser, cut, blocks, inner, passes, closed,
      follow, result, follows => by
      rw [Suite.tokens, Suite.lines]
      by_cases breaks : gap.text.contains '\n' = true
      · rw [if_pos breaks, isLead.convertLines_nextLine isCloser breaks (isCut_part_closer cut) closed,
          code.linesAfter_append, length_fillInnermost, fillInnermost_fillInnermost,
          follows.behindLine]
        rfl
      · have onLine : gap.text.contains '\n' = false := by simpa using breaks
        have sameLine := isLead.convertLines_sameLine isCloser onLine code.toCode.isFragment
          code.toCode.isInline code.balanced (plain onLine) code.trailing cut closed follow
        have filled : code.line ≠ [] := code.converts
        rw [render_tokenize, ← code.line_eq names (plain onLine), tailText_of_ne_nil filled,
          follows.behindLine] at sameLine
        rw [if_neg breaks]
        simpa [Simple.tokens] using sameLine
  | .empty, lead, text, isLead, closer, isCloser, cut, blocks, inner, passes, closed, follow, result,
      follows => by
      rw [Suite.tokens, Suite.lines]
      by_cases breaks : gap.text.contains '\n' = true
      · rw [isLead.convertLines_nextLine isCloser breaks (isCut_part_closer cut) closed,
          List.singleton_append, linesAfter_semicolon names, follows.behindLine]
        rfl
      · have sameLine := @IsLead.convertLines_sameLine _ _ _ _ isLead _ [] isCloser
          (by simpa using breaks) isFragment_nil isInline_nil rfl
          (isPlain_nil names) .none cut _ _ _ closed follow
        rw [render_nil, conditionText_nil names, tailText, follows.behindLine] at sameLine
        simpa [Spacing.none, Gap.none, Gap.tokens, blankTokens] using sameLine
  | .nested breaks compound, lead, text, isLead, closer, isCloser, cut, blocks, inner, passes, closed,
      follow, result, follows => by
      have inside := compound.linesAfter_append names (fillInnermost inner)
        (by rw [fillInnermost_fillInnermost]; exact follows)
      rw [Suite.tokens, Suite.lines,
        isLead.convertLines_nextLine isCloser breaks (isCut_part_closer cut) closed, inside,
        length_fillInnermost]
      rfl

theorem Compound.linesAfter_append {context : Context} (names : context.HasScriptNames) :
    ∀ (compound : Compound context) (blocks : OpenBlocks) {follow : List Token}
      {result : List ScriptLine}, Follows context (fillInnermost blocks) follow result →
      linesAfter context blocks (compound.tokens ++ follow) =
        compound.lines blocks.length ++ result
  | .branch guard suite next, blocks, follow, result, follows => by
      have cut := isCut_headed isLexeme_ifWord rfl guard suite.isCut suite.tight
      have others := next.follows names (fillInnermost_fillInnermost blocks) follows
      have all := suite.convertLines_append names (guard.isLead_if names) (Or.inl rfl)
        (@id (IsCut ([] ++ _)) cut) (rfl : closeBlocks 0 blocks = ([], blocks)) others
      rw [length_fillInnermost] at all
      rw [Compound.tokens, Compound.lines]
      simpa [linesAfter] using all
  | .loop guard suite, blocks, follow, result, follows => by
      have cut := isCut_headed isLexeme_whileWord rfl guard suite.isCut suite.tight
      have all := suite.convertLines_append names (guard.isLead_while names) (Or.inl rfl)
        (@id (IsCut ([] ++ _)) cut) (rfl : closeBlocks 0 blocks = ([], blocks)) follows
      rw [Compound.tokens, Compound.lines]
      simpa [linesAfter] using all

/-- With the branch before what follows, the same holds of both. -/
theorem Choice.follows {context : Context} (names : context.HasScriptNames) :
    ∀ (next : Choice context) {outer : OpenBlocks} {follow : List Token} {result : List ScriptLine},
      fillInnermost outer = outer → Follows context outer follow result →
      Follows context outer (next.tokens ++ follow) (next.lines outer.length ++ result)
  | .none, outer, follow, result, _, follows => by
      rw [Choice.tokens, Choice.lines]
      exact follows
  | .otherwise before after suite, outer, follow, result, isFilled, follows => by
      have behind : Follows context (fillInnermost outer) follow result := by
        rw [isFilled]
        exact follows
      have cut := isCut_word_cons isLexeme_elseWord rfl
        (after.isCut_append suite.isCut suite.tight) suite.apart
      have all := follows_header names (isHeader_else names after) rfl before cut
        fun isCloser closerCut _ _ closed =>
          suite.convertLines_append names (isLead_else names after) isCloser closerCut closed behind
      simpa [Choice.tokens, Choice.lines] using all
  | .elseIf before between apart guard suite next, outer, follow, result, isFilled, follows => by
      have others := next.follows names isFilled follows
      have behind : Follows context (fillInnermost outer) (next.tokens ++ follow)
          (next.lines outer.length ++ result) := by
        rw [isFilled]
        exact others
      have cut := isCut_elseIf guard apart suite.isCut suite.tight
      have all := follows_header names (guard.isHeader_elif names apart) rfl before
        (by simpa using cut) fun isCloser closerCut _ _ closed =>
          suite.convertLines_append names (guard.isLead_elif names apart) isCloser closerCut closed
            behind
      simpa [Choice.tokens, Choice.lines] using all

theorem Step.linesAfter_append {context : Context} (names : context.HasScriptNames) :
    ∀ (step : Step context) (blocks : OpenBlocks) {rest : List Token}, NoElse rest →
      linesAfter context blocks (step.tokens ++ rest) =
        step.lines blocks.length ++ linesAfter context (fillInnermost blocks) rest
  | .simple code, blocks, rest, _ => by
      rw [Step.tokens, code.linesAfter_append, Step.lines]
      rfl
  | .compound compound, blocks, rest, noElse =>
      compound.linesAfter_append names blocks (follows_of_noElse names _ noElse)

theorem Steps.linesAfter_append {context : Context} (names : context.HasScriptNames) :
    ∀ (steps : Steps context) (blocks : OpenBlocks) {rest : List Token}, NoElse rest →
      linesAfter context blocks (steps.tokens ++ rest) =
        steps.lines blocks.length ++
          linesAfter context (fillWith (steps.lines blocks.length) blocks) rest
  | .done gap, blocks, rest, _ => by
      rw [Steps.tokens, linesAfter_gap]
      rfl
  | .cons gap step more, blocks, rest, noElse => by
      have first := step.linesAfter_append names blocks (more.noElse noElse)
      have others := more.linesAfter_append names (fillInnermost blocks) noElse
      have state : fillWith (more.lines blocks.length) (fillInnermost blocks) =
          fillWith (step.lines blocks.length ++ more.lines blocks.length) blocks := by
        simp [fillWith, step.lines_ne_nil]
      rw [length_fillInnermost, state] at others
      rw [Steps.tokens, List.append_assoc, linesAfter_gap, List.append_assoc, first, others,
        Steps.lines, List.append_assoc]

end

/-- A converted block has the lines of its tree. -/
theorem Steps.convertBlock_eq {context : Context} (names : context.HasScriptNames)
    (body : Steps context) : convertBlock context body.source = orPass 0 (body.lines 0) := by
  have all := @Steps.linesAfter_append _ names body [] [] rfl
  have nothing : linesAfter context (fillWith (body.lines 0) []) [] = [] := by
    unfold fillWith
    split <;> rfl
  rw [List.append_nil, List.length_nil, nothing, List.append_nil] at all
  rw [convertBlock, logicalLines, body.tokenize_source]
  exact congrArg (orPass 0) all

theorem areUnbroken_nil : AreUnbroken [] := by
  simp [AreUnbroken]

theorem Simple.not_mem_line {context : Context} (names : context.HasScriptNames)
    (code : Simple context) :
    '\n' ∉ code.line :=
  not_mem_convertLine names code.not_mem_source

mutual

theorem Step.areUnbroken_lines {context : Context} (names : context.HasScriptNames) :
    ∀ (step : Step context) (depth : Nat), AreUnbroken (step.lines depth)
  | .simple code, depth => by
      rw [Step.lines]
      exact .cons (code.not_mem_line names) areUnbroken_nil
  | .compound compound, depth => compound.areUnbroken_lines names depth

theorem Compound.areUnbroken_lines {context : Context} (names : context.HasScriptNames) :
    ∀ (compound : Compound context) (depth : Nat), AreUnbroken (compound.lines depth)
  | .branch guard suite next, depth => by
      rw [Compound.lines]
      exact (suite.areUnbroken_lines names depth (guard.not_mem_line names 0 (by decide))).append
        (next.areUnbroken_lines names depth)
  | .loop guard suite, depth => by
      rw [Compound.lines]
      exact suite.areUnbroken_lines names depth (guard.not_mem_line names 0 (by decide))

theorem Choice.areUnbroken_lines {context : Context} (names : context.HasScriptNames) :
    ∀ (next : Choice context) (depth : Nat), AreUnbroken (next.lines depth)
  | .none, depth => by
      rw [Choice.lines]
      exact areUnbroken_nil
  | .otherwise before after suite, depth => by
      rw [Choice.lines]
      exact suite.areUnbroken_lines names depth (by decide)
  | .elseIf before between apart guard suite next, depth => by
      rw [Choice.lines]
      exact (suite.areUnbroken_lines names depth (guard.not_mem_line names 0 (by decide))).append
        (next.areUnbroken_lines names depth)

theorem Suite.areUnbroken_lines {context : Context} (names : context.HasScriptNames) {word : Bool}
    {gap : Gap} : ∀ (suite : Suite context word gap) (depth : Nat) {header : Text}, '\n' ∉ header →
      AreUnbroken (suite.lines depth header)
  | .braces steps, depth, header, unbroken => by
      rw [Suite.lines]
      exact .cons unbroken ((steps.areUnbroken_lines names (depth + 1)).orPass _)
  | .bare apart code plain, depth, header, unbroken => by
      have line := code.not_mem_line names
      rw [Suite.lines]
      split
      · exact .cons unbroken (.cons line areUnbroken_nil)
      · exact .cons (by simp [unbroken, line]) areUnbroken_nil
  | .empty, depth, header, unbroken => by
      rw [Suite.lines]
      exact .cons unbroken areUnbroken_nil
  | .nested breaks compound, depth, header, unbroken => by
      rw [Suite.lines]
      exact .cons unbroken (compound.areUnbroken_lines names depth)

theorem Steps.areUnbroken_lines {context : Context} (names : context.HasScriptNames) :
    ∀ (steps : Steps context) (depth : Nat), AreUnbroken (steps.lines depth)
  | .done gap, depth => by
      rw [Steps.lines]
      exact areUnbroken_nil
  | .cons gap step rest, depth => by
      rw [Steps.lines]
      exact (step.areUnbroken_lines names depth).append (rest.areUnbroken_lines names depth)

end

end Breadboard.Script
