import Breadboard.Proofs.Script.BlockLines
import Breadboard.Proofs.Script.SuiteTree

set_option autoImplicit false

namespace Breadboard.Script

open Sketch hiding stripComments

theorem isFrame_trailing {trailing : List Token} (isTrailing : IsGap trailing) :
    ∀ token ∈ trailing ++ [semicolon], isFrame token = true := by
  intro token member
  rcases List.mem_append.mp member with inTrailing | isEnd
  · exact isTrailing.isFrame token inTrailing
  · rw [List.mem_singleton.mp isEnd]
    rfl

theorem closes_trailing {trailing : List Token} (isTrailing : IsGap trailing) :
    Closes (trailing ++ [semicolon]) := by
  intro token first
  rw [dropTrivia_gap_append isTrailing] at first
  obtain rfl : semicolon = token := Option.some.inj first
  exact Or.inr rfl

theorem noComment_trailing {trailing : List Token} (isTrailing : IsGap trailing) :
    ∀ token ∈ trailing ++ [semicolon], token.kind ≠ .comment := fun token member =>
  kind_ne_comment_of_isFrame (isFrame_trailing isTrailing token member)

/-- A semicolon behind a text without marks leaves nothing. -/
theorem render_filter_tokenize_semicolon {text : Text} (free : IsMarkFree text) :
    render ((tokenize (text ++ [';'])).filter (!isPunctuationDropped ·)) = text := by
  have cut : IsCut (tokenize text ++ [semicolon]) := by
    refine free.isCut.append (isCut_delimiter_cons (c := ';') rfl isCut_nil)
      fun last isLast next isNext c first => ?_
    obtain rfl : semicolon = next := Option.some.inj isNext
    obtain rfl : ';' = c := Option.some.inj first
    exact endsBefore_delimiter (free.isCut.whole last (List.mem_of_getLast? isLast)) rfl
  have pieces : tokenize (text ++ [';']) = tokenize text ++ [semicolon] := by
    rw [← cut.tokenize_render, render_append, render_tokenize]
    rfl
  rw [pieces, List.filter_append, render_append, render_filter_tokenize free]
  exact List.append_nil text

/-- The words are marks only where the tokens are. -/
theorem unmarked_normalizeWords {tokens : List Token}
    (unmarked : ∀ token ∈ tokens, token.isBlockMark = false) (previous : Option Token) :
    ∀ token ∈ normalizeWords previous tokens, token.isBlockMark = false := by
  intro token member
  rcases mem_normalizeWords member with stays | rfl | ⟨ident, -⟩
  · exact unmarked token stays
  · rfl
  · simp [Token.isBlockMark, Token.isPunct, ident]

/-- What was put out before sets the first word off by a blank, and does no more. -/
theorem exists_normalizeWords_eq (previous : Option Token) (tokens : List Token) :
    ∃ blanks, (blanks = [] ∨ blanks = [blankToken]) ∧
      normalizeWords previous tokens = blanks ++ normalizeWords none tokens := by
  by_cases set : previous.any touches = true
  · cases tokens with
    | nil => exact ⟨[], Or.inl rfl, rfl⟩
    | cons token rest =>
        cases level : levelWord? token with
        | some word => exact ⟨[], Or.inl rfl, by simp only [normalizeWords, level, List.nil_append]⟩
        | none =>
            cases operator : operatorWord? token with
            | none =>
                refine ⟨[], Or.inl rfl, ?_⟩
                rw [normalizeWords_cons_plain level operator, normalizeWords_cons_plain level operator,
                  List.nil_append]
            | some word =>
                refine ⟨[blankToken], Or.inr rfl, ?_⟩
                rw [normalizeWords_cons_operator level operator,
                  normalizeWords_cons_operator level operator, if_pos set]
                simp
  · exact ⟨[], Or.inl rfl, normalizeWords_congr (by simpa using set) tokens⟩

/-- What the rules and the words make of code with blanks around it. -/
structure IsTail (context : Context) (code body : List Token) : Prop where
  unmarked : ∀ token ∈ body, token.isBlockMark = false
  free : IsMarkFree (render body)
  text : Text.trim (render body) = conditionText context (render code)
  start : IsPlain context code → (dropTrivia body).head?.any isHeaderWord = false

theorem IsTail.gap_append {context : Context} {code body gap : List Token}
    (tail : IsTail context code body) (isGap : IsGap gap) : IsTail context code (gap ++ body) where
  unmarked := by
    intro token member
    rcases List.mem_append.mp member with inGap | inBody
    · exact isGap.unmarked token inGap
    · exact tail.unmarked token inBody
  free := by
    rw [render_append]
    exact tail.free.blank_append isGap.allBlank
  text := by rw [render_append, Text.trim_blank_append isGap.allBlank, tail.text]
  start := by
    intro plain
    rw [dropTrivia_gap_append isGap]
    exact tail.start plain

theorem IsTail.append_gap {context : Context} {code body gap : List Token}
    (tail : IsTail context code body) (isGap : IsGap gap) : IsTail context code (body ++ gap) where
  unmarked := by
    intro token member
    rcases List.mem_append.mp member with inBody | inGap
    · exact tail.unmarked token inBody
    · exact isGap.unmarked token inGap
  free := by
    rw [render_append]
    exact tail.free.append_blank isGap.allBlank
  text := by rw [render_append, Text.trim_append_blank isGap.allBlank, tail.text]
  start := by
    intro plain
    have nothing : dropTrivia gap = [] := by
      have same := dropTrivia_gap_append isGap []
      rwa [List.append_nil] at same
    have first := tail.start plain
    rw [dropTrivia_append]
    split
    · rw [nothing]
      rfl
    · cases left : dropTrivia body with
      | nil => simp_all
      | cons token rest => rwa [left] at first

theorem isTail_words {context : Context} (names : context.HasScriptNames) {code : List Token}
    (isCode : IsFragment code) (balanced : IsBalanced code) :
    IsTail context code (normalizeWords none (convertCalls context code)) := by
  have made := ((convertCalls_isLocal names).keeps isCode balanced).1
  refine ⟨unmarked_normalizeWords made.unmarked none, readAll_normalizeWords made none (by simp), ?_,
    id⟩
  rw [conditionText, isCode.cut.tokenize_render]

/-- Code in front of a semicolon keeps its words, and the semicolon stays behind them. -/
theorem exists_isTail {context : Context} (names : context.HasScriptNames)
    {code trailing : List Token} (isCode : IsFragment code) (balanced : IsBalanced code)
    (isTrailing : IsGap trailing) (previous : Option Token) :
    ∃ body, IsTail context code body ∧
      normalizeWords previous (convertCalls context code ++ (trailing ++ [semicolon])) =
        body ++ [semicolon] := by
  have back := isFrame_trailing isTrailing
  obtain ⟨lead, leadShape, led⟩ := exists_normalizeWords_eq previous (convertCalls context code)
  obtain ⟨blanks, shape, words⟩ := normalizeWords_append back previous (convertCalls context code)
  refine ⟨lead ++ (normalizeWords none (convertCalls context code) ++ blanks ++ trailing), ?_, ?_⟩
  · exact (((isTail_words names isCode balanced).append_gap (isGap_blanks shape)).append_gap
      isTrailing).gap_append (isGap_blanks leadShape)
  · rw [words, led]
    simp

/-- The text behind a header's colon. -/
def tailText (text : Text) : Text :=
  if text.isEmpty then [] else ' ' :: text

theorem tailText_of_ne_nil {text : Text} (notEmpty : text ≠ []) : tailText text = ' ' :: text :=
  if_neg (by simpa using notEmpty)

theorem trim_tail {text : Text} (tight : Text.IsTight text) (back : Text) :
    Text.trim (text ++ ' ' :: Text.trimStart back) = text ++ tailText (Text.trim back) := by
  have blank : Text.allBlank [' '] = true := rfl
  by_cases nothing : Text.trim back = []
  · rw [Text.trimStart_of_trim_eq_nil nothing, Text.trim_append_blank blank, tight.trim_eq, nothing]
    exact (List.append_nil text).symm
  · have kept : Text.trimStart (text ++ ' ' :: Text.trimStart back) =
        text ++ ' ' :: Text.trimStart back := by
      refine Text.trimStart_of_first fun c first => ?_
      rw [List.head?_append_of_ne_nil _ tight.notEmpty] at first
      exact tight.first c first
    have visible : Text.allBlank (Text.trimStart back) = false := by
      by_contra all
      rw [Bool.not_eq_false] at all
      have ended := @Text.trimEnd_append_blank (Text.trimStart back) all []
      exact nothing ended
    have last := (Text.trimEnd_append visible (text ++ [' '])).1
    rw [List.append_assoc, List.append_assoc] at last
    rw [Text.trim, kept, tailText_of_ne_nil nothing]
    exact last

/-- A header in front of a tail and a semicolon puts the tail behind its colon. -/
theorem trim_convertHeader {context : Context} {code body tokens : List Token}
    (tail : IsTail context code body) (keyword : Text) (condition : Option Text)
    (header : header? tokens = some ⟨keyword, condition, body ++ [semicolon]⟩) {text : Text}
    (textEq : keyword ++ (condition.map (' ' :: ·)).getD [] ++ [':'] = text)
    (free : IsMarkFree text) (tight : Text.IsTight text) :
    Text.trim (render ((convertHeader tokens).filter (!isPunctuationDropped ·))) =
      text ++ tailText (conditionText context (render code)) := by
  have noBrace : dropOpeningBrace (body ++ [semicolon]) = body ++ [semicolon] := by
    have plain : ∀ token ∈ body ++ [semicolon], token.isPunct "\x7b" = false := by
      intro token member
      rcases List.mem_append.mp member with inBody | isEnd
      · have unmarked := tail.unmarked token inBody
        rw [Token.isBlockMark, Bool.or_eq_false_iff, Bool.or_eq_false_iff] at unmarked
        exact unmarked.1.2
      · rw [List.mem_singleton.mp isEnd]
        rfl
    rw [dropOpeningBrace]
    cases onward : dropTrivia (body ++ [semicolon]) with
    | nil => rfl
    | cons token rest =>
        have onwardMember : token ∈ dropTrivia (body ++ [semicolon]) := by
          rw [onward]
          exact List.mem_cons_self
        have inTokens := (List.dropWhile_suffix _).mem onwardMember
        simp only [plain token inTokens, Bool.false_eq_true, if_false]
  have trailing : Text.trim (render (body ++ [semicolon])) =
      Text.trimStart (render body) ++ [';'] := by
    have visible : ∀ c ∈ [';'].head?, Text.isBlank c = false := by
      intro c first
      obtain rfl := Option.some.inj first
      rfl
    rw [render_append, show render [semicolon] = [';'] from rfl, Text.trim,
      Text.trimStart_append visible, Text.trimEnd_of_last fun c last => ?_]
    rw [List.getLast?_concat] at last
    obtain rfl := Option.some.inj last
    rfl
  have rendered : Header.render ⟨keyword, condition, body ++ [semicolon]⟩ =
      (text ++ ' ' :: Text.trimStart (render body)) ++ [';'] := by
    rw [Header.render, noBrace, trailing, textEq, if_neg (by simp)]
    simp
  rw [convertHeader, header]
  simp only [rendered]
  rw [render_filter_tokenize_semicolon (free.spaced tail.free.trimStart), trim_tail tight, tail.text]

/-- The first token of a plain tail is no word of a header and no brace. -/
theorem IsTail.first {context : Context} {code body : List Token} (tail : IsTail context code body)
    (plain : IsPlain context code) :
    ∀ token ∈ (dropTrivia (body ++ [semicolon])).head?,
      isHeaderWord token = false ∧ token.isPunct "\x7d" = false := by
  intro token first
  have start := tail.start plain
  rw [dropTrivia_append] at first
  split at first
  · obtain rfl : semicolon = token := Option.some.inj first
    exact ⟨rfl, rfl⟩
  · cases left : dropTrivia body with
    | nil => simp_all
    | cons next rest =>
        rw [left] at first start
        obtain rfl : next = token := Option.some.inj first
        have onward : next ∈ dropTrivia body := by
          rw [left]
          exact List.mem_cons_self
        have unmarked := tail.unmarked next ((List.dropWhile_suffix _).mem onward)
        rw [Token.isBlockMark, Bool.or_eq_false_iff] at unmarked
        exact ⟨start, unmarked.2⟩

theorem isPlain_nil {context : Context} (names : context.HasScriptNames) : IsPlain context [] := by
  rw [IsPlain, convertCalls_of_isFrame names (by simp)]
  rfl

theorem conditionText_nil {context : Context} (names : context.HasScriptNames) :
    conditionText context [] = [] := by
  rw [conditionText, tokenize, convertCalls_of_isFrame names (by simp)]
  rfl

section

variable {context : Context} {tail trailing : List Token}

/-- A condition's header with a tail behind it on its line. -/
theorem convertLine_guard_tail (names : context.HasScriptNames)
    {closer key gap lead code trail after : List Token} (isCloser : IsCloser closer)
    {keyword : String} (isKey : IsKeyword keyword key) (isGap : IsGap gap) (isLead : IsGap lead)
    (isCode : IsFragment code) (balanced : IsBalanced code) (isTrail : IsGap trail)
    (isAfter : IsGap after) (isTail : IsFragment tail) (tailBalanced : IsBalanced tail)
    (isTrailing : IsGap trailing) {line : Text}
    (cutAt : tokenize line = closer ++ key ++ (gap ++ ⟨.punct, "(".toList⟩ ::
      (lead ++ code ++ trail ++ ⟨.punct, ")".toList⟩ ::
        (after ++ (tail ++ (trailing ++ [semicolon])))))) :
    convertLine context line =
      keyword.toList ++ ' ' :: conditionText context (render code) ++ [':'] ++
        tailText (conditionText context (render tail)) := by
  have front := isFrame_guard isCloser isKey isGap isLead
  have middle : ∀ token ∈ trail ++ (⟨.punct, ")".toList⟩ : Token) :: after,
      isFrame token = true := by
    intro token member
    rcases List.mem_append.mp member with inTrail | inRest
    · exact isTrail.isFrame token inTrail
    · rcases List.mem_cons.mp inRest with rfl | inAfter
      · rfl
      · exact isAfter.isFrame token inAfter
  have regroup : closer ++ key ++ (gap ++ (⟨.punct, "(".toList⟩ : Token) ::
      (lead ++ code ++ trail ++ (⟨.punct, ")".toList⟩ : Token) ::
        (after ++ (tail ++ (trailing ++ [semicolon]))))) =
      (closer ++ key ++ gap ++ (⟨.punct, "(".toList⟩ : Token) :: lead) ++ code ++
        (trail ++ (⟨.punct, ")".toList⟩ : Token) ::
          (after ++ (tail ++ (trailing ++ [semicolon])))) := by
    simp
  have noComment : ∀ token ∈ tokenize line, token.kind ≠ .comment := by
    have inBack := noComment_between middle isTail (noComment_trailing isTrailing)
    rw [cutAt, regroup]
    refine noComment_between front isCode fun token member => inBack token ?_
    simpa using member
  obtain ⟨last, header⟩ := header?_guard names isCloser isKey isGap isLead isCode balanced isTrail
    (after ++ (convertCalls context tail ++ (trailing ++ [semicolon])))
  obtain ⟨body, tailOf, words⟩ := exists_isTail names isTail tailBalanced isTrailing
    (after.getLast?.or last)
  rw [normalizeWords_frame_append isAfter.isFrame, words, ← List.append_assoc after body] at header
  have free := isMarkFree_header isKey (isMarkFree_conditionText names isCode balanced)
  have trimmed := trim_header isKey (conditionText context (render code))
  have tight := Text.isTight_trim (trimmed ▸ List.append_ne_nil_of_right_ne_nil _ (List.cons_ne_nil _ _))
  rw [trimmed] at tight
  rw [convertLine, convertTokens_eq context noComment, cutAt, regroup,
    (convertCalls_isLocal names).beside isCode balanced isTail tailBalanced front
      (fun token member => ⟨isTrail.isTrivia token member, isTrail.isFrame token member⟩)
      isAfter.isFrame (isFrame_trailing isTrailing) (closes_trailing isTrailing)]
  exact trim_convertHeader (tailOf.gap_append isAfter) keyword.toList
    (some (conditionText context (render code))) header rfl free tight

/-- An `else` with a tail behind it on its line. -/
theorem convertLine_else_tail (names : context.HasScriptNames) {closer after : List Token}
    (isCloser : IsCloser closer) (isAfter : IsGap after) (isTail : IsFragment tail)
    (balanced : IsBalanced tail) (plain : IsPlain context tail) (isTrailing : IsGap trailing)
    {line : Text} (cutAt : tokenize line = closer ++ elseWord ::
      (after ++ (tail ++ (trailing ++ [semicolon])))) :
    convertLine context line =
      "else:".toList ++ tailText (conditionText context (render tail)) := by
  have front : ∀ token ∈ closer ++ elseWord :: after, isFrame token = true := by
    intro token member
    rcases List.mem_append.mp member with inCloser | inRest
    · exact isCloser.isFrame token inCloser
    · rcases List.mem_cons.mp inRest with rfl | inAfter
      · rfl
      · exact isAfter.isFrame token inAfter
  have regroup : closer ++ elseWord :: (after ++ (tail ++ (trailing ++ [semicolon]))) =
      (closer ++ elseWord :: after) ++ tail ++ (trailing ++ [semicolon]) := by
    simp
  have noComment : ∀ token ∈ tokenize line, token.kind ≠ .comment := by
    rw [cutAt, regroup]
    exact noComment_between front isTail (noComment_trailing isTrailing)
  obtain ⟨body, tailOf, words⟩ := exists_isTail names isTail balanced isTrailing
    ((closer ++ elseWord :: after).getLast?.or none)
  have header : header? (normalizeWords none ((closer ++ elseWord :: after) ++
      (convertCalls context tail ++ (trailing ++ [semicolon])))) =
        some ⟨"else".toList, none, after ++ body ++ [semicolon]⟩ := by
    have first := (tailOf.gap_append isAfter).first plain
    have next : headerAt? (elseWord :: (after ++ body ++ [semicolon])) =
        some ⟨"else".toList, none, after ++ body ++ [semicolon]⟩ := by
      cases onward : dropTrivia (after ++ body ++ [semicolon]) with
      | nil =>
          simp only [headerAt?, onward]
          rfl
      | cons token rest =>
          have noIf : token.isIdent "if" = false := by
            have noWord := (first token (by rw [onward]; rfl)).1
            rw [isHeaderWord, Bool.or_eq_false_iff, Bool.or_eq_false_iff] at noWord
            exact noWord.1.1
          simp only [headerAt?, onward, noIf]
          rfl
    have shape : closer ++ elseWord :: after ++ (body ++ [semicolon]) =
        closer ++ elseWord :: (after ++ body ++ [semicolon]) := by
      simp
    rw [normalizeWords_frame_append front, words, ← next, shape]
    exact @header?_closer_append _ isCloser "else" _
  rw [convertLine, convertTokens_eq context noComment, cutAt, regroup,
    (convertCalls_isLocal names).inside isTail balanced front (isFrame_trailing isTrailing)
      (closes_trailing isTrailing),
    List.append_assoc]
  exact trim_convertHeader (tailOf.gap_append isAfter) "else".toList none header rfl ⟨false, rfl⟩
    (@Text.isTight_enclosed 'e' ':' rfl rfl "lse".toList)

end

/-- A statement that is no header becomes the text of its code. -/
theorem Simple.line_eq {context : Context} (names : context.HasScriptNames) (code : Simple context)
    (plain : IsPlain context (tokenize code.text)) :
    code.line = conditionText context code.text := by
  have isCode := code.toCode.isFragment
  have isTrailing := code.trailing.isGap
  have cutAt := code.tokenize_source
  have noComment : ∀ token ∈ tokenize code.source, token.kind ≠ .comment := by
    rw [cutAt]
    exact @noComment_between [] _ _ (by simp) isCode (noComment_trailing isTrailing)
  obtain ⟨body, tailOf, words⟩ := exists_isTail names isCode code.balanced isTrailing none
  have inside := @IsLocal.inside _ (convertCalls_isLocal names) [] _ _ isCode code.balanced (by simp)
    (isFrame_trailing isTrailing) (closes_trailing isTrailing)
  have header : header? (body ++ [semicolon]) = none := by
    have first := tailOf.first plain
    rw [header?]
    cases onward : dropTrivia (body ++ [semicolon]) with
    | nil => rfl
    | cons token rest =>
        obtain ⟨noWord, noBrace⟩ := first token (by rw [onward]; rfl)
        rw [isHeaderWord, Bool.or_eq_false_iff, Bool.or_eq_false_iff] at noWord
        simp only [noBrace, headerAt?, noWord.1.1, noWord.1.2, noWord.2, Bool.false_eq_true, if_false]
  have kept : (body ++ [semicolon]).filter (!isPunctuationDropped ·) = body := by
    rw [List.filter_append, show [semicolon].filter (!isPunctuationDropped ·) = [] from rfl,
      List.append_nil, List.filter_eq_self]
    intro token member
    rw [show isPunctuationDropped token = token.isBlockMark from rfl, tailOf.unmarked token member]
    rfl
  rw [List.nil_append, List.nil_append] at inside
  rw [Simple.line, convertLine, convertTokens_eq context noComment, cutAt, Simple.tokens, inside, words,
    convertHeader, header]
  simp only [kept]
  rw [tailOf.text, render_tokenize]

end Breadboard.Script
