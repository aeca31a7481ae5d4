import Mathlib
import Breadboard.Sketch.Lexer

set_option autoImplicit false

namespace Breadboard.Sketch

/-- Whether the text after an opening quote ends with the quote that closes the literal. -/
def closesLiteral (quote : Char) : Text → Bool
  | [] => false
  | '\\' :: _ :: rest => closesLiteral quote rest
  | c :: rest => if c == quote then rest.isEmpty else c != '\n' && closesLiteral quote rest

def isQuote (c : Char) : Bool :=
  c == '\x22' || c == '\''

/-- Whether a token that is no pair of characters can be made of the character alone. -/
def isMark (c : Char) : Bool :=
  !isSpaceChar c && !isQuote c && !isWordStart c && !c.isDigit

/-- The tokens that the lexer can cut, but for comments and open literals. -/
inductive IsLexeme : Token → Prop where
  | space {c : Char} {rest : Text} (start : isSpaceChar c = true)
      (run : rest.all isSpaceChar = true) : IsLexeme ⟨.space, c :: rest⟩
  | word {c : Char} {rest : Text} (start : isWordStart c = true)
      (run : rest.all isWordChar = true) : IsLexeme ⟨.ident, c :: rest⟩
  | number {c : Char} {rest : Text}
      (start : c.isDigit = true ∨ c = '.' ∧ rest.head?.any Char.isDigit = true)
      (run : rest.all isNumberChar = true) : IsLexeme ⟨.number, c :: rest⟩
  | literal {quote : Char} {rest : Text} (start : isQuote quote = true)
      (closed : closesLiteral quote rest = true) : IsLexeme ⟨.literal, quote :: rest⟩
  | mark {c : Char} (single : isMark c = true) : IsLexeme ⟨.punct, [c]⟩
  | pair {first second : Char} (operator : isOperatorPair first second = true) :
      IsLexeme ⟨.punct, [first, second]⟩

/-- Whether the token ends before the character. -/
def Token.endsBefore (token : Token) (next : Char) : Bool :=
  match token.kind with
  | .space => !isSpaceChar next
  | .ident => !isWordChar next
  | .number => !isNumberChar next
  | .literal => true
  | .comment => false
  | .punct =>
    match token.text with
    | [c] => !isOperatorPair c next && !(c == '/' && (next == '/' || next == '*')) &&
        !(c == '.' && next.isDigit)
    | _ => true

/-- Whether a literal's text ends with its closing quote. -/
def Token.isClosedLiteral (token : Token) : Bool :=
  match token.text with
  | [] => false
  | quote :: rest => closesLiteral quote rest

/-- The first token ends where the second starts. -/
def Token.Meets (first second : Token) : Prop :=
  ∀ next ∈ second.text.head?, first.endsBefore next = true

/-- The tokens are whole lexemes, and each one ends where the next starts. -/
structure IsCut (tokens : List Token) : Prop where
  whole : ∀ token ∈ tokens, IsLexeme token
  chain : tokens.IsChain Token.Meets

theorem isCut_nil : IsCut [] :=
  ⟨by simp, .nil⟩

theorem runLength_append_of_all {p : Char → Bool} {run : Text} (all : run.all p = true)
    (rest : Text) : runLength p (run ++ rest) = run.length + runLength p rest := by
  unfold runLength
  rw [List.takeWhile_append_of_pos (by simpa using all), List.length_append]

theorem runLength_of_head {p : Char → Bool} {text : Text}
    (stop : ∀ next ∈ text.head?, p next = false) : runLength p text = 0 := by
  cases text with
  | nil => rfl
  | cons next rest => simp [runLength, stop next rfl]

theorem all_take_runLength (p : Char → Bool) (text : Text) :
    (text.take (runLength p text)).all p = true := by
  have prefixEq : text.take (runLength p text) = text.takeWhile p :=
    (List.prefix_iff_eq_take.mp (List.takeWhile_prefix p)).symm
  rw [prefixEq, List.all_takeWhile]

theorem head_drop_runLength (p : Char → Bool) (text : Text) :
    ∀ next ∈ (text.drop (runLength p text)).head?, p next = false := by
  intro next first
  have suffixEq : text.drop (runLength p text) = text.dropWhile p := by
    conv_lhs => rw [← List.takeWhile_append_dropWhile (p := p) (l := text)]
    rw [runLength, List.drop_left' (by rw [List.takeWhile_append_dropWhile])]
  rw [suffixEq] at first
  have := List.head?_dropWhile_not p text
  rw [Option.mem_def.mp first] at this
  simpa using this

theorem literalLength_cons {quote c : Char} (plain : c ≠ '\\') (rest : Text) :
    literalLength quote (c :: rest) =
      if c == quote || c == '\n' then 1 else literalLength quote rest + 1 := by
  rw [literalLength]
  · intro isSlash _
    exact plain isSlash
  · intro _ _ isSlash _
    exact plain isSlash

theorem literalLength_of_closes {quote : Char} (start : isQuote quote = true) {text : Text}
    (closed : closesLiteral quote text = true) (rest : Text) :
    literalLength quote (text ++ rest) = text.length := by
  fun_induction closesLiteral quote text with
  | case1 => cases closed
  | case2 _ tail ih =>
      rw [List.cons_append, List.cons_append, literalLength, ih closed]
      rfl
  | case3 c tail notPair closes =>
      have isLast : tail = [] := by simpa using closed
      have plain : c ≠ '\\' := by
        rintro rfl
        simp [isQuote, ← beq_iff_eq.mp closes] at start
      subst isLast
      rw [List.cons_append, literalLength_cons plain, closes]
      rfl
  | case4 c tail notPair goesOn ih =>
      rw [Bool.and_eq_true] at closed
      have plain : c ≠ '\\' := by
        rintro rfl
        cases tail with
        | nil => simp [closesLiteral] at closed
        | cons second tail => exact notPair second tail rfl rfl
      have notBreak : (c == '\n') = false := by simpa using closed.1
      rw [List.cons_append, literalLength_cons plain, notBreak, Bool.or_false, if_neg goesOn,
        ih closed.2, List.length_cons]

theorem ne_of_holds {p : Char → Bool} {c d : Char} (holds : p c = true)
    (fails : p d = false) : c ≠ d := by
  rintro rfl
  rw [fails] at holds
  cases holds

theorem isSpaceChar_eq_false {p : Char → Bool} {c : Char} (holds : p c = true)
    (fails : [' ', '\t', '\n', '\x0C', '\r'].all (fun d => !p d) = true) :
    isSpaceChar c = false := by
  simp only [List.all_cons, List.all_nil, Bool.and_true, Bool.and_eq_true, Bool.not_eq_true']
    at fails
  obtain ⟨blank, tab, line, page, back⟩ := fails
  simp [isSpaceChar, ne_of_holds holds blank, ne_of_holds holds tab, ne_of_holds holds line,
    ne_of_holds holds page, ne_of_holds holds back]

theorem isQuote_eq_false {p : Char → Bool} {c : Char} (holds : p c = true)
    (double : p '\x22' = false) (single : p '\'' = false) : isQuote c = false := by
  simp [isQuote, ne_of_holds holds double, ne_of_holds holds single]

theorem scan_space {c : Char} (start : isSpaceChar c = true) (rest : Text) :
    scan c rest = (.space, runLength isSpaceChar rest) := by
  simp [scan, start]

theorem scan_quote {c : Char} (start : isQuote c = true) (rest : Text) :
    scan c rest = (.literal, literalLength c rest) := by
  simp only [isQuote, Bool.or_eq_true, beq_iff_eq] at start
  rcases start with rfl | rfl <;> rfl

theorem scan_word {c : Char} (start : isWordStart c = true) (rest : Text) :
    scan c rest = (.ident, runLength isWordChar rest) := by
  have notSpace : isSpaceChar c = false := isSpaceChar_eq_false start rfl
  have notQuote : isQuote c = false := isQuote_eq_false start rfl rfl
  have notSlash : c ≠ '/' := ne_of_holds start rfl
  rw [isQuote] at notQuote
  simp [scan, notSpace, notSlash, notQuote, start]

theorem isWordStart_of_isDigit {c : Char} (digit : c.isDigit = true) : isWordStart c = false := by
  by_contra word
  simp only [isWordStart, Bool.not_eq_false, Bool.or_eq_true, beq_iff_eq] at word
  rcases word with alpha | rfl
  · simp only [Char.isDigit, Char.isAlpha, Char.isUpper, Char.isLower, Bool.or_eq_true,
      Bool.and_eq_true, decide_eq_true_eq, ge_iff_le, UInt32.le_iff_toNat_le] at digit alpha
    simp at digit alpha
    omega
  · cases digit

theorem scan_number {c : Char} {rest : Text}
    (start : c.isDigit = true ∨ c = '.' ∧ rest.head?.any Char.isDigit = true) :
    scan c rest = (.number, runLength isNumberChar rest) := by
  rcases start with digit | ⟨rfl, digit⟩
  · have notSpace : isSpaceChar c = false := isSpaceChar_eq_false digit rfl
    have notQuote : isQuote c = false := isQuote_eq_false digit rfl rfl
    have notSlash : c ≠ '/' := ne_of_holds digit rfl
    have notWord : isWordStart c = false := isWordStart_of_isDigit digit
    rw [isQuote] at notQuote
    simp [scan, notSpace, notSlash, notQuote, notWord, digit]
  · simp [scan, isSpaceChar, isWordStart, digit]

theorem scan_mark {c : Char} (single : isMark c = true) {rest : Text}
    (stop : ∀ next ∈ rest.head?, (⟨.punct, [c]⟩ : Token).endsBefore next = true) :
    scan c rest = (.punct, 0) := by
  simp only [isMark, isQuote, Bool.and_eq_true, Bool.not_eq_true'] at single
  obtain ⟨⟨⟨notSpace, notQuote⟩, notWord⟩, notDigit⟩ := single
  cases rest with
  | nil => simp [scan, notSpace, notQuote, notWord, notDigit]
  | cons next rest =>
      have apart := stop next rfl
      simp only [Token.endsBefore, Bool.and_eq_true, Bool.not_eq_true'] at apart
      obtain ⟨⟨noPair, noComment⟩, noNumber⟩ := apart
      have noLine : (c == '/' && next == '/') = false := by
        cases slash : c == '/' <;> simp_all
      have noBlock : (c == '/' && next == '*') = false := by
        cases slash : c == '/' <;> simp_all
      simp [scan, notSpace, notQuote, notWord, notDigit, noPair, noLine, noBlock, noNumber]

theorem scan_pair {first second : Char} (operator : isOperatorPair first second = true)
    (rest : Text) : scan first (second :: rest) = (.punct, 1) := by
  unfold isOperatorPair at operator
  split at operator <;> simp only [Bool.or_eq_true, beq_iff_eq, Bool.false_eq_true] at operator
  case h_8 =>
    rcases operator with (rfl | rfl) | rfl <;> rfl
  all_goals first
    | subst operator; rfl
    | rcases operator with rfl | rfl <;> rfl

/-- The lexer cuts a whole lexeme off a text that goes on with a character it ends before. -/
theorem scan_lexeme {token : Token} (whole : IsLexeme token) {rest : Text}
    (stop : ∀ next ∈ rest.head?, token.endsBefore next = true) :
    ∃ c more, token.text = c :: more ∧ scan c (more ++ rest) = (token.kind, more.length) := by
  cases whole with
  | @space c more start run =>
      refine ⟨c, more, rfl, ?_⟩
      rw [scan_space start, runLength_append_of_all run, runLength_of_head, Nat.add_zero]
      exact fun next first => by simpa [Token.endsBefore] using stop next first
  | @word c more start run =>
      refine ⟨c, more, rfl, ?_⟩
      rw [scan_word start, runLength_append_of_all run, runLength_of_head, Nat.add_zero]
      exact fun next first => by simpa [Token.endsBefore] using stop next first
  | @number c more start run =>
      have onward : c.isDigit = true ∨ c = '.' ∧ (more ++ rest).head?.any Char.isDigit = true := by
        rcases start with digit | ⟨dot, digit⟩
        · exact Or.inl digit
        · cases more with
          | nil => cases digit
          | cons _ _ => exact Or.inr ⟨dot, digit⟩
      refine ⟨c, more, rfl, ?_⟩
      rw [scan_number onward, runLength_append_of_all run, runLength_of_head, Nat.add_zero]
      exact fun next first => by simpa [Token.endsBefore] using stop next first
  | @literal quote more start closed =>
      refine ⟨quote, more, rfl, ?_⟩
      rw [scan_quote start, literalLength_of_closes start closed]
  | @mark c single => exact ⟨c, [], rfl, scan_mark single stop⟩
  | @pair first second operator => exact ⟨first, [second], rfl, scan_pair operator rest⟩

theorem IsLexeme.text_ne_nil {token : Token} (whole : IsLexeme token) : token.text ≠ [] := by
  cases whole <;> simp

theorem IsLexeme.kind_ne_comment {token : Token} (whole : IsLexeme token) : token.kind ≠ .comment := by
  cases whole <;> simp

theorem isClosedLiteral_of_isLexeme {token : Token} (whole : IsLexeme token)
    (literal : token.kind = .literal) : token.isClosedLiteral = true := by
  cases whole with
  | literal start closed => exact closed
  | _ => cases literal

/-- The text of the tokens is cut into these tokens, whatever follows where the last one ends. -/
theorem IsCut.tokenize_render_append {tokens : List Token} (cut : IsCut tokens) {text : Text}
    (ends : ∀ last ∈ tokens.getLast?, ∀ next ∈ text.head?, last.endsBefore next = true) :
    tokenize (render tokens ++ text) = tokens ++ tokenize text := by
  induction tokens with
  | nil => rw [render_nil, List.nil_append, List.nil_append]
  | cons token rest ih =>
      have restCut : IsCut rest :=
        ⟨fun other member => cut.whole other (List.mem_cons_of_mem _ member), cut.chain.tail⟩
      have restEnds : ∀ last ∈ rest.getLast?, ∀ next ∈ text.head?, last.endsBefore next = true := by
        intro last isLast
        cases rest with
        | nil => cases isLast
        | cons second others => exact ends last (by rwa [List.getLast?_cons_cons])
      have stop : ∀ next ∈ (render rest ++ text).head?, token.endsBefore next = true := by
        cases rest with
        | nil => exact ends token rfl
        | cons second others =>
            have meets : token.Meets second := cut.chain.rel
            have notEmpty := (restCut.whole second List.mem_cons_self).text_ne_nil
            intro next first
            rw [render_cons, List.append_assoc, List.head?_append_of_ne_nil _ notEmpty] at first
            exact meets next first
      obtain ⟨c, more, textEq, scanEq⟩ := scan_lexeme (cut.whole token List.mem_cons_self) stop
      rw [render_cons, List.append_assoc, textEq, List.cons_append, tokenize_cons, scanEq]
      simp only [List.take_left, List.drop_left]
      rw [ih restCut restEnds, ← textEq, List.cons_append]

/-- The text of the tokens is cut into these tokens. -/
theorem IsCut.tokenize_render {tokens : List Token} (cut : IsCut tokens) :
    tokenize (render tokens) = tokens := by
  have alone := @IsCut.tokenize_render_append tokens cut [] (by simp)
  rwa [List.append_nil, tokenize_nil, List.append_nil] at alone

/-- The ways to cut a token. -/
theorem scan_cases (c : Char) (rest : Text) :
    (isSpaceChar c = true ∧ scan c rest = (.space, runLength isSpaceChar rest)) ∨
      (isQuote c = true ∧ scan c rest = (.literal, literalLength c rest)) ∨
      (isWordStart c = true ∧ scan c rest = (.ident, runLength isWordChar rest)) ∨
      ((c.isDigit = true ∨ c = '.' ∧ rest.head?.any Char.isDigit = true) ∧
        scan c rest = (.number, runLength isNumberChar rest)) ∨
      (c = '/' ∧ (scan c rest).1 = .comment ∧
        ∃ next more, rest = next :: more ∧ (next = '/' ∨ next = '*')) ∨
      (∃ next more, rest = next :: more ∧ isOperatorPair c next = true ∧
        scan c rest = (.punct, 1)) ∨
      (isMark c = true ∧ (∀ next ∈ rest.head?, Token.endsBefore ⟨.punct, [c]⟩ next = true) ∧
        scan c rest = (.punct, 0)) := by
  by_cases space : isSpaceChar c = true
  · exact Or.inl ⟨space, scan_space space rest⟩
  refine Or.inr ?_
  by_cases quote : isQuote c = true
  · exact Or.inl ⟨quote, scan_quote quote rest⟩
  refine Or.inr ?_
  by_cases word : isWordStart c = true
  · exact Or.inl ⟨word, scan_word word rest⟩
  refine Or.inr ?_
  by_cases number : c.isDigit = true ∨ c = '.' ∧ rest.head?.any Char.isDigit = true
  · exact Or.inl ⟨number, scan_number number⟩
  refine Or.inr ?_
  have noDigit : c.isDigit = false := by simpa using (not_or.mp number).1
  have single : isMark c = true := by simp_all [isMark]
  cases rest with
  | nil => exact Or.inr (Or.inr ⟨single, by simp, scan_mark single (by simp)⟩)
  | cons next more =>
      by_cases comment : c = '/' ∧ (next = '/' ∨ next = '*')
      · obtain ⟨rfl, second⟩ := comment
        refine Or.inl ⟨rfl, ?_, next, more, rfl, second⟩
        rcases second with rfl | rfl <;> rfl
      refine Or.inr ?_
      by_cases operator : isOperatorPair c next = true
      · exact Or.inl ⟨next, more, rfl, operator, scan_pair operator more⟩
      refine Or.inr ?_
      have stop : ∀ other ∈ (next :: more).head?, Token.endsBefore ⟨.punct, [c]⟩ other = true := by
        intro other first
        obtain rfl : next = other := by simpa using first
        have noNumber : ¬(c = '.' ∧ next.isDigit = true) := (not_or.mp number).2
        simp only [Token.endsBefore, Bool.and_eq_true, Bool.not_eq_true', Bool.and_eq_false_iff,
          beq_eq_false_iff_ne, Bool.or_eq_false_iff]
        simp only [Bool.not_eq_true] at operator
        refine ⟨⟨operator, ?_⟩, ?_⟩
        · by_cases slash : c = '/'
          · exact Or.inr (not_or.mp fun second => comment ⟨slash, second⟩)
          · exact Or.inl slash
        · by_cases dot : c = '.'
          · exact Or.inr (by simpa [dot] using noNumber)
          · exact Or.inl dot
      exact ⟨single, stop, scan_mark single stop⟩

/-- Each token of a text is cut off a part of it. -/
theorem exists_scan_of_mem_tokenize {text : Text} {token : Token} (member : token ∈ tokenize text) :
    ∃ c rest, token = ⟨(scan c rest).1, c :: rest.take (scan c rest).2⟩ := by
  fun_induction tokenize text with
  | case1 => cases member
  | case2 c rest kind size scanEq ih =>
      rcases List.mem_cons.mp member with rfl | inRest
      · exact ⟨c, rest, by rw [scanEq]⟩
      · exact ih inRest

theorem isSpaceChar_of_scan {c : Char} {rest : Text} (space : (scan c rest).1 = .space) :
    isSpaceChar c = true := by
  rcases scan_cases c rest with ⟨start, -⟩ | ⟨-, eq⟩ | ⟨-, eq⟩ | ⟨-, eq⟩ | ⟨-, eq, -⟩ |
    ⟨_, _, _, _, eq⟩ | ⟨-, -, eq⟩
  case inl => exact start
  all_goals
    rw [eq] at space
    cases space

theorem isQuote_of_scan {c : Char} {rest : Text} (literal : (scan c rest).1 = .literal) :
    isQuote c = true := by
  rcases scan_cases c rest with ⟨-, eq⟩ | ⟨quote, -⟩ | ⟨-, eq⟩ | ⟨-, eq⟩ | ⟨-, eq, -⟩ |
    ⟨_, _, _, _, eq⟩ | ⟨-, -, eq⟩
  case inr.inl => exact quote
  all_goals
    rw [eq] at literal
    cases literal

theorem comment_of_scan {c : Char} {rest : Text} (comment : (scan c rest).1 = .comment) :
    c = '/' ∧ ∃ next more, rest = next :: more ∧ (next = '/' ∨ next = '*') := by
  rcases scan_cases c rest with ⟨-, eq⟩ | ⟨-, eq⟩ | ⟨-, eq⟩ | ⟨-, eq⟩ | ⟨slash, -, second⟩ |
    ⟨_, _, _, _, eq⟩ | ⟨-, -, eq⟩
  case inr.inr.inr.inr.inl => exact ⟨slash, second⟩
  all_goals
    rw [eq] at comment
    cases comment

/-- A token that the lexer cuts off a text, but for a comment and an open literal, is a whole lexeme and
ends before the text that is left. -/
theorem isLexeme_scan {c : Char} {rest : Text} (noComment : (scan c rest).1 ≠ .comment)
    (closed : (scan c rest).1 = .literal →
      closesLiteral c (rest.take (scan c rest).2) = true) :
    IsLexeme ⟨(scan c rest).1, c :: rest.take (scan c rest).2⟩ ∧
      ∀ next ∈ (rest.drop (scan c rest).2).head?,
        Token.endsBefore ⟨(scan c rest).1, c :: rest.take (scan c rest).2⟩ next = true := by
  rcases scan_cases c rest with ⟨space, eq⟩ | ⟨quote, eq⟩ | ⟨word, eq⟩ | ⟨number, eq⟩ |
    ⟨-, comment, -⟩ | ⟨next, more, rfl, operator, eq⟩ | ⟨single, stop, eq⟩
  · rw [eq]
    refine ⟨.space space (all_take_runLength _ _), fun next first => ?_⟩
    simpa [Token.endsBefore] using head_drop_runLength _ _ next first
  · rw [eq] at closed ⊢
    exact ⟨.literal quote (closed rfl), fun _ _ => rfl⟩
  · rw [eq]
    refine ⟨.word word (all_take_runLength _ _), fun next first => ?_⟩
    simpa [Token.endsBefore] using head_drop_runLength _ _ next first
  · rw [eq]
    refine ⟨.number ?_ (all_take_runLength _ _), fun next first => ?_⟩
    · rcases number with digit | ⟨dot, digit⟩
      · exact Or.inl digit
      · refine Or.inr ⟨dot, ?_⟩
        cases rest with
        | nil => cases digit
        | cons next more =>
            have isNumber : isNumberChar next = true := by
              have nextDigit : next.isDigit = true := digit
              simp [isNumberChar, Char.isAlphanum, nextDigit]
            simpa [runLength, List.takeWhile_cons, isNumber] using digit
    · simpa [Token.endsBefore] using head_drop_runLength _ _ next first
  · exact absurd comment noComment
  · rw [eq]
    exact ⟨.pair operator, fun _ _ => rfl⟩
  · rw [eq]
    exact ⟨.mark single, stop⟩

/-- The lexer cuts a text without comments and open literals at the ends of whole lexemes. -/
theorem isCut_tokenize {text : Text} (noComment : ∀ token ∈ tokenize text, token.kind ≠ .comment)
    (closed : ∀ token ∈ tokenize text, token.kind = .literal → token.isClosedLiteral = true) :
    IsCut (tokenize text) := by
  fun_induction tokenize text with
  | case1 => exact isCut_nil
  | case2 c rest kind size scanEq ih =>
      have whole : IsLexeme ⟨kind, c :: rest.take size⟩ ∧
          ∀ next ∈ (rest.drop size).head?,
            Token.endsBefore ⟨kind, c :: rest.take size⟩ next = true := by
        have := @isLexeme_scan c rest
        rw [scanEq] at this
        exact this (noComment _ List.mem_cons_self) (closed _ List.mem_cons_self)
      have restCut := ih (fun token member => noComment token (List.mem_cons_of_mem _ member))
        (fun token member => closed token (List.mem_cons_of_mem _ member))
      refine ⟨?_, restCut.chain.cons ?_⟩
      · intro token member
        rcases List.mem_cons.mp member with rfl | inRest
        · exact whole.1
        · exact restCut.whole token inRest
      · intro second first next firstChar
        apply whole.2 next
        cases left : rest.drop size with
        | nil => simp [left] at first
        | cons d more =>
            rw [left, tokenize_cons, List.head?_cons, Option.mem_some_iff] at first
            simpa [← first] using firstChar

theorem isCut_of_tokenize_eq {text : Text} {tokens : List Token} (cutAt : tokenize text = tokens)
    (plain : tokens.all (fun token => token.kind != .comment &&
      (token.kind != .literal || token.isClosedLiteral)) = true) : IsCut tokens := by
  subst cutAt
  rw [List.all_eq_true] at plain
  refine isCut_tokenize (fun token member comment => ?_) (fun token member literal => ?_)
  · simpa [comment] using plain token member
  · simpa [literal] using plain token member

/-- The marks that take part in no operator of two characters. -/
def isDelimiter (c : Char) : Bool :=
  c == '(' || c == ')' || c == '[' || c == ']' || c == '\x7b' || c == '\x7d' || c == ',' || c == ';'

theorem isOperatorPair_eq_false {second : Char}
    (outside : ['=', '<', '>', '&', '|', '+', '-', ':'].contains second = false) (first : Char) :
    isOperatorPair first second = false := by
  by_contra pair
  rw [Bool.not_eq_false] at pair
  unfold isOperatorPair at pair
  split at pair <;> simp_all

theorem endsBefore_delimiter {token : Token} (whole : IsLexeme token) {next : Char}
    (delimiter : isDelimiter next = true) : token.endsBefore next = true := by
  simp only [isDelimiter, Bool.or_eq_true, beq_iff_eq] at delimiter
  have plain : isSpaceChar next = false ∧ isWordChar next = false ∧ isNumberChar next = false ∧
      next.isDigit = false ∧ next ≠ '/' ∧ next ≠ '*' ∧
      ['=', '<', '>', '&', '|', '+', '-', ':'].contains next = false := by
    rcases delimiter with ((((((rfl | rfl) | rfl) | rfl) | rfl) | rfl) | rfl) | rfl <;> decide
  obtain ⟨notSpace, notWord, notNumber, notDigit, notSlash, notStar, outside⟩ := plain
  cases whole with
  | space => simp [Token.endsBefore, notSpace]
  | word => simp [Token.endsBefore, notWord]
  | number => simp [Token.endsBefore, notNumber]
  | literal => rfl
  | @mark c single =>
      simp [Token.endsBefore, isOperatorPair_eq_false outside, notDigit, notSlash, notStar]
  | pair => rfl

theorem delimiter_endsBefore {c : Char} (delimiter : isDelimiter c = true) (next : Char) :
    Token.endsBefore ⟨.punct, [c]⟩ next = true := by
  simp only [isDelimiter, Bool.or_eq_true, beq_iff_eq] at delimiter
  rcases delimiter with ((((((rfl | rfl) | rfl) | rfl) | rfl) | rfl) | rfl) | rfl <;> rfl

/-- The characters that a word or the call of a method starts with. -/
def isCallStart (c : Char) : Bool :=
  isWordStart c || c == '.'

/-- A token that ends before a word ends before any other word, and before a dot as well. -/
theorem endsBefore_callStart {token : Token} (whole : IsLexeme token) {next other : Char}
    (ends : token.endsBefore next = true) (nextWord : isWordStart next = true)
    (otherStart : isCallStart other = true) : token.endsBefore other = true := by
  have isWord : isWordChar next = true := by
    simp only [isWordStart, isWordChar, Char.isAlphanum, Bool.or_eq_true] at nextWord ⊢
    rcases nextWord with alpha | line
    · exact Or.inl (Or.inl alpha)
    · exact Or.inr line
  cases whole with
  | space => simp [Token.endsBefore, isSpaceChar_eq_false otherStart rfl]
  | word => simp [Token.endsBefore, isWord] at ends
  | number =>
      have isNumber : isNumberChar next = true := by
        simp only [isNumberChar, isWordChar, Bool.or_eq_true] at isWord ⊢
        rcases isWord with alphanumeric | line
        · exact Or.inl (Or.inl alphanumeric)
        · exact Or.inr line
      simp [Token.endsBefore, isNumber] at ends
  | literal => rfl
  | @mark c single =>
      have outside : ['=', '<', '>', '&', '|', '+', '-', ':'].contains other = false := by
        by_contra operator
        simp only [List.contains_eq_mem, Bool.not_eq_false, decide_eq_true_eq, List.mem_cons,
          List.not_mem_nil, or_false] at operator
        rcases operator with rfl | rfl | rfl | rfl | rfl | rfl | rfl | rfl <;> cases otherStart
      have notDigit : other.isDigit = false := by
        by_contra digit
        rw [Bool.not_eq_false] at digit
        simp only [isCallStart, Bool.or_eq_true, beq_iff_eq] at otherStart
        rcases otherStart with word | rfl
        · rw [isWordStart_of_isDigit digit] at word
          cases word
        · cases digit
      have notSlash : other ≠ '/' := ne_of_holds otherStart rfl
      have notStar : other ≠ '*' := ne_of_holds otherStart rfl
      simp [Token.endsBefore, isOperatorPair_eq_false outside, notDigit, notSlash, notStar]
  | pair => rfl

theorem IsLexeme.exists_wordStart {token : Token} (whole : IsLexeme token)
    (ident : token.kind = .ident) : ∃ c rest, token.text = c :: rest ∧ isWordStart c = true := by
  cases whole with
  | @word c rest start run => exact ⟨c, rest, rfl, start⟩
  | _ => cases ident

/-- A token that ends before a word also ends before what is put in the place of the word. -/
theorem Token.Meets.of_callStart {token word next : Token} {c : Char} {rest : Text}
    (meets : token.Meets word) (whole : IsLexeme token) (wordWhole : IsLexeme word)
    (ident : word.kind = .ident) (textEq : next.text = c :: rest) (start : isCallStart c = true) :
    token.Meets next := by
  obtain ⟨d, more, wordText, wordStart⟩ := IsLexeme.exists_wordStart wordWhole ident
  intro other first
  obtain rfl : c = other := by simpa [textEq] using first
  exact endsBefore_callStart whole (meets d (by rw [wordText]; rfl)) wordStart start

end Breadboard.Sketch
