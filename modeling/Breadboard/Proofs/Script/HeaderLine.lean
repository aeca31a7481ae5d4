import Breadboard.Proofs.Script.CallText
import Breadboard.Proofs.Sketch.MarkFree
import Breadboard.Proofs.Text.Trim

set_option autoImplicit false

namespace Breadboard.Script

open Sketch hiding stripComments

/-- A condition as the script writes it. -/
def conditionText (context : Context) (condition : Text) : Text :=
  Text.trim (render (normalizeWords none (convertCalls context (tokenize condition))))

theorem normalizeWords_cons_plain {token : Token} (noLevel : levelWord? token = none)
    (noOperator : operatorWord? token = none) (previous : Option Token) (rest : List Token) :
    normalizeWords previous (token :: rest) = token :: normalizeWords (some token) rest := by
  simp only [normalizeWords, noLevel, noOperator]

/-- The blank behind an operator that its right neighbour touches. -/
def operatorBlank (rest : List Token) : List Token :=
  if rest.head?.any (!·.isTrivia) then [blankToken] else []

theorem normalizeWords_cons_operator {token : Token} {word : Text}
    (noLevel : levelWord? token = none) (operator : operatorWord? token = some word)
    (previous : Option Token) (rest : List Token) :
    normalizeWords previous (token :: rest) =
      (if previous.any touches then [blankToken] else []) ++ ⟨.ident, word⟩ :: operatorBlank rest ++
        normalizeWords (some ((operatorBlank rest).getLastD ⟨.ident, word⟩)) rest := by
  simp only [normalizeWords, noLevel, operator]
  rfl

theorem levelWord?_of_isFrame {token : Token} (frame : isFrame token = true) :
    levelWord? token = none := by
  rw [← Option.not_isSome_iff_eq_none, Bool.not_eq_true]
  exact eq_false_of_isFrame (p := fun other => (levelWord? other).isSome) (fun _ => rfl) (by decide)
    frame

theorem operatorWord?_of_isFrame {token : Token} (frame : isFrame token = true) :
    operatorWord? token = none := by
  rw [← Option.not_isSome_iff_eq_none, Bool.not_eq_true]
  exact eq_false_of_isFrame (p := fun other => (operatorWord? other).isSome) (fun _ => rfl)
    (by decide) frame

/-- Whether an operator after the token is set off by a blank is all that the words take from it. -/
theorem normalizeWords_congr {previous other : Option Token}
    (same : previous.any touches = other.any touches) (tokens : List Token) :
    normalizeWords previous tokens = normalizeWords other tokens := by
  cases tokens with
  | nil => rfl
  | cons token rest => simp only [normalizeWords, same]

theorem normalizeWords_frame_append {front : List Token}
    (frames : ∀ token ∈ front, isFrame token = true) (previous : Option Token)
    (tokens : List Token) :
    normalizeWords previous (front ++ tokens) =
      front ++ normalizeWords (front.getLast?.or previous) tokens := by
  induction front generalizing previous with
  | nil => rfl
  | cons token rest ih =>
      have frame := frames token List.mem_cons_self
      rw [List.cons_append, normalizeWords_cons_plain (levelWord?_of_isFrame frame)
          (operatorWord?_of_isFrame frame),
        ih (fun other member => frames other (List.mem_cons_of_mem _ member)), List.cons_append]
      cases rest with
      | nil => rfl
      | cons next more => simp [List.getLast?_cons]

/-- The words inside tokens do not depend on what comes after them, but for a blank at the end. -/
theorem exists_normalizeWords_append (previous : Option Token) (tokens back : List Token) :
    ∃ blanks last, (blanks = [] ∨ blanks = [blankToken]) ∧
      normalizeWords previous (tokens ++ back) =
        normalizeWords previous tokens ++ blanks ++ normalizeWords last back := by
  induction tokens generalizing previous with
  | nil => exact ⟨[], previous, Or.inl rfl, by simp [normalizeWords]⟩
  | cons token rest ih =>
      rw [List.cons_append]
      cases level : levelWord? token with
      | some word =>
          obtain ⟨blanks, last, shape, eq⟩ := ih (some ⟨.ident, word⟩)
          refine ⟨blanks, last, shape, ?_⟩
          simp only [normalizeWords, level, eq, List.cons_append]
      | none =>
          cases operator : operatorWord? token with
          | none =>
              obtain ⟨blanks, last, shape, eq⟩ := ih (some token)
              refine ⟨blanks, last, shape, ?_⟩
              rw [normalizeWords_cons_plain level operator, normalizeWords_cons_plain level operator,
                eq, List.cons_append, List.cons_append]
          | some word =>
              rw [normalizeWords_cons_operator level operator,
                normalizeWords_cons_operator level operator]
              cases rest with
              | nil =>
                  refine ⟨operatorBlank back, some ((operatorBlank back).getLastD ⟨.ident, word⟩),
                    ?_, ?_⟩
                  · unfold operatorBlank
                    split
                    · exact Or.inr rfl
                    · exact Or.inl rfl
                  · simp [normalizeWords, operatorBlank]
              | cons next more =>
                  have sameBlank : operatorBlank (next :: more ++ back) =
                      operatorBlank (next :: more) := rfl
                  obtain ⟨blanks, last, shape, eq⟩ :=
                    ih (some ((operatorBlank (next :: more)).getLastD ⟨.ident, word⟩))
                  refine ⟨blanks, last, shape, ?_⟩
                  rw [sameBlank, eq]
                  simp only [List.append_assoc]

theorem normalizeWords_of_isFrame {tokens : List Token}
    (frames : ∀ token ∈ tokens, isFrame token = true) (previous : Option Token) :
    normalizeWords previous tokens = tokens := by
  have same := normalizeWords_frame_append frames previous []
  rwa [List.append_nil, normalizeWords, List.append_nil] at same

theorem normalizeWords_append {back : List Token} (frames : ∀ token ∈ back, isFrame token = true)
    (previous : Option Token) (tokens : List Token) :
    ∃ blanks, (blanks = [] ∨ blanks = [blankToken]) ∧
      normalizeWords previous (tokens ++ back) = normalizeWords previous tokens ++ blanks ++ back := by
  obtain ⟨blanks, last, shape, eq⟩ := exists_normalizeWords_append previous tokens back
  rw [normalizeWords_of_isFrame frames] at eq
  exact ⟨blanks, shape, eq⟩

theorem levelWord?_eq_some {token : Token} {word : Text} (level : levelWord? token = some word) :
    token.kind = .ident ∧ word ≠ [] ∧ word.all isPlainChar = true := by
  unfold levelWord? at level
  split at level
  · rename_i ident
    rw [eq_of_isIdent ident, ← Option.some.inj level]
    decide
  · split at level
    · rename_i ident
      rw [eq_of_isIdent ident, ← Option.some.inj level]
      decide
    · split at level
      · rename_i ident
        rw [eq_of_isIdent ident, ← Option.some.inj level]
        decide
      · split at level
        · rename_i ident
          rw [eq_of_isIdent ident, ← Option.some.inj level]
          decide
        · cases level

theorem operatorWord?_eq_some {token : Token} {word : Text}
    (operator : operatorWord? token = some word) :
    (token.isPunct "(" = false ∧ token.isPunct ")" = false) ∧ word ≠ [] ∧
      word.all isPlainChar = true := by
  unfold operatorWord? at operator
  split at operator
  · rename_i mark
    rw [eq_of_isPunct mark, ← Option.some.inj operator]
    decide
  · split at operator
    · rename_i mark
      rw [eq_of_isPunct mark, ← Option.some.inj operator]
      decide
    · split at operator
      · rename_i mark
        rw [eq_of_isPunct mark, ← Option.some.inj operator]
        decide
      · cases operator

theorem blank_of_ite (holds : Bool) :
    ∀ token ∈ (if holds = true then [blankToken] else []), token = blankToken := by
  cases holds <;> simp

theorem all_isWordChar_levelWord {token : Token} {word : Text} (level : levelWord? token = some word) :
    word.all isWordChar = true := by
  unfold levelWord? at level
  repeat' split at level
  all_goals first
    | (rw [← Option.some.inj level]; decide)
    | cases level

theorem all_isWordChar_operatorWord {token : Token} {word : Text}
    (operator : operatorWord? token = some word) : word.all isWordChar = true := by
  unfold operatorWord? at operator
  repeat' split at operator
  all_goals first
    | (rw [← Option.some.inj operator]; decide)
    | cases operator

/-- The words are put out among the tokens that stay and single blanks. -/
theorem mem_normalizeWords {tokens : List Token} {previous : Option Token} {token : Token}
    (member : token ∈ normalizeWords previous tokens) :
    token ∈ tokens ∨ token = blankToken ∨ token.kind = .ident ∧ token.text.all isWordChar = true := by
  induction tokens generalizing previous with
  | nil => cases member
  | cons first rest ih =>
      have later {next : Option Token} (inRest : token ∈ normalizeWords next rest) :
          token ∈ first :: rest ∨ token = blankToken ∨
            token.kind = .ident ∧ token.text.all isWordChar = true :=
        (ih inRest).imp_left (List.mem_cons_of_mem first)
      cases level : levelWord? first with
      | some word =>
          simp only [normalizeWords, level, List.mem_cons] at member
          rcases member with rfl | inRest
          · exact Or.inr (Or.inr ⟨rfl, all_isWordChar_levelWord level⟩)
          · exact later inRest
      | none =>
          cases operator : operatorWord? first with
          | none =>
              rw [normalizeWords_cons_plain level operator, List.mem_cons] at member
              rcases member with rfl | inRest
              · exact Or.inl List.mem_cons_self
              · exact later inRest
          | some word =>
              rw [normalizeWords_cons_operator level operator, operatorBlank, List.mem_append,
                List.mem_append, List.mem_cons] at member
              rcases member with (before | rfl | behind) | inRest
              · exact Or.inr (Or.inl (blank_of_ite _ token before))
              · exact Or.inr (Or.inr ⟨rfl, all_isWordChar_operatorWord operator⟩)
              · exact Or.inr (Or.inl (blank_of_ite _ token behind))
              · exact later inRest

/-- No word is a parenthesis or replaces one. -/
theorem parenDepth?_normalizeWords (depth : Nat) (previous : Option Token) (tokens : List Token) :
    parenDepth? depth (normalizeWords previous tokens) = parenDepth? depth tokens := by
  induction tokens generalizing depth previous with
  | nil => rfl
  | cons token rest ih =>
      cases level : levelWord? token with
      | some word =>
          simp only [normalizeWords, level]
          rw [parenDepth?_cons_ident rfl, ih, parenDepth?_cons_ident (levelWord?_eq_some level).1]
      | none =>
          cases operator : operatorWord? token with
          | none =>
              rw [normalizeWords_cons_plain level operator, parenDepth?_cons, parenDepth?_cons]
              simp only [ih]
          | some word =>
              obtain ⟨⟨notOpen, notClose⟩, -⟩ := operatorWord?_eq_some operator
              have blankDepth : ∀ (blanks : List Token), (∀ token ∈ blanks, token = blankToken) →
                  parenDepth? depth blanks = some depth := fun blanks all =>
                parenDepth?_trivia (fun token member => by rw [all token member]; rfl) depth
              rw [normalizeWords_cons_operator level operator, parenDepth?_append,
                parenDepth?_append, blankDepth _ (blank_of_ite _), Option.bind_some,
                parenDepth?_cons_ident rfl, operatorBlank, blankDepth _ (blank_of_ite _),
                Option.bind_some, ih, parenDepth?_cons, notOpen, notClose]
              rfl

theorem readAll_blanks {blanks : List Token} (all : ∀ token ∈ blanks, token = blankToken)
    (afterSlash : Bool) :
    Mode.readAll (.code afterSlash) (render blanks) =
      some (.code (afterSlash && blanks.isEmpty)) := by
  cases blanks with
  | nil => simp [Mode.readAll]
  | cons token rest =>
      have plain : (render (token :: rest)).all isPlainChar = true := by
        rw [List.all_eq_true]
        intro c member
        obtain ⟨other, inBlanks, inText⟩ := List.mem_flatMap.mp member
        rw [all other inBlanks] at inText
        rw [List.mem_singleton.mp inText]
        rfl
      have notEmpty : render (token :: rest) ≠ [] := by
        rw [render_cons, all token List.mem_cons_self]
        exact List.cons_ne_nil _ _
      rw [readAll_plain notEmpty plain, List.isEmpty_cons, Bool.and_false]

/-- The words leave no mark of a block and no comment behind. -/
theorem readAll_normalizeWords {tokens : List Token} (code : IsFragment tokens)
    (previous : Option Token) {afterSlash : Bool}
    (apart : afterSlash = true → ∀ c ∈ (render tokens).head?, c ≠ '/' ∧ c ≠ '*') :
    ∃ slash, Mode.readAll (.code afterSlash) (render (normalizeWords previous tokens)) =
      some (.code slash) := by
  induction tokens generalizing previous afterSlash with
  | nil => exact ⟨afterSlash, rfl⟩
  | cons token rest ih =>
      cases level : levelWord? token with
      | some word =>
          obtain ⟨-, notEmpty, plain⟩ := levelWord?_eq_some level
          simp only [normalizeWords, level, render_cons]
          rw [readAll_append, readAll_plain notEmpty plain, Option.bind_some]
          exact ih code.tail _ (by simp)
      | none =>
          cases operator : operatorWord? token with
          | none =>
              have whole := code.cut.whole token List.mem_cons_self
              have first : (render (token :: rest)).head? = token.text.head? := by
                rw [render_cons, List.head?_append_of_ne_nil _ whole.text_ne_nil]
              obtain ⟨slash, readToken, isSlash⟩ :=
                readAll_lexeme whole (code.unmarked token List.mem_cons_self) (first ▸ apart)
              rw [normalizeWords_cons_plain level operator, render_cons, readAll_append, readToken,
                Option.bind_some]
              refine ih code.tail _ fun onSlash c atHead => ?_
              cases rest with
              | nil => cases atHead
              | cons next more =>
                  have nextWhole := code.tail.cut.whole next List.mem_cons_self
                  rw [render_cons, List.head?_append_of_ne_nil _ nextWhole.text_ne_nil] at atHead
                  have meets := code.cut.chain.rel c atHead
                  rw [isSlash onSlash] at meets
                  constructor <;> rintro rfl <;> cases meets
          | some word =>
              obtain ⟨-, notEmpty, plain⟩ := operatorWord?_eq_some operator
              rw [normalizeWords_cons_operator level operator, render_append, render_append,
                render_cons, readAll_append, readAll_append, readAll_blanks (blank_of_ite _),
                Option.bind_some, readAll_append, readAll_plain notEmpty plain, Option.bind_some,
                operatorBlank, readAll_blanks (blank_of_ite _), Option.bind_some, Bool.false_and]
              exact ih code.tail _ (by simp)

/-- The text of code that the rules have worked on can be read to its end. -/
theorem isMarkFree_conditionText {context : Context} (names : context.HasScriptNames)
    {code : List Token} (isCode : IsFragment code) (balanced : IsBalanced code) :
    IsMarkFree (conditionText context (render code)) := by
  have made := ((convertCalls_isLocal names).keeps isCode balanced).1
  rw [conditionText, isCode.cut.tokenize_render]
  exact IsMarkFree.trim (readAll_normalizeWords made none (by simp))

theorem render_filter_tokenize {text : Text} (free : IsMarkFree text) :
    render ((tokenize text).filter (!isPunctuationDropped ·)) = text := by
  obtain ⟨slash, free⟩ := free
  have kept : (tokenize text).filter (!isPunctuationDropped ·) = tokenize text := by
    rw [List.filter_eq_self]
    intro token member
    rw [show isPunctuationDropped token = token.isBlockMark from rfl,
      unmarked_of_readAll free token member]
    rfl
  rw [kept, render_tokenize]

theorem splitGroup_closing {depth : Nat} {inner : List Token}
    (ends : parenDepth? depth inner = some 0) (after : List Token) :
    splitGroup "(" ")" depth (inner ++ ⟨.punct, ")".toList⟩ :: after) = some (inner, after) := by
  induction inner generalizing depth with
  | nil =>
      obtain rfl : depth = 0 := by simpa [parenDepth?] using ends
      rw [List.nil_append, splitGroup_cons]
      rfl
  | cons token rest ih =>
      rw [parenDepth?_cons] at ends
      rw [List.cons_append, splitGroup_cons]
      by_cases isOpen : token.isPunct "(" = true
      · rw [if_pos isOpen] at ends ⊢
        rw [ih ends, Option.map_some]
      · rw [if_neg isOpen] at ends ⊢
        by_cases isClose : token.isPunct ")" = true
        · rw [if_pos isClose] at ends ⊢
          cases depth with
          | zero => cases ends
          | succ depth => simp only [ih ends, Option.map_some]
        · rw [if_neg isClose] at ends ⊢
          rw [ih ends, Option.map_some]

/-- A run of tokens that are all blanks. -/
def IsGap (tokens : List Token) : Prop :=
  ∀ token ∈ tokens, token.kind = .space ∧ Text.allBlank token.text = true

theorem IsGap.isTrivia {gap : List Token} (isGap : IsGap gap) :
    ∀ token ∈ gap, token.isTrivia = true := by
  intro token member
  rw [Token.isTrivia, (isGap token member).1]
  rfl

theorem IsGap.isFrame {gap : List Token} (isGap : IsGap gap) :
    ∀ token ∈ gap, isFrame token = true := by
  intro token member
  rw [Script.isFrame, (isGap token member).1]
  rfl

theorem IsGap.allBlank {gap : List Token} (isGap : IsGap gap) :
    Text.allBlank (render gap) = true := by
  refine List.all_eq_true.mpr fun c member => ?_
  obtain ⟨token, inGap, inText⟩ := List.mem_flatMap.mp member
  exact List.all_eq_true.mp (isGap token inGap).2 c inText

theorem isGap_blanks {blanks : List Token} (shape : blanks = [] ∨ blanks = [blankToken]) :
    IsGap blanks := by
  rcases shape with rfl | rfl
  · simp [IsGap]
  · intro token member
    rw [List.mem_singleton.mp member]
    exact ⟨rfl, rfl⟩

theorem dropTrivia_gap_append {gap : List Token} (isGap : IsGap gap) (tokens : List Token) :
    dropTrivia (gap ++ tokens) = dropTrivia tokens :=
  List.dropWhile_append_of_pos isGap.isTrivia

/-- The opening brace behind a header, which can also stand on the next line. -/
def IsBrace (tokens : List Token) : Prop :=
  tokens = [] ∨ tokens = [⟨.punct, "\x7b".toList⟩]

theorem conditional?_eq (keyword : String) {gap inner : List Token} (isGap : IsGap gap)
    (balanced : IsBalanced inner) (after : List Token) :
    conditional? keyword
        (gap ++ ⟨.punct, "(".toList⟩ :: (inner ++ ⟨.punct, ")".toList⟩ :: after)) =
      some ⟨keyword.toList, some (Text.trim (render inner)), after⟩ := by
  have group : parenthesized?
      (gap ++ ⟨.punct, "(".toList⟩ :: (inner ++ ⟨.punct, ")".toList⟩ :: after)) =
        some (inner, after) := by
    rw [parenthesized?, dropTrivia_gap_append isGap]
    exact splitGroup_closing balanced after
  rw [conditional?, group, Option.map_some]

theorem render_header {gap brace : List Token} (isGap : IsGap gap) (isBrace : IsBrace brace)
    (keyword : Text) (condition : Option Text) :
    Header.render ⟨keyword, condition, gap ++ brace⟩ =
      keyword ++ (condition.map (' ' :: ·)).getD [] ++ [':'] := by
  have nothing : Text.trim (render (dropOpeningBrace (gap ++ brace))) = [] := by
    rw [dropOpeningBrace, dropTrivia_gap_append isGap]
    rcases isBrace with rfl | rfl
    · rw [List.append_nil]
      exact Text.trim_of_allBlank isGap.allBlank
    · rfl
  rw [Header.render, nothing]
  simp

/-- The brace of the block before a header, if it stands on the header's line. -/
def IsCloser (tokens : List Token) : Prop :=
  tokens = [] ∨ ∃ gap, IsGap gap ∧ tokens = ⟨.punct, "\x7d".toList⟩ :: gap

/-- The words that become the script's keyword. -/
def IsKeyword (keyword : String) (tokens : List Token) : Prop :=
  (keyword = "if" ∧ tokens = [⟨.ident, "if".toList⟩]) ∨
    (keyword = "while" ∧ tokens = [⟨.ident, "while".toList⟩]) ∨
    (keyword = "elif" ∧ ∃ gap, IsGap gap ∧
      tokens = ⟨.ident, "else".toList⟩ :: (gap ++ [⟨.ident, "if".toList⟩]))

theorem IsCloser.isFrame {closer : List Token} (isCloser : IsCloser closer) :
    ∀ token ∈ closer, isFrame token = true := by
  rcases isCloser with rfl | ⟨gap, isGap, rfl⟩
  · simp
  · intro token member
    rcases List.mem_cons.mp member with rfl | inGap
    · rfl
    · exact isGap.isFrame token inGap

theorem IsKeyword.isFrame {keyword : String} {key : List Token} (isKey : IsKeyword keyword key) :
    ∀ token ∈ key, isFrame token = true := by
  rcases isKey with ⟨-, rfl⟩ | ⟨-, rfl⟩ | ⟨-, gap, isGap, rfl⟩
  · simp [Script.isFrame, Token.isIdent]
  · simp [Script.isFrame, Token.isIdent]
  · intro token member
    rcases List.mem_cons.mp member with rfl | inRest
    · rfl
    · rcases List.mem_append.mp inRest with inGap | isIf
      · exact isGap.isFrame token inGap
      · rw [List.mem_singleton.mp isIf]
        rfl

theorem IsBrace.isFrame {brace : List Token} (isBrace : IsBrace brace) :
    ∀ token ∈ brace, isFrame token = true := by
  rcases isBrace with rfl | rfl
  · simp
  · simp [Script.isFrame, Token.isPunct]

theorem header?_closer_append {closer : List Token} (isCloser : IsCloser closer) {name : String}
    (rest : List Token) :
    header? (closer ++ ⟨.ident, name.toList⟩ :: rest) = headerAt? (⟨.ident, name.toList⟩ :: rest) := by
  rcases isCloser with rfl | ⟨gap, isGap, rfl⟩
  · rfl
  · show headerAt? (dropTrivia (gap ++ (⟨.ident, name.toList⟩ : Token) :: rest)) = _
    rw [dropTrivia_gap_append isGap]
    rfl

theorem header?_keyword {closer key : List Token} (isCloser : IsCloser closer) {keyword : String}
    (isKey : IsKeyword keyword key) (rest : List Token) :
    header? (closer ++ key ++ rest) = conditional? keyword rest := by
  rcases isKey with ⟨rfl, rfl⟩ | ⟨rfl, rfl⟩ | ⟨rfl, gap, isGap, rfl⟩
  · rw [List.append_assoc, List.singleton_append, header?_closer_append isCloser]
    rfl
  · rw [List.append_assoc, List.singleton_append, header?_closer_append isCloser]
    rfl
  · rw [List.append_assoc, List.cons_append, header?_closer_append isCloser, List.append_assoc]
    have ifNext : dropTrivia (gap ++ ([⟨.ident, "if".toList⟩] ++ rest)) =
        ⟨.ident, "if".toList⟩ :: rest := by
      rw [dropTrivia_gap_append isGap]
      rfl
    simp only [headerAt?, ifNext]
    rfl

theorem convertTokens_eq (context : Context) {tokens : List Token}
    (noComment : ∀ token ∈ tokens, token.kind ≠ .comment) :
    convertTokens context tokens = convertHeader (normalizeWords none (convertCalls context tokens)) := by
  have same : stripComments tokens = tokens := by
    rw [stripComments, List.filter_eq_self]
    exact fun token member => by simpa using noComment token member
  rw [convertTokens, same]
  rfl

theorem kind_ne_comment_of_isFrame {token : Token} (frame : isFrame token = true) :
    token.kind ≠ .comment := by
  have := eq_false_of_isFrame (p := fun other => other.kind == .comment) (fun _ => rfl) (by decide)
    frame
  simpa using this

/-- A fragment between the tokens of a frame and tokens that are no comments. -/
theorem noComment_between {front code back : List Token}
    (frames : ∀ token ∈ front, isFrame token = true) (isCode : IsFragment code)
    (noComment : ∀ token ∈ back, token.kind ≠ .comment) :
    ∀ token ∈ front ++ code ++ back, token.kind ≠ .comment := by
  intro token member
  rcases List.mem_append.mp member with inside | inBack
  · rcases List.mem_append.mp inside with inFront | inCode
    · exact kind_ne_comment_of_isFrame (frames token inFront)
    · exact IsLexeme.kind_ne_comment (isCode.cut.whole token inCode)
  · exact noComment token inBack

theorem isMarkFree_header {keyword : String} {key : List Token} (isKey : IsKeyword keyword key)
    {condition : Text} (free : IsMarkFree condition) :
    IsMarkFree (keyword.toList ++ ' ' :: condition ++ [':']) := by
  obtain ⟨slash, free⟩ := free
  have lead : Mode.readAll (.code false) (keyword.toList ++ [' ']) = some (.code false) := by
    rcases isKey with ⟨rfl, -⟩ | ⟨rfl, -⟩ | ⟨rfl, -⟩ <;> rfl
  refine ⟨false, ?_⟩
  rw [show keyword.toList ++ ' ' :: condition ++ [':'] =
      (keyword.toList ++ [' ']) ++ (condition ++ [':']) by simp, readAll_append, lead,
    Option.bind_some, readAll_append, free, Option.bind_some, Mode.readAll, read_plain rfl]
  rfl

theorem trim_header {keyword : String} {key : List Token} (isKey : IsKeyword keyword key)
    (condition : Text) :
    Text.trim (keyword.toList ++ ' ' :: condition ++ [':']) =
      keyword.toList ++ ' ' :: condition ++ [':'] := by
  refine Text.trim_of_tight (fun c first => ?_) (fun c last => ?_)
  · rcases isKey with ⟨rfl, -⟩ | ⟨rfl, -⟩ | ⟨rfl, -⟩ <;>
      · obtain rfl := Option.some.inj first
        rfl
  · rw [List.getLast?_append_of_ne_nil _ (List.cons_ne_nil _ _)] at last
    obtain rfl := Option.some.inj last
    rfl

theorem isFrame_guard {closer key gap lead : List Token} (isCloser : IsCloser closer)
    {keyword : String} (isKey : IsKeyword keyword key) (isGap : IsGap gap) (isLead : IsGap lead) :
    ∀ token ∈ closer ++ key ++ gap ++ ⟨.punct, "(".toList⟩ :: lead, isFrame token = true := by
  intro token member
  simp only [List.mem_append, List.mem_cons] at member
  rcases member with ((inCloser | inKey) | inGap) | rfl | inLead
  · exact isCloser.isFrame token inCloser
  · exact isKey.isFrame token inKey
  · exact isGap.isFrame token inGap
  · rfl
  · exact isLead.isFrame token inLead

/-- The header of a line that the rules for types and calls have worked on. What is behind its condition
is taken as the words leave it. -/
theorem header?_guard {context : Context} (names : context.HasScriptNames)
    {closer key gap lead code trail : List Token} (isCloser : IsCloser closer) {keyword : String}
    (isKey : IsKeyword keyword key) (isGap : IsGap gap) (isLead : IsGap lead)
    (isCode : IsFragment code) (balanced : IsBalanced code) (isTrail : IsGap trail)
    (behind : List Token) :
    ∃ last, header? (normalizeWords none
        ((closer ++ key ++ gap ++ ⟨.punct, "(".toList⟩ :: lead) ++ convertCalls context code ++
          (trail ++ ⟨.punct, ")".toList⟩ :: behind))) =
      some ⟨keyword.toList, some (conditionText context (render code)),
        normalizeWords last behind⟩ := by
  have front := isFrame_guard isCloser isKey isGap isLead
  obtain ⟨madeCode, madeBalanced⟩ := (convertCalls_isLocal names).keeps isCode balanced
  have untouched : ((closer ++ key ++ gap ++ (⟨.punct, "(".toList⟩ : Token) :: lead).getLast?.or
      none).any touches = Option.any touches none := by
    rw [Option.or_none, List.getLast?_append_of_ne_nil _ (List.cons_ne_nil _ _),
      List.getLast?_eq_some_getLast (List.cons_ne_nil _ _)]
    rcases List.mem_cons.mp (List.getLast_mem (List.cons_ne_nil
      (⟨.punct, "(".toList⟩ : Token) lead)) with isOpening | inLead
    · rw [isOpening]
      rfl
    · rw [Option.any_some, touches, isLead.isTrivia _ inLead]
      rfl
  obtain ⟨blanks, last, shape, words⟩ := exists_normalizeWords_append none (convertCalls context code)
    (trail ++ (⟨.punct, ")".toList⟩ : Token) :: behind)
  have isBlanks : IsGap blanks := isGap_blanks shape
  have closing : ∀ token ∈ trail ++ [(⟨.punct, ")".toList⟩ : Token)], isFrame token = true := by
    intro token member
    rcases List.mem_append.mp member with inTrail | isClosing
    · exact isTrail.isFrame token inTrail
    · rw [List.mem_singleton.mp isClosing]
      rfl
  have closed (previous : Option Token) :
      normalizeWords previous (trail ++ (⟨.punct, ")".toList⟩ : Token) :: behind) =
        trail ++ (⟨.punct, ")".toList⟩ : Token) ::
          normalizeWords (some ⟨.punct, ")".toList⟩) behind := by
    have same := normalizeWords_frame_append closing previous behind
    rw [List.getLast?_append_of_ne_nil _ (List.cons_ne_nil _ _)] at same
    simpa using same
  have inner : IsBalanced
      (lead ++ (normalizeWords none (convertCalls context code) ++ blanks) ++ trail) := by
    rw [IsBalanced, parenDepth?_append, parenDepth?_append, parenDepth?_trivia isLead.isTrivia,
      Option.bind_some, parenDepth?_append, parenDepth?_normalizeWords, madeBalanced,
      Option.bind_some, parenDepth?_trivia isBlanks.isTrivia, Option.bind_some,
      parenDepth?_trivia isTrail.isTrivia]
  have condition : Text.trim (render
      (lead ++ (normalizeWords none (convertCalls context code) ++ blanks) ++ trail)) =
        conditionText context (render code) := by
    rw [render_append, render_append, render_append, Text.trim_append_blank isTrail.allBlank,
      Text.trim_blank_append isLead.allBlank, Text.trim_append_blank isBlanks.allBlank,
      conditionText, isCode.cut.tokenize_render]
  refine ⟨some ⟨.punct, ")".toList⟩, ?_⟩
  rw [List.append_assoc, normalizeWords_frame_append front, normalizeWords_congr untouched, words,
    closed, ← condition, ← conditional?_eq keyword isGap inner, ← header?_keyword isCloser isKey]
  simp

/-- A header on one line of its source becomes its keyword, its condition and a colon. -/
theorem convertLine_header {context : Context} (names : context.HasScriptNames)
    {closer key gap lead code trail after brace : List Token} (isCloser : IsCloser closer)
    {keyword : String} (isKey : IsKeyword keyword key) (isGap : IsGap gap) (isLead : IsGap lead)
    (isCode : IsFragment code) (balanced : IsBalanced code) (isTrail : IsGap trail)
    (isAfter : IsGap after) (isBrace : IsBrace brace) {line : Text}
    (cutAt : tokenize line = closer ++ key ++ (gap ++ ⟨.punct, "(".toList⟩ ::
      (lead ++ code ++ trail ++ ⟨.punct, ")".toList⟩ :: (after ++ brace)))) :
    convertLine context line =
      keyword.toList ++ ' ' :: conditionText context (render code) ++ [':'] := by
  have front := isFrame_guard isCloser isKey isGap isLead
  have behind : ∀ token ∈ after ++ brace, isFrame token = true := fun token member =>
    (List.mem_append.mp member).elim (isAfter.isFrame token) (isBrace.isFrame token)
  have back : ∀ token ∈ trail ++ ⟨.punct, ")".toList⟩ :: (after ++ brace), isFrame token = true := by
    intro token member
    rcases List.mem_append.mp member with inTrail | inRest
    · exact isTrail.isFrame token inTrail
    · rcases List.mem_cons.mp inRest with rfl | inBehind
      · rfl
      · exact behind token inBehind
  have regroup : closer ++ key ++ (gap ++ (⟨.punct, "(".toList⟩ : Token) ::
      (lead ++ code ++ trail ++ (⟨.punct, ")".toList⟩ : Token) :: (after ++ brace))) =
        (closer ++ key ++ gap ++ (⟨.punct, "(".toList⟩ : Token) :: lead) ++ code ++
          (trail ++ (⟨.punct, ")".toList⟩ : Token) :: (after ++ brace)) := by
    simp
  have noComment : ∀ token ∈ tokenize line, token.kind ≠ .comment := by
    rw [cutAt, regroup]
    exact noComment_between front isCode fun token member =>
      kind_ne_comment_of_isFrame (back token member)
  obtain ⟨last, header⟩ := header?_guard names isCloser isKey isGap isLead isCode balanced isTrail
    (after ++ brace)
  rw [normalizeWords_of_isFrame behind] at header
  rw [convertLine, convertTokens_eq context noComment, cutAt, regroup,
    (convertCalls_isLocal names).inside isCode balanced front back
      (closes_closing_append isTrail.isTrivia _), convertHeader, header]
  simp only [render_header isAfter isBrace, Option.map_some, Option.getD_some]
  rw [render_filter_tokenize (isMarkFree_header isKey (isMarkFree_conditionText names isCode balanced)),
    trim_header isKey]

theorem replaceCalls_nil (head : String) (tail : List String)
    (replacement : Call → Option Text) : replaceCalls head tail replacement [] = [] := by
  rw [replaceCalls, replaceWithin]

theorem convertCalls_of_isFrame {context : Context} (names : context.HasScriptNames)
    {tokens : List Token} (frames : ∀ token ∈ tokens, isFrame token = true) :
    convertCalls context tokens = tokens := by
  have same := @IsLocal.inside _ (convertCalls_isLocal names) tokens [] []
    isFragment_nil rfl frames (by simp) (fun token first => by cases first)
  have nothing : convertCalls context [] = [] := by
    simp only [convertCalls, stripTypes, convertAnalogRead, convertDigitalWrite, convertDigitalRead,
      convertPrintLine, convertPrint, convertDelay, replaceCalls_nil]
  rw [nothing] at same
  simpa using same

/-- An `else` keeps its keyword and a colon. -/
theorem convertLine_else {context : Context} (names : context.HasScriptNames)
    {closer after brace : List Token} (isCloser : IsCloser closer) (isAfter : IsGap after)
    (isBrace : IsBrace brace) {line : Text}
    (cutAt : tokenize line = closer ++ ⟨.ident, "else".toList⟩ :: (after ++ brace)) :
    convertLine context line = "else:".toList := by
  have frames : ∀ token ∈ tokenize line, isFrame token = true := by
    rw [cutAt]
    intro token member
    simp only [List.mem_append, List.mem_cons] at member
    rcases member with inCloser | rfl | inAfter | inBrace
    · exact isCloser.isFrame token inCloser
    · rfl
    · exact isAfter.isFrame token inAfter
    · exact isBrace.isFrame token inBrace
  have noComment : ∀ token ∈ tokenize line, token.kind ≠ .comment := fun token member =>
    kind_ne_comment_of_isFrame (frames token member)
  have words := normalizeWords_of_isFrame frames none
  have header : header? (tokenize line) = some ⟨"else".toList, none, after ++ brace⟩ := by
    rw [cutAt, header?_closer_append isCloser]
    have next : headerAt? (⟨.ident, "else".toList⟩ :: (after ++ brace)) =
        some ⟨"else".toList, none, after ++ brace⟩ := by
      rcases isBrace with rfl | rfl
      · simp only [headerAt?, dropTrivia_gap_append isAfter]
        rfl
      · simp only [headerAt?, dropTrivia_gap_append isAfter]
        rfl
    exact next
  have free : IsMarkFree "else:".toList := ⟨false, rfl⟩
  rw [convertLine, convertTokens_eq context noComment, convertCalls_of_isFrame names frames, words,
    convertHeader, header]
  simp only [render_header isAfter isBrace]
  exact (congrArg Text.trim (render_filter_tokenize free)).trans rfl

/-- A brace on a line of its own leaves nothing. -/
theorem convertLine_brace {context : Context} (names : context.HasScriptNames) {line : Text}
    {brace : Token} (isBrace : brace = ⟨.punct, "\x7b".toList⟩ ∨ brace = ⟨.punct, "\x7d".toList⟩)
    (cutAt : tokenize line = [brace]) : convertLine context line = [] := by
  have frames : ∀ token ∈ [brace], isFrame token = true := by
    intro token member
    rw [List.mem_singleton.mp member]
    rcases isBrace with rfl | rfl <;> rfl
  have noComment : ∀ token ∈ [brace], token.kind ≠ .comment := fun token member =>
    kind_ne_comment_of_isFrame (frames token member)
  have words := normalizeWords_of_isFrame frames none
  rw [convertLine, cutAt, convertTokens_eq context noComment, convertCalls_of_isFrame names frames,
    words]
  rcases isBrace with rfl | rfl <;> rfl

end Breadboard.Script
