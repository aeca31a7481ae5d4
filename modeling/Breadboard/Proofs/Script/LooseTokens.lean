import Breadboard.Proofs.Script.Respelling

set_option autoImplicit false

/- Tokens that a text is put together from without being all of those that it is cut into: a digit that stands for
a level makes one number with the digits and dots around it. -/
namespace Breadboard.Script

open Sketch hiding stripComments

/-- The word for a level as it is put among the tokens. -/
def IsLevelDigit (token : Token) : Prop :=
  token = ⟨.ident, ['1']⟩ ∨ token = ⟨.ident, ['0']⟩

instance (token : Token) : Decidable (IsLevelDigit token) :=
  inferInstanceAs (Decidable (token = ⟨.ident, ['1']⟩ ∨ token = ⟨.ident, ['0']⟩))

/-- A token that a text is cut into, or a digit for a level. -/
def IsLoose (token : Token) : Prop :=
  IsLexeme token ∨ IsLevelDigit token

def dotToken : Token := ⟨.punct, ['.']⟩

/-- The tokens stay apart, or a dot stands before the digit for a level. -/
def Adjoins (first second : Token) : Prop :=
  first.Meets second ∨ first = dotToken ∧ IsLevelDigit second

structure IsLooselyCut (tokens : List Token) : Prop where
  whole : ∀ token ∈ tokens, IsLoose token
  chain : tokens.IsChain Adjoins

/-- Whether a number takes all of the token. -/
def isNumberPart (token : Token) : Bool :=
  token.text.all isNumberChar

/-- The run goes into one number, for it starts with the digit for a level or with a dot before one. -/
structure Merges (run word : List Token) : Prop where
  cut : IsLooselyCut run
  parts : ∀ token ∈ run, isNumberPart token = true
  level : ∃ digit more, IsLevelDigit digit ∧ (run = digit :: more ∨ run = dotToken :: digit :: more)
  made : word = [⟨.number, render run⟩]

/-- What a number starts with if it starts with a level and a dot. -/
def levelDots : List Text :=
  ["1.", "0.", ".1.", ".0."].map String.toList

/-- A dot, or a number that starts with a level and a dot and ends with a dot. -/
def isDotOrLevelDot (token : Token) : Bool :=
  isDot token ||
    token.kind == .number && token.text.getLast? == some '.' && levelDots.any (·.isPrefixOf token.text)

section

variable {token : Token} {tokens rest : List Token}

theorem IsLevelDigit.exists_digit (level : IsLevelDigit token) :
    ∃ c, token = ⟨.ident, [c]⟩ ∧ c.isDigit = true := by
  rcases level with rfl | rfl
  · exact ⟨'1', rfl, rfl⟩
  · exact ⟨'0', rfl, rfl⟩

theorem IsLoose.text_ne_nil (loose : IsLoose token) : token.text ≠ [] := by
  rcases loose with whole | level
  · exact whole.text_ne_nil
  · obtain ⟨c, rfl, -⟩ := level.exists_digit
    exact List.cons_ne_nil c []

theorem all_isNumberChar_of_word {text : Text} (words : text.all isWordChar = true) :
    text.all isNumberChar = true :=
  List.all_eq_true.mpr fun c member => isNumberChar_of_isWordChar (List.all_eq_true.mp words c member)

/-- A number takes all of a token or nothing of it, and blanks it does not take. -/
theorem IsLoose.isNumberPart_or (loose : IsLoose token) :
    (isNumberPart token = true ∧ token.isTrivia = false) ∨ ∀ c ∈ token.text.head?, isNumberChar c = false := by
  have first {c d : Char} {more : Text} (noNumber : isNumberChar c = false) (isFirst : d ∈ (c :: more).head?) :
      isNumberChar d = false := by
    rwa [← Option.some.inj isFirst]
  rcases loose with whole | level
  · cases whole with
    | @space c more start run =>
        refine Or.inr fun d isFirst => first ?_ isFirst
        by_contra number
        have blank := isBlank_of_isNumberChar (Bool.not_eq_false _ ▸ number)
        rw [isBlank_of_isSpaceChar start] at blank
        cases blank
    | @word c more start run =>
        refine Or.inl ⟨all_isNumberChar_of_word ?_, rfl⟩
        rw [List.all_cons, isWordChar_of_isWordStart start, run]
        rfl
    | @number c more start run =>
        exact Or.inl ⟨List.all_eq_true.mpr (isNumberChar_of_isLexeme (.number start run)), rfl⟩
    | @literal quote more start closed =>
        refine Or.inr fun d isFirst => first ?_ isFirst
        rw [isQuote, Bool.or_eq_true, beq_iff_eq, beq_iff_eq] at start
        rcases start with rfl | rfl <;> rfl
    | @mark c single =>
        by_cases number : isNumberChar c = true
        · exact Or.inl ⟨by rw [isNumberPart, List.all_cons, number]; rfl, rfl⟩
        · exact Or.inr fun d isFirst => first (Bool.not_eq_true _ ▸ number) isFirst
    | @pair c second operator =>
        have others : ['=', '!', '<', '>', '&', '|', '+', '-', '*', '/', ':'].all (!isNumberChar ·) = true := rfl
        have noNumber := List.all_eq_true.mp others c (mem_of_isOperatorPair operator).1
        exact Or.inr fun d isFirst => first (by simpa using noNumber) isFirst
  · obtain ⟨c, rfl, digit⟩ := level.exists_digit
    exact Or.inl ⟨by rw [isNumberPart, List.all_cons, isNumberChar_of_isDigit digit]; rfl, rfl⟩

theorem IsLoose.isTrivia_eq_false (loose : IsLoose token) (part : isNumberPart token = true) :
    token.isTrivia = false := by
  rcases loose.isNumberPart_or with ⟨-, shown⟩ | other
  · exact shown
  · obtain ⟨c, more, textEq⟩ := List.exists_cons_of_ne_nil loose.text_ne_nil
    rw [isNumberPart, textEq, List.all_cons, other c (by rw [textEq]; rfl)] at part
    cases part

theorem IsLooselyCut.part {part : List Token} (cut : IsLooselyCut tokens) (inside : part <:+: tokens) :
    IsLooselyCut part :=
  ⟨fun token member => cut.whole token (inside.subset member), cut.chain.infix inside⟩

theorem IsLooselyCut.cons (loose : IsLoose token) (adjoins : ∀ next ∈ rest.head?, Adjoins token next)
    (cut : IsLooselyCut rest) : IsLooselyCut (token :: rest) :=
  ⟨List.forall_mem_cons.mpr ⟨loose, cut.whole⟩, List.isChain_cons.mpr ⟨adjoins, cut.chain⟩⟩

theorem head?_render_cons (loose : IsLoose token) :
    (render (token :: rest)).head? = token.text.head? := by
  rw [render_cons, List.head?_append_of_ne_nil _ loose.text_ne_nil]

/-- The number that starts in a text takes the tokens up to the first one that it takes nothing of. -/
theorem runLength_render (loose : ∀ token ∈ tokens, IsLoose token) :
    runLength isNumberChar (render tokens) = (render (tokens.takeWhile isNumberPart)).length := by
  induction tokens with
  | nil => rfl
  | cons token rest ih =>
      obtain ⟨here, others⟩ := List.forall_mem_cons.mp loose
      by_cases part : isNumberPart token = true
      · rw [List.takeWhile_cons_of_pos part, render_cons, render_cons, List.length_append,
          runLength_append_of_all part, ih others]
      · rw [List.takeWhile_cons_of_neg part]
        refine runLength_of_head fun c isFirst => ?_
        rw [head?_render_cons here] at isFirst
        exact here.isNumberPart_or.resolve_left (fun both => part both.1) c isFirst

theorem tokenize_number {c : Char}
    (start : c.isDigit = true ∨ c = '.' ∧ (render rest).head?.any Char.isDigit = true)
    (loose : ∀ token ∈ rest, IsLoose token) :
    tokenize (c :: render rest) = ⟨.number, c :: render (rest.takeWhile isNumberPart)⟩ ::
      tokenize (render (rest.dropWhile isNumberPart)) := by
  have parts : render rest =
      render (rest.takeWhile isNumberPart) ++ render (rest.dropWhile isNumberPart) := by
    rw [← render_append, List.takeWhile_append_dropWhile]
  rw [tokenize_cons, scan_number start, runLength_render loose]
  rw [parts, List.take_left, List.drop_left]

/-- A number that starts with the token takes the tokens after it that are parts of numbers. -/
theorem respelt_of_number {c : Char} (cut : IsLooselyCut (token :: rest)) (single : token.text = [c])
    (start : c.isDigit = true ∨ c = '.' ∧ (render rest).head?.any Char.isDigit = true)
    (level : ∃ digit more, IsLevelDigit digit ∧ (token :: rest.takeWhile isNumberPart = digit :: more ∨
      token :: rest.takeWhile isNumberPart = dotToken :: digit :: more))
    (onward : Respelt Merges (rest.dropWhile isNumberPart)
      (tokenize (render (rest.dropWhile isNumberPart)))) :
    Respelt Merges (token :: rest) (tokenize (render (token :: rest))) := by
  have taken : Merges (token :: rest.takeWhile isNumberPart)
      [⟨.number, c :: render (rest.takeWhile isNumberPart)⟩] := by
    refine ⟨cut.part ⟨[], rest.dropWhile isNumberPart, ?_⟩, List.forall_mem_cons.mpr
      ⟨?_, fun other member => List.mem_takeWhile_imp member⟩, level, by rw [render_cons, single]; rfl⟩
    · rw [List.nil_append, List.cons_append, List.takeWhile_append_dropWhile]
    · rw [isNumberPart, single, List.all_cons, isNumberChar_of_digitOrDot (start.imp_right And.left)]
      rfl
  have whole := Respelt.change taken onward
  rw [List.cons_append, List.takeWhile_append_dropWhile] at whole
  rw [render_cons, single, List.singleton_append,
    tokenize_number start fun other member => cut.whole other (List.mem_cons_of_mem _ member)]
  exact whole

/-- A token that stays apart from the next one is cut off. -/
theorem respelt_of_lexeme (whole : IsLexeme token) (meets : ∀ next ∈ rest.head?, token.Meets next)
    (loose : ∀ token ∈ rest, IsLoose token) (onward : Respelt Merges rest (tokenize (render rest))) :
    Respelt Merges (token :: rest) (tokenize (render (token :: rest))) := by
  have alone : IsCut [token] := isCut_nil.cons whole fun next member => by cases member
  have ends : ∀ last ∈ [token].getLast?, ∀ next ∈ (render rest).head?, last.endsBefore next = true := by
    intro last isLast next isNext
    obtain rfl : token = last := Option.some.inj isLast
    cases rest with
    | nil => cases isNext
    | cons second others =>
        rw [head?_render_cons (loose second List.mem_cons_self)] at isNext
        exact meets second rfl next isNext
  have cutAgain := alone.tokenize_render_append ends
  rw [render_cons, render_nil, List.append_nil] at cutAgain
  rw [render_cons, cutAgain]
  exact .keep token onward

/-- The text of loose tokens is cut into them again, but for the digits for levels that go into a number. -/
theorem respelt_tokenize (cut : IsLooselyCut tokens) : Respelt Merges tokens (tokenize (render tokens)) := by
  induction size : tokens.length using Nat.strongRecOn generalizing tokens with
  | ind count ih =>
      cases tokens with
      | nil =>
          rw [render_nil, tokenize_nil]
          exact .nil
      | cons token rest =>
          rw [List.length_cons] at size
          have restLoose : ∀ token ∈ rest, IsLoose token := fun other member =>
            cut.whole other (List.mem_cons_of_mem _ member)
          have restCut : IsLooselyCut rest := cut.part (List.infix_cons (List.infix_refl rest))
          have suffix := List.dropWhile_suffix (l := rest) isNumberPart
          have left := ih _ (Nat.lt_of_le_of_lt suffix.length_le (by omega)) (restCut.part suffix.isInfix) rfl
          by_cases level : IsLevelDigit token
          · obtain ⟨c, rfl, digit⟩ := level.exists_digit
            exact respelt_of_number cut rfl (Or.inl digit) ⟨_, _, level, Or.inl rfl⟩ left
          have whole := (cut.whole token List.mem_cons_self).resolve_right level
          by_cases meets : ∀ next ∈ rest.head?, token.Meets next
          · exact respelt_of_lexeme whole meets restLoose (ih rest.length (by omega) restCut rfl)
          · -- A dot stands before the digit for a level.
            obtain ⟨second, others, rfl⟩ : ∃ second others, rest = second :: others := by
              cases rest with
              | nil => exact absurd (fun next member => by cases member) meets
              | cons second others => exact ⟨second, others, rfl⟩
            have apart : ¬ token.Meets second := fun stays =>
              meets fun next isNext => Option.some.inj isNext ▸ stays
            obtain ⟨rfl, digitLevel⟩ := ((List.isChain_cons_cons.mp cut.chain).1).resolve_left apart
            obtain ⟨c, rfl, digit⟩ := digitLevel.exists_digit
            have secondPart : isNumberPart ⟨.ident, [c]⟩ = true := by
              rw [isNumberPart, List.all_cons, isNumberChar_of_isDigit digit]
              rfl
            refine respelt_of_number cut rfl (Or.inr ⟨rfl, ?_⟩)
              ⟨_, others.takeWhile isNumberPart, digitLevel, Or.inr ?_⟩ left
            · rw [head?_render_cons (Or.inr digitLevel)]
              exact digit
            · rw [List.takeWhile_cons_of_pos secondPart]

/-- The digit for a level goes on with a dot if anything that a number takes comes next. -/
theorem IsLevelDigit.exists_dot (level : IsLevelDigit token) (cut : IsLooselyCut (token :: rest))
    (parts : ∀ next ∈ rest.head?, isNumberPart next = true) (nonempty : rest ≠ []) :
    ∃ more, render (token :: rest) = token.text ++ '.' :: more := by
  obtain ⟨next, others, rfl⟩ := List.exists_cons_of_ne_nil nonempty
  obtain ⟨c, more, textEq⟩ := List.exists_cons_of_ne_nil (cut.whole next (by simp)).text_ne_nil
  have meets : token.Meets next := (List.isChain_cons_cons.mp cut.chain).1.resolve_right fun both => by
    obtain ⟨d, rfl, -⟩ := level.exists_digit
    cases both.1
  have isNumber := parts next rfl
  rw [isNumberPart, textEq, List.all_cons, Bool.and_eq_true] at isNumber
  have noWord : isWordChar c = false := by
    have ends := meets c (by rw [textEq]; rfl)
    obtain ⟨d, rfl, -⟩ := level.exists_digit
    simpa [Token.endsBefore] using ends
  have dot : c = '.' := by
    by_contra other
    rw [isWordChar, Bool.or_eq_false_iff] at noWord
    simp [isNumberChar, noWord, other] at isNumber
  exact ⟨more ++ render others, by rw [render_cons, render_cons, textEq, dot]; rfl⟩

theorem render_eq_of_merges {made : List Token} (respelt : Respelt Merges tokens made) :
    render tokens = render made := by
  induction respelt with
  | nil => rfl
  | keep token more ih => rw [render_cons, render_cons, ih]
  | change merges more ih =>
      rw [render_append, render_append, ih, merges.made]
      simp

end

/-- A run that ends with a dot makes a number that starts with a level and a dot. -/
theorem Merges.isDotOrLevelDot {run word : List Token} (merges : Merges run word)
    (ends : run.getLast? = some dotToken) : Script.isDotOrLevelDot ⟨.number, render run⟩ = true := by
  have last : (render run).getLast? = some '.' := by
    obtain ⟨others, rfl⟩ := List.getLast?_eq_some_iff.mp ends
    simp [dotToken]
  have starts : levelDots.any (·.isPrefixOf (render run)) = true := by
    obtain ⟨digit, more, level, split⟩ := merges.level
    have dotted {front : Text} (spelled : front ++ ['1', '.'] ∈ levelDots ∧ front ++ ['0', '.'] ∈ levelDots)
        (text : ∃ rest, render run = front ++ (digit.text ++ '.' :: rest)) :
        levelDots.any (·.isPrefixOf (render run)) = true := by
      obtain ⟨rest, textEq⟩ := text
      rw [List.any_eq_true, textEq]
      rcases level with rfl | rfl
      · exact ⟨_, spelled.1, List.isPrefixOf_iff_prefix.mpr ⟨rest, by simp⟩⟩
      · exact ⟨_, spelled.2, List.isPrefixOf_iff_prefix.mpr ⟨rest, by simp⟩⟩
    have nonempty : more ≠ [] := by
      rintro rfl
      rcases split with rfl | rfl <;> rcases level with rfl | rfl <;> cases ends
    have parts : ∀ next ∈ more.head?, isNumberPart next = true := fun next isNext =>
      merges.parts next (by rcases split with rfl | rfl <;> simp [List.mem_of_mem_head? isNext])
    rcases split with rfl | rfl
    · obtain ⟨rest, textEq⟩ := level.exists_dot merges.cut parts nonempty
      exact @dotted [] (by decide) ⟨rest, textEq⟩
    · have digitCut : IsLooselyCut (digit :: more) := merges.cut.part (List.infix_cons (List.infix_refl _))
      obtain ⟨rest, textEq⟩ := level.exists_dot digitCut parts nonempty
      exact @dotted ['.'] (by decide) ⟨rest, by rw [render_cons, textEq]; rfl⟩
  rw [Script.isDotOrLevelDot, last, starts]
  rfl

theorem isRespelling_merges : IsRespelling isDot isDotOrLevelDot Merges where
  runFlat merges token member :=
    flat_of_all (List.all_eq_true.mp (merges.parts token member)) (by decide)
  wordFlat merges token member := by
    rw [merges.made, List.mem_singleton] at member
    subst member
    refine ⟨⟨rfl, rfl⟩, ?_⟩
    rintro ⟨⟩
  others merges form token member := by
    rw [merges.made, List.mem_singleton] at member
    subst member
    rintro ⟨⟩
  visible merges := by
    obtain ⟨digit, more, level, split⟩ := merges.level
    obtain ⟨c, rfl, isDigit⟩ := level.exists_digit
    refine ⟨⟨.ident, [c]⟩, ?_, rfl, ?_⟩
    · rcases split with split | split <;> rw [split] <;> simp
    · rw [IsBlankToken, Text.allBlank, List.all_cons, isBlank_of_isNumberChar (isNumberChar_of_isDigit isDigit)]
      exact Bool.false_ne_true
  loud merges := by
    obtain ⟨digit, more, level, split⟩ := merges.level
    obtain ⟨c, rfl, isDigit⟩ := level.exists_digit
    have heads : (["(", ".", "print", "println"].map String.toList).all (fun part =>
        part.head?.all (!·.isDigit) && (part.head? != some '.' || part.length == 1)) = true := rfl
    have noPart (part : Text) (isPart : part ∈ ["(", ".", "print", "println"].map String.toList)
        (more : Text) : part ≠ c :: more ∧ part ≠ '.' :: c :: more := by
      have head := List.all_eq_true.mp heads part isPart
      constructor
      · rintro rfl
        simp [isDigit] at head
      · rintro rfl
        simp at head
    refine ⟨_, by rw [merges.made]; exact List.mem_singleton_self _, ?_⟩
    rintro (trivia | named)
    · cases trivia
    · rcases split with split | split
      · exact (noPart _ named (render more)).1 (by rw [split]; rfl)
      · exact (noPart _ named (render more)).2 (by rw [split]; rfl)
  kept token dot := by
    rw [isDotOrLevelDot, dot]
    rfl
  dots {run word} merges afterDot afterNewDot free := by
    have nonempty : run ≠ [] := by
      obtain ⟨digit, more, -, split⟩ := merges.level
      rcases split with rfl | rfl <;> exact List.cons_ne_nil _ _
    obtain ⟨others, last, split⟩ := (List.eq_nil_or_concat' run).resolve_left nonempty
    have member : last ∈ run := by rw [split]; simp
    have shown := (merges.cut.whole last member).isTrivia_eq_false (merges.parts last member)
    rw [merges.made, List.foldl_cons, List.foldl_nil, dotAfter, if_neg (by exact Bool.false_ne_true)] at free
    rw [split, List.foldl_append, List.foldl_cons, List.foldl_nil, dotAfter, shown, if_neg Bool.false_ne_true]
    by_contra dot
    have isLast : last = dotToken := eq_of_isPunct (Bool.not_eq_false _ ▸ dot)
    rw [merges.isDotOrLevelDot (by rw [split, isLast, List.getLast?_concat])] at free
    cases free

end Breadboard.Script
