import Breadboard.Proofs.Script.HeaderLine
import Breadboard.Proofs.Script.LooseTokens
import Breadboard.Proofs.Script.CallRule

set_option autoImplicit false

namespace Breadboard.Script

open Sketch hiding stripComments

/-- Levels and truth values, each with its word. -/
def levelRespellings : List (Token × Text) :=
  [(⟨.ident, "HIGH".toList⟩, ['1']), (⟨.ident, "LOW".toList⟩, ['0']),
    (⟨.ident, "true".toList⟩, "True".toList), (⟨.ident, "false".toList⟩, "False".toList)]

/-- Logical operators, each with its word. -/
def operatorRespellings : List (Token × Text) :=
  [(⟨.punct, "&&".toList⟩, "and".toList), (⟨.punct, "||".toList⟩, "or".toList),
    (⟨.punct, "!".toList⟩, "not".toList)]

def respellings : List (Token × Text) :=
  levelRespellings ++ operatorRespellings

/-- A token in a line and the word that it becomes, with the blanks that set the word off. -/
inductive Rewords : List Token → List Token → Prop where
  | word {token : Token} {text : Text} {before after : List Token} (pair : (token, text) ∈ respellings)
      (blankBefore : ∀ blank ∈ before, blank = blankToken) (blankAfter : ∀ blank ∈ after, blank = blankToken) :
      Rewords [token] (before ++ ⟨.ident, text⟩ :: after)

def operatorWords : List Text :=
  ["and", "or", "not"].map String.toList

/-- A reference to a pin that is not the word for an operator. -/
def IsPinOperand (text : Text) : Prop :=
  IsPinReference text ∧ text ∉ operatorWords

section

variable {token : Token} {text : Text}

theorem mem_levelRespellings (level : levelWord? token = some text) : (token, text) ∈ levelRespellings := by
  unfold levelWord? at level
  split at level
  · rename_i ident
    rw [eq_of_isIdent ident, ← Option.some.inj level]
    decide
  · split at level
    · rename_i ident
      rw [eq_of_isIdent ident, ← Option.some.inj level]
      decide
    · split at level
      · rename_i ident
        rw [eq_of_isIdent ident, ← Option.some.inj level]
        decide
      · split at level
        · rename_i ident
          rw [eq_of_isIdent ident, ← Option.some.inj level]
          decide
        · cases level

theorem mem_operatorRespellings (operator : operatorWord? token = some text) :
    (token, text) ∈ operatorRespellings := by
  unfold operatorWord? at operator
  split at operator
  · rename_i mark
    rw [eq_of_isPunct mark, ← Option.some.inj operator]
    decide
  · split at operator
    · rename_i mark
      rw [eq_of_isPunct mark, ← Option.some.inj operator]
      decide
    · split at operator
      · rename_i mark
        rw [eq_of_isPunct mark, ← Option.some.inj operator]
        decide
      · cases operator

theorem mem_respellings (known : levelWord? token = some text ∨ operatorWord? token = some text) :
    (token, text) ∈ respellings :=
  List.mem_append.mpr (known.imp mem_levelRespellings mem_operatorRespellings)

/-- What is said of each respelling is checked on the list of them. -/
theorem of_mem_respellings {p : Token → Text → Bool} (all : respellings.all (fun pair => p pair.1 pair.2) = true)
    (pair : (token, text) ∈ respellings) : p token text = true :=
  List.all_eq_true.mp all (token, text) pair

theorem forall_mem_word {p : Token → Prop} {before after : List Token}
    (blankBefore : ∀ blank ∈ before, blank = blankToken) (blankAfter : ∀ blank ∈ after, blank = blankToken)
    (blank : p blankToken) (word : p token) : ∀ other ∈ before ++ token :: after, p other := by
  refine List.forall_mem_append.mpr ⟨fun other member => ?_, List.forall_mem_cons.mpr ⟨word, fun other member => ?_⟩⟩
  · rw [blankBefore other member]
    exact blank
  · rw [blankAfter other member]
    exact blank

theorem blank_of_mem {blanks : List Token} (all : ∀ blank ∈ blanks, blank = blankToken) :
    ∀ blank ∈ blanks, IsBlankToken blank :=
  fun blank member => by rw [all blank member]; rfl

end

theorem isRespelling_rewords : IsRespelling isDot isDot Rewords where
  runFlat := by
    rintro _ _ ⟨pair, -, -⟩ token member
    rw [List.mem_singleton.mp member]
    have plain := @of_mem_respellings _ _ (fun token _ => !token.isOpening && !token.isClosing && token != comma)
      (by decide) pair
    simpa [IsFlat, and_assoc] using plain
  wordFlat := by
    rintro _ _ ⟨-, before, after⟩
    exact forall_mem_word before after ⟨⟨rfl, rfl⟩, by decide⟩ ⟨⟨rfl, rfl⟩, by rintro ⟨⟩⟩
  others := by
    rintro _ _ ⟨pair, before, after⟩ form
    refine forall_mem_word before after (by rintro ⟨⟩) fun same => ?_
    have plain := @of_mem_respellings _ _ (fun _ text => callForms.all fun form => text != form.head.toList)
      (by decide) pair
    exact bne_iff_ne.mp (List.all_eq_true.mp plain form (mem_callForms form)) (Token.mk.inj same).2
  visible := by
    rintro _ _ ⟨pair, -, -⟩
    refine ⟨_, List.mem_singleton_self _, ?_⟩
    have plain := @of_mem_respellings _ _ (fun token _ => !token.isTrivia && !Text.allBlank token.text)
      (by decide) pair
    simpa [IsBlankToken] using plain
  loud := by
    rintro _ _ @⟨token, text, before, after, pair, -, -⟩
    refine ⟨⟨.ident, text⟩, by simp, ?_⟩
    have plain := @of_mem_respellings _ _
      (fun _ text => !(["(", ".", "print", "println"].map String.toList).contains text) (by decide) pair
    simpa [Token.isTrivia] using plain
  kept := fun _ => id
  dots := by
    rintro _ _ ⟨pair, -, -⟩ afterDot afterNewDot -
    have plain := @of_mem_respellings _ _ (fun token _ => !token.isTrivia && !isDot token) (by decide) pair
    rw [List.foldl_cons, List.foldl_nil, dotAfter]
    simp at plain
    simp [plain]

theorem respelt_normalizeWords (previous : Option Token) (tokens : List Token) :
    Respelt Rewords tokens (normalizeWords previous tokens) := by
  induction tokens generalizing previous with
  | nil => exact .nil
  | cons token rest ih =>
      cases level : levelWord? token with
      | some word =>
          have pair := mem_respellings (Or.inl level)
          have changed := @Rewords.word token word [] [] pair (by simp) (by simp)
          simp only [normalizeWords, level]
          exact .change changed (ih _)
      | none =>
          cases operator : operatorWord? token with
          | none =>
              rw [normalizeWords_cons_plain level operator]
              exact .keep token (ih _)
          | some word =>
              rw [normalizeWords_cons_operator level operator]
              exact .change (.word (mem_respellings (Or.inr operator)) (blank_of_ite _) (blank_of_ite _)) (ih _)

section

variable {before token next : Token} {tokens : List Token}

/-- A digit for a level ends where any other word does. -/
theorem IsLoose.exists_lexeme (loose : IsLoose before) :
    ∃ other, IsLexeme other ∧ other.kind = before.kind ∧ ∀ c, before.endsBefore c = other.endsBefore c := by
  rcases loose with whole | level
  · exact ⟨before, whole, rfl, fun _ => rfl⟩
  · obtain ⟨c, rfl, -⟩ := level.exists_digit
    exact ⟨⟨.ident, ['x']⟩, .word rfl rfl, rfl, fun _ => rfl⟩

theorem IsLexeme.exists_space (whole : IsLexeme token) (trivia : token.isTrivia = true) :
    ∃ c rest, token = ⟨.space, c :: rest⟩ ∧ isSpaceChar c = true := by
  cases whole with
  | space start _ => exact ⟨_, _, rfl, start⟩
  | _ => cases trivia

/-- A digit can follow where a name does, but not a dot. -/
theorem IsLoose.endsBefore_digit (loose : IsLoose before) {c digit : Char} (ends : before.endsBefore c = true)
    (word : isWordStart c = true) (isDigit : digit.isDigit = true) :
    before.endsBefore digit = true ∨ before = dotToken := by
  have isWord := isWordChar_of_isWordStart word
  rcases loose with whole | level
  · cases whole with
    | space => exact Or.inl (by simp [Token.endsBefore, isSpaceChar_eq_false isDigit rfl])
    | word => simp [Token.endsBefore, isWord] at ends
    | number => simp [Token.endsBefore, isNumberChar_of_isWordChar isWord] at ends
    | literal => exact Or.inl rfl
    | @mark mark single =>
        by_cases dot : mark = '.'
        · exact Or.inr (by rw [dot]; rfl)
        · refine Or.inl ?_
          have noPair : isOperatorPair mark digit = false := by
            by_contra operator
            have isSecond := (mem_of_isOperatorPair (Bool.not_eq_false _ ▸ operator)).2
            have others : ['=', '<', '>', '&', '|', '+', '-', ':'].all (!·.isDigit) = true := rfl
            have noDigit := List.all_eq_true.mp others digit isSecond
            simp [isDigit] at noDigit
          have noComment : digit ≠ '/' ∧ digit ≠ '*' := ⟨ne_of_holds isDigit rfl, ne_of_holds isDigit rfl⟩
          simp [Token.endsBefore, noPair, dot, noComment]
    | pair => exact Or.inl rfl
  · obtain ⟨c, rfl, -⟩ := level.exists_digit
    simp [Token.endsBefore, isWord] at ends

theorem isLoose_word {text : Text} (pair : (token, text) ∈ respellings) : IsLoose ⟨.ident, text⟩ := by
  have spelled := @of_mem_respellings _ _ (fun _ text => text == ['1'] || text == ['0'] ||
    text.head?.any isWordStart && text.all isWordChar) (by decide) pair
  rw [Bool.or_eq_true, Bool.or_eq_true, beq_iff_eq, beq_iff_eq] at spelled
  rcases spelled with (rfl | rfl) | word
  · exact Or.inr (Or.inl rfl)
  · exact Or.inr (Or.inr rfl)
  · cases text with
    | nil => cases word
    | cons c rest =>
        rw [List.all_cons, Bool.and_eq_true, Bool.and_eq_true] at word
        exact Or.inl (.word word.1 word.2.2)

/-- The word for a level can follow where the level does. -/
theorem adjoins_level {text : Text} (pair : (token, text) ∈ levelRespellings) (loose : IsLoose before)
    (adjoins : Adjoins before token) : Adjoins before ⟨.ident, text⟩ := by
  have meets {c : Char} (first : token.text.head? = some c) (noDigit : ¬ IsLevelDigit token) :
      before.endsBefore c = true :=
    adjoins.resolve_right (fun both => noDigit both.2) c first
  have digit {c d : Char} (ends : before.endsBefore c = true) (word : isWordStart c = true)
      (level : IsLevelDigit ⟨.ident, [d]⟩) (isDigit : d.isDigit = true) : Adjoins before ⟨.ident, [d]⟩ :=
    (loose.endsBefore_digit ends word isDigit).imp (fun apart next first => Option.some.inj first ▸ apart)
      fun isDot => ⟨isDot, level⟩
  have letter {c d : Char} {rest : Text} (ends : before.endsBefore c = true) (word : isWordStart c = true)
      (start : isCallStart d = true) : Adjoins before ⟨.ident, d :: rest⟩ := by
    obtain ⟨other, whole, -, same⟩ := loose.exists_lexeme
    rw [same] at ends
    refine Or.inl fun next first => ?_
    rw [← Option.some.inj first, same]
    exact endsBefore_callStart whole ends word start
  simp only [levelRespellings, List.mem_cons, List.not_mem_nil, or_false, Prod.mk.injEq] at pair
  rcases pair with ⟨rfl, rfl⟩ | ⟨rfl, rfl⟩ | ⟨rfl, rfl⟩ | ⟨rfl, rfl⟩
  · exact digit (meets rfl (by decide)) rfl (Or.inl rfl) rfl
  · exact digit (meets rfl (by decide)) rfl (Or.inr rfl) rfl
  · exact letter (meets rfl (by decide)) rfl rfl
  · exact letter (meets rfl (by decide)) rfl rfl

theorem adjoins_blank (loose : IsLoose before) (shown : before.isTrivia = false) : Adjoins before blankToken := by
  obtain ⟨other, whole, kind, same⟩ := loose.exists_lexeme
  refine Or.inl fun next first => ?_
  rw [← Option.some.inj first, same]
  refine endsBefore_space whole (fun space => ?_) rfl
  rw [Token.isTrivia, ← kind, space] at shown
  cases shown

/-- The word for an operator can follow what it is not set off from. -/
theorem adjoins_operator {text : Text} (pair : (token, text) ∈ operatorRespellings) (loose : IsLoose before)
    (apart : touches before = false) : Adjoins before ⟨.ident, text⟩ := by
  have spaced : ∀ c ∈ text.head?, isSpaceChar c = false := by
    have plain : operatorRespellings.all (fun pair => pair.2.head?.all (!isSpaceChar ·)) = true := by decide
    intro c first
    have noSpace := List.all_eq_true.mp plain (token, text) pair
    rw [Option.mem_def.mp first] at noSpace
    simpa using noSpace
  rw [touches, Bool.and_eq_false_iff, Bool.and_eq_false_iff] at apart
  simp only [Bool.not_eq_false'] at apart
  refine Or.inl fun c first => ?_
  rcases apart with (trivia | opening) | opening
  · obtain ⟨d, rest, rfl, -⟩ := IsLexeme.exists_space (loose.resolve_right fun level => by
      obtain ⟨c, rfl, -⟩ := level.exists_digit
      cases trivia) trivia
    simp [Token.endsBefore, spaced c first]
  · rw [eq_of_isPunct opening]
    exact delimiter_endsBefore rfl c
  · rw [eq_of_isPunct opening]
    exact delimiter_endsBefore rfl c

/-- The respelt tokens stay apart, and they can follow what the tokens can follow. -/
def StaysApart (previous : Option Token) (tokens : List Token) : Prop :=
  IsLooselyCut (normalizeWords previous tokens) ∧
    ∀ before, previous = some before → IsLoose before → (∀ next ∈ tokens.head?, Adjoins before next) →
      ∀ next ∈ (normalizeWords previous tokens).head?, Adjoins before next

/-- Behind the word for an operator a blank stands where the next token would touch it. -/
theorem StaysApart.behindOperator {text : Text} (isWord : IsLoose ⟨.ident, text⟩) (cut : IsCut tokens)
    (apart : ∀ previous, StaysApart previous tokens) :
    IsLooselyCut (⟨.ident, text⟩ :: (operatorBlank tokens ++
      normalizeWords (some ((operatorBlank tokens).getLastD ⟨.ident, text⟩)) tokens)) := by
  unfold operatorBlank
  split
  · rename_i shown
    obtain ⟨more, onward⟩ := apart (some blankToken)
    have isBlank : IsLoose blankToken := Or.inl (.space rfl rfl)
    have spaced : IsLooselyCut (blankToken :: normalizeWords (some blankToken) tokens) := by
      refine more.cons isBlank (onward _ rfl isBlank fun next isNext => Or.inl fun c first => ?_)
      have visible : next.isTrivia = false := by simpa [Option.mem_def.mp isNext] using shown
      have tight := isSpaceChar_first (cut.whole next (List.mem_of_mem_head? isNext))
        (fun space => by rw [Token.isTrivia, space] at visible; cases visible) c first
      simp [Token.endsBefore, blankToken, tight]
    refine spaced.cons isWord fun next isNext => ?_
    rw [← Option.some.inj isNext]
    exact adjoins_blank isWord rfl
  · rename_i hidden
    obtain ⟨more, onward⟩ := apart (some ⟨.ident, text⟩)
    refine more.cons isWord (onward _ rfl isWord fun next isNext => Or.inl fun c first => ?_)
    have trivia : next.isTrivia = true := by simpa [Option.mem_def.mp isNext] using hidden
    obtain ⟨d, others, rfl, space⟩ := IsLexeme.exists_space (cut.whole next (List.mem_of_mem_head? isNext)) trivia
    have noWord : isWordChar d = false := by
      by_contra word
      rw [isSpaceChar_eq_false (Bool.not_eq_false _ ▸ word) rfl] at space
      cases space
    rw [← Option.some.inj first]
    simp [Token.endsBefore, noWord]

/-- The word for an operator, set off by blanks. -/
theorem StaysApart.of_operator {text : Text} {previous : Option Token} (level : levelWord? token = none)
    (operator : operatorWord? token = some text) (cut : IsCut tokens)
    (apart : ∀ previous, StaysApart previous tokens) : StaysApart previous (token :: tokens) := by
  have pair := mem_operatorRespellings operator
  have isWord := isLoose_word (mem_respellings (Or.inr operator))
  have worded := StaysApart.behindOperator isWord cut apart
  rw [StaysApart, normalizeWords_cons_operator level operator, List.append_assoc, List.cons_append]
  by_cases set : previous.any touches = true
  · rw [if_pos set]
    have isBlank : IsLoose blankToken := Or.inl (.space rfl rfl)
    refine ⟨worded.cons isBlank fun next isNext => ?_, fun before isBefore loose _ next isNext => ?_⟩
    · rw [← Option.some.inj isNext]
      exact adjoins_operator pair isBlank rfl
    · rw [isBefore, Option.any_some, touches, Bool.and_eq_true, Bool.and_eq_true] at set
      rw [← Option.some.inj isNext]
      exact adjoins_blank loose (by simpa using set.1.1)
  · rw [if_neg set]
    refine ⟨worded, fun before isBefore loose _ next isNext => ?_⟩
    rw [isBefore, Option.any_some, Bool.not_eq_true] at set
    rw [← Option.some.inj isNext]
    exact adjoins_operator pair loose set

theorem staysApart_normalizeWords (cut : IsCut tokens) (previous : Option Token) :
    StaysApart previous tokens := by
  induction tokens generalizing previous with
  | nil =>
      refine ⟨⟨fun token member => ?_, .nil⟩, fun _ _ _ _ next member => ?_⟩
      · cases member
      · cases member
  | cons token rest ih =>
      have whole := cut.whole token List.mem_cons_self
      have restCut : IsCut rest := cut.part ⟨[token], [], by simp⟩
      have meets := (List.isChain_cons.mp cut.chain).1
      cases level : levelWord? token with
      | some text =>
          have isWord := isLoose_word (mem_respellings (Or.inl level))
          obtain ⟨more, onward⟩ := ih restCut (some ⟨.ident, text⟩)
          have ident := (levelWord?_eq_some level).1
          simp only [StaysApart, normalizeWords, level]
          refine ⟨more.cons isWord (onward _ rfl isWord fun next isNext => Or.inl fun c first => ?_),
            fun before _ loose adjoins next isNext => ?_⟩
          · have ends := meets next isNext c first
            rw [Token.endsBefore, ident] at ends
            exact ends
          · rw [← Option.some.inj isNext]
            exact adjoins_level (mem_levelRespellings level) loose (adjoins token rfl)
      | none =>
          cases operator : operatorWord? token with
          | none =>
              obtain ⟨more, onward⟩ := ih restCut (some token)
              rw [StaysApart, normalizeWords_cons_plain level operator]
              refine ⟨more.cons (Or.inl whole) (onward token rfl (Or.inl whole) fun next isNext =>
                Or.inl (meets next isNext)), fun before _ _ adjoins next isNext => ?_⟩
              rw [← Option.some.inj isNext]
              exact adjoins token rfl
          | some text =>
              exact .of_operator level operator restCut (ih restCut)

end

section

variable {tokens made : List Token}

/-- What letters, digits and underscores spell is a name or a number. -/
theorem IsLoose.kind_of_word {token : Token} (loose : IsLoose token) (word : token.text.all isWordChar = true) :
    token.kind = .ident ∨ token.kind = .number := by
  rcases loose with whole | level
  · cases whole with
    | word => exact Or.inl rfl
    | number => exact Or.inr rfl
    | space start =>
        rw [List.all_cons, Bool.and_eq_true] at word
        rw [isSpaceChar_eq_false word.1 rfl] at start
        cases start
    | literal start =>
        rw [List.all_cons, Bool.and_eq_true] at word
        rw [isQuote_eq_false word.1 rfl rfl] at start
        cases start
    | mark single =>
        rw [List.all_cons, Bool.and_eq_true, isWordChar, Char.isAlphanum] at word
        rw [isMark, isWordStart] at single
        simp_all
    | @pair first second operator =>
        have others : ['=', '!', '<', '>', '&', '|', '+', '-', '*', '/', ':'].all (!isWordChar ·) = true := rfl
        have noWord := List.all_eq_true.mp others first (mem_of_isOperatorPair operator).1
        rw [List.all_cons, Bool.and_eq_true] at word
        rw [word.1] at noWord
        cases noWord
  · obtain ⟨c, rfl, -⟩ := level.exists_digit
    exact Or.inl rfl

/-- A text of letters, digits and underscores is that of one token. -/
theorem eq_nil_of_word {token : Token} {more : List Token} (cut : IsLooselyCut (token :: more))
    (word : (render (token :: more)).all isWordChar = true) : more = [] := by
  cases more with
  | nil => rfl
  | cons next others =>
      rw [render_cons, render_cons, List.all_append, List.all_append, Bool.and_eq_true, Bool.and_eq_true] at word
      have kind := (cut.whole token List.mem_cons_self).kind_of_word word.1
      obtain ⟨c, rest, textEq⟩ := List.exists_cons_of_ne_nil (cut.whole next (by simp)).text_ne_nil
      rw [textEq, List.all_cons, Bool.and_eq_true] at word
      rcases (List.isChain_cons_cons.mp cut.chain).1 with meets | ⟨rfl, -⟩
      · have ends := meets c (by rw [textEq]; rfl)
        rcases kind with ident | number
        · simp [Token.endsBefore, ident, word.2.1.1] at ends
        · simp [Token.endsBefore, number, isNumberChar_of_isWordChar word.2.1.1] at ends
      · rcases kind with impossible | impossible <;> cases impossible

theorem first_shown_eq {p : Token → Prop} {front lead back trail : List Token} {token other : Token}
    (frontAll : ∀ blank ∈ front, p blank) (leadAll : ∀ blank ∈ lead, p blank) (shown : ¬ p token)
    (otherShown : ¬ p other) (same : front ++ token :: back = lead ++ other :: trail) :
    token = other ∧ back = trail := by
  induction front generalizing lead with
  | nil =>
      cases lead with
      | nil => exact List.cons.inj same
      | cons first lead =>
          rw [(List.cons.inj same).1] at shown
          exact absurd (leadAll first List.mem_cons_self) shown
  | cons first front ih =>
      cases lead with
      | nil =>
          rw [← (List.cons.inj same).1] at otherShown
          exact absurd (frontAll first List.mem_cons_self) otherShown
      | cons second lead =>
          exact ih (List.forall_mem_cons.mp frontAll).2 (List.forall_mem_cons.mp leadAll).2 (List.cons.inj same).2

theorem shown_of_rewords {run word : List Token} (rewords : Rewords run word) :
    ∃ token ∈ word, ¬ IsBlankToken token := by
  obtain @⟨token, text, before, after, pair, -, -⟩ := rewords
  have plain := @of_mem_respellings _ _ (fun _ text => !Text.allBlank text) (by decide) pair
  refine ⟨⟨.ident, text⟩, by simp, ?_⟩
  simpa [IsBlankToken] using plain

theorem shown_of_run {run word : List Token} (rewords : Rewords run word) :
    ∃ token ∈ run, ¬ IsBlankToken token := by
  obtain ⟨token, member, -, shown⟩ := isRespelling_rewords.visible rewords
  exact ⟨token, member, shown⟩

/-- A token that stands alone among blanks is a word, or nothing is spelled anew. -/
theorem Respelt.exists_respelling {token : Token} {lead trail : List Token}
    (respelt : Respelt Rewords tokens made) (split : made = lead ++ token :: trail)
    (leadBlank : ∀ blank ∈ lead, IsBlankToken blank) (shown : ¬ IsBlankToken token)
    (trailBlank : ∀ blank ∈ trail, IsBlankToken blank) :
    tokens = made ∨ ∃ old front back, (old, token.text) ∈ respellings ∧ tokens = front ++ old :: back ∧
      (∀ blank ∈ front, IsBlankToken blank) ∧ ∀ blank ∈ back, IsBlankToken blank := by
  induction respelt generalizing lead with
  | nil => simp at split
  | @keep rest made first more ih =>
      cases lead with
      | nil =>
          obtain ⟨-, rfl⟩ := List.cons.inj split
          rw [more.eq_of_made shown_of_rewords trailBlank]
          exact Or.inl rfl
      | cons blank lead =>
          obtain ⟨rfl, onward⟩ := List.cons.inj split
          obtain ⟨isBlank, leadRest⟩ := List.forall_mem_cons.mp leadBlank
          rcases ih onward leadRest with same | ⟨old, front, back, pair, rfl, frontBlank, backBlank⟩
          · rw [same]
            exact Or.inl rfl
          · exact Or.inr ⟨old, first :: front, back, pair, rfl, List.forall_mem_cons.mpr ⟨isBlank, frontBlank⟩,
              backBlank⟩
  | @change run word rest made spelled more ih =>
      obtain @⟨old, text, before, after, pair, blankBefore, blankAfter⟩ := spelled
      have plain := @of_mem_respellings _ _ (fun _ text => !Text.allBlank text) (by decide) pair
      have wordShown : ¬ IsBlankToken ⟨.ident, text⟩ := by simpa [IsBlankToken] using plain
      rw [List.append_assoc, List.cons_append] at split
      obtain ⟨rfl, rfl⟩ := first_shown_eq (blank_of_mem blankBefore) leadBlank wordShown shown split
      have restBlank := (List.forall_mem_append.mp trailBlank).2
      obtain rfl := more.eq_of_made shown_of_rewords restBlank
      exact Or.inr ⟨old, [], rest, pair, rfl, by simp, restBlank⟩

theorem isSolid_of_isLoose {token : Token} (loose : IsLoose token) : IsSolid token := by
  rcases loose with whole | level
  · exact isSolid_of_isLexeme whole
  · obtain ⟨c, rfl, digit⟩ := level.exists_digit
    exact Or.inr (isTight_of_numberChars (List.cons_ne_nil c []) (by simpa using isNumberChar_of_isDigit digit))

/-- What names a pin once the words are put in named one before, but for the word for an operator. -/
theorem pin_of_respelt (cut : IsLooselyCut made) (respelt : Respelt Rewords tokens made)
    (pin : IsPinOperand (Text.trim (render made))) : IsPinReference (Text.trim (render tokens)) := by
  obtain ⟨lead, part, trail, split, leadBlank, trailBlank, trimmed, tight⟩ :=
    exists_trim_render fun token member => isSolid_of_isLoose (cut.whole token member)
  cases part with
  | nil =>
      have blank : ∀ token ∈ made, IsBlankToken token := by
        rw [split]
        exact List.forall_mem_append.mpr ⟨leadBlank, by simpa using trailBlank⟩
      rw [respelt.eq_of_made shown_of_rewords blank]
      exact pin.1
  | cons token more =>
      rw [trimmed] at pin
      have partCut : IsLooselyCut (token :: more) := cut.part ⟨lead, trail, by simp [split]⟩
      obtain rfl := eq_nil_of_word partCut (all_isWordChar_of_isPinReference pin.1)
      rw [render_cons, render_nil, List.append_nil] at pin trimmed tight
      have shown : ¬ IsBlankToken token := by
        have visible := (tight (List.cons_ne_nil _ _)).allBlank_append [] []
        rw [List.nil_append, List.append_nil] at visible
        rw [IsBlankToken, visible]
        exact Bool.false_ne_true
      rcases respelt.exists_respelling split leadBlank shown trailBlank with
        same | ⟨old, front, back, pair, rfl, frontBlank, backBlank⟩
      · rw [same, trimmed]
        exact pin.1
      · rcases List.mem_append.mp pair with level | operator
        · have checked : levelRespellings.all (fun pair => (PinRef.ofText? pair.1.text).isSome &&
              Text.trim pair.1.text == pair.1.text) = true := by
            decide
          have oldPin := List.all_eq_true.mp checked _ level
          rw [Bool.and_eq_true, beq_iff_eq] at oldPin
          rw [render_append, render_cons, Text.trim_blank_append (allBlank_render frontBlank),
            Text.trim_append_blank (allBlank_render backBlank), oldPin.2]
          exact oldPin.1
        · have isWord := List.all_eq_true.mp
            (show operatorRespellings.all (fun pair => operatorWords.contains pair.2) = true by decide) _ operator
          exact absurd (by simpa using isWord) pin.2

end

end Breadboard.Script
