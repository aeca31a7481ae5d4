import Breadboard.Proofs.Script.BlockCode
import Breadboard.Proofs.Script.NumericLiteral
import Breadboard.Script.Loop

set_option autoImplicit false

namespace Breadboard.Script

open Sketch hiding stripComments

/-- The tokens between the parentheses of a delay: a number or a name. -/
inductive IsDuration : List Token → Prop where
  | number {tokens : List Token} (number : IsNumberTokens tokens) : IsDuration tokens
  | name {word : Text} (isWord : isIdentifier word = true) : IsDuration [⟨.ident, word⟩]

/-- The characters of numbers and names. -/
def isDurationChar (c : Char) : Bool :=
  isNumberChar c || c == '+' || c == '-'

theorem isDurationChar_of_isNumberChar {c : Char} (number : isNumberChar c = true) :
    isDurationChar c = true := by
  rw [isDurationChar, number]
  rfl

theorem isLineChar_of_isDurationChar {c : Char} (known : isDurationChar c = true) :
    isLineChar c = true := by
  simp only [isDurationChar, isNumberChar, Bool.or_eq_true, beq_iff_eq] at known
  rcases known with (((alphanumeric | rfl) | rfl) | rfl) | rfl
  · exact isLineChar_of_isWordChar (by rw [isWordChar, alphanumeric, Bool.true_or])
  all_goals rfl

theorem isBlank_of_isDurationChar {c : Char} (known : isDurationChar c = true) :
    Text.isBlank c = false :=
  isBlank_eq_false (isLineChar_of_isDurationChar known) (isSpaceChar_eq_false known rfl)

namespace IsNumberTokens

variable {tokens : List Token}

theorem isCut (number : IsNumberTokens tokens) : IsCut tokens := by
  cases number with
  | one number => exact ⟨List.forall_mem_singleton.mpr number, .singleton _⟩
  | @signed front back sign number isSign onward digit =>
      have mark : IsLexeme ⟨.punct, [sign]⟩ := .mark (by rcases isSign with rfl | rfl <;> rfl)
      refine .cons number (fun next isNext c first => ?_) (.cons mark (fun next isNext c first => ?_)
        ⟨List.forall_mem_singleton.mpr onward, .singleton _⟩)
      · obtain rfl := Option.some.inj isNext
        obtain rfl := Option.some.inj first
        rcases isSign with rfl | rfl <;> rfl
      · obtain rfl := Option.some.inj isNext
        have isDigit := digit c first
        have outside : ['=', '<', '>', '&', '|', '+', '-', ':'].contains c = false := by
          by_contra operator
          simp only [List.contains_eq_mem, Bool.not_eq_false, decide_eq_true_eq, List.mem_cons,
            List.not_mem_nil, or_false] at operator
          rcases operator with rfl | rfl | rfl | rfl | rfl | rfl | rfl | rfl <;> cases isDigit
        rcases isSign with rfl | rfl <;> simp [Token.endsBefore, isOperatorPair_eq_false outside]

theorem isIdent (number : IsNumberTokens tokens) (word : String) :
    ∀ token ∈ tokens, token.isIdent word = false := by
  cases number <;> simp [Token.isIdent]

end IsNumberTokens

namespace IsDuration

variable {inner : List Token}

theorem notEmpty (duration : IsDuration inner) : inner ≠ [] := by
  cases duration with
  | number number => cases number <;> exact List.cons_ne_nil _ _
  | name => exact List.cons_ne_nil _ _

theorem isCut (duration : IsDuration inner) : IsCut inner := by
  cases duration with
  | number number => exact number.isCut
  | name isWord => exact (isFragment_word isWord).cut

/-- The marks in a duration are signs. -/
theorem isPunct (duration : IsDuration inner) {mark : String} (noSign : mark ≠ "+" ∧ mark ≠ "-") :
    ∀ token ∈ inner, token.isPunct mark = false := by
  cases duration with
  | name => simp [Token.isPunct]
  | number number =>
      cases number with
      | one => simp [Token.isPunct]
      | @signed front back sign _ isSign _ _ =>
          have differs : Token.isPunct mark ⟨.punct, [sign]⟩ = false := by
            rcases isSign with rfl | rfl
            · exact isPunct_of_ne noSign.1
            · exact isPunct_of_ne noSign.2
          exact List.forall_mem_cons.mpr ⟨rfl, List.forall_mem_cons.mpr
            ⟨differs, List.forall_mem_singleton.mpr rfl⟩⟩

theorem isTrivia (duration : IsDuration inner) : ∀ token ∈ inner, token.isTrivia = false := by
  cases duration with
  | name => simp [Token.isTrivia]
  | number number => cases number <;> simp [Token.isTrivia]

theorem isDurationChar (duration : IsDuration inner) :
    ∀ token ∈ inner, ∀ c ∈ token.text, isDurationChar c = true := by
  cases duration with
  | name isWord =>
      refine List.forall_mem_singleton.mpr fun c member => isDurationChar_of_isNumberChar ?_
      exact isNumberChar_of_isWordChar
        (List.all_eq_true.mp (all_isWordChar_of_isIdentifier isWord) c member)
  | number number =>
      cases number with
      | one number =>
          exact List.forall_mem_singleton.mpr fun c member =>
            isDurationChar_of_isNumberChar (isNumberChar_of_isLexeme number c member)
      | @signed front back sign number isSign onward _ =>
          have sign : ∀ c ∈ [sign], Script.isDurationChar c = true := by
            rcases isSign with rfl | rfl <;> exact List.forall_mem_singleton.mpr rfl
          exact List.forall_mem_cons.mpr ⟨fun c member =>
              isDurationChar_of_isNumberChar (isNumberChar_of_isLexeme number c member),
            List.forall_mem_cons.mpr ⟨sign, List.forall_mem_singleton.mpr fun c member =>
              isDurationChar_of_isNumberChar (isNumberChar_of_isLexeme onward c member)⟩⟩

theorem isFragment (duration : IsDuration inner) : IsFragment inner := by
  refine ⟨duration.isCut, fun token member => List.all_eq_true.mpr fun c inText =>
    isLineChar_of_isDurationChar (duration.isDurationChar token member c inText),
    fun token member => ?_⟩
  rw [Token.isBlockMark, duration.isPunct (by decide) token member,
    duration.isPunct (by decide) token member, duration.isPunct (by decide) token member]
  rfl

theorem isBalanced (duration : IsDuration inner) : IsBalanced inner :=
  parenDepth?_of_plain (fun token member => ⟨duration.isPunct (by decide) token member,
    duration.isPunct (by decide) token member⟩) 0

theorem isTight (duration : IsDuration inner) : Text.IsTight (render inner) := by
  have visible : ∀ c ∈ render inner, Text.isBlank c = false := by
    intro c member
    obtain ⟨token, inTokens, inText⟩ := List.mem_flatMap.mp member
    exact isBlank_of_isDurationChar (duration.isDurationChar token inTokens c inText)
  refine ⟨?_, fun c first => visible c (List.mem_of_mem_head? first),
    fun c last => visible c (List.mem_of_getLast? last)⟩
  obtain ⟨first, rest, rfl⟩ := List.exists_cons_of_ne_nil duration.notEmpty
  have nonempty := (duration.isCut.whole first List.mem_cons_self).text_ne_nil
  simp [nonempty]

end IsDuration

/-- Behind each use of the name a group ends. -/
def IsUncalled (head : String) (tokens : List Token) : Prop :=
  tokens.IsChain fun token next => token.isIdent head = true → next = closeParen

theorem IsUncalled.of_absent {head : String} {tokens : List Token}
    (absent : ∀ token ∈ tokens, token.isIdent head = false) : IsUncalled head tokens := by
  induction tokens with
  | nil => exact .nil
  | cons token rest ih =>
      refine List.isChain_cons.mpr ⟨fun next _ named => ?_,
        ih fun other member => absent other (List.mem_cons_of_mem _ member)⟩
      rw [absent token List.mem_cons_self] at named
      cases named

theorem IsUncalled.cons {head : String} {token : Token} {rest : List Token}
    (other : token.isIdent head = false) (uncalled : IsUncalled head rest) :
    IsUncalled head (token :: rest) := by
  refine List.isChain_cons.mpr ⟨fun next _ named => ?_, uncalled⟩
  rw [other] at named
  cases named

section

variable {head : String} {tail : List String} {replacement : Call → Option Text}

theorem afterPath?_closeParen (path : IsPath tail) (rest : List Token) :
    (afterPath? tail (closeParen :: rest)).bind parenthesized? = none := by
  cases tail with
  | nil => rfl
  | cons part parts =>
      have other : closeParen.text ≠ part.toList := by
        intro same
        have noMark := (isPunct_eq_false_of_path path List.mem_cons_self same).2.1
        cases noMark
      have first : dropTrivia (closeParen :: rest) = closeParen :: rest := rfl
      simp [afterPath?, first, other]

/-- A name is not called where a group ends behind it. -/
theorem replaceWithin_of_isUncalled (path : IsPath tail) {tokens : List Token}
    (uncalled : IsUncalled head tokens) (budget : Nat) (afterDot : Bool) :
    replaceWithin head tail replacement budget afterDot tokens = tokens := by
  refine replaceWithin_of_uncalled (fun token rest suffix => ?_) budget afterDot
  by_cases named : token.isIdent head = true
  · have noGroup : (afterPath? tail rest).bind parenthesized? = none := by
      cases rest with
      | nil => cases tail <;> rfl
      | cons next more =>
          have chain : List.IsChain _ (token :: next :: more) :=
            List.IsChain.infix uncalled suffix.isInfix
          obtain rfl := (List.isChain_cons_cons.mp chain).1 named
          exact afterPath?_closeParen path more
    rw [callAt?, if_pos named]
    simp only [Option.bind_eq_bind, ← Option.bind_assoc, noGroup, Option.bind_none]
  · exact callAt?_of_not_isIdent (by simpa using named) rest

end

/-- The text that delays for a duration. -/
def delayText (duration : Text) : Text :=
  "delay(".toList ++ duration ++ ");".toList

theorem render_delay (inner : List Token) :
    render (callStatement "delay" inner) = delayText (render inner) := by
  show _ = "delay(".toList ++ render inner ++ ");".toList
  simp [callStatement]

/-- The text that waits for a duration. -/
def waitText (duration : Text) : Text :=
  "time.sleep_ms(".toList ++ duration ++ ")".toList

/-- The tokens that wait for a duration. -/
def waitTokens (inner : List Token) : List Token :=
  methodCall "time".toList "sleep_ms" inner

theorem render_waitTokens (inner : List Token) : render (waitTokens inner) = waitText (render inner) := by
  simp only [waitTokens, methodCall, render_append, render_nameTokens, render_cons, render_nil,
    List.append_nil]
  rfl

theorem isTight_waitText (duration : Text) : Text.IsTight (waitText duration) :=
  @Text.isTight_enclosed 't' ')' (by decide) (by decide) ("ime.sleep_ms(".toList ++ duration)

theorem sleepDuration?_waitText (duration : Text) :
    sleepDuration? (waitText duration) = Text.numeralBelow? waitBound duration := by
  have closing : [')'].isSuffixOf? (duration ++ [')']) = some duration :=
    List.isSuffixOf?_eq_some_iff_append_eq.mpr rfl
  have argument : callArgument? "time.sleep_ms" (waitText duration) = some duration := by
    have opened : callArgument? "time.sleep_ms" (waitText duration) =
        [')'].isSuffixOf? (duration ++ [')']) := rfl
    rw [opened, closing]
  rw [sleepDuration?, (isTight_waitText duration).trim_eq, argument]

/-- What goes on in another line is no wait. -/
theorem sleepDuration?_onward (duration : Text) {onward : Text}
    (visible : Text.allBlank onward = false) :
    sleepDuration? (waitText duration ++ '\n' :: onward) = none := by
  obtain ⟨kept, nonempty⟩ := Text.trimEnd_append visible (waitText duration ++ ['\n'])
  have trimmed : Text.trim (waitText duration ++ '\n' :: onward) =
      waitText duration ++ '\n' :: Text.trimEnd onward := by
    have start : Text.trimStart (waitText duration ++ '\n' :: onward) =
        waitText duration ++ '\n' :: onward := rfl
    rw [Text.trim, start]
    simpa using kept
  have argument : callArgument? "time.sleep_ms" (waitText duration ++ '\n' :: Text.trimEnd onward) =
      [')'].isSuffixOf? (duration ++ [')'] ++ '\n' :: Text.trimEnd onward) := rfl
  have noSeconds : callArgument? "time.sleep" (waitText duration ++ '\n' :: Text.trimEnd onward) =
      none := rfl
  rw [sleepDuration?, trimmed, argument, noSeconds]
  cases found : [')'].isSuffixOf? (duration ++ [')'] ++ '\n' :: Text.trimEnd onward) with
  | none => rfl
  | some count =>
      have split := List.isSuffixOf?_eq_some_iff_append_eq.mp found
      have same := congrArg List.dropLast split
      rw [List.dropLast_concat, List.dropLast_append_of_ne_nil (List.cons_ne_nil _ _),
        List.dropLast_cons_of_ne_nil nonempty] at same
      have member : '\n' ∈ count := by simp [same]
      show Text.numeralBelow? waitBound count = none
      rw [Text.numeralBelow?, Text.numeral?_eq_none member (by decide)]
      rfl

/-- The token in the script's spelling, if it is a level or a truth value. -/
def respell (token : Token) : Token :=
  ((levelWord? token).map fun word => ⟨.ident, word⟩).getD token

theorem normalizeWords_eq_map {tokens : List Token}
    (noOperator : ∀ token ∈ tokens, operatorWord? token = none) (previous : Option Token) :
    normalizeWords previous tokens = tokens.map respell := by
  induction tokens generalizing previous with
  | nil => rfl
  | cons token rest ih =>
      have others := ih fun other member => noOperator other (List.mem_cons_of_mem _ member)
      cases level : levelWord? token with
      | none =>
          rw [normalizeWords_cons_plain level (noOperator token List.mem_cons_self), others,
            List.map_cons, respell, level]
          rfl
      | some word =>
          simp only [normalizeWords, level, others, List.map_cons, respell, Option.map_some,
            Option.getD_some]

namespace IsDuration

variable {inner : List Token}

theorem isUncalled (duration : IsDuration inner) (head : String) :
    IsUncalled head (inner ++ [closeParen, semicolon]) := by
  have behind : IsUncalled head [closeParen, semicolon] :=
    .of_absent (List.forall_mem_cons.mpr ⟨rfl, List.forall_mem_singleton.mpr rfl⟩)
  cases duration with
  | number number =>
      refine .of_absent (List.forall_mem_append.mpr ⟨number.isIdent head, ?_⟩)
      exact List.forall_mem_cons.mpr ⟨rfl, List.forall_mem_singleton.mpr rfl⟩
  | name => exact List.isChain_cons_cons.mpr ⟨fun _ => rfl, behind⟩

theorem isUncalled_call (duration : IsDuration inner) {callee head : String} (other : callee ≠ head) :
    IsUncalled head (callStatement callee inner) :=
  .cons (by simpa [Token.isIdent, String.toList_inj] using other)
    (.cons rfl (duration.isUncalled head))

theorem tokenize_waitText (duration : IsDuration inner) :
    tokenize (waitText (render inner)) = waitTokens inner := by
  have fewer : inner.countP (·.isIdent "delay") ≤ inner.countP (·.isIdent "delay") := le_rfl
  have replaced := isReplacement_enclose opensCall_sleep (closesCall_parenthesis _)
    duration.isFragment duration.isBalanced fewer
  rw [← render_waitTokens]
  exact replaced.code.cut.tokenize_render

/-- Only the name of the function changes. -/
theorem convertDelay_eq (duration : IsDuration inner) :
    convertDelay (callStatement "delay" inner) = waitTokens inner ++ [semicolon] := by
  obtain ⟨budget, enough⟩ : ∃ budget, (render (callStatement "delay" inner)).length = budget + 1 :=
    ⟨_, rfl⟩
  have called : callAt? "delay" [] ⟨.ident, "delay".toList⟩
      (⟨.punct, "(".toList⟩ :: (inner ++ [closeParen, semicolon])) =
        some (Call.ofTokens inner, [semicolon]) :=
    callAt?_call "delay" duration.isBalanced [semicolon]
  have text : (Call.ofTokens inner).inner = render inner := duration.isTight.trim_eq
  have filled : (render inner).isEmpty = false := by simpa using duration.isTight.notEmpty
  have replaced : replaced? "delay" [] (fun call => if call.inner.isEmpty then none
      else some (waitText call.inner)) false ⟨.ident, "delay".toList⟩
        (⟨.punct, "(".toList⟩ :: (inner ++ [closeParen, semicolon])) =
      some (waitTokens inner ++ [semicolon]) := by
    rw [replaced?, if_neg Bool.false_ne_true, called]
    simp only [Option.bind_some, text, filled, Bool.false_eq_true, if_false, Option.map_some,
      duration.tokenize_waitText]
  have behind : IsUncalled "delay" (⟨.punct, ['.']⟩ :: ⟨.ident, "sleep_ms".toList⟩ ::
      ⟨.punct, ['(']⟩ :: (inner ++ [closeParen, semicolon])) :=
    .cons rfl (.cons (by decide) (.cons rfl (duration.isUncalled _)))
  have made : waitTokens inner ++ [semicolon] = ⟨.ident, "time".toList⟩ :: ⟨.punct, ['.']⟩ ::
      ⟨.ident, "sleep_ms".toList⟩ :: ⟨.punct, ['(']⟩ :: (inner ++ [closeParen, semicolon]) := by
    simp [waitTokens, methodCall, nameTokens, closeParen]
  rw [made] at replaced ⊢
  have first := @replaceWithin_cons_replace _ _ _ _ _ _ _ _ replaced budget
  rw [replaceWithin_of_isUncalled (by simp [IsPath]) behind] at first
  rw [convertDelay, replaceCalls, enough]
  exact first

theorem convertCalls_eq (duration : IsDuration inner) (context : Context) :
    convertCalls context (callStatement "delay" inner) = waitTokens inner ++ [semicolon] := by
  have noEquals : ∀ token ∈ callStatement "delay" inner, token.isPunct "=" = false :=
    List.forall_mem_cons.mpr ⟨rfl, List.forall_mem_cons.mpr ⟨rfl, List.forall_mem_append.mpr
      ⟨duration.isPunct (by decide), by decide⟩⟩⟩
  have analog : convertAnalogRead context (callStatement "delay" inner) = callStatement "delay" inner :=
    replaceWithin_of_isUncalled (by simp [IsPath]) (duration.isUncalled_call (by decide)) _ _
  have write : convertDigitalWrite context (callStatement "delay" inner) =
      callStatement "delay" inner :=
    replaceWithin_of_isUncalled (by simp [IsPath]) (duration.isUncalled_call (by decide)) _ _
  have read : convertDigitalRead context (callStatement "delay" inner) = callStatement "delay" inner :=
    replaceWithin_of_isUncalled (by simp [IsPath]) (duration.isUncalled_call (by decide)) _ _
  have printLine : convertPrintLine (callStatement "delay" inner) = callStatement "delay" inner :=
    replaceWithin_of_isUncalled (by unfold IsPath; decide) (duration.isUncalled_call (by decide)) _ _
  have print : convertPrint (callStatement "delay" inner) = callStatement "delay" inner :=
    replaceWithin_of_isUncalled (by unfold IsPath; decide) (duration.isUncalled_call (by decide)) _ _
  rw [convertCalls, stripTypes_eq_self noEquals, analog, write, read, printLine, print,
    duration.convertDelay_eq]

theorem isCut_call (duration : IsDuration inner) : IsCut (callStatement "delay" inner) := by
  have tight : ∀ token ∈ inner.getLast?, token.kind ≠ .space := by
    intro token last space
    have noTrivia := duration.isTrivia token (List.mem_of_getLast? last)
    simp [Token.isTrivia, space] at noTrivia
  have inside : IsCut (inner ++ [closeParen, semicolon]) :=
    isCut_append_apart duration.isCut tight
      (isCut_of_tokenize_eq (show tokenize ");".toList = _ by cbv) (by decide))
      (startsApart_delimiter rfl _)
  exact isCut_word_cons (.word rfl rfl) rfl (isCut_delimiter_cons rfl inside)
    (startsApart_delimiter rfl _)

theorem finishTokens_eq (duration : IsDuration inner) :
    finishTokens (waitTokens inner ++ [semicolon]) = waitText (render (inner.map respell)) := by
  have noOperator : ∀ token ∈ waitTokens inner ++ [semicolon], operatorWord? token = none := by
    have inside : ∀ token ∈ inner, operatorWord? token = none := by
      intro token member
      simp [operatorWord?, duration.isPunct (show "&&" ≠ "+" ∧ "&&" ≠ "-" by decide) token member,
        duration.isPunct (show "||" ≠ "+" ∧ "||" ≠ "-" by decide) token member,
        duration.isPunct (show "!" ≠ "+" ∧ "!" ≠ "-" by decide) token member]
    exact List.forall_mem_append.mpr ⟨List.forall_mem_append.mpr ⟨List.forall_mem_append.mpr
      ⟨by decide, inside⟩, by decide⟩, by decide⟩
  have respelled : (waitTokens inner ++ [semicolon]).map respell =
      waitTokens (inner.map respell) ++ [semicolon] := by
    simp only [waitTokens, methodCall, List.map_append]
    rfl
  have noHeader : header? (waitTokens (inner.map respell) ++ [semicolon]) = none := by
    have := header?_method (show "time".toList ∉ takenWords by decide)
      (⟨.ident, "sleep_ms".toList⟩ :: ⟨.punct, ['(']⟩ ::
        (inner.map respell ++ [closeParen, semicolon]))
    simpa [waitTokens, methodCall, closeParen] using this
  have kept : (waitTokens (inner.map respell) ++ [semicolon]).filter (!isPunctuationDropped ·) =
      waitTokens (inner.map respell) := by
    have inside : ∀ token ∈ inner, (!isPunctuationDropped (respell token)) = true := by
      intro token member
      rw [respell]
      cases levelWord? token with
      | none =>
          simp [isPunctuationDropped, duration.isPunct (show ";" ≠ "+" ∧ ";" ≠ "-" by decide) token
            member, duration.isPunct (show "\x7b" ≠ "+" ∧ "\x7b" ≠ "-" by decide) token member,
            duration.isPunct (show "\x7d" ≠ "+" ∧ "\x7d" ≠ "-" by decide) token member]
      | some word => rfl
    rw [List.filter_append, List.filter_eq_self.mpr]
    · exact List.append_nil _
    · exact List.forall_mem_append.mpr ⟨List.forall_mem_append.mpr
        ⟨by decide, List.forall_mem_map.mpr inside⟩, by decide⟩
  rw [finishTokens, normalizeWords_eq_map noOperator, respelled, convertHeader, noHeader]
  simp only [kept, render_waitTokens, (isTight_waitText _).trim_eq]

/-- The line of a delay. -/
theorem convertLine_eq (duration : IsDuration inner) (context : Context) :
    convertLine context (delayText (render inner)) = waitText (render (inner.map respell)) := by
  rw [← render_delay, convertLine_of_convertCalls duration.isCut_call rfl
    (duration.convertCalls_eq context), duration.finishTokens_eq]

end IsDuration

/-- The durations that the scheduler counts, and for how many milliseconds. -/
inductive Counts : Text → Nat → Prop where
  | digits {duration : Text} {wait : Nat} (numeral : Text.numeral? duration = some wait)
      (below : wait < waitBound) : Counts duration wait
  | high : Counts "HIGH".toList 1
  | low : Counts "LOW".toList 0

theorem counts_iff {duration : Text} {wait : Nat} :
    Counts duration wait ↔ Text.numeralBelow? waitBound duration = some wait ∨
      duration = "HIGH".toList ∧ wait = 1 ∨ duration = "LOW".toList ∧ wait = 0 := by
  rw [Text.numeralBelow?, Option.filter_eq_some_iff, decide_eq_true_eq]
  constructor
  · rintro (⟨numeral, below⟩ | _ | _)
    · exact Or.inl ⟨numeral, below⟩
    · exact Or.inr (Or.inl ⟨rfl, rfl⟩)
    · exact Or.inr (Or.inr ⟨rfl, rfl⟩)
  · rintro (⟨numeral, below⟩ | ⟨rfl, rfl⟩ | ⟨rfl, rfl⟩)
    · exact .digits numeral below
    · exact .high
    · exact .low

theorem numeralBelow?_of_isIdentifier {word : Text} (isWord : isIdentifier word = true) :
    Text.numeralBelow? waitBound word = none := by
  cases word with
  | nil => cases isWord
  | cons c rest =>
      rw [isIdentifier, Bool.and_eq_true] at isWord
      have notDigit : c.isDigit = false := by
        by_contra digit
        rw [isWordStart_of_isDigit (by simpa using digit)] at isWord
        cases isWord.1
      rw [Text.numeralBelow?, Text.numeral?_eq_none List.mem_cons_self notDigit]
      rfl

/-- Of the names, the scheduler counts the levels. -/
theorem counts_iff_of_isIdentifier {word : Text} (isWord : isIdentifier word = true) {wait : Nat} :
    Text.numeralBelow? waitBound (respell ⟨.ident, word⟩).text = some wait ↔ Counts word wait := by
  rw [counts_iff, numeralBelow?_of_isIdentifier isWord]
  by_cases isHigh : word = "HIGH".toList
  · subst isHigh
    have one : Text.numeralBelow? waitBound (respell ⟨.ident, "HIGH".toList⟩).text = some 1 := by decide
    rw [one]
    simp [eq_comm]
  by_cases isLow : word = "LOW".toList
  · subst isLow
    have zero : Text.numeralBelow? waitBound (respell ⟨.ident, "LOW".toList⟩).text = some 0 := by decide
    rw [zero]
    simp [eq_comm]
  have spelled : Text.numeralBelow? waitBound (respell ⟨.ident, word⟩).text = none := by
    have notHigh : Token.isIdent "HIGH" ⟨.ident, word⟩ = false := by simpa [Token.isIdent] using isHigh
    have notLow : Token.isIdent "LOW" ⟨.ident, word⟩ = false := by simpa [Token.isIdent] using isLow
    rw [respell, levelWord?, notHigh, notLow, if_neg Bool.false_ne_true, if_neg Bool.false_ne_true]
    split
    · exact @numeralBelow?_of_isIdentifier "True".toList rfl
    · split
      · exact @numeralBelow?_of_isIdentifier "False".toList rfl
      · exact numeralBelow?_of_isIdentifier isWord
  rw [spelled]
  simp only [isHigh, isLow, false_and, or_false]

theorem IsDuration.counts_iff {inner : List Token} (duration : IsDuration inner) {wait : Nat} :
    Text.numeralBelow? waitBound (render (inner.map respell)) = some wait ↔
      Counts (render inner) wait := by
  cases duration with
  | name isWord =>
      have counts := @counts_iff_of_isIdentifier _ isWord wait
      simpa using counts
  | number number =>
      have kept : inner.map respell = inner := by
        refine (List.map_congr_left fun token member => ?_).trans (List.map_id inner)
        have noLevel : levelWord? token = none := by
          simp only [levelWord?, number.isIdent _ token member, Bool.false_eq_true, if_false]
        rw [respell, noLevel]
        rfl
      have notNamed : ∀ word : String, isIdentifier word.toList = true → render inner ≠ word.toList := by
        intro word isWord same
        have cut := number.isCut.tokenize_render
        rw [same, tokenize_word isWord] at cut
        have other := number.isIdent word _ (by rw [← cut]; exact List.mem_cons_self)
        rw [isIdent_self] at other
        cases other
      rw [kept, Script.counts_iff]
      simp only [notNamed "HIGH" rfl, notNamed "LOW" rfl, false_and, or_false]

end Breadboard.Script
