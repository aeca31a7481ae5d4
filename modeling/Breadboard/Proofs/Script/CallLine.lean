import Breadboard.Proofs.Script.HeaderLine
import Breadboard.Proofs.Sketch.Apart

set_option autoImplicit false

namespace Breadboard.Script

open Sketch hiding stripComments

section

variable {head : String} {tail : List String} {replacement : Call → Option Text}

/-- Where the tokens use the name, a mark follows that opens no parentheses. -/
def IsIdle (head : String) (tokens : List Token) : Prop :=
  tokens.IsChain fun token next =>
    token.isIdent head = true → next.kind = .punct ∧ next.isPunct "(" = false

theorem IsIdle.of_absent {tokens : List Token} (absent : ∀ token ∈ tokens, token.isIdent head = false) :
    IsIdle head tokens := by
  induction tokens with
  | nil => exact .nil
  | cons token rest ih =>
      refine List.isChain_cons.mpr ⟨fun next _ named => ?_,
        ih fun other member => absent other (List.mem_cons_of_mem _ member)⟩
      rw [absent token List.mem_cons_self] at named
      cases named

theorem replaceCalls_of_idle {tokens : List Token} (idle : IsIdle head tokens) :
    replaceCalls head [] replacement tokens = tokens := by
  refine replaceWithin_of_uncalled (fun token rest suffix => ?_) _ _
  by_cases named : token.isIdent head = true
  · cases rest with
    | nil => simp [callAt?, named, afterPath?, parenthesized?, dropTrivia]
    | cons next more =>
        have chain : List.IsChain _ (token :: next :: more) := List.IsChain.infix idle suffix.isInfix
        obtain ⟨punct, notOpen⟩ := (List.isChain_cons_cons.mp chain).1 named
        simp [callAt?, named, afterPath?, parenthesized?, dropTrivia, Token.isTrivia, punct, notOpen]
  · exact callAt?_of_not_isIdent (by simpa using named) rest

theorem replaceCalls_of_absent {tokens : List Token}
    (absent : ∀ token ∈ tokens, token.isIdent head = false) :
    replaceCalls head tail replacement tokens = tokens :=
  replaceWithin_of_absent absent _ _

/-- The text put in place of the only call of a line. -/
theorem replaceCalls_once {front rest after : List Token} {token : Token} {call : Call} {text : Text}
    (before : ∀ other ∈ front, other.isIdent head = false ∧ other.isPunct "." = false)
    (called : callAt? head tail token rest = some (call, after)) (notEmpty : token.text ≠ [])
    (found : replacement call = some text) (textNotEmpty : text ≠ [])
    (absent : ∀ other ∈ tokenize text ++ after, other.isIdent head = false) :
    replaceCalls head tail replacement (front ++ token :: rest) = front ++ (tokenize text ++ after) := by
  have enough : ∃ budget, (render (front ++ token :: rest)).length = budget + 1 := by
    refine ⟨(render (front ++ token :: rest)).length - 1, ?_⟩
    have positive := List.length_pos_iff.mpr notEmpty
    rw [render_append, render_cons, List.length_append, List.length_append]
    omega
  obtain ⟨budget, budgetEq⟩ := enough
  rw [replaceCalls, budgetEq]
  clear budgetEq
  induction front with
  | nil =>
      obtain ⟨c, more, rfl⟩ := List.exists_cons_of_ne_nil textNotEmpty
      have replaced : replaced? head tail replacement false token rest =
          some (tokenize (c :: more) ++ after) := by
        rw [replaced?, if_neg Bool.false_ne_true, called, Option.bind_some]
        simp only [found, Option.map_some]
      rw [tokenize_cons, List.cons_append] at replaced absent
      rw [List.nil_append, List.nil_append, replaceWithin_cons_replace replaced,
        replaceWithin_of_absent fun other member => absent other (List.mem_cons_of_mem _ member),
        tokenize_cons, List.cons_append]
  | cons other front ih =>
      obtain ⟨notHead, notDot⟩ := before other List.mem_cons_self
      have noDot : isDotNext false other = false := by
        rw [isDotNext, notDot, ite_self]
      rw [List.cons_append, replaceWithin_cons_keep (replaced?_of_not_isIdent notHead false _), noDot,
        ih fun more member => before more (List.mem_cons_of_mem _ member), List.cons_append]

theorem callAt?_call (head : String) {inner : List Token} (balanced : IsBalanced inner)
    (after : List Token) :
    callAt? head [] ⟨.ident, head.toList⟩
        (⟨.punct, "(".toList⟩ :: (inner ++ ⟨.punct, ")".toList⟩ :: after)) =
      some (Call.ofTokens inner, after) := by
  have group : parenthesized? (⟨.punct, "(".toList⟩ :: (inner ++ ⟨.punct, ")".toList⟩ :: after)) =
      some (inner, after) := splitGroup_closing balanced after
  rw [callAt?, if_pos (isIdent_self head), afterPath?]
  simp only [Option.bind_eq_bind, Option.bind_some, group]
  rfl

end

theorem leadsToAssignment_eq_false {tokens : List Token}
    (noEquals : ∀ token ∈ tokens, token.isPunct "=" = false) : leadsToAssignment tokens = false := by
  unfold leadsToAssignment
  cases left : tokens.dropWhile fun token => token.isTrivia || isTypeWord token with
  | nil => rfl
  | cons name rest =>
      have suffix : rest <:+ tokens :=
        (List.suffix_cons name rest).trans (left ▸ List.dropWhile_suffix _)
      have noneIsEquals : (dropTrivia rest).head?.any (·.isPunct "=") = false := by
        rw [Option.any_eq_false]
        intro token first
        have inRest := (List.dropWhile_suffix Token.isTrivia).mem (List.mem_of_mem_head? first)
        rw [noEquals token (suffix.mem inRest)]
      exact (congrArg _ noneIsEquals).trans (Bool.and_false _)

/-- A line without an assignment declares nothing. -/
theorem stripTypes_eq_self {tokens : List Token}
    (noEquals : ∀ token ∈ tokens, token.isPunct "=" = false) : stripTypes false tokens = tokens := by
  induction tokens with
  | nil => rfl
  | cons token rest ih =>
      have others : ∀ other ∈ rest, other.isPunct "=" = false := fun other member =>
        noEquals other (List.mem_cons_of_mem _ member)
      rw [stripTypes, leadsToAssignment_eq_false others, Bool.and_false, Bool.false_and,
        if_neg Bool.false_ne_true, if_neg Bool.false_ne_true, ih others]

/-- The tokens that stay as they are behind the rules for calls. -/
def isKept (token : Token) : Bool :=
  (levelWord? token).isNone && (operatorWord? token).isNone && !isPunctuationDropped token

theorem normalizeWords_eq_self {tokens : List Token}
    (plain : ∀ token ∈ tokens, levelWord? token = none ∧ operatorWord? token = none)
    (previous : Option Token) : normalizeWords previous tokens = tokens := by
  induction tokens generalizing previous with
  | nil => rfl
  | cons token rest ih =>
      obtain ⟨noLevel, noOperator⟩ := plain token List.mem_cons_self
      rw [normalizeWords_cons_plain noLevel noOperator,
        ih fun other member => plain other (List.mem_cons_of_mem _ member)]

/-- The line that the tokens become behind the rules for calls. -/
def finishTokens (tokens : List Token) : Text :=
  Text.trim (render ((convertHeader (normalizeWords none tokens)).filter (!isPunctuationDropped ·)))

theorem convertLine_of_convertCalls {context : Context} {line : Text} {tokens made : List Token}
    (cut : IsCut tokens) (rendered : render tokens = line)
    (called : convertCalls context tokens = made) : convertLine context line = finishTokens made := by
  have noComment : ∀ token ∈ tokens, token.kind ≠ .comment := fun token member =>
    IsLexeme.kind_ne_comment (cut.whole token member)
  rw [convertLine, ← rendered, cut.tokenize_render, convertTokens_eq context noComment, called,
    finishTokens]

/-- A statement without levels and operators loses its semicolon only. -/
theorem finishTokens_of_kept {made : List Token} (kept : ∀ token ∈ made, isKept token = true)
    (noHeader : header? (made ++ [⟨.punct, ";".toList⟩]) = none) :
    finishTokens (made ++ [⟨.punct, ";".toList⟩]) = Text.trim (render made) := by
  have plain : ∀ token ∈ made ++ [⟨.punct, ";".toList⟩],
      levelWord? token = none ∧ operatorWord? token = none := by
    intro token member
    rcases List.mem_append.mp member with inMade | isLast
    · have isKept := kept token inMade
      simp only [Script.isKept, Bool.and_eq_true, Option.isNone_iff_eq_none] at isKept
      exact isKept.1
    · rw [List.mem_singleton.mp isLast]
      decide
  have filtered : (made ++ [(⟨.punct, ";".toList⟩ : Token)]).filter (!isPunctuationDropped ·) =
      made := by
    have dropped : [(⟨.punct, ";".toList⟩ : Token)].filter (!isPunctuationDropped ·) = [] := rfl
    rw [List.filter_append, dropped, List.append_nil, List.filter_eq_self]
    intro token member
    have isKept := kept token member
    simp only [Script.isKept, Bool.and_eq_true] at isKept
    exact isKept.2
  rw [finishTokens, normalizeWords_eq_self plain, convertHeader, noHeader]
  exact congrArg Text.trim (congrArg render filtered)

/-- The words that a line does not keep as names. -/
def takenWords : List Text :=
  ["true", "false", "else"].map String.toList

theorem isKept_name {name : Text} (script : IsScriptName name) (free : name ∉ takenWords) :
    ∀ token ∈ nameTokens name, isKept token = true := by
  intro token member
  rw [nameTokens] at member
  split at member
  · cases member
  · obtain rfl := List.mem_singleton.mp member
    have differs : ∀ word : String, word.toList.all isSmallChar = false ∨ word.toList ∈ takenWords →
        Token.isIdent word ⟨.ident, name⟩ = false := by
      intro word other
      rw [Token.isIdent, Bool.and_eq_false_iff, beq_eq_false_iff_ne, beq_eq_false_iff_ne]
      refine Or.inr ?_
      rintro rfl
      rcases other with capital | taken
      · rw [script.small] at capital
        cases capital
      · exact free taken
    have level : levelWord? ⟨.ident, name⟩ = none := by
      simp only [levelWord?, differs "HIGH" (by decide), differs "LOW" (by decide),
        differs "true" (by decide), differs "false" (by decide), Bool.false_eq_true, if_false]
    rw [isKept, level]
    rfl

/-- A line that starts with a word is no header if the word is no keyword or has no condition. -/
theorem header?_word {word : Text} {rest : List Token} (notElse : word ≠ "else".toList)
    (noCondition : parenthesized? rest = none ∨ word ≠ "if".toList ∧ word ≠ "while".toList) :
    header? (⟨.ident, word⟩ :: rest) = none := by
  have isElse : Token.isIdent "else" ⟨.ident, word⟩ = false := by simpa [Token.isIdent] using notElse
  show headerAt? (⟨.ident, word⟩ :: rest) = none
  rcases noCondition with missing | ⟨notIf, notWhile⟩
  · simp only [headerAt?, conditional?, missing, isElse, Option.map_none, ite_self]
    rfl
  · have isIf : Token.isIdent "if" ⟨.ident, word⟩ = false := by simpa [Token.isIdent] using notIf
    have isWhile : Token.isIdent "while" ⟨.ident, word⟩ = false := by
      simpa [Token.isIdent] using notWhile
    simp only [headerAt?, isElse, isIf, isWhile, Bool.false_eq_true, if_false]

/-- A method call is no header, whatever its object is called. -/
theorem header?_method {name : Text} (free : name ∉ takenWords) (rest : List Token) :
    header? (nameTokens name ++ ⟨.punct, ".".toList⟩ :: rest) = none := by
  rw [nameTokens]
  split
  · rfl
  · refine header?_word ?_ (.inl rfl)
    rintro rfl
    exact free (by decide)

/-- The token of a reference to a pin. -/
structure IsReference (source : Text) (token : Token) : Prop where
  text : token.text = source
  whole : IsLexeme token
  kind : token.kind = .ident ∨ token.kind = .number
  word : source.all isWordChar = true

theorem exists_reference {source : Text} {ref : PinRef} (found : PinRef.ofText? source = some ref) :
    ∃ token, IsReference source token := by
  have word := (PinRef.ofText?_eq_some found).1
  unfold PinRef.ofText? at found
  cases number : Text.pinNumber? source with
  | some pin =>
      have digits := all_isDigit_of_pinNumber? number
      cases source with
      | nil => cases number
      | cons c rest =>
          refine ⟨⟨.number, c :: rest⟩, rfl, ?_, Or.inr rfl, word⟩
          rw [List.all_cons, Bool.and_eq_true] at digits
          refine .number (Or.inl digits.1) (List.all_eq_true.mpr fun d member => ?_)
          simp [isNumberChar, Char.isAlphanum, List.all_eq_true.mp digits.2 d member]
  | none =>
      rw [number] at found
      by_cases identifier : isIdentifier source = true
      · cases source with
        | nil => cases identifier
        | cons c rest =>
            rw [isIdentifier, Bool.and_eq_true] at identifier
            exact ⟨⟨.ident, c :: rest⟩, rfl, .word identifier.1 identifier.2, Or.inl rfl, word⟩
      · simp [identifier] at found

namespace IsReference

variable {source : Text} {token : Token}

theorem isPunct (reference : IsReference source token) (mark : String) :
    token.isPunct mark = false := by
  rcases reference.kind with kind | kind <;> simp [Token.isPunct, kind]

theorem isTrivia (reference : IsReference source token) : token.isTrivia = false := by
  rcases reference.kind with kind | kind <;> simp [Token.isTrivia, kind]

theorem trim_text (reference : IsReference source token) : Text.trim token.text = source := by
  rw [reference.text, trim_of_words reference.word]

theorem arguments_one (reference : IsReference source token) :
    Sketch.arguments [token] = [source] := by
  have one : pieces 0 [token] = [[token]] := by
    simp [pieces, reference.isPunct]
  rw [Sketch.arguments, if_neg (by simp [reference.isTrivia]), one]
  simp [reference.trim_text]

theorem arguments_two (reference : IsReference source token) {rest : List Token} {level : Text}
    (one : pieces 0 rest = [rest]) (levelEq : Text.trim (render rest) = level) :
    Sketch.arguments (token :: ⟨.punct, ",".toList⟩ :: rest) = [source, level] := by
  have notOpening : token.isOpening = false := by simp [Token.isOpening, reference.isPunct]
  have notClosing : token.isClosing = false := by simp [Token.isClosing, reference.isPunct]
  have comma : Token.isPunct "," ⟨.punct, ",".toList⟩ = true := rfl
  have two : pieces 0 (token :: ⟨.punct, ",".toList⟩ :: rest) = [[token], rest] := by
    simp only [pieces, reference.isPunct, notOpening, notClosing, comma, one, and_self, if_true,
      Bool.false_eq_true, and_false, if_false]
  rw [Sketch.arguments, if_neg (by simp [reference.isTrivia]), two]
  simp [reference.trim_text, levelEq]

/-- A reference stands between parentheses or in front of a comma. -/
theorem isCut_cons (reference : IsReference source token) {c : Char} (delimiter : isDelimiter c = true)
    {rest : List Token} (cut : IsCut rest) : IsCut (token :: ⟨.punct, [c]⟩ :: rest) := by
  refine IsCut.cons reference.whole (fun next isNext d first => ?_) (isCut_delimiter_cons delimiter cut)
  obtain rfl := Option.some.inj isNext
  obtain rfl := Option.some.inj first
  exact endsBefore_delimiter reference.whole delimiter

end IsReference

/-- The tokens of the call of an object's method. -/
def methodCall (name : Text) (method : String) (args : List Token) : List Token :=
  nameTokens name ++ [⟨.punct, ['.']⟩, ⟨.ident, method.toList⟩, ⟨.punct, ['(']⟩] ++ args ++
    [⟨.punct, ")".toList⟩]

/-- What the calls of methods have in common that the rules put in place of an access to a pin. -/
structure IsAccess (name : Text) (method : String) (args : List Token) : Prop where
  script : IsScriptName name
  opens : ∀ {head : String}, head.toList.all isSmallChar = false → OpensCall head
    (nameTokens name ++ [⟨.punct, ['.']⟩, ⟨.ident, method.toList⟩, ⟨.punct, ['(']⟩])
  code : IsFragment args
  plain : ∀ token ∈ args, token.kind = .number
  keeps : (method == "delay") = false ∧ isKept ⟨.ident, method.toList⟩ = true

namespace IsAccess

theorem value {name : Text} (script : IsScriptName name) {digit : Char}
    (known : digit = '1' ∨ digit = '0') : IsAccess name "value" [⟨.number, [digit]⟩] := by
  refine ⟨script, fun capital => opensCall_value capital script, ?_, by simp, by decide⟩
  rcases known with rfl | rfl
  · exact isFragment_of_tokenize_eq ['1'] (by cbv) (by decide)
  · exact isFragment_of_tokenize_eq ['0'] (by cbv) (by decide)

theorem noArgs {name : Text} (script : IsScriptName name) {method : String}
    (known : method = "value" ∨ method = "read") : IsAccess name method [] := by
  rcases known with rfl | rfl
  · exact ⟨script, fun capital => opensCall_value capital script, isFragment_nil, by simp, by decide⟩
  · exact ⟨script, fun capital => opensCall_read capital script, isFragment_nil, by simp, by decide⟩

variable {name : Text} {method : String} {args : List Token}

theorem isPunct_eq_false (access : IsAccess name method args) {token : Token} (member : token ∈ args)
    (mark : String) : token.isPunct mark = false := by
  simp [Token.isPunct, access.plain token member]

theorem isIdent_eq_false (access : IsAccess name method args) {token : Token} (member : token ∈ args)
    (word : String) : token.isIdent word = false := by
  simp [Token.isIdent, access.plain token member]

theorem tokenize_render (access : IsAccess name method args) :
    tokenize (render (methodCall name method args)) = methodCall name method args := by
  have balanced : IsBalanced args := parenDepth?_of_plain (fun token member =>
    ⟨access.isPunct_eq_false member _, access.isPunct_eq_false member _⟩) 0
  exact (isReplacement_enclose (access.opens (show "HIGH".toList.all _ = false by decide))
    (closesCall_parenthesis _) access.code balanced le_rfl).code.cut.tokenize_render

theorem absent (access : IsAccess name method args) {head : String}
    (capital : head.toList.all isSmallChar = false) :
    ∀ token ∈ methodCall name method args ++ [⟨.punct, ";".toList⟩], token.isIdent head = false := by
  have opening := List.countP_eq_zero.mp (access.opens capital).absent
  intro token member
  rw [methodCall, List.mem_append, List.mem_append, List.mem_append] at member
  rcases member with ((inOpening | inArgs) | isClosing) | isEnd
  · simpa using opening token inOpening
  · exact access.isIdent_eq_false inArgs head
  · rw [List.mem_singleton.mp isClosing]
    rfl
  · rw [List.mem_singleton.mp isEnd]
    rfl

theorem kept (access : IsAccess name method args) (free : name ∉ takenWords) :
    ∀ token ∈ methodCall name method args, isKept token = true := by
  intro token member
  simp only [methodCall, List.mem_append, List.mem_cons, List.not_mem_nil, or_false] at member
  rcases member with ((inName | rfl | rfl | rfl) | inArgs) | rfl
  · exact isKept_name access.script free token inName
  · decide
  · exact access.keeps.2
  · decide
  · simp [isKept, levelWord?, operatorWord?, isPunctuationDropped,
      access.isIdent_eq_false inArgs, access.isPunct_eq_false inArgs]
  · decide

theorem trim_render (access : IsAccess name method args) :
    Text.trim (render (methodCall name method args)) = render (methodCall name method args) := by
  refine Text.trim_of_tight (fun c first => ?_) (fun c last => ?_)
  · cases name with
    | nil =>
        obtain rfl := Option.some.inj first
        rfl
    | cons d rest =>
        obtain rfl := Option.some.inj first
        have word := isWordChar_of_isWordStart (access.script.start d rfl)
        exact isBlank_eq_false (isLineChar_of_isWordChar word) (isSpaceChar_eq_false word rfl)
  · rw [methodCall, render_append, List.getLast?_append_of_ne_nil _ (by simp)] at last
    obtain rfl := Option.some.inj last
    rfl

theorem isIdle (access : IsAccess name method args) :
    IsIdle "delay" (methodCall name method args ++ [⟨.punct, ";".toList⟩]) := by
  have notDelay : Token.isIdent "delay" ⟨.ident, method.toList⟩ = false := by
    simpa [Token.isIdent, ← String.toList_inj] using access.keeps.1
  have behind : IsIdle "delay" (⟨.punct, ['.']⟩ :: ⟨.ident, method.toList⟩ :: ⟨.punct, ['(']⟩ ::
      (args ++ [⟨.punct, ")".toList⟩, ⟨.punct, ";".toList⟩])) := by
    refine IsIdle.of_absent fun token member => ?_
    simp only [List.mem_append, List.mem_cons, List.not_mem_nil, or_false] at member
    rcases member with rfl | rfl | rfl | inArgs | rfl | rfl
    · rfl
    · exact notDelay
    · rfl
    · exact access.isIdent_eq_false inArgs _
    · rfl
    · rfl
  cases name with
  | nil => simpa [methodCall, nameTokens] using behind
  | cons c rest =>
      have whole : IsIdle "delay" (⟨.ident, c :: rest⟩ :: ⟨.punct, ['.']⟩ ::
          ⟨.ident, method.toList⟩ :: ⟨.punct, ['(']⟩ ::
          (args ++ [⟨.punct, ")".toList⟩, ⟨.punct, ";".toList⟩])) := by
        refine List.isChain_cons.mpr ⟨fun next isNext _ => ?_, behind⟩
        obtain rfl := Option.some.inj isNext
        exact ⟨rfl, rfl⟩
      simpa [methodCall, nameTokens] using whole

end IsAccess

/-- Behind the rules for pins, a line without prints and delays is left alone. -/
theorem convertCalls_of_accessed {context : Context} {tokens made : List Token}
    (accessed : convertDigitalRead context (convertDigitalWrite context
      (convertAnalogRead context (stripTypes false tokens))) = made)
    (noSerial : ∀ token ∈ made, token.isIdent "Serial" = false) (idle : IsIdle "delay" made) :
    convertCalls context tokens = made := by
  have printLine : convertPrintLine made = made := replaceCalls_of_absent noSerial
  have print : convertPrint made = made := replaceCalls_of_absent noSerial
  have delay : convertDelay made = made := replaceCalls_of_idle idle
  rw [convertCalls, accessed, printLine, print, delay]

/-- The call of a method of an object stays as it is unless the object has a taken name. -/
theorem IsAccess.finishTokens_eq {name : Text} {method : String} {args : List Token}
    (access : IsAccess name method args) (free : name ∉ takenWords) :
    finishTokens (methodCall name method args ++ [⟨.punct, ";".toList⟩]) =
      render (methodCall name method args) := by
  have noHeader : header? (methodCall name method args ++ [⟨.punct, ";".toList⟩]) = none := by
    have := header?_method free (⟨.ident, method.toList⟩ :: ⟨.punct, ['(']⟩ ::
      (args ++ [⟨.punct, ")".toList⟩, ⟨.punct, ";".toList⟩]))
    simpa [methodCall] using this
  rw [finishTokens_of_kept (access.kept free) noHeader, access.trim_render]

/-- A reference and a level. -/
def levelArguments (token : Token) (level : String) : List Token :=
  [token, ⟨.punct, ",".toList⟩, ⟨.space, " ".toList⟩, ⟨.ident, level.toList⟩]

/-- The tokens between the parentheses of an access to a pin. -/
inductive PinArguments (token : Token) : List Token → Prop where
  | alone : PinArguments token [token]
  | level {word : String} (known : word = "HIGH" ∨ word = "LOW") :
      PinArguments token (levelArguments token word)

/-- The tokens of a call that is a statement. -/
def callStatement (head : String) (inner : List Token) : List Token :=
  ⟨.ident, head.toList⟩ :: ⟨.punct, "(".toList⟩ ::
    (inner ++ [⟨.punct, ")".toList⟩, ⟨.punct, ";".toList⟩])

namespace PinArguments

variable {source : Text} {token : Token} {inner : List Token}

theorem isCut (arguments : PinArguments token inner) (reference : IsReference source token)
    {head : String} (whole : IsLexeme ⟨.ident, head.toList⟩) : IsCut (callStatement head inner) := by
  have inside : IsCut (inner ++ [⟨.punct, ")".toList⟩, ⟨.punct, ";".toList⟩]) := by
    cases arguments with
    | alone =>
        exact reference.isCut_cons rfl
          (isCut_of_tokenize_eq (show tokenize ";".toList = _ by cbv) (by decide))
    | level known =>
        rcases known with rfl | rfl
        · exact reference.isCut_cons rfl
            (isCut_of_tokenize_eq (show tokenize " HIGH);".toList = _ by cbv) (by decide))
        · exact reference.isCut_cons rfl
            (isCut_of_tokenize_eq (show tokenize " LOW);".toList = _ by cbv) (by decide))
  exact isCut_word_cons whole rfl (isCut_delimiter_cons rfl inside) (startsApart_delimiter rfl _)

theorem isBalanced (arguments : PinArguments token inner) (reference : IsReference source token) :
    IsBalanced inner := by
  refine parenDepth?_of_plain (fun other member => ?_) 0
  cases arguments with
  | alone =>
      obtain rfl := List.mem_singleton.mp member
      exact ⟨reference.isPunct _, reference.isPunct _⟩
  | level known =>
      simp only [levelArguments, List.mem_cons, List.not_mem_nil, or_false] at member
      rcases member with rfl | rfl | rfl | rfl
      · exact ⟨reference.isPunct _, reference.isPunct _⟩
      · decide
      · decide
      · exact ⟨rfl, rfl⟩

/-- The reference can have the name of a function, but it is not called. -/
theorem isIdle (arguments : PinArguments token inner) {head other : String} (differs : head ≠ other) :
    IsIdle other (callStatement head inner) := by
  have otherText : head.toList ≠ other.toList := fun same => differs (String.toList_inj.mp same)
  cases arguments <;>
    simp [IsIdle, callStatement, levelArguments, otherText, Token.isIdent, Token.isPunct]

theorem stripTypes (arguments : PinArguments token inner) (reference : IsReference source token)
    (head : String) : stripTypes false (callStatement head inner) = callStatement head inner := by
  refine stripTypes_eq_self fun other member => ?_
  cases arguments with
  | alone =>
      simp only [callStatement, List.mem_append, List.mem_cons, List.not_mem_nil, or_false] at member
      rcases member with rfl | rfl | rfl | rfl | rfl
      · rfl
      · rfl
      · exact reference.isPunct _
      · rfl
      · rfl
  | level known =>
      simp only [callStatement, levelArguments, List.mem_append, List.mem_cons, List.not_mem_nil,
        or_false] at member
      rcases member with rfl | rfl | (rfl | rfl | rfl | rfl) | rfl | rfl
      · rfl
      · rfl
      · exact reference.isPunct _
      · rfl
      · rfl
      · rfl
      · rfl
      · rfl

end PinArguments

/-- The rule for a function puts its text in place of a statement that calls it. -/
theorem replaceCalls_statement {name : Text} {method : String} {args inner : List Token}
    (access : IsAccess name method args) {head : String}
    (capital : head.toList.all isSmallChar = false) {replacement : Call → Option Text}
    (balanced : IsBalanced inner)
    (found : replacement (Call.ofTokens inner) = some (render (methodCall name method args))) :
    replaceCalls head [] replacement (callStatement head inner) =
      methodCall name method args ++ [⟨.punct, ";".toList⟩] := by
  have notEmpty : head.toList ≠ [] := by
    intro empty
    rw [empty] at capital
    cases capital
  have textNotEmpty : render (methodCall name method args) ≠ [] := by
    simp [methodCall]
  have called := callAt?_call head balanced [⟨.punct, ";".toList⟩]
  have once := @replaceCalls_once head [] replacement [] _ _ _ _ _ (by simp) called notEmpty found
    textNotEmpty (by rw [access.tokenize_render]; exact access.absent capital)
  rwa [access.tokenize_render] at once

section

variable {context : Context} {source name : Text}

/-- A statement that writes a level becomes a call of a method, up to the words that are respelled. -/
theorem convertLine_write_eq (names : context.HasScriptNames)
    (found : digitalName? context.outputNames context.inputNames source = some name)
    {level : String} {digit : Char}
    (known : level = "HIGH" ∧ digit = '1' ∨ level = "LOW" ∧ digit = '0') :
    convertLine context ("digitalWrite(".toList ++ source ++ ", ".toList ++ level.toList ++
        ");".toList) =
      finishTokens (methodCall name "value" [⟨.number, [digit]⟩] ++ [⟨.punct, ";".toList⟩]) := by
  obtain ⟨ref, isRef, -⟩ := Option.map_eq_some_iff.mp found
  obtain ⟨token, reference⟩ := exists_reference isRef
  have access := IsAccess.value (isScriptName_digitalName? names found).2 (known.imp And.right And.right)
  have arguments := @PinArguments.level token level (known.imp And.left And.left)
  have cut := @PinArguments.isCut _ _ _ arguments reference "digitalWrite" (.word rfl rfl)
  have two : Sketch.arguments (levelArguments token level) = [source, level.toList] := by
    rcases known with ⟨rfl, -⟩ | ⟨rfl, -⟩ <;> exact reference.arguments_two (by decide) (by decide)
  have text : levelText level.toList = [digit] := by
    rcases known with ⟨rfl, rfl⟩ | ⟨rfl, rfl⟩ <;> decide
  have analog : convertAnalogRead context
      (callStatement "digitalWrite" (levelArguments token level)) =
        callStatement "digitalWrite" (levelArguments token level) :=
    replaceCalls_of_idle (arguments.isIdle (by decide))
  have written : convertDigitalWrite context
      (callStatement "digitalWrite" (levelArguments token level)) =
        methodCall name "value" [⟨.number, [digit]⟩] ++ [⟨.punct, ";".toList⟩] := by
    refine replaceCalls_statement access (by decide) (arguments.isBalanced reference) ?_
    simp [Call.ofTokens, two, found, text, methodCall, render_nameTokens]
  refine convertLine_of_convertCalls cut (by simp [callStatement, levelArguments, reference.text])
    (convertCalls_of_accessed ?_ (access.absent (by decide)) access.isIdle)
  rw [arguments.stripTypes reference, analog, written]
  exact replaceCalls_of_absent (access.absent (by decide))

theorem convertLine_digitalWrite (names : context.HasScriptNames)
    (found : digitalName? context.outputNames context.inputNames source = some name)
    (free : name ∉ takenWords) {level : String} {digit : Char}
    (known : level = "HIGH" ∧ digit = '1' ∨ level = "LOW" ∧ digit = '0') :
    convertLine context ("digitalWrite(".toList ++ source ++ ", ".toList ++ level.toList ++
        ");".toList) = name ++ ".value(".toList ++ [digit] ++ ")".toList := by
  have access := IsAccess.value (isScriptName_digitalName? names found).2 (known.imp And.right And.right)
  rw [convertLine_write_eq names found known, access.finishTokens_eq free]
  simp [methodCall, render_nameTokens]

/-- A statement that reads a level becomes a call of a method, up to the words that are respelled. -/
theorem convertLine_read_eq (names : context.HasScriptNames)
    (found : digitalName? context.inputNames context.outputNames source = some name) :
    convertLine context ("digitalRead(".toList ++ source ++ ");".toList) =
      finishTokens (methodCall name "value" [] ++ [⟨.punct, ";".toList⟩]) := by
  obtain ⟨ref, isRef, -⟩ := Option.map_eq_some_iff.mp found
  obtain ⟨token, reference⟩ := exists_reference isRef
  have access : IsAccess name "value" [] := .noArgs (isScriptName_digitalName? names found).2 (.inl rfl)
  have arguments := @PinArguments.alone token
  have cut := @PinArguments.isCut _ _ _ arguments reference "digitalRead" (.word rfl rfl)
  have analog : convertAnalogRead context (callStatement "digitalRead" [token]) =
      callStatement "digitalRead" [token] := replaceCalls_of_idle (arguments.isIdle (by decide))
  have write : convertDigitalWrite context (callStatement "digitalRead" [token]) =
      callStatement "digitalRead" [token] := replaceCalls_of_idle (arguments.isIdle (by decide))
  have read : convertDigitalRead context (callStatement "digitalRead" [token]) =
      methodCall name "value" [] ++ [⟨.punct, ";".toList⟩] := by
    refine replaceCalls_statement access (by decide) (arguments.isBalanced reference) ?_
    simp [Call.ofTokens, reference.arguments_one, found, methodCall, render_nameTokens]
  exact convertLine_of_convertCalls cut (by simp [callStatement, reference.text])
    (convertCalls_of_accessed (by rw [arguments.stripTypes reference, analog, write, read])
      (access.absent (by decide)) access.isIdle)

theorem convertLine_digitalRead (names : context.HasScriptNames)
    (found : digitalName? context.inputNames context.outputNames source = some name)
    (free : name ∉ takenWords) :
    convertLine context ("digitalRead(".toList ++ source ++ ");".toList) =
      name ++ ".value()".toList := by
  have access : IsAccess name "value" [] := .noArgs (isScriptName_digitalName? names found).2 (.inl rfl)
  rw [convertLine_read_eq names found, access.finishTokens_eq free]
  simp [methodCall, render_nameTokens]

theorem convertLine_analogRead (names : context.HasScriptNames)
    (found : analogName? context source = some name) (free : name ∉ takenWords) :
    convertLine context ("analogRead(".toList ++ source ++ ");".toList) =
      name ++ ".read()".toList := by
  obtain ⟨ref, isRef, -⟩ := Option.map_eq_some_iff.mp found
  obtain ⟨token, reference⟩ := exists_reference isRef
  have access : IsAccess name "read" [] :=
    .noArgs (isScriptName_analogName? names found) (.inr rfl)
  have arguments := @PinArguments.alone token
  have cut := @PinArguments.isCut _ _ _ arguments reference "analogRead" (.word rfl rfl)
  have analog : convertAnalogRead context (callStatement "analogRead" [token]) =
      methodCall name "read" [] ++ [⟨.punct, ";".toList⟩] := by
    refine replaceCalls_statement access (by decide) (arguments.isBalanced reference) ?_
    simp [Call.ofTokens, reference.arguments_one, found, methodCall, render_nameTokens]
  have write : convertDigitalWrite context (methodCall name "read" [] ++ [⟨.punct, ";".toList⟩]) =
      methodCall name "read" [] ++ [⟨.punct, ";".toList⟩] :=
    replaceCalls_of_absent (access.absent (by decide))
  have read : convertDigitalRead context (methodCall name "read" [] ++ [⟨.punct, ";".toList⟩]) =
      methodCall name "read" [] ++ [⟨.punct, ";".toList⟩] :=
    replaceCalls_of_absent (access.absent (by decide))
  rw [convertLine_of_convertCalls cut (by simp [callStatement, reference.text])
    (convertCalls_of_accessed (by rw [arguments.stripTypes reference, analog, write, read])
      (access.absent (by decide)) access.isIdle), access.finishTokens_eq free]
  simp [methodCall, render_nameTokens]

end

end Breadboard.Script
