import Breadboard.Proofs.Script.DelayLine
import Breadboard.Proofs.Script.TemplateContext

set_option autoImplicit false

namespace Breadboard.Script

open Sketch hiding stripComments

/-- A reference to a constant does not depend on the pins that other references have bound. -/
theorem digitalName?_name {label : PinLabel} (below : ∀ n ∈ label.ordinal, n < Text.pinBound)
    (first second : Std.TreeMap Nat Text) :
    digitalName? first second label.name = some label.identifier := by
  rw [digitalName?, pinRef?_name below, Option.map_some, ← identifier_refOf]
  rcases label with ⟨role, _ | n⟩ <;> rfl

def roleTags : List Text :=
  ["led", "button", "misting_pump", "water_pump", "fan"].map String.toList

theorem tag_mem_roleTags (role : Role) : role.tag ∈ roleTags := by
  rcases role with _ | _ | kind
  · decide
  · decide
  · cases kind <;> decide

/-- An identifier starts with the tag of its role. -/
theorem identifier_ne (label : PinLabel) {word : Text}
    (apart : (roleTags.all fun tag => !tag.isPrefixOf word) = true) : label.identifier ≠ word := by
  rintro rfl
  have leads : label.role.tag.isPrefixOf label.identifier = true :=
    List.isPrefixOf_iff_prefix.mpr (List.prefix_append _ _)
  have differs := List.all_eq_true.mp apart _ (tag_mem_roleTags label.role)
  rw [leads] at differs
  cases differs

/-- The variable of a button ends like all of them. -/
theorem state_ne (label : PinLabel) {word : Text}
    (apart : "State".toList.isSuffixOf word = false) : label.state ≠ word := by
  rintro rfl
  have ends : "State".toList.isSuffixOf label.state = true :=
    List.isSuffixOf_iff_suffix.mpr (List.suffix_append _ _)
  rw [ends] at apart
  cases apart

theorem isIdent_state_of_apart (label : PinLabel) {word : String}
    (apart : "State".toList.isSuffixOf word.toList = false) :
    (wordToken label.state).isIdent word = false := by
  simpa [Token.isIdent, wordToken] using state_ne label apart

theorem identifier_notMem_takenWords (label : PinLabel) : label.identifier ∉ takenWords := by
  intro member
  have apart : ∀ word ∈ takenWords, (roleTags.all fun tag => !tag.isPrefixOf word) = true := by decide
  exact identifier_ne label (apart _ member) rfl

theorem isIdent_eq_false_of_all {tokens : List Token} {head : String}
    (all : (tokens.all fun token => !token.isIdent head) = true) :
    ∀ token ∈ tokens, token.isIdent head = false := fun token member => by
  simpa using List.all_eq_true.mp all token member

theorem isPunct_eq_false_of_all {tokens : List Token} {mark : String}
    (all : (tokens.all fun token => !token.isPunct mark) = true) :
    ∀ token ∈ tokens, token.isPunct mark = false := fun token member => by
  simpa using List.all_eq_true.mp all token member

/-- A statement that the rules for calls have made without levels, operators and braces. -/
theorem convertLine_of_kept {context : Context} {tokens made : List Token} (cut : IsCut tokens)
    (called : convertCalls context tokens = made ++ [semicolon])
    (kept : ∀ token ∈ made, isKept token = true) (noHeader : header? (made ++ [semicolon]) = none) :
    convertLine context (render tokens) = Text.trim (render made) := by
  rw [convertLine_of_convertCalls cut rfl called]
  exact finishTokens_of_kept kept noHeader

theorem all_isKept {tokens : List Token} (all : tokens.all isKept = true) :
    ∀ token ∈ tokens, isKept token = true :=
  List.all_eq_true.mp all

section

variable {context : Context} {labelled : LabelledPin}

/-- What writes a level to a pin. -/
def writeText (digit : Char) (label : PinLabel) : Text :=
  label.identifier ++ ".value(".toList ++ [digit] ++ ")".toList

theorem convertLine_writeCode (names : context.HasScriptNames)
    (below : ∀ n ∈ labelled.label.ordinal, n < Text.pinBound) {level : String} {digit : Char}
    (known : level = "HIGH" ∧ digit = '1' ∨ level = "LOW" ∧ digit = '0') :
    convertLine context (render (writeCode level labelled)) = writeText digit labelled.label := by
  have line := convertLine_digitalWrite names (digitalName?_name below _ _)
    (identifier_notMem_takenWords _) known
  have text : render (writeCode level labelled) = "digitalWrite(".toList ++ labelled.label.name ++
      ", ".toList ++ level.toList ++ ");".toList := by
    simp [writeCode, render_callCode, render_twoWords]
  rw [text, line, writeText]

def sleepText (count : Nat) : Text :=
  "time.sleep_ms(".toList ++ Text.ofNat count ++ ")".toList

theorem isLexeme_numberToken (n : Nat) : IsLexeme (numberToken n) :=
  (like_number n).whole (.number (Or.inl rfl) rfl)

theorem convertLine_delayCode (context : Context) (count : Nat) :
    convertLine context (render (delayCode count)) = sleepText count := by
  have call : delayCode count = callStatement "delay" [numberToken count] := rfl
  have duration : IsDuration [numberToken count] := .number (.one (isLexeme_numberToken count))
  rw [call, render_delay, duration.convertLine_eq]
  exact congrArg waitText (List.append_nil _)

/-- The line that reads a button. -/
def readText (label : PinLabel) : Text :=
  label.state ++ " = ".toList ++ label.identifier ++ ".value()".toList

def assignedCode (label : PinLabel) : List Token :=
  [wordToken label.state, oneBlank, markToken "=", oneBlank]

theorem isTypeWord_state (label : PinLabel) : isTypeWord (wordToken label.state) = false := by
  rw [isTypeWord, Bool.and_eq_false_iff]
  refine Or.inr ?_
  rw [← Bool.not_eq_true, List.contains_iff_mem]
  intro member
  have apart : ∀ word ∈ typeWords, "State".toList.isSuffixOf word = false := by decide
  exact state_ne label (apart _ member) rfl

theorem stripTypes_readCode (labelled : LabelledPin) :
    stripTypes false (readCode labelled) = assignedCode labelled.label ++
      callCode [wordToken "digitalRead".toList] [wordToken labelled.label.name] := by
  have call := @stripTypes_eq_self
    (callCode [wordToken "digitalRead".toList] [wordToken labelled.label.name])
    (isPunct_eq_false_of_all rfl)
  have state := isTypeWord_state labelled.label
  have stateSolid : (wordToken labelled.label.state).isTrivia = false := rfl
  have int : isTypeWord (wordToken "int".toList) = true := by decide
  have blank : isTypeWord oneBlank = false := rfl
  have equals : isTypeWord (markToken "=") = false := rfl
  have assigned : leadsToAssignment (oneBlank :: (assignedCode labelled.label ++
      callCode [wordToken "digitalRead".toList] [wordToken labelled.label.name])) = true := by
    rw [leadsToAssignment, List.dropWhile_cons_of_pos rfl, assignedCode, List.cons_append,
      List.dropWhile_cons_of_neg (by rw [state, stateSolid]; decide)]
    rfl
  have split : readCode labelled = wordToken "int".toList :: oneBlank ::
      (assignedCode labelled.label ++
        callCode [wordToken "digitalRead".toList] [wordToken labelled.label.name]) := rfl
  rw [split, stripTypes, int, assigned]
  simp only [assignedCode, List.cons_append, List.nil_append, stripTypes, state, stateSolid, blank,
    equals, call, Bool.and_self, Bool.false_and, Bool.true_and, Bool.and_false, Bool.false_eq_true,
    if_true, if_false]
  rfl

theorem isReference_name (label : PinLabel) : IsReference label.name (wordToken label.name) :=
  ⟨rfl, isLexeme_wordToken label.isIdentifier_name, .inl rfl,
    all_isWordChar_of_isIdentifier label.isIdentifier_name⟩

/-- A reading of a pin. -/
def valueCode (label : PinLabel) : List Token :=
  methodCall label.identifier "value" []

theorem isAccess_value (names : context.HasScriptNames)
    (below : ∀ n ∈ labelled.label.ordinal, n < Text.pinBound) :
    IsAccess labelled.label.identifier "value" [] :=
  .noArgs (isScriptName_digitalName? names
    (digitalName?_name below context.inputNames context.outputNames)).2 (.inl rfl)

theorem absent_assignedCode (label : PinLabel) {head : String}
    (apart : "State".toList.isSuffixOf head.toList = false) :
    ∀ token ∈ assignedCode label, token.isIdent head = false := by
  refine List.forall_mem_cons.mpr ⟨isIdent_state_of_apart label apart, ?_⟩
  exact isIdent_eq_false_of_all rfl

theorem absent_readCall (label : PinLabel) {head : String} (plain : '_' ∉ head.toList)
    (other : head ≠ "digitalRead") :
    ∀ token ∈ callCode [wordToken "digitalRead".toList] [wordToken label.name],
      token.isIdent head = false := by
  have callee : (wordToken "digitalRead".toList).isIdent head = false := by
    simpa [Token.isIdent, wordToken, ← String.toList_inj] using Ne.symm other
  refine List.forall_mem_cons.mpr ⟨callee, List.forall_mem_cons.mpr ⟨rfl,
    List.forall_mem_cons.mpr ⟨isIdent_name label plain, isIdent_eq_false_of_all rfl⟩⟩⟩

theorem absent_valueCode (label : PinLabel) :
    ∀ token ∈ valueCode label ++ [semicolon], token.isIdent "delay" = false := by
  have name : ∀ token ∈ nameTokens label.identifier, token.isIdent "delay" = false := by
    intro token member
    rw [nameTokens] at member
    split at member
    · cases member
    · rw [List.mem_singleton.mp member]
      simpa [Token.isIdent] using identifier_ne label (by decide)
  rw [valueCode, methodCall, List.append_assoc, List.append_assoc, List.append_assoc]
  exact List.forall_mem_append.mpr ⟨name, isIdent_eq_false_of_all rfl⟩

theorem convertCalls_readCode (names : context.HasScriptNames)
    (below : ∀ n ∈ labelled.label.ordinal, n < Text.pinBound) :
    convertCalls context (readCode labelled) =
      assignedCode labelled.label ++ (valueCode labelled.label ++ [semicolon]) := by
  have access := isAccess_value names below
  have declared {head : String} (apart : "State".toList.isSuffixOf head.toList = false)
      (plain : '_' ∉ head.toList) (other : head ≠ "digitalRead") :=
    List.forall_mem_append.mpr ⟨absent_assignedCode labelled.label apart,
      absent_readCall labelled.label plain other⟩
  have made {head : String} (apart : "State".toList.isSuffixOf head.toList = false)
      (capital : head.toList.all isSmallChar = false) :=
    List.forall_mem_append.mpr ⟨absent_assignedCode labelled.label apart, access.absent capital⟩
  have analog : convertAnalogRead context (assignedCode labelled.label ++
      callCode [wordToken "digitalRead".toList] [wordToken labelled.label.name]) = _ :=
    replaceCalls_of_absent (declared (by decide) (by decide) (by decide))
  have write : convertDigitalWrite context (assignedCode labelled.label ++
      callCode [wordToken "digitalRead".toList] [wordToken labelled.label.name]) = _ :=
    replaceCalls_of_absent (declared (by decide) (by decide) (by decide))
  have called := @callAt?_call "digitalRead" [wordToken labelled.label.name] rfl [semicolon]
  have arguments : (Call.ofTokens [wordToken labelled.label.name]).args = [labelled.label.name] :=
    (isReference_name labelled.label).arguments_one
  have text : labelled.label.identifier ++ ".value()".toList =
      render (valueCode labelled.label) := by
    rw [valueCode, methodCall, List.append_nil, render_append, render_append, render_nameTokens,
      List.append_assoc]
    rfl
  have front : ∀ token ∈ assignedCode labelled.label,
      token.isIdent "digitalRead" = false ∧ token.isPunct "." = false := fun token member =>
    ⟨absent_assignedCode labelled.label (by decide) token member,
      isPunct_eq_false_of_all (show ((assignedCode labelled.label).all fun token =>
        !token.isPunct ".") = true from rfl) token member⟩
  have read : convertDigitalRead context (assignedCode labelled.label ++
      callCode [wordToken "digitalRead".toList] [wordToken labelled.label.name]) =
        assignedCode labelled.label ++ (valueCode labelled.label ++ [semicolon]) := by
    rw [valueCode, ← access.tokenize_render]
    refine replaceCalls_once front called (List.cons_ne_nil _ _) ?_ ?_ ?_
    · simp only [arguments, digitalName?_name below, Option.map_some, text]
      rfl
    · rw [← valueCode, ← text]
      exact List.append_ne_nil_of_right_ne_nil _ (List.cons_ne_nil _ _)
    · rw [access.tokenize_render]
      exact access.absent (by decide)
  have idle : IsIdle "delay" (assignedCode labelled.label ++
      (valueCode labelled.label ++ [semicolon])) :=
    .of_absent (List.forall_mem_append.mpr
      ⟨absent_assignedCode labelled.label (by decide), absent_valueCode labelled.label⟩)
  refine convertCalls_of_accessed ?_ (made (by decide) (by decide)) idle
  rw [stripTypes_readCode, analog, write, read]

theorem levelWord?_state (label : PinLabel) : levelWord? (wordToken label.state) = none := by
  simp only [levelWord?, isIdent_state_of_apart label (show "State".toList.isSuffixOf
      "HIGH".toList = false by decide), isIdent_state_of_apart label (show
      "State".toList.isSuffixOf "LOW".toList = false by decide), isIdent_state_of_apart label
      (show "State".toList.isSuffixOf "true".toList = false by decide), isIdent_state_of_apart label
      (show "State".toList.isSuffixOf "false".toList = false by decide), Bool.false_eq_true, if_false]

theorem isTight_word_append {word : Text} (identifier : isIdentifier word = true) {last : Char}
    (visible : Text.isBlank last = false) (middle : Text) :
    Text.IsTight (word ++ (middle ++ [last])) := by
  cases word with
  | nil => cases identifier
  | cons c rest =>
      rw [isIdentifier, Bool.and_eq_true] at identifier
      have first := isWordChar_of_isWordStart identifier.1
      rw [List.cons_append, ← List.append_assoc]
      exact Text.isTight_enclosed (isBlank_eq_false (isLineChar_of_isWordChar first)
        (isSpaceChar_eq_false first rfl)) visible _

theorem convertLine_readCode (names : context.HasScriptNames)
    (below : ∀ n ∈ labelled.label.ordinal, n < Text.pinBound) :
    convertLine context (render (readCode labelled)) = readText labelled.label := by
  have access := isAccess_value names below
  have called := convertCalls_readCode names below
  rw [← List.append_assoc] at called
  have state : isKept (wordToken labelled.label.state) = true := by
    rw [isKept, levelWord?_state]
    rfl
  have kept : ∀ token ∈ assignedCode labelled.label ++ valueCode labelled.label,
      isKept token = true :=
    List.forall_mem_append.mpr ⟨List.forall_mem_cons.mpr ⟨state, all_isKept rfl⟩,
      access.kept (identifier_notMem_takenWords _)⟩
  have noHeader : header? (assignedCode labelled.label ++ valueCode labelled.label ++ [semicolon]) =
      none :=
    header?_word (state_ne _ (by decide))
      (.inr ⟨state_ne _ (by decide), state_ne _ (by decide)⟩)
  have text : render (assignedCode labelled.label ++ valueCode labelled.label) =
      readText labelled.label := by
    rw [render_append, valueCode, methodCall, List.append_nil, render_append, render_append,
      render_nameTokens, readText]
    simp only [assignedCode, render_cons, render_nil, wordToken_text, List.append_assoc]
    rfl
  have tight : Text.IsTight (readText labelled.label) := by
    have split : readText labelled.label = labelled.label.state ++
        (" = ".toList ++ (labelled.label.identifier ++ ".value(".toList) ++ [')']) := by
      simp only [readText, List.append_assoc]
      rfl
    rw [split]
    exact isTight_word_append labelled.label.isIdentifier_state (by decide) _
  rw [convertLine_of_kept (isCut_readCode labelled) called kept noHeader, text, tight.trim_eq]

/-- The condition that a button is pressed. -/
def pressedText (label : PinLabel) : Text :=
  label.state ++ " == 0".toList

theorem isFragment_pressedCondition (labelled : LabelledPin) :
    IsFragment (pressedCondition labelled) := by
  have inside : pressedCondition labelled <:+: pressedCode labelled :=
    List.infix_append _ _ _
  refine ⟨(isCut_pressedCode labelled).part inside, List.forall_mem_cons.mpr ⟨?_, ?_⟩, ?_⟩
  · exact List.all_eq_true.mpr fun c member => isLineChar_of_isWordChar (List.all_eq_true.mp
      (all_isWordChar_of_isIdentifier labelled.label.isIdentifier_state) c member)
  · decide
  · exact List.forall_mem_cons.mpr ⟨rfl, by decide⟩

theorem conditionText_pressedCondition (context : Context) (labelled : LabelledPin) :
    conditionText context (render (pressedCondition labelled)) = pressedText labelled.label := by
  have absent : ∀ head ∈ callHeads, ∀ token ∈ pressedCondition labelled,
      token.isIdent head = false := by
    have apart : ∀ head ∈ callHeads, "State".toList.isSuffixOf head.toList = false ∧
        head ≠ "LOW" := by decide
    intro head isHead
    refine List.forall_mem_cons.mpr ⟨isIdent_state_of_apart _ (apart head isHead).1, ?_⟩
    have low : (wordToken "LOW".toList).isIdent head = false := by
      simpa [Token.isIdent, wordToken, ← String.toList_inj] using Ne.symm (apart head isHead).2
    exact List.forall_mem_cons.mpr ⟨rfl, List.forall_mem_cons.mpr ⟨rfl, List.forall_mem_cons.mpr
      ⟨rfl, List.forall_mem_singleton.mpr low⟩⟩⟩
  have words : normalizeWords none (pressedCondition labelled) =
      [wordToken labelled.label.state, oneBlank, markToken "==", oneBlank, wordToken ['0']] := by
    rw [pressedCondition, normalizeWords_cons_plain (levelWord?_state _) rfl]
    rfl
  have tight : Text.IsTight (pressedText labelled.label) :=
    @isTight_word_append _ labelled.label.isIdentifier_state '0' (by decide) " == ".toList
  rw [conditionText, (isFragment_pressedCondition labelled).cut.tokenize_render,
    convertCalls_of_absent (isPunct_eq_false_of_all rfl) absent, words, ← tight.trim_eq, pressedText]
  simp only [render_cons, render_nil, wordToken_text]
  rfl

/-- The line that reports a button. -/
def messageText (labelled : LabelledPin) : Text :=
  "print(".toList ++ pressedMessage labelled ++ ")".toList

def printCode (labelled : LabelledPin) : List Token :=
  [wordToken "print".toList, markToken "(", ⟨.literal, pressedMessage labelled⟩, markToken ")"]

theorem render_printCode (labelled : LabelledPin) :
    render (printCode labelled) = messageText labelled := by
  simp only [printCode, render_cons, render_nil, List.append_nil, wordToken_text]
  rfl

theorem tokenize_messageText (labelled : LabelledPin) :
    tokenize (messageText labelled) = printCode labelled := by
  have sample : IsCut [wordToken "print".toList, markToken "(", ⟨.literal, ['\x22', '\x22']⟩,
      markToken ")"] :=
    @isCut_of_tokenize_eq "print(\"\")".toList _ (by cbv) (by decide)
  have cut : IsCut (printCode labelled) :=
    sample.like (.cons (.same _) <| .cons (.same _) <| .cons (like_message labelled) <|
      .cons (.same _) .nil)
  rw [← render_printCode, cut.tokenize_render]

theorem trim_pressedMessage (labelled : LabelledPin) :
    Text.trim (pressedMessage labelled) = pressedMessage labelled := by
  have split : pressedMessage labelled =
      '\x22' :: (("Button ".toList ++ labelled.label.number ++ " pressed!".toList) ++ ['\x22']) := by
    unfold pressedMessage
    generalize labelled.label.number = number
    rw [List.append_assoc, List.append_assoc, List.append_assoc]
    rfl
  rw [split]
  exact (Text.isTight_enclosed (by decide) (by decide) _).trim_eq

theorem convertCalls_messageCode (context : Context) (labelled : LabelledPin) :
    convertCalls context (messageCode labelled) = printCode labelled ++ [semicolon] := by
  have analog : convertAnalogRead context (messageCode labelled) = messageCode labelled :=
    replaceCalls_of_absent (isIdent_eq_false_of_all rfl)
  have write : convertDigitalWrite context (messageCode labelled) = messageCode labelled :=
    replaceCalls_of_absent (isIdent_eq_false_of_all rfl)
  have read : convertDigitalRead context (messageCode labelled) = messageCode labelled :=
    replaceCalls_of_absent (isIdent_eq_false_of_all rfl)
  have print : convertPrint (printCode labelled ++ [semicolon]) = printCode labelled ++ [semicolon] :=
    replaceCalls_of_absent (isIdent_eq_false_of_all rfl)
  have delay : convertDelay (printCode labelled ++ [semicolon]) = printCode labelled ++ [semicolon] :=
    replaceCalls_of_absent (isIdent_eq_false_of_all rfl)
  have called : callAt? "Serial" [".", "println"] (wordToken "Serial".toList)
      (messageCode labelled).tail =
        some (Call.ofTokens [⟨.literal, pressedMessage labelled⟩], [semicolon]) := rfl
  have inner : (Call.ofTokens [⟨.literal, pressedMessage labelled⟩]).inner =
      pressedMessage labelled := by
    rw [Call.ofTokens, render_cons, render_nil, List.append_nil, trim_pressedMessage]
  have printLine : convertPrintLine (messageCode labelled) = printCode labelled ++ [semicolon] := by
    rw [← tokenize_messageText]
    refine replaceCalls_once (List.forall_mem_nil _) called (List.cons_ne_nil _ _) ?_
      (List.cons_ne_nil _ _) ?_
    · rw [inner]
      rfl
    · rw [tokenize_messageText]
      exact isIdent_eq_false_of_all rfl
  rw [convertCalls, stripTypes_eq_self (isPunct_eq_false_of_all rfl), analog, write, read, printLine,
    print, delay]

theorem convertLine_messageCode (context : Context) (labelled : LabelledPin) :
    convertLine context (render (messageCode labelled)) = messageText labelled := by
  have tight : Text.IsTight (messageText labelled) :=
    @Text.isTight_enclosed 'p' ')' (by decide) (by decide)
      ("rint(".toList ++ pressedMessage labelled)
  rw [convertLine_of_kept (isCut_messageCode labelled) (convertCalls_messageCode context labelled)
    (all_isKept rfl) rfl, render_printCode, tight.trim_eq]

end

end Breadboard.Script
