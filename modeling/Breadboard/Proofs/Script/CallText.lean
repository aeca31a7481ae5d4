import Breadboard.Proofs.Script.RuleScope
import Breadboard.Proofs.Script.ScriptName
import Breadboard.Proofs.Text.Trim

set_option autoImplicit false

namespace Breadboard.Script

open Sketch

/-- Tokens that start a call and open its parentheses, without the name `head`. -/
structure OpensCall (head : String) (front : List Token) : Prop where
  code : IsFragment front
  ends : parenDepth? 0 front = some 1
  start : ∃ first more c text, front = first :: more ∧ first.text = c :: text ∧ isCallStart c = true
  last : front.getLast? = some ⟨.punct, ['(']⟩
  absent : front.countP (·.isIdent head) = 0

/-- Tokens that end a call, without the name `head`. -/
structure ClosesCall (head : String) (back : List Token) : Prop where
  code : IsFragment back
  ends : parenDepth? 1 back = some 0
  first : ∃ c more, back = ⟨.punct, [c]⟩ :: more ∧ isDelimiter c = true
  last : back.getLast? = some ⟨.punct, [')']⟩
  absent : back.countP (·.isIdent head) = 0

theorem IsBalanced.enclose {front part back : List Token} (opens : parenDepth? 0 front = some 1)
    (balanced : IsBalanced part) (closes : parenDepth? 1 back = some 0) :
    IsBalanced (front ++ part ++ back) := by
  have inside : parenDepth? (0 + 1) part = some (0 + 1) := parenDepth?_add balanced 1
  unfold IsBalanced
  rw [parenDepth?_append, parenDepth?_append, opens, Option.bind_some, inside, Option.bind_some,
    closes]

theorem isReplacement_enclose {head : String} {inner front part back : List Token}
    (opens : OpensCall head front) (closes : ClosesCall head back) (code : IsFragment part)
    (balanced : IsBalanced part)
    (fewer : part.countP (·.isIdent head) ≤ inner.countP (·.isIdent head)) :
    IsReplacement head inner (front ++ part ++ back) := by
  obtain ⟨first, more, c, text, rfl, textEq, start⟩ := opens.start
  obtain ⟨mark, others, rfl, delimiter⟩ := closes.first
  have frontPart : IsFragment (first :: more ++ part) := by
    refine opens.code.append code fun last isLast next _ d _ => ?_
    obtain rfl : ⟨.punct, ['(']⟩ = last := by simpa [opens.last] using isLast
    exact delimiter_endsBefore rfl d
  refine ⟨?_, IsBalanced.enclose opens.ends balanced closes.ends,
    ⟨first, more ++ part ++ ⟨.punct, [mark]⟩ :: others, c, text, by simp, textEq, start⟩, ?_, ?_⟩
  · refine frontPart.append closes.code fun last isLast next isNext d isFirst => ?_
    obtain rfl : ⟨.punct, [mark]⟩ = next := by simpa using isNext
    obtain rfl : mark = d := by simpa using isFirst
    exact endsBefore_delimiter (frontPart.cut.whole last (List.mem_of_getLast? isLast)) delimiter
  · rw [List.getLast?_append_of_ne_nil _ (List.cons_ne_nil _ _), closes.last]
  · rw [List.countP_append, List.countP_append, opens.absent, closes.absent]
    omega

theorem countP_trimTokens_le (p : Token → Bool) (tokens : List Token) :
    (trimTokens tokens).countP p ≤ tokens.countP p :=
  (trimTokens_isInfix tokens).sublist.countP_le

/-- A call that keeps the text between its parentheses. -/
theorem isReplacement_inner {head : String} {inner front back : List Token}
    (opens : OpensCall head front) (closes : ClosesCall head back) (code : IsFragment inner)
    (balanced : IsBalanced inner) :
    render front ++ Text.trim (render inner) ++ render back =
        render (front ++ trimTokens inner ++ back) ∧
      IsReplacement head inner (front ++ trimTokens inner ++ back) := by
  refine ⟨by rw [trim_render code, render_append, render_append], ?_⟩
  exact isReplacement_enclose opens closes (code.part (trimTokens_isInfix inner)) balanced.trimTokens
    (countP_trimTokens_le _ inner)

theorem closesCall_parenthesis (head : String) : ClosesCall head [⟨.punct, ")".toList⟩] :=
  ⟨isFragment_of_tokenize_eq ")".toList (by cbv) (by decide), rfl, ⟨')', [], rfl, rfl⟩, rfl, rfl⟩

theorem opensCall_print : OpensCall "Serial" [⟨.ident, "print".toList⟩, ⟨.punct, "(".toList⟩] :=
  ⟨isFragment_of_tokenize_eq "print(".toList (by cbv) (by decide), by decide,
    ⟨_, _, _, _, rfl, rfl, rfl⟩, rfl, by decide⟩

theorem opensCall_sleep : OpensCall "delay" [⟨.ident, "time".toList⟩, ⟨.punct, ".".toList⟩,
    ⟨.ident, "sleep_ms".toList⟩, ⟨.punct, "(".toList⟩] :=
  ⟨isFragment_of_tokenize_eq "time.sleep_ms(".toList (by cbv) (by decide), by decide,
    ⟨_, _, _, _, rfl, rfl, rfl⟩, rfl, by decide⟩

theorem replaces_printLine : Replaces "Serial" fun call =>
    some ("print(".toList ++ call.inner ++ ")".toList) := by
  intro inner text code balanced found
  obtain ⟨textEq, ready⟩ := isReplacement_inner opensCall_print (closesCall_parenthesis _) code
    balanced
  exact ⟨_, by rw [← textEq, ← Option.some.inj found]; rfl, ready⟩

theorem closesCall_end : ClosesCall "Serial" [⟨.punct, ",".toList⟩, ⟨.space, " ".toList⟩,
    ⟨.ident, "end".toList⟩, ⟨.punct, "=".toList⟩, ⟨.literal, "\"\"".toList⟩, ⟨.punct, ")".toList⟩] :=
  ⟨isFragment_of_tokenize_eq ", end=\"\")".toList (by cbv) (by decide), by decide,
    ⟨',', _, rfl, rfl⟩, rfl, by decide⟩

theorem replaces_print : Replaces "Serial" fun call =>
    if call.inner.isEmpty then some "print(end=\"\")".toList
    else some ("print(".toList ++ call.inner ++ ", end=\"\")".toList) := by
  intro inner text code balanced found
  dsimp only at found
  split at found
  · have ending : IsFragment [⟨.ident, "end".toList⟩, ⟨.punct, "=".toList⟩,
        ⟨.literal, "\"\"".toList⟩] :=
      isFragment_of_tokenize_eq "end=\"\"".toList (by cbv) (by decide)
    refine ⟨_, ?_, isReplacement_enclose opensCall_print (closesCall_parenthesis _) ending rfl
      (Nat.zero_le _)⟩
    rw [← Option.some.inj found]
    rfl
  · obtain ⟨textEq, ready⟩ := isReplacement_inner opensCall_print closesCall_end code balanced
    exact ⟨_, by rw [← textEq, ← Option.some.inj found]; rfl, ready⟩

theorem replaces_delay : Replaces "delay" fun call =>
    if call.inner.isEmpty then none
    else some ("time.sleep_ms(".toList ++ call.inner ++ ")".toList) := by
  intro inner text code balanced found
  dsimp only at found
  split at found
  · cases found
  · obtain ⟨textEq, ready⟩ := isReplacement_inner opensCall_sleep (closesCall_parenthesis _) code
      balanced
    exact ⟨_, by rw [← textEq, ← Option.some.inj found]; rfl, ready⟩

/-- The token of a name that can be empty. -/
def nameTokens (name : Text) : List Token :=
  if name.isEmpty then [] else [⟨.ident, name⟩]

theorem render_nameTokens (name : Text) : render (nameTokens name) = name := by
  cases name <;> simp [nameTokens]

theorem isLineChar_of_isWordChar {c : Char} (word : isWordChar c = true) :
    isLineChar c = true := by
  simp only [isWordChar, Char.isAlphanum, Char.isAlpha, Bool.or_eq_true, isUpper_iff, isLower_iff,
    isDigit_iff, beq_iff_eq] at word
  rw [isLineChar, Bool.or_eq_true, Bool.and_eq_true, decide_eq_true_eq, decide_eq_true_eq]
  left
  rcases word with ((upper | lower) | digit) | rfl
  · omega
  · omega
  · omega
  · decide

theorem trim_of_words {text : Text} (words : text.all isWordChar = true) : Text.trim text = text := by
  have tight : ∀ c ∈ text, Text.isBlank c = false := fun c member =>
    have word := List.all_eq_true.mp words c member
    isBlank_eq_false (isLineChar_of_isWordChar word) (isSpaceChar_eq_false word rfl)
  exact Text.trim_of_tight (fun c first => tight c (List.mem_of_mem_head? first))
    fun c last => tight c (List.mem_of_getLast? last)

theorem all_isWordChar_of_isIdentifier {text : Text} (identifier : isIdentifier text = true) :
    text.all isWordChar = true := by
  cases text with
  | nil => rfl
  | cons c rest =>
      rw [isIdentifier, Bool.and_eq_true] at identifier
      rw [List.all_cons, isWordChar_of_isWordStart identifier.1, identifier.2]
      rfl

theorem trim_identifier {text : Text} (identifier : isIdentifier text = true) :
    Text.trim text = text :=
  trim_of_words (all_isWordChar_of_isIdentifier identifier)

theorem IsScriptName.isFragment {name : Text} (script : IsScriptName name) :
    IsFragment (nameTokens name) := by
  cases name with
  | nil => exact ⟨⟨by simp [nameTokens], .nil⟩, by simp [nameTokens], by simp [nameTokens]⟩
  | cons c rest =>
      have word := script.isWordChar_of_mem
      have run : rest.all isWordChar = true :=
        List.all_eq_true.mpr fun d member => word d (List.mem_cons_of_mem _ member)
      refine ⟨⟨fun token member => ?_, .singleton _⟩, fun token member => ?_, fun token member => ?_⟩
      · rw [List.mem_singleton.mp member]
        exact .word (script.start c rfl) run
      · rw [List.mem_singleton.mp member, List.all_eq_true]
        exact fun d inName => isLineChar_of_isWordChar (word d inName)
      · rw [List.mem_singleton.mp member]
        rfl

/-- A method of a pin is called by a name in small letters, which no function with a capital letter
has. -/
theorem opensCall_method {head : String} (capital : head.toList.all isSmallChar = false)
    {name : Text} (script : IsScriptName name) {method : Text}
    (code : IsFragment [⟨.punct, ['.']⟩, ⟨.ident, method⟩, ⟨.punct, ['(']⟩])
    (small : method.all isSmallChar = true) :
    OpensCall head
      (nameTokens name ++ [⟨.punct, ['.']⟩, ⟨.ident, method⟩, ⟨.punct, ['(']⟩]) := by
  have differs : ∀ {text : Text}, text.all isSmallChar = true →
      Token.isIdent head ⟨.ident, text⟩ = false := by
    intro text allSmall
    rw [Token.isIdent, Bool.and_eq_false_iff]
    refine Or.inr (beq_eq_false_iff_ne.mpr fun eq => ?_)
    rw [show text = head.toList from eq, capital] at allSmall
    cases allSmall
  have methodAbsent : [(⟨.punct, ['.']⟩ : Token), ⟨.ident, method⟩, ⟨.punct, ['(']⟩].countP
      (·.isIdent head) = 0 := by
    rw [List.countP_cons, List.countP_cons, List.countP_cons, List.countP_nil, differs small]
    rfl
  cases name with
  | nil => exact ⟨code, rfl, ⟨_, _, '.', [], rfl, rfl, rfl⟩, rfl, methodAbsent⟩
  | cons c rest =>
      refine ⟨script.isFragment.append code fun last isLast next isNext d isFirst => ?_, rfl,
        ⟨_, _, c, rest, rfl, rfl, ?_⟩, rfl, ?_⟩
      · obtain rfl : ⟨.ident, c :: rest⟩ = last := by simpa [nameTokens] using isLast
        obtain rfl : ⟨.punct, ['.']⟩ = next := by simpa using isNext
        obtain rfl : '.' = d := by simpa using isFirst
        rfl
      · rw [isCallStart, script.start c rfl]
        rfl
      · rw [List.countP_append, methodAbsent]
        simp [nameTokens, differs script.small]

theorem opensCall_value {head : String} (capital : head.toList.all isSmallChar = false)
    {name : Text} (script : IsScriptName name) :
    OpensCall head
      (nameTokens name ++ [⟨.punct, ['.']⟩, ⟨.ident, "value".toList⟩, ⟨.punct, ['(']⟩]) :=
  opensCall_method capital script
    (isFragment_of_tokenize_eq ".value(".toList (by cbv) (by decide)) (by decide)

theorem opensCall_read {head : String} (capital : head.toList.all isSmallChar = false)
    {name : Text} (script : IsScriptName name) :
    OpensCall head
      (nameTokens name ++ [⟨.punct, ['.']⟩, ⟨.ident, "read".toList⟩, ⟨.punct, ['(']⟩]) :=
  opensCall_method capital script
    (isFragment_of_tokenize_eq ".read(".toList (by cbv) (by decide)) (by decide)

/-- A call without arguments. -/
theorem isReplacement_empty {head : String} {inner front : List Token}
    (opens : OpensCall head front) :
    IsReplacement head inner (front ++ [] ++ [⟨.punct, ")".toList⟩]) :=
  isReplacement_enclose opens (closesCall_parenthesis head) isFragment_nil rfl
    (Nat.zero_le _)

theorem isScriptName_digitalName? {context : Context} (names : context.HasScriptNames)
    {first second : Binding → Bool} {source name : Text}
    (found : digitalName? (context.namesByPin first) (context.namesByPin second) source = some name) :
    source.all isWordChar = true ∧ IsScriptName name := by
  obtain ⟨ref, isRef, nameEq⟩ := Option.map_eq_some_iff.mp found
  obtain ⟨word, script⟩ := PinRef.ofText?_eq_some isRef
  refine ⟨word, ?_⟩
  subst nameEq
  cases ref with
  | number pin =>
      dsimp only
      cases inFirst : (context.namesByPin first)[pin]? with
      | some value => simpa using names.namesByPin inFirst
      | none =>
          cases inSecond : (context.namesByPin second)[pin]? with
          | some value => simpa using names.namesByPin inSecond
          | none => simpa using script
  | indexed base index => exact script
  | named name => exact script

theorem arguments_eq_two {inner : List Token} {source level : Text}
    (two : Sketch.arguments inner = [source, level]) :
    ∃ first comma second, inner = first ++ comma :: second ∧ comma.isPunct "," = true ∧
      source = Text.trim (render first) ∧ level = Text.trim (render second) := by
  unfold Sketch.arguments at two
  split at two
  · cases two
  · obtain ⟨first, others, piecesEq, sourceEq, rest⟩ := List.map_eq_cons_iff.mp two
    obtain ⟨second, nothing, rfl, levelEq, last⟩ := List.map_eq_cons_iff.mp rest
    obtain rfl : nothing = [] := by simpa using last
    obtain ⟨comma, innerEq, isComma⟩ := eq_append_of_pieces_eq_two piecesEq
    exact ⟨first, comma, second, innerEq, isComma, sourceEq.symm, levelEq.symm⟩

/-- Tokens whose trimmed text is one word have no parentheses. -/
theorem parenDepth?_of_word {tokens : List Token} (code : IsFragment tokens)
    (word : (Text.trim (render tokens)).all isWordChar = true) (depth : Nat) :
    parenDepth? depth tokens = some depth := by
  obtain ⟨lead, trail, split, leadAll, trailAll⟩ := exists_trimTokens tokens
  have plain : ∀ token ∈ trimTokens tokens,
      token.isPunct "(" = false ∧ token.isPunct ")" = false := by
    intro token member
    rw [trim_render code, List.all_eq_true] at word
    have inWord : ∀ c ∈ token.text, isWordChar c = true := fun c inText =>
      word c (List.mem_flatMap.mpr ⟨token, member, inText⟩)
    have noMark : ∀ (mark : String) (c : Char), mark.toList = [c] → isWordChar c = false →
        token.isPunct mark = false := by
      intro mark c markEq outside
      by_contra isMark
      rw [Bool.not_eq_false] at isMark
      have textEq : token.text = [c] := by rw [eq_of_isPunct isMark, ← markEq]
      rw [inWord c (by rw [textEq]; exact List.mem_cons_self)] at outside
      cases outside
    exact ⟨noMark "(" '(' rfl rfl, noMark ")" ')' rfl rfl⟩
  rw [split, parenDepth?_append, parenDepth?_append, parenDepth?_trivia leadAll, Option.bind_some,
    parenDepth?_of_plain plain, Option.bind_some, parenDepth?_trivia trailAll]

/-- The level in a call is a digit or the text of the second argument. -/
theorem exists_levelTokens {second : List Token} (code : IsFragment second)
    (balanced : IsBalanced second) :
    ∃ part, levelText (Text.trim (render second)) = render part ∧ IsFragment part ∧
      IsBalanced part ∧ ∀ head : String,
        part.countP (·.isIdent head) ≤ second.countP (·.isIdent head) := by
  unfold levelText
  split
  · exact ⟨[⟨.number, "1".toList⟩], rfl,
      isFragment_of_tokenize_eq "1".toList (by cbv) (by decide), rfl, fun _ => Nat.zero_le _⟩
  · split
    · exact ⟨[⟨.number, "0".toList⟩], rfl,
        isFragment_of_tokenize_eq "0".toList (by cbv) (by decide), rfl, fun _ => Nat.zero_le _⟩
    · exact ⟨trimTokens second, trim_render code, code.part (trimTokens_isInfix second),
        balanced.trimTokens, fun _ => countP_trimTokens_le _ second⟩

theorem replaces_digitalWrite {context : Context} (names : context.HasScriptNames) :
    Replaces "digitalWrite" fun call =>
      match call.args with
      | [source, level] =>
        (digitalName? context.outputNames context.inputNames source).map fun name =>
          name ++ ".value(".toList ++ levelText level ++ ")".toList
      | _ => none := by
  intro inner text code balanced found
  dsimp only [Call.ofTokens] at found
  split at found
  · rename_i source level args
    obtain ⟨name, isName, rfl⟩ := Option.map_eq_some_iff.mp found
    obtain ⟨word, script⟩ := isScriptName_digitalName? names isName
    obtain ⟨first, comma, second, rfl, isComma, rfl, rfl⟩ := arguments_eq_two args
    have firstCode : IsFragment first := code.part ⟨[], comma :: second, rfl⟩
    have secondCode : IsFragment second := code.part ⟨first ++ [comma], [], by simp⟩
    have secondBalanced : IsBalanced second := by
      have plainComma : parenDepth? 0 (comma :: second) = parenDepth? 0 second := by
        rw [eq_of_isPunct isComma]
        rfl
      rw [IsBalanced, parenDepth?_append, parenDepth?_of_word firstCode word, Option.bind_some,
        plainComma] at balanced
      exact balanced
    obtain ⟨part, levelEq, partCode, partBalanced, partFewer⟩ :=
      exists_levelTokens secondCode secondBalanced
    have fewer := partFewer "digitalWrite"
    refine ⟨_, ?_, isReplacement_enclose (opensCall_value (by decide) script)
      (closesCall_parenthesis _) partCode partBalanced ?_⟩
    · rw [levelEq]
      simp only [render_append, render_nameTokens]
      rfl
    · rw [List.countP_append, List.countP_cons]
      omega
  · cases found

theorem replaces_digitalRead {context : Context} (names : context.HasScriptNames) :
    Replaces "digitalRead" fun call =>
      match call.args with
      | [source] =>
        (digitalName? context.inputNames context.outputNames source).map
          (· ++ ".value()".toList)
      | _ => none := by
  intro inner text code balanced found
  dsimp only [Call.ofTokens] at found
  split at found
  · obtain ⟨name, isName, rfl⟩ := Option.map_eq_some_iff.mp found
    obtain ⟨-, script⟩ := isScriptName_digitalName? names isName
    refine ⟨_, ?_, isReplacement_empty (opensCall_value (by decide) script)⟩
    simp only [render_append, render_nameTokens]
    simp
  · cases found

theorem isScriptName_analogName? {context : Context} (names : context.HasScriptNames)
    {source name : Text} (found : analogName? context source = some name) : IsScriptName name := by
  obtain ⟨ref, isRef, nameEq⟩ := Option.map_eq_some_iff.mp found
  subst nameEq
  have word := (PinRef.ofText?_eq_some isRef).1
  have small : (lowercase source).all isSmallChar = true := by
    rw [List.all_eq_true] at word ⊢
    intro c member
    obtain ⟨before, inSource, rfl⟩ := List.mem_map.mp member
    exact isSmallChar_toLower (word before inSource)
  have prefixed : ∀ more : Text, more.all isSmallChar = true → IsScriptName ("adc_".toList ++ more) :=
    fun more allSmall => IsScriptName.append (isScriptName_of_all rfl) (by decide) allSmall
  have refSmall := (PinRef.ofText?_eq_some isRef).2.small
  cases ref with
  | number pin =>
      dsimp only
      cases atPin : context.analogNames[pin]? with
      | some value => simpa using names.namesByPin atPin
      | none =>
          exact IsScriptName.append (isScriptName_of_all rfl) (by decide) (all_isSmallChar_ofNat pin)
  | indexed base index =>
      dsimp only
      split
      · exact prefixed _ refSmall
      · exact prefixed _ small
  | named name =>
      dsimp only
      split
      · exact prefixed _ refSmall
      · exact prefixed _ small

theorem replaces_analogRead {context : Context} (names : context.HasScriptNames) :
    Replaces "analogRead" fun call =>
      match call.args with
      | [source] => (analogName? context source).map (· ++ ".read()".toList)
      | _ => none := by
  intro inner text code balanced found
  dsimp only [Call.ofTokens] at found
  split at found
  · obtain ⟨name, isName, rfl⟩ := Option.map_eq_some_iff.mp found
    refine ⟨_, ?_, isReplacement_empty
      (opensCall_read (by decide) (isScriptName_analogName? names isName))⟩
    simp only [render_append, render_nameTokens]
    simp
  · cases found

/-- The rules for types and calls, in the order of their use. -/
def convertCalls (context : Context) (tokens : List Token) : List Token :=
  convertDelay <| convertPrint <| convertPrintLine <| convertDigitalRead context <|
    convertDigitalWrite context <| convertAnalogRead context <| stripTypes false tokens

theorem convertCalls_isLocal {context : Context} (names : context.HasScriptNames) :
    IsLocal (convertCalls context) := by
  have analog : IsLocal (convertAnalogRead context) :=
    replaceCalls_isLocal (replaces_analogRead names) (by simp [IsPath])
      fun token => eq_false_of_isFrame (fun _ => rfl) (by decide)
  have write : IsLocal (convertDigitalWrite context) :=
    replaceCalls_isLocal (replaces_digitalWrite names) (by simp [IsPath])
      fun token => eq_false_of_isFrame (fun _ => rfl) (by decide)
  have read : IsLocal (convertDigitalRead context) :=
    replaceCalls_isLocal (replaces_digitalRead names) (by simp [IsPath])
      fun token => eq_false_of_isFrame (fun _ => rfl) (by decide)
  have printLine : IsLocal convertPrintLine :=
    replaceCalls_isLocal replaces_printLine (by unfold IsPath; decide)
      fun token => eq_false_of_isFrame (fun _ => rfl) (by decide)
  have print : IsLocal convertPrint :=
    replaceCalls_isLocal replaces_print (by unfold IsPath; decide)
      fun token => eq_false_of_isFrame (fun _ => rfl) (by decide)
  have delay : IsLocal convertDelay :=
    replaceCalls_isLocal replaces_delay (by simp [IsPath])
      fun token => eq_false_of_isFrame (fun _ => rfl) (by decide)
  exact delay.comp <| print.comp <| printLine.comp <| read.comp <| write.comp <|
    analog.comp stripTypes_isLocal

end Breadboard.Script
