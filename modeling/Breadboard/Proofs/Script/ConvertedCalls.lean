import Breadboard.Proofs.Script.CallLine
import Breadboard.Proofs.Script.QuietHeader

set_option autoImplicit false

namespace Breadboard.Script

open Sketch hiding stripComments

/-- The last token that counts is a number that a level made of the dot behind it. -/
def EndsInLevelDot (tokens : List Token) : Prop :=
  ∃ front number gap, tokens = front ++ number :: gap ∧ (∀ token ∈ gap, token.isTrivia = true) ∧
    number.kind = .number ∧ number.text.getLast? = some '.' ∧ ∃ start ∈ levelDots, start <+: number.text

/-- Behind the tokens `before` stands a call of a form that a rule knows; `isPin` holds for the references to
pins. -/
def IsKnownCall (isPin : Text → Prop) (tokens before : List Token) : Prop :=
  ∃ form inner, IsFreeCall (CallForm.head form) form.tail tokens before inner ∧ form.Takes isPin inner

/-- The rules for calls come to their ends on a line and leave no call that they know. -/
structure ConvertsCalls (context : Context) (line : Text) : Prop where
  composed : convertTokens context (tokenize line) =
    convertHeader (normalizeWords none (passes context callForms (declaredTokens line)))
  ends : ∀ before form after, callForms = before ++ form :: after → ∃ count,
    Rewrites form.head form.tail (form.rule context) true false (passes context before (declaredTokens line))
      count (passes context (before ++ [form]) (declaredTokens line))
  left : ∀ before, IsKnownCall IsPinOperand (tokenize (convertLine context line)) before →
    EndsInLevelDot before

section

variable {tokens made : List Token}

theorem isPunctuationDropped_of_isNumberPart {token : Token} (part : isNumberPart token = true) :
    isPunctuationDropped token = false := by
  by_contra dropped
  rw [Bool.not_eq_false, isPunctuationDropped, Bool.or_eq_true, Bool.or_eq_true] at dropped
  rcases dropped with (mark | mark) | mark <;> rw [eq_of_isPunct mark] at part <;> cases part

/-- The marks of blocks are left out of what is cut anew as they are left out before. -/
theorem render_filter_of_merges (respelt : Respelt Merges tokens made) :
    render (made.filter (!isPunctuationDropped ·)) = render (tokens.filter (!isPunctuationDropped ·)) := by
  induction respelt with
  | nil => rfl
  | keep token more ih =>
      rw [List.filter_cons, List.filter_cons]
      split
      · rw [render_cons, render_cons, ih]
      · exact ih
  | @change run word rest made merges more ih =>
      have runKept : run.filter (!isPunctuationDropped ·) = run :=
        List.filter_eq_self.mpr fun token member => by
          rw [isPunctuationDropped_of_isNumberPart (merges.parts token member)]
          rfl
      rw [List.filter_append, List.filter_append, runKept, merges.made, render_append, render_append, ih]
      simp [isPunctuationDropped, Token.isPunct]

/-- A line of the script is the text of quiet tokens. -/
theorem IsQuiet.exists_converted (quiet : IsQuiet tokens) (isLine : IsBlockLine tokens) :
    ∃ made, IsQuiet made ∧ render ((convertHeader tokens).filter (!isPunctuationDropped ·)) = render made := by
  unfold convertHeader
  cases found : header? tokens with
  | some header =>
      obtain ⟨made, rendered, madeQuiet, madeEnds⟩ := (isReadFrom_header found).exists_tokens quiet isLine
      obtain ⟨ending, split⟩ := madeEnds.filter_eq
      refine ⟨made.filter (!isPunctuationDropped ·), @IsQuiet.part _ [] _ ending madeQuiet split rfl, ?_⟩
      change render ((tokenize header.render).filter (!isPunctuationDropped ·)) = _
      rw [rendered]
      exact render_filter_of_merges (respelt_tokenize madeQuiet.cut)
  | none =>
      obtain ⟨closer, body, rfl, isCloser, ends⟩ := isLine
      obtain ⟨ending, split⟩ := ends.filter_eq
      have dropped : closer.filter (!isPunctuationDropped ·) = [] ∧
          closer.foldl (dotAfter isDot) false = false := by
        rcases isCloser with rfl | rfl <;> exact ⟨rfl, rfl⟩
      have bodyQuiet : IsQuiet body := @IsQuiet.part _ closer body [] quiet (by simp) dropped.2
      refine ⟨body.filter (!isPunctuationDropped ·), @IsQuiet.part _ [] _ ending bodyQuiet split rfl, ?_⟩
      simp only [List.filter_append, dropped.1, List.nil_append]

/-- A text of quiet tokens is cut into tokens without known calls, but for what follows a number with a dot at
its end. -/
theorem IsQuiet.noCallIn_tokenize (quiet : IsQuiet tokens) (form : CallForm) :
    NoCallIn IsPinOperand isDotOrLevelDot form false (tokenize (render tokens)) [] :=
  (respelt_tokenize quiet.cut).noCallIn isRespelling_merges
    (fun spelt _ pin => by rwa [render_eq_of_merges spelt]) (quiet.noCall form)

theorem exists_of_foldl_dotAfter {isDot : Token → Bool} (dotted : tokens.foldl (dotAfter isDot) false = true) :
    ∃ front token gap, tokens = front ++ token :: gap ∧ (∀ other ∈ gap, other.isTrivia = true) ∧
      token.isTrivia = false ∧ isDot token = true := by
  induction tokens using List.reverseRecOn with
  | nil => cases dotted
  | append_singleton tokens last ih =>
      rw [List.foldl_append, List.foldl_cons, List.foldl_nil, dotAfter] at dotted
      by_cases trivia : last.isTrivia = true
      · rw [if_pos trivia] at dotted
        obtain ⟨front, token, gap, rfl, gapTrivia, shown, isLast⟩ := ih dotted
        refine ⟨front, token, gap ++ [last], by simp, ?_, shown, isLast⟩
        exact List.forall_mem_append.mpr ⟨gapTrivia, by simpa using trivia⟩
      · rw [if_neg trivia] at dotted
        exact ⟨tokens, last, [], rfl, by simp, Bool.not_eq_true _ ▸ trivia, dotted⟩

theorem IsKnownCall.endsInLevelDot {before : List Token} (known : IsKnownCall IsPinOperand tokens before)
    (none : ∀ form, NoCallIn IsPinOperand isDotOrLevelDot form false tokens []) : EndsInLevelDot before := by
  obtain ⟨form, inner, free, takes⟩ := known
  obtain ⟨path, gap, after, spells, trivia, split⟩ := free.split
  have starts : StartsCall IsPinOperand form (⟨.ident, form.head.toList⟩ ::
      (path ++ (gap ++ openParen :: (inner ++ closeParen :: after)) ++ [])) :=
    ⟨path, gap, inner, after, spells, trivia, free.closed, takes, by simp⟩
  have dotted : before.foldl (dotAfter isDotOrLevelDot) false = true := by
    by_contra plain
    exact none form before _ _ split (Bool.not_eq_true _ ▸ plain) starts
  obtain ⟨front, token, behind, rfl, behindTrivia, -, isLast⟩ := exists_of_foldl_dotAfter dotted
  rw [isDotOrLevelDot, Bool.or_eq_true] at isLast
  rcases isLast with dot | number
  · refine absurd ⟨front, behind, behindTrivia, ?_⟩ free.free
    rw [eq_of_isPunct dot]
  · rw [Bool.and_eq_true, Bool.and_eq_true, beq_iff_eq, beq_iff_eq, List.any_eq_true] at number
    obtain ⟨⟨isNumber, last⟩, start, isStart, isPrefix⟩ := number
    exact ⟨front, token, behind, rfl, behindTrivia, isNumber, last, start, isStart,
      List.isPrefixOf_iff_prefix.mp isPrefix⟩

/-- The text of a converted line is cut into tokens without known calls, but for what follows a level and a dot. -/
theorem IsPlainLine.noCallIn_convertLine {context : Context} (names : context.HasScriptNames) {line : Text}
    (plain : IsPlainLine line) (form : CallForm) :
    NoCallIn IsPinOperand isDotOrLevelDot form false (tokenize (convertLine context line)) [] := by
  obtain ⟨quiet, isLine⟩ := (plain.isCleared.passes names callForms).isQuiet
  obtain ⟨made, madeQuiet, rendered⟩ := quiet.exists_converted isLine
  obtain ⟨lead, part, trail, -, -, -, trimmed, partQuiet, -⟩ := madeQuiet.exists_trim
  have text : convertLine context line = render part := by
    rw [← trimmed, ← rendered]
    rfl
  rw [text]
  exact partQuiet.noCallIn_tokenize form

end

/-- A statement is a plain line if its literals end and no other mark of a block stands in it. -/
theorem IsPlainLine.of_statement {line : Text} {body : List Token} (cut : tokenize line = body ++ [semicolon])
    (whole : ∀ token ∈ body, token.kind ≠ .comment ∧ (token.kind = .literal → token.isClosedLiteral = true) ∧
      token.isBlockMark = false) : IsPlainLine line where
  uncommented := by
    rw [cut]
    exact List.forall_mem_append.mpr ⟨fun token member => (whole token member).1, by decide⟩
  terminated := by
    rw [cut]
    exact List.forall_mem_append.mpr ⟨fun token member => (whole token member).2.1, by decide⟩
  marks := ⟨[], _, cut, Or.inl rfl, body, [semicolon], rfl, fun token member => (whole token member).2.2,
    Or.inr ⟨semicolon, rfl, Or.inl rfl⟩⟩

/-- The rules for calls convert a plain line in finitely many steps, if the names of the pins are names of the
script, as they are in each harvested context. Behind the rules no call that they know is left: none of these forms
with a reference to a pin, with something to print or to wait for. Two kinds of text come to look like such a call
only later: a lone operator where the pin stands becomes a word, and a level before a dot becomes a number. -/
theorem known_calls_converted :
    (∀ firmware, (Context.harvest firmware).HasScriptNames) ∧
      ∀ context : Context, context.HasScriptNames → ∀ line, IsPlainLine line → ConvertsCalls context line := by
  refine ⟨Context.hasScriptNames_harvest, fun context names line plain =>
    ⟨convertTokens_eq_passes context line, fun before form after _ => ?_, fun before known =>
      known.endsInLevelDot (plain.noCallIn_convertLine names)⟩⟩
  rw [passes_concat]
  exact form.exists_run names (plain.isCleared.passes names before).cut

/-- A line with calls in the arguments of calls. -/
def nestedCalls : Text :=
  "Serial.println(map(analogRead(A0), digitalRead(BUTTON)));".toList

theorem known_calls_converted_nestedCalls :
    IsPlainLine nestedCalls ∧ ConvertsCalls (Context.harvest []) nestedCalls := by
  have cut : tokenize nestedCalls =
      [⟨.ident, "Serial".toList⟩, ⟨.punct, ['.']⟩, ⟨.ident, "println".toList⟩, openParen, ⟨.ident, "map".toList⟩,
        openParen, ⟨.ident, "analogRead".toList⟩, openParen, ⟨.ident, "A0".toList⟩, closeParen, comma, blankToken,
        ⟨.ident, "digitalRead".toList⟩, openParen, ⟨.ident, "BUTTON".toList⟩, closeParen, closeParen,
        closeParen] ++ [semicolon] := by
    cbv
  have plain : IsPlainLine nestedCalls := .of_statement cut (by decide)
  exact ⟨plain, known_calls_converted.2 _ (known_calls_converted.1 []) nestedCalls plain⟩

/-- The plain line still holds a known call when it is converted. -/
def LeavesCall (context : Context) (line : Text) : Prop :=
  IsPlainLine line ∧ ∃ before, IsKnownCall IsPinReference (tokenize (convertLine context line)) before

section

variable {context : Context} {line : Text} {tokens : List Token}

/-- A statement that only the rules for pins change anything in. -/
theorem convertLine_of_accessed (plain : IsPlainLine line) (cut : tokenize line = tokens)
    (untyped : stripTypes false tokens = tokens) {analog write read : List Token}
    (analogRead : convertAnalogRead context tokens = analog)
    (digitalWrite : convertDigitalWrite context analog = write)
    (digitalRead : convertDigitalRead context write = read)
    (noSerial : ∀ token ∈ read, token.isIdent "Serial" = false) (waits : convertDelay read = read) :
    convertLine context line = finishTokens read := by
  have printLine : convertPrintLine read = read := replaceCalls_of_absent noSerial
  have print : convertPrint read = read := replaceCalls_of_absent noSerial
  have called : convertCalls context (tokenize line) = read := by
    rw [convertCalls, cut, untyped, analogRead, digitalWrite, digitalRead, printLine, print, waits]
  exact convertLine_of_convertCalls (isCut_tokenize plain.uncommented plain.terminated)
    (render_tokenize line) called

theorem IsKnownCall.of_tokens {form : CallForm} {before inner after : List Token} (noPath : form.tail = [])
    (free : before.foldl isDotNext false = false) (closed : IsClosed "(" ")" inner)
    (takes : form.Takes IsPinReference inner)
    (cut : tokenize line =
      before ++ ⟨.ident, form.head.toList⟩ :: openParen :: (inner ++ closeParen :: after)) :
    IsKnownCall IsPinReference (tokenize line) before := by
  refine ⟨form, inner, ⟨foldl_isDotNext_eq_false.mp free, closed, [], [], after, ?_, by simp, cut⟩, takes⟩
  rw [noPath]
  exact .nil

end

theorem harvest_nil : Context.harvest [] = ⟨[], []⟩ := by
  cbv

def operatorRead : List Token :=
  [⟨.ident, "analogRead".toList⟩, openParen, ⟨.punct, ['!']⟩, closeParen]

/-- An operator in the place of the pin is known to no rule, but its word looks like a name. -/
theorem leavesCall_operator : LeavesCall (Context.harvest []) "analogRead(!);".toList := by
  have cut : tokenize "analogRead(!);".toList = operatorRead ++ [semicolon] := by
    cbv
  have plain : IsPlainLine "analogRead(!);".toList := .of_statement cut (by decide)
  have analog : convertAnalogRead (Context.harvest []) (operatorRead ++ [semicolon]) =
      operatorRead ++ [semicolon] := by
    rw [harvest_nil]
    cbv
  have converted : convertLine (Context.harvest []) "analogRead(!);".toList = "analogRead(not )".toList :=
    convertLine_of_accessed plain cut rfl analog (replaceCalls_of_absent (by decide))
      (replaceCalls_of_absent (by decide)) (by decide) (replaceCalls_of_absent (by decide))
  refine ⟨plain, [], ?_⟩
  rw [converted]
  exact @IsKnownCall.of_tokens _ .analogRead [] [⟨.ident, "not".toList⟩, blankToken] [] rfl rfl
    (.of_plain (by decide)) ⟨⟨⟨_, List.mem_cons_self, rfl⟩, isWhole_of_no_comma (by decide) 0⟩, by decide⟩ (by cbv)

/-- A level takes the dot behind it into its number, and the call behind the dot is free. -/
theorem leavesCall_level : LeavesCall (Context.harvest []) "HIGH. delay(3);".toList := by
  have cut : tokenize "HIGH. delay(3);".toList =
      [⟨.ident, "HIGH".toList⟩, ⟨.punct, ['.']⟩, blankToken, ⟨.ident, "delay".toList⟩, openParen,
        ⟨.number, ['3']⟩, closeParen] ++ [semicolon] := by
    cbv
  have plain : IsPlainLine "HIGH. delay(3);".toList := .of_statement cut (by decide)
  have converted : convertLine (Context.harvest []) "HIGH. delay(3);".toList = "1. delay(3)".toList :=
    convertLine_of_accessed plain cut rfl (replaceCalls_of_absent (by decide))
      (replaceCalls_of_absent (by decide)) (replaceCalls_of_absent (by decide)) (by decide) (by cbv)
  refine ⟨plain, [⟨.number, "1.".toList⟩, blankToken], ?_⟩
  rw [converted]
  have waits : Text.trim (render [⟨.number, ['3']⟩]) ≠ [] := by
    decide
  exact @IsKnownCall.of_tokens _ .delay _ [⟨.number, ['3']⟩] [] rfl rfl (.of_plain (by decide)) waits (by cbv)

/-- A context whose pin bears the text of a call as its name. No sketch gives one. -/
def callNamed : Context :=
  ⟨[], [⟨"analogRead(A1)".toList, 2, .output, "2".toList⟩]⟩

def numberRead : List Token :=
  [⟨.ident, "digitalRead".toList⟩, openParen, ⟨.number, ['2']⟩, closeParen]

def callNamedRead : List Token :=
  [⟨.ident, "analogRead".toList⟩, openParen, ⟨.ident, "A1".toList⟩, closeParen, ⟨.punct, ['.']⟩,
    ⟨.ident, "value".toList⟩, openParen, closeParen]

/-- What stands in the place of a call of a later rule is not seen by the earlier ones. -/
theorem leavesCall_name : LeavesCall callNamed "digitalRead(2);".toList := by
  have cut : tokenize "digitalRead(2);".toList = numberRead ++ [semicolon] := by
    cbv
  have plain : IsPlainLine "digitalRead(2);".toList := .of_statement cut (by decide)
  have retokenized : tokenize "analogRead(A1).value()".toList = callNamedRead := by
    cbv
  have found : CallForm.digitalRead.rule callNamed ⟨[['2']], ['2']⟩ = some "analogRead(A1).value()".toList := by
    have named : digitalName? callNamed.inputNames callNamed.outputNames ['2'] =
        some "analogRead(A1)".toList := by
      cbv
    rw [CallForm.rule, Call.withOne]
    simp only [named]
    rfl
  have read : convertDigitalRead callNamed (numberRead ++ [semicolon]) = callNamedRead ++ [semicolon] := by
    rw [← retokenized]
    refine @replaceCalls_once _ [] _ [] _ _ ⟨.ident, "digitalRead".toList⟩ _ _ (by simp) rfl (by decide) found
      (by decide) ?_
    rw [retokenized]
    decide
  have converted : convertLine callNamed "digitalRead(2);".toList = "analogRead(A1).value()".toList :=
    convertLine_of_accessed plain cut rfl (replaceCalls_of_absent (by decide))
      (replaceCalls_of_absent (by decide)) read (by decide) (replaceCalls_of_absent (by decide))
  refine ⟨plain, [], ?_⟩
  rw [converted]
  exact @IsKnownCall.of_tokens _ .analogRead [] [⟨.ident, "A1".toList⟩]
    [⟨.punct, ['.']⟩, ⟨.ident, "value".toList⟩, openParen, closeParen] rfl rfl (.of_plain (by decide))
    ⟨⟨⟨_, List.mem_cons_self, rfl⟩, isWhole_of_no_comma (by decide) 0⟩, by decide⟩ retokenized

theorem plain_line_leaves_call :
    LeavesCall (Context.harvest []) "analogRead(!);".toList ∧
      LeavesCall (Context.harvest []) "HIGH. delay(3);".toList ∧
      LeavesCall callNamed "digitalRead(2);".toList :=
  ⟨leavesCall_operator, leavesCall_level, leavesCall_name⟩

end Breadboard.Script
