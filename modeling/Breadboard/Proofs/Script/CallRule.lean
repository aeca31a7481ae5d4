import Breadboard.Proofs.Script.CallPass
import Breadboard.Proofs.Script.TrimmedTokens

set_option autoImplicit false

namespace Breadboard.Script

open Sketch hiding stripComments

/-- A rule for calls with one argument. -/
def Call.withOne (call : Call) (put : Text → Option Text) : Option Text :=
  match call.args with
  | [source] => put source
  | _ => none

/-- A rule for calls with two arguments. -/
def Call.withTwo (call : Call) (put : Text → Text → Option Text) : Option Text :=
  match call.args with
  | [source, level] => put source level
  | _ => none

/-- What the conversion puts in the place of a call of the form. -/
def CallForm.rule (context : Context) : CallForm → Call → Option Text
  | analogRead, call => call.withOne fun source => (analogName? context source).map (· ++ ".read()".toList)
  | digitalWrite, call => call.withTwo fun source level =>
      (digitalName? context.outputNames context.inputNames source).map fun name =>
        name ++ ".value(".toList ++ levelText level ++ ")".toList
  | digitalRead, call => call.withOne fun source =>
      (digitalName? context.inputNames context.outputNames source).map (· ++ ".value()".toList)
  | printLine, call => some ("print(".toList ++ call.inner ++ ")".toList)
  | print, call =>
      if call.inner.isEmpty then some "print(end=\"\")".toList
      else some ("print(".toList ++ call.inner ++ ", end=\"\")".toList)
  | delay, call =>
      if call.inner.isEmpty then none else some ("time.sleep_ms(".toList ++ call.inner ++ ")".toList)

/-- The pass of the rule of a form. -/
def CallForm.pass (context : Context) (form : CallForm) (tokens : List Token) : List Token :=
  replaceCalls form.head form.tail (form.rule context) tokens

/-- The passes of the conversion of a line. -/
def callForms : List CallForm :=
  [.analogRead, .digitalWrite, .digitalRead, .printLine, .print, .delay]

section

variable {context : Context} {inner path gap tokens : List Token} {form : CallForm}

theorem isSome_withOne {put : Text → Option Text} (puts : ∀ source, (put source).isSome = true ↔
    IsPinReference source) (inner : List Token) :
    ((Call.ofTokens inner).withOne put).isSome = true ↔
      IsOneArgument inner ∧ IsPinReference (Text.trim (render inner)) := by
  rw [Call.withOne, Call.ofTokens]
  constructor
  · intro isSome
    split at isSome
    · rename_i source one
      obtain ⟨isOne, rfl⟩ := arguments_eq_one_iff.mp one
      exact ⟨isOne, (puts _).mp isSome⟩
    · cases isSome
  · rintro ⟨isOne, isPin⟩
    simp only [arguments_eq_one_iff.mpr ⟨isOne, rfl⟩]
    exact (puts _).mpr isPin

theorem isSome_withTwo {put : Text → Text → Option Text} (puts : ∀ source level,
    (put source level).isSome = true ↔ IsPinReference source) (inner : List Token) :
    ((Call.ofTokens inner).withTwo put).isSome = true ↔
      ∃ first second, AreTwoArguments inner first second ∧ IsPinReference (Text.trim (render first)) := by
  rw [Call.withTwo, Call.ofTokens]
  constructor
  · intro isSome
    split at isSome
    · rename_i source level two
      obtain ⟨first, second, areTwo, rfl, rfl⟩ := arguments_eq_two_iff.mp two
      exact ⟨first, second, areTwo, (puts _ _).mp isSome⟩
    · cases isSome
  · rintro ⟨first, second, areTwo, isPin⟩
    simp only [arguments_eq_two_iff.mpr ⟨first, second, areTwo, rfl, rfl⟩]
    exact (puts _ _).mpr isPin

theorem isSome_digitalName? (first second : Std.TreeMap Nat Text) (source : Text) :
    (digitalName? first second source).isSome = true ↔ IsPinReference source := by
  rw [digitalName?, Option.isSome_map, IsPinReference]

theorem isSome_analogName? (context : Context) (source : Text) :
    (analogName? context source).isSome = true ↔ IsPinReference source := by
  rw [analogName?, Option.isSome_map, IsPinReference]

/-- The rule of a form takes the known calls of the form. -/
theorem isSome_rule (context : Context) (form : CallForm) (inner : List Token) :
    (form.rule context (Call.ofTokens inner)).isSome = true ↔ form.Takes IsPinReference inner := by
  cases form with
  | analogRead =>
      exact isSome_withOne (fun source => by rw [Option.isSome_map, isSome_analogName?]) inner
  | digitalRead =>
      exact isSome_withOne (fun source => by rw [Option.isSome_map, isSome_digitalName?]) inner
  | digitalWrite =>
      exact isSome_withTwo (fun source level => by rw [Option.isSome_map, isSome_digitalName?]) inner
  | printLine => exact iff_of_true rfl trivial
  | print =>
      rw [CallForm.rule]
      refine iff_of_true ?_ trivial
      split <;> rfl
  | delay =>
      rw [CallForm.rule, CallForm.Takes, Call.ofTokens]
      split
      · rename_i empty
        exact iff_of_false (by simp) (fun nonempty => nonempty (List.isEmpty_iff.mp empty))
      · rename_i nonempty
        exact iff_of_true rfl (fun empty => nonempty (List.isEmpty_iff.mpr empty))

/-- In a text of letters, digits and underscores no token is a bracket or a comma. -/
theorem flat_of_word (word : (Text.trim (render tokens)).all isWordChar = true) :
    ∀ token ∈ tokens, IsFlat token ∧ token ≠ comma := by
  intro token member
  refine @flat_of_all (fun c => isWordChar c || Text.isBlank c) _ (fun c inText => ?_) (by decide)
  rw [Bool.or_eq_true]
  by_cases blank : Text.isBlank c = true
  · exact Or.inr blank
  · have inTokens : c ∈ render tokens := List.mem_flatMap.mpr ⟨token, member, inText⟩
    exact Or.inl (List.all_eq_true.mp word c (Text.mem_trim inTokens (Bool.not_eq_true _ ▸ blank)))

theorem flat_of_texts {token : Token} (plain : token.isTrivia = true ∨
    token.text ∈ [".", "print", "println"].map String.toList) : IsFlat token ∧ token ≠ comma := by
  rcases plain with trivia | named
  · refine ⟨⟨?_, ?_⟩, ?_⟩
    · rw [Token.isOpening, isPunct_of_isTrivia trivia, isPunct_of_isTrivia trivia, isPunct_of_isTrivia trivia]
      rfl
    · rw [Token.isClosing, isPunct_of_isTrivia trivia, isPunct_of_isTrivia trivia, isPunct_of_isTrivia trivia]
      rfl
    · rintro rfl
      cases trivia
  · have allNumberChars : ([".", "print", "println"].map String.toList).all
        (fun part => part.all isNumberChar) = true := by
      decide
    have all := List.all_eq_true.mp (List.all_eq_true.mp allNumberChars token.text named)
    exact flat_of_all all (by decide)

theorem pathFlat (spells : SpellsPath form.tail path) (trivia : ∀ token ∈ gap, token.isTrivia = true) :
    ∀ token ∈ path ++ gap, IsFlat token ∧ token ≠ comma := by
  intro token member
  refine flat_of_texts ?_
  rcases List.mem_append.mp member with inPath | inGap
  · refine (spells.of_mem inPath).imp_right ?_
    rintro ⟨part, isPart, same⟩
    rw [same]
    refine List.mem_map_of_mem ?_
    cases form with
    | printLine => exact (List.mem_pair.mp isPart).elim (by rintro rfl; simp) (by rintro rfl; simp)
    | print => exact (List.mem_pair.mp isPart).elim (by rintro rfl; simp) (by rintro rfl; simp)
    | _ => cases isPart
  · exact Or.inl (trivia token inGap)

theorem foldl_dotAfter_blank (blank : ∀ token ∈ tokens, IsBlankToken token) :
    tokens.foldl (dotAfter isDot) false = false := by
  induction tokens with
  | nil => rfl
  | cons token tokens ih =>
      have noDot : isDot token = false := by
        by_contra dot
        have isBlank := blank token List.mem_cons_self
        have isMark : token.isPunct "." = true := by simpa [isDot] using dot
        rw [eq_of_isPunct isMark] at isBlank
        cases isBlank
      have here : dotAfter isDot false token = false := by
        rw [dotAfter, noDot, ite_self]
      rw [List.foldl_cons, here]
      exact ih fun other member => blank other (List.mem_cons_of_mem _ member)

theorem flat_of_blank (blank : ∀ token ∈ tokens, IsBlankToken token) :
    ∀ token ∈ tokens, IsFlat token ∧ token ≠ comma := by
  refine flat_of_word ?_
  rw [Text.trim_of_allBlank (allBlank_render blank)]
  rfl

end

section

variable {rule : CallForm}

theorem isCallName_of_words {name : List Token} (opens : OpensCall rule.head (name ++ [openParen]))
    (fresh : IsFresh name) (flat : ∀ token ∈ name, IsFlat token ∧ token ≠ comma)
    (others : ∀ form : CallForm, ∀ token ∈ name, token ≠ ⟨.ident, form.head.toList⟩) :
    IsCallName rule name := by
  refine ⟨flat, fresh, opens, fun isPin form after => noCallIn_of_others fun token member => ?_⟩
  rcases List.mem_append.mp member with inName | isOpening
  · exact others form token inName
  · rw [List.mem_singleton.mp isOpening]
    exact fun same => by cases same

/-- Whether the tokens are no brackets, no commas and no names of calls that the conversion knows. -/
def arePlain (tokens : List Token) : Bool :=
  tokens.all fun token => !token.isOpening && !token.isClosing && token != comma &&
    callForms.all fun form => token != ⟨.ident, form.head.toList⟩

theorem mem_callForms (form : CallForm) : form ∈ callForms := by
  cases form <;> decide

theorem plain_of_arePlain {tokens : List Token} (plain : arePlain tokens = true) :
    (∀ token ∈ tokens, IsFlat token ∧ token ≠ comma) ∧
      ∀ form : CallForm, ∀ token ∈ tokens, token ≠ ⟨.ident, form.head.toList⟩ := by
  rw [arePlain, List.all_eq_true] at plain
  have each : ∀ token ∈ tokens, IsFlat token ∧ token ≠ comma ∧
      ∀ form : CallForm, token ≠ ⟨.ident, form.head.toList⟩ := by
    intro token member
    have checked := plain token member
    simp only [Bool.and_eq_true, Bool.not_eq_true', bne_iff_ne, List.all_eq_true] at checked
    exact ⟨⟨checked.1.1.1, checked.1.1.2⟩, checked.1.2, fun form => checked.2 form (mem_callForms form)⟩
  exact ⟨fun token member => ⟨(each token member).1, (each token member).2.1⟩,
    fun form token member => (each token member).2.2 form⟩

theorem isCallName_print (isPrint : rule.head = "Serial") :
    IsCallName rule [⟨.ident, "print".toList⟩] := by
  obtain ⟨flat, others⟩ := @plain_of_arePlain [⟨.ident, "print".toList⟩] (by decide)
  refine isCallName_of_words ?_ (.word rfl (by decide)) flat others
  rw [isPrint]
  exact opensCall_print

theorem isCallName_sleep : IsCallName .delay
    [⟨.ident, "time".toList⟩, ⟨.punct, ".".toList⟩, ⟨.ident, "sleep_ms".toList⟩] := by
  obtain ⟨flat, others⟩ := @plain_of_arePlain
    [⟨.ident, "time".toList⟩, ⟨.punct, ".".toList⟩, ⟨.ident, "sleep_ms".toList⟩] (by decide)
  exact isCallName_of_words opensCall_sleep (.word rfl (by decide)) flat others

/-- No known call starts with a name before a dot but one of a method that prints. -/
theorem not_startsCall_method {isPin : Text → Prop} {form : CallForm} {token dot : Token} {rest : List Token}
    (noTail : form.tail = []) (isDot : dot.isPunct "." = true) :
    ¬ StartsCall isPin form (token :: dot :: rest) := by
  rintro ⟨path, gap, inner, after, spells, trivia, -, -, split⟩
  rw [noTail] at spells
  cases spells
  obtain ⟨-, onward⟩ := List.cons.inj split
  have visible := isTrivia_of_isPunct isDot
  rw [List.nil_append] at onward
  rcases List.cons_eq_append_iff.mp onward with ⟨rfl, same⟩ | ⟨others, rfl, -⟩
  · rw [(List.cons.inj same).1.symm] at isDot
    cases isDot
  · have isTrivia := trivia dot List.mem_cons_self
    rw [visible] at isTrivia
    cases isTrivia

theorem isCallName_method {method : List Token} {name : Text} (script : IsScriptName name)
    (opens : OpensCall rule.head (nameTokens name ++ (⟨.punct, ".".toList⟩ :: method) ++ [openParen]))
    (plain : arePlain method = true) (visible : ∃ second more, method = second :: more ∧
      second.isTrivia = false ∧ second.text ∉ ["print", "println"].map String.toList) :
    IsCallName rule (nameTokens name ++ ⟨.punct, ".".toList⟩ :: method) := by
  obtain ⟨second, more, rfl, secondVisible, noPrint⟩ := visible
  obtain ⟨flat, others⟩ := plain_of_arePlain plain
  have methodFlat : ∀ token ∈ ⟨.punct, ".".toList⟩ :: second :: more, IsFlat token ∧ token ≠ comma := by
    intro token member
    rcases List.mem_cons.mp member with rfl | inMethod
    · exact ⟨⟨rfl, rfl⟩, fun same => by cases same⟩
    · exact flat token inMethod
  have methodOthers (form : CallForm) : ∀ token ∈ ⟨.punct, ".".toList⟩ :: second :: more ++ [openParen],
      token ≠ ⟨.ident, form.head.toList⟩ := by
    intro token member
    rcases List.mem_append.mp member with inName | isOpening
    · rcases List.mem_cons.mp inName with rfl | inMethod
      · exact fun same => by cases same
      · exact others form token inMethod
    · rw [List.mem_singleton.mp isOpening]
      exact fun same => by cases same
  cases name with
  | nil => exact ⟨methodFlat, .method rfl secondVisible noPrint, opens,
      fun isPin form after => noCallIn_of_others (methodOthers form)⟩
  | cons c rest =>
      refine ⟨fun token member => ?_, .word rfl ?_, opens, fun isPin form after => ?_⟩
      · rcases List.mem_append.mp member with isName | inMethod
        · rw [List.mem_singleton.mp isName]
          exact ⟨⟨rfl, rfl⟩, fun same => by cases same⟩
        · exact methodFlat token inMethod
      · have start := script.start c rfl
        intro parts
        rcases List.mem_pair.mp parts with same | same <;>
          (obtain ⟨rfl, -⟩ := List.cons.inj same; cases start)
      · refine noCallIn_cons.mpr ⟨fun _ starts => ?_, noCallIn_of_others (methodOthers form)⟩
        by_cases small : form.tail = []
        · exact not_startsCall_method small rfl starts
        · have named := starts.isIdent_head
          have serial : form.head = "Serial" := by
            cases form <;> first | rfl | exact absurd rfl small
          rw [serial] at named
          have same : c :: rest = "Serial".toList := congrArg Token.text named
          rw [same] at script
          cases script.small

theorem isCallEnd_nil : IsCallEnd [] :=
  ⟨by simp, (closesCall_parenthesis "").code, ⟨closeParen, [], rfl, rfl, by decide⟩, by simp⟩

theorem isCallEnd_of_text (text : Text) {extra : List Token} {first : Token} {more : List Token}
    (cutAt : tokenize text = extra ++ [closeParen])
    (lexemes : (extra ++ [closeParen]).all (fun token => (token.kind != .comment &&
      (token.kind != .literal || token.isClosedLiteral)) && (token.text.all isLineChar &&
        !token.isBlockMark)) = true)
    (plain : (extra.all fun token => !token.isOpening && !token.isClosing &&
      callForms.all fun form => token != ⟨.ident, form.head.toList⟩) = true)
    (starts : extra ++ [closeParen] = first :: more) (visible : first.isTrivia = false)
    (other : first.text ∉ ["(", ".", "print", "println"].map String.toList) : IsCallEnd extra := by
  rw [List.all_eq_true] at plain
  refine ⟨fun token member => ?_, isFragment_of_tokenize_eq text cutAt lexemes,
    ⟨first, more, starts, visible, other⟩, fun form token member => ?_⟩
  · have checked := plain token member
    simp only [Bool.and_eq_true, Bool.not_eq_true'] at checked
    exact checked.1
  · have checked := plain token member
    simp only [Bool.and_eq_true, List.all_eq_true, bne_iff_ne] at checked
    exact checked.2 form (mem_callForms form)

/-- What is put behind the arguments of `Serial.print`. -/
def endTokens : List Token :=
  [⟨.ident, "end".toList⟩, ⟨.punct, "=".toList⟩, endLiteral]

theorem isCallEnd_end : IsCallEnd (comma :: blankToken :: endTokens) :=
  isCallEnd_of_text ", end=\"\")".toList (by cbv) (by decide) (by decide) rfl rfl (by decide)

theorem isCallEnd_endAlone : IsCallEnd endTokens :=
  isCallEnd_of_text "end=\"\")".toList (by cbv) (by decide) (by decide) rfl rfl (by decide)

theorem isCallEnd_level {digit : Char} (level : digit = '1' ∨ digit = '0') :
    IsCallEnd [⟨.number, [digit]⟩] := by
  rcases level with rfl | rfl
  · exact isCallEnd_of_text "1)".toList (by cbv) (by decide) (by decide) rfl rfl (by decide)
  · exact isCallEnd_of_text "0)".toList (by cbv) (by decide) (by decide) rfl rfl (by decide)

end

section

variable {context : Context} {rule : CallForm} {path gap inner before part behind name extra : List Token}
  {text : Text}

/-- A call of a form and what is put in its place are a splice, if these are their parts. -/
theorem exists_splice (isName : IsCallName rule name) (isEnd : IsCallEnd extra)
    (spells : SpellsPath rule.tail path) (trivia : ∀ token ∈ gap, token.isTrivia = true)
    (closed : IsClosed "(" ")" inner) (cut : IsCut inner) (split : inner = before ++ (part ++ behind))
    (beforeFlat : ∀ token ∈ before, IsFlat token) (behindBlank : ∀ token ∈ behind, IsBlankToken token)
    (free : part ≠ [] → before.foldl (dotAfter isDot) false = false)
    (apart : part ≠ [] → ∃ c more, extra ++ [closeParen] = ⟨.punct, [c]⟩ :: more ∧ isDelimiter c = true)
    (made : text = render (name ++ openParen :: (part ++ (extra ++ [closeParen])))) :
    ∃ splice : Splice rule, splice.segment =
        ⟨.ident, rule.head.toList⟩ :: (path ++ (gap ++ openParen :: (inner ++ [closeParen]))) ∧
      tokenize text = splice.made := by
  subst split
  have behindFlat := flat_of_blank behindBlank
  have partClosed : IsClosed "(" ")" part := (closed.of_flat_append beforeFlat).of_append_flat
    fun token member => (behindFlat token member).1
  have partCut : IsCut part := cut.part ⟨before, behind, by simp⟩
  obtain ⟨splice, isSegment, isMade⟩ : ∃ splice : Splice rule, splice.segment =
        ⟨.ident, rule.head.toList⟩ ::
          (path ++ (gap ++ openParen :: (before ++ (part ++ behind) ++ [closeParen]))) ∧
      splice.made = name ++ openParen :: (part ++ (extra ++ [closeParen])) :=
    ⟨⟨path ++ gap, before, part, behind, name, extra, isName, isEnd, closed, partClosed, partCut,
      pathFlat spells trivia, beforeFlat, behindFlat, free, apart⟩, by simp [Splice.segment, Splice.call], rfl⟩
  refine ⟨splice, isSegment, ?_⟩
  rw [made, ← isMade]
  exact Splice.isCut_made.tokenize_render

theorem solid_of_isCut (cut : IsCut inner) : ∀ token ∈ inner, IsSolid token :=
  fun token member => isSolid_of_isLexeme (cut.whole token member)

theorem render_method (name : Text) (method : Token) (part extra : List Token) :
    render (nameTokens name ++ [⟨.punct, ".".toList⟩, method] ++ openParen :: (part ++ (extra ++ [closeParen]))) =
      name ++ '.' :: (method.text ++ '(' :: (render part ++ (render extra ++ [')']))) := by
  simp only [render_append, render_nameTokens, render_cons, render_nil, List.append_assoc, List.append_nil]
  rfl

theorem isCallName_value {name : Text} (script : IsScriptName name)
    (capital : rule.head.toList.all isSmallChar = false) :
    IsCallName rule (nameTokens name ++ [⟨.punct, ".".toList⟩, ⟨.ident, "value".toList⟩]) := by
  refine isCallName_method script ?_ (by decide) ⟨_, [], rfl, rfl, by decide⟩
  rw [List.append_assoc]
  exact opensCall_value capital script

theorem isCallName_read {name : Text} (script : IsScriptName name)
    (capital : rule.head.toList.all isSmallChar = false) :
    IsCallName rule (nameTokens name ++ [⟨.punct, ".".toList⟩, ⟨.ident, "read".toList⟩]) := by
  refine isCallName_method script ?_ (by decide) ⟨_, [], rfl, rfl, by decide⟩
  rw [List.append_assoc]
  exact opensCall_read capital script

theorem all_isWordChar_of_isPinReference {source : Text} (isPin : IsPinReference source) :
    source.all isWordChar = true := by
  obtain ⟨ref, isRef⟩ := Option.isSome_iff_exists.mp isPin
  exact (PinRef.ofText?_eq_some isRef).1

/-- A call that reads a pin gives way to a call without arguments. -/
theorem exists_splice_read {name : Text} {method : Token}
    (isName : IsCallName rule (nameTokens name ++ [⟨.punct, ".".toList⟩, method]))
    (spells : SpellsPath rule.tail path) (trivia : ∀ token ∈ gap, token.isTrivia = true)
    (closed : IsClosed "(" ")" inner) (cut : IsCut inner) (isPin : IsPinReference (Text.trim (render inner)))
    (made : text = name ++ '.' :: (method.text ++ "()".toList)) :
    ∃ splice : Splice rule, splice.segment =
        ⟨.ident, rule.head.toList⟩ :: (path ++ (gap ++ openParen :: (inner ++ [closeParen]))) ∧
      tokenize text = splice.made := by
  have flat := flat_of_word (all_isWordChar_of_isPinReference isPin)
  refine exists_splice isName isCallEnd_nil spells trivia closed cut
    (show inner = inner ++ ([] ++ []) by simp) (fun token member => (flat token member).1) (by simp)
    (fun nonempty => absurd rfl nonempty) (fun nonempty => absurd rfl nonempty) ?_
  rw [made, render_method]
  rfl

/-- A call keeps its arguments but for the blanks around them. -/
theorem exists_splice_inner (isName : IsCallName rule name) (isEnd : IsCallEnd extra)
    (spells : SpellsPath rule.tail path) (trivia : ∀ token ∈ gap, token.isTrivia = true)
    (closed : IsClosed "(" ")" inner) (cut : IsCut inner)
    (apart : Text.trim (render inner) ≠ [] →
      ∃ c more, extra ++ [closeParen] = ⟨.punct, [c]⟩ :: more ∧ isDelimiter c = true)
    (made : text = render name ++ '(' :: (Text.trim (render inner) ++ (render extra ++ [')']))) :
    ∃ splice : Splice rule, splice.segment =
        ⟨.ident, rule.head.toList⟩ :: (path ++ (gap ++ openParen :: (inner ++ [closeParen]))) ∧
      tokenize text = splice.made := by
  obtain ⟨lead, part, trail, split, leadBlank, trailBlank, trimmed, tight⟩ :=
    exists_trim_render (solid_of_isCut cut)
  refine exists_splice isName isEnd spells trivia closed cut split
    (fun token member => (flat_of_blank leadBlank token member).1) trailBlank
    (fun _ => foldl_dotAfter_blank leadBlank) (fun nonempty => apart ?_) ?_
  · rw [trimmed]
    exact (tight nonempty).notEmpty
  · rw [made, trimmed]
    simp only [render_append, render_cons, render_nil, List.append_nil]
    rfl

/-- The script's spelling of a level is a digit, or the level as it was. -/
theorem levelText_cases (level : Text) : levelText level = level ∨
    (∃ digit, levelText level = [digit] ∧ (digit = '1' ∨ digit = '0')) ∧ level.all isWordChar = true := by
  rw [levelText]
  split
  · rename_i high
    refine Or.inr ⟨⟨'1', rfl, Or.inl rfl⟩, ?_⟩
    rcases high with rfl | rfl | rfl <;> decide
  · split
    · rename_i low
      refine Or.inr ⟨⟨'0', rfl, Or.inr rfl⟩, ?_⟩
      rcases low with rfl | rfl | rfl <;> decide
    · exact Or.inl rfl

/-- A call that writes to a pin keeps the level, if that has no other spelling in the script. -/
theorem exists_splice_write {name : Text} (script : IsScriptName name) {first second : List Token}
    (spells : SpellsPath CallForm.digitalWrite.tail path) (trivia : ∀ token ∈ gap, token.isTrivia = true)
    (closed : IsClosed "(" ")" inner) (cut : IsCut inner) (two : AreTwoArguments inner first second)
    (isPin : IsPinReference (Text.trim (render first)))
    (made : text = name ++ ".value(".toList ++ levelText (Text.trim (render second)) ++ ")".toList) :
    ∃ splice : Splice .digitalWrite, splice.segment = ⟨.ident, CallForm.digitalWrite.head.toList⟩ ::
        (path ++ (gap ++ openParen :: (inner ++ [closeParen]))) ∧ tokenize text = splice.made := by
  have isName := @isCallName_value .digitalWrite _ script rfl
  have split := two.split
  have firstFlat := flat_of_word (all_isWordChar_of_isPinReference isPin)
  have secondCut : IsCut second := by
    rw [split] at cut
    exact cut.part ⟨first ++ [comma], [], by simp⟩
  have commaFlat : IsFlat comma := ⟨rfl, rfl⟩
  rcases levelText_cases (Text.trim (render second)) with same | ⟨⟨digit, spelled, level⟩, word⟩
  · obtain ⟨lead, part, trail, secondSplit, leadBlank, trailBlank, trimmed, -⟩ :=
      exists_trim_render (solid_of_isCut secondCut)
    have parts : inner = (first ++ comma :: lead) ++ (part ++ trail) := by
      rw [split, secondSplit]
      simp
    refine exists_splice isName isCallEnd_nil spells trivia closed cut parts (fun token member => ?_) trailBlank
      (fun _ => ?_) (fun _ => ⟨')', [], rfl, rfl⟩) ?_
    · rcases List.mem_append.mp member with inFirst | inRest
      · exact (firstFlat token inFirst).1
      · rcases List.mem_cons.mp inRest with rfl | inLead
        · exact commaFlat
        · exact (flat_of_blank leadBlank token inLead).1
    · rw [List.foldl_append, List.foldl_cons]
      exact foldl_dotAfter_blank leadBlank
    · rw [made, same, trimmed, render_method]
      simp
  · have secondFlat := flat_of_word word
    refine exists_splice isName (isCallEnd_level level) spells trivia closed cut
      (show inner = inner ++ ([] ++ []) by simp) (fun token member => ?_) (by simp)
      (fun nonempty => absurd rfl nonempty) (fun nonempty => absurd rfl nonempty) ?_
    · rw [split] at member
      rcases List.mem_append.mp member with inFirst | inRest
      · exact (firstFlat token inFirst).1
      · rcases List.mem_cons.mp inRest with rfl | inSecond
        · exact commaFlat
        · exact (secondFlat token inSecond).1
    · rw [made, spelled, render_method]
      simp

/-- Each rule of the conversion takes the known calls of its form and puts splices in their place. -/
theorem splicesForm_rule (names : context.HasScriptNames) (form : CallForm) :
    SplicesForm form (form.rule context) := by
  refine ⟨isSome_rule context form, fun {path gap inner text} spells trivia closed cut put => ?_⟩
  have takes := (isSome_rule context form inner).mp (by rw [put]; rfl)
  cases form with
  | analogRead =>
      obtain ⟨isOne, isPin⟩ := takes
      rw [CallForm.rule, Call.withOne, Call.ofTokens] at put
      simp only [arguments_eq_one_iff.mpr ⟨isOne, rfl⟩] at put
      obtain ⟨name, found, rfl⟩ := Option.map_eq_some_iff.mp put
      exact exists_splice_read (isCallName_read (isScriptName_analogName? names found) rfl) spells trivia
        closed cut isPin rfl
  | digitalRead =>
      obtain ⟨isOne, isPin⟩ := takes
      rw [CallForm.rule, Call.withOne, Call.ofTokens] at put
      simp only [arguments_eq_one_iff.mpr ⟨isOne, rfl⟩] at put
      obtain ⟨name, found, rfl⟩ := Option.map_eq_some_iff.mp put
      have script := (isScriptName_digitalName? names found).2
      exact exists_splice_read (isCallName_value script rfl) spells trivia closed cut isPin rfl
  | digitalWrite =>
      obtain ⟨first, second, two, isPin⟩ := takes
      rw [CallForm.rule, Call.withTwo, Call.ofTokens] at put
      simp only [arguments_eq_two_iff.mpr ⟨first, second, two, rfl, rfl⟩] at put
      obtain ⟨name, found, rfl⟩ := Option.map_eq_some_iff.mp put
      have script := (isScriptName_digitalName? names found).2
      exact exists_splice_write script spells trivia closed cut two isPin rfl
  | printLine =>
      refine exists_splice_inner (isCallName_print rfl) isCallEnd_nil spells trivia closed cut
        (fun _ => ⟨')', [], rfl, rfl⟩) ?_
      rw [← Option.some.inj put]
      simp [Call.ofTokens]
  | print =>
      rw [CallForm.rule] at put
      split at put
      · rename_i empty
        refine exists_splice_inner (isCallName_print rfl) isCallEnd_endAlone spells trivia closed cut
          (fun nonempty => absurd (List.isEmpty_iff.mp empty) nonempty) ?_
        rw [← Option.some.inj put, show Text.trim (render inner) = [] from List.isEmpty_iff.mp empty]
        rfl
      · refine exists_splice_inner (isCallName_print rfl) isCallEnd_end spells trivia closed cut
          (fun _ => ⟨',', _, rfl, rfl⟩) ?_
        rw [← Option.some.inj put]
        simp [Call.ofTokens, endTokens, comma, blankToken, endLiteral]
  | delay =>
      rw [CallForm.rule] at put
      obtain ⟨-, put⟩ := Option.ite_none_left_eq_some.mp put
      refine exists_splice_inner isCallName_sleep isCallEnd_nil spells trivia closed cut
        (fun _ => ⟨')', [], rfl, rfl⟩) ?_
      rw [← Option.some.inj put]
      simp [Call.ofTokens]

end

end Breadboard.Script
