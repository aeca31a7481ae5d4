import Breadboard.Proofs.Script.CallRule
import Breadboard.Proofs.Script.PinAgreement
import Breadboard.Proofs.Script.PinSpelling

set_option autoImplicit false

namespace Breadboard.Script

open Sketch (Token IsCut isWordChar isWordStart parenthesized? render tokenize)

/-- The words that `pinMode` knows. -/
def pinModes : List Text :=
  ["OUTPUT", "INPUT_PULLUP", "INPUT"].map String.toList

/-- The sketch sets the mode of the pin, by any reference to it. -/
def Configures (source : Text) (pin : Nat) : Prop :=
  ∃ reference mode, [reference, mode] ∈ callsOf "pinMode" false (tokenize source) ∧
    mode ∈ pinModes ∧ Denotes (Context.harvest source).constants reference pin

namespace Context

/-- The script constructs an object of that name for digital use of the pin. -/
def Declares (context : Context) (pin : Nat) (name : Text) : Prop :=
  ∃ binding ∈ context.bindings, binding.isDigital = true ∧ binding.pin = pin ∧
    binding.identifier = name

/-- The reference is a number, or a digital binding of the pin has a reference that is spelled alike. -/
def Reaches (context : Context) (reference : Text) (pin : Nat) : Prop :=
  (Text.pinNumber? reference).isSome = true ∨
    ∃ binding ∈ context.bindings, binding.isDigital = true ∧ binding.pin = pin ∧
      (IsAlike ⟨false, reference⟩ binding.use ∨ IsAlike binding.use ⟨false, reference⟩)

/-- The line becomes the call of a method of an object that the script constructs for the pin. -/
def LineUses (context : Context) (pin : Nat) (line method : Text) : Prop :=
  ∃ binding ∈ context.bindings, binding.isDigital = true ∧ binding.pin = pin ∧
    convertLine context line = binding.identifier ++ method

end Context

/-- The tokens that open the call of the method `value` of an object. -/
def objectTokens (name : Text) : List Token :=
  nameTokens name ++ [⟨.punct, ['.']⟩, ⟨.ident, "value".toList⟩, ⟨.punct, ['(']⟩]

/-- The reference between the parentheses of a call that writes to a pin or reads it, and the text that stays
of what stands there. -/
inductive RefersBy : CallForm → List Token → Text → Text → Prop where
  | write {inner first second : List Token} (two : AreTwoArguments inner first second) :
      RefersBy .digitalWrite inner (Text.trim (render first)) (levelText (Text.trim (render second)))
  | read {inner : List Token} (one : IsOneArgument inner) :
      RefersBy .digitalRead inner (Text.trim (render inner)) []

/-- The tokens with an object in place of each call of the form, also of the calls in what stays of another
one. In the place of a call by the reference the object has the name. -/
inductive HasObjects (form : CallForm) (reference name : Text) :
    Bool → List Token → List Token → Prop where
  | nil {afterDot : Bool} : HasObjects form reference name afterDot [] []
  | keep {afterDot : Bool} {token : Token} {rest made : List Token}
      (none : afterDot = false → ¬ StartsCall IsPinReference form (token :: rest))
      (onward : HasObjects form reference name (dotAfter isDot afterDot token) rest made) :
      HasObjects form reference name afterDot (token :: rest) (token :: made)
  | put {path gap inner after made : List Token} {other object left : Text}
      (spells : SpellsPath form.tail path) (trivia : ∀ token ∈ gap, token.isTrivia = true)
      (closed : IsClosed "(" ")" inner) (refers : RefersBy form inner other left)
      (isPin : IsPinReference other) (named : other = reference → object = name)
      (onward : HasObjects form reference name false (tokenize (left ++ ")".toList) ++ after) made) :
      HasObjects form reference name false
        (⟨.ident, form.head.toList⟩ :: (path ++ (gap ++ openParen :: (inner ++ closeParen :: after))))
        (objectTokens object ++ made)

/-- In every line the rule puts the object of that name in place of each call of the form by the reference,
whatever else stands in the line. -/
def PutsObject (form : CallForm) (rule : List Token → List Token) (reference name : Text) : Prop :=
  ∀ tokens, HasObjects form reference name false tokens (rule tokens)

/-- How the script uses a pin to which the sketch refers by the reference. -/
structure UsesPin (context : Context) (reference : Text) (pin : Nat) : Prop where
  write : ∃ name, PutsObject .digitalWrite (convertDigitalWrite context) reference name ∧
    (context.Declares pin name ↔ context.Reaches reference pin) ∧
    ∀ (level : String) (digit : Char), (level = "HIGH" ∧ digit = '1' ∨ level = "LOW" ∧ digit = '0') →
      (context.LineUses pin
          ("digitalWrite(".toList ++ reference ++ ", ".toList ++ level.toList ++ ");".toList)
          (".value(".toList ++ [digit] ++ ")".toList) ↔
        context.Reaches reference pin ∧ name ∉ takenWords)
  read : ∃ name, PutsObject .digitalRead (convertDigitalRead context) reference name ∧
    (context.Declares pin name ↔ context.Reaches reference pin) ∧
    (context.LineUses pin ("digitalRead(".toList ++ reference ++ ");".toList) ".value()".toList ↔
      context.Reaches reference pin ∧ name ∉ takenWords)

section

variable {head : String} {tail : List String} {replacement : Call → Option Text}

theorem replaceWithin_append_of_absent {front : List Token}
    (absent : ∀ token ∈ front, token.isIdent head = false) (budget : Nat) (afterDot : Bool)
    (rest : List Token) :
    replaceWithin head tail replacement budget afterDot (front ++ rest) =
      front ++ replaceWithin head tail replacement budget (front.foldl isDotNext afterDot) rest := by
  induction front generalizing afterDot with
  | nil => rfl
  | cons token more ih =>
      rw [List.cons_append, replaceWithin_cons_keep
          (replaced?_of_not_isIdent (absent token List.mem_cons_self) afterDot (more ++ rest)),
        ih fun other member => absent other (List.mem_cons_of_mem _ member)]
      rfl

end

/-- The opening of a call is cut off the text of the call, whatever the arguments are. -/
theorem tokenize_objectTokens {name : Text} (script : IsScriptName name) (arguments : Text) :
    tokenize (name ++ ".value(".toList ++ arguments) = objectTokens name ++ tokenize arguments := by
  have opens := opensCall_value (show "HIGH".toList.all isSmallChar = false by decide) script
  have cut := @IsCut.tokenize_render_append (objectTokens name) opens.code.cut arguments (by
    intro last isLast next _
    obtain rfl := Option.some.inj (isLast.symm.trans opens.last)
    exact Sketch.delimiter_endsBefore rfl next)
  rw [objectTokens, Sketch.render_append, render_nameTokens] at cut
  exact cut

theorem length_levelText_le (level : Text) : (levelText level).length ≤ level.length := by
  rw [levelText]
  split
  · rename_i high
    rcases high with rfl | rfl | rfl <;> decide
  · split
    · rename_i low
      rcases low with rfl | rfl | rfl <;> decide
    · exact Nat.le_refl _

theorem RefersBy.length_le {form : CallForm} {inner : List Token} {other left : Text}
    (refers : RefersBy form inner other left) : left.length ≤ (render inner).length := by
  cases refers with
  | @write inner first second two =>
      have spelled := length_levelText_le (Text.trim (render second))
      have trimmed := Text.length_trim_le (render second)
      rw [two.split, Sketch.render_append, Sketch.render_cons, List.length_append, List.length_append]
      omega
  | read one => exact Nat.zero_le _

theorem RefersBy.head_capital {form : CallForm} {inner : List Token} {other left : Text}
    (refers : RefersBy form inner other left) : form.head.toList.all isSmallChar = false := by
  cases refers <;> decide

theorem foldl_isDotNext_objectTokens (name : Text) :
    (objectTokens name).foldl isDotNext false = false := by
  rw [objectTokens, List.foldl_append]
  rfl

/-- The object that is put in the place of a call is left as it is, and the pass goes on behind it. -/
theorem replaceWithin_cons_object {head : String} {tail : List String} {replacement : Call → Option Text}
    {object : Text} (capital : head.toList.all isSmallChar = false) (script : IsScriptName object)
    {token : Token} {rest more : List Token}
    (found : replaced? head tail replacement false token rest = some (objectTokens object ++ more))
    (budget : Nat) :
    replaceWithin head tail replacement (budget + 1) false (token :: rest) =
      objectTokens object ++ replaceWithin head tail replacement budget false more := by
  have opens : OpensCall head (objectTokens object) := opensCall_value capital script
  have noDot := foldl_isDotNext_objectTokens object
  have absent := List.countP_eq_zero.mp opens.absent
  obtain ⟨first, last, -, -, parts, -, -⟩ := opens.start
  rw [parts] at found noDot absent ⊢
  rw [List.cons_append] at found ⊢
  have absentLast : ∀ other ∈ last, other.isIdent head = false := fun other member => by
    simpa using absent other (List.mem_cons_of_mem _ member)
  rw [replaceWithin_cons_replace found, replaceWithin_append_of_absent absentLast, ← List.foldl_cons, noDot]

/-- A rule that takes the known calls of a form and calls the method `value` of an object in their place. -/
structure CallsObject (form : CallForm) (replacement : Call → Option Text) (reference name : Text) : Prop where
  takes : ∀ inner, (replacement (Call.ofTokens inner)).isSome = true ↔ form.Takes IsPinReference inner
  puts : ∀ {inner text}, replacement (Call.ofTokens inner) = some text → ∃ other object left,
    RefersBy form inner other left ∧ IsPinReference other ∧ IsScriptName object ∧
      (other = reference → object = name) ∧ text = object ++ ".value(".toList ++ (left ++ ")".toList)

/-- The pass of such a rule comes to its end, for what stays of a call is shorter than the call is. -/
theorem CallsObject.hasObjects {form : CallForm} {replacement : Call → Option Text} {reference name : Text}
    (rule : CallsObject form replacement reference name) {budget : Nat} {tokens : List Token}
    (enough : (render tokens).length ≤ budget) (afterDot : Bool) :
    HasObjects form reference name afterDot tokens
      (replaceWithin form.head form.tail replacement budget afterDot tokens) := by
  induction budget using Nat.strongRecOn generalizing afterDot tokens with
  | ind budget ihBudget =>
      induction tokens generalizing afterDot with
      | nil =>
          rw [replaceWithin]
          exact .nil
      | cons token rest ih =>
          rcases replaced?_cases rule.takes afterDot token rest with ⟨missing, none⟩ |
            ⟨path, gap, inner, after, text, rfl, spells, trivia, closed, found, rfl, rfl, put⟩
          · have restEnough : (render rest).length ≤ budget := by
              rw [Sketch.render_cons, List.length_append] at enough
              omega
            rw [replaceWithin_cons_keep missing]
            exact .keep none (ih restEnough _)
          · obtain ⟨other, object, left, refers, isPin, script, named, rfl⟩ := rule.puts found
            have shorter := refers.length_le
            have opening : openParen.text.length = 1 := rfl
            have closing : closeParen.text.length = 1 := rfl
            have mark : ")".toList.length = 1 := rfl
            simp only [Sketch.render_cons, Sketch.render_append, List.length_append] at enough
            obtain ⟨smaller, rfl⟩ : ∃ smaller, budget = smaller + 1 := ⟨budget - 1, by omega⟩
            have leftEnough : (render (tokenize (left ++ ")".toList) ++ after)).length ≤ smaller := by
              rw [Sketch.render_append, Sketch.render_tokenize, List.length_append, List.length_append]
              omega
            rw [tokenize_objectTokens script, List.append_assoc] at put
            rw [replaceWithin_cons_object refers.head_capital script put]
            exact .put spells trivia closed refers isPin named
              (ihBudget smaller (Nat.lt_succ_self smaller) leftEnough false)

section

variable {context : Context} {reference name : Text}

theorem callsObject_write (names : context.HasScriptNames)
    (found : digitalName? context.outputNames context.inputNames reference = some name) :
    CallsObject .digitalWrite (CallForm.digitalWrite.rule context) reference name := by
  refine ⟨isSome_rule context .digitalWrite, fun {inner text} put => ?_⟩
  obtain ⟨first, second, two, isPin⟩ := (isSome_rule context .digitalWrite inner).mp (by rw [put]; rfl)
  rw [CallForm.rule, Call.withTwo, Call.ofTokens] at put
  simp only [arguments_eq_two_iff.mpr ⟨first, second, two, rfl, rfl⟩] at put
  obtain ⟨object, isObject, rfl⟩ := Option.map_eq_some_iff.mp put
  have script := (isScriptName_digitalName? names isObject).2
  refine ⟨_, object, _, .write two, isPin, script, ?_, List.append_assoc _ _ _⟩
  rintro rfl
  exact Option.some.inj (isObject.symm.trans found)

theorem callsObject_read (names : context.HasScriptNames)
    (found : digitalName? context.inputNames context.outputNames reference = some name) :
    CallsObject .digitalRead (CallForm.digitalRead.rule context) reference name := by
  refine ⟨isSome_rule context .digitalRead, fun {inner text} put => ?_⟩
  obtain ⟨one, isPin⟩ := (isSome_rule context .digitalRead inner).mp (by rw [put]; rfl)
  rw [CallForm.rule, Call.withOne, Call.ofTokens] at put
  simp only [arguments_eq_one_iff.mpr ⟨one, rfl⟩] at put
  obtain ⟨object, isObject, rfl⟩ := Option.map_eq_some_iff.mp put
  have script := (isScriptName_digitalName? names isObject).2
  refine ⟨_, object, _, .read one, isPin, script, ?_, by simp⟩
  rintro rfl
  exact Option.some.inj (isObject.symm.trans found)

theorem putsObject_write (names : context.HasScriptNames)
    (found : digitalName? context.outputNames context.inputNames reference = some name) :
    PutsObject .digitalWrite (convertDigitalWrite context) reference name :=
  fun _ => (callsObject_write names found).hasObjects (Nat.le_refl _) false

theorem putsObject_read (names : context.HasScriptNames)
    (found : digitalName? context.inputNames context.outputNames reference = some name) :
    PutsObject .digitalRead (convertDigitalRead context) reference name :=
  fun _ => (callsObject_read names found).hasObjects (Nat.le_refl _) false

/-- A word that is respelled stands at the start of its line with its new spelling. -/
theorem mem_finishTokens_level {word spelling : Text} {c : Char} (inSpelling : c ∈ spelling)
    (visible : Text.isBlank c = false) (level : levelWord? ⟨.ident, word⟩ = some spelling)
    (notKeyword : spelling ∉ ["else", "if", "while"].map String.toList) (rest : List Token) :
    c ∈ finishTokens (⟨.ident, word⟩ :: rest) := by
  have respelled : normalizeWords none (⟨.ident, word⟩ :: rest) =
      ⟨.ident, spelling⟩ :: normalizeWords (some ⟨.ident, spelling⟩) rest := by
    simp only [normalizeWords, level]
  have noHeader : header? (⟨.ident, spelling⟩ :: normalizeWords (some ⟨.ident, spelling⟩) rest) =
      none := by
    apply header?_word
    · rintro rfl
      exact notKeyword (by decide)
    · right
      constructor
      · rintro rfl
        exact notKeyword (by decide)
      · rintro rfl
        exact notKeyword (by decide)
  have kept : isPunctuationDropped ⟨.ident, spelling⟩ = false := rfl
  rw [finishTokens, respelled, convertHeader, noHeader]
  refine Text.mem_trim ?_ visible
  simp [kept, inSpelling]

/-- The tokens that are left keep each character that is no mark of a statement's end or a block. -/
theorem mem_render_filter {text : Text} {c : Char} (inText : c ∈ text)
    (stays : c ∉ [';', '\x7b', '\x7d']) :
    c ∈ render ((tokenize text).filter (!isPunctuationDropped ·)) := by
  rw [← Sketch.render_tokenize text, render] at inText
  obtain ⟨token, member, inToken⟩ := List.mem_flatMap.mp inText
  have kept : isPunctuationDropped token = false := by
    by_contra dropped
    simp only [Bool.not_eq_false, isPunctuationDropped, Bool.or_eq_true] at dropped
    rcases dropped with (mark | mark) | mark <;>
    · rw [eq_of_isPunct mark] at inToken
      simp_all
  rw [render]
  exact List.mem_flatMap.mpr ⟨token, List.mem_filter.mpr ⟨member, by rw [kept]; rfl⟩, inToken⟩

/-- A line that starts with `else` gets a colon. -/
theorem mem_finishTokens_else (rest : List Token) :
    ':' ∈ finishTokens (⟨.ident, "else".toList⟩ :: ⟨.punct, ['.']⟩ :: rest) := by
  have noDot : levelWord? ⟨.punct, ['.']⟩ = none ∧ operatorWord? ⟨.punct, ['.']⟩ = none := by decide
  have noElse : levelWord? ⟨.ident, "else".toList⟩ = none := by decide
  have header (more : List Token) :
      header? (⟨.ident, "else".toList⟩ :: ⟨.punct, ['.']⟩ :: more) =
        some ⟨"else".toList, none, ⟨.punct, ['.']⟩ :: more⟩ := rfl
  rw [finishTokens, normalizeWords_cons_plain noElse rfl, normalizeWords_cons_plain noDot.1 noDot.2,
    convertHeader, header]
  refine Text.mem_trim (mem_render_filter ?_ (by decide)) (by decide)
  simp [Header.render]

/-- A name that is respelled leaves a character in its line that no call of an object has. -/
theorem exists_odd_char {arguments : List Token}
    (known : arguments ∈ [[], [(⟨.number, ['1']⟩ : Token)], [⟨.number, ['0']⟩]])
    (taken : name ∈ takenWords) :
    ∃ c ∈ finishTokens (methodCall name "value" arguments ++ [⟨.punct, ";".toList⟩]),
      isSmallChar c = false ∧ c ∉ ".value(".toList ++ render arguments ++ ")".toList := by
  have absent : ∀ c ∈ ['T', 'F', ':'], c ∉ ".value(".toList ++ render arguments ++ ")".toList := by
    simp only [List.mem_cons, List.not_mem_nil, or_false] at known
    rcases known with rfl | rfl | rfl <;> simp [render]
  simp only [takenWords, List.map_cons, List.map_nil, List.mem_cons, List.not_mem_nil, or_false]
    at taken
  rcases taken with rfl | rfl | rfl
  · exact ⟨'T', @mem_finishTokens_level _ "True".toList _ (by decide) (by decide) rfl (by decide) _,
      by decide, absent _ (by decide)⟩
  · exact ⟨'F', @mem_finishTokens_level _ "False".toList _ (by decide) (by decide) rfl (by decide) _,
      by decide, absent _ (by decide)⟩
  · exact ⟨':', mem_finishTokens_else _, by decide, absent _ (by decide)⟩

theorem isAccess_of_known (script : IsScriptName name) {arguments : List Token}
    (known : arguments ∈ [[], [(⟨.number, ['1']⟩ : Token)], [⟨.number, ['0']⟩]]) :
    IsAccess name "value" arguments := by
  simp only [List.mem_cons, List.not_mem_nil, or_false] at known
  rcases known with rfl | rfl | rfl
  · exact .noArgs script (.inl rfl)
  · exact .value script (.inl rfl)
  · exact .value script (.inr rfl)

/-- A line uses an object of the pin exactly if the name put into it is the object's and stays. -/
theorem lineUses_iff (names : context.HasScriptNames) (script : IsScriptName name)
    {arguments : List Token}
    (known : arguments ∈ [[], [(⟨.number, ['1']⟩ : Token)], [⟨.number, ['0']⟩]]) {line : Text}
    (converted : convertLine context line =
      finishTokens (methodCall name "value" arguments ++ [⟨.punct, ";".toList⟩])) (pin : Nat) :
    context.LineUses pin line (".value(".toList ++ render arguments ++ ")".toList) ↔
      context.Declares pin name ∧ name ∉ takenWords := by
  have kept : name ∉ takenWords → convertLine context line =
      name ++ (".value(".toList ++ render arguments ++ ")".toList) := by
    intro free
    rw [converted, (isAccess_of_known script known).finishTokens_eq free]
    simp [methodCall, render_nameTokens]
  constructor
  · rintro ⟨binding, member, digital, atPin, same⟩
    have free : name ∉ takenWords := by
      intro taken
      obtain ⟨c, inLine, notSmall, notCall⟩ := exists_odd_char known taken
      rw [← converted, same] at inLine
      rcases List.mem_append.mp inLine with inName | inCall
      · rw [List.all_eq_true.mp (names binding member).small c inName] at notSmall
        cases notSmall
      · exact notCall inCall
    have named := List.append_cancel_right ((kept free).symm.trans same)
    exact ⟨⟨binding, member, digital, atPin, named.symm⟩, free⟩
  · rintro ⟨⟨binding, member, digital, atPin, named⟩, free⟩
    exact ⟨binding, member, digital, atPin, by rw [kept free, named]⟩

end

section

variable {source reference : Text} {pin : Nat}

/-- A pin whose mode is set has a digital binding. -/
theorem Configures.exists_binding (configures : Configures source pin) :
    ∃ binding ∈ (Context.harvest source).bindings, binding.isDigital = true ∧ binding.pin = pin := by
  obtain ⟨reference, mode, called, isMode, denotes⟩ := configures
  obtain ⟨ref, isRef, atPin⟩ := denotes_iff.mp denotes
  obtain ⟨kind, digital, found⟩ : ∃ kind : BindingKind, kind ≠ .analog ∧
      Context.digitalBinding? (Context.harvest source).constants [reference, mode] =
        some ⟨ref.identifier, pin, kind, reference⟩ := by
    simp only [pinModes, List.map_cons, List.map_nil, List.mem_cons, List.not_mem_nil, or_false]
      at isMode
    rcases isMode with rfl | rfl | rfl
    · exact ⟨.output, by decide, by simp [Context.digitalBinding?, isRef, atPin]⟩
    · exact ⟨.input true, by decide, by simp [Context.digitalBinding?, isRef, atPin]⟩
    · exact ⟨.input false, by decide, by simp [Context.digitalBinding?, isRef, atPin]⟩
  have inCalls := List.mem_filterMap.mpr ⟨_, called, found⟩
  refine ⟨⟨ref.identifier, pin, kind, reference⟩, ?_, (Binding.isDigital_iff _).mpr digital, rfl⟩
  have inRole : Binding.isOutput ⟨ref.identifier, pin, kind, reference⟩ = true ∨
      Binding.isInput ⟨ref.identifier, pin, kind, reference⟩ = true := by
    have isDigital := (Binding.isDigital_iff ⟨ref.identifier, pin, kind, reference⟩).mpr digital
    rwa [Binding.isDigital, Bool.or_eq_true] at isDigital
  refine List.mem_append_left _ (List.mem_append.mpr ?_)
  exact inRole.imp (fun role => List.mem_filter.mpr ⟨inCalls, role⟩)
    (fun role => List.mem_filter.mpr ⟨inCalls, role⟩)

/-- A digital binding has the name of a word exactly if it is spelled alike. -/
theorem declares_iff_of_word {name : Text} (word : isIdentifier reference = true)
    (named : PinUse.name? ⟨false, reference⟩ = some name) :
    (Context.harvest source).Declares pin name ↔ (Context.harvest source).Reaches reference pin := by
  have noNumber := pinNumber?_of_isIdentifier word
  have same : ∀ binding ∈ (Context.harvest source).bindings, (binding.identifier = name ↔
      IsAlike ⟨false, reference⟩ binding.use ∨ IsAlike binding.use ⟨false, reference⟩) := by
    intro binding member
    rw [eq_comm, PinUse.name_eq_iff named (Context.denotes_of_mem_harvest member).2, or_iff_right]
    rintro ⟨-, pin, number, -⟩
    rw [noNumber] at number
    cases number
  constructor
  · rintro ⟨binding, member, digital, atPin, isNamed⟩
    exact Or.inr ⟨binding, member, digital, atPin, (same binding member).mp isNamed⟩
  · rintro (isNumber | ⟨binding, member, digital, atPin, alike⟩)
    · rw [noNumber] at isNumber
      cases isNumber
    · exact ⟨binding, member, digital, atPin, (same binding member).mpr alike⟩

/-- The name that is put into a line for a configured pin. -/
theorem exists_name_of_configures {first second : Binding → Bool}
    (roles : ∀ other : Binding, other.isDigital = true ↔ first other = true ∨ second other = true)
    (configures : Configures source pin)
    (denotes : Denotes (Context.harvest source).constants reference pin) :
    ∃ name, digitalName? ((Context.harvest source).namesByPin first)
        ((Context.harvest source).namesByPin second) reference = some name ∧
      ((Context.harvest source).Declares pin name ↔
        (Context.harvest source).Reaches reference pin) := by
  cases denotes with
  | literal number =>
      obtain ⟨binding, member, digital, rfl⟩ := configures.exists_binding
      have isRef : PinRef.ofText? reference = some (.number binding.pin) := by
        rw [PinRef.ofText?, number]
      obtain ⟨other, otherMember, isRole, samePin, found⟩ :=
        exists_digitalName?_number roles member digital isRef
      have declares : (Context.harvest source).Declares binding.pin other.identifier :=
        ⟨other, otherMember, isRole, samePin, rfl⟩
      have reaches : (Context.harvest source).Reaches reference binding.pin :=
        Or.inl (by rw [number]; rfl)
      exact ⟨other.identifier, found, fun _ => reaches, fun _ => declares⟩
  | constant word _ _ =>
      obtain ⟨stem, isStem⟩ := exists_isStem reference
      obtain ⟨ref, isRef, notNumber, -⟩ := isStem.ofText? word
      refine ⟨ref.identifier, ?_, declares_iff_of_word word ?_⟩
      · rw [digitalName?, isRef, Option.map_some]
        cases ref with
        | number other => exact absurd rfl (notNumber other)
        | indexed base index => rfl
        | named name => rfl
      · rw [PinUse.name?, isRef]
        rfl

/-- A reference to a configured pin leads to an object of the pin exactly if it is a number or spelled
like a reference that the pin was configured by. -/
theorem usesPin_of_configures (configures : Configures source pin)
    (denotes : Denotes (Context.harvest source).constants reference pin) :
    UsesPin (Context.harvest source) reference pin := by
  have names := Context.hasScriptNames_harvest source
  refine ⟨?_, ?_⟩
  · obtain ⟨name, found, declares⟩ := @exists_name_of_configures _ _ _ Binding.isOutput Binding.isInput
      (fun other => by simp [Binding.isDigital]) configures denotes
    have script := (isScriptName_digitalName? names found).2
    refine ⟨name, putsObject_write names found, declares, fun level digit known => ?_⟩
    rw [← declares]
    have arguments : [⟨.number, [digit]⟩] ∈
        [[], [(⟨.number, ['1']⟩ : Token)], [⟨.number, ['0']⟩]] := by
      rcases known with ⟨-, rfl⟩ | ⟨-, rfl⟩ <;> simp
    exact lineUses_iff names script arguments (convertLine_write_eq names found known) pin
  · obtain ⟨name, found, declares⟩ := @exists_name_of_configures _ _ _ Binding.isInput Binding.isOutput
      (fun other => by simp [Binding.isDigital, or_comm]) configures denotes
    have script := (isScriptName_digitalName? names found).2
    refine ⟨name, putsObject_read names found, declares, ?_⟩
    rw [← declares]
    exact lineUses_iff names script List.mem_cons_self (convertLine_read_eq names found) pin

end

/-- A pin that is configured by its number, and a name for it. -/
def namedPin : Text :=
  "#define LED_PIN 13\nvoid setup() \x7b pinMode(13, OUTPUT); \x7d\n".toList

def namedPinTokens : List Token :=
  [⟨.punct, "#".toList⟩, ⟨.ident, "define".toList⟩, ⟨.space, " ".toList⟩,
    ⟨.ident, "LED_PIN".toList⟩, ⟨.space, " ".toList⟩, ⟨.number, "13".toList⟩,
    ⟨.space, "\n".toList⟩, ⟨.ident, "void".toList⟩, ⟨.space, " ".toList⟩, ⟨.ident, "setup".toList⟩,
    ⟨.punct, "(".toList⟩, ⟨.punct, ")".toList⟩, ⟨.space, " ".toList⟩, ⟨.punct, "\x7b".toList⟩,
    ⟨.space, " ".toList⟩, ⟨.ident, "pinMode".toList⟩, ⟨.punct, "(".toList⟩,
    ⟨.number, "13".toList⟩, ⟨.punct, ",".toList⟩, ⟨.space, " ".toList⟩,
    ⟨.ident, "OUTPUT".toList⟩, ⟨.punct, ")".toList⟩, ⟨.punct, ";".toList⟩, ⟨.space, " ".toList⟩,
    ⟨.punct, "\x7d".toList⟩, ⟨.space, "\n".toList⟩]

theorem tokenize_namedPin : tokenize namedPin = namedPinTokens := by
  cbv

theorem harvest_namedPin :
    ∃ thirteen : Binary64, thirteen.pinNumber? = some 13 ∧ Context.harvest namedPin =
      ⟨[⟨"LED_PIN".toList, thirteen⟩], [⟨"pin13".toList, 13, .output, "13".toList⟩]⟩ := by
  -- The number is kept as a variable, for its units are too many to be computed.
  obtain ⟨thirteen, number, pin⟩ :
      ∃ thirteen, numericLiteral? "13".toList = some thirteen ∧ thirteen.pinNumber? = some 13 :=
    ⟨_, @numericLiteral?_ofNat 13 (by decide), @Binary64.pinNumber?_ofNat 13 (by decide)⟩
  have found : definitions namedPinTokens =
      ((numericLiteral? "13".toList).map (Constant.mk "LED_PIN".toList)).toList := rfl
  have constants : constantTable namedPinTokens = [⟨"LED_PIN".toList, thirteen⟩] := by
    rw [constantTable, found, number]
    rfl
  have calls : callsOf "pinMode" false namedPinTokens = [["13".toList, "OUTPUT".toList]] := rfl
  have noAnalog : callsOf "analogRead" false namedPinTokens = [] := rfl
  have output : Context.digitalBinding? [⟨"LED_PIN".toList, thirteen⟩]
      ["13".toList, "OUTPUT".toList] = some ⟨"pin13".toList, 13, .output, "13".toList⟩ := rfl
  refine ⟨thirteen, pin, ?_⟩
  rw [Context.harvest, tokenize_namedPin, Context.harvestTokens, constants, calls, noAnalog]
  simp only [List.filterMap_cons, List.filterMap_nil, output]
  rfl

theorem configures_namedPin : Configures namedPin 13 := by
  refine ⟨"13".toList, "OUTPUT".toList, ?_, by decide, .literal (by decide)⟩
  rw [tokenize_namedPin]
  exact List.mem_cons_self

theorem denotes_namedPin : Denotes (Context.harvest namedPin).constants "LED_PIN".toList 13 := by
  obtain ⟨thirteen, pin, harvested⟩ := harvest_namedPin
  rw [harvested]
  exact .constant (by decide) rfl pin

theorem usesPin_namedPin :
    Configures namedPin 13 ∧ Denotes (Context.harvest namedPin).constants "LED_PIN".toList 13 ∧
      UsesPin (Context.harvest namedPin) "LED_PIN".toList 13 :=
  ⟨configures_namedPin, denotes_namedPin,
    usesPin_of_configures configures_namedPin denotes_namedPin⟩

/-- A pin that is configured by its number is written to by its name, but the name is of no object. -/
theorem namedPin_has_no_object :
    Configures namedPin 13 ∧ Denotes (Context.harvest namedPin).constants "LED_PIN".toList 13 ∧
      convertLine (Context.harvest namedPin) "digitalWrite(LED_PIN, HIGH);".toList =
        "led.value(1)".toList ∧
      ∀ binding ∈ (Context.harvest namedPin).bindings, binding.identifier ≠ "led".toList := by
  refine ⟨configures_namedPin, denotes_namedPin, ?_, ?_⟩
  · have isRef : PinRef.ofText? "LED_PIN".toList = some (.named "LED_PIN".toList) := by decide
    have found : digitalName? (Context.harvest namedPin).outputNames
        (Context.harvest namedPin).inputNames "LED_PIN".toList = some "led".toList := by
      rw [digitalName?, isRef]
      rfl
    have whole : "digitalWrite(LED_PIN, HIGH);".toList = "digitalWrite(".toList ++
        "LED_PIN".toList ++ ", ".toList ++ "HIGH".toList ++ ");".toList := rfl
    have line := convertLine_digitalWrite (Context.hasScriptNames_harvest namedPin) found (by decide)
      (.inl ⟨rfl, rfl⟩ : "HIGH" = "HIGH" ∧ '1' = '1' ∨ _)
    rw [whole, line]
    rfl
  · obtain ⟨thirteen, -, harvested⟩ := harvest_namedPin
    rw [harvested]
    intro binding member
    rw [List.mem_singleton.mp member]
    decide

end Breadboard.Script
