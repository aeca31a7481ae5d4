import Breadboard.Proofs.Binary64.Whole
import Breadboard.Proofs.Script.CallLine

set_option autoImplicit false

namespace Breadboard.Script

open Sketch (Token tokenize)

def Binding.isDigital (binding : Binding) : Bool :=
  binding.isOutput || binding.isInput

theorem Binding.isDigital_iff (binding : Binding) :
    binding.isDigital = true ↔ binding.kind ≠ .analog := by
  cases kind : binding.kind <;> simp [isDigital, isOutput, isInput, kind]

namespace Context

variable {context : Context}

/-- A number takes the name of a binding of its pin if one of the two roles has such a binding. -/
theorem binding_of_tables {first second : Binding → Bool} {pin : Nat} {other : Text}
    (bound : ((context.namesByPin first)[pin]?).isSome = true ∨
      ((context.namesByPin second)[pin]?).isSome = true) :
    ∃ binding ∈ context.bindings, (first binding = true ∨ second binding = true) ∧
      binding.pin = pin ∧
      binding.identifier =
        ((context.namesByPin first)[pin]? <|> (context.namesByPin second)[pin]?).getD other := by
  cases inFirst : (context.namesByPin first)[pin]? with
  | some name =>
      obtain ⟨binding, member, isRole, atPin, nameEq⟩ := binding_of_namesByPin inFirst
      exact ⟨binding, member, Or.inl isRole, atPin, by simp [nameEq]⟩
  | none =>
      cases inSecond : (context.namesByPin second)[pin]? with
      | some name =>
          obtain ⟨binding, member, isRole, atPin, nameEq⟩ := binding_of_namesByPin inSecond
          exact ⟨binding, member, Or.inr isRole, atPin, by simp [nameEq]⟩
      | none => simp [inFirst, inSecond] at bound

end Context

section

variable {source : Text} {binding : Binding}

/-- The name that a number takes is the name of a digital binding, if its pin has one. -/
theorem exists_digitalName?_number {first second : Binding → Bool}
    (roles : ∀ other : Binding, other.isDigital = true ↔ first other = true ∨ second other = true)
    (member : binding ∈ (Context.harvest source).bindings) (digital : binding.isDigital = true)
    {reference : Text} (isRef : PinRef.ofText? reference = some (.number binding.pin)) :
    ∃ other ∈ (Context.harvest source).bindings, other.isDigital = true ∧ other.pin = binding.pin ∧
      digitalName? ((Context.harvest source).namesByPin first)
        ((Context.harvest source).namesByPin second) reference = some other.identifier := by
  have bound := (roles binding).mp digital |>.imp (Context.isSome_namesByPin member)
    (Context.isSome_namesByPin member)
  obtain ⟨other, otherMember, isRole, samePin, otherName⟩ :=
    @Context.binding_of_tables _ _ _ _ (PinRef.number binding.pin).identifier bound
  exact ⟨other, otherMember, (roles other).mpr isRole, samePin,
    by rw [digitalName?, isRef, Option.map_some, otherName]⟩

/-- The name that a digital use takes is the name of a digital binding of the same pin. -/
theorem exists_digitalName? {first second : Binding → Bool}
    (roles : ∀ other : Binding, other.isDigital = true ↔ first other = true ∨ second other = true)
    (member : binding ∈ (Context.harvest source).bindings) (digital : binding.isDigital = true) :
    ∃ other ∈ (Context.harvest source).bindings, other.isDigital = true ∧ other.pin = binding.pin ∧
      digitalName? ((Context.harvest source).namesByPin first)
        ((Context.harvest source).namesByPin second) binding.source = some other.identifier := by
  have notAnalog := (Binding.isDigital_iff binding).mp digital
  rcases Context.mem_bindings_harvest member with ⟨args, found⟩ | ⟨args, found⟩
  · obtain ⟨ref, isRef, atPin, nameEq, -⟩ := Context.digitalBinding?_eq_some found
    cases ref with
    | number pin =>
        obtain rfl : pin = binding.pin := Option.some.inj atPin
        exact exists_digitalName?_number roles member digital isRef
    | indexed base index =>
        exact ⟨binding, member, digital, rfl, by rw [digitalName?, isRef, nameEq]; rfl⟩
    | named name =>
        exact ⟨binding, member, digital, rfl, by rw [digitalName?, isRef, nameEq]; rfl⟩
  · obtain ⟨-, -, -, -, analog⟩ := Context.analogBinding?_eq_some found
    exact absurd analog notAnalog

/-- A name whose value is a pin is the name of a pin constant, or it carries no mark of one. -/
theorem mem_pinConstants {context : Context} {name : Text} {pin : Nat}
    (value : (Context.valueIn context.constants name).bind Binary64.pinNumber? = some pin)
    (isPin : isPinConstant name = true) : context.pinConstants.any (·.1 == name) = true := by
  obtain ⟨number, found, isNumber⟩ := Option.bind_eq_some_iff.mp value
  obtain ⟨constant, first, rfl⟩ := Option.map_eq_some_iff.mp found
  have named : constant.name = name := by simpa using List.find?_some first
  have inTable : (name, pin) ∈ context.pinConstants := by
    refine List.mem_filterMap.mpr ⟨constant, List.mem_filter.mpr ⟨List.mem_of_find?_eq_some first, ?_⟩, ?_⟩
    · rw [named, isPin]
    · rw [isNumber, named, Option.map_some]
  exact List.any_eq_true.mpr ⟨_, inTable, beq_self_eq_true _⟩

theorem identifier_of_not_isPinConstant {name : Text} {ref : PinRef}
    (isRef : PinRef.ofText? name = some ref) (notNumber : ∀ pin, ref ≠ .number pin)
    (notPin : isPinConstant name = false) : ref.identifier = lowercase name := by
  rw [isPinConstant, Bool.or_eq_false_iff] at notPin
  obtain ⟨noSuffix, notIndexed⟩ := notPin
  have split : splitIndexed? name = none := by simpa using notIndexed
  unfold PinRef.ofText? at isRef
  cases number : Text.pinNumber? name with
  | some pin =>
      rw [number] at isRef
      exact absurd (Option.some.inj isRef).symm (notNumber pin)
  | none =>
      rw [number] at isRef
      by_cases identifier : isIdentifier name = true
      · rw [split] at isRef
        simp only [identifier, if_true, Option.some_inj] at isRef
        subst isRef
        have noBase : pinSuffix.isSuffixOf? name = none := by
          rw [← Option.not_isSome_iff_eq_none, List.isSome_isSuffixOf?_eq_isSuffixOf, noSuffix]
          exact Bool.false_ne_true
        rw [PinRef.identifier, noBase, Option.getD_none]
      · simp [identifier] at isRef

/-- The name that an analog use takes is the name of an analog binding of the same pin. -/
theorem exists_analogName? (member : binding ∈ (Context.harvest source).bindings)
    (analog : binding.isAnalog = true) :
    ∃ other ∈ (Context.harvest source).bindings, other.isAnalog = true ∧ other.pin = binding.pin ∧
      analogName? (Context.harvest source) binding.source = some other.identifier := by
  rcases Context.mem_bindings_harvest member with ⟨args, found⟩ | ⟨args, found⟩
  · obtain ⟨-, -, -, -, digital⟩ := Context.digitalBinding?_eq_some found
    exact absurd (beq_iff_eq.mp analog) digital
  · obtain ⟨ref, isRef, atPin, nameEq, -⟩ := Context.analogBinding?_eq_some found
    have own : (∀ pin, ref ≠ .number pin) →
        (Context.valueIn (Context.harvest source).constants binding.source).bind
          Binary64.pinNumber? = some binding.pin →
        (if (Context.harvest source).pinConstants.any (·.1 == binding.source) then
            "adc_".toList ++ ref.identifier
          else "adc_".toList ++ lowercase binding.source) = "adc_".toList ++ ref.identifier := by
      intro notNumber value
      split
      · rfl
      · rename_i notHarvested
        rw [identifier_of_not_isPinConstant isRef notNumber]
        by_contra isPin
        exact notHarvested (mem_pinConstants value (by simpa using isPin))
    cases ref with
    | number pin =>
        obtain rfl : pin = binding.pin := Option.some.inj atPin
        obtain ⟨name, inTable⟩ := Option.isSome_iff_exists.mp (Context.isSome_namesByPin member analog)
        obtain ⟨other, otherMember, isRole, samePin, otherName⟩ :=
          Context.binding_of_namesByPin inTable
        refine ⟨other, otherMember, isRole, samePin, ?_⟩
        simp only [analogName?, isRef, Option.map_some, Context.analogNames, inTable, Option.getD_some,
          otherName]
    | indexed base index =>
        refine ⟨binding, member, analog, rfl, ?_⟩
        rw [analogName?, isRef, Option.map_some, nameEq]
        exact congrArg some (own (by simp) atPin)
    | named name =>
        refine ⟨binding, member, analog, rfl, ?_⟩
        rw [analogName?, isRef, Option.map_some, nameEq]
        exact congrArg some (own (by simp) atPin)

end

theorem not_isPrefixOf_takenWords : ∀ word ∈ takenWords, "adc".toList.isPrefixOf word = false := by
  decide

/-- The names of analog bindings start like no word that a line respells. -/
theorem not_mem_takenWords_analog {source : Text} {binding : Binding}
    (member : binding ∈ (Context.harvest source).bindings) (analog : binding.isAnalog = true) :
    binding.identifier ∉ takenWords := by
  intro taken
  have start := not_isPrefixOf_takenWords _ taken
  rcases Context.mem_bindings_harvest member with ⟨args, found⟩ | ⟨args, found⟩
  · obtain ⟨-, -, -, -, digital⟩ := Context.digitalBinding?_eq_some found
    exact absurd (beq_iff_eq.mp analog) digital
  · obtain ⟨ref, -, -, nameEq, -⟩ := Context.analogBinding?_eq_some found
    rw [nameEq] at start
    cases ref <;> cases start

/-- The declarations of pins and the lines that use them lead to the same objects of the script. -/
structure PinsAgree (context : Context) : Prop where
  /-- A level is written to an object that is constructed for the pin. -/
  write : ∀ binding ∈ context.bindings, binding.isDigital = true →
    ∃ used ∈ context.bindings, used.isDigital = true ∧ used.pin = binding.pin ∧
      digitalName? context.outputNames context.inputNames binding.source = some used.identifier ∧
      (used.identifier ∉ takenWords →
        convertLine context ("digitalWrite(".toList ++ binding.source ++ ", HIGH);".toList) =
          used.identifier ++ ".value(1)".toList)
  /-- A level is read from an object that is constructed for the pin. -/
  read : ∀ binding ∈ context.bindings, binding.isDigital = true →
    ∃ used ∈ context.bindings, used.isDigital = true ∧ used.pin = binding.pin ∧
      digitalName? context.inputNames context.outputNames binding.source = some used.identifier ∧
      (used.identifier ∉ takenWords →
        convertLine context ("digitalRead(".toList ++ binding.source ++ ");".toList) =
          used.identifier ++ ".value()".toList)
  analog : ∀ binding ∈ context.bindings, binding.isAnalog = true →
    ∃ used ∈ context.bindings, used.isAnalog = true ∧ used.pin = binding.pin ∧
      convertLine context ("analogRead(".toList ++ binding.source ++ ");".toList) =
        used.identifier ++ ".read()".toList
  /-- A table has the names of the last bindings of its role. -/
  tables : ∀ pin : Nat,
    context.outputNames[pin]? =
        (context.bindingsAt Binding.isOutput pin).getLast?.map Binding.identifier ∧
      context.inputNames[pin]? =
        (context.bindingsAt Binding.isInput pin).getLast?.map Binding.identifier ∧
      context.analogNames[pin]? =
        (context.bindingsAt Binding.isAnalog pin).getLast?.map Binding.identifier
  entries : ∀ binding ∈ context.bindings,
    (binding.isOutput = true → (context.outputNames[binding.pin]?).isSome = true) ∧
      (binding.isInput = true → (context.inputNames[binding.pin]?).isSome = true) ∧
      (binding.isAnalog = true → (context.analogNames[binding.pin]?).isSome = true)

/-- Whatever a sketch declares, its declarations and its uses of pins agree. -/
theorem pinsAgree_harvest (source : Text) : PinsAgree (Context.harvest source) := by
  have names := Context.hasScriptNames_harvest source
  refine ⟨fun binding member digital => ?_, fun binding member digital => ?_,
    fun binding member analog => ?_, fun pin => ⟨?_, ?_, ?_⟩, fun binding member => ⟨?_, ?_, ?_⟩⟩
  · obtain ⟨used, usedMember, usedDigital, samePin, found⟩ :=
      @exists_digitalName? _ _ Binding.isOutput Binding.isInput
        (fun other => by simp [Binding.isDigital]) member digital
    refine ⟨used, usedMember, usedDigital, samePin, found, fun free => ?_⟩
    simpa using convertLine_digitalWrite names found free (.inl ⟨rfl, rfl⟩)
  · obtain ⟨used, usedMember, usedDigital, samePin, found⟩ :=
      @exists_digitalName? _ _ Binding.isInput Binding.isOutput
        (fun other => by simp [Binding.isDigital, or_comm]) member digital
    exact ⟨used, usedMember, usedDigital, samePin, found, convertLine_digitalRead names found⟩
  · obtain ⟨used, usedMember, usedAnalog, samePin, found⟩ := exists_analogName? member analog
    exact ⟨used, usedMember, usedAnalog, samePin,
      convertLine_analogRead names found (not_mem_takenWords_analog usedMember usedAnalog)⟩
  · exact Context.getElem?_namesByPin _ _ pin
  · exact Context.getElem?_namesByPin _ _ pin
  · exact Context.getElem?_namesByPin _ _ pin
  · exact Context.isSome_namesByPin member
  · exact Context.isSome_namesByPin member
  · exact Context.isSome_namesByPin member

/-- An output called after a truth value, and an input of the same pin called by its number. -/
def sharedPin : Text :=
  "#define TRUE_PIN 5\nvoid setup() \x7b pinMode(TRUE_PIN, OUTPUT); pinMode(5, INPUT); \x7d\n".toList

def sharedPinTokens : List Token :=
  [⟨.punct, "#".toList⟩, ⟨.ident, "define".toList⟩, ⟨.space, " ".toList⟩,
    ⟨.ident, "TRUE_PIN".toList⟩, ⟨.space, " ".toList⟩, ⟨.number, "5".toList⟩,
    ⟨.space, "\n".toList⟩, ⟨.ident, "void".toList⟩, ⟨.space, " ".toList⟩, ⟨.ident, "setup".toList⟩,
    ⟨.punct, "(".toList⟩, ⟨.punct, ")".toList⟩, ⟨.space, " ".toList⟩, ⟨.punct, "\x7b".toList⟩,
    ⟨.space, " ".toList⟩, ⟨.ident, "pinMode".toList⟩, ⟨.punct, "(".toList⟩,
    ⟨.ident, "TRUE_PIN".toList⟩, ⟨.punct, ",".toList⟩, ⟨.space, " ".toList⟩,
    ⟨.ident, "OUTPUT".toList⟩, ⟨.punct, ")".toList⟩, ⟨.punct, ";".toList⟩, ⟨.space, " ".toList⟩,
    ⟨.ident, "pinMode".toList⟩, ⟨.punct, "(".toList⟩, ⟨.number, "5".toList⟩, ⟨.punct, ",".toList⟩,
    ⟨.space, " ".toList⟩, ⟨.ident, "INPUT".toList⟩, ⟨.punct, ")".toList⟩, ⟨.punct, ";".toList⟩,
    ⟨.space, " ".toList⟩, ⟨.punct, "\x7d".toList⟩, ⟨.space, "\n".toList⟩]

def sharedPinBindings : List Binding :=
  [⟨"true".toList, 5, .output, "TRUE_PIN".toList⟩, ⟨"pin5".toList, 5, .input false, "5".toList⟩]

theorem bindings_sharedPin : (Context.harvest sharedPin).bindings = sharedPinBindings := by
  have tokens : tokenize sharedPin = sharedPinTokens := by cbv
  -- The number is kept as a variable, for its units are too many to be computed.
  obtain ⟨five, number, pin⟩ :
      ∃ five, numericLiteral? "5".toList = some five ∧ five.pinNumber? = some 5 :=
    ⟨_, @numericLiteral?_ofNat 5 (by decide), @Binary64.pinNumber?_ofNat 5 (by decide)⟩
  have found : definitions sharedPinTokens =
      ((numericLiteral? "5".toList).map (Constant.mk "TRUE_PIN".toList)).toList := rfl
  have constants : constantTable sharedPinTokens = [⟨"TRUE_PIN".toList, five⟩] := by
    rw [constantTable, found, number]
    rfl
  have calls : callsOf "pinMode" false sharedPinTokens =
      [["TRUE_PIN".toList, "OUTPUT".toList], ["5".toList, "INPUT".toList]] := rfl
  have noAnalog : callsOf "analogRead" false sharedPinTokens = [] := rfl
  have output : Context.digitalBinding? [⟨"TRUE_PIN".toList, five⟩]
      ["TRUE_PIN".toList, "OUTPUT".toList] = some ⟨"true".toList, 5, .output, "TRUE_PIN".toList⟩ := by
    show (five.pinNumber?.bind fun pin =>
      some (⟨"true".toList, pin, .output, "TRUE_PIN".toList⟩ : Binding)) = _
    rw [pin, Option.bind_some]
  have input : Context.digitalBinding? [⟨"TRUE_PIN".toList, five⟩] ["5".toList, "INPUT".toList] =
      some ⟨"pin5".toList, 5, .input false, "5".toList⟩ := rfl
  rw [Context.harvest, tokens, Context.harvestTokens, constants, calls, noAnalog]
  simp only [List.filterMap_cons, List.filterMap_nil, output, input]
  rfl

/-- With a second binding called `true` on its pin, an input called by its number is written to by the
name of no object. -/
theorem sharedPin_loses_name :
    ∃ binding ∈ (Context.harvest sharedPin).bindings, binding.isDigital = true ∧
      binding.identifier ∉ takenWords ∧
      ∀ used ∈ (Context.harvest sharedPin).bindings,
        convertLine (Context.harvest sharedPin)
            ("digitalWrite(".toList ++ binding.source ++ ", HIGH);".toList) ≠
          used.identifier ++ ".value(1)".toList := by
  have bindings := bindings_sharedPin
  have inTable : (Context.harvest sharedPin).outputNames[5]? = some "true".toList := by
    rw [Context.outputNames, Context.getElem?_namesByPin, Context.bindingsAt, bindings]
    rfl
  have number : PinRef.ofText? "5".toList = some (.number 5) := by decide
  have found : digitalName? (Context.harvest sharedPin).outputNames
      (Context.harvest sharedPin).inputNames "5".toList = some "true".toList := by
    simp only [digitalName?, number, Option.map_some, inTable]
    rfl
  have line := convertLine_write_eq (Context.hasScriptNames_harvest sharedPin) found
    (.inl ⟨rfl, rfl⟩ : "HIGH" = "HIGH" ∧ '1' = '1' ∨ _)
  have text : finishTokens (methodCall "true".toList "value" [⟨.number, ['1']⟩] ++
      [⟨.punct, ";".toList⟩]) = "True.value(1)".toList := by
    cbv
  rw [text] at line
  refine ⟨⟨"pin5".toList, 5, .input false, "5".toList⟩, by simp [bindings, sharedPinBindings], rfl,
    by decide, ?_⟩
  rw [bindings]
  rw [show convertLine (Context.harvest sharedPin)
      ("digitalWrite(".toList ++ "5".toList ++ ", HIGH);".toList) = "True.value(1)".toList from line]
  decide

end Breadboard.Script
