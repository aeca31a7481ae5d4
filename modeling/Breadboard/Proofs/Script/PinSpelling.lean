import Breadboard.Proofs.Script.CountedName

set_option autoImplicit false

namespace Breadboard.Script

/-- The pin number that a reference denotes where a sketch has the given constants. -/
inductive Denotes (constants : List Constant) : Text → Nat → Prop where
  | literal {digits : Text} {pin : Nat} (number : Text.pinNumber? digits = some pin) :
      Denotes constants digits pin
  | constant {name : Text} {value : Binary64} {pin : Nat} (word : isIdentifier name = true)
      (named : Context.valueIn constants name = some value) (number : value.pinNumber? = some pin) :
      Denotes constants name pin

/-- The part of a pin's name that the name of its object is made of: a base with its number, a base
without the mark of a pin, or the whole of a name without such a mark. -/
inductive IsStem : Text → Text → Prop where
  | counted {base digits : Text} {index : Nat} (notEmpty : base ≠ [])
      (number : Text.pinNumber? digits = some index) :
      IsStem (base ++ "_PIN_".toList ++ digits) (base ++ Text.ofNat index)
  | marked (base : Text) : IsStem (base ++ "_PIN".toList) base
  | plain {name : Text} (notMarked : ∀ base, name ≠ base ++ "_PIN".toList)
      (notCounted : ∀ base digits index, base ≠ [] → Text.pinNumber? digits = some index →
        name ≠ base ++ "_PIN_".toList ++ digits) :
      IsStem name name

/-- A reference to a pin, as a sketch writes it, and the way in which the pin is used. -/
structure PinUse where
  analog : Bool
  reference : Text

/-- Two spellings that lead to one name, though they may be of different pins. -/
inductive IsAlike : PinUse → PinUse → Prop where
  /-- Two names differ in nothing but capitals, the mark of a pin and zeros before a number. -/
  | words {analog : Bool} {name other stem otherStem : Text} (word : isIdentifier name = true)
      (otherWord : isIdentifier other = true) (isStem : IsStem name stem)
      (otherIsStem : IsStem other otherStem) (same : lowercase stem = lowercase otherStem) :
      IsAlike ⟨analog, name⟩ ⟨analog, other⟩
  /-- A name such as `PIN_13_PIN` spells out the name of the object of a number. -/
  | pinWord {digits name stem : Text} {pin : Nat} (number : Text.pinNumber? digits = some pin)
      (word : isIdentifier name = true) (isStem : IsStem name stem)
      (same : lowercase stem = "pin".toList ++ Text.ofNat pin) :
      IsAlike ⟨false, digits⟩ ⟨false, name⟩
  /-- A digital name such as `ADC4` spells out the name of the analog input of a number. -/
  | adcWord {digits name stem : Text} {pin : Nat} (number : Text.pinNumber? digits = some pin)
      (word : isIdentifier name = true) (isStem : IsStem name stem)
      (same : lowercase stem = "adc".toList ++ Text.ofNat pin) :
      IsAlike ⟨true, digits⟩ ⟨false, name⟩
  /-- A digital name such as `ADC_LEVEL` spells out the name of an analog input called `LEVEL`. -/
  | adcName {name other stem otherStem : Text} (word : isIdentifier name = true)
      (otherWord : isIdentifier other = true) (isStem : IsStem name stem)
      (otherIsStem : IsStem other otherStem)
      (same : lowercase otherStem = "adc_".toList ++ lowercase stem) :
      IsAlike ⟨true, name⟩ ⟨false, other⟩

theorem lowercase_append (first second : Text) :
    lowercase (first ++ second) = lowercase first ++ lowercase second :=
  List.map_append

theorem lowercase_ofNat (n : Nat) : lowercase (Text.ofNat n) = Text.ofNat n := by
  have same : ∀ c ∈ Text.ofNat n, c.toLower = c := by
    intro c member
    have small := isSmallChar_of_isDigit (Text.isDigit_of_mem_ofNat member)
    rw [isSmallChar, Bool.and_eq_true, Bool.not_eq_true'] at small
    exact toLower_of_not_isUpper small.2
  rw [lowercase, List.map_congr_left same, List.map_id' _]

theorem pinNumber?_of_isIdentifier {name : Text} (word : isIdentifier name = true) :
    Text.pinNumber? name = none := by
  cases name with
  | nil => cases word
  | cons c rest =>
      rw [isIdentifier, Bool.and_eq_true] at word
      apply Text.pinNumber?_eq_none List.mem_cons_self
      have start := word.1
      by_contra digit
      rw [Bool.not_eq_false, isDigit_iff] at digit
      rw [Sketch.isWordStart, Bool.or_eq_true, Char.isAlpha, Bool.or_eq_true, isUpper_iff,
        isLower_iff, beq_iff_eq] at start
      rcases start with range | rfl
      · omega
      · exact absurd digit (by decide)

section

variable {name base digits : Text} {index : Nat}

theorem not_mem_of_pinNumber? {c : Char} (number : Text.pinNumber? digits = some index)
    (notDigit : c.isDigit = false) : c ∉ digits := by
  intro member
  rw [Text.pinNumber?_eq_none member notDigit] at number
  cases number

theorem splitIndexed?_of_pinNumber? (notEmpty : base ≠ [])
    (number : Text.pinNumber? digits = some index) :
    splitIndexed? (base ++ "_PIN_".toList ++ digits) = some (base, index) := by
  have isEmpty : base.isEmpty = false := by simpa using notEmpty
  have shape : base ++ "_PIN_".toList ++ digits = base ++ pinSuffix ++ '_' :: digits := by
    simp [pinSuffix]
  rw [shape]
  simp only [splitIndexed?, splitLastUnderscore?_append (not_mem_of_pinNumber? number rfl),
    Option.bind_eq_bind, Option.bind_some, number, isSuffixOf?_pinSuffix, isEmpty,
    Bool.false_eq_true, if_false]

theorem shape_of_splitIndexed? (split : splitIndexed? name = some (base, index)) :
    base ≠ [] ∧ ∃ digits, Text.pinNumber? digits = some index ∧
      name = base ++ "_PIN_".toList ++ digits := by
  unfold splitIndexed? at split
  simp only [Option.bind_eq_bind, Option.bind_eq_some_iff] at split
  obtain ⟨⟨before, after⟩, parts, found, number, front, suffix, rest⟩ := split
  by_cases empty : front.isEmpty = true
  · rw [if_pos empty] at rest
    cases rest
  · rw [if_neg empty] at rest
    obtain ⟨rfl, rfl⟩ := Prod.mk.inj (Option.some.inj rest)
    refine ⟨by simpa using empty, after, number, ?_⟩
    have beforeEq : front ++ pinSuffix = before := List.append_eq_of_isSuffixOf?_eq_some suffix
    rw [splitLastUnderscore?_eq_some parts, ← beforeEq]
    simp [pinSuffix]

end

theorem isSuffixOf?_pinSuffix_eq_none {name : Text} (notMarked : ∀ base, name ≠ base ++ "_PIN".toList) :
    pinSuffix.isSuffixOf? name = none := by
  cases found : pinSuffix.isSuffixOf? name with
  | none => rfl
  | some base => exact absurd (List.append_eq_of_isSuffixOf?_eq_some found).symm (notMarked base)

/-- A word is a reference whose name is made of its stem. -/
theorem IsStem.ofText? {name stem : Text} (isStem : IsStem name stem)
    (word : isIdentifier name = true) :
    ∃ ref, PinRef.ofText? name = some ref ∧ (∀ pin, ref ≠ .number pin) ∧
      ref.identifier = lowercase stem := by
  have noNumber := pinNumber?_of_isIdentifier word
  cases isStem with
  | @counted base digits index notEmpty number =>
      refine ⟨.indexed base index, ?_, by simp, ?_⟩
      · rw [PinRef.ofText?, noNumber]
        simp only [word, if_true, splitIndexed?_of_pinNumber? notEmpty number]
      · rw [PinRef.identifier, lowercase_append, lowercase_ofNat]
  | marked =>
      refine ⟨.named (stem ++ pinSuffix), ?_, by simp, identifier_pinSuffix stem⟩
      have notCounted : splitIndexed? (stem ++ "_PIN".toList) = none := splitIndexed?_pinSuffix stem
      rw [PinRef.ofText?, noNumber]
      simp only [word, if_true, notCounted]
      rfl
  | plain notMarked notCounted =>
      have noIndex : splitIndexed? name = none := by
        cases split : splitIndexed? name with
        | none => rfl
        | some parts =>
            obtain ⟨notEmpty, digits, number, shape⟩ := shape_of_splitIndexed? split
            exact absurd shape (notCounted parts.1 digits parts.2 notEmpty number)
      refine ⟨.named name, ?_, by simp, ?_⟩
      · rw [PinRef.ofText?, noNumber]
        simp only [word, if_true, noIndex]
      · rw [PinRef.identifier, isSuffixOf?_pinSuffix_eq_none notMarked, Option.getD_none]

theorem exists_isStem (name : Text) : ∃ stem, IsStem name stem := by
  by_cases marked : ∃ base, name = base ++ "_PIN".toList
  · obtain ⟨base, rfl⟩ := marked
    exact ⟨base, .marked base⟩
  · by_cases counted : ∃ base digits index, base ≠ [] ∧ Text.pinNumber? digits = some index ∧
        name = base ++ "_PIN_".toList ++ digits
    · obtain ⟨base, digits, index, notEmpty, number, rfl⟩ := counted
      exact ⟨_, .counted notEmpty number⟩
    · refine ⟨name, .plain (fun base shape => marked ⟨base, shape⟩) ?_⟩
      intro base digits index notEmpty number shape
      exact counted ⟨base, digits, index, notEmpty, number, shape⟩

/-- A reference is a number, or a word that leads to the name in its stem. -/
theorem PinRef.ofText?_cases {text : Text} {ref : PinRef} (found : PinRef.ofText? text = some ref) :
    (∃ pin, Text.pinNumber? text = some pin ∧ ref = .number pin) ∨
      (isIdentifier text = true ∧ (∀ pin, ref ≠ .number pin) ∧
        ∃ stem, IsStem text stem ∧ ref.identifier = lowercase stem) := by
  by_cases word : isIdentifier text = true
  · obtain ⟨stem, isStem⟩ := exists_isStem text
    obtain ⟨other, otherFound, notNumber, named⟩ := isStem.ofText? word
    obtain rfl : ref = other := Option.some.inj (found.symm.trans otherFound)
    exact Or.inr ⟨word, notNumber, stem, isStem, named⟩
  · rw [PinRef.ofText?] at found
    cases number : Text.pinNumber? text with
    | some pin =>
        rw [number] at found
        exact Or.inl ⟨pin, rfl, (Option.some.inj found).symm⟩
    | none =>
        rw [number] at found
        simp [word] at found

namespace PinUse

/-- The name of the object that the use of a pin asks for. -/
def name? (use : PinUse) : Option Text :=
  (PinRef.ofText? use.reference).map fun ref =>
    if use.analog then Context.analogIdentifier ref else ref.identifier

/-- The word in front of the number in the name of an object. -/
def numberMark (use : PinUse) : Text :=
  if use.analog then "adc".toList else "pin".toList

/-- What stands before the stem in the name of an object. -/
def wordMark (use : PinUse) : Text :=
  if use.analog then "adc_".toList else []

variable {use first second : PinUse}

theorem name?_number {pin : Nat} (number : Text.pinNumber? use.reference = some pin) :
    use.name? = some (use.numberMark ++ Text.ofNat pin) := by
  have isRef : PinRef.ofText? use.reference = some (.number pin) := by rw [PinRef.ofText?, number]
  rw [name?, isRef, Option.map_some, numberMark]
  cases use.analog <;> rfl

theorem name?_word {stem : Text} (word : isIdentifier use.reference = true)
    (isStem : IsStem use.reference stem) : use.name? = some (use.wordMark ++ lowercase stem) := by
  obtain ⟨ref, isRef, notNumber, named⟩ := isStem.ofText? word
  rw [name?, isRef, Option.map_some, wordMark]
  cases use.analog with
  | false => rw [if_neg Bool.false_ne_true, if_neg Bool.false_ne_true, named, List.nil_append]
  | true =>
      rw [if_pos rfl, if_pos rfl]
      cases ref with
      | number pin => exact absurd rfl (notNumber pin)
      | indexed base index => exact congrArg (fun name => some ("adc_".toList ++ name)) named
      | named name => exact congrArg (fun name => some ("adc_".toList ++ name)) named

/-- Spellings that are alike lead to one name. -/
theorem name?_eq_of_isAlike (alike : IsAlike first second) : first.name? = second.name? := by
  cases alike with
  | words word otherWord isStem otherIsStem same =>
      rw [name?_word word isStem, name?_word otherWord otherIsStem, same]
      rfl
  | pinWord number word isStem same =>
      rw [name?_number number, name?_word word isStem, same]
      rfl
  | adcWord number word isStem same =>
      rw [name?_number number, name?_word word isStem, same]
      rfl
  | adcName word otherWord isStem otherIsStem same =>
      rw [name?_word word isStem, name?_word otherWord otherIsStem, same]
      rfl

theorem exists_number_or_word {name : Text} (named : use.name? = some name) :
    (∃ pin, Text.pinNumber? use.reference = some pin ∧ name = use.numberMark ++ Text.ofNat pin) ∨
      (isIdentifier use.reference = true ∧
        ∃ stem, IsStem use.reference stem ∧ name = use.wordMark ++ lowercase stem) := by
  obtain ⟨ref, isRef, -⟩ := Option.map_eq_some_iff.mp named
  rcases PinRef.ofText?_cases isRef with ⟨pin, number, -⟩ | ⟨word, -, stem, isStem, -⟩
  · refine Or.inl ⟨pin, number, ?_⟩
    exact Option.some.inj (named.symm.trans (name?_number number))
  · refine Or.inr ⟨word, stem, isStem, ?_⟩
    exact Option.some.inj (named.symm.trans (name?_word word isStem))

/-- The name of a number is no name of a word, unless the word spells it out. -/
theorem isAlike_of_number_word {pin : Nat} {stem : Text}
    (number : Text.pinNumber? first.reference = some pin)
    (word : isIdentifier second.reference = true) (isStem : IsStem second.reference stem)
    (same : first.numberMark ++ Text.ofNat pin = second.wordMark ++ lowercase stem) :
    IsAlike first second := by
  obtain ⟨firstAnalog, digits⟩ := first
  obtain ⟨secondAnalog, name⟩ := second
  cases firstAnalog <;> cases secondAnalog
  · exact .pinWord number word isStem same.symm
  · cases same
  · exact .adcWord number word isStem same.symm
  · have line : '_' ∈ Text.ofNat pin := by
      have rest : Text.ofNat pin = '_' :: lowercase stem := List.append_cancel_left same
      rw [rest]
      exact List.mem_cons_self
    exact absurd line (Text.not_mem_ofNat rfl pin)

theorem isAlike_of_word_word {stem otherStem : Text} (word : isIdentifier first.reference = true)
    (isStem : IsStem first.reference stem) (otherWord : isIdentifier second.reference = true)
    (otherIsStem : IsStem second.reference otherStem)
    (same : first.wordMark ++ lowercase stem = second.wordMark ++ lowercase otherStem) :
    IsAlike first second ∨ IsAlike second first := by
  obtain ⟨firstAnalog, name⟩ := first
  obtain ⟨secondAnalog, other⟩ := second
  cases firstAnalog <;> cases secondAnalog
  · exact Or.inl (.words word otherWord isStem otherIsStem same)
  · exact Or.inr (.adcName otherWord word otherIsStem isStem same)
  · exact Or.inl (.adcName word otherWord isStem otherIsStem same.symm)
  · exact Or.inl (.words word otherWord isStem otherIsStem (List.append_cancel_left same))

/-- Two uses of pins with one name spell one number for one way of use, or they are spelled alike. -/
theorem name_eq_iff {name other : Text} (named : first.name? = some name)
    (otherNamed : second.name? = some other) :
    name = other ↔
      (first.analog = second.analog ∧ ∃ pin, Text.pinNumber? first.reference = some pin ∧
          Text.pinNumber? second.reference = some pin) ∨
        IsAlike first second ∨ IsAlike second first := by
  constructor
  · rintro rfl
    rcases exists_number_or_word named with ⟨pin, number, nameEq⟩ | ⟨word, stem, isStem, nameEq⟩ <;>
      rcases exists_number_or_word otherNamed with
        ⟨otherPin, otherNumber, otherEq⟩ | ⟨otherWord, otherStem, otherIsStem, otherEq⟩
    · have same := nameEq.symm.trans otherEq
      obtain ⟨firstAnalog, digits⟩ := first
      obtain ⟨secondAnalog, others⟩ := second
      cases firstAnalog <;> cases secondAnalog
      · obtain rfl := Text.ofNat_injective (List.append_cancel_left same)
        exact Or.inl ⟨rfl, pin, number, otherNumber⟩
      · cases same
      · cases same
      · obtain rfl := Text.ofNat_injective (List.append_cancel_left same)
        exact Or.inl ⟨rfl, pin, number, otherNumber⟩
    · exact Or.inr (Or.inl (isAlike_of_number_word number otherWord otherIsStem
        (nameEq.symm.trans otherEq)))
    · exact Or.inr (Or.inr (isAlike_of_number_word otherNumber word isStem
        (otherEq.symm.trans nameEq)))
    · exact Or.inr (isAlike_of_word_word word isStem otherWord otherIsStem
        (nameEq.symm.trans otherEq))
  · rintro (⟨sameUse, pin, number, otherNumber⟩ | alike | alike)
    · rw [name?_number number, numberMark, sameUse] at named
      rw [name?_number otherNumber, numberMark] at otherNamed
      exact Option.some.inj (named.symm.trans otherNamed)
    · exact Option.some.inj (named.symm.trans ((name?_eq_of_isAlike alike).trans otherNamed))
    · exact Option.some.inj (named.symm.trans ((name?_eq_of_isAlike alike).symm.trans otherNamed))

end PinUse

/-- The use of a pin that a binding stands for. -/
def Binding.use (binding : Binding) : PinUse :=
  ⟨binding.isAnalog, binding.source⟩

theorem Context.pinOf_word {constants : List Constant} {source : Text} {ref : PinRef}
    (notNumber : ∀ pin, ref ≠ .number pin) :
    pinOf constants source ref = (valueIn constants source).bind Binary64.pinNumber? := by
  cases ref with
  | number pin => exact absurd rfl (notNumber pin)
  | indexed base index => rfl
  | named name => rfl

theorem denotes_iff {constants : List Constant} {source : Text} {pin : Nat} :
    Denotes constants source pin ↔
      ∃ ref, PinRef.ofText? source = some ref ∧ Context.pinOf constants source ref = some pin := by
  constructor
  · intro denotes
    cases denotes with
    | literal number => exact ⟨.number pin, by rw [PinRef.ofText?, number], rfl⟩
    | constant word named number =>
        obtain ⟨stem, isStem⟩ := exists_isStem source
        obtain ⟨ref, isRef, notNumber, -⟩ := isStem.ofText? word
        refine ⟨ref, isRef, ?_⟩
        rw [Context.pinOf_word notNumber, named, Option.bind_some, number]
  · rintro ⟨ref, isRef, atPin⟩
    rcases PinRef.ofText?_cases isRef with ⟨other, number, rfl⟩ | ⟨word, notNumber, -⟩
    · obtain rfl : other = pin := Option.some.inj atPin
      exact .literal number
    · rw [Context.pinOf_word notNumber] at atPin
      obtain ⟨value, named, number⟩ := Option.bind_eq_some_iff.mp atPin
      exact .constant word named number

/-- A binding's pin is the one that its reference denotes, and its name is the one that the use of the
reference asks for. -/
theorem Context.denotes_of_mem_harvest {source : Text} {binding : Binding}
    (member : binding ∈ (Context.harvest source).bindings) :
    Denotes (Context.harvest source).constants binding.source binding.pin ∧
      binding.use.name? = some binding.identifier := by
  rcases Context.mem_bindings_harvest member with ⟨args, found⟩ | ⟨args, found⟩
  · obtain ⟨ref, isRef, atPin, named, digital⟩ := Context.digitalBinding?_eq_some found
    refine ⟨denotes_iff.mpr ⟨ref, isRef, atPin⟩, ?_⟩
    have notAnalog : binding.isAnalog = false := by simpa [Binding.isAnalog] using digital
    rw [PinUse.name?, Binding.use, isRef, Option.map_some, named, notAnalog]
    rfl
  · obtain ⟨ref, isRef, atPin, named, analog⟩ := Context.analogBinding?_eq_some found
    refine ⟨denotes_iff.mpr ⟨ref, isRef, atPin⟩, ?_⟩
    have isAnalog : binding.isAnalog = true := by simp [Binding.isAnalog, analog]
    rw [PinUse.name?, Binding.use, isRef, Option.map_some, named, isAnalog]
    rfl

end Breadboard.Script
