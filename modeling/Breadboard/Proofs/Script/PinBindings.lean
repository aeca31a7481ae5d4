import Breadboard.Proofs.DistinctList
import Breadboard.Proofs.Script.CallArgument
import Breadboard.Proofs.Script.FreeCall
import Breadboard.Proofs.Script.PinObjects

set_option autoImplicit false

namespace Breadboard.Binary64

/-- A number that is a natural number; zero may have either sign. -/
def IsWhole (value : Binary64) (n : Nat) : Prop :=
  ∃ negative, value = .finite negative (n * unitsPerOne) ∧ (negative = true → n = 0)

theorem toNat?_eq_some {value : Binary64} {n : Nat} : value.toNat? = some n ↔ value.IsWhole n := by
  have positive := unitsPerOne_pos
  cases value with
  | infinite negative => simp [toNat?, IsWhole]
  | nan => simp [toNat?, IsWhole]
  | finite negative units =>
      rw [toNat?, IsWhole]
      -- The unit is kept as a variable, for its digits are too many to be computed.
      generalize unitsPerOne = unit at positive
      simp only [Binary64.finite.injEq, exists_eq_left', and_assoc]
      constructor
      · intro found
        obtain ⟨whole, rfl⟩ : ¬ (negative = true ∧ units ≠ 0 ∨ units % unit ≠ 0) ∧ units / unit = n := by
          simpa using found
        obtain ⟨sign, divides⟩ := not_or.mp whole
        have divides : units % unit = 0 := not_not.mp divides
        refine ⟨(Nat.div_mul_cancel (Nat.dvd_of_mod_eq_zero divides)).symm, fun isNegative => ?_⟩
        have nothing : units = 0 := by_contra fun nonzero => sign ⟨isNegative, nonzero⟩
        rw [nothing, Nat.zero_div]
      · rintro ⟨rfl, onlyZero⟩
        have zero : negative = true → n * unit = 0 := fun isNegative => by
          rw [onlyZero isNegative, Nat.zero_mul]
        have integral : (negative && n * unit != 0 || n * unit % unit != 0) = false := by
          simpa using zero
        rw [integral, if_neg Bool.false_ne_true, Nat.mul_div_cancel _ positive]

theorem pinNumber?_eq_some {value : Binary64} {pin : Nat} :
    value.pinNumber? = some pin ↔ value.IsWhole pin ∧ pin < 2 ^ 32 := by
  rw [pinNumber?, Option.filter_eq_some_iff, toNat?_eq_some]
  simp

end Breadboard.Binary64

namespace Breadboard.Script

open Sketch hiding stripComments

/-- A reference has a pin's number: by its digits, or by the last definition of the constant that it names. -/
inductive HasPinNumber (source : Text) : Text → Nat → Prop where
  | literal {digits : Text} (notEmpty : digits ≠ []) (all : ∀ c ∈ digits, c.isDigit = true)
      (below : Text.digitValue 0 digits < 2 ^ 32) : HasPinNumber source digits (Text.digitValue 0 digits)
  | constant {definition : ConstantDefinition source} {pin : Nat} (isLast : definition.IsLast)
      (whole : definition.constant.value.IsWhole pin) (below : pin < 2 ^ 32) :
      HasPinNumber source definition.constant.name pin

theorem pinNumber?_eq_some_iff {text : Text} {pin : Nat} :
    Text.pinNumber? text = some pin ↔ text ≠ [] ∧ (∀ c ∈ text, c.isDigit = true) ∧
      Text.digitValue 0 text = pin ∧ pin < 2 ^ 32 := by
  rw [Text.pinNumber?, Text.numeralBelow?, Option.filter_eq_some_iff, Text.numeral?, decide_eq_true_eq]
  simp [Text.pinBound, and_assoc]

section

variable {source : Text}

theorem IsOpening.name_mem {form : DefinitionForm} {name : Text} {opening : List Token}
    (isOpening : IsOpening form name opening) : ∃ token ∈ opening, token.kind = .ident ∧ token.text = name := by
  cases isOpening with
  | @directive hash keyword token gap more isHash gapTrivia isKeyword moreTrivia isName =>
      exact ⟨token, by simp, isName, rfl⟩
  | @declaration keyword token equals types gap isKeyword typesOnly typed isName noType gapTrivia isEquals =>
      exact ⟨token, by simp, isName, rfl⟩

/-- What a constant is named is a word. -/
theorem ConstantDefinition.isIdentifier_name (definition : ConstantDefinition source) :
    isIdentifier definition.constant.name = true := by
  obtain ⟨token, inOpening, ident, same⟩ := definition.isOpening.name_mem
  have inText : token ∈ tokenize source := by
    rw [definition.tokens]
    exact List.mem_append_right _ (List.mem_append_left _ inOpening)
  rw [← same]
  exact isIdentifier_of_mem_tokenize inText ident

theorem valueIn_eq_some {name : Text} {value : Binary64} :
    Context.valueIn (Context.harvest source).constants name = some value ↔
      ∃ definition : ConstantDefinition source,
        definition.constant = ⟨name, value⟩ ∧ definition.IsLast := by
  rw [← mem_constants_iff, Context.valueIn]
  constructor
  · intro found
    obtain ⟨constant, first, rfl⟩ := Option.map_eq_some_iff.mp found
    have named : constant.name = name := by simpa using List.find?_some first
    rw [← named]
    exact List.mem_of_find?_eq_some first
  · intro member
    rw [constants_harvest] at member ⊢
    obtain ⟨constant, first⟩ : ∃ constant,
        ((definitions (tokenize source)).foldl define []).find? (·.name == name) = some constant :=
      Option.isSome_iff_exists.mp (List.find?_isSome.mpr ⟨_, member, by simp⟩)
    have named : constant.name = name := by simpa using List.find?_some first
    -- A name has one entry, that of its last definition.
    have isLast := mem_foldl_define.mp (List.mem_of_find?_eq_some first)
    rw [named, mem_foldl_define.mp member] at isLast
    rw [first, ← Option.some.inj isLast]
    rfl

/-- A reference denotes the pin whose number it has. -/
theorem hasPinNumber_iff {reference : Text} {pin : Nat} :
    HasPinNumber source reference pin ↔ Denotes (Context.harvest source).constants reference pin := by
  constructor
  · rintro (⟨notEmpty, all, below⟩ | ⟨isLast, whole, below⟩)
    · exact .literal (pinNumber?_eq_some_iff.mpr ⟨notEmpty, all, rfl, below⟩)
    · rename_i definition
      exact .constant definition.isIdentifier_name (valueIn_eq_some.mpr ⟨definition, rfl, isLast⟩)
        (Binary64.pinNumber?_eq_some.mpr ⟨whole, below⟩)
  · rintro (number | ⟨-, named, number⟩)
    · obtain ⟨notEmpty, all, rfl, below⟩ := pinNumber?_eq_some_iff.mp number
      exact .literal notEmpty all below
    · obtain ⟨definition, same, isLast⟩ := valueIn_eq_some.mp named
      obtain ⟨whole, below⟩ := Binary64.pinNumber?_eq_some.mp number
      have counted : HasPinNumber source definition.constant.name pin :=
        .constant isLast (by rw [same]; exact whole) below
      rwa [same] at counted

/-- A binding has the number of the pin that its reference has, and the name that this use of the reference
asks for. -/
def IsBindingIn (source : Text) (binding : Binding) : Prop :=
  HasPinNumber source binding.source binding.pin ∧ binding.use.name? = some binding.identifier

/-- The words for the ways in which a pin is configured. -/
inductive IsModeWord : String → BindingKind → Prop where
  | output : IsModeWord "OUTPUT" .output
  | input : IsModeWord "INPUT" (.input false)
  | pullUp : IsModeWord "INPUT_PULLUP" (.input true)

/-- The arguments of a call are a reference to a pin and the word for the way in which it is configured. -/
def AsksForDigital (source : Text) (inner : List Token) (binding : Binding) : Prop :=
  (∃ first second word, AreTwoArguments inner first second ∧ Text.trim (render first) = binding.source ∧
    Text.trim (render second) = word.toList ∧ IsModeWord word binding.kind) ∧ IsBindingIn source binding

/-- The argument of a call is a reference to a pin. -/
def AsksForAnalog (source : Text) (inner : List Token) (binding : Binding) : Prop :=
  IsOneArgument inner ∧ Text.trim (render inner) = binding.source ∧ binding.kind = .analog ∧
    IsBindingIn source binding

theorem isBindingIn_iff {binding : Binding} :
    IsBindingIn source binding ↔ ∃ ref, PinRef.ofText? binding.source = some ref ∧
      Context.pinOf (Context.harvest source).constants binding.source ref = some binding.pin ∧
      (if binding.isAnalog then Context.analogIdentifier ref else ref.identifier) = binding.identifier := by
  rw [IsBindingIn, hasPinNumber_iff, denotes_iff, PinUse.name?, Option.map_eq_some_iff]
  constructor
  · rintro ⟨⟨ref, isRef, atPin⟩, other, isOther, named⟩
    obtain rfl : ref = other := Option.some.inj (isRef.symm.trans isOther)
    exact ⟨ref, isRef, atPin, named⟩
  · rintro ⟨ref, isRef, atPin, named⟩
    exact ⟨⟨ref, isRef, atPin⟩, ref, isRef, named⟩

/-- The binding that a reference makes for a way of configuring its pin. -/
def bindingFor? (constants : List Constant) (reference : Text) (kind : BindingKind) : Option Binding :=
  (PinRef.ofText? reference).bind fun ref =>
    (Context.pinOf constants reference ref).map fun pin => ⟨ref.identifier, pin, kind, reference⟩

theorem digitalBinding?_pair (constants : List Constant) (reference mode : Text) :
    Context.digitalBinding? constants [reference, mode] =
      if mode = "OUTPUT".toList then bindingFor? constants reference .output
      else if mode = "INPUT_PULLUP".toList then bindingFor? constants reference (.input true)
      else if mode = "INPUT".toList then bindingFor? constants reference (.input false)
      else none := by
  simp only [Context.digitalBinding?, bindingFor?, Option.map_eq_bind]
  split
  · rfl
  · split
    · rfl
    · split <;> rfl

theorem digitalBinding?_pair_eq_some {constants : List Constant} {reference mode : Text} {binding : Binding} :
    Context.digitalBinding? constants [reference, mode] = some binding ↔
      ∃ word kind, mode = String.toList word ∧ IsModeWord word kind ∧
        bindingFor? constants reference kind = some binding := by
  rw [digitalBinding?_pair]
  constructor
  · intro found
    split at found
    · rename_i same
      exact ⟨_, _, same, .output, found⟩
    · split at found
      · rename_i same
        exact ⟨_, _, same, .pullUp, found⟩
      · obtain ⟨same, found⟩ := Option.ite_none_right_eq_some.mp found
        exact ⟨_, _, same, .input, found⟩
  · rintro ⟨word, kind, rfl, isWord, found⟩
    cases isWord with
    | output => exact found
    | input => exact found
    | pullUp => exact found

theorem bindingFor?_eq_some {reference : Text} {kind : BindingKind} {binding : Binding}
    (digital : kind ≠ .analog) :
    bindingFor? (Context.harvest source).constants reference kind = some binding ↔
      binding.kind = kind ∧ binding.source = reference ∧ IsBindingIn source binding := by
  rw [bindingFor?, isBindingIn_iff, Option.bind_eq_some_iff]
  constructor
  · rintro ⟨ref, isRef, found⟩
    obtain ⟨pin, atPin, rfl⟩ := Option.map_eq_some_iff.mp found
    refine ⟨rfl, rfl, ref, isRef, atPin, if_neg ?_⟩
    simpa [Binding.isAnalog] using digital
  · rintro ⟨rfl, rfl, ref, isRef, atPin, named⟩
    have notAnalog : ¬ binding.isAnalog = true := by simpa [Binding.isAnalog] using digital
    rw [if_neg notAnalog] at named
    exact ⟨ref, isRef, by rw [atPin, named]; rfl⟩

theorem IsModeWord.ne_analog {word : String} {kind : BindingKind} (isWord : IsModeWord word kind) :
    kind ≠ .analog := by
  cases isWord <;> exact BindingKind.noConfusion

theorem digitalBinding?_arguments_iff {inner : List Token} {binding : Binding} :
    Context.digitalBinding? (Context.harvest source).constants (Sketch.arguments inner) = some binding ↔
      AsksForDigital source inner binding := by
  constructor
  · intro found
    obtain ⟨reference, mode, two⟩ : ∃ reference mode, Sketch.arguments inner = [reference, mode] := by
      unfold Context.digitalBinding? at found
      split at found
      · exact ⟨_, _, ‹_›⟩
      · cases found
    rw [two] at found
    obtain ⟨first, second, areTwo, firstText, secondText⟩ := arguments_eq_two_iff.mp two
    obtain ⟨word, kind, rfl, isWord, made⟩ := digitalBinding?_pair_eq_some.mp found
    obtain ⟨rfl, rfl, isBinding⟩ := (bindingFor?_eq_some isWord.ne_analog).mp made
    exact ⟨⟨first, second, word, areTwo, firstText, secondText, isWord⟩, isBinding⟩
  · rintro ⟨⟨first, second, word, areTwo, firstText, secondText, isWord⟩, isBinding⟩
    rw [arguments_eq_two_iff.mpr ⟨first, second, areTwo, firstText, secondText⟩]
    exact digitalBinding?_pair_eq_some.mpr
      ⟨word, _, rfl, isWord, (bindingFor?_eq_some isWord.ne_analog).mpr ⟨rfl, rfl, isBinding⟩⟩

theorem analogBinding?_arguments_iff {inner : List Token} {binding : Binding} :
    Context.analogBinding? (Context.harvest source).constants (Sketch.arguments inner) = some binding ↔
      AsksForAnalog source inner binding := by
  rw [AsksForAnalog, isBindingIn_iff]
  constructor
  · intro found
    unfold Context.analogBinding? at found
    split at found
    · rename_i reference one
      obtain ⟨isOne, text⟩ := arguments_eq_one_iff.mp one
      simp only [Option.bind_eq_bind, Option.bind_eq_some_iff, Option.pure_def, Option.some_inj] at found
      obtain ⟨ref, isRef, pin, atPin, rfl⟩ := found
      exact ⟨isOne, text, rfl, ref, isRef, atPin, rfl⟩
    · cases found
  · rintro ⟨isOne, text, analog, ref, isRef, atPin, named⟩
    rw [arguments_eq_one_iff.mpr ⟨isOne, text⟩]
    rw [Binding.isAnalog, analog, if_pos (beq_self_eq_true _)] at named
    simp only [Context.analogBinding?, Option.bind_eq_bind, Option.bind_some, isRef, atPin, named, ← analog]
    rfl

end

section

variable {α β : Type}

/-- The second list has what belongs to the members of the first, in their order, and passes over those that
nothing belongs to. -/
inductive MadeFor (belongs : α → β → Prop) : List α → List β → Prop where
  | nil : MadeFor belongs [] []
  | made {a : α} {b : β} {as : List α} {bs : List β} (here : belongs a b) (more : MadeFor belongs as bs) :
      MadeFor belongs (a :: as) (b :: bs)
  | passed {a : α} {as : List α} {bs : List β} (none : ∀ b, ¬ belongs a b) (more : MadeFor belongs as bs) :
      MadeFor belongs (a :: as) bs

theorem madeFor_filterMap {belongs : α → β → Prop} {f : α → Option β}
    (same : ∀ a b, f a = some b ↔ belongs a b) (as : List α) : MadeFor belongs as (as.filterMap f) := by
  induction as with
  | nil => exact .nil
  | cons a as ih =>
      cases found : f a with
      | none =>
          rw [List.filterMap_cons_none found]
          refine .passed (fun b belongsHere => ?_) ih
          rw [(same a b).mpr belongsHere] at found
          cases found
      | some b =>
          rw [List.filterMap_cons_some found]
          exact .made ((same a b).mp found) ih

/-- The bindings that a table of calls makes, of those for which a property holds. -/
theorem madeFor_filter {belongs : α → β → Prop} {f : α → Option β} {keeps : β → Bool}
    (same : ∀ a b, f a = some b ↔ belongs a b) (as : List α) :
    MadeFor (fun a b => belongs a b ∧ keeps b = true) as ((as.filterMap f).filter keeps) := by
  rw [List.filter_filterMap]
  refine madeFor_filterMap (fun a b => ?_) as
  rw [Option.filter_eq_some_iff, same]

end

/-- Of the readings of a reference only the first has a binding. -/
structure AreFirstReadings (readings analogs : List Binding) : Prop where
  firsts : analogs.map Binding.source = (readings.map Binding.source).eraseDups
  made : ∀ binding ∈ analogs, binding ∈ readings

theorem areFirstReadings_distinctSources (readings : List Binding) :
    AreFirstReadings readings (Context.distinctSources readings) := by
  refine ⟨?_, fun binding member => Context.mem_of_mem_distinctSources member⟩
  induction readings using List.reverseRecOn with
  | nil => rfl
  | append_singleton readings binding ih =>
      have step : Context.distinctSources (readings ++ [binding]) =
          if (Context.distinctSources readings).any (·.source == binding.source)
          then Context.distinctSources readings
          else Context.distinctSources readings ++ [binding] := by
        rw [Context.distinctSources, List.foldl_append]
        rfl
      have known : (Context.distinctSources readings).any (·.source == binding.source) = true ↔
          binding.source ∈ readings.map Binding.source := by
        rw [← List.mem_eraseDups, ← ih, List.any_eq_true, List.mem_map]
        simp only [beq_iff_eq]
      rw [step, List.map_append, List.map_singleton, eraseDups_concat, ← ih]
      split
      · rename_i earlier
        rw [if_pos (by simpa using known.mp earlier)]
      · rename_i first
        rw [if_neg fun earlier => first (known.mpr (by simpa using earlier)), List.map_append, List.map_singleton]

/-- The bindings of a sketch are the outputs of the calls that configure pins, in the order of the calls, then
the inputs likewise, then the first readings of the calls that read analog pins. Every call that is not one of
a method counts, wherever it stands. -/
theorem bindings_mirror_calls (source : Text) :
    ∃ modes reads outputs inputs readings analogs,
      ListsCalls "pinMode" (tokenize source) modes ∧ ListsCalls "analogRead" (tokenize source) reads ∧
      MadeFor (fun inner binding => AsksForDigital source inner binding ∧ binding.isOutput = true)
        (modes.map Prod.snd) outputs ∧
      MadeFor (fun inner binding => AsksForDigital source inner binding ∧ binding.isInput = true)
        (modes.map Prod.snd) inputs ∧
      MadeFor (AsksForAnalog source) (reads.map Prod.snd) readings ∧ AreFirstReadings readings analogs ∧
      (Context.harvest source).bindings = outputs ++ inputs ++ analogs := by
  have configured (sites : List (Nat × List Token)) :
      (sites.map fun site => Sketch.arguments site.2).filterMap
          (Context.digitalBinding? (Context.harvest source).constants) =
        (sites.map Prod.snd).filterMap fun inner =>
          Context.digitalBinding? (Context.harvest source).constants (Sketch.arguments inner) := by
    rw [List.filterMap_map, List.filterMap_map]
    rfl
  have read (sites : List (Nat × List Token)) :
      (sites.map fun site => Sketch.arguments site.2).filterMap
          (Context.analogBinding? (Context.harvest source).constants) =
        (sites.map Prod.snd).filterMap fun inner =>
          Context.analogBinding? (Context.harvest source).constants (Sketch.arguments inner) := by
    rw [List.filterMap_map, List.filterMap_map]
    rfl
  refine ⟨callSites "pinMode" 0 false (tokenize source), callSites "analogRead" 0 false (tokenize source),
    _, _, _, _, listsCalls_callSites _ _, listsCalls_callSites _ _,
    madeFor_filter (fun _ _ => digitalBinding?_arguments_iff) _,
    madeFor_filter (fun _ _ => digitalBinding?_arguments_iff) _,
    madeFor_filterMap (fun _ _ => analogBinding?_arguments_iff) _,
    areFirstReadings_distinctSources _, ?_⟩
  rw [← configured, ← read, ← callsOf_eq_map, ← callsOf_eq_map]
  rfl

end Breadboard.Script
