import Breadboard.Proofs.Script.TemplateHarvest

set_option autoImplicit false

namespace Breadboard.Script

open Circuit (Wiring)
open Sketch hiding stripComments

/-- How the script refers to the constant of a label. -/
def refOf (label : PinLabel) : PinRef :=
  match label.ordinal with
  | some n => .indexed label.role.word n
  | none => .named label.name

theorem name_eq_of_none (role : Role) : PinLabel.name ⟨role, none⟩ = role.word ++ pinSuffix :=
  List.append_nil _

theorem pinRef?_name {label : PinLabel} (below : ∀ n ∈ label.ordinal, n < Text.pinBound) :
    PinRef.ofText? label.name = some (refOf label) := by
  rcases label with ⟨role, _ | n⟩
  · rw [refOf, name_eq_of_none]
    exact pinRef?_pinSuffix role.isIdentifier_word
  · exact pinRef?_counted role.isIdentifier_word (below n rfl)

theorem identifier_refOf (label : PinLabel) : (refOf label).identifier = label.identifier := by
  rcases label with ⟨role, _ | n⟩
  · rw [refOf, name_eq_of_none, identifier_pinSuffix, role.lowercase_word]
    exact (List.append_nil _).symm
  · rw [refOf, PinRef.identifier, role.lowercase_word]
    rfl

theorem isPinConstant_name {label : PinLabel} (below : ∀ n ∈ label.ordinal, n < Text.pinBound) :
    isPinConstant label.name = true := by
  rcases label with ⟨role, _ | n⟩
  · rw [name_eq_of_none]
    exact isPinConstant_pinSuffix role.word
  · exact isPinConstant_counted (ne_nil_of_isIdentifier role.isIdentifier_word) (below n rfl)

/-- The binding of a pin. -/
def bindingOf (kind : BindingKind) (labelled : LabelledPin) : Binding :=
  ⟨labelled.label.identifier, labelled.pin, kind, labelled.label.name⟩

theorem pinOf_refOf (constants : List Constant) (label : PinLabel) :
    Context.pinOf constants label.name (refOf label) =
      (Context.valueIn constants label.name).bind Binary64.pinNumber? := by
  rcases label with ⟨role, _ | n⟩ <;> rfl

theorem digitalBinding?_name {constants : List Constant}
    (nodup : (constants.map Constant.name).Nodup) {labelled : LabelledPin}
    (member : constantOf labelled ∈ constants) (pin : labelled.pin < Text.pinBound)
    (below : ∀ n ∈ labelled.label.ordinal, n < Text.pinBound) {mode : String} {kind : BindingKind}
    (known : mode = "OUTPUT" ∧ kind = .output ∨ mode = "INPUT_PULLUP" ∧ kind = .input true) :
    Context.digitalBinding? constants [labelled.label.name, mode.toList] =
      some (bindingOf kind labelled) := by
  have value : Context.pinOf constants labelled.label.name (refOf labelled.label) =
      some labelled.pin := by
    have found : Context.valueIn constants labelled.label.name =
        some (Binary64.ofNat labelled.pin) := valueIn_of_nodup nodup member
    rw [pinOf_refOf, found, Option.bind_some, Binary64.pinNumber?_ofNat pin]
  rcases known with ⟨rfl, rfl⟩ | ⟨rfl, rfl⟩ <;>
    simp [Context.digitalBinding?, pinRef?_name below, value, identifier_refOf, bindingOf]

theorem nodup_constants (wiring : Wiring) :
    (((labelledPins wiring).map constantOf).map Constant.name).Nodup := by
  have names := (nodup_labels wiring).map PinLabel.name_injective
  rw [List.map_map] at names ⊢
  exact names

/-- The bindings in the order in which they are constructed. -/
def templateBindings (wiring : Wiring) : List Binding :=
  (ledPins wiring).map (bindingOf .output) ++ (actuatorPins wiring).map (bindingOf .output) ++
    (buttonPins wiring).map (bindingOf (.input true))

def templateContext (wiring : Wiring) : Context where
  constants := (labelledPins wiring).map constantOf
  bindings := templateBindings wiring

theorem filter_bindings {p : Binding → Bool} {kind : BindingKind} {holds : Bool}
    (same : ∀ labelled, p (bindingOf kind labelled) = holds) (pins : List LabelledPin) :
    (pins.map (bindingOf kind)).filter p = if holds then pins.map (bindingOf kind) else [] := by
  cases holds with
  | true => simpa using fun labelled _ => same labelled
  | false => simpa using fun labelled _ => same labelled

section

variable {wiring : Wiring} (fits : Fits (labelledPins wiring))

include fits

theorem digitalBindings_template (settings : FirmwareSettings) :
    (callsOf "pinMode" false (Row.tokens [] (templateRows wiring settings) [])).filterMap
        (Context.digitalBinding? ((labelledPins wiring).map constantOf)) =
      (ledPins wiring).map (bindingOf .output) ++ (buttonPins wiring).map (bindingOf (.input true)) ++
        (actuatorPins wiring).map (bindingOf .output) := by
  have bound : ∀ {mode : String} {kind : BindingKind},
      (mode = "OUTPUT" ∧ kind = .output ∨ mode = "INPUT_PULLUP" ∧ kind = .input true) →
      ∀ pins : List LabelledPin, pins ⊆ labelledPins wiring →
        (pins.map fun pin => [pin.label.name, mode.toList]).filterMap
            (Context.digitalBinding? ((labelledPins wiring).map constantOf)) =
          pins.map (bindingOf kind) := by
    intro mode kind known pins subset
    rw [List.filterMap_map]
    refine Eq.trans (List.filterMap_congr fun pin member => ?_) (congrFun List.filterMap_eq_map pins)
    have inAll := subset member
    exact digitalBinding?_name (nodup_constants wiring) (List.mem_map_of_mem inAll)
      (fits pin inAll).1 (fits pin inAll).2 known
  rw [calls_template, List.filterMap_append, List.filterMap_append,
    bound (.inl ⟨rfl, rfl⟩) (ledPins wiring) (by simp [labelledPins]),
    bound (.inr ⟨rfl, rfl⟩) (buttonPins wiring) (by simp [labelledPins]),
    bound (.inl ⟨rfl, rfl⟩) (actuatorPins wiring) (by simp [labelledPins])]

/-- What a generated sketch declares. -/
theorem harvest_template (settings : FirmwareSettings) :
    Context.harvest (Sketch.stripComments (ofWiring wiring settings)) = templateContext wiring := by
  have table := constantTable_of_nodup (definitions_template settings fits) (nodup_constants wiring)
  have analog := callsOf_of_absent (noAnalog_template wiring settings) false
  rw [Context.harvest, tokenize_template, Context.harvestTokens, table, analog,
    digitalBindings_template fits settings]
  have nothing : Context.distinctSources [] = [] := rfl
  have output := fun labelled => (rfl : (bindingOf .output labelled).isOutput = true)
  have noOutput := fun labelled => (rfl : (bindingOf (.input true) labelled).isOutput = false)
  have input := fun labelled => (rfl : (bindingOf (.input true) labelled).isInput = true)
  have noInput := fun labelled => (rfl : (bindingOf .output labelled).isInput = false)
  simp only [List.filter_append, filter_bindings output, filter_bindings noOutput,
    filter_bindings input, filter_bindings noInput, List.filterMap_nil, nothing, if_true, Bool.false_eq_true,
    if_false, List.append_nil, List.nil_append]
  rfl

end

end Breadboard.Script
