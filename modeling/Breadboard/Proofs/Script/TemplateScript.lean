import Breadboard.Proofs.Script.SketchDetection
import Breadboard.Proofs.Script.TemplateLoop

set_option autoImplicit false

namespace Breadboard.Script

open Circuit (Wiring Actuator ActuatorEntry)
open Sketch hiding stripComments

/-- Pins and counts that a board can have. -/
structure IsSmall (wiring : Wiring) : Prop where
  ledCount : wiring.leds.length < Text.pinBound
  buttonCount : wiring.buttons.length < Text.pinBound
  actuatorCount : ∀ kind, wiring.actuatorCount kind < Text.pinBound
  ledPins : ∀ led ∈ wiring.leds, led.pin < Text.pinBound
  buttonPins : ∀ pin ∈ wiring.buttons, pin < Text.pinBound
  actuatorPins : ∀ entry ∈ wiring.actuators, entry.pin < Text.pinBound

theorem fits_countedPins {role : Role} {pins : List Nat} (count : pins.length < Text.pinBound)
    (below : ∀ pin ∈ pins, pin < Text.pinBound) : Fits (countedPins role pins) := by
  intro labelled member
  obtain ⟨index, inside, rfl⟩ := List.mem_mapIdx.mp member
  refine ⟨below _ (List.getElem_mem inside), fun n isOrdinal => ?_⟩
  obtain rfl := Option.some.inj isOrdinal
  omega

theorem IsSmall.fits {wiring : Wiring} (small : IsSmall wiring) : Fits (labelledPins wiring) := by
  have leds : Fits (Sketch.ledPins wiring) :=
    fits_countedPins (by simpa using small.ledCount) (by simpa using small.ledPins)
  have buttons : Fits (Sketch.buttonPins wiring) :=
    fits_countedPins small.buttonCount small.buttonPins
  have actuators : Fits (Sketch.actuatorPins wiring) := by
    intro labelled member
    obtain ⟨index, inside, rfl⟩ := List.mem_mapIdx.mp member
    refine ⟨small.actuatorPins _ (List.getElem_mem inside), fun n isOrdinal => ?_⟩
    have count := small.actuatorCount wiring.actuators[index].kind
    have upTo : (wiring.actuators.take (index + 1)).countP
        (·.kind == wiring.actuators[index].kind) ≤ wiring.actuatorCount wiring.actuators[index].kind :=
      (List.take_sublist _ _).countP_le
    simp only [actuatorOrdinal, Option.mem_def, Option.ite_none_right_eq_some, Option.some_inj] at isOrdinal
    omega
  exact List.forall_mem_append.mpr ⟨List.forall_mem_append.mpr ⟨leds, buttons⟩, actuators⟩

theorem sleepDuration?_sleepText {count : Nat} (below : count < waitBound) :
    sleepDuration? (sleepText count) = some count := by
  rw [← Text.numeralBelow?_ofNat below]
  exact sleepDuration?_waitText (Text.ofNat count)

theorem absent_modeCode {mode : String} (known : mode = "OUTPUT" ∨ mode = "INPUT_PULLUP")
    (labelled : LabelledPin) : ∀ token ∈ modeCode mode labelled, token.isIdent "loop" = false := by
  have name := isIdent_name labelled.label (show '_' ∉ "loop".toList by decide)
  refine List.forall_mem_cons.mpr ⟨rfl, List.forall_mem_cons.mpr ⟨rfl,
    List.forall_mem_cons.mpr ⟨name, isIdent_eq_false_of_all ?_⟩⟩⟩
  rcases known with rfl | rfl <;> rfl

/-- No code before the loop names it. -/
theorem absent_of_isTemplateRow {row : Row} (isRow : IsTemplateRow .head row) :
    ∀ token ∈ row.code, token.isIdent "loop" = false := by
  cases isRow with
  | empty => exact isIdent_eq_false_of_all rfl
  | remark => exact isIdent_eq_false_of_all rfl
  | closing => exact isIdent_eq_false_of_all rfl
  | define labelled =>
      have name := isIdent_name labelled.label (show '_' ∉ "loop".toList by decide)
      exact List.forall_mem_cons.mpr ⟨rfl, List.forall_mem_cons.mpr ⟨rfl, List.forall_mem_cons.mpr
        ⟨rfl, List.forall_mem_cons.mpr ⟨name, isIdent_eq_false_of_all rfl⟩⟩⟩⟩
  | setup => exact isIdent_eq_false_of_all rfl
  | serial => exact isIdent_eq_false_of_all rfl
  | mode known labelled => exact absent_modeCode known labelled
  | actuatorMode labelled => exact absent_modeCode (.inl rfl) labelled

section

variable {wiring : Wiring} {settings : FirmwareSettings}

/-- The tokens of a generated sketch, cut at its loop. -/
theorem tokens_templateRows :
    Row.tokens [] (templateRows wiring settings) [] =
      Row.tokens [] (headRows wiring settings) [] ++ (functionCode "loop" ++
        (Row.tokens ['\n'] (loopRows wiring settings) [] ++ closeBrace :: [⟨.space, ['\n']⟩])) := by
  have rows : templateRows wiring settings = headRows wiring settings ++
      codeRow "" (functionCode "loop") :: (loopRows wiring settings ++ [codeRow "" closingCode]) := by
    simp [templateRows]
  have opening : functionCode "loop" ≠ [] := List.cons_ne_nil _ _
  have closing : closingCode ≠ [] := List.cons_ne_nil _ _
  rw [rows, Row.tokens_append_cons _ _ rfl opening, Row.tokens_append_cons _ _ rfl closing,
    Row.tokens_append, Row.tokens_append]
  rfl

/-- The body of a generated loop. -/
theorem exists_templateBlock {context : Context} (names : context.HasScriptNames)
    (fits : Fits (labelledPins wiring)) :
    ∃ body : Block context,
      IsFirstDefinition "loop" body.tokens (Row.tokens [] (templateRows wiring settings) []) ∧
      (∀ statement ∈ body.statements, statement.StartsFresh) ∧
      body.statements.map Statement.unit = loopUnits wiring settings := by
  obtain ⟨body, tokens, fresh, units⟩ :=
    Yields.loop names fits settings [] [] hasUnits_nil Gap.lineBreak
  rw [List.append_nil] at tokens units
  refine ⟨body, ?_, fresh, units⟩
  have absent : ∀ token ∈ Row.tokens [] (headRows wiring settings) [],
      token.isIdent "loop" = false := by
    intro token member
    rcases Row.mem_tokens member with space | ⟨row, inRows, inCode⟩ | inRest
    · simp [Token.isIdent, space]
    · exact absent_of_isTemplateRow (isTemplateRow_headRows row inRows) token inCode
    · cases inRest
  have lineBreak : Gap.lineBreak.text = ['\n'] := rfl
  rw [tokens_templateRows, ← lineBreak, ← tokens]
  refine isFirstDefinition_of_absent (by decide) absent ⟨[oneBlank], _, by decide, ?_, rfl⟩
  exact ⟨[], [], [oneBlank], [⟨.space, ['\n']⟩], by decide, .nil, body.isClosed_tokens, rfl⟩

theorem scriptConstants_template (fits : Fits (labelledPins wiring)) :
    (templateContext wiring).scriptConstants = [] := by
  refine List.filter_eq_nil_iff.mpr fun constant member => ?_
  obtain ⟨labelled, inPins, rfl⟩ := List.mem_map.mp member
  simp [constantOf, isPinConstant_name (fits labelled inPins).2]

theorem nodup_identifiers (wiring : Wiring) :
    ((templateBindings wiring).map Binding.identifier).Nodup := by
  have labels := (nodup_labels wiring).map PinLabel.identifier_injective
  have same : (templateBindings wiring).map Binding.identifier =
      ((ledPins wiring ++ actuatorPins wiring ++ buttonPins wiring).map (·.label)).map
        PinLabel.identifier := by
    simp [templateBindings, bindingOf, Function.comp_def]
  have order : (ledPins wiring ++ actuatorPins wiring ++ buttonPins wiring).Perm
      (labelledPins wiring) := by
    rw [labelledPins, List.append_assoc, List.append_assoc]
    exact List.perm_append_comm.append_left _
  rw [same]
  exact ((order.map _).map _).nodup_iff.mpr labels

theorem loopUnits_eq_nil_iff :
    loopUnits wiring settings = [] ↔ wiring.leds = [] ∧ wiring.buttons = [] := by
  have leds : blinkUnits (ledPins wiring) settings.blinkDelay = [] ↔ wiring.leds = [] := by
    rw [blinkUnits]
    split
    · rename_i empty
      simpa [ledPins, countedPins] using empty
    · rename_i notEmpty
      simpa [ledPins, countedPins] using notEmpty
  have buttons : (buttonPins wiring).flatMap buttonUnits = [] ↔ wiring.buttons = [] := by
    rw [List.flatMap_eq_nil_iff]
    constructor
    · intro none
      cases pins : wiring.buttons with
      | nil => rfl
      | cons pin rest =>
          have first := none ⟨⟨.button, some 1⟩, pin⟩ (by simp [buttonPins, countedPins, pins])
          cases first
    · intro none
      simp [buttonPins, countedPins, none]
  rw [loopUnits, List.append_eq_nil_iff, leds, buttons]

end

/-- What generator and converter agree on. -/
structure IsScriptOf (wiring : Wiring) (settings : FirmwareSettings) (conversion : Conversion)
    (split : Split) : Prop where
  /-- The constants are the pin definitions in their order. -/
  constants : conversion.context.constants =
    (pinDefinitions wiring).map fun definition => ⟨definition.name, .ofNat definition.pin⟩
  constantPins : conversion.context.constants.map (·.value.pinNumber?) =
    (pinDefinitions wiring).map fun definition => some definition.pin
  distinctNames : ((pinDefinitions wiring).map PinDefinition.name).Nodup
  noScriptConstants : conversion.context.scriptConstants = []
  /-- Outputs for the LEDs and for the actuators, then inputs for the buttons. -/
  bindings : conversion.context.bindings = templateBindings wiring
  boundDefinitions : conversion.context.bindings.map
      (fun binding => (⟨binding.source, binding.pin⟩ : PinDefinition)) =
    ledDefinitions wiring ++ (actuatorDefinitions wiring).map Prod.snd ++ buttonDefinitions wiring
  distinctIdentifiers : (conversion.context.bindings.map Binding.identifier).Nodup
  noAnalog : conversion.usesAnalog = false ∧
    ∀ binding ∈ conversion.context.bindings, binding.isAnalog = false
  setup : split.setup = conversion.preamble
  statements : statements split.body =
    if wiring.leds.isEmpty && wiring.buttons.isEmpty then [passText] else loopUnits wiring settings
  /-- The waits of the blinking are waits for the scheduler. -/
  waits : sleepDuration? (sleepText settings.blinkDelay) = some settings.blinkDelay

theorem boundDefinitions_template (wiring : Wiring) :
    (templateBindings wiring).map
        (fun binding => (⟨binding.source, binding.pin⟩ : PinDefinition)) =
      ledDefinitions wiring ++ (actuatorDefinitions wiring).map Prod.snd ++
        buttonDefinitions wiring := by
  rw [ledDefinitions_eq, buttonDefinitions_eq, actuatorDefinitions_snd, templateBindings,
    List.map_append, List.map_append, List.map_map, List.map_map, List.map_map]
  rfl

theorem isAnalog_template {wiring : Wiring} :
    ∀ binding ∈ templateBindings wiring, binding.isAnalog = false := by
  simp only [templateBindings, List.forall_mem_append, List.forall_mem_map]
  exact ⟨⟨fun _ _ => rfl, fun _ _ => rfl⟩, fun _ _ => rfl⟩

theorem constants_template (wiring : Wiring) :
    (labelledPins wiring).map constantOf =
      (pinDefinitions wiring).map fun definition => ⟨definition.name, .ofNat definition.pin⟩ := by
  rw [pinDefinitions_eq, List.map_map]
  refine List.map_congr_left fun pin _ => ?_
  rw [constantOf, Function.comp_apply, LabelledPin.definition]

theorem constantPins_template {wiring : Wiring} (fits : Fits (labelledPins wiring)) :
    ((labelledPins wiring).map constantOf).map (·.value.pinNumber?) =
      (pinDefinitions wiring).map fun definition => some definition.pin := by
  rw [pinDefinitions_eq, List.map_map, List.map_map]
  refine List.map_congr_left fun pin member => ?_
  have value : (constantOf pin).value = Binary64.ofNat pin.pin := rfl
  rw [Function.comp_apply, value, Binary64.pinNumber?_ofNat (fits pin member).1]
  rfl

theorem usesAnalog_template (wiring : Wiring) (settings : FirmwareSettings) :
    ((tokenize (Sketch.stripComments (ofWiring wiring settings))).any
      (·.isIdent "analogRead")) = false := by
  rw [tokenize_template, List.any_eq_false]
  intro token member isAnalog
  rw [noAnalog_template wiring settings token member] at isAnalog
  cases isAnalog

/-- Generator and converter agree for every wiring: the script of the generated sketch has the
definitions as its constants, one object for each pin, and the statements of the template. -/
theorem isScriptOf_template {wiring : Wiring} (small : IsSmall wiring) {settings : FirmwareSettings}
    (delay : settings.blinkDelay < waitBound) :
    ∃ conversion split, convert? (ofWiring wiring settings) = some conversion ∧
      split? (ofSketch (ofWiring wiring settings)) = some split ∧
      IsScriptOf wiring settings conversion split := by
  have fits := small.fits
  have noImport := isScript_template wiring settings
  have names := Context.hasScriptNames_harvest (Sketch.stripComments (ofWiring wiring settings))
  obtain ⟨body, defined, fresh, units⟩ := @exists_templateBlock wiring settings _ names fits
  rw [← tokenize_template] at defined
  obtain ⟨conversion, converted, context, noAnalog⟩ :
      ∃ conversion, convert? (ofWiring wiring settings) = some conversion ∧
        conversion.context = templateContext wiring ∧ conversion.usesAnalog = false :=
    ⟨_, convert?_of_block noImport defined, harvest_template fits settings,
      usesAnalog_template wiring settings⟩
  refine ⟨conversion, _, converted, split?_of_block noImport defined converted, ?_⟩
  refine
    { constants := by rw [context, ← constants_template]; rfl
      constantPins := by rw [context]; exact constantPins_template fits
      distinctNames := ?_
      noScriptConstants := by rw [context, scriptConstants_template fits]
      bindings := by rw [context]; rfl
      boundDefinitions := by rw [context]; exact boundDefinitions_template wiring
      distinctIdentifiers := by rw [context]; exact nodup_identifiers wiring
      noAnalog := ⟨noAnalog, by rw [context]; exact isAnalog_template⟩
      setup := rfl
      statements := ?_
      waits := sleepDuration?_sleepText delay }
  · have labels := (nodup_labels wiring).map PinLabel.name_injective
    rw [pinDefinitions_eq, List.map_map]
    rwa [List.map_map] at labels
  · have empty : body.statements.isEmpty = (wiring.leds.isEmpty && wiring.buttons.isEmpty) := by
      rw [← List.isEmpty_map, units, Bool.eq_iff_iff, Bool.and_eq_true, List.isEmpty_iff,
        List.isEmpty_iff, List.isEmpty_iff, loopUnits_eq_nil_iff]
    rw [Block.statements_unlines names fresh, empty, units]

/-- An LED, a button and two fans. -/
def sampleWiring : Wiring where
  family := none
  leds := [⟨some 13, none, 13⟩]
  buttons := [2]
  actuators := [⟨.fan, 3⟩, ⟨.fan, 3⟩]
  others := []

theorem isScriptOf_template_sample :
    ∃ conversion split, convert? (ofWiring sampleWiring {}) = some conversion ∧
      split? (ofSketch (ofWiring sampleWiring {})) = some split ∧
      statements split.body =
        ["led1.value(1)", "time.sleep_ms(1000)", "led1.value(0)", "time.sleep_ms(1000)",
          "button1State = button1.value()",
          "if button1State == 0:\n    print(\"Button 1 pressed!\")"].map String.toList := by
  have small : IsSmall sampleWiring :=
    ⟨by decide, by decide, fun kind => by cases kind <;> decide, by decide, by decide, by decide⟩
  have delay : ({} : FirmwareSettings).blinkDelay < waitBound := by decide
  obtain ⟨conversion, split, converted, cut, agrees⟩ := isScriptOf_template small delay
  exact ⟨conversion, split, converted, cut, agrees.statements.trans (by decide)⟩

end Breadboard.Script
