import Breadboard.Proofs.Sketch.Comment
import Breadboard.Proofs.Sketch.Exchange
import Breadboard.Proofs.Sketch.PinLabel

set_option autoImplicit false

namespace Breadboard.Sketch

open Circuit (Wiring)

def wordToken (text : Text) : Token := ⟨.ident, text⟩

@[simp] theorem wordToken_text (text : Text) : (wordToken text).text = text := rfl

def markToken (text : String) : Token := ⟨.punct, text.toList⟩

def numberToken (n : Nat) : Token := ⟨.number, Text.ofNat n⟩

def oneBlank : Token := ⟨.space, [' ']⟩

/-- A call as a statement, with the tokens of its arguments. -/
def callCode (callee : List Token) (arguments : List Token) : List Token :=
  callee ++ markToken "(" :: arguments ++ [markToken ")", markToken ";"]

def serialMethod (method : String) : List Token :=
  [wordToken "Serial".toList, markToken ".", wordToken method.toList]

/-- Two arguments behind each other. -/
def twoWords (first : Text) (second : String) : List Token :=
  [wordToken first, markToken ",", oneBlank, wordToken second.toList]

def defineCode (labelled : LabelledPin) : List Token :=
  [markToken "#", wordToken "define".toList, oneBlank, wordToken labelled.label.name, oneBlank,
    numberToken labelled.pin]

def modeCode (mode : String) (labelled : LabelledPin) : List Token :=
  callCode [wordToken "pinMode".toList] (twoWords labelled.label.name mode)

def beginCode (baud : Nat) : List Token :=
  callCode (serialMethod "begin") [numberToken baud]

def writeCode (level : String) (labelled : LabelledPin) : List Token :=
  callCode [wordToken "digitalWrite".toList] (twoWords labelled.label.name level)

def delayCode (count : Nat) : List Token :=
  callCode [wordToken "delay".toList] [numberToken count]

/-- The variable that holds what was read from a button. -/
def PinLabel.state (label : PinLabel) : Text :=
  label.identifier ++ "State".toList

def readCode (labelled : LabelledPin) : List Token :=
  [wordToken "int".toList, oneBlank, wordToken labelled.label.state, oneBlank, markToken "=",
    oneBlank] ++ callCode [wordToken "digitalRead".toList] [wordToken labelled.label.name]

def pressedCondition (labelled : LabelledPin) : List Token :=
  [wordToken labelled.label.state, oneBlank, markToken "==", oneBlank, wordToken "LOW".toList]

def pressedCode (labelled : LabelledPin) : List Token :=
  [wordToken "if".toList, oneBlank, markToken "("] ++ pressedCondition labelled ++
    [markToken ")", oneBlank, markToken "\x7b"]

def pressedMessage (labelled : LabelledPin) : Text :=
  "\"Button ".toList ++ labelled.label.number ++ " pressed!\"".toList

def messageCode (labelled : LabelledPin) : List Token :=
  callCode (serialMethod "println") [⟨.literal, pressedMessage labelled⟩]

def functionCode (name : String) : List Token :=
  [wordToken "void".toList, oneBlank, wordToken name.toList, markToken "(", markToken ")", oneBlank,
    markToken "\x7b"]

def closingCode : List Token :=
  [markToken "\x7d"]

def codeRow (lead : String) (code : List Token) : Row :=
  ⟨lead.toList, code, [], none⟩

def remarkRow (lead : String) (remark : Text) : Row :=
  ⟨lead.toList, [], [], some remark⟩

def emptyRow : Row :=
  ⟨[], [], [], none⟩

@[simp] theorem codeRow_code (lead : String) (code : List Token) : (codeRow lead code).code = code := rfl

@[simp] theorem remarkRow_code (lead : String) (remark : Text) : (remarkRow lead remark).code = [] := rfl

@[simp] theorem emptyRow_code : emptyRow.code = [] := rfl

/-- Rows under a heading and before an empty row, or nothing at all. -/
def partRows (heading : Row) (rows : List Row) : List Row :=
  if rows.isEmpty then [] else heading :: rows ++ [emptyRow]

def actuatorModeRow (labelled : LabelledPin) : Row :=
  ⟨"  ".toList, modeCode "OUTPUT" labelled, "  ".toList, some (' ' :: labelled.label.role.prose)⟩

@[simp] theorem actuatorModeRow_code (labelled : LabelledPin) :
    (actuatorModeRow labelled).code = modeCode "OUTPUT" labelled := rfl

def setupRows (wiring : Wiring) (settings : FirmwareSettings) : List Row :=
  [remarkRow "  " " Initialize serial communication".toList,
    codeRow "  " (beginCode settings.serialBaud), emptyRow] ++
    partRows (remarkRow "  " " Setup LED pins as outputs".toList)
      ((ledPins wiring).map fun led => codeRow "  " (modeCode "OUTPUT" led)) ++
    partRows (remarkRow "  " " Setup button pins as inputs with pullup".toList)
      ((buttonPins wiring).map fun button => codeRow "  " (modeCode "INPUT_PULLUP" button)) ++
    partRows (remarkRow "  " " Setup actuator pins as outputs".toList)
      ((actuatorPins wiring).map actuatorModeRow)

def blinkRows (leds : List LabelledPin) (settings : FirmwareSettings) : List Row :=
  if leds.isEmpty then []
  else
    leds.map (fun led => codeRow "  " (writeCode "HIGH" led)) ++
      [codeRow "  " (delayCode settings.blinkDelay)] ++
      leds.map (fun led => codeRow "  " (writeCode "LOW" led)) ++
      [codeRow "  " (delayCode settings.blinkDelay)]

def buttonRows (button : LabelledPin) : List Row :=
  [codeRow "  " (readCode button), codeRow "  " (pressedCode button),
    codeRow "    " (messageCode button), codeRow "  " closingCode]

/-- The remarks that tell how to switch an actuator. -/
def actuatorRemarks (prose : Text) (definition : PinDefinition) : List Row :=
  [remarkRow "  "
      (" digitalWrite(".toList ++ definition.name ++ ", HIGH);  // Turn ON ".toList ++ prose),
    remarkRow "  "
      (" digitalWrite(".toList ++ definition.name ++ ", LOW);   // Turn OFF ".toList ++ prose)]

def loopRows (wiring : Wiring) (settings : FirmwareSettings) : List Row :=
  partRows (remarkRow "  " " Blink LED example".toList) (blinkRows (ledPins wiring) settings) ++
    partRows (remarkRow "  " " Read button states".toList) ((buttonPins wiring).flatMap buttonRows) ++
    partRows (remarkRow "  " " Control actuators example (uncomment to use)".toList)
      ((actuatorPins wiring).flatMap fun actuator =>
        actuatorRemarks actuator.label.role.prose actuator.definition)

/-- The rows before the loop's body, without the row that opens the loop. -/
def headRows (wiring : Wiring) (settings : FirmwareSettings) : List Row :=
  [remarkRow "" " Auto-generated code based on circuit design".toList,
    remarkRow "" " Modify as needed for your specific application".toList, emptyRow] ++
    partRows (remarkRow "" " Pin definitions".toList)
      ((labelledPins wiring).map fun labelled => codeRow "" (defineCode labelled)) ++
    [codeRow "" (functionCode "setup")] ++ setupRows wiring settings ++
    [codeRow "" closingCode, emptyRow]

def templateRows (wiring : Wiring) (settings : FirmwareSettings) : List Row :=
  headRows wiring settings ++ [codeRow "" (functionCode "loop")] ++ loopRows wiring settings ++
    [codeRow "" closingCode]

theorem part_eq {heading : String} {headingRow : Row} (headingText : heading.toList = headingRow.text)
    {lines : List Text} {rows : List Row} (same : lines.flatten = rows.flatMap Row.text)
    (none : lines = [] ↔ rows = []) :
    part heading lines = (partRows headingRow rows).flatMap Row.text := by
  have sameEmpty : lines.isEmpty = rows.isEmpty := by
    rw [Bool.eq_iff_iff, List.isEmpty_iff, List.isEmpty_iff, none]
  rw [part, partRows, sameEmpty]
  split
  · rfl
  · rw [headingText, same]
    simp [emptyRow, Row.text, Row.codeText]

theorem text_codeRow (lead : String) (code : List Token) :
    (codeRow lead code).text = lead.toList ++ (render code ++ ['\n']) := by
  rw [codeRow, Row.text, Row.codeText, List.append_nil, Option.map_none, Option.getD_none,
    List.append_nil, List.append_assoc]

theorem render_callCode (callee arguments : List Token) :
    render (callCode callee arguments) =
      render callee ++ ('(' :: (render arguments ++ [')', ';'])) := by
  rw [callCode, render_append, render_append, render_cons, List.append_assoc]
  rfl

theorem render_twoWords (first : Text) (second : String) :
    render (twoWords first second) = first ++ (',' :: ' ' :: second.toList) := by
  rw [twoWords, render_cons, render_cons, render_cons, render_cons, render_nil, List.append_nil]
  rfl

theorem text_defineRow (labelled : LabelledPin) :
    (codeRow "" (defineCode labelled)).text = defineLine labelled.definition := by
  unfold defineLine
  simp only [text_codeRow, defineCode, render_cons, render_nil, List.append_nil, List.append_assoc]
  rfl

theorem text_modeRow (mode : String) (labelled : LabelledPin) :
    (codeRow "  " (modeCode mode labelled)).text = modeLine mode labelled.definition ++ ['\n'] := by
  unfold modeLine
  simp only [text_codeRow, modeCode, render_callCode, render_twoWords, List.append_assoc,
    List.cons_append]
  rfl

theorem text_actuatorModeRow (labelled : LabelledPin) :
    (actuatorModeRow labelled).text =
      modeLine "OUTPUT" labelled.definition ++ "  // ".toList ++ labelled.label.role.prose ++
        ['\n'] := by
  unfold modeLine
  simp only [actuatorModeRow, Row.text, Row.codeText, modeCode, render_callCode, render_twoWords,
    List.append_assoc, List.cons_append]
  rfl

theorem text_writeRow (level : String) (labelled : LabelledPin) :
    (codeRow "  " (writeCode level labelled)).text = writeLine level labelled.definition := by
  unfold writeLine
  simp only [text_codeRow, writeCode, render_callCode, render_twoWords, List.append_assoc,
    List.cons_append]
  rfl

theorem text_delayRow (settings : FirmwareSettings) :
    (codeRow "  " (delayCode settings.blinkDelay)).text = delayLine settings := by
  unfold delayLine
  simp only [text_codeRow, delayCode, render_callCode, render_cons, render_nil, List.append_assoc,
    List.cons_append, List.append_nil]
  rfl

theorem text_buttonRows (index pin : Nat) :
    (buttonRows ⟨⟨.button, some (index + 1)⟩, pin⟩).flatMap Row.text =
      buttonLines index (LabelledPin.definition ⟨⟨.button, some (index + 1)⟩, pin⟩) := by
  unfold buttonLines
  simp only [buttonRows, List.flatMap_cons, List.flatMap_nil, text_codeRow, readCode, pressedCode,
    pressedCondition, messageCode, closingCode, render_callCode, serialMethod, render_append,
    render_cons, render_nil, List.append_assoc, List.cons_append, List.append_nil,
    PinLabel.state, PinLabel.identifier, PinLabel.number, wordToken_text]
  unfold pressedMessage
  simp only [List.append_assoc]
  rfl

theorem text_remarkRow (lead : String) (remark : Text) :
    (remarkRow lead remark).text = lead.toList ++ ('/' :: '/' :: (remark ++ ['\n'])) := by
  simp [remarkRow, Row.text, Row.codeText]

theorem text_actuatorRemarks (kind : Circuit.Actuator) (definition : PinDefinition) :
    (actuatorRemarks kind.friendlyName definition).flatMap Row.text =
      actuatorLines kind definition := by
  unfold actuatorLines
  simp only [actuatorRemarks, List.flatMap_cons, List.flatMap_nil, text_remarkRow,
    List.append_assoc, List.append_nil, List.cons_append]
  rfl

theorem flatten_map_text {α : Type} (row : α → Row) (text : α → Text)
    (same : ∀ a, (row a).text = text a) (l : List α) :
    (l.map text).flatten = (l.map row).flatMap Row.text := by
  rw [List.flatMap_map, ← List.flatMap_def]
  exact congrArg (l.flatMap ·) (funext fun a => (same a).symm)

theorem part_actuatorModes (wiring : Wiring) :
    part "  // Setup actuator pins as outputs\n"
      ((actuatorDefinitions wiring).map fun (kind, definition) =>
        modeLine "OUTPUT" definition ++ "  // ".toList ++ kind.friendlyName ++ ['\n']) =
      (partRows (remarkRow "  " " Setup actuator pins as outputs".toList)
        ((actuatorPins wiring).map actuatorModeRow)).flatMap Row.text := by
  have both := congrArg (List.map fun pair : Text × PinDefinition =>
    modeLine "OUTPUT" pair.2 ++ "  // ".toList ++ pair.1 ++ ['\n']) (actuatorDefinitions_eq wiring)
  rw [List.map_map, List.map_map] at both
  refine part_eq rfl ?_ (by rw [List.map_eq_nil_iff, List.map_eq_nil_iff, actuatorDefinitions,
    actuatorPins, List.mapIdx_eq_nil_iff, List.mapIdx_eq_nil_iff])
  refine Eq.trans (congrArg List.flatten both) ?_
  exact flatten_map_text _ _ text_actuatorModeRow _

theorem text_setupRows (wiring : Wiring) (settings : FirmwareSettings) :
    (setupRows wiring settings).flatMap Row.text = setupBody wiring settings := by
  have leds : part "  // Setup LED pins as outputs\n"
      ((ledDefinitions wiring).map fun led => modeLine "OUTPUT" led ++ ['\n']) =
      (partRows (remarkRow "  " " Setup LED pins as outputs".toList)
        ((ledPins wiring).map fun led => codeRow "  " (modeCode "OUTPUT" led))).flatMap Row.text := by
    rw [ledDefinitions_eq, List.map_map]
    refine part_eq rfl ?_ (by simp)
    exact flatten_map_text _ _ (text_modeRow "OUTPUT") _
  have buttons : part "  // Setup button pins as inputs with pullup\n"
      ((buttonDefinitions wiring).map fun button => modeLine "INPUT_PULLUP" button ++ ['\n']) =
      (partRows (remarkRow "  " " Setup button pins as inputs with pullup".toList)
        ((buttonPins wiring).map fun button =>
          codeRow "  " (modeCode "INPUT_PULLUP" button))).flatMap Row.text := by
    rw [buttonDefinitions_eq, List.map_map]
    refine part_eq rfl ?_ (by simp)
    exact flatten_map_text _ _ (text_modeRow "INPUT_PULLUP") _
  unfold setupBody
  rw [leds, buttons, part_actuatorModes]
  unfold setupRows
  simp only [List.flatMap_append, List.flatMap_cons, List.flatMap_nil, text_codeRow, text_remarkRow,
    beginCode, render_callCode, serialMethod, render_cons, render_nil, List.append_assoc,
    List.append_nil, List.cons_append]
  rfl

theorem text_blinkRows (leds : List LabelledPin) (settings : FirmwareSettings) :
    (blinkRows leds settings).flatMap Row.text =
      (blinkLines (leds.map LabelledPin.definition) settings).flatten := by
  rw [blinkRows, blinkLines, List.isEmpty_map]
  split
  · rfl
  · have high := flatten_map_text _ _ (text_writeRow "HIGH") leds
    have low := flatten_map_text _ _ (text_writeRow "LOW") leds
    simp only [List.flatMap_append, List.flatMap_cons, List.flatMap_nil, List.flatten_append,
      List.map_map, List.flatten_cons, List.flatten_nil, text_delayRow]
    rw [← high, ← low]
    rfl

theorem part_actuatorRemarks (wiring : Wiring) :
    part "  // Control actuators example (uncomment to use)\n"
      ((actuatorDefinitions wiring).map fun (kind, definition) => actuatorLines kind definition) =
      (partRows (remarkRow "  " " Control actuators example (uncomment to use)".toList)
        ((actuatorPins wiring).flatMap fun actuator =>
          actuatorRemarks actuator.label.role.prose actuator.definition)).flatMap Row.text := by
  have both := congrArg (List.map fun pair : Text × PinDefinition =>
    (actuatorRemarks pair.1 pair.2).flatMap Row.text) (actuatorDefinitions_eq wiring)
  rw [List.map_map, List.map_map] at both
  have lines : (actuatorDefinitions wiring).map (fun pair => actuatorLines pair.1 pair.2) =
      (actuatorPins wiring).map fun actuator =>
        (actuatorRemarks actuator.label.role.prose actuator.definition).flatMap Row.text := by
    refine Eq.trans (List.map_congr_left fun pair _ => ?_) both
    exact (text_actuatorRemarks pair.1 pair.2).symm
  refine part_eq rfl ?_ ?_
  · rw [List.flatMap_assoc, List.flatMap_def]
    exact congrArg List.flatten lines
  · rw [List.map_eq_nil_iff, actuatorDefinitions, actuatorPins, List.mapIdx_eq_nil_iff]
    cases wiring.actuators <;> simp [actuatorRemarks]

theorem text_loopRows (wiring : Wiring) (settings : FirmwareSettings) :
    (loopRows wiring settings).flatMap Row.text = loopBody wiring settings := by
  have blink : part "  // Blink LED example\n" (blinkLines (ledDefinitions wiring) settings) =
      (partRows (remarkRow "  " " Blink LED example".toList)
        (blinkRows (ledPins wiring) settings)).flatMap Row.text := by
    rw [ledDefinitions_eq]
    refine part_eq rfl (text_blinkRows _ _).symm ?_
    rw [blinkRows, blinkLines, List.isEmpty_map]
    split <;> simp
  have buttons : part "  // Read button states\n" ((buttonDefinitions wiring).mapIdx buttonLines) =
      (partRows (remarkRow "  " " Read button states".toList)
        ((buttonPins wiring).flatMap buttonRows)).flatMap Row.text := by
    have lines : (buttonDefinitions wiring).mapIdx buttonLines =
        (buttonPins wiring).map fun button => (buttonRows button).flatMap Row.text := by
      rw [buttonDefinitions, countedDefinitions, buttonPins, countedPins, map_mapIdx,
        List.mapIdx_mapIdx]
      refine congrArg (wiring.buttons.mapIdx ·) (funext fun index => funext fun pin => ?_)
      exact (text_buttonRows index pin).symm
    rw [lines]
    refine part_eq rfl (by rw [List.flatMap_assoc, List.flatMap_def]) ?_
    cases buttonPins wiring <;> simp [buttonRows]
  unfold loopBody
  rw [blink, buttons, part_actuatorRemarks]
  unfold loopRows
  simp only [List.flatMap_append, List.append_assoc]

/-- The sketch is the text of its rows. -/
theorem ofWiring_eq (wiring : Wiring) (settings : FirmwareSettings) :
    ofWiring wiring settings = (templateRows wiring settings).flatMap Row.text := by
  have constants : part "// Pin definitions\n" ((pinDefinitions wiring).map defineLine) =
      (partRows (remarkRow "" " Pin definitions".toList)
        ((labelledPins wiring).map fun labelled =>
          codeRow "" (defineCode labelled))).flatMap Row.text := by
    rw [pinDefinitions_eq, List.map_map]
    refine part_eq rfl ?_ (by simp)
    exact flatten_map_text _ _ text_defineRow _
  unfold ofWiring
  rw [constants, ← text_setupRows, ← text_loopRows]
  unfold templateRows headRows
  simp only [List.flatMap_append, List.flatMap_cons, List.flatMap_nil, text_codeRow, text_remarkRow,
    closingCode, functionCode, render_cons, render_nil, List.append_assoc, List.append_nil,
    List.cons_append]
  rfl

end Breadboard.Sketch
