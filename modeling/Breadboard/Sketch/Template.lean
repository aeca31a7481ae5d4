import Breadboard.Circuit.Wiring
import Breadboard.Settings.Basic

set_option autoImplicit false

namespace Breadboard.Sketch

open Circuit (Wiring Actuator ActuatorEntry)

/-- A pin constant of the generated sketch. -/
structure PinDefinition where
  name : Text
  pin : Nat
  deriving DecidableEq, Repr

/-- Constants for pins counted from one. -/
def countedDefinitions (word : String) (pins : List Nat) : List PinDefinition :=
  pins.mapIdx fun index pin => ⟨word.toList ++ Text.ofNat (index + 1), pin⟩

def ledDefinitions (wiring : Wiring) : List PinDefinition :=
  countedDefinitions "LED_PIN_" (wiring.leds.map (·.pin))

def buttonDefinitions (wiring : Wiring) : List PinDefinition :=
  countedDefinitions "BUTTON_PIN_" wiring.buttons

/-- The constants of the actuators. Those of a kind that occurs more than once are counted. -/
def actuatorDefinitions (wiring : Wiring) : List (Actuator × PinDefinition) :=
  wiring.actuators.mapIdx fun index entry =>
    let base := entry.kind.constantName ++ "_PIN".toList
    let ordinal := (wiring.actuators.take (index + 1)).countP (·.kind == entry.kind)
    let name :=
      if wiring.actuatorCount entry.kind > 1 then base ++ '_' :: Text.ofNat ordinal else base
    (entry.kind, ⟨name, entry.pin⟩)

/-- All pin constants in the order in which they are written. -/
def pinDefinitions (wiring : Wiring) : List PinDefinition :=
  ledDefinitions wiring ++ buttonDefinitions wiring ++ (actuatorDefinitions wiring).map Prod.snd

/-- Lines under a heading and with an empty line behind them, or nothing at all. -/
def part (heading : String) (lines : List Text) : Text :=
  if lines.isEmpty then [] else heading.toList ++ lines.flatten ++ ['\n']

def defineLine (definition : PinDefinition) : Text :=
  "#define ".toList ++ definition.name ++ [' '] ++ Text.ofNat definition.pin ++ ['\n']

def modeLine (mode : String) (definition : PinDefinition) : Text :=
  "  pinMode(".toList ++ definition.name ++ ", ".toList ++ mode.toList ++ ");".toList

def setupBody (wiring : Wiring) (settings : FirmwareSettings) : Text :=
  "  // Initialize serial communication\n".toList ++
    "  Serial.begin(".toList ++ Text.ofNat settings.serialBaud ++ ");\n\n".toList ++
    part "  // Setup LED pins as outputs\n"
      ((ledDefinitions wiring).map fun led => modeLine "OUTPUT" led ++ ['\n']) ++
    part "  // Setup button pins as inputs with pullup\n"
      ((buttonDefinitions wiring).map fun button => modeLine "INPUT_PULLUP" button ++ ['\n']) ++
    part "  // Setup actuator pins as outputs\n"
      ((actuatorDefinitions wiring).map fun (kind, definition) =>
        modeLine "OUTPUT" definition ++ "  // ".toList ++ kind.friendlyName ++ ['\n'])

def writeLine (level : String) (definition : PinDefinition) : Text :=
  "  digitalWrite(".toList ++ definition.name ++ ", ".toList ++ level.toList ++ ");\n".toList

def delayLine (settings : FirmwareSettings) : Text :=
  "  delay(".toList ++ Text.ofNat settings.blinkDelay ++ ");\n".toList

/-- All LEDs on, a delay, all LEDs off, a delay. -/
def blinkLines (leds : List PinDefinition) (settings : FirmwareSettings) : List Text :=
  if leds.isEmpty then []
  else
    leds.map (writeLine "HIGH") ++ [delayLine settings] ++
      leds.map (writeLine "LOW") ++ [delayLine settings]

/-- Reads a button and reports that it is pressed. -/
def buttonLines (index : Nat) (button : PinDefinition) : Text :=
  let number := Text.ofNat (index + 1)
  "  int button".toList ++ number ++ "State = digitalRead(".toList ++ button.name ++
    ");\n".toList ++
    "  if (button".toList ++ number ++ "State == LOW) \x7b\n".toList ++
    "    Serial.println(\"Button ".toList ++ number ++ " pressed!\");\n".toList ++
    "  \x7d\n".toList

/-- Commented statements that switch an actuator. -/
def actuatorLines (kind : Actuator) (definition : PinDefinition) : Text :=
  "  // digitalWrite(".toList ++ definition.name ++ ", HIGH);  // Turn ON ".toList ++
    kind.friendlyName ++ ['\n'] ++
    "  // digitalWrite(".toList ++ definition.name ++ ", LOW);   // Turn OFF ".toList ++
    kind.friendlyName ++ ['\n']

def loopBody (wiring : Wiring) (settings : FirmwareSettings) : Text :=
  part "  // Blink LED example\n" (blinkLines (ledDefinitions wiring) settings) ++
    part "  // Read button states\n" ((buttonDefinitions wiring).mapIdx buttonLines) ++
    part "  // Control actuators example (uncomment to use)\n"
      ((actuatorDefinitions wiring).map fun (kind, definition) => actuatorLines kind definition)

/-- The generated sketch. -/
def ofWiring (wiring : Wiring) (settings : FirmwareSettings) : Text :=
  "// Auto-generated code based on circuit design\n".toList ++
    "// Modify as needed for your specific application\n\n".toList ++
    part "// Pin definitions\n" ((pinDefinitions wiring).map defineLine) ++
    "void setup() \x7b\n".toList ++ setupBody wiring settings ++ "\x7d\n\n".toList ++
    "void loop() \x7b\n".toList ++ loopBody wiring settings ++ "\x7d\n".toList

end Breadboard.Sketch
