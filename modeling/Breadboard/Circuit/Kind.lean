import Breadboard.Text.Basic

set_option autoImplicit false

namespace Breadboard.Circuit

/-- How the firmware of a board is run: AVR boards run compiled programs, ESP32 boards scripts. -/
inductive Family where
  | avr
  | esp32
  deriving DecidableEq, Repr

inductive BoardModel where
  | arduinoUno
  | esp32DevkitV1
  | handySensePro
  | customEsp32
  deriving DecidableEq, Repr

inductive Actuator where
  | mistingPump
  | waterPump
  | fan
  deriving DecidableEq, Repr

/-- A part with no kind of its own is kept by its tag. -/
inductive Kind where
  | board (model : BoardModel)
  | led
  | pushbutton
  | actuator (kind : Actuator)
  | other (tag : Text)
  deriving DecidableEq, Repr

namespace BoardModel

def family : BoardModel → Family
  | arduinoUno => .avr
  | esp32DevkitV1 | handySensePro | customEsp32 => .esp32

def tag : BoardModel → Text
  | arduinoUno => "arduino_uno".toList
  | esp32DevkitV1 => "esp32_devkit_v1".toList
  | handySensePro => "handysense_pro".toList
  | customEsp32 => "custom_esp32".toList

end BoardModel

namespace Actuator

def tag : Actuator → Text
  | mistingPump => "misting_pump".toList
  | waterPump => "water_pump".toList
  | fan => "fan".toList

/-- The start of the name of the pin constant in generated firmware. -/
def constantName (actuator : Actuator) : Text :=
  actuator.tag.map Char.toUpper

/-- The name in prose. -/
def friendlyName (actuator : Actuator) : Text :=
  actuator.tag.map fun c => if c = '_' then ' ' else c

end Actuator

namespace Kind

def tag : Kind → Text
  | board model => model.tag
  | led => "led".toList
  | pushbutton => "pushbutton".toList
  | actuator kind => kind.tag
  | other tag => tag

/-- The kinds with a tag of their own, by tag and by the name of the diagram editor's element. -/
def names : List (String × String × Kind) :=
  [("arduino_uno", "ArduinoUnoElement", board .arduinoUno),
    ("esp32_devkit_v1", "ESP32DevkitV1Element", board .esp32DevkitV1),
    ("handysense_pro", "HandysenseProBoardElement", board .handySensePro),
    ("custom_esp32", "CustomESP32BoardElement", board .customEsp32),
    ("led", "LEDElement", led),
    ("pushbutton", "PushbuttonElement", pushbutton),
    ("misting_pump", "MistingPumpElement", actuator .mistingPump),
    ("water_pump", "WaterPumpElement", actuator .waterPump),
    ("fan", "FanElement", actuator .fan)]

/-- The kind that a tag or an element's name stands for. -/
def ofTag (text : Text) : Kind :=
  match names.find? fun (tag, element, _) => tag.toList == text || element.toList == text with
  | some (_, _, kind) => kind
  | none => other text

def isKnown : Kind → Bool
  | other _ => false
  | _ => true

/-- The family of a board, none for a part that is no board. -/
def family? : Kind → Option Family
  | board model => some model.family
  | _ => none

def isBoard (kind : Kind) : Bool :=
  kind.family?.isSome

end Kind

/-- What a part at the other end of a board's wire contributes. -/
inductive PeripheralClass where
  | led
  | button
  | actuator (kind : Actuator)
  | generic
  deriving DecidableEq, Repr

def Kind.peripheralClass : Kind → PeripheralClass
  | led => .led
  | pushbutton => .button
  | actuator kind => .actuator kind
  | board _ | other _ => .generic

end Breadboard.Circuit
