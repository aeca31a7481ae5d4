import Breadboard.Circuit.Diagram
import Breadboard.Text.Numeral

set_option autoImplicit false

namespace Breadboard.Circuit

/-- The pin number of the first analog input. -/
def analogBase : Nat := 14

/-- The pin of an analog port such as `A0`. -/
def analogPort? (port : Text) : Option Nat := do
  let index ← Text.pinNumber? (← ['A'].isPrefixOf? port)
  if analogBase + index < Text.pinBound then some (analogBase + index) else none

/-- The pin of a port whose name is the word and a number. -/
def numberedPort? (word : String) (port : Text) : Option Nat := do
  Text.pinNumber? (← word.toList.isPrefixOf? port)

/-- The pin number behind a port's name, none for power, ground and bus ports. -/
def Family.resolvePort? (family : Family) (port : Text) : Option Nat :=
  match family with
  | .avr => Text.pinNumber? port <|> analogPort? port
  | .esp32 =>
    numberedPort? "IO" port <|> numberedPort? "D" port <|> Text.pinNumber? port <|>
      analogPort? port

/-- A wire between a board and a part that is no board. -/
structure Link where
  family : Family
  board : Component
  boardPort : Text
  peripheral : Component
  peripheralPort : Text
  deriving DecidableEq, Repr

namespace Link

/-- The board's pin, none for ground pins and ports without a number. -/
def pin? (link : Link) : Option Nat :=
  if (link.board.pin? link.boardPort).any Pin.isGround then none
  else link.family.resolvePort? link.boardPort

def peripheralClass (link : Link) : PeripheralClass :=
  link.peripheral.kind.peripheralClass

end Link

/-- The link that a wire makes. Wires between two boards or between two other parts make none. -/
def Wire.link? (wire : Wire) : Option Link :=
  match wire.first.kind.family?, wire.second.kind.family? with
  | some family, none => some ⟨family, wire.first, wire.firstPort, wire.second, wire.secondPort⟩
  | none, some family => some ⟨family, wire.second, wire.secondPort, wire.first, wire.firstPort⟩
  | _, _ => none

/-- The links of a diagram in the order of its connections. -/
def Diagram.links (diagram : Diagram) : List Link :=
  diagram.wires.filterMap Wire.link?

end Breadboard.Circuit
