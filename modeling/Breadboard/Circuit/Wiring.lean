import Breadboard.Circuit.Board

set_option autoImplicit false

namespace Breadboard.Circuit

structure Led where
  anode : Option Nat
  cathode : Option Nat
  /-- The pin that drives the LED. -/
  pin : Nat
  deriving DecidableEq, Repr

structure ActuatorEntry where
  kind : Actuator
  pin : Nat
  deriving DecidableEq, Repr

/-- A part that is wired to a pin and has no template. -/
structure GenericEntry where
  tag : Text
  port : Text
  pin : Nat
  deriving DecidableEq, Repr

structure Wiring where
  family : Option Family
  leds : List Led
  buttons : List Nat
  actuators : List ActuatorEntry
  others : List GenericEntry
  deriving DecidableEq, Repr

/-- An LED of which the wires seen so far tell one terminal or both. -/
structure PartialLed where
  anode : Option Nat
  cathode : Option Nat
  deriving DecidableEq, Repr

namespace PartialLed

def unwired : PartialLed := ⟨none, none⟩

/-- Whether one of the terminals is at the pin. A wire to no pin touches an open terminal. -/
def touches (led : PartialLed) (pin : Option Nat) : Bool :=
  led.anode == pin || led.cathode == pin

/-- The LED after a wire from its port to the pin. -/
def attach (led : PartialLed) (port : Text) (pin : Option Nat) : PartialLed :=
  if port = "A".toList then { led with anode := pin }
  else if port = "C".toList then { led with cathode := pin }
  else led

/-- An LED is driven through its anode. -/
def finish? (led : PartialLed) : Option Led :=
  led.anode.map fun pin => ⟨led.anode, led.cathode, pin⟩

end PartialLed

/-- Attaches a wire to the first LED that touches its pin, or to a new one. -/
def attachLed (port : Text) (pin : Option Nat) : List PartialLed → List PartialLed
  | [] => [PartialLed.unwired.attach port pin]
  | led :: rest =>
    if led.touches pin then led.attach port pin :: rest else led :: attachLed port pin rest

/-- The list with the entry at its end, unless it holds the entry already. -/
def insertNew {α : Type} [BEq α] (entries : List α) (entry : α) : List α :=
  if entries.contains entry then entries else entries ++ [entry]

/-- The wiring while links are added. -/
structure PartialWiring where
  family : Option Family
  leds : List PartialLed
  buttons : List Nat
  actuators : List ActuatorEntry
  others : List GenericEntry
  deriving DecidableEq, Repr

namespace PartialWiring

def empty : PartialWiring := ⟨none, [], [], [], []⟩

def addPeripheral (soFar : PartialWiring) (link : Link) : PartialWiring :=
  match link.peripheralClass, link.pin? with
  | .led, pin => { soFar with leds := attachLed link.peripheralPort pin soFar.leds }
  | .button, some pin => { soFar with buttons := insertNew soFar.buttons pin }
  | .actuator kind, some pin =>
    if link.peripheralPort = "SIG".toList then
      { soFar with actuators := insertNew soFar.actuators ⟨kind, pin⟩ }
    else soFar
  | .generic, some pin =>
    { soFar with
      others := insertNew soFar.others ⟨link.peripheral.kind.tag, link.peripheralPort, pin⟩ }
  | _, none => soFar

/-- The first link decides the family. -/
def add (soFar : PartialWiring) (link : Link) : PartialWiring :=
  { soFar with family := soFar.family <|> some link.family }.addPeripheral link

def finish (soFar : PartialWiring) : Wiring :=
  { family := soFar.family
    leds := soFar.leds.filterMap PartialLed.finish?
    buttons := soFar.buttons
    actuators := soFar.actuators
    others := soFar.others }

end PartialWiring

namespace Wiring

def empty : Wiring := ⟨none, [], [], [], []⟩

def ofLinks (links : List Link) : Wiring :=
  (links.foldl PartialWiring.add PartialWiring.empty).finish

/-- Whether no part has a template. -/
def isEmpty (wiring : Wiring) : Bool :=
  wiring.leds.isEmpty && wiring.buttons.isEmpty && wiring.actuators.isEmpty

def actuatorCount (wiring : Wiring) (kind : Actuator) : Nat :=
  wiring.actuators.countP (·.kind == kind)

end Wiring

def Diagram.wiring (diagram : Diagram) : Wiring :=
  Wiring.ofLinks diagram.links

end Breadboard.Circuit
