import Breadboard.Text.Basic
import Std.Data.TreeMap

set_option autoImplicit false

namespace Breadboard.Simulation

inductive PinMode where
  | input
  | inputPullUp
  | output
  deriving DecidableEq, Repr

/-- The mode that the script's codes for mode and pull stand for. -/
def PinMode.ofCodes (mode pull : Int) : PinMode :=
  if mode = 1 then .output else if pull = 2 then .inputPullUp else .input

/-- The range of an analog input in decibels of attenuation. -/
inductive Attenuation where
  | db0
  | db2_5
  | db6
  | db11
  deriving DecidableEq, Repr

def Attenuation.ofCode? (code : Int) : Option Attenuation :=
  if code = 0 then some .db0
  else if code = 1 then some .db2_5
  else if code = 2 then some .db6
  else if code = 3 then some .db11
  else none

structure PinState where
  mode : PinMode
  level : Bool
  deriving DecidableEq, Repr

/-- A pin starts as an input at low level. -/
def PinState.initial : PinState := ⟨.input, false⟩

/-- The pins of the ESP32 boards. -/
def esp32Pins : List Nat :=
  [2, 4, 5, 12, 13, 14, 15, 16, 17, 18, 19, 21, 22, 23, 25, 26, 27, 32, 33]

/-- The largest reading of a 12-bit converter. -/
def largestReading : Nat := 4095

/-- Larger duties of a pulse-width signal count as high. -/
def dutyThreshold : Nat := 512

/-- A call of a listener: the listener's label, the pin and the level. -/
structure Notification (α : Type) where
  label : α
  pin : Nat
  level : Bool
  deriving DecidableEq, Repr

/-- Pins with listeners that are told apart by labels. `calls` holds the calls of listeners in their
order. -/
structure Pins (α : Type) where
  states : Std.TreeMap Nat PinState
  readings : Std.TreeMap Nat Nat
  attenuations : Std.TreeMap Nat Attenuation
  listeners : Std.TreeMap Nat α
  calls : List (Notification α)

namespace Pins

variable {α : Type}

def ofList (pins : List Nat) : Pins α :=
  { states := pins.foldl (fun states pin => states.insert pin .initial) ∅
    readings := ∅
    attenuations := ∅
    listeners := ∅
    calls := [] }

def numbers (pins : Pins α) : List Nat :=
  pins.states.keys

def state? (pins : Pins α) (pin : Nat) : Option PinState :=
  pins.states[pin]?

/-- The level of a pin, low for a pin that is not there. -/
def value (pins : Pins α) (pin : Nat) : Bool :=
  (pins.state? pin).any (·.level)

/-- The converter's reading, zero before any is set. -/
def reading (pins : Pins α) (pin : Nat) : Nat :=
  pins.readings.getD pin 0

def attenuation? (pins : Pins α) (pin : Nat) : Option Attenuation :=
  pins.attenuations[pin]?

/-- Changes the state of a pin that is there. -/
def update (pins : Pins α) (pin : Nat) (change : PinState → PinState) : Pins α :=
  match pins.state? pin with
  | none => pins
  | some state => { pins with states := pins.states.insert pin (change state) }

def configure (pins : Pins α) (pin : Nat) (mode : PinMode) : Pins α :=
  pins.update pin fun state => { state with mode }

/-- Sets the level of a pin and calls its listener. -/
def drive (pins : Pins α) (pin : Nat) (level : Bool) : Pins α :=
  match pins.state? pin with
  | none => pins
  | some state =>
    { pins with
      states := pins.states.insert pin { state with level }
      calls := pins.calls ++ (pins.listeners[pin]?.map fun label => ⟨label, pin, level⟩).toList }

/-- Sets the level of an input from outside. No listener is called, and outputs stay as they are. -/
def setInput (pins : Pins α) (pin : Nat) (level : Bool) : Pins α :=
  pins.update pin fun state => if state.mode = .output then state else { state with level }

/-- Sets what the converter reads from now on. -/
def setReading (pins : Pins α) (pin reading : Nat) : Pins α :=
  { pins with readings := pins.readings.insert pin (min reading largestReading) }

def attenuate (pins : Pins α) (pin : Nat) (attenuation : Attenuation) : Pins α :=
  { pins with attenuations := pins.attenuations.insert pin attenuation }

/-- Gives a pin its listener in place of any before. -/
def listen (pins : Pins α) (pin : Nat) (label : α) : Pins α :=
  { pins with listeners := pins.listeners.insert pin label }

def clearListeners (pins : Pins α) : Pins α :=
  { pins with listeners := ∅ }

/-- The pins without the calls so far. -/
def forgetCalls (pins : Pins α) : Pins α :=
  { pins with calls := [] }

end Pins

/-- What can be done to pins. -/
inductive PinOperation (α : Type) where
  | configure (pin : Nat) (mode : PinMode)
  | setValue (pin : Nat) (level : Bool)
  | setDuty (pin duty : Nat)
  | setInput (pin : Nat) (level : Bool)
  | setReading (pin reading : Nat)
  | attenuate (pin : Nat) (attenuation : Attenuation)
  | listen (pin : Nat) (label : α)
  | clearListeners
  deriving DecidableEq, Repr

def Pins.apply {α : Type} (pins : Pins α) : PinOperation α → Pins α
  | .configure pin mode => pins.configure pin mode
  | .setValue pin level => pins.drive pin level
  | .setDuty pin duty => pins.drive pin (duty > dutyThreshold)
  | .setInput pin level => pins.setInput pin level
  | .setReading pin reading => pins.setReading pin reading
  | .attenuate pin attenuation => pins.attenuate pin attenuation
  | .listen pin label => pins.listen pin label
  | .clearListeners => pins.clearListeners

end Breadboard.Simulation
