import Breadboard.Circuit.Board

set_option autoImplicit false

namespace Breadboard.Simulation

inductive Port where
  | b
  | c
  | d
  deriving DecidableEq, Repr

namespace Port

def all : List Port := [b, c, d]

/-- The name of the board's port behind a bit, none for a bit that is not led out. -/
def portName? (port : Port) (bit : Nat) : Option Text :=
  match port with
  | b => if bit ≤ 5 then some (Text.ofNat (8 + bit)) else none
  | c => if bit ≤ 5 then some ('A' :: Text.ofNat bit) else none
  | d => if bit ≤ 7 then some (Text.ofNat bit) else none

def pin? (port : Port) (bit : Nat) : Option Nat :=
  (port.portName? bit).bind Circuit.Family.avr.resolvePort?

/-- The bits that are led out, with their pins. -/
def pinMap (port : Port) : List (Nat × Nat) :=
  (List.range 8).filterMap fun bit => (port.pin? bit).map fun pin => (bit, pin)

end Port

end Breadboard.Simulation
