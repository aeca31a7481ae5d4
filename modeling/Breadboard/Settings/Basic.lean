set_option autoImplicit false

namespace Breadboard

/-- What is written into generated firmware; the delay is in milliseconds. -/
structure FirmwareSettings where
  serialBaud : Nat := 9600
  blinkDelay : Nat := 1000
  deriving DecidableEq, Repr

/-- The waits of the loop scheduler in milliseconds: after a statement that ran, and after one that
failed. -/
structure LoopSettings where
  statementDelay : Nat := 10
  errorBackoff : Nat := 100
  deriving DecidableEq, Repr

structure Settings where
  firmware : FirmwareSettings := {}
  loop : LoopSettings := {}
  deriving DecidableEq, Repr

end Breadboard
