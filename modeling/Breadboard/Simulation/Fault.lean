import Breadboard.Text.Basic

set_option autoImplicit false

namespace Breadboard.Simulation

inductive Fault where
  /-- An interpreter could not be loaded. -/
  | runtimeLoad (detail : Text)
  | execution (detail : Text)
  | compilation (detail : Text)
  | emulator (detail : Text)
  deriving DecidableEq, Repr

/-- The failure in words. Wordings nest where a failure causes another. -/
def Fault.message : Fault → Text
  | runtimeLoad detail => "Script runtime failed to load: ".toList ++ detail
  | execution detail => "Script execution failed: ".toList ++ detail
  | compilation detail => "Firmware compilation failed: ".toList ++ detail
  | emulator detail => "Emulator error: ".toList ++ detail

end Breadboard.Simulation
