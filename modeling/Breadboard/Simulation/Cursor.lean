import Breadboard.Script.Loop
import Breadboard.Settings.Basic
import Breadboard.Simulation.Fault

set_option autoImplicit false

namespace Breadboard.Simulation

/-- Runs code at a time in milliseconds. A failure too can leave effects behind. -/
abbrev Run (σ : Type) := Nat → Text → σ → Except Fault Unit × σ

structure LoopCursor where
  statements : List Text
  index : Nat
  settings : LoopSettings
  deriving DecidableEq, Repr

namespace LoopCursor

variable {σ : Type}

def start (settings : LoopSettings) (statements : List Text) : LoopCursor :=
  ⟨statements, 0, settings⟩

/-- The position after the current one; behind the last statement comes the first. -/
def next (cursor : LoopCursor) : LoopCursor :=
  { cursor with index := (cursor.index + 1) % cursor.statements.length }

/-- Takes one statement: the wait after it, the next position, and the state of what runs it. A pure
wait runs nothing. A statement that fails is passed over. -/
def step (run : Run σ) (now : Nat) (cursor : LoopCursor) (world : σ) : Nat × LoopCursor × σ :=
  match cursor.statements[cursor.index]? with
  | none => (cursor.settings.errorBackoff, cursor, world)
  | some statement =>
    match Script.sleepDuration? statement with
    | some wait => (wait, cursor.next, world)
    | none =>
      match run now statement world with
      | (.ok (), after) => (cursor.settings.statementDelay, cursor.next, after)
      | (.error _, after) => (cursor.settings.errorBackoff, cursor.next, after)

end LoopCursor

end Breadboard.Simulation
