import Breadboard.Simulation.Pins
import Breadboard.Simulation.Prelude
import Breadboard.Simulation.Scheduler

set_option autoImplicit false

namespace Breadboard.Simulation

/-- What code can change: the interpreter, the pins and the world around. -/
structure Machine (ι ω α : Type) where
  interpreter : ι
  pins : Pins α
  world : ω

/-- A kind of interpreter with instances in `ι` in a world `ω`. -/
structure Engine (ι ω α : Type) where
  /-- Makes a fresh instance. -/
  load : ω → Except Fault ι × ω
  run : Run (Machine ι ω α)

/-- Interpreters are named by their place in the order of loading. `current` runs the scripts that
come next, `looping` the loop of the scheduler. -/
structure Runner (ι ω α : Type) where
  engine : Engine ι ω α
  pins : Pins α
  world : ω
  interpreters : List ι
  current : Option Nat
  looping : Nat
  scheduler : Scheduler

namespace Runner

variable {ι ω α : Type}

def start (engine : Engine ι ω α) (pins : Pins α) (world : ω) (settings : LoopSettings) :
    Runner ι ω α :=
  { engine, pins, world
    interpreters := []
    current := none
    looping := 0
    scheduler := .ofSettings settings }

def isInitialized (runner : Runner ι ω α) : Bool :=
  runner.current.isSome

/-- Loads an interpreter and runs the prelude on it. Only if both succeed it becomes the current
one. -/
def loadInterpreter (runner : Runner ι ω α) : Except Fault Unit × Runner ι ω α :=
  match runner.engine.load runner.world with
  | (.error fault, world) => (.error (.runtimeLoad fault.message), { runner with world })
  | (.ok interpreter, world) =>
    match runner.engine.run runner.scheduler.now prelude ⟨interpreter, runner.pins, world⟩ with
    | (.error fault, after) =>
      (.error (.runtimeLoad ("prelude failed: ".toList ++ fault.message)),
        { runner with pins := after.pins, world := after.world })
    | (.ok (), after) =>
      (.ok (),
        { runner with
          pins := after.pins
          world := after.world
          interpreters := runner.interpreters ++ [after.interpreter]
          current := some runner.interpreters.length })

/-- Runs code on the interpreter with the given name. -/
def runOn (runner : Runner ι ω α) (name : Nat) (code : Text) : Except Fault Unit × Runner ι ω α :=
  match runner.interpreters[name]? with
  | none => (.error (.runtimeLoad "runtime unavailable".toList), runner)
  | some interpreter =>
    let (result, after) :=
      runner.engine.run runner.scheduler.now code ⟨interpreter, runner.pins, runner.world⟩
    (result,
      { runner with
        pins := after.pins
        world := after.world
        interpreters := runner.interpreters.set name after.interpreter })

/-- Runs a script on a loaded interpreter. Any loop before it has ended. -/
def runScriptOn (runner : Runner ι ω α) (name : Nat) (script : Text) :
    Except Fault Unit × Runner ι ω α :=
  let runner := { runner with scheduler := runner.scheduler.stop }
  match Script.split? script with
  | none =>
    match runner.runOn name script with
    | (.ok (), after) => (.ok (), after)
    | (.error fault, after) => (.error (.execution fault.message), after)
  | some ⟨setup, body⟩ =>
    match runner.runOn name setup with
    | (.error fault, after) =>
      (.error (.execution ("setup failed: ".toList ++ fault.message)), after)
    | (.ok (), after) =>
      (.ok (),
        { after with
          looping := name
          scheduler := after.scheduler.start (Script.statements body) })

/-- Makes sure that there is an interpreter. -/
def prepare (runner : Runner ι ω α) : Except Fault Unit × Runner ι ω α :=
  if runner.isInitialized then (.ok (), runner) else runner.loadInterpreter

/-- Runs a script, with an interpreter loaded for it if there is none. -/
def runScript (runner : Runner ι ω α) (script : Text) : Except Fault Unit × Runner ι ω α :=
  match runner.prepare with
  | (.error fault, after) => (.error fault, after)
  | (.ok (), after) =>
    match after.current with
    | none => (.error (.runtimeLoad "runtime unavailable".toList), after)
    | some name => after.runScriptOn name script

def setPaused (runner : Runner ι ω α) (paused : Bool) : Runner ι ω α :=
  { runner with
    scheduler := if paused then runner.scheduler.pause else runner.scheduler.resume }

def stop (runner : Runner ι ω α) : Runner ι ω α :=
  { runner with scheduler := runner.scheduler.stop }

/-- Whether no loop is running. -/
def isPaused (runner : Runner ι ω α) : Bool :=
  runner.scheduler.state != .running

/-- Lets time pass for the loop. Without an interpreter there is no loop. -/
def advance (runner : Runner ι ω α) (duration : Nat) : Runner ι ω α :=
  match runner.interpreters[runner.looping]? with
  | none =>
    { runner with
      scheduler := { runner.scheduler with now := runner.scheduler.now + duration } }
  | some interpreter =>
    let (_, scheduler, after) :=
      runner.scheduler.advance runner.engine.run duration
        ⟨interpreter, runner.pins, runner.world⟩
    { runner with
      pins := after.pins
      world := after.world
      interpreters := runner.interpreters.set runner.looping after.interpreter
      scheduler }

end Runner

end Breadboard.Simulation
