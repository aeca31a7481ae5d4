import Breadboard.Script.Conversion
import Breadboard.Simulation.Port
import Breadboard.Simulation.Runner

set_option autoImplicit false

/- The test bench: it runs the firmware of the chosen board family. AVR firmware is compiled and run by
an emulated processor; ESP32 firmware is converted and run as a script. One observer hears of the pins
of both. -/
namespace Breadboard.Simulation

open Circuit (Family)

/-- What a compiler puts out. -/
structure Build where
  hex : Text
  stdout : Text
  stderr : Text
  deriving DecidableEq, Repr

def Build.empty : Build := ⟨[], [], []⟩

/-- A listener of a port: the bits that it passes on, with their pins. -/
structure PortListener where
  pins : List (Nat × Nat)
  deriving DecidableEq, Repr

/-- The levels that a listener passes on when its port has the given value. -/
def PortListener.levels (listener : PortListener) (value : Nat) : List (Nat × Bool) :=
  listener.pins.map fun (bit, pin) => (pin, value.testBit bit)

/-- An emulated processor with states in `κ`. -/
structure Processor (κ : Type) where
  /-- Loads a program in place of another and of its listeners. -/
  load : Text → κ → Except Fault Unit × κ
  isLoaded : κ → Bool
  execute : κ → Except Fault Unit × κ
  setPaused : Bool → κ → κ
  isPaused : κ → Bool
  stop : κ → κ
  addListener : Port → PortListener → κ → κ
  /-- The listeners that a change of the port calls. -/
  listeners : Port → κ → List PortListener

structure Bench (κ ι ω α : Type) where
  family : Family
  compiler : Text → Except Fault Build
  processor : Processor κ
  avr : κ
  runner : Runner ι ω α
  observer : Option α

namespace Bench

variable {κ ι ω α : Type}

def start (compiler : Text → Except Fault Build) (processor : Processor κ) (avr : κ)
    (runner : Runner ι ω α) : Bench κ ι ω α :=
  ⟨.avr, compiler, processor, avr, runner, none⟩

def setFamily (bench : Bench κ ι ω α) (family : Family) : Bench κ ι ω α :=
  { bench with family }

def observe (bench : Bench κ ι ω α) (observer : α) : Bench κ ι ω α :=
  { bench with observer := some observer }

def compile (bench : Bench κ ι ω α) (source : Text) : Except Fault Build :=
  bench.compiler source

/-- Gives each port its listener. -/
def attachListeners (bench : Bench κ ι ω α) : Bench κ ι ω α :=
  { bench with
    avr := Port.all.foldl (fun avr port => bench.processor.addListener port ⟨port.pinMap⟩ avr)
      bench.avr }

/-- Loads a program without its blank lines. A loaded program gets new listeners. -/
def loadHex (bench : Bench κ ι ω α) (hex : Text) : Except Fault Unit × Bench κ ι ω α :=
  match bench.processor.load (Text.replace "\n\n".toList "\n".toList hex) bench.avr with
  | (.error fault, avr) => (.error fault, { bench with avr })
  | (.ok (), avr) => (.ok (), { bench with avr }.attachListeners)

/-- Compiles firmware and loads it. ESP32 boards run scripts and load nothing. -/
def compileAndLoad (bench : Bench κ ι ω α) (source : Text) :
    Except Fault Build × Bench κ ι ω α :=
  match bench.family with
  | .esp32 => (.ok .empty, bench)
  | .avr =>
    match bench.compile source with
    | .error fault => (.error fault, bench)
    | .ok build =>
      if (Text.trim build.hex).isEmpty then (.error (.compilation build.stderr), bench)
      else
        match bench.loadHex build.hex with
        | (.error fault, after) => (.error fault, after)
        | (.ok (), after) => (.ok build, after)

def stop (bench : Bench κ ι ω α) : Bench κ ι ω α :=
  { bench with avr := bench.processor.stop bench.avr, runner := bench.runner.stop }

/-- Makes the observer of this moment the listener of the ESP32 pins. -/
def attachObserver (bench : Bench κ ι ω α) : Bench κ ι ω α :=
  match bench.observer with
  | none => bench
  | some observer =>
    let pins := esp32Pins.foldl (fun pins pin => pins.listen pin observer) bench.runner.pins
    { bench with runner := { bench.runner with pins } }

/-- Runs the program that is loaded. -/
def runAvr (bench : Bench κ ι ω α) : Except Fault Unit × Bench κ ι ω α :=
  let bench := bench.stop
  if bench.processor.isLoaded bench.avr then
    let (result, avr) := bench.processor.execute bench.avr
    (result, { bench with avr })
  else (.error (.emulator "no firmware loaded".toList), bench)

/-- Runs firmware as a script. -/
def runEsp32 (bench : Bench κ ι ω α) (source : Text) : Except Fault Unit × Bench κ ι ω α :=
  let bench := bench.attachObserver
  let (result, runner) := bench.runner.runScript (Script.ofSketch source)
  (result, { bench with runner })

/-- Makes sure that an interpreter is loaded. -/
def prepareEsp32 (bench : Bench κ ι ω α) : Except Fault Unit × Bench κ ι ω α :=
  let (result, runner) := bench.runner.prepare
  (result, { bench with runner })

/-- Starts the firmware of the chosen family. Without a source an ESP32 board is only prepared. -/
def run (bench : Bench κ ι ω α) (source : Option Text) : Except Fault Unit × Bench κ ι ω α :=
  match bench.family, source with
  | .avr, _ => bench.runAvr
  | .esp32, some source => bench.runEsp32 source
  | .esp32, none => bench.prepareEsp32

def setPaused (bench : Bench κ ι ω α) (paused : Bool) : Bench κ ι ω α :=
  match bench.family with
  | .esp32 => { bench with runner := bench.runner.setPaused paused }
  | .avr => { bench with avr := bench.processor.setPaused paused bench.avr }

/-- Whether nothing runs on the chosen family. -/
def isPaused (bench : Bench κ ι ω α) : Bool :=
  match bench.family with
  | .esp32 => bench.runner.isPaused
  | .avr => !bench.processor.isLoaded bench.avr || bench.processor.isPaused bench.avr

/-- What the observer hears when a port of the processor changes to a value. -/
def portChanged (bench : Bench κ ι ω α) (port : Port) (value : Nat) : List (Notification α) :=
  match bench.observer with
  | none => []
  | some observer =>
    (bench.processor.listeners port bench.avr).flatMap fun listener =>
      (listener.levels value).map fun (pin, level) => ⟨observer, pin, level⟩

/-- Lets time pass for the script. -/
def advance (bench : Bench κ ι ω α) (duration : Nat) : Bench κ ι ω α :=
  { bench with runner := bench.runner.advance duration }

end Bench

end Breadboard.Simulation
