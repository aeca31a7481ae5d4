import Mathlib
import Breadboard.Simulation.Bench

set_option autoImplicit false

namespace Breadboard.Simulation

open Circuit (Family)

/-- What the user of a bench does. -/
inductive BenchOperation (α : Type) where
  | setFamily (family : Family)
  | observe (observer : α)
  | compileAndLoad (source : Text)
  | loadHex (hex : Text)
  | run (source : Option Text)
  | setPaused (paused : Bool)
  | stop
  /-- Lets this many milliseconds pass. -/
  | advance (duration : Nat)
  deriving DecidableEq, Repr

namespace BenchOperation

variable {α : Type}

/-- The observer that an operation sets. -/
def observer? : BenchOperation α → Option α
  | observe observer => some observer
  | _ => none

/-- The family that an operation sets. -/
def family? : BenchOperation α → Option Family
  | setFamily family => some family
  | _ => none

/-- Whether firmware is given to run as a script. -/
def givesSource : BenchOperation α → Bool
  | run (some _) => true
  | _ => false

end BenchOperation

namespace Bench

variable {κ ι ω α : Type}

/-- The bench after an operation, whatever the operation answers. -/
def perform (bench : Bench κ ι ω α) : BenchOperation α → Bench κ ι ω α
  | .setFamily family => bench.setFamily family
  | .observe observer => bench.observe observer
  | .compileAndLoad source => (bench.compileAndLoad source).2
  | .loadHex hex => (bench.loadHex hex).2
  | .run source => (bench.run source).2
  | .setPaused paused => bench.setPaused paused
  | .stop => bench.stop
  | .advance duration => bench.advance duration

def performAll (bench : Bench κ ι ω α) (operations : List (BenchOperation α)) : Bench κ ι ω α :=
  operations.foldl perform bench

theorem performAll_concat (bench : Bench κ ι ω α) (operations : List (BenchOperation α))
    (last : BenchOperation α) :
    bench.performAll (operations ++ [last]) = (bench.performAll operations).perform last := by
  rw [performAll, performAll, List.foldl_append]
  rfl

/-- The ways in which firmware is loaded: it is refused before it reaches the processor, or the processor
takes or refuses it. -/
theorem compileAndLoad_cases (bench : Bench κ ι ω α) (source : Text) :
    (bench.compileAndLoad source).2 = bench ∨
      ∃ hex, (bench.compileAndLoad source).2 = (bench.loadHex hex).2 := by
  rw [compileAndLoad]
  split
  · exact Or.inl rfl
  · split
    · exact Or.inl rfl
    · rename_i build _
      split
      · exact Or.inl rfl
      · refine Or.inr ⟨build.hex, ?_⟩
        split <;> rename_i loaded <;> rw [loaded]

theorem loadHex_cases (bench : Bench κ ι ω α) (hex : Text) :
    ∃ program avr,
      bench.processor.load program bench.avr = (.ok (), avr) ∧
          (bench.loadHex hex).2 = { bench with avr }.attachListeners ∨
        (∃ fault, bench.processor.load program bench.avr = (.error fault, avr)) ∧
          (bench.loadHex hex).2 = { bench with avr } := by
  refine ⟨Text.replace "\n\n".toList "\n".toList hex, ?_⟩
  rw [loadHex]
  split
  · rename_i fault avr refused
    exact ⟨avr, Or.inr ⟨⟨fault, refused⟩, rfl⟩⟩
  · rename_i avr loaded
    exact ⟨avr, Or.inl ⟨loaded, rfl⟩⟩

/-- A program changes nothing but the processor's state. -/
theorem loadHex_eq (bench : Bench κ ι ω α) (hex : Text) :
    (bench.loadHex hex).2 = { bench with avr := (bench.loadHex hex).2.avr } := by
  obtain ⟨program, avr, ⟨-, after⟩ | ⟨-, after⟩⟩ := bench.loadHex_cases hex <;> rw [after]
  rfl

theorem compileAndLoad_eq (bench : Bench κ ι ω α) (source : Text) :
    (bench.compileAndLoad source).2 =
      { bench with avr := (bench.compileAndLoad source).2.avr } := by
  rcases bench.compileAndLoad_cases source with same | ⟨hex, loaded⟩
  · rw [same]
  · rw [loaded]
    exact bench.loadHex_eq hex

/-- An observer is put in the place of the pins' listeners, and nothing else changes. -/
theorem attachObserver_eq (bench : Bench κ ι ω α) :
    bench.attachObserver =
      { bench with runner := { bench.runner with pins := bench.attachObserver.runner.pins } } := by
  rw [attachObserver]
  split <;> rfl

/-- A run on the processor stops what was running. -/
theorem runAvr_eq (bench : Bench κ ι ω α) :
    bench.runAvr.2 = { bench with
      avr :=
        if bench.processor.isLoaded (bench.processor.stop bench.avr) then
          (bench.processor.execute (bench.processor.stop bench.avr)).2
        else bench.processor.stop bench.avr
      runner := bench.runner.stop } := by
  cases loaded : bench.processor.isLoaded (bench.processor.stop bench.avr) with
  | true =>
      rw [runAvr, if_pos (show bench.stop.processor.isLoaded bench.stop.avr = true from loaded)]
      rfl
  | false =>
      rw [runAvr, if_neg (Bool.eq_false_iff.mp
        (show bench.stop.processor.isLoaded bench.stop.avr = false from loaded))]
      rfl

/-- What is run is what the family and the source say. -/
theorem run_cases (bench : Bench κ ι ω α) (source : Option Text) :
    (bench.family = .avr ∧ bench.run source = bench.runAvr) ∨
      (bench.family = .esp32 ∧ ∃ text, source = some text ∧ bench.run source = bench.runEsp32 text) ∨
        bench.family = .esp32 ∧ source = none ∧ bench.run source = bench.prepareEsp32 := by
  unfold run
  split <;> simp_all

/-- An operation sets the family or the observer, or it changes the processor's state and the runner. -/
theorem perform_eq (bench : Bench κ ι ω α) (operation : BenchOperation α) :
    bench.perform operation = { bench with
      family := operation.family?.getD bench.family
      avr := (bench.perform operation).avr
      runner := (bench.perform operation).runner
      observer := operation.observer?.or bench.observer } := by
  cases operation with
  | compileAndLoad source =>
      rw [perform, compileAndLoad_eq]
      rfl
  | loadHex hex =>
      rw [perform, loadHex_eq]
      rfl
  | run source =>
      rw [perform]
      rcases bench.run_cases source with ⟨-, eq⟩ | ⟨-, text, -, eq⟩ | ⟨-, -, eq⟩ <;> rw [eq]
      · rw [runAvr_eq]
        rfl
      · rw [runEsp32, attachObserver_eq]
        rfl
      · rfl
  | setPaused paused =>
      rw [perform, setPaused]
      split <;> rfl
  | setFamily | observe | stop | advance => rfl

theorem processor_perform (bench : Bench κ ι ω α) (operation : BenchOperation α) :
    (bench.perform operation).processor = bench.processor := by
  rw [perform_eq]

theorem processor_performAll (bench : Bench κ ι ω α) (operations : List (BenchOperation α)) :
    (bench.performAll operations).processor = bench.processor := by
  induction operations using List.reverseRecOn with
  | nil => rfl
  | append_singleton front last ih => rw [performAll_concat, processor_perform, ih]

end Bench

end Breadboard.Simulation
