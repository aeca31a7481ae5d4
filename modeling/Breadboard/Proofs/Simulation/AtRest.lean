import Breadboard.Proofs.Simulation.ProgramLoading

set_option autoImplicit false

/- When a bench says that it rests, and when nothing runs on it. Whether something runs is read from the calls
that the processor has got: a program runs from a start up to a stop or to the next program, and it is held
while the last word was to pause. -/
namespace Breadboard.Simulation

open Circuit (Family)

/-- Whether an execution goes on after a call. A program that has just been loaded is not started. -/
def ProcessorCall.executing (before : Bool) : ProcessorCall → Bool
  | .load _ taken => before && !taken
  | .execute started => before || started
  | .stop => false
  | .setPaused _ | .addListener .. => before

/-- Whether execution is paused after a call. -/
def ProcessorCall.pausing (before : Bool) : ProcessorCall → Bool
  | .setPaused paused => paused
  | .load .. | .execute _ | .stop | .addListener .. => before

/-- Whether a program has been started, and neither stopped nor replaced since. -/
def executes (calls : List ProcessorCall) : Bool :=
  calls.foldl ProcessorCall.executing false

/-- Whether the last word was to pause. -/
def pausesLast (calls : List ProcessorCall) : Bool :=
  calls.foldl ProcessorCall.pausing false

namespace Processor

variable {κ : Type}

/-- The pause flag is what it was set to last. -/
def KeepsPause (processor : Processor κ) : Prop :=
  ∀ state call, processor.isPaused (processor.answer state call) =
    call.pausing (processor.isPaused state)

/-- A program stays until another one is taken in its place. -/
def KeepsProgram (processor : Processor κ) : Prop :=
  ∀ state call, processor.isLoaded state = true → processor.isLoaded (processor.answer state call) = true

theorem KeepsPause.foldl {processor : Processor κ} (keeps : processor.KeepsPause)
    (calls : List ProcessorCall) (state : κ) :
    processor.isPaused (calls.foldl processor.answer state) =
      calls.foldl ProcessorCall.pausing (processor.isPaused state) := by
  induction calls generalizing state with
  | nil => rfl
  | cons call rest ih => rw [List.foldl_cons, List.foldl_cons, ih, keeps]

theorem KeepsProgram.foldl {processor : Processor κ} (keeps : processor.KeepsProgram)
    (calls : List ProcessorCall) {state : κ} (loaded : processor.isLoaded state = true) :
    processor.isLoaded (calls.foldl processor.answer state) = true := by
  induction calls generalizing state with
  | nil => exact loaded
  | cons call rest ih => exact ih (keeps state call loaded)

end Processor

theorem executes_append (calls more : List ProcessorCall) :
    executes (calls ++ more) = more.foldl ProcessorCall.executing (executes calls) :=
  List.foldl_append

theorem pausesLast_append (calls more : List ProcessorCall) :
    pausesLast (calls ++ more) = more.foldl ProcessorCall.pausing (pausesLast calls) :=
  List.foldl_append

namespace Bench

variable {κ ι ω α : Type}

/-- Nothing runs on the board of the chosen family. -/
def Rests (bench : Bench κ ι ω α) (calls : List ProcessorCall) : Prop :=
  match bench.family with
  | .avr => executes calls = false ∨ pausesLast calls = true
  | .esp32 => bench.runner.scheduler.state ≠ .running

theorem executing_loadCalls (bench : Bench κ ι ω α) (hex : Text) (before : Bool) :
    (bench.loadCalls hex).foldl ProcessorCall.executing before = (before && !bench.takes hex) := by
  rw [loadCalls]
  cases bench.takes hex <;> rfl

/-- An operation leaves an execution going only where it was going before, or where it has found a program to
start. -/
theorem executes_callsOf {bench : Bench κ ι ω α} (keeps : bench.processor.KeepsProgram)
    {calls : List ProcessorCall}
    (sound : executes calls = true → bench.processor.isLoaded bench.avr = true)
    {operation : BenchOperation α} (executing : executes (calls ++ bench.callsOf operation) = true) :
    bench.processor.isLoaded (bench.perform operation).avr = true := by
  have before (going : executes calls = true) :
      bench.processor.isLoaded (bench.perform operation).avr = true := by
    rw [(bench.makes_callsOf operation).avr]
    exact keeps.foldl _ (sound going)
  rw [executes_append] at executing
  rcases bench.callsOf_cases operation with none | ⟨hex, load⟩ | run | stop | ⟨paused, pause⟩
  · rw [none] at executing
    exact before executing
  · rw [load, executing_loadCalls, Bool.and_eq_true] at executing
    exact before executing.1
  · rw [(bench.makes_callsOf operation).avr, run, runCalls]
    rw [run, runCalls] at executing
    cases loaded : bench.processor.isLoaded (bench.processor.stop bench.avr) with
    | true => exact keeps _ (.execute true) loaded
    | false =>
        rw [loaded] at executing
        cases executing
  · rw [stop] at executing
    cases executing
  · rw [pause] at executing
    exact before executing

theorem isLoaded_of_executes (bench : Bench κ ι ω α) (keeps : bench.processor.KeepsProgram)
    (operations : List (BenchOperation α)) (executing : executes (bench.callsOfAll operations) = true) :
    bench.processor.isLoaded (bench.performAll operations).avr = true := by
  induction operations using List.reverseRecOn with
  | nil => cases executing
  | append_singleton front last ih =>
      rw [callsOfAll_concat] at executing
      rw [performAll_concat]
      have same := bench.processor_performAll front
      rw [← same] at keeps ih ⊢
      exact executes_callsOf keeps ih executing

theorem isPaused_performAll (bench : Bench κ ι ω α) (keeps : bench.processor.KeepsPause)
    (unpaused : bench.processor.isPaused bench.avr = false) (operations : List (BenchOperation α)) :
    bench.processor.isPaused (bench.performAll operations).avr =
      pausesLast (bench.callsOfAll operations) := by
  induction operations using List.reverseRecOn with
  | nil => exact unpaused
  | append_singleton front last ih =>
      have same := bench.processor_performAll front
      rw [callsOfAll_concat, performAll_concat, pausesLast_append, ← ih, (makes_callsOf _ last).avr, same]
      exact keeps.foldl _ _

end Bench

/-- A bench says that it rests just in case nothing runs, apart from an AVR board that is not paused and has
a program that does not execute, or executes without one. A processor that keeps its program does not do the
latter, so that what is left is a program that waits for its start and is said to run. -/
theorem rest_reported_iff {κ ι ω α : Type} (compiler : Text → Except Fault Build)
    (processor : Processor κ) (pauses : processor.KeepsPause) (avr : κ)
    (unpaused : processor.isPaused avr = false) (runner : Runner ι ω α)
    (operations : List (BenchOperation α)) :
    let bench := Bench.start compiler processor avr runner
    let reached := bench.performAll operations
    let calls := bench.callsOfAll operations
    ((reached.isPaused = true ↔ reached.Rests calls) ↔
      ¬(reached.family = .avr ∧ pausesLast calls = false ∧
        processor.isLoaded reached.avr ≠ executes calls)) ∧
    (processor.KeepsProgram → executes calls = true → processor.isLoaded reached.avr = true) := by
  intro bench reached calls
  refine ⟨?_, fun keeps => bench.isLoaded_of_executes keeps operations⟩
  have flag : processor.isPaused reached.avr = pausesLast calls :=
    bench.isPaused_performAll pauses unpaused operations
  have same : reached.processor = processor := bench.processor_performAll operations
  cases family : reached.family with
  | esp32 =>
      have answer : reached.isPaused = (reached.runner.scheduler.state != .running) := by
        rw [Bench.isPaused, family, Runner.isPaused]
      simp [answer, Bench.Rests, family]
  | avr =>
      have answer : reached.isPaused = (!processor.isLoaded reached.avr || pausesLast calls) := by
        rw [Bench.isPaused, family, same, ← flag]
      simp only [answer, Bench.Rests, family]
      cases processor.isLoaded reached.avr <;> cases pausesLast calls <;> cases executes calls <;> simp

theorem flagProcessor_keepsPause : flagProcessor.KeepsPause := by
  intro state call
  cases call with
  | load program taken =>
      rw [Processor.answer, flagProcessor]
      dsimp only
      split <;> rfl
  | execute | setPaused | stop | addListener => rfl

theorem flagProcessor_keepsProgram : flagProcessor.KeepsProgram := by
  intro state call loaded
  cases call with
  | load program taken =>
      rw [Processor.answer, flagProcessor]
      dsimp only
      split
      · exact loaded
      · rfl
  | execute | setPaused | stop | addListener => exact loaded

/-- A paused run is said to rest, and does. -/
theorem rest_reported_iff_pausedRun :
    pausedBench.isPaused = true ∧ pausedBench.Rests (flagBench.callsOfAll pausedRun) ∧
      (executes (flagBench.callsOfAll pausedRun) = true →
        flagProcessor.isLoaded pausedBench.avr = true) := by
  obtain ⟨right, keeps⟩ := rest_reported_iff echoCompiler flagProcessor flagProcessor_keepsPause
    ⟨false, false⟩ rfl (Runner.start idleEngine (.ofList esp32Pins) () {}) pausedRun
  have flag := flagBench.isPaused_performAll flagProcessor_keepsPause rfl pausedRun
  rw [performAll_pausedRun] at flag
  rw [← flagBench, performAll_pausedRun, ← flag] at right
  rw [← flagBench, performAll_pausedRun] at keeps
  have paused : pausedBench.isPaused = true := rfl
  refine ⟨paused, (right.mpr ?_).mp paused, keeps flagProcessor_keepsProgram⟩
  rintro ⟨-, unpaused, -⟩
  cases unpaused

/-- A program that is loaded and not started rests without a word of it, and so does one that is stopped. -/
theorem stopped_program_not_reported :
    let loaded : List (BenchOperation Unit) := [.loadHex endRecord]
    let stopped := loaded ++ [.run none] ++ [.stop]
    flagProcessor.KeepsPause ∧ flagProcessor.KeepsProgram ∧
      (flagBench.performAll loaded).isPaused = false ∧
      (flagBench.performAll loaded).Rests (flagBench.callsOfAll loaded) ∧
      (flagBench.performAll stopped).isPaused = false ∧
      (flagBench.performAll stopped).Rests (flagBench.callsOfAll stopped) := by
  intro loaded stopped
  have ready : flagBench.performAll loaded = { flagBench with avr := ⟨true, false⟩ } :=
    perform_endRecord
  have run : flagBench.performAll (loaded ++ [.run none]) =
      { flagBench with avr := ⟨true, false⟩, runner := flagBench.runner.stop } := by
    rw [Bench.performAll_concat, ready]
    rfl
  have done : flagBench.performAll stopped =
      { flagBench with avr := ⟨true, false⟩, runner := flagBench.runner.stop } := by
    rw [Bench.performAll_concat, run]
    rfl
  have unstarted : executes (flagBench.callsOfAll loaded) = false := by
    rw [show loaded = [] ++ [.loadHex endRecord] from rfl, Bench.callsOfAll_concat, executes_append,
      (Bench.makes_loadHex _ _).callsOf_eq, Bench.executing_loadCalls]
    rfl
  have ended : executes (flagBench.callsOfAll stopped) = false := by
    rw [Bench.callsOfAll_concat, executes_append, (Bench.makes_stop _).callsOf_eq]
    rfl
  rw [ready, done]
  exact ⟨flagProcessor_keepsPause, flagProcessor_keepsProgram, rfl, Or.inl unstarted, rfl,
    Or.inl ended⟩

end Breadboard.Simulation
