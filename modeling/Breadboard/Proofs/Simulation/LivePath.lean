import Breadboard.Proofs.Simulation.BenchSession
import Breadboard.Proofs.Simulation.StatementStream

set_option autoImplicit false

/- The two ways of running firmware on one bench. A run on the processor ends the script's loop first, but the
start of a script leaves the processor as it is, so both are live just in case a loop is started while the
processor executes. -/
namespace Breadboard.Simulation

open Circuit (Family)

/-- The loop was never started or is over. -/
def RunState.HasEnded (state : RunState) : Prop :=
  state = .idle ∨ state = .stopped

section

variable {ι ω α : Type}

theorem Scheduler.hasEnded_stop (scheduler : Scheduler) : scheduler.stop.state.HasEnded := by
  rw [stop]
  split
  · exact Or.inl rfl
  · exact Or.inr rfl

theorem Scheduler.state_start (scheduler : Scheduler) (statements : List Text) :
    (scheduler.start statements).state = .running ∨ (scheduler.start statements).state.HasEnded := by
  rw [start]
  split
  · exact Or.inr (Or.inr rfl)
  · exact Or.inl rfl

theorem Scheduler.state_advance {σ : Type} (run : Run σ) (scheduler : Scheduler) (duration : Nat)
    (world : σ) : (scheduler.advance run duration world).2.1.state = scheduler.state := by
  have outcome := advance_cases run scheduler duration world
  have same : (scheduler.advance run duration world).2.1 =
      (scheduler.perform run world (.advance duration)).scheduler := rfl
  rw [same]
  rcases outcome with ⟨-, eq⟩ | ⟨task, -, eq | ⟨due, -, eq⟩⟩ <;> rw [eq]

/-- A loop that is over is neither paused nor resumed. -/
theorem RunState.HasEnded.setPaused {scheduler : Scheduler} (ended : scheduler.state.HasEnded) :
    scheduler.pause = scheduler ∧ scheduler.resume = scheduler := by
  rw [Scheduler.pause, Scheduler.resume]
  rcases ended with eq | eq <;> simp [eq]

namespace Runner

variable (runner : Runner ι ω α)

theorem scheduler_prepare : runner.prepare.2.scheduler = runner.scheduler := by
  rw [prepare, loadInterpreter]
  split
  · rfl
  · split
    · rfl
    · split <;> rfl

theorem scheduler_runOn (name : Nat) (code : Text) :
    (runner.runOn name code).2.scheduler = runner.scheduler := by
  rw [runOn]
  split <;> rfl

theorem state_advance (duration : Nat) :
    (runner.advance duration).scheduler.state = runner.scheduler.state := by
  rw [advance]
  split
  · rfl
  · exact Scheduler.state_advance _ _ _ _

/-- A script ends the loop before it, and may start one. -/
theorem state_runScriptOn (name : Nat) (script : Text) :
    (runner.runScriptOn name script).2.scheduler.state = .running ∨
      (runner.runScriptOn name script).2.scheduler.state.HasEnded := by
  have ended (code : Text) : (({ runner with scheduler := runner.scheduler.stop } : Runner ι ω α).runOn
      name code).2.scheduler.state.HasEnded := by
    rw [scheduler_runOn]
    exact runner.scheduler.hasEnded_stop
  rw [runScriptOn]
  split
  · have after := ended script
    split <;> rename_i ran <;> rw [ran] at after <;> exact Or.inr after
  · rename_i setup body _
    have after := ended setup
    split
    · rename_i failed
      rw [failed] at after
      exact Or.inr after
    · exact Scheduler.state_start _ _

/-- Without an interpreter the loop stays as it is. -/
theorem state_runScript (script : Text) :
    (runner.runScript script).2.scheduler = runner.scheduler ∨
      (runner.runScript script).2.scheduler.state = .running ∨
      (runner.runScript script).2.scheduler.state.HasEnded := by
  have prepared := runner.scheduler_prepare
  rw [runScript]
  split
  · rename_i fault after failed
    rw [failed] at prepared
    exact Or.inl prepared
  · rename_i after loaded
    rw [loaded] at prepared
    split
    · exact Or.inl prepared
    · rename_i name _
      exact Or.inr (after.state_runScriptOn name script)

end Runner

end

/-- A processor's state, and whether it has been told to execute and not to stop since. -/
structure Watched (κ : Type) where
  inner : κ
  executing : Bool

/-- The processor with an eye on the calls to execute and to stop. -/
def Processor.watched {κ : Type} (processor : Processor κ) : Processor (Watched κ) where
  load hex state :=
    let (result, inner) := processor.load hex state.inner
    (result, { state with inner })
  isLoaded state := processor.isLoaded state.inner
  execute state :=
    let (result, inner) := processor.execute state.inner
    (result, ⟨inner, true⟩)
  setPaused paused state := { state with inner := processor.setPaused paused state.inner }
  isPaused state := processor.isPaused state.inner
  stop state := ⟨processor.stop state.inner, false⟩
  addListener port listener state :=
    { state with inner := processor.addListener port listener state.inner }
  listeners port state := processor.listeners port state.inner

namespace Bench

variable {κ ι ω α : Type}

/-- A bench with an eye on its processor. -/
def startWatched (compiler : Text → Except Fault Build) (processor : Processor κ) (avr : κ)
    (runner : Runner ι ω α) : Bench (Watched κ) ι ω α :=
  start compiler processor.watched ⟨avr, false⟩ runner

section

variable {bench : Bench (Watched κ) ι ω α} {processor : Processor κ}
  (watched : bench.processor = processor.watched)

include watched

/-- Loading a program neither starts nor stops the processor. -/
theorem executing_loadHex (hex : Text) :
    (bench.loadHex hex).2.avr.executing = bench.avr.executing := by
  obtain ⟨program, avr, ⟨loaded, after⟩ | ⟨⟨fault, loaded⟩, after⟩⟩ := bench.loadHex_cases hex
  all_goals
    rw [watched] at loaded
    rw [after]
    obtain ⟨-, rfl⟩ := Prod.mk.inj loaded
  · rw [attachListeners, watched]
    rfl
  · rfl

theorem executing_compileAndLoad (source : Text) :
    (bench.compileAndLoad source).2.avr.executing = bench.avr.executing := by
  rcases bench.compileAndLoad_cases source with same | ⟨hex, loaded⟩
  · rw [same]
  · rw [loaded, executing_loadHex watched]

end

/-- A script leaves the processor as it is. -/
theorem avr_runEsp32 (bench : Bench κ ι ω α) (source : Text) :
    (bench.runEsp32 source).2.avr = bench.avr := by
  rw [runEsp32, attachObserver_eq]

theorem state_runEsp32 (bench : Bench κ ι ω α) (source : Text) :
    (bench.runEsp32 source).2.runner.scheduler = bench.runner.scheduler ∨
      (bench.runEsp32 source).2.runner.scheduler.state = .running ∨
      (bench.runEsp32 source).2.runner.scheduler.state.HasEnded := by
  have cases := bench.attachObserver.runner.state_runScript (Script.ofSketch source)
  have kept : bench.attachObserver.runner.scheduler = bench.runner.scheduler := by
    rw [attachObserver_eq]
  rwa [kept] at cases

/-- Whether the processor executes while a script's loop runs. -/
def BothLive (bench : Bench (Watched κ) ι ω α) : Prop :=
  bench.avr.executing = true ∧ bench.runner.scheduler.state = .running

/-- A script is started on the bench beside the processor. -/
def StartsBeside (bench : Bench (Watched κ) ι ω α) (operation : BenchOperation α) : Prop :=
  bench.family = .esp32 ∧ bench.avr.executing = true ∧ ∃ source, operation = .run (some source) ∧
    (bench.perform operation).runner.scheduler.state = .running

/-- While the processor executes, the loop is over. -/
def LoopEnded (bench : Bench (Watched κ) ι ω α) : Prop :=
  bench.avr.executing = true → bench.runner.scheduler.state.HasEnded

theorem LoopEnded.not_bothLive {bench : Bench (Watched κ) ι ω α} (ended : bench.LoopEnded) :
    ¬bench.BothLive := by
  rintro ⟨executing, running⟩
  have finished := ended executing
  rw [running] at finished
  rcases finished with eq | eq <;> cases eq

/-- Only a script that is started beside the processor gets both going. -/
theorem LoopEnded.perform {bench : Bench (Watched κ) ι ω α} {processor : Processor κ}
    (watched : bench.processor = processor.watched) (ended : bench.LoopEnded)
    (operation : BenchOperation α) (noStart : ¬bench.StartsBeside operation) :
    (bench.perform operation).LoopEnded := by
  cases operation with
  | setFamily family => exact ended
  | observe observer => exact ended
  | compileAndLoad source =>
      intro executing
      rw [Bench.perform, executing_compileAndLoad watched] at executing
      rw [Bench.perform, compileAndLoad_eq]
      exact ended executing
  | loadHex hex =>
      intro executing
      rw [Bench.perform, executing_loadHex watched] at executing
      rw [Bench.perform, loadHex_eq]
      exact ended executing
  | run source =>
      intro executing
      rw [Bench.perform] at executing ⊢
      rcases bench.run_cases source with ⟨-, eq⟩ | ⟨family, text, rfl, eq⟩ | ⟨-, -, eq⟩
      · rw [eq, runAvr_eq]
        exact Scheduler.hasEnded_stop _
      · rw [eq, avr_runEsp32] at executing
        rcases bench.state_runEsp32 text with same | running | finished
        · rw [eq, same]
          exact ended executing
        · rw [← eq] at running
          exact absurd ⟨family, executing, text, rfl, running⟩ noStart
        · rwa [eq]
      · rw [eq] at executing ⊢
        rw [prepareEsp32, Runner.scheduler_prepare]
        exact ended executing
  | setPaused paused =>
      intro executing
      rw [Bench.perform, Bench.setPaused] at executing ⊢
      cases family : bench.family with
      | esp32 =>
          simp only [family] at executing ⊢
          have finished := ended executing
          obtain ⟨pause, resume⟩ := finished.setPaused
          rw [Runner.setPaused, pause, resume, ite_self]
          exact finished
      | avr =>
          simp only [family, watched] at executing ⊢
          exact ended executing
  | stop =>
      intro executing
      rw [Bench.perform, stop, watched] at executing
      cases executing
  | advance duration =>
      intro executing
      rw [Bench.perform, advance, Runner.state_advance]
      exact ended executing

/-- One path is live at a time just in case no script is started beside the processor. -/
theorem never_bothLive_iff (bench : Bench (Watched κ) ι ω α) {processor : Processor κ}
    (watched : bench.processor = processor.watched) (fresh : bench.LoopEnded)
    (operations : List (BenchOperation α)) :
    (∀ before, before <+: operations → ¬(bench.performAll before).BothLive) ↔
      ∀ before operation, before ++ [operation] <+: operations →
        ¬(bench.performAll before).StartsBeside operation := by
  constructor
  · rintro never before operation reached ⟨family, executing, source, rfl, running⟩
    refine never _ reached ⟨?_, ?_⟩
    · rcases (bench.performAll before).run_cases (some source) with
        ⟨avr, -⟩ | ⟨-, text, -, eq⟩ | ⟨-, none, -⟩
      · rw [family] at avr
        cases avr
      · rw [performAll_concat, perform, eq, avr_runEsp32]
        exact executing
      · cases none
    · rw [performAll_concat]
      exact running
  · intro noStart before reached
    refine LoopEnded.not_bothLive ?_
    induction before using List.reverseRecOn with
    | nil => exact fresh
    | append_singleton front last ih =>
        have same : (bench.performAll front).processor = processor.watched := by
          rw [processor_performAll, watched]
        rw [performAll_concat]
        exact (ih ((List.prefix_append _ _).trans reached)).perform same last
          (noStart front last reached)

end Bench

/-- Both paths of a bench get live only where a script's loop is started while the processor executes. A run
on the processor ends the loop first, but the run of a script does not stop the processor. -/
theorem one_path_live_iff {κ ι ω α : Type} (compiler : Text → Except Fault Build)
    (processor : Processor κ) (avr : κ) (engine : Engine ι ω α) (pins : Pins α) (world : ω)
    (settings : LoopSettings) (operations : List (BenchOperation α)) :
    let bench :=
      Bench.startWatched compiler processor avr (Runner.start engine pins world settings)
    let reached := bench.performAll operations
    ((∀ before, before <+: operations → ¬(bench.performAll before).BothLive) ↔
      ∀ before operation, before ++ [operation] <+: operations →
        ¬(bench.performAll before).StartsBeside operation) ∧
    (∀ source, reached.family = .avr →
      (reached.perform (.run source)).runner.scheduler.state.HasEnded) ∧
    ∀ source, reached.family = .esp32 → (reached.perform (.run source)).avr = reached.avr := by
  intro bench reached
  refine ⟨?_, fun source family => ?_, fun source family => ?_⟩
  · exact bench.never_bothLive_iff rfl (fun executing => by cases executing) operations
  · rcases reached.run_cases source with ⟨-, eq⟩ | ⟨esp32, -⟩ | ⟨esp32, -⟩
    · rw [Bench.perform, eq, Bench.runAvr_eq]
      exact Scheduler.hasEnded_stop _
    · rw [family] at esp32
      cases esp32
    · rw [family] at esp32
      cases esp32
  · rcases reached.run_cases source with ⟨avr, -⟩ | ⟨-, text, -, eq⟩ | ⟨-, -, eq⟩
    · rw [family] at avr
      cases avr
    · rw [Bench.perform, eq, Bench.avr_runEsp32]
    · rw [Bench.perform, eq]
      rfl

/-- A processor that takes every program and runs none; its state tells whether it has one. -/
def idleProcessor : Processor Bool where
  load _ _ := (.ok (), true)
  isLoaded loaded := loaded
  execute loaded := (.ok (), loaded)
  setPaused _ loaded := loaded
  isPaused _ := false
  stop loaded := loaded
  addListener _ _ loaded := loaded
  listeners _ _ := []

/-- An interpreter that does nothing. -/
def idleEngine : Engine Unit Unit Unit where
  load world := (.ok (), world)
  run _ _ machine := (.ok (), machine)

/-- A program is started on the processor, then a script on the other family. -/
def besideSession : List (BenchOperation Unit) :=
  [.loadHex ":00000001FF\n".toList, .run none, .setFamily .esp32,
    .run (some "import machine\nwhile True:\n    x()\n".toList)]

/-- The script's loop runs beside the program. -/
theorem besideSession_both_live :
    let bench := Bench.startWatched (fun _ => .error (.compilation [])) idleProcessor false
      (Runner.start idleEngine (.ofList esp32Pins) () {})
    (bench.performAll besideSession).avr.executing = true ∧
      (bench.performAll besideSession).runner.scheduler.state = .running :=
  ⟨rfl, rfl⟩

end Breadboard.Simulation
