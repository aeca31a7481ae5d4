import Breadboard.Proofs.Simulation.UndisturbedRun
import Breadboard.Proofs.Simulation.WaitLength

set_option autoImplicit false

/- The run state and the loop that is driven. They are kept apart, and every operation changes the two
together: a loop is there just in case the scheduler is running or paused, and it is the loop of the last
start. -/
namespace Breadboard.Simulation

variable {σ : Type}

/-- The statements that an operation starts a loop over. -/
def SchedulerOperation.started? : SchedulerOperation → Option (List Text)
  | start statements => some statements
  | _ => none

/-- The statements of the last start, none before any. -/
def lastStarted? (session : List SchedulerOperation) : Option (List Text) :=
  (session.filterMap SchedulerOperation.started?).getLast?

theorem lastStarted?_cons (operation : SchedulerOperation) (rest : List SchedulerOperation) :
    lastStarted? (operation :: rest) = (lastStarted? rest).or operation.started? := by
  rw [lastStarted?, ← List.singleton_append, List.filterMap_append, List.getLast?_append]
  cases operation <;> rfl

theorem lastStarted?_eq_none (session : List SchedulerOperation) :
    lastStarted? session = none ↔ ∀ operation ∈ session, operation.isStart = false := by
  rw [lastStarted?, List.getLast?_eq_none_iff, List.filterMap_eq_nil_iff]
  refine forall₂_congr fun operation _ => ?_
  cases operation <;> simp [SchedulerOperation.started?, SchedulerOperation.isStart]

/-- A loop goes on over the statements it was started with. -/
theorem LoopCursor.runUntil_statements (run : Run σ) (limit turn due : Nat) (cursor : LoopCursor)
    (world : σ) :
    (cursor.runUntil run limit turn due world).2.2.1.statements = cursor.statements := by
  fun_induction runUntil run limit turn due cursor world with
  | case1 due cursor world early next after stepped visit =>
      have kept := step_statements run due cursor world
      rw [stepped] at kept
      exact kept
  | case2 due cursor world early next after turn visits rest later stepped visit ih =>
      have kept := step_statements run due cursor world
      rw [stepped] at kept
      rw [later] at ih
      exact ih.trans kept
  | case3 turn due cursor world early wait next after stepped visit someWait visits rest later ih =>
      have kept := step_statements run due cursor world
      rw [stepped] at kept
      rw [later] at ih
      exact ih.trans kept
  | case4 turn due cursor world late => rfl

namespace Scheduler

/-- The state and the loop of a scheduler agree on what was started last. -/
structure InStep (last : Option (List Text)) (scheduler : Scheduler) : Prop where
  driven : scheduler.task.isSome = true ↔ scheduler.state = .running ∨ scheduler.state = .paused
  idle : scheduler.state = .idle ↔ last = none
  statements : ∀ task ∈ scheduler.task, last = some task.cursor.statements

theorem inStep_ofSettings (settings : LoopSettings) : InStep none (ofSettings settings) :=
  ⟨by simp [ofSettings], by simp [ofSettings], by simp [ofSettings]⟩

/-- Whatever was there before, a start leaves its own loop, or none if there is nothing to run. -/
theorem inStep_start (scheduler : Scheduler) (statements : List Text) :
    InStep (some statements) (scheduler.start statements) := by
  rw [start]
  split
  · exact ⟨by simp, by simp, by simp⟩
  · refine ⟨by simp, by simp, fun task member => ?_⟩
    cases member
    rfl

theorem state_setState (scheduler : Scheduler) (state : RunState) :
    (scheduler.setState state).state = state := by
  rw [setState]
  split
  · assumption
  · rfl

section

variable {last : Option (List Text)} {scheduler : Scheduler} (inStep : InStep last scheduler)

include inStep

/-- A change between running and paused keeps the loop. -/
theorem InStep.setState {state : RunState}
    (before : scheduler.state = .running ∨ scheduler.state = .paused)
    (after : state = .running ∨ state = .paused) : InStep last (scheduler.setState state) := by
  rw [Scheduler.setState]
  split
  · exact inStep
  · refine ⟨?_, ?_, fun task member => ?_⟩
    · rw [Option.isSome_map, inStep.driven]
      exact iff_of_true before after
    · rw [← inStep.idle]
      rcases before with eq | eq <;> rcases after with rfl | rfl <;> simp [eq]
    · obtain ⟨old, present, rfl⟩ := Option.map_eq_some_iff.mp member
      exact inStep.statements old present

theorem InStep.pause : InStep last scheduler.pause := by
  rw [Scheduler.pause]
  split
  · rename_i running
    exact inStep.setState (Or.inl running) (Or.inr rfl)
  · exact inStep

theorem InStep.resume : InStep last scheduler.resume := by
  rw [Scheduler.resume]
  split
  · rename_i paused
    exact inStep.setState (Or.inr paused) (Or.inl rfl)
  · exact inStep

theorem InStep.stop : InStep last scheduler.stop := by
  rw [Scheduler.stop]
  refine ⟨?_, ?_, by simp⟩
  · split <;> simp
  · rw [← inStep.idle]
    split <;> simp [*]

/-- Time takes a loop on. It neither ends it nor changes the run state. -/
theorem InStep.advance (run : Run σ) (duration : Nat) (world : σ) :
    InStep last (scheduler.perform run world (.advance duration)).scheduler := by
  rcases advance_cases run scheduler duration world with
    ⟨-, outcome⟩ | ⟨task, present, outcome | ⟨due, -, outcome⟩⟩
  · rw [outcome]
    exact ⟨inStep.driven, inStep.idle, inStep.statements⟩
  · have driven := inStep.driven
    rw [present] at driven
    rw [outcome]
    refine ⟨driven, inStep.idle, fun other same => ?_⟩
    cases same
    exact inStep.statements task present
  · have driven := inStep.driven
    rw [present] at driven
    rw [outcome]
    refine ⟨driven, inStep.idle, fun other same => ?_⟩
    cases same
    rw [LoopCursor.runUntil_statements]
    exact inStep.statements task present

theorem InStep.perform (run : Run σ) (world : σ) (operation : SchedulerOperation) :
    InStep (operation.started?.or last) (scheduler.perform run world operation).scheduler := by
  cases operation with
  | start statements => exact inStep_start scheduler statements
  | pause => exact inStep.pause
  | resume => exact inStep.resume
  | stop => exact inStep.stop
  | advance duration => exact inStep.advance run duration world

end

theorem InStep.performAll {last : Option (List Text)} {scheduler : Scheduler}
    (inStep : InStep last scheduler) (run : Run σ) (world : σ)
    (session : List SchedulerOperation) :
    InStep ((lastStarted? session).or last) (scheduler.performAll run world session).scheduler := by
  induction session generalizing scheduler world last with
  | nil => exact inStep
  | cons operation rest ih =>
      rw [lastStarted?_cons, Option.or_assoc]
      exact ih (inStep.perform run world operation) _

/-- Whatever a host does and however much time passes, one loop is driven, that of the last start, while
the scheduler is running or paused, and none is while it is idle or stopped. It is idle until the first
start and never again. A pause acts on a running scheduler only, and a resumption on a paused one only. A
start runs its statements from the first one, or stops if it has none, and a stop leaves idle only what
was idle. -/
theorem loop_in_step (run : Run σ) (settings : LoopSettings) (world : σ)
    (session : List SchedulerOperation) :
    let reached := ((ofSettings settings).performAll run world session).scheduler
    reached.task.toList.length =
        (if reached.state = .running ∨ reached.state = .paused then 1 else 0) ∧
      (∀ task ∈ reached.task, lastStarted? session = some task.cursor.statements) ∧
      (reached.state = .idle ↔ ∀ operation ∈ session, operation.isStart = false) ∧
      (if reached.state = .running then reached.pause.state = .paused
        else reached.pause = reached) ∧
      (if reached.state = .paused then reached.resume.state = .running
        else reached.resume = reached) ∧
      (∀ statements, if statements = [] then (reached.start statements).state = .stopped
        else (reached.start statements).state = .running ∧
          (reached.start statements).task.map LoopTask.cursor =
            some ⟨statements, 0, settings⟩) ∧
      reached.stop.state = (if reached.state = .idle then .idle else .stopped) := by
  intro reached
  have inStep : InStep (lastStarted? session) reached := by
    have whole := (inStep_ofSettings settings).performAll run world session
    rwa [Option.or_none] at whole
  have kept : reached.settings = settings := settings_performAll run (ofSettings settings) world session
  refine ⟨?_, inStep.statements, ?_, ?_, ?_, fun statements => ?_, rfl⟩
  · simp only [← inStep.driven]
    cases reached.task <;> rfl
  · rw [inStep.idle, lastStarted?_eq_none]
  · rw [pause]
    split
    · exact reached.state_setState .paused
    · rfl
  · rw [resume]
    split
    · exact reached.state_setState .running
    · rfl
  · cases statements with
    | nil => exact rfl
    | cons statement rest =>
        rw [← kept]
        exact ⟨rfl, rfl⟩

end Scheduler

end Breadboard.Simulation
