import Breadboard.Simulation.Cursor

set_option autoImplicit false

namespace Breadboard.Simulation

inductive RunState where
  | idle
  | running
  | paused
  | stopped
  deriving DecidableEq, Repr

/-- What the loop does next. -/
inductive Phase where
  /-- It looks at the run state when time next passes. -/
  | looking
  /-- It takes a statement at the given time. -/
  | waiting (due : Nat)
  /-- It waits for the run state to change. -/
  | holding
  deriving DecidableEq, Repr

structure LoopTask where
  cursor : LoopCursor
  phase : Phase
  deriving DecidableEq, Repr

/-- A statement taken: when, which one, and the wait after it. -/
structure Visit where
  time : Nat
  index : Nat
  wait : Nat
  deriving DecidableEq, Repr

structure Scheduler where
  settings : LoopSettings
  state : RunState
  task : Option LoopTask
  now : Nat
  deriving DecidableEq, Repr

variable {σ : Type}

/-- Takes the statements that are due before `limit`, the first at `due`: the visits, when the next
statement is due, the position and the state of what runs them. Without a wait in a whole turn of
the loop time cannot pass; `turn` counts the statements left of such a turn. -/
def LoopCursor.runUntil (run : Run σ) (limit turn due : Nat) (cursor : LoopCursor) (world : σ) :
    List Visit × Nat × LoopCursor × σ :=
  if due < limit then
    let (wait, next, after) := cursor.step run due world
    let visit : Visit := ⟨due, cursor.index, wait⟩
    if wait = 0 then
      match turn with
      | 0 => ([visit], due, next, after)
      | turn + 1 =>
        let (visits, rest) := next.runUntil run limit turn due after
        (visit :: visits, rest)
    else
      let (visits, rest) := next.runUntil run limit cursor.statements.length (due + wait) after
      (visit :: visits, rest)
  else ([], due, cursor, world)
termination_by (limit - due, turn)

namespace Scheduler

def ofSettings (settings : LoopSettings) : Scheduler :=
  ⟨settings, .idle, none, 0⟩

/-- A change of the run state ends the wait of the loop. -/
def setState (scheduler : Scheduler) (state : RunState) : Scheduler :=
  if scheduler.state = state then scheduler
  else
    { scheduler with
      state
      task := scheduler.task.map fun task => { task with phase := .looking } }

/-- Starts a loop over the statements in place of any other. There is nothing to run in an empty
loop. -/
def start (scheduler : Scheduler) (statements : List Text) : Scheduler :=
  if statements.isEmpty then { scheduler with task := none, state := .stopped }
  else
    { scheduler with
      task := some ⟨LoopCursor.start scheduler.settings statements, .looking⟩
      state := .running }

def pause (scheduler : Scheduler) : Scheduler :=
  if scheduler.state = .running then scheduler.setState .paused else scheduler

def resume (scheduler : Scheduler) : Scheduler :=
  if scheduler.state = .paused then scheduler.setState .running else scheduler

/-- Ends the loop. A scheduler that never ran stays idle. -/
def stop (scheduler : Scheduler) : Scheduler :=
  { scheduler with
    task := none
    state := if scheduler.state = .idle then .idle else .stopped }

def isPaused (scheduler : Scheduler) : Bool :=
  scheduler.state == .paused

/-- What the loop does after it has looked at the run state. -/
def settle (state : RunState) (now : Nat) : Phase → Phase
  | .looking => if state = .running then .waiting now else .holding
  | phase => phase

/-- Lets time pass. -/
def advance (run : Run σ) (scheduler : Scheduler) (duration : Nat) (world : σ) :
    List Visit × Scheduler × σ :=
  let limit := scheduler.now + duration
  match scheduler.task with
  | none => ([], { scheduler with now := limit }, world)
  | some task =>
    match settle scheduler.state scheduler.now task.phase with
    | .waiting due =>
      let (visits, next, cursor, after) :=
        task.cursor.runUntil run limit task.cursor.statements.length due world
      (visits, { scheduler with task := some ⟨cursor, .waiting next⟩, now := limit }, after)
    | phase => ([], { scheduler with task := some { task with phase }, now := limit }, world)

end Scheduler

end Breadboard.Simulation
