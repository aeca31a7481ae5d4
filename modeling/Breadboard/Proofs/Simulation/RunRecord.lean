import Breadboard.Proofs.Simulation.HostCall

set_option autoImplicit false

/- A record of all the code that a runner runs. Interpreters are numbered in the order of their loading, and the
record says for each piece of code on which of them it was run and whether it went well. Keeping it changes
nothing of what a runner does. -/
namespace Breadboard.Simulation

/-- What the user of a runner does. -/
inductive RunnerOperation where
  | loadInterpreter
  | runScript (script : Text)
  | setPaused (paused : Bool)
  | stop
  /-- Lets this many milliseconds pass. -/
  | advance (duration : Nat)
  deriving DecidableEq, Repr

namespace Runner

variable {ι ω α : Type}

/-- The runner after an operation, whatever the operation answers. -/
def perform (runner : Runner ι ω α) : RunnerOperation → Runner ι ω α
  | .loadInterpreter => runner.loadInterpreter.2
  | .runScript script => (runner.runScript script).2
  | .setPaused paused => runner.setPaused paused
  | .stop => runner.stop
  | .advance duration => runner.advance duration

def performAll (runner : Runner ι ω α) (operations : List RunnerOperation) : Runner ι ω α :=
  operations.foldl perform runner

theorem performAll_concat (runner : Runner ι ω α) (operations : List RunnerOperation)
    (last : RunnerOperation) :
    runner.performAll (operations ++ [last]) = (runner.performAll operations).perform last := by
  rw [performAll, performAll, List.foldl_append]
  rfl

end Runner

/-- A piece of code that was run. -/
structure Entry where
  interpreter : Nat
  code : Text
  succeeded : Bool
  deriving DecidableEq, Repr

/-- An interpreter with its number. -/
structure Numbered (ι : Type) where
  number : Nat
  inner : ι

/-- A world with the number of interpreters that were loaded in it and what was run on them. -/
structure Recorded (ω : Type) where
  inner : ω
  loads : Nat
  entries : List Entry

variable {ι ω α : Type}

/-- What a record is kept of. -/
def Machine.bare (machine : Machine (Numbered ι) (Recorded ω) α) : Machine ι ω α :=
  ⟨machine.interpreter.inner, machine.pins, machine.world.inner⟩

/-- The recorded machine after a piece of code that led to the given machine. -/
def Machine.note (machine : Machine (Numbered ι) (Recorded ω) α) (code : Text) (succeeded : Bool)
    (after : Machine ι ω α) : Machine (Numbered ι) (Recorded ω) α where
  interpreter := { machine.interpreter with inner := after.interpreter }
  pins := after.pins
  world :=
    { machine.world with
      inner := after.world
      entries := machine.world.entries ++ [⟨machine.interpreter.number, code, succeeded⟩] }

/-- The engine with a record of what it runs. -/
def Engine.recorded (engine : Engine ι ω α) : Engine (Numbered ι) (Recorded ω) α where
  load state :=
    match engine.load state.inner with
    | (.error fault, inner) => (.error fault, { state with inner })
    | (.ok interpreter, inner) =>
      (.ok ⟨state.loads, interpreter⟩, { state with inner, loads := state.loads + 1 })
  run now code machine :=
    let (result, after) := engine.run now code machine.bare
    (result, machine.note code result.isOk after)

theorem Engine.recorded_load_error {engine : Engine ι ω α} {state : Recorded ω} {fault : Fault}
    {inner : ω} (refused : engine.load state.inner = (.error fault, inner)) :
    engine.recorded.load state = (.error fault, { state with inner }) := by
  simp only [recorded, refused]

theorem Engine.recorded_load_ok {engine : Engine ι ω α} {state : Recorded ω} {interpreter : ι}
    {inner : ω} (loaded : engine.load state.inner = (.ok interpreter, inner)) :
    engine.recorded.load state =
      (.ok ⟨state.loads, interpreter⟩, { state with inner, loads := state.loads + 1 }) := by
  simp only [recorded, loaded]

theorem Engine.recorded_run (engine : Engine ι ω α) (now : Nat) (code : Text)
    (machine : Machine (Numbered ι) (Recorded ω) α) :
    engine.recorded.run now code machine =
      ((engine.run now code machine.bare).1,
        machine.note code (engine.run now code machine.bare).1.isOk
          (engine.run now code machine.bare).2) :=
  rfl

section

variable {σ τ : Type} {run : Run σ} {other : Run τ} {view : σ → τ}
  (same : ∀ now code world,
    other now code (view world) = ((run now code world).1, view (run now code world).2))

include same

end

namespace Runner

theorem engine_loadInterpreter (runner : Runner ι ω α) :
    runner.loadInterpreter.2.engine = runner.engine := by
  rw [loadInterpreter]
  split
  · rfl
  · split <;> rfl

theorem engine_prepare (runner : Runner ι ω α) : runner.prepare.2.engine = runner.engine := by
  rw [prepare]
  split
  · rfl
  · exact runner.engine_loadInterpreter

/-- A runner without its record, on the engine that the record is kept of. -/
def bare (engine : Engine ι ω α) (runner : Runner (Numbered ι) (Recorded ω) α) : Runner ι ω α :=
  { engine
    pins := runner.pins
    world := runner.world.inner
    interpreters := runner.interpreters.map Numbered.inner
    current := runner.current
    looping := runner.looping
    scheduler := runner.scheduler }

variable {engine : Engine ι ω α} {runner : Runner (Numbered ι) (Recorded ω) α}
  (recorded : runner.engine = engine.recorded)

include recorded

omit recorded

/-- The numbers of the interpreters that are kept. -/
def numbers (runner : Runner (Numbered ι) (Recorded ω) α) : List Nat :=
  runner.interpreters.map Numbered.number

/-- An interpreter keeps its number. -/
theorem map_number_set {interpreters : List (Numbered ι)} {name : Nat}
    {interpreter after : Numbered ι} (found : interpreters[name]? = some interpreter)
    (same : after.number = interpreter.number) :
    (interpreters.set name after).map Numbered.number = interpreters.map Numbered.number := by
  obtain ⟨inside, rfl⟩ := List.getElem?_eq_some_iff.mp found
  rw [List.map_set, same, ← List.getElem_map Numbered.number, List.set_getElem_self]
  simpa using inside

/-- The interpreters, which of them are in use, and the loop are as they were. -/
def KeepsInterpreters (runner after : Runner ι ω α) : Prop :=
  after = { runner with pins := after.pins, world := after.world }

/-- What trying to load an interpreter leads to. -/
structure Tries (runner after : Runner (Numbered ι) (Recorded ω) α) (loaded : Bool)
    (tried : List Entry) : Prop where
  scheduler : after.scheduler = runner.scheduler
  looping : after.looping = runner.looping
  entries : after.world.entries = runner.world.entries ++ tried
  loads : after.world.loads = runner.world.loads + tried.length
  entry : tried = [] ∨ tried = [⟨runner.world.loads, prelude, loaded⟩]
  failed : loaded = false → runner.KeepsInterpreters after
  stored : loaded = true → tried ≠ [] ∧ after.numbers = runner.numbers ++ [runner.world.loads] ∧
    after.current = some runner.numbers.length

include recorded

theorem tries_loadInterpreter :
    ∃ tried, runner.Tries runner.loadInterpreter.2 runner.loadInterpreter.1.isOk tried := by
  have recordedLoad : runner.engine.load runner.world = engine.recorded.load runner.world := by
    rw [recorded]
  rw [loadInterpreter]
  rcases loaded : engine.load runner.world.inner with ⟨fault | interpreter, world⟩
  · rw [recordedLoad, Engine.recorded_load_error loaded]
    exact ⟨[], rfl, rfl, (List.append_nil _).symm, rfl, Or.inl rfl, fun _ => rfl,
      fun stored => absurd stored Bool.false_ne_true⟩
  · rw [recordedLoad, Engine.recorded_load_ok loaded]
    have ran := engine.recorded_run runner.scheduler.now prelude ⟨⟨runner.world.loads, interpreter⟩,
      runner.pins, { runner.world with inner := world, loads := runner.world.loads + 1 }⟩
    rw [← recorded, Machine.bare] at ran
    dsimp only at ran ⊢
    rw [ran]
    rcases engine.run runner.scheduler.now prelude ⟨interpreter, runner.pins, world⟩ with
      ⟨fault | answer, after⟩
    · exact ⟨_, rfl, rfl, rfl, rfl, Or.inr rfl, fun _ => rfl,
        fun stored => absurd stored Bool.false_ne_true⟩
    · refine ⟨_, rfl, rfl, rfl, rfl, Or.inr rfl, fun failed => absurd failed.symm Bool.false_ne_true,
        fun _ => ⟨List.cons_ne_nil _ _, ?_, ?_⟩⟩
      · simp [numbers, Machine.note]
      · simp [numbers]

/-- What running code on the interpreter with the given number leads to. -/
structure RunsOn (runner after : Runner (Numbered ι) (Recorded ω) α) (entry : Entry) : Prop where
  entries : after.world.entries = runner.world.entries ++ [entry]
  loads : after.world.loads = runner.world.loads
  numbers : after.numbers = runner.numbers
  current : after.current = runner.current
  scheduler : after.scheduler = runner.scheduler

theorem runsOn_runOn {name number : Nat} (named : runner.numbers[name]? = some number)
    (code : Text) :
    runner.RunsOn (runner.runOn name code).2 ⟨number, code, (runner.runOn name code).1.isOk⟩ := by
  obtain ⟨interpreter, found, rfl⟩ : ∃ interpreter, runner.interpreters[name]? = some interpreter ∧
      interpreter.number = number := by
    simpa [numbers] using named
  simp only [runOn, found, recorded, Engine.recorded_run]
  exact ⟨rfl, rfl, map_number_set found rfl, rfl, rfl⟩

/-- The first code that is run for a script. -/
def firstCode (script : Text) : Text :=
  match Script.split? script with
  | none => script
  | some split => split.setup

omit recorded in
/-- A script without a loop, and one whose setup fails, is over when its first code is. -/
theorem runScriptOn_of_ends (runner : Runner ι ω α) (name : Nat) {script : Text}
    (ends : Script.split? script = none ∨
      (runner.stop.runOn name (firstCode script)).1.isOk = false) :
    (runner.runScriptOn name script).2 = (runner.stop.runOn name (firstCode script)).2 := by
  rw [runScriptOn, ← stop]
  rw [firstCode] at ends ⊢
  cases isSplit : Script.split? script with
  | none =>
      dsimp only
      split <;> rename_i eq <;> rw [eq]
  | some split =>
      rw [isSplit] at ends
      dsimp only at ends ⊢
      split
      · rename_i eq
        rw [eq]
      · rename_i eq
        rw [eq] at ends
        rcases ends with none | failed
        · cases none
        · cases failed

omit recorded in
/-- A loop is started when its setup has gone well. -/
theorem runScriptOn_of_setup (runner : Runner ι ω α) (name : Nat) {script : Text}
    {split : Script.Split} (isSplit : Script.split? script = some split)
    (succeeded : (runner.stop.runOn name (firstCode script)).1.isOk = true) :
    let after := (runner.stop.runOn name (firstCode script)).2
    (runner.runScriptOn name script).2 =
      { after with
        looping := name
        scheduler := after.scheduler.start (Script.statements split.body) } := by
  rw [runScriptOn, ← stop]
  rw [firstCode, isSplit] at succeeded ⊢
  dsimp only at succeeded ⊢
  split
  · rename_i eq
    rw [eq] at succeeded
    cases succeeded
  · rename_i eq
    rw [eq]

/-- What a script leads to on the interpreter with the given name: its first code is run, and if that is the
setup of a loop and goes well, the loop is started. -/
structure Plays (runner after : Runner (Numbered ι) (Recorded ω) α) (name : Nat) (script : Text)
    (entry : Entry) : Prop where
  code : entry.code = firstCode script
  entries : after.world.entries = runner.world.entries ++ [entry]
  loads : after.world.loads = runner.world.loads
  numbers : after.numbers = runner.numbers
  current : after.current = runner.current
  ended : Script.split? script = none ∨ entry.succeeded = false →
    after.scheduler = runner.scheduler.stop
  started : ∀ split, Script.split? script = some split → entry.succeeded = true →
    after.looping = name ∧
      after.scheduler = runner.scheduler.stop.start (Script.statements split.body)

theorem plays_runScriptOn {name number : Nat} (named : runner.numbers[name]? = some number)
    (script : Text) :
    ∃ succeeded, runner.Plays (runner.runScriptOn name script).2 name script
      ⟨number, firstCode script, succeeded⟩ := by
  have kept : runner.stop.engine = engine.recorded := recorded
  obtain ⟨entries, loads, numbers, current, scheduler⟩ :=
    runsOn_runOn kept (show runner.stop.numbers[name]? = some number from named) (firstCode script)
  refine ⟨(runner.stop.runOn name (firstCode script)).1.isOk, ?_⟩
  by_cases ends : Script.split? script = none ∨
    (runner.stop.runOn name (firstCode script)).1.isOk = false
  · rw [runScriptOn_of_ends runner name ends]
    refine ⟨rfl, entries, loads, numbers, current, fun _ => scheduler, fun split isSplit succeeded => ?_⟩
    rcases ends with none | failed
    · rw [none] at isSplit
      cases isSplit
    · rw [failed] at succeeded
      cases succeeded
  · rw [not_or, Bool.not_eq_false] at ends
    obtain ⟨loops, succeeded⟩ := ends
    obtain ⟨split, isSplit⟩ := Option.ne_none_iff_exists'.mp loops
    rw [runScriptOn_of_setup runner name isSplit succeeded]
    refine ⟨rfl, entries, loads, numbers, current, fun ends => ?_, fun other same _ => ?_⟩
    · rcases ends with none | failed
      · exact absurd none loops
      · exact absurd succeeded (Bool.eq_false_iff.mp failed)
    · rw [isSplit] at same
      cases same
      exact ⟨rfl, by rw [scheduler]; rfl⟩

end Runner

/-- Whether a statement is there and is more than a wait. -/
def isRun (statements : List Text) (index : Nat) : Bool :=
  (statements[index]?).any fun statement => (Script.sleepDuration? statement).isNone

/-- What running some of the statements leads to, each by its index. -/
structure Replays (statements : List Text) (indices : List Nat)
    (machine after : Machine (Numbered ι) (Recorded ω) α) (ran : List (Nat × Entry)) : Prop where
  number : after.interpreter.number = machine.interpreter.number
  loads : after.world.loads = machine.world.loads
  entries : after.world.entries = machine.world.entries ++ ran.map Prod.snd
  indices : ran.map Prod.fst = indices.filter (isRun statements)
  codes : ∀ index entry, (index, entry) ∈ ran →
    entry.interpreter = machine.interpreter.number ∧ statements[index]? = some entry.code

/-- The statements of the visits that are more than waits are run in their order. -/
theorem replays_replay (engine : Engine ι ω α) (statements : List Text) (visits : List Visit)
    (machine : Machine (Numbered ι) (Recorded ω) α) :
    ∃ ran, Replays statements (visits.map Visit.index) machine
      (replay engine.recorded.run statements visits machine) ran := by
  induction visits generalizing machine with
  | nil => exact ⟨[], rfl, rfl, (List.append_nil _).symm, rfl, by simp⟩
  | cons visit rest ih =>
      have first : (∃ statement, statements[visit.index]? = some statement ∧
            isRun statements visit.index = true ∧
            replayVisit engine.recorded.run statements machine visit =
              (engine.recorded.run visit.time statement machine).2) ∨
          isRun statements visit.index = false ∧
            replayVisit engine.recorded.run statements machine visit = machine := by
        rw [replayVisit, isRun]
        cases statements[visit.index]? with
        | none => exact Or.inr ⟨rfl, rfl⟩
        | some statement =>
            cases waits : Script.sleepDuration? statement with
            | some wait => exact Or.inr ⟨by simp [waits], by simp [waits]⟩
            | none => exact Or.inl ⟨statement, rfl, by simp [waits], by simp [waits]⟩
      rw [replay, List.foldl_cons, ← replay, List.map_cons]
      rcases first with ⟨statement, found, isRun, eq⟩ | ⟨isWait, eq⟩
      · rw [eq, Engine.recorded_run]
        obtain ⟨ran, number, loads, entries, indices, codes⟩ := ih
          (machine.note statement (engine.run visit.time statement machine.bare).1.isOk
            (engine.run visit.time statement machine.bare).2)
        refine ⟨(visit.index, ⟨machine.interpreter.number, statement,
          (engine.run visit.time statement machine.bare).1.isOk⟩) :: ran, number, loads, ?_, ?_, ?_⟩
        · rw [entries, Machine.note, List.map_cons, List.append_assoc]
          rfl
        · rw [List.map_cons, indices, List.filter_cons_of_pos isRun]
        · intro index entry member
          rcases List.mem_cons.mp member with same | later
          · cases same
            exact ⟨rfl, found⟩
          · exact codes index entry later
      · rw [eq]
        obtain ⟨ran, number, loads, entries, indices, codes⟩ := ih machine
        refine ⟨ran, number, loads, entries, ?_, codes⟩
        rw [indices, List.filter_cons_of_neg (by simp [isWait])]

namespace Runner

variable {engine : Engine ι ω α} {runner : Runner (Numbered ι) (Recorded ω) α}
  (recorded : runner.engine = engine.recorded)

/-- What time leads to that passes for a loop over the statements: `steps` more of them are taken, and those
that are more than waits are run on the loop's interpreter. -/
structure Passes (runner after : Runner (Numbered ι) (Recorded ω) α) (statements : List Text)
    (count steps : Nat) (ran : List (Nat × Entry)) : Prop where
  streaming : Scheduler.Streaming statements (count + steps) after.scheduler
  numbers : after.numbers = runner.numbers
  current : after.current = runner.current
  looping : after.looping = runner.looping
  loads : after.world.loads = runner.world.loads
  entries : after.world.entries = runner.world.entries ++ ran.map Prod.snd
  indices : ran.map Prod.fst = (cycle statements.length count steps).filter (isRun statements)
  codes : ∀ index entry, (index, entry) ∈ ran →
    runner.numbers[runner.looping]? = some entry.interpreter ∧ statements[index]? = some entry.code

include recorded

theorem passes_advance {statements : List Text} {count : Nat}
    (streaming : Scheduler.Streaming statements count runner.scheduler) (duration : Nat) :
    ∃ steps ran, runner.Passes (runner.advance duration) statements count steps ran := by
  rw [advance]
  cases found : runner.interpreters[runner.looping]? with
  | none =>
      exact ⟨0, [], ⟨streaming.position, streaming.waits⟩, rfl, rfl, rfl, rfl,
        (List.append_nil _).symm, rfl, by simp⟩
  | some interpreter =>
      have continues := (streaming.advance runner.engine.run duration
        ⟨interpreter, runner.pins, runner.world⟩).1
      rw [recorded] at continues ⊢
      obtain ⟨indices, -, replayed, later⟩ := continues
      rw [Scheduler.perform] at indices replayed later
      dsimp only at indices replayed later ⊢
      obtain ⟨ran, number, loads, entries, runs, codes⟩ := replays_replay engine statements
        (runner.scheduler.advance engine.recorded.run duration
          ⟨interpreter, runner.pins, runner.world⟩).1 ⟨interpreter, runner.pins, runner.world⟩
      rw [← replayed] at number loads entries
      have named : runner.numbers[runner.looping]? = some interpreter.number := by
        simp [numbers, found]
      refine ⟨_, ran, later, map_number_set found number, rfl, rfl, loads, entries,
        by rw [runs, indices], fun index entry member => ?_⟩
      obtain ⟨same, code⟩ := codes index entry member
      exact ⟨by rw [named, same], code⟩

end Runner

end Breadboard.Simulation
