import Mathlib
import Breadboard.Simulation.Scheduler

set_option autoImplicit false

namespace Breadboard.Simulation

variable {σ : Type}

/-- What a host does with a scheduler. -/
inductive SchedulerOperation where
  | start (statements : List Text)
  | pause
  | resume
  | stop
  /-- Lets this many milliseconds pass. -/
  | advance (duration : Nat)
  deriving DecidableEq, Repr

def SchedulerOperation.isStart : SchedulerOperation → Bool
  | start _ => true
  | _ => false

/-- What operations lead to: the statements taken, the scheduler and the state of what runs them. -/
structure Outcome (σ : Type) where
  visits : List Visit
  scheduler : Scheduler
  world : σ

namespace Scheduler

def perform (run : Run σ) (scheduler : Scheduler) (world : σ) : SchedulerOperation → Outcome σ
  | .start statements => ⟨[], scheduler.start statements, world⟩
  | .pause => ⟨[], scheduler.pause, world⟩
  | .resume => ⟨[], scheduler.resume, world⟩
  | .stop => ⟨[], scheduler.stop, world⟩
  | .advance duration =>
    let (visits, next, after) := scheduler.advance run duration world
    ⟨visits, next, after⟩

def performAll (run : Run σ) (scheduler : Scheduler) (world : σ) :
    List SchedulerOperation → Outcome σ
  | [] => ⟨[], scheduler, world⟩
  | operation :: rest =>
    let first := scheduler.perform run world operation
    let later := first.scheduler.performAll run first.world rest
    ⟨first.visits ++ later.visits, later.scheduler, later.world⟩

end Scheduler

/-- Runs the statement that a visit takes. A pure wait runs nothing. -/
def replayVisit (run : Run σ) (statements : List Text) (world : σ) (visit : Visit) : σ :=
  match statements[visit.index]? with
  | none => world
  | some statement =>
    match Script.sleepDuration? statement with
    | some _ => world
    | none => (run visit.time statement world).2

def replay (run : Run σ) (statements : List Text) (visits : List Visit) (world : σ) : σ :=
  visits.foldl (replayVisit run statements) world

/-- The positions that `count` steps from a position on come by. -/
def cycle (length start count : Nat) : List Nat :=
  (List.range count).map fun step => (start + step) % length

theorem cycle_succ (length start count : Nat) :
    cycle length start (count + 1) = start % length :: cycle length (start + 1) count := by
  simp only [cycle, List.range_succ_eq_map, List.map_cons, List.map_map, Nat.add_zero]
  congr 1
  apply List.map_congr_left
  intro step _
  simp only [Function.comp_apply, Nat.succ_eq_add_one]
  congr 1
  omega

theorem cycle_append (length start first second : Nat) :
    cycle length start (first + second) =
      cycle length start first ++ cycle length (start + first) second := by
  induction first generalizing start with
  | zero => simp [cycle]
  | succ first ih =>
      rw [Nat.succ_add_eq_add_succ, Nat.add_succ, cycle_succ, ih, cycle_succ, List.cons_append,
        Nat.add_right_comm, Nat.add_assoc start first 1]

theorem cycle_mod (length start count : Nat) :
    cycle length (start % length) count = cycle length start count := by
  simp only [cycle, Nat.mod_add_mod]

namespace LoopCursor

/-- A step in the middle of the statements takes the one at the cursor and goes on behind it. -/
theorem step_inside (run : Run σ) (now : Nat) (cursor : LoopCursor) (world : σ)
    (inside : cursor.index < cursor.statements.length) :
    (cursor.step run now world).2 =
      (cursor.next, replayVisit run cursor.statements world
        ⟨now, cursor.index, (cursor.step run now world).1⟩) := by
  have found := List.getElem?_eq_getElem inside
  unfold step replayVisit
  simp only [found]
  cases Script.sleepDuration? cursor.statements[cursor.index] with
  | some wait => rfl
  | none =>
      rcases run now cursor.statements[cursor.index] world with ⟨⟨fault⟩ | ⟨⟩, after⟩ <;> rfl

/-- Statements taken from a cursor on: they lie behind each other, each is run once, and the next cursor
stands behind the last one. -/
structure Streams (run : Run σ) (cursor : LoopCursor) (world : σ) (visits : List Visit)
    (next : LoopCursor) (after : σ) : Prop where
  indices : visits.map Visit.index =
    cycle cursor.statements.length cursor.index visits.length
  statements : next.statements = cursor.statements
  index : next.index = (cursor.index + visits.length) % cursor.statements.length
  replayed : after = replay run cursor.statements visits world

theorem Streams.none (run : Run σ) {cursor : LoopCursor} (world : σ)
    (inside : cursor.index < cursor.statements.length) :
    Streams run cursor world [] cursor world :=
  ⟨rfl, rfl, (Nat.mod_eq_of_lt inside).symm, rfl⟩

theorem Streams.step {run : Run σ} {now wait : Nat} {cursor next last : LoopCursor}
    {world after final : σ} {visits : List Visit}
    (inside : cursor.index < cursor.statements.length)
    (stepped : cursor.step run now world = (wait, next, after))
    (rest : Streams run next after visits last final) :
    Streams run cursor world (⟨now, cursor.index, wait⟩ :: visits) last final := by
  have taken := step_inside run now cursor world inside
  simp only [stepped, Prod.mk.injEq] at taken
  obtain ⟨rfl, rfl⟩ := taken
  obtain ⟨indices, statements, index, replayed⟩ := rest
  have length : cursor.next.statements.length = cursor.statements.length := rfl
  have position : cursor.next.index = (cursor.index + 1) % cursor.statements.length := rfl
  refine ⟨?_, statements, ?_, replayed⟩
  · rw [List.map_cons, indices, List.length_cons, cycle_succ, length, position, cycle_mod,
      Nat.mod_eq_of_lt inside]
  · rw [index, length, position, Nat.mod_add_mod, List.length_cons]
    congr 1
    omega

theorem next_inside {run : Run σ} {now wait : Nat} {cursor next : LoopCursor} {world after : σ}
    (inside : cursor.index < cursor.statements.length)
    (stepped : cursor.step run now world = (wait, next, after)) :
    next.index < next.statements.length := by
  have taken := step_inside run now cursor world inside
  rw [stepped] at taken
  rw [(Prod.mk.inj taken).1]
  exact Nat.mod_lt _ (show 0 < cursor.statements.length by omega)

/-- A loop streams its statements until the limit. -/
theorem runUntil_streams (run : Run σ) (limit turn due : Nat) (cursor : LoopCursor) (world : σ)
    (inside : cursor.index < cursor.statements.length) :
    Streams run cursor world (cursor.runUntil run limit turn due world).1
      (cursor.runUntil run limit turn due world).2.2.1
      (cursor.runUntil run limit turn due world).2.2.2 := by
  fun_induction runUntil run limit turn due cursor world with
  | case1 due cursor world early next after stepped visit =>
      exact Streams.step inside stepped (Streams.none run after (next_inside inside stepped))
  | case2 due cursor world early next after turn visits rest later stepped visit ih =>
      rw [later] at ih
      exact Streams.step inside stepped (ih (next_inside inside stepped))
  | case3 turn due cursor world early wait next after stepped visit someWait visits rest later ih =>
      rw [later] at ih
      exact Streams.step inside stepped (ih (next_inside inside stepped))
  | case4 turn due cursor world late => exact Streams.none run world inside

/-- A wait until the limit or longer is the last one. -/
theorem runUntil_of_wait {run : Run σ} {limit due wait : Nat} {cursor next : LoopCursor}
    {world after : σ} (stepped : cursor.step run due world = (wait, next, after))
    (early : due < limit) (long : limit ≤ due + wait) (turn : Nat) :
    cursor.runUntil run limit turn due world =
      ([⟨due, cursor.index, wait⟩], due + wait, next, after) := by
  have waits : ¬wait = 0 := by omega
  rw [runUntil, if_pos early, stepped]
  dsimp only
  rw [if_neg waits, runUntil, if_neg (Nat.not_lt.mpr long)]

end LoopCursor

namespace Scheduler

/-- What holds of a scheduler when `count` statements have been taken since it was started with the
given ones: its loop, if it has one, stands behind the last of them, and it waits for a statement only
while running. -/
structure Streaming (statements : List Text) (count : Nat) (scheduler : Scheduler) : Prop where
  position : ∀ task, scheduler.task = some task →
    statements ≠ [] ∧ task.cursor.statements = statements ∧
      task.cursor.index = count % statements.length
  waits : ∀ task due, scheduler.task = some task → task.phase = .waiting due →
    scheduler.state = .running

theorem streaming_ofSettings (settings : LoopSettings) :
    Streaming [] 0 (Scheduler.ofSettings settings) :=
  ⟨by simp [ofSettings], by simp [ofSettings]⟩

theorem streaming_start (scheduler : Scheduler) (statements : List Text) :
    Streaming statements 0 (scheduler.start statements) := by
  unfold start
  split
  · exact ⟨by simp, by simp⟩
  · rename_i nonempty
    refine ⟨?_, ?_⟩
    · intro task started
      cases started
      exact ⟨by simpa using nonempty, rfl, (Nat.zero_mod _).symm⟩
    · intro task due started _
      rfl

theorem Streaming.setState {statements : List Text} {count : Nat} {scheduler : Scheduler}
    (streaming : Streaming statements count scheduler) (state : RunState) :
    Streaming statements count (scheduler.setState state) := by
  unfold Scheduler.setState
  split
  · exact streaming
  · refine ⟨?_, ?_⟩
    · intro task woken
      obtain ⟨old, present, rfl⟩ := Option.map_eq_some_iff.mp woken
      exact streaming.position old present
    · intro task due woken waiting
      obtain ⟨old, -, rfl⟩ := Option.map_eq_some_iff.mp woken
      cases waiting

theorem Streaming.pause {statements : List Text} {count : Nat} {scheduler : Scheduler}
    (streaming : Streaming statements count scheduler) :
    Streaming statements count scheduler.pause := by
  unfold Scheduler.pause
  split
  · exact streaming.setState .paused
  · exact streaming

theorem Streaming.resume {statements : List Text} {count : Nat} {scheduler : Scheduler}
    (streaming : Streaming statements count scheduler) :
    Streaming statements count scheduler.resume := by
  unfold Scheduler.resume
  split
  · exact streaming.setState .running
  · exact streaming

theorem streaming_stop (statements : List Text) (count : Nat) (scheduler : Scheduler) :
    Streaming statements count scheduler.stop := by
  refine ⟨?_, ?_⟩
  · intro task running
    cases running
  · intro task due running
    cases running

/-- An outcome that goes on with the stream after `count` of its statements: they are taken in turn and
each is run once. -/
structure Continues (run : Run σ) (statements : List Text) (count : Nat) (world : σ)
    (outcome : Outcome σ) : Prop where
  indices : outcome.visits.map Visit.index =
    cycle statements.length count outcome.visits.length
  nothing : statements = [] → outcome.visits = []
  replayed : outcome.world = replay run statements outcome.visits world
  streaming : Streaming statements (count + outcome.visits.length) outcome.scheduler

theorem Streaming.quiet {statements : List Text} {count : Nat} {scheduler : Scheduler}
    (streaming : Streaming statements count scheduler) (run : Run σ) (world : σ) :
    Continues run statements count world ⟨[], scheduler, world⟩ :=
  ⟨rfl, fun _ => rfl, rfl, streaming⟩

/-- A loop that is about to take a statement belongs to a running scheduler. -/
theorem Streaming.running_of_settle {statements : List Text} {count : Nat} {scheduler : Scheduler}
    (streaming : Streaming statements count scheduler) {task : LoopTask} {due : Nat}
    (present : scheduler.task = some task)
    (settled : settle scheduler.state scheduler.now task.phase = .waiting due) :
    scheduler.state = .running := by
  cases phase : task.phase with
  | looking =>
      rw [phase, settle] at settled
      split at settled
      · assumption
      · cases settled
  | waiting earlier => exact streaming.waits task earlier present phase
  | holding =>
      rw [phase] at settled
      cases settled

/-- A loop that has looked at the run state holds or waits. -/
theorem settle_ne_looking (state : RunState) (now : Nat) (phase : Phase) :
    settle state now phase ≠ .looking := by
  cases phase with
  | looking =>
      rw [settle]
      split <;> simp
  | waiting due => simp [settle]
  | holding => simp [settle]

/-- The three ways in which time passes: without a loop, for a loop that holds, and for a loop that takes
statements. -/
theorem advance_cases (run : Run σ) (scheduler : Scheduler) (duration : Nat) (world : σ) :
    (scheduler.task = none ∧ scheduler.perform run world (.advance duration) =
        ⟨[], { scheduler with now := scheduler.now + duration }, world⟩) ∨
      ∃ task, scheduler.task = some task ∧
        (scheduler.perform run world (.advance duration) =
              ⟨[], { scheduler with
                task := some { task with phase := .holding },
                now := scheduler.now + duration }, world⟩ ∨
          ∃ due, settle scheduler.state scheduler.now task.phase = .waiting due ∧
            let result := task.cursor.runUntil run (scheduler.now + duration)
              task.cursor.statements.length due world
            scheduler.perform run world (.advance duration) =
              ⟨result.1, { scheduler with
                task := some ⟨result.2.2.1, .waiting result.2.1⟩,
                now := scheduler.now + duration }, result.2.2.2⟩) := by
  unfold perform advance
  cases present : scheduler.task with
  | none => exact Or.inl ⟨rfl, rfl⟩
  | some task =>
      refine Or.inr ⟨task, rfl, ?_⟩
      cases settled : settle scheduler.state scheduler.now task.phase with
      | looking => exact absurd settled (settle_ne_looking _ _ _)
      | holding => exact Or.inl (by simp only [settled])
      | waiting due => exact Or.inr ⟨due, rfl, by simp only [settled]⟩

/-- The statements of an interval go on with the stream, and only a running scheduler takes any. -/
theorem Streaming.advance {statements : List Text} {count : Nat} {scheduler : Scheduler}
    (streaming : Streaming statements count scheduler) (run : Run σ) (duration : Nat) (world : σ) :
    Continues run statements count world (scheduler.perform run world (.advance duration)) ∧
      ((scheduler.perform run world (.advance duration)).visits ≠ [] →
        scheduler.state = .running) := by
  rcases advance_cases run scheduler duration world with
    ⟨absent, outcome⟩ | ⟨task, present, outcome | ⟨due, settled, outcome⟩⟩
  · rw [outcome]
    refine ⟨Streaming.quiet ⟨?_, ?_⟩ run world, by simp⟩
    · intro task present
      exact streaming.position task present
    · intro task due present
      exact streaming.waits task due present
  · rw [outcome]
    refine ⟨Streaming.quiet ⟨?_, ?_⟩ run world, by simp⟩
    · intro other same
      cases same
      exact streaming.position task present
    · intro other due same waiting
      cases same
      cases waiting
  · have running := streaming.running_of_settle present settled
    obtain ⟨nonempty, same, index⟩ := streaming.position task present
    have positive : 0 < statements.length := List.length_pos_iff.mpr nonempty
    have inside : task.cursor.index < task.cursor.statements.length := by
      rw [same, index]
      exact Nat.mod_lt _ positive
    obtain ⟨indices, kept, next, replayed⟩ :=
      LoopCursor.runUntil_streams run (scheduler.now + duration)
        task.cursor.statements.length due task.cursor world inside
    rw [same, index, cycle_mod] at indices
    rw [same] at kept next replayed
    rw [index, Nat.mod_add_mod] at next
    rw [outcome, same]
    refine ⟨⟨indices, fun empty => absurd empty nonempty, replayed, ?_, ?_⟩, fun _ => running⟩
    · intro other taken
      cases taken
      exact ⟨nonempty, kept, next⟩
    · intro _ _ _ _
      exact running

theorem Streaming.perform {statements : List Text} {count : Nat} {scheduler : Scheduler}
    (streaming : Streaming statements count scheduler) (run : Run σ) (world : σ)
    (operation : SchedulerOperation) (noStart : operation.isStart = false) :
    Continues run statements count world (scheduler.perform run world operation) := by
  cases operation with
  | start other => cases noStart
  | pause => exact streaming.pause.quiet run world
  | resume => exact streaming.resume.quiet run world
  | stop => exact (streaming_stop statements count scheduler).quiet run world
  | advance duration => exact (streaming.advance run duration world).1

theorem Continues.trans {run : Run σ} {statements : List Text} {count : Nat} {world : σ}
    {first later : Outcome σ} (before : Continues run statements count world first)
    (after : Continues run statements (count + first.visits.length) first.world later) :
    Continues run statements count world
      ⟨first.visits ++ later.visits, later.scheduler, later.world⟩ := by
  refine ⟨?_, ?_, ?_, ?_⟩
  · rw [List.map_append, before.indices, after.indices, List.length_append, cycle_append]
  · intro empty
    rw [before.nothing empty, after.nothing empty, List.append_nil]
  · rw [after.replayed, before.replayed, replay, replay, replay, List.foldl_append]
  · rw [List.length_append, ← Nat.add_assoc]
    exact after.streaming

/-- Operations without a start go on with the stream. -/
theorem Streaming.performAll {statements : List Text} {count : Nat} {scheduler : Scheduler}
    (streaming : Streaming statements count scheduler) (run : Run σ) (world : σ)
    (operations : List SchedulerOperation)
    (noStart : ∀ operation ∈ operations, operation.isStart = false) :
    Continues run statements count world (scheduler.performAll run world operations) := by
  induction operations generalizing scheduler count world with
  | nil => exact streaming.quiet run world
  | cons operation rest ih =>
      have first := streaming.perform run world operation (noStart operation (by simp))
      exact first.trans (ih first.streaming _ fun later member =>
        noStart later (List.mem_cons_of_mem _ member))

/-- After any operations the scheduler streams the statements of the last start. -/
theorem exists_streaming (run : Run σ) (scheduler : Scheduler) (world : σ)
    (operations : List SchedulerOperation) {statements : List Text} {count : Nat}
    (streaming : Streaming statements count scheduler) :
    ∃ last taken, Streaming last taken (scheduler.performAll run world operations).scheduler := by
  induction operations generalizing scheduler world statements count with
  | nil => exact ⟨statements, count, streaming⟩
  | cons operation rest ih =>
      by_cases starts : operation.isStart
      · cases operation with
        | start others => exact ih _ _ (streaming_start scheduler others)
        | pause | resume | stop | advance => cases starts
      · exact ih _ _ (streaming.perform run world operation (by simpa using starts)).streaming

end Scheduler

/-- Whatever happened before, a start puts its statements into the stream in place of all others: until
the next start the statements taken are those at the positions 0, 1, 2, … modulo their number, and
exactly these are run. A statement is taken only while the scheduler is running. -/
theorem statements_taken_in_turn (run : Run σ) (settings : LoopSettings) (world : σ)
    (before after : List SchedulerOperation) (statements : List Text)
    (noStart : ∀ operation ∈ after, operation.isStart = false) :
    let reached := (Scheduler.ofSettings settings).performAll run world before
    let outcome := (reached.scheduler.start statements).performAll run reached.world after
    (outcome.visits.map Visit.index =
        (List.range outcome.visits.length).map (· % statements.length)) ∧
      (statements = [] → outcome.visits = []) ∧
      outcome.world = replay run statements outcome.visits reached.world ∧
      ∀ operation, (reached.scheduler.perform run reached.world operation).visits ≠ [] →
        reached.scheduler.state = .running := by
  intro reached outcome
  have streams : Scheduler.Continues run statements 0 reached.world outcome :=
    (Scheduler.streaming_start reached.scheduler statements).performAll run reached.world after
      noStart
  refine ⟨?_, streams.nothing, streams.replayed, ?_⟩
  · rw [streams.indices, cycle]
    simp only [Nat.zero_add]
  · intro operation nonempty
    obtain ⟨last, taken, streaming⟩ := Scheduler.exists_streaming run
      (Scheduler.ofSettings settings) world before (Scheduler.streaming_ofSettings settings)
    cases operation with
    | advance duration => exact (streaming.advance run duration reached.world).2 nonempty
    | start | pause | resume | stop => exact absurd rfl nonempty

/-- Pauses before the first statement, inside a wait and back within one moment. -/
def pausedSession : List SchedulerOperation :=
  [.pause, .advance 7, .resume, .advance 120, .pause, .resume, .advance 3]

/-- Refuses `b` and keeps whatever it was given to run. -/
def refuseB : Run (List Text) := fun _ code log =>
  (if code = "b".toList then .error (.execution []) else .ok (), log ++ [code])

theorem statements_taken_in_turn_pausedSession :
    let reached := (Scheduler.ofSettings {}).performAll refuseB []
      [.start ["old".toList], .advance 15]
    let statements := ["a".toList, "b".toList, "time.sleep_ms(9)".toList]
    let outcome := (reached.scheduler.start statements).performAll refuseB reached.world
      pausedSession
    (∀ operation ∈ pausedSession, operation.isStart = false) ∧
      outcome.visits.map Visit.index = [0, 1, 2, 0, 1] ∧
      outcome.world = replay refuseB statements outcome.visits reached.world := by
  intro reached statements outcome
  have noStart : ∀ operation ∈ pausedSession, operation.isStart = false := by decide
  have taken : outcome.visits.length = 5 := by cbv
  obtain ⟨indices, -, replayed, -⟩ := statements_taken_in_turn refuseB {} []
    [.start ["old".toList], .advance 15] pausedSession statements noStart
  refine ⟨noStart, ?_, replayed⟩
  calc
    outcome.visits.map Visit.index =
        (List.range outcome.visits.length).map (· % statements.length) := indices
    _ = [0, 1, 2, 0, 1] := by
      rw [taken]
      decide

end Breadboard.Simulation
