import Breadboard.Proofs.Simulation.StatementStream

set_option autoImplicit false

namespace Breadboard.Simulation

variable {σ : Type}

/-- What can be seen of a loop in the course of time. -/
inductive Moment where
  | taken (visit : Visit)
  /-- The run state becomes another one. -/
  | changed (time : Nat) (state : RunState)
  deriving DecidableEq, Repr

def Moment.visit? : Moment → Option Visit
  | taken visit => some visit
  | changed _ _ => none

/-- The moments of a loop that keeps to its waits: it takes a statement only while running and at the
time that is due. After a statement its wait has to pass; a change of the run state makes the next
statement due at once. -/
inductive Punctual : RunState → Nat → List Moment → Prop where
  | nil {state : RunState} {due : Nat} : Punctual state due []
  | taken {state : RunState} {due : Nat} {visit : Visit} {rest : List Moment}
      (running : state = .running) (onTime : visit.time = due)
      (later : Punctual state (visit.time + visit.wait) rest) :
      Punctual state due (.taken visit :: rest)
  | changed {state next : RunState} {due time : Nat} {rest : List Moment} (other : next ≠ state)
      (later : Punctual next time rest) : Punctual state due (.changed time next :: rest)

/-- What is left of a punctual loop's moments behind some of them. -/
theorem Punctual.drop {state : RunState} {due : Nat} {first rest : List Moment}
    (punctual : Punctual state due (first ++ rest)) :
    ∃ state' due', Punctual state' due' rest := by
  induction first generalizing state due with
  | nil => exact ⟨state, due, punctual⟩
  | cons moment more ih =>
      cases punctual with
      | taken _ _ later => exact ih later
      | changed _ later => exact ih later

/-- The last of the changes before a statement decides when it comes, and sets the loop running. -/
theorem Punctual.time_next {state : RunState} {due : Nat} {changes : List (Nat × RunState)}
    {next : Visit} {rest : List Moment}
    (punctual : Punctual state due
      (changes.map (fun change => .changed change.1 change.2) ++ .taken next :: rest)) :
    next.time = (changes.getLast?.map Prod.fst).getD due ∧
      (changes.getLast?.map Prod.snd).getD state = .running := by
  induction changes generalizing state due with
  | nil =>
      cases punctual with
      | taken running onTime _ => exact ⟨onTime, running⟩
  | cons change more ih =>
      cases punctual with
      | changed _ later =>
          have following := ih later
          rw [List.getLast?_cons, Option.map_some, Option.map_some, Option.getD_some,
            Option.getD_some]
          cases last : more.getLast? with
          | none => simpa [last] using following
          | some final => simpa [last] using following

/-- The visit waits as long as its statement asks for, if the statement is a pure wait. -/
def Visit.IsAsked (statements : List Text) (visit : Visit) : Prop :=
  ∀ statement ∈ statements[visit.index]?, ∀ wait ∈ Script.sleepDuration? statement,
    visit.wait = wait

namespace LoopCursor

theorem step_statements (run : Run σ) (now : Nat) (cursor : LoopCursor) (world : σ) :
    (cursor.step run now world).2.1.statements = cursor.statements := by
  unfold step
  split
  · rfl
  · split
    · rfl
    · split <;> rfl

theorem step_isAsked (run : Run σ) (now : Nat) (cursor : LoopCursor) (world : σ) :
    Visit.IsAsked cursor.statements ⟨now, cursor.index, (cursor.step run now world).1⟩ := by
  intro statement member wait asked
  unfold step
  simp only [Option.mem_def] at member asked
  simp only [member, asked]

/-- The statements taken until a limit are punctual, and the next one is due when the last wait is
over. -/
theorem runUntil_punctual (run : Run σ) (limit turn due : Nat) (cursor : LoopCursor) (world : σ)
    {rest : List Moment}
    (later : Punctual .running (cursor.runUntil run limit turn due world).2.1 rest) :
    Punctual .running due ((cursor.runUntil run limit turn due world).1.map .taken ++ rest) := by
  fun_induction runUntil run limit turn due cursor world with
  | case1 due cursor world early next after stepped visit => exact .taken rfl rfl later
  | case2 due cursor world early next after turn visits more taken stepped visit ih =>
      rw [taken] at ih
      exact .taken rfl rfl (ih later)
  | case3 turn due cursor world early wait next after stepped visit someWait visits more taken ih =>
      rw [taken] at ih
      exact .taken rfl rfl (ih later)
  | case4 turn due cursor world late => exact later

theorem runUntil_isAsked (run : Run σ) (limit turn due : Nat) (cursor : LoopCursor) (world : σ) :
    ∀ visit ∈ (cursor.runUntil run limit turn due world).1,
      visit.IsAsked cursor.statements := by
  have first : ∀ {now wait : Nat} {cursor next : LoopCursor} {world after : σ},
      cursor.step run now world = (wait, next, after) →
        Visit.IsAsked cursor.statements ⟨now, cursor.index, wait⟩ ∧
          next.statements = cursor.statements := by
    intro now wait cursor next world after stepped
    have asked := step_isAsked run now cursor world
    have same := step_statements run now cursor world
    rw [stepped] at asked same
    exact ⟨asked, same⟩
  fun_induction runUntil run limit turn due cursor world with
  | case1 due cursor world early next after stepped visit =>
      intro other member
      rw [List.mem_singleton.mp member]
      exact (first stepped).1
  | case2 due cursor world early next after turn visits more taken stepped visit ih =>
      rw [taken, (first stepped).2] at ih
      exact List.forall_mem_cons.mpr ⟨(first stepped).1, ih⟩
  | case3 turn due cursor world early wait next after stepped visit someWait visits more taken ih =>
      rw [taken, (first stepped).2] at ih
      exact List.forall_mem_cons.mpr ⟨(first stepped).1, ih⟩
  | case4 turn due cursor world late => exact fun _ member => by cases member

end LoopCursor

namespace Scheduler

/-- The change of the run state from one scheduler to the next. -/
def changes (before after : Scheduler) : List Moment :=
  if after.state = before.state then [] else [.changed before.now after.state]

/-- What is seen of a loop while a host does something with its scheduler. -/
def timeline (run : Run σ) (scheduler : Scheduler) (world : σ) :
    List SchedulerOperation → List Moment
  | [] => []
  | operation :: rest =>
    let outcome := scheduler.perform run world operation
    outcome.visits.map .taken ++ scheduler.changes outcome.scheduler ++
      outcome.scheduler.timeline run outcome.world rest

theorem filterMap_visit?_changes (before after : Scheduler) :
    (before.changes after).filterMap Moment.visit? = [] := by
  unfold changes
  split <;> rfl

/-- The statements of a timeline are the statements taken. -/
theorem filterMap_visit?_timeline (run : Run σ) (scheduler : Scheduler) (world : σ)
    (operations : List SchedulerOperation) :
    (scheduler.timeline run world operations).filterMap Moment.visit? =
      (scheduler.performAll run world operations).visits := by
  induction operations generalizing scheduler world with
  | nil => rfl
  | cons operation rest ih =>
      have visits : ∀ visits : List Visit,
          (visits.map Moment.taken).filterMap Moment.visit? = visits := by
        intro visits
        rw [List.filterMap_map]
        exact List.filterMap_some
      simp only [timeline, performAll, List.filterMap_append, visits, filterMap_visit?_changes, ih,
        List.append_nil]

/-- The loop's next statement is due at the given time. A loop that has yet to look at the run state
takes its statement when time next passes, and one that holds takes none. -/
structure Expects (due : Nat) (scheduler : Scheduler) : Prop where
  looking : ∀ task, scheduler.task = some task → task.phase = .looking → due = scheduler.now
  waiting : ∀ task time, scheduler.task = some task → task.phase = .waiting time →
    time = due ∧ scheduler.state = .running

theorem expects_start (scheduler : Scheduler) (statements : List Text) :
    Expects scheduler.now (scheduler.start statements) := by
  unfold start
  split
  · exact ⟨by simp, by simp⟩
  · refine ⟨fun task _ _ => rfl, fun task time present waiting => ?_⟩
    cases present
    cases waiting

/-- The moments of an operation belong between the due times before and after it. -/
def Bridges (due : Nat) (before : Scheduler) (visits : List Visit) (after : Scheduler) : Prop :=
  ∃ due', Expects due' after ∧ ∀ rest, Punctual after.state due' rest →
    Punctual before.state due (visits.map .taken ++ before.changes after ++ rest)

theorem Expects.refl {due : Nat} {scheduler : Scheduler} (expects : Expects due scheduler) :
    Bridges due scheduler [] scheduler := by
  refine ⟨due, expects, fun rest later => ?_⟩
  simpa [changes] using later

theorem bridges_setState {due : Nat} {scheduler : Scheduler} {state : RunState}
    (other : state ≠ scheduler.state) : Bridges due scheduler [] (scheduler.setState state) := by
  have changed : scheduler.setState state =
      { scheduler with
        state
        task := scheduler.task.map fun task => { task with phase := .looking } } := by
    rw [setState, if_neg (Ne.symm other)]
  refine ⟨scheduler.now, ⟨?_, ?_⟩, fun rest later => ?_⟩
  · intro task _ _
    rw [changed]
  · intro task time present waiting
    rw [changed] at present
    obtain ⟨old, -, rfl⟩ := Option.map_eq_some_iff.mp present
    cases waiting
  · rw [changed] at later ⊢
    rw [changes, if_neg other]
    exact Punctual.changed other later

theorem Expects.pause {due : Nat} {scheduler : Scheduler} (expects : Expects due scheduler) :
    Bridges due scheduler [] scheduler.pause := by
  unfold Scheduler.pause
  split
  · rename_i running
    exact bridges_setState (by rw [running]; decide)
  · exact expects.refl

theorem Expects.resume {due : Nat} {scheduler : Scheduler} (expects : Expects due scheduler) :
    Bridges due scheduler [] scheduler.resume := by
  unfold Scheduler.resume
  split
  · rename_i paused
    exact bridges_setState (by rw [paused]; decide)
  · exact expects.refl

/-- Without a loop nothing is taken, so any time can be said to be due. -/
theorem bridges_stop (due : Nat) (scheduler : Scheduler) :
    Bridges due scheduler [] scheduler.stop := by
  by_cases same : scheduler.stop.state = scheduler.state
  · refine ⟨due, ⟨by simp [stop], by simp [stop]⟩, fun rest later => ?_⟩
    rw [same] at later
    simpa [changes, same] using later
  · refine ⟨scheduler.now, ⟨by simp [stop], by simp [stop]⟩, fun rest later => ?_⟩
    rw [changes, if_neg same]
    exact Punctual.changed same later

/-- A loop that is about to take a statement takes it when it is due. -/
theorem Expects.settle {due time : Nat} {scheduler : Scheduler} (expects : Expects due scheduler)
    {task : LoopTask} (present : scheduler.task = some task)
    (settled : settle scheduler.state scheduler.now task.phase = .waiting time) :
    time = due ∧ scheduler.state = .running := by
  cases phase : task.phase with
  | looking =>
      have dueNow := expects.looking task present phase
      rw [phase, Scheduler.settle] at settled
      split at settled
      · rename_i running
        cases settled
        exact ⟨dueNow.symm, running⟩
      · cases settled
  | waiting earlier =>
      rw [phase] at settled
      cases settled
      exact expects.waiting task time present phase
  | holding =>
      rw [phase] at settled
      cases settled

theorem Expects.advance {due : Nat} {scheduler : Scheduler} (expects : Expects due scheduler)
    (run : Run σ) (duration : Nat) (world : σ) :
    Bridges due scheduler (scheduler.perform run world (.advance duration)).visits
      (scheduler.perform run world (.advance duration)).scheduler := by
  rcases advance_cases run scheduler duration world with
    ⟨absent, outcome⟩ | ⟨task, present, outcome | ⟨time, settled, outcome⟩⟩
  · rw [outcome]
    refine ⟨due, ⟨?_, ?_⟩, fun rest later => ?_⟩
    · intro task present
      exact absurd (absent.symm.trans present) (by simp)
    · intro task time present
      exact absurd (absent.symm.trans present) (by simp)
    · simpa [changes] using later
  · rw [outcome]
    refine ⟨due, ⟨?_, ?_⟩, fun rest later => ?_⟩
    · intro other same looking
      cases same
      cases looking
    · intro other time same waiting
      cases same
      cases waiting
    · simpa [changes] using later
  · obtain ⟨rfl, running⟩ := expects.settle present settled
    have punctual {rest : List Moment} := @LoopCursor.runUntil_punctual σ run
      (scheduler.now + duration) task.cursor.statements.length time task.cursor world rest
    rcases result : task.cursor.runUntil run (scheduler.now + duration)
      task.cursor.statements.length time world with ⟨visits, next, cursor, last⟩
    simp only [result] at outcome punctual
    rw [outcome]
    refine ⟨next, ⟨?_, ?_⟩, fun rest later => ?_⟩
    · intro other taken looking
      cases taken
      cases looking
    · intro other due taken waiting
      cases taken
      cases waiting
      exact ⟨rfl, running⟩
    · rw [running] at later ⊢
      simpa [changes, running] using punctual later

theorem Expects.perform {due : Nat} {scheduler : Scheduler} (expects : Expects due scheduler)
    (run : Run σ) (world : σ) (operation : SchedulerOperation)
    (noStart : operation.isStart = false) :
    Bridges due scheduler (scheduler.perform run world operation).visits
      (scheduler.perform run world operation).scheduler := by
  cases operation with
  | start statements => cases noStart
  | pause => exact expects.pause
  | resume => exact expects.resume
  | stop => exact bridges_stop due scheduler
  | advance duration => exact expects.advance run duration world

/-- Whatever a host does short of a start, the loop keeps to its waits. -/
theorem Expects.timeline_punctual {due : Nat} {scheduler : Scheduler}
    (expects : Expects due scheduler) (run : Run σ) (world : σ)
    (operations : List SchedulerOperation)
    (noStart : ∀ operation ∈ operations, operation.isStart = false) :
    Punctual scheduler.state due (scheduler.timeline run world operations) := by
  induction operations generalizing scheduler due world with
  | nil => exact .nil
  | cons operation rest ih =>
      obtain ⟨next, following, bridge⟩ :=
        expects.perform run world operation (noStart operation List.mem_cons_self)
      exact bridge _ (ih following _ fun later member =>
        noStart later (List.mem_cons_of_mem _ member))

/-- Each pure wait that is taken waits as long as it asks for. -/
theorem Streaming.performAll_isAsked {statements : List Text} {count : Nat} {scheduler : Scheduler}
    (streaming : Streaming statements count scheduler) (run : Run σ) (world : σ)
    (operations : List SchedulerOperation)
    (noStart : ∀ operation ∈ operations, operation.isStart = false) :
    ∀ visit ∈ (scheduler.performAll run world operations).visits, visit.IsAsked statements := by
  induction operations generalizing scheduler count world with
  | nil => exact fun _ member => by cases member
  | cons operation rest ih =>
      have here : ∀ visit ∈ (scheduler.perform run world operation).visits,
          visit.IsAsked statements := by
        cases operation with
        | start | pause | resume | stop => exact fun _ member => by cases member
        | advance duration =>
            rcases advance_cases run scheduler duration world with
              ⟨-, outcome⟩ | ⟨task, present, outcome | ⟨due, -, outcome⟩⟩
            · rw [outcome]
              exact fun _ member => by cases member
            · rw [outcome]
              exact fun _ member => by cases member
            · rw [outcome, ← (streaming.position task present).2.1]
              exact LoopCursor.runUntil_isAsked run _ _ due task.cursor world
      have following := (streaming.perform run world operation
        (noStart operation List.mem_cons_self)).streaming
      have later := ih following (scheduler.perform run world operation).world
        fun operation member => noStart operation (List.mem_cons_of_mem _ member)
      intro visit member
      exact (List.mem_append.mp member).elim (here visit) (later visit)

end Scheduler

/-- After a pure wait of `wait` milliseconds the next statement comes exactly at its end, unless the run
state changes in between; then it comes when the last of these changes has set the loop running. So a
wait is cut short exactly if that change comes before its end. -/
theorem next_taken_iff (run : Run σ) (settings : LoopSettings) (world : σ)
    (before after : List SchedulerOperation) (statements : List Text)
    (noStart : ∀ operation ∈ after, operation.isStart = false) :
    let reached := (Scheduler.ofSettings settings).performAll run world before
    let started := reached.scheduler.start statements
    let moments := started.timeline run reached.world after
    moments.filterMap Moment.visit? = (started.performAll run reached.world after).visits ∧
      ∀ (front back : List Moment) (visit next : Visit) (changes : List (Nat × RunState))
        (statement : Text) (wait : Nat),
        moments = front ++ .taken visit ::
          (changes.map (fun change => .changed change.1 change.2) ++ .taken next :: back) →
        statements[visit.index]? = some statement →
        Script.sleepDuration? statement = some wait →
          (changes.getLast?.map Prod.snd).getD .running = .running ∧
            next.time = (changes.getLast?.map Prod.fst).getD (visit.time + wait) ∧
            (visit.time + wait ≤ next.time ↔
              ∀ change ∈ changes.getLast?, visit.time + wait ≤ change.1) := by
  intro reached started moments
  have visits := Scheduler.filterMap_visit?_timeline run started reached.world after
  refine ⟨visits, ?_⟩
  intro front back visit next changes statement wait split found asks
  have punctual : Punctual started.state reached.scheduler.now moments :=
    (Scheduler.expects_start reached.scheduler statements).timeline_punctual run reached.world
      after noStart
  obtain ⟨state, due, behind⟩ := (split ▸ punctual).drop
  have asked : visit.wait = wait := by
    have member : visit ∈ moments.filterMap Moment.visit? :=
      List.mem_filterMap.mpr ⟨.taken visit, by simp [split], rfl⟩
    rw [visits] at member
    exact (Scheduler.streaming_start reached.scheduler statements).performAll_isAsked run
      reached.world after noStart visit member statement found wait asks
  cases behind with
  | taken running onTime later =>
      obtain ⟨time, resumed⟩ := later.time_next
      rw [running] at resumed
      rw [asked] at time
      refine ⟨resumed, time, ?_⟩
      rw [time]
      cases changes.getLast? with
      | none => simp
      | some change => simp

/-- A wait of 500 milliseconds with a pause in it. -/
def briefPause : List SchedulerOperation :=
  [.advance 10, .pause, .advance 20, .resume, .advance 5]

/-- Accepts any code and does nothing. -/
def acceptAll : Run Unit := fun _ _ _ => (.ok (), ())

/-- The wait and the statement behind it. -/
def waitThenA : List Text := ["time.sleep_ms(500)".toList, "a".toList]

theorem timeline_briefPause :
    ((Scheduler.ofSettings {}).start waitThenA).timeline acceptAll () briefPause =
      [.taken ⟨0, 0, 500⟩, .changed 10 .paused, .changed 30 .running, .taken ⟨30, 1, 10⟩] := by
  cbv

theorem next_taken_iff_briefPause :
    (∀ operation ∈ briefPause, operation.isStart = false) ∧
      (30 : Nat) = ([(10, RunState.paused), (30, RunState.running)].getLast?.map Prod.fst).getD
        (0 + 500) ∧
      ((0 + 500 ≤ 30) ↔ ∀ change ∈ [(10, RunState.paused), (30, RunState.running)].getLast?,
        0 + 500 ≤ change.1) := by
  have noStart : ∀ operation ∈ briefPause, operation.isStart = false := by decide
  obtain ⟨-, between⟩ := next_taken_iff acceptAll {} () [] briefPause waitThenA noStart
  obtain ⟨-, time, kept⟩ := between [] [] ⟨0, 0, 500⟩ ⟨30, 1, 10⟩
    [(10, .paused), (30, .running)] "time.sleep_ms(500)".toList 500 timeline_briefPause rfl (by cbv)
  exact ⟨noStart, time, kept⟩

/-- Pausing and resuming in a wait of 500 milliseconds ends it after 30. -/
theorem briefPause_cuts_wait :
    ¬ ∀ (run : Run Unit) (settings : LoopSettings) (statements : List Text)
      (operations : List SchedulerOperation) (front back : List Moment) (visit next : Visit)
      (changes : List (Nat × RunState)) (statement : Text) (wait : Nat),
      (∀ operation ∈ operations, operation.isStart = false) →
      ((Scheduler.ofSettings settings).start statements).timeline run () operations =
        front ++ .taken visit ::
          (changes.map (fun change => .changed change.1 change.2) ++ .taken next :: back) →
      statements[visit.index]? = some statement →
      Script.sleepDuration? statement = some wait → visit.time + wait ≤ next.time := by
  intro kept
  have early := kept acceptAll {} waitThenA briefPause [] [] ⟨0, 0, 500⟩ ⟨30, 1, 10⟩
    [(10, .paused), (30, .running)] "time.sleep_ms(500)".toList 500 (by decide)
    timeline_briefPause rfl (by cbv)
  revert early
  decide

end Breadboard.Simulation
