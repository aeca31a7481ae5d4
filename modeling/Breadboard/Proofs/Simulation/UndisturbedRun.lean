import Breadboard.Proofs.Simulation.StatementStream

set_option autoImplicit false

namespace Breadboard.Simulation

variable {σ : Type}

/-- A loop that takes its statements one after the other from a time on. -/
structure Course (σ : Type) where
  run : Run σ
  settings : LoopSettings
  statements : List Text
  start : Nat
  world : σ

/-- When a loop takes a statement, and the state of what runs it. -/
structure Beat (σ : Type) where
  time : Nat
  world : σ

namespace Course

/-- The wait after a statement, and the state that it leaves. A pure wait runs nothing; any other
statement is followed by the delay for its success or its failure. -/
def take (course : Course σ) (statement : Text) (beat : Beat σ) : Nat × σ :=
  match Script.sleepDuration? statement with
  | some wait => (wait, beat.world)
  | none =>
    match course.run beat.time statement beat.world with
    | (.ok (), after) => (course.settings.statementDelay, after)
    | (.error _, after) => (course.settings.errorBackoff, after)

/-- What the loop does at its step of the given number. Behind the last statement comes the first. -/
def takeAt (course : Course σ) (step : Nat) (beat : Beat σ) : Nat × σ :=
  match course.statements[step % course.statements.length]? with
  | none => (course.settings.errorBackoff, beat.world)
  | some statement => course.take statement beat

/-- The steps of the loop, each when the wait after the one before it is over. -/
def beat (course : Course σ) : Nat → Beat σ
  | 0 => ⟨course.start, course.world⟩
  | step + 1 =>
    let before := course.beat step
    let (wait, after) := course.takeAt step before
    ⟨before.time + wait, after⟩

/-- The wait after a step. -/
def wait (course : Course σ) (step : Nat) : Nat :=
  (course.takeAt step (course.beat step)).1

def visit (course : Course σ) (step : Nat) : Visit :=
  ⟨(course.beat step).time, step % course.statements.length, course.wait step⟩

/-- The position before a step. -/
def cursor (course : Course σ) (step : Nat) : LoopCursor :=
  ⟨course.statements, step % course.statements.length, course.settings⟩

variable {course : Course σ}

theorem time_succ (step : Nat) :
    (course.beat (step + 1)).time = (course.beat step).time + course.wait step :=
  rfl

theorem time_le {first last : Nat} (behind : first ≤ last) :
    (course.beat first).time ≤ (course.beat last).time := by
  induction last, behind using Nat.le_induction with
  | base => exact Nat.le_refl _
  | succ last _ ih =>
      rw [time_succ]
      omega

/-- The cursor of the loop keeps to its course. -/
theorem step_cursor (nonempty : course.statements ≠ []) (step : Nat) :
    (course.cursor step).step course.run (course.beat step).time (course.beat step).world =
      (course.wait step, course.cursor (step + 1), (course.beat (step + 1)).world) := by
  have inside : step % course.statements.length < course.statements.length :=
    Nat.mod_lt _ (List.length_pos_iff.mpr nonempty)
  have found := List.getElem?_eq_getElem inside
  have next : (course.cursor step).next = course.cursor (step + 1) := by
    simp only [LoopCursor.next, cursor, Nat.mod_add_mod]
  have taken : course.takeAt step (course.beat step) =
      course.take course.statements[step % course.statements.length] (course.beat step) := by
    simp only [takeAt, found]
  have after : (course.beat (step + 1)).world = (course.takeAt step (course.beat step)).2 := rfl
  rw [wait, after, taken, ← next, take, LoopCursor.step]
  simp only [cursor, found]
  cases Script.sleepDuration? course.statements[step % course.statements.length] with
  | some wait => rfl
  | none =>
      rcases course.run (course.beat step).time
        course.statements[step % course.statements.length] (course.beat step).world with
        ⟨⟨fault⟩ | ⟨⟩, last⟩ <;> rfl

/-- No wait is empty if neither delay is and no statement is a wait of zero milliseconds. -/
theorem one_le_wait (success : 1 ≤ course.settings.statementDelay)
    (failure : 1 ≤ course.settings.errorBackoff)
    (asked : ∀ statement ∈ course.statements, Script.sleepDuration? statement ≠ some 0)
    (step : Nat) : 1 ≤ course.wait step := by
  rw [wait, takeAt]
  split
  · exact failure
  · rename_i statement found
    rw [take]
    split
    · rename_i wait asks
      have notZero := asked statement (List.mem_of_getElem? found)
      rw [asks] at notZero
      exact Nat.one_le_iff_ne_zero.mpr fun zero => notZero (congrArg some zero)
    · split
      · exact success
      · exact failure

/-- The steps from `first` up to `last`, which is the first one that the limit is too early for. -/
structure Reaches (course : Course σ) (limit first last : Nat) : Prop where
  onward : first ≤ last
  early : ∀ step, first ≤ step → step < last → (course.beat step).time < limit
  late : limit ≤ (course.beat last).time

def visits (course : Course σ) (first last : Nat) : List Visit :=
  (List.range' first (last - first)).map course.visit

theorem visits_self (step : Nat) : course.visits step step = [] := by
  rw [visits, Nat.sub_self]
  rfl

theorem visits_cons {first last : Nat} (behind : first < last) :
    course.visits first last = course.visit first :: course.visits (first + 1) last := by
  have length : last - first = (last - (first + 1)) + 1 := by omega
  rw [visits, length, List.range'_succ, List.map_cons, visits]

theorem visits_append {first middle last : Nat} (before : first ≤ middle) (after : middle ≤ last) :
    course.visits first middle ++ course.visits middle last = course.visits first last := by
  have position : middle = first + 1 * (middle - first) := by omega
  have length : middle - first + (last - middle) = last - first := by omega
  rw [visits, visits, visits, ← List.map_append]
  conv_lhs => rw [show List.range' middle (last - middle) =
    List.range' (first + 1 * (middle - first)) (last - middle) by rw [← position]]
  rw [List.range'_append, length]

/-- A loop without empty waits takes exactly the steps that come before the limit. -/
theorem runUntil_cursor (nonempty : course.statements ≠ []) {limit : Nat}
    (waits : ∀ step, (course.beat step).time < limit → 1 ≤ course.wait step) (turn first : Nat) :
    ∃ last, course.Reaches limit first last ∧
      (course.cursor first).runUntil course.run limit turn (course.beat first).time
          (course.beat first).world =
        (course.visits first last, (course.beat last).time, course.cursor last,
          (course.beat last).world) := by
  induction remaining : limit - (course.beat first).time using Nat.strongRecOn generalizing turn first with
  | ind left ih =>
      by_cases early : (course.beat first).time < limit
      · have someWait := waits first early
        have notZero : ¬course.wait first = 0 := by omega
        have sooner : limit - (course.beat (first + 1)).time < left := by
          rw [time_succ]
          omega
        obtain ⟨last, ⟨onward, earlier, late⟩, following⟩ :=
          ih _ sooner (course.cursor first).statements.length (first + 1) rfl
        refine ⟨last, ⟨by omega, ?_, late⟩, ?_⟩
        · intro step from' before
          rcases Nat.eq_or_lt_of_le from' with rfl | behind
          · exact early
          · exact earlier step behind before
        · have visits : course.visits first last =
              course.visit first :: course.visits (first + 1) last := visits_cons onward
          rw [LoopCursor.runUntil, if_pos early, step_cursor nonempty]
          dsimp only
          rw [if_neg notZero, ← time_succ, following, visits]
          rfl
      · refine ⟨first, ⟨Nat.le_refl _, fun step from' before => by omega, by omega⟩, ?_⟩
        rw [LoopCursor.runUntil, if_neg early, visits_self]

end Course

def SchedulerOperation.duration : SchedulerOperation → Nat
  | advance duration => duration
  | start _ | pause | resume | stop => 0

namespace Scheduler

/-- The host lets time pass without starting anew or changing the run state. -/
structure Undisturbed (run : Run σ) (scheduler : Scheduler) (world : σ)
    (operations : List SchedulerOperation) : Prop where
  noStart : ∀ operation ∈ operations, operation.isStart = false
  unchanged : ∀ front, front <+: operations →
    (scheduler.performAll run world front).scheduler.state = scheduler.state

/-- The loop has taken `count` steps of its course and waits for the next one. -/
structure OnCourse (course : Course σ) (count : Nat) (scheduler : Scheduler) (world : σ) : Prop where
  state : scheduler.state = .running
  task : ∃ phase, scheduler.task = some ⟨course.cursor count, phase⟩ ∧
    settle .running scheduler.now phase = .waiting (course.beat count).time
  world : world = (course.beat count).world
  ahead : scheduler.now ≤ (course.beat count).time

theorem onCourse_start (run : Run σ) {scheduler : Scheduler} {settings : LoopSettings}
    (same : scheduler.settings = settings) (world : σ) {statements : List Text}
    (nonempty : statements ≠ []) :
    OnCourse ⟨run, settings, statements, scheduler.now, world⟩ 0 (scheduler.start statements)
      world := by
  have started : scheduler.start statements =
      { scheduler with
        task := some ⟨LoopCursor.start scheduler.settings statements, .looking⟩
        state := .running } := by
    rw [start, if_neg (by simpa using nonempty)]
  rw [started]
  refine ⟨rfl, ⟨.looking, ?_, rfl⟩, rfl, Nat.le_refl _⟩
  rw [same]
  simp only [LoopCursor.start, Course.cursor, Nat.zero_mod]

/-- Time takes a loop along its course. -/
theorem OnCourse.advance {course : Course σ} (nonempty : course.statements ≠ []) {count : Nat}
    {scheduler : Scheduler} {world : σ} (onCourse : OnCourse course count scheduler world)
    (duration : Nat)
    (waits : ∀ step, (course.beat step).time < scheduler.now + duration → 1 ≤ course.wait step) :
    let outcome := scheduler.perform course.run world (.advance duration)
    ∃ next, course.Reaches outcome.scheduler.now count next ∧
      outcome.visits = course.visits count next ∧
      OnCourse course next outcome.scheduler outcome.world := by
  obtain ⟨phase, present, settled⟩ := onCourse.task
  obtain ⟨last, reaches, ran⟩ := course.runUntil_cursor nonempty waits
    (course.cursor count).statements.length count
  have outcome : scheduler.perform course.run world (.advance duration) =
      ⟨course.visits count last, { scheduler with
        task := some ⟨course.cursor last, .waiting (course.beat last).time⟩
        now := scheduler.now + duration }, (course.beat last).world⟩ := by
    rw [perform, Scheduler.advance, present]
    simp only [onCourse.state, settled, onCourse.world, ran]
  rw [outcome]
  exact ⟨last, reaches, rfl, onCourse.state, ⟨_, rfl, rfl⟩, rfl, reaches.late⟩

/-- An operation sets the state and the task. Only letting time pass moves the clock. -/
theorem scheduler_perform (run : Run σ) (scheduler : Scheduler) (world : σ)
    (operation : SchedulerOperation) :
    ∃ state task, (scheduler.perform run world operation).scheduler =
      { scheduler with state, task, now := scheduler.now + operation.duration } := by
  have sets (state : RunState) :
      ∃ after task, scheduler.setState state = { scheduler with state := after, task } := by
    rw [setState]
    split
    · exact ⟨_, _, rfl⟩
    · exact ⟨_, _, rfl⟩
  cases operation with
  | start statements =>
      rw [perform, start]
      split
      · exact ⟨_, _, rfl⟩
      · exact ⟨_, _, rfl⟩
  | pause =>
      rw [perform, pause]
      split
      · exact sets .paused
      · exact ⟨_, _, rfl⟩
  | resume =>
      rw [perform, resume]
      split
      · exact sets .running
      · exact ⟨_, _, rfl⟩
  | stop => exact ⟨_, _, rfl⟩
  | advance duration =>
      rcases advance_cases run scheduler duration world with
        ⟨-, eq⟩ | ⟨task, -, eq | ⟨due, -, eq⟩⟩ <;> rw [eq] <;> exact ⟨_, _, rfl⟩

theorem now_perform (run : Run σ) (scheduler : Scheduler) (world : σ)
    (operation : SchedulerOperation) :
    (scheduler.perform run world operation).scheduler.now =
      scheduler.now + operation.duration := by
  obtain ⟨state, task, after⟩ := scheduler_perform run scheduler world operation
  rw [after]

theorem scheduler_performAll (run : Run σ) (scheduler : Scheduler) (world : σ)
    (operations : List SchedulerOperation) :
    ∃ state task, (scheduler.performAll run world operations).scheduler =
      { scheduler with
        state, task, now := scheduler.now + (operations.map SchedulerOperation.duration).sum } := by
  induction operations generalizing scheduler world with
  | nil => exact ⟨_, _, rfl⟩
  | cons operation rest ih =>
      obtain ⟨_, _, first⟩ := scheduler_perform run scheduler world operation
      obtain ⟨state, task, onward⟩ := ih (scheduler.perform run world operation).scheduler
        (scheduler.perform run world operation).world
      refine ⟨state, task, ?_⟩
      rw [performAll, onward, first, List.map_cons, List.sum_cons, Nat.add_assoc]

theorem now_performAll (run : Run σ) (scheduler : Scheduler) (world : σ)
    (operations : List SchedulerOperation) :
    (scheduler.performAll run world operations).scheduler.now =
      scheduler.now + (operations.map SchedulerOperation.duration).sum := by
  obtain ⟨state, task, after⟩ := scheduler_performAll run scheduler world operations
  rw [after]

theorem settings_performAll (run : Run σ) (scheduler : Scheduler) (world : σ)
    (operations : List SchedulerOperation) :
    (scheduler.performAll run world operations).scheduler.settings = scheduler.settings := by
  obtain ⟨state, task, after⟩ := scheduler_performAll run scheduler world operations
  rw [after]

/-- What an operation leaves undisturbed: time passes, or nothing happens. -/
theorem Undisturbed.head {run : Run σ} {scheduler : Scheduler} {world : σ}
    {operation : SchedulerOperation} {rest : List SchedulerOperation}
    (undisturbed : Undisturbed run scheduler world (operation :: rest))
    (running : scheduler.state = .running) :
    operation = .resume ∧ scheduler.resume = scheduler ∨
      ∃ duration, operation = .advance duration := by
  have noStart := undisturbed.noStart operation List.mem_cons_self
  have same : (scheduler.perform run world operation).scheduler.state = .running := by
    rw [← running]
    exact undisturbed.unchanged [operation] (by simp)
  cases operation with
  | start statements => cases noStart
  | pause =>
      rw [perform, pause, if_pos running, setState, if_neg (by rw [running]; decide)] at same
      cases same
  | resume => exact Or.inl ⟨rfl, by rw [resume, if_neg (by rw [running]; decide)]⟩
  | stop =>
      rw [perform, stop, running] at same
      cases same
  | advance duration => exact Or.inr ⟨duration, rfl⟩

theorem Undisturbed.tail {run : Run σ} {scheduler : Scheduler} {world : σ}
    {operation : SchedulerOperation} {rest : List SchedulerOperation}
    (undisturbed : Undisturbed run scheduler world (operation :: rest)) :
    let outcome := scheduler.perform run world operation
    Undisturbed run outcome.scheduler outcome.world rest := by
  intro outcome
  have same : outcome.scheduler.state = scheduler.state :=
    undisturbed.unchanged [operation] (by simp)
  refine ⟨fun later member => undisturbed.noStart later (List.mem_cons_of_mem _ member), ?_⟩
  intro front isFront
  rw [same]
  exact undisturbed.unchanged (operation :: front) (List.prefix_cons_inj _ |>.mpr isFront)

/-- Letting time pass disturbs nothing, nor does resuming a loop that runs. -/
theorem undisturbed_of_passing (run : Run σ) {scheduler : Scheduler} (world : σ)
    (running : scheduler.state = .running) {operations : List SchedulerOperation}
    (passing : ∀ operation ∈ operations,
      operation = .resume ∨ ∃ duration, operation = .advance duration) :
    Undisturbed run scheduler world operations := by
  refine ⟨fun operation member => ?_, fun front isFront => ?_⟩
  · rcases passing operation member with rfl | ⟨duration, rfl⟩ <;> rfl
  · have passingFront := fun operation member => passing operation (isFront.subset member)
    clear isFront passing
    induction front generalizing scheduler world with
    | nil => rfl
    | cons operation rest ih =>
        have same : (scheduler.perform run world operation).scheduler.state = scheduler.state := by
          rcases passingFront operation List.mem_cons_self with rfl | ⟨duration, rfl⟩
          · rw [perform, resume, if_neg (by rw [running]; decide)]
          · rcases advance_cases run scheduler duration world with
              ⟨-, eq⟩ | ⟨task, -, eq | ⟨due, -, eq⟩⟩ <;> rw [eq]
        rw [Scheduler.performAll, ih _ (same.trans running) fun later member =>
          passingFront later (List.mem_cons_of_mem _ member), same]

/-- A loop that is left alone stays on its course until the end. -/
theorem OnCourse.performAll {course : Course σ} (nonempty : course.statements ≠ []) {count : Nat}
    {scheduler : Scheduler} {world : σ} (onCourse : OnCourse course count scheduler world)
    {operations : List SchedulerOperation}
    (undisturbed : Undisturbed course.run scheduler world operations)
    (waits : ∀ step, (course.beat step).time <
      scheduler.now + (operations.map SchedulerOperation.duration).sum → 1 ≤ course.wait step) :
    let outcome := scheduler.performAll course.run world operations
    ∃ last, course.Reaches outcome.scheduler.now count last ∧
      outcome.visits = course.visits count last ∧
      OnCourse course last outcome.scheduler outcome.world := by
  induction operations generalizing scheduler world count with
  | nil =>
      refine ⟨count, ⟨Nat.le_refl _, ?_, onCourse.ahead⟩, (Course.visits_self count).symm, onCourse⟩
      intro step from' before
      omega
  | cons operation rest ih =>
      have following := undisturbed.tail
      rcases undisturbed.head onCourse.state with ⟨rfl, same⟩ | ⟨duration, rfl⟩
      · have nothing : scheduler.perform course.run world .resume = ⟨[], scheduler, world⟩ := by
          rw [perform, same]
        rw [nothing] at following
        obtain ⟨last, reaches, visits, final⟩ := ih onCourse following
          fun step early => waits step (by simpa [SchedulerOperation.duration] using early)
        rw [Scheduler.performAll, nothing]
        exact ⟨last, reaches, visits, final⟩
      · have total : ((SchedulerOperation.advance duration :: rest).map
            SchedulerOperation.duration).sum =
              duration + (rest.map SchedulerOperation.duration).sum := by
          rw [List.map_cons, List.sum_cons]
          rfl
        have passed : (scheduler.perform course.run world (.advance duration)).scheduler.now =
            scheduler.now + duration := now_perform course.run scheduler world _
        rw [total] at waits
        obtain ⟨middle, first, firstVisits, onward⟩ := onCourse.advance nonempty duration
          fun step early => waits step (by omega)
        obtain ⟨last, second, secondVisits, final⟩ := ih onward following
          fun step early => waits step (by omega)
        have bound := now_performAll course.run
          (scheduler.perform course.run world (.advance duration)).scheduler
          (scheduler.perform course.run world (.advance duration)).world rest
        refine ⟨last, ⟨first.onward.trans second.onward, ?_, second.late⟩, ?_, final⟩
        · intro step from' before
          by_cases inFirst : step < middle
          · have early := first.early step from' inFirst
            rw [Scheduler.performAll, bound]
            omega
          · exact second.early step (by omega) before
        · rw [Scheduler.performAll, firstVisits, secondVisits,
            Course.visits_append first.onward second.onward]

end Scheduler

/-- The steps that a run takes until nobody lets more time pass are exactly those of its course that
come before this time, however the time is divided, if no wait on the way is empty. -/
theorem undisturbed_run_keeps_course (run : Run σ) (settings : LoopSettings) (world : σ)
    (before after : List SchedulerOperation) {statements : List Text} (nonempty : statements ≠ []) :
    let reached := (Scheduler.ofSettings settings).performAll run world before
    let started := reached.scheduler.start statements
    let course : Course σ := ⟨run, settings, statements, reached.scheduler.now, reached.world⟩
    let limit := course.start + (after.map SchedulerOperation.duration).sum
    started.Undisturbed run reached.world after →
    (∀ step, (course.beat step).time < limit → 1 ≤ course.wait step) →
      ∃ count, (∀ step, (course.beat step).time < limit ↔ step < count) ∧
        let outcome := started.performAll run reached.world after
        outcome.visits = (List.range count).map course.visit ∧
          outcome.world = (course.beat count).world ∧
          ∀ divided : List SchedulerOperation, started.Undisturbed run reached.world divided →
            (divided.map SchedulerOperation.duration).sum =
              (after.map SchedulerOperation.duration).sum →
            (started.performAll run reached.world divided).visits = outcome.visits ∧
              (started.performAll run reached.world divided).world = outcome.world := by
  intro reached started course limit undisturbed waits
  have same : reached.scheduler.settings = settings :=
    Scheduler.settings_performAll run (Scheduler.ofSettings settings) world before
  have fresh : Scheduler.OnCourse course 0 started reached.world :=
    Scheduler.onCourse_start run same reached.world nonempty
  have now : started.now = course.start :=
    Scheduler.now_perform run reached.scheduler reached.world (.start statements)
  -- Any division of the time takes the same steps: those before the limit.
  have keeps (divided : List SchedulerOperation)
      (alone : started.Undisturbed run reached.world divided)
      (total : (divided.map SchedulerOperation.duration).sum =
        (after.map SchedulerOperation.duration).sum) :
      ∃ count, (∀ step, (course.beat step).time < limit ↔ step < count) ∧
        (started.performAll run reached.world divided).visits =
          (List.range count).map course.visit ∧
        (started.performAll run reached.world divided).world = (course.beat count).world := by
    obtain ⟨count, reaches, visits, final⟩ := fresh.performAll nonempty alone (by rwa [now, total])
    rw [Scheduler.now_performAll, now, total] at reaches
    refine ⟨count, fun step => ⟨fun early => ?_, reaches.early step (Nat.zero_le _)⟩, ?_, final.world⟩
    · by_contra behind
      have later := course.time_le (Nat.le_of_not_lt behind)
      have late := reaches.late
      omega
    · rw [visits, Course.visits, Nat.sub_zero, List.range_eq_range']
  obtain ⟨count, early, visits, final⟩ := keeps after undisturbed rfl
  refine ⟨count, early, visits, final, fun divided alone total => ?_⟩
  obtain ⟨other, otherEarly, otherVisits, otherFinal⟩ := keeps divided alone total
  have equal : other = count := by
    have first := (otherEarly count).symm.trans (early count)
    have second := (otherEarly other).symm.trans (early other)
    omega
  rw [visits, final, otherVisits, otherFinal, equal]
  exact ⟨rfl, rfl⟩

/-- A wait between a statement that succeeds and one that is refused. -/
def waitBetween : List Text :=
  ["a".toList, "time.sleep_ms(500)".toList, "b".toList]

theorem undisturbed_run_keeps_course_waitBetween :
    let reached := (Scheduler.ofSettings {}).performAll refuseB []
      [.start ["old".toList], .advance 15]
    let started := reached.scheduler.start waitBetween
    let course : Course (List Text) :=
      ⟨refuseB, {}, waitBetween, reached.scheduler.now, reached.world⟩
    waitBetween ≠ [] ∧ started.Undisturbed refuseB reached.world [.advance 525] ∧
      (∀ step, (course.beat step).time < 15 + 525 → 1 ≤ course.wait step) ∧
      (started.performAll refuseB reached.world [.advance 525]).visits =
        [⟨15, 0, 10⟩, ⟨25, 1, 500⟩, ⟨525, 2, 100⟩] ∧
      (started.performAll refuseB reached.world
        [.advance 100, .resume, .advance 425]).visits =
        [⟨15, 0, 10⟩, ⟨25, 1, 500⟩, ⟨525, 2, 100⟩] := by
  intro reached started course
  have nonempty : waitBetween ≠ [] := by decide
  have running : started.state = .running := rfl
  have once : started.Undisturbed refuseB reached.world [.advance 525] :=
    Scheduler.undisturbed_of_passing refuseB reached.world running (by simp)
  have divided : started.Undisturbed refuseB reached.world [.advance 100, .resume, .advance 425] :=
    Scheduler.undisturbed_of_passing refuseB reached.world running (by simp)
  have durations : waitBetween.map Script.sleepDuration? = [none, some 500, none] := by cbv
  have asked : ∀ statement ∈ waitBetween, Script.sleepDuration? statement ≠ some 0 := by
    intro statement member zero
    have listed := List.mem_map_of_mem (f := Script.sleepDuration?) member
    rw [durations, zero] at listed
    revert listed
    decide
  have waits : ∀ step, 1 ≤ course.wait step :=
    course.one_le_wait (by decide) (by decide) asked
  obtain ⟨count, early, visits, -, same⟩ := undisturbed_run_keeps_course refuseB {} []
    [.start ["old".toList], .advance 15] [.advance 525] nonempty once fun step _ => waits step
  have two : (course.beat 2).time = 525 := by cbv
  have three : (course.beat 3).time = 625 := by cbv
  have below : 2 < count := (early 2).mp (show (course.beat 2).time < 540 by omega)
  have above : ¬3 < count := fun later =>
    absurd ((early 3).mpr later) (show ¬(course.beat 3).time < 540 by omega)
  obtain rfl : count = 3 := by omega
  have taken : (List.range 3).map course.visit =
      [⟨15, 0, 10⟩, ⟨25, 1, 500⟩, ⟨525, 2, 100⟩] := by cbv
  refine ⟨nonempty, once, fun step _ => waits step, visits.trans taken, ?_⟩
  exact ((same _ divided rfl).1.trans visits).trans taken

end Breadboard.Simulation
