import Breadboard.Proofs.Simulation.LivePath
import Breadboard.Proofs.Simulation.SessionEvents

set_option autoImplicit false

namespace Breadboard.Simulation

variable {ι ω α : Type}

section

variable {start : Runner (Numbered ι) (Recorded ω) α} {session : List RunnerOperation}
  {events : List Event}

/-- What is known of the loop of the latest call: its setup went well on the loop's interpreter, and `count`
of its statements have been taken. -/
structure Loops (start : Runner (Numbered ι) (Recorded ω) α) (session : List RunnerOperation)
    (events : List Event) (statements : List Text) (count call : Nat) (script : Text)
    (split : Script.Split) (first : Event) (later : List Event) : Prop where
  found : session[call]? = some (.runScript script)
  isSplit : Script.split? script = some split
  body : statements = Script.statements split.body
  past : PastLoading start session call
  latest : ∀ other, PastLoading start session other → other ≤ call
  own : eventsOf call events = first :: later
  run : LoopRun call statements count first later
  succeeded : first.entry.succeeded = true
  named : (start.performAll session).numbers[(start.performAll session).looping]? =
    some first.entry.interpreter

/-- What holds after any session. -/
structure Chronicle (start : Runner (Numbered ι) (Recorded ω) α) (session : List RunnerOperation)
    (events : List Event) : Prop where
  told : Told start session events
  preluded : Preluded (start.performAll session) events
  called : Called start session events
  loop : ∃ statements count,
    Scheduler.Streaming statements count (start.performAll session).scheduler ∧
      (statements ≠ [] → ∃ call script split first later,
        Loops start session events statements count call script split first later)

/-- A call stays the latest while no other gets past loading. -/
theorem latest_concat {call : Nat}
    (latest : ∀ other, PastLoading start session other → other ≤ call) {last : RunnerOperation}
    (notPast : ¬PastLoading start (session ++ [last]) session.length) :
    ∀ other, PastLoading start (session ++ [last]) other → other ≤ call := by
  intro other isPast
  rcases Nat.lt_succ_iff_lt_or_eq.mp (by simpa using isPast.lt) with earlier | rfl
  · exact latest other ((pastLoading_concat earlier last).mp isPast)
  · exact absurd isPast notPast

/-- A loop goes on through operations that run the prelude at most. -/
theorem Loops.preludes {statements : List Text} {count call : Nat} {script : Text}
    {split : Script.Split} {first : Event} {later : List Event}
    (loops : Loops start session events statements count call script split first later)
    {last : RunnerOperation} {added : List Event}
    (preludes : ∀ event ∈ added, event.origin = .prelude)
    (notPast : ¬PastLoading start (session ++ [last]) session.length)
    (looping : ((start.performAll session).perform last).looping =
      (start.performAll session).looping)
    (numbers : (start.performAll session).numbers <+:
      ((start.performAll session).perform last).numbers) :
    Loops start (session ++ [last]) (events ++ added) statements count call script split first
      later := by
  have less := loops.past.lt
  have none : eventsOf call added = [] := by
    refine eventsOf_eq_nil fun event member => ?_
    rw [preludes event member]
    exact nofun
  refine { loops with
    found := getElem?_append_of_some loops.found _
    past := (pastLoading_concat less last).mpr loops.past
    latest := latest_concat loops.latest notPast
    own := by rw [eventsOf_append, none, List.append_nil, loops.own]
    named := ?_ }
  obtain ⟨rest, eq⟩ := numbers
  rw [Runner.performAll_concat, looping, ← eq,
    List.getElem?_append_left (List.getElem?_eq_some_iff.mp loops.named).1, loops.named]

/-- What an operation leads to that runs the prelude at most. -/
structure Prepares (runner after : Runner (Numbered ι) (Recorded ω) α) (events : List Event)
    (place : Nat) (tried : List Entry) : Prop where
  entries : after.world.entries = runner.world.entries ++ tried
  codes : ∀ entry ∈ tried, entry.code = prelude
  preluded : Preluded after (events ++ tried.map (preludeEvent place))
  numbers : runner.numbers <+: after.numbers
  looping : after.looping = runner.looping

/-- What keeps the interpreters and the world runs nothing. -/
theorem Preluded.prepares {runner after : Runner (Numbered ι) (Recorded ω) α}
    (preluded : Preluded runner events) (place : Nat) (world : after.world = runner.world)
    (numbers : after.numbers = runner.numbers) (current : after.current = runner.current)
    (looping : after.looping = runner.looping) : Prepares runner after events place [] := by
  refine ⟨by rw [world, List.append_nil], by simp, ?_, by rw [numbers], looping⟩
  exact preluded.runs numbers current (by rw [world]) (by simp)

theorem Runner.Tries.prepares {runner after : Runner (Numbered ι) (Recorded ω) α} {loaded : Bool}
    {tried : List Entry} (tries : runner.Tries after loaded tried)
    (preluded : Preluded runner events) (place : Nat) :
    Prepares runner after events place tried := by
  refine ⟨tries.entries, ?_, preluded.tries tries place, ?_, tries.looping⟩
  · rcases tries.entry with rfl | rfl <;> simp
  · cases loaded with
    | false =>
        have kept := tries.failed rfl
        rw [Runner.KeepsInterpreters] at kept
        rw [kept]
        exact List.prefix_rfl
    | true =>
        rw [(tries.stored rfl).2.1]
        exact List.prefix_append _ _

theorem Chronicle.prepares (chronicle : Chronicle start session events) {last : RunnerOperation}
    {tried : List Entry}
    (prepares : Prepares (start.performAll session) ((start.performAll session).perform last) events
      session.length tried)
    (notPast : ¬PastLoading start (session ++ [last]) session.length)
    (loop : ∃ statements count,
      Scheduler.Streaming statements count ((start.performAll session).perform last).scheduler ∧
        (statements ≠ [] → ∃ call script split first later,
          Loops start session events statements count call script split first later)) :
    Chronicle start (session ++ [last]) (events ++ tried.map (preludeEvent session.length)) := by
  have during : ∀ event ∈ tried.map (preludeEvent session.length),
      event.during = session.length := by
    simp [preludeEvent]
  have preludes : ∀ event ∈ tried.map (preludeEvent session.length), event.origin = .prelude := by
    simp [preludeEvent]
  refine ⟨chronicle.told.concat during ?_ ?_, ?_,
    chronicle.called.preludes chronicle.told during preludes notPast, ?_⟩
  · intro event member
    obtain ⟨entry, isTried, rfl⟩ := List.mem_map.mp member
    exact ⟨by simp [preludeEvent], prepares.codes entry isTried⟩
  · rw [prepares.entries, List.map_map]
    congr 1
    exact (List.map_id tried).symm
  · rw [Runner.performAll_concat]
    exact prepares.preluded
  · obtain ⟨statements, count, streaming, loops⟩ := loop
    rw [Runner.performAll_concat]
    refine ⟨statements, count, streaming, fun nonempty => ?_⟩
    obtain ⟨call, script, split, first, later, known⟩ := loops nonempty
    exact ⟨call, script, split, first, later,
      known.preludes preludes notPast prepares.looping prepares.numbers⟩

/-- The event of running a statement of a loop. -/
def statementEvent (place call : Nat) (ran : Nat × Entry) : Event :=
  ⟨place, .statement call ran.1, ran.2⟩

theorem LoopRun.append {call : Nat} {statements : List Text} {count steps : Nat} {first : Event}
    {later : List Event} (run : LoopRun call statements count first later)
    (succeeded : first.entry.succeeded = true) {ran : List (Nat × Entry)}
    (indices : ran.map Prod.fst =
      (cycle statements.length count steps).filter (isRun statements))
    (together : ∀ index entry, (index, entry) ∈ ran →
      entry.interpreter = first.entry.interpreter) (place : Nat) :
    LoopRun call statements (count + steps) first
      (later ++ ran.map (statementEvent place call)) := by
  refine ⟨run.setup, ?_, ?_, ?_⟩
  · have origins : (ran.map (statementEvent place call)).map Event.origin =
        (ran.map Prod.fst).map (.statement call) := by
      rw [List.map_map, List.map_map]
      rfl
    rw [List.map_append, run.inTurn, origins, indices, turns, turns, cycle_append, Nat.zero_add,
      List.filter_append, List.map_append]
  · intro event member
    rcases List.mem_append.mp member with earlier | late
    · exact run.together event earlier
    · obtain ⟨⟨index, entry⟩, isRan, rfl⟩ := List.mem_map.mp late
      exact together index entry isRan
  · rw [succeeded]
    exact nofun

theorem not_pastLoading_advance (duration : Nat) :
    ¬PastLoading start (session ++ [.advance duration]) session.length := by
  rw [pastLoading_length]
  rintro ⟨⟨script, eq⟩, -⟩
  cases eq

/-- A loop goes on while time passes. -/
theorem Loops.passes {statements : List Text} {count call : Nat} {script : Text}
    {split : Script.Split} {first : Event} {later : List Event}
    (loops : Loops start session events statements count call script split first later)
    {duration steps : Nat} {ran : List (Nat × Entry)}
    (passes : (start.performAll session).Passes ((start.performAll session).advance duration)
      statements count steps ran) :
    Loops start (session ++ [.advance duration])
      (events ++ ran.map (statementEvent session.length call)) statements (count + steps) call script
      split first (later ++ ran.map (statementEvent session.length call)) := by
  have own : eventsOf call (ran.map (statementEvent session.length call)) =
      ran.map (statementEvent session.length call) :=
    eventsOf_eq_self (List.forall_mem_map.mpr fun _ _ => rfl)
  refine { loops with
    found := getElem?_append_of_some loops.found _
    past := (pastLoading_concat loops.past.lt _).mpr loops.past
    latest := latest_concat loops.latest (not_pastLoading_advance duration)
    own := by rw [eventsOf_append, loops.own, own, List.cons_append]
    run := loops.run.append loops.succeeded passes.indices (fun index entry member => ?_) _
    named := ?_ }
  · have named := (passes.codes index entry member).1
    rw [loops.named] at named
    exact (Option.some.inj named).symm
  · rw [Runner.performAll_concat, Runner.perform, passes.numbers, passes.looping, loops.named]

theorem Chronicle.passes (chronicle : Chronicle start session events) {statements : List Text}
    {count call : Nat} {script : Text} {split : Script.Split} {first : Event} {later : List Event}
    (loops : Loops start session events statements count call script split first later)
    {duration steps : Nat} {ran : List (Nat × Entry)}
    (passes : (start.performAll session).Passes ((start.performAll session).advance duration)
      statements count steps ran) :
    Chronicle start (session ++ [.advance duration])
      (events ++ ran.map (statementEvent session.length call)) := by
  have next := loops.passes passes
  have during : ∀ event ∈ ran.map (statementEvent session.length call),
      event.during = session.length :=
    List.forall_mem_map.mpr fun _ _ => rfl
  refine ⟨chronicle.told.concat during ?_ ?_, ?_,
    chronicle.called.concat chronicle.told during ?_ ?_ ?_ ?_, ?_⟩
  · refine List.forall_mem_map.mpr fun (index, entry) member => ?_
    refine ⟨loops.past.lt, ⟨duration, List.getElem?_concat_length⟩, script, split, next.found,
      loops.isSplit, ?_⟩
    rw [← loops.body]
    exact (passes.codes index entry member).2
  · rw [Runner.perform, passes.entries, List.map_map]
    rfl
  · rw [Runner.performAll_concat]
    refine chronicle.preluded.runs passes.numbers passes.current passes.loads ?_
    exact List.forall_mem_map.mpr fun (index, entry) member =>
      ⟨List.mem_of_getElem? (passes.codes index entry member).1, by simp [statementEvent]⟩
  · exact List.forall_mem_map.mpr fun _ _ _ => ⟨call, rfl, next.past⟩
  · rintro - ⟨other, eq⟩
    cases eq
  · intro other code found isPast
    rcases getElem?_concat found with ⟨earlier, -⟩ | ⟨-, eq⟩
    · by_cases same : other = call
      · subst same
        rw [next.found] at found
        cases found
        refine Or.inr ?_
        rw [IsRunOf, loops.isSplit]
        exact ⟨first, _, _, next.own, loops.body ▸ next.run⟩
      · exact Or.inl ⟨earlier, eventsOf_eq_nil (List.forall_mem_map.mpr fun _ _ eq =>
          same (Option.some.inj eq).symm)⟩
    · cases eq
  · refine List.forall_mem_map.mpr fun _ _ other index origin later isPast => ?_
    cases origin
    exact next.latest later isPast
  · refine ⟨statements, count + steps, ?_, fun _ => ⟨call, script, split, first, _, next⟩⟩
    rw [Runner.performAll_concat]
    exact passes.streaming

/-- Where the first code of a script comes from. -/
def firstOrigin (call : Nat) (script : Text) : Origin :=
  match Script.split? script with
  | none => .whole call
  | some _ => .setup call

theorem call?_firstOrigin (call : Nat) (script : Text) :
    (firstOrigin call script).call? = some call := by
  rw [firstOrigin]
  split <;> rfl

/-- The event of running the first code of a script. -/
def callEvent (place : Nat) (script : Text) (entry : Entry) : Event :=
  ⟨place, firstOrigin place script, entry⟩

theorem isJustified_callEvent (session : List RunnerOperation) {script : Text} {entry : Entry}
    (code : entry.code = Runner.firstCode script) :
    (callEvent session.length script entry).IsJustified (session ++ [.runScript script]) := by
  have found : (session ++ [.runScript script])[session.length]? = some (.runScript script) :=
    List.getElem?_concat_length
  rw [Runner.firstCode] at code
  rw [Event.IsJustified, callEvent, firstOrigin]
  cases isSplit : Script.split? script with
  | none =>
      rw [isSplit] at code
      exact ⟨rfl, script, found, isSplit, code⟩
  | some split =>
      rw [isSplit] at code
      exact ⟨rfl, script, split, found, isSplit, code⟩

theorem isRunOf_callEvent (place : Nat) (script : Text) (entry : Entry) :
    IsRunOf place script [callEvent place script entry] := by
  rw [IsRunOf, callEvent, firstOrigin]
  cases Script.split? script with
  | none => exact ⟨_, rfl, rfl⟩
  | some split => exact ⟨_, [], 0, rfl, rfl, rfl, by simp, fun _ => rfl⟩

/-- The events of running a script: the prelude where it was tried, then the first code. -/
def playedEvents (place : Nat) (tried : List Entry) (script : Text) (entry : Entry) : List Event :=
  tried.map (preludeEvent place) ++ [callEvent place script entry]

section

variable {middle : Runner (Numbered ι) (Recorded ω) α} {place name : Nat} {tried : List Entry}
  {script : Text} {entry : Entry}

theorem forall_playedEvents {holds : Event → Prop}
    (preludes : ∀ tries ∈ tried, holds (preludeEvent place tries))
    (call : holds (callEvent place script entry)) :
    ∀ event ∈ playedEvents place tried script entry, holds event :=
  List.forall_mem_append.mpr ⟨List.forall_mem_map.mpr preludes, List.forall_mem_singleton.mpr call⟩

/-- Only the first code is an event of the call. -/
theorem eventsOf_playedEvents :
    eventsOf place (playedEvents place tried script entry) = [callEvent place script entry] := by
  rw [playedEvents, eventsOf_append, eventsOf_eq_nil, eventsOf_eq_self]
  · rfl
  · exact List.forall_mem_singleton.mpr (call?_firstOrigin _ _)
  · exact List.forall_mem_map.mpr fun _ _ => by simp [preludeEvent, Origin.call?]

theorem eventsOf_playedEvents_of_ne {other : Nat} (ne : other ≠ place) :
    eventsOf other (playedEvents place tried script entry) = [] := by
  refine eventsOf_eq_nil (forall_playedEvents (fun _ _ => by simp [preludeEvent, Origin.call?]) ?_)
  rw [callEvent, call?_firstOrigin]
  exact fun eq => ne (Option.some.inj eq).symm

theorem Chronicle.eventsOf_played (chronicle : Chronicle start session events) :
    eventsOf session.length (events ++ playedEvents session.length tried script entry) =
      [callEvent session.length script entry] := by
  rw [eventsOf_append, eventsOf_playedEvents, eventsOf_eq_nil, List.nil_append]
  exact fun event member eq => ((chronicle.told.justified event member).call_lt eq).ne rfl

/-- A script with a loop whose setup succeeds leaves its loop at the first statement. -/
theorem Runner.Plays.loops
    (plays : middle.Plays ((start.performAll session).perform (.runScript script)) name script entry)
    (named : middle.numbers[name]? = some entry.interpreter)
    (past : PastLoading start (session ++ [.runScript script]) session.length)
    {split : Script.Split} (isSplit : Script.split? script = some split)
    (succeeded : entry.succeeded = true)
    (own : eventsOf session.length events = [callEvent session.length script entry]) :
    Loops start (session ++ [.runScript script]) events (Script.statements split.body) 0
      session.length script split (callEvent session.length script entry) [] where
  found := List.getElem?_concat_length
  isSplit := isSplit
  body := rfl
  past := past
  latest := fun other isPast => Nat.lt_succ_iff.mp (by simpa using isPast.lt)
  own := own
  run := ⟨by rw [callEvent, firstOrigin, isSplit], rfl, by simp, fun _ => rfl⟩
  succeeded := succeeded
  named := by
    rw [Runner.performAll_concat, plays.numbers, (plays.started split isSplit succeeded).1, named]
    rfl

theorem Chronicle.plays (chronicle : Chronicle start session events)
    (prepares : Prepares (start.performAll session) middle events session.length tried)
    (plays : middle.Plays ((start.performAll session).perform (.runScript script)) name script entry)
    (named : middle.numbers[name]? = some entry.interpreter)
    (past : PastLoading start (session ++ [.runScript script]) session.length) :
    Chronicle start (session ++ [.runScript script])
      (events ++ playedEvents session.length tried script entry) := by
  have during : ∀ event ∈ playedEvents session.length tried script entry,
      event.during = session.length := forall_playedEvents (fun _ _ => rfl) rfl
  refine ⟨chronicle.told.concat during ?_ ?_, ?_,
    chronicle.called.concat chronicle.told during ?_ ?_ ?_ ?_, ?_⟩
  · exact forall_playedEvents
      (fun tries member => ⟨by simp [preludeEvent], prepares.codes tries member⟩)
      (isJustified_callEvent session plays.code)
  · rw [plays.entries, prepares.entries, playedEvents, List.map_append, List.append_assoc,
      List.map_map]
    congr 2
    exact (List.map_id tried).symm
  · rw [Runner.performAll_concat, playedEvents, ← List.append_assoc]
    refine prepares.preluded.runs plays.numbers plays.current plays.loads ?_
    refine List.forall_mem_singleton.mpr ⟨List.mem_of_getElem? named, ?_⟩
    rw [callEvent, firstOrigin]
    cases Script.split? script <;> simp
  · exact forall_playedEvents (fun _ _ other => absurd rfl other)
      fun _ => ⟨_, call?_firstOrigin _ _, past⟩
  · exact fun notPast => absurd past notPast
  · intro call code found isPast
    rcases getElem?_concat found with ⟨less, -⟩ | ⟨rfl, eq⟩
    · exact Or.inl ⟨less, eventsOf_playedEvents_of_ne less.ne⟩
    · cases eq
      rw [chronicle.eventsOf_played]
      exact Or.inr (isRunOf_callEvent _ _ _)
  · refine forall_playedEvents (fun _ _ => by simp [preludeEvent]) ?_
    intro call index origin
    rw [callEvent, firstOrigin] at origin
    cases isSplit : Script.split? script <;> rw [isSplit] at origin <;> cases origin
  · rw [Runner.performAll_concat]
    by_cases ends : Script.split? script = none ∨ entry.succeeded = false
    · exact ⟨[], 0, by
        rw [plays.ended ends]; exact Scheduler.streaming_stop _ _ _, fun nonempty => absurd rfl nonempty⟩
    · rw [not_or, Bool.not_eq_false] at ends
      obtain ⟨loops, succeeded⟩ := ends
      obtain ⟨split, isSplit⟩ := Option.ne_none_iff_exists'.mp loops
      refine ⟨Script.statements split.body, 0, ?_, fun _ => ⟨session.length, script, split, _, [],
        plays.loops named past isSplit succeeded chronicle.eventsOf_played⟩⟩
      rw [(plays.started split isSplit succeeded).2]
      exact Scheduler.streaming_start _ _

end

variable {engine : Engine ι ω α}
  (recorded : (start.performAll session).engine = engine.recorded)

include recorded

theorem Chronicle.advance (chronicle : Chronicle start session events) (duration : Nat) :
    ∃ added, Chronicle start (session ++ [.advance duration]) (events ++ added) := by
  obtain ⟨statements, count, streaming, loops⟩ := chronicle.loop
  obtain ⟨steps, ran, passes⟩ := Runner.passes_advance recorded streaming duration
  by_cases empty : statements = []
  · -- Without a loop nothing is run.
    have none : ran = [] := by
      refine List.eq_nil_iff_forall_not_mem.mpr fun ⟨index, entry⟩ member => ?_
      have code := (passes.codes index entry member).2
      rw [empty] at code
      cases code
    have entries := passes.entries
    rw [none] at entries
    have prepares : Prepares (start.performAll session)
        ((start.performAll session).advance duration) events session.length [] :=
      ⟨entries, by simp, chronicle.preluded.runs passes.numbers passes.current passes.loads (by simp),
        by rw [passes.numbers], passes.looping⟩
    exact ⟨_, chronicle.prepares prepares (not_pastLoading_advance duration)
      ⟨statements, count + steps, passes.streaming, fun nonempty => absurd empty nonempty⟩⟩
  · obtain ⟨call, script, split, first, later, known⟩ := loops empty
    exact ⟨_, chronicle.passes known passes⟩

theorem Chronicle.loadInterpreter (chronicle : Chronicle start session events) :
    ∃ added, Chronicle start (session ++ [.loadInterpreter]) (events ++ added) := by
  obtain ⟨tried, tries⟩ := Runner.tries_loadInterpreter recorded
  refine ⟨_, chronicle.prepares (tries.prepares chronicle.preluded session.length) ?_ ?_⟩
  · rw [pastLoading_length]
    rintro ⟨⟨script, eq⟩, -⟩
    cases eq
  · rw [Runner.perform, tries.scheduler]
    exact chronicle.loop

/-- What a call does before it is past loading. -/
theorem Preluded.prepare (preluded : Preluded (start.performAll session) events) (place : Nat) :
    ∃ tried, Prepares (start.performAll session) (start.performAll session).prepare.2 events place
      tried := by
  rw [Runner.prepare]
  split
  · exact ⟨[], preluded.prepares place rfl rfl rfl rfl⟩
  · obtain ⟨tried, tries⟩ := Runner.tries_loadInterpreter recorded
    exact ⟨tried, tries.prepares preluded place⟩

omit recorded in
theorem runScript_of_refused {runner : Runner ι ω α} (refused : runner.prepare.1.isOk = false)
    (script : Text) : (runner.runScript script).2 = runner.prepare.2 := by
  rw [Runner.runScript]
  split
  · rename_i eq
    rw [eq]
  · rename_i eq
    rw [eq] at refused
    cases refused

omit recorded in
theorem runScript_of_prepared {runner : Runner ι ω α} (prepared : runner.prepare.1.isOk = true)
    {name : Nat} (current : runner.prepare.2.current = some name) (script : Text) :
    (runner.runScript script).2 = (runner.prepare.2.runScriptOn name script).2 := by
  rw [Runner.runScript]
  split
  · rename_i eq
    rw [eq] at prepared
    cases prepared
  · rename_i eq
    rw [eq] at current ⊢
    dsimp only at current ⊢
    rw [current]

omit recorded in
theorem current_prepare {runner : Runner ι ω α} (prepared : runner.prepare.1.isOk = true) :
    ∃ name, runner.prepare.2.current = some name := by
  rw [Runner.prepare] at prepared ⊢
  split
  · rename_i isInitialized
    exact Option.isSome_iff_exists.mp isInitialized
  · rename_i fresh
    rw [if_neg fresh, Runner.loadInterpreter] at prepared
    rw [Runner.loadInterpreter]
    split
    · rename_i eq
      rw [eq] at prepared
      cases prepared
    · rename_i eq
      rw [eq] at prepared
      dsimp only at prepared
      split
      · rename_i ran
        rw [ran] at prepared
        cases prepared
      · exact ⟨_, rfl⟩

theorem Chronicle.refused (chronicle : Chronicle start session events)
    (refused : (start.performAll session).prepare.1.isOk = false) (script : Text) :
    ∃ added, Chronicle start (session ++ [.runScript script]) (events ++ added) := by
  obtain ⟨tried, prepares⟩ := chronicle.preluded.prepare recorded session.length
  have same : (start.performAll session).perform (.runScript script) =
      (start.performAll session).prepare.2 := runScript_of_refused refused script
  rw [← same] at prepares
  refine ⟨_, chronicle.prepares prepares ?_ ?_⟩
  · rw [pastLoading_length, refused]
    rintro ⟨-, eq⟩
    cases eq
  · rw [same, Runner.scheduler_prepare]
    exact chronicle.loop

theorem Chronicle.runScript (chronicle : Chronicle start session events)
    (prepared : (start.performAll session).prepare.1.isOk = true) (script : Text) :
    ∃ added, Chronicle start (session ++ [.runScript script]) (events ++ added) := by
  obtain ⟨tried, prepares⟩ := chronicle.preluded.prepare recorded session.length
  obtain ⟨name, current⟩ := current_prepare prepared
  have inside := prepares.preluded.current name current
  have named := List.getElem?_eq_getElem inside
  have kept : (start.performAll session).prepare.2.engine = engine.recorded := by
    rw [Runner.engine_prepare, recorded]
  obtain ⟨succeeded, plays⟩ := Runner.plays_runScriptOn kept named script
  have same : (start.performAll session).perform (.runScript script) =
      ((start.performAll session).prepare.2.runScriptOn name script).2 :=
    runScript_of_prepared prepared current script
  rw [← same] at plays
  refine ⟨_, chronicle.plays prepares plays named ?_⟩
  rw [pastLoading_length]
  exact ⟨⟨script, rfl⟩, prepared⟩

theorem Chronicle.perform (chronicle : Chronicle start session events)
    (operation : RunnerOperation) :
    ∃ added, Chronicle start (session ++ [operation]) (events ++ added) := by
  have notCall (notCall : ∀ script, operation ≠ .runScript script) :
      ¬PastLoading start (session ++ [operation]) session.length := by
    rw [pastLoading_length]
    rintro ⟨⟨script, eq⟩, -⟩
    exact notCall script eq
  obtain ⟨statements, count, streaming, loops⟩ := chronicle.loop
  cases operation with
  | loadInterpreter => exact chronicle.loadInterpreter recorded
  | runScript script =>
      cases prepared : (start.performAll session).prepare.1.isOk with
      | false => exact chronicle.refused recorded prepared script
      | true => exact chronicle.runScript recorded prepared script
  | setPaused paused =>
      have prepares : Prepares (start.performAll session)
          ((start.performAll session).perform (.setPaused paused)) events session.length [] :=
        chronicle.preluded.prepares _ rfl rfl rfl rfl
      refine ⟨_, chronicle.prepares prepares (notCall nofun) ⟨statements, count, ?_, loops⟩⟩
      cases paused with
      | false => exact streaming.resume
      | true => exact streaming.pause
  | stop =>
      have prepares : Prepares (start.performAll session) ((start.performAll session).perform .stop)
          events session.length [] :=
        chronicle.preluded.prepares _ rfl rfl rfl rfl
      exact ⟨_, chronicle.prepares prepares (notCall nofun)
        ⟨statements, count, Scheduler.streaming_stop _ _ _, loops⟩⟩
  | advance duration => exact chronicle.advance recorded duration

end

end Breadboard.Simulation
