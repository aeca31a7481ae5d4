import Breadboard.Proofs.Simulation.RunRecord

set_option autoImplicit false

namespace Breadboard.Simulation

/-- Where a piece of code comes from. Scripts are named by the places of their calls in the session. -/
inductive Origin where
  | prelude
  /-- All of a script without a loop. -/
  | whole (call : Nat)
  | setup (call : Nat)
  | statement (call index : Nat)
  deriving DecidableEq, Repr

def Origin.call? : Origin → Option Nat
  | prelude => none
  | whole call | setup call | statement call _ => some call

/-- A piece of code that is run during the operation in the given place of the session. -/
structure Event where
  during : Nat
  origin : Origin
  entry : Entry
  deriving DecidableEq, Repr

/-- The operations of the session bear out where the code comes from. -/
def Event.IsJustified (session : List RunnerOperation) (event : Event) : Prop :=
  match event.origin with
  | .prelude => event.during < session.length ∧ event.entry.code = prelude
  | .whole call =>
    call = event.during ∧ ∃ script, session[call]? = some (.runScript script) ∧
      Script.split? script = none ∧ event.entry.code = script
  | .setup call =>
    call = event.during ∧ ∃ script split, session[call]? = some (.runScript script) ∧
      Script.split? script = some split ∧ event.entry.code = split.setup
  | .statement call index =>
    call < event.during ∧ (∃ duration, session[event.during]? = some (.advance duration)) ∧
      ∃ script split, session[call]? = some (.runScript script) ∧
        Script.split? script = some split ∧
        (Script.statements split.body)[index]? = some event.entry.code

/-- What one interpreter sees. -/
def eventsOn (number : Nat) (events : List Event) : List Event :=
  events.filter fun event => event.entry.interpreter = number

/-- What is run of one script. -/
def eventsOf (call : Nat) (events : List Event) : List Event :=
  events.filter fun event => event.origin.call? = some call

/-- The prelude comes first and once, and nothing comes after it if it fails. -/
def StartsWithPrelude (events : List Event) : Prop :=
  ∃ first later, events = first :: later ∧ first.origin = .prelude ∧
    (∀ event ∈ later, event.origin ≠ .prelude) ∧ (first.entry.succeeded = false → later = [])

/-- The statements that are run when `count` of them are taken in turn. -/
def turns (statements : List Text) (count : Nat) : List Nat :=
  (cycle statements.length 0 count).filter (isRun statements)

/-- A setup and `count` of the statements after it. -/
structure LoopRun (call : Nat) (statements : List Text) (count : Nat) (first : Event)
    (later : List Event) : Prop where
  setup : first.origin = .setup call
  inTurn : later.map Event.origin = (turns statements count).map (.statement call)
  together : ∀ event ∈ later, event.entry.interpreter = first.entry.interpreter
  failed : first.entry.succeeded = false → later = []

/-- What is run of a script: all of it once, or its setup once and statements of its loop in turn. -/
def IsRunOf (call : Nat) (script : Text) (events : List Event) : Prop :=
  match Script.split? script with
  | none => ∃ event, events = [event] ∧ event.origin = .whole call
  | some split => ∃ first later count, events = first :: later ∧
      LoopRun call (Script.statements split.body) count first later

section

variable {ι ω α : Type}

/-- The call in the given place of the session found an interpreter or loaded one. -/
def PastLoading (start : Runner ι ω α) (session : List RunnerOperation) (call : Nat) : Prop :=
  ∃ script, session[call]? = some (.runScript script) ∧
    (start.performAll (session.take call)).prepare.1.isOk = true

/-- An account agrees with the record after any number of operations, and the session bears it out. -/
structure Told (start : Runner (Numbered ι) (Recorded ω) α) (session : List RunnerOperation)
    (events : List Event) : Prop where
  entries : ∀ count, (events.filter (·.during < count)).map Event.entry =
    (start.performAll (session.take count)).world.entries
  justified : ∀ event ∈ events, event.IsJustified session

/-- Scripts are run as they should be. -/
structure Called (start : Runner (Numbered ι) (Recorded ω) α) (session : List RunnerOperation)
    (events : List Event) : Prop where
  calls : ∀ call script, session[call]? = some (.runScript script) →
    PastLoading start session call → IsRunOf call script (eventsOf call events)
  /-- A call that does not get past loading runs at most the prelude. -/
  refused : ∀ call script, session[call]? = some (.runScript script) →
    ¬PastLoading start session call →
      eventsOf call events = [] ∧ ∀ event ∈ events, event.during = call → event.origin = .prelude
  /-- A call that gets past loading ends the loops before it. -/
  ended : ∀ event ∈ events, ∀ call index, event.origin = .statement call index →
    ∀ later ≤ event.during, PastLoading start session later → later ≤ call

/-- What holds of a runner's interpreters: each that was loaded has seen the prelude, and it has gone well on
each that is kept. -/
structure Preluded (runner : Runner (Numbered ι) (Recorded ω) α) (events : List Event) : Prop where
  numbered : ∀ event ∈ events, event.entry.interpreter < runner.world.loads
  preludes : ∀ number < runner.world.loads, StartsWithPrelude (eventsOn number events)
  usable : ∀ number ∈ runner.numbers, number < runner.world.loads ∧
    ∀ first ∈ (eventsOn number events).head?, first.entry.succeeded = true
  current : ∀ name, runner.current = some name → name < runner.numbers.length

theorem eventsOn_append (number : Nat) (events later : List Event) :
    eventsOn number (events ++ later) = eventsOn number events ++ eventsOn number later :=
  List.filter_append ..

theorem eventsOn_eq_nil {number : Nat} {events : List Event}
    (elsewhere : ∀ event ∈ events, event.entry.interpreter ≠ number) :
    eventsOn number events = [] :=
  List.filter_eq_nil_iff.mpr fun event member => by simpa using elsewhere event member

/-- The event of running the prelude. -/
def preludeEvent (place : Nat) (entry : Entry) : Event :=
  ⟨place, .prelude, entry⟩

section

variable {runner after : Runner (Numbered ι) (Recorded ω) α} {events : List Event}

/-- Code of scripts is run on interpreters that are kept. -/
theorem Preluded.runs (preluded : Preluded runner events) {ran : List Event}
    (numbers : after.numbers = runner.numbers) (current : after.current = runner.current)
    (loads : after.world.loads = runner.world.loads)
    (onKept : ∀ event ∈ ran, event.entry.interpreter ∈ runner.numbers ∧ event.origin ≠ .prelude) :
    Preluded after (events ++ ran) := by
  refine ⟨?_, ?_, ?_, ?_⟩
  · intro event member
    rw [loads]
    rcases List.mem_append.mp member with earlier | late
    · exact preluded.numbered event earlier
    · exact (preluded.usable _ (onKept event late).1).1
  · intro number less
    rw [loads] at less
    obtain ⟨first, later, seen, isPrelude, others, failed⟩ := preluded.preludes number less
    rw [eventsOn_append, seen]
    refine ⟨first, later ++ eventsOn number ran, rfl, isPrelude, ?_, fun isFailed => ?_⟩
    · intro event member
      rcases List.mem_append.mp member with earlier | late
      · exact others event earlier
      · exact (onKept event (List.mem_filter.mp late).1).2
    · rw [failed isFailed, List.nil_append]
      refine eventsOn_eq_nil fun event member same => ?_
      have succeeded := (preluded.usable _ (onKept event member).1).2
      rw [same, seen] at succeeded
      rw [succeeded first rfl] at isFailed
      cases isFailed
  · intro number member
    rw [numbers] at member
    obtain ⟨less, succeeded⟩ := preluded.usable number member
    rw [loads]
    refine ⟨less, ?_⟩
    obtain ⟨first, later, seen, -⟩ := preluded.preludes number less
    rw [eventsOn_append, seen]
    rw [seen] at succeeded
    exact succeeded
  · rw [numbers, current]
    exact preluded.current

/-- A fresh interpreter has seen the prelude alone. -/
theorem Preluded.fresh (preluded : Preluded runner events) (place : Nat) {loaded : Bool}
    (loads : after.world.loads = runner.world.loads + 1)
    (kept : ∀ number ∈ after.numbers,
      number ∈ runner.numbers ∨ number = runner.world.loads ∧ loaded = true)
    (current : ∀ name, after.current = some name → name < after.numbers.length) :
    Preluded after (events ++ [preludeEvent place ⟨runner.world.loads, prelude, loaded⟩]) := by
  have old {number : Nat} (less : number < runner.world.loads) :
      eventsOn number (events ++ [preludeEvent place ⟨runner.world.loads, prelude, loaded⟩]) =
        eventsOn number events := by
    have elsewhere : eventsOn number
        [preludeEvent place ⟨runner.world.loads, prelude, loaded⟩] = [] :=
      eventsOn_eq_nil (by simpa [preludeEvent] using less.ne')
    rw [eventsOn_append, elsewhere, List.append_nil]
  have new : eventsOn runner.world.loads
      (events ++ [preludeEvent place ⟨runner.world.loads, prelude, loaded⟩]) =
        [preludeEvent place ⟨runner.world.loads, prelude, loaded⟩] := by
    rw [eventsOn_append, eventsOn_eq_nil fun event member => (preluded.numbered event member).ne]
    simp [eventsOn, preludeEvent]
  refine ⟨?_, ?_, ?_, current⟩
  · intro event member
    rw [loads]
    rcases List.mem_append.mp member with earlier | last
    · exact (preluded.numbered event earlier).trans (Nat.lt_succ_self _)
    · rw [List.mem_singleton.mp last]
      exact Nat.lt_succ_self _
  · intro number less
    rw [loads] at less
    rcases Nat.lt_succ_iff_lt_or_eq.mp less with isOld | rfl
    · rw [old isOld]
      exact preluded.preludes number isOld
    · rw [new]
      exact ⟨_, [], rfl, rfl, by simp, fun _ => rfl⟩
  · intro number member
    rw [loads]
    rcases kept number member with isOld | ⟨rfl, rfl⟩
    · obtain ⟨less, succeeded⟩ := preluded.usable number isOld
      rw [old less]
      exact ⟨less.trans (Nat.lt_succ_self _), succeeded⟩
    · rw [new]
      refine ⟨Nat.lt_succ_self _, fun first isFirst => ?_⟩
      cases isFirst
      rfl

theorem Preluded.tries (preluded : Preluded runner events) {loaded : Bool} {tried : List Entry}
    (tries : runner.Tries after loaded tried) (place : Nat) :
    Preluded after (events ++ tried.map (preludeEvent place)) := by
  obtain ⟨-, -, -, loads, entry, failed, stored⟩ := tries
  have same (isFailed : loaded = false) :
      after.numbers = runner.numbers ∧ after.current = runner.current := by
    have kept := failed isFailed
    rw [Runner.KeepsInterpreters] at kept
    rw [kept]
    exact ⟨rfl, rfl⟩
  rcases entry with rfl | rfl
  · -- Nothing was loaded, so the interpreters are as they were.
    obtain ⟨numbers, current⟩ := same (Bool.eq_false_iff.mpr fun isLoaded =>
      absurd rfl (stored isLoaded).1)
    rw [List.map_nil]
    exact preluded.runs numbers current loads (by simp)
  · refine preluded.fresh place loads ?_ ?_
    · intro number member
      cases loaded with
      | false =>
          rw [(same rfl).1] at member
          exact Or.inl member
      | true =>
          rw [(stored rfl).2.1, List.mem_append, List.mem_singleton] at member
          exact member.imp_right fun eq => ⟨eq, rfl⟩
    · intro name named
      cases loaded with
      | false =>
          rw [(same rfl).1]
          rw [(same rfl).2] at named
          exact preluded.current name named
      | true =>
          rw [(stored rfl).2.2] at named
          rw [(stored rfl).2.1]
          cases named
          simp

end

theorem getElem?_concat {session : List RunnerOperation} {place : Nat}
    {last operation : RunnerOperation} (found : (session ++ [last])[place]? = some operation) :
    place < session.length ∧ session[place]? = some operation ∨
      place = session.length ∧ last = operation := by
  rcases Nat.lt_trichotomy place session.length with less | rfl | greater
  · rw [List.getElem?_append_left less] at found
    exact Or.inl ⟨less, found⟩
  · rw [List.getElem?_concat_length] at found
    exact Or.inr ⟨rfl, Option.some.inj found⟩
  · rw [List.getElem?_eq_none (by simpa using greater)] at found
    cases found

theorem getElem?_append_of_some {session : List RunnerOperation} {place : Nat}
    {operation : RunnerOperation} (found : session[place]? = some operation)
    (later : List RunnerOperation) : (session ++ later)[place]? = some operation := by
  rw [List.getElem?_append_left (List.getElem?_eq_some_iff.mp found).1, found]

theorem Event.IsJustified.append {session : List RunnerOperation} {event : Event}
    (justified : event.IsJustified session) (later : List RunnerOperation) :
    event.IsJustified (session ++ later) := by
  obtain ⟨during, origin, entry⟩ := event
  cases origin with
  | prelude =>
      obtain ⟨less, code⟩ := justified
      exact ⟨by rw [List.length_append]; exact Nat.lt_add_right _ less, code⟩
  | whole call =>
      obtain ⟨same, script, found, rest⟩ := justified
      exact ⟨same, script, getElem?_append_of_some found later, rest⟩
  | setup call =>
      obtain ⟨same, script, split, found, rest⟩ := justified
      exact ⟨same, script, split, getElem?_append_of_some found later, rest⟩
  | statement call index =>
      obtain ⟨less, ⟨duration, passed⟩, script, split, found, rest⟩ := justified
      exact ⟨less, ⟨duration, getElem?_append_of_some passed later⟩, script, split,
        getElem?_append_of_some found later, rest⟩

theorem Event.IsJustified.during_lt {session : List RunnerOperation} {event : Event}
    (justified : event.IsJustified session) : event.during < session.length := by
  obtain ⟨during, origin, entry⟩ := event
  cases origin with
  | prelude => exact justified.1
  | whole call =>
      obtain ⟨rfl, script, found, -⟩ := justified
      exact (List.getElem?_eq_some_iff.mp found).1
  | setup call =>
      obtain ⟨rfl, script, split, found, -⟩ := justified
      exact (List.getElem?_eq_some_iff.mp found).1
  | statement call index =>
      obtain ⟨-, ⟨duration, passed⟩, -⟩ := justified
      exact (List.getElem?_eq_some_iff.mp passed).1

theorem Event.IsJustified.call_lt {session : List RunnerOperation} {event : Event} {call : Nat}
    (justified : event.IsJustified session) (own : event.origin.call? = some call) :
    call < session.length := by
  have less := justified.during_lt
  obtain ⟨during, origin, entry⟩ := event
  cases origin with
  | prelude => cases own
  | whole | setup =>
      cases own
      rw [justified.1]
      exact less
  | statement =>
      cases own
      exact justified.1.trans less

theorem eventsOf_append (call : Nat) (events later : List Event) :
    eventsOf call (events ++ later) = eventsOf call events ++ eventsOf call later :=
  List.filter_append ..

theorem eventsOf_eq_nil {call : Nat} {events : List Event}
    (others : ∀ event ∈ events, event.origin.call? ≠ some call) : eventsOf call events = [] :=
  List.filter_eq_nil_iff.mpr fun event member => by simpa using others event member

theorem eventsOf_eq_self {call : Nat} {events : List Event}
    (own : ∀ event ∈ events, event.origin.call? = some call) : eventsOf call events = events :=
  List.filter_eq_self.mpr fun event member => by simpa using own event member

section

variable {start : Runner (Numbered ι) (Recorded ω) α} {session : List RunnerOperation}
  {events : List Event}

theorem PastLoading.lt {call : Nat} (past : PastLoading start session call) :
    call < session.length := by
  obtain ⟨script, found, -⟩ := past
  exact (List.getElem?_eq_some_iff.mp found).1

theorem pastLoading_concat {call : Nat} (less : call < session.length) (last : RunnerOperation) :
    PastLoading start (session ++ [last]) call ↔ PastLoading start session call := by
  rw [PastLoading, PastLoading, List.getElem?_append_left less,
    List.take_append_of_le_length less.le]

theorem pastLoading_length (last : RunnerOperation) :
    PastLoading start (session ++ [last]) session.length ↔
      (∃ script, last = .runScript script) ∧
        (start.performAll session).prepare.1.isOk = true := by
  rw [PastLoading, List.getElem?_concat_length, List.take_left']
  · simp
  · rfl

theorem Told.total (told : Told start session events) :
    events.map Event.entry = (start.performAll session).world.entries := by
  have all : events.filter (·.during < session.length) = events :=
    List.filter_eq_self.mpr fun event member => by simpa using (told.justified event member).during_lt
  have same := told.entries session.length
  rwa [all, List.take_length] at same

/-- An operation adds what is run during it. -/
theorem Told.concat (told : Told start session events) {last : RunnerOperation}
    {added : List Event} (during : ∀ event ∈ added, event.during = session.length)
    (justified : ∀ event ∈ added, event.IsJustified (session ++ [last]))
    (entries : ((start.performAll session).perform last).world.entries =
      (start.performAll session).world.entries ++ added.map Event.entry) :
    Told start (session ++ [last]) (events ++ added) := by
  refine ⟨fun count => ?_, fun event member => ?_⟩
  · rcases Nat.lt_or_ge session.length count with greater | less
    · have all : (events ++ added).filter (·.during < count) = events ++ added := by
        refine List.filter_eq_self.mpr fun event member => decide_eq_true ?_
        rcases List.mem_append.mp member with earlier | last
        · exact (told.justified event earlier).during_lt.trans greater
        · rw [during event last]
          exact greater
      rw [all, List.take_of_length_le (by simpa using greater), Runner.performAll_concat, entries,
        List.map_append, told.total]
    · have none : added.filter (·.during < count) = [] :=
        List.filter_eq_nil_iff.mpr fun event member => by simpa [during event member] using less
      rw [List.filter_append, none, List.append_nil, List.take_append_of_le_length less,
        told.entries]
  · rcases List.mem_append.mp member with earlier | last
    · exact (told.justified event earlier).append _
    · exact justified event last

/-- An operation adds to what is run of a call, or runs all of it. -/
theorem Called.concat (called : Called start session events) (told : Told start session events)
    {last : RunnerOperation} {added : List Event}
    (during : ∀ event ∈ added, event.during = session.length)
    (past : ∀ event ∈ added, event.origin ≠ .prelude → ∃ call,
      event.origin.call? = some call ∧ PastLoading start (session ++ [last]) call)
    (refused : ¬PastLoading start (session ++ [last]) session.length →
      (∃ script, last = .runScript script) → ∀ event ∈ added, event.origin = .prelude)
    (calls : ∀ call script, (session ++ [last])[call]? = some (.runScript script) →
      PastLoading start (session ++ [last]) call →
        call < session.length ∧ eventsOf call added = [] ∨
          IsRunOf call script (eventsOf call (events ++ added)))
    (ended : ∀ event ∈ added, ∀ call index, event.origin = .statement call index →
      ∀ later, PastLoading start (session ++ [last]) later → later ≤ call) :
    Called start (session ++ [last]) (events ++ added) := by
  refine ⟨fun call script found isPast => ?_, fun call script found notPast => ⟨?_, ?_⟩, ?_⟩
  · rcases calls call script found isPast with ⟨less, none⟩ | run
    · rw [pastLoading_concat less] at isPast
      rw [List.getElem?_append_left less] at found
      rw [eventsOf_append, none, List.append_nil]
      exact called.calls call script found isPast
    · exact run
  · have none : eventsOf call added = [] := by
      refine eventsOf_eq_nil fun event member own => ?_
      obtain ⟨other, same, isPast⟩ := past event member (by rintro eq; rw [eq] at own; cases own)
      rw [own] at same
      cases same
      exact notPast isPast
    rw [eventsOf_append, none, List.append_nil]
    rcases getElem?_concat found with ⟨less, found⟩ | ⟨rfl, rfl⟩
    · rw [pastLoading_concat less] at notPast
      exact (called.refused call script found notPast).1
    · exact eventsOf_eq_nil fun event member own =>
        (told.justified event member).call_lt own |>.ne rfl
  · intro event member same
    rcases List.mem_append.mp member with earlier | late
    · have less := (told.justified event earlier).during_lt
      rw [same] at less
      rw [pastLoading_concat less] at notPast
      rw [List.getElem?_append_left less] at found
      exact (called.refused call script found notPast).2 event earlier same
    · obtain rfl : call = session.length := by rw [← same, during event late]
      rw [List.getElem?_concat_length] at found
      exact refused notPast ⟨script, Option.some.inj found⟩ event late
  · intro event member call index origin later bound isPast
    rcases List.mem_append.mp member with earlier | late
    · have less := bound.trans_lt (told.justified event earlier).during_lt
      rw [pastLoading_concat less] at isPast
      exact called.ended event earlier call index origin later bound isPast
    · exact ended event late call index origin later isPast

/-- Operations that run the prelude at most. -/
theorem Called.preludes (called : Called start session events) (told : Told start session events)
    {last : RunnerOperation} {added : List Event}
    (during : ∀ event ∈ added, event.during = session.length)
    (preludes : ∀ event ∈ added, event.origin = .prelude)
    (notPast : ¬PastLoading start (session ++ [last]) session.length) :
    Called start (session ++ [last]) (events ++ added) := by
  refine called.concat told during ?_ (fun _ _ => preludes) ?_ ?_
  · intro event member other
    exact absurd (preludes event member) other
  · intro call script found isPast
    rcases getElem?_concat found with ⟨less, -⟩ | ⟨rfl, -⟩
    · refine Or.inl ⟨less, eventsOf_eq_nil fun event member => ?_⟩
      rw [preludes event member]
      exact nofun
    · exact absurd isPast notPast
  · intro event member call index origin
    rw [preludes event member] at origin
    cases origin

end

end

end Breadboard.Simulation
