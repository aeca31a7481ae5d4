import Breadboard.Proofs.Simulation.PinReports

set_option autoImplicit false

namespace Breadboard.Simulation

open Circuit (Family)

section

variable {α : Type}

def lastObserver (operations : List (BenchOperation α)) : Option α :=
  (operations.filterMap BenchOperation.observer?).getLast?

/-- The family that is set after some operations. A bench starts with AVR boards. -/
def lastFamily (operations : List (BenchOperation α)) : Family :=
  (operations.filterMap BenchOperation.family?).getLast?.getD .avr

/-- Whether the last of some operations starts a script. -/
def endsWithScript (operations : List (BenchOperation α)) : Bool :=
  operations.getLast?.any BenchOperation.givesSource && lastFamily operations == .esp32

/-- The observer that was set when the last script was started. -/
def scriptObserver (operations : List (BenchOperation α)) : Option α :=
  (operations.inits.filter endsWithScript).getLast?.bind lastObserver

variable (front : List (BenchOperation α)) (last : BenchOperation α)

theorem lastObserver_concat : lastObserver (front ++ [last]) = last.observer?.or (lastObserver front) := by
  rw [lastObserver, List.filterMap_append, List.getLast?_append]
  cases last <;> rfl

theorem lastFamily_concat : lastFamily (front ++ [last]) = last.family?.getD (lastFamily front) := by
  rw [lastFamily, List.filterMap_append, List.getLast?_append]
  cases last <;> rfl

theorem endsWithScript_concat :
    endsWithScript (front ++ [last]) = (last.givesSource && lastFamily front == .esp32) := by
  rw [endsWithScript, List.getLast?_concat, lastFamily_concat]
  cases last <;> rfl

theorem scriptObserver_concat :
    scriptObserver (front ++ [last]) =
      if last.givesSource && lastFamily front == .esp32 then lastObserver front
      else scriptObserver front := by
  -- The longer session is the only prefix that is new, and it comes last.
  have more : (front ++ [last]).inits = front.inits ++ [front ++ [last]] := by
    rw [List.inits_append]
    rfl
  rw [scriptObserver, more, List.filter_append, List.getLast?_append, List.filter_singleton,
    endsWithScript_concat]
  cases script : last.givesSource && lastFamily front == .esp32 with
  | false => rfl
  | true =>
      have silent : last.observer? = none := by
        cases last <;> first | rfl | cases script
      rw [cond_true, if_pos rfl, List.getLast?_singleton, Option.some_or, Option.bind_some,
        lastObserver_concat, silent, Option.none_or]

/-- Without an observer none was set when a script was started. -/
theorem scriptObserver_eq_none {operations : List (BenchOperation α)}
    (unobserved : lastObserver operations = none) : scriptObserver operations = none := by
  induction operations using List.reverseRecOn with
  | nil => rfl
  | append_singleton front last ih =>
      rw [lastObserver_concat, Option.or_eq_none_iff] at unobserved
      rw [scriptObserver_concat, unobserved.2, ih unobserved.2, ite_self]

end

section

variable {ι ω α : Type} {calls : ω → List HostCall} {numbers : List Nat} {observer : Option α}

/-- Calls to the host change neither who is there nor who listens, and each write to a board's pin is
reported. -/
theorem Runner.Acts.reported {runner after : Runner ι ω α} (acts : runner.Acts calls after)
    (reports : runner.pins.Reports numbers observer) :
    after.pins.Reports numbers observer ∧ ∃ made,
      calls after.world = calls runner.world ++ made ∧
        after.pins.calls = runner.pins.calls ++ notifications observer (writes numbers made) := by
  obtain ⟨-, made, kept, pins⟩ := acts
  obtain ⟨reportsAfter, called⟩ := reports.answer made
  rw [← pins] at reportsAfter called
  exact ⟨reportsAfter, made, kept, called⟩

end

namespace Bench

variable {κ ι ω α : Type}

section

variable {calls : ω → List HostCall} {numbers : List Nat} {operations : List (BenchOperation α)}
  {bench : Bench κ ι ω α}

/-- The start of a script sets the pins' observer. From there, as after any other operation, the pins change
by calls to the host alone. -/
theorem acts_perform (uses : bench.runner.engine.UsesHost calls) (operation : BenchOperation α) :
    Runner.Acts calls
      (if operation.givesSource && bench.family == .esp32 then bench.attachObserver.runner
        else bench.runner)
      (bench.perform operation).runner := by
  cases operation with
  | compileAndLoad source =>
      rw [perform, compileAndLoad_eq]
      exact .refl calls bench.runner
  | loadHex hex =>
      rw [perform, loadHex_eq]
      exact .refl calls bench.runner
  | run source =>
      rw [perform]
      rcases bench.run_cases source with ⟨family, eq⟩ | ⟨family, text, rfl, eq⟩ | ⟨family, rfl, eq⟩ <;>
        rw [eq, family]
      · rw [runAvr_eq, show (Family.avr == Family.esp32) = false from rfl, Bool.and_false]
        exact .of_eq rfl rfl rfl
      · have same : bench.attachObserver.runner.engine = bench.runner.engine := by
          rw [attachObserver_eq]
        rw [← same] at uses
        exact Runner.acts_runScript uses (Script.ofSketch text)
      · exact Runner.acts_prepare uses
  | setPaused paused =>
      rw [perform, setPaused]
      cases bench.family with
      | esp32 => exact .of_eq rfl rfl rfl
      | avr => exact .refl calls bench.runner
  | stop => exact .of_eq rfl rfl rfl
  | advance duration => exact Runner.acts_advance uses duration
  | setFamily | observe => exact .refl calls bench.runner

/-- The bench is as its session left it: the pins report to the observer of the last script. -/
structure Follows (calls : ω → List HostCall) (numbers : List Nat)
    (operations : List (BenchOperation α)) (bench : Bench κ ι ω α) : Prop where
  family : bench.family = lastFamily operations
  observer : bench.observer = lastObserver operations
  uses : bench.runner.engine.UsesHost calls
  reports : bench.runner.pins.Reports numbers (scriptObserver operations)

variable (follows : bench.Follows calls numbers operations)

include follows

theorem Follows.attachObserver :
    bench.attachObserver.runner.pins.Reports numbers (lastObserver operations) ∧
      bench.attachObserver.runner.pins.calls = bench.runner.pins.calls := by
  have observer := follows.observer
  have reports := follows.reports
  rw [Bench.attachObserver]
  split
  · rename_i unobserved
    rw [unobserved] at observer
    rw [scriptObserver_eq_none observer.symm, observer] at reports
    exact ⟨reports, rfl⟩
  · rename_i present
    rw [present] at observer
    rw [← observer]
    exact ⟨reports.listen _, by rw [Pins.listen_all]⟩

/-- The next operation keeps the bench in step with its session, and what it writes to the pins is heard by
the observer of the last script. -/
theorem Follows.perform (operation : BenchOperation α) :
    (bench.perform operation).Follows calls numbers (operations ++ [operation]) ∧ ∃ made,
      calls (bench.perform operation).runner.world = calls bench.runner.world ++ made ∧
        (bench.perform operation).runner.pins.calls = bench.runner.pins.calls ++
          notifications (scriptObserver (operations ++ [operation])) (writes numbers made) := by
  have acts := acts_perform follows.uses operation
  have family : (bench.perform operation).family = lastFamily (operations ++ [operation]) := by
    rw [perform_eq, lastFamily_concat, follows.family]
  have observer : (bench.perform operation).observer = lastObserver (operations ++ [operation]) := by
    rw [perform_eq, lastObserver_concat, follows.observer]
  rw [follows.family] at acts
  rw [scriptObserver_concat]
  cases script : operation.givesSource && lastFamily operations == .esp32 with
  | true =>
      -- The observer of the moment takes over before the script's first line is run.
      obtain ⟨reports, silent⟩ := follows.attachObserver
      rw [script, if_pos rfl] at acts
      obtain ⟨after, made, kept, called⟩ := acts.reported reports
      have same : bench.attachObserver.runner.world = bench.runner.world ∧
          bench.attachObserver.runner.engine = bench.runner.engine := by
        rw [attachObserver_eq]
        exact ⟨rfl, rfl⟩
      rw [same.1] at kept
      rw [silent] at called
      refine ⟨⟨family, observer, ?_, ?_⟩, made, kept, called⟩
      · rw [acts.1, same.2]
        exact follows.uses
      · rw [scriptObserver_concat, script]
        exact after
  | false =>
      rw [script, if_neg Bool.false_ne_true] at acts
      obtain ⟨after, made, kept, called⟩ := acts.reported follows.reports
      refine ⟨⟨family, observer, ?_, ?_⟩, made, kept, called⟩
      · rw [acts.1]
        exact follows.uses
      · rw [scriptObserver_concat, script]
        exact after

end

theorem Follows.performAll {calls : ω → List HostCall} {numbers : List Nat} {bench : Bench κ ι ω α}
    (fresh : bench.Follows calls numbers []) (operations : List (BenchOperation α)) :
    (bench.performAll operations).Follows calls numbers operations := by
  induction operations using List.reverseRecOn with
  | nil => exact fresh
  | append_singleton front last ih =>
      rw [performAll_concat]
      exact (ih.perform last).1

end Bench

/-- One state of a processor has the listeners of another, if it has a program at all. -/
def Processor.Keeps {κ : Type} (processor : Processor κ) (before after : κ) : Prop :=
  processor.isLoaded after = true →
    processor.isLoaded before = true ∧
      ∀ port, processor.listeners port after = processor.listeners port before

/-- A processor drops its listeners when it takes a program, and gets others only when they are added. -/
structure Processor.KeepsListeners {κ : Type} (processor : Processor κ) : Prop where
  load : ∀ program state port, (processor.load program state).1 = .ok () →
    processor.listeners port (processor.load program state).2 = []
  refuse : ∀ program state fault, (processor.load program state).1 = .error fault →
    processor.Keeps state (processor.load program state).2
  execute : ∀ state, processor.Keeps state (processor.execute state).2
  setPaused : ∀ paused state, processor.Keeps state (processor.setPaused paused state)
  stop : ∀ state, processor.Keeps state (processor.stop state)
  add : ∀ port listener state place,
    processor.listeners place (processor.addListener port listener state) =
      processor.listeners place state ++ if place = port then [listener] else []

theorem Processor.Keeps.trans {κ : Type} {processor : Processor κ} {first second third : κ}
    (before : processor.Keeps first second) (after : processor.Keeps second third) :
    processor.Keeps first third := by
  intro loaded
  obtain ⟨middle, same⟩ := after loaded
  obtain ⟨start, sameBefore⟩ := before middle
  exact ⟨start, fun port => (same port).trans (sameBefore port)⟩

namespace Bench

variable {κ ι ω α : Type}

/-- While there is a program, each port has its one listener. -/
def IsHeard (bench : Bench κ ι ω α) : Prop :=
  bench.processor.isLoaded bench.avr = true →
    ∀ port, bench.processor.listeners port bench.avr = [⟨port.pinMap⟩]

section

variable {bench : Bench κ ι ω α} (keeps : bench.processor.KeepsListeners)

include keeps

/-- Without listeners at first, each port gets its one. -/
theorem listeners_attachListeners
    (bare : ∀ port, bench.processor.listeners port bench.avr = []) (port : Port) :
    bench.processor.listeners port bench.attachListeners.avr = [⟨port.pinMap⟩] := by
  rw [attachListeners, Port.all, List.foldl_cons, List.foldl_cons, List.foldl_cons, List.foldl_nil,
    keeps.add, keeps.add, keeps.add, bare]
  cases port <;> rfl

theorem IsHeard.loadHex (heard : bench.IsHeard) (hex : Text) : (bench.loadHex hex).2.IsHeard := by
  obtain ⟨program, avr, ⟨loaded, after⟩ | ⟨⟨fault, refused⟩, after⟩⟩ := bench.loadHex_cases hex
  · have bare (port : Port) := keeps.load program bench.avr port (by rw [loaded])
    rw [loaded] at bare
    rw [after]
    exact fun _ port => @listeners_attachListeners κ ι ω α { bench with avr } keeps bare port
  · have kept := keeps.refuse program bench.avr fault (by rw [refused])
    rw [refused] at kept
    rw [after]
    intro present port
    obtain ⟨before, same⟩ := kept present
    rw [← heard before port]
    exact same port

/-- Every operation leaves each port its one listener. -/
theorem IsHeard.perform (heard : bench.IsHeard) (operation : BenchOperation α) :
    (bench.perform operation).IsHeard := by
  have passed {avr : κ} (kept : bench.processor.Keeps bench.avr avr)
      (same : (bench.perform operation).avr = avr) : (bench.perform operation).IsHeard := by
    intro present port
    rw [processor_perform, same] at present ⊢
    obtain ⟨before, listeners⟩ := kept present
    rw [listeners]
    exact heard before port
  have idle : bench.processor.Keeps bench.avr bench.avr := fun loaded => ⟨loaded, fun _ => rfl⟩
  cases operation with
  | compileAndLoad source =>
      rcases bench.compileAndLoad_cases source with same | ⟨hex, loaded⟩
      · exact passed idle (by rw [Bench.perform, same])
      · rw [Bench.perform, loaded]
        exact heard.loadHex keeps hex
  | loadHex hex => exact heard.loadHex keeps hex
  | run source =>
      rcases bench.run_cases source with ⟨-, eq⟩ | ⟨-, text, -, eq⟩ | ⟨-, -, eq⟩
      · have same : (bench.perform (.run source)).avr = bench.runAvr.2.avr := by
          rw [Bench.perform, eq]
        rw [runAvr_eq] at same
        refine passed ?_ same
        split
        · exact (keeps.stop bench.avr).trans (keeps.execute _)
        · exact keeps.stop bench.avr
      · exact passed idle (by rw [Bench.perform, eq, runEsp32, attachObserver_eq])
      · exact passed idle (by rw [Bench.perform, eq]; rfl)
  | setPaused paused =>
      cases family : bench.family with
      | esp32 => exact passed idle (by rw [Bench.perform, Bench.setPaused, family])
      | avr =>
          exact passed (keeps.setPaused paused bench.avr)
            (by rw [Bench.perform, Bench.setPaused, family])
  | stop => exact passed (keeps.stop bench.avr) rfl
  | setFamily | observe | advance => exact passed idle rfl

end

theorem IsHeard.performAll {bench : Bench κ ι ω α} (keeps : bench.processor.KeepsListeners)
    (fresh : bench.IsHeard) (operations : List (BenchOperation α)) :
    (bench.performAll operations).IsHeard := by
  induction operations using List.reverseRecOn with
  | nil => exact fresh
  | append_singleton front last ih =>
      rw [performAll_concat]
      exact ih.perform (by rw [processor_performAll]; exact keeps) last

end Bench

/-- A change of a port is heard by the observer that was set last. A write to a pin of a script is heard by
the observer that was set last when the script was started, so by the other one only if they are the same. -/
theorem last_observer_hears_iff {κ ι ω α : Type} (compiler : Text → Except Fault Build)
    (processor : Processor κ) (keeps : processor.KeepsListeners) (avr : κ)
    (empty : processor.isLoaded avr = false) (engine : Engine ι ω α) (calls : ω → List HostCall)
    (uses : engine.UsesHost calls) (numbers : List Nat) (world : ω) (settings : LoopSettings)
    (operations : List (BenchOperation α)) (operation : BenchOperation α) :
    let bench := Bench.start compiler processor avr
      (Runner.start engine (.ofList numbers) world settings)
    let reached := bench.performAll operations
    let after := reached.perform operation
    let session := operations ++ [operation]
    (∀ port value, processor.isLoaded after.avr = true →
      after.portChanged port value =
        notifications (lastObserver session) (PortListener.levels ⟨port.pinMap⟩ value)) ∧
    ∃ made, calls after.runner.world = calls reached.runner.world ++ made ∧
      after.runner.pins.calls = reached.runner.pins.calls ++
        notifications (scriptObserver session) (writes numbers made) ∧
      (notifications (scriptObserver session) (writes numbers made) =
          notifications (lastObserver session) (writes numbers made) ↔
        writes numbers made = [] ∨ scriptObserver session = lastObserver session) := by
  intro bench reached after session
  have fresh : bench.Follows calls numbers [] :=
    ⟨rfl, rfl, uses, Pins.reports_ofList numbers⟩
  have unheard : bench.IsHeard := fun loaded => by
    rw [show bench.processor.isLoaded bench.avr = false from empty] at loaded
    cases loaded
  obtain ⟨follows, made, kept, called⟩ := (fresh.performAll operations).perform operation
  have heard : after.IsHeard :=
    (unheard.performAll keeps operations).perform
      (by rw [Bench.processor_performAll]; exact keeps) operation
  refine ⟨fun port value loaded => ?_, made, kept, called, notifications_inj⟩
  have same : after.processor = processor := by
    rw [Bench.processor_perform, Bench.processor_performAll]
    rfl
  have listeners := heard (by rw [same]; exact loaded) port
  rw [Bench.portChanged, follows.observer, listeners]
  cases lastObserver session with
  | none => rfl
  | some observer => exact List.append_nil _

/-- A processor with or without a program, and its listeners. -/
structure ListeningState where
  loaded : Bool
  listeners : List (Port × PortListener)

/-- A processor that takes every program and runs none. -/
def listeningProcessor : Processor ListeningState where
  load _ _ := (.ok (), ⟨true, []⟩)
  isLoaded state := state.loaded
  execute state := (.ok (), state)
  setPaused _ state := state
  isPaused _ := false
  stop state := state
  addListener port listener state :=
    { state with listeners := state.listeners ++ [(port, listener)] }
  listeners port state := (state.listeners.filter (·.1 = port)).map (·.2)

theorem keepsListeners_listeningProcessor : listeningProcessor.KeepsListeners where
  load _ _ _ _ := rfl
  refuse _ _ _ refused := nomatch refused
  execute _ loaded := ⟨loaded, fun _ => rfl⟩
  setPaused _ _ loaded := ⟨loaded, fun _ => rfl⟩
  stop _ loaded := ⟨loaded, fun _ => rfl⟩
  add port listener state place := by
    by_cases same : place = port
    · simp [listeningProcessor, same]
    · have other : ¬port = place := fun eq => same eq.symm
      simp [listeningProcessor, same, other]

/-- The calls to the host of two pieces of code. -/
def blinkCalls (code : Text) : List HostCall :=
  if code = "import machine\np = Pin(2, Pin.OUT)\n".toList then [.configure 2 .output]
  else if code = "p.value(1)".toList then [.setValue 2 true]
  else []

/-- An interpreter of the two pieces. The world is the list of the calls. -/
def blinkEngine : Engine Unit (List HostCall) Text where
  load world := (.ok (), world)
  run _ code machine :=
    (.ok (), { machine with
      pins := machine.pins.answer (blinkCalls code)
      world := machine.world ++ blinkCalls code })

theorem usesHost_blinkEngine : blinkEngine.UsesHost id where
  load _ := rfl
  run _ code _ := ⟨blinkCalls code, rfl, rfl⟩

/-- A second observer is set while a script runs. -/
def replacedObserver : List (BenchOperation Text) :=
  [.setFamily .esp32, .observe "first".toList,
    .run (some "import machine\np = Pin(2, Pin.OUT)\nwhile True:\n    p.value(1)\n".toList),
    .observe "second".toList]

/-- A bench with the pins of the ESP32 boards. -/
def blinkBench : Bench ListeningState Unit (List HostCall) Text :=
  Bench.start (fun _ => .error (.compilation [])) listeningProcessor ⟨false, []⟩
    (Runner.start blinkEngine (.ofList esp32Pins) [] {})

/-- A program that is loaded before an observer is set is heard by it, a script by the one before. -/
theorem last_observer_hears_iff_replaced :
    listeningProcessor.KeepsListeners ∧ blinkEngine.UsesHost id ∧
      listeningProcessor.isLoaded ⟨false, []⟩ = false ∧
      let reached := blinkBench.performAll (.loadHex ":00000001FF\n".toList :: replacedObserver)
      let after := reached.perform (.advance 5)
      (∀ port value, after.portChanged port value =
        notifications (some "second".toList) (PortListener.levels ⟨port.pinMap⟩ value)) ∧
      ∃ made, after.runner.world = reached.runner.world ++ made ∧
        after.runner.pins.calls = reached.runner.pins.calls ++
          notifications (some "first".toList) (writes esp32Pins made) := by
  obtain ⟨ports, made, kept, called, -⟩ :=
    last_observer_hears_iff (fun _ => .error (.compilation [])) listeningProcessor
      keepsListeners_listeningProcessor ⟨false, []⟩ rfl blinkEngine id usesHost_blinkEngine esp32Pins
      [] {} (.loadHex ":00000001FF\n".toList :: replacedObserver) (.advance 5)
  exact ⟨keepsListeners_listeningProcessor, usesHost_blinkEngine, rfl,
    fun port value => ports port value rfl, made, kept, called⟩

/-- The script's write is heard by the observer that was set before. -/
theorem replacedObserver_first_hears :
    lastObserver (replacedObserver ++ [.advance 5]) = some "second".toList ∧
      (blinkBench.performAll replacedObserver).runner.pins.calls = [] ∧
      ((blinkBench.performAll replacedObserver).perform (.advance 5)).runner.pins.calls =
        [⟨"first".toList, 2, true⟩] := by
  refine ⟨rfl, rfl, ?_⟩
  have ready : (blinkBench.performAll replacedObserver).runner.interpreters[
      (blinkBench.performAll replacedObserver).runner.looping]? = some () := rfl
  have task : (blinkBench.performAll replacedObserver).runner.scheduler =
      ⟨{}, .running, some ⟨LoopCursor.start {} ["p.value(1)".toList], .looking⟩, 0⟩ := rfl
  have engine : (blinkBench.performAll replacedObserver).runner.engine = blinkEngine := rfl
  have once (pins : Pins Text) (world : List HostCall) :=
    @LoopCursor.runUntil_of_wait _ blinkEngine.run 5 0 10
      (LoopCursor.start {} ["p.value(1)".toList]) (LoopCursor.start {} ["p.value(1)".toList])
      ⟨(), pins, world⟩ ⟨(), pins.answer [.setValue 2 true], world ++ [.setValue 2 true]⟩ rfl
      (by decide) (by decide) 1
  simp only [Bench.perform, Bench.advance, Runner.advance, ready, task, engine, Scheduler.advance,
    Scheduler.settle, if_pos]
  -- The wait after the statement is longer than the time that passes.
  rw [show (LoopCursor.start {} ["p.value(1)".toList]).statements.length = 1 from rfl, Nat.zero_add,
    once]
  rfl

end Breadboard.Simulation
