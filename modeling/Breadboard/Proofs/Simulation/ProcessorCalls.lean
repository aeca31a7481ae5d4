import Breadboard.Proofs.Simulation.BenchSession
import Breadboard.Proofs.Text.BreakRun
import Breadboard.Proofs.Text.Trim

set_option autoImplicit false

namespace Breadboard.Simulation

open Circuit (Family)
open Text (mergeBreaks)

/-- A call to a processor, with its outcome if it can fail. -/
inductive ProcessorCall where
  | load (program : Text) (taken : Bool)
  | execute (started : Bool)
  | setPaused (paused : Bool)
  | stop
  | addListener (port : Port) (listener : PortListener)
  deriving DecidableEq, Repr

/-- A processor's state, and the calls that were made. -/
structure Traced (κ : Type) where
  inner : κ
  calls : List ProcessorCall

namespace Processor

variable {κ : Type}

/-- The state that a call leaves. -/
def answer (processor : Processor κ) (state : κ) : ProcessorCall → κ
  | .load program _ => (processor.load program state).2
  | .execute _ => (processor.execute state).2
  | .setPaused paused => processor.setPaused paused state
  | .stop => processor.stop state
  | .addListener port listener => processor.addListener port listener state

/-- The processor with a record of the calls that change its state. -/
def traced (processor : Processor κ) : Processor (Traced κ) where
  load program state :=
    let (result, inner) := processor.load program state.inner
    (result, ⟨inner, state.calls ++ [.load program result.isOk]⟩)
  isLoaded state := processor.isLoaded state.inner
  execute state :=
    let (result, inner) := processor.execute state.inner
    (result, ⟨inner, state.calls ++ [.execute result.isOk]⟩)
  setPaused paused state :=
    ⟨processor.setPaused paused state.inner, state.calls ++ [.setPaused paused]⟩
  isPaused state := processor.isPaused state.inner
  stop state := ⟨processor.stop state.inner, state.calls ++ [.stop]⟩
  addListener port listener state :=
    ⟨processor.addListener port listener state.inner, state.calls ++ [.addListener port listener]⟩
  listeners port state := processor.listeners port state.inner

end Processor

/-- The calls that give each port its listener. -/
def listenerCalls : List ProcessorCall :=
  Port.all.map fun port => .addListener port ⟨port.pinMap⟩

namespace Bench

variable {κ ι ω α : Type}

/-- The bench with a record of its processor's calls, after the given ones. -/
def traced (bench : Bench κ ι ω α) (calls : List ProcessorCall) : Bench (Traced κ) ι ω α where
  family := bench.family
  compiler := bench.compiler
  processor := bench.processor.traced
  avr := ⟨bench.avr, calls⟩
  runner := bench.runner
  observer := bench.observer

/-- The calls that an operation makes. -/
def callsOf (bench : Bench κ ι ω α) (operation : BenchOperation α) : List ProcessorCall :=
  ((bench.traced []).perform operation).avr.calls

/-- The calls that a session makes. -/
def callsOfAll (bench : Bench κ ι ω α) (operations : List (BenchOperation α)) :
    List ProcessorCall :=
  ((bench.traced []).performAll operations).avr.calls

/-- An operation makes the given calls: they are what the record gets, and they lead to the processor's
state. -/
structure Makes (bench : Bench κ ι ω α) (operation : BenchOperation α) (made : List ProcessorCall) :
    Prop where
  traced : ∀ calls,
    (bench.traced calls).perform operation = (bench.perform operation).traced (calls ++ made)
  avr : (bench.perform operation).avr = made.foldl bench.processor.answer bench.avr

theorem Makes.callsOf_eq {bench : Bench κ ι ω α} {operation : BenchOperation α}
    {made : List ProcessorCall} (makes : bench.Makes operation made) :
    bench.callsOf operation = made := by
  rw [callsOf, makes.traced]
  rfl

theorem makes_nil {bench : Bench κ ι ω α} {operation : BenchOperation α}
    (traced : ∀ calls, (bench.traced calls).perform operation = (bench.perform operation).traced calls)
    (avr : (bench.perform operation).avr = bench.avr) : bench.Makes operation [] :=
  ⟨fun calls => by rw [traced, List.append_nil], avr⟩

theorem attachListeners_traced (bench : Bench κ ι ω α) (calls : List ProcessorCall) :
    (bench.traced calls).attachListeners = bench.attachListeners.traced (calls ++ listenerCalls) := by
  have chain : calls ++ listenerCalls = ((calls ++ [.addListener .b ⟨Port.b.pinMap⟩]) ++
      [.addListener .c ⟨Port.c.pinMap⟩]) ++ [.addListener .d ⟨Port.d.pinMap⟩] := by
    simp [listenerCalls, Port.all]
  rw [chain]
  rfl

/-- Whether the processor takes a program. It gets the program with its breaks merged. -/
def takes (bench : Bench κ ι ω α) (hex : Text) : Bool :=
  (bench.processor.load (mergeBreaks hex) bench.avr).1.isOk

/-- The calls that load a program. Listeners are added only to a program that is taken. -/
def loadCalls (bench : Bench κ ι ω α) (hex : Text) : List ProcessorCall :=
  .load (mergeBreaks hex) (bench.takes hex) :: if bench.takes hex then listenerCalls else []

theorem makes_loadHex (bench : Bench κ ι ω α) (hex : Text) :
    bench.Makes (.loadHex hex) (bench.loadCalls hex) where
  traced calls := by
    change ((bench.traced calls).loadHex hex).2 =
      (bench.loadHex hex).2.traced (calls ++ bench.loadCalls hex)
    have step : (bench.traced calls).processor.load (mergeBreaks hex) (bench.traced calls).avr =
        ((bench.processor.load (mergeBreaks hex) bench.avr).1,
          ⟨(bench.processor.load (mergeBreaks hex) bench.avr).2,
            calls ++ [.load (mergeBreaks hex) (bench.takes hex)]⟩) := rfl
    rw [loadHex, loadHex, ← mergeBreaks, step, loadCalls, takes]
    rcases bench.processor.load (mergeBreaks hex) bench.avr with ⟨fault | ⟨⟩, avr⟩
    · rfl
    · have attached := attachListeners_traced { bench with avr }
        (calls ++ [.load (mergeBreaks hex) true])
      rw [List.append_assoc] at attached
      exact attached
  avr := by
    rw [perform, loadHex, ← mergeBreaks, loadCalls, takes, List.foldl_cons, Processor.answer]
    rcases bench.processor.load (mergeBreaks hex) bench.avr with ⟨fault | ⟨⟩, avr⟩ <;> rfl

/-- The build that is handed to the processor. ESP32 boards hand on none, nor does a compiler that fails or
puts out nothing but blanks. -/
def build? (bench : Bench κ ι ω α) (source : Text) : Option Build :=
  match bench.family, bench.compile source with
  | .avr, .ok build => if (Text.trim build.hex).isEmpty then none else some build
  | _, _ => none

section

variable {bench : Bench κ ι ω α} {source : Text} {build : Build}

theorem compileAndLoad_of_esp32 (family : bench.family = .esp32) :
    bench.compileAndLoad source = (.ok .empty, bench) ∧ bench.build? source = none := by
  rw [compileAndLoad, build?, family]
  exact ⟨rfl, rfl⟩

theorem compileAndLoad_of_refused (family : bench.family = .avr) {fault : Fault}
    (refused : bench.compile source = .error fault) :
    bench.compileAndLoad source = (.error fault, bench) ∧ bench.build? source = none := by
  rw [compileAndLoad, build?, family, refused]
  exact ⟨rfl, rfl⟩

theorem compileAndLoad_of_blank (family : bench.family = .avr)
    (compiled : bench.compile source = .ok build) (blank : Text.allBlank build.hex = true) :
    bench.compileAndLoad source = (.error (.compilation build.stderr), bench) ∧
      bench.build? source = none := by
  have empty := (Text.isEmpty_trim build.hex).trans blank
  rw [compileAndLoad, build?, family, compiled]
  exact ⟨if_pos empty, if_pos empty⟩

theorem compileAndLoad_of_visible (family : bench.family = .avr)
    (compiled : bench.compile source = .ok build) (visible : Text.allBlank build.hex = false) :
    bench.compileAndLoad source =
        ((bench.loadHex build.hex).1.map fun _ => build, (bench.loadHex build.hex).2) ∧
      bench.build? source = some build := by
  have filled : ¬(Text.trim build.hex).isEmpty = true := by
    rw [Text.isEmpty_trim, visible]
    exact Bool.false_ne_true
  rw [compileAndLoad, build?, family, compiled]
  simp only [if_neg filled, and_true]
  rcases bench.loadHex build.hex with ⟨fault | ⟨⟩, after⟩ <;> rfl

/-- The outcomes of a build: nothing is done on ESP32 boards, the compiler fails or puts out nothing but
blanks, or there is a build to load. -/
theorem build_cases (bench : Bench κ ι ω α) (source : Text) :
    bench.family = .esp32 ∨ bench.family = .avr ∧
      ((∃ fault, bench.compile source = .error fault) ∨
        ∃ build, bench.compile source = .ok build ∧
          (Text.allBlank build.hex = true ∨ Text.allBlank build.hex = false)) := by
  cases bench.family with
  | esp32 => exact Or.inl rfl
  | avr =>
      refine Or.inr ⟨rfl, ?_⟩
      cases bench.compile source with
      | error fault => exact Or.inl ⟨fault, rfl⟩
      | ok build => exact Or.inr ⟨build, rfl, Bool.eq_false_or_eq_true _⟩

theorem compileAndLoad_of_none (refused : bench.build? source = none) :
    (bench.compileAndLoad source).2 = bench := by
  rcases bench.build_cases source with
    esp32 | ⟨family, ⟨fault, failed⟩ | ⟨build, compiled, blank | visible⟩⟩
  · rw [(compileAndLoad_of_esp32 esp32).1]
  · rw [(compileAndLoad_of_refused family failed).1]
  · rw [(compileAndLoad_of_blank family compiled blank).1]
  · rw [(compileAndLoad_of_visible family compiled visible).2] at refused
    cases refused

theorem compileAndLoad_of_some (handed : bench.build? source = some build) :
    bench.compileAndLoad source =
      ((bench.loadHex build.hex).1.map fun _ => build, (bench.loadHex build.hex).2) := by
  rcases bench.build_cases source with
    esp32 | ⟨family, ⟨fault, failed⟩ | ⟨other, compiled, blank | visible⟩⟩
  · rw [(compileAndLoad_of_esp32 esp32).2] at handed
    cases handed
  · rw [(compileAndLoad_of_refused family failed).2] at handed
    cases handed
  · rw [(compileAndLoad_of_blank family compiled blank).2] at handed
    cases handed
  · obtain ⟨loaded, same⟩ := compileAndLoad_of_visible family compiled visible
    rw [same] at handed
    rwa [Option.some.inj handed] at loaded

end

theorem makes_compileAndLoad (bench : Bench κ ι ω α) (source : Text) :
    bench.Makes (.compileAndLoad source)
      ((bench.build? source).elim [] fun build => bench.loadCalls build.hex) := by
  cases handed : bench.build? source with
  | none =>
      refine makes_nil (fun calls => ?_) (congrArg avr (compileAndLoad_of_none handed))
      have same : (bench.traced calls).build? source = none := handed
      change ((bench.traced calls).compileAndLoad source).2 =
        (bench.compileAndLoad source).2.traced calls
      rw [compileAndLoad_of_none handed, compileAndLoad_of_none same]
  | some build =>
      have loads := bench.makes_loadHex build.hex
      have eq : bench.perform (.compileAndLoad source) = bench.perform (.loadHex build.hex) :=
        congrArg Prod.snd (compileAndLoad_of_some handed)
      refine ⟨fun calls => ?_, ?_⟩
      · have same : (bench.traced calls).build? source = some build := handed
        rw [eq]
        exact (congrArg Prod.snd (compileAndLoad_of_some same)).trans (loads.traced calls)
      · rw [eq]
        exact loads.avr

/-- A run stops the processor, and then lets it execute the program that it has. -/
def runCalls (bench : Bench κ ι ω α) : List ProcessorCall :=
  .stop ::
    if bench.processor.isLoaded (bench.processor.stop bench.avr) then
      [.execute (bench.processor.execute (bench.processor.stop bench.avr)).1.isOk]
    else []

theorem runAvr_traced (bench : Bench κ ι ω α) (calls : List ProcessorCall) :
    (bench.traced calls).runAvr.2 = bench.runAvr.2.traced (calls ++ bench.runCalls) := by
  rw [runAvr_eq, runAvr_eq, runCalls]
  cases loaded : bench.processor.isLoaded (bench.processor.stop bench.avr) with
  | true =>
      have same : (bench.traced calls).processor.isLoaded
          ((bench.traced calls).processor.stop (bench.traced calls).avr) = true := loaded
      rw [if_pos rfl, if_pos rfl, if_pos same, ← List.singleton_append, ← List.append_assoc]
      rfl
  | false =>
      have same : (bench.traced calls).processor.isLoaded
          ((bench.traced calls).processor.stop (bench.traced calls).avr) = false := loaded
      rw [same]
      rfl

theorem attachObserver_traced (bench : Bench κ ι ω α) (calls : List ProcessorCall) :
    (bench.traced calls).attachObserver = bench.attachObserver.traced calls := by
  rw [attachObserver, attachObserver, show (bench.traced calls).observer = bench.observer from rfl]
  cases bench.observer <;> rfl

theorem makes_run (bench : Bench κ ι ω α) (source : Option Text) :
    bench.Makes (.run source) (if bench.family = .avr then bench.runCalls else []) where
  traced calls := by
    change ((bench.traced calls).run source).2 = (bench.run source).2.traced _
    rw [run.eq_def, run.eq_def, show (bench.traced calls).family = bench.family from rfl]
    cases bench.family with
    | avr => exact bench.runAvr_traced calls
    | esp32 =>
        rw [if_neg (by decide), List.append_nil]
        cases source with
        | none => rfl
        | some text =>
            simp only [runEsp32, attachObserver_traced]
            rfl
  avr := by
    rw [perform]
    rcases bench.run_cases source with ⟨family, eq⟩ | ⟨family, text, rfl, eq⟩ | ⟨family, rfl, eq⟩
    · rw [eq, runAvr_eq, if_pos family, runCalls]
      split <;> rfl
    · rw [eq, runEsp32, attachObserver_eq, family]
      rfl
    · rw [eq, family]
      rfl

theorem makes_setPaused (bench : Bench κ ι ω α) (paused : Bool) :
    bench.Makes (.setPaused paused) (if bench.family = .avr then [.setPaused paused] else []) where
  traced calls := by
    change (bench.traced calls).setPaused paused = (bench.setPaused paused).traced _
    rw [setPaused, setPaused, show (bench.traced calls).family = bench.family from rfl]
    cases bench.family with
    | avr => rfl
    | esp32 =>
        rw [if_neg (by decide), List.append_nil]
        rfl
  avr := by
    rw [perform, setPaused]
    cases bench.family <;> rfl

theorem makes_stop (bench : Bench κ ι ω α) : bench.Makes .stop [.stop] :=
  ⟨fun _ => rfl, rfl⟩

/-- Every operation makes calls of its own, whatever was called before. -/
theorem makes_callsOf (bench : Bench κ ι ω α) (operation : BenchOperation α) :
    bench.Makes operation (bench.callsOf operation) := by
  have known {made : List ProcessorCall} (makes : bench.Makes operation made) :
      bench.Makes operation (bench.callsOf operation) := by
    rwa [makes.callsOf_eq]
  cases operation with
  | compileAndLoad source => exact known (bench.makes_compileAndLoad source)
  | loadHex hex => exact known (bench.makes_loadHex hex)
  | run source => exact known (bench.makes_run source)
  | setPaused paused => exact known (bench.makes_setPaused paused)
  | stop => exact known bench.makes_stop
  | setFamily | observe | advance => exact makes_nil (fun _ => rfl) rfl

/-- The calls of an operation: none, those that load a program or run one, or a single one. -/
theorem callsOf_cases (bench : Bench κ ι ω α) (operation : BenchOperation α) :
    bench.callsOf operation = [] ∨ (∃ hex, bench.callsOf operation = bench.loadCalls hex) ∨
      bench.callsOf operation = bench.runCalls ∨ bench.callsOf operation = [.stop] ∨
      ∃ paused, bench.callsOf operation = [.setPaused paused] := by
  cases operation with
  | compileAndLoad source =>
      rw [(bench.makes_compileAndLoad source).callsOf_eq]
      cases bench.build? source with
      | none => exact Or.inl rfl
      | some build => exact Or.inr (Or.inl ⟨build.hex, rfl⟩)
  | loadHex hex => exact Or.inr (Or.inl ⟨hex, (bench.makes_loadHex hex).callsOf_eq⟩)
  | run source =>
      rw [(bench.makes_run source).callsOf_eq]
      split
      · exact Or.inr (Or.inr (Or.inl rfl))
      · exact Or.inl rfl
  | setPaused paused =>
      rw [(bench.makes_setPaused paused).callsOf_eq]
      split
      · exact Or.inr (Or.inr (Or.inr (Or.inr ⟨paused, rfl⟩)))
      · exact Or.inl rfl
  | stop => exact Or.inr (Or.inr (Or.inr (Or.inl rfl)))
  | setFamily | observe | advance => exact Or.inl rfl

theorem performAll_traced (bench : Bench κ ι ω α) (operations : List (BenchOperation α)) :
    (bench.traced []).performAll operations =
      (bench.performAll operations).traced (bench.callsOfAll operations) := by
  induction operations using List.reverseRecOn with
  | nil => rfl
  | append_singleton front last ih =>
      rw [callsOfAll, performAll_concat, ih, (makes_callsOf _ last).traced, performAll_concat]
      rfl

theorem callsOfAll_concat (bench : Bench κ ι ω α) (front : List (BenchOperation α))
    (last : BenchOperation α) :
    bench.callsOfAll (front ++ [last]) =
      bench.callsOfAll front ++ (bench.performAll front).callsOf last := by
  rw [callsOfAll, performAll_concat, performAll_traced, (makes_callsOf _ last).traced]
  rfl

end Bench

end Breadboard.Simulation
