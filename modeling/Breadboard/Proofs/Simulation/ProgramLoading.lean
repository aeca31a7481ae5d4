import Breadboard.Proofs.Simulation.LivePath
import Breadboard.Proofs.Simulation.ProcessorCalls

set_option autoImplicit false

namespace Breadboard.Simulation

open Circuit (Family)
open Text (mergeBreaks)

/-- What a processor is given to load is the program with its breaks merged: no line is lost that holds
anything, but two breaks are still behind each other where there were three. -/
theorem loaded_program_isMerged {κ ι ω α : Type} (bench : Bench κ ι ω α) (hex : Text) :
    ∃ program, Text.IsMerged hex program ∧ ∃ taken,
      bench.callsOf (.loadHex hex) = .load program taken :: if taken then listenerCalls else [] :=
  ⟨mergeBreaks hex, Text.isMerged_mergeBreaks hex, bench.takes hex,
    (bench.makes_loadHex hex).callsOf_eq⟩

/-- Whether a processor has a program, and whether it is told to pause. -/
structure FlagState where
  loaded : Bool
  paused : Bool
  deriving DecidableEq, Repr

/-- A processor that refuses one program, and keeps its flags. -/
def flagProcessor : Processor FlagState where
  load program state :=
    if program = "BAD".toList then (.error (.emulator "bad hex".toList), state)
    else (.ok (), { state with loaded := true })
  isLoaded state := state.loaded
  execute state := (.ok (), state)
  setPaused paused state := { state with paused }
  isPaused state := state.paused
  stop state := state
  addListener _ _ state := state
  listeners _ _ := []

/-- A compiler that takes a program for its own firmware, with one that it refuses. -/
def echoCompiler (source : Text) : Except Fault Build :=
  if source = "SYNTAX".toList then .error (.compilation "syntax error".toList)
  else .ok ⟨source, [], "no program".toList⟩

def flagBench : Bench FlagState Unit Unit Unit :=
  Bench.start echoCompiler flagProcessor ⟨false, false⟩
    (Runner.start idleEngine (.ofList esp32Pins) () {})

/-- Of two empty lines one is left. -/
theorem emptyLine_reaches_processor :
    flagBench.callsOf (.loadHex ":00000001FF\n\n\n:00000001FF\n".toList) =
      .load ":00000001FF\n\n:00000001FF\n".toList true :: listenerCalls := by
  have merged : mergeBreaks ":00000001FF\n\n\n:00000001FF\n".toList =
      ":00000001FF\n\n:00000001FF\n".toList := by
    simp [Text.mergeBreaks_cons, Text.mergeBreaks_pair, Text.mergeBreaks_nil]
  rw [(Bench.makes_loadHex _ _).callsOf_eq, Bench.loadCalls, Bench.takes, merged]
  rfl

namespace Bench

variable {κ ι ω α : Type}

/-- The ways in which firmware fails to be built and loaded: the failure, the bench that it leaves, and the
calls to the processor. -/
inductive BuildFails (bench : Bench κ ι ω α) (source : Text) :
    Fault → Bench κ ι ω α → List ProcessorCall → Prop where
  | compiler {fault : Fault} (refused : bench.compile source = .error fault) :
      BuildFails bench source fault bench []
  | blank {build : Build} (compiled : bench.compile source = .ok build)
      (blank : ∀ c ∈ build.hex, Text.isBlank c = true) :
      BuildFails bench source (.compilation build.stderr) bench []
  | processor {build : Build} {fault : Fault} {avr : κ} (compiled : bench.compile source = .ok build)
      (visible : ∃ c ∈ build.hex, Text.isBlank c = false)
      (refused : bench.processor.load (mergeBreaks build.hex) bench.avr = (.error fault, avr)) :
      BuildFails bench source fault { bench with avr } [.load (mergeBreaks build.hex) false]

section

variable {bench : Bench κ ι ω α} {source : Text} {build : Build}

/-- A program that the processor refuses gets no listeners. -/
theorem loadHex_of_refused {hex : Text} {fault : Fault} {avr : κ}
    (refused : bench.processor.load (mergeBreaks hex) bench.avr = (.error fault, avr)) :
    bench.loadHex hex = (.error fault, { bench with avr }) ∧
      bench.loadCalls hex = [.load (mergeBreaks hex) false] := by
  constructor
  · rw [loadHex, ← mergeBreaks, refused]
  · rw [loadCalls, takes, refused]
    rfl

theorem compileAndLoad_of_buildFails (family : bench.family = .avr) {fault : Fault}
    {after : Bench κ ι ω α} {calls : List ProcessorCall}
    (fails : bench.BuildFails source fault after calls) :
    bench.compileAndLoad source = (.error fault, after) ∧
      bench.callsOf (.compileAndLoad source) = calls := by
  rw [(bench.makes_compileAndLoad source).callsOf_eq]
  cases fails with
  | compiler refused =>
      obtain ⟨failed, none⟩ := compileAndLoad_of_refused family refused
      rw [none]
      exact ⟨failed, rfl⟩
  | blank compiled blank =>
      obtain ⟨failed, none⟩ :=
        compileAndLoad_of_blank family compiled (List.all_eq_true.mpr blank)
      rw [none]
      exact ⟨failed, rfl⟩
  | processor compiled visible refused =>
      obtain ⟨c, member, notBlank⟩ := visible
      obtain ⟨loads, outcome⟩ := compileAndLoad_of_visible family compiled
        (List.all_eq_false.mpr ⟨c, member, Bool.eq_false_iff.mp notBlank⟩)
      obtain ⟨failed, calls⟩ := loadHex_of_refused refused
      rw [loads, outcome, failed]
      exact ⟨rfl, calls⟩

theorem buildFails_of_compileAndLoad {fault : Fault} {after : Bench κ ι ω α}
    (failed : bench.compileAndLoad source = (.error fault, after)) :
    bench.family = .avr ∧
      bench.BuildFails source fault after (bench.callsOf (.compileAndLoad source)) := by
  rw [(bench.makes_compileAndLoad source).callsOf_eq]
  rcases bench.build_cases source with
    esp32 | ⟨family, ⟨reason, refused⟩ | ⟨build, compiled, blank | visible⟩⟩
  · rw [(compileAndLoad_of_esp32 esp32).1] at failed
    cases failed
  · obtain ⟨same, none⟩ := compileAndLoad_of_refused family refused
    rw [failed] at same
    cases same
    rw [none]
    exact ⟨family, .compiler refused⟩
  · obtain ⟨same, none⟩ := compileAndLoad_of_blank family compiled blank
    rw [failed] at same
    cases same
    rw [none]
    exact ⟨family, .blank compiled (List.all_eq_true.mp blank)⟩
  · obtain ⟨same, outcome⟩ := compileAndLoad_of_visible family compiled visible
    obtain ⟨c, member, notBlank⟩ := List.all_eq_false.mp visible
    cases refused : bench.processor.load (mergeBreaks build.hex) bench.avr with
    | mk result avr =>
        cases result with
        | error reason =>
            obtain ⟨loads, calls⟩ := loadHex_of_refused refused
            rw [failed, loads] at same
            cases same
            rw [outcome, Option.elim_some, calls]
            exact ⟨family, .processor compiled ⟨c, member, Bool.eq_false_iff.mpr notBlank⟩ refused⟩
        | ok =>
            rw [failed, loadHex, ← mergeBreaks, refused] at same
            cases same

end

end Bench

/-- Firmware fails in one of three ways, and only where a program was handed to the processor is there a
call to it. On ESP32 boards nothing is built, whatever the compiler is. -/
theorem failed_build_leaves_bench {κ ι ω α : Type} (compiler : Text → Except Fault Build)
    (processor : Processor κ) (avr : κ) (runner : Runner ι ω α)
    (operations : List (BenchOperation α)) (source : Text) :
    let reached := (Bench.start compiler processor avr runner).performAll operations
    (∀ fault after calls,
      reached.compileAndLoad source = (.error fault, after) ∧
          reached.callsOf (.compileAndLoad source) = calls ↔
        reached.family = .avr ∧ reached.BuildFails source fault after calls) ∧
    (reached.family = .esp32 → ∀ other,
      let bench := { reached with compiler := other }
      bench.compileAndLoad source = (.ok .empty, bench) ∧
        bench.callsOf (.compileAndLoad source) = []) := by
  intro reached
  refine ⟨fun fault after calls => ⟨?_, ?_⟩, fun family other => ?_⟩
  · rintro ⟨failed, rfl⟩
    exact Bench.buildFails_of_compileAndLoad failed
  · rintro ⟨family, fails⟩
    exact Bench.compileAndLoad_of_buildFails family fails
  · intro bench
    obtain ⟨nothing, none⟩ : bench.compileAndLoad source = (.ok .empty, bench) ∧
        bench.build? source = none := Bench.compileAndLoad_of_esp32 family
    rw [(bench.makes_compileAndLoad source).callsOf_eq, none]
    exact ⟨nothing, rfl⟩

/-- A program that is nothing but its end. -/
def endRecord : Text :=
  ":00000001FF\n".toList

theorem perform_endRecord :
    flagBench.perform (.loadHex endRecord) = { flagBench with avr := ⟨true, false⟩ } := by
  have merged : mergeBreaks endRecord = endRecord := by
    change mergeBreaks ":00000001FF\n".toList = ":00000001FF\n".toList
    simp [Text.mergeBreaks_cons, Text.mergeBreaks_nil]
  rw [Bench.perform, Bench.loadHex, ← mergeBreaks, merged]
  rfl

/-- A program is loaded, started and paused. -/
def pausedRun : List (BenchOperation Unit) :=
  [.loadHex endRecord, .run none, .setPaused true]

/-- The bench after `pausedRun`. -/
def pausedBench : Bench FlagState Unit Unit Unit :=
  { flagBench with avr := ⟨true, true⟩, runner := flagBench.runner.stop }

theorem performAll_pausedRun : flagBench.performAll pausedRun = pausedBench := by
  rw [pausedRun, Bench.performAll, List.foldl_cons, perform_endRecord]
  rfl

/-- The paused program stays through each way of failing, and on an ESP32 board nothing fails. -/
theorem failed_build_leaves_bench_pausedRun :
    let refused := "SYNTAX".toList
    let blank := " \n".toList
    let bad := "BAD".toList
    let scripted := { pausedBench with family := Family.esp32 }
    (pausedBench.compileAndLoad refused =
        (.error (.compilation "syntax error".toList), pausedBench) ∧
      pausedBench.callsOf (.compileAndLoad refused) = []) ∧
    (pausedBench.compileAndLoad blank =
        (.error (.compilation "no program".toList), pausedBench) ∧
      pausedBench.callsOf (.compileAndLoad blank) = []) ∧
    (pausedBench.compileAndLoad bad = (.error (.emulator "bad hex".toList), pausedBench) ∧
      pausedBench.callsOf (.compileAndLoad bad) = [.load bad false]) ∧
    scripted.compileAndLoad refused = (.ok .empty, scripted) ∧
      scripted.callsOf (.compileAndLoad refused) = [] := by
  intro refused blank bad scripted
  have outcome (operations : List (BenchOperation Unit)) (source : Text) :=
    failed_build_leaves_bench echoCompiler flagProcessor ⟨false, false⟩
      (Runner.start idleEngine (.ofList esp32Pins) () {}) operations source
  have paused (source : Text) := (outcome pausedRun source).1
  have script := (outcome (pausedRun ++ [.setFamily .esp32]) refused).2
  rw [← flagBench, performAll_pausedRun] at paused
  rw [← flagBench, Bench.performAll_concat, performAll_pausedRun] at script
  have merged : mergeBreaks bad = bad := by
    simp [bad, Text.mergeBreaks_cons, Text.mergeBreaks_nil]
  have compiled (source : Text) (accepted : source ≠ "SYNTAX".toList) :
      pausedBench.compile source = .ok ⟨source, [], "no program".toList⟩ := if_neg accepted
  have failed : pausedBench.compile refused = .error (.compilation "syntax error".toList) :=
    rfl
  have unseen : ∀ c ∈ " \n".toList, Text.isBlank c = true :=
    List.all_eq_true.mp rfl
  refine ⟨?_, ?_, ?_, script rfl echoCompiler⟩
  · exact (paused refused _ _ _).mpr ⟨rfl, .compiler failed⟩
  · exact (paused blank _ _ _).mpr ⟨rfl, .blank (compiled blank (by decide)) unseen⟩
  · have fails : pausedBench.BuildFails bad (.emulator "bad hex".toList) pausedBench
        [.load (mergeBreaks bad) false] :=
      .processor (compiled bad (by decide)) ⟨'B', by decide, by decide⟩ (by rw [merged]; rfl)
    rw [merged] at fails
    exact (paused bad _ _ _).mpr ⟨rfl, fails⟩

end Breadboard.Simulation
