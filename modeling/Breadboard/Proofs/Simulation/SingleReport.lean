import Breadboard.Proofs.Simulation.LastObserver

set_option autoImplicit false

namespace Breadboard.Simulation

/-- The number of bits of a port that are led out. These are its lowest ones. -/
def Port.width : Port → Nat
  | b => 6
  | c => 6
  | d => 8

/-- The pin behind the lowest bit of a port. The other bits follow in their order. -/
def Port.firstPin : Port → Nat
  | b => 8
  | c => 14
  | d => 0

theorem Port.pin?_of_lt {port : Port} {bit : Nat} (wired : bit < port.width) :
    port.pin? bit = some (port.firstPin + bit) := by
  cases port <;> simp only [width] at wired <;> interval_cases bit <;> rfl

theorem Port.pin?_of_le {port : Port} {bit : Nat} (unwired : port.width ≤ bit) :
    port.pin? bit = none := by
  cases port <;> simp only [width] at unwired
  · rw [pin?, portName?, if_neg (by omega), Option.bind_none]
  · rw [pin?, portName?, if_neg (by omega), Option.bind_none]
  · rw [pin?, portName?, if_neg (by omega), Option.bind_none]

/-- The bits that are led out drive consecutive pins. -/
theorem Port.pinMap_eq (port : Port) :
    port.pinMap = (List.range port.width).map fun bit => (bit, port.firstPin + bit) := by
  have narrow : port.width ≤ 8 := by cases port <;> decide
  have wired : ∀ bit ∈ List.range port.width,
      ((port.pin? bit).map fun pin => (bit, pin)) = some (bit, port.firstPin + bit) :=
    fun bit member => by rw [pin?_of_lt (List.mem_range.mp member), Option.map_some]
  have unwired : ∀ bit ∈ (List.range (8 - port.width)).map (port.width + ·),
      ((port.pin? bit).map fun pin => (bit, pin)) = none := by
    intro bit member
    obtain ⟨offset, -, rfl⟩ := List.mem_map.mp member
    rw [pin?_of_le (Nat.le_add_right _ _), Option.map_none]
  have split : List.range 8 =
      List.range port.width ++ (List.range (8 - port.width)).map (port.width + ·) := by
    rw [← List.range_add, Nat.add_sub_cancel' narrow]
  rw [pinMap, split, List.filterMap_append, List.filterMap_eq_nil_iff.mpr unwired, List.append_nil,
    List.filterMap_congr wired, List.filterMap_eq_map']

section

variable {α : Type}

/-- A script was started after an observer was set. -/
def RanObserved (operations : List (BenchOperation α)) : Prop :=
  ∃ part, part <+: operations ∧ endsWithScript part = true ∧ ∃ observer, .observe observer ∈ part

theorem lastObserver_isSome {operations : List (BenchOperation α)} :
    (lastObserver operations).isSome = true ↔ ∃ observer, .observe observer ∈ operations := by
  rw [lastObserver, List.getLast?_isSome, ne_eq, List.filterMap_eq_nil_iff]
  constructor
  · intro nonempty
    push Not at nonempty
    obtain ⟨operation, member, sets⟩ := nonempty
    cases operation with
    | observe observer => exact ⟨observer, member⟩
    | _ => exact absurd rfl sets
  · rintro ⟨observer, member⟩ none
    cases none _ member

theorem mem_of_lastObserver {operations : List (BenchOperation α)} {observer : α}
    (isLast : lastObserver operations = some observer) : .observe observer ∈ operations := by
  obtain ⟨operation, member, sets⟩ := List.mem_filterMap.mp (List.mem_of_getLast? isLast)
  cases operation with
  | observe other =>
      cases sets
      exact member
  | _ => cases sets

theorem mem_of_scriptObserver {operations : List (BenchOperation α)} {observer : α}
    (isSet : scriptObserver operations = some observer) : .observe observer ∈ operations := by
  obtain ⟨part, isPart, isLast⟩ := Option.bind_eq_some_iff.mp isSet
  have among := List.mem_filter.mp (List.mem_of_getLast? isPart)
  exact ((List.mem_inits _ _).mp among.1).subset (mem_of_lastObserver isLast)

/-- Once a script has been started under an observer, each later one has an observer too. -/
theorem scriptObserver_isSome {operations : List (BenchOperation α)} :
    (scriptObserver operations).isSome = true ↔ RanObserved operations := by
  induction operations using List.reverseRecOn with
  | nil =>
      constructor
      · nofun
      · rintro ⟨part, isPrefix, starts, -⟩
        rw [List.prefix_nil.mp isPrefix] at starts
        cases starts
  | append_singleton front last ih =>
      have longer : RanObserved (front ++ [last]) ↔
          (endsWithScript (front ++ [last]) = true ∧
            ∃ observer, .observe observer ∈ front ++ [last]) ∨ RanObserved front := by
        unfold RanObserved
        simp only [List.prefix_concat_iff, or_and_right, exists_or, exists_eq_left]
      rw [longer, scriptObserver_concat, endsWithScript_concat]
      cases script : last.givesSource && lastFamily front == .esp32 with
      | false => simpa using ih
      | true =>
          have earlier (observer : α) :
              .observe observer ∈ front ++ [last] ↔ .observe observer ∈ front := by
            rw [List.mem_append, List.mem_singleton, or_iff_left]
            rintro rfl
            cases script
          have observed : RanObserved front → ∃ observer, .observe observer ∈ front :=
            fun ⟨_, isPrefix, _, observer, member⟩ => ⟨observer, isPrefix.subset member⟩
          simp only [if_true, lastObserver_isSome, earlier, true_and]
          exact (or_iff_left_of_imp observed).symm

end

/-- Whatever a session did before, a loaded program has one listener at each port, and a change of the port
is reported once for each bit that is led out. What a script writes to the board's pins is reported once as
soon as a script was started under an observer, and not at all before. -/
theorem each_change_reported_once {κ ι ω α : Type} (compiler : Text → Except Fault Build)
    (processor : Processor κ) (keeps : processor.KeepsListeners) (avr : κ)
    (empty : processor.isLoaded avr = false) (engine : Engine ι ω α) (calls : ω → List HostCall)
    (uses : engine.UsesHost calls) (numbers : List Nat) (world : ω) (settings : LoopSettings)
    (operations : List (BenchOperation α)) (operation : BenchOperation α) :
    let bench := Bench.start compiler processor avr
      (Runner.start engine (.ofList numbers) world settings)
    let reached := bench.performAll operations
    let after := reached.perform operation
    (processor.isLoaded reached.avr = true → ∀ port,
      (∃ listener, processor.listeners port reached.avr = [listener]) ∧
      ∀ value observer, reached.observer = some observer →
        reached.portChanged port value = (List.range port.width).map fun bit =>
          ⟨observer, port.firstPin + bit, value.testBit bit⟩) ∧
    ∃ made, calls after.runner.world = calls reached.runner.world ++ made ∧
      (RanObserved (operations ++ [operation]) → ∃ observer, .observe observer ∈ operations ∧
        after.runner.pins.calls = reached.runner.pins.calls ++
          (writes numbers made).map fun (pin, level) => ⟨observer, pin, level⟩) ∧
      (¬RanObserved (operations ++ [operation]) →
        after.runner.pins.calls = reached.runner.pins.calls) := by
  intro bench reached after
  have fresh : bench.Follows calls numbers [] := ⟨rfl, rfl, uses, Pins.reports_ofList numbers⟩
  have unheard : bench.IsHeard := fun loaded => by
    rw [show bench.processor.isLoaded bench.avr = false from empty] at loaded
    cases loaded
  have heard : reached.IsHeard := unheard.performAll keeps operations
  have same : reached.processor = processor := Bench.processor_performAll bench operations
  refine ⟨fun loaded port => ?_, ?_⟩
  · have listeners := heard (by rw [same]; exact loaded) port
    refine ⟨⟨_, by rw [← same]; exact listeners⟩, fun value observer present => ?_⟩
    rw [Bench.portChanged, present, listeners]
    dsimp only
    rw [List.flatMap_singleton, PortListener.levels, Port.pinMap_eq, List.map_map, List.map_map]
    rfl
  · obtain ⟨-, made, kept, called⟩ := (fresh.performAll operations).perform operation
    refine ⟨made, kept, fun ran => ?_, fun never => ?_⟩
    · obtain ⟨observer, isSet⟩ := Option.isSome_iff_exists.mp (scriptObserver_isSome.mpr ran)
      rw [isSet] at called
      refine ⟨observer, ?_, called⟩
      have member := mem_of_scriptObserver isSet
      rw [scriptObserver_concat] at isSet
      split at isSet
      · exact mem_of_lastObserver isSet
      · exact mem_of_scriptObserver isSet
    · have unset : scriptObserver (operations ++ [operation]) = none := by
        rw [← Option.not_isSome_iff_eq_none, scriptObserver_isSome]
        exact never
      rwa [unset, notifications, Option.elim_none, List.append_nil] at called

/-- A program is loaded and run twice, and then a script, with an observer set in between. -/
def repeatedRuns : List (BenchOperation Text) :=
  [.loadHex ":00000001FF\n".toList, .run none, .run none, .loadHex ":00000001FF\n".toList, .run none,
    .setFamily .esp32, .observe "panel".toList,
    .run (some "import machine\np = Pin(2, Pin.OUT)\nwhile True:\n    p.value(1)\n".toList),
    .run (some "import machine\np = Pin(2, Pin.OUT)\nwhile True:\n    p.value(1)\n".toList)]

theorem each_change_reported_once_repeatedRuns :
    listeningProcessor.KeepsListeners ∧ blinkEngine.UsesHost id ∧
      listeningProcessor.isLoaded ⟨false, []⟩ = false ∧ RanObserved (repeatedRuns ++ [.advance 5]) ∧
      let reached := blinkBench.performAll repeatedRuns
      let after := reached.perform (.advance 5)
      listeningProcessor.isLoaded reached.avr = true ∧
      (∃ listener, listeningProcessor.listeners .c reached.avr = [listener]) ∧
      reached.portChanged .c 0x21 =
        [⟨"panel".toList, 14, true⟩, ⟨"panel".toList, 15, false⟩, ⟨"panel".toList, 16, false⟩,
          ⟨"panel".toList, 17, false⟩, ⟨"panel".toList, 18, false⟩, ⟨"panel".toList, 19, true⟩] ∧
      ∃ made observer, .observe observer ∈ repeatedRuns ∧
        after.runner.world = reached.runner.world ++ made ∧
        after.runner.pins.calls = reached.runner.pins.calls ++
          (writes esp32Pins made).map fun (pin, level) => ⟨observer, pin, level⟩ := by
  have ran : RanObserved (repeatedRuns ++ [.advance 5]) :=
    ⟨repeatedRuns, List.prefix_append _ _, rfl, "panel".toList, by simp [repeatedRuns]⟩
  obtain ⟨ports, made, kept, called, -⟩ :=
    each_change_reported_once (fun _ => .error (.compilation [])) listeningProcessor
      keepsListeners_listeningProcessor ⟨false, []⟩ rfl blinkEngine id usesHost_blinkEngine esp32Pins
      [] {} repeatedRuns (.advance 5)
  obtain ⟨listener, reported⟩ := ports rfl .c
  obtain ⟨observer, isSet, heard⟩ := called ran
  exact ⟨keepsListeners_listeningProcessor, usesHost_blinkEngine, rfl, ran, rfl, listener,
    reported 0x21 _ rfl, made, observer, isSet, kept, heard⟩

end Breadboard.Simulation
