import Breadboard.Proofs.Simulation.BenchSession
import Breadboard.Proofs.Simulation.HostCall

set_option autoImplicit false

namespace Breadboard.Simulation

open Circuit (Family)

variable {κ ι ω α : Type}

/-- What an observer hears of the levels that pins are set to. -/
def notifications (observer : Option α) (levels : List (Nat × Bool)) : List (Notification α) :=
  observer.elim [] fun observer => levels.map fun (pin, level) => ⟨observer, pin, level⟩

/-- Whether a write goes to a pin of the board that is there. -/
def isReported (numbers : List Nat) (write : Nat × Bool) : Bool :=
  esp32Pins.contains write.1 && numbers.contains write.1

/-- The writes to pins of the board that are there. -/
def writes (numbers : List Nat) (calls : List HostCall) : List (Nat × Bool) :=
  (calls.filterMap HostCall.write?).filter (isReported numbers)

@[simp] theorem notifications_nil (observer : Option α) : notifications observer [] = [] := by
  cases observer <;> rfl

theorem notifications_append (observer : Option α) (first second : List (Nat × Bool)) :
    notifications observer (first ++ second) =
      notifications observer first ++ notifications observer second := by
  cases observer with
  | none => rfl
  | some observer => exact List.map_append

theorem writes_cons (numbers : List Nat) (call : HostCall) (rest : List HostCall) :
    writes numbers (call :: rest) = writes numbers [call] ++ writes numbers rest := by
  rw [writes, writes, writes, ← List.filter_append, ← List.filterMap_append]
  rfl

/-- Different observers do not hear the same of any level. -/
theorem notifications_inj {first second : Option α} {levels : List (Nat × Bool)} :
    notifications first levels = notifications second levels ↔ levels = [] ∨ first = second := by
  cases levels with
  | nil => simp
  | cons level more =>
      constructor
      · intro same
        cases first <;> cases second
        case some.some =>
          have label := congrArg Notification.label (List.head_eq_of_cons_eq same)
          exact Or.inr (congrArg some label)
        all_goals simp_all [notifications]
      · rintro (none | rfl)
        · cases none
        · rfl

namespace Pins

/-- The pins that are there, and who listens to the pins of the board. -/
structure Reports (pins : Pins α) (numbers : List Nat) (observer : Option α) : Prop where
  present : ∀ pin, (pins.state? pin).isSome = numbers.contains pin
  listener : ∀ pin, pins.listeners[pin]? = if esp32Pins.contains pin then observer else none

section

variable {pins : Pins α} {numbers : List Nat} {observer : Option α}
  (reports : pins.Reports numbers observer)

include reports

theorem Reports.insert {pin : Nat} {state : PinState} (there : pins.state? pin = some state)
    (other : PinState) (calls : List (Notification α)) :
    Reports { pins with states := pins.states.insert pin other, calls } numbers observer := by
  refine ⟨fun place => ?_, reports.listener⟩
  rw [← reports.present place, state?, state?, Std.TreeMap.getElem?_insert]
  split
  · rename_i same
    obtain rfl : pin = place := by simpa using same
    rw [show pins.states[pin]? = some state from there]
    rfl
  · rfl

theorem Reports.update (pin : Nat) (change : PinState → PinState) :
    (pins.update pin change).Reports numbers observer ∧
      (pins.update pin change).calls = pins.calls := by
  rw [Pins.update]
  split
  · exact ⟨reports, rfl⟩
  · rename_i state there
    exact ⟨reports.insert there (change state) pins.calls, rfl⟩

/-- A pin of the board that is there is reported when it is driven. -/
theorem Reports.drive (pin : Nat) (level : Bool) :
    (pins.drive pin level).Reports numbers observer ∧
      (pins.drive pin level).calls =
        pins.calls ++ notifications observer ([(pin, level)].filter (isReported numbers)) := by
  have present := reports.present pin
  have unheard (silent : isReported numbers (pin, level) = false) :
      [(pin, level)].filter (isReported numbers) = [] :=
    List.filter_cons_of_neg (Bool.eq_false_iff.mp silent)
  rw [Pins.drive]
  split
  · rename_i absent
    rw [absent, Option.isSome_none] at present
    rw [unheard (by rw [isReported, ← present, Bool.and_false]), notifications_nil, List.append_nil]
    exact ⟨reports, rfl⟩
  · rename_i state there
    rw [there, Option.isSome_some] at present
    refine ⟨reports.insert there _ _, ?_⟩
    dsimp only
    rw [reports.listener pin]
    cases onBoard : esp32Pins.contains pin with
    | false =>
        rw [unheard (by rw [isReported, onBoard, Bool.false_and]), notifications_nil]
        rfl
    | true =>
        have heard : isReported numbers (pin, level) = true := by
          rw [isReported, onBoard, ← present, Bool.and_self]
        rw [List.filter_cons_of_pos heard, if_pos rfl]
        cases observer <;> rfl

theorem Reports.apply (call : HostCall) :
    (pins.apply call.operation).Reports numbers observer ∧
      (pins.apply call.operation).calls =
        pins.calls ++ notifications observer (writes numbers [call]) := by
  cases call with
  | configure pin mode =>
      obtain ⟨after, calls⟩ := reports.update pin fun state => { state with mode }
      refine ⟨after, calls.trans ?_⟩
      rw [show writes numbers [.configure pin mode] = [] from rfl, notifications_nil, List.append_nil]
  | setValue pin level => exact reports.drive pin level
  | setDuty pin duty => exact reports.drive pin (duty > dutyThreshold)
  | attenuate pin attenuation =>
      refine ⟨⟨reports.present, reports.listener⟩, ?_⟩
      rw [show writes numbers [.attenuate pin attenuation] = [] from rfl, notifications_nil,
        List.append_nil]
      rfl

end

/-- Calls to the host are reported in their order, one report for each write. -/
theorem Reports.answer {numbers : List Nat} {observer : Option α} {pins : Pins α}
    (reports : pins.Reports numbers observer) (made : List HostCall) :
    (pins.answer made).Reports numbers observer ∧
      (pins.answer made).calls = pins.calls ++ notifications observer (writes numbers made) := by
  induction made generalizing pins with
  | nil =>
      rw [show writes numbers [] = [] from rfl, notifications_nil, List.append_nil]
      exact ⟨reports, rfl⟩
  | cons call rest ih =>
      obtain ⟨first, called⟩ := reports.apply call
      obtain ⟨last, calledLater⟩ := ih first
      refine ⟨last, calledLater.trans ?_⟩
      rw [called, writes_cons numbers call rest, notifications_append, List.append_assoc]

/-- What was put in the place of several pins is found there. -/
theorem getElem?_foldl_insert {β : Type} (places : List Nat) (value : β) (map : Std.TreeMap Nat β)
    (pin : Nat) :
    (places.foldl (fun map place => map.insert place value) map)[pin]? =
      if places.contains pin then some value else map[pin]? := by
  induction places generalizing map with
  | nil => rfl
  | cons place rest ih =>
      rw [List.foldl_cons, ih, Std.TreeMap.getElem?_insert, List.contains_cons]
      by_cases same : place = pin
      · simp [same]
      · have other : (pin == place) = false := by simpa using fun eq => same eq.symm
        simp [same, other]

/-- Listening at several pins changes nothing but the listeners. -/
theorem listen_all (places : List Nat) (observer : α) (pins : Pins α) :
    places.foldl (fun pins place => pins.listen place observer) pins =
      { pins with
        listeners := places.foldl (fun listeners place => listeners.insert place observer)
          pins.listeners } := by
  induction places generalizing pins with
  | nil => rfl
  | cons place rest ih => exact ih (pins.listen place observer)

/-- The observer of the moment takes the place of the one before. -/
theorem Reports.listen {numbers : List Nat} {before : Option α} {pins : Pins α}
    (reports : pins.Reports numbers before) (observer : α) :
    (esp32Pins.foldl (fun pins pin => pins.listen pin observer) pins).Reports numbers
      (some observer) := by
  have same := listen_all esp32Pins observer pins
  refine ⟨fun pin => ?_, fun pin => ?_⟩
  · rw [state?, same]
    exact reports.present pin
  · rw [same, getElem?_foldl_insert, reports.listener]
    cases esp32Pins.contains pin <;> rfl

/-- Nobody listens to fresh pins. -/
theorem reports_ofList (numbers : List Nat) : (ofList numbers : Pins α).Reports numbers none := by
  refine ⟨fun pin => ?_, fun pin => ?_⟩
  · rw [state?, ofList, getElem?_foldl_insert]
    cases numbers.contains pin <;> rfl
  · rw [ite_self]
    rfl

end Pins

end Breadboard.Simulation
