import Mathlib.Data.List.Basic
import Mathlib.Data.List.Induction
import Breadboard.Simulation.Pins

set_option autoImplicit false

namespace Breadboard.Simulation

variable {α β : Type}

/-- An operation and the operations before it. -/
structure PinMoment (α : Type) where
  before : List (PinOperation α)
  operation : PinOperation α

/-- The moments of a history that goes on behind `before`. -/
def momentsFrom (before : List (PinOperation α)) : List (PinOperation α) → List (PinMoment α)
  | [] => []
  | operation :: rest => ⟨before, operation⟩ :: momentsFrom (before ++ [operation]) rest

/-- The last of what is found at the moments of a history. -/
def latest? (find : PinMoment α → Option β) (history : List (PinOperation α)) : Option β :=
  ((momentsFrom [] history).filterMap find).getLast?

theorem momentsFrom_concat (before history : List (PinOperation α)) (operation : PinOperation α) :
    momentsFrom before (history ++ [operation]) =
      momentsFrom before history ++ [⟨before ++ history, operation⟩] := by
  induction history generalizing before with
  | nil => simp [momentsFrom]
  | cons first rest ih => simp [momentsFrom, ih]

/-- What is found at the last moment replaces what was found before. -/
theorem latest?_concat (find : PinMoment α → Option β) (history : List (PinOperation α))
    (operation : PinOperation α) :
    latest? find (history ++ [operation]) =
      (find ⟨history, operation⟩).or (latest? find history) := by
  rw [latest?, momentsFrom_concat, List.filterMap_append, List.getLast?_append, List.nil_append]
  cases found : find ⟨history, operation⟩ <;> simp [found, latest?]

/-- The pin that the program writes to, with the level. A duty above 512 counts as high. -/
def PinOperation.write? : PinOperation α → Option (Nat × Bool)
  | setValue pin level => some (pin, level)
  | setDuty pin duty => some (pin, decide (512 < duty))
  | _ => none

/-- The mode that the pin is configured to. -/
def PinMoment.mode? (pin : Nat) (moment : PinMoment α) : Option PinMode :=
  match moment.operation with
  | .configure place mode => if place = pin then some mode else none
  | _ => none

/-- The mode of a pin is the last one it was configured to. -/
def modeAfter (pin : Nat) (history : List (PinOperation α)) : PinMode :=
  (latest? (PinMoment.mode? pin) history).getD .input

/-- The level that the pin is driven to, by the program or from outside. From outside only a pin is
driven that is no output at that moment. -/
def PinMoment.level? (pin : Nat) (moment : PinMoment α) : Option Bool :=
  match moment.operation with
  | .setInput place level =>
    if place = pin ∧ modeAfter pin moment.before ≠ .output then some level else none
  | operation => do
    let (place, level) ← operation.write?
    if place = pin then some level else none

/-- The level of a pin is the last one it was driven to. -/
def levelAfter (pin : Nat) (history : List (PinOperation α)) : Bool :=
  (latest? (PinMoment.level? pin) history).getD false

/-- The reading that is set for the pin. -/
def PinMoment.reading? (pin : Nat) (moment : PinMoment α) : Option Nat :=
  match moment.operation with
  | .setReading place reading => if place = pin then some reading else none
  | _ => none

/-- A converter of 12 bits reads the last value that was set, or its largest one. -/
def readingAfter (pin : Nat) (history : List (PinOperation α)) : Nat :=
  ((latest? (PinMoment.reading? pin) history).map (min 4095)).getD 0

/-- The attenuation that is set for the pin. -/
def PinMoment.attenuation? (pin : Nat) (moment : PinMoment α) : Option Attenuation :=
  match moment.operation with
  | .attenuate place attenuation => if place = pin then some attenuation else none
  | _ => none

/-- The pin gets a listener, or it loses the one it has together with all others. -/
def PinMoment.listener? (pin : Nat) (moment : PinMoment α) : Option (Option α) :=
  match moment.operation with
  | .listen place label => if place = pin then some (some label) else none
  | .clearListeners => some none
  | _ => none

/-- The listener of a pin is the last one it was given, unless all were taken away since. -/
def listenerAfter (pin : Nat) (history : List (PinOperation α)) : Option α :=
  (latest? (PinMoment.listener? pin) history).join

/-- The call that a write to one of the pins makes. -/
def PinMoment.call? (pins : List Nat) (moment : PinMoment α) : Option (Notification α) := do
  let (pin, level) ← moment.operation.write?
  if pin ∈ pins then (listenerAfter pin moment.before).map (⟨·, pin, level⟩) else none

def callsAfter (pins : List Nat) (history : List (PinOperation α)) : List (Notification α) :=
  (momentsFrom [] history).filterMap (PinMoment.call? pins)

section

variable (history : List (PinOperation α)) (operation : PinOperation α)

theorem modeAfter_concat (pin : Nat) :
    modeAfter pin (history ++ [operation]) =
      (PinMoment.mode? pin ⟨history, operation⟩).getD (modeAfter pin history) := by
  rw [modeAfter, latest?_concat, Option.getD_or, modeAfter]

theorem levelAfter_concat (pin : Nat) :
    levelAfter pin (history ++ [operation]) =
      (PinMoment.level? pin ⟨history, operation⟩).getD (levelAfter pin history) := by
  rw [levelAfter, latest?_concat, Option.getD_or, levelAfter]

theorem listenerAfter_concat (pin : Nat) :
    listenerAfter pin (history ++ [operation]) =
      (PinMoment.listener? pin ⟨history, operation⟩).getD (listenerAfter pin history) := by
  rw [listenerAfter, latest?_concat, listenerAfter]
  cases PinMoment.listener? pin ⟨history, operation⟩ <;> rfl

theorem callsAfter_concat (pins : List Nat) :
    callsAfter pins (history ++ [operation]) =
      callsAfter pins history ++ (PinMoment.call? pins ⟨history, operation⟩).toList := by
  rw [callsAfter, momentsFrom_concat, List.filterMap_append, List.nil_append]
  rfl

end

namespace Pins

/-- Only the state of the pin itself is changed, and a pin that is not there stays away. -/
theorem state?_update (table : Pins α) (pin place : Nat) (change : PinState → PinState) :
    (table.update pin change).state? place =
      (table.state? place).map fun state => if pin = place then change state else state := by
  rw [update]
  split
  · rename_i absent
    by_cases same : pin = place
    · rw [← same, absent, Option.map_none]
    · simp [same]
  · rename_i state there
    rw [state?, Std.TreeMap.getElem?_insert]
    by_cases same : pin = place
    · simp [← same, there]
    · simp [same, state?]

/-- A write changes the states as setting the level does. -/
theorem states_drive (table : Pins α) (pin : Nat) (level : Bool) :
    (table.drive pin level).states =
      (table.update pin fun state => { state with level }).states := by
  rw [drive, update]
  split <;> rfl

theorem state?_drive (table : Pins α) (pin place : Nat) (level : Bool) :
    (table.drive pin level).state? place =
      (table.state? place).map fun state => if pin = place then { state with level } else state := by
  rw [state?, states_drive]
  exact table.state?_update pin place _

/-- Changing a state leaves the other tables alone. -/
theorem update_eq (table : Pins α) (pin : Nat) (change : PinState → PinState) :
    table.update pin change = { table with states := (table.update pin change).states } := by
  rw [update]
  split <;> rfl

/-- A write leaves the converters and the listeners alone. -/
theorem drive_eq (table : Pins α) (pin : Nat) (level : Bool) :
    table.drive pin level =
      { table with
        states := (table.drive pin level).states
        calls := (table.drive pin level).calls } := by
  rw [drive]
  split <;> rfl

section

variable (table : Pins α) (moment : PinMoment α)

/-- An operation changes the mode and the level of a pin to what it sets them to at its moment. -/
theorem state?_apply (place : Nat)
    (mode : ∀ state ∈ table.state? place, state.mode = modeAfter place moment.before) :
    (table.apply moment.operation).state? place =
      (table.state? place).map fun state =>
        ⟨(moment.mode? place).getD state.mode, (moment.level? place).getD state.level⟩ := by
  obtain ⟨before, operation⟩ := moment
  cases operation with
  | configure pin mode =>
      rw [apply, configure, state?_update]
      congr 1
      funext state
      by_cases same : pin = place <;>
        simp [PinMoment.mode?, PinMoment.level?, PinOperation.write?, same]
  | setValue pin level =>
      rw [apply, state?_drive]
      congr 1
      funext state
      by_cases same : pin = place <;>
        simp [PinMoment.mode?, PinMoment.level?, PinOperation.write?, same]
  | setDuty pin duty =>
      rw [apply, state?_drive]
      congr 1
      funext state
      by_cases same : pin = place <;>
        simp [PinMoment.mode?, PinMoment.level?, PinOperation.write?, same, dutyThreshold]
  | setInput pin level =>
      rw [apply, setInput, state?_update]
      cases found : table.state? place with
      | none => rfl
      | some state =>
          have atMoment := mode state found
          dsimp only at atMoment
          obtain ⟨mode, before⟩ := state
          by_cases same : pin = place
          · by_cases output : mode = .output <;>
              simp [PinMoment.mode?, PinMoment.level?, same, ← atMoment, output]
          · simp [PinMoment.mode?, PinMoment.level?, same]
  | setReading | attenuate | listen | clearListeners =>
      exact Option.map_id'.symm

/-- An operation sets the reading, the attenuation or the listener of the pin it names. -/
theorem tables_apply (place : Nat) :
    (table.apply moment.operation).readings[place]? =
        ((moment.reading? place).map (min 4095)).or table.readings[place]? ∧
      (table.apply moment.operation).attenuation? place =
        (moment.attenuation? place).or (table.attenuation? place) ∧
      (table.apply moment.operation).listeners[place]? =
        (moment.listener? place).getD table.listeners[place]? := by
  obtain ⟨before, operation⟩ := moment
  cases operation with
  | configure pin mode =>
      rw [apply, configure, update_eq]
      exact ⟨rfl, rfl, rfl⟩
  | setInput pin level =>
      rw [apply, setInput, update_eq]
      exact ⟨rfl, rfl, rfl⟩
  | setValue pin level =>
      rw [apply, drive_eq]
      exact ⟨rfl, rfl, rfl⟩
  | setDuty pin duty =>
      rw [apply, drive_eq]
      exact ⟨rfl, rfl, rfl⟩
  | setReading pin reading =>
      refine ⟨?_, rfl, rfl⟩
      rw [apply, setReading, Std.TreeMap.getElem?_insert, PinMoment.reading?]
      by_cases same : pin = place <;> simp [same, largestReading, Nat.min_comm]
  | attenuate pin attenuation =>
      refine ⟨rfl, ?_, rfl⟩
      rw [apply, attenuate, attenuation?, Std.TreeMap.getElem?_insert, PinMoment.attenuation?]
      by_cases same : pin = place <;> simp [same, Pins.attenuation?]
  | listen pin label =>
      refine ⟨rfl, rfl, ?_⟩
      rw [apply, listen, Std.TreeMap.getElem?_insert, PinMoment.listener?]
      by_cases same : pin = place <;> simp [same]
  | clearListeners => exact ⟨rfl, rfl, rfl⟩

end

/-- A write to a pin that is there calls the pin's listener. -/
theorem calls_drive (table : Pins α) (pin : Nat) (level : Bool) :
    (table.drive pin level).calls =
      table.calls ++ (if (table.state? pin).isSome then
        (table.listeners[pin]?.map fun label => ⟨label, pin, level⟩).toList else []) := by
  rw [drive]
  split
  · rename_i absent
    simp [absent]
  · rename_i state there
    simp [there]

/-- What the tables hold after a history of a table with the given pins. -/
structure Records (pins : List Nat) (history : List (PinOperation α)) (table : Pins α) : Prop where
  state : ∀ pin, table.state? pin =
    if pin ∈ pins then some ⟨modeAfter pin history, levelAfter pin history⟩ else none
  reading : ∀ pin, table.readings[pin]? =
    (latest? (PinMoment.reading? pin) history).map (min 4095)
  attenuation : ∀ pin, table.attenuation? pin = latest? (PinMoment.attenuation? pin) history
  listener : ∀ pin, table.listeners[pin]? = listenerAfter pin history
  calls : table.calls = callsAfter pins history

theorem records_ofList (pins : List Nat) : Records pins [] (ofList pins : Pins α) := by
  have inserted (places : List Nat) (states : Std.TreeMap Nat PinState) (pin : Nat) :
      (places.foldl (fun states place => states.insert place .initial) states)[pin]? =
        if pin ∈ places then some .initial else states[pin]? := by
    induction places generalizing states with
    | nil => simp
    | cons place rest ih =>
        rw [List.foldl_cons, ih, Std.TreeMap.getElem?_insert]
        grind
  refine ⟨fun pin => ?_, fun pin => rfl, fun pin => rfl, fun pin => rfl, rfl⟩
  rw [state?, ofList, inserted]
  rfl

/-- One more operation leaves the tables as the longer history says. -/
theorem Records.after {pins : List Nat} {history : List (PinOperation α)} {table : Pins α}
    (records : Records pins history table) (operation : PinOperation α) :
    Records pins (history ++ [operation]) (table.apply operation) := by
  have tables (pin : Nat) := table.tables_apply ⟨history, operation⟩ pin
  refine ⟨fun pin => ?_, fun pin => ?_, fun pin => ?_, fun pin => ?_, ?_⟩
  · have mode : ∀ state ∈ table.state? pin, state.mode = modeAfter pin history := by
      rw [records.state]
      grind
    rw [table.state?_apply ⟨history, operation⟩ pin mode, records.state, modeAfter_concat,
      levelAfter_concat]
    by_cases there : pin ∈ pins <;> simp [there]
  · rw [(tables pin).1, records.reading, latest?_concat, Option.map_or]
  · rw [(tables pin).2.1, records.attenuation, latest?_concat]
  · rw [(tables pin).2.2, records.listener, listenerAfter_concat]
  · rw [callsAfter_concat, ← records.calls]
    cases operation with
    | setValue pin level =>
        rw [apply, calls_drive, records.state, records.listener]
        by_cases there : pin ∈ pins <;> simp [PinMoment.call?, PinOperation.write?, there]
    | setDuty pin duty =>
        rw [apply, calls_drive, records.state, records.listener]
        by_cases there : pin ∈ pins <;>
          simp [PinMoment.call?, PinOperation.write?, there, dutyThreshold]
    | configure pin mode =>
        rw [apply, configure, update_eq]
        exact (List.append_nil _).symm
    | setInput pin level =>
        rw [apply, setInput, update_eq]
        exact (List.append_nil _).symm
    | setReading | attenuate | listen | clearListeners => exact (List.append_nil _).symm

theorem records_history (pins : List Nat) (history : List (PinOperation α)) :
    Records pins history (history.foldl apply (ofList pins)) := by
  induction history using List.reverseRecOn with
  | nil => exact records_ofList pins
  | append_singleton history operation ih =>
      rw [List.foldl_concat]
      exact ih.after operation

/-- After any operations a table has the pins it started with. Each of them has the mode it was last
configured to and the level it was last driven to, and any other pin stays unknown and low. A reading is
the last one set, up to the largest, and the listeners' calls are those that the writes made, in order. -/
theorem table_after_history (pins : List Nat) (history : List (PinOperation α)) :
    let table : Pins α := history.foldl apply (ofList pins)
    (∀ pin,
      (pin ∈ table.numbers ↔ pin ∈ pins) ∧
      table.state? pin =
        (if pin ∈ pins then some ⟨modeAfter pin history, levelAfter pin history⟩ else none) ∧
      table.value pin = (pins.contains pin && levelAfter pin history) ∧
      table.reading pin = readingAfter pin history ∧
      table.attenuation? pin = latest? (PinMoment.attenuation? pin) history) ∧
    table.calls = callsAfter pins history := by
  intro table
  have records : Records pins history table := records_history pins history
  refine ⟨fun pin => ⟨?_, records.state pin, ?_, ?_, records.attenuation pin⟩, records.calls⟩
  · rw [numbers, Std.TreeMap.mem_keys, Std.TreeMap.mem_iff_isSome_getElem?]
    have known := records.state pin
    rw [state?] at known
    rw [known]
    by_cases there : pin ∈ pins <;> simp [there]
  · rw [value, records.state]
    by_cases there : pin ∈ pins <;> simp [there]
  · rw [reading, readingAfter, Std.TreeMap.getD_eq_getD_getElem?, records.reading]

/-- An output is not driven from outside, so the level that was set before stays. -/
example :
    let history : List (PinOperation Nat) :=
      [.setInput 4 true, .configure 4 .output, .setInput 4 false, .listen 4 7, .setDuty 4 513]
    (levelAfter 4 (history.take 3), modeAfter 4 history, callsAfter [4] history) =
      (true, .output, [⟨7, 4, true⟩]) := by decide

end Pins

end Breadboard.Simulation
