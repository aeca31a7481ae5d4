import Breadboard.Proofs.Script.CountedName
import Breadboard.Sketch.Template

set_option autoImplicit false

namespace Breadboard.Sketch

open Circuit (Wiring Actuator ActuatorEntry)

inductive Role where
  | led
  | button
  | actuator (kind : Actuator)
  deriving DecidableEq, Repr

def Role.word : Role → Text
  | led => "LED".toList
  | button => "BUTTON".toList
  | actuator kind => kind.constantName

def Role.tag : Role → Text
  | led => "led".toList
  | button => "button".toList
  | actuator kind => kind.tag

/-- The name of an actuator in prose. -/
def Role.prose : Role → Text
  | actuator kind => kind.friendlyName
  | _ => []

/-- What a pin is for, and its number among the pins that are for the same. -/
structure PinLabel where
  role : Role
  ordinal : Option Nat
  deriving DecidableEq, Repr

/-- The name of the constant. -/
def PinLabel.name (label : PinLabel) : Text :=
  label.role.word ++ Script.pinSuffix ++ (label.ordinal.map fun n => '_' :: Text.ofNat n).getD []

/-- The number as it stands in a name, nothing if there is none. -/
def PinLabel.number (label : PinLabel) : Text :=
  (label.ordinal.map Text.ofNat).getD []

/-- The name of the script's pin object. -/
def PinLabel.identifier (label : PinLabel) : Text :=
  label.role.tag ++ label.number

structure LabelledPin where
  label : PinLabel
  pin : Nat
  deriving DecidableEq, Repr

def LabelledPin.definition (labelled : LabelledPin) : PinDefinition :=
  ⟨labelled.label.name, labelled.pin⟩

def countedPins (role : Role) (pins : List Nat) : List LabelledPin :=
  pins.mapIdx fun index pin => ⟨⟨role, some (index + 1)⟩, pin⟩

def ledPins (wiring : Wiring) : List LabelledPin :=
  countedPins .led (wiring.leds.map (·.pin))

def buttonPins (wiring : Wiring) : List LabelledPin :=
  countedPins .button wiring.buttons

/-- The number of an actuator among those of its kind, if there are several. -/
def actuatorOrdinal (actuators : List ActuatorEntry) (index : Nat) (kind : Actuator) : Option Nat :=
  if actuators.countP (·.kind == kind) > 1 then
    some ((actuators.take (index + 1)).countP (·.kind == kind))
  else none

def actuatorPins (wiring : Wiring) : List LabelledPin :=
  wiring.actuators.mapIdx fun index entry =>
    ⟨⟨.actuator entry.kind, actuatorOrdinal wiring.actuators index entry.kind⟩, entry.pin⟩

/-- The pins in the order of their definitions. -/
def labelledPins (wiring : Wiring) : List LabelledPin :=
  ledPins wiring ++ buttonPins wiring ++ actuatorPins wiring

theorem Role.isIdentifier_word (role : Role) : Script.isIdentifier role.word = true := by
  rcases role with _ | _ | kind
  · rfl
  · rfl
  · cases kind <;> decide

theorem Role.lowercase_word (role : Role) : Script.lowercase role.word = role.tag := by
  rcases role with _ | _ | kind
  · rfl
  · rfl
  · cases kind <;> decide

/-- The words start with different letters. -/
theorem Role.eq_of_word_append {role other : Role} {more rest : Text}
    (same : role.word ++ more = other.word ++ rest) : role = other := by
  have first := congrArg List.head? same
  rcases role with _ | _ | kind <;> rcases other with _ | _ | kind' <;>
    (try cases kind) <;> (try cases kind') <;> first | rfl | cases first

theorem Role.eq_of_tag_append {role other : Role} {more rest : Text}
    (same : role.tag ++ more = other.tag ++ rest) : role = other := by
  have first := congrArg List.head? same
  rcases role with _ | _ | kind <;> rcases other with _ | _ | kind' <;>
    (try cases kind) <;> (try cases kind') <;> first | rfl | cases first

theorem PinLabel.name_injective : Function.Injective PinLabel.name := by
  rintro ⟨role, ordinal⟩ ⟨other, number⟩ same
  simp only [PinLabel.name, List.append_assoc] at same
  obtain rfl := Role.eq_of_word_append same
  have rest := List.append_cancel_left (List.append_cancel_left same)
  cases ordinal with
  | none =>
      cases number with
      | none => rfl
      | some n => cases rest
  | some n =>
      cases number with
      | none => cases rest
      | some m => rw [Text.ofNat_injective (List.tail_eq_of_cons_eq rest)]

theorem PinLabel.identifier_injective : Function.Injective PinLabel.identifier := by
  rintro ⟨role, ordinal⟩ ⟨other, number⟩ same
  simp only [PinLabel.identifier, PinLabel.number] at same
  obtain rfl := Role.eq_of_tag_append same
  have rest := List.append_cancel_left same
  cases ordinal with
  | none =>
      cases number with
      | none => rfl
      | some n => exact absurd rest.symm (Text.ofNat_ne_nil n)
  | some n =>
      cases number with
      | none => exact absurd rest (Text.ofNat_ne_nil n)
      | some m => rw [Text.ofNat_injective rest]

theorem map_mapIdx {α β γ : Type} (g : β → γ) (f : Nat → α → β) (l : List α) :
    (l.mapIdx f).map g = l.mapIdx fun index a => g (f index a) := by
  apply List.ext_getElem <;> simp

theorem ledDefinitions_eq (wiring : Wiring) :
    ledDefinitions wiring = (ledPins wiring).map LabelledPin.definition := by
  rw [ledDefinitions, countedDefinitions, ledPins, countedPins, map_mapIdx]
  rfl

theorem buttonDefinitions_eq (wiring : Wiring) :
    buttonDefinitions wiring = (buttonPins wiring).map LabelledPin.definition := by
  rw [buttonDefinitions, countedDefinitions, buttonPins, countedPins, map_mapIdx]
  rfl

theorem actuatorDefinitions_eq (wiring : Wiring) :
    (actuatorDefinitions wiring).map (fun pair => (pair.1.friendlyName, pair.2)) =
      (actuatorPins wiring).map fun labelled =>
        (labelled.label.role.prose, labelled.definition) := by
  rw [actuatorDefinitions, actuatorPins, map_mapIdx, map_mapIdx]
  refine congrArg (fun f => wiring.actuators.mapIdx f) (funext fun index => funext fun entry => ?_)
  simp only [LabelledPin.definition, PinLabel.name, Role.word, Role.prose]
  by_cases several : wiring.actuatorCount entry.kind > 1
  · have ordinal : actuatorOrdinal wiring.actuators index entry.kind =
        some ((wiring.actuators.take (index + 1)).countP (·.kind == entry.kind)) := if_pos several
    rw [if_pos several, ordinal]
    rfl
  · have ordinal : actuatorOrdinal wiring.actuators index entry.kind = none := if_neg several
    rw [if_neg several, ordinal]
    simp [Script.pinSuffix]

theorem actuatorDefinitions_snd (wiring : Wiring) :
    (actuatorDefinitions wiring).map Prod.snd =
      (actuatorPins wiring).map LabelledPin.definition := by
  have both := congrArg (List.map Prod.snd) (actuatorDefinitions_eq wiring)
  rw [List.map_map, List.map_map] at both
  exact both

theorem pinDefinitions_eq (wiring : Wiring) :
    pinDefinitions wiring = (labelledPins wiring).map LabelledPin.definition := by
  rw [pinDefinitions, labelledPins, List.map_append, List.map_append, ledDefinitions_eq,
    buttonDefinitions_eq, actuatorDefinitions_snd]

theorem nodup_mapIdx {α β : Type} {f : Nat → α → β} {l : List α}
    (apart : ∀ (first second : Nat) (_ : first < second) (inside : second < l.length),
      f first l[first] ≠ f second l[second]) : (l.mapIdx f).Nodup := by
  rw [List.Nodup, List.pairwise_iff_getElem]
  intro first second firstInside secondInside before same
  rw [List.length_mapIdx] at secondInside
  rw [List.getElem_mapIdx, List.getElem_mapIdx] at same
  exact apart first second before secondInside same

theorem nodup_countedPins (role : Role) (pins : List Nat) :
    ((countedPins role pins).map (·.label)).Nodup := by
  rw [countedPins, map_mapIdx]
  refine nodup_mapIdx fun first second before _ same => ?_
  injection same with _ ordinals
  have := Option.some.inj ordinals
  omega

theorem countP_take_lt {kind : Actuator} {actuators : List ActuatorEntry} {first second : Nat}
    (before : first < second) (inside : second < actuators.length)
    (isKind : actuators[second].kind = kind) :
    (actuators.take (first + 1)).countP (·.kind == kind) <
      (actuators.take (second + 1)).countP (·.kind == kind) := by
  have upTo : (actuators.take (first + 1)).countP (·.kind == kind) ≤
      (actuators.take second).countP (·.kind == kind) :=
    (List.take_sublist_take_left before).countP_le
  rw [List.take_succ_eq_append_getElem inside, List.countP_append, List.countP_singleton]
  simp only [isKind, beq_self_eq_true, if_true]
  omega

theorem countP_take_pos {kind : Actuator} {actuators : List ActuatorEntry} {index : Nat}
    (inside : index < actuators.length) (isKind : actuators[index].kind = kind) :
    0 < (actuators.take (index + 1)).countP (·.kind == kind) := by
  rw [List.take_succ_eq_append_getElem inside, List.countP_append, List.countP_singleton]
  simp only [isKind, beq_self_eq_true, if_true]
  omega

theorem actuatorOrdinal_ne {kind : Actuator} {actuators : List ActuatorEntry} {first second : Nat}
    (before : first < second) (inside : second < actuators.length)
    (firstKind : actuators[first].kind = kind) (secondKind : actuators[second].kind = kind) :
    actuatorOrdinal actuators first kind ≠ actuatorOrdinal actuators second kind := by
  have more := countP_take_lt before inside secondKind
  have positive := countP_take_pos (by omega : first < actuators.length) firstKind
  have all : (actuators.take (second + 1)).countP (·.kind == kind) ≤
      actuators.countP (·.kind == kind) := (List.take_sublist _ _).countP_le
  rw [actuatorOrdinal, actuatorOrdinal, if_pos (by omega), if_pos (by omega)]
  intro same
  have := Option.some.inj same
  omega

theorem nodup_actuatorPins (wiring : Wiring) : ((actuatorPins wiring).map (·.label)).Nodup := by
  rw [actuatorPins, map_mapIdx]
  refine nodup_mapIdx fun first second before inside same => ?_
  injection same with roles ordinals
  injection roles with kinds
  rw [kinds] at ordinals
  exact actuatorOrdinal_ne before inside kinds rfl ordinals

theorem role_of_mem_countedPins {role : Role} {pins : List Nat} {labelled : LabelledPin}
    (member : labelled ∈ countedPins role pins) : labelled.label.role = role := by
  obtain ⟨index, inside, rfl⟩ := List.mem_mapIdx.mp member
  rfl

theorem role_of_mem_actuatorPins {wiring : Wiring} {labelled : LabelledPin}
    (member : labelled ∈ actuatorPins wiring) : ∃ kind, labelled.label.role = .actuator kind := by
  obtain ⟨index, inside, rfl⟩ := List.mem_mapIdx.mp member
  exact ⟨_, rfl⟩

/-- No two pins of a wiring share a label. -/
theorem nodup_labels (wiring : Wiring) : ((labelledPins wiring).map (·.label)).Nodup := by
  rw [labelledPins, List.map_append, List.map_append]
  refine List.Nodup.append (List.Nodup.append (nodup_countedPins _ _) (nodup_countedPins _ _) ?_)
    (nodup_actuatorPins wiring) ?_
  · intro label inLeds inButtons
    obtain ⟨led, isLed, rfl⟩ := List.mem_map.mp inLeds
    obtain ⟨button, isButton, same⟩ := List.mem_map.mp inButtons
    have roles := congrArg PinLabel.role same
    rw [role_of_mem_countedPins isLed, role_of_mem_countedPins isButton] at roles
    cases roles
  · intro label inCounted inActuators
    obtain ⟨actuator, isActuator, rfl⟩ := List.mem_map.mp inActuators
    obtain ⟨kind, isKind⟩ := role_of_mem_actuatorPins isActuator
    rcases List.mem_append.mp inCounted with inLeds | inButtons
    · obtain ⟨led, isLed, same⟩ := List.mem_map.mp inLeds
      have roles := congrArg PinLabel.role same
      rw [role_of_mem_countedPins isLed, isKind] at roles
      cases roles
    · obtain ⟨button, isButton, same⟩ := List.mem_map.mp inButtons
      have roles := congrArg PinLabel.role same
      rw [role_of_mem_countedPins isButton, isKind] at roles
      cases roles

end Breadboard.Sketch
