import Breadboard.Proofs.Circuit.LedRetention
import Breadboard.Proofs.DistinctList

set_option autoImplicit false

namespace Breadboard.Circuit

namespace Link

/-- The pin of a link to a button. -/
def buttonPin? (link : Link) : Option Nat :=
  if link.peripheralClass = .button then link.pin? else none

/-- What a link to the signal port of an actuator says of it. -/
def actuatorEntry? (link : Link) : Option ActuatorEntry :=
  match link.peripheralClass with
  | .actuator kind =>
    if link.peripheralPort = "SIG".toList then link.pin?.map fun pin => ⟨kind, pin⟩ else none
  | _ => none

/-- What a link to a part without a template says of it. -/
def genericEntry? (link : Link) : Option GenericEntry :=
  if link.peripheralClass = .generic then
    link.pin?.map fun pin => ⟨link.peripheral.kind.tag, link.peripheralPort, pin⟩
  else none

theorem pin?_eq_some {link : Link} {pin : Nat} :
    link.pin? = some pin ↔ (link.board.pin? link.boardPort).any Pin.isGround = false ∧
      link.family.resolvePort? link.boardPort = some pin := by
  by_cases ground : (link.board.pin? link.boardPort).any Pin.isGround = true <;>
    simp [pin?, ground]

end Link

section

variable {α : Type} [BEq α] [LawfulBEq α]

theorem insertNew_eraseDups (entries : List α) (entry : α) :
    insertNew entries.eraseDups entry = (entries ++ [entry]).eraseDups := by
  have present : entries.eraseDups.contains entry = entries.contains entry := by simp
  rw [insertNew, eraseDups_concat, present]

/-- The list with what a link adds to it. -/
def gather (entries : List α) : Option α → List α
  | none => entries
  | some entry => insertNew entries entry

/-- A list that every link adds to holds what the links add, without repetitions. -/
theorem gathered {list : PartialWiring → List α} {part? : Link → Option α}
    (nothing : list .empty = [])
    (step : ∀ soFar link, list (soFar.add link) = gather (list soFar) (part? link))
    (links : List Link) :
    list (links.foldl PartialWiring.add .empty) = (links.filterMap part?).eraseDups := by
  induction links using List.reverseRecOn with
  | nil => exact nothing
  | append_singleton links link ih =>
      rw [List.foldl_concat, step, ih, List.filterMap_append]
      cases new : part? link with
      | none => simp [gather, new]
      | some entry => simp [gather, new, insertNew_eraseDups]

end

namespace PartialWiring

variable (soFar : PartialWiring) (link : Link)

theorem buttons_add : (soFar.add link).buttons = gather soFar.buttons link.buttonPin? := by
  rw [add, addPeripheral, Link.buttonPin?]
  cases link.peripheralClass <;> cases link.pin? <;> simp [gather]
  split <;> rfl

theorem actuators_add : (soFar.add link).actuators = gather soFar.actuators link.actuatorEntry? := by
  rw [add, addPeripheral, Link.actuatorEntry?]
  cases link.peripheralClass <;> cases link.pin? <;> simp [gather]
  split <;> rfl

theorem others_add : (soFar.add link).others = gather soFar.others link.genericEntry? := by
  rw [add, addPeripheral, Link.genericEntry?]
  cases link.peripheralClass <;> cases link.pin? <;> simp [gather]
  split <;> rfl

theorem family_add : (soFar.add link).family = soFar.family.or (some link.family) := by
  rw [add, addPeripheral]
  cases link.peripheralClass <;> cases link.pin? <;> simp
  split <;> rfl

theorem family_foldl_add (links : List Link) :
    (links.foldl add soFar).family = soFar.family.or (links.head?.map Link.family) := by
  induction links generalizing soFar with
  | nil => simp
  | cons link links ih =>
      rw [List.foldl_cons, ih, family_add, List.head?_cons, Option.map_some]
      cases soFar.family <;> simp

end PartialWiring

theorem nodup_litPins {leds : List PartialLed} (separated : Separated leds) :
    (litPins leds).Nodup := by
  rw [litPins, List.Nodup, List.pairwise_filterMap]
  refine separated.apart.imp fun {first second} apart pin anode other otherAnode same => ?_
  subst same
  have touched : first.touches (some pin) = true := (PartialLed.touches_iff _ _).mpr (Or.inl anode)
  have reached : second.touches (some pin) = true :=
    (PartialLed.touches_iff _ _).mpr (Or.inl otherAnode)
  rw [apart pin touched] at reached
  cases reached

/-- The wiring says of the links what it should, and nothing twice. -/
structure Wiring.SumsUp (wiring : Wiring) (links : List Link) : Prop where
  family : wiring.family = links.head?.map Link.family
  buttons : wiring.buttons = (links.filterMap Link.buttonPin?).eraseDups
  actuators : wiring.actuators = (links.filterMap Link.actuatorEntry?).eraseDups
  others : wiring.others = (links.filterMap Link.genericEntry?).eraseDups
  ledPins : wiring.ledPins.Nodup
  anodes : ∀ led ∈ wiring.leds, led.anode = some led.pin
  driven : ∀ led ∈ wiring.leds, ∃ link ∈ links, link.peripheralClass = .led ∧
    link.peripheralPort = "A".toList ∧
    (link.board.pin? link.boardPort).any Pin.isGround = false ∧
    link.family.resolvePort? link.boardPort = some led.pin

/-- The wiring of a diagram sums up its links. -/
theorem sumsUp_wiring (diagram : Diagram) : diagram.wiring.SumsUp diagram.links where
  family := PartialWiring.family_foldl_add .empty diagram.links
  buttons := gathered rfl PartialWiring.buttons_add diagram.links
  actuators := gathered rfl PartialWiring.actuators_add diagram.links
  others := gathered rfl PartialWiring.others_add diagram.links
  ledPins := by
    rw [Diagram.wiring, ledPins_ofLinks]
    exact nodup_litPins (separated_ledsAfter diagram.links)
  anodes := by
    intro led member
    obtain ⟨whole, -, finished⟩ := List.mem_filterMap.mp member
    obtain ⟨pin, anode, rfl⟩ := Option.map_eq_some_iff.mp finished
    exact anode
  driven := by
    intro led member
    have pin : led.pin ∈ diagram.wiring.ledPins := List.mem_map_of_mem member
    rw [Diagram.wiring, ledPins_ofLinks, mem_litPins_iff_survives] at pin
    obtain ⟨link, inLinks, anode, joined⟩ := mem_anodePins.mp (mem_anodePins_of_survives pin)
    rw [Link.isAnode, Bool.and_eq_true, beq_iff_eq, beq_iff_eq] at anode
    exact ⟨link, inLinks, anode.1, anode.2, Link.pin?_eq_some.mp joined⟩

end Breadboard.Circuit
