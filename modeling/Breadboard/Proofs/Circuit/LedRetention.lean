import Mathlib.Data.List.Induction
import Mathlib.Data.List.Perm.Basic
import Breadboard.Circuit.Wiring

set_option autoImplicit false

namespace Breadboard.Circuit

/-- Whether the link joins the anode of an LED to the board. -/
def Link.isAnode (link : Link) : Bool :=
  link.peripheralClass == .led && link.peripheralPort == "A".toList

/-- Whether the link joins the anode of an LED to a numbered pin. -/
def Link.isDrivenAnode (link : Link) : Bool :=
  link.isAnode && link.pin?.isSome

/-- Whether the link joins the anode of an LED to a port without a number, such as a ground pin. -/
def Link.isLooseAnode (link : Link) : Bool :=
  link.isAnode && link.pin?.isNone

/-- The pins that the links join to anodes. -/
def anodePins (links : List Link) : List Nat :=
  (links.filter Link.isAnode).filterMap Link.pin?

def Wiring.ledPins (wiring : Wiring) : List Nat :=
  wiring.leds.map (·.pin)

/-- The LEDs of which the links tell a terminal. -/
def ledsAfter (links : List Link) : List PartialLed :=
  (links.foldl PartialWiring.add PartialWiring.empty).leds

/-- The anodes' pins. -/
def litPins (leds : List PartialLed) : List Nat :=
  leds.filterMap PartialLed.anode

/-- The anode's pin of the first LED with an open terminal. -/
def exposedPin? (leds : List PartialLed) : Option Nat :=
  (leds.find? (·.touches none)).bind PartialLed.anode

/-- Some wire joins an anode to the pin, and no later wire from a loose anode comes while the LED on
the pin is the first with an open terminal. -/
def Survives (pin : Nat) (links : List Link) : Prop :=
  ∃ before link after, links = before ++ link :: after ∧ link.isAnode = true ∧
    link.pin? = some pin ∧
    ∀ early loose late, after = early ++ loose :: late → loose.isLooseAnode = true →
      exposedPin? (ledsAfter (before ++ link :: early)) ≠ some pin

/-- What holds of the LEDs after any links: terminals of one LED that are both at pins are at the same
pin, and no two LEDs touch one pin. -/
structure Separated (leds : List PartialLed) : Prop where
  joined : ∀ led ∈ leds, led.anode = none ∨ led.cathode = none ∨ led.anode = led.cathode
  apart : leds.Pairwise fun first second =>
    ∀ pin, first.touches (some pin) = true → second.touches (some pin) = false

/-- A wire reaches the first LED that touches its pin, or makes a new one. -/
theorem attachLed_cases (port : Text) (pin : Option Nat) (leds : List PartialLed) :
    ((∀ led ∈ leds, led.touches pin = false) ∧
        attachLed port pin leds = leds ++ [PartialLed.unwired.attach port pin]) ∨
      ∃ front led back, leds = front ++ led :: back ∧
        (∀ other ∈ front, other.touches pin = false) ∧ led.touches pin = true ∧
        attachLed port pin leds = front ++ led.attach port pin :: back := by
  induction leds with
  | nil => exact Or.inl ⟨by simp, rfl⟩
  | cons first rest ih =>
      by_cases touched : first.touches pin = true
      · refine Or.inr ⟨[], first, rest, rfl, by simp, touched, ?_⟩
        simp only [attachLed, touched, ↓reduceIte, List.nil_append]
      · have untouched : first.touches pin = false := by simpa using touched
        have step : attachLed port pin (first :: rest) = first :: attachLed port pin rest := by
          simp only [attachLed, untouched, Bool.false_eq_true, ↓reduceIte]
        rcases ih with ⟨none, grown⟩ | ⟨front, led, back, split, skipped, met, changed⟩
        · refine Or.inl ⟨?_, by rw [step, grown, List.cons_append]⟩
          simpa [untouched] using none
        · refine Or.inr ⟨first :: front, led, back, by rw [split, List.cons_append], ?_, met, ?_⟩
          · simpa [untouched] using skipped
          · rw [step, changed, List.cons_append]

theorem PartialLed.touches_iff (led : PartialLed) (pin : Option Nat) :
    led.touches pin = true ↔ led.anode = pin ∨ led.cathode = pin := by
  simp [PartialLed.touches]

/-- A wire to a pin that the LED touches brings no other pin to it. -/
theorem PartialLed.touches_of_attach {led : PartialLed} {port : Text} {pin : Option Nat} {other : Nat}
    (met : led.touches pin = true) (after : (led.attach port pin).touches (some other) = true) :
    led.touches (some other) = true := by
  rw [PartialLed.touches_iff] at met after ⊢
  unfold PartialLed.attach at after
  split at after
  · rcases after with rfl | cathode
    · exact met
    · exact Or.inr cathode
  · split at after
    · rcases after with anode | rfl
      · exact Or.inl anode
      · exact met
    · exact after

theorem PartialLed.joined_attach {led : PartialLed} (port : Text) {pin : Option Nat}
    (met : led.touches pin = true)
    (joined : led.anode = none ∨ led.cathode = none ∨ led.anode = led.cathode) :
    (led.attach port pin).anode = none ∨ (led.attach port pin).cathode = none ∨
      (led.attach port pin).anode = (led.attach port pin).cathode := by
  rw [PartialLed.touches_iff] at met
  unfold PartialLed.attach
  split
  · rcases met with rfl | rfl
    · exact joined
    · exact Or.inr (Or.inr rfl)
  · split
    · rcases met with rfl | rfl
      · exact Or.inr (Or.inr rfl)
      · exact joined
    · exact joined

theorem PartialLed.touches_unwired_attach {port : Text} {pin : Option Nat} {other : Nat}
    (after : (PartialLed.unwired.attach port pin).touches (some other) = true) :
    pin = some other := by
  rw [PartialLed.touches_iff] at after
  unfold PartialLed.attach PartialLed.unwired at after
  split at after
  · simpa using after
  · split at after
    · simpa using after
    · simp at after

theorem separated_nil : Separated [] :=
  ⟨by simp, List.Pairwise.nil⟩

theorem Separated.attach {leds : List PartialLed} (separated : Separated leds) (port : Text)
    (pin : Option Nat) : Separated (attachLed port pin leds) := by
  rcases attachLed_cases port pin leds with ⟨untouched, grown⟩ | ⟨front, led, back, split, -, met, changed⟩
  · rw [grown]
    refine ⟨?_, ?_⟩
    · intro led member
      rcases List.mem_append.mp member with old | new
      · exact separated.joined led old
      · rw [List.mem_singleton.mp new]
        unfold PartialLed.attach PartialLed.unwired
        split
        · exact Or.inr (Or.inl rfl)
        · split <;> exact Or.inl rfl
    · rw [List.pairwise_append]
      refine ⟨separated.apart, List.pairwise_singleton _ _, ?_⟩
      intro old member new newMember other touched
      rw [List.mem_singleton.mp newMember, Bool.eq_false_iff]
      intro reached
      have same := PartialLed.touches_unwired_attach reached
      rw [← same, untouched old member] at touched
      cases touched
  · rw [changed]
    subst split
    have apart := separated.apart
    rw [List.pairwise_append, List.pairwise_cons] at apart
    obtain ⟨frontApart, ⟨ledApart, backApart⟩, across⟩ := apart
    refine ⟨?_, ?_⟩
    · intro other member
      rcases List.mem_append.mp member with inFront | rest
      · exact separated.joined other (List.mem_append_left _ inFront)
      · rcases List.mem_cons.mp rest with rfl | inBack
        · exact PartialLed.joined_attach port met (separated.joined led (by simp))
        · exact separated.joined other (by simp [inBack])
    · rw [List.pairwise_append, List.pairwise_cons]
      refine ⟨frontApart, ⟨?_, backApart⟩, ?_⟩
      · intro other member pin' touched
        exact ledApart other member pin' (PartialLed.touches_of_attach met touched)
      · intro first inFront second inRest pin' touched
        rcases List.mem_cons.mp inRest with rfl | inBack
        · rw [Bool.eq_false_iff]
          intro reached
          have clash := across first inFront led (by simp) pin' touched
          rw [PartialLed.touches_of_attach met reached] at clash
          cases clash
        · exact across first inFront second (by simp [inBack]) pin' touched

theorem litPins_append (first second : List PartialLed) :
    litPins (first ++ second) = litPins first ++ litPins second := by
  simp only [litPins, List.filterMap_append]

/-- Only a wire to an anode changes which pins drive LEDs. -/
theorem litPins_attachLed_other {port : Text} (pin : Option Nat) (leds : List PartialLed)
    (notAnode : port ≠ "A".toList) : litPins (attachLed port pin leds) = litPins leds := by
  have same : ∀ led : PartialLed, (led.attach port pin).anode = led.anode := by
    intro led
    simp only [PartialLed.attach, notAnode, ↓reduceIte]
    split <;> rfl
  rcases attachLed_cases port pin leds with ⟨-, grown⟩ | ⟨front, led, back, rfl, -, -, changed⟩
  · rw [grown, litPins_append]
    simp [litPins, same, PartialLed.unwired]
  · rw [changed, litPins_append, litPins_append]
    simp only [litPins, List.filterMap_cons, same]

/-- A wire from an anode to a pin adds that pin and loses none. -/
theorem mem_litPins_attachLed_driven {leds : List PartialLed} (separated : Separated leds)
    (driven pin : Nat) :
    pin ∈ litPins (attachLed "A".toList (some driven) leds) ↔ pin ∈ litPins leds ∨ pin = driven := by
  have anode : ∀ led : PartialLed, (led.attach "A".toList (some driven)).anode = some driven := by
    intro led
    simp only [PartialLed.attach, ↓reduceIte]
  rcases attachLed_cases "A".toList (some driven) leds with
    ⟨-, grown⟩ | ⟨front, led, back, rfl, -, met, changed⟩
  · rw [grown, litPins_append, List.mem_append]
    simp only [litPins, List.filterMap_cons, anode, List.filterMap_nil, List.mem_singleton]
  · have kept : led.anode = none ∨ led.anode = some driven := by
      rw [PartialLed.touches_iff] at met
      rcases separated.joined led (by simp) with open' | opposite | joined
      · exact Or.inl open'
      · rcases met with anode | cathode
        · exact Or.inr anode
        · rw [opposite] at cathode
          cases cathode
      · rcases met with anode | cathode
        · exact Or.inr anode
        · exact Or.inr (joined.trans cathode)
    rw [changed, litPins_append, litPins_append, List.mem_append, List.mem_append]
    rcases kept with unlit | lit
    · simp only [litPins, List.filterMap_cons, anode, unlit, List.mem_cons]
      grind
    · simp only [litPins, List.filterMap_cons, anode, lit, List.mem_cons]
      grind

/-- A wire from a loose anode takes away the pin of the first LED with an open terminal. -/
theorem mem_litPins_attachLed_loose {leds : List PartialLed} (separated : Separated leds)
    (pin : Nat) :
    pin ∈ litPins (attachLed "A".toList none leds) ↔
      pin ∈ litPins leds ∧ exposedPin? leds ≠ some pin := by
  have anode : ∀ led : PartialLed, (led.attach "A".toList none).anode = none := by
    intro led
    simp only [PartialLed.attach, ↓reduceIte]
  rcases attachLed_cases "A".toList none leds with
    ⟨untouched, grown⟩ | ⟨front, led, back, rfl, skipped, met, changed⟩
  · have hidden : exposedPin? leds = none := by
      rw [exposedPin?, List.find?_eq_none.mpr (by simpa using untouched)]
      rfl
    rw [grown, litPins_append, hidden]
    simp only [litPins, List.filterMap_cons, anode, List.filterMap_nil, List.append_nil, ne_eq,
      reduceCtorEq, not_false_eq_true, and_true]
  · have exposed : exposedPin? (front ++ led :: back) = led.anode := by
      rw [exposedPin?, List.find?_append, List.find?_eq_none.mpr (by simpa using skipped)]
      simp [met]
    -- The LED that loses its anode is the only one on that pin.
    have alone : ∀ other, other ∈ front ∨ other ∈ back → other.anode = some pin →
        led.anode ≠ some pin := by
      intro other member anodeAt same
      have reached : led.touches (some pin) = true := (PartialLed.touches_iff _ _).mpr (Or.inl same)
      have touching : other.touches (some pin) = true :=
        (PartialLed.touches_iff _ _).mpr (Or.inl anodeAt)
      have apart := separated.apart
      rw [List.pairwise_append, List.pairwise_cons] at apart
      rcases member with inFront | inBack
      · rw [apart.2.2 other inFront led (by simp) pin touching] at reached
        cases reached
      · rw [apart.2.1.1 other inBack pin reached] at touching
        cases touching
    rw [changed, exposed]
    simp only [litPins, List.filterMap_append, List.filterMap_cons, anode, List.mem_append,
      List.mem_filterMap]
    constructor
    · rintro (⟨other, member, at'⟩ | ⟨other, member, at'⟩)
      · exact ⟨Or.inl ⟨other, member, at'⟩, alone other (Or.inl member) at'⟩
      · refine ⟨Or.inr ?_, alone other (Or.inr member) at'⟩
        cases led.anode <;> simp <;> grind
    · rintro ⟨lit, notExposed⟩
      rcases lit with inFront | rest
      · exact Or.inl inFront
      · cases anodeOfLed : led.anode with
        | none =>
            rw [anodeOfLed] at rest
            exact Or.inr (List.mem_filterMap.mp rest)
        | some own =>
            rw [anodeOfLed] at rest notExposed
            simp only [List.mem_cons, List.mem_filterMap] at rest
            rcases rest with rfl | inBack
            · exact absurd rfl notExposed
            · exact Or.inr inBack

theorem ledsAfter_concat (links : List Link) (link : Link) :
    ledsAfter (links ++ [link]) =
      if link.peripheralClass = .led then
        attachLed link.peripheralPort link.pin? (ledsAfter links)
      else ledsAfter links := by
  rw [ledsAfter, List.foldl_concat, PartialWiring.add, PartialWiring.addPeripheral, ledsAfter]
  cases link.peripheralClass <;> cases link.pin? <;> simp
  split <;> rfl

theorem separated_ledsAfter (links : List Link) : Separated (ledsAfter links) := by
  induction links using List.reverseRecOn with
  | nil => exact separated_nil
  | append_singleton links link ih =>
      rw [ledsAfter_concat]
      split
      · exact ih.attach link.peripheralPort link.pin?
      · exact ih

/-- What one link more does to the pins that drive LEDs. -/
theorem mem_litPins_concat (links : List Link) (link : Link) (pin : Nat) :
    pin ∈ litPins (ledsAfter (links ++ [link])) ↔
      (link.isAnode = true ∧ link.pin? = some pin) ∨
        (pin ∈ litPins (ledsAfter links) ∧
          ¬ (link.isLooseAnode = true ∧ exposedPin? (ledsAfter links) = some pin)) := by
  have separated := separated_ledsAfter links
  rw [ledsAfter_concat]
  by_cases isLed : link.peripheralClass = .led
  · by_cases isAnodePort : link.peripheralPort = "A".toList
    · rw [if_pos isLed, isAnodePort]
      cases number : link.pin? with
      | none =>
          rw [mem_litPins_attachLed_loose separated]
          simp [Link.isAnode, Link.isLooseAnode, isLed, isAnodePort, number]
      | some driven =>
          rw [mem_litPins_attachLed_driven separated]
          simp only [Link.isAnode, Link.isLooseAnode, isLed, isAnodePort, number]
          simp
          grind
    · have notAnode : link.isAnode = false := by
        rw [Link.isAnode, Bool.and_eq_false_iff]
        exact Or.inr (beq_eq_false_iff_ne.mpr isAnodePort)
      rw [if_pos isLed, litPins_attachLed_other _ _ isAnodePort]
      simp [Link.isLooseAnode, notAnode]
  · rw [if_neg isLed]
    simp [Link.isAnode, Link.isLooseAnode, isLed]

theorem survives_concat (pin : Nat) (links : List Link) (link : Link) :
    Survives pin (links ++ [link]) ↔
      (link.isAnode = true ∧ link.pin? = some pin) ∨
        (Survives pin links ∧
          ¬ (link.isLooseAnode = true ∧ exposedPin? (ledsAfter links) = some pin)) := by
  constructor
  · rintro ⟨before, wire, after, split, anode, joined, safe⟩
    rcases List.eq_nil_or_concat after with rfl | ⟨rest, last, rfl⟩
    · obtain ⟨-, same⟩ := List.append_inj' split rfl
      rw [List.singleton_inj.mp same]
      exact Or.inl ⟨anode, joined⟩
    · rw [List.concat_eq_append, ← List.cons_append, ← List.append_assoc] at split
      obtain ⟨earlier, same⟩ := List.append_inj' split rfl
      have isLast : last = link := (List.singleton_inj.mp same).symm
      subst earlier isLast
      refine Or.inr ⟨⟨before, wire, rest, rfl, anode, joined, ?_⟩, ?_⟩
      · intro early loose late within isLoose
        exact safe early loose (late ++ [last]) (by simp [within]) isLoose
      · rintro ⟨isLoose, exposed⟩
        exact safe rest last [] (by simp) isLoose exposed
  · rintro (⟨anode, joined⟩ | ⟨⟨before, wire, after, rfl, anode, joined, safe⟩, harmless⟩)
    · exact ⟨links, link, [], rfl, anode, joined, by simp⟩
    · refine ⟨before, wire, after ++ [link], by simp, anode, joined, ?_⟩
      intro early loose late within isLoose exposed
      rcases List.eq_nil_or_concat late with rfl | ⟨rest, last, rfl⟩
      · obtain ⟨earlier, same⟩ := List.append_inj' within rfl
        rw [List.singleton_inj.mp same, earlier] at harmless
        exact harmless ⟨isLoose, exposed⟩
      · rw [List.concat_eq_append, ← List.cons_append, ← List.append_assoc] at within
        obtain ⟨earlier, -⟩ := List.append_inj' within rfl
        exact safe early loose rest earlier isLoose exposed

theorem mem_litPins_iff_survives (pin : Nat) (links : List Link) :
    pin ∈ litPins (ledsAfter links) ↔ Survives pin links := by
  induction links using List.reverseRecOn with
  | nil =>
      constructor
      · intro member
        cases member
      · rintro ⟨before, link, after, split, -⟩
        simp at split
  | append_singleton links link ih => rw [mem_litPins_concat, survives_concat, ih]

theorem ledPins_ofLinks (links : List Link) :
    (Wiring.ofLinks links).ledPins = litPins (ledsAfter links) := by
  have pins : PartialLed.anode = fun led => led.finish?.map Led.pin := by
    funext led
    cases anode : led.anode <;> simp [PartialLed.finish?, anode]
  rw [Wiring.ledPins, Wiring.ofLinks, PartialWiring.finish, litPins, ledsAfter, List.map_filterMap,
    pins]

theorem mem_anodePins {links : List Link} {pin : Nat} :
    pin ∈ anodePins links ↔ ∃ link ∈ links, link.isAnode = true ∧ link.pin? = some pin := by
  simp only [anodePins, List.mem_filterMap, List.mem_filter]
  grind

theorem mem_anodePins_of_survives {pin : Nat} {links : List Link} (survives : Survives pin links) :
    pin ∈ anodePins links := by
  obtain ⟨before, link, after, rfl, anode, joined, -⟩ := survives
  exact mem_anodePins.mpr ⟨link, by simp, anode, joined⟩

theorem survives_of_no_loose {pin : Nat} {links : List Link}
    (fixed : ∀ link ∈ links, link.isLooseAnode = false) (member : pin ∈ anodePins links) :
    Survives pin links := by
  obtain ⟨link, inLinks, anode, joined⟩ := mem_anodePins.mp member
  obtain ⟨before, after, rfl⟩ := List.append_of_mem inLinks
  refine ⟨before, link, after, rfl, anode, joined, ?_⟩
  rintro early loose late rfl isLoose
  rw [fixed loose (by simp)] at isLoose
  cases isLoose

/-- Driven anodes alone leave every cathode open. -/
theorem ledsAfter_driven {links : List Link}
    (driven : ∀ link ∈ links, link.isDrivenAnode = true) :
    ∀ led ∈ ledsAfter links, led.cathode = none ∧ led.anode.isSome := by
  induction links using List.reverseRecOn with
  | nil =>
      intro led member
      cases member
  | append_singleton links link ih =>
      have before := ih fun other member => driven other (List.mem_append_left _ member)
      have isDriven := driven link (by simp)
      simp only [Link.isDrivenAnode, Link.isAnode, Bool.and_eq_true, beq_iff_eq] at isDriven
      obtain ⟨⟨isLed, isAnodePort⟩, numbered⟩ := isDriven
      have attached : ∀ led : PartialLed, led.cathode = none →
          (led.attach "A".toList link.pin?).cathode = none ∧
            (led.attach "A".toList link.pin?).anode.isSome := by
        intro led opened
        simp only [PartialLed.attach, ↓reduceIte]
        exact ⟨opened, numbered⟩
      rw [ledsAfter_concat, if_pos isLed, isAnodePort]
      intro led member
      rcases attachLed_cases "A".toList link.pin? (ledsAfter links) with
        ⟨-, grown⟩ | ⟨front, old, back, split, -, -, changed⟩
      · rw [grown, List.mem_append, List.mem_singleton] at member
        rcases member with inBefore | rfl
        · exact before led inBefore
        · exact attached _ rfl
      · rw [split] at before
        rw [changed, List.mem_append, List.mem_cons] at member
        rcases member with inFront | rfl | inBack
        · exact before led (by simp [inFront])
        · exact attached old (before old (by simp)).1
        · exact before led (by simp [inBack])

theorem exposedPin?_driven {links : List Link} (nonempty : links ≠ [])
    (driven : ∀ link ∈ links, link.isDrivenAnode = true) :
    ∃ pin, exposedPin? (ledsAfter links) = some pin := by
  have opened := ledsAfter_driven driven
  cases leds : ledsAfter links with
  | nil =>
      obtain ⟨link, member⟩ := List.exists_mem_of_ne_nil links nonempty
      have isDriven := driven link member
      simp only [Link.isDrivenAnode, Bool.and_eq_true, Option.isSome_iff_exists] at isDriven
      obtain ⟨anode, pin, joined⟩ := isDriven
      have fixed : ∀ other ∈ links, other.isLooseAnode = false := by
        intro other inLinks
        have otherDriven := driven other inLinks
        rw [Link.isDrivenAnode, Bool.and_eq_true] at otherDriven
        rw [Link.isLooseAnode, Bool.and_eq_false_iff]
        exact Or.inr (by simp [otherDriven.2])
      have survives : Survives pin links :=
        survives_of_no_loose fixed (mem_anodePins.mpr ⟨link, member, anode, joined⟩)
      rw [← mem_litPins_iff_survives, leds] at survives
      cases survives
  | cons led rest =>
      obtain ⟨cathode, anode⟩ := opened led (by simp [leds])
      obtain ⟨pin, lit⟩ := Option.isSome_iff_exists.mp anode
      refine ⟨pin, ?_⟩
      have touched : led.touches none = true := (PartialLed.touches_iff _ _).mpr (Or.inr cathode)
      simp only [exposedPin?, List.find?_cons, touched]
      exact lit

/-- A loose anode after all driven ones takes a pin away for good. -/
theorem exists_lost_pin {driven rest : List Link} {loose : Link} (nonempty : driven ≠ [])
    (allDriven : ∀ link ∈ driven, link.isDrivenAnode = true) (isLoose : loose.isLooseAnode = true)
    (noneDriven : ∀ link ∈ rest, link.isDrivenAnode = false) :
    ∃ pin ∈ anodePins driven, ¬ Survives pin (driven ++ loose :: rest) := by
  obtain ⟨pin, exposed⟩ := exposedPin?_driven nonempty allDriven
  have gone : ∀ late, (∀ link ∈ late, link.isDrivenAnode = false) →
      ¬ Survives pin (driven ++ [loose] ++ late) := by
    intro late noDriven
    induction late using List.reverseRecOn with
    | nil =>
        rw [List.append_nil, survives_concat]
        rintro (⟨-, joined⟩ | ⟨-, harmless⟩)
        · rw [Link.isLooseAnode, joined] at isLoose
          simp at isLoose
        · exact harmless ⟨isLoose, exposed⟩
    | append_singleton late link ih =>
        rw [← List.append_assoc, survives_concat]
        rintro (⟨anode, joined⟩ | ⟨survives, -⟩)
        · have notDriven := noDriven link (by simp)
          rw [Link.isDrivenAnode, anode, joined] at notDriven
          cases notDriven
        · exact ih (fun other member => noDriven other (List.mem_append_left _ member)) survives
  refine ⟨pin, ?_, by simpa using gone rest noneDriven⟩
  apply mem_anodePins_of_survives
  rw [← mem_litPins_iff_survives]
  obtain ⟨led, found, lit⟩ := Option.bind_eq_some_iff.mp exposed
  exact List.mem_filterMap.mpr ⟨led, List.mem_of_find?_eq_some found, lit⟩

/-- The diagram with its connections in another order. -/
def Diagram.reorder (diagram : Diagram) (connections : List Connection) : Diagram :=
  { diagram with connections }

/-- The link that a connection of the diagram makes. -/
def Diagram.link? (diagram : Diagram) (connection : Connection) : Option Link :=
  (diagram.wire? connection).bind Wire.link?

theorem links_reorder (diagram : Diagram) (connections : List Connection) :
    (diagram.reorder connections).links = connections.filterMap diagram.link? := by
  rw [Diagram.links, Diagram.wires, List.filterMap_filterMap]
  rfl

theorem links_eq_filterMap (diagram : Diagram) :
    diagram.links = diagram.connections.filterMap diagram.link? :=
  links_reorder diagram diagram.connections

theorem links_perm {diagram : Diagram} {connections : List Connection}
    (order : connections.Perm diagram.connections) :
    (diagram.reorder connections).links.Perm diagram.links := by
  rw [links_reorder, links_eq_filterMap]
  exact order.filterMap _

/-- A connection whose link has a property. -/
def Diagram.joins (diagram : Diagram) (property : Link → Bool) (connection : Connection) : Bool :=
  (diagram.link? connection).any property

theorem filterMap_filter_joins (diagram : Diagram) (property : Link → Bool)
    (connections : List Connection) :
    (connections.filter (diagram.joins property)).filterMap diagram.link? =
      (connections.filterMap diagram.link?).filter property := by
  rw [List.filterMap_filter, List.filter_filterMap]
  refine List.filterMap_congr fun connection _ => ?_
  rw [Diagram.joins]
  cases diagram.link? connection <;> simp [Option.filter]

/-- The connections that make no link are among the others, and make none there either. -/
theorem filterMap_filter_not_joins (diagram : Diagram) (property : Link → Bool)
    (connections : List Connection) :
    (connections.filter (!diagram.joins property ·)).filterMap diagram.link? =
      (connections.filterMap diagram.link?).filter (!property ·) := by
  rw [List.filterMap_filter, List.filter_filterMap]
  refine List.filterMap_congr fun connection _ => ?_
  rw [Diagram.joins]
  cases diagram.link? connection <;> simp [Option.filter]

theorem isDrivenAnode_of_isLooseAnode {link : Link} (loose : link.isLooseAnode = true) :
    link.isDrivenAnode = false := by
  simp only [Link.isLooseAnode, Bool.and_eq_true, Option.isNone_iff_eq_none] at loose
  simp [Link.isDrivenAnode, loose.2]

/-- An order in which the driven anodes come first and a loose one comes next. -/
theorem exists_order_driven_first (diagram : Diagram)
    (someLoose : ∃ link ∈ diagram.links, link.isLooseAnode = true) :
    ∃ connections loose rest, connections.Perm diagram.connections ∧
      (diagram.reorder connections).links =
        diagram.links.filter Link.isDrivenAnode ++ loose :: rest ∧
      loose.isLooseAnode = true ∧ ∀ link ∈ rest, link.isDrivenAnode = false := by
  let others := diagram.connections.filter (!diagram.joins Link.isDrivenAnode ·)
  let connections := diagram.connections.filter (diagram.joins Link.isDrivenAnode) ++
    (others.filter (diagram.joins Link.isLooseAnode) ++
      others.filter (!diagram.joins Link.isLooseAnode ·))
  let undriven := diagram.links.filter (!Link.isDrivenAnode ·)
  have order : connections.Perm diagram.connections :=
    ((List.filter_append_perm _ others).append_left _).trans
      (List.filter_append_perm _ diagram.connections)
  have split : (diagram.reorder connections).links =
      diagram.links.filter Link.isDrivenAnode ++
        (undriven.filter Link.isLooseAnode ++ undriven.filter (!Link.isLooseAnode ·)) := by
    have undrivenLinks : others.filterMap diagram.link? = undriven := by
      rw [filterMap_filter_not_joins, ← links_eq_filterMap]
    rw [links_reorder, List.filterMap_append, List.filterMap_append,
      filterMap_filter_joins diagram _ diagram.connections, filterMap_filter_joins diagram _ others,
      filterMap_filter_not_joins diagram _ others, undrivenLinks, ← links_eq_filterMap]
  have notDriven : ∀ link ∈ undriven, link.isDrivenAnode = false := fun link member => by
    simpa using (List.mem_filter.mp member).2
  obtain ⟨link, member, isLoose⟩ := someLoose
  have inLoose : link ∈ undriven.filter Link.isLooseAnode :=
    List.mem_filter.mpr ⟨List.mem_filter.mpr
      ⟨member, by simp [isDrivenAnode_of_isLooseAnode isLoose]⟩, isLoose⟩
  obtain ⟨loose, more, looseOnes⟩ := List.exists_cons_of_ne_nil (List.ne_nil_of_mem inLoose)
  have fromLoose : ∀ link ∈ loose :: more, link ∈ undriven ∧ link.isLooseAnode = true :=
    fun link member => List.mem_filter.mp (looseOnes ▸ member)
  refine ⟨connections, loose, more ++ undriven.filter (!Link.isLooseAnode ·), order,
    by rw [split, looseOnes, List.cons_append], (fromLoose loose List.mem_cons_self).2, ?_⟩
  intro link member
  rcases List.mem_append.mp member with inMore | inRest
  · exact notDriven link (fromLoose link (List.mem_cons_of_mem _ inMore)).1
  · exact notDriven link (List.mem_filter.mp inRest).1

theorem anodePins_driven (links : List Link) :
    anodePins (links.filter Link.isDrivenAnode) = anodePins links := by
  induction links with
  | nil => rfl
  | cons link links ih =>
      unfold anodePins at ih ⊢
      cases anode : link.isAnode <;> cases joined : link.pin? <;>
        simp_all [Link.isDrivenAnode]

/-- A pin drives an LED of the wiring if and only if its anode survives the wires after it. Every order
of the connections keeps every anode's pin if and only if no anode is loose or none is driven. -/
theorem ledPins_kept_iff (diagram : Diagram) :
    (∀ pin, pin ∈ diagram.wiring.ledPins ↔ Survives pin diagram.links) ∧
      ((∀ connections : List Connection, connections.Perm diagram.connections → ∀ pin,
          pin ∈ (diagram.reorder connections).wiring.ledPins ↔ pin ∈ anodePins diagram.links) ↔
        (∀ link ∈ diagram.links, link.isLooseAnode = false) ∨ anodePins diagram.links = []) := by
  have survival : ∀ (any : Diagram) (pin : Nat),
      pin ∈ any.wiring.ledPins ↔ Survives pin any.links := by
    intro any pin
    rw [Diagram.wiring, ledPins_ofLinks, mem_litPins_iff_survives]
  refine ⟨survival diagram, ?_, ?_⟩
  · intro kept
    by_contra mixed
    obtain ⟨someLoose, someDriven⟩ := not_or.mp mixed
    obtain ⟨connections, loose, rest, order, split, isLoose, undriven⟩ :=
      exists_order_driven_first diagram (by simpa using someLoose)
    have nonempty : diagram.links.filter Link.isDrivenAnode ≠ [] := by
      intro empty
      rw [← anodePins_driven, empty] at someDriven
      exact someDriven rfl
    obtain ⟨pin, member, lost⟩ := exists_lost_pin nonempty
      (fun link inDriven => (List.mem_filter.mp inDriven).2) isLoose undriven
    rw [anodePins_driven] at member
    rw [← split, ← survival] at lost
    exact lost ((kept connections order pin).mpr member)
  · intro harmless connections order pin
    have samePins : pin ∈ anodePins (diagram.reorder connections).links ↔
        pin ∈ anodePins diagram.links :=
      (((links_perm order).filter _).filterMap _).mem_iff
    rw [survival]
    constructor
    · intro survives
      exact samePins.mp (mem_anodePins_of_survives survives)
    · intro member
      rcases harmless with fixed | undriven
      · refine survives_of_no_loose ?_ (samePins.mpr member)
        intro link inLinks
        exact fixed link ((links_perm order).mem_iff.mp inLinks)
      · rw [undriven] at member
        cases member

/-- An Uno with one LED between pin 13 and ground, and another with its anode on ground. -/
def groundedAnode : Diagram :=
  { components :=
      [.standard "uno".toList (.board .arduinoUno), .standard "led1".toList .led,
        .standard "led2".toList .led]
    connections :=
      [⟨⟨"led1".toList, "A".toList⟩, ⟨"uno".toList, "13".toList⟩⟩,
        ⟨⟨"led1".toList, "C".toList⟩, ⟨"uno".toList, "GND.1".toList⟩⟩,
        ⟨⟨"led2".toList, "A".toList⟩, ⟨"uno".toList, "GND.2".toList⟩⟩] }

/-- The grounded anode takes the other LED out of the wiring. -/
theorem groundedAnode_loses_pin :
    ¬ ∀ (diagram : Diagram) (link : Link) (pin : Nat), link ∈ diagram.links →
      link.isAnode = true → link.pin? = some pin → pin ∈ diagram.wiring.ledPins := by
  intro kept
  have driven : 13 ∈ anodePins groundedAnode.links := by decide
  obtain ⟨link, member, anode, joined⟩ := mem_anodePins.mp driven
  have present := kept groundedAnode link 13 member anode joined
  revert present
  decide

end Breadboard.Circuit
