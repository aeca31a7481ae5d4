import Breadboard.Circuit.Board
import Breadboard.Proofs.Text.Numeral

set_option autoImplicit false

namespace Breadboard.Circuit

open Text (IsNumeralOf pinBound)

/-- The forms of a port's name, with the number that each of them gives. -/
inductive Family.PortForm : Family → Text → Nat → Prop where
  | bare (family : Family) {digits : Text} {n : Nat} (numeral : IsNumeralOf digits n) :
      PortForm family digits n
  | analog (family : Family) {digits : Text} {n : Nat} (numeral : IsNumeralOf digits n) :
      PortForm family ('A' :: digits) (14 + n)
  | digital {digits : Text} {n : Nat} (numeral : IsNumeralOf digits n) :
      PortForm .esp32 ('D' :: digits) n
  | inputOutput {digits : Text} {n : Nat} (numeral : IsNumeralOf digits n) :
      PortForm .esp32 ('I' :: 'O' :: digits) n

section

variable {port : Text} {n : Nat}

theorem numberedPort?_eq_some {word : String} :
    numberedPort? word port = some n ↔
      ∃ digits, port = word.toList ++ digits ∧ IsNumeralOf digits n ∧ n < pinBound := by
  rw [numberedPort?, Option.bind_eq_bind, Option.bind_eq_some_iff]
  constructor
  · rintro ⟨digits, found, numeral⟩
    exact ⟨digits, (List.isPrefixOf?_eq_some_iff_append_eq.mp found).symm,
      Text.pinNumber?_eq_some.mp numeral⟩
  · rintro ⟨digits, rfl, numeral⟩
    exact ⟨digits, List.isPrefixOf?_eq_some_iff_append_eq.mpr rfl,
      Text.pinNumber?_eq_some.mpr numeral⟩

/-- An index that fits may still lead to a pin that does not. -/
theorem analogPort?_eq_some :
    analogPort? port = some n ↔
      ∃ digits index, port = 'A' :: digits ∧ IsNumeralOf digits index ∧ 14 + index = n ∧
        n < pinBound := by
  rw [analogPort?, Option.bind_eq_bind, Option.bind_eq_some_iff]
  constructor
  · rintro ⟨digits, found, read⟩
    obtain ⟨index, numeral, fits⟩ := Option.bind_eq_some_iff.mp read
    obtain ⟨below, sum⟩ := Option.ite_none_right_eq_some.mp fits
    obtain rfl : analogBase + index = n := Option.some.inj sum
    exact ⟨digits, index, (List.isPrefixOf?_eq_some_iff_append_eq.mp found).symm,
      (Text.pinNumber?_eq_some.mp numeral).1, rfl, below⟩
  · rintro ⟨digits, index, rfl, numeral, rfl, below⟩
    have fits : index < pinBound := by omega
    refine ⟨digits, rfl, Option.bind_eq_some_iff.mpr ⟨index, ?_, if_pos below⟩⟩
    exact Text.pinNumber?_eq_some.mpr ⟨numeral, fits⟩

/-- A name that starts with another character does not have the word in front. -/
theorem numberedPort?_eq_none {word : String} {first c : Char} (starts : word.toList.head? = some first)
    (other : first ≠ c) (rest : Text) : numberedPort? word (c :: rest) = none := by
  rw [Option.eq_none_iff_forall_ne_some]
  intro n found
  obtain ⟨digits, same, -⟩ := numberedPort?_eq_some.mp found
  obtain ⟨more, wordEq⟩ := List.head?_eq_some_iff.mp starts
  rw [wordEq, List.cons_append, List.cons.injEq] at same
  exact other same.1.symm

/-- Without a word in front the families do not differ. -/
theorem resolvePort?_unworded {c : Char} (noI : 'I' ≠ c) (noD : 'D' ≠ c) (family : Family) (rest : Text) :
    family.resolvePort? (c :: rest) =
      (Text.pinNumber? (c :: rest) <|> analogPort? (c :: rest)) := by
  cases family with
  | avr => rfl
  | esp32 =>
      rw [Family.resolvePort?, numberedPort?_eq_none rfl noI, numberedPort?_eq_none rfl noD]
      rfl

theorem portForm_of_unworded (family : Family)
    (read : (Text.pinNumber? port <|> analogPort? port) = some n) :
    family.PortForm port n ∧ n < pinBound := by
  rcases (Option.orElse_eq_some _ _ _).mp read with bare | ⟨-, analog⟩
  · obtain ⟨numeral, below⟩ := Text.pinNumber?_eq_some.mp bare
    exact ⟨.bare family numeral, below⟩
  · obtain ⟨digits, index, rfl, numeral, rfl, below⟩ := analogPort?_eq_some.mp analog
    exact ⟨.analog family numeral, below⟩

theorem portForm_of_resolvePort? {family : Family} (resolved : family.resolvePort? port = some n) :
    family.PortForm port n ∧ n < pinBound := by
  cases family with
  | avr => exact portForm_of_unworded .avr resolved
  | esp32 =>
      rcases (Option.orElse_eq_some _ _ _).mp resolved with inputOutput | ⟨-, others⟩
      · obtain ⟨digits, rfl, numeral, below⟩ := numberedPort?_eq_some.mp inputOutput
        exact ⟨.inputOutput numeral, below⟩
      · rcases (Option.orElse_eq_some _ _ _).mp others with digital | ⟨-, unworded⟩
        · obtain ⟨digits, rfl, numeral, below⟩ := numberedPort?_eq_some.mp digital
          exact ⟨.digital numeral, below⟩
        · exact portForm_of_unworded .esp32 unworded

/-- No name has two forms, so a form that gives no number hides none of the later ones. -/
theorem resolvePort?_of_portForm {family : Family} (form : family.PortForm port n)
    (below : n < pinBound) : family.resolvePort? port = some n := by
  cases form with
  | bare _ numeral =>
      obtain ⟨c, rest, rfl⟩ := List.exists_cons_of_ne_nil numeral.notEmpty
      obtain ⟨-, upper⟩ := numeral.decimal c List.mem_cons_self
      have notLetter (letter : Char) (above : '9' < letter) : letter ≠ c := by
        rintro rfl
        exact absurd upper (not_le.mpr above)
      rw [resolvePort?_unworded (notLetter 'I' (by decide)) (notLetter 'D' (by decide)),
        Text.pinNumber?_eq_some.mpr ⟨numeral, below⟩]
      rfl
  | @analog _ digits index numeral =>
      rw [resolvePort?_unworded (by decide) (by decide),
        Text.pinNumber?_eq_none List.mem_cons_self (by decide),
        analogPort?_eq_some.mpr ⟨digits, index, rfl, numeral, rfl, below⟩]
      rfl
  | @digital digits _ numeral =>
      have read : numberedPort? "D" ('D' :: digits) = some n :=
        numberedPort?_eq_some.mpr ⟨digits, rfl, numeral, below⟩
      rw [Family.resolvePort?, numberedPort?_eq_none rfl (by decide), read]
      rfl
  | @inputOutput digits _ numeral =>
      have read : numberedPort? "IO" ('I' :: 'O' :: digits) = some n :=
        numberedPort?_eq_some.mpr ⟨digits, rfl, numeral, below⟩
      rw [Family.resolvePort?, read]
      rfl

end

/-- The first of the board's pins with the port's name is a ground pin. -/
def Link.IsGrounded (link : Link) : Prop :=
  ∃ before pin after, link.board.pins = before ++ pin :: after ∧
    (∀ other ∈ before, other.name ≠ link.boardPort) ∧ pin.name = link.boardPort ∧
    (pin.role = some .ground ∨ "GND".toList <+: pin.name)

theorem Pin.isGround_iff (pin : Pin) :
    pin.isGround = true ↔ pin.role = some .ground ∨ "GND".toList <+: pin.name := by
  rw [isGround, Bool.or_eq_true, beq_iff_eq, List.isPrefixOf_iff_prefix]

theorem Link.isGrounded_iff (link : Link) :
    link.IsGrounded ↔ (link.board.pin? link.boardPort).any Pin.isGround = true := by
  rw [Option.any_eq_true]
  constructor
  · rintro ⟨before, pin, after, pins, others, name, ground⟩
    refine ⟨pin, List.find?_eq_some_iff_append.mpr ⟨?_, before, after, pins, ?_⟩,
      pin.isGround_iff.mpr ground⟩
    · exact beq_iff_eq.mpr name
    · intro other member
      simpa using others other member
  · rintro ⟨pin, found, ground⟩
    obtain ⟨name, before, after, pins, others⟩ := List.find?_eq_some_iff_append.mp found
    refine ⟨before, pin, after, pins, ?_, beq_iff_eq.mp name, pin.isGround_iff.mp ground⟩
    intro other member
    simpa using others other member

/-- A port's name stands for a pin just in case it has one of the forms and the pin's number fits into 32
bits. A link is at the pin of its port's name, except where the first pin of that name is a ground pin. -/
theorem port_names_resolved :
    (∀ (family : Family) (port : Text) (n : Nat),
      family.resolvePort? port = some n ↔ family.PortForm port n ∧ n ≤ 2 ^ 32 - 1) ∧
    ∀ link : Link, link.IsGrounded ∧ link.pin? = none ∨
      ¬link.IsGrounded ∧ link.pin? = link.family.resolvePort? link.boardPort := by
  refine ⟨fun family port n => ?_, fun link => ?_⟩
  · have fits : n < pinBound ↔ n ≤ 2 ^ 32 - 1 := by simp only [pinBound]; omega
    rw [← fits]
    exact ⟨portForm_of_resolvePort?, fun ⟨form, below⟩ => resolvePort?_of_portForm form below⟩
  · rw [Link.isGrounded_iff, Link.pin?]
    by_cases ground : (link.board.pin? link.boardPort).any Pin.isGround = true
    · exact Or.inl ⟨ground, if_pos ground⟩
    · exact Or.inr ⟨ground, if_neg ground⟩

example : Family.esp32.resolvePort? "A4294967290".toList = none := by decide

end Breadboard.Circuit
