import Mathlib
import Breadboard.Text.Numeral

set_option autoImplicit false

namespace Breadboard.Text

theorem ofNat_ne_nil (n : Nat) : ofNat n ≠ [] :=
  Nat.toDigits_ne_nil

theorem isDigit_of_mem_ofNat {n : Nat} {c : Char} (member : c ∈ ofNat n) : c.isDigit = true :=
  Nat.isDigit_of_mem_toDigits (by decide) (by decide) member

theorem not_mem_ofNat {c : Char} (notDigit : c.isDigit = false) (n : Nat) : c ∉ ofNat n := by
  intro member
  rw [isDigit_of_mem_ofNat member] at notDigit
  cases notDigit

theorem all_isDigit_ofNat (n : Nat) : (ofNat n).all Char.isDigit = true :=
  List.all_eq_true.mpr fun _ => isDigit_of_mem_ofNat

theorem digitValue_ofNat (n : Nat) : digitValue 0 (ofNat n) = n := by
  have sameFold : digitValue 0 (ofNat n) = Nat.ofDigitChars 10 (ofNat n) 0 := rfl
  rw [sameFold, ofNat, Nat.ofDigitChars_ten_toDigits]

theorem numeral?_ofNat (n : Nat) : numeral? (ofNat n) = some n := by
  have notEmpty : (ofNat n).isEmpty = false := by simp [ofNat_ne_nil]
  rw [numeral?, notEmpty, all_isDigit_ofNat, digitValue_ofNat]
  rfl

theorem numeralBelow?_ofNat {bound n : Nat} (below : n < bound) :
    numeralBelow? bound (ofNat n) = some n := by
  rw [numeralBelow?, numeral?_ofNat, Option.filter_some, if_pos (decide_eq_true below)]

theorem pinNumber?_ofNat {n : Nat} (below : n < pinBound) : pinNumber? (ofNat n) = some n :=
  numeralBelow?_ofNat below

theorem ofNat_injective {first second : Nat} (same : ofNat first = ofNat second) :
    first = second := by
  have read := congrArg (digitValue 0) same
  rwa [digitValue_ofNat, digitValue_ofNat] at read

theorem numeral?_eq_some {text : Text} {n : Nat} (numeral : numeral? text = some n) :
    text ≠ [] ∧ (∀ c ∈ text, c.isDigit = true) ∧ digitValue 0 text = n := by
  obtain ⟨isNumeral, value⟩ := Option.ite_none_right_eq_some.mp numeral
  simp only [Bool.and_eq_true, Bool.not_eq_true', List.isEmpty_eq_false_iff, List.all_eq_true]
    at isNumeral
  exact ⟨isNumeral.1, isNumeral.2, Option.some.inj value⟩

/-- A text with a character that is no digit is no numeral. -/
theorem numeral?_eq_none {text : Text} {c : Char} (member : c ∈ text)
    (notDigit : c.isDigit = false) : numeral? text = none := by
  have notAll : text.all Char.isDigit = false := by
    rw [List.all_eq_false]
    exact ⟨c, member, by simp [notDigit]⟩
  rw [numeral?, notAll, Bool.and_false]
  rfl

theorem pinNumber?_eq_none {text : Text} {c : Char} (member : c ∈ text)
    (notDigit : c.isDigit = false) : pinNumber? text = none := by
  rw [pinNumber?, numeralBelow?, numeral?_eq_none member notDigit]
  rfl

/-- The text is a decimal numeral of the number. Zeros may lead. -/
structure IsNumeralOf (digits : Text) (n : Nat) : Prop where
  notEmpty : digits ≠ []
  decimal : ∀ c ∈ digits, '0' ≤ c ∧ c ≤ '9'
  value : Nat.ofDigits 10 (digits.reverse.map fun c => c.toNat - '0'.toNat) = n

theorem digitValue_concat (before : Nat) (front : Text) (last : Char) :
    digitValue before (front ++ [last]) = 10 * digitValue before front + (last.toNat - '0'.toNat) := by
  rw [digitValue, List.foldl_append]
  rfl

theorem digitValue_eq_ofDigits (digits : Text) :
    digitValue 0 digits = Nat.ofDigits 10 (digits.reverse.map fun c => c.toNat - '0'.toNat) := by
  induction digits using List.reverseRecOn with
  | nil => rfl
  | append_singleton front last ih =>
      rw [digitValue_concat, ih, List.reverse_concat, List.map_cons, Nat.ofDigits_cons]
      exact Nat.add_comm _ _

theorem isDigit_iff_between (c : Char) : c.isDigit = true ↔ '0' ≤ c ∧ c ≤ '9' := by
  simp [Char.isDigit, Char.le_def]

theorem numeral?_eq_some_iff {text : Text} {n : Nat} :
    numeral? text = some n ↔ IsNumeralOf text n := by
  constructor
  · intro numeral
    obtain ⟨notEmpty, all, value⟩ := numeral?_eq_some numeral
    exact ⟨notEmpty, fun c member => (isDigit_iff_between c).mp (all c member),
      (digitValue_eq_ofDigits text).symm.trans value⟩
  · intro numeral
    have all : text.all Char.isDigit = true :=
      List.all_eq_true.mpr fun c member => (isDigit_iff_between c).mpr (numeral.decimal c member)
    have notEmpty : text.isEmpty = false := List.isEmpty_eq_false_iff.mpr numeral.notEmpty
    rw [numeral?, notEmpty, all, digitValue_eq_ofDigits, numeral.value]
    rfl

theorem pinNumber?_eq_some {text : Text} {n : Nat} :
    pinNumber? text = some n ↔ IsNumeralOf text n ∧ n < pinBound := by
  rw [pinNumber?, numeralBelow?, Option.filter_eq_some_iff, numeral?_eq_some_iff, decide_eq_true_iff]

end Breadboard.Text
