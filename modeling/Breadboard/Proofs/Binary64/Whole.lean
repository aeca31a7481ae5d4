import Breadboard.Proofs.Text.Numeral
import Breadboard.Script.Constant

set_option autoImplicit false

namespace Breadboard.Binary64

/-- The exponent is kept as a variable, for the powers of this format are too large to be computed. -/
theorem exists_shiftLeft_eq (value width : Nat) :
    ∃ exponent, exponent = width ∧ value <<< width = value * 2 ^ exponent :=
  ⟨width, rfl, Nat.shiftLeft_eq value width⟩

theorem exists_unitsPerOne : ∃ exponent, exponent = 1074 ∧ unitsPerOne = 1 * 2 ^ exponent :=
  exists_shiftLeft_eq 1 1074

theorem exists_overflow : ∃ exponent, exponent = 1024 ∧ overflow = unitsPerOne * 2 ^ exponent :=
  exists_shiftLeft_eq unitsPerOne 1024

theorem unitsPerOne_pos : 0 < unitsPerOne := by
  obtain ⟨exponent, -, unit⟩ := exists_unitsPerOne
  rw [Nat.one_mul] at unit
  rw [unit]
  exact Nat.two_pow_pos exponent

theorem spacing_eq (units : Nat) : spacing units = 2 ^ (Nat.log2 units - 52) :=
  Nat.one_shiftLeft _

/-- The spacing at a number below 2^53 divides one. -/
theorem spacing_dvd {n : Nat} (small : n < 2 ^ 53) : spacing (n * unitsPerOne) ∣ unitsPerOne := by
  obtain ⟨exponent, -, unit⟩ := exists_unitsPerOne
  rw [Nat.one_mul] at unit
  have bound : n * unitsPerOne < 2 ^ (53 + exponent) := by
    rw [unit, Nat.pow_add]
    exact Nat.mul_lt_mul_of_pos_right small (Nat.two_pow_pos exponent)
  have digits : Nat.log2 (n * unitsPerOne) < 53 + exponent := by
    by_cases zero : n * unitsPerOne = 0
    · rw [zero, Nat.log2_zero]
      omega
    · exact (Nat.log2_lt zero).mpr bound
  rw [spacing_eq]
  conv => rhs; rw [unit]
  exact Nat.pow_dvd_pow 2 (by omega)

theorem roundQuotient_mul {quotient denominator : Nat} (positive : 0 < denominator) :
    roundQuotient (quotient * denominator) denominator = quotient := by
  have whole : quotient * denominator / denominator = quotient := Nat.mul_div_cancel _ positive
  have noRest : quotient * denominator % denominator = 0 := Nat.mul_mod_left _ _
  rw [roundQuotient, whole, noRest, Nat.mul_zero, if_pos positive]

theorem ofNat_eq {n : Nat} (small : n < 2 ^ 53) : ofNat n = finite false (n * unitsPerOne) := by
  have stepPos : 0 < spacing (n * unitsPerOne) := by
    rw [spacing_eq]
    exact Nat.two_pow_pos _
  obtain ⟨quotient, multiple⟩ := Nat.dvd_mul_left_of_dvd (spacing_dvd small) n
  have rounded : roundQuotient (n * unitsPerOne) (spacing (n * unitsPerOne)) *
      spacing (n * unitsPerOne) = n * unitsPerOne := by
    have turned : n * unitsPerOne = quotient * spacing (n * unitsPerOne) := by
      rw [Nat.mul_comm quotient]
      exact multiple
    have quotientIs := @roundQuotient_mul quotient _ stepPos
    rw [← turned] at quotientIs
    rw [quotientIs]
    exact turned.symm
  have isFinite : n * unitsPerOne < overflow := by
    obtain ⟨width, wide, overflowIs⟩ := exists_overflow
    rw [overflowIs, Nat.mul_comm]
    exact Nat.mul_lt_mul_of_pos_left
      (Nat.lt_of_lt_of_le small (Nat.pow_le_pow_right (by decide) (by omega))) unitsPerOne_pos
  rw [ofNat, ofRatio, Nat.div_one, Nat.one_mul, rounded, if_pos isFinite]

theorem pinBound_lt : Text.pinBound < 2 ^ 53 := by
  decide

theorem pinNumber?_ofNat {n : Nat} (below : n < Text.pinBound) : pinNumber? (ofNat n) = some n := by
  have whole : toNat? (finite false (n * unitsPerOne)) = some n := by
    simp [toNat?, Nat.mul_div_cancel n unitsPerOne_pos]
  rw [pinNumber?, ofNat_eq (Nat.lt_trans below pinBound_lt), whole, Option.filter_some]
  exact if_pos (decide_eq_true below)

theorem ofDecimal_whole {n : Nat} (small : n < 2 ^ 64) : ofDecimal n 0 = ofNat n := by
  have digits : (Text.ofNat n).length ≤ 20 := by
    refine (Nat.length_toDigits_le_iff (by decide) (by decide)).mpr ?_
    exact Nat.lt_trans small (by decide)
  have notTiny : ¬((Text.ofNat n).length + (0 : Int) < -330) := by omega
  have notHuge : ¬((Text.ofNat n).length + (0 : Int) > 310) := by omega
  have one : n * tenTo (0 : Int).toNat = n := Nat.mul_one n
  rw [ofDecimal]
  by_cases zero : n = 0
  · subst zero
    rw [ofNat_eq (Nat.two_pow_pos 53), decide_eq_true rfl, Bool.true_or, if_pos rfl, Nat.zero_mul]
  · rw [decide_eq_false zero, decide_eq_false notTiny, Bool.or_self, if_neg Bool.false_ne_true,
      if_neg notHuge, if_pos (le_refl _), one, ofNat]

/-- A decimal numeral of such a number is read as the number. -/
theorem ofText?_of_numeral? {text : Text} {n : Nat} (numeral : Text.numeral? text = some n)
    (small : n < 2 ^ 64) : ofText? text = some (ofNat n) := by
  obtain ⟨notEmpty, digits, rfl⟩ := Text.numeral?_eq_some numeral
  have spanned : text.span Char.isDigit = (text, []) := by
    rw [List.span_eq_takeWhile_dropWhile, List.takeWhile_eq_self_iff.mpr digits,
      List.dropWhile_eq_nil_iff.mpr digits]
  have filled : text.isEmpty = false := by simpa using notEmpty
  simp only [ofText?, spanned, filled, List.append_nil, Bool.false_and]
  exact congrArg some (ofDecimal_whole small)

end Breadboard.Binary64

namespace Breadboard.Script

theorem dropTrailing_of_absent {p : Char → Bool} {text : Text} (absent : ∀ c ∈ text, p c = false) :
    dropTrailing p text = text := by
  have back : text.reverse.dropWhile p = text.reverse := by
    cases turned : text.reverse with
    | nil => rfl
    | cons c more =>
        have member : c ∈ text := List.mem_reverse.mp (by rw [turned]; exact List.mem_cons_self)
        exact List.dropWhile_cons_of_neg (by simp [absent c member])
  rw [dropTrailing, back, List.reverse_reverse]

theorem numericLiteral?_of_numeral? {text : Text} {n : Nat} (numeral : Text.numeral? text = some n)
    (small : n < 2 ^ 64) : numericLiteral? text = some (.ofNat n) := by
  obtain ⟨-, digits, -⟩ := Text.numeral?_eq_some numeral
  have noSuffix : dropTrailing isNumberSuffix text = text := by
    refine dropTrailing_of_absent fun c member => ?_
    by_contra suffix
    simp only [isNumberSuffix, isIntegerSuffix, Bool.not_eq_false, Bool.or_eq_true, beq_iff_eq]
      at suffix
    rcases suffix with ((((rfl | rfl) | rfl) | rfl) | rfl) | rfl <;> cases digits _ member
  rw [numericLiteral?]
  · rw [noSuffix, Binary64.ofText?_of_numeral? numeral small]
  · rintro more rfl
    cases digits 'x' (by simp)
  · rintro more rfl
    cases digits 'X' (by simp)

theorem numericLiteral?_ofNat {n : Nat} (small : n < 2 ^ 53) :
    numericLiteral? (Text.ofNat n) = some (Binary64.ofNat n) :=
  numericLiteral?_of_numeral? (Text.numeral?_ofNat n) (Nat.lt_trans small (by decide))

end Breadboard.Script
