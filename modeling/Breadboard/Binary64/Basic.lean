set_option autoImplicit false

/- Binary64 numbers in exact arithmetic. A finite number is counted in units of 2^-1074, the distance
of the smallest positive number from zero, so every finite number is a whole number of units. -/
namespace Breadboard

inductive Binary64 where
  | finite (negative : Bool) (units : Nat)
  | infinite (negative : Bool)
  | nan
  deriving DecidableEq, Repr

namespace Binary64

/-- The number of units in one. -/
def unitsPerOne : Nat := 1 <<< 1074

/-- The first number of units that is too large to be finite. -/
def overflow : Nat := unitsPerOne <<< 1024

/-- The distance in units between neighbours at a magnitude: 53 binary digits are kept. -/
def spacing (units : Nat) : Nat :=
  1 <<< (Nat.log2 units - 52)

/-- A quotient rounded to the nearest integer, a half to the even one. -/
def roundQuotient (numerator denominator : Nat) : Nat :=
  let quotient := numerator / denominator
  let twice := 2 * (numerator % denominator)
  if twice < denominator then quotient
  else if twice > denominator then quotient + 1
  else quotient + quotient % 2

/-- The number nearest to a fraction, a tie to the even significand. -/
def ofRatio (negative : Bool) (numerator denominator : Nat) : Binary64 :=
  let scaled := numerator * unitsPerOne
  let step := spacing (scaled / denominator)
  let units := roundQuotient scaled (denominator * step) * step
  if units < overflow then finite negative units else infinite negative

def ofNat (n : Nat) : Binary64 :=
  ofRatio false n 1

def neg : Binary64 → Binary64
  | finite negative units => finite (!negative) units
  | infinite negative => infinite (!negative)
  | nan => nan

/-- The natural number that a number equals, if any; zero of either sign counts. -/
def toNat? : Binary64 → Option Nat
  | finite negative units =>
    if (negative && units != 0) || units % unitsPerOne != 0 then none
    else some (units / unitsPerOne)
  | infinite _ => none
  | nan => none

/-- The pin number that a number equals, if any: a natural number below 2^32. -/
def pinNumber? (x : Binary64) : Option Nat :=
  x.toNat?.filter (· < 0x100000000)

/-- The bit above the fraction of a normal number, 2^52. -/
def impliedBit : Nat := 0x10000000000000

/-- The number with the given 64 bits: sign, 11 bits of exponent, 52 bits of fraction. -/
def ofBits (bits : Nat) : Binary64 :=
  let negative := (bits >>> 63) % 2 == 1
  let exponent := (bits >>> 52) % 2048
  let fraction := bits % impliedBit
  if exponent = 2047 then if fraction = 0 then infinite negative else nan
  else if exponent = 0 then finite negative fraction
  else finite negative ((impliedBit + fraction) <<< (exponent - 1))

end Binary64

end Breadboard
