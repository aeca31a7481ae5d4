import Breadboard.Text.Basic

set_option autoImplicit false

namespace Breadboard.Text

/-- The number that a run of decimal digits denotes, read after `before`. -/
def digitValue (before : Nat) (digits : Text) : Nat :=
  digits.foldl (fun n c => 10 * n + (c.toNat - 48)) before

/-- The value of a text made of decimal digits only, and of at least one. -/
def numeral? (text : Text) : Option Nat :=
  if !text.isEmpty && text.all Char.isDigit then some (digitValue 0 text) else none

/-- The value of a numeral below `bound`. -/
def numeralBelow? (bound : Nat) (text : Text) : Option Nat :=
  (numeral? text).filter (· < bound)

/-- The first number that is no pin number, 2^32. -/
def pinBound : Nat := 0x100000000

/-- The value of a numeral in the range of pin numbers. -/
def pinNumber? (text : Text) : Option Nat :=
  numeralBelow? pinBound text

/-- The first number that a signed integer of 64 bits cannot hold, 2^63. -/
def signedBound : Nat := 0x8000000000000000

/-- The shortest decimal numeral of a number. -/
def ofNat (n : Nat) : Text :=
  Nat.toDigits 10 n

/-- The value of a hexadecimal digit. -/
def hexDigit? (c : Char) : Option Nat :=
  if '0' ≤ c ∧ c ≤ '9' then some (c.toNat - 48)
  else if 'a' ≤ c ∧ c ≤ 'f' then some (c.toNat - 87)
  else if 'A' ≤ c ∧ c ≤ 'F' then some (c.toNat - 55)
  else none

/-- The value of a text made of hexadecimal digits only, and of at least one. -/
def hexNumeral? (text : Text) : Option Nat :=
  if text.isEmpty then none
  else text.foldl (fun n? c => do return 16 * (← n?) + (← hexDigit? c)) (some 0)

end Breadboard.Text
