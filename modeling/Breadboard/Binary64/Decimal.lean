import Breadboard.Binary64.Basic
import Breadboard.Text.Numeral

set_option autoImplicit false

namespace Breadboard.Binary64

/-- The powers of ten. -/
def tenTo (exponent : Nat) : Nat :=
  Nat.pow 10 exponent

/-- The number nearest to `digits * 10 ^ exponent`. Beyond the range of the format the power is
not computed. -/
def ofDecimal (digits : Nat) (exponent : Int) : Binary64 :=
  let magnitude : Int := (Text.ofNat digits).length + exponent
  if digits = 0 || magnitude < -330 then finite false 0
  else if magnitude > 310 then infinite false
  else if exponent ≥ 0 then ofRatio false (digits * tenTo exponent.toNat) 1
  else ofRatio false digits (tenTo (-exponent).toNat)

/-- The exponent that a decimal fraction ends with, 0 if it ends without one. -/
def exponentPart? : Text → Option Int
  | [] => some 0
  | c :: rest =>
    if c = 'e' ∨ c = 'E' then
      match rest with
      | '-' :: digits => (Text.numeral? digits).map fun n => -(n : Int)
      | '+' :: digits => (Text.numeral? digits).map fun n => (n : Int)
      | digits => (Text.numeral? digits).map fun n => (n : Int)
    else none

/-- The number nearest to an unsigned decimal fraction such as `12`, `.5`, `5.` or `1.5e3`. -/
def ofText? (text : Text) : Option Binary64 :=
  let (whole, rest) := text.span Char.isDigit
  let (fraction, rest) :=
    match rest with
    | '.' :: digits => digits.span Char.isDigit
    | _ => ([], rest)
  if whole.isEmpty && fraction.isEmpty then none
  else
    (exponentPart? rest).map fun exponent =>
      ofDecimal (Text.digitValue 0 (whole ++ fraction)) (exponent - fraction.length)

/-- A multiple of `10 ^ exponent` that reads back as the number of `units`: of the two neighbours
on that grid the one that does, of two the nearer, of two equally near the larger. -/
private def gridPoint? (units : Nat) (exponent : Int) : Option Nat :=
  let up := tenTo exponent.toNat
  let down := tenTo (-exponent).toNat
  let step := spacing units
  let centre := 4 * units * down
  let atPower := step ≠ 1 ∧ units = 1 <<< Nat.log2 units
  let low := centre - (if atPower then step else 2 * step) * down
  let high := centre + 2 * step * down
  let closed := units / step % 2 = 0
  let one := 4 * unitsPerOne * up
  let below := centre / one
  let above := below + 1
  let hit (point : Nat) : Bool :=
    (low < point * one && point * one < high) ||
      (closed && (low == point * one || point * one == high))
  match hit below, hit above with
  | true, true => if centre - below * one < above * one - centre then some below else some above
  | true, false => some below
  | false, true => some above
  | false, false => none

/-- The digits and the exponent of the coarsest decimal that reads back as the number of `units`.
The search starts above the number and every number lies on the grid of 10^-1074. -/
def shortest (units : Nat) : Nat × Int :=
  let start := (Text.ofNat (units / unitsPerOne)).length
  let grid (drop : Nat) : Option (Nat × Int) :=
    let exponent : Int := start - drop
    (gridPoint? units exponent).map fun digits => (digits, exponent)
  ((List.range (start + 1075)).findSome? grid).getD (0, 0)

/-- `digits * 10 ^ exponent` without an exponent. -/
def positional (digits : Nat) (exponent : Int) : Text :=
  let text := Text.ofNat digits
  if exponent ≥ 0 then text ++ List.replicate exponent.toNat '0'
  else
    let places := (-exponent).toNat
    let padded := List.replicate (places + 1 - text.length) '0' ++ text
    padded.take (padded.length - places) ++ '.' :: padded.drop (padded.length - places)

/-- Whole numbers below 10^15 are written as integers, a zero of either sign as `0`. -/
def toText : Binary64 → Text
  | finite negative units =>
    let sign : Text := if negative && units != 0 then ['-'] else []
    if units % unitsPerOne = 0 ∧ units / unitsPerOne < tenTo 15 then
      sign ++ Text.ofNat (units / unitsPerOne)
    else
      let (digits, exponent) := shortest units
      sign ++ positional digits exponent
  | infinite negative => (if negative then "-inf" else "inf").toList
  | nan => "NaN".toList

end Breadboard.Binary64
