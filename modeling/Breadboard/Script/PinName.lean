import Breadboard.Sketch.Lexer
import Breadboard.Text.Lowercase
import Breadboard.Text.Numeral

set_option autoImplicit false

namespace Breadboard.Script

/-- A letter or underscore, then letters, digits and underscores, all of them ASCII. -/
def isIdentifier : Text → Bool
  | [] => false
  | c :: rest => Sketch.isWordStart c && rest.all Sketch.isWordChar

inductive PinRef where
  | number (pin : Nat)
  /-- `base` is the part before `_PIN_`. -/
  | indexed (base : Text) (index : Nat)
  | named (name : Text)
  deriving DecidableEq, Repr

/-- The ending of the names of pin constants. -/
def pinSuffix : Text := "_PIN".toList

/-- The parts before and after the last underscore. -/
def splitLastUnderscore? (name : Text) : Option (Text × Text) :=
  let (last, rest) := name.reverse.span (· != '_')
  match rest with
  | [] => none
  | _ :: head => some (head.reverse, last.reverse)

/-- The base and the index of a numbered name: a base that is not empty, `_PIN_` and a number. -/
def splitIndexed? (name : Text) : Option (Text × Nat) := do
  let (head, last) ← splitLastUnderscore? name
  let index ← Text.pinNumber? last
  let base ← pinSuffix.isSuffixOf? head
  if base.isEmpty then none else some (base, index)

def PinRef.ofText? (text : Text) : Option PinRef :=
  match Text.pinNumber? text with
  | some pin => some (.number pin)
  | none =>
    if isIdentifier text then
      match splitIndexed? text with
      | some (base, index) => some (.indexed base index)
      | none => some (.named text)
    else none

/-- Names of pins are ASCII, so lower case is taken letter by letter. -/
def lowercase (name : Text) : Text :=
  name.map Char.toLower

/-- The script's name of the pin object for digital use. -/
def PinRef.identifier : PinRef → Text
  | number pin => "pin".toList ++ Text.ofNat pin
  | indexed base index => lowercase base ++ Text.ofNat index
  | named name => lowercase ((pinSuffix.isSuffixOf? name).getD name)

/-- Whether a constant's name says that it holds a pin. -/
def isPinConstant (name : Text) : Bool :=
  pinSuffix.isSuffixOf name || (splitIndexed? name).isSome

/-- The script's name for a constant named after a pin. A text that is no reference is only put in
lower case. -/
def pinIdentifier (name : Text) : Text :=
  match PinRef.ofText? name with
  | some ref => ref.identifier
  | none => Text.lower name

end Breadboard.Script
