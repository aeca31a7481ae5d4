import Breadboard.Binary64.Decimal
import Breadboard.Sketch.Bracket
import Breadboard.Sketch.Lexer

set_option autoImplicit false

namespace Breadboard.Script

open Sketch (Token dropTrivia)

/-- The text without its trailing characters that satisfy `p`. -/
def dropTrailing (p : Char → Bool) (text : Text) : Text :=
  (text.reverse.dropWhile p).reverse

/-- The marks of unsigned and long integers. -/
def isIntegerSuffix (c : Char) : Bool :=
  c == 'u' || c == 'U' || c == 'l' || c == 'L'

def isNumberSuffix (c : Char) : Bool :=
  isIntegerSuffix c || c == 'f' || c == 'F'

/-- The value of a numeric literal without its suffix. A hexadecimal literal holds a signed 64-bit
number. -/
def numericLiteral? (text : Text) : Option Binary64 :=
  match text with
  | '0' :: 'x' :: digits | '0' :: 'X' :: digits =>
    ((Text.hexNumeral? (dropTrailing isIntegerSuffix digits)).filter (· < Text.signedBound)).map
      Binary64.ofNat
  | _ => Binary64.ofText? (dropTrailing isNumberSuffix text)

structure Constant where
  name : Text
  value : Binary64
  deriving DecidableEq, Repr

/-- The number at the start of the tokens, if they start with one that has a value. -/
def leadingNumber? (tokens : List Token) : Option Binary64 :=
  match tokens with
  | [] => none
  | token :: _ => if token.kind = .number then numericLiteral? token.text else none

/-- The number at the start of the tokens after trivia, with a minus sign or none. -/
def signedNumber? (tokens : List Token) : Option Binary64 :=
  match dropTrivia tokens with
  | [] => none
  | token :: rest =>
    if token.isPunct "-" then (leadingNumber? (dropTrivia rest)).map Binary64.neg
    else leadingNumber? (token :: rest)

/-- The constant that the tokens after a `#` define. -/
def macroConstant? (tokens : List Token) : Option Constant :=
  match dropTrivia tokens with
  | [] => none
  | keyword :: rest =>
    if keyword.isIdent "define" then
      match dropTrivia rest with
      | [] => none
      | name :: value =>
        if name.kind = .ident then (signedNumber? value).map (Constant.mk name.text) else none
    else none

/-- The words of numeric types. -/
def numericTypes : List Text :=
  ["int", "float", "double", "long", "short", "byte", "unsigned", "signed", "uint8_t",
    "uint16_t", "uint32_t", "int8_t", "int16_t", "int32_t"].map String.toList

def isNumericType (token : Token) : Bool :=
  token.kind == .ident && numericTypes.contains token.text

/-- The tokens after leading trivia and numeric type words. -/
def dropNumericTypes (tokens : List Token) : List Token :=
  tokens.dropWhile fun token => token.isTrivia || isNumericType token

/-- The constant that the tokens after a `const` declare: at least one numeric type word, a name,
`=` and a number. -/
def declaredConstant? (tokens : List Token) : Option Constant :=
  if (dropTrivia tokens).head?.any isNumericType then
    match dropNumericTypes tokens with
    | [] => none
    | name :: rest =>
      if name.kind = .ident then
        match dropTrivia rest with
        | [] => none
        | equals :: value =>
          if equals.isPunct "=" then (signedNumber? value).map (Constant.mk name.text) else none
      else none
  else none

/-- The definitions of constants in source order. -/
def definitions : List Token → List Constant
  | [] => []
  | token :: rest =>
    let found :=
      if token.isPunct "#" then macroConstant? rest
      else if token.isIdent "const" then declaredConstant? rest
      else none
    found.toList ++ definitions rest

/-- The table after one more definition. A name keeps its place and takes the new value. -/
def define (table : List Constant) (constant : Constant) : List Constant :=
  if table.any (·.name == constant.name) then
    table.map fun entry => if entry.name = constant.name then constant else entry
  else table ++ [constant]

/-- The constants in the order of their first definitions, each with its last value. -/
def constantTable (tokens : List Token) : List Constant :=
  (definitions tokens).foldl define []

end Breadboard.Script
