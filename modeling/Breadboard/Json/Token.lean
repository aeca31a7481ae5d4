import Breadboard.Json.Value
import Breadboard.Text.Numeral

set_option autoImplicit false

namespace Breadboard.Json

inductive Token where
  | arrayOpen
  | arrayClose
  | objectOpen
  | objectClose
  | comma
  | colon
  | string (content : Option Text)
  /-- A scalar that is no string. -/
  | scalar (value : Json)

def isJsonBlank (c : Char) : Bool :=
  c == ' ' || c == '\t' || c == '\n' || c == '\r'

/-- The character of a two-character escape. -/
def simpleEscape? (c : Char) : Option Char :=
  match c with
  | '\x22' => some '\x22'
  | '\\' => some '\\'
  | '/' => some '/'
  | 'b' => some '\x08'
  | 'f' => some '\x0C'
  | 'n' => some '\n'
  | 'r' => some '\r'
  | 't' => some '\t'
  | _ => none

/-- The code unit that four hexadecimal digits write. -/
def codeUnit? (digits : Text) : Option Nat :=
  if digits.length = 4 then Text.hexNumeral? digits else none

def isHighSurrogate (unit : Nat) : Bool :=
  0xD800 ≤ unit && unit < 0xDC00

def isLowSurrogate (unit : Nat) : Bool :=
  0xDC00 ≤ unit && unit < 0xE000

/-- The character behind a surrogate pair. -/
def pairChar (high low : Nat) : Char :=
  Char.ofNat (0x10000 + (high - 0xD800) * 0x400 + (low - 0xDC00))

/-- The code unit that the text starts with as an escape, and the text after it. -/
def unitEscape? (text : Text) : Option (Nat × Text) :=
  match text with
  | '\\' :: 'u' :: rest => (codeUnit? (rest.take 4)).map fun unit => (unit, rest.drop 4)
  | _ => none

/-- One character of a string and the text after it. Half of a surrogate pair is no character. -/
def stringChar? (text : Text) : Option (Option Char × Text) :=
  match unitEscape? text with
  | some (unit, rest) =>
    if isHighSurrogate unit then
      match unitEscape? rest with
      | some (low, more) =>
        if isLowSurrogate low then some (some (pairChar unit low), more) else some (none, rest)
      | none => some (none, rest)
    else if isLowSurrogate unit then some (none, rest)
    else some (some (Char.ofNat unit), rest)
  | none =>
    match text with
    | [] => none
    | '\\' :: [] => none
    | '\\' :: c :: rest => (simpleEscape? c).map fun char => (some char, rest)
    | c :: rest => if c.toNat < 0x20 then none else some (some c, rest)

/-- The content of a string whose opening quote has been read, and the text after its closing
quote. `room` bounds the number of characters. -/
def stringBody? : Nat → Text → Option (Option Text × Text)
  | 0, _ => none
  | room + 1, text =>
    match text with
    | '\x22' :: rest => some (some [], rest)
    | _ => do
      let (char, rest) ← stringChar? text
      let (content, after) ← stringBody? room rest
      return (do return (← char) :: (← content), after)

/-- The digits at the start of the text, at least one, and the text after them. -/
def digits? (text : Text) : Option (Text × Text) :=
  let (digits, rest) := text.span Char.isDigit
  if digits.isEmpty then none else some (digits, rest)

/-- The whole part of a number: a zero stands alone. -/
def wholePart? (text : Text) : Option (Text × Text) :=
  match text with
  | '0' :: rest => some (['0'], rest)
  | _ => digits? text

def fractionPart? (text : Text) : Option (Text × Text) :=
  match text with
  | '.' :: rest => (digits? rest).map fun (digits, after) => ('.' :: digits, after)
  | _ => some ([], text)

def exponentDigits? (text : Text) : Option (Text × Text) :=
  match text with
  | '+' :: rest => (digits? rest).map fun (digits, after) => ('+' :: digits, after)
  | '-' :: rest => (digits? rest).map fun (digits, after) => ('-' :: digits, after)
  | _ => digits? text

def exponentPart? (text : Text) : Option (Text × Text) :=
  match text with
  | c :: rest =>
    if c == 'e' || c == 'E' then
      (exponentDigits? rest).map fun (digits, after) => (c :: digits, after)
    else some ([], text)
  | [] => some ([], [])

/-- The number at the start of the text, and the text after it. -/
def number? (text : Text) : Option (Text × Text) := do
  let (sign, text) : Text × Text :=
    match text with
    | '-' :: rest => (['-'], rest)
    | _ => ([], text)
  let (whole, text) ← wholePart? text
  let (fraction, text) ← fractionPart? text
  let (exponent, text) ← exponentPart? text
  return (sign ++ whole ++ fraction ++ exponent, text)

/-- The constants `null`, `true` and `false`. -/
def word? (text : Text) : Option (Json × Text) :=
  (("null".toList.isPrefixOf? text).map fun rest => (null, rest)) <|>
    (("true".toList.isPrefixOf? text).map fun rest => (bool true, rest)) <|>
    (("false".toList.isPrefixOf? text).map fun rest => (bool false, rest))

/-- The token that starts with `c`, and the text after it. -/
def token? (c : Char) (rest : Text) : Option (Token × Text) :=
  match c with
  | '[' => some (.arrayOpen, rest)
  | ']' => some (.arrayClose, rest)
  | '\x7b' => some (.objectOpen, rest)
  | '\x7d' => some (.objectClose, rest)
  | ',' => some (.comma, rest)
  | ':' => some (.colon, rest)
  | '\x22' => (stringBody? (rest.length + 1) rest).map fun (content, after) => (.string content, after)
  | _ =>
    ((number? (c :: rest)).map fun (literal, after) => (.scalar (number literal), after)) <|>
      ((word? (c :: rest)).map fun (value, after) => (.scalar value, after))

/-- The tokens of a text, none if it has other characters. `room` bounds their number. -/
def tokensWithin? : Nat → Text → Option (List Token)
  | _, [] => some []
  | 0, _ :: _ => none
  | room + 1, c :: rest =>
    if isJsonBlank c then tokensWithin? room rest
    else do
      let (token, after) ← token? c rest
      return token :: (← tokensWithin? room after)

/-- The tokens of a text. Each takes at least one character. -/
def tokens? (text : Text) : Option (List Token) :=
  tokensWithin? text.length text

end Breadboard.Json
