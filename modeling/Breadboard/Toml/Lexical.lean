import Breadboard.Binary64.Decimal
import Breadboard.Toml.Value

set_option autoImplicit false

namespace Breadboard.Toml

/-- A reader takes what it reads from the start of the text, or fails. -/
abbrev Reader := StateT Text Option

namespace Reader

def peek : Reader (Option Char) := do
  return (← get).head?

def next : Reader Char := do
  match ← get with
  | [] => failure
  | c :: rest => set rest; return c

/-- Takes the word if the text starts with it, and tells whether it does. -/
def skip? (word : String) : Reader Bool := do
  match word.toList.isPrefixOf? (← get) with
  | some rest => set rest; return true
  | none => return false

def expect (word : String) : Reader Unit := do
  if ← skip? word then return () else failure

def takeWhile (p : Char → Bool) : Reader Text := do
  let (taken, rest) := (← get).span p
  set rest
  return taken

/-- What the reader reads, or nothing where it fails. -/
def optional {α : Type} (reader : Reader α) : Reader (Option α) := fun text =>
  match reader text with
  | some (value, rest) => some (some value, rest)
  | none => some (none, text)

/-- The first of two readers that does not fail. -/
def either {α : Type} (first second : Reader α) : Reader α := fun text =>
  (first text).or (second text)

end Reader

open Reader

def isTomlBlank (c : Char) : Bool :=
  c == ' ' || c == '\t'

def skipBlanks : Reader Unit := do
  let _ ← takeWhile isTomlBlank

/-- Control characters other than the tab stand in no comment and no string. -/
def isPlainChar (c : Char) : Bool :=
  c == '\t' || (0x20 ≤ c.toNat && c.toNat != 0x7F)

/-- Takes a line break, if the text starts with one. -/
def newline? : Reader Bool := do
  if ← skip? "\n" then return true else skip? "\r\n"

/-- Takes a line break or the end of the text. -/
def endOfLine : Reader Unit := do
  if (← get).isEmpty then return ()
  else if ← newline? then return ()
  else failure

/-- Takes a comment up to its line break, if the text starts with one. -/
def comment? : Reader Bool := do
  if ← skip? "#" then
    let _ ← takeWhile isPlainChar
    return true
  else return false

/-- Takes what may stand behind an expression: blanks, a comment and the line break. -/
def restOfLine : Reader Unit := do
  skipBlanks
  let _ ← comment?
  endOfLine

/-- Takes blanks, line breaks and comments. -/
def skipLines : Nat → Reader Unit
  | 0 => return ()
  | room + 1 => do
    skipBlanks
    if ← comment? then
      if ← newline? then skipLines room else failure
    else if ← newline? then skipLines room
    else return ()

/-- The character with the code that `count` hexadecimal digits write. -/
def escapedCode (count : Nat) : Reader Char := do
  let text ← get
  let digits := text.take count
  match Text.hexNumeral? digits with
  | some code =>
    if digits.length = count ∧ code.isValidChar then
      set (text.drop count)
      return Char.ofNat code
    else failure
  | none => failure

/-- The character that an escape stands for, behind its backslash. -/
def escape : Reader Char := do
  match ← next with
  | 'b' => return '\x08'
  | 't' => return '\t'
  | 'n' => return '\n'
  | 'f' => return '\x0C'
  | 'r' => return '\r'
  | '\x22' => return '\x22'
  | '\\' => return '\\'
  | 'u' => escapedCode 4
  | 'U' => escapedCode 8
  | _ => failure

/-- The rest of a string in double quotes on one line. -/
def basicString : Nat → Reader Text
  | 0 => failure
  | room + 1 => do
    match ← next with
    | '\x22' => return []
    | '\\' =>
      let c ← escape
      return c :: (← basicString room)
    | c => if isPlainChar c then return c :: (← basicString room) else failure

/-- The rest of a string in single quotes on one line. -/
def literalString : Nat → Reader Text
  | 0 => failure
  | room + 1 => do
    match ← next with
    | '\'' => return []
    | c => if isPlainChar c then return c :: (← literalString room) else failure

/-- Behind three closing quotes: up to two more belong to the string. -/
def extraQuotes (quote : Char) : Reader Text := do
  let text ← get
  let count := min 2 (text.takeWhile (· == quote)).length
  set (text.drop count)
  return List.replicate count quote

/-- Takes a backslash that ends its line, and the line break. -/
def lineContinuation : Reader Unit := do
  expect "\\"
  skipBlanks
  if ← newline? then return () else failure

/-- Takes blanks and line breaks. -/
def skipBreaks : Nat → Reader Unit
  | 0 => return ()
  | room + 1 => do
    skipBlanks
    if ← newline? then skipBreaks room else return ()

/-- The rest of a string in three double quotes. -/
def longBasicString : Nat → Reader Text
  | 0 => failure
  | room + 1 => do
    if ← skip? "\"\"\"" then extraQuotes '\x22'
    else if ← newline? then return '\n' :: (← longBasicString room)
    else if (← Reader.optional lineContinuation).isSome then
      skipBreaks room
      longBasicString room
    else
      match ← next with
      | '\\' =>
        let c ← escape
        return c :: (← longBasicString room)
      | c => if isPlainChar c then return c :: (← longBasicString room) else failure

/-- The rest of a string in three single quotes. -/
def longLiteralString : Nat → Reader Text
  | 0 => failure
  | room + 1 => do
    if ← skip? "'''" then extraQuotes '\''
    else if ← newline? then return '\n' :: (← longLiteralString room)
    else
      let c ← next
      if isPlainChar c then return c :: (← longLiteralString room) else failure

/-- The number of steps that reading the text can take. -/
def room : Reader Nat := do
  return (← get).length + 1

/-- A string of any of the four forms. A line break behind three opening quotes does not count. -/
def string : Reader Text := do
  if ← skip? "\"\"\"" then
    let _ ← newline?
    longBasicString (← room)
  else if ← skip? "'''" then
    let _ ← newline?
    longLiteralString (← room)
  else if ← skip? "\"" then basicString (← room)
  else if ← skip? "'" then literalString (← room)
  else failure

def isBareKeyChar (c : Char) : Bool :=
  c.isAlphanum || c == '-' || c == '_'

/-- One part of a key: bare, or a string on one line. -/
def simpleKey : Reader Text := do
  if ← skip? "\"" then basicString (← room)
  else if ← skip? "'" then literalString (← room)
  else
    let key ← takeWhile isBareKeyChar
    if key.isEmpty then failure else return key

/-- The parts of a key between dots. -/
def keyParts : Nat → Reader (List Text)
  | 0 => failure
  | room + 1 => do
    skipBlanks
    let part ← simpleKey
    skipBlanks
    if ← skip? "." then return part :: (← keyParts room) else return [part]

/-- The largest number of parts in a key and of values around a value. -/
def depthLimit : Nat := 79

/-- A key as the path before its last part and that part. -/
def key : Reader (List Text × Text) := do
  let parts ← keyParts (← room)
  match parts.getLast? with
  | some last => if parts.length ≤ depthLimit then return (parts.dropLast, last) else failure
  | none => failure

/-- Digits of a base with single underscores between them, given without the underscores. -/
def digitRun (isDigit : Char → Bool) : Nat → Reader Text
  | 0 => failure
  | room + 1 => do
    let digits ← takeWhile isDigit
    if digits.isEmpty then failure
    else if ← skip? "_" then return digits ++ (← digitRun isDigit room)
    else return digits

/-- Whether a sign stands before a number and is a minus. -/
def sign : Reader Bool := do
  if ← skip? "-" then return true
  else
    let _ ← skip? "+"
    return false

/-- The digits of a decimal integer, which do not start with a zero unless it stands alone. -/
def decimalDigits : Reader Text := do
  if ← skip? "0" then return ['0'] else digitRun Char.isDigit (← room)

/-- An integer in the range of 64 bits with a sign. -/
def inRange (negative : Bool) (magnitude : Nat) : Reader Int :=
  if negative then if magnitude ≤ Text.signedBound then return -(magnitude : Int) else failure
  else if magnitude < Text.signedBound then return (magnitude : Int)
  else failure

/-- The number that digits of a base write. -/
def baseValue (base : Nat) (digits : Text) : Nat :=
  digits.foldl (fun n c => base * n + (Text.hexDigit? c).getD 0) 0

/-- The digits behind the mark of a base, read as an integer. -/
def basedInteger (base : Nat) : Reader Int := do
  let isDigit (c : Char) : Bool := (Text.hexDigit? c).any (· < base)
  inRange false (baseValue base (← digitRun isDigit (← room)))

def integer : Reader Int := do
  if ← skip? "0x" then basedInteger 16
  else if ← skip? "0o" then basedInteger 8
  else if ← skip? "0b" then basedInteger 2
  else
    let negative ← sign
    inRange negative (Text.digitValue 0 (← decimalDigits))

/-- The part of a float behind its point, with the point. -/
def fraction : Reader Text := do
  expect "."
  return '.' :: (← digitRun Char.isDigit (← room))

/-- The exponent of a float with its mark and sign. -/
def exponent : Reader Text := do
  let c ← next
  if c == 'e' || c == 'E' then
    let negative ← sign
    let digits ← digitRun Char.isDigit (← room)
    return 'e' :: (if negative then '-' :: digits else digits)
  else failure

/-- A float with a fraction or an exponent. One that is too large is refused, one that is too small
is not. -/
def numericFloat : Reader Text := do
  let negative ← sign
  let whole ← decimalDigits
  let part ← Reader.optional fraction
  let power ← Reader.optional exponent
  if part.isNone && power.isNone then failure
  else
    let literal := whole ++ part.getD [] ++ power.getD []
    if !negative && Binary64.ofText? literal == some (.infinite false) then failure
    else return (if negative then '-' :: literal else literal)

/-- Infinity or no number at all. -/
def specialFloat : Reader Text := do
  let negative ← sign
  let word ← if ← skip? "inf" then pure "inf" else do expect "nan"; pure "nan"
  return (if negative then ['-'] else []) ++ word.toList

def float : Reader Text :=
  Reader.either numericFloat specialFloat

/-- The number that exactly `count` digits write. -/
def fixedDigits (count : Nat) : Reader Nat := do
  let text ← get
  let digits := text.take count
  if digits.length = count ∧ digits.all Char.isDigit then
    set (text.drop count)
    return Text.digitValue 0 digits
  else failure

/-- A number of two digits in a range. -/
def twoDigits (least greatest : Nat) : Reader Unit := do
  let n ← fixedDigits 2
  if least ≤ n ∧ n ≤ greatest then return () else failure

def isLeapYear (year : Nat) : Bool :=
  year % 4 == 0 && (year % 100 != 0 || year % 400 == 0)

def daysInMonth (year month : Nat) : Nat :=
  if month = 2 then if isLeapYear year then 29 else 28
  else if month = 4 ∨ month = 6 ∨ month = 9 ∨ month = 11 then 30
  else 31

def date : Reader Unit := do
  let year ← fixedDigits 4
  expect "-"
  let month ← fixedDigits 2
  expect "-"
  let day ← fixedDigits 2
  if 1 ≤ month ∧ month ≤ 12 ∧ 1 ≤ day ∧ day ≤ daysInMonth year month then return () else failure

/-- The part of a second behind its point. -/
def secondFraction : Reader Unit := do
  expect "."
  let digits ← takeWhile Char.isDigit
  if digits.isEmpty then failure else return ()

def time : Reader Unit := do
  twoDigits 0 23
  expect ":"
  twoDigits 0 59
  expect ":"
  twoDigits 0 60
  let _ ← Reader.optional secondFraction

/-- The distance from universal time. -/
def zone : Reader Unit := do
  match ← next with
  | 'Z' | 'z' => return ()
  | '+' | '-' =>
    twoDigits 0 23
    expect ":"
    twoDigits 0 59
  | _ => failure

/-- The time behind a date. -/
def timeOfDate : Reader Unit := do
  match ← next with
  | 'T' | 't' | ' ' =>
    time
    let _ ← Reader.optional zone
  | _ => failure

def dateOrTime : Reader Unit :=
  Reader.either (do date; let _ ← Reader.optional timeOfDate) time

end Breadboard.Toml
