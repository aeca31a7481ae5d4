import Breadboard.Binary64.Decimal
import Breadboard.Text.Lines

set_option autoImplicit false

namespace Breadboard.Script

/-- The text before the loop and the loop's indented lines. -/
structure Split where
  setup : Text
  body : Text
  deriving DecidableEq, Repr

def isLoopHeader (line : Text) : Bool :=
  Text.trimEnd line == "while True:".toList

/-- Whether a line can stand inside the loop: it is blank or starts with a blank character. -/
def isInsideLoop (line : Text) : Bool :=
  Text.allBlank line || line.head?.any Text.isBlank

/-- The lines before the first loop header and those after it. -/
def splitAtHeader? : List Text → Option (List Text × List Text)
  | [] => none
  | line :: rest =>
    if isLoopHeader line then some ([], rest)
    else (splitAtHeader? rest).map fun (before, after) => (line :: before, after)

/-- Splits a script at its first loop header in column 0. -/
def split? (script : Text) : Option Split :=
  (splitAtHeader? (Text.brokenLines script)).map fun (before, after) =>
    { setup := before.flatten
      body := Text.unlines ((after.map Text.withoutBreak).takeWhile isInsideLoop) }

/-- The bytes of the blank characters at the start of a line. -/
def indentation (line : Text) : Nat :=
  Text.byteLength line - Text.byteLength (Text.trimStart line)

/-- The least indentation of the lines that are not blank. -/
def baseIndentation (lines : List Text) : Nat :=
  (((lines.filter (!Text.allBlank ·)).map indentation).min?).getD 0

/-- Whether a trimmed line goes on with the conditional before it. -/
def isContinuation (line : Text) : Bool :=
  "elif ".toList.isPrefixOf line || "elif:".toList.isPrefixOf line || "else:".toList.isPrefixOf line

/-- A line without its first `base` bytes. Where no character starts after them, the trimmed
line. -/
def dedent (base : Nat) (line : Text) : Text :=
  (Text.dropBytes? line base).getD (Text.trim line)

/-- The statement made of the collected text, none if it is blank. -/
def finishStatement (collected : Text) : List Text :=
  if Text.allBlank collected then [] else [collected]

/-- The statements from here on. A line at the base indentation starts a statement unless it is a
continuation. -/
def statementsFrom (base : Nat) (collected : Text) : List Text → List Text
  | [] => finishStatement collected
  | line :: rest =>
    let trimmed := Text.trim line
    if trimmed.isEmpty then statementsFrom base collected rest
    else
      let topLevel := indentation line == base
      if topLevel && !isContinuation trimmed then
        finishStatement collected ++ statementsFrom base (dedent base line) rest
      else if topLevel || !collected.isEmpty then
        statementsFrom base (collected ++ '\n' :: dedent base line) rest
      else statementsFrom base collected rest

/-- The top-level statements of a loop's body. -/
def statements (body : Text) : List Text :=
  let lines := Text.lines body
  statementsFrom (baseIndentation lines) [] lines

/-- The text between the parentheses of `callee(…)`. -/
def callArgument? (callee : String) (statement : Text) : Option Text := do
  let rest ← callee.toList.isPrefixOf? statement
  let rest ← ['('].isPrefixOf? rest
  [')'].isSuffixOf? rest

/-- The first number of milliseconds that a wait cannot have, 2^64. -/
def waitBound : Nat := 0x10000000000000000

/-- Whole milliseconds in a number of seconds: the product is rounded as a binary64 number, then
cut to an integer and to the largest wait. -/
def wholeMilliseconds : Binary64 → Nat
  | .finite _ units =>
    match Binary64.ofRatio false (units * 1000) Binary64.unitsPerOne with
    | .finite _ product => min (product / Binary64.unitsPerOne) (waitBound - 1)
    | _ => waitBound - 1
  | .infinite _ => waitBound - 1
  | .nan => 0

/-- The milliseconds of a statement that only waits: `time.sleep_ms(N)` or `time.sleep(S)`. -/
def sleepDuration? (statement : Text) : Option Nat :=
  let statement := Text.trim statement
  match callArgument? "time.sleep_ms" statement with
  | some count => Text.numeralBelow? waitBound count
  | none => do
    let seconds ← callArgument? "time.sleep" statement
    if seconds.all fun c => c.isDigit || c == '.' then
      return wholeMilliseconds (← Binary64.ofText? seconds)
    else none

end Breadboard.Script
