import Breadboard.Script.Line
import Breadboard.Script.LogicalLine

set_option autoImplicit false

namespace Breadboard.Script

/-- A line of the script's loop. `depth` counts the blocks around it inside the loop. -/
structure ScriptLine where
  depth : Nat
  text : Text
  deriving DecidableEq, Repr

/-- Four blanks for the loop and for each block in it. -/
def ScriptLine.render (line : ScriptLine) : Text :=
  List.replicate (4 * (line.depth + 1)) ' ' ++ line.text ++ ['\n']

def passText : Text := "pass".toList

/-- The open blocks, the innermost first: for each, whether a line stands in it yet. -/
abbrev OpenBlocks := List Bool

/-- Closes up to `count` blocks. A block that holds no line gets a `pass`. -/
def closeBlocks : Nat → OpenBlocks → List ScriptLine × OpenBlocks
  | 0, blocks => ([], blocks)
  | _ + 1, [] => ([], [])
  | count + 1, filled :: outer =>
    let (lines, rest) := closeBlocks count outer
    (if filled then lines else ⟨outer.length + 1, passText⟩ :: lines, rest)

/-- The innermost block now holds a line. -/
def fillInnermost : OpenBlocks → OpenBlocks
  | [] => []
  | _ :: outer => true :: outer

/-- Converts one logical line: its closing braces count before it is put out, its opening braces
after. -/
def convertLogicalLine (context : Context) (blocks : OpenBlocks) (line : Text) :
    List ScriptLine × OpenBlocks :=
  let (closes, opens) := braceCounts line
  let (passes, inner) := closeBlocks closes blocks
  let converted := convertLine context line
  if converted.isEmpty then (passes, List.replicate opens false ++ inner)
  else
    (passes ++ [⟨inner.length, converted⟩], List.replicate opens false ++ fillInnermost inner)

/-- Converts logical lines inside the open blocks, and closes those left open at the end. -/
def convertLines (context : Context) (blocks : OpenBlocks) : List Text → List ScriptLine
  | [] => (closeBlocks blocks.length blocks).1
  | line :: rest =>
    let (out, next) := convertLogicalLine context blocks line
    out ++ convertLines context next rest

/-- The script's loop for the text of a block. A loop of no lines gets a `pass`. -/
def convertBlock (context : Context) (body : Text) : List ScriptLine :=
  let lines := convertLines context [] (logicalLines body)
  if lines.isEmpty then [⟨0, passText⟩] else lines

end Breadboard.Script
