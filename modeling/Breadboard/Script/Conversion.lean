import Breadboard.Script.Block

set_option autoImplicit false

namespace Breadboard.Script

open Sketch (Token dropTrivia render tokenize)

/-- A script imports the module `machine`. -/
def isScript (source : Text) : Bool :=
  Text.occursIn "from machine import".toList source || Text.occursIn "import machine".toList source

/-- The body of the definition `void name(…) { … }` whose name has just been read. -/
def bodyAfterName? (tokens : List Token) : Option (List Token) := do
  let (_, rest) ← Sketch.parenthesized? tokens
  let (body, _) ← Sketch.braced? rest
  return body

/-- The body of the first definition of the function. `afterVoid` tells whether the last significant
token is `void`. -/
def bodyWithin? (name : String) (afterVoid : Bool) : List Token → Option (List Token)
  | [] => none
  | token :: rest =>
    let here := if token.isIdent name && afterVoid then bodyAfterName? rest else none
    match here with
    | some body => some body
    | none =>
      bodyWithin? name (if token.isTrivia then afterVoid else token.isIdent "void") rest

/-- The text of the body of `void name() { … }`. -/
def functionBody? (name : String) (tokens : List Token) : Option Text :=
  (bodyWithin? name false tokens).map render

/-- A converted sketch. `body` is none if the sketch has no `loop`. -/
structure Conversion where
  usesAnalog : Bool
  context : Context
  body : Option (List ScriptLine)

/-- The conversion of a sketch. -/
def convert? (source : Text) : Option Conversion :=
  if isScript source then none
  else
    let cleaned := Sketch.stripComments source
    let tokens := tokenize cleaned
    let loopBody := functionBody? "loop" tokens
    if (functionBody? "setup" tokens).isNone && loopBody.isNone then none
    else
      let context := Context.harvest cleaned
      some
        { usesAnalog := tokens.any (·.isIdent "analogRead")
          context
          body := loopBody.map (convertBlock context) }

namespace Conversion

def imports (conversion : Conversion) : Text :=
  if conversion.usesAnalog then "from machine import Pin, ADC\nimport time\n\n".toList
  else "from machine import Pin\nimport time\n\n".toList

/-- The assignments of constants. The blank line after them comes with any constant, also one that
is not assigned. -/
def assignments (conversion : Conversion) : Text :=
  conversion.context.scriptConstants.flatMap
      (fun constant => constant.name ++ " = ".toList ++ constant.value.toText ++ ['\n']) ++
    if conversion.context.constants.isEmpty then [] else ['\n']

def constructions (conversion : Conversion) : Text :=
  conversion.context.bindings.flatMap Binding.render ++
    if conversion.context.bindings.isEmpty then [] else ['\n']

/-- The script's text before its loop. -/
def preamble (conversion : Conversion) : Text :=
  conversion.imports ++ conversion.assignments ++ conversion.constructions

def render (conversion : Conversion) : Text :=
  conversion.preamble ++
    match conversion.body with
    | none => []
    | some lines => "while True:\n".toList ++ lines.flatMap ScriptLine.render

end Conversion

/-- The script for a sketch. A text without a conversion is its own script. -/
def ofSketch (source : Text) : Text :=
  match convert? source with
  | none => source
  | some conversion => conversion.render

/-- What becomes of a text: its script, whether that is a converted one, and what the text
declares. -/
structure Outcome where
  script : Text
  isConverted : Bool
  context : Context

/-- Nothing is harvested from a text without a conversion. -/
def outcome (source : Text) : Outcome :=
  match convert? source with
  | none => ⟨source, false, .empty⟩
  | some conversion => ⟨conversion.render, true, conversion.context⟩

end Breadboard.Script
