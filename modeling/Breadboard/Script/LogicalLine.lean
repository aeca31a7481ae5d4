import Breadboard.Sketch.Lexer

set_option autoImplicit false

namespace Breadboard.Script

open Sketch (Token dropTrivia tokenize)

/-- The line made of the collected text, none if it is blank. -/
def finishLine (collected : Text) : List Text :=
  let line := Text.trim collected
  if line.isEmpty then [] else [line]

/-- The logical lines from here on. `depth` counts open parentheses, in which semicolons and opening
braces end no line; `collected` is the text of the current line. -/
def linesFrom (depth : Nat) (collected : Text) : List Token → List Text
  | [] => finishLine collected
  | token :: rest =>
    if token.kind == .space && token.text.contains '\n' then
      finishLine collected ++ linesFrom depth [] rest
    else if token.isPunct "(" then linesFrom (depth + 1) (collected ++ token.text) rest
    else if token.isPunct ")" then linesFrom (depth - 1) (collected ++ token.text) rest
    else if (token.isPunct "\x7b" || token.isPunct ";") && depth == 0 then
      finishLine (collected ++ token.text) ++ linesFrom depth [] rest
    else if token.isPunct "\x7d" then
      finishLine collected ++
        if (dropTrivia rest).head?.any (·.isIdent "else") then linesFrom depth token.text rest
        else finishLine token.text ++ linesFrom depth [] rest
    else linesFrom depth (collected ++ token.text) rest

/-- The logical lines of a block's text. A closing brace stays on one line with an `else` that
follows it. -/
def logicalLines (body : Text) : List Text :=
  linesFrom 0 [] (tokenize body)

/-- The numbers of closing and of opening braces of a line. -/
def braceCounts (line : Text) : Nat × Nat :=
  let tokens := tokenize line
  (tokens.countP (·.isPunct "\x7d"), tokens.countP (·.isPunct "\x7b"))

end Breadboard.Script
