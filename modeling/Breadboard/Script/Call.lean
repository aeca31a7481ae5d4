import Breadboard.Sketch.Bracket
import Breadboard.Sketch.Lexer

set_option autoImplicit false

namespace Breadboard.Script

open Sketch (Token dropTrivia render tokenize)

/-- A call: its trimmed arguments and the trimmed text between its parentheses. -/
structure Call where
  args : List Text
  inner : Text
  deriving DecidableEq, Repr

def Call.ofTokens (inner : List Token) : Call :=
  ⟨Sketch.arguments inner, Text.trim (render inner)⟩

/-- The tokens after a path whose parts stand next to each other up to trivia. -/
def afterPath? : List String → List Token → Option (List Token)
  | [], tokens => some tokens
  | part :: parts, tokens =>
    match dropTrivia tokens with
    | [] => none
    | token :: rest => if token.text = part.toList then afterPath? parts rest else none

/-- The call that starts with `token`, and the tokens after its closing parenthesis. -/
def callAt? (head : String) (tail : List String) (token : Token) (rest : List Token) :
    Option (Call × List Token) := do
  if token.isIdent head then
    let rest ← afterPath? tail rest
    let (inner, after) ← Sketch.parenthesized? rest
    return (Call.ofTokens inner, after)
  else none

/-- A dot makes the name after it a method. -/
def isDotNext (afterDot : Bool) (token : Token) : Bool :=
  if token.isTrivia then afterDot else token.isPunct "."

/-- Replaces calls from left to right, at most `budget` of them. The text put in place of a call is
cut into tokens again and searched from its second token on. -/
def replaceWithin (head : String) (tail : List String) (replacement : Call → Option Text)
    (budget : Nat) (afterDot : Bool) (tokens : List Token) : List Token :=
  match tokens with
  | [] => []
  | token :: rest =>
    let found :=
      if afterDot then none
      else (callAt? head tail token rest).bind fun (call, after) =>
        (replacement call).map fun text => tokenize text ++ after
    match budget, found with
    | budget + 1, some (first :: more) =>
      first :: replaceWithin head tail replacement budget (isDotNext afterDot first) more
    | budget, _ => token :: replaceWithin head tail replacement budget (isDotNext afterDot token) rest
termination_by (budget, tokens.length)

/-- Replaces each call of the function `head`, or of the method that the path names, for which
`replacement` gives a text. A replaced call gives up at least the name it was called by, so a line
has no more of them than characters. -/
def replaceCalls (head : String) (tail : List String) (replacement : Call → Option Text)
    (tokens : List Token) : List Token :=
  replaceWithin head tail replacement (render tokens).length false tokens

end Breadboard.Script
