import Breadboard.Sketch.Token

set_option autoImplicit false

namespace Breadboard.Sketch

/-- Cuts a list at the bracket that closes an open group: the tokens inside and those after it.
`depth` counts the groups of the same kind of bracket that are open inside it. -/
def splitGroup (opening closing : String) : Nat → List Token → Option (List Token × List Token)
  | _, [] => none
  | depth, token :: rest =>
    if token.isPunct opening then
      (splitGroup opening closing (depth + 1) rest).map fun (inner, after) => (token :: inner, after)
    else if token.isPunct closing then
      match depth with
      | 0 => some ([], rest)
      | depth + 1 =>
        (splitGroup opening closing depth rest).map fun (inner, after) => (token :: inner, after)
    else
      (splitGroup opening closing depth rest).map fun (inner, after) => (token :: inner, after)

/-- The group in parentheses that the next significant token opens, and the tokens after it. -/
def parenthesized? (tokens : List Token) : Option (List Token × List Token) :=
  match dropTrivia tokens with
  | [] => none
  | token :: rest => if token.isPunct "(" then splitGroup "(" ")" 0 rest else none

/-- The group in braces that the next significant token opens, and the tokens after it. -/
def braced? (tokens : List Token) : Option (List Token × List Token) :=
  match dropTrivia tokens with
  | [] => none
  | token :: rest => if token.isPunct "\x7b" then splitGroup "\x7b" "\x7d" 0 rest else none

def Token.isOpening (token : Token) : Bool :=
  token.isPunct "(" || token.isPunct "[" || token.isPunct "\x7b"

def Token.isClosing (token : Token) : Bool :=
  token.isPunct ")" || token.isPunct "]" || token.isPunct "\x7d"

/-- The pieces between the commas that stand outside all brackets. -/
def pieces : Nat → List Token → List (List Token)
  | _, [] => [[]]
  | depth, token :: rest =>
    if depth = 0 ∧ token.isPunct "," then [] :: pieces 0 rest
    else
      let inner := if token.isOpening then depth + 1 else if token.isClosing then depth - 1 else depth
      match pieces inner rest with
      | [] => [[token]]
      | piece :: more => (token :: piece) :: more

/-- The trimmed arguments between a call's parentheses. -/
def arguments (inner : List Token) : List Text :=
  if inner.all Token.isTrivia then []
  else (pieces 0 inner).map fun piece => Text.trim (render piece)

end Breadboard.Sketch
