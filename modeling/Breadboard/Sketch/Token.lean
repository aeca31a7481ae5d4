import Breadboard.Text.Basic

set_option autoImplicit false

/- Tokens of a sketch, the program of a microcontroller board. A token keeps its exact text, blanks and
comments included, so a list of tokens is a text cut into pieces. -/
namespace Breadboard.Sketch

inductive TokenKind where
  | ident
  | number
  /-- A string or character literal with its quotes. -/
  | literal
  | punct
  | space
  | comment
  deriving DecidableEq, Repr

structure Token where
  kind : TokenKind
  text : Text
  deriving DecidableEq, Repr

namespace Token

def isIdent (name : String) (token : Token) : Bool :=
  token.kind == .ident && token.text == name.toList

def isPunct (mark : String) (token : Token) : Bool :=
  token.kind == .punct && token.text == mark.toList

/-- Blanks and comments carry no meaning of their own. -/
def isTrivia (token : Token) : Bool :=
  token.kind == .space || token.kind == .comment

end Token

/-- The text that a list of tokens was cut from. -/
def render (tokens : List Token) : Text :=
  tokens.flatMap Token.text

/-- Each token with the number of UTF-8 bytes before it. -/
def locate (start : Nat) : List Token → List (Nat × Token)
  | [] => []
  | token :: rest => (start, token) :: locate (start + Text.byteLength token.text) rest

/-- The tokens from the first one that is not trivia. -/
def dropTrivia (tokens : List Token) : List Token :=
  tokens.dropWhile Token.isTrivia

@[simp] theorem render_nil : render [] = [] := rfl

@[simp] theorem render_cons (token : Token) (tokens : List Token) :
    render (token :: tokens) = token.text ++ render tokens := rfl

@[simp] theorem render_append (first second : List Token) :
    render (first ++ second) = render first ++ render second := by
  simp [render]

end Breadboard.Sketch
