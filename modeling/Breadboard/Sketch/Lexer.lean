import Breadboard.Sketch.Token

set_option autoImplicit false

namespace Breadboard.Sketch

def isSpaceChar (c : Char) : Bool :=
  c == ' ' || c == '\t' || c == '\n' || c == '\x0C' || c == '\r'

def isWordStart (c : Char) : Bool :=
  c.isAlpha || c == '_'

def isWordChar (c : Char) : Bool :=
  c.isAlphanum || c == '_'

def isNumberChar (c : Char) : Bool :=
  c.isAlphanum || c == '.' || c == '_'

/-- The operators of two characters. -/
def isOperatorPair (first second : Char) : Bool :=
  match first with
  | '=' => second == '='
  | '!' => second == '='
  | '<' => second == '=' || second == '<'
  | '>' => second == '=' || second == '>'
  | '&' => second == '&'
  | '|' => second == '|'
  | '+' => second == '+' || second == '='
  | '-' => second == '-' || second == '=' || second == '>'
  | '*' => second == '='
  | '/' => second == '='
  | ':' => second == ':'
  | _ => false

/-- The number of leading characters that satisfy `p`. -/
def runLength (p : Char → Bool) (text : Text) : Nat :=
  (text.takeWhile p).length

/-- The length of a block comment's text after the opening mark. An open comment takes all. -/
def blockLength : Text → Nat
  | [] => 0
  | '*' :: '/' :: _ => 2
  | _ :: rest => blockLength rest + 1

/-- The length of a literal's text after the opening quote. A line feed ends a literal too, and a
backslash takes any character with it. -/
def literalLength (quote : Char) : Text → Nat
  | [] => 0
  | ['\\'] => 1
  | '\\' :: _ :: rest => literalLength quote rest + 2
  | c :: rest => if c == quote || c == '\n' then 1 else literalLength quote rest + 1

/-- The kind of the token that starts with `c`, and how many of the characters after `c` belong
to it. -/
def scan (c : Char) (rest : Text) : TokenKind × Nat :=
  let next := rest.head?
  if isSpaceChar c then (.space, runLength isSpaceChar rest)
  else if c == '/' && next == some '/' then (.comment, runLength (· != '\n') rest)
  else if c == '/' && next == some '*' then (.comment, blockLength (rest.drop 1) + 1)
  else if c == '\x22' || c == '\'' then (.literal, literalLength c rest)
  else if isWordStart c then (.ident, runLength isWordChar rest)
  else if c.isDigit || (c == '.' && next.any Char.isDigit) then (.number, runLength isNumberChar rest)
  else (.punct, if next.any (isOperatorPair c) then 1 else 0)

def tokenize : Text → List Token
  | [] => []
  | c :: rest =>
    let (kind, size) := scan c rest
    ⟨kind, c :: rest.take size⟩ :: tokenize (rest.drop size)
termination_by text => text.length

/-- A comment leaves only its line breaks. -/
def Token.withoutComment (token : Token) : Text :=
  if token.kind = .comment then token.text.filter (· == '\n') else token.text

/-- The text without its comments. -/
def stripComments (text : Text) : Text :=
  (tokenize text).flatMap Token.withoutComment

@[simp] theorem tokenize_nil : tokenize [] = [] := by
  rw [tokenize]

theorem tokenize_cons (c : Char) (rest : Text) :
    tokenize (c :: rest) =
      ⟨(scan c rest).1, c :: rest.take (scan c rest).2⟩ :: tokenize (rest.drop (scan c rest).2) := by
  rw [tokenize]

/-- No character is lost. -/
theorem render_tokenize (text : Text) : render (tokenize text) = text := by
  fun_induction tokenize text with
  | case1 => rfl
  | case2 c rest kind size _ ih => simp [ih]

end Breadboard.Sketch
