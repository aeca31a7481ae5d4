import Breadboard.Script.Call
import Breadboard.Script.Context

set_option autoImplicit false

namespace Breadboard.Script

open Sketch (Token TokenKind dropTrivia render tokenize)

/-- The words that the type of a declaration is made of. -/
def typeWords : List Text :=
  ["int", "float", "double", "bool", "boolean", "char", "String", "long", "unsigned", "short",
    "byte", "const", "static", "uint8_t", "uint16_t", "uint32_t", "int8_t", "int16_t",
    "int32_t"].map String.toList

def isTypeWord (token : Token) : Bool :=
  token.kind == .ident && typeWords.contains token.text

/-- Whether the tokens, after trivia and type words, go on with a name that is assigned to. -/
def leadsToAssignment (tokens : List Token) : Bool :=
  match tokens.dropWhile fun token => token.isTrivia || isTypeWord token with
  | [] => false
  | name :: rest => name.kind == .ident && (dropTrivia rest).head?.any (·.isPunct "=")

/-- Drops the type words before a name that is assigned to, with the blanks after them:
`unsigned long now = 0` becomes `now = 0`. `afterType` holds behind a dropped word. -/
def stripTypes (afterType : Bool) : List Token → List Token
  | [] => []
  | token :: rest =>
    if isTypeWord token && leadsToAssignment rest then stripTypes true rest
    else if afterType && token.isTrivia then stripTypes true rest
    else token :: stripTypes false rest

def stripComments (tokens : List Token) : List Token :=
  tokens.filter fun token => token.kind != .comment

/-- The name of the pin object for a digital reference. A bare number takes the name that the first
of the tables gives it. -/
def digitalName? (first second : Std.TreeMap Nat Text) (source : Text) : Option Text :=
  (PinRef.ofText? source).map fun ref =>
    match ref with
    | .number pin => (first[pin]? <|> second[pin]?).getD ref.identifier
    | _ => ref.identifier

/-- The name of the object for an analog reference. Only a harvested pin constant loses its
suffix. -/
def analogName? (context : Context) (source : Text) : Option Text :=
  (PinRef.ofText? source).map fun ref =>
    match ref with
    | .number pin => context.analogNames[pin]?.getD ("adc".toList ++ Text.ofNat pin)
    | _ =>
      if context.pinConstants.any (·.1 == source) then "adc_".toList ++ ref.identifier
      else "adc_".toList ++ lowercase source

/-- The script's spelling of a level. -/
def levelText (level : Text) : Text :=
  if level = "HIGH".toList ∨ level = "1".toList ∨ level = "true".toList then "1".toList
  else if level = "LOW".toList ∨ level = "0".toList ∨ level = "false".toList then "0".toList
  else level

def convertAnalogRead (context : Context) : List Token → List Token :=
  replaceCalls "analogRead" [] fun call =>
    match call.args with
    | [source] => (analogName? context source).map (· ++ ".read()".toList)
    | _ => none

def convertDigitalWrite (context : Context) : List Token → List Token :=
  replaceCalls "digitalWrite" [] fun call =>
    match call.args with
    | [source, level] =>
      (digitalName? context.outputNames context.inputNames source).map fun name =>
        name ++ ".value(".toList ++ levelText level ++ ")".toList
    | _ => none

def convertDigitalRead (context : Context) : List Token → List Token :=
  replaceCalls "digitalRead" [] fun call =>
    match call.args with
    | [source] =>
      (digitalName? context.inputNames context.outputNames source).map (· ++ ".value()".toList)
    | _ => none

def convertPrintLine : List Token → List Token :=
  replaceCalls "Serial" [".", "println"] fun call =>
    some ("print(".toList ++ call.inner ++ ")".toList)

def convertPrint : List Token → List Token :=
  replaceCalls "Serial" [".", "print"] fun call =>
    if call.inner.isEmpty then some "print(end=\"\")".toList
    else some ("print(".toList ++ call.inner ++ ", end=\"\")".toList)

def convertDelay : List Token → List Token :=
  replaceCalls "delay" [] fun call =>
    if call.inner.isEmpty then none
    else some ("time.sleep_ms(".toList ++ call.inner ++ ")".toList)

/-- The script's word for a level or a truth value. -/
def levelWord? (token : Token) : Option Text :=
  if token.isIdent "HIGH" then some "1".toList
  else if token.isIdent "LOW" then some "0".toList
  else if token.isIdent "true" then some "True".toList
  else if token.isIdent "false" then some "False".toList
  else none

/-- The script's word for a logical operator. -/
def operatorWord? (token : Token) : Option Text :=
  if token.isPunct "&&" then some "and".toList
  else if token.isPunct "||" then some "or".toList
  else if token.isPunct "!" then some "not".toList
  else none

def blankToken : Token := ⟨.space, [' ']⟩

/-- Whether a word put after this token needs a blank in between. -/
def touches (token : Token) : Bool :=
  !token.isTrivia && !token.isPunct "(" && !token.isPunct "["

/-- Respells levels, truth values and logical operators. An operator that becomes a word is set off
by blanks where its neighbours touch it. `previous` is the token put out last. -/
def normalizeWords (previous : Option Token) : List Token → List Token
  | [] => []
  | token :: rest =>
    match levelWord? token, operatorWord? token with
    | some word, _ =>
      let replaced : Token := ⟨.ident, word⟩
      replaced :: normalizeWords (some replaced) rest
    | none, some word =>
      let replaced : Token := ⟨.ident, word⟩
      let before := if previous.any touches then [blankToken] else []
      let after := if rest.head?.any (!·.isTrivia) then [blankToken] else []
      before ++ replaced :: after ++ normalizeWords (some (after.getLastD replaced)) rest
    | none, none => token :: normalizeWords (some token) rest

/-- A header's condition, none after `else`, and the tokens after it. -/
structure Header where
  keyword : Text
  condition : Option Text
  after : List Token

/-- The header `keyword (condition)` whose keyword has just been read. -/
def conditional? (keyword : String) (tokens : List Token) : Option Header :=
  (Sketch.parenthesized? tokens).map fun (inner, after) =>
    ⟨keyword.toList, some (Text.trim (render inner)), after⟩

/-- The header that tokens without leading trivia start with. -/
def headerAt? (tokens : List Token) : Option Header :=
  match tokens with
  | [] => none
  | token :: rest =>
    if token.isIdent "else" then
      match dropTrivia rest with
      | [] => some ⟨"else".toList, none, rest⟩
      | next :: more =>
        if next.isIdent "if" then conditional? "elif" more else some ⟨"else".toList, none, rest⟩
    else if token.isIdent "if" then conditional? "if" rest
    else if token.isIdent "while" then conditional? "while" rest
    else none

/-- The header of a line, which may follow the brace that closes the block before. -/
def header? (tokens : List Token) : Option Header :=
  match dropTrivia tokens with
  | [] => none
  | token :: rest =>
    if token.isPunct "\x7d" then headerAt? (dropTrivia rest) else headerAt? (token :: rest)

/-- The tokens without an opening brace at their start. -/
def dropOpeningBrace (tokens : List Token) : List Token :=
  match dropTrivia tokens with
  | [] => tokens
  | token :: rest => if token.isPunct "\x7b" then rest else tokens

/-- The header in the script's form. A statement after a header without braces stays behind the
colon. -/
def Header.render (header : Header) : Text :=
  let trailing := Text.trim (Sketch.render (dropOpeningBrace header.after))
  header.keyword ++ (header.condition.map (' ' :: ·)).getD [] ++ [':'] ++
    (if trailing.isEmpty then [] else ' ' :: trailing)

def convertHeader (tokens : List Token) : List Token :=
  match header? tokens with
  | none => tokens
  | some header => tokenize header.render

/-- The rules in the order of their use. A rule sees what the rules before it made. -/
def convertTokens (context : Context) (tokens : List Token) : List Token :=
  let declared := stripTypes false (stripComments tokens)
  let accessed := convertDigitalRead context <| convertDigitalWrite context <|
    convertAnalogRead context declared
  let called := convertDelay (convertPrint (convertPrintLine accessed))
  convertHeader (normalizeWords none called)

def isPunctuationDropped (token : Token) : Bool :=
  token.isPunct ";" || token.isPunct "\x7b" || token.isPunct "\x7d"

/-- One logical line as a line of the script. -/
def convertLine (context : Context) (line : Text) : Text :=
  Text.trim (render ((convertTokens context (tokenize line)).filter (!isPunctuationDropped ·)))

end Breadboard.Script
