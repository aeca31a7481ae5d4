import Breadboard.Toml.Lexical

set_option autoImplicit false

namespace Breadboard.Toml

open Reader

/-- The items of an array behind its opening bracket. A comma may follow the last one. -/
def arrayItems (item : Reader Value) : Nat → Reader (List Value)
  | 0 => failure
  | steps + 1 => do
    skipLines (← room)
    if ← skip? "]" then return []
    else
      let value ← item
      skipLines (← room)
      if ← skip? "," then return value :: (← arrayItems item steps)
      else
        expect "]"
        return [value]

/-- The entries of a table in braces behind a brace or a comma, added to those before. -/
def inlineEntries (item : Reader Value) (table : InlineTable) : Nat → Reader InlineTable
  | 0 => failure
  | steps + 1 => do
    let (path, name) ← key
    expect "="
    skipBlanks
    let value ← item
    skipBlanks
    match insertInline name value path table with
    | none => failure
    | some extended =>
      if ← skip? "," then inlineEntries item extended steps
      else
        expect "\x7d"
        return extended

/-- A table in braces behind its opening brace. -/
def inlineTable (item : Reader Value) : Reader Value := do
  skipBlanks
  if ← skip? "\x7d" then return .inlineTable false []
  else return .inlineTable false (← inlineEntries item [] (← room))

def number : Reader Value :=
  Reader.either (do dateOrTime; return .datetime)
    (Reader.either (return .float (← float)) (return .integer (← integer)))

/-- A value. `depth` bounds the arrays and tables in it that lie within each other. -/
def value (depth : Nat) : Reader Value := do
  match ← peek with
  | some '\x22' | some '\'' => return .string (← string)
  | some '[' =>
    match depth with
    | 0 => failure
    | depth + 1 =>
      let _ ← next
      return .array (← arrayItems (value depth) (← room))
  | some '\x7b' =>
    match depth with
    | 0 => failure
    | depth + 1 =>
      let _ ← next
      inlineTable (value depth)
  | some 't' =>
    expect "true"
    return .boolean true
  | some 'f' =>
    expect "false"
    return .boolean false
  | some 'i' | some 'n' => return .float (← specialFloat)
  | some c => if c == '+' || c == '-' || c.isDigit then number else failure
  | none => failure

/-- A document while it is read: its tables, and the path of the header read last. -/
structure Document where
  root : Table
  header : List Text

/-- Adds an entry to the table of the header read last. -/
def Document.insert (document : Document) (path : List Text) (name : Text) (value : Value) :
    Option Document := do
  let root ← modifyAt (fun _ table => insertEntry path name value table) false .header
    document.header document.root
  return { document with root }

/-- Reads a header and opens its table. -/
def readHeader (document : Document) : Reader Document := do
  if ← skip? "[[" then
    let (path, name) ← key
    expect "]]"
    restOfLine
    match openElement path name document.root with
    | some root => return ⟨root, path ++ [name]⟩
    | none => failure
  else
    expect "["
    let (path, name) ← key
    expect "]"
    restOfLine
    match openTable path name document.root with
    | some root => return ⟨root, path ++ [name]⟩
    | none => failure

/-- Reads a key with its value. -/
def readEntry (document : Document) : Reader Document := do
  let (path, name) ← key
  expect "="
  skipBlanks
  let value ← value depthLimit
  restOfLine
  match document.insert path name value with
  | some extended => return extended
  | none => failure

/-- Reads expressions up to the end of the text. -/
def readExpressions (document : Document) : Nat → Reader Document
  | 0 => failure
  | steps + 1 => do
    skipBlanks
    match ← peek with
    | none => return document
    | some '#' =>
      restOfLine
      readExpressions document steps
    | some '\n' | some '\r' =>
      endOfLine
      readExpressions document steps
    | some '[' => readExpressions (← readHeader document) steps
    | some _ => readExpressions (← readEntry document) steps

/-- The document that a text writes. A byte order mark may stand before it. -/
def ofText? (text : Text) : Option Table :=
  let body := (['\uFEFF'].isPrefixOf? text).getD text
  (readExpressions ⟨[], []⟩ (body.length + 1) body).map fun (document, _) => document.root

end Breadboard.Toml
