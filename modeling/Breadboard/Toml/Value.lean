import Breadboard.Text.Basic

set_option autoImplicit false

/- TOML values and tables. How a table came about decides which later headers and dotted keys may add
to it. -/
namespace Breadboard.Toml

inductive Value where
  | string (text : Text)
  | integer (value : Int)
  /-- A number by its literal. -/
  | float (literal : Text)
  | boolean (value : Bool)
  | datetime
  | array (items : List Value)
  /-- `dotted` tells a table that a dotted key made from one written in braces. -/
  | inlineTable (dotted : Bool) (entries : List (Text × Value))

/-- How a table came about. -/
inductive Origin where
  /-- It has a header of its own. -/
  | header
  /-- A longer header mentions it. -/
  | implied
  /-- A dotted key mentions it. -/
  | dotted
  deriving DecidableEq, Repr

inductive Item where
  | value (value : Value)
  | table (origin : Origin) (entries : List (Text × Item))
  /-- The tables with a header in double brackets. -/
  | tables (elements : List (List (Text × Item)))

/-- The value of an entry, none for a table with a header or with dotted keys. -/
def Item.value? : Item → Option Value
  | .value found => some found
  | _ => none

abbrev Table := List (Text × Item)

abbrev InlineTable := List (Text × Value)

/-- The entries with a new value for a key that is there, or with a new entry at the end. -/
def put {α : Type} (key : Text) (value : α) : List (Text × α) → List (Text × α)
  | [] => [(key, value)]
  | (name, old) :: rest =>
    if name = key then (key, value) :: rest else (name, old) :: put key value rest

/-- Adds an entry to a table written in braces. A dotted key passes only through tables that dotted
keys made. -/
def insertInline (key : Text) (value : Value) : List Text → InlineTable → Option InlineTable
  | [], table => if (table.lookup key).isSome then none else some (put key value table)
  | name :: path, table =>
    match table.lookup name with
    | none => do
      return put name (.inlineTable true (← insertInline key value path [])) table
    | some (.inlineTable true entries) => do
      return put name (.inlineTable true (← insertInline key value path entries)) table
    | some _ => none

/-- Changes the table at the end of a path. Missing tables on the path are made. A path of dotted
keys leads through no table that has a header; a path of headers leads into the last of several
tables. -/
def modifyAt (change : Origin → Table → Option Table) (dotted : Bool) :
    Origin → List Text → Table → Option Table
  | origin, [], table => change origin table
  | _, name :: path, table =>
    match table.lookup name with
    | none => do
      let made : Origin := if dotted then .dotted else .implied
      return put name (.table made (← modifyAt change dotted made path [])) table
    | some (.value _) => none
    | some (.table origin entries) =>
      if dotted && origin == .header then none
      else do
        return put name (.table origin (← modifyAt change dotted origin path entries)) table
    | some (.tables elements) =>
      match elements.getLast? with
      | none => none
      | some last => do
        return put name
          (.tables (elements.dropLast ++ [← modifyAt change dotted .header path last])) table

/-- Adds an entry to a table. A dotted key adds to tables that dotted keys made, and to no others. -/
def insertEntry (path : List Text) (key : Text) (value : Value) (table : Table) : Option Table :=
  modifyAt
    (fun origin entries =>
      if (origin == .dotted) == path.isEmpty || (entries.lookup key).isSome then none
      else some (put key (.value value) entries))
    true .header path table

/-- Gives the table at a path its header. It must be new, or so far only mentioned in headers. -/
def openTable (path : List Text) (key : Text) (root : Table) : Option Table :=
  modifyAt
    (fun _ entries =>
      match entries.lookup key with
      | none => some (put key (.table .header []) entries)
      | some (.table .implied found) => some (put key (.table .header found) entries)
      | some _ => none)
    false .header path root

/-- Adds a table to those with the same header in double brackets. -/
def openElement (path : List Text) (key : Text) (root : Table) : Option Table :=
  modifyAt
    (fun _ entries =>
      match entries.lookup key with
      | none => some (put key (.tables [[]]) entries)
      | some (.tables elements) => some (put key (.tables (elements ++ [[]])) entries)
      | some _ => none)
    false .header path root

end Breadboard.Toml
