import Breadboard.Text.Basic

set_option autoImplicit false

namespace Breadboard

inductive Json where
  | null
  | bool (value : Bool)
  /-- A number by its literal. -/
  | number (literal : Text)
  /-- A string that escapes half of a surrogate pair denotes no text. -/
  | string (content : Option Text)
  | array (items : List Json)
  | object (members : List (Option Text × Json))

namespace Json

/-- A string with the given text. -/
def ofText (text : Text) : Json :=
  string (some text)

/-- An object from its members. -/
def ofMembers (members : List (String × Json)) : Json :=
  object (members.map fun (key, value) => (some key.toList, value))

/-- The text of a string. -/
def text? : Json → Option Text
  | string content => content
  | _ => none

def items? : Json → Option (List Json)
  | array items => some items
  | _ => none

/-- The value of a field, none if it is missing. A field that occurs twice makes the object
invalid. -/
def member? (members : List (Option Text × Json)) (key : String) : Option (Option Json) :=
  match members.filter (·.1 == some key.toList) with
  | [] => some none
  | [(_, value)] => some (some value)
  | _ => none

/-- The fields of a record in their order. A record is an object, whose keys must all be text, or an
array of the fields that may leave out the last ones. -/
def fields? (keys : List String) : Json → Option (List (Option Json))
  | object members =>
    if members.all (·.1.isSome) then keys.mapM (member? members) else none
  | array items =>
    if items.length ≤ keys.length then
      some (items.map some ++ List.replicate (keys.length - items.length) none)
    else none
  | _ => none

end Json

end Breadboard
