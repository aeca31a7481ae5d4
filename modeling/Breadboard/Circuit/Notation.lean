import Breadboard.Circuit.Diagram
import Breadboard.Json.Reading

set_option autoImplicit false

/- Diagrams in JSON. Parts, pins, wires and the diagram itself are records; a pin's role is a name or an
object with that name as its only key. -/
namespace Breadboard.Circuit

/-- A required field. -/
def required? {α : Type} (decode : Json → Option α) (field : Option Json) : Option α :=
  field.bind decode

/-- The items of a list field, which may be missing. -/
def list? {α : Type} (decode : Json → Option α) (field : Option Json) : Option (List α) :=
  match field with
  | none => some []
  | some value => do (← value.items?).mapM decode

namespace Role

def ofJson? : Json → Option Role
  | .string (some name) => ofName? name
  | .object [(some name, .null)] => ofName? name
  | _ => none

end Role

namespace Pin

/-- A role that may be missing or null. -/
def roleField? (field : Option Json) : Option (Option Role) :=
  match field with
  | none => some none
  | some .null => some none
  | some value => (Role.ofJson? value).map some

def ofJson? (value : Json) : Option Pin := do
  match ← value.fields? ["name", "role"] with
  | [name, role] => return ⟨← required? Json.text? name, ← roleField? role⟩
  | _ => none

/-- A pin without a role has no field for it. -/
def toJson (pin : Pin) : Json :=
  .ofMembers (("name", .ofText pin.name) ::
    (pin.role.map fun role => ("role", Json.ofText role.name)).toList)

end Pin

namespace Component

def ofJson? (value : Json) : Option Component := do
  match ← value.fields? ["id", "type", "pins"] with
  | [id, kind, pins] =>
    return ⟨← required? Json.text? id, Kind.ofTag (← required? Json.text? kind),
      ← list? Pin.ofJson? pins⟩
  | _ => none

def toJson (component : Component) : Json :=
  .ofMembers [("id", .ofText component.id), ("type", .ofText component.kind.tag),
    ("pins", .array (component.pins.map Pin.toJson))]

end Component

namespace Terminal

def ofJson? (value : Json) : Option Terminal := do
  match ← value.fields? ["component", "pin"] with
  | [component, pin] => return ⟨← required? Json.text? component, ← required? Json.text? pin⟩
  | _ => none

def toJson (terminal : Terminal) : Json :=
  .ofMembers [("component", .ofText terminal.component), ("pin", .ofText terminal.pin)]

end Terminal

namespace Connection

def ofJson? (value : Json) : Option Connection := do
  match ← value.fields? ["source", "target"] with
  | [source, target] =>
    return ⟨← required? Terminal.ofJson? source, ← required? Terminal.ofJson? target⟩
  | _ => none

def toJson (connection : Connection) : Json :=
  .ofMembers [("source", connection.source.toJson), ("target", connection.target.toJson)]

end Connection

namespace Diagram

/-- The diagram with standard pins for the parts that list none. -/
def withPins (diagram : Diagram) : Diagram :=
  { diagram with components := diagram.components.map Component.withPins }

/-- The diagram that a value describes. -/
def ofJson? (value : Json) : Option Diagram := do
  match ← value.fields? ["components", "connections"] with
  | [components, connections] =>
    return Diagram.withPins
      ⟨← list? Component.ofJson? components, ← list? Connection.ofJson? connections⟩
  | _ => none

def toJson (diagram : Diagram) : Json :=
  .ofMembers [("components", .array (diagram.components.map Component.toJson)),
    ("connections", .array (diagram.connections.map Connection.toJson))]

/-- The diagram that a JSON text describes. -/
def ofText? (text : Text) : Option Diagram := do
  ofJson? (← Json.ofJsonText? text)

end Diagram

end Breadboard.Circuit
