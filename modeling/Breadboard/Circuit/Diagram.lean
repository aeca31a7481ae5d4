import Breadboard.Circuit.Catalogue

set_option autoImplicit false

namespace Breadboard.Circuit

structure Component where
  id : Text
  kind : Kind
  pins : List Pin
  deriving DecidableEq, Repr

namespace Component

/-- A part with the standard pins of its kind. -/
def standard (id : Text) (kind : Kind) : Component :=
  ⟨id, kind, kind.standardPins⟩

def pin? (component : Component) (name : Text) : Option Pin :=
  component.pins.find? (·.name == name)

/-- A part without pins gets the standard ones. -/
def withPins (component : Component) : Component :=
  if component.pins.isEmpty then { component with pins := component.kind.standardPins }
  else component

/-- Whether a wire may end at the pin. A part that lists no pins accepts any. -/
def accepts (component : Component) (pin : Text) : Bool :=
  component.pins.isEmpty || (component.pin? pin).isSome

end Component

/-- One end of a wire. -/
structure Terminal where
  component : Text
  pin : Text
  deriving DecidableEq, Repr

/-- A wire between two pins. Its direction has no meaning. -/
structure Connection where
  source : Terminal
  target : Terminal
  deriving DecidableEq, Repr

structure Diagram where
  components : List Component
  connections : List Connection
  deriving DecidableEq, Repr

/-- A wire whose ends are known. -/
structure Wire where
  first : Component
  firstPort : Text
  second : Component
  secondPort : Text
  deriving DecidableEq, Repr

namespace Diagram

def empty : Diagram := ⟨[], []⟩

def add (diagram : Diagram) (component : Component) : Diagram :=
  { diagram with components := diagram.components ++ [component] }

def connect (diagram : Diagram) (connection : Connection) : Diagram :=
  { diagram with connections := diagram.connections ++ [connection] }

/-- The first part with the given id. -/
def component? (diagram : Diagram) (id : Text) : Option Component :=
  diagram.components.find? (·.id == id)

/-- The part at the end of a wire, none if the end dangles. -/
def partAt? (diagram : Diagram) (terminal : Terminal) : Option Component :=
  (diagram.component? terminal.component).filter (·.accepts terminal.pin)

/-- The wire with its parts. A wire from a part to itself is not resolved. -/
def wire? (diagram : Diagram) (connection : Connection) : Option Wire := do
  let first ← diagram.partAt? connection.source
  let second ← diagram.partAt? connection.target
  if first.id = second.id then none
  else some ⟨first, connection.source.pin, second, connection.target.pin⟩

/-- The resolved wires in the order of the connections. -/
def wires (diagram : Diagram) : List Wire :=
  diagram.connections.filterMap diagram.wire?

/-- The family of the first board among the parts. -/
def family? (diagram : Diagram) : Option Family :=
  diagram.components.findSome? fun component => component.kind.family?

end Diagram

end Breadboard.Circuit
