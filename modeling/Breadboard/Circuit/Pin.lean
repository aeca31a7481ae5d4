import Breadboard.Text.Basic

set_option autoImplicit false

namespace Breadboard.Circuit

/-- The electrical role of a pin. -/
inductive Role where
  | power
  | ground
  | pwm
  | i2c
  | spi
  deriving DecidableEq, Repr

namespace Role

def name : Role → Text
  | power => "power".toList
  | ground => "ground".toList
  | pwm => "pwm".toList
  | i2c => "i2c".toList
  | spi => "spi".toList

def all : List Role := [power, ground, pwm, i2c, spi]

def ofName? (text : Text) : Option Role :=
  all.find? (·.name == text)

theorem ofName?_name (role : Role) : ofName? role.name = some role := by
  cases role <;> rfl

end Role

structure Pin where
  name : Text
  role : Option Role
  deriving DecidableEq, Repr

/-- A ground pin says so by its role or by its name. -/
def Pin.isGround (pin : Pin) : Bool :=
  pin.role == some .ground || "GND".toList.isPrefixOf pin.name

end Breadboard.Circuit
