import Breadboard.Circuit.Kind
import Breadboard.Circuit.Pin

set_option autoImplicit false

namespace Breadboard.Circuit

private def plain (name : String) : Pin := ⟨name.toList, none⟩

private def power (name : String) : Pin := ⟨name.toList, some .power⟩

private def ground (name : String) : Pin := ⟨name.toList, some .ground⟩

private def pwm (name : String) : Pin := ⟨name.toList, some .pwm⟩

private def i2c (name : String) : Pin := ⟨name.toList, some .i2c⟩

private def spi (name : String) : Pin := ⟨name.toList, some .spi⟩

def arduinoUnoPins : List Pin :=
  [plain "0", plain "1", plain "2", pwm "3", plain "4", pwm "5", pwm "6", plain "7", plain "8",
    pwm "9", pwm "10", pwm "11", plain "12", plain "13", plain "A0", plain "A1", plain "A2",
    plain "A3", plain "A4", plain "A5", ground "GND.1", ground "GND.2", ground "GND.3",
    power "5V", power "3.3V", power "VIN", plain "AREF", plain "IOREF", plain "RESET"]

def esp32DevkitV1Pins : List Pin :=
  [pwm "D2", pwm "D4", pwm "D5", pwm "D12", pwm "D13", pwm "D14", pwm "D15", pwm "D18", pwm "D19",
    i2c "D21", i2c "D22", pwm "D23", pwm "D25", pwm "D26", pwm "D27", pwm "D32", pwm "D33",
    plain "D34", plain "D35", plain "VP", plain "VN", plain "TX0", plain "RX0", plain "TX2",
    plain "RX2", plain "EN", power "VIN", power "3V3", ground "GND.1", ground "GND.2"]

def handySenseProPins : List Pin :=
  [power "3V3_1", pwm "IO33", ground "GND_1", pwm "IO15", power "3V3_2", plain "IO36",
    ground "GND_2", power "3V3_3", plain "IO39", ground "GND_3", power "3V3_4", pwm "IO32",
    ground "GND_4", power "VIN_1", ground "GND_5", power "VIN_2", ground "GND_6", i2c "SCL_1",
    i2c "SDA_1", ground "GND_R1", power "3V3_R1", i2c "SCL_2", i2c "SDA_2", ground "GND_R2",
    power "3V3_R2", plain "TX2", plain "RX2", i2c "SCL_3", i2c "SDA_3", spi "MOSI", spi "MISO",
    spi "CLK", spi "CS", ground "GND_R3", power "3V3_R3"]

def customEsp32Pins : List Pin :=
  [pwm "IO33", ground "GND", pwm "IO15", ground "GND2", power "3V3", plain "IO36", ground "GND3",
    power "3V3_2", plain "IO39", ground "GND4", power "3V3_3", pwm "IO32", ground "GND5",
    power "VIN", ground "GND6", power "VIN2", ground "GND7", i2c "SCL", i2c "SDA",
    ground "GND_R1", power "3V3_R1", i2c "SCL_2", i2c "SDA_2", ground "GND_R2", power "3V3_R2",
    plain "TX2", plain "RX2", i2c "SCL_3", i2c "SDA_3", spi "MOSI", spi "MISO", spi "CLK",
    spi "CS", ground "GND_R3", power "3V3_R3"]

def BoardModel.pins : BoardModel → List Pin
  | arduinoUno => arduinoUnoPins
  | esp32DevkitV1 => esp32DevkitV1Pins
  | handySensePro => handySenseProPins
  | customEsp32 => customEsp32Pins

/-- The standard pins of a kind. Parts of no known kind have none. -/
def Kind.standardPins : Kind → List Pin
  | board model => model.pins
  | led => [plain "A", plain "C"]
  | pushbutton => [plain "1.l", plain "2.l", plain "1.r", plain "2.r"]
  | actuator _ => [power "VCC", ground "GND", plain "SIG"]
  | other _ => []

end Breadboard.Circuit
