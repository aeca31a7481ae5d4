import Breadboard.Text.Lines

set_option autoImplicit false

/- The program that an interpreter runs before any script. It makes the modules `machine` and `time` out
of the host's pins. Its sleeps do nothing: the scheduler waits in their place. -/
namespace Breadboard.Simulation

def preludeLines : List String :=
  ["",
    "import sys",
    "import builtins",
    "import _host",
    "",
    "class Pin:",
    "    IN = 0",
    "    OUT = 1",
    "    PULL_UP = 2",
    "",
    "    def __init__(self, pin_num, mode=IN, pull=None):",
    "        self.pin_num = pin_num",
    "        self.mode = mode",
    "        _host.configure_pin(pin_num, mode, -1 if pull is None else pull)",
    "",
    "    def value(self, val=None):",
    "        if val is None:",
    "            return _host.pin_value(self.pin_num)",
    "        _host.set_pin_value(self.pin_num, 1 if val else 0)",
    "",
    "    def on(self):",
    "        self.value(1)",
    "",
    "    def off(self):",
    "        self.value(0)",
    "",
    "class PWM:",
    "    def __init__(self, pin, freq=1000, duty=512):",
    "        self.pin = pin if isinstance(pin, int) else pin.pin_num",
    "        self._freq = freq",
    "        self.duty(duty)",
    "",
    "    def freq(self, val=None):",
    "        if val is None:",
    "            return self._freq",
    "        self._freq = val",
    "",
    "    def duty(self, val=None):",
    "        if val is None:",
    "            return self._duty",
    "        self._duty = val",
    "        _host.set_pwm_duty(self.pin, val)",
    "",
    "    def deinit(self):",
    "        pass",
    "",
    "class ADC:",
    "    ATTN_0DB = 0",
    "    ATTN_2_5DB = 1",
    "    ATTN_6DB = 2",
    "    ATTN_11DB = 3",
    "",
    "    def __init__(self, pin):",
    "        self.pin = pin if isinstance(pin, int) else pin.pin_num",
    "",
    "    def atten(self, atten):",
    "        _host.configure_attenuation(self.pin, atten)",
    "",
    "    def width(self, bits):",
    "        pass",
    "",
    "    def read(self):",
    "        return _host.read_analog(self.pin)",
    "",
    "    def read_u16(self):",
    "        return int(self.read() * 16)",
    "",
    "class MachineModule:",
    "    Pin = Pin",
    "    PWM = PWM",
    "    ADC = ADC",
    "",
    "class TimeModule:",
    "    @staticmethod",
    "    def sleep_ms(ms):",
    "        pass",
    "",
    "    @staticmethod",
    "    def sleep(seconds):",
    "        pass",
    "",
    "class SerialClass:",
    "    def begin(self, baud=9600):",
    "        pass",
    "",
    "    def print(self, *args):",
    "        print(' '.join(str(a) for a in args), end='')",
    "",
    "    def println(self, *args):",
    "        print(' '.join(str(a) for a in args))",
    "",
    "    def available(self):",
    "        return 0",
    "",
    "    def read(self):",
    "        return -1",
    "",
    "sys.modules['machine'] = MachineModule()",
    "sys.modules['time'] = TimeModule()",
    "builtins.Serial = SerialClass()",
    ""]

/-- The program's text; it starts and ends with a line break. -/
def prelude : Text := Text.unlines (preludeLines.map String.toList)

end Breadboard.Simulation
