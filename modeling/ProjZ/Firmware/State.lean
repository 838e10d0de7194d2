import ProjZ.Lib.Ascii

/-!
# The state of the SuperIO firmware (`atmega_com.ino`)

The globals of the sketch, the `static` locals of `pollingTimer`, and the
output pins as the levels last written to them. `receiveI2c`, `sendI2c` and
`pollingTimer` run to completion one at a time (interrupt handlers and the
timer callback), so each is a function on this state.

- The 16-bit `int`s that hold numbers (the five registers, `get_bytes_c`) are
  integers, wrapped by `int16` where the code computes something that may not fit.
- The `int`s that only ever hold a pin level or a flag (`master_en`,
  `pwr_state`, `is_reboot`, …) are `Bool`s, `true` for `HIGH`/`1`.
- Every output pin also counts the writes made to it, so that "since the pin was
  last written" can be said of a run; the code never looks at the count.
-/

namespace ProjZ

/-- `enum SDevice`. -/
inductive SDevice where
  | led
  | servo
deriving DecidableEq, Repr

/-- `enum SType`. -/
inductive SType where
  | en
  | pwm
  | pwmX
  | pwmY
deriving DecidableEq, Repr

/-- The values `char i2c_ret` takes: zero-initialised, then one of eight letters. -/
inductive I2cRet where
  | nul
  | chN
  | chG
  | chS
  | chF
  | chD
  | chW
  | chB
  | ch0
deriving DecidableEq, Repr

/-- The digital output pins (`PIN_LED_EN`, `PIN_SERVO_EN`, `PIN_MASTER_EN`,
`PIN_INT_LED`). -/
inductive DigitalPin where
  | ledEn
  | servoEn
  | masterEn
  | intLed
deriving DecidableEq, Repr

/-- The outputs that carry a number: the duty of `PIN_LED_PWM` and the pulse
widths of `servo_x` and `servo_y`. -/
inductive AnalogPin where
  | ledPwm
  | servoX
  | servoY
deriving DecidableEq, Repr

/-- An output: the value last written and the number of writes so far. -/
structure OutPin (α : Type) where
  level : α
  writes : Nat
deriving DecidableEq, Repr

/-- The five registers behind the I2C commands. -/
structure Regs where
  ledEn : Int := 0
  ledPwm : Int := 255
  servoEn : Int := 0
  servoPwmX : Int := 1480
  servoPwmY : Int := 1150
deriving DecidableEq, Repr

/-- The `static` locals of `pollingTimer`. -/
structure Poll where
  flashMode : Bool := false
  ledState : Nat := 0
  vIn : Bool := false
  confirm : Nat := 40
  btnState : Bool := false
  pwrState : Bool := false
  pwrLast : Bool := true
  isReboot : Bool := false
  isRebootTry : Bool := false
  counter : Nat := 0
deriving DecidableEq, Repr

/-- The whole firmware state. -/
structure Firmware where
  i2cRet : I2cRet := .nul
  regs : Regs := {}
  masterEn : Bool := false
  device : SDevice := .led
  type : SType := .en
  getBytesC : Int := 0
  poll : Poll := {}
  digital : DigitalPin → OutPin Bool := fun _ => ⟨false, 0⟩
  analog : AnalogPin → OutPin Int := fun _ => ⟨0, 0⟩

/-- The value of a 16-bit `int` after an assignment of `z`. -/
def int16 (z : Int) : Int := z.bmod 65536

theorem int16_of_lt {z : Int} (h0 : -32768 ≤ z) (h1 : z < 32768) : int16 z = z := by
  unfold int16
  exact Int.bmod_eq_of_le (by omega) (by omega)

namespace Firmware

/-- `digitalWrite(p, v)`. -/
def digitalWrite (p : DigitalPin) (v : Bool) (fw : Firmware) : Firmware :=
  { fw with digital := fun q =>
      if q = p then ⟨v, (fw.digital q).writes + 1⟩ else fw.digital q }

/-- `analogWrite` and `Servo::writeMicroseconds`. -/
def analogWrite (p : AnalogPin) (v : Int) (fw : Firmware) : Firmware :=
  { fw with analog := fun q =>
      if q = p then ⟨v, (fw.analog q).writes + 1⟩ else fw.analog q }

/-- `digitalRead` of an output pin: the level it was last driven to. -/
def digitalRead (p : DigitalPin) (fw : Firmware) : Bool := (fw.digital p).level

/-- How often a digital pin has been written. -/
def writes (p : DigitalPin) (fw : Firmware) : Nat := (fw.digital p).writes

end Firmware

/-- `setup()`, with the levels read on `PIN_HOST_12V` and `PIN_MASTER_GPIO_0`. -/
def setup (vIn gpio0 : Bool) : Firmware :=
  let fw : Firmware := {}
  let fw := fw.digitalWrite .intLed true
  let fw := fw.analogWrite .servoX fw.regs.servoPwmX
  let fw := fw.analogWrite .servoY fw.regs.servoPwmY
  let fw := fw.digitalWrite .servoEn vIn
  let fw :=
    if gpio0 = false then
      let fw := { fw with masterEn := true }
      fw.digitalWrite .masterEn fw.masterEn
    else fw.digitalWrite .masterEn false
  let fw := fw.analogWrite .ledPwm 127
  let fw := fw.digitalWrite .ledEn true
  -- after `delay(1000)`
  let fw := fw.digitalWrite .servoEn false
  let fw := fw.digitalWrite .ledEn (decide (fw.regs.ledEn ≠ 0))
  let fw := fw.analogWrite .ledPwm fw.regs.ledPwm
  fw.digitalWrite .intLed fw.masterEn

end ProjZ
