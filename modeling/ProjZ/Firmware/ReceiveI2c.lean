import ProjZ.Firmware.State
import ProjZ.Lib.Decimal

/-!
# `receiveI2c`: the command parser of the firmware

A message is scanned byte by byte by a hand-written state machine
(`scanByte`, atmega_com.ino:237–302) whose state is `need_flags`; `i2c_ret`
holds the method letter and, as `'F'`, the error marker. What was scanned is then
checked and carried out (`execute`, :308–386): a get sets up the reply counter
`get_bytes_c`, a set writes a register and its pin.
-/

namespace ProjZ

open Ascii

/-- What `val_tmp_ptr` points to. -/
inductive ValTmp where
  | valTmp0
  | valTmp1
deriving DecidableEq, Repr

/-- The locals of `receiveI2c` and the three globals its loop writes. -/
structure Scan where
  i2cRet : I2cRet
  device : SDevice
  type : SType
  needFlags : Nat
  valTmp0 : Int
  valTmp1 : Int
  valTmpPtr : ValTmp
  tmpStr : List UInt8
deriving DecidableEq, Repr

/-- `String::toInt` (`atol`) on a string of digits: a 32-bit `long`, `0` for the
empty string. -/
def toInt (s : List UInt8) : Int := (Decimal.value s : Int).bmod 4294967296

/-- Below `LONG_MAX` a printed number is read back. -/
theorem toInt_decimal {n : Nat} (h : n ≤ 2147483647) : toInt (Decimal.decimal n) = n := by
  unfold toInt
  rw [Decimal.value_decimal]
  exact Int.bmod_eq_of_le (by omega) (by omega)

/-- The state before the loop: `device` and `type` keep their old values. -/
def Scan.start (device : SDevice) (type : SType) : Scan where
  i2cRet := .chN
  device := device
  type := type
  needFlags := 0
  valTmp0 := -1
  valTmp1 := -1
  valTmpPtr := .valTmp0
  tmpStr := []

/-- One iteration of `while (Wire.available())`. -/
def scanByte (st : Scan) (input : UInt8) : Scan :=
  -- blanks and control characters are skipped, and nothing is read behind an error
  if input ≤ 32 then st
  else if st.i2cRet = .chF then st
  else if st.needFlags = 0 then
    if toupper input = 'G'.toUInt8 then { st with i2cRet := .chG, needFlags := 1 }
    else if toupper input = 'S'.toUInt8 then { st with i2cRet := .chS, needFlags := 1 }
    else { st with i2cRet := .chF }
  else if st.needFlags = 1 then
    if toupper input = 'L'.toUInt8 then { st with device := .led, needFlags := 2 }
    else if toupper input = 'S'.toUInt8 then { st with device := .servo, needFlags := 2 }
    else { st with i2cRet := .chF }
  else if st.needFlags = 2 then
    if toupper input = 'E'.toUInt8 then { st with type := .en, needFlags := 3 }
    else if toupper input = 'P'.toUInt8 then { st with type := .pwm, needFlags := 3 }
    else if toupper input = 'X'.toUInt8 then { st with type := .pwmX, needFlags := 3 }
    else if toupper input = 'Y'.toUInt8 then { st with type := .pwmY, needFlags := 3 }
    else { st with i2cRet := .chF }
  else if st.needFlags = 3 then
    if isDigit input then { st with tmpStr := st.tmpStr ++ [input] }
    -- the first argument is stored at the comma, the other one behind the loop
    else if input = ','.toUInt8 then
      { st with
        valTmp0 := int16 (toInt st.tmpStr)
        needFlags := 4
        valTmpPtr := .valTmp1
        tmpStr := [] }
    else { st with i2cRet := .chF }
  else if st.needFlags = 4 then
    if isDigit input then { st with tmpStr := st.tmpStr ++ [input] }
    else { st with i2cRet := .chF }
  else { st with i2cRet := .chF }

/-- `*val_tmp_ptr = tmp_str.toInt()`. -/
def Scan.storeTmp (st : Scan) : Scan :=
  match st.valTmpPtr with
  | .valTmp0 => { st with valTmp0 := int16 (toInt st.tmpStr) }
  | .valTmp1 => { st with valTmp1 := int16 (toInt st.tmpStr) }

theorem Scan.storeTmp_needFlags (st : Scan) : st.storeTmp.needFlags = st.needFlags := by
  cases h : st.valTmpPtr <;> simp only [Scan.storeTmp, h]

/-- `SERVO_PULSE_MIN < v && v < SERVO_PULSE_MAX`. -/
def pulseOk (v : Int) : Prop := 500 < v ∧ v < 2400

instance (v : Int) : Decidable (pulseOk v) := inferInstanceAs (Decidable (_ ∧ _))

namespace Firmware

/-- `i2c_ret = 'F'`. -/
def fail (fw : Firmware) : Firmware := { fw with i2cRet := .chF }

/-- `led_en = v; digitalWrite(PIN_LED_EN, led_en)`. -/
def setLedEn (v : Int) (fw : Firmware) : Firmware :=
  { fw with regs.ledEn := v }.digitalWrite .ledEn (decide (v ≠ 0))

/-- `led_pwm = v; analogWrite(PIN_LED_PWM, led_pwm)`. -/
def setLedPwm (v : Int) (fw : Firmware) : Firmware :=
  { fw with regs.ledPwm := v }.analogWrite .ledPwm v

/-- `servo_en = v; digitalWrite(PIN_SERVO_EN, servo_en)`. -/
def setServoEn (v : Int) (fw : Firmware) : Firmware :=
  { fw with regs.servoEn := v }.digitalWrite .servoEn (decide (v ≠ 0))

/-- `servo_pwm_x = v; servo_x.writeMicroseconds(servo_pwm_x)`. -/
def setServoPwmX (v : Int) (fw : Firmware) : Firmware :=
  { fw with regs.servoPwmX := v }.analogWrite .servoX v

/-- `servo_pwm_y = v; servo_y.writeMicroseconds(servo_pwm_y)`. -/
def setServoPwmY (v : Int) (fw : Firmware) : Firmware :=
  { fw with regs.servoPwmY := v }.analogWrite .servoY v

/-- The branch `need_flags == 3`: one argument at most. -/
def executeOne (valTmp0 : Int) (fw : Firmware) : Firmware :=
  match fw.device, fw.type with
  | .led, .en =>
    -- a get command only says how many digits will be sent
    if fw.i2cRet = .chG then { fw with getBytesC := 1 }
    else if valTmp0 = 0 ∨ valTmp0 = 1 then fw.setLedEn valTmp0
    else fw.fail
  | .led, .pwm =>
    if fw.i2cRet = .chG then { fw with getBytesC := 3 }
    else if 0 ≤ valTmp0 ∧ valTmp0 ≤ 255 then fw.setLedPwm valTmp0
    else fw.fail
  | .led, _ => fw.fail
  | .servo, .en =>
    if fw.i2cRet = .chG then { fw with getBytesC := 1 }
    else if valTmp0 = 0 ∨ valTmp0 = 1 then fw.setServoEn valTmp0
    else fw.fail
  | .servo, .pwmX =>
    if fw.i2cRet = .chG then { fw with getBytesC := 4 }
    else if pulseOk valTmp0 then fw.setServoPwmX valTmp0
    else fw.fail
  | .servo, .pwmY =>
    if fw.i2cRet = .chG then { fw with getBytesC := 4 }
    else if pulseOk valTmp0 then fw.setServoPwmY valTmp0
    else fw.fail
  | .servo, .pwm => fw.fail

/-- The branch `need_flags == 4`: the two-axis servo command. The two arguments
are checked and applied one after the other; `-1` stands for an omitted one. -/
def executeTwo (valTmp0 valTmp1 : Int) (fw : Firmware) : Firmware :=
  if fw.device = .servo ∧ fw.type = .pwm ∧ fw.i2cRet = .chS then
    let fw :=
      if pulseOk valTmp0 then fw.setServoPwmX valTmp0
      else if valTmp0 ≠ -1 then fw.fail
      else fw
    -- the first axis may have been moved when the second is refused
    if pulseOk valTmp1 then fw.setServoPwmY valTmp1
    else if valTmp1 ≠ -1 then fw.fail
    else fw
  else fw.fail

/-- What follows the loop when no byte was rejected (atmega_com.ino:308–386). -/
def execute (st : Scan) (fw : Firmware) : Firmware :=
  let st := st.storeTmp
  if st.needFlags = 3 then fw.executeOne st.valTmp0
  else if st.needFlags = 4 then fw.executeTwo st.valTmp0 st.valTmp1
  else fw.fail

end Firmware

/-- `receiveI2c`, on the bytes `Wire` has buffered. -/
def receiveI2c (message : List UInt8) (fw : Firmware) : Firmware :=
  let st := message.foldl scanByte (Scan.start fw.device fw.type)
  let fw := { fw with i2cRet := st.i2cRet, device := st.device, type := st.type }
  if fw.i2cRet = .chF then fw else fw.execute st

end ProjZ
