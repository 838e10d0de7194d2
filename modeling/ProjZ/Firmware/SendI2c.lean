import Mathlib.Logic.Function.Iterate
import ProjZ.Firmware.State

/-!
# `sendI2c`: the firmware's replies, one byte per read

Each one-byte read of the I2C master runs `sendI2c` once (atmega_com.ino:389–465).
The reply is spread over the calls by `i2c_ret`: a get goes through `'G'`, `'D'`,
`'W'` and `'B'`, the last one repeated while `get_bytes_c` counts the digits
down; every reply ends in `'0'`, where `'\0'` is sent for ever.
-/

namespace ProjZ

/-- `num_divider = 1; for (i = 1; i < get_bytes_c; i ++) num_divider *= 10;` -/
def numDivider (getBytesC : Int) : Int :=
  (fun d => int16 (d * 10))^[(getBytesC - 1).toNat] 1

/-- The character `itoa(z, &ret_num, 10)` leaves in `ret_num`: the first one of
the numeral. Its arguments here are remainders modulo 10, so of one digit. -/
def itoa (z : Int) : UInt8 := if z < 0 then '-'.toUInt8 else Nat.toUInt8 (48 + z.toNat)

namespace Firmware

/-- The register the digit branch of `sendI2c` prints; `none` where it sets
`i2c_ret = '0'` and writes `'F'` instead. -/
def addressed (fw : Firmware) : Option Int :=
  match fw.device, fw.type with
  | .led, .en => some fw.regs.ledEn
  | .led, .pwm => some fw.regs.ledPwm
  | .led, _ => none
  | .servo, .en => some fw.regs.servoEn
  | .servo, .pwmX => some fw.regs.servoPwmX
  | .servo, .pwmY => some fw.regs.servoPwmY
  | .servo, .pwm => none

/-- The branch `i2c_ret == 'B'` of `sendI2c`. -/
def sendDigit (fw : Firmware) : UInt8 × Firmware :=
  let byte :=
    match fw.addressed with
    | some v => itoa ((v.tdiv (numDivider fw.getBytesC)).tmod 10)
    | none => 'F'.toUInt8
  let getBytesC := int16 (fw.getBytesC - 1)
  let i2cRet := if fw.addressed = none ∨ getBytesC = 0 then .ch0 else .chB
  (byte, { fw with i2cRet := i2cRet, getBytesC := getBytesC })

/-- `sendI2c`: the byte written to the bus and the state after the call. -/
def sendI2c (fw : Firmware) : UInt8 × Firmware :=
  match fw.i2cRet with
  | .chG => ('R'.toUInt8, { fw with i2cRet := .chD })
  | .chD =>
    (match fw.device with
      | .led => 'L'.toUInt8
      | .servo => 'S'.toUInt8, { fw with i2cRet := .chW })
  | .chW =>
    (match fw.type with
      | .en => 'E'.toUInt8
      | .pwm => 'P'.toUInt8
      | .pwmX => 'X'.toUInt8
      | .pwmY => 'Y'.toUInt8, { fw with i2cRet := .chB })
  | .chB => fw.sendDigit
  | .chS => ('T'.toUInt8, { fw with i2cRet := .ch0 })
  | .chF => ('F'.toUInt8, { fw with i2cRet := .ch0 })
  | .ch0 => (0, fw)
  -- the last `else`
  | .chN | .nul => ('F'.toUInt8, { fw with i2cRet := .ch0 })

/-- `sendI2c` takes one of its fallback branches: the last `else`, which answers
`'F'` to an unknown `i2c_ret`; the digit branch with a device and type that no
get selects; the digit branch with a counter that can no longer reach `0`. -/
def InFallback (fw : Firmware) : Prop :=
  fw.i2cRet = .nul ∨ fw.i2cRet = .chN ∨
    (fw.i2cRet = .chB ∧ (fw.addressed = none ∨ fw.getBytesC ≤ 0))

instance (fw : Firmware) : Decidable fw.InFallback := inferInstanceAs (Decidable (_ ∨ _))

end Firmware

end ProjZ
