import ProjZ.Firmware.State
import ProjZ.Lib.Runs

/-!
# `pollingTimer`: supply supervision and the power button

The timer callback, run every 125 ms (atmega_com.ino:134–218). Its first half
watches the 12 V supply and keeps `flash_mode`; its second half, skipped in flash
mode, is the power state machine: it follows `GPIO_0` and `GPIO_1` of the host and
the power button, and drives `PIN_MASTER_EN`.

`Firmware.power` keeps the part of the state the second half depends on, and
`pollingTimer_power` says that a tick acts on it as the small machine
`Power.step`, or not at all without the supply.
-/

namespace ProjZ

/-- The levels a tick reads. `GPIO_0` is read a second time when the first read was
low. The button has a pull-up: `true` is released. -/
structure Readings where
  host12V : Bool
  btnPwr : Bool
  gpio0 : Bool
  gpio0Again : Bool
  gpio1 : Bool
deriving DecidableEq, Repr

namespace Firmware

/-- The supply is back: `flash_mode` is left. -/
def leaveFlash (fw : Firmware) : Firmware :=
  if fw.poll.flashMode then { fw with poll.confirm := 0, poll.flashMode := false } else fw

/-- The supply is gone: `flash_mode` is entered. -/
def enterFlash (fw : Firmware) : Firmware :=
  if fw.poll.flashMode = false then { fw with poll.confirm := 1, poll.flashMode := true }
  else fw

/-- `PIN_INT_LED` changes every eight ticks. -/
def blink (fw : Firmware) : Firmware :=
  let fw :=
    if fw.poll.ledState % 16 = 0 then
      { fw.digitalWrite .intLed true with poll := { fw.poll with ledState := 0 } }
    else if fw.poll.ledState % 8 = 0 then fw.digitalWrite .intLed false
    else fw
  { fw with poll.ledState := fw.poll.ledState + 1 }

/-- The branch `v_in == HIGH`. -/
def supplyPresent (fw : Firmware) : Firmware :=
  let fw := fw.leaveFlash
  if fw.poll.confirm = 2 then
    { fw.digitalWrite .ledEn false with poll := { fw.poll with ledState := 0, confirm := 3 } }
  else if fw.poll.confirm < 2 then { fw with poll.confirm := fw.poll.confirm + 1 }
  else fw

/-- The branch `v_in == LOW`. -/
def supplyLost (fw : Firmware) : Firmware :=
  let fw := fw.enterFlash
  if fw.poll.confirm = 2 then
    { fw.digitalWrite .intLed true with poll := { fw.poll with ledState := 0, confirm := 3 } }
  else if fw.poll.confirm < 2 then { fw with poll.confirm := fw.poll.confirm + 1 }
  else fw.blink

/-- The first half of `pollingTimer`: `flash_mode` and the indicator LEDs. -/
def pollSupply (r : Readings) (fw : Firmware) : Firmware :=
  let fw := { fw with poll.vIn := r.host12V }
  if fw.poll.vIn then fw.supplyPresent else fw.supplyLost

/-- The reads that open the second half. -/
def samplePower (r : Readings) (fw : Firmware) : Firmware :=
  let fw := { fw with poll.pwrState := r.gpio0, poll.btnState := r.btnPwr }
  if fw.poll.pwrState = false then
    let fw := { fw with poll.isRebootTry := r.gpio1, poll.pwrState := r.gpio0Again }
    if fw.poll.pwrState = false then { fw with poll.isReboot := fw.poll.isRebootTry } else fw
  else fw

/-- `digitalWrite(PIN_MASTER_EN, master_en); digitalWrite(PIN_INT_LED, master_en)`. -/
def driveMaster (fw : Firmware) : Firmware :=
  (fw.digitalWrite .masterEn fw.masterEn).digitalWrite .intLed fw.masterEn

/-- The branch `pwr_state == 1 && pwr_last == 0`: the host shut down or reboots. -/
def risingEdge (fw : Firmware) : Firmware :=
  let fw := if fw.poll.isReboot = false then { fw with masterEn := false } else fw
  { fw with poll.isReboot := false }

/-- The branch `btn_state == 1`. -/
def buttonReleased (fw : Firmware) : Firmware :=
  let fw :=
    if 1 < fw.poll.counter ∧ fw.poll.counter < 40 then
      let fw := { fw with masterEn := fw.digitalRead .masterEn }
      -- the source's `pwr_state == 1;` in this branch has no effect
      if fw.masterEn = false then { fw with masterEn := true } else fw
    else fw
  let fw := fw.driveMaster
  { fw with poll.counter := 0 }

/-- The last branch: the button is held. -/
def buttonHeld (fw : Firmware) : Firmware :=
  let fw := { fw with poll.counter := fw.poll.counter + 1 }
  if 40 < fw.poll.counter then
    { fw with poll.counter := 40, masterEn := false }.driveMaster
  else if 23 < fw.poll.counter then
    fw.digitalWrite .intLed (decide (fw.poll.counter % 2 ≠ 0))
  else fw

/-- The three branches over `pwr_state`, `pwr_last` and `btn_state`. -/
def decidePower (fw : Firmware) : Firmware :=
  if fw.poll.pwrState = true ∧ fw.poll.pwrLast = false then fw.risingEdge
  else if fw.poll.btnState then fw.buttonReleased
  else fw.buttonHeld

/-- The second half of `pollingTimer`. -/
def pollPower (r : Readings) (fw : Firmware) : Firmware :=
  let fw := (fw.samplePower r).decidePower
  { fw with poll.pwrLast := fw.poll.pwrState }

end Firmware

/-- `pollingTimer`. -/
def pollingTimer (fw : Firmware) (r : Readings) : Firmware :=
  let fw := fw.pollSupply r
  if fw.poll.flashMode = false then fw.pollPower r else fw

/-! ## The power machine -/

/-- What decides over the host's power: `master_en`, the level of `PIN_MASTER_EN`
and the number of writes to it, and the locals that remember earlier ticks. -/
structure Power where
  masterEn : Bool
  pin : Bool
  writes : Nat
  pwrLast : Bool
  isReboot : Bool
  counter : Nat
deriving DecidableEq, Repr

/-- `GPIO_0` counts as high unless both reads are low. -/
def Readings.hostHigh (r : Readings) : Bool := r.gpio0 || r.gpio0Again

namespace Power

/-- `PIN_MASTER_EN` is driven to `v`, and `master_en` with it. -/
def drive (v : Bool) (p : Power) : Power :=
  { p with masterEn := v, pin := v, writes := p.writes + 1 }

/-- `is_reboot` takes the `GPIO_1` sample when `GPIO_0` is confirmed low. -/
def sample (r : Readings) (p : Power) : Power :=
  { p with isReboot := if r.hostHigh then p.isReboot else r.gpio1 }

/-- The host's level went from low to high. -/
def rising (r : Readings) (p : Power) : Bool := r.hostHigh && !p.pwrLast

/-- The branches of the second half. A release after a short press always ends with
the power on: the level read back from the pin is only used when it is `HIGH`. -/
def act (r : Readings) (p : Power) : Power :=
  if p.rising r then { p with masterEn := p.masterEn && p.isReboot, isReboot := false }
  else if r.btnPwr then
    { p.drive (p.masterEn || (decide (1 < p.counter) && decide (p.counter < 40))) with
      counter := 0 }
  else if 40 < p.counter + 1 then { p.drive false with counter := 40 }
  else { p with counter := p.counter + 1 }

/-- A tick with the supply present. -/
def step (p : Power) (r : Readings) : Power :=
  { (p.sample r).act r with pwrLast := r.hostHigh }

end Power

/-- The power machine's state inside the firmware's. -/
def Firmware.power (fw : Firmware) : Power where
  masterEn := fw.masterEn
  pin := fw.digitalRead .masterEn
  writes := fw.writes .masterEn
  pwrLast := fw.poll.pwrLast
  isReboot := fw.poll.isReboot
  counter := fw.poll.counter

/-! ### The first half leaves the machine alone -/

namespace Firmware

/-- The lamp and the host's power do not share a variable. -/
theorem leaveFlash_power (fw : Firmware) : fw.leaveFlash.power = fw.power := by
  unfold leaveFlash
  split <;> rfl

theorem leaveFlash_flashMode (fw : Firmware) : fw.leaveFlash.poll.flashMode = false := by
  unfold leaveFlash
  split
  · rfl
  · next h => simpa using h

theorem enterFlash_power (fw : Firmware) : fw.enterFlash.power = fw.power := by
  unfold enterFlash
  split <;> rfl

theorem enterFlash_flashMode (fw : Firmware) : fw.enterFlash.poll.flashMode = true := by
  unfold enterFlash
  split
  · rfl
  · next h => simpa using h

theorem blink_power (fw : Firmware) : fw.blink.power = fw.power := by
  unfold blink
  dsimp only
  split
  · rfl
  · split <;> rfl

theorem blink_flashMode (fw : Firmware) : fw.blink.poll.flashMode = fw.poll.flashMode := by
  unfold blink
  dsimp only
  split
  · rfl
  · split <;> rfl

theorem supplyPresent_power (fw : Firmware) : fw.supplyPresent.power = fw.power := by
  rw [← leaveFlash_power fw]
  unfold supplyPresent
  dsimp only
  split
  · rfl
  · split <;> rfl

theorem supplyPresent_flashMode (fw : Firmware) :
    fw.supplyPresent.poll.flashMode = false := by
  rw [← leaveFlash_flashMode fw]
  unfold supplyPresent
  dsimp only
  split
  · rfl
  · split <;> rfl

theorem supplyLost_power (fw : Firmware) : fw.supplyLost.power = fw.power := by
  rw [← enterFlash_power fw]
  unfold supplyLost
  dsimp only
  split
  · rfl
  · split
    · rfl
    · exact blink_power _

theorem supplyLost_flashMode (fw : Firmware) : fw.supplyLost.poll.flashMode = true := by
  rw [← enterFlash_flashMode fw]
  unfold supplyLost
  dsimp only
  split
  · rfl
  · split
    · rfl
    · exact blink_flashMode _

/-- The first half of a tick does not decide over the power. -/
theorem pollSupply_power (r : Readings) (fw : Firmware) :
    (fw.pollSupply r).power = fw.power := by
  unfold pollSupply
  dsimp only
  split
  · exact supplyPresent_power _
  · exact supplyLost_power _

/-- `flash_mode` follows the supply on the same tick. -/
theorem pollSupply_flashMode (r : Readings) (fw : Firmware) :
    (fw.pollSupply r).poll.flashMode = !r.host12V := by
  unfold pollSupply
  dsimp only
  cases r.host12V with
  | true => exact supplyPresent_flashMode _
  | false => exact supplyLost_flashMode _

/-! ### The second half is the machine -/

/-- The second half samples, -/
theorem samplePower_power (r : Readings) (fw : Firmware) :
    (fw.samplePower r).power = fw.power.sample r := by
  cases h0 : r.gpio0 <;> cases h1 : r.gpio0Again <;>
    simp [samplePower, power, Power.sample, Readings.hostHigh, digitalRead, writes, h0, h1]

theorem samplePower_pwrState (r : Readings) (fw : Firmware) :
    (fw.samplePower r).poll.pwrState = r.hostHigh := by
  cases h0 : r.gpio0 <;> cases h1 : r.gpio0Again <;>
    simp [samplePower, Readings.hostHigh, h0, h1]

theorem samplePower_btnState (r : Readings) (fw : Firmware) :
    (fw.samplePower r).poll.btnState = r.btnPwr := by
  cases h0 : r.gpio0 <;> cases h1 : r.gpio0Again <;> simp [samplePower, h0, h1]

/-- The branches of the action: the host has come up, -/
theorem risingEdge_power (fw : Firmware) :
    fw.risingEdge.power =
      { fw.power with masterEn := fw.masterEn && fw.poll.isReboot, isReboot := false } := by
  cases h : fw.poll.isReboot <;> simp [risingEdge, power, digitalRead, writes, h]

/-- the button was released, -/
theorem buttonReleased_power (fw : Firmware) :
    fw.buttonReleased.power =
      { fw.power.drive (fw.masterEn ||
          (decide (1 < fw.poll.counter) && decide (fw.poll.counter < 40))) with
        counter := 0 } := by
  unfold buttonReleased
  by_cases h : 1 < fw.poll.counter ∧ fw.poll.counter < 40
  · -- the level read back is `HIGH`, or it is replaced by `1`
    have hcond : (decide (1 < fw.poll.counter) && decide (fw.poll.counter < 40)) = true := by
      simp [h.1, h.2]
    rw [hcond, Bool.or_true]
    simp only [if_pos h]
    cases hpin : fw.digitalRead .masterEn <;> rfl
  · have hcond : (decide (1 < fw.poll.counter) && decide (fw.poll.counter < 40)) = false := by
      simpa using h
    rw [hcond, Bool.or_false]
    simp only [if_neg h]
    rfl

/-- or it is held. -/
theorem buttonHeld_power (fw : Firmware) :
    fw.buttonHeld.power =
      if 40 < fw.poll.counter + 1 then { fw.power.drive false with counter := 40 }
      else { fw.power with counter := fw.poll.counter + 1 } := by
  unfold buttonHeld
  dsimp only
  split
  · rfl
  · split <;> rfl

/-- The branches neither read nor write `pwr_state` again. -/
theorem decidePower_pwrState (fw : Firmware) :
    fw.decidePower.poll.pwrState = fw.poll.pwrState := by
  unfold decidePower risingEdge buttonReleased buttonHeld
  dsimp only
  repeat' split
  all_goals rfl

/-- acts on the sample, -/
theorem decidePower_power {fw : Firmware} {r : Readings}
    (hstate : fw.poll.pwrState = r.hostHigh) (hbtn : fw.poll.btnState = r.btnPwr) :
    fw.decidePower.power = fw.power.act r := by
  have hrising : fw.power.rising r = true ↔ r.hostHigh = true ∧ fw.poll.pwrLast = false := by
    simp [Power.rising, power]
  unfold decidePower Power.act
  rw [hstate, hbtn]
  by_cases hedge : r.hostHigh = true ∧ fw.poll.pwrLast = false
  · rw [if_pos hedge, if_pos (hrising.mpr hedge), risingEdge_power]
    rfl
  · rw [if_neg hedge, if_neg (fun h => hedge (hrising.mp h))]
    by_cases hrel : r.btnPwr = true
    · rw [if_pos hrel, if_pos hrel, buttonReleased_power]
      rfl
    · rw [if_neg hrel, if_neg hrel, buttonHeld_power]
      rfl

/-- and so makes one step of the power machine. -/
theorem pollPower_power (r : Readings) (fw : Firmware) :
    (fw.pollPower r).power = fw.power.step r := by
  have hstate := samplePower_pwrState r fw
  have hlatch : (fw.pollPower r).power =
      { (fw.samplePower r).decidePower.power with
        pwrLast := (fw.samplePower r).decidePower.poll.pwrState } := rfl
  rw [hlatch, decidePower_power hstate (samplePower_btnState r fw), decidePower_pwrState,
    hstate, samplePower_power]
  rfl

end Firmware

/-- **A tick is a step of the power machine**, or none without the supply. -/
theorem pollingTimer_power (fw : Firmware) (r : Readings) :
    (pollingTimer fw r).power = if r.host12V then fw.power.step r else fw.power := by
  unfold pollingTimer
  dsimp only
  rw [Firmware.pollSupply_flashMode]
  cases r.host12V with
  | true =>
    rw [if_pos rfl, if_pos (by decide), Firmware.pollPower_power, Firmware.pollSupply_power]
  | false =>
    rw [if_neg (by decide), if_neg (by decide), Firmware.pollSupply_power]

end ProjZ
