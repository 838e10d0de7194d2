import ProjZ.Firmware.PollingTimer
import ProjZ.Firmware.Requests
import ProjZ.Firmware.SendI2c

/-!
# Registers and outputs

Each of the five registers stands for an output, and a get command is answered from
the register. This file says when the answer is what the device is doing:
`Firmware.panel` reads the registers off the outputs, and `Mirrors` says that the panel
agrees with the variables.

A message changes panel and registers alike (`receiveI2c_panel`), and `sendI2c` changes
neither. A tick has its own use for `PIN_INT_LED` and `PIN_MASTER_EN`, but the branch
of `supplyPresent` that ends the debouncing of a returned supply writes `PIN_LED_EN`
(`BlanksLed`): it turns the lamp off and leaves `led_en` as it is.
-/

namespace ProjZ

/-- A call of one of the three handlers. -/
inductive Firmware.Event where
  | receiveI2c (message : List UInt8)
  | sendI2c
  | pollingTimer (r : Readings)

namespace Firmware

/-- The state after a call. -/
def react (fw : Firmware) : Firmware.Event → Firmware
  | .receiveI2c message => ProjZ.receiveI2c message fw
  | .sendI2c => fw.sendI2c.2
  | .pollingTimer r => ProjZ.pollingTimer fw r

/-- The registers as the outputs show them: the levels last written. -/
def panel (fw : Firmware) : Regs where
  ledEn := (fw.digitalRead .ledEn).toInt
  ledPwm := (fw.analog .ledPwm).level
  servoEn := (fw.digitalRead .servoEn).toInt
  servoPwmX := (fw.analog .servoX).level
  servoPwmY := (fw.analog .servoY).level

/-- The outputs show the registers. -/
def Mirrors (fw : Firmware) : Prop := fw.panel = fw.regs

instance (fw : Firmware) : Decidable fw.Mirrors := inferInstanceAs (Decidable (_ = _))

end Firmware

/-- At power-up the outputs are those of the registers. -/
theorem mirrors_setup (vIn gpio0 : Bool) : (setup vIn gpio0).Mirrors := by
  cases vIn <;> cases gpio0 <;> decide

/-! ## Messages -/

/-- A register update shows on its output, and on no other. -/
theorem Reg.write_panel {r : Reg} {v : Int} (hv : r.Admits v) (fw : Firmware) :
    (r.write v fw).panel = r.store v fw.panel := by
  cases r with
  | ledEn | servoEn =>
    -- the pin is driven by a flag, so only `0` and `1` are shown
    rcases hv with rfl | rfl <;> rfl
  | ledPwm | servoPwmX | servoPwmY => rfl

/-- A pulse is written to the register and to its output, or to neither. -/
theorem Firmware.applyAxis_panel {r : Reg} (hr : r.Admits = pulseOk) (v : Int) (fw : Firmware) :
    (fw.applyAxis r v).panel = r.storeAxis v fw.panel := by
  unfold applyAxis Reg.storeAxis
  by_cases hv : pulseOk v
  · rw [if_pos hv, if_pos hv, Reg.write_panel (by rwa [hr])]
  · rw [if_neg hv, if_neg hv]
    split <;> rfl

/-- **Messages act on the outputs as they act on the registers.** -/
theorem receiveI2c_panel (m : List UInt8) (fw : Firmware) :
    (receiveI2c m fw).panel = effect m fw.panel := by
  unfold effect
  match h : parse m with
  | none =>
    obtain ⟨d, t, hrec⟩ := receiveI2c_none h fw
    rw [hrec]
    rfl
  | some (.get r) =>
    rw [receiveI2c_get h]
    rfl
  | some (.set r v) =>
    rw [receiveI2c_set h]
    by_cases hv : r.Admits v
    · rw [if_pos hv, Reg.write_panel hv]
      exact (if_pos hv).symm
    · rw [if_neg hv]
      exact (if_neg hv).symm
  | some (.setXY x y) =>
    rw [receiveI2c_setXY h, Firmware.applyAxis_panel rfl, Firmware.applyAxis_panel rfl]
    rfl

/-- A message keeps the mirror. -/
theorem Firmware.Mirrors.receiveI2c {fw : Firmware} (h : fw.Mirrors) (m : List UInt8) :
    (receiveI2c m fw).Mirrors := by
  unfold Firmware.Mirrors
  rw [receiveI2c_panel, receiveI2c_regs, h]

/-! ## Reads and ticks -/

namespace Firmware

/-- The variables and the outputs together, to be left alone by most of the code. -/
def front (fw : Firmware) : Regs × Regs := (fw.regs, fw.panel)

/-- The mirror is about registers and outputs only. -/
theorem mirrors_of_front {fw fw' : Firmware} (h : fw'.front = fw.front) :
    fw'.Mirrors ↔ fw.Mirrors := by
  have hregs : fw'.regs = fw.regs := congrArg Prod.fst h
  have hpanel : fw'.panel = fw.panel := congrArg Prod.snd h
  unfold Mirrors
  rw [hregs, hpanel]

/-- Most pieces of the code leave both alone. -/
theorem sendI2c_front (fw : Firmware) : fw.sendI2c.2.front = fw.front := by
  unfold sendI2c
  split <;> rfl

theorem leaveFlash_front (fw : Firmware) : fw.leaveFlash.front = fw.front := by
  unfold leaveFlash
  split <;> rfl

theorem enterFlash_front (fw : Firmware) : fw.enterFlash.front = fw.front := by
  unfold enterFlash
  split <;> rfl

theorem blink_front (fw : Firmware) : fw.blink.front = fw.front := by
  unfold blink
  dsimp only
  split
  · rfl
  · split <;> rfl

theorem supplyLost_front (fw : Firmware) : fw.supplyLost.front = fw.front := by
  rw [← enterFlash_front fw]
  unfold supplyLost
  dsimp only
  split
  · rfl
  · split
    · rfl
    · exact blink_front _

/-- The tick that reaches `digitalWrite(PIN_LED_EN, LOW)`: the third one with the supply
present since it was away. -/
def BlanksLed (fw : Firmware) (r : Readings) : Prop :=
  r.host12V = true ∧ fw.poll.flashMode = false ∧ fw.poll.confirm = 2

instance (fw : Firmware) (r : Readings) : Decidable (fw.BlanksLed r) :=
  inferInstanceAs (Decidable (_ ∧ _ ∧ _))

/-- `flash_mode` is left with `confirm = 0`, so not in the tick that blanks the lamp. -/
theorem leaveFlash_confirm (fw : Firmware) :
    fw.leaveFlash.poll.confirm = 2 ↔ fw.poll.flashMode = false ∧ fw.poll.confirm = 2 := by
  unfold leaveFlash
  cases h : fw.poll.flashMode with
  | true => simp
  | false => simp

/-- The one that does not: the lamp is blanked, and its register stays. -/
theorem supplyPresent_front (fw : Firmware) :
    fw.supplyPresent.front =
      if fw.poll.flashMode = false ∧ fw.poll.confirm = 2 then
        (fw.regs, Reg.ledEn.store 0 fw.panel)
      else fw.front := by
  unfold supplyPresent
  dsimp only
  by_cases h : fw.leaveFlash.poll.confirm = 2
  · rw [if_pos h, if_pos (fw.leaveFlash_confirm.mp h)]
    have hregs : fw.leaveFlash.regs = fw.regs := congrArg Prod.fst (leaveFlash_front fw)
    have hpanel : fw.leaveFlash.panel = fw.panel := congrArg Prod.snd (leaveFlash_front fw)
    rw [← hregs, ← hpanel]
    rfl
  · rw [if_neg h, if_neg (fun h' => h (fw.leaveFlash_confirm.mpr h')), ← leaveFlash_front fw]
    split <;> rfl

/-- It does so in this reading, -/
theorem pollSupply_front (r : Readings) (fw : Firmware) :
    (fw.pollSupply r).front =
      if fw.BlanksLed r then (fw.regs, Reg.ledEn.store 0 fw.panel) else fw.front := by
  unfold pollSupply
  dsimp only
  by_cases h : r.host12V = true
  · have hblank : fw.BlanksLed r ↔ fw.poll.flashMode = false ∧ fw.poll.confirm = 2 :=
      and_iff_right h
    rw [if_pos h, supplyPresent_front]
    simp only [hblank]
    rfl
  · rw [if_neg h, supplyLost_front, if_neg (fun hb : fw.BlanksLed r => h hb.1)]
    rfl

theorem samplePower_front (r : Readings) (fw : Firmware) :
    (fw.samplePower r).front = fw.front := by
  unfold samplePower
  dsimp only
  split
  · split <;> rfl
  · rfl

/-- The power half drives `PIN_MASTER_EN` and `PIN_INT_LED` only. -/
theorem decidePower_front (fw : Firmware) : fw.decidePower.front = fw.front := by
  unfold decidePower risingEdge buttonReleased buttonHeld
  dsimp only
  repeat' split
  all_goals rfl

/-- and the other half of the tick never. -/
theorem pollPower_front (r : Readings) (fw : Firmware) : (fw.pollPower r).front = fw.front := by
  show (fw.samplePower r).decidePower.front = _
  rw [decidePower_front, samplePower_front]

/-- **What a tick does to the registers and their outputs.** -/
theorem pollingTimer_front (fw : Firmware) (r : Readings) :
    (pollingTimer fw r).front =
      if fw.BlanksLed r then (fw.regs, Reg.ledEn.store 0 fw.panel) else fw.front := by
  rw [← pollSupply_front]
  unfold pollingTimer
  dsimp only
  split
  · exact pollPower_front r _
  · rfl

/-- A tick that blanks the lamp is right about it only when `led_en` is 0. -/
theorem Mirrors.pollingTimer_iff {fw : Firmware} (h : fw.Mirrors) (r : Readings) :
    (ProjZ.pollingTimer fw r).Mirrors ↔ ¬ (fw.BlanksLed r ∧ fw.regs.ledEn ≠ 0) := by
  have hfront := pollingTimer_front fw r
  by_cases hb : fw.BlanksLed r
  · rw [if_pos hb] at hfront
    have hregs : (ProjZ.pollingTimer fw r).regs = fw.regs := congrArg Prod.fst hfront
    have hpanel : (ProjZ.pollingTimer fw r).panel = Reg.ledEn.store 0 fw.panel :=
      congrArg Prod.snd hfront
    unfold Mirrors
    rw [hregs, hpanel, h]
    constructor
    · rintro heq ⟨-, hne⟩
      exact hne (congrArg Regs.ledEn heq).symm
    · intro hnot
      have hled : fw.regs.ledEn = 0 := by
        by_contra hne
        exact hnot ⟨hb, hne⟩
      show { fw.regs with ledEn := 0 } = fw.regs
      rw [← hled]
  · rw [if_neg hb] at hfront
    rw [mirrors_of_front hfront]
    constructor
    · rintro - ⟨hb', -⟩
      exact hb hb'
    · intro _
      exact h

/-- What a call has to be for the outputs to go on showing the registers. -/
def KeepsMirror (fw : Firmware) : Firmware.Event → Prop
  | .receiveI2c _ | .sendI2c => True
  | .pollingTimer r => ¬ (fw.BlanksLed r ∧ fw.regs.ledEn ≠ 0)

/-- **One call breaks the mirror, or keeps it.** -/
theorem Mirrors.react_iff {fw : Firmware} (h : fw.Mirrors) (e : Firmware.Event) :
    (fw.react e).Mirrors ↔ fw.KeepsMirror e := by
  cases e with
  | receiveI2c m => exact iff_true_intro (h.receiveI2c m)
  | sendI2c => exact iff_true_intro ((mirrors_of_front fw.sendI2c_front).mpr h)
  | pollingTimer r => exact h.pollingTimer_iff r

end Firmware

/-- **When the registers mirror the hardware.** Along a run of handler calls from `setup`, in
any order, every output shows its register in every state passed exactly when no tick ends
the debouncing of a returned supply while `led_en` is set. -/
theorem mirrors_run_iff (vIn gpio0 : Bool) (es : List Firmware.Event) :
    (∀ pre suf, es = pre ++ suf →
      (Runs.run Firmware.react (setup vIn gpio0) pre).Mirrors) ↔
    ∀ pre r suf, es = pre ++ .pollingTimer r :: suf →
      ¬ ((Runs.run Firmware.react (setup vIn gpio0) pre).BlanksLed r ∧
        (Runs.run Firmware.react (setup vIn gpio0) pre).regs.ledEn ≠ 0) := by
  rw [Runs.run_always_iff (mirrors_setup vIn gpio0) fun e fw h => h.react_iff e]
  constructor
  · intro h pre r suf hsplit
    exact h pre (.pollingTimer r) suf hsplit
  · intro h pre e suf hsplit
    cases e with
    | receiveI2c _ | sendI2c => trivial
    | pollingTimer r => exact h pre r suf hsplit

/-- The lamp is switched on, the supply goes away for a tick and comes back for three: the
lamp is off and `led_en` is still set. -/
theorem mirrors_run_blanked :
    ¬ ∀ (vIn gpio0 : Bool) (es : List Firmware.Event),
      (Runs.run Firmware.react (setup vIn gpio0) es).Mirrors := by
  intro h
  have hlast := h true false
    [.receiveI2c (Ascii.bytes ['S', 'L', 'E', '1']),
      .pollingTimer ⟨false, true, false, false, false⟩,
      .pollingTimer ⟨true, true, false, false, false⟩,
      .pollingTimer ⟨true, true, false, false, false⟩,
      .pollingTimer ⟨true, true, false, false, false⟩]
  revert hlast
  decide +kernel

end ProjZ
