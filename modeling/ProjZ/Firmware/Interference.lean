import ProjZ.Firmware.Mirror
import ProjZ.Firmware.PowerHistory
import ProjZ.Firmware.ReplyProtocol

/-!
# Messages and ticks do not interfere

The handlers of the firmware share its variables. In any order of calls, what the I2C master
reads depends on the messages and the reads alone, and what decides over the host's power on
the ticks alone (`separate`): the facts about runs of messages and those about runs of
ticks hold in every interleaving of the two. Whatever is called, the outputs stay within
the ranges of their registers (`outputs_inRange`).
-/

namespace ProjZ

/-- One tick, as the power machine sees it. -/
def Power.tick (p : Power) (r : Readings) : Power := if r.host12V then p.step r else p

namespace Firmware

/-! ## What a tick may write -/

/-- All that differs is `master_en`, the locals of `pollingTimer` and the levels of pins. -/
def TickOnly (fw fw' : Firmware) : Prop :=
  ∃ masterEn poll digital, fw' = { fw with masterEn := masterEn, poll := poll, digital := digital }

/-- A tick may leave everything as it is. -/
theorem TickOnly.refl (fw : Firmware) : fw.TickOnly fw := ⟨_, _, _, rfl⟩

theorem TickOnly.trans {fw fw' fw'' : Firmware} (h : fw.TickOnly fw') (h' : fw'.TickOnly fw'') :
    fw.TickOnly fw'' := by
  obtain ⟨_, _, _, rfl⟩ := h
  obtain ⟨_, _, _, rfl⟩ := h'
  exact ⟨_, _, _, rfl⟩

/-- The parts of a tick, from the innermost on. -/
theorem tickOnly_blink (fw : Firmware) : fw.TickOnly fw.blink := by
  unfold blink
  dsimp only
  split
  · exact ⟨_, _, _, rfl⟩
  · split <;> exact ⟨_, _, _, rfl⟩

theorem tickOnly_supplyPresent (fw : Firmware) : fw.TickOnly fw.supplyPresent := by
  have hleave : fw.TickOnly fw.leaveFlash := by
    unfold leaveFlash
    split <;> exact ⟨_, _, _, rfl⟩
  refine hleave.trans ?_
  unfold supplyPresent
  dsimp only
  split
  · exact ⟨_, _, _, rfl⟩
  · split <;> exact ⟨_, _, _, rfl⟩

theorem tickOnly_supplyLost (fw : Firmware) : fw.TickOnly fw.supplyLost := by
  have henter : fw.TickOnly fw.enterFlash := by
    unfold enterFlash
    split <;> exact ⟨_, _, _, rfl⟩
  refine henter.trans ?_
  unfold supplyLost
  dsimp only
  split
  · exact ⟨_, _, _, rfl⟩
  · split
    · exact ⟨_, _, _, rfl⟩
    · exact tickOnly_blink _

/-- The two halves of a tick, -/
theorem tickOnly_pollSupply (r : Readings) (fw : Firmware) : fw.TickOnly (fw.pollSupply r) := by
  have hread : fw.TickOnly { fw with poll.vIn := r.host12V } := ⟨_, _, _, rfl⟩
  refine hread.trans ?_
  unfold pollSupply
  dsimp only
  split
  · exact tickOnly_supplyPresent _
  · exact tickOnly_supplyLost _

theorem tickOnly_samplePower (r : Readings) (fw : Firmware) : fw.TickOnly (fw.samplePower r) := by
  unfold samplePower
  dsimp only
  split
  · split <;> exact ⟨_, _, _, rfl⟩
  · exact ⟨_, _, _, rfl⟩

theorem tickOnly_decidePower (fw : Firmware) : fw.TickOnly fw.decidePower := by
  unfold decidePower
  split
  · unfold risingEdge
    dsimp only
    split <;> exact ⟨_, _, _, rfl⟩
  · split
    · unfold buttonReleased
      dsimp only
      split
      · split <;> exact ⟨_, _, _, rfl⟩
      · exact ⟨_, _, _, rfl⟩
    · unfold buttonHeld
      dsimp only
      split
      · exact ⟨_, _, _, rfl⟩
      · split <;> exact ⟨_, _, _, rfl⟩

theorem tickOnly_pollPower (r : Readings) (fw : Firmware) : fw.TickOnly (fw.pollPower r) := by
  have hlatch : ∀ fw : Firmware, fw.TickOnly { fw with poll.pwrLast := fw.poll.pwrState } :=
    fun _ => ⟨_, _, _, rfl⟩
  exact ((tickOnly_samplePower r fw).trans (tickOnly_decidePower _)).trans (hlatch _)

/-- and a whole tick. -/
theorem tickOnly_pollingTimer (fw : Firmware) (r : Readings) :
    fw.TickOnly (pollingTimer fw r) := by
  refine (tickOnly_pollSupply r fw).trans ?_
  unfold pollingTimer
  dsimp only
  split
  · exact tickOnly_pollPower r _
  · exact .refl _

/-- The I2C slave does not see a tick. -/
theorem TickOnly.box {fw fw' : Firmware} (h : fw.TickOnly fw') : fw'.box = fw.box := by
  obtain ⟨_, _, _, rfl⟩ := h
  rfl

/-- The invariant of the reply is about what a tick leaves alone. -/
theorem TickOnly.replyOk {fw fw' : Firmware} (h : fw.TickOnly fw') (hok : ReplyOk fw) :
    ReplyOk fw' := by
  obtain ⟨_, _, _, rfl⟩ := h
  exact ⟨hok.inRange, hok.ne_chN, fun hs =>
    let ⟨r, hr⟩ := hok.sending hs
    ⟨r, hr.device, hr.type, hr.pos, hr.le⟩⟩

/-! ## What a message may write -/

/-- A register is not part of the power machine. -/
theorem write_power (r : Reg) (v : Int) (fw : Firmware) : (r.write v fw).power = fw.power := by
  cases r <;> rfl

theorem applyAxis_power (r : Reg) (v : Int) (fw : Firmware) :
    (fw.applyAxis r v).power = fw.power := by
  unfold applyAxis
  split
  · exact write_power r v fw
  · split <;> rfl

/-- The power machine does not see a message. -/
theorem receiveI2c_power (m : List UInt8) (fw : Firmware) :
    (ProjZ.receiveI2c m fw).power = fw.power := by
  match h : parse m with
  | none =>
    obtain ⟨d, t, hrec⟩ := receiveI2c_none h fw
    rw [hrec]
    rfl
  | some (.get r) =>
    rw [receiveI2c_get h]
    rfl
  | some (.set r v) =>
    rw [receiveI2c_set h]
    split
    · exact write_power r v _
    · rfl
  | some (.setXY x y) =>
    rw [receiveI2c_setXY h, applyAxis_power, applyAxis_power]
    rfl

/-- Nor a read. -/
theorem sendI2c_power (fw : Firmware) : fw.sendI2c.2.power = fw.power := by
  unfold sendI2c
  split <;> rfl

/-! ## Runs -/

/-- A call, with the byte that a read sends. -/
def call (fw : Firmware) (e : Firmware.Event) : Firmware × List UInt8 :=
  (fw.react e, match e with
    | .sendI2c => [fw.sendI2c.1]
    | _ => [])

/-- The operation of the I2C slave in a call. -/
def Event.transfer : Firmware.Event → Option (Mailbox.Call (List UInt8))
  | .receiveI2c m => some (.post m)
  | .sendI2c => some .read
  | .pollingTimer _ => none

/-- The tick in a call. -/
def Event.tick : Firmware.Event → Option Readings
  | .receiveI2c _ | .sendI2c => none
  | .pollingTimer r => some r

/-- Every call keeps the invariant of the reply. -/
theorem replyOk_react {fw : Firmware} (h : ReplyOk fw) (e : Firmware.Event) :
    ReplyOk (fw.react e) := by
  cases e with
  | receiveI2c m => exact h.receiveI2c m
  | sendI2c => exact h.sendI2c
  | pollingTimer r => exact (tickOnly_pollingTimer fw r).replyOk h

/-- What the I2C slave is and sends, without the ticks. -/
theorem call_box {fw : Firmware} (h : ReplyOk fw) (es : List Firmware.Event) :
    (Runs.final call fw es).box =
        (Runs.final i2cSlave.act fw (es.filterMap Event.transfer)).box ∧
      Runs.outputs call fw es =
        Runs.outputs i2cSlave.act fw (es.filterMap Event.transfer) := by
  obtain ⟨hbox, hout⟩ := i2cSlave_refines.outputs_act h (es.filterMap Event.transfer)
  rw [hbox, hout]
  refine Runs.outputs_view call i2cSpec.box.act box Event.transfer (P := ReplyOk)
    (fun e fw hfw => replyOk_react hfw e) ?_ ?_ h es
  · intro e fw _ he
    cases e with
    | pollingTimer r => exact ⟨(tickOnly_pollingTimer fw r).box, rfl⟩
    | _ => cases he
  · intro e c fw hfw he
    cases e with
    | receiveI2c m =>
      cases he
      exact (i2cSlave_refines.act hfw (.post m)).2
    | sendI2c =>
      cases he
      exact (i2cSlave_refines.act hfw .read).2
    | pollingTimer r => cases he

/-- Ticks act on the power machine as on a machine of its own. -/
theorem pollingTimer_run_power (fw : Firmware) (rs : List Readings) :
    (Runs.run ProjZ.pollingTimer fw rs).power = Runs.run Power.tick fw.power rs := by
  have hview := Runs.run_view ProjZ.pollingTimer Power.tick power some (fun _ _ hr => nomatch hr)
    (fun r _ fw hr => Option.some.inj hr ▸ pollingTimer_power fw r) fw rs
  rwa [List.filterMap_some] at hview

/-- The power machine, without the messages and reads. -/
theorem react_power (fw : Firmware) (es : List Firmware.Event) :
    (Runs.run react fw es).power =
      (Runs.run ProjZ.pollingTimer fw (es.filterMap Event.tick)).power := by
  rw [pollingTimer_run_power]
  refine Runs.run_view react Power.tick power Event.tick ?_ ?_ fw es
  · intro e fw he
    cases e with
    | receiveI2c m => exact receiveI2c_power m fw
    | sendI2c => exact sendI2c_power fw
    | pollingTimer r => cases he
  · intro e r fw he
    cases e with
    | pollingTimer r =>
      cases he
      exact pollingTimer_power fw r
    | _ => cases he

/-- **Messages and ticks do not interfere.** In any order of calls since `setup`, the master reads
what the messages and reads alone give, and `master_en`, its pin and the locals behind them are
what the ticks alone make of them. -/
theorem separate (vIn gpio0 : Bool) (es : List Firmware.Event) :
    Runs.outputs call (setup vIn gpio0) es =
        Runs.outputs i2cSlave.act (setup vIn gpio0) (es.filterMap Event.transfer) ∧
      (Runs.final call (setup vIn gpio0) es).box =
        (Runs.final i2cSlave.act (setup vIn gpio0) (es.filterMap Event.transfer)).box ∧
      (Runs.final call (setup vIn gpio0) es).power =
        (afterTicks vIn gpio0 (es.filterMap Event.tick).reverse).power := by
  obtain ⟨hbox, hout⟩ := call_box (replyOk_setup vIn gpio0) es
  refine ⟨hout, hbox, ?_⟩
  unfold afterTicks
  rw [List.reverse_reverse]
  exact react_power _ es

/-! ## The ranges of the outputs -/

/-- Registers and outputs within their ranges. -/
def InEnvelope (fw : Firmware) : Prop := fw.regs.InRange ∧ fw.panel.InRange

/-- Registers and outputs are all there is to the envelope. -/
theorem InEnvelope.of_front {fw fw' : Firmware} (h : fw.InEnvelope) (hf : fw'.front = fw.front) :
    fw'.InEnvelope := by
  have hregs : fw'.regs = fw.regs := congrArg Prod.fst hf
  have hpanel : fw'.panel = fw.panel := congrArg Prod.snd hf
  unfold InEnvelope
  rw [hregs, hpanel]
  exact h

/-- **No call leaves the envelope.** -/
theorem InEnvelope.react {fw : Firmware} (h : fw.InEnvelope) (e : Firmware.Event) :
    (fw.react e).InEnvelope := by
  cases e with
  | receiveI2c m =>
    refine ⟨?_, ?_⟩
    · rw [show (fw.react (.receiveI2c m)).regs = _ from receiveI2c_regs m fw]
      exact h.1.message m
    · rw [show (fw.react (.receiveI2c m)).panel = _ from receiveI2c_panel m fw]
      exact h.2.message m
  | sendI2c => exact h.of_front fw.sendI2c_front
  | pollingTimer r =>
    have hfront := pollingTimer_front fw r
    by_cases hb : fw.BlanksLed r
    · rw [if_pos hb] at hfront
      have hregs : (ProjZ.pollingTimer fw r).regs = fw.regs := congrArg Prod.fst hfront
      have hpanel : (ProjZ.pollingTimer fw r).panel = Reg.ledEn.store 0 fw.panel :=
        congrArg Prod.snd hfront
      refine ⟨?_, ?_⟩
      · rw [show (fw.react (.pollingTimer r)).regs = _ from hregs]
        exact h.1
      · rw [show (fw.react (.pollingTimer r)).panel = _ from hpanel]
        exact h.2.store (r := .ledEn) (Or.inl rfl)
    · rw [if_neg hb] at hfront
      exact h.of_front hfront

/-- **No call drives an output out of its range.** After any calls since `setup`, in any order and
with any bytes for messages, the duty of the lamp is one byte, the pulses of both servos lie
between their limits, and so do the registers behind them. -/
theorem outputs_inRange (vIn gpio0 : Bool) (es : List Firmware.Event) :
    (Runs.run react (setup vIn gpio0) es).regs.InRange ∧
      (Runs.run react (setup vIn gpio0) es).panel.InRange := by
  have hregs : (setup vIn gpio0).regs = {} := by cases gpio0 <;> rfl
  refine Runs.run_invariant (P := InEnvelope) ?_ (fun e _ h => h.react e) es
  have hmirror : (setup vIn gpio0).panel = (setup vIn gpio0).regs := mirrors_setup vIn gpio0
  unfold InEnvelope
  rw [hmirror, hregs]
  exact ⟨Regs.inRange_init, Regs.inRange_init⟩

end Firmware

end ProjZ
