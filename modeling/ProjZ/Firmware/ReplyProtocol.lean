import ProjZ.Firmware.Requests
import ProjZ.Firmware.SendI2c
import ProjZ.Lib.Mailbox

/-!
# The request/reply protocol of the firmware

`receiveI2c` and `sendI2c` together are a mailbox over the five registers
(`i2cSlave_refines`): a message is answered by `reply (verdict m) regs`, one byte
per read, then by `'\0'` for ever. What is still to be sent is a function of the
globals (`Firmware.pending`); the invariant `ReplyOk` says that a get reply under
way has a counter between one and the width of an existing register, whose value
fits that width. A reply abandoned at any byte leaves nothing behind, since
`receiveI2c` sets all of `i2c_ret`, `device`, `type` and `get_bytes_c` anew
before they are used.
-/

namespace ProjZ

open Ascii

/-- The letter `sendI2c` sends for a device. -/
def SDevice.letter : SDevice → UInt8
  | .led => 'L'.toUInt8
  | .servo => 'S'.toUInt8

/-- The letter `sendI2c` sends for a type. -/
def SType.letter : SType → UInt8
  | .en => 'E'.toUInt8
  | .pwm => 'P'.toUInt8
  | .pwmX => 'X'.toUInt8
  | .pwmY => 'Y'.toUInt8

/-- The value of a register as the protocol prints it: fixed width, leading zeros. -/
def Reg.numeral (r : Reg) (regs : Regs) : List UInt8 :=
  Decimal.padded r.width (r.value regs).toNat

/-- The full reply, without the final `'\0'`s. -/
def reply (v : Verdict) (regs : Regs) : List UInt8 :=
  match v with
  | .rejected => ['F'.toUInt8]
  | .set => ['T'.toUInt8]
  | .get r => 'R'.toUInt8 :: r.device.letter :: r.type.letter :: r.numeral regs

/-! ## Register values and their digits -/

theorem Reg.width_pos (r : Reg) : 0 < r.width := by cases r <;> decide

theorem Reg.width_le (r : Reg) : r.width ≤ 4 := by cases r <;> decide

/-- Admitted values are natural numbers that fit the reply's width. -/
theorem Reg.Admits.bounds {r : Reg} {v : Int} (h : r.Admits v) :
    0 ≤ v ∧ v.toNat < 10 ^ r.width := by
  cases r <;> simp only [Reg.Admits, pulseOk, Reg.width] at h ⊢ <;> omega

/-- **Fixed width never truncates**: the numeral denotes the register's value. -/
theorem Reg.value_numeral {regs : Regs} (h : regs.InRange) (r : Reg) :
    (Decimal.value (r.numeral regs) : Int) = r.value regs := by
  obtain ⟨h0, hlt⟩ := (h r).bounds
  rw [Reg.numeral, Decimal.value_padded hlt, Int.toNat_of_nonneg h0]

theorem numDivider_succ {k : Nat} (h : k < 4) : numDivider (k + 1 : Nat) = (10 ^ k : Nat) := by
  have hall : ∀ k : Fin 4, numDivider (k + 1 : Nat) = (10 ^ k.val : Nat) := by decide
  exact hall ⟨k, h⟩

theorem itoa_of_lt {d : Nat} (h : d < 10) : itoa d = Decimal.digit d := by
  have hall : ∀ d : Fin 10, itoa (d : Nat) = Decimal.digit d := by decide
  exact hall ⟨d, h⟩

/-- The digit arithmetic of `sendI2c` on a register value. -/
theorem itoa_div_numDivider {v : Int} {k : Nat} (hv : 0 ≤ v) (hk : k < 4) :
    itoa ((v.tdiv (numDivider (k + 1 : Nat))).tmod 10) =
      Decimal.digit (v.toNat / 10 ^ k % 10) := by
  obtain ⟨n, rfl⟩ := Int.eq_ofNat_of_zero_le hv
  rw [numDivider_succ hk, Int.toNat_natCast]
  have hdiv : ((n : Int).tdiv (10 ^ k : Nat)).tmod 10 = (n / 10 ^ k % 10 : Nat) := by
    rw [Int.tdiv_eq_ediv_of_nonneg (by omega), Int.tmod_eq_emod_of_nonneg (by positivity)]
    norm_cast
  rw [hdiv, itoa_of_lt (Nat.mod_lt _ (by omega))]

/-- A register is found again from its letters. -/
theorem Firmware.addressed_of {fw : Firmware} {r : Reg} (hd : fw.device = r.device)
    (ht : fw.type = r.type) : fw.addressed = some (r.value fw.regs) := by
  unfold Firmware.addressed
  rw [hd, ht]
  cases r <;> rfl

/-! ## What is still to be sent -/

namespace Firmware

/-- The digits left in a get reply. -/
def digitsLeft (fw : Firmware) : List UInt8 :=
  match fw.addressed with
  | some v => Decimal.padded fw.getBytesC.toNat v.toNat
  | none => []

/-- The bytes that `sendI2c` will send before the `'\0'`s. -/
def pending (fw : Firmware) : List UInt8 :=
  match fw.i2cRet with
  | .chG => 'R'.toUInt8 :: fw.device.letter :: fw.type.letter :: fw.digitsLeft
  | .chD => fw.device.letter :: fw.type.letter :: fw.digitsLeft
  | .chW => fw.type.letter :: fw.digitsLeft
  | .chB => fw.digitsLeft
  | .chS => ['T'.toUInt8]
  | .chF | .chN | .nul => ['F'.toUInt8]
  | .ch0 => []

/-- A get reply is under way. -/
def Sending (fw : Firmware) : Prop :=
  fw.i2cRet = .chG ∨ fw.i2cRet = .chD ∨ fw.i2cRet = .chW ∨ fw.i2cRet = .chB

end Firmware

/-- The letters and the counter of a get reply belong to a register. -/
structure Addresses (fw : Firmware) (r : Reg) : Prop where
  device : fw.device = r.device
  type : fw.type = r.type
  pos : 0 < fw.getBytesC
  le : fw.getBytesC ≤ r.width

/-- The invariant of the reply protocol. -/
structure ReplyOk (fw : Firmware) : Prop where
  inRange : fw.regs.InRange
  ne_chN : fw.i2cRet ≠ .chN
  sending : fw.Sending → ∃ r, Addresses fw r

theorem replyOk_setup (vIn gpio0 : Bool) : ReplyOk (setup vIn gpio0) := by
  have hregs : (setup vIn gpio0).regs = {} := by cases gpio0 <;> rfl
  have hret : (setup vIn gpio0).i2cRet = .nul := by cases gpio0 <;> rfl
  refine ⟨hregs ▸ Regs.inRange_init, ?_, ?_⟩
  · rw [hret]
    decide
  · rintro (h | h | h | h) <;> rw [hret] at h <;> cases h

/-- After a message, whatever was being sent before it. -/
theorem ReplyOk.receiveI2c {fw : Firmware} (h : ReplyOk fw) (m : List UInt8) :
    ReplyOk (receiveI2c m fw) := by
  have hret := receiveI2c_i2cRet m fw
  refine ⟨?_, ?_, ?_⟩
  · rw [receiveI2c_regs]
    exact h.inRange.message m
  · rw [hret]
    cases verdict m <;> simp [Verdict.marker]
  · intro hs
    cases hv : verdict m with
    | get r =>
      refine ⟨r, ?_⟩
      rw [receiveI2c_get (verdict_eq_get.mp hv)]
      exact ⟨rfl, rfl, Int.natCast_pos.mpr r.width_pos, le_rfl⟩
    | rejected | set =>
      rw [hv] at hret
      rcases hs with hs | hs | hs | hs <;> rw [hret] at hs <;> cases hs

/-- The bytes of a fresh reply. -/
theorem pending_receiveI2c (m : List UInt8) (fw : Firmware) :
    (receiveI2c m fw).pending = reply (verdict m) (effect m fw.regs) := by
  have hret := receiveI2c_i2cRet m fw
  match hv : verdict m with
  | .rejected =>
    rw [hv] at hret
    simp only [Firmware.pending, hret, reply, Verdict.marker]
  | .set =>
    rw [hv] at hret
    simp only [Firmware.pending, hret, reply, Verdict.marker]
  | .get r =>
    rw [receiveI2c_get (verdict_eq_get.mp hv), effect_of_get hv]
    have haddr : Firmware.addressed
        { fw.addressing .chG r.device r.type with getBytesC := r.width } =
          some (r.value fw.regs) := Firmware.addressed_of rfl rfl
    simp only [Firmware.pending, Firmware.digitsLeft, haddr]
    simp [Firmware.addressing, reply, Reg.numeral]

/-! ## One read -/

/-- The digit branch sends the first of the digits left. -/
theorem sendDigit_spec {fw : Firmware} {r : Reg} (h : Addresses fw r)
    (hr : fw.regs.InRange) :
    fw.digitsLeft = fw.sendDigit.1 :: fw.sendDigit.2.digitsLeft ∧
      fw.sendDigit.2.i2cRet = (if fw.getBytesC = 1 then .ch0 else .chB) ∧
      fw.sendDigit.2.getBytesC = fw.getBytesC - 1 := by
  have haddr := Firmware.addressed_of h.device h.type
  have haddr' : fw.sendDigit.2.addressed = some (r.value fw.regs) :=
    Firmware.addressed_of h.device h.type
  obtain ⟨k, hk⟩ : ∃ k : Nat, fw.getBytesC = (k + 1 : Nat) :=
    ⟨(fw.getBytesC - 1).toNat, by have := h.pos; omega⟩
  have hk4 : k < 4 := by
    have hle := h.le
    have hw := r.width_le
    omega
  have hcount : fw.sendDigit.2.getBytesC = fw.getBytesC - 1 :=
    int16_of_lt (by omega) (by omega)
  refine ⟨?_, ?_, hcount⟩
  · have hbyte : fw.sendDigit.1 = Decimal.digit ((r.value fw.regs).toNat / 10 ^ k % 10) := by
      simp only [Firmware.sendDigit, haddr, hk]
      exact itoa_div_numDivider (hr r).bounds.1 hk4
    have hleft : ((k + 1 : Nat) - 1 : Int).toNat = k := by omega
    rw [hbyte]
    simp only [Firmware.digitsLeft, haddr, haddr', hcount, hk, hleft, Int.toNat_natCast]
    rfl
  · have hzero : int16 (fw.getBytesC - 1) = 0 ↔ fw.getBytesC = 1 := by
      rw [int16_of_lt (by omega) (by omega)]
      omega
    simp only [Firmware.sendDigit, haddr, reduceCtorEq, false_or, hzero]

/-- A read takes the first pending byte, `'\0'` when there is none. -/
theorem sendI2c_pending {fw : Firmware} (h : ReplyOk fw) :
    fw.sendI2c.1 = fw.pending.headD 0 ∧ fw.sendI2c.2.pending = fw.pending.tail := by
  cases hret : fw.i2cRet with
  | chB =>
    obtain ⟨r, hr⟩ := h.sending (by simp [Firmware.Sending, hret])
    obtain ⟨hdig, hret', hcount⟩ := sendDigit_spec hr h.inRange
    simp only [Firmware.sendI2c, hret, Firmware.pending, hret', hdig]
    refine ⟨rfl, ?_⟩
    -- with the last digit the counter reaches 0 and `i2c_ret` the end of the reply
    by_cases h1 : fw.getBytesC = 1
    · have hnil : fw.sendDigit.2.digitsLeft = [] := by
        unfold Firmware.digitsLeft
        rw [hcount, h1]
        split <;> rfl
      rw [if_pos h1, hnil]
      rfl
    · rw [if_neg h1]
      rfl
  | chN => exact absurd hret h.ne_chN
  | nul | chG | chS | chF | chD | chW | ch0 =>
    simp only [Firmware.sendI2c, Firmware.pending, hret]
    exact ⟨rfl, rfl⟩

@[simp] theorem sendI2c_regs (fw : Firmware) : fw.sendI2c.2.regs = fw.regs := by
  unfold Firmware.sendI2c
  split <;> rfl

theorem ReplyOk.sendI2c {fw : Firmware} (h : ReplyOk fw) : ReplyOk fw.sendI2c.2 := by
  refine ⟨by rw [sendI2c_regs]; exact h.inRange, ?_, ?_⟩
  · cases hret : fw.i2cRet with
    | chB =>
      obtain ⟨r, hr⟩ := h.sending (by simp [Firmware.Sending, hret])
      simp only [Firmware.sendI2c, hret, (sendDigit_spec hr h.inRange).2.1]
      split <;> decide
    | _ => simp [Firmware.sendI2c, hret]
  · intro hs
    cases hret : fw.i2cRet with
    | chB =>
      obtain ⟨r, hr⟩ := h.sending (by simp [Firmware.Sending, hret])
      obtain ⟨-, hret', hcount⟩ := sendDigit_spec hr h.inRange
      have hsend : fw.sendI2c.2 = fw.sendDigit.2 := by simp only [Firmware.sendI2c, hret]
      rw [hsend] at hs ⊢
      -- after the last digit the firmware is not sending any more
      have hne : fw.getBytesC ≠ 1 := by
        intro h1
        rw [if_pos h1] at hret'
        rcases hs with hs | hs | hs | hs <;> rw [hret'] at hs <;> cases hs
      refine ⟨r, hr.device, hr.type, ?_, ?_⟩
      · have := hr.pos
        omega
      · have := hr.le
        omega
    | chG | chD | chW =>
      obtain ⟨r, hr⟩ := h.sending (by simp [Firmware.Sending, hret])
      simp only [Firmware.sendI2c, hret]
      exact ⟨r, hr.device, hr.type, hr.pos, hr.le⟩
    | nul | chN | chS | chF | ch0 =>
      simp [Firmware.sendI2c, hret, Firmware.Sending] at hs

/-! ## The refinement -/

/-- The firmware as a device on the I2C bus. -/
def i2cSlave : Mailbox.Device Firmware (List UInt8) UInt8 where
  post := receiveI2c
  read := Firmware.sendI2c

/-- What the firmware is for: five registers behind a request/reply protocol. -/
def i2cSpec : Mailbox.Spec Regs (List UInt8) UInt8 where
  effect := effect
  answer m := reply (verdict m)
  filler := 0

/-- The abstraction: the registers and the rest of the reply. -/
def Firmware.box (fw : Firmware) : Mailbox.Box Regs UInt8 := ⟨fw.regs, fw.pending⟩

/-- **The firmware is a mailbox over its registers.** -/
theorem i2cSlave_refines : Mailbox.Refines i2cSlave i2cSpec Firmware.box ReplyOk where
  inv_post m _ h := h.receiveI2c m
  inv_read _ h := h.sendI2c
  abs_post m fw _ := by
    have hpost : Firmware.box (i2cSlave.post m fw) =
        ⟨(receiveI2c m fw).regs, (receiveI2c m fw).pending⟩ := rfl
    rw [hpost, receiveI2c_regs, pending_receiveI2c]
    rfl
  abs_read fw h := by
    have hread : Firmware.box (i2cSlave.read fw).2 =
        ⟨fw.sendI2c.2.regs, fw.sendI2c.2.pending⟩ := rfl
    rw [hread, sendI2c_regs, (sendI2c_pending h).2]
    rfl
  read_fst _ h := (sendI2c_pending h).1

/-! ## Replies, whole runs -/

theorem reply_length_lt (v : Verdict) (regs : Regs) : (reply v regs).length < 8 := by
  cases v with
  | get r =>
    have hw := r.width_le
    simp only [reply, Reg.numeral, List.length_cons, Decimal.length_padded]
    omega
  | rejected | set => simp [reply]

/-- The `'\0'`s after a reply are the only ones: a C string reader gets all of it. -/
theorem zero_notMem_reply (v : Verdict) (regs : Regs) : 0 ∉ reply v regs := by
  cases v with
  | get r =>
    have hd : r.device.letter ≠ 0 := by cases r <;> decide
    have ht : r.type.letter ≠ 0 := by cases r <;> decide
    have hn : 0 ∉ r.numeral regs := by
      intro h
      have h0 : isDigit 0 = true := Decimal.isDigit_of_mem_padded h
      revert h0
      decide
    simp only [reply, List.mem_cons, not_or]
    exact ⟨by decide, hd.symm, ht.symm, hn⟩
  | rejected | set =>
    simp only [reply, List.mem_singleton]
    decide

/-- Answers do not depend on what the message they answer has stored. -/
theorem reply_effect (m : List UInt8) (regs : Regs) :
    reply (verdict m) (effect m regs) = reply (verdict m) regs := by
  cases hv : verdict m with
  | get r => rw [effect_of_get hv]
  | _ => rfl

/-- No call leaves `i2c_ret` at its boot value. -/
theorem sendI2c_ne_nul (fw : Firmware) : fw.sendI2c.2.i2cRet ≠ .nul := by
  cases hret : fw.i2cRet with
  | chB =>
    simp only [Firmware.sendI2c, hret, Firmware.sendDigit]
    split <;> simp
  | _ => simp [Firmware.sendI2c, hret]

/-- Only a read before the first message takes a fallback branch. -/
theorem ReplyOk.not_inFallback {fw : Firmware} (h : ReplyOk fw) (hn : fw.i2cRet ≠ .nul) :
    ¬ fw.InFallback := by
  rintro (h1 | h1 | ⟨h1, h2⟩)
  · exact hn h1
  · exact h.ne_chN h1
  · obtain ⟨r, hr⟩ := h.sending (by simp [Firmware.Sending, h1])
    rcases h2 with h2 | h2
    · rw [Firmware.addressed_of hr.device hr.type] at h2
      cases h2
    · have := hr.pos
      omega

/-- After a message no read takes a fallback branch. -/
theorem not_inFallback_afterReads {fw : Firmware} (h : ReplyOk fw) (m : List UInt8)
    (k : Nat) : ¬ (i2cSlave.afterReads k (receiveI2c m fw)).InFallback := by
  -- only the boot value of `i2c_ret` would lead there, and a message replaces it
  refine (i2cSlave_refines.afterReads (h.receiveI2c m) k).1.not_inFallback ?_
  cases k with
  | zero =>
    rw [Mailbox.Device.afterReads_zero, receiveI2c_i2cRet]
    cases verdict m <;> simp [Verdict.marker]
  | succ k =>
    rw [Mailbox.Device.afterReads_succ]
    exact sendI2c_ne_nul _

/-- **The request/reply protocol.** After any sequence of messages and reads, the reads
that follow a message `m` return `reply (verdict m) regs`, then `'\0'` for ever: a
function of `m` and of the registers alone. Replies end within eight reads, no read
takes a fallback branch, and the digits of a get denote the addressed register. -/
theorem receiveI2c_sendI2c_protocol (vIn gpio0 : Bool)
    (calls : List (Mailbox.Call (List UInt8))) (m : List UInt8) :
    let fw := Runs.run i2cSlave.step (setup vIn gpio0) calls
    let fw' := receiveI2c m fw
    let answer := reply (verdict m) fw.regs
    fw'.i2cRet = (verdict m).marker ∧
      (∀ k, i2cSlave.readAt k fw' = answer.getD k 0) ∧
      answer.length < 8 ∧ 0 ∉ answer ∧
      (∀ k, ¬ (i2cSlave.afterReads k fw').InFallback) ∧
      ∀ r, verdict m = .get r → fw'.device = r.device ∧ fw'.type = r.type ∧
        (r.numeral fw.regs).length = r.width ∧
        (Decimal.value (r.numeral fw.regs) : Int) = r.value fw.regs := by
  intro fw fw' answer
  have hok : ReplyOk fw := i2cSlave_refines.inv_run (replyOk_setup vIn gpio0) calls
  refine ⟨receiveI2c_i2cRet m fw, ?_, reply_length_lt _ _, zero_notMem_reply _ _,
    not_inFallback_afterReads hok m, ?_⟩
  · intro k
    have hrep := i2cSlave_refines.reply hok m k
    have hans : i2cSpec.answer m (i2cSpec.effect m fw.box.store) = answer :=
      reply_effect m fw.regs
    rw [hans] at hrep
    exact hrep
  · intro r hv
    have hget := receiveI2c_get (verdict_eq_get.mp hv) fw
    refine ⟨?_, ?_, Decimal.length_padded _ _, r.value_numeral hok.inRange⟩
    · rw [show fw'.device = (receiveI2c m fw).device from rfl, hget]
      rfl
    · rw [show fw'.type = (receiveI2c m fw).type from rfl, hget]
      rfl

end ProjZ
