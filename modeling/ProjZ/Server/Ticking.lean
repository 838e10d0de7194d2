import ProjZ.Firmware.Interference
import ProjZ.Server.Reachable

/-!
# The server and the firmware's timer

While the server waits, or between two bytes of a reply, `pollingTimer` goes on. Here any number
of ticks, with any readings, come before each transfer on the bus (`tickingBus`). The clients
cannot tell, and have no part in what the ticks decide (`ticking_server`): the facts about the
server over the bare firmware are facts about the whole device.
-/

namespace ProjZ

open Server

/-! ## Devices that refine the mailbox -/

section Refined

variable {δ : Type} {bus : I2cBus δ} {abs : δ → Mailbox.Box Regs UInt8} {Inv : δ → Prop}

/-- Any device that refines the mailbox serves the clients as the mailbox does. -/
theorem refined_run (h : BusRefines bus mailboxBus abs Inv) (fuel : Nat) {s : Server δ}
    (hs : Inv s.file) (es : List Event) :
    (Inv (Runs.final (Server.step bus (fuel + 8)) s es).file ∧
      Runs.final (mServer fuel) (s.map abs) es =
        (Runs.final (Server.step bus (fuel + 8)) s es).map abs) ∧
    Runs.outputs (Server.step bus (fuel + 8)) s es =
      Runs.outputs (mServer fuel) (s.map abs) es := by
  refine Runs.outputs_eq_of_bisim
    (R := fun (s : Server δ) t => Inv s.file ∧ t = s.map abs) ?_ ⟨hs, rfl⟩ es
  rintro e s t ⟨hinv, rfl⟩
  obtain ⟨hinv', hstep⟩ := Simulates.step h (fuel + 8) e s hinv
  have hm : mServer fuel (s.map abs) e =
      ((Server.step bus (fuel + 8) s e).1.map abs, (Server.step bus (fuel + 8) s e).2) := hstep
  rw [hm]
  exact ⟨⟨hinv', rfl⟩, rfl⟩

/-- Its start-up is that of the mailbox. -/
theorem refined_startUp (h : BusRefines bus mailboxBus abs Inv) (fuel : Nat) {d : δ} (hd : Inv d)
    (cmd : CharBuf 16) :
    Inv (Server.startUp bus (fuel + 8) d cmd).file ∧
      (Server.startUp bus (fuel + 8) d cmd).map abs =
        Server.startUp mailboxBus (fuel + 8) (abs d) cmd := by
  obtain ⟨hinv, hstep⟩ := Simulates.commands h (fuel + 8) idleCommands
    ⟨d, cmd, 0, false, none⟩ hd
  exact ⟨hinv, (congrArg Prod.fst hstep).symm⟩

end Refined

/-! ## Time passing on the bus -/

/-- The firmware, and the number of transfers so far. -/
structure Ticking where
  fw : Firmware
  transfers : Nat

namespace Ticking

variable (schedule : Nat → List Readings)

/-- The ticks before the next transfer. -/
def elapse (t : Ticking) : Firmware := Runs.run pollingTimer t.fw (schedule t.transfers)

/-- The ticks before the transfers so far. -/
def elapsed (t : Ticking) : List Readings := (List.range t.transfers).flatMap schedule

end Ticking

/-- The I2C bus with `schedule n` for the ticks before its transfer number `n`. -/
def tickingBus (schedule : Nat → List Readings) : I2cBus Ticking where
  write m t := ⟨receiveI2c m (t.elapse schedule), t.transfers + 1⟩
  read t := (some (t.elapse schedule).sendI2c.1,
    ⟨(t.elapse schedule).sendI2c.2, t.transfers + 1⟩)

section Schedule

variable (schedule : Nat → List Readings)

/-- Ticks keep what the I2C slave relies on and do not touch it. -/
theorem tickOnly_run (fw : Firmware) (rs : List Readings) :
    fw.TickOnly (Runs.run pollingTimer fw rs) :=
  Runs.run_invariant (P := fw.TickOnly) (.refl fw)
    (fun r _ h => h.trans (Firmware.tickOnly_pollingTimer _ r)) rs

/-- The invariant of the bus: nothing but the ticks has had a say in the host's power. -/
structure Ticking.Ok (base : Firmware) (t : Ticking) : Prop where
  replyOk : ReplyOk t.fw
  power : t.fw.power = (Runs.run pollingTimer base (t.elapsed schedule)).power

variable {schedule} {base : Firmware} {t : Ticking}

/-- The power machine after more ticks is a function of the power machine before them. -/
theorem power_run_congr {fw fw' : Firmware} (h : fw.power = fw'.power) (rs : List Readings) :
    (Runs.run pollingTimer fw rs).power = (Runs.run pollingTimer fw' rs).power := by
  rw [Firmware.pollingTimer_run_power, Firmware.pollingTimer_run_power, h]

theorem Ticking.Ok.elapse (h : t.Ok schedule base) :
    ReplyOk (t.elapse schedule) ∧ (t.elapse schedule).box = t.fw.box ∧
      (t.elapse schedule).power = (Runs.run pollingTimer base
        (Ticking.elapsed schedule ⟨t.fw, t.transfers + 1⟩)).power := by
  have htick : t.fw.TickOnly (t.elapse schedule) := tickOnly_run t.fw (schedule t.transfers)
  refine ⟨htick.replyOk h.replyOk, htick.box, ?_⟩
  have hnext : Ticking.elapsed schedule ⟨t.fw, t.transfers + 1⟩ =
      t.elapsed schedule ++ schedule t.transfers := by
    unfold Ticking.elapsed
    rw [List.range_succ, List.flatMap_append, List.flatMap_singleton]
  rw [hnext, Runs.run_append]
  exact power_run_congr h.power (schedule t.transfers)

variable (schedule base)

/-- **With time passing between its transfers, the bus is still the mailbox.** -/
theorem tickingBus_refines :
    BusRefines (tickingBus schedule) mailboxBus (fun t => t.fw.box) (Ticking.Ok schedule base) where
  inv_write m t h := by
    obtain ⟨hok, -, hpower⟩ := h.elapse
    exact ⟨hok.receiveI2c m, (Firmware.receiveI2c_power m _).trans hpower⟩
  inv_read t h := by
    obtain ⟨hok, -, hpower⟩ := h.elapse
    exact ⟨hok.sendI2c, (Firmware.sendI2c_power _).trans hpower⟩
  abs_write m t h := by
    obtain ⟨hok, hbox, -⟩ := h.elapse
    have habs := firmwareBus_refines.abs_write m _ hok
    rw [hbox] at habs
    exact habs
  abs_read t h := by
    obtain ⟨hok, hbox, -⟩ := h.elapse
    have habs := firmwareBus_refines.abs_read _ hok
    rw [hbox] at habs
    exact habs

end Schedule

/-! ## The server over the whole device -/

/-- The server over a device whose timer runs. -/
def tickingServer (fuel : Nat) (schedule : Nat → List Readings) :
    Server Ticking → Event → Server Ticking × List Output :=
  Server.step (tickingBus schedule) (fuel + 8)

/-- **The clients do not notice the timer, nor the timer the clients.** Start the server after
any calls of the firmware's handlers, and let any ticks pass before each byte that is read and
each message that is written. What is forwarded and replied is what it would be without those
ticks, no fault occurs, and `master_en`, its pin and the locals behind them are what the ticks
alone, since `setup`, have made of them. -/
theorem ticking_server (fuel : Nat) (vIn gpio0 : Bool) (calls : List Firmware.Event)
    (schedule : Nat → List Readings) (cmd : CharBuf 16) (es : List Event) :
    let fw := Runs.run Firmware.react (setup vIn gpio0) calls
    let quiet := Server.startUp firmwareBus (fuel + 8) fw cmd
    let s := Server.startUp (tickingBus schedule) (fuel + 8) ⟨fw, 0⟩ cmd
    let t := Runs.final (tickingServer fuel schedule) s es
    Runs.outputs (tickingServer fuel schedule) s es = Runs.outputs (zServer fuel) quiet es ∧
      t.fault = none ∧
      t.file.fw.regs = (Runs.final (zServer fuel) quiet es).file.regs ∧
      t.file.fw.power = (afterTicks vIn gpio0
        (calls.filterMap Firmware.Event.tick ++ t.file.elapsed schedule).reverse).power := by
  intro fw quiet s t
  have hok : ReplyOk fw :=
    Runs.run_invariant (replyOk_setup vIn gpio0) (fun e _ h => Firmware.replyOk_react h e) calls
  have hrefines := tickingBus_refines schedule fw
  -- both start over the same mailbox
  obtain ⟨hquiet, hquietBox⟩ := refined_startUp firmwareBus_refines fuel hok cmd
  obtain ⟨hs, hsBox⟩ := refined_startUp hrefines fuel
    (d := ⟨fw, 0⟩) ⟨hok, rfl⟩ cmd
  have hbox : s.map (fun t => t.fw.box) = quiet.map Firmware.box := hsBox.trans hquietBox.symm
  obtain ⟨⟨hinv, hfinal⟩, hout⟩ := refined_run hrefines fuel hs es
  obtain ⟨⟨-, hfinal'⟩, hout'⟩ := zServer_run fuel hquiet es
  have hsame : t.map (fun t => t.fw.box) =
      (Runs.final (zServer fuel) quiet es).map Firmware.box := by
    rw [← hfinal', ← hbox]
    exact hfinal.symm
  refine ⟨?_, ?_, ?_, ?_⟩
  · rw [hout', ← hbox]
    exact hout
  · have hquietBox' := (startUp_box fuel hok cmd).2
    have hstart : Sound quiet := ⟨hquiet, congrArg Server.fault hquietBox',
      (congrArg Server.j hquietBox').trans_le (Nat.zero_le 16)⟩
    have hsound : Sound (Runs.final (zServer fuel) quiet es) :=
      Runs.run_invariant hstart (fun e _ h => h.step e) es
    exact (congrArg Server.fault hsame).trans hsound.fault
  · exact congrArg (fun u => u.file.store) hsame
  · have hpower : t.file.fw.power =
        (Runs.run pollingTimer fw (t.file.elapsed schedule)).power := hinv.power
    rw [hpower, power_run_congr (Firmware.react_power _ calls), ← Runs.run_append]
    unfold afterTicks
    rw [List.reverse_reverse]

end ProjZ
