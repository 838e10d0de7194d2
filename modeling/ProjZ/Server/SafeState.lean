import ProjZ.Server.Reachable

/-!
# The state the server leaves the device in

Between two sessions the server has sent `SSE0`, `SLP255` and `SLE1`: the servos are off
and the lamp is dimmed but enabled. When a signal ends the program, the handler
`beforeExit` (z_server.c:28–81) sends `SSE0`, `SLP255` and `SLE0` on its own buffer.

The signal can arrive between any two operations on the bus, in the middle of a reply
as well. To speak of all these points, the device is replaced by one that records
the states it has been in (`recording`); the server does not notice
(`recording_refines`), and every recorded state keeps the reply invariant, which
is all that `beforeExit` needs.
-/

namespace ProjZ

open Ascii Server

/-! ## Recording the bus -/

section Recording

variable {δ δ' : Type}

/-- A device together with the states it has been in, newest first. -/
structure Recorded (δ : Type) where
  now : δ
  seen : List δ

/-- The record of a device that nothing has been done to. -/
def Recorded.start (d : δ) : Recorded δ := ⟨d, [d]⟩

/-- The device has come to the state `d`. -/
def Recorded.push (d : δ) (t : Recorded δ) : Recorded δ := ⟨d, d :: t.seen⟩

/-- A bus that records every operation on it. -/
def recording (bus : I2cBus δ) : I2cBus (Recorded δ) where
  write m t := t.push (bus.write m t.now)
  read t := ((bus.read t.now).1, t.push (bus.read t.now).2)

/-- `Inv` has held all the time. -/
structure Recorded.Always (Inv : δ → Prop) (t : Recorded δ) : Prop where
  now : Inv t.now
  seen : ∀ d ∈ t.seen, Inv d

theorem Recorded.Always.push {Inv : δ → Prop} {t : Recorded δ} (h : t.Always Inv) {d : δ}
    (hd : Inv d) : (t.push d).Always Inv := by
  refine ⟨hd, ?_⟩
  intro x hx
  rcases List.mem_cons.mp hx with rfl | hx
  · exact hd
  · exact h.seen x hx

theorem Recorded.always_start {Inv : δ → Prop} {d : δ} (h : Inv d) :
    (Recorded.start d).Always Inv := by
  refine ⟨h, ?_⟩
  intro x hx
  rwa [List.mem_singleton.mp hx]

/-- **Recording is not noticed**, and what a bus preserves has held all the time. -/
theorem recording_refines {bus : I2cBus δ} {bus' : I2cBus δ'} {abs : δ → δ'} {Inv : δ → Prop}
    (h : BusRefines bus bus' abs Inv) :
    BusRefines (recording bus) bus Recorded.now (Recorded.Always Inv) where
  inv_write m _ ht := ht.push (h.inv_write m _ ht.now)
  inv_read _ ht := ht.push (h.inv_read _ ht.now)
  abs_write _ _ _ := rfl
  abs_read _ _ := rfl

end Recording

/-! ## The points of a run -/

/-- An event, with the firmware's states recorded from the one before it on. -/
def recordedStep (fuel : Nat) (s : Server Firmware) (e : Event) :
    Server (Recorded Firmware) × List Output :=
  Server.step (recording firmwareBus) (fuel + 8) (s.map Recorded.start) e

/-- The firmware states in which a signal can find the program during an event: the one
before it, and one after each operation on the bus. -/
def signalPoints (fuel : Nat) (s : Server Firmware) (e : Event) : List Firmware :=
  (recordedStep fuel s e).1.file.seen

variable {fuel : Nat}

/-- The recorded event is the event, and the reply invariant holds at its every point. -/
theorem recordedStep_spec {s : Server Firmware} (h : ReplyOk s.file) (e : Event) :
    (recordedStep fuel s e).1.map Recorded.now = (zServer fuel s e).1 ∧
      ∀ fw ∈ signalPoints fuel s e, ReplyOk fw := by
  have hstart : Recorded.Always ReplyOk (s.map Recorded.start).file := Recorded.always_start h
  obtain ⟨halways, hstep⟩ :=
    Simulates.step (recording_refines firmwareBus_refines) (fuel + 8) e _ hstart
  exact ⟨(congrArg Prod.fst hstep).symm, halways.seen⟩

/-! ## The idle state -/

/-- The registers between two sessions. -/
structure Regs.Idle (regs : Regs) : Prop where
  servoEn : regs.servoEn = 0
  ledPwm : regs.ledPwm = 255
  ledEn : regs.ledEn = 1

/-- Commands whose replies have been read leave nothing pending. -/
theorem foldl_takeEffect (texts : List (List UInt8)) (text : List UInt8)
    (b : Mailbox.Box Regs UInt8) :
    (text :: texts).foldl takeEffect b =
      ⟨(text :: texts).foldl (fun regs m => effect m regs) b.store, []⟩ := by
  induction texts generalizing text b with
  | nil => rfl
  | cons next texts ih => exact ih next (takeEffect b text)

theorem effect_SSE0 (regs : Regs) :
    effect (bytes ['S', 'S', 'E', '0']) regs = { regs with servoEn := 0 } :=
  effect_of_set (r := .servoEn) (by decide) (by decide) regs

theorem effect_SLP255 (regs : Regs) :
    effect (bytes ['S', 'L', 'P', '2', '5', '5']) regs = { regs with ledPwm := 255 } :=
  effect_of_set (r := .ledPwm) (by decide +kernel) (by decide) regs

theorem effect_SLE1 (regs : Regs) :
    effect (bytes ['S', 'L', 'E', '1']) regs = { regs with ledEn := 1 } :=
  effect_of_set (r := .ledEn) (by decide) (by decide) regs

theorem effect_SLE0 (regs : Regs) :
    effect (bytes ['S', 'L', 'E', '0']) regs = { regs with ledEn := 0 } :=
  effect_of_set (r := .ledEn) (by decide) (by decide) regs

theorem idleCommands_takeEffect (b : Mailbox.Box Regs UInt8) :
    idleCommands.foldl takeEffect b =
      ⟨{ b.store with servoEn := 0, ledPwm := 255, ledEn := 1 }, []⟩ := by
  unfold idleCommands
  rw [foldl_takeEffect]
  simp only [List.foldl_cons, List.foldl_nil, effect_SSE0, effect_SLP255, effect_SLE1]

/-- What `accept` finds. -/
structure IdleBox (b : Mailbox.Box Regs UInt8) : Prop where
  store : b.store.Idle
  out : b.out = []

theorem idleBox_idleCommands (b : Mailbox.Box Regs UInt8) :
    IdleBox (idleCommands.foldl takeEffect b) := by
  rw [idleCommands_takeEffect]
  exact ⟨⟨rfl, rfl, rfl⟩, rfl⟩

/-- A connected server stays connected until the client has gone. -/
theorem mServer_connected {s : Server (Mailbox.Box Regs UInt8)} (hf : s.fault = none)
    (hj : s.j ≤ 16) (hc : s.connected = true) {e : Event} (he : e ≠ .disconnect) :
    (mServer fuel s e).1.connected = true := by
  cases e with
  | disconnect => exact absurd rfl he
  | recv chunk =>
    rcases chunk_cases hj chunk.message with ⟨h0, hlen⟩ | ⟨pre, rest, hm, h0, hlen⟩ |
      ⟨pre, c, rest, hm, h0, hlen⟩
    · rw [mServer_full fuel hf hc h0 hlen]
      exact hc
    · obtain ⟨m, -, ⟨-, hstep⟩ | ⟨-, hstep⟩⟩ := mServer_complete fuel hf hc hm h0 hlen
      · rw [hstep]
        exact hc
      · rw [hstep]
        exact hc
    · rw [mServer_overflow fuel hf hc hm h0 hlen]
      exact hc
  | accept | recvError =>
    rw [mServer_idle fuel (by rw [hc]; rfl)]
    exact hc

/-- One event: only a disconnection leads to `accept`, and it leaves the idle state. -/
theorem idleBox_step (fuel : Nat) {s : Server (Mailbox.Box Regs UInt8)} (hf : s.fault = none)
    (hj : s.j ≤ 16) (h : s.connected = false → IdleBox s.file) (e : Event) :
    (mServer fuel s e).1.connected = false → IdleBox (mServer fuel s e).1.file := by
  intro hidle
  cases hc : s.connected with
  | false =>
    cases e with
    | accept =>
      rw [mServer_accept fuel hf hc] at hidle
      cases hidle
    | recv _ | recvError | disconnect =>
      rw [mServer_idle fuel (by rw [hc]; rfl)]
      exact h hc
  | true =>
    cases e with
    | disconnect =>
      rw [mServer_disconnect fuel hf hc]
      exact idleBox_idleCommands s.file
    | accept | recv _ | recvError =>
      rw [mServer_connected hf hj hc (by rintro ⟨⟩)] at hidle
      cases hidle

/-- **The idle state holds whenever the server is about to accept.** -/
theorem Reachable.idleBox {s : Server Firmware} (h : Reachable fuel s) :
    s.connected = false → IdleBox s.file.box := by
  induction h with
  | startUp vIn gpio0 calls cmd =>
    have hok : ReplyOk (Runs.run i2cSlave.step (setup vIn gpio0) calls) :=
      i2cSlave_refines.inv_run (replyOk_setup vIn gpio0) calls
    have hfile := congrArg Server.file (startUp_box fuel hok cmd).2
    intro _
    show IdleBox (Server.map Firmware.box _).file
    rw [hfile]
    exact idleBox_idleCommands _
  | @step s hreach e ih =>
    -- the step is taken over the mailbox
    have hsound := hreach.sound
    obtain ⟨-, hstep⟩ := Simulates.step firmwareBus_refines (fuel + 8) e s hsound.replyOk
    have hm : mServer fuel (s.map Firmware.box) e =
        ((zServer fuel s e).1.map Firmware.box, (zServer fuel s e).2) := hstep
    have hidle := idleBox_step fuel (s := s.map Firmware.box) hsound.fault hsound.j_le
      ih e
    rw [hm] at hidle
    exact hidle

/-! ## The exit handler -/

/-- `SSE0`, `SLP255`, `SLE0`: on a signal. -/
def exitCommands : List (List UInt8) :=
  [bytes ['S', 'S', 'E', '0'], bytes ['S', 'L', 'P', '2', '5', '5'],
    bytes ['S', 'L', 'E', '0']]

/-- `beforeExit`, on its own uninitialised `cmd`. It has no use for the fields of
`Server` that belong to a connection. -/
def beforeExit {δ : Type} (bus : I2cBus δ) (fuel : Nat) (cmd : CharBuf 16) (file : δ) :
    Server δ × List Output :=
  commands bus fuel exitCommands ⟨file, cmd, 0, false, none⟩

theorem setCommand_exit : ∀ text ∈ exitCommands, SetCommand text := by
  have hall : ∀ text ∈ exitCommands, text.length < 16 ∧ 0 ∉ text ∧ verdict text = .set := by
    decide +kernel
  exact fun text h => ⟨(hall text h).1, (hall text h).2.1, (hall text h).2.2⟩

theorem exitCommands_takeEffect (b : Mailbox.Box Regs UInt8) :
    exitCommands.foldl takeEffect b =
      ⟨{ b.store with servoEn := 0, ledPwm := 255, ledEn := 0 }, []⟩ := by
  unfold exitCommands
  rw [foldl_takeEffect]
  simp only [List.foldl_cons, List.foldl_nil, effect_SSE0, effect_SLP255, effect_SLE0]

/-- **The handler works in every state of the reply protocol**: each of its reply loops ends,
and the registers are those of its three commands. -/
theorem beforeExit_spec {fw : Firmware} (h : ReplyOk fw) (fuel : Nat) (cmd : CharBuf 16) :
    (beforeExit firmwareBus (fuel + 8) cmd fw).1.fault = none ∧
      (beforeExit firmwareBus (fuel + 8) cmd fw).1.file.regs =
        { fw.regs with servoEn := 0, ledPwm := 255, ledEn := 0 } := by
  obtain ⟨-, hsim⟩ := Simulates.commands firmwareBus_refines (fuel + 8) exitCommands
    ⟨fw, cmd, 0, false, none⟩ h
  have hbox := commands_mailbox fuel setCommand_exit
    (s := (⟨fw.box, cmd, 0, false, none⟩ : Server (Mailbox.Box Regs UInt8))) rfl
  have hmap : (beforeExit firmwareBus (fuel + 8) cmd fw).1.map Firmware.box =
      ⟨exitCommands.foldl takeEffect fw.box, exitCommands.foldl settle cmd, 0, false, none⟩ :=
    congrArg Prod.fst (hsim.symm.trans hbox)
  refine ⟨congrArg Server.fault hmap, ?_⟩
  have hstore := congrArg (fun s => s.file.store) hmap
  simp only [exitCommands_takeEffect] at hstore
  exact hstore

/-- **Safe idle and exit.** Before every `accept` the servos are off, the lamp is
enabled at duty 255 and no reply byte is pending. And wherever a signal finds the
program, before an event or after any operation on the bus that belongs to it, the handler
terminates and leaves the servos off, duty 255 and the lamp disabled. -/
theorem safe_idle_and_exit {s : Server Firmware} (h : Reachable fuel s) :
    (s.connected = false →
      s.file.regs.servoEn = 0 ∧ s.file.regs.ledPwm = 255 ∧ s.file.regs.ledEn = 1 ∧
        s.file.sendI2c.1 = 0) ∧
    ∀ e : Event, ∀ fw ∈ signalPoints fuel s e, ∀ (exitFuel : Nat) (cmd : CharBuf 16),
      (beforeExit firmwareBus (exitFuel + 8) cmd fw).1.fault = none ∧
        (beforeExit firmwareBus (exitFuel + 8) cmd fw).1.file.regs.servoEn = 0 ∧
        (beforeExit firmwareBus (exitFuel + 8) cmd fw).1.file.regs.ledPwm = 255 ∧
        (beforeExit firmwareBus (exitFuel + 8) cmd fw).1.file.regs.ledEn = 0 := by
  have hok := h.sound.replyOk
  constructor
  · intro hc
    obtain ⟨hidle, hout⟩ := h.idleBox hc
    refine ⟨hidle.servoEn, hidle.ledPwm, hidle.ledEn, ?_⟩
    rw [(sendI2c_pending hok).1, show s.file.pending = [] from hout]
    rfl
  · intro e fw hfw exitFuel cmd
    -- every point is a state of the reply protocol, from which the handler works
    obtain ⟨hfault, hregs⟩ := beforeExit_spec ((recordedStep_spec hok e).2 fw hfw) exitFuel cmd
    rw [hregs]
    exact ⟨hfault, rfl, rfl, rfl⟩

/-- The server that has just started, with a signal while the first client is let in. -/
theorem safe_idle_and_exit_firstStart :
    (firstStart.connected = false →
      firstStart.file.regs.servoEn = 0 ∧ firstStart.file.regs.ledPwm = 255 ∧
        firstStart.file.regs.ledEn = 1 ∧ firstStart.file.sendI2c.1 = 0) ∧
    ∀ e : Event, ∀ fw ∈ signalPoints 0 firstStart e, ∀ (exitFuel : Nat) (cmd : CharBuf 16),
      (beforeExit firmwareBus (exitFuel + 8) cmd fw).1.fault = none ∧
        (beforeExit firmwareBus (exitFuel + 8) cmd fw).1.file.regs.servoEn = 0 ∧
        (beforeExit firmwareBus (exitFuel + 8) cmd fw).1.file.regs.ledPwm = 255 ∧
        (beforeExit firmwareBus (exitFuel + 8) cmd fw).1.file.regs.ledEn = 0 :=
  safe_idle_and_exit reachable_firstStart

end ProjZ
