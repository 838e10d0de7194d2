import ProjZ.Server.Receive

/-!
# Runs of the server

`zServer` is the server over the firmware and `mServer` the server over the
firmware's mailbox; on any events they emit the same outputs (`zServer_outputs`). A
state is `Reachable` when it follows, by any events, from a start-up on a firmware
with any earlier messages and reads and on any uninitialised `cmd`. Every reachable
state is `Sound`: no fault has occurred, `j ≤ 16`, and the firmware keeps its
reply invariant.
-/

namespace ProjZ

open Server

/-- The server over the firmware; each reply loop is given at least eight reads. -/
def zServer (fuel : Nat) : Server Firmware → Event → Server Firmware × List Output :=
  Server.step firmwareBus (fuel + 8)

/-- The server over the firmware's mailbox. -/
def mServer (fuel : Nat) : Server (Mailbox.Box Regs UInt8) → Event →
    Server (Mailbox.Box Regs UInt8) × List Output :=
  Server.step mailboxBus (fuel + 8)

variable (fuel : Nat)

/-- The two servers run in lockstep. -/
theorem zServer_run {s : Server Firmware} (h : ReplyOk s.file) (es : List Event) :
    (ReplyOk (Runs.final (zServer fuel) s es).file ∧
      Runs.final (mServer fuel) (s.map Firmware.box) es =
        (Runs.final (zServer fuel) s es).map Firmware.box) ∧
    Runs.outputs (zServer fuel) s es = Runs.outputs (mServer fuel) (s.map Firmware.box) es := by
  refine Runs.outputs_eq_of_bisim
    (R := fun (s : Server Firmware) t => ReplyOk s.file ∧ t = s.map Firmware.box) ?_ ⟨h, rfl⟩ es
  rintro e s t ⟨hs, rfl⟩
  obtain ⟨hinv, hstep⟩ := Simulates.step firmwareBus_refines (fuel + 8) e s hs
  have hm : mServer fuel (s.map Firmware.box) e =
      ((zServer fuel s e).1.map Firmware.box, (zServer fuel s e).2) := hstep
  rw [hm]
  exact ⟨⟨hinv, rfl⟩, rfl⟩

theorem zServer_outputs {s : Server Firmware} (h : ReplyOk s.file) (es : List Event) :
    Runs.outputs (zServer fuel) s es = Runs.outputs (mServer fuel) (s.map Firmware.box) es :=
  (zServer_run fuel h es).2

theorem zServer_final {s : Server Firmware} (h : ReplyOk s.file) (es : List Event) :
    (Runs.final (zServer fuel) s es).map Firmware.box =
      Runs.final (mServer fuel) (s.map Firmware.box) es :=
  (zServer_run fuel h es).1.2.symm

/-- One step over the firmware, read off the step over its mailbox. -/
theorem zServer_eq {s : Server Firmware} (h : ReplyOk s.file) {e : Event}
    {t : Server (Mailbox.Box Regs UInt8)} {outs : List Output}
    (hm : mServer fuel (s.map Firmware.box) e = (t, outs)) :
    (zServer fuel s e).1.map Firmware.box = t ∧ (zServer fuel s e).2 = outs := by
  obtain ⟨-, hstep⟩ := Simulates.step firmwareBus_refines (fuel + 8) e s h
  have hboth := hstep.symm.trans hm
  exact ⟨congrArg Prod.fst hboth, congrArg Prod.snd hboth⟩

/-! ## The steps of the server over the mailbox -/

section Steps

variable {s : Server (Mailbox.Box Regs UInt8)}

/-- A client connects. -/
theorem mServer_accept (hf : s.fault = none) (hc : s.connected = false) :
    mServer fuel s .accept =
      ({ s with
          cmd := connectCommands.foldl settle s.cmd
          file := connectCommands.foldl takeEffect s.file
          connected := true },
        connectCommands.map .forward) := by
  rw [show mServer fuel s .accept = _ from step_accept hf hc]
  exact commands_mailbox fuel setCommand_connect (s := { s with connected := true }) hf

/-- A client has gone. -/
theorem mServer_disconnect (hf : s.fault = none) (hc : s.connected = true) :
    mServer fuel s .disconnect =
      ({ s with
          cmd := idleCommands.foldl settle s.cmd
          file := idleCommands.foldl takeEffect s.file
          connected := false },
        idleCommands.map .forward) := by
  rw [show mServer fuel s .disconnect = _ from step_disconnect hf hc]
  exact commands_mailbox fuel setCommand_idle (s := { s with connected := false }) hf

/-- Nothing happens. -/
theorem mServer_idle {e : Event} (h : e.acts s.connected = false) :
    mServer fuel s e = (s, []) :=
  step_idle h

theorem mServer_full (hf : s.fault = none) (hc : s.connected = true) {chunk : Chunk}
    (h0 : 0 ∉ chunk.message) (h : s.j + chunk.message.length ≤ 16) :
    mServer fuel s (.recv chunk) =
      ({ s with cmd := s.cmd.overlay s.j chunk.message, j := chunk.message.length }, []) :=
  step_full hf hc h0 h

theorem mServer_overflow (hf : s.fault = none) (hc : s.connected = true) {chunk : Chunk}
    {pre : List UInt8} {c : UInt8} {rest : List UInt8} (hm : chunk.message = pre ++ c :: rest)
    (h0 : 0 ∉ pre) (h : s.j + pre.length = 16) :
    mServer fuel s (.recv chunk) =
      ({ s with cmd := s.cmd.overlay s.j pre, j := 0 }, []) :=
  step_overflow hf hc hm h0 h

/-- A completed string is dropped when it is short, executed otherwise. -/
theorem mServer_complete (hf : s.fault = none) (hc : s.connected = true) {chunk : Chunk}
    {pre rest : List UInt8} (hm : chunk.message = pre ++ 0 :: rest) (h0 : 0 ∉ pre)
    (h : s.j + pre.length < 16) :
    ∃ m, (s.cmd.overlay s.j (pre ++ [0])).cstr = some m ∧
      ((m.length < 3 ∧ mServer fuel s (.recv chunk) =
          ({ s with cmd := s.cmd.overlay s.j (pre ++ [0]), j := 0 }, [])) ∨
        (3 ≤ m.length ∧ mServer fuel s (.recv chunk) =
          ({ s with
              cmd := cmdAfter m s.file.store (s.cmd.overlay s.j (pre ++ [0]))
              file := takeEffect s.file m
              j := 0 },
            [.forward m, clientReply m s.file.store]))) := by
  have hroom : s.j + (pre ++ [0]).length ≤ 16 := by
    rw [List.length_append, List.length_singleton]
    omega
  -- the string may begin with bytes of earlier chunks, or be cut short by their `'\0'`
  obtain ⟨m, hcstr⟩ := CharBuf.exists_cstr (CharBuf.mem_overlay (b := s.cmd) hroom
    (List.mem_append_right pre (List.mem_singleton_self 0)))
  have hstep : mServer fuel s (.recv chunk) =
      processCmd mailboxBus (fuel + 8)
        { s with cmd := s.cmd.overlay s.j (pre ++ [0]), j := 0 } :=
    step_complete hf hc hm h0 h
  refine ⟨m, hcstr, ?_⟩
  rw [hstep]
  rcases Nat.lt_or_ge m.length 3 with hlen | hlen
  · exact Or.inl ⟨hlen, processCmd_short _ _ hcstr hlen⟩
  · refine Or.inr ⟨hlen, ?_⟩
    exact processCmd_mailbox fuel
      (s := { s with cmd := s.cmd.overlay s.j (pre ++ [0]), j := 0 }) hf hcstr hlen

/-- No step leaves the bounds. -/
theorem mServer_sound (hf : s.fault = none) (hj : s.j ≤ 16) (e : Event) :
    (mServer fuel s e).1.fault = none ∧ (mServer fuel s e).1.j ≤ 16 := by
  cases hc : s.connected with
  | false =>
    cases e with
    | accept =>
      rw [mServer_accept fuel hf hc]
      exact ⟨hf, hj⟩
    | _ =>
      rw [mServer_idle fuel (by rw [hc]; rfl)]
      exact ⟨hf, hj⟩
  | true =>
    cases e with
    | recv chunk =>
      -- the chunk is stored whole, completes a command, or is over-long
      rcases chunk_cases hj chunk.message with ⟨h0, hlen⟩ | ⟨pre, rest, hm, h0, hlen⟩ |
        ⟨pre, c, rest, hm, h0, hlen⟩
      · rw [mServer_full fuel hf hc h0 hlen]
        exact ⟨hf, by show chunk.message.length ≤ 16; omega⟩
      · obtain ⟨m, -, ⟨-, hstep⟩ | ⟨-, hstep⟩⟩ := mServer_complete fuel hf hc hm h0 hlen
        · rw [hstep]
          exact ⟨hf, Nat.zero_le 16⟩
        · rw [hstep]
          exact ⟨hf, Nat.zero_le 16⟩
      · rw [mServer_overflow fuel hf hc hm h0 hlen]
        exact ⟨hf, Nat.zero_le 16⟩
    | disconnect =>
      rw [mServer_disconnect fuel hf hc]
      exact ⟨hf, hj⟩
    | _ =>
      rw [mServer_idle fuel (by rw [hc]; rfl)]
      exact ⟨hf, hj⟩

end Steps

/-! ## Reachable states -/

variable {fuel}

/-- The states of the server over the firmware. -/
inductive Reachable (fuel : Nat) : Server Firmware → Prop
  | startUp (vIn gpio0 : Bool) (calls : List (Mailbox.Call (List UInt8)))
      (cmd : CharBuf 16) :
      Reachable fuel (Server.startUp firmwareBus (fuel + 8)
        (Runs.run i2cSlave.step (setup vIn gpio0) calls) cmd)
  | step {s : Server Firmware} (h : Reachable fuel s) (e : Event) :
      Reachable fuel (zServer fuel s e).1

/-- What holds between any two events. -/
structure Sound (s : Server Firmware) : Prop where
  replyOk : ReplyOk s.file
  fault : s.fault = none
  j_le : s.j ≤ 16

theorem Sound.step {s : Server Firmware} (h : Sound s) (e : Event) :
    Sound (zServer fuel s e).1 := by
  obtain ⟨hinv, hstep⟩ := Simulates.step firmwareBus_refines (fuel + 8) e s h.replyOk
  have hm : mServer fuel (s.map Firmware.box) e =
      ((zServer fuel s e).1.map Firmware.box, (zServer fuel s e).2) := hstep
  have hsound := mServer_sound fuel (s := s.map Firmware.box) h.fault h.j_le e
  rw [hm] at hsound
  exact ⟨hinv, hsound.1, hsound.2⟩

/-- The start-up over the mailbox. -/
theorem startUp_box (fuel : Nat) {fw : Firmware} (h : ReplyOk fw) (cmd : CharBuf 16) :
    ReplyOk (Server.startUp firmwareBus (fuel + 8) fw cmd).file ∧
      (Server.startUp firmwareBus (fuel + 8) fw cmd).map Firmware.box =
        ⟨idleCommands.foldl takeEffect fw.box, idleCommands.foldl settle cmd, 0, false, none⟩ := by
  obtain ⟨hinv, hstep⟩ := Simulates.commands firmwareBus_refines (fuel + 8) idleCommands
    ⟨fw, cmd, 0, false, none⟩ h
  refine ⟨hinv, ?_⟩
  have hbox := commands_mailbox fuel setCommand_idle
    (s := (⟨fw.box, cmd, 0, false, none⟩ : Server (Mailbox.Box Regs UInt8))) rfl
  rw [show Server.map Firmware.box ⟨fw, cmd, 0, false, none⟩ = _ from rfl] at hstep
  exact congrArg Prod.fst (hstep.symm.trans hbox)

/-- **Every reachable state is sound.** -/
theorem Reachable.sound {s : Server Firmware} (h : Reachable fuel s) : Sound s := by
  induction h with
  | startUp vIn gpio0 calls cmd =>
    -- whatever the firmware was asked before the server started
    have hok : ReplyOk (Runs.run i2cSlave.step (setup vIn gpio0) calls) :=
      i2cSlave_refines.inv_run (replyOk_setup vIn gpio0) calls
    obtain ⟨hinv, hbox⟩ := startUp_box fuel hok cmd
    have hfault := congrArg Server.fault hbox
    have hj := congrArg Server.j hbox
    exact ⟨hinv, hfault, hj.trans_le (Nat.zero_le 16)⟩
  | step _ e ih => exact ih.step e

theorem Reachable.run {s : Server Firmware} (h : Reachable fuel s) (es : List Event) :
    Reachable fuel (Runs.final (zServer fuel) s es) :=
  Runs.run_invariant h (fun e _ ht => ht.step e) es

/-- A server that has just started. -/
def firstStart : Server Firmware :=
  Server.startUp firmwareBus 8 (setup true true) ⟨List.replicate 16 0, rfl⟩

theorem reachable_firstStart : Reachable 0 firstStart :=
  .startUp true true [] ⟨List.replicate 16 0, rfl⟩

/-- A server that has just accepted its first client. -/
def firstConnection : Server Firmware := (zServer 0 firstStart .accept).1

theorem reachable_firstConnection : Reachable 0 firstConnection :=
  reachable_firstStart.step .accept

theorem firstConnection_connected : firstConnection.connected = true := by decide +kernel

theorem firstConnection_j : firstConnection.j = 0 := by decide +kernel

end ProjZ
