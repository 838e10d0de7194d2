import ProjZ.Firmware.ReplyProtocol
import ProjZ.Server.ZServer

/-!
# The server over the firmware's mailbox

The server does the same whether the device behind `file` is the firmware or the
mailbox it refines (`Simulates.step`): every piece of the program commutes with an
abstraction of the device. So everything about the server over the firmware can be
computed over the mailbox, where one exchange is one equation (`exchange_mailbox`):
the C string in `cmd` is forwarded, its reply lands at the start of `cmd`, and the
registers have taken the command's effect.
-/

namespace ProjZ

open Ascii

namespace Server

/-! ## Replacing the device -/

section Simulation

variable {δ δ' : Type} {bus : I2cBus δ} {bus' : I2cBus δ'} {abs : δ → δ'} {Inv : δ → Prop}

/-- The server with another device. -/
def map (abs : δ → δ') (s : Server δ) : Server δ' where
  file := abs s.file
  cmd := s.cmd
  j := s.j
  connected := s.connected
  fault := s.fault

/-- The bus `bus'` answers as `bus` does through `abs`, in the states of `Inv`. -/
structure BusRefines (bus : I2cBus δ) (bus' : I2cBus δ') (abs : δ → δ')
    (Inv : δ → Prop) : Prop where
  inv_write : ∀ m d, Inv d → Inv (bus.write m d)
  inv_read : ∀ d, Inv d → Inv (bus.read d).2
  abs_write : ∀ m d, Inv d → bus'.write m (abs d) = abs (bus.write m d)
  abs_read : ∀ d, Inv d → bus'.read (abs d) = ((bus.read d).1, abs (bus.read d).2)

/-- `g` on the abstract server does what `f` does on the concrete one. -/
def Simulates (abs : δ → δ') (Inv : δ → Prop) (f : Server δ → Server δ × List Output)
    (g : Server δ' → Server δ' × List Output) : Prop :=
  ∀ s, Inv s.file → Inv (f s).1.file ∧ g (s.map abs) = ((f s).1.map abs, (f s).2)

theorem Simulates.andThen {f₁ f₂ : Server δ → Server δ × List Output}
    {g₁ g₂ : Server δ' → Server δ' × List Output} (h₁ : Simulates abs Inv f₁ g₁)
    (h₂ : Simulates abs Inv f₂ g₂) :
    Simulates abs Inv (Server.andThen f₁ f₂) (Server.andThen g₁ g₂) := by
  intro s hs
  obtain ⟨hinv, heq⟩ := h₁ s hs
  have hfault : (g₁ (s.map abs)).1.fault = (f₁ s).1.fault := by
    rw [heq]
    rfl
  -- both programs go on, or neither does
  cases hf : (f₁ s).1.fault with
  | some f =>
    rw [andThen_of_fault (by rw [hf]; rfl), andThen_of_fault (by rw [hfault, hf]; rfl)]
    exact ⟨hinv, heq⟩
  | none =>
    rw [andThen_of_no_fault hf, andThen_of_no_fault (hfault.trans hf)]
    obtain ⟨hinv₂, heq₂⟩ := h₂ (f₁ s).1 hinv
    refine ⟨hinv₂, ?_⟩
    rw [heq, heq₂]

/-- The reply loop reads the same bytes. -/
theorem BusRefines.replyLoop (h : BusRefines bus bus' abs Inv) (fuel i : Nat)
    (cmd : CharBuf 16) {d : δ} (hd : Inv d) :
    match Server.replyLoop bus fuel i cmd d with
    | .ok (cmd', d') =>
      Inv d' ∧ Server.replyLoop bus' fuel i cmd (abs d) = .ok (cmd', abs d')
    | .error f => Server.replyLoop bus' fuel i cmd (abs d) = .error f := by
  -- each read is one read of `bus'`, so the two loops stop together
  induction fuel generalizing i cmd d with
  | zero => rfl
  | succ fuel ih =>
    have hread := h.abs_read d hd
    have hinv := h.inv_read d hd
    match hr : bus.read d with
    | (none, d') =>
      rw [hr] at hinv hread
      rw [replyLoop_failed hr, replyLoop_failed hread]
      exact ih (i + 1) cmd hinv
    | (some tmp, d') =>
      rw [hr] at hinv hread
      cases hw : cmd.write i tmp with
      | none =>
        rw [replyLoop_past hr hw, replyLoop_past hread hw]
      | some cmd' =>
        by_cases h0 : tmp = 0
        · subst h0
          rw [replyLoop_end hr hw, replyLoop_end hread hw]
          exact ⟨hinv, rfl⟩
        · rw [replyLoop_byte hr hw h0, replyLoop_byte hread hw h0]
          exact ih (i + 1) cmd' hinv

variable (h : BusRefines bus bus' abs Inv) (fuel : Nat)

include h in
theorem Simulates.exchange :
    Simulates abs Inv (Server.exchange bus fuel) (Server.exchange bus' fuel) := by
  intro s hs
  cases hc : s.cmd.cstr with
  | none =>
    rw [exchange_overread bus fuel hc, exchange_overread bus' fuel (s := s.map abs) hc]
    exact ⟨hs, rfl⟩
  | some msg =>
    -- the same string is written, and the loops start from related devices
    have hwrite : bus'.write msg (s.map abs).file = abs (bus.write msg s.file) :=
      h.abs_write msg s.file hs
    have hloop := h.replyLoop fuel 0 s.cmd (h.inv_write msg s.file hs)
    rw [← hwrite] at hloop
    match hl : Server.replyLoop bus fuel 0 s.cmd (bus.write msg s.file) with
    | .error f =>
      rw [hl] at hloop
      rw [exchange_error bus fuel hc hl, exchange_error bus' fuel (s := s.map abs) hc hloop]
      exact ⟨hs, rfl⟩
    | .ok (cmd', d') =>
      rw [hl] at hloop
      rw [exchange_ok bus fuel hc hl, exchange_ok bus' fuel (s := s.map abs) hc hloop.2]
      exact ⟨hloop.1, rfl⟩

include h in
theorem Simulates.commands (texts : List (List UInt8)) :
    Simulates abs Inv (Server.commands bus fuel texts) (Server.commands bus' fuel texts) := by
  induction texts with
  | nil => exact fun s hs => ⟨hs, rfl⟩
  | cons text texts ih =>
    have hcommand : Simulates abs Inv (Server.command bus fuel text)
        (Server.command bus' fuel text) := by
      intro s hs
      cases hw : s.cmd.writes (CharBuf.stores 0 (text ++ [0])) with
      | none =>
        rw [command_outOfBounds bus fuel hw, command_outOfBounds bus' fuel (s := s.map abs) hw]
        exact ⟨hs, rfl⟩
      | some cmd =>
        rw [command_stored bus fuel hw, command_stored bus' fuel (s := s.map abs) hw]
        exact Simulates.exchange h fuel { s with cmd := cmd } hs
    exact hcommand.andThen ih

theorem Simulates.formatReply (flag : Bool) :
    Simulates abs Inv (Server.formatReply flag) (Server.formatReply flag) := by
  intro s hs
  cases flag with
  | false => exact ⟨hs, rfl⟩
  | true =>
    cases hc : s.cmd.cstr with
    | none =>
      rw [formatReply_overread hc, formatReply_overread (s := s.map abs) hc]
      exact ⟨hs, rfl⟩
    | some reply =>
      rw [formatReply_get hc, formatReply_get (s := s.map abs) hc]
      exact ⟨hs, rfl⟩

include h in
theorem Simulates.processCmd :
    Simulates abs Inv (Server.processCmd bus fuel) (Server.processCmd bus' fuel) := by
  intro s hs
  cases hc : s.cmd.cstr with
  | none =>
    rw [processCmd_overread bus fuel hc, processCmd_overread bus' fuel (s := s.map abs) hc]
    exact ⟨hs, rfl⟩
  | some msg =>
    rcases Nat.lt_or_ge msg.length 3 with hlen | hlen
    · rw [processCmd_short bus fuel hc hlen, processCmd_short bus' fuel (s := s.map abs) hc hlen]
      exact ⟨hs, rfl⟩
    · rw [processCmd_command bus fuel hc hlen,
        processCmd_command bus' fuel (s := s.map abs) hc hlen]
      exact (Simulates.exchange h fuel).andThen (Simulates.formatReply _) s hs

include h in
theorem Simulates.recvChunk (message : List UInt8) :
    Simulates abs Inv (Server.recvChunk bus fuel message)
      (Server.recvChunk bus' fuel message) := by
  intro s hs
  cases hscan : scanChunk s.j 0 message s.cmd with
  | mk cmd scanEnd =>
    cases scanEnd with
    | full =>
      rw [recvChunk_full bus fuel hscan, recvChunk_full bus' fuel (s := s.map abs) hscan]
      exact ⟨hs, rfl⟩
    | overflow =>
      rw [recvChunk_overflow bus fuel hscan, recvChunk_overflow bus' fuel (s := s.map abs) hscan]
      exact ⟨hs, rfl⟩
    | complete =>
      rw [recvChunk_complete bus fuel hscan,
        recvChunk_complete bus' fuel (s := s.map abs) hscan]
      exact Simulates.processCmd h fuel { s with cmd := cmd, j := 0 } hs
    | outOfBounds =>
      rw [recvChunk_outOfBounds bus fuel hscan,
        recvChunk_outOfBounds bus' fuel (s := s.map abs) hscan]
      exact ⟨hs, rfl⟩

include h in
/-- **Replacing the device changes nothing**: a step over `bus` is a step over `bus'`. -/
theorem Simulates.step (e : Event) :
    Simulates abs Inv (fun s => Server.step bus fuel s e)
      (fun s => Server.step bus' fuel s e) := by
  intro s hs
  show Inv (Server.step bus fuel s e).1.file ∧
    Server.step bus' fuel (s.map abs) e =
      ((Server.step bus fuel s e).1.map abs, (Server.step bus fuel s e).2)
  cases hf : s.fault with
  | some f =>
    have hsome : s.fault.isSome = true := by
      rw [hf]
      rfl
    rw [step_fault hsome, step_fault (s := s.map abs) hsome]
    exact ⟨hs, rfl⟩
  | none =>
    cases hc : s.connected with
    | false =>
      cases e with
      | accept =>
        rw [step_accept hf hc, step_accept (s := s.map abs) hf hc]
        -- the device is spoken to in three events only: at the accept,
        exact Simulates.commands h fuel connectCommands { s with connected := true } hs
      | _ =>
        rw [step_idle (by rw [hc]; rfl), step_idle (s := s.map abs) (by rw [Server.map, hc]; rfl)]
        exact ⟨hs, rfl⟩
    | true =>
      cases e with
      | recv chunk =>
        rw [step_recv hf hc, step_recv (s := s.map abs) hf hc]
        -- with a chunk,
        exact Simulates.recvChunk h fuel chunk.message s hs
      | disconnect =>
        rw [step_disconnect hf hc, step_disconnect (s := s.map abs) hf hc]
        -- and at the disconnect
        exact Simulates.commands h fuel idleCommands { s with connected := false } hs
      | _ =>
        rw [step_idle (by rw [hc]; rfl), step_idle (s := s.map abs) (by rw [Server.map, hc]; rfl)]
        exact ⟨hs, rfl⟩

end Simulation

/-! ## The firmware's bus and its mailbox -/

/-- A device whose reads succeed, as the server sees it. -/
def busOf {δ : Type} (D : Mailbox.Device δ (List UInt8) UInt8) : I2cBus δ where
  write := D.post
  read d := (some (D.read d).1, (D.read d).2)

/-- The bus with the firmware at its other end. -/
def firmwareBus : I2cBus Firmware := busOf i2cSlave

/-- The bus with the firmware's mailbox at its other end. -/
def mailboxBus : I2cBus (Mailbox.Box Regs UInt8) := busOf i2cSpec.box

/-- A refined mailbox is a refined bus. -/
theorem BusRefines.ofRefines {δ : Type} {ρ : Type} {D : Mailbox.Device δ (List UInt8) UInt8}
    {S : Mailbox.Spec ρ (List UInt8) UInt8} {abs : δ → Mailbox.Box ρ UInt8} {Inv : δ → Prop}
    (h : Mailbox.Refines D S abs Inv) : BusRefines (busOf D) (busOf S.box) abs Inv where
  inv_write := h.inv_post
  inv_read := h.inv_read
  abs_write m d hd := (h.abs_post m d hd).symm
  abs_read d hd := by
    show (some (S.box.read (abs d)).1, (S.box.read (abs d)).2) = _
    rw [← h.read_fst d hd, ← h.abs_read d hd]
    rfl

theorem firmwareBus_refines : BusRefines firmwareBus mailboxBus Firmware.box ReplyOk :=
  .ofRefines i2cSlave_refines

/-! ## One exchange -/

section Mailbox

variable (fuel : Nat)

/-- The reply loop copies what is pending and stops at its `'\0'`. -/
theorem replyLoop_mailbox {out : List UInt8} {fuel i : Nat} {cmd : CharBuf 16} {regs : Regs}
    (h0 : 0 ∉ out) (hi : i + out.length < 16) (hfuel : out.length < fuel) :
    replyLoop mailboxBus fuel i cmd ⟨regs, out⟩ =
      .ok (cmd.overlay i (out ++ [0]), ⟨regs, []⟩) := by
  -- one byte of the reply a read, the filler `'\0'` last
  induction out generalizing fuel i cmd with
  | nil =>
    obtain ⟨fuel, rfl⟩ : ∃ f, fuel = f + 1 := ⟨fuel - 1, by simp at hfuel; omega⟩
    have hread : mailboxBus.read ⟨regs, []⟩ = (some 0, ⟨regs, []⟩) := rfl
    have hw : cmd.write i 0 = some (cmd.set i 0) := CharBuf.write_of_lt (by simpa using hi) _ _
    exact replyLoop_end hread hw
  | cons c out ih =>
    obtain ⟨fuel, rfl⟩ : ∃ f, fuel = f + 1 := ⟨fuel - 1, by simp at hfuel; omega⟩
    rw [List.length_cons] at hi hfuel
    have hc : c ≠ 0 := fun h => h0 (h ▸ List.mem_cons_self ..)
    have hread : mailboxBus.read ⟨regs, c :: out⟩ = (some c, ⟨regs, out⟩) := rfl
    have hw : cmd.write i c = some (cmd.set i c) := CharBuf.write_of_lt (by omega) _ _
    rw [replyLoop_byte hread hw hc,
      ih (fun h => h0 (List.mem_cons_of_mem c h)) (by omega) (by omega)]
    rfl

/-- The mailbox after a command whose reply has been read to its end. -/
def takeEffect (file : Mailbox.Box Regs UInt8) (m : List UInt8) : Mailbox.Box Regs UInt8 :=
  ⟨effect m file.store, []⟩

/-- **One exchange**: the C string is forwarded, the reply lands at the start of `cmd`,
the registers take the effect, and nothing is left to read. -/
theorem exchange_mailbox {s : Server (Mailbox.Box Regs UInt8)} {m : List UInt8}
    (h : s.cmd.cstr = some m) :
    exchange mailboxBus (fuel + 8) s =
      ({ s with
          cmd := s.cmd.overlay 0 (reply (verdict m) s.file.store ++ [0])
          file := takeEffect s.file m },
        [.forward m]) := by
  have hwrite : mailboxBus.write m s.file =
      ⟨effect m s.file.store, reply (verdict m) s.file.store⟩ := by
    show (⟨_, reply (verdict m) (effect m s.file.store)⟩ : Mailbox.Box Regs UInt8) = _
    rw [reply_effect]
    rfl
  have hlen := reply_length_lt (verdict m) s.file.store
  unfold exchange
  rw [h]
  dsimp only
  rw [hwrite, replyLoop_mailbox (zero_notMem_reply _ _) (by omega) (by omega)]
  rfl

/-- What one of the server's own set commands leaves in `cmd`: its text under the
reply `"T"`. -/
def settle (cmd : CharBuf 16) (text : List UInt8) : CharBuf 16 :=
  (cmd.overlay 0 (text ++ [0])).overlay 0 ['T'.toUInt8, 0]

/-- A text that fits `cmd` and is an accepted set. -/
structure SetCommand (text : List UInt8) : Prop where
  length_lt : text.length < 16
  zero_notMem : 0 ∉ text
  verdict_eq : verdict text = .set

theorem setCommand_idle : ∀ text ∈ idleCommands, SetCommand text := by
  have hall : ∀ text ∈ idleCommands, text.length < 16 ∧ 0 ∉ text ∧ verdict text = .set := by
    decide +kernel
  exact fun text h => ⟨(hall text h).1, (hall text h).2.1, (hall text h).2.2⟩

theorem setCommand_connect : ∀ text ∈ connectCommands, SetCommand text := by
  have hall : ∀ text ∈ connectCommands, text.length < 16 ∧ 0 ∉ text ∧ verdict text = .set := by
    decide +kernel
  exact fun text h => ⟨(hall text h).1, (hall text h).2.1, (hall text h).2.2⟩

theorem command_mailbox {text : List UInt8} (h : SetCommand text)
    (s : Server (Mailbox.Box Regs UInt8)) :
    command mailboxBus (fuel + 8) text s =
      ({ s with cmd := settle s.cmd text, file := takeEffect s.file text },
        [.forward text]) := by
  have hroom : 0 + (text ++ [0]).length ≤ 16 := by
    have hlt := h.length_lt
    rw [List.length_append, List.length_singleton]
    omega
  rw [command_stored _ _ (CharBuf.writes_stores hroom s.cmd),
    exchange_mailbox fuel (CharBuf.cstr_overlay h.length_lt h.zero_notMem), h.verdict_eq]
  rfl

/-- The server's command sequences: all are forwarded and take effect. -/
theorem commands_mailbox {texts : List (List UInt8)} (h : ∀ text ∈ texts, SetCommand text)
    {s : Server (Mailbox.Box Regs UInt8)} (hf : s.fault = none) :
    commands mailboxBus (fuel + 8) texts s =
      ({ s with
          cmd := texts.foldl settle s.cmd
          file := texts.foldl takeEffect s.file },
        texts.map .forward) := by
  induction texts generalizing s with
  | nil => rfl
  | cons text texts ih =>
    have hhead := command_mailbox fuel (h text (List.mem_cons_self ..)) s
    have hf' : (command mailboxBus (fuel + 8) text s).1.fault = none := by
      rw [hhead]
      exact hf
    have htail := ih (fun t ht => h t (List.mem_cons_of_mem text ht)) hf'
    show andThen _ _ s = _
    rw [andThen_of_no_fault hf', htail, hhead]
    rfl

end Mailbox

end Server

end ProjZ
