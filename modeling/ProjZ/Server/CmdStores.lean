import ProjZ.Server.Reachable

/-!
# The stores into `cmd`

Every store of the server into `cmd` as an entry of a log, index and byte. The two loops
are the program's own, run on a log in the place of `cmd` (`replyLog`, `scanLog`), so that
what keeps an index inside is theirs; the newline (`newlineLog`) and the texts of the
server's own commands (`commandLog`) are noted where the program stores them.

Carried out with every index checked, the log of a piece that ends without a fault
gives the `cmd` the piece leaves (`Stores`, and `stores_step` for a whole event). No
fault occurs in a reachable state, so over any run of the server no index is past 15
(`cmd_discipline`).
-/

namespace ProjZ

open Ascii Server

namespace Server

section Logs

variable {δ : Type} (bus : I2cBus δ) (fuel : Nat)

/-! ## The logs -/

/-- `cmd[i] = tmp` in the reply loop, for a loop that ends. -/
def replyLog (file : δ) : List (Nat × UInt8) :=
  match replyInto bus CharBuf.record fuel 0 [] file with
  | .ok (log, _) => log
  | .error _ => []

/-- `cmd[i + j] = client_message[i]` in the receive loop. -/
def scanLog (j : Nat) (message : List UInt8) : List (Nat × UInt8) :=
  (scanInto CharBuf.record j 0 message []).1

/-- `cmd[len] = '\n'` or `cmd[1] = '\n'`. -/
def newlineLog (flag : Bool) (s : Server δ) : List (Nat × UInt8) :=
  (newlineAt flag s.cmd).toList.map fun place => (place.1, '\n'.toUInt8)

/-- The log of two pieces in sequence. -/
def thenLog (f : Server δ → Server δ × List Output) (log log' : Server δ → List (Nat × UInt8))
    (s : Server δ) : List (Nat × UInt8) :=
  log s ++ if (f s).1.fault.isSome then [] else log' (f s).1

/-- The stores of an exchange are those of its reply loop. -/
def exchangeLog (s : Server δ) : List (Nat × UInt8) :=
  match s.cmd.cstr with
  | none => []
  | some msg => replyLog bus fuel (bus.write msg s.file)

/-- The text of a command, its `'\0'`, and the exchange. -/
def commandLog (text : List UInt8) (s : Server δ) : List (Nat × UInt8) :=
  CharBuf.stores 0 (text ++ [0]) ++
    match s.cmd.writes (CharBuf.stores 0 (text ++ [0])) with
    | none => []
    | some cmd => exchangeLog bus fuel { s with cmd := cmd }

/-- Several commands, up to the first that does not end. -/
def commandsLog : List (List UInt8) → Server δ → List (Nat × UInt8)
  | [], _ => []
  | text :: texts, s =>
    thenLog (command bus fuel text) (commandLog bus fuel text) (commandsLog texts) s

/-- A command of at least three bytes: the exchange and the newline. -/
def processLog (s : Server δ) : List (Nat × UInt8) :=
  match s.cmd.cstr with
  | none => []
  | some msg =>
    if msg.length < 3 then []
    else
      let flag := decide (toupper (s.cmd.bytes.headD 0) = 'G'.toUInt8)
      thenLog (exchange bus fuel) (exchangeLog bus fuel) (newlineLog flag) s

/-- The bytes of a chunk, and what is stored when they complete a command. -/
def chunkLog (message : List UInt8) (s : Server δ) : List (Nat × UInt8) :=
  scanLog s.j message ++
    match scanChunk s.j 0 message s.cmd with
    | (_, .full) => []
    | (_, .overflow) => []
    | (_, .outOfBounds) => []
    | (cmd, .complete) => processLog bus fuel { s with cmd := cmd, j := 0 }

/-- The stores of an event. -/
def stepLog (s : Server δ) (e : Event) : List (Nat × UInt8) :=
  if s.fault.isSome then []
  else
    match s.connected, e with
    | false, .accept => commandsLog bus fuel connectCommands { s with connected := true }
    | true, .recv chunk => chunkLog bus fuel chunk.message s
    | true, .disconnect => commandsLog bus fuel idleCommands { s with connected := false }
    | _, _ => []

/-! ## What the logs are logs of -/

/-- The log of a piece of the program that ends without a fault can be carried out, and
leads to its `cmd`. -/
def Stores (f : Server δ → Server δ × List Output) (log : Server δ → List (Nat × UInt8)) :
    Prop :=
  ∀ s, (f s).1.fault = none → s.cmd.writes (log s) = some (f s).1.cmd

/-- Logs are put together as the pieces of the program are. -/
theorem Stores.andThen {f g : Server δ → Server δ × List Output}
    {log log' : Server δ → List (Nat × UInt8)} (hf : Stores f log) (hg : Stores g log') :
    Stores (Server.andThen f g) (thenLog f log log') := by
  intro s hs
  cases hfault : (f s).1.fault with
  | some fault =>
    rw [andThen_of_fault (by rw [hfault]; rfl), hfault] at hs
    cases hs
  | none =>
    rw [andThen_of_no_fault hfault] at hs ⊢
    have hlog : thenLog f log log' s = log s ++ log' (f s).1 := by
      rw [thenLog, hfault]
      rfl
    rw [hlog, CharBuf.writes_append (hf s hfault)]
    exact hg (f s).1 hs

variable {bus fuel}

/-- The reply loop on the log of what led to `cmd` makes the log of what leads on. -/
theorem replyInto_record {b : CharBuf 16} {log : List (Nat × UInt8)} {i : Nat}
    {cmd cmd' : CharBuf 16} {file file' : δ} (hlog : b.writes log = some cmd)
    (h : replyLoop bus fuel i cmd file = .ok (cmd', file')) :
    ∃ log', replyInto bus CharBuf.record fuel i log file = .ok (log', file') ∧
      b.writes log' = some cmd' := by
  -- both loops read the same bytes, and so stop at the same one
  induction fuel generalizing i cmd file log with
  | zero => cases h
  | succ fuel ih =>
    rw [replyInto]
    cases hr : bus.read file with
    | mk o file₁ =>
      cases o with
      | none =>
        rw [replyLoop_failed hr] at h
        exact ih hlog h
      | some tmp =>
        cases hw : cmd.write i tmp with
        | none =>
          rw [replyLoop_past hr hw] at h
          cases h
        | some cmd₁ =>
          have hlog' : b.writes (log ++ [(i, tmp)]) = some cmd₁ := CharBuf.writes_record hlog hw
          by_cases h0 : tmp = 0
          · subst h0
            rw [replyLoop_end hr hw] at h
            obtain ⟨rfl, rfl⟩ := Prod.mk.inj (Except.ok.inj h)
            exact ⟨log ++ [(i, 0)], rfl, hlog'⟩
          · rw [replyLoop_byte hr hw h0] at h
            dsimp only [CharBuf.record]
            rw [if_neg h0]
            exact ih hlog' h

/-- A reply loop that ends has made the stores of its log. -/
theorem writes_replyLog {cmd cmd' : CharBuf 16} {file file' : δ}
    (h : replyLoop bus fuel 0 cmd file = .ok (cmd', file')) :
    cmd.writes (replyLog bus fuel file) = some cmd' := by
  have hnone : cmd.writes [] = some cmd := rfl
  obtain ⟨log, hloop, hlog⟩ := replyInto_record hnone h
  rw [replyLog, hloop]
  exact hlog

/-- So does the receive loop, however it ends. -/
theorem scanInto_record {b cmd : CharBuf 16} {log : List (Nat × UInt8)}
    (hlog : b.writes log = some cmd) (j i : Nat) (message : List UInt8) :
    b.writes (scanInto CharBuf.record j i message log).1 =
      some (scanChunk j i message cmd).1 := by
  induction message generalizing i cmd log with
  | nil => exact hlog
  | cons c message ih =>
    rw [scanInto, scanChunk_cons]
    by_cases hin : 15 < i + j
    · rw [if_pos hin, if_pos hin]
      exact hlog
    · have hw : cmd.write (i + j) c = some (cmd.set (i + j) c) :=
        CharBuf.write_of_lt (by omega) ..
      have hlog' := CharBuf.writes_record hlog hw
      rw [if_neg hin, if_neg hin]
      dsimp only [CharBuf.record]
      by_cases hc : c = 0
      · rw [if_pos hc, if_pos hc]
        exact hlog'
      · rw [if_neg hc, if_neg hc]
        exact ih hlog' (i + 1)

/-- The newline is stored where the log says. -/
theorem stores_formatReply (flag : Bool) :
    Stores (formatReply flag) (newlineLog (δ := δ) flag) := by
  intro s hs
  unfold formatReply at hs ⊢
  unfold newlineLog
  cases hat : newlineAt flag s.cmd with
  | none =>
    rw [hat] at hs
    cases hs
  | some place =>
    rw [hat] at hs
    dsimp only at hs ⊢
    cases hw : s.cmd.write place.1 '\n'.toUInt8 with
    | none =>
      rw [hw] at hs
      cases hs
    | some cmd =>
      have hnone : s.cmd.writes [] = some s.cmd := rfl
      exact CharBuf.writes_record hnone hw

/-- An exchange stores its reply. -/
theorem stores_exchange : Stores (exchange bus fuel) (exchangeLog bus fuel) := by
  intro s hs
  cases hc : s.cmd.cstr with
  | none =>
    rw [exchange_overread bus fuel hc] at hs
    cases hs
  | some msg =>
    have hlog : exchangeLog bus fuel s = replyLog bus fuel (bus.write msg s.file) := by
      rw [exchangeLog, hc]
    match hl : replyLoop bus fuel 0 s.cmd (bus.write msg s.file) with
    | .error f =>
      rw [exchange_error bus fuel hc hl] at hs
      cases hs
    | .ok (cmd', file') =>
      rw [hlog, exchange_ok bus fuel hc hl]
      exact writes_replyLog hl

/-- A command of the server's own is stored before the reply to it, -/
theorem stores_command (text : List UInt8) :
    Stores (command bus fuel text) (commandLog bus fuel text) := by
  intro s hs
  unfold commandLog
  cases hw : s.cmd.writes (CharBuf.stores 0 (text ++ [0])) with
  | none =>
    rw [command_outOfBounds bus fuel hw] at hs
    cases hs
  | some cmd =>
    rw [command_stored bus fuel hw] at hs ⊢
    rw [CharBuf.writes_append hw]
    exact stores_exchange { s with cmd := cmd } hs

/-- and so are several. -/
theorem stores_commands (texts : List (List UInt8)) :
    Stores (commands bus fuel texts) (commandsLog bus fuel texts) := by
  induction texts with
  | nil => exact fun s _ => rfl
  | cons text texts ih => exact (stores_command text).andThen ih

/-- A command of the client has been stored by the receive loop. -/
theorem stores_processCmd : Stores (processCmd bus fuel) (processLog bus fuel) := by
  intro s hs
  cases hc : s.cmd.cstr with
  | none =>
    rw [processCmd_overread bus fuel hc] at hs
    cases hs
  | some m =>
    rcases Nat.lt_or_ge m.length 3 with hlen | hlen
    · have hlog : processLog bus fuel s = [] := by
        rw [processLog, hc]
        exact if_pos hlen
      rw [hlog, processCmd_short bus fuel hc hlen]
      rfl
    · rw [processCmd_command bus fuel hc hlen] at hs ⊢
      rw [processLog, hc]
      dsimp only
      rw [if_neg (Nat.not_lt.mpr hlen)]
      exact stores_exchange.andThen (stores_formatReply _) s hs

/-- The receive loop stores first, and the command it completes afterwards. -/
theorem stores_recvChunk (message : List UInt8) :
    Stores (recvChunk bus fuel message) (chunkLog bus fuel message) := by
  intro s hs
  have hnone : s.cmd.writes [] = some s.cmd := rfl
  have hscan : s.cmd.writes (scanLog s.j message) = some (scanChunk s.j 0 message s.cmd).1 :=
    scanInto_record hnone s.j 0 message
  rw [chunkLog, CharBuf.writes_append hscan]
  match hend : scanChunk s.j 0 message s.cmd with
  | (cmd, .full) =>
    rw [recvChunk_full bus fuel hend]
    rfl
  | (cmd, .overflow) =>
    rw [recvChunk_overflow bus fuel hend]
    rfl
  | (cmd, .complete) =>
    rw [recvChunk_complete bus fuel hend] at hs ⊢
    exact stores_processCmd { s with cmd := cmd, j := 0 } hs
  | (cmd, .outOfBounds) =>
    rw [recvChunk_outOfBounds bus fuel hend] at hs
    cases hs

section Step

variable {s : Server δ}

/-- The logs of the events. -/
theorem stepLog_accept (hf : s.fault = none) (hc : s.connected = false) :
    stepLog bus fuel s .accept =
      commandsLog bus fuel connectCommands { s with connected := true } := by
  unfold stepLog
  rw [hf, hc]
  rfl

theorem stepLog_disconnect (hf : s.fault = none) (hc : s.connected = true) :
    stepLog bus fuel s .disconnect =
      commandsLog bus fuel idleCommands { s with connected := false } := by
  unfold stepLog
  rw [hf, hc]
  rfl

theorem stepLog_recv (hf : s.fault = none) (hc : s.connected = true) (chunk : Chunk) :
    stepLog bus fuel s (.recv chunk) = chunkLog bus fuel chunk.message s := by
  unfold stepLog
  rw [hf, hc]
  rfl

theorem stepLog_idle {e : Event} (h : e.acts s.connected = false) :
    stepLog bus fuel s e = [] := by
  unfold stepLog
  split
  · rfl
  · cases hc : s.connected with
    | false =>
      rw [hc] at h
      cases e with
      | accept => cases h
      | _ => rfl
    | true =>
      rw [hc] at h
      cases e with
      | recv chunk => cases h
      | disconnect => cases h
      | _ => rfl

/-- **The stores of one event.** -/
theorem stores_step {e : Event} (hf : s.fault = none) (hs : (step bus fuel s e).1.fault = none) :
    s.cmd.writes (stepLog bus fuel s e) = some (step bus fuel s e).1.cmd := by
  cases hact : e.acts s.connected with
  | false =>
    rw [stepLog_idle hact, step_idle hact]
    rfl
  | true =>
    cases hc : s.connected with
    | false =>
      rw [hc] at hact
      cases e with
      | accept =>
        rw [step_accept hf hc] at hs ⊢
        rw [stepLog_accept hf hc]
        exact stores_commands connectCommands { s with connected := true } hs
      | _ => cases hact
    | true =>
      rw [hc] at hact
      cases e with
      | recv chunk =>
        rw [step_recv hf hc] at hs ⊢
        rw [stepLog_recv hf hc]
        exact stores_recvChunk chunk.message s hs
      | disconnect =>
        rw [step_disconnect hf hc] at hs ⊢
        rw [stepLog_disconnect hf hc]
        exact stores_commands idleCommands { s with connected := false } hs
      | _ => cases hact

end Step

/-- A command that is complete has its `'\0'` in `cmd`. -/
theorem scanChunk_terminated {j i : Nat} {message : List UInt8} {cmd cmd' : CharBuf 16}
    (h : scanChunk j i message cmd = (cmd', .complete)) :
    ∃ k ≤ 15, cmd'.bytes[k]? = some 0 := by
  induction message generalizing i cmd with
  | nil => cases h
  | cons c message ih =>
    rw [scanChunk_cons] at h
    by_cases hin : 15 < i + j
    · rw [if_pos hin] at h
      cases h
    · rw [if_neg hin] at h
      by_cases hc : c = 0
      · rw [if_pos hc] at h
        obtain ⟨rfl, -⟩ := Prod.mk.inj h
        have hlt : i + j < cmd.bytes.length := by
          rw [cmd.length_eq]
          omega
        refine ⟨i + j, Nat.le_of_not_lt hin, ?_⟩
        rw [← hc]
        exact List.getElem?_set_self hlt
      · rw [if_neg hc] at h
        exact ih h

end Logs

end Server

/-! ## Runs -/

variable {fuel : Nat}

/-- An event with its stores as outputs. -/
def storing (fuel : Nat) (s : Server Firmware) (e : Event) :
    Server Firmware × List (Nat × UInt8) :=
  ((zServer fuel s e).1, stepLog firmwareBus (fuel + 8) s e)

/-- The stores of the server from its start on. -/
def cmdLog (fuel : Nat) (fw : Firmware) (cmd : CharBuf 16) (es : List Event) :
    List (Nat × UInt8) :=
  commandsLog firmwareBus (fuel + 8) idleCommands ⟨fw, cmd, 0, false, none⟩ ++
    Runs.outputs (storing fuel) (Server.startUp firmwareBus (fuel + 8) fw cmd) es

/-- The server after its start and some events. -/
def serverAfter (fuel : Nat) (fw : Firmware) (cmd : CharBuf 16) (es : List Event) :
    Server Firmware :=
  Runs.final (zServer fuel) (Server.startUp firmwareBus (fuel + 8) fw cmd) es

/-- The stores of a run, carried out one after the other, lead to its `cmd`. -/
theorem writes_cmdLog {fw : Firmware} {cmd : CharBuf 16}
    (h : Reachable fuel (Server.startUp firmwareBus (fuel + 8) fw cmd)) (es : List Event) :
    cmd.writes (cmdLog fuel fw cmd es) = some (serverAfter fuel fw cmd es).cmd := by
  have hstart : cmd.writes (commandsLog firmwareBus (fuel + 8) idleCommands
      ⟨fw, cmd, 0, false, none⟩) = some (Server.startUp firmwareBus (fuel + 8) fw cmd).cmd :=
    stores_commands idleCommands ⟨fw, cmd, 0, false, none⟩ h.sound.fault
  have hrun := Runs.outputs_invariant (storing fuel)
    (P := fun t log => Reachable fuel t ∧
      cmd.writes (commandsLog firmwareBus (fuel + 8) idleCommands ⟨fw, cmd, 0, false, none⟩ ++
        log) = some t.cmd)
    ⟨h, by rw [List.append_nil]; exact hstart⟩ ?_ es
  · exact hrun.2
  · rintro e t log ⟨ht, hlog⟩
    refine ⟨ht.step e, ?_⟩
    rw [← List.append_assoc, CharBuf.writes_append hlog]
    exact stores_step ht.sound.fault (ht.step e).sound.fault

/-- What holds of the stores into `cmd` from the start of the server on, and of the state
they lead to. -/
structure CmdDiscipline (fuel : Nat) (fw : Firmware) (cmd : CharBuf 16) (es : List Event) :
    Prop where
  /-- no store is past the end of `cmd` -/
  index_le : ∀ st ∈ cmdLog fuel fw cmd es, st.1 ≤ 15
  /-- these are the stores that make `cmd` what it is -/
  writes : cmd.writes (cmdLog fuel fw cmd es) = some (serverAfter fuel fw cmd es).cmd
  /-- no `strlen(cmd)` has run past the end, and every reply loop has ended -/
  fault : (serverAfter fuel fw cmd es).fault = none
  j_le : (serverAfter fuel fw cmd es).j ≤ 16
  /-- a chunk that sets `process_cmd` leaves a `'\0'` in `cmd` -/
  terminated : ∀ (chunk : Chunk) (cmd' : CharBuf 16),
    scanChunk (serverAfter fuel fw cmd es).j 0 chunk.message (serverAfter fuel fw cmd es).cmd =
      (cmd', .complete) → ∃ k ≤ 15, cmd'.bytes[k]? = some 0

/-- **The discipline of `cmd`**: from any uninitialised `cmd`, with a firmware that has
been asked anything before, and for any sequence of connections, chunks and disconnections. -/
theorem cmd_discipline (fuel : Nat) (vIn gpio0 : Bool)
    (calls : List (Mailbox.Call (List UInt8))) (cmd : CharBuf 16) (es : List Event) :
    CmdDiscipline fuel (Runs.run i2cSlave.step (setup vIn gpio0) calls) cmd es := by
  have hstart : Reachable fuel (Server.startUp firmwareBus (fuel + 8)
      (Runs.run i2cSlave.step (setup vIn gpio0) calls) cmd) :=
    .startUp vIn gpio0 calls cmd
  have hwrites := writes_cmdLog hstart es
  have hsound := (hstart.run es).sound
  exact {
    index_le := fun st hst => Nat.le_of_lt_succ (CharBuf.lt_of_writes hwrites st hst)
    writes := hwrites
    fault := hsound.fault
    j_le := hsound.j_le
    terminated := fun _ _ hscan => scanChunk_terminated hscan }

end ProjZ
