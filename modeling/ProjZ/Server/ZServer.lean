import ProjZ.Lib.Ascii
import ProjZ.Lib.CharBuf
import ProjZ.Lib.Runs

/-!
# `z_server`: the TCP front end of the firmware

The main loop of z_server.c as a machine whose events are what the socket calls
return. Between two events it stores received bytes in `cmd`, forwards a command to
the I2C device behind `file`, collects the reply byte by byte into the same `cmd`
and writes a line to the client.

- The I2C device is a parameter (`I2cBus`), so that the code is one definition for
  the firmware, for its abstraction and for a bus whose reads may fail.
- Every store into `cmd` is checked; one past its end is a fault. The two loops are
  written over what takes their stores, so that their logs come from the same text.
- `i`, `tmp`, `flag` and `process_cmd` are set anew before every use and appear as
  arguments of the functions below; `j` and `cmd` survive, also across connections.
- The reply loop has no bound in the source; here `fuel` limits its reads, and
  running out of it is a fault like the two others (`Fault`), after which the
  machine does nothing any more.
-/

namespace ProjZ

open Ascii

/-- The device behind `file`. A `read` that does not return 1 yields `none`. -/
structure I2cBus (δ : Type) where
  write : List UInt8 → δ → δ
  read : δ → Option UInt8 × δ

/-- Where the behaviour of the program ends to be defined, or does not end. -/
inductive Fault where
  | outOfBounds
  | overread
  | noReply
deriving DecidableEq, Repr

/-- What the server does to the outside: `write(file, msg, …)`, and
`write(client_sock, cmd + off, len)` with the bytes that are sent. -/
inductive Output where
  | forward (msg : List UInt8)
  | reply (off : Nat) (len : Int) (sent : List UInt8)
deriving DecidableEq, Repr

/-- The variables of `main` that outlive an event. -/
structure Server (δ : Type) where
  file : δ
  cmd : CharBuf 16
  j : Nat
  connected : Bool
  fault : Option Fault

/-- What one successful `recv` returns: 1 to 1024 bytes. -/
structure Chunk where
  message : List UInt8
  ne_nil : message ≠ []
  length_le : message.length ≤ 1024

/-- The outcomes of `accept` and `recv`. -/
inductive Event where
  | accept
  | recv (chunk : Chunk)
  | recvError
  | disconnect

/-- The events that do something, by whether a client is connected. -/
def Event.acts : Bool → Event → Bool
  | false, .accept | true, .recv _ | true, .disconnect => true
  | _, _ => false

namespace Server

variable {δ : Type} (bus : I2cBus δ) (fuel : Nat)

/-- Two pieces of the program in sequence; a fault ends it. -/
def andThen (f g : Server δ → Server δ × List Output) (s : Server δ) :
    Server δ × List Output :=
  let r := f s
  if r.1.fault.isSome then r else ((g r.1).1, r.2 ++ (g r.1).2)

/-- After a fault the second piece does not run. -/
theorem andThen_of_fault {f g : Server δ → Server δ × List Output} {s : Server δ}
    (h : (f s).1.fault.isSome = true) : andThen f g s = f s := if_pos h

/-- Without one both run. -/
theorem andThen_of_no_fault {f g : Server δ → Server δ × List Output} {s : Server δ}
    (h : (f s).1.fault = none) :
    andThen f g s = ((g (f s).1).1, (f s).2 ++ (g (f s).1).2) := by
  refine if_neg ?_
  rw [h]
  decide

/-- `for (i = 0; ; i++) { … }`: the reply is stored from `cmd[0]` on, up to its `'\0'`.
A failed read still counts `i` up. What takes the stores is a parameter: the buffer, or a
log of the stores made. -/
def replyInto {β : Type} (store : Nat → UInt8 → β → Option β) :
    Nat → Nat → β → δ → Except Fault (β × δ)
  | 0, _, _, _ => .error .noReply
  | fuel + 1, i, cmd, file =>
    match bus.read file with
    -- `continue` in a `for` loop still runs `i++`
    | (none, file) => replyInto store fuel (i + 1) cmd file
    | (some tmp, file) =>
      match store i tmp cmd with
      | none => .error .outOfBounds
      | some cmd => if tmp = 0 then .ok (cmd, file) else replyInto store fuel (i + 1) cmd file

/-- The loop on `cmd`, with every index checked. -/
def replyLoop (fuel i : Nat) (cmd : CharBuf 16) (file : δ) : Except Fault (CharBuf 16 × δ) :=
  replyInto bus CharBuf.write fuel i cmd file

section ReplyLoop

variable {bus fuel} {i : Nat} {cmd cmd' : CharBuf 16} {file file' : δ}

/-- A failed read stores nothing and takes up a place. -/
theorem replyLoop_failed (hread : bus.read file = (none, file')) :
    replyLoop bus (fuel + 1) i cmd file = replyLoop bus fuel (i + 1) cmd file' := by
  unfold replyLoop
  rw [replyInto, hread]

/-- A byte that arrives when `i` is past the end of `cmd` is written there. -/
theorem replyLoop_past {tmp : UInt8} (hread : bus.read file = (some tmp, file'))
    (hwrite : cmd.write i tmp = none) :
    replyLoop bus (fuel + 1) i cmd file = .error .outOfBounds := by
  unfold replyLoop
  rw [replyInto, hread]
  dsimp only
  rw [hwrite]

/-- The `'\0'` of the reply is the last byte stored. -/
theorem replyLoop_end (hread : bus.read file = (some 0, file'))
    (hwrite : cmd.write i 0 = some cmd') :
    replyLoop bus (fuel + 1) i cmd file = .ok (cmd', file') := by
  unfold replyLoop
  rw [replyInto, hread]
  dsimp only
  rw [hwrite]
  rfl

/-- Any other byte is followed by the next read. -/
theorem replyLoop_byte {tmp : UInt8} (hread : bus.read file = (some tmp, file'))
    (hwrite : cmd.write i tmp = some cmd') (h0 : tmp ≠ 0) :
    replyLoop bus (fuel + 1) i cmd file = replyLoop bus fuel (i + 1) cmd' file' := by
  unfold replyLoop
  rw [replyInto, hread]
  dsimp only
  rw [hwrite]
  dsimp only
  rw [if_neg h0]

end ReplyLoop

/-- `write(file, cmd, strlen(cmd))` and the reply loop. -/
def exchange (s : Server δ) : Server δ × List Output :=
  match s.cmd.cstr with
  | none => ({ s with fault := some .overread }, [])
  | some msg =>
    match replyLoop bus fuel 0 s.cmd (bus.write msg s.file) with
    | .error f => ({ s with fault := some f }, [.forward msg])
    | .ok (cmd, file) => ({ s with cmd := cmd, file := file }, [.forward msg])

/-- The outcomes of an exchange: `strlen` runs past the end, -/
theorem exchange_overread {s : Server δ} (h : s.cmd.cstr = none) :
    exchange bus fuel s = ({ s with fault := some .overread }, []) := by
  unfold exchange
  rw [h]

/-- the reply loop does, or does not end, -/
theorem exchange_error {s : Server δ} {msg : List UInt8} {f : Fault} (h : s.cmd.cstr = some msg)
    (hloop : replyLoop bus fuel 0 s.cmd (bus.write msg s.file) = .error f) :
    exchange bus fuel s = ({ s with fault := some f }, [.forward msg]) := by
  unfold exchange
  rw [h]
  dsimp only
  rw [hloop]

/-- or the reply is in `cmd`. -/
theorem exchange_ok {s : Server δ} {msg : List UInt8} {cmd : CharBuf 16} {file : δ}
    (h : s.cmd.cstr = some msg)
    (hloop : replyLoop bus fuel 0 s.cmd (bus.write msg s.file) = .ok (cmd, file)) :
    exchange bus fuel s = ({ s with cmd := cmd, file := file }, [.forward msg]) := by
  unfold exchange
  rw [h]
  dsimp only
  rw [hloop]

/-- A command of the server's own: `cmd[0] = …, cmd[n] = '\0'` and an exchange. -/
def command (text : List UInt8) (s : Server δ) : Server δ × List Output :=
  match s.cmd.writes (CharBuf.stores 0 (text ++ [0])) with
  | none => ({ s with fault := some .outOfBounds }, [])
  | some cmd => exchange bus fuel { s with cmd := cmd }

/-- A text that does not fit is stored past the end. -/
theorem command_outOfBounds {text : List UInt8} {s : Server δ}
    (h : s.cmd.writes (CharBuf.stores 0 (text ++ [0])) = none) :
    command bus fuel text s = ({ s with fault := some .outOfBounds }, []) := by
  unfold command
  rw [h]

/-- A text that fits is exchanged. -/
theorem command_stored {text : List UInt8} {s : Server δ} {cmd : CharBuf 16}
    (h : s.cmd.writes (CharBuf.stores 0 (text ++ [0])) = some cmd) :
    command bus fuel text s = exchange bus fuel { s with cmd := cmd } := by
  unfold command
  rw [h]

/-- Several of them. -/
def commands : List (List UInt8) → Server δ → Server δ × List Output
  | [], s => (s, [])
  | text :: texts, s => andThen (command bus fuel text) (commands texts) s

/-- `SSE0`, `SLP255`, `SLE1`: at start-up and when a client has gone. -/
def idleCommands : List (List UInt8) :=
  [bytes ['S', 'S', 'E', '0'], bytes ['S', 'L', 'P', '2', '5', '5'],
    bytes ['S', 'L', 'E', '1']]

/-- `SLP0`, `SLE1`, `SSE1`: when a client has connected. -/
def connectCommands : List (List UInt8) :=
  [bytes ['S', 'L', 'P', '0'], bytes ['S', 'L', 'E', '1'], bytes ['S', 'S', 'E', '1']]

/-- How the loop over a chunk ends: all bytes stored, `i + j > 15`, a `'\0'`, or a store
past the end of `cmd`. -/
inductive ScanEnd where
  | full
  | overflow
  | complete
  | outOfBounds
deriving DecidableEq, Repr

/-- The loop over the bytes of a chunk, from index `i` of the chunk on, over what takes the
stores. -/
def scanInto {β : Type} (store : Nat → UInt8 → β → Option β) (j : Nat) :
    Nat → List UInt8 → β → β × ScanEnd
  | _, [], cmd => (cmd, .full)
  | i, c :: message, cmd =>
    if 15 < i + j then (cmd, .overflow)
    else
      match store (i + j) c cmd with
      | none => (cmd, .outOfBounds)
      | some cmd => if c = 0 then (cmd, .complete) else scanInto store j (i + 1) message cmd

/-- The loop on `cmd`, with every index checked. -/
def scanChunk (j i : Nat) (message : List UInt8) (cmd : CharBuf 16) : CharBuf 16 × ScanEnd :=
  scanInto CharBuf.write j i message cmd

/-- The guard of the loop keeps its stores inside. -/
theorem scanChunk_cons (j i : Nat) (c : UInt8) (message : List UInt8) (cmd : CharBuf 16) :
    scanChunk j i (c :: message) cmd =
      if 15 < i + j then (cmd, .overflow)
      else if c = 0 then (cmd.set (i + j) c, .complete)
      else scanChunk j (i + 1) message (cmd.set (i + j) c) := by
  unfold scanChunk
  rw [scanInto]
  by_cases hin : 15 < i + j
  · rw [if_pos hin, if_pos hin]
  · rw [if_neg hin, if_neg hin, CharBuf.write_of_lt (by omega)]

/-- `write(client_sock, cmd + off, len)`. A negative `len` becomes a huge `size_t`,
which the call refuses. -/
def writeClient (cmd : CharBuf 16) (off : Nat) (len : Int) : Output :=
  .reply off len (if 0 ≤ len then (cmd.bytes.drop off).take len.toNat else [])

/-- Where the newline goes, and the offset and the length of the `write` to the client. -/
def newlineAt (flag : Bool) (cmd : CharBuf 16) : Option (Nat × Nat × Int) :=
  if flag then
    -- the header (`R` and two letters) is left out; `len - 2` counts the newline
    cmd.cstr.map fun reply => (reply.length, 3, (reply.length : Int) - 2)
  else some (1, 0, 2)

/-- The end of a command: the newline and the `write` to the client. -/
def formatReply (flag : Bool) (s : Server δ) : Server δ × List Output :=
  match newlineAt flag s.cmd with
  | none => ({ s with fault := some .overread }, [])
  | some (i, off, len) =>
    match s.cmd.write i '\n'.toUInt8 with
    | none => ({ s with fault := some .outOfBounds }, [])
    | some cmd => ({ s with cmd := cmd }, [writeClient cmd off len])

/-- `strlen` of the reply runs past the end. -/
theorem formatReply_overread {s : Server δ} (h : s.cmd.cstr = none) :
    formatReply true s = ({ s with fault := some .overread }, []) := by
  unfold formatReply newlineAt
  rw [if_pos rfl, h]
  rfl

/-- The newline replaces the `'\0'` of the reply, so it is inside `cmd`. -/
theorem formatReply_get {s : Server δ} {reply : List UInt8} (h : s.cmd.cstr = some reply) :
    formatReply true s =
      ({ s with cmd := s.cmd.set reply.length '\n'.toUInt8 },
        [writeClient (s.cmd.set reply.length '\n'.toUInt8) 3 ((reply.length : Int) - 2)]) := by
  unfold formatReply newlineAt
  rw [if_pos rfl, h, Option.map_some]
  dsimp only
  rw [CharBuf.write_of_lt (CharBuf.length_cstr_lt h)]

/-- The reply to a set command is cut to one byte. -/
theorem formatReply_set (s : Server δ) :
    formatReply false s =
      ({ s with cmd := s.cmd.set 1 '\n'.toUInt8 },
        [writeClient (s.cmd.set 1 '\n'.toUInt8) 0 2]) := rfl

/-- What follows the receive loop when `process_cmd` is 1. -/
def processCmd (s : Server δ) : Server δ × List Output :=
  match s.cmd.cstr with
  | none => ({ s with fault := some .overread }, [])
  | some msg =>
    if msg.length < 3 then (s, [])
    else
      -- the flag is taken before the reply overwrites `cmd`
      let flag := decide (toupper (s.cmd.bytes.headD 0) = 'G'.toUInt8)
      andThen (exchange bus fuel) (formatReply flag) s

/-- `strlen` of the command runs past the end. -/
theorem processCmd_overread {s : Server δ} (h : s.cmd.cstr = none) :
    processCmd bus fuel s = ({ s with fault := some .overread }, []) := by
  unfold processCmd
  rw [h]

/-- A string of fewer than three bytes is not a command. -/
theorem processCmd_short {s : Server δ} {m : List UInt8} (h : s.cmd.cstr = some m)
    (hlen : m.length < 3) : processCmd bus fuel s = (s, []) := by
  unfold processCmd
  rw [h]
  exact if_pos hlen

/-- A command is exchanged and answered. -/
theorem processCmd_command {s : Server δ} {m : List UInt8} (h : s.cmd.cstr = some m)
    (hlen : 3 ≤ m.length) :
    processCmd bus fuel s =
      andThen (exchange bus fuel)
        (formatReply (decide (toupper (s.cmd.bytes.headD 0) = 'G'.toUInt8))) s := by
  unfold processCmd
  rw [h]
  exact if_neg (Nat.not_lt.mpr hlen)

/-- A `recv` that returned bytes. -/
def recvChunk (message : List UInt8) (s : Server δ) : Server δ × List Output :=
  match scanChunk s.j 0 message s.cmd with
  -- `if (i == read_size) j = i`: the offset is replaced, not advanced
  | (cmd, .full) => ({ s with cmd := cmd, j := message.length }, [])
  | (cmd, .overflow) => ({ s with cmd := cmd, j := 0 }, [])
  -- the bytes after the `'\0'` are dropped with the rest of `client_message`
  | (cmd, .complete) => processCmd bus fuel { s with cmd := cmd, j := 0 }
  | (cmd, .outOfBounds) => ({ s with cmd := cmd, fault := some .outOfBounds }, [])

section RecvChunk

variable {message : List UInt8} {s : Server δ} {cmd : CharBuf 16}

/-- The four ends of the loop over a chunk. -/
theorem recvChunk_full (h : scanChunk s.j 0 message s.cmd = (cmd, .full)) :
    recvChunk bus fuel message s = ({ s with cmd := cmd, j := message.length }, []) := by
  unfold recvChunk
  rw [h]

theorem recvChunk_overflow (h : scanChunk s.j 0 message s.cmd = (cmd, .overflow)) :
    recvChunk bus fuel message s = ({ s with cmd := cmd, j := 0 }, []) := by
  unfold recvChunk
  rw [h]

theorem recvChunk_complete (h : scanChunk s.j 0 message s.cmd = (cmd, .complete)) :
    recvChunk bus fuel message s = processCmd bus fuel { s with cmd := cmd, j := 0 } := by
  unfold recvChunk
  rw [h]

theorem recvChunk_outOfBounds (h : scanChunk s.j 0 message s.cmd = (cmd, .outOfBounds)) :
    recvChunk bus fuel message s =
      ({ s with cmd := cmd, fault := some .outOfBounds }, []) := by
  unfold recvChunk
  rw [h]

end RecvChunk

/-- One event. Events that cannot occur in a state leave it alone. -/
def step (s : Server δ) (e : Event) : Server δ × List Output :=
  if s.fault.isSome then (s, [])
  else
    match s.connected, e with
    | false, .accept => commands bus fuel connectCommands { s with connected := true }
    | true, .recv chunk => recvChunk bus fuel chunk.message s
    | true, .disconnect => commands bus fuel idleCommands { s with connected := false }
    | true, .recvError => (s, [])
    | _, _ => (s, [])

section Step

variable {bus fuel} {s : Server δ}

/-- After a fault nothing happens. -/
theorem step_fault (h : s.fault.isSome = true) (e : Event) : step bus fuel s e = (s, []) :=
  if_pos h

/-- The events of a connection. -/
theorem step_accept (hf : s.fault = none) (hc : s.connected = false) :
    step bus fuel s .accept =
      commands bus fuel connectCommands { s with connected := true } := by
  unfold step
  rw [hf, hc]
  rfl

theorem step_disconnect (hf : s.fault = none) (hc : s.connected = true) :
    step bus fuel s .disconnect =
      commands bus fuel idleCommands { s with connected := false } := by
  unfold step
  rw [hf, hc]
  rfl

theorem step_recv (hf : s.fault = none) (hc : s.connected = true) (chunk : Chunk) :
    step bus fuel s (.recv chunk) = recvChunk bus fuel chunk.message s := by
  unfold step
  rw [hf, hc]
  rfl

/-- Events that cannot occur do nothing, nor does a failed `recv`. -/
theorem step_idle {e : Event} (h : e.acts s.connected = false) :
    step bus fuel s e = (s, []) := by
  unfold step
  split
  · rfl
  · cases hc : s.connected with
    | false =>
      rw [hc] at h
      cases e with
      | accept => cases h
      | _ => rfl
    | true =>
      rw [hc] at h
      cases e with
      | recv chunk => cases h
      | disconnect => cases h
      | _ => rfl

end Step

/-- The state in which `accept` is called first; `cmd` is uninitialised before. -/
def startUp (file : δ) (cmd : CharBuf 16) : Server δ :=
  (commands bus fuel idleCommands ⟨file, cmd, 0, false, none⟩).1

end Server

/-- The commands forwarded to the firmware. -/
def forwards (outs : List Output) : List (List UInt8) :=
  outs.filterMap fun o =>
    match o with
    | .forward msg => some msg
    | .reply _ _ _ => none

/-- The writes to the client. -/
def replies (outs : List Output) : List Output :=
  outs.filter fun o =>
    match o with
    | .forward _ => false
    | .reply _ _ _ => true

@[simp] theorem forwards_nil : forwards [] = [] := rfl

@[simp] theorem forwards_append (o p : List Output) :
    forwards (o ++ p) = forwards o ++ forwards p := List.filterMap_append

@[simp] theorem forwards_forward (msg : List UInt8) (outs : List Output) :
    forwards (.forward msg :: outs) = msg :: forwards outs := rfl

end ProjZ
