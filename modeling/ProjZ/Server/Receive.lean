import ProjZ.Server.Exchange

/-!
# The receive loop

One `recv` ends in one of three ways (`chunk_cases`): the chunk is stored whole, it
runs over the end of `cmd`, or a `'\0'` completes a command. Each has its equation
for the whole event (`step_full`, `step_overflow`, `step_complete`), and a completed
command of at least three bytes is executed as `processCmd_mailbox` says: forwarded,
answered by `clientReply`.

The invariant `Sound` (no fault, `j ≤ 16`) holds in every reachable state.
-/

namespace ProjZ

open Ascii

namespace Server

/-! ## The loop over a chunk -/

/-- Bytes that fit are stored one after the other. -/
theorem scanChunk_append {j i : Nat} {pre rest : List UInt8} {cmd : CharBuf 16}
    (h0 : 0 ∉ pre) (h : i + j + pre.length ≤ 16) :
    scanChunk j i (pre ++ rest) cmd =
      scanChunk j (i + pre.length) rest (cmd.overlay (i + j) pre) := by
  induction pre generalizing i cmd with
  | nil => rfl
  | cons c pre ih =>
    rw [List.length_cons] at h
    have hc : c ≠ 0 := fun hc => h0 (hc ▸ List.mem_cons_self ..)
    have hin : ¬ 15 < i + j := by omega
    rw [List.cons_append, scanChunk_cons, if_neg hin, if_neg hc,
      ih (fun hm => h0 (List.mem_cons_of_mem c hm)) (by omega), List.length_cons,
      CharBuf.overlay_cons]
    have h1 : i + 1 + pre.length = i + (pre.length + 1) := by omega
    have h2 : i + 1 + j = i + j + 1 := by omega
    rw [h1, h2]

theorem scanChunk_full {j : Nat} {message : List UInt8} (h0 : 0 ∉ message)
    (h : j + message.length ≤ 16) (cmd : CharBuf 16) :
    scanChunk j 0 message cmd = (cmd.overlay j message, .full) := by
  have happ : scanChunk j 0 (message ++ []) cmd =
      scanChunk j (0 + message.length) [] (cmd.overlay (0 + j) message) :=
    scanChunk_append h0 (by omega)
  rw [List.append_nil, Nat.zero_add, Nat.zero_add] at happ
  exact happ

theorem scanChunk_complete {j : Nat} {pre : List UInt8} (rest : List UInt8) (h0 : 0 ∉ pre)
    (h : j + pre.length < 16) (cmd : CharBuf 16) :
    scanChunk j 0 (pre ++ 0 :: rest) cmd = (cmd.overlay j (pre ++ [0]), .complete) := by
  rw [scanChunk_append h0 (by omega)]
  have hin : ¬ 15 < 0 + pre.length + j := by omega
  rw [scanChunk_cons, if_neg hin, if_pos rfl, CharBuf.overlay_append]
  have h1 : 0 + pre.length + j = j + pre.length := by omega
  rw [h1, Nat.zero_add]
  rfl

theorem scanChunk_overflow {j : Nat} {pre : List UInt8} (c : UInt8) (rest : List UInt8)
    (h0 : 0 ∉ pre) (h : j + pre.length = 16) (cmd : CharBuf 16) :
    scanChunk j 0 (pre ++ c :: rest) cmd = (cmd.overlay j pre, .overflow) := by
  rw [scanChunk_append h0 (by omega), Nat.zero_add, Nat.zero_add]
  have hout : 15 < pre.length + j := by omega
  rw [scanChunk_cons, if_pos hout]

/-- The three ways a chunk can end, by its bytes and the offset. -/
theorem chunk_cases {j : Nat} (hj : j ≤ 16) (message : List UInt8) :
    (0 ∉ message ∧ j + message.length ≤ 16) ∨
    (∃ pre rest, message = pre ++ 0 :: rest ∧ 0 ∉ pre ∧ j + pre.length < 16) ∨
    (∃ pre c rest, message = pre ++ c :: rest ∧ 0 ∉ pre ∧ j + pre.length = 16) := by
  -- only the first `16 - j` bytes can be stored
  by_cases h0 : 0 ∈ message.take (16 - j)
  · right; left
    obtain ⟨rest, hrest⟩ := CharBuf.eq_takeWhile_append h0
    refine ⟨(message.take (16 - j)).takeWhile fun c => decide (c ≠ 0),
      rest ++ message.drop (16 - j), ?_, ?_, ?_⟩
    · rw [← List.cons_append, ← List.append_assoc, ← hrest, List.take_append_drop]
    · intro hmem
      have hne := List.mem_takeWhile_imp hmem
      revert hne
      decide
    · have hlen := congrArg List.length hrest
      rw [List.length_take, List.length_append, List.length_cons] at hlen
      omega
  · by_cases hlen : j + message.length ≤ 16
    · left
      rw [List.take_of_length_le (by omega)] at h0
      exact ⟨h0, hlen⟩
    · right; right
      cases hd : message.drop (16 - j) with
      | nil =>
        rw [List.drop_eq_nil_iff] at hd
        omega
      | cons c rest =>
        refine ⟨message.take (16 - j), c, rest, ?_, h0, ?_⟩
        · rw [← hd, List.take_append_drop]
        · rw [List.length_take]
          omega

/-! ## The events of a connection -/

section Events

variable {δ : Type} {bus : I2cBus δ} {fuel : Nat} {s : Server δ}

/-- A chunk without `'\0'` that fits is stored at `j`, which becomes its length. -/
theorem step_full (hf : s.fault = none) (hc : s.connected = true) {chunk : Chunk}
    (h0 : 0 ∉ chunk.message) (h : s.j + chunk.message.length ≤ 16) :
    step bus fuel s (.recv chunk) =
      ({ s with cmd := s.cmd.overlay s.j chunk.message, j := chunk.message.length }, []) := by
  rw [step_recv hf hc, recvChunk_full bus fuel (scanChunk_full h0 h s.cmd)]

/-- A chunk that runs over the end is dropped, with all that was collected before. -/
theorem step_overflow (hf : s.fault = none) (hc : s.connected = true) {chunk : Chunk}
    {pre : List UInt8} {c : UInt8} {rest : List UInt8} (hm : chunk.message = pre ++ c :: rest)
    (h0 : 0 ∉ pre) (h : s.j + pre.length = 16) :
    step bus fuel s (.recv chunk) = ({ s with cmd := s.cmd.overlay s.j pre, j := 0 }, []) := by
  rw [step_recv hf hc, hm, recvChunk_overflow bus fuel (scanChunk_overflow c rest h0 h s.cmd)]

/-- A `'\0'` completes the command in `cmd`; the rest of the chunk is gone. -/
theorem step_complete (hf : s.fault = none) (hc : s.connected = true) {chunk : Chunk}
    {pre rest : List UInt8} (hm : chunk.message = pre ++ 0 :: rest) (h0 : 0 ∉ pre)
    (h : s.j + pre.length < 16) :
    step bus fuel s (.recv chunk) =
      processCmd bus fuel { s with cmd := s.cmd.overlay s.j (pre ++ [0]), j := 0 } := by
  rw [step_recv hf hc, hm, recvChunk_complete bus fuel (scanChunk_complete rest h0 h s.cmd)]

end Events

/-! ## Executing a command -/

/-- The server's own classification of a command, `toupper(cmd[0]) == 'G'`. -/
def flag (m : List UInt8) : Bool := decide (toupper (m.headD 0) = 'G'.toUInt8)

/-- The write to the client that answers a command. -/
def clientReply (m : List UInt8) (regs : Regs) : Output :=
  let r := reply (verdict m) regs
  if flag m then
    .reply 3 ((r.length : Int) - 2)
      (if 3 ≤ r.length then r.drop 3 ++ ['\n'.toUInt8] else [])
  else .reply 0 2 [r.headD 0, '\n'.toUInt8]

/-- The answer to the client is not a forwarded command. -/
@[simp] theorem forwards_clientReply (m : List UInt8) (regs : Regs) (outs : List Output) :
    forwards (clientReply m regs :: outs) = forwards outs := by
  unfold clientReply
  cases flag m <;> rfl

/-- `cmd` after a command: the reply, with a newline in it. -/
def cmdAfter (m : List UInt8) (regs : Regs) (cmd : CharBuf 16) : CharBuf 16 :=
  let r := reply (verdict m) regs
  (cmd.overlay 0 (r ++ [0])).set (if flag m then r.length else 1) '\n'.toUInt8

theorem reply_ne_nil (v : Verdict) (regs : Regs) : reply v regs ≠ [] := by
  intro h
  cases v <;> cases h

/-- Replies are one byte, or a header of three and at least one digit. -/
theorem reply_length_cases (v : Verdict) (regs : Regs) :
    (reply v regs).length = 1 ∨ 4 ≤ (reply v regs).length := by
  cases v with
  | get r =>
    right
    have hpos := r.width_pos
    show 4 ≤ (r.numeral regs).length + 1 + 1 + 1
    rw [Reg.numeral, Decimal.length_padded]
    omega
  | rejected => exact Or.inl rfl
  | set => exact Or.inl rfl

/-- The bytes of `cmd` once a reply has been stored. -/
theorem bytes_overlay_reply (v : Verdict) (regs : Regs) (cmd : CharBuf 16) :
    (cmd.overlay 0 (reply v regs ++ [0])).bytes =
      reply v regs ++ 0 :: cmd.bytes.drop ((reply v regs).length + 1) := by
  have hlen := reply_length_lt v regs
  rw [CharBuf.bytes_overlay (by rw [List.length_append, List.length_singleton]; omega)]
  simp

/-- Writing the newline over the reply's end, and what is sent from index 3. -/
theorem writeClient_get (v : Verdict) (regs : Regs) (cmd : CharBuf 16) :
    writeClient ((cmd.overlay 0 (reply v regs ++ [0])).set (reply v regs).length
        '\n'.toUInt8) 3 (((reply v regs).length : Int) - 2) =
      .reply 3 (((reply v regs).length : Int) - 2)
        (if 3 ≤ (reply v regs).length then (reply v regs).drop 3 ++ ['\n'.toUInt8] else []) := by
  have hlt := reply_length_lt v regs
  unfold writeClient
  rcases reply_length_cases v regs with h1 | h4
  · rw [if_neg (by omega), if_neg (by omega)]
  · rw [if_pos (by omega), if_pos (by omega), CharBuf.bytes_set (by omega),
      bytes_overlay_reply, List.take_append_of_le_length (Nat.le_refl _), List.take_length,
      List.drop_append_of_le_length (by omega)]
    -- what is left from index 3 on, and the newline that replaced the `'\0'`
    have hsub : (((reply v regs).length : Int) - 2).toNat =
        ((reply v regs).drop 3).length + 1 := by
      rw [List.length_drop]
      omega
    rw [hsub, List.take_length_add_append]
    rfl

/-- What is sent when only the reply's first byte counts. -/
theorem writeClient_set (v : Verdict) (regs : Regs) (cmd : CharBuf 16) :
    writeClient ((cmd.overlay 0 (reply v regs ++ [0])).set 1 '\n'.toUInt8) 0 2 =
      .reply 0 2 [(reply v regs).headD 0, '\n'.toUInt8] := by
  unfold writeClient
  rw [if_pos (by decide), CharBuf.bytes_set (by decide), bytes_overlay_reply]
  cases h : reply v regs with
  | nil => exact absurd h (reply_ne_nil v regs)
  | cons c r => rfl

/-- `formatReply` on a reply that has just been stored. -/
theorem formatReply_reply {δ : Type} (m : List UInt8) (regs : Regs) {s : Server δ}
    {cmd : CharBuf 16} (hcmd : s.cmd = cmd.overlay 0 (reply (verdict m) regs ++ [0])) :
    formatReply (flag m) s = ({ s with cmd := cmdAfter m regs cmd }, [clientReply m regs]) := by
  have hlt := reply_length_lt (verdict m) regs
  have hcstr : s.cmd.cstr = some (reply (verdict m) regs) := by
    rw [hcmd]
    exact CharBuf.cstr_overlay (by omega) (zero_notMem_reply _ _)
  unfold cmdAfter clientReply
  cases hflag : flag m with
  | true =>
    rw [formatReply_get hcstr, hcmd, writeClient_get]
    rfl
  | false =>
    rw [formatReply_set, hcmd, writeClient_set]
    rfl

/-- **Executing a command**: it is forwarded once, takes effect, and is answered once. -/
theorem processCmd_mailbox (fuel : Nat) {s : Server (Mailbox.Box Regs UInt8)}
    (hf : s.fault = none) {m : List UInt8} (h : s.cmd.cstr = some m) (hlen : 3 ≤ m.length) :
    processCmd mailboxBus (fuel + 8) s =
      ({ s with cmd := cmdAfter m s.file.store s.cmd, file := takeEffect s.file m },
        [.forward m, clientReply m s.file.store]) := by
  obtain ⟨rest, hbytes⟩ := CharBuf.bytes_of_cstr h
  -- the flag looks at the raw buffer, which begins with the command
  have hhead : s.cmd.bytes.headD 0 = m.headD 0 := by
    rw [hbytes]
    cases m with
    | nil => simp at hlen
    | cons c m => rfl
  have hex := exchange_mailbox fuel h
  have hfault : (exchange mailboxBus (fuel + 8) s).1.fault = none := by
    rw [hex]
    exact hf
  rw [processCmd_command _ _ h hlen, andThen_of_no_fault hfault, hex, hhead,
    show decide (toupper (m.headD 0) = 'G'.toUInt8) = flag m from rfl,
    formatReply_reply m s.file.store rfl]
  rfl

end Server

end ProjZ
