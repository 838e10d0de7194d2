import ProjZ.Firmware.Language
import ProjZ.Server.Reassembly

/-!
# What a client is answered

A command that arrives whole is forwarded and answered by one `write`
(`zServer_command`). Which bytes the client gets is decided by two parsers of the same
string: the firmware's (`verdict`) chooses the reply, the server's own test of
`cmd[0]` (`flag`) chooses which part of the reply is sent and how long it is.

- A string with `flag` that the firmware rejects is answered by `'F'`, of which the
  server sends `strlen - 2 = -1` bytes from `cmd[3]` on: the client gets nothing
  (`answersLine_iff`).
- A get behind a blank is one for the firmware, which skips blanks, but not for the
  server, which sends the first byte of the reply only (`answerLine_iff`).
-/

namespace ProjZ

open Ascii Server

/-! ## The two parsers -/

/-- A blank is not folded into a letter. -/
theorem toupper_ne_of_blank {c : UInt8} (h : c ≤ 32) : toupper c ≠ 'G'.toUInt8 := by
  have hG : 'G'.toUInt8 = 71 := by decide
  rw [hG]
  unfold toupper
  grind

theorem flag_iff (m : List UInt8) : flag m = true ↔ toupper (m.headD 0) = 'G'.toUInt8 :=
  decide_eq_true_iff

/-- **Where the parsers agree**: the server takes an accepted command for a get when the
firmware does and no blank stands before the method letter. -/
theorem flag_iff_of_accepted {m : List UInt8} (h : verdict m ≠ .rejected) :
    flag m = true ↔ (∃ r, verdict m = .get r) ∧ 32 < m.headD 0 := by
  cases m with
  | nil => exact absurd rfl h
  | cons c m =>
    rw [flag_iff, List.headD_cons]
    by_cases hb : 32 < c
    · cases hv : verdict (c :: m) with
      | rejected => exact absurd hv h
      | get r =>
        -- the method letter is the first byte
        obtain ⟨s, hsq⟩ := squeeze_of_parse (verdict_eq_get.mp hv)
        rw [squeeze_cons hb] at hsq
        have hG : toupper c = 'G'.toUInt8 := (List.cons.inj hsq).1
        exact ⟨fun _ => ⟨⟨r, rfl⟩, hb⟩, fun _ => hG⟩
      | set =>
        -- it is, and it is `S`
        obtain ⟨q, hq, hset, -⟩ := verdict_eq_set.mp hv
        obtain ⟨s, hsq⟩ := squeeze_of_parse hq
        rw [squeeze_cons hb, hset] at hsq
        have hS : toupper c = 'S'.toUInt8 := (List.cons.inj hsq).1
        refine iff_of_false ?_ ?_
        · rw [hS]
          decide
        · rintro ⟨⟨r, hr⟩, -⟩
          cases hr
    · -- neither side of the equivalence holds behind a blank
      constructor
      · intro hG
        exact absurd hG (toupper_ne_of_blank (UInt8.not_lt.mp hb))
      · rintro ⟨-, hb'⟩
        exact absurd hb' hb

/-! ## One command, one answer -/

/-- The bytes a client gets. -/
def clientBytes (outs : List Output) : List UInt8 :=
  outs.flatMap fun o =>
    match o with
    | .forward _ => []
    | .reply _ _ sent => sent

@[simp] theorem clientBytes_forward (msg : List UInt8) (outs : List Output) :
    clientBytes (.forward msg :: outs) = clientBytes outs := rfl

/-- The write that answers a command is the only one. -/
theorem replies_clientReply (m msg : List UInt8) (regs : Regs) :
    replies [.forward msg, clientReply m regs] = [clientReply m regs] := by
  unfold clientReply
  cases flag m <;> rfl

/-- **A command that arrives whole**: it is forwarded and answered, its effect is on the
registers, and the server waits for the next one. -/
theorem zServer_command (fuel : Nat) {s : Server Firmware} (hs : Sound s)
    (hc : s.connected = true) (hj : s.j = 0) {chunk : Chunk} {m rest : List UInt8}
    (hm : chunk.message = m ++ 0 :: rest) (h0 : 0 ∉ m) (hlen : 3 ≤ m.length ∧ m.length ≤ 15) :
    (zServer fuel s (.recv chunk)).2 = [.forward m, clientReply m s.file.regs] ∧
      (zServer fuel s (.recv chunk)).1.file.regs = effect m s.file.regs ∧
      Waiting (zServer fuel s (.recv chunk)).1 := by
  obtain ⟨cmd, hwhole⟩ := mServer_whole fuel (s := s.map Firmware.box) hs.fault hc hj hm h0
    (by omega)
  rw [if_neg (by omega)] at hwhole
  obtain ⟨hstate, hout⟩ := zServer_eq fuel hs.replyOk hwhole
  refine ⟨hout, congrArg (fun t => t.file.store) hstate, ?_⟩
  exact ⟨(congrArg Server.fault hstate).trans hs.fault,
    (congrArg Server.connected hstate).trans hc, (congrArg Server.j hstate).trans hj⟩

/-! ## One line per command -/

/-- The outputs hold one write to the client, of one line and within `cmd[0..15]`. -/
def AnswersLine (outs : List Output) : Prop :=
  ∃ (off : Nat) (len : Int) (line : List UInt8),
    replies outs = [.reply off len (line ++ ['\n'.toUInt8])] ∧ line ≠ [] ∧
      '\n'.toUInt8 ∉ line ∧ 0 < len ∧ off + len ≤ 16

/-- A server that has nothing to send from a rejected "get" sends no line. -/
theorem not_answersLine {m : List UInt8} (hflag : flag m = true) (hv : verdict m = .rejected)
    (regs : Regs) : ¬ AnswersLine [.forward m, clientReply m regs] := by
  rintro ⟨off, len, line, hout, -, -, hpos, -⟩
  have hone : (reply .rejected regs).length = 1 := rfl
  rw [replies_clientReply, clientReply, if_pos hflag, hv, List.singleton_inj] at hout
  injection hout with _ hlen _
  rw [hone] at hlen
  omega

/-- The first byte of a reply is a letter, and alone it is a line. -/
theorem answersLine_of_not_flag {m : List UInt8} (hflag : flag m ≠ true) (regs : Regs) :
    AnswersLine [.forward m, clientReply m regs] := by
  refine ⟨0, 2, [(reply (verdict m) regs).headD 0], ?_, List.cons_ne_nil _ _, ?_, by decide,
    by decide⟩
  · rw [replies_clientReply, clientReply, if_neg hflag]
    rfl
  · rw [List.mem_singleton]
    cases verdict m with
    | rejected => exact (by decide : '\n'.toUInt8 ≠ 'F'.toUInt8)
    | set => exact (by decide : '\n'.toUInt8 ≠ 'T'.toUInt8)
    | get r => exact (by decide : '\n'.toUInt8 ≠ 'R'.toUInt8)

/-- What is sent of the reply to a get. -/
theorem clientReply_get {m : List UInt8} {r : Reg} (hflag : flag m = true)
    (hv : verdict m = .get r) (regs : Regs) :
    clientReply m regs = .reply 3 (r.width + 1) (r.numeral regs ++ ['\n'.toUInt8]) := by
  have hlen : (reply (.get r) regs).length = r.width + 3 := by
    simp [reply, Reg.numeral]
  unfold clientReply
  rw [if_pos hflag, hv, hlen, if_pos (by omega)]
  have hint : ((r.width + 3 : Nat) : Int) - 2 = r.width + 1 := by omega
  rw [hint]
  rfl

theorem newline_notMem_numeral (r : Reg) (regs : Regs) : '\n'.toUInt8 ∉ r.numeral regs := by
  intro h
  have hdigit : isDigit '\n'.toUInt8 = true := Decimal.isDigit_of_mem_padded h
  exact absurd hdigit (by decide)

theorem answersLine_of_get {m : List UInt8} {r : Reg} (hflag : flag m = true)
    (hv : verdict m = .get r) (regs : Regs) :
    AnswersLine [.forward m, clientReply m regs] := by
  have hpos := r.width_pos
  have hle := r.width_le
  refine ⟨3, r.width + 1, r.numeral regs, ?_, ?_, newline_notMem_numeral r regs, by omega, ?_⟩
  · rw [replies_clientReply, clientReply_get hflag hv]
  · intro h
    have hlen : (r.numeral regs).length = r.width := Decimal.length_padded _ _
    rw [h, List.length_nil] at hlen
    omega
  · show ((3 : Nat) : Int) + (r.width + 1) ≤ 16
    omega

variable (fuel : Nat)

/-- **One reply line per command.** A command of 3 to 15 bytes that arrives in one chunk at
`j = 0` is answered by one line, written from within `cmd`, unless it begins with `G` or
`g` and the firmware rejects it. -/
theorem answersLine_iff {s : Server Firmware} (h : Reachable fuel s) (hc : s.connected = true)
    (hj : s.j = 0) {c : List UInt8} (hlen : 3 ≤ c.length ∧ c.length ≤ 15) (h0 : 0 ∉ c)
    {chunk : Chunk} (hm : chunk.message = c ++ [0]) :
    AnswersLine (zServer fuel s (.recv chunk)).2 ↔
      ¬ (toupper (c.headD 0) = 'G'.toUInt8 ∧ verdict c = .rejected) := by
  rw [← flag_iff]
  obtain ⟨hout, -, -⟩ := zServer_command fuel h.sound hc hj hm h0 hlen
  rw [hout]
  constructor
  · rintro hline ⟨hflag, hv⟩
    exact not_answersLine hflag hv _ hline
  · intro hcond
    by_cases hflag : flag c = true
    · -- an accepted command with `flag` is a get
      have hacc : verdict c ≠ .rejected := fun hv => hcond ⟨hflag, hv⟩
      obtain ⟨⟨r, hr⟩, -⟩ := (flag_iff_of_accepted hacc).mp hflag
      exact answersLine_of_get hflag hr _
    · exact answersLine_of_not_flag hflag _

/-- `GSX` is answered by one line. -/
theorem answersLine_iff_getX :
    AnswersLine (zServer 0 firstConnection
        (.recv ⟨bytes ['G', 'S', 'X'] ++ [0], by decide, by decide⟩)).2 ↔
      ¬ (toupper ((bytes ['G', 'S', 'X']).headD 0) = 'G'.toUInt8 ∧
        verdict (bytes ['G', 'S', 'X']) = .rejected) :=
  answersLine_iff 0 reachable_firstConnection firstConnection_connected firstConnection_j
    (by decide) (by decide) rfl

/-- `GZZ` is rejected by the firmware: `write` is called with length `-1`. -/
theorem answersLine_missing :
    ¬ ∀ (fuel : Nat) (s : Server Firmware), Reachable fuel s → s.connected = true → s.j = 0 →
      ∀ c : List UInt8, 3 ≤ c.length ∧ c.length ≤ 15 → 0 ∉ c →
      ∀ chunk : Chunk, chunk.message = c ++ [0] →
      AnswersLine (zServer fuel s (.recv chunk)).2 := by
  intro h
  obtain ⟨off, len, line, hout, -, -, hpos, -⟩ := h 0 firstConnection
    reachable_firstConnection firstConnection_connected firstConnection_j
    (bytes ['G', 'Z', 'Z']) (by decide) (by decide)
    ⟨bytes ['G', 'Z', 'Z'] ++ [0], by decide, by decide⟩ rfl
  have hrun : replies (zServer 0 firstConnection
      (.recv ⟨bytes ['G', 'Z', 'Z'] ++ [0], by decide, by decide⟩)).2 =
        [.reply 3 (-1) []] := by decide +kernel
  rw [hrun, List.singleton_inj] at hout
  injection hout with _ hlen _
  rw [← hlen] at hpos
  exact absurd hpos (by decide)

/-! ## The right line -/

/-- The text that answers a command. -/
def answerText (v : Verdict) (regs : Regs) : List UInt8 :=
  match v with
  | .get r => r.numeral regs
  | .set => ['T'.toUInt8]
  | .rejected => ['F'.toUInt8]

/-- The line that answers a command. -/
def answerLine (v : Verdict) (regs : Regs) : List UInt8 :=
  answerText v regs ++ ['\n'.toUInt8]

/-- An accepted command is answered by its line when the two parsers agree on it. -/
theorem clientBytes_of_agree {m : List UInt8} (h : verdict m ≠ .rejected) (regs : Regs)
    (hagree : flag m = true ↔ ∃ r, verdict m = .get r) :
    clientBytes [.forward m, clientReply m regs] = answerLine (verdict m) regs := by
  cases hv : verdict m with
  | rejected => exact absurd hv h
  | get r =>
    rw [clientBytes_forward, clientReply_get (hagree.mpr ⟨r, hv⟩) hv]
    exact List.append_nil _
  | set =>
    have hflag : flag m ≠ true := by
      intro hflag
      obtain ⟨r, hr⟩ := hagree.mp hflag
      rw [hv] at hr
      cases hr
    rw [clientBytes_forward, clientReply, if_neg hflag, hv]
    rfl

/-- A get behind a blank is answered by `R`. -/
theorem clientBytes_blank {m : List UInt8} {r : Reg} (hv : verdict m = .get r)
    (hflag : flag m ≠ true) (regs : Regs) :
    clientBytes [.forward m, clientReply m regs] ≠ answerLine (verdict m) regs := by
  have hR : isDigit 'R'.toUInt8 ≠ true := by decide
  have hpos := r.width_pos
  rw [clientBytes_forward, clientReply, if_neg hflag, hv]
  intro hline
  -- the line of a get begins with a digit
  obtain ⟨d, s, hnum⟩ : ∃ d s, r.numeral regs = d :: s := by
    refine List.exists_cons_of_length_pos ?_
    rw [Reg.numeral, Decimal.length_padded]
    exact hpos
  have hd : isDigit d = true := by
    refine Decimal.isDigit_of_mem_padded (w := r.width) (n := (r.value regs).toNat) ?_
    rw [show Decimal.padded r.width (r.value regs).toNat = d :: s from hnum]
    exact List.mem_cons_self ..
  rw [answerLine, answerText, hnum] at hline
  have hhead : 'R'.toUInt8 = d := (List.cons.inj hline).1
  rw [hhead] at hR
  exact hR hd

/-- **Server and firmware agree on what a command is.** An accepted command is answered by
the line the firmware's parse asks for, and is a get for the server when it is one for the
firmware, unless it is a get that begins with a blank or a control byte. -/
theorem answerLine_iff {s : Server Firmware} (h : Reachable fuel s) (hc : s.connected = true)
    (hj : s.j = 0) {c : List UInt8} (hlen : 3 ≤ c.length ∧ c.length ≤ 15) (h0 : 0 ∉ c)
    (hacc : verdict c ≠ .rejected) {chunk : Chunk} (hm : chunk.message = c ++ [0]) :
    (clientBytes (zServer fuel s (.recv chunk)).2 = answerLine (verdict c) s.file.regs ↔
      ¬ ((∃ r, verdict c = .get r) ∧ c.headD 0 ≤ 32)) ∧
    ((flag c = true ↔ ∃ r, verdict c = .get r) ↔
      ¬ ((∃ r, verdict c = .get r) ∧ c.headD 0 ≤ 32)) := by
  obtain ⟨hout, -, -⟩ := zServer_command fuel h.sound hc hj hm h0 hlen
  have hflag := flag_iff_of_accepted hacc
  have hagree : (flag c = true ↔ ∃ r, verdict c = .get r) ↔
      ¬ ((∃ r, verdict c = .get r) ∧ c.headD 0 ≤ 32) := by
    rw [hflag, ← UInt8.not_lt, not_and_not_right]
    exact and_iff_left_iff_imp
  refine ⟨?_, hagree⟩
  rw [hout]
  constructor
  · rintro hline ⟨⟨r, hr⟩, hblank⟩
    have hno : flag c ≠ true := fun hyes =>
      absurd (hflag.mp hyes).2 (UInt8.not_lt.mpr hblank)
    exact clientBytes_blank hr hno _ hline
  · intro hcond
    exact clientBytes_of_agree hacc _ (hagree.mpr hcond)

/-- `GSX` is answered by the value of its register. -/
theorem answerLine_iff_getX :
    (clientBytes (zServer 0 firstConnection
        (.recv ⟨bytes ['G', 'S', 'X'] ++ [0], by decide, by decide⟩)).2 =
          answerLine (verdict (bytes ['G', 'S', 'X'])) firstConnection.file.regs ↔
      ¬ ((∃ r, verdict (bytes ['G', 'S', 'X']) = .get r) ∧
        (bytes ['G', 'S', 'X']).headD 0 ≤ 32)) ∧
    ((flag (bytes ['G', 'S', 'X']) = true ↔ ∃ r, verdict (bytes ['G', 'S', 'X']) = .get r) ↔
      ¬ ((∃ r, verdict (bytes ['G', 'S', 'X']) = .get r) ∧
        (bytes ['G', 'S', 'X']).headD 0 ≤ 32)) :=
  answerLine_iff 0 reachable_firstConnection firstConnection_connected firstConnection_j
    (by decide) (by decide) (by decide) rfl

/-- `GSX` behind a blank is answered by `R` alone. -/
theorem answerLine_blank :
    ¬ ∀ (fuel : Nat) (s : Server Firmware), Reachable fuel s → s.connected = true → s.j = 0 →
      ∀ c : List UInt8, 3 ≤ c.length ∧ c.length ≤ 15 → 0 ∉ c → verdict c ≠ .rejected →
      ∀ chunk : Chunk, chunk.message = c ++ [0] →
      clientBytes (zServer fuel s (.recv chunk)).2 = answerLine (verdict c) s.file.regs := by
  intro h
  have hline := h 0 firstConnection reachable_firstConnection firstConnection_connected
    firstConnection_j (bytes [' ', 'G', 'S', 'X']) (by decide) (by decide) (by decide)
    ⟨bytes [' ', 'G', 'S', 'X'] ++ [0], by decide, by decide⟩ rfl
  revert hline
  decide +kernel

end ProjZ
