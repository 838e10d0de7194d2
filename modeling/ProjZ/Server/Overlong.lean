import ProjZ.Server.Reassembly

/-!
# Segments that do not fit the command buffer

A stream of NUL-terminated segments of any length, each delivered in one or two
chunks. When a chunk runs over the end of `cmd` the receive loop drops that chunk and
starts afresh with the next one, without skipping to the segment's `'\0'`. So a
piece of an over-long segment is forwarded exactly when its first chunk alone overruns
the buffer and its second one looks like a command (`Delivery.Leaks`).
-/

namespace ProjZ

open Ascii Server

variable (fuel : Nat)

/-- The command a whole segment amounts to: none when it is too short or too long. -/
def commandOf (segment : List UInt8) : List (List UInt8) :=
  if 3 ≤ segment.length ∧ segment.length ≤ 15 then [segment] else []

/-- A NUL-terminated segment in at most two chunks. -/
structure Delivery where
  segment : List UInt8
  chunks : List Chunk
  zero_notMem : 0 ∉ segment
  flatten_eq : (chunks.map Chunk.message).flatten = segment ++ [0]
  length_le : chunks.length ≤ 2

namespace Delivery

/-- The delivery cuts its segment after more than 16 bytes and leaves 3 to 15 for the
second chunk, besides the `'\0'`. -/
def Leaks (d : Delivery) : Prop :=
  ∃ a b, d.chunks = [a, b] ∧ 16 < a.message.length ∧ 4 ≤ b.message.length ∧
    b.message.length ≤ 16

/-- One chunk, or two. -/
theorem cases (d : Delivery) :
    (∃ a, d.chunks = [a] ∧ a.message = d.segment ++ [0]) ∨
    (∃ a b b', d.chunks = [a, b] ∧ b.message = b' ++ [0] ∧
      d.segment = a.message ++ b') := by
  have hflat := d.flatten_eq
  have hle := d.length_le
  match hch : d.chunks with
  | [] =>
    rw [hch] at hflat
    exact absurd hflat.symm (List.append_ne_nil_of_right_ne_nil _ (List.cons_ne_nil 0 []))
  | [a] =>
    rw [hch, List.map_singleton, List.flatten_singleton] at hflat
    exact Or.inl ⟨a, rfl, hflat⟩
  | [a, b] =>
    rw [hch] at hflat
    have hflat' : (([a] ++ [b]).map Chunk.message).flatten = d.segment ++ [0] := hflat
    obtain ⟨b', hb, hcat⟩ := split_last hflat'
    rw [List.map_singleton, List.flatten_singleton] at hcat
    exact Or.inr ⟨a, b, b', rfl, hb, hcat.symm⟩
  | _ :: _ :: _ :: _ =>
    rw [hch] at hle
    simp only [List.length_cons] at hle
    omega

end Delivery

/-! ## Delivering one segment -/

section Segments

variable {s : Server (Mailbox.Box Regs UInt8)}

/-- A chunk that overruns the buffer from `j = 0` leaves the server waiting. -/
theorem Waiting.overrun (h : Waiting s) {chunk : Chunk} {pre rest : List UInt8} {c : UInt8}
    (hm : chunk.message = pre ++ c :: rest) (h0 : 0 ∉ pre) (hlen : pre.length = 16) :
    Waiting (mServer fuel s (.recv chunk)).1 ∧ (mServer fuel s (.recv chunk)).2 = [] := by
  have hj := h.j
  rw [mServer_overflow fuel h.fault h.connected hm h0 (by omega)]
  exact ⟨⟨h.fault, h.connected, rfl⟩, rfl⟩

/-- A text longer than `n` bytes, cut after `n`. -/
theorem exists_cut {m : List UInt8} {n : Nat} (h : n < m.length) :
    ∃ pre c rest, m = pre ++ c :: rest ∧ pre.length = n ∧ ∀ x, x ∉ m → x ∉ pre := by
  refine ⟨m.take n, m[n], m.drop (n + 1), ?_, ?_, ?_⟩
  · rw [← List.drop_eq_getElem_cons h, List.take_append_drop]
  · rw [List.length_take]
    omega
  · exact fun x hx hm => hx (List.mem_of_mem_take hm)

/-- A chunk that is one terminated text. -/
theorem Waiting.text (h : Waiting s) {chunk : Chunk} {m : List UInt8}
    (hm : chunk.message = m ++ [0]) (h0 : 0 ∉ m) :
    Waiting (mServer fuel s (.recv chunk)).1 ∧
      forwards (mServer fuel s (.recv chunk)).2 = commandOf m := by
  by_cases hlen : m.length < 16
  · have hm0 : chunk.message = m ++ 0 :: [] := hm
    obtain ⟨hnext, hout⟩ := h.whole fuel hm0 h0 hlen
    refine ⟨hnext, ?_⟩
    rw [hout, commandOf]
    by_cases hshort : m.length < 3
    · rw [if_pos hshort, if_neg (by omega)]
    · rw [if_neg hshort, if_pos (by omega)]
  · -- the first 16 bytes fill the buffer, the next one overruns it
    obtain ⟨pre, c, rest, hcut, hpre, hno⟩ : ∃ pre c rest, m ++ [0] = pre ++ c :: rest ∧
        pre.length = 16 ∧ 0 ∉ pre := by
      by_cases h16 : m.length = 16
      · exact ⟨m, 0, [], rfl, h16, h0⟩
      · obtain ⟨pre, c, rest, hcut, hpre, hno⟩ := exists_cut (show 16 < m.length by omega)
        refine ⟨pre, c, rest ++ [0], ?_, hpre, hno 0 h0⟩
        rw [hcut, List.append_assoc]
        rfl
    obtain ⟨hnext, hout⟩ := h.overrun fuel (hm.trans hcut) hno hpre
    refine ⟨hnext, ?_⟩
    rw [hout, commandOf, if_neg (by omega)]
    rfl

/-- A segment in two chunks. When the first one fits, the two are taken together;
otherwise the second one is taken for a segment of its own. -/
theorem Waiting.twoChunks (h : Waiting s) {a b : Chunk} {b' : List UInt8}
    (hb : b.message = b' ++ [0]) (h0 : 0 ∉ a.message ++ b') :
    Waiting (mServer fuel (mServer fuel s (.recv a)).1 (.recv b)).1 ∧
      forwards ((mServer fuel s (.recv a)).2 ++
          (mServer fuel (mServer fuel s (.recv a)).1 (.recv b)).2) =
        if 16 < a.message.length then commandOf b' else commandOf (a.message ++ b') := by
  have h0a : 0 ∉ a.message := fun hm => h0 (List.mem_append_left b' hm)
  have h0b : 0 ∉ b' := fun hm => h0 (List.mem_append_right a.message hm)
  have hj := h.j
  by_cases hover : 16 < a.message.length
  · -- the overrun leaves no trace, and `b` starts a command of its own
    obtain ⟨pre, c, rest, hcut, hpre, hno⟩ := exists_cut hover
    obtain ⟨hnext, hout⟩ := h.overrun fuel hcut (hno 0 h0a) hpre
    obtain ⟨hnext', hout'⟩ := hnext.text fuel hb h0b
    refine ⟨hnext', ?_⟩
    rw [hout, List.nil_append, hout', if_pos hover]
  · rw [if_neg hover]
    by_cases hfit : (a.message ++ b').length < 16
    · obtain ⟨cmd, hstep, hfirst⟩ :=
        mServer_two fuel h.fault h.connected h.j hb h0 hfit
      rw [hfirst, hstep, commandOf]
      by_cases hshort : (a.message ++ b').length < 3
      · rw [if_pos hshort, if_neg (by omega)]
        exact ⟨⟨h.fault, h.connected, h.j⟩, rfl⟩
      · rw [if_neg hshort, if_pos (by omega)]
        refine ⟨⟨h.fault, h.connected, h.j⟩, ?_⟩
        rw [List.nil_append, forwards_forward, forwards_clientReply, forwards_nil]
    · -- the second chunk overruns the buffer
      rw [List.length_append] at hfit
      have hfull := mServer_full fuel h.fault h.connected h0a (by omega)
      obtain ⟨pre, c, rest, hcut, hpre, hno⟩ := exists_cut (m := b' ++ [0])
        (n := 16 - a.message.length) (by rw [List.length_append, List.length_singleton]; omega)
      have hnopre : 0 ∉ pre := by
        intro hm
        have hle : pre.length ≤ b'.length := by omega
        have hpre' : pre <+: b' := List.prefix_of_prefix_length_le
          ⟨c :: rest, hcut.symm⟩ (List.prefix_append b' [0]) hle
        exact h0b (hpre'.subset hm)
      have hover' := mServer_overflow fuel
        (s := { s with cmd := s.cmd.overlay s.j a.message, j := a.message.length })
        h.fault h.connected (hb.trans hcut) hnopre
        (by show a.message.length + pre.length = 16; omega)
      rw [hfull]
      show Waiting (mServer fuel { s with
          cmd := s.cmd.overlay s.j a.message, j := a.message.length } (.recv b)).1 ∧ _
      rw [hover']
      refine ⟨⟨h.fault, h.connected, rfl⟩, ?_⟩
      rw [commandOf, if_neg (by rw [List.length_append]; omega)]
      rfl

/-- What a delivery forwards. -/
theorem Waiting.delivery (h : Waiting s) (d : Delivery) :
    Waiting (Runs.final (mServer fuel) s (received d.chunks)) ∧
      (¬ d.Leaks → forwards (Runs.outputs (mServer fuel) s (received d.chunks)) =
        commandOf d.segment) ∧
      (d.Leaks → forwards (Runs.outputs (mServer fuel) s (received d.chunks)) ≠ [] ∧
        16 ≤ d.segment.length) := by
  rcases d.cases with ⟨a, hch, ha⟩ | ⟨a, b, b', hch, hb, hseg⟩
  · obtain ⟨hnext, hout⟩ := h.text fuel ha d.zero_notMem
    rw [hch]
    -- a segment that comes in one piece
    refine ⟨hnext, fun _ => ?_, ?_⟩
    · show forwards ((mServer fuel s (.recv a)).2 ++ []) = _
      rw [List.append_nil, hout]
    · rintro ⟨a', b, hch', -⟩
      rw [hch] at hch'
      cases hch'
  · have h0 : 0 ∉ a.message ++ b' := hseg ▸ d.zero_notMem
    obtain ⟨hnext, hout⟩ := h.twoChunks fuel hb h0
    -- a segment in two: after an over-long first piece the second is taken for a command
    have hlen : b.message.length = b'.length + 1 := by
      rw [hb, List.length_append, List.length_singleton]
    have hrun : Runs.outputs (mServer fuel) s (received d.chunks) =
        (mServer fuel s (.recv a)).2 ++
          (mServer fuel (mServer fuel s (.recv a)).1 (.recv b)).2 := by
      rw [hch]
      show _ ++ (_ ++ []) = _
      rw [List.append_nil]
    rw [hrun, hout, hseg, hch]
    refine ⟨hnext, ?_, ?_⟩
    · intro hno
      by_cases hover : 16 < a.message.length
      · have hb' : ¬ (3 ≤ b'.length ∧ b'.length ≤ 15) := fun hb' =>
          hno ⟨a, b, hch, hover, by omega, by omega⟩
        rw [if_pos hover, commandOf, commandOf, if_neg hb',
          if_neg (by rw [List.length_append]; omega)]
      · rw [if_neg hover]
    · rintro ⟨a', b'', hch', hover, hge, hle⟩
      rw [hch, List.cons.injEq, List.cons.injEq] at hch'
      obtain ⟨rfl, rfl, -⟩ := hch'
      rw [if_pos hover, commandOf, if_pos (by omega), List.length_append]
      exact ⟨List.cons_ne_nil _ _, by omega⟩

/-- The server is waiting after any deliveries. -/
theorem Waiting.deliveries (h : Waiting s) (ds : List Delivery) :
    Waiting (Runs.final (mServer fuel) s (ds.flatMap fun d => received d.chunks)) := by
  induction ds generalizing s with
  | nil => exact h
  | cons d ds ih =>
    rw [List.flatMap_cons, Runs.final_append]
    exact ih (h.delivery fuel d).1

/-- Without a leak, exactly the segments that are commands are forwarded. -/
theorem Waiting.forwards_deliveries (h : Waiting s) {ds : List Delivery}
    (hno : ∀ d ∈ ds, ¬ d.Leaks) :
    forwards (Runs.outputs (mServer fuel) s (ds.flatMap fun d => received d.chunks)) =
      ds.flatMap fun d => commandOf d.segment := by
  induction ds generalizing s with
  | nil => rfl
  | cons d ds ih =>
    obtain ⟨hnext, hout, -⟩ := h.delivery fuel d
    rw [List.flatMap_cons, Runs.outputs_append, forwards_append,
      hout (hno d (List.mem_cons_self ..)),
      ih hnext fun q hq => hno q (List.mem_cons_of_mem d hq)]
    rfl

end Segments

/-- **Pieces of over-long segments.** Every forwarded string is a complete segment and
nothing is forwarded while an over-long segment arrives, exactly when no segment is cut
so that its first chunk overruns the buffer and 3 to 15 bytes are left for the second. -/
theorem forwards_segments_iff {s : Server Firmware} (h : Reachable fuel s)
    (hc : s.connected = true) (hj : s.j = 0) (ds : List Delivery) :
    ((∀ x ∈ forwards (Runs.outputs (zServer fuel) s
          (ds.flatMap fun d => received d.chunks)), x ∈ ds.map Delivery.segment) ∧
      ∀ before d after, ds = before ++ d :: after → 16 ≤ d.segment.length →
        forwards (Runs.outputs (zServer fuel)
          (Runs.final (zServer fuel) s (before.flatMap fun d => received d.chunks))
          (received d.chunks)) = []) ↔
      ∀ d ∈ ds, ¬ d.Leaks := by
  have hok := h.sound.replyOk
  have hw : Waiting (s.map Firmware.box) := ⟨h.sound.fault, hc, hj⟩
  -- what a delivery inside the run forwards, on the mailbox
  have hin : ∀ (before : List Delivery) (d : Delivery),
      Runs.outputs (zServer fuel)
          (Runs.final (zServer fuel) s (before.flatMap fun d => received d.chunks))
          (received d.chunks) =
        Runs.outputs (mServer fuel) (Runs.final (mServer fuel) (s.map Firmware.box)
          (before.flatMap fun d => received d.chunks)) (received d.chunks) := by
    intro before d
    rw [zServer_outputs fuel (h.run _).sound.replyOk, zServer_final fuel hok]
  constructor
  · -- a leaking delivery forwards something although its segment is over-long
    rintro ⟨-, hpiece⟩ d hd hleak
    obtain ⟨before, after, hsplit⟩ := List.append_of_mem hd
    obtain ⟨-, -, hout⟩ := (hw.deliveries fuel before).delivery fuel d
    obtain ⟨hne, hlong⟩ := hout hleak
    have hnil := hpiece before d after hsplit hlong
    rw [hin] at hnil
    exact hne hnil
  · intro hno
    constructor
    · intro x hx
      rw [zServer_outputs fuel hok, hw.forwards_deliveries fuel hno, List.mem_flatMap] at hx
      obtain ⟨d, hd, hx⟩ := hx
      unfold commandOf at hx
      split at hx
      · rw [List.mem_singleton.mp hx]
        exact List.mem_map_of_mem hd
      · exact absurd hx List.not_mem_nil
    · intro before d after hsplit hlong
      obtain ⟨-, hout, -⟩ := (hw.deliveries fuel before).delivery fuel d
      rw [hin, hout (hno d (by rw [hsplit]; simp)), commandOf, if_neg (by omega)]

/-- 17 bytes and `SLE1`, cut between them. -/
def overlongCut : Delivery where
  segment := List.replicate 17 'X'.toUInt8 ++ bytes ['S', 'L', 'E', '1']
  chunks := [⟨List.replicate 17 'X'.toUInt8, by decide, by decide⟩,
    ⟨bytes ['S', 'L', 'E', '1'] ++ [0], by decide, by decide⟩]
  zero_notMem := by decide
  flatten_eq := by decide
  length_le := by decide

/-- The same segment, cut after its first byte. -/
def overlongWhole : Delivery where
  segment := List.replicate 17 'X'.toUInt8 ++ bytes ['S', 'L', 'E', '1']
  chunks := [⟨['X'.toUInt8], by decide, by decide⟩,
    ⟨List.replicate 16 'X'.toUInt8 ++ bytes ['S', 'L', 'E', '1'] ++ [0],
      by decide, by decide⟩]
  zero_notMem := by decide
  flatten_eq := by decide
  length_le := by decide

/-- An over-long segment that is dropped as a whole. -/
theorem forwards_segments_iff_whole :
    ((∀ x ∈ forwards (Runs.outputs (zServer 0) firstConnection
          ([overlongWhole].flatMap fun d => received d.chunks)),
        x ∈ [overlongWhole].map Delivery.segment) ∧
      ∀ before d after, [overlongWhole] = before ++ d :: after → 16 ≤ d.segment.length →
        forwards (Runs.outputs (zServer 0)
          (Runs.final (zServer 0) firstConnection (before.flatMap fun d => received d.chunks))
          (received d.chunks)) = []) ↔
      ∀ d ∈ [overlongWhole], ¬ d.Leaks :=
  forwards_segments_iff 0 reachable_firstConnection firstConnection_connected
    firstConnection_j [overlongWhole]

/-- The end of an over-long segment can be executed as a command. -/
theorem forwards_segments_leak :
    ¬ ∀ (fuel : Nat) (s : Server Firmware), Reachable fuel s → s.connected = true → s.j = 0 →
      ∀ ds : List Delivery,
      (∀ x ∈ forwards (Runs.outputs (zServer fuel) s
          (ds.flatMap fun d => received d.chunks)), x ∈ ds.map Delivery.segment) ∧
      ∀ before d after, ds = before ++ d :: after → 16 ≤ d.segment.length →
        forwards (Runs.outputs (zServer fuel)
          (Runs.final (zServer fuel) s (before.flatMap fun d => received d.chunks))
          (received d.chunks)) = [] := by
  intro h
  have hmem := (h 0 firstConnection reachable_firstConnection firstConnection_connected
    firstConnection_j [overlongCut]).1 (bytes ['S', 'L', 'E', '1']) (by decide +kernel)
  revert hmem
  decide

end ProjZ
