import ProjZ.Server.Reassembly

/-!
# What one client leaves for the next

The buffer `cmd` and the offset `j` live outside the accept loop. The contents of `cmd`
never matter to a new connection: its first bytes are the reply to the server's own
`SSE1`, and what lies behind them is read only after it has been overwritten
(`SameView.step`). The offset does matter: it is not reset when a client goes in the
middle of a command, and the next client's first bytes are stored behind it. Two
histories are indistinguishable to the next client exactly when they leave the same `j`
(`isolation_iff`).
-/

namespace ProjZ

open Ascii Server

variable (fuel : Nat)

/-- Two buffers agree where it matters when the next byte goes to index `j`: up to `j`,
or up to a `'\0'` before it. -/
def Agree (j : Nat) (a b : CharBuf 16) : Prop :=
  ∃ p, a.bytes.take p = b.bytes.take p ∧ (j ≤ p ∨ 0 ∈ a.bytes.take p)

/-- Without an offset nothing in the buffer matters. -/
theorem agree_zero (a b : CharBuf 16) : Agree 0 a b :=
  ⟨0, by rw [List.take_zero, List.take_zero], Or.inl (Nat.zero_le 0)⟩

/-- The buffers after the same bytes have been stored at `j`. -/
theorem Agree.overlay {j : Nat} {a b : CharBuf 16} (h : Agree j a b) {s : List UInt8}
    (hroom : j + s.length ≤ 16) :
    ∃ p, (a.overlay j s).bytes.take p = (b.overlay j s).bytes.take p ∧
      (j + s.length ≤ p ∨ 0 ∈ (a.overlay j s).bytes.take p) := by
  obtain ⟨p, htake, hp⟩ := h
  -- either the agreement reaches the stored bytes, or a `'\0'` shields what differs
  by_cases hjp : j ≤ p
  · refine ⟨j + s.length, ?_, Or.inl (Nat.le_refl _)⟩
    have hj : a.bytes.take j = b.bytes.take j := by
      have hcut := congrArg (List.take j) htake
      rwa [List.take_take, List.take_take, Nat.min_eq_left hjp] at hcut
    rw [CharBuf.take_overlay hroom, CharBuf.take_overlay hroom, hj]
  · have hle : p ≤ j := by omega
    refine ⟨p, ?_, Or.inr ?_⟩
    · rw [CharBuf.take_overlay_of_le hroom hle, CharBuf.take_overlay_of_le hroom hle, htake]
    · rw [CharBuf.take_overlay_of_le hroom hle]
      exact hp.resolve_left hjp

/-- A `'\0'` stored at `j` makes the C strings equal. -/
theorem Agree.cstr {j : Nat} {a b : CharBuf 16} (h : Agree j a b) {pre : List UInt8}
    (hroom : j + pre.length < 16) :
    (a.overlay j (pre ++ [0])).cstr = (b.overlay j (pre ++ [0])).cstr := by
  have hlen : (pre ++ [0]).length = pre.length + 1 := by
    rw [List.length_append, List.length_singleton]
  obtain ⟨p, htake, hp⟩ := h.overlay (s := pre ++ [0]) (by omega)
  refine CharBuf.cstr_eq_of_take htake ?_
  rcases hp with hp | hp
  · have hzero : 0 ∈ (a.overlay j (pre ++ [0])).bytes.take (j + (pre ++ [0]).length) := by
      rw [CharBuf.take_overlay (by omega)]
      exact List.mem_append_right _ (List.mem_append_right pre (List.mem_singleton_self 0))
    have hpre := List.take_prefix_take_left (l := (a.overlay j (pre ++ [0])).bytes) hp
    exact hpre.subset hzero
  · exact hp

/-- Two servers that a client cannot tell apart. -/
structure SameView (s t : Server (Mailbox.Box Regs UInt8)) : Prop where
  fault_left : s.fault = none
  fault_right : t.fault = none
  connected : s.connected = t.connected
  file : s.file = t.file
  j : s.j = t.j
  j_le : s.j ≤ 16
  agree : Agree s.j s.cmd t.cmd

/-- The server's own commands leave the same beginning of `cmd`. -/
theorem agree_settle (j : Nat) (a b : CharBuf 16) (texts : List (List UInt8))
    (text : List UInt8) :
    Agree j ((texts ++ [text]).foldl settle a) ((texts ++ [text]).foldl settle b) := by
  have hbytes : ∀ c : CharBuf 16, (settle c text).bytes.take 2 = ['T'.toUInt8, 0] := by
    intro c
    have htake := CharBuf.take_overlay (i := 0) (s := ['T'.toUInt8, 0])
      (b := c.overlay 0 (text ++ [0])) (by decide)
    exact htake
  rw [List.foldl_append, List.foldl_append]
  refine ⟨2, ?_, Or.inr ?_⟩
  · exact (hbytes _).trans (hbytes _).symm
  · rw [show (List.foldl settle (texts.foldl settle a) [text]) =
      settle (texts.foldl settle a) text from rfl, hbytes]
    decide

/-- No chunk tells them apart. -/
theorem SameView.recv {s t : Server (Mailbox.Box Regs UInt8)} (h : SameView s t)
    (hc : s.connected = true) (chunk : Chunk) :
    SameView (mServer fuel s (.recv chunk)).1 (mServer fuel t (.recv chunk)).1 ∧
      (mServer fuel s (.recv chunk)).2 = (mServer fuel t (.recv chunk)).2 := by
  have hf := h.fault_left
  have hf' := h.fault_right
  have hc' : t.connected = true := h.connected ▸ hc
  have hj16 : t.j ≤ 16 := h.j ▸ h.j_le
  have hagree := h.agree
  rw [h.j] at hagree
  rcases chunk_cases hj16 chunk.message with ⟨h0, hlen⟩ | ⟨pre, rest, hm, h0, hlen⟩ |
    ⟨pre, c, rest, hm, h0, hlen⟩
  · have hlen' : s.j + chunk.message.length ≤ 16 := h.j ▸ hlen
    rw [mServer_full fuel hf hc h0 hlen', mServer_full fuel hf' hc' h0 hlen]
    refine ⟨⟨hf, hf', h.connected, h.file, rfl, ?_, ?_⟩, rfl⟩
    · show chunk.message.length ≤ 16
      omega
    · obtain ⟨p, htake, hp⟩ := hagree.overlay hlen
      rw [h.j]
      exact ⟨p, htake, hp.imp_left fun hp => by
        show chunk.message.length ≤ p
        omega⟩
  · have hlen' : s.j + pre.length < 16 := h.j ▸ hlen
    obtain ⟨m, hcstr, hs⟩ := mServer_complete fuel hf hc hm h0 hlen'
    obtain ⟨m', hcstr', ht⟩ := mServer_complete fuel hf' hc' hm h0 hlen
    -- both servers have completed the same string
    have hmm : m = m' := by
      have heq := hagree.cstr hlen
      rw [h.j] at hcstr
      exact Option.some.inj (hcstr.symm.trans (heq.trans hcstr'))
    subst hmm
    rcases hs with ⟨hshort, hs⟩ | ⟨hlong, hs⟩
    · rcases ht with ⟨-, ht⟩ | ⟨hlong, -⟩
      · rw [hs, ht]
        exact ⟨⟨hf, hf', h.connected, h.file, rfl, Nat.zero_le 16, agree_zero _ _⟩, rfl⟩
      · omega
    · rcases ht with ⟨hshort, -⟩ | ⟨-, ht⟩
      · omega
      · rw [hs, ht, h.file]
        exact ⟨⟨hf, hf', h.connected, rfl, rfl, Nat.zero_le 16, agree_zero _ _⟩, rfl⟩
  · have hlen' : s.j + pre.length = 16 := h.j ▸ hlen
    rw [mServer_overflow fuel hf hc hm h0 hlen', mServer_overflow fuel hf' hc' hm h0 hlen]
    exact ⟨⟨hf, hf', h.connected, h.file, rfl, Nat.zero_le 16, agree_zero _ _⟩, rfl⟩

/-- **No event tells them apart.** -/
theorem SameView.step {s t : Server (Mailbox.Box Regs UInt8)} (h : SameView s t) (e : Event) :
    SameView (mServer fuel s e).1 (mServer fuel t e).1 ∧
      (mServer fuel s e).2 = (mServer fuel t e).2 := by
  have hf := h.fault_left
  have hf' := h.fault_right
  cases hc : s.connected with
  | false =>
    have hc' : t.connected = false := h.connected ▸ hc
    cases e with
    | accept =>
      rw [mServer_accept fuel hf hc, mServer_accept fuel hf' hc']
      refine ⟨⟨hf, hf', rfl, ?_, h.j, h.j_le, ?_⟩, rfl⟩
      · show connectCommands.foldl takeEffect s.file = connectCommands.foldl takeEffect t.file
        rw [h.file]
      · -- the commands of the server settle the first bytes of `cmd`, in both
        exact agree_settle s.j s.cmd t.cmd [_, _] _
    | _ =>
      rw [mServer_idle fuel (by rw [hc]; rfl), mServer_idle fuel (by rw [hc']; rfl)]
      exact ⟨h, rfl⟩
  | true =>
    have hc' : t.connected = true := h.connected ▸ hc
    cases e with
    | recv chunk => exact h.recv fuel hc chunk
    | disconnect =>
      rw [mServer_disconnect fuel hf hc, mServer_disconnect fuel hf' hc']
      refine ⟨⟨hf, hf', rfl, ?_, h.j, h.j_le, ?_⟩, rfl⟩
      · show idleCommands.foldl takeEffect s.file = idleCommands.foldl takeEffect t.file
        rw [h.file]
      · exact agree_settle s.j s.cmd t.cmd [_, _] _
    | _ =>
      rw [mServer_idle fuel (by rw [hc]; rfl), mServer_idle fuel (by rw [hc']; rfl)]
      exact ⟨h, rfl⟩

/-- Nor does the connection after two histories that leave equal registers and offsets. -/
theorem sameView_accept {s t : Server Firmware} (hs : Sound s) (ht : Sound t)
    (hcs : s.connected = false) (hct : t.connected = false)
    (hregs : s.file.regs = t.file.regs) (hj : s.j = t.j) :
    SameView (mServer fuel (s.map Firmware.box) .accept).1
      (mServer fuel (t.map Firmware.box) .accept).1 := by
  have hfile : connectCommands.foldl takeEffect s.file.box =
      connectCommands.foldl takeEffect t.file.box := by
    have hstore : ∀ b b' : Mailbox.Box Regs UInt8, b.store = b'.store →
        connectCommands.foldl takeEffect b = connectCommands.foldl takeEffect b' := by
      rintro ⟨store, out⟩ ⟨store', out'⟩ rfl
      rfl
    exact hstore _ _ hregs
  rw [mServer_accept fuel (s := s.map Firmware.box) hs.fault hcs,
    mServer_accept fuel (s := t.map Firmware.box) ht.fault hct]
  exact ⟨hs.fault, ht.fault, rfl, hfile, hj, hs.j_le, agree_settle s.j s.cmd t.cmd [_, _] _⟩

/-! ## Telling different offsets apart -/

/-- With a leftover offset and a `T` at the start of `cmd`, whatever is forwarded next
starts with that `T`. -/
theorem mServer_behind {s : Server (Mailbox.Box Regs UInt8)} (hf : s.fault = none)
    (hc : s.connected = true) (hj : 1 ≤ s.j) (hj16 : s.j ≤ 16) {rest : List UInt8}
    (hb : s.cmd.bytes = 'T'.toUInt8 :: rest) (chunk : Chunk) :
    ∀ x ∈ forwards (mServer fuel s (.recv chunk)).2, x.head? = some 'T'.toUInt8 := by
  rcases chunk_cases hj16 chunk.message with ⟨h0, hlen⟩ | ⟨pre, rest', hm, h0, hlen⟩ |
    ⟨pre, c, rest', hm, h0, hlen⟩
  · rw [mServer_full fuel hf hc h0 hlen]
    exact fun x hx => absurd hx List.not_mem_nil
  · obtain ⟨m, hcstr, hstep⟩ := mServer_complete fuel hf hc hm h0 hlen
    rcases hstep with ⟨-, hstep⟩ | ⟨-, hstep⟩
    · rw [hstep]
      exact fun x hx => absurd hx List.not_mem_nil
    · rw [hstep, forwards_forward, forwards_clientReply, forwards_nil]
      intro x hx
      rw [List.mem_singleton.mp hx]
      -- the bytes are stored behind the `T`, so the C string begins with it
      have hroom : s.j + (pre ++ [0]).length ≤ 16 := by
        rw [List.length_append, List.length_singleton]
        omega
      obtain ⟨tail, htail⟩ := CharBuf.head_overlay hroom hj hb
      obtain ⟨rest'', hm'⟩ := CharBuf.bytes_of_cstr hcstr
      rw [htail] at hm'
      cases m with
      | nil => exact absurd (List.cons.inj hm').1 (by decide)
      | cons d m => rw [List.head?_cons, ← (List.cons.inj hm').1]
  · rw [mServer_overflow fuel hf hc hm h0 hlen]
    exact fun x hx => absurd hx List.not_mem_nil

/-- The probe `GSX`. -/
def probe : Chunk := ⟨bytes ['G', 'S', 'X'] ++ [0], by decide, by decide⟩

/-- `n` bytes `x`. -/
def filler (n : Nat) (h0 : 0 < n) (h : n ≤ 16) : Chunk where
  message := List.replicate n 'x'.toUInt8
  ne_nil := by
    rw [Ne, List.replicate_eq_nil_iff]
    omega
  length_le := by
    rw [List.length_replicate]
    omega

theorem zero_notMem_filler (n : Nat) : 0 ∉ List.replicate n 'x'.toUInt8 := by
  intro h
  exact absurd (List.eq_of_mem_replicate h) (by decide)

/-- A waiting server forwards the probe. -/
theorem Waiting.probe {s : Server (Mailbox.Box Regs UInt8)} (h : Waiting s) :
    forwards (mServer fuel s (.recv probe)).2 = [bytes ['G', 'S', 'X']] := by
  have hm : ProjZ.probe.message = bytes ['G', 'S', 'X'] ++ 0 :: [] := rfl
  have hout := (h.whole fuel hm (by decide) (by decide)).2
  rwa [if_neg (by decide)] at hout

/-- A server with an offset does not. -/
theorem probe_behind {s : Server (Mailbox.Box Regs UInt8)} (hf : s.fault = none)
    (hc : s.connected = true) (hj : 1 ≤ s.j) (hj16 : s.j ≤ 16) {rest : List UInt8}
    (hb : s.cmd.bytes = 'T'.toUInt8 :: rest) :
    forwards (mServer fuel s (.recv probe)).2 ≠ [bytes ['G', 'S', 'X']] := by
  intro h
  have hT := mServer_behind fuel hf hc hj hj16 hb probe (bytes ['G', 'S', 'X'])
    (h ▸ List.mem_singleton_self _)
  revert hT
  decide

/-- A filler that overruns the buffer clears the way for the probe. -/
theorem probe_after_overrun {s : Server (Mailbox.Box Regs UInt8)} (hf : s.fault = none)
    (hc : s.connected = true) {n : Nat} (h0 : 0 < n) (h : n ≤ 16) (hover : s.j + n = 17) :
    forwards (Runs.outputs (mServer fuel) s (received [filler n h0 h, probe])) =
      [bytes ['G', 'S', 'X']] := by
  have hcut : (filler n h0 h).message =
      List.replicate (16 - s.j) 'x'.toUInt8 ++ 'x'.toUInt8 :: [] := by
    show List.replicate n 'x'.toUInt8 = _
    rw [show n = 16 - s.j + 1 by omega, List.replicate_succ']
  have hstep := mServer_overflow fuel hf hc hcut (zero_notMem_filler _)
    (by rw [List.length_replicate]; omega)
  have hw : Waiting (mServer fuel s (.recv (filler n h0 h))).1 := by
    rw [hstep]
    exact ⟨hf, hc, rfl⟩
  show forwards (_ ++ (_ ++ [])) = _
  rw [List.append_nil, forwards_append, hw.probe, hstep]
  rfl

/-- A filler that fits behind an offset leaves an offset. -/
theorem probe_after_fitting {s : Server (Mailbox.Box Regs UInt8)} (hf : s.fault = none)
    (hc : s.connected = true) (hj : 1 ≤ s.j) {rest : List UInt8}
    (hb : s.cmd.bytes = 'T'.toUInt8 :: rest) {n : Nat} (h0 : 0 < n) (h : n ≤ 16)
    (hfit : s.j + n ≤ 16) :
    forwards (Runs.outputs (mServer fuel) s (received [filler n h0 h, probe])) ≠
      [bytes ['G', 'S', 'X']] := by
  have hlen : (filler n h0 h).message.length = n := List.length_replicate
  have hstep : mServer fuel s (.recv (filler n h0 h)) = _ :=
    mServer_full fuel hf hc (zero_notMem_filler _) (by omega)
  obtain ⟨rest', hb'⟩ := CharBuf.head_overlay
    (s := (filler n h0 h).message) (i := s.j) (by omega) hj hb
  show forwards (_ ++ (_ ++ [])) ≠ _
  rw [List.append_nil, forwards_append, hstep, forwards_nil, List.nil_append]
  refine probe_behind fuel (s := { s with
      cmd := s.cmd.overlay s.j (filler n h0 h).message
      j := (filler n h0 h).message.length }) hf hc ?_ ?_ hb'
  · show 1 ≤ (filler n h0 h).message.length
    omega
  · show (filler n h0 h).message.length ≤ 16
    omega

/-- **Different offsets can be told apart** by at most two chunks. -/
theorem exists_probe {s t : Server (Mailbox.Box Regs UInt8)} (hs : Fresh s) (ht : Fresh t)
    (hlt : s.j < t.j) :
    ∃ chunks, forwards (Runs.outputs (mServer fuel) s (received chunks)) ≠
      forwards (Runs.outputs (mServer fuel) t (received chunks)) := by
  have ht16 := ht.j_le
  obtain ⟨rest, hbs⟩ := hs.cmd
  obtain ⟨rest', hbt⟩ := ht.cmd
  by_cases hs0 : s.j = 0
  · -- an offset of 0 lets the probe through as it is
    have hw : Waiting s := ⟨hs.fault, hs.connected, hs0⟩
    refine ⟨[probe], ?_⟩
    show forwards (_ ++ []) ≠ forwards (_ ++ [])
    rw [List.append_nil, List.append_nil, hw.probe]
    exact (probe_behind fuel ht.fault ht.connected (by omega) ht16 hbt).symm
  · -- as many bytes as overrun the buffer behind `t.j` but not behind `s.j`
    have hpos : 0 < 17 - t.j := by omega
    have hle : 17 - t.j ≤ 16 := by omega
    refine ⟨[filler (17 - t.j) hpos hle, probe], ?_⟩
    rw [probe_after_overrun fuel ht.fault ht.connected hpos hle (by omega)]
    exact probe_after_fitting fuel hs.fault hs.connected (by omega) hbs hpos hle (by omega)

/-- **Session isolation.** Two histories that leave equal registers are followed by the
same forwarded commands and replies, whatever the next client sends, exactly when they
leave the same receive offset. -/
theorem isolation_iff {s t : Server Firmware} (hs : Reachable fuel s) (ht : Reachable fuel t)
    (hcs : s.connected = false) (hct : t.connected = false)
    (hregs : s.file.regs = t.file.regs) :
    (∀ chunks : List Chunk,
      forwards (Runs.outputs (zServer fuel) s (.accept :: received chunks)) =
          forwards (Runs.outputs (zServer fuel) t (.accept :: received chunks)) ∧
        replies (Runs.outputs (zServer fuel) s (.accept :: received chunks)) =
          replies (Runs.outputs (zServer fuel) t (.accept :: received chunks))) ↔
      s.j = t.j := by
  have hs' := hs.sound
  have ht' := ht.sound
  have houts : ∀ {u : Server Firmware}, Sound u → ∀ chunks,
      Runs.outputs (zServer fuel) u (.accept :: received chunks) =
        (mServer fuel (u.map Firmware.box) .accept).2 ++
          Runs.outputs (mServer fuel) (mServer fuel (u.map Firmware.box) .accept).1
            (received chunks) := fun hu _ => zServer_outputs fuel hu.replyOk _
  have hhello : (mServer fuel (s.map Firmware.box) .accept).2 =
      (mServer fuel (t.map Firmware.box) .accept).2 := by
    rw [mServer_accept fuel (s := s.map Firmware.box) hs'.fault hcs,
      mServer_accept fuel (s := t.map Firmware.box) ht'.fault hct]
  constructor
  · intro h
    obtain ⟨hfreshs, hjs⟩ := hs'.fresh fuel hcs
    obtain ⟨hfresht, hjt⟩ := ht'.fresh fuel hct
    -- both connections forward the same strings on the mailbox, too
    have hforward : ∀ chunks,
        forwards (Runs.outputs (mServer fuel) (mServer fuel (s.map Firmware.box) .accept).1
            (received chunks)) =
          forwards (Runs.outputs (mServer fuel) (mServer fuel (t.map Firmware.box) .accept).1
            (received chunks)) := by
      intro chunks
      have hchunks := (h chunks).1
      rw [houts hs', houts ht', forwards_append, forwards_append, hhello] at hchunks
      exact List.append_cancel_left hchunks
    rw [← hjs, ← hjt]
    rcases Nat.lt_trichotomy (mServer fuel (s.map Firmware.box) .accept).1.j
      (mServer fuel (t.map Firmware.box) .accept).1.j with hlt | heq | hlt
    · obtain ⟨chunks, hne⟩ := exists_probe fuel hfreshs hfresht hlt
      exact absurd (hforward chunks) hne
    · exact heq
    · obtain ⟨chunks, hne⟩ := exists_probe fuel hfresht hfreshs hlt
      exact absurd (hforward chunks).symm hne
  · intro hj chunks
    have hview := sameView_accept fuel hs' ht' hcs hct hregs hj
    have hbisim : ∀ e s t, SameView s t →
        SameView (mServer fuel s e).1 (mServer fuel t e).1 ∧
          (mServer fuel s e).2 = (mServer fuel t e).2 := fun e _ _ h => h.step fuel e
    have hsame : Runs.outputs (zServer fuel) s (.accept :: received chunks) =
        Runs.outputs (zServer fuel) t (.accept :: received chunks) := by
      rw [houts hs', houts ht', hhello,
        (Runs.outputs_eq_of_bisim hbisim hview (received chunks)).2]
    rw [hsame]
    exact ⟨rfl, rfl⟩

/-- A first client that has come and gone leaves nothing behind. -/
theorem isolation_iff_session :
    (∀ chunks : List Chunk,
      forwards (Runs.outputs (zServer 0) firstStart (.accept :: received chunks)) =
          forwards (Runs.outputs (zServer 0)
            (Runs.final (zServer 0) firstStart [.accept, .disconnect])
            (.accept :: received chunks)) ∧
        replies (Runs.outputs (zServer 0) firstStart (.accept :: received chunks)) =
          replies (Runs.outputs (zServer 0)
            (Runs.final (zServer 0) firstStart [.accept, .disconnect])
            (.accept :: received chunks))) ↔
      firstStart.j = (Runs.final (zServer 0) firstStart [.accept, .disconnect]).j :=
  isolation_iff 0 reachable_firstStart (reachable_firstStart.run [.accept, .disconnect])
    (by decide +kernel) (by decide +kernel) (by decide +kernel)

/-- A client that goes after `GS` makes the next client's `GSX` disappear. -/
theorem isolation_broken :
    ¬ ∀ (fuel : Nat) (s t : Server Firmware), Reachable fuel s → Reachable fuel t →
      s.connected = false → t.connected = false → s.file.regs = t.file.regs →
      ∀ chunks : List Chunk,
        forwards (Runs.outputs (zServer fuel) s (.accept :: received chunks)) =
            forwards (Runs.outputs (zServer fuel) t (.accept :: received chunks)) ∧
          replies (Runs.outputs (zServer fuel) s (.accept :: received chunks)) =
            replies (Runs.outputs (zServer fuel) t (.accept :: received chunks)) := by
  intro h
  have hall := (h 0 firstStart (Runs.final (zServer 0) firstStart
      [.accept, .recv ⟨bytes ['G', 'S'], by decide, by decide⟩, .disconnect])
    reachable_firstStart (reachable_firstStart.run _) (by decide +kernel) (by decide +kernel)
    (by decide +kernel) [⟨bytes ['G', 'S', 'X'] ++ [0], by decide, by decide⟩]).1
  revert hall
  decide +kernel

end ProjZ
