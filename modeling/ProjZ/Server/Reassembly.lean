import ProjZ.Server.Reachable

/-!
# How commands survive fragmentation and coalescing

What reaches the firmware when the bytes of commands arrive in chunks that are not
the commands:

- one command in several chunks (`forwards_fragments_iff`): `j` is replaced, not
  advanced, by each chunk, so a third chunk is stored too low and the command is
  forwarded exactly when at most two chunks carry it;
- several commands in one chunk (`forwards_groups_iff`): the bytes after the first
  `'\0'` of a chunk are dropped, so all commands are forwarded exactly when each
  chunk carries one and the connection starts with `j = 0`.
-/

namespace ProjZ

open Ascii Server

variable (fuel : Nat)

/-- The events in which chunks arrive. -/
def received (chunks : List Chunk) : List Event := chunks.map .recv

/-! ## A command in fragments -/

section Fragments

variable {s : Server (Mailbox.Box Regs UInt8)}

/-- A whole command, with anything after its `'\0'`, at `j = 0`. -/
theorem mServer_whole (hf : s.fault = none) (hc : s.connected = true) (hj : s.j = 0)
    {chunk : Chunk} {m rest : List UInt8} (hm : chunk.message = m ++ 0 :: rest) (h0 : 0 ∉ m)
    (hlen : m.length < 16) :
    ∃ cmd, mServer fuel s (.recv chunk) =
      if m.length < 3 then ({ s with cmd := cmd }, [])
      else ({ s with cmd := cmd, file := takeEffect s.file m },
        [.forward m, clientReply m s.file.store]) := by
  obtain ⟨m', hcstr, hstep⟩ := mServer_complete fuel hf hc hm h0 (by omega)
  rw [hj, CharBuf.cstr_overlay hlen h0, Option.some.injEq] at hcstr
  subst hcstr
  rcases hstep with ⟨hshort, hstep⟩ | ⟨hlong, hstep⟩
  · exact ⟨_, by rw [hstep, if_pos hshort, ← hj]⟩
  · exact ⟨_, by rw [hstep, if_neg (by omega), ← hj]⟩

/-- Chunks without a `'\0'` that fit: nothing is forwarded, and `j` ends as the length
of the last one. -/
theorem mServer_collect {chunks : List Chunk} (hf : s.fault = none) (hc : s.connected = true)
    (h0 : 0 ∉ (chunks.map Chunk.message).flatten)
    (hroom : s.j + (chunks.map Chunk.message).flatten.length ≤ 16) :
    ∃ cmd, Runs.final (mServer fuel) s (received chunks) =
        { s with cmd := cmd, j := (chunks.map fun c => c.message.length).getLastD s.j } ∧
      Runs.outputs (mServer fuel) s (received chunks) = [] := by
  -- `j` never exceeds the bytes sent so far, so every chunk fits where it is stored
  induction chunks generalizing s with
  | nil => exact ⟨s.cmd, rfl, rfl⟩
  | cons a chunks ih =>
    rw [List.map_cons, List.flatten_cons] at h0 hroom
    rw [List.length_append] at hroom
    have h0a : 0 ∉ a.message := fun h => h0 (List.mem_append_left _ h)
    have hstep := mServer_full fuel hf hc h0a (by omega)
    have hfinal : Runs.final (mServer fuel) s (received (a :: chunks)) =
        Runs.final (mServer fuel) (mServer fuel s (.recv a)).1 (received chunks) := rfl
    have houts : Runs.outputs (mServer fuel) s (received (a :: chunks)) =
        (mServer fuel s (.recv a)).2 ++
          Runs.outputs (mServer fuel) (mServer fuel s (.recv a)).1 (received chunks) := rfl
    rw [hfinal, houts, hstep]
    have hrest := ih (s := { s with
        cmd := s.cmd.overlay s.j a.message, j := a.message.length }) hf hc
      (fun h => h0 (List.mem_append_right _ h)) (by show a.message.length + _ ≤ 16; omega)
    obtain ⟨cmd, hfin, hout⟩ := hrest
    refine ⟨cmd, ?_, hout⟩
    rw [hfin, List.map_cons, List.getLastD_cons]

/-- The last chunk of a fragmented command ends with its `'\0'`. -/
theorem split_last {init : List Chunk} {b : Chunk} {c : List UInt8}
    (h : ((init ++ [b]).map Chunk.message).flatten = c ++ [0]) :
    ∃ b', b.message = b' ++ [0] ∧ (init.map Chunk.message).flatten ++ b' = c := by
  rw [List.map_append, List.flatten_append, List.map_singleton, List.flatten_singleton] at h
  rcases List.eq_nil_or_concat b.message with hb | ⟨b', x, hb⟩
  · exact absurd hb b.ne_nil
  · rw [hb, List.concat_eq_append, ← List.append_assoc] at h
    obtain ⟨h1, h2⟩ := List.append_inj' h rfl
    rw [List.singleton_inj] at h2
    exact ⟨b', by rw [hb, List.concat_eq_append, h2], h1⟩

/-- Two chunks that fit together: the offset is right when the second one comes. -/
theorem mServer_two (hf : s.fault = none) (hc : s.connected = true) (hj : s.j = 0)
    {a b : Chunk} {b' : List UInt8} (hb : b.message = b' ++ [0])
    (h0 : 0 ∉ a.message ++ b') (hlen : (a.message ++ b').length < 16) :
    ∃ cmd, mServer fuel (mServer fuel s (.recv a)).1 (.recv b) =
        (if (a.message ++ b').length < 3 then ({ s with cmd := cmd }, [])
        else ({ s with cmd := cmd, file := takeEffect s.file (a.message ++ b') },
          [.forward (a.message ++ b'), clientReply (a.message ++ b') s.file.store])) ∧
      (mServer fuel s (.recv a)).2 = [] := by
  have hlen' := hlen
  rw [List.length_append] at hlen'
  have h0a : 0 ∉ a.message := fun h => h0 (List.mem_append_left b' h)
  have h0b : 0 ∉ b' := fun h => h0 (List.mem_append_right a.message h)
  have hfull := mServer_full fuel hf hc h0a (by omega)
  have hb0 : b.message = b' ++ 0 :: [] := hb
  obtain ⟨m, hcstr, hstep⟩ := mServer_complete fuel
    (s := { s with cmd := s.cmd.overlay s.j a.message, j := a.message.length })
    hf hc hb0 h0b (by show a.message.length + b'.length < 16; omega)
  have hm : a.message ++ b' = m := by
    -- the two stores are one store of the whole command
    have happ := CharBuf.overlay_append 0 a.message (b' ++ [0]) s.cmd
    rw [Nat.zero_add] at happ
    have hcstr' := CharBuf.cstr_overlay (b := s.cmd) hlen h0
    rw [List.append_assoc, happ, ← hj] at hcstr'
    exact Option.some.inj (hcstr'.symm.trans hcstr)
  subst hm
  rw [hfull]
  rcases hstep with ⟨hshort, hstep⟩ | ⟨hlong, hstep⟩
  · exact ⟨_, by rw [hstep, if_pos hshort, ← hj], rfl⟩
  · exact ⟨_, by rw [hstep, if_neg (by omega), ← hj], rfl⟩

/-- Two chunks or fewer. -/
theorem forwards_two {init : List Chunk} {b : Chunk} {c : List UInt8} (hf : s.fault = none)
    (hc : s.connected = true) (hj : s.j = 0) (hlen : 3 ≤ c.length ∧ c.length ≤ 15)
    (h0 : 0 ∉ c) (hsplit : ((init ++ [b]).map Chunk.message).flatten = c ++ [0])
    (hinit : init.length ≤ 1) :
    forwards (Runs.outputs (mServer fuel) s (received (init ++ [b]))) = [c] := by
  obtain ⟨b', hb, hcat⟩ := split_last hsplit
  match init, hinit with
  | [], _ =>
    have hb' : b.message = c ++ 0 :: [] := by
      rw [hb, ← hcat]
      rfl
    obtain ⟨cmd, hstep⟩ := mServer_whole fuel hf hc hj hb' h0 (by omega)
    rw [if_neg (by omega)] at hstep
    show forwards ((mServer fuel s (.recv b)).2 ++ []) = [c]
    rw [hstep, List.append_nil, forwards_forward, forwards_clientReply, forwards_nil]
  | [a], _ =>
    rw [List.map_singleton, List.flatten_singleton] at hcat
    subst hcat
    obtain ⟨cmd, hstep, hfirst⟩ := mServer_two fuel hf hc hj hb h0 (by omega)
    rw [if_neg (by omega)] at hstep
    show forwards ((mServer fuel s (.recv a)).2 ++
      ((mServer fuel (mServer fuel s (.recv a)).1 (.recv b)).2 ++ [])) = _
    rw [hfirst, hstep, List.nil_append, List.append_nil, forwards_forward,
      forwards_clientReply, forwards_nil]

/-- Three chunks or more: the `'\0'` lands too low for the command to be whole. -/
theorem forwards_many {init : List Chunk} {b : Chunk} {c : List UInt8} (hf : s.fault = none)
    (hc : s.connected = true) (hj : s.j = 0) (hlen : c.length ≤ 15) (h0 : 0 ∉ c)
    (hsplit : ((init ++ [b]).map Chunk.message).flatten = c ++ [0])
    (hinit : 2 ≤ init.length) :
    forwards (Runs.outputs (mServer fuel) s (received (init ++ [b]))) ≠ [c] := by
  obtain ⟨b', hb, hcat⟩ := split_last hsplit
  have h0b : 0 ∉ b' := fun h => h0 (hcat ▸ List.mem_append_right _ h)
  have h0i : 0 ∉ (init.map Chunk.message).flatten := fun h =>
    h0 (hcat ▸ List.mem_append_left b' h)
  have hlenc : (init.map Chunk.message).flatten.length + b'.length = c.length := by
    rw [← hcat, List.length_append]
  obtain ⟨cmd, hfinal, houts⟩ := mServer_collect fuel hf hc h0i (by omega)
  -- `j` is the length of one chunk only, and there is another, non-empty one
  obtain ⟨front, a, rfl⟩ : ∃ front a, init = front ++ [a] := by
    rcases List.eq_nil_or_concat init with h | ⟨front, a, h⟩
    · rw [h] at hinit
      cases hinit
    · exact ⟨front, a, by rw [h, List.concat_eq_append]⟩
  have hlast : ((front ++ [a]).map fun c => c.message.length).getLastD s.j =
      a.message.length := by
    rw [List.map_append, List.map_singleton, List.getLastD_concat]
  rw [hlast] at hfinal
  have hfront : 0 < (front.map Chunk.message).flatten.length := by
    rw [List.length_append, List.length_singleton] at hinit
    match front, hinit with
    | a' :: front, _ =>
      rw [List.map_cons, List.flatten_cons, List.length_append]
      have := List.length_pos_of_ne_nil a'.ne_nil
      omega
  rw [List.map_append, List.flatten_append, List.length_append, List.map_singleton,
    List.flatten_singleton] at hlenc
  have hb0 : b.message = b' ++ 0 :: [] := hb
  obtain ⟨m, hcstr, hstep⟩ := mServer_complete fuel
    (s := { s with cmd := cmd, j := a.message.length }) hf hc hb0 h0b
    (by show a.message.length + b'.length < 16; omega)
  -- the string ends at the `'\0'`, below the length of the whole command
  have hmlen : m.length < c.length := by
    have hbytes : (cmd.overlay a.message.length (b' ++ [0])).bytes =
        (cmd.bytes.take a.message.length ++ b') ++
          0 :: cmd.bytes.drop (a.message.length + (b' ++ [0]).length) := by
      rw [CharBuf.bytes_overlay (by rw [List.length_append, List.length_singleton]; omega)]
      simp
    have hle := CharBuf.length_cstr_le hcstr hbytes
    rw [List.length_append, List.length_take] at hle
    omega
  have hrun : Runs.outputs (mServer fuel) s (received (front ++ [a] ++ [b])) =
      (mServer fuel { s with cmd := cmd, j := a.message.length } (.recv b)).2 := by
    rw [received, List.map_append, Runs.outputs_append]
    show Runs.outputs (mServer fuel) s (received (front ++ [a])) ++
      ((mServer fuel (Runs.final (mServer fuel) s (received (front ++ [a]))) (.recv b)).2 ++
        []) = _
    rw [houts, hfinal, List.nil_append, List.append_nil]
  rw [hrun]
  rcases hstep with ⟨-, hstep⟩ | ⟨-, hstep⟩
  · rw [hstep]
    exact (List.cons_ne_nil c []).symm
  · rw [hstep, forwards_forward, forwards_clientReply]
    intro h
    have hmc : m = c := (List.cons.inj h).1
    rw [hmc] at hmlen
    exact Nat.lt_irrefl _ hmlen

end Fragments

/-- **Fragmented commands.** A command of 3 to 15 bytes that arrives in several chunks,
`j` being 0 at first, is forwarded (whole, and once) exactly when it arrives in at most
two. -/
theorem forwards_fragments_iff {s : Server Firmware} (h : Reachable fuel s)
    (hc : s.connected = true) (hj : s.j = 0) {c : List UInt8}
    (hlen : 3 ≤ c.length ∧ c.length ≤ 15) (h0 : 0 ∉ c) {chunks : List Chunk}
    (hsplit : (chunks.map Chunk.message).flatten = c ++ [0]) :
    forwards (Runs.outputs (zServer fuel) s (received chunks)) = [c] ↔
      chunks.length ≤ 2 := by
  rw [zServer_outputs fuel h.sound.replyOk]
  have hf : (s.map Firmware.box).fault = none := h.sound.fault
  rcases List.eq_nil_or_concat chunks with rfl | ⟨init, b, rfl⟩
  · rw [List.map_nil, List.flatten_nil] at hsplit
    exact absurd hsplit.symm (List.append_ne_nil_of_right_ne_nil c (List.cons_ne_nil 0 []))
  · rw [List.concat_eq_append] at hsplit ⊢
    rw [List.length_append, List.length_singleton]
    constructor
    · intro hforward
      by_contra hmany
      exact forwards_many fuel hf hc hj hlen.2 h0 hsplit (by omega) hforward
    · intro htwo
      exact forwards_two fuel hf hc hj hlen h0 hsplit (by omega)

/-- `SLE1` in two chunks. -/
theorem forwards_fragments_iff_two :
    forwards (Runs.outputs (zServer 0) firstConnection
        (received [⟨bytes ['S', 'L'], by decide, by decide⟩,
          ⟨bytes ['E', '1'] ++ [0], by decide, by decide⟩])) = [bytes ['S', 'L', 'E', '1']] ↔
      [(⟨bytes ['S', 'L'], by decide, by decide⟩ : Chunk),
        ⟨bytes ['E', '1'] ++ [0], by decide, by decide⟩].length ≤ 2 :=
  forwards_fragments_iff 0 reachable_firstConnection firstConnection_connected
    firstConnection_j (by decide) (by decide) (by decide)

/-- `SLE1` in three chunks `S`, `L`, `E1\0`: nothing is forwarded whole. -/
theorem forwards_fragments_lost :
    ¬ ∀ (fuel : Nat) (s : Server Firmware), Reachable fuel s → s.connected = true → s.j = 0 →
      ∀ c : List UInt8, 3 ≤ c.length ∧ c.length ≤ 15 → 0 ∉ c →
      ∀ chunks : List Chunk, (chunks.map Chunk.message).flatten = c ++ [0] →
      forwards (Runs.outputs (zServer fuel) s (received chunks)) = [c] := by
  intro h
  have hall := h 0 firstConnection reachable_firstConnection firstConnection_connected
    firstConnection_j (bytes ['S', 'L', 'E', '1']) (by decide) (by decide)
    [⟨bytes ['S'], by decide, by decide⟩, ⟨bytes ['L'], by decide, by decide⟩,
      ⟨bytes ['E', '1'] ++ [0], by decide, by decide⟩] (by decide)
  revert hall
  decide +kernel

/-! ## Commands in groups -/

/-- A command as clients send it: 3 to 15 bytes, none of them `'\0'`. -/
structure Command where
  text : List UInt8
  length_ge : 3 ≤ text.length
  length_le : text.length ≤ 15
  zero_notMem : 0 ∉ text

/-- A command with its terminator. -/
def Command.wire (c : Command) : List UInt8 := c.text ++ [0]

/-- One or more whole commands in one chunk. -/
structure Group where
  commands : List Command
  ne_nil : commands ≠ []
  length_le : (commands.flatMap Command.wire).length ≤ 1024

/-- The first command of a group. -/
def Group.head (g : Group) : Command := g.commands.head g.ne_nil

theorem Group.commands_eq (g : Group) : g.commands = g.head :: g.commands.tail :=
  (List.cons_head_tail g.ne_nil).symm

theorem Group.wire_eq (g : Group) :
    g.commands.flatMap Command.wire =
      g.head.text ++ 0 :: g.commands.tail.flatMap Command.wire := by
  rw [g.commands_eq, List.flatMap_cons, Command.wire, List.append_assoc]
  rfl

/-- The chunk that delivers a group. -/
def Group.chunk (g : Group) : Chunk where
  message := g.commands.flatMap Command.wire
  ne_nil := by
    rw [g.wire_eq]
    exact List.append_ne_nil_of_right_ne_nil _ (List.cons_ne_nil 0 _)
  length_le := g.length_le

/-- Between two commands: a client is connected and nothing is carried over. -/
structure Waiting {δ : Type} (s : Server δ) : Prop where
  fault : s.fault = none
  connected : s.connected = true
  j : s.j = 0

section Groups

variable {s : Server (Mailbox.Box Regs UInt8)}

/-- A terminated string that fits, with anything after it: the string is forwarded if it
is long enough, and the server waits for the next. -/
theorem Waiting.whole (h : Waiting s) {chunk : Chunk} {m rest : List UInt8}
    (hm : chunk.message = m ++ 0 :: rest) (h0 : 0 ∉ m) (hlen : m.length < 16) :
    Waiting (mServer fuel s (.recv chunk)).1 ∧
      forwards (mServer fuel s (.recv chunk)).2 = if m.length < 3 then [] else [m] := by
  obtain ⟨cmd, hstep⟩ := mServer_whole fuel h.fault h.connected h.j hm h0 hlen
  by_cases hshort : m.length < 3
  · rw [hstep, if_pos hshort, if_pos hshort]
    exact ⟨⟨h.fault, h.connected, h.j⟩, rfl⟩
  · rw [hstep, if_neg hshort, if_neg hshort]
    refine ⟨⟨h.fault, h.connected, h.j⟩, ?_⟩
    rw [forwards_forward, forwards_clientReply, forwards_nil]

/-- Of each group, the first command is forwarded and the others are lost. -/
theorem Waiting.groups (h : Waiting s) (groups : List Group) :
    forwards (Runs.outputs (mServer fuel) s (received (groups.map Group.chunk))) =
      groups.map fun g => g.head.text := by
  induction groups generalizing s with
  | nil => rfl
  | cons g groups ih =>
    have hlen := g.head.length_ge
    have hm : g.chunk.message = _ := g.wire_eq
    obtain ⟨hnext, hout⟩ := h.whole fuel hm g.head.zero_notMem
      (Nat.lt_succ_of_le g.head.length_le)
    rw [if_neg (by omega)] at hout
    show forwards ((mServer fuel s (.recv g.chunk)).2 ++
      Runs.outputs (mServer fuel) (mServer fuel s (.recv g.chunk)).1
        (received (groups.map Group.chunk))) = _
    rw [forwards_append, hout, ih hnext]
    rfl

end Groups

/-- There are at least as many commands as groups. -/
theorem length_le_commands (groups : List Group) :
    groups.length ≤ (groups.flatMap Group.commands).length := by
  induction groups with
  | nil => exact Nat.le_refl 0
  | cons g groups ih =>
    have hpos := List.length_pos_of_ne_nil g.ne_nil
    rw [List.flatMap_cons, List.length_append, List.length_cons]
    omega

/-- Taking the first command of each group loses nothing only if there are no others. -/
theorem heads_eq_iff (groups : List Group) :
    (groups.map fun g => g.head.text) =
        (groups.flatMap Group.commands).map Command.text ↔
      ∀ g ∈ groups, g.commands.length = 1 := by
  constructor
  · intro h
    have hlen := congrArg List.length h
    rw [List.length_map, List.length_map] at hlen
    -- each group has a command, so the lengths agree only if each has one
    clear h
    induction groups with
    | nil => exact fun g hg => absurd hg List.not_mem_nil
    | cons g groups ih =>
      have hpos := List.length_pos_of_ne_nil g.ne_nil
      have hrest := length_le_commands groups
      rw [List.flatMap_cons, List.length_append, List.length_cons] at hlen
      intro q hq
      rcases List.mem_cons.mp hq with rfl | hq
      · omega
      · exact ih (by omega) q hq
  · intro h
    induction groups with
    | nil => rfl
    | cons g groups ih =>
      have hone := h g (List.mem_cons_self ..)
      have htail : g.commands.tail = [] := by
        rw [← List.length_eq_zero_iff, List.length_tail, hone]
      rw [List.map_cons, List.flatMap_cons, g.commands_eq, htail, List.map_append,
        ih fun q hq => h q (List.mem_cons_of_mem g hq)]
      rfl

/-! ### Connections that start with a leftover offset -/

/-- What a connecting client finds in `cmd`: the reply `T` over `SSE1`. -/
theorem bytes_connect (cmd : CharBuf 16) :
    ∃ rest, (connectCommands.foldl settle cmd).bytes =
      'T'.toUInt8 :: 0 :: 'E'.toUInt8 :: '1'.toUInt8 :: 0 :: rest := by
  have hfold : ∃ cmd', connectCommands.foldl settle cmd =
      settle cmd' (bytes ['S', 'S', 'E', '1']) := ⟨_, rfl⟩
  obtain ⟨cmd', hcmd'⟩ := hfold
  refine ⟨cmd'.bytes.drop 5, ?_⟩
  rw [hcmd', settle, CharBuf.bytes_overlay (by decide), CharBuf.bytes_overlay (by decide)]
  rfl

/-- A connection that has just been accepted. Its offset is what the one before has left. -/
structure Fresh (s : Server (Mailbox.Box Regs UInt8)) : Prop where
  fault : s.fault = none
  connected : s.connected = true
  j_le : s.j ≤ 16
  cmd : ∃ rest, s.cmd.bytes = 'T'.toUInt8 :: 0 :: rest

theorem Sound.fresh {s : Server Firmware} (h : Sound s) (hc : s.connected = false) :
    Fresh (mServer fuel (s.map Firmware.box) .accept).1 ∧
      (mServer fuel (s.map Firmware.box) .accept).1.j = s.j := by
  rw [mServer_accept fuel (s := s.map Firmware.box) h.fault hc]
  obtain ⟨rest, hbytes⟩ := bytes_connect s.cmd
  exact ⟨⟨h.fault, rfl, h.j_le, _, hbytes⟩, rfl⟩

/-- With a leftover offset, the first command is stored behind that `T`. -/
theorem cstr_leftover {cmd : CharBuf 16} {rest : List UInt8}
    (hb : cmd.bytes = 'T'.toUInt8 :: 0 :: rest) {j : Nat} {c : List UInt8} (hj : 1 ≤ j)
    (hroom : j + c.length < 16) (h0 : 0 ∉ c) :
    (cmd.overlay j (c ++ [0])).cstr =
      some (if j = 1 then 'T'.toUInt8 :: c else ['T'.toUInt8]) := by
  have hlen : (c ++ [0]).length = c.length + 1 := by
    rw [List.length_append, List.length_singleton]
  have hbytes := CharBuf.bytes_overlay (i := j) (b := cmd) (s := c ++ [0]) (by omega)
  have hT : (0 : UInt8) ≠ 'T'.toUInt8 := by decide
  -- behind index 1 there is the `'\0'` of the reply, which ends the string at once
  by_cases h1 : j = 1
  · subst h1
    rw [if_pos rfl]
    refine CharBuf.cstr_of_bytes (cmd.bytes.drop (1 + (c ++ [0]).length)) ?_ ?_
    · rw [hbytes, hb]
      simp
    · intro hm
      rcases List.mem_cons.mp hm with hm | hm
      · exact hT hm
      · exact h0 hm
  · rw [if_neg h1]
    obtain ⟨k, rfl⟩ : ∃ k, j = k + 2 := ⟨j - 2, by omega⟩
    refine CharBuf.cstr_of_bytes (rest.take k ++ (c ++ [0]) ++
      cmd.bytes.drop (k + 2 + (c ++ [0]).length)) ?_ ?_
    · rw [hbytes, hb]
      simp
    · intro hm
      exact hT (List.mem_singleton.mp hm)

/-- The first chunk of a connection with a leftover offset: nothing of it reaches the
firmware as it was sent, and the offset is gone. -/
theorem Fresh.leftover {s : Server (Mailbox.Box Regs UInt8)} (h : Fresh s) (hj : 1 ≤ s.j)
    {chunk : Chunk} {c tail : List UInt8} (hm : chunk.message = c ++ 0 :: tail) (h0 : 0 ∉ c) :
    Waiting (mServer fuel s (.recv chunk)).1 ∧
      (forwards (mServer fuel s (.recv chunk)).2 = [] ∨
        forwards (mServer fuel s (.recv chunk)).2 = ['T'.toUInt8 :: c]) := by
  obtain ⟨hf, hc, hj16, rest, hb⟩ := h
  rcases chunk_cases hj16 chunk.message with ⟨hno, -⟩ | ⟨pre, rest', hm', h0', hroom⟩ |
    ⟨pre, x, rest', hm', h0', hroom⟩
  · refine absurd ?_ hno
    rw [hm]
    exact List.mem_append_right c (List.mem_cons_self ..)
  · have hpre : pre = c := CharBuf.terminated_unique (hm'.symm.trans hm) h0' h0
    subst hpre
    obtain ⟨m, hcstr, hstep⟩ := mServer_complete fuel hf hc hm' h0' hroom
    rw [cstr_leftover hb hj hroom h0, Option.some.injEq] at hcstr
    rcases hstep with ⟨hshort, hstep⟩ | ⟨hlong, hstep⟩
    · rw [hstep]
      exact ⟨⟨hf, hc, rfl⟩, Or.inl rfl⟩
    · rw [hstep, forwards_forward, forwards_clientReply, forwards_nil]
      refine ⟨⟨hf, hc, rfl⟩, Or.inr ?_⟩
      by_cases h1 : s.j = 1
      · rw [← hcstr, if_pos h1]
      · rw [← hcstr, if_neg h1, List.length_singleton] at hlong
        omega
  · rw [mServer_overflow fuel hf hc hm' h0' hroom]
    exact ⟨⟨hf, hc, rfl⟩, Or.inl rfl⟩

/-- So a connection with a leftover offset does not forward all commands of its groups. -/
theorem Fresh.not_forwarded {s : Server (Mailbox.Box Regs UInt8)} (h : Fresh s) (hj : 1 ≤ s.j)
    (g : Group) (groups : List Group) :
    forwards (Runs.outputs (mServer fuel) s (received ((g :: groups).map Group.chunk))) ≠
      ((g :: groups).flatMap Group.commands).map Command.text := by
  have hmg : g.chunk.message = _ := g.wire_eq
  obtain ⟨hnext, hout⟩ := h.leftover fuel hj hmg g.head.zero_notMem
  have hrun : forwards (Runs.outputs (mServer fuel) s
      (received ((g :: groups).map Group.chunk))) =
      forwards (mServer fuel s (.recv g.chunk)).2 ++ groups.map fun g => g.head.text := by
    rw [← hnext.groups fuel groups, ← forwards_append]
    rfl
  intro hall
  rw [hrun, List.flatMap_cons, g.commands_eq, List.map_append, List.map_cons] at hall
  rcases hout with hout | hout
  · -- the first command is missing, so there is one string too few
    have hlen := congrArg List.length hall
    have hge := length_le_commands groups
    rw [hout, List.nil_append, List.length_map, List.cons_append, List.length_cons,
      List.length_append, List.length_map, List.length_map] at hlen
    omega
  · -- the first command is there with a letter in front
    rw [hout] at hall
    have hlen := congrArg List.length (List.cons.inj hall).1
    rw [List.length_cons] at hlen
    omega

/-- **Coalesced commands.** When each chunk of a connection is one or more whole commands,
all commands are forwarded, in order, exactly when each chunk is one command and the
connection started with `j = 0` (or nothing was sent). -/
theorem forwards_groups_iff {s : Server Firmware} (h : Reachable fuel s)
    (hc : s.connected = false) (groups : List Group) :
    forwards (Runs.outputs (zServer fuel) (zServer fuel s .accept).1
        (received (groups.map Group.chunk))) =
        (groups.flatMap Group.commands).map Command.text ↔
      groups = [] ∨ (s.j = 0 ∧ ∀ g ∈ groups, g.commands.length = 1) := by
  obtain ⟨hfresh, hj⟩ := h.sound.fresh fuel hc
  have haccept : (zServer fuel s .accept).1.map Firmware.box =
      (mServer fuel (s.map Firmware.box) .accept).1 :=
    zServer_final fuel h.sound.replyOk [.accept]
  rw [zServer_outputs fuel (h.step .accept).sound.replyOk, haccept]
  -- accepting leaves the offset of the earlier connections in place
  by_cases h0 : s.j = 0
  · have hw : Waiting (mServer fuel (s.map Firmware.box) .accept).1 :=
      ⟨hfresh.fault, hfresh.connected, hj.trans h0⟩
    rw [hw.groups, heads_eq_iff]
    constructor
    · exact fun hone => Or.inr ⟨h0, hone⟩
    · rintro (rfl | ⟨-, hone⟩)
      · exact fun g hg => absurd hg List.not_mem_nil
      · exact hone
  · constructor
    · intro hall
      cases groups with
      | nil => exact Or.inl rfl
      | cons g groups => exact absurd hall (hfresh.not_forwarded fuel (by omega) g groups)
    · rintro (rfl | ⟨hj0, -⟩)
      · rfl
      · exact absurd hj0 h0

/-- A group of one command. -/
def Group.single (c : Command) : Group where
  commands := [c]
  ne_nil := List.cons_ne_nil c []
  length_le := by
    have hlen := c.length_le
    rw [List.flatMap_singleton, Command.wire, List.length_append, List.length_singleton]
    omega

/-- `SLE1`. -/
def lampOn : Command := ⟨bytes ['S', 'L', 'E', '1'], by decide, by decide, by decide⟩

/-- `SLE0`. -/
def lampOff : Command := ⟨bytes ['S', 'L', 'E', '0'], by decide, by decide, by decide⟩

/-- `SLE1` and `SLE0` in two chunks. -/
theorem forwards_groups_iff_single :
    forwards (Runs.outputs (zServer 0) (zServer 0 firstStart .accept).1
        (received ([Group.single lampOn, Group.single lampOff].map Group.chunk))) =
        ([Group.single lampOn, Group.single lampOff].flatMap Group.commands).map
          Command.text ↔
      [Group.single lampOn, Group.single lampOff] = [] ∨ (firstStart.j = 0 ∧
        ∀ g ∈ [Group.single lampOn, Group.single lampOff], g.commands.length = 1) :=
  forwards_groups_iff 0 reachable_firstStart (by decide +kernel) _

/-- `SLE1` and `SLE0` in one chunk: the second is lost. -/
theorem forwards_groups_lost :
    ¬ ∀ (fuel : Nat) (s : Server Firmware), Reachable fuel s → s.connected = false →
      ∀ groups : List Group,
      forwards (Runs.outputs (zServer fuel) (zServer fuel s .accept).1
          (received (groups.map Group.chunk))) =
        (groups.flatMap Group.commands).map Command.text := by
  intro h
  have hall := h 0 firstStart reachable_firstStart (by decide +kernel)
    [⟨[lampOn, lampOff], by decide, by decide⟩]
  revert hall
  decide +kernel

end ProjZ
