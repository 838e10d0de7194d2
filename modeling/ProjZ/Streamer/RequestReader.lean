import ProjZ.Lib.CharBuf
import ProjZ.Lib.Lines

/-!
# Reading from a client

`_read` and `_readline` of `httpd.c` take the bytes of a client through an `iobuffer`, which a
`read` of the socket fills with what there is. For their caller this is a stream of bytes
(`readLoop_enough`, `readLoop_short`), and its lines come one after the other
(`readline_lines`), however the bytes were cut on their way.
-/

namespace ProjZ

namespace Httpd

open Lines

/-- The size of the buffer between the socket and the lines. -/
def IO_BUFFER : Nat := 256

/-- `iobuffer`. The `level` bytes that have not been handed out are at the end of the buffer. -/
structure Iobuffer where
  level : Nat
  buffer : CharBuf IO_BUFFER
  level_le : level ≤ IO_BUFFER
deriving DecidableEq

/-- What `select`, and the `read` behind it, find on the socket: nothing in time, an error or the
end of the connection, or some bytes. -/
inductive Poll where
  | timeout
  | failed
  | data (s : List UInt8) (ne : s ≠ []) (le : s.length ≤ IO_BUFFER)
deriving DecidableEq

/-- A client as `_read` sees it. Behind the last poll nothing comes any more. -/
structure Connection where
  socket : List Poll
  iobuf : Iobuffer
deriving DecidableEq

namespace Iobuffer

/-- After `memset`. -/
def zeros : CharBuf IO_BUFFER := ⟨List.replicate IO_BUFFER 0, List.length_replicate⟩

/-- `init_iobuffer`. -/
def init : Iobuffer := ⟨0, zeros, Nat.zero_le _⟩

/-- The bytes from `buffer + IO_BUFFER - level` on. -/
def ahead (iobuf : Iobuffer) : List UInt8 := iobuf.buffer.bytes.drop (IO_BUFFER - iobuf.level)

/-- `level -= i`. -/
def advance (iobuf : Iobuffer) (i : Nat) : Iobuffer :=
  ⟨iobuf.level - i, iobuf.buffer, Nat.le_trans (Nat.sub_le _ _) iobuf.level_le⟩

/-- The `read` into an initialised buffer, and the `memmove` to its end. -/
def fill (s : List UInt8) (le : s.length ≤ IO_BUFFER) : Iobuffer :=
  ⟨s.length, (zeros.overlay 0 s).overlay (IO_BUFFER - s.length) s, le⟩

/-- `level` counts the bytes that are still in the buffer. -/
@[simp] theorem length_ahead (iobuf : Iobuffer) : iobuf.ahead.length = iobuf.level := by
  have hle := iobuf.level_le
  rw [ahead, List.length_drop, iobuf.buffer.length_eq]
  omega

/-- Bytes are handed out from the front. -/
theorem ahead_advance {iobuf : Iobuffer} {i : Nat} (h : i ≤ iobuf.level) :
    (iobuf.advance i).ahead = iobuf.ahead.drop i := by
  have hle := iobuf.level_le
  rw [ahead, ahead, List.drop_drop]
  show iobuf.buffer.bytes.drop (IO_BUFFER - (iobuf.level - i)) = _
  congr 1
  omega

/-- A new buffer is empty. -/
@[simp] theorem ahead_init : init.ahead = [] :=
  List.eq_nil_of_length_eq_zero (length_ahead init)

/-- A buffer that has been filled holds what was read. -/
@[simp] theorem ahead_fill {s : List UInt8} (le : s.length ≤ IO_BUFFER) :
    (fill s le).ahead = s := by
  have hsum : IO_BUFFER - s.length + s.length = IO_BUFFER := Nat.sub_add_cancel le
  have hbytes := CharBuf.bytes_overlay (b := zeros.overlay 0 s) (Nat.le_of_eq hsum)
  have hlen := (zeros.overlay 0 s).length_eq
  show ((zeros.overlay 0 s).overlay _ s).bytes.drop (IO_BUFFER - s.length) = s
  rw [hbytes, hsum, List.drop_of_length_le (Nat.le_of_eq hlen), List.append_nil]
  refine List.drop_left' ?_
  rw [List.length_take, hlen]
  exact Nat.min_eq_left (Nat.sub_le _ _)

end Iobuffer

/-- The bytes that arrive in time, before the connection fails. -/
def arriving : List Poll → List UInt8
  | [] => []
  | .timeout :: _ => []
  | .failed :: _ => []
  | .data s _ _ :: socket => s ++ arriving socket

/-- The bytes that the thread of a client can still get. -/
def Connection.stream (conn : Connection) : List UInt8 := conn.iobuf.ahead ++ arriving conn.socket

/-- The loop of `_read`, with the bytes copied so far: what it returns is their number, or `none`
for -1. -/
def readLoop (len : Nat) :
    List Poll → Iobuffer → List UInt8 → Option (List UInt8) × Connection
  | [], iobuf, copied =>
    let i := min iobuf.level (len - copied.length)
    (some (copied ++ iobuf.ahead.take i), ⟨[], iobuf.advance i⟩)
  | poll :: socket, iobuf, copied =>
    let i := min iobuf.level (len - copied.length)
    let copied := copied ++ iobuf.ahead.take i
    let iobuf := iobuf.advance i
    -- all of it was there, so the socket is not asked
    if len ≤ copied.length then (some copied, ⟨poll :: socket, iobuf⟩)
    else
      match poll with
      | .timeout => (some copied, ⟨socket, iobuf⟩)
      | .failed => (none, ⟨socket, .init⟩)
      | .data s _ le => readLoop len socket (.fill s le) copied

/-- `_read`. -/
def read (len : Nat) (conn : Connection) : Option (List UInt8) × Connection :=
  if len = 0 then (some [], conn) else readLoop len conn.socket conn.iobuf []

/-- The loop of `_readline`, with the room left in its buffer and the byte read last. -/
def readlineLoop : Nat → UInt8 → Connection → Option (List UInt8 × Connection)
  | 0, _, conn => some ([], conn)
  | n + 1, c, conn =>
    if c = newline then some ([], conn)
    else
      match read 1 conn with
      | (some [c], conn) => (readlineLoop n c conn).map fun r => (c :: r.1, r.2)
      | _ => none

/-- `_readline`: the bytes of the line, or `none` for -1. -/
def readline (len : Nat) (conn : Connection) : Option (List UInt8 × Connection) :=
  readlineLoop len 0 conn

/-! ## The stream of a connection -/

section ReadLoop

variable {len i : Nat} {socket : List Poll} {iobuf : Iobuffer} {copied : List UInt8}

/-- What a client can still read. -/
theorem length_stream (socket : List Poll) (iobuf : Iobuffer) :
    (Connection.stream ⟨socket, iobuf⟩).length = iobuf.level + (arriving socket).length := by
  rw [Connection.stream, List.length_append, Iobuffer.length_ahead]

/-- What a round copies is taken from the stream. -/
theorem stream_advance (h : i ≤ iobuf.level) (socket : List Poll) :
    Connection.stream ⟨socket, iobuf⟩ =
      iobuf.ahead.take i ++ Connection.stream ⟨socket, iobuf.advance i⟩ := by
  unfold Connection.stream
  rw [Iobuffer.ahead_advance h, ← List.append_assoc, List.take_append_drop]

/-- What a `read` into the empty buffer finds is what comes next. -/
theorem stream_data (hempty : iobuf.ahead = []) {s : List UInt8} {ne : s ≠ []}
    {le : s.length ≤ IO_BUFFER} :
    Connection.stream ⟨.data s ne le :: socket, iobuf⟩ =
      Connection.stream ⟨socket, .fill s le⟩ := by
  rw [Connection.stream, Connection.stream, hempty, Iobuffer.ahead_fill]
  rfl

/-- **`_read` copies the next bytes of the stream**, if there are enough of them. -/
theorem readLoop_enough (hlen : copied.length < len)
    (h : len ≤ copied.length + (Connection.stream ⟨socket, iobuf⟩).length) :
    ∃ (s : List UInt8) (conn : Connection),
      readLoop len socket iobuf copied = (some (copied ++ s), conn) ∧
        (copied ++ s).length = len ∧ Connection.stream ⟨socket, iobuf⟩ = s ++ conn.stream := by
  -- on the socket; each call of `read` fills an empty buffer
  induction socket generalizing iobuf copied with
  | nil =>
    have hlevel : len - copied.length ≤ iobuf.level := by
      rw [length_stream, arriving, List.length_nil] at h
      omega
    refine ⟨_, _, rfl, ?_, stream_advance (Nat.min_le_left _ _) []⟩
    rw [List.length_append, List.length_take, Iobuffer.length_ahead]
    omega
  | cons poll socket ih =>
    have hmin : min iobuf.level (len - copied.length) ≤ iobuf.level := Nat.min_le_left _ _
    have hstream := stream_advance hmin (poll :: socket)
    have hcopied : (copied ++ iobuf.ahead.take (min iobuf.level (len - copied.length))).length =
        copied.length + min iobuf.level (len - copied.length) := by
      rw [List.length_append, List.length_take, Iobuffer.length_ahead]
      omega
    unfold readLoop
    dsimp only
    by_cases hfull : len ≤ copied.length + min iobuf.level (len - copied.length)
    · rw [if_pos (by rw [hcopied]; exact hfull)]
      exact ⟨_, _, rfl, by rw [hcopied]; omega, hstream⟩
    · -- the buffer has been emptied, and the rest has to come from the socket
      rw [if_neg (by rw [hcopied]; exact hfull)]
      have hempty : (iobuf.advance (min iobuf.level (len - copied.length))).ahead = [] := by
        refine List.eq_nil_of_length_eq_zero ?_
        rw [Iobuffer.length_ahead]
        show iobuf.level - _ = 0
        omega
      rw [hstream, List.length_append, ← Nat.add_assoc, ← List.length_append] at h
      rw [← hcopied] at hfull
      cases poll with
      | timeout =>
        rw [Connection.stream, hempty] at h
        exact absurd h hfull
      | failed =>
        rw [Connection.stream, hempty] at h
        exact absurd h hfull
      | data s ne le =>
        rw [stream_data hempty] at h hstream
        obtain ⟨t, conn, hloop, ht, hrest⟩ := ih (Nat.lt_of_not_le hfull) h
        rw [List.append_assoc] at hloop ht
        rw [hrest, ← List.append_assoc] at hstream
        exact ⟨_, conn, hloop, ht, hstream⟩

/-- If there are not enough, `_read` reports fewer, or an error. -/
theorem readLoop_short
    (h : copied.length + (Connection.stream ⟨socket, iobuf⟩).length < len) :
    ∀ s ∈ (readLoop len socket iobuf copied).1, s.length < len := by
  induction socket generalizing iobuf copied with
  | nil =>
    rintro s ⟨⟩
    rw [length_stream, arriving, List.length_nil] at h
    rw [List.length_append, List.length_take, Iobuffer.length_ahead]
    omega
  | cons poll socket ih =>
    rw [stream_advance (Nat.min_le_left iobuf.level (len - copied.length)) (poll :: socket),
      List.length_append, ← Nat.add_assoc, ← List.length_append] at h
    unfold readLoop
    dsimp only
    rw [if_neg (by omega)]
    cases poll with
    | timeout =>
      rintro s ⟨⟩
      omega
    | failed => exact fun s hs => absurd hs (Option.not_mem_none s)
    | data s ne le =>
      refine ih ?_
      have hle : (Connection.stream ⟨socket, .fill s le⟩).length ≤
          (Connection.stream ⟨.data s ne le :: socket,
            iobuf.advance (min iobuf.level (len - copied.length))⟩).length := by
        simp only [Connection.stream, Iobuffer.ahead_fill, arriving, List.length_append]
        omega
      omega

end ReadLoop

/-! ## The lines of a connection -/

/-- Reading a byte takes the next one, wherever it is, -/
theorem read_one {c : UInt8} {s : List UInt8} {conn : Connection} (h : conn.stream = c :: s) :
    ∃ conn' : Connection, read 1 conn = (some [c], conn') ∧ conn'.stream = s := by
  have henough : 1 ≤ ([] : List UInt8).length + conn.stream.length := by
    rw [h, List.length_nil, List.length_cons]
    omega
  obtain ⟨t, conn', hread, ht, hstream⟩ := readLoop_enough (by decide) henough
  obtain ⟨d, rfl⟩ := List.length_eq_one_iff.mp ht
  obtain ⟨rfl, hs⟩ := List.cons_eq_cons.mp (h.symm.trans hstream)
  exact ⟨conn', hread, hs.symm⟩

/-- and there is none when there is none on the socket either. -/
theorem read_none {conn : Connection} (h : conn.stream = []) (c : UInt8) (conn' : Connection) :
    read 1 conn ≠ (some [c], conn') := by
  intro hread
  have hshort : ([] : List UInt8).length + conn.stream.length < 1 := by
    rw [h]
    decide
  have hlen := readLoop_short hshort [c] (congrArg Prod.fst hread)
  exact Nat.lt_irrefl 1 hlen

/-- A line is read byte by byte, -/
theorem readlineLoop_succ {n : Nat} {c d : UInt8} {s : List UInt8} {conn : Connection}
    (hd : d ≠ newline) (h : conn.stream = c :: s) :
    ∃ conn' : Connection, conn'.stream = s ∧
      readlineLoop (n + 1) d conn = (readlineLoop n c conn').map fun r => (c :: r.1, r.2) := by
  obtain ⟨conn', hread, hs⟩ := read_one h
  refine ⟨conn', hs, ?_⟩
  rw [readlineLoop, if_neg hd, hread]

/-- and a line without an end is no line. -/
theorem readlineLoop_none {n : Nat} {d : UInt8} {conn : Connection} (hd : d ≠ newline)
    (h : conn.stream = []) : readlineLoop (n + 1) d conn = none := by
  rw [readlineLoop, if_neg hd]
  split
  next c conn' hread => exact absurd hread (read_none h c conn')
  next => rfl

/-- The loop, when the line has begun with the bytes `begun`. -/
theorem readlineLoop_lines {limit n : Nat} {d : UInt8} {begun : List UInt8} {conn : Connection}
    (hd : d ≠ newline) (hn : begun.length + (n + 1) = limit) :
    linesFrom limit begun conn.stream =
      (readlineLoop (n + 1) d conn).elim [] fun r => (begun ++ r.1) :: lines limit r.2.stream := by
  -- on the room in the buffer; each byte takes one, whatever read it comes with
  induction n generalizing d begun conn with
  | zero =>
    cases hs : conn.stream with
    | nil =>
      rw [readlineLoop_none hd hs]
      rfl
    | cons c s =>
      obtain ⟨conn', rfl, hloop⟩ := readlineLoop_succ (n := 0) hd hs
      rw [hloop, linesFrom_end (.inr hn)]
      rfl
  | succ n ih =>
    cases hs : conn.stream with
    | nil =>
      rw [readlineLoop_none hd hs]
      rfl
    | cons c s =>
      obtain ⟨conn', rfl, hloop⟩ := readlineLoop_succ (n := n + 1) hd hs
      rw [hloop]
      by_cases hc : c = newline
      · rw [linesFrom_end (.inl hc), readlineLoop, if_pos hc]
        rfl
      · -- the byte becomes part of what has begun
        have hn' : (begun ++ [c]).length + (n + 1) = limit := by
          rw [List.length_append, List.length_singleton]
          omega
        rw [linesFrom_more (not_or.mpr ⟨hc, by omega⟩), ih hc hn']
        cases readlineLoop (n + 1) c conn' with
        | none => rfl
        | some r =>
          show (begun ++ [c] ++ r.1) :: _ = (begun ++ c :: r.1) :: _
          rw [List.append_assoc, List.singleton_append]

/-- **`_readline` reads the lines of the stream, one after the other.** -/
theorem readline_lines {limit : Nat} (hlimit : 0 < limit) (conn : Connection) :
    lines limit conn.stream =
      (readline limit conn).elim [] fun r => r.1 :: lines limit r.2.stream := by
  obtain ⟨n, rfl⟩ := Nat.exists_eq_add_one_of_ne_zero (Nat.ne_of_gt hlimit)
  exact readlineLoop_lines (by decide) (Nat.zero_add _)

end Httpd

end ProjZ
