import Mathlib.Tactic.Common

/-!
# Java's buffered input streams

A `DataInputStream` over a `BufferedInputStream`, as far as reading, skipping and marking
go. A `Source` is the byte stream itself, finite or infinite; `BufferedInput` is the
position of its reader and the mark. An operation is a computation in `StreamM`, which
carries the reader's state and may throw.
-/

namespace JavaStream

/-- The exceptions the operations throw. `io` is `IOException` with its subclasses, such
as `EOFException`. -/
inductive Exception where
  | io
  | negativeArraySize
  | numberFormat
  | illegalArgument
deriving DecidableEq, Repr

/-- A byte stream: the byte at each position, up to its end if it has one. -/
structure Source where
  byte : Nat → Option UInt8
  ended : ∀ i, byte i = none → byte (i + 1) = none

/-- The stream of finitely many bytes. -/
def Source.ofList (s : List UInt8) : Source where
  byte i := s[i]?
  ended i h := by
    rw [List.getElem?_eq_none_iff] at h ⊢
    omega

/-- The bytes `bs` stand in the stream from position `i` on. -/
def Source.Holds (src : Source) : Nat → List UInt8 → Prop
  | _, [] => True
  | i, b :: bs => src.byte i = some b ∧ src.Holds (i + 1) bs

theorem Source.holds_append {src : Source} {i : Nat} {as bs : List UInt8} :
    src.Holds i (as ++ bs) ↔ src.Holds i as ∧ src.Holds (i + as.length) bs := by
  induction as generalizing i with
  | nil => exact ⟨fun h => ⟨trivial, h⟩, fun h => h.2⟩
  | cons a as ih =>
    have hlen : i + (a :: as).length = i + 1 + as.length := by
      rw [List.length_cons]
      omega
    rw [hlen]
    constructor
    · rintro ⟨ha, h⟩
      obtain ⟨has, hbs⟩ := ih.mp h
      exact ⟨⟨ha, has⟩, hbs⟩
    · rintro ⟨⟨ha, has⟩, hbs⟩
      exact ⟨ha, ih.mpr ⟨has, hbs⟩⟩

/-- Of two texts at one position the shorter one begins the longer one. -/
theorem Source.Holds.isPrefix {src : Source} {i : Nat} {as bs : List UInt8} (ha : src.Holds i as)
    (hb : src.Holds i bs) (hle : as.length ≤ bs.length) : as <+: bs := by
  induction as generalizing i bs with
  | nil => exact List.nil_prefix
  | cons a as ih =>
    cases bs with
    | nil => exact absurd hle (Nat.not_succ_le_zero _)
    | cons b bs =>
      obtain rfl : a = b := Option.some.inj (ha.1.symm.trans hb.1)
      exact List.cons_prefix_cons.mpr ⟨rfl, ih ha.2 hb.2 (Nat.le_of_succ_le_succ hle)⟩

theorem Source.Holds.concat {src : Source} {i : Nat} {bs : List UInt8} (h : src.Holds i bs)
    {b : UInt8} (hb : src.byte (i + bs.length) = some b) : src.Holds i (bs ++ [b]) :=
  Source.holds_append.mpr ⟨h, hb, trivial⟩

theorem Source.Holds.byte_ne_none {src : Source} {i k : Nat} {bs : List UInt8}
    (h : src.Holds i bs) (hk : k < bs.length) : src.byte (i + k) ≠ none := by
  induction bs generalizing i k with
  | nil => exact absurd hk (Nat.not_lt_zero k)
  | cons b bs ih =>
    cases k with
    | zero =>
      rw [Nat.add_zero, h.1]
      exact Option.some_ne_none b
    | succ k =>
      rw [← Nat.add_assoc, Nat.add_right_comm]
      exact ih h.2 (Nat.lt_of_succ_lt_succ hk)

/-- A list of bytes holds each of its segments. -/
theorem Source.holds_ofList (as bs cs : List UInt8) :
    (Source.ofList (as ++ bs ++ cs)).Holds as.length bs := by
  induction bs generalizing as with
  | nil => trivial
  | cons b bs ih =>
    refine ⟨?_, ?_⟩
    · show (as ++ b :: bs ++ cs)[as.length]? = some b
      rw [List.append_assoc, List.getElem?_append_right (Nat.le_refl _), Nat.sub_self]
      rfl
    · have h := ih (as ++ [b])
      rw [List.length_append] at h
      rw [List.append_cons]
      exact h

/-- The stream has the bytes `bs` from position `i` on, and ends after them. -/
structure Source.EndsWith (src : Source) (i : Nat) (bs : List UInt8) : Prop where
  holds : src.Holds i bs
  ended : src.byte (i + bs.length) = none

theorem Source.endsWith_ofList (bs : List UInt8) : (Source.ofList bs).EndsWith 0 bs where
  holds := by
    have h := Source.holds_ofList [] bs []
    rwa [List.nil_append, List.append_nil] at h
  ended := by
    show bs[0 + bs.length]? = none
    exact List.getElem?_eq_none (Nat.le_add_left _ _)

theorem Source.EndsWith.append {src : Source} {i : Nat} {as bs : List UInt8}
    (h : src.EndsWith i (as ++ bs)) : src.EndsWith (i + as.length) bs where
  holds := (Source.holds_append.mp h.holds).2
  ended := by
    rw [Nat.add_assoc, ← List.length_append]
    exact h.ended

/-- The reader of a stream: the position of the next byte, and where and with what limit
`mark` was called, as long as the mark is valid. -/
@[ext] structure BufferedInput where
  pos : Nat
  marked : Option (Nat × Nat)
  valid : ∀ m, marked = some m → pos ≤ m.1 + m.2

/-- The reader of a new stream. -/
def BufferedInput.fresh : BufferedInput := ⟨0, none, nofun⟩

/-- A method of the stream: it moves its position and may throw. -/
abbrev StreamM := EStateM Exception BufferedInput

/-- `n` bytes are consumed. More than the limit of them make the mark invalid. -/
def BufferedInput.advance (s : BufferedInput) (n : Nat) : BufferedInput where
  pos := s.pos + n
  marked := s.marked.filter fun m => decide (s.pos + n ≤ m.1 + m.2)
  valid _ h := of_decide_eq_true (Option.filter_eq_some_iff.mp h).2

/-- The state after `mark(readLimit)`. -/
def BufferedInput.setMark (s : BufferedInput) (readLimit : Nat) : BufferedInput where
  pos := s.pos
  marked := some (s.pos, readLimit)
  valid := by
    rintro m ⟨⟩
    exact Nat.le_add_right _ _

/-- The reader at its mark `m`. -/
def BufferedInput.atMark (m : Nat × Nat) : BufferedInput where
  pos := m.1
  marked := some m
  valid := by
    rintro m' ⟨⟩
    exact Nat.le_add_right _ _

/-- `mark(readLimit)`. -/
def mark (readLimit : Nat) : StreamM Unit := modify fun s => s.setMark readLimit

/-- `reset`: back to the mark, if it is still valid. -/
def reset : StreamM Unit := fun s =>
  match s.marked with
  | some m => .ok () (.atMark m)
  | none => .error .io s

/-- `readUnsignedByte()` of `DataInputStream`. -/
def readUnsignedByte (src : Source) : StreamM UInt8 := fun s =>
  match src.byte s.pos with
  | some b => .ok b (s.advance 1)
  | none => .error .io s

/-- `readFully(b)` for an array of `n` bytes. -/
def readFully (src : Source) : Nat → StreamM (List UInt8)
  | 0 => pure []
  | n + 1 => do
    let b ← readUnsignedByte src
    let bs ← readFully src n
    pure (b :: bs)

/-- Whether the stream has ended. -/
def atEnd (src : Source) : StreamM Bool := fun s => .ok (src.byte s.pos).isNone s

/-- `skipBytes(n)`: it stops without an exception at the end of the stream. -/
def skipBytes (src : Source) : Nat → StreamM Nat
  | 0 => pure 0
  | n + 1 => do
    if ← atEnd src then
      pure 0
    else
      let _ ← readUnsignedByte src
      let k ← skipBytes src n
      pure (k + 1)

/-- `new byte[n]`: the length of the new array. -/
def newArray (n : Int) : StreamM Nat :=
  if n < 0 then throw .negativeArraySize else pure n.toNat

/-! ## Running a computation -/

/-- A step that succeeds hands its value and its state on. -/
theorem bind_ok {α β : Type} {x : StreamM α} {f : α → StreamM β} {s s' : BufferedInput}
    {a : α} (h : x s = .ok a s') : (x >>= f) s = f a s' := by
  show EStateM.bind x f s = f a s'
  unfold EStateM.bind
  rw [h]

/-- A step that throws ends the computation. -/
theorem bind_error {α β : Type} {x : StreamM α} {f : α → StreamM β} {s s' : BufferedInput}
    {e : Exception} (h : x s = .error e s') : (x >>= f) s = .error e s' := by
  show EStateM.bind x f s = .error e s'
  unfold EStateM.bind
  rw [h]

theorem newArray_of_neg {n : Int} (h : n < 0) (s : BufferedInput) :
    newArray n s = .error .negativeArraySize s := by
  unfold newArray
  rw [if_pos h]
  rfl

theorem newArray_ofNat (n : Nat) (s : BufferedInput) : newArray (n : Int) s = .ok n s := by
  have h : ¬ (n : Int) < 0 := by omega
  unfold newArray
  rw [if_neg h]
  rfl

@[simp] theorem advance_pos (s : BufferedInput) (n : Nat) : (s.advance n).pos = s.pos + n := rfl

@[simp] theorem advance_zero (s : BufferedInput) : s.advance 0 = s := by
  ext1
  · rfl
  · show s.marked.filter _ = s.marked
    cases h : s.marked with
    | none => rfl
    | some m => exact if_pos (decide_eq_true (s.valid m h))

/-- Bytes may be consumed in two goes. -/
theorem advance_advance (s : BufferedInput) (a b : Nat) :
    (s.advance a).advance b = s.advance (a + b) := by
  ext1
  · exact Nat.add_assoc ..
  · show (s.marked.filter _).filter _ = s.marked.filter _
    rw [Option.filter_filter]
    congr 1
    funext m
    rw [← Bool.decide_and, decide_eq_decide]
    rw [advance_pos]
    omega

/-- `reset` undoes what was read within the limit of the mark. -/
theorem reset_advance (s : BufferedInput) {n readLimit : Nat} (h : n ≤ readLimit) :
    reset ((s.setMark readLimit).advance n) = .ok () (s.setMark readLimit) := by
  have hle : s.pos + n ≤ s.pos + readLimit := by omega
  have hmark : ((s.setMark readLimit).advance n).marked = some (s.pos, readLimit) :=
    if_pos (decide_eq_true hle)
  unfold reset
  rw [hmark]
  rfl

/-- Beyond the limit the mark is gone. -/
theorem reset_past (s : BufferedInput) {n readLimit : Nat} (h : readLimit < n) :
    ∃ s', reset ((s.setMark readLimit).advance n) = .error .io s' := by
  have hgt : ¬ s.pos + n ≤ s.pos + readLimit := by omega
  have hmark : ((s.setMark readLimit).advance n).marked = none :=
    if_neg (by rw [decide_eq_true_iff]; exact hgt)
  refine ⟨(s.setMark readLimit).advance n, ?_⟩
  unfold reset
  rw [hmark]

/-! ## How reads and skips can end -/

section Outcomes

variable {src : Source} {s : BufferedInput}

theorem readUnsignedByte_holds {b : UInt8} (h : src.byte s.pos = some b) :
    readUnsignedByte src s = .ok b (s.advance 1) := by
  unfold readUnsignedByte
  rw [h]

theorem readUnsignedByte_ended (h : src.byte s.pos = none) :
    readUnsignedByte src s = .error .io s := by
  unfold readUnsignedByte
  rw [h]

theorem atEnd_holds {b : UInt8} (h : src.byte s.pos = some b) : atEnd src s = .ok false s := by
  unfold atEnd
  rw [h]
  rfl

theorem atEnd_ended (h : src.byte s.pos = none) : atEnd src s = .ok true s := by
  unfold atEnd
  rw [h]
  rfl

variable (src)

/-- `readFully` fills the array or throws an `IOException`. -/
theorem readFully_cases (n : Nat) (s : BufferedInput) :
    (∃ bs s', readFully src n s = .ok bs s' ∧ bs.length = n) ∨
      ∃ s', readFully src n s = .error .io s' := by
  induction n generalizing s with
  | zero => exact Or.inl ⟨[], s, rfl, rfl⟩
  | succ n ih =>
    cases hb : src.byte s.pos with
    | none => exact Or.inr ⟨s, bind_error (readUnsignedByte_ended hb)⟩
    | some b =>
      have hread := readUnsignedByte_holds hb
      rcases ih (s.advance 1) with ⟨bs, s', hbs, hlen⟩ | ⟨s', hbs⟩
      · refine Or.inl ⟨b :: bs, s', ?_, congrArg (· + 1) hlen⟩
        exact (bind_ok hread).trans (bind_ok hbs)
      · exact Or.inr ⟨s', (bind_ok hread).trans (bind_error hbs)⟩

/-- `skipBytes` throws nothing. -/
theorem skipBytes_cases (n : Nat) (s : BufferedInput) : ∃ k s', skipBytes src n s = .ok k s' := by
  induction n generalizing s with
  | zero => exact ⟨0, s, rfl⟩
  | succ n ih =>
    cases hb : src.byte s.pos with
    | none => exact ⟨0, s, bind_ok (atEnd_ended hb)⟩
    | some b =>
      obtain ⟨k, s', hk⟩ := ih (s.advance 1)
      refine ⟨k + 1, s', ?_⟩
      exact (bind_ok (atEnd_holds hb)).trans
        ((bind_ok (readUnsignedByte_holds hb)).trans (bind_ok hk))

end Outcomes

/-! ## Reading what the stream holds -/

section Holds

variable {src : Source} {s : BufferedInput}

theorem readFully_holds {bs : List UInt8} (h : src.Holds s.pos bs) :
    readFully src bs.length s = .ok bs (s.advance bs.length) := by
  induction bs generalizing s with
  | nil =>
    rw [List.length_nil, advance_zero]
    rfl
  | cons b bs ih =>
    have hb := readUnsignedByte_holds h.1
    have hbs : readFully src bs.length (s.advance 1) = .ok bs ((s.advance 1).advance bs.length) :=
      ih h.2
    show (readUnsignedByte src >>= _) s = _
    rw [bind_ok hb, bind_ok hbs, advance_advance, List.length_cons, Nat.add_comm]
    rfl

theorem skipBytes_holds {bs : List UInt8} (h : src.Holds s.pos bs) :
    skipBytes src bs.length s = .ok bs.length (s.advance bs.length) := by
  induction bs generalizing s with
  | nil =>
    rw [List.length_nil, advance_zero]
    rfl
  | cons b bs ih =>
    have hbs : skipBytes src bs.length (s.advance 1) =
        .ok bs.length ((s.advance 1).advance bs.length) := ih h.2
    show (atEnd src >>= _) s = _
    rw [bind_ok (atEnd_holds h.1)]
    show (readUnsignedByte src >>= _) s = _
    rw [bind_ok (readUnsignedByte_holds h.1), bind_ok hbs, advance_advance, List.length_cons,
      Nat.add_comm 1]
    rfl

/-- The stream ends before the array is full. -/
theorem readFully_endsWith {bs : List UInt8} (h : src.EndsWith s.pos bs) {n : Nat}
    (hn : bs.length < n) : readFully src n s = .error .io (s.advance bs.length) := by
  induction bs generalizing s n with
  | nil =>
    obtain ⟨n, rfl⟩ := Nat.exists_eq_add_one_of_ne_zero (Nat.ne_of_gt hn)
    rw [List.length_nil, advance_zero]
    exact bind_error (readUnsignedByte_ended h.ended)
  | cons b bs ih =>
    obtain ⟨n, rfl⟩ := Nat.exists_eq_add_one_of_ne_zero (Nat.ne_of_gt (Nat.zero_lt_of_lt hn))
    have hb := readUnsignedByte_holds h.holds.1
    have happend : src.EndsWith s.pos ([b] ++ bs) := h
    have hbs : src.EndsWith (s.advance 1).pos bs := happend.append
    show (readUnsignedByte src >>= _) s = _
    rw [bind_ok hb, bind_error (ih hbs (Nat.lt_of_succ_lt_succ hn)), advance_advance,
      List.length_cons, Nat.add_comm]

end Holds

end JavaStream
