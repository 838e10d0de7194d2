import Mathlib.Algebra.Group.Nat.Defs
import Mathlib.Data.List.Basic

/-!
# Bytes on a serial line

One level for each bit time. A byte takes a frame of ten levels (start bit, eight data
bits, least significant first, stop bit); a sender that rests one bit time before each
frame takes a `slot` of eleven. `Line` is what an ideal receiver makes of the levels: it
waits for a low one, takes the next eight for data and ends with the ninth.
-/

namespace Uart

/-- The lowest `k` bits of a byte. -/
def lowBits (b : UInt8) (k : Nat) : List Bool := (List.range k).map b.toNat.testBit

/-- A start bit, the eight bits of a byte with the lowest first, and a stop bit. -/
def frame (b : UInt8) : List Bool := false :: lowBits b 8 ++ [true]

/-- A frame after one idle bit time. -/
def slot (b : UInt8) : List Bool := true :: frame b

/-- The number with these bits, least significant first. -/
def ofBits : List Bool → Nat
  | [] => 0
  | b :: bs => b.toNat + 2 * ofBits bs

/-- What a receiver has: the bytes so far, and the data bits of the frame it is in. -/
structure Line where
  bytes : List UInt8
  frame : Option (List Bool)

/-- The receiver takes one level. -/
def Line.sample (l : Line) (level : Bool) : Line :=
  match l.frame with
  | none => if level then l else { l with frame := some [] }
  | some bits =>
    if bits.length < 8 then { l with frame := some (bits ++ [level]) }
    else { bytes := l.bytes ++ [UInt8.ofNat (ofBits bits)], frame := none }

/-- What is received from the levels of a line. -/
def receive (levels : List Bool) : Line := levels.foldl Line.sample ⟨[], none⟩

/-! ## Bits -/

theorem lowBits_succ (b : UInt8) (k : Nat) :
    lowBits b (k + 1) = lowBits b k ++ [b.toNat.testBit k] := by
  unfold lowBits
  rw [List.range_succ, List.map_append]
  rfl

@[simp] theorem length_lowBits (b : UInt8) (k : Nat) : (lowBits b k).length = k := by
  unfold lowBits
  rw [List.length_map, List.length_range]

@[simp] theorem length_slot (b : UInt8) : (slot b).length = 11 := by
  unfold slot frame
  simp

theorem length_flatMap_slot (bytes : List UInt8) :
    (bytes.flatMap slot).length = 11 * bytes.length := by
  induction bytes with
  | nil => rfl
  | cons b bytes ih =>
    rw [List.flatMap_cons, List.length_append, ih, length_slot, List.length_cons]
    omega

theorem ofBits_concat (bs : List Bool) (x : Bool) :
    ofBits (bs ++ [x]) = ofBits bs + 2 ^ bs.length * x.toNat := by
  induction bs with
  | nil => simp [ofBits]
  | cons b bs ih =>
    show b.toNat + 2 * ofBits (bs ++ [x]) = b.toNat + 2 * ofBits bs + 2 ^ (bs.length + 1) * x.toNat
    rw [ih, Nat.pow_succ', Nat.mul_add, Nat.add_assoc, Nat.mul_assoc]

/-- The low bits make the remainder. -/
theorem ofBits_lowBits (b : UInt8) (k : Nat) : ofBits (lowBits b k) = b.toNat % 2 ^ k := by
  induction k with
  | zero => exact (Nat.mod_one _).symm
  | succ k ih =>
    rw [lowBits_succ, ofBits_concat, ih, length_lowBits, Nat.mod_pow_succ, Nat.toNat_testBit]

theorem ofNat_ofBits (b : UInt8) : UInt8.ofNat (ofBits (lowBits b 8)) = b := by
  rw [ofBits_lowBits, Nat.mod_eq_of_lt b.toNat_lt, UInt8.ofNat_toNat]

/-! ## Slots -/

theorem slot_bit (b : UInt8) {j : Nat} (hj : j < 8) :
    (slot b)[j + 2]? = some (b.toNat.testBit j) := by
  show (lowBits b 8 ++ [true])[j]? = _
  rw [List.getElem?_append_left (by rwa [length_lowBits])]
  unfold lowBits
  rw [List.getElem?_map, List.getElem?_range hj]
  rfl

theorem slot_stop (b : UInt8) : (slot b)[10]? = some true := rfl

/-- What the receiver has of the frame after `k` levels of a slot. -/
def frameAt (b : UInt8) : Nat → Option (List Bool)
  | 0 => none
  | 1 => none
  | j + 2 => some (lowBits b j)

/-- **Inside a slot the receiver follows level by level.** -/
theorem sample_slot (bytes : List UInt8) (b : UInt8) {k : Nat} (hk : k < 10) {level : Bool}
    (h : (slot b)[k]? = some level) :
    Line.sample ⟨bytes, frameAt b k⟩ level = ⟨bytes, frameAt b (k + 1)⟩ := by
  match k with
  | 0 =>
    obtain rfl : true = level := Option.some.inj h
    rfl
  | 1 =>
    obtain rfl : false = level := Option.some.inj h
    rfl
  | j + 2 =>
    have hj : j < 8 := by omega
    have hlen : (lowBits b j).length < 8 := by rwa [length_lowBits]
    rw [slot_bit b hj] at h
    obtain rfl := Option.some.inj h
    show (if (lowBits b j).length < 8 then _ else _ : Line) = ⟨bytes, some (lowBits b (j + 1))⟩
    rw [if_pos hlen, lowBits_succ]

/-- The stop bit ends the byte. -/
theorem sample_stop (bytes : List UInt8) (b : UInt8) (level : Bool) :
    Line.sample ⟨bytes, frameAt b 10⟩ level = ⟨bytes ++ [b], none⟩ := by
  have hlen : ¬ (lowBits b 8).length < 8 := by
    rw [length_lowBits]
    exact Nat.lt_irrefl 8
  unfold Line.sample
  show (if (lowBits b 8).length < 8 then (_ : Line) else _) = _
  rw [if_neg hlen, ofNat_ofBits]

end Uart
