import ProjZ.Lib.Decimal

/-!
# Java's text methods on ASCII bytes

- `intToString` and `parseInt`: an `int` as decimal text and back, with the sign, the
  range and the malformed texts (`none`, a `NumberFormatException`) of
  `Integer.parseInt`;
- `LineReader`: `BufferedReader.readLine` on a connection, which knows the three line
  ends `\n`, `\r` and `\r\n` and blocks (`none`) until one of them has arrived.
-/

namespace JavaText

open Ascii Decimal

/-! ## Integers -/

/-- `"" + n`. -/
def intToString (n : Int) : List UInt8 :=
  if n < 0 then '-'.toUInt8 :: decimal n.natAbs else decimal n.toNat

theorem intToString_of_nonneg {n : Int} (h : 0 ≤ n) : intToString n = decimal n.toNat :=
  if_neg (Int.not_lt.mpr h)

/-- The digits of a number and whether a `-` stood before them. -/
def signOf : List UInt8 → Bool × List UInt8
  | [] => (false, [])
  | c :: s =>
    if c = '-'.toUInt8 then (true, s)
    else if c = '+'.toUInt8 then (false, s)
    else (false, c :: s)

/-- `Integer.parseInt`. -/
def parseInt (s : List UInt8) : Option Int :=
  match signOf s with
  | (_, []) => none
  | (neg, d :: ds) =>
    if (d :: ds).all isDigit then
      let v : Int := if neg then -value (d :: ds) else value (d :: ds)
      if -2147483648 ≤ v ∧ v ≤ 2147483647 then some v else none
    else none

/-- Unsigned digits are read as their value, with or without leading zeros. -/
theorem parseInt_digits {s : List UInt8} (hs : s ≠ []) (hd : ∀ c ∈ s, isDigit c = true)
    (hmax : value s ≤ 2147483647) : parseInt s = some (value s : Int) := by
  cases s with
  | nil => exact absurd rfl hs
  | cons d ds =>
    have hdigit := hd d (List.mem_cons_self ..)
    have hminus : d ≠ '-'.toUInt8 := by
      rintro rfl
      exact absurd hdigit (by decide)
    have hplus : d ≠ '+'.toUInt8 := by
      rintro rfl
      exact absurd hdigit (by decide)
    have hsign : signOf (d :: ds) = (false, d :: ds) := by
      show (if d = '-'.toUInt8 then _ else if d = '+'.toUInt8 then _ else _) = _
      rw [if_neg hminus, if_neg hplus]
    unfold parseInt
    rw [hsign]
    show (if (d :: ds).all isDigit = true then _ else _) = _
    rw [if_pos (List.all_eq_true.mpr hd)]
    exact if_pos ⟨by show (-2147483648 : Int) ≤ (value (d :: ds) : Int); omega,
      by show (value (d :: ds) : Int) ≤ 2147483647; omega⟩

/-! ## Lines -/

/-- A `BufferedReader`: what has arrived and is not yet read, and whether a `\n` that
comes next belongs to a line end already taken. -/
structure LineReader where
  buffer : List UInt8
  skipLF : Bool
deriving DecidableEq, Repr

/-- The reader of a new connection. -/
def LineReader.empty : LineReader := ⟨[], false⟩

/-- More bytes have arrived. -/
def LineReader.receive (rd : LineReader) (s : List UInt8) : LineReader :=
  { rd with buffer := rd.buffer ++ s }

/-- A byte inside a line. -/
def inLine (c : UInt8) : Bool := decide (c ≠ '\n'.toUInt8 ∧ c ≠ '\r'.toUInt8)

/-- What is read next: a `\n` after a taken `\r` is dropped. -/
def LineReader.text (rd : LineReader) : List UInt8 :=
  match rd.skipLF, rd.buffer with
  | true, c :: s => if c = '\n'.toUInt8 then s else c :: s
  | _, s => s

/-- `readLine`. -/
def LineReader.readLine (rd : LineReader) : Option (List UInt8 × LineReader) :=
  match rd.text.dropWhile inLine with
  | [] => none
  | c :: rest => some (rd.text.takeWhile inLine, ⟨rest, decide (c = '\r'.toUInt8)⟩)

/-- A line that has arrived whole is read, without its newline, and nothing is left. -/
theorem LineReader.readLine_receive {line : List UInt8} (h : ∀ c ∈ line, inLine c = true) :
    (LineReader.empty.receive (line ++ ['\n'.toUInt8])).readLine =
      some (line, LineReader.empty) := by
  have htext : (LineReader.empty.receive (line ++ ['\n'.toUInt8])).text =
      line ++ ['\n'.toUInt8] := rfl
  have hnl : ¬ inLine '\n'.toUInt8 = true := by decide
  have hdrop : (line ++ ['\n'.toUInt8]).dropWhile inLine = ['\n'.toUInt8] := by
    rw [List.dropWhile_append_of_pos h, List.dropWhile_cons_of_neg hnl]
  have htake : (line ++ ['\n'.toUInt8]).takeWhile inLine = line := by
    rw [List.takeWhile_append_of_pos h, List.takeWhile_cons_of_neg hnl, List.append_nil]
  unfold LineReader.readLine
  rw [htext, hdrop, htake]
  rfl

/-- Digits stand inside a line. -/
theorem inLine_of_isDigit {c : UInt8} (h : isDigit c = true) : inLine c = true := by
  refine decide_eq_true ⟨?_, ?_⟩
  · rintro rfl
    exact absurd h (by decide)
  · rintro rfl
    exact absurd h (by decide)

end JavaText
