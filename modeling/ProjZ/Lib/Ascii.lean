import Mathlib.Tactic.Common

/-!
# ASCII bytes

The character classes of `<ctype.h>` on single bytes, in the C locale: case
folding touches the letters `a`–`z` only, and a digit is one of `0`–`9`. Texts
are lists of bytes; `bytes` turns character literals into one, so that a
command can be written down as it appears in a C or Java source.
-/

namespace Ascii

/-- The byte string of a list of (ASCII) characters. -/
def bytes (s : List Char) : List UInt8 := s.map Char.toUInt8

/-- The bytes of a string literal, without the `NUL` that ends it. -/
def literal (s : String) : List UInt8 := s.toByteArray.data.toList

/-- `toupper` in the C locale. -/
def toupper (c : UInt8) : UInt8 := if 97 ≤ c ∧ c ≤ 122 then c - 32 else c

/-- `isdigit`. -/
def isDigit (c : UInt8) : Bool := decide (48 ≤ c) && decide (c ≤ 57)

theorem isDigit_iff {c : UInt8} : isDigit c = true ↔ 48 ≤ c ∧ c ≤ 57 := by
  simp [isDigit]

/-- Digits have no case. -/
theorem toupper_of_isDigit {c : UInt8} (h : isDigit c = true) : toupper c = c := by
  rw [isDigit_iff] at h
  unfold toupper
  grind

/-- Case folding neither makes nor destroys a digit. -/
@[simp] theorem isDigit_toupper (c : UInt8) : isDigit (toupper c) = isDigit c := by
  unfold isDigit toupper
  grind

/-- Case folding neither makes nor destroys a comma. -/
theorem toupper_eq_comma {c : UInt8} : toupper c = ','.toUInt8 ↔ c = ','.toUInt8 := by
  have hcomma : ','.toUInt8 = 44 := by decide
  rw [hcomma]
  unfold toupper
  grind

/-- Digits are printable, so they survive the removal of blanks. -/
theorem blank_lt_of_isDigit {c : UInt8} (h : isDigit c = true) : 32 < c := by
  rw [isDigit_iff] at h
  grind

end Ascii
