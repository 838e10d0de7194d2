import Mathlib.Data.Nat.Digits.Defs
import Mathlib.Data.List.Induction
import Mathlib.Tactic.Ring
import ProjZ.Lib.Ascii

/-!
# Decimal numerals as byte strings

- `value`: the natural number a digit string denotes;
- `decimal`: the shortest numeral of a number, as `printf("%d")` or Java's
  string conversion write it;
- `padded w`: the numeral of fixed width `w`, most significant digit first,
  filled with leading zeros;
- `printfInt`, `printfZeros w`: an integer as `printf` writes it for `%d` and `%0wd`.

Both printers are inverted by `value` (`value_decimal`, `value_padded`); the
fixed-width one only below `10 ^ w`, where nothing is truncated.
-/

namespace Decimal

open Ascii

/-- The digit character of `d`. -/
def digit (d : Nat) : UInt8 := (Nat.digitChar d).toUInt8

/-- The digits in ASCII. -/
theorem digit_toNat {d : Nat} (h : d < 10) : (digit d).toNat = 48 + d := by
  have hall : ∀ d : Fin 10, (digit d).toNat = 48 + d := by decide
  exact hall ⟨d, h⟩

theorem isDigit_digit {d : Nat} (h : d < 10) : isDigit (digit d) = true := by
  have hall : ∀ d : Fin 10, isDigit (digit d) = true := by decide
  exact hall ⟨d, h⟩

/-- The natural number denoted by a digit string (`0` for the empty one). -/
def value (s : List UInt8) : Nat := s.foldl (fun acc c => 10 * acc + (c.toNat - 48)) 0

@[simp] theorem value_nil : value [] = 0 := rfl

/-- A digit more is ten times the value and the digit. -/
theorem value_concat (s : List UInt8) (c : UInt8) :
    value (s ++ [c]) = 10 * value s + (c.toNat - 48) := by
  simp [value, List.foldl_append]

/-- The value of a concatenation shifts the left part by the right one's length. -/
theorem value_append (s t : List UInt8) :
    value (s ++ t) = value s * 10 ^ t.length + value t := by
  induction t using List.reverseRecOn with
  | nil => simp
  | append_singleton t c ih =>
    rw [← List.append_assoc, value_concat, ih, value_concat, List.length_append,
      List.length_singleton, pow_succ]
    ring

theorem value_digit {d : Nat} (h : d < 10) : value [digit d] = d := by
  simp [value, digit_toNat h]

/-! ## The shortest numeral -/

/-- The decimal numeral of `n` without leading zeros. -/
def decimal (n : Nat) : List UInt8 := (Nat.toDigits 10 n).map Char.toUInt8

/-- Below ten there is one digit, -/
theorem decimal_of_lt {n : Nat} (h : n < 10) : decimal n = [digit n] := by
  simp [decimal, digit, Nat.toDigits_of_lt_base h]

/-- and otherwise one more than the tenth has. -/
theorem decimal_of_le {n : Nat} (h : 10 ≤ n) :
    decimal n = decimal (n / 10) ++ [digit (n % 10)] := by
  simp [decimal, digit, Nat.toDigits_of_base_le (by omega : 1 < 10) h]

/-- Printing then reading a number gives it back. -/
theorem value_decimal (n : Nat) : value (decimal n) = n := by
  induction n using Nat.strongRecOn with
  | _ n ih =>
    by_cases h : n < 10
    · rw [decimal_of_lt h, value_digit h]
    · rw [decimal_of_le (by omega), value_append, ih (n / 10) (by omega),
        value_digit (by omega)]
      simp only [List.length_singleton, pow_one]
      omega

/-- Numerals consist of digits, -/
theorem isDigit_of_mem_decimal {n : Nat} {c : UInt8} (hc : c ∈ decimal n) :
    isDigit c = true := by
  induction n using Nat.strongRecOn with
  | _ n ih =>
    by_cases h : n < 10
    · rw [decimal_of_lt h, List.mem_singleton] at hc
      exact hc ▸ isDigit_digit h
    · rw [decimal_of_le (by omega), List.mem_append, List.mem_singleton] at hc
      rcases hc with hc | rfl
      · exact ih (n / 10) (by omega) hc
      · exact isDigit_digit (by omega)

/-- A number below `10 ^ w` is printed with at most `w` digits (`w` positive). -/
theorem length_decimal_le {n w : Nat} (h : n < 10 ^ (w + 1)) :
    (decimal n).length ≤ w + 1 := by
  induction w generalizing n with
  | zero => simp [decimal_of_lt (by simpa using h)]
  | succ w ih =>
    by_cases hn : n < 10
    · simp [decimal_of_lt hn]
    · have hdiv : n / 10 < 10 ^ (w + 1) := by
        rw [Nat.div_lt_iff_lt_mul (by omega)]
        rwa [pow_succ] at h
      have := ih hdiv
      rw [decimal_of_le (by omega), List.length_append, List.length_singleton]
      omega

/-! ## Fixed width -/

/-- The last `w` decimal digits of `n`, most significant first. -/
def padded : Nat → Nat → List UInt8
  | 0, _ => []
  | w + 1, n => digit (n / 10 ^ w % 10) :: padded w n

@[simp] theorem length_padded (w n : Nat) : (padded w n).length = w := by
  induction w with
  | zero => rfl
  | succ w ih => simp [padded, ih]

/-- also when they are padded, -/
theorem isDigit_of_mem_padded {w n : Nat} {c : UInt8} (hc : c ∈ padded w n) :
    isDigit c = true := by
  induction w with
  | zero => cases hc
  | succ w ih =>
    rcases List.mem_cons.mp hc with rfl | hc
    · exact isDigit_digit (Nat.mod_lt _ (by omega))
    · exact ih hc

/-- The fixed-width numeral denotes the number modulo `10 ^ w`. -/
theorem value_padded_mod (w n : Nat) : value (padded w n) = n % 10 ^ w := by
  induction w with
  | zero => simp [padded, Nat.mod_one]
  | succ w ih =>
    have hcons : padded (w + 1) n = [digit (n / 10 ^ w % 10)] ++ padded w n := rfl
    rw [hcons, value_append, value_digit (Nat.mod_lt _ (by omega)), length_padded, ih,
      pow_succ, Nat.mod_mul]
    ring

/-- **No truncation**: below `10 ^ w` the fixed-width numeral denotes the number. -/
theorem value_padded {w n : Nat} (h : n < 10 ^ w) : value (padded w n) = n := by
  rw [value_padded_mod, Nat.mod_eq_of_lt h]

/-! ## Integers -/

/-- `%d`. -/
def printfInt (n : Int) : List UInt8 :=
  if n < 0 then '-'.toUInt8 :: decimal n.natAbs else decimal n.toNat

/-- `%0wd`: zeros stand between the sign and the digits, up to the width `w`. -/
def printfZeros (w : Nat) (n : Int) : List UInt8 :=
  if n < 0 then
    '-'.toUInt8 :: (List.replicate (w - 1 - (decimal n.natAbs).length) '0'.toUInt8 ++
      decimal n.natAbs)
  else List.replicate (w - (decimal n.toNat).length) '0'.toUInt8 ++ decimal n.toNat

theorem printfInt_natCast (n : Nat) : printfInt n = decimal n :=
  if_neg (Int.not_lt.mpr (Int.natCast_nonneg n))

/-- What an integer is printed with. -/
def isNumeral (c : UInt8) : Bool := decide (c = '-'.toUInt8) || isDigit c

theorem isNumeral_of_isDigit {c : UInt8} (h : isDigit c = true) : isNumeral c = true := by
  unfold isNumeral
  rw [h, Bool.or_true]

theorem isNumeral_of_mem_decimal {n : Nat} {c : UInt8} (hc : c ∈ decimal n) :
    isNumeral c = true := isNumeral_of_isDigit (isDigit_of_mem_decimal hc)

/-- or of digits and a sign. -/
theorem isNumeral_of_mem_printfInt {n : Int} {c : UInt8} (hc : c ∈ printfInt n) :
    isNumeral c = true := by
  unfold printfInt at hc
  split at hc
  · rcases List.mem_cons.mp hc with rfl | hc
    · rfl
    · exact isNumeral_of_mem_decimal hc
  · exact isNumeral_of_mem_decimal hc

theorem isNumeral_of_mem_zeros {k n : Nat} {c : UInt8}
    (hc : c ∈ List.replicate k '0'.toUInt8 ++ decimal n) : isNumeral c = true := by
  rcases List.mem_append.mp hc with hc | hc
  · rw [List.eq_of_mem_replicate hc]
    rfl
  · exact isNumeral_of_mem_decimal hc

theorem isNumeral_of_mem_printfZeros {w : Nat} {n : Int} {c : UInt8}
    (hc : c ∈ printfZeros w n) : isNumeral c = true := by
  unfold printfZeros at hc
  split at hc
  · rcases List.mem_cons.mp hc with rfl | hc
    · rfl
    · exact isNumeral_of_mem_zeros hc
  · exact isNumeral_of_mem_zeros hc

/-- The length of a numeral is bounded by its number of digits and a sign, -/
theorem length_printfInt_le {w : Nat} {n : Int} (h : n.natAbs < 10 ^ (w + 1)) :
    (printfInt n).length ≤ w + 2 := by
  unfold printfInt
  split
  · exact Nat.succ_le_succ (length_decimal_le h)
  · rw [show n.toNat = n.natAbs by omega]
    exact Nat.le_succ_of_le (length_decimal_le h)

/-- and that of a padded one by the width as well. -/
theorem length_printfZeros_le {w : Nat} {n : Int} (h : n.natAbs < 10 ^ (w + 1)) (v : Nat) :
    (printfZeros v n).length ≤ max v (w + 1) + 1 := by
  have hlen := length_decimal_le h
  unfold printfZeros
  split
  · rw [List.length_cons, List.length_append, List.length_replicate]
    omega
  · rw [show n.toNat = n.natAbs by omega, List.length_append, List.length_replicate]
    omega

end Decimal
