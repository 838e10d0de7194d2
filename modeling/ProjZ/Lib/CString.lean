import Mathlib.Data.List.TakeWhile
import ProjZ.Lib.Decimal

/-!
# C strings

Functions of `<string.h>` and `<stdlib.h>` on texts without `NUL`; `cstr` is the text at the
start of some memory. `strstr` and `strchr` give what their pointers point to.
-/

namespace CString

/-- The text before the first `NUL`. -/
def cstr (s : List UInt8) : List UInt8 := s.takeWhile fun c => decide (c ≠ 0)

/-- The text at the start of some memory, of which so many bytes have been written; `none` when
no `NUL` is among them, and a reader goes on behind them. -/
def text (mem : List UInt8) : Option (List UInt8) := if 0 ∈ mem then some (cstr mem) else none

/-- `strstr` -/
def strstr : List UInt8 → List UInt8 → Option (List UInt8)
  | [], needle => if needle = [] then some [] else none
  | c :: s, needle => if needle.isPrefixOf (c :: s) then some (c :: s) else strstr s needle

/-- `strchr` -/
def strchr (s : List UInt8) (c : UInt8) : Option (List UInt8) :=
  match s.dropWhile fun d => decide (d ≠ c) with
  | [] => none
  | t => some t

/-- The length of the first part of `s` that is made of bytes of `accept`. -/
def strspn (s accept : List UInt8) : Nat := (s.takeWhile fun c => accept.contains c).length

/-- `isspace`, in the C locale. -/
def isSpace (c : UInt8) : Bool := c == 32 || (9 ≤ c && c ≤ 13)

/-- A `long` of 32 bits holds at least -2147483648 and at most 2147483647. -/
def saturate (n : Int) : Int := max (-2147483648) (min n 2147483647)

/-- `strtol` with base 10: white space, a sign, and digits; 0 without a digit. -/
def strtol (s : List UInt8) : Int :=
  let number (s : List UInt8) : Int := Decimal.value (s.takeWhile Ascii.isDigit)
  match s.dropWhile isSpace with
  | [] => 0
  | c :: s =>
    if c = 45 then saturate (-number s)
    else if c = 43 then saturate (number s)
    else saturate (number (c :: s))

section Search

variable {s t needle accept : List UInt8} {c : UInt8}

/-- The needle is at the start. -/
theorem strstr_isPrefix (h : needle <+: s) : strstr s needle = some s := by
  cases s with
  | nil => exact if_pos (List.prefix_nil.mp h)
  | cons c s => exact if_pos (List.isPrefixOf_iff_prefix.mpr h)

/-- A text that does not begin with the needle is searched from its next byte. -/
theorem strstr_cons (h : ¬needle <+: c :: s) : strstr (c :: s) needle = strstr s needle :=
  if_neg fun hprefix => h (List.isPrefixOf_iff_prefix.mp hprefix)

/-- `strstr` finds the needle exactly if it is a part of the text. -/
theorem strstr_isSome_iff : (strstr s needle).isSome = true ↔ needle <:+: s := by
  induction s with
  | nil =>
    rw [List.infix_nil]
    by_cases h : needle = []
    · simp only [strstr, h, if_true, Option.isSome_some]
    · simp only [strstr, h, if_false, Option.isSome_none, Bool.false_eq_true]
  | cons c s ih =>
    rw [List.infix_cons_iff]
    by_cases h : needle <+: c :: s
    · simp only [strstr_isPrefix h, Option.isSome_some, h, true_or]
    · simp only [strstr_cons h, ih, h, false_or]

/-- What `strstr` points to is the end of the text. -/
theorem suffix_of_strstr (h : strstr s needle = some t) : t <:+ s := by
  induction s with
  | nil =>
    unfold strstr at h
    split at h
    next => exact (Option.some.inj h) ▸ List.suffix_refl []
    next => cases h
  | cons c s ih =>
    by_cases hprefix : needle <+: c :: s
    · rw [strstr_isPrefix hprefix] at h
      exact (Option.some.inj h) ▸ List.suffix_refl _
    · rw [strstr_cons hprefix] at h
      exact (ih h).trans (List.suffix_cons c s)

/-- The first characters of `s`, not more than are of `accept`, are of `accept`. -/
theorem mem_of_mem_take {k : Nat} (hk : k ≤ strspn s accept) (hc : c ∈ s.take k) : c ∈ accept := by
  have hprefix : s.takeWhile (fun c => accept.contains c) <+: s := List.takeWhile_prefix _
  have htake : s.take (strspn s accept) = s.takeWhile fun c => accept.contains c :=
    (List.prefix_iff_eq_take.mp hprefix).symm
  have hmem : c ∈ s.takeWhile fun c => accept.contains c :=
    htake ▸ List.take_subset_take_left s hk hc
  have hall := List.all_takeWhile (p := fun c => accept.contains c) (l := s)
  exact List.contains_iff_mem.mp (List.all_eq_true.mp hall c hmem)

end Search

/-- The text ends at the first `NUL`. -/
theorem cstr_append {s : List UInt8} (h : ∀ c ∈ s, c ≠ 0) (t : List UInt8) :
    cstr (s ++ 0 :: t) = s := by
  unfold cstr
  rw [List.takeWhile_append_of_pos fun c hc => decide_eq_true (h c hc)]
  exact List.append_nil s

/-- Without `'\0'` there is nothing to cut off. -/
theorem cstr_eq_self {s : List UInt8} (h : ∀ c ∈ s, c ≠ 0) : cstr s = s :=
  List.takeWhile_eq_self_iff.mpr fun c hc => decide_eq_true (h c hc)

/-- What stands behind a `'\0'` is not seen. -/
theorem cstr_append_zero (s t : List UInt8) : cstr (s ++ 0 :: t) = cstr s := by
  unfold cstr
  rw [List.takeWhile_append]
  split
  next hall =>
    rw [List.takeWhile_cons_of_neg (by decide), List.append_nil]
    exact (List.takeWhile_prefix _).eq_of_length hall |>.symm
  next => rfl

/-- A text that is filled up with `'\0'`s. -/
theorem cstr_append_replicate {s : List UInt8} (h : ∀ c ∈ s, c ≠ 0) (k : Nat) :
    cstr (s ++ List.replicate k 0) = s := by
  cases k with
  | zero =>
    rw [List.replicate_zero, List.append_nil]
    exact cstr_eq_self h
  | succ k => exact cstr_append h _

/-- There is no `NUL` in a text. -/
theorem cstr_ne_zero (s : List UInt8) : ∀ c ∈ cstr s, c ≠ 0 := by
  intro c hc
  have hall := List.all_takeWhile (p := fun c => decide (c ≠ (0 : UInt8))) (l := s)
  exact of_decide_eq_true (List.all_eq_true.mp hall c hc)

/-- A text that is terminated can be read, whatever follows. -/
theorem text_append {s : List UInt8} (h : ∀ c ∈ s, c ≠ 0) (t : List UInt8) :
    text (s ++ 0 :: t) = some s := by
  unfold text
  rw [if_pos (List.mem_append_right s List.mem_cons_self), cstr_append h]

/-- Characters alone are no text. -/
theorem text_eq_none {s : List UInt8} (h : ∀ c ∈ s, c ≠ 0) : text s = none :=
  if_neg fun hzero => h 0 hzero rfl

end CString
