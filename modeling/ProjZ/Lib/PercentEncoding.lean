import Mathlib.Data.List.Basic

/-!
# Percent-encoding

A byte of a URI as `%` and two hexadecimal digits. `decode` fails on a `%` without two digits
behind it; every text can be encoded (`decode_encode`).
-/

namespace PercentEncoding

/-- The byte that announces two digits. -/
def percent : UInt8 := 37

/-- The value of a hexadecimal digit. -/
def hexValue (c : UInt8) : Option Nat :=
  if 48 ≤ c ∧ c ≤ 57 then some (c.toNat - 48)
  else if 97 ≤ c ∧ c ≤ 102 then some (c.toNat - 97 + 10)
  else if 65 ≤ c ∧ c ≤ 70 then some (c.toNat - 65 + 10)
  else none

/-- The digit for a value below 16, in capitals. -/
def hexDigit (n : Nat) : UInt8 := if n < 10 then UInt8.ofNat (48 + n) else UInt8.ofNat (55 + n)

/-- Every byte becomes an escape. -/
def encode (s : List UInt8) : List UInt8 :=
  s.flatMap fun c => [percent, hexDigit (c.toNat / 16), hexDigit (c.toNat % 16)]

/-- Escapes become bytes; all else stays. -/
def decode : List UInt8 → Option (List UInt8)
  | [] => some []
  | c :: s =>
    if c = percent then
      match s with
      | h :: l :: s =>
        match hexValue h, hexValue l with
        | some a, some b => (decode s).map (UInt8.ofNat (a * 16 + b) :: ·)
        | _, _ => none
      | _ => none
    else (decode s).map (c :: ·)

/-- Every value below 16 has a digit. -/
theorem hexValue_hexDigit {n : Nat} (h : n < 16) : hexValue (hexDigit n) = some n := by
  have hall : ∀ n : Fin 16, hexValue (hexDigit n) = some n.val := by decide +kernel
  exact hall ⟨n, h⟩

/-- A byte that announces no digits stays. -/
theorem decode_cons {c : UInt8} (h : c ≠ percent) (s : List UInt8) :
    decode (c :: s) = (decode s).map (c :: ·) := by
  conv_lhs => rw [decode.eq_def]
  exact if_neg h

/-- Two digits give a byte. -/
theorem decode_escape {h l : UInt8} {a b : Nat} (ha : hexValue h = some a)
    (hb : hexValue l = some b) (s : List UInt8) :
    decode (percent :: h :: l :: s) = (decode s).map (UInt8.ofNat (a * 16 + b) :: ·) := by
  rw [decode, if_pos rfl]
  simp only [ha, hb]

/-- There is no escape with a single digit, -/
theorem decode_short (h : UInt8) : decode [percent, h] = none := rfl

/-- nor one whose first character is no digit, -/
theorem decode_high {h : UInt8} (hh : hexValue h = none) (s : List UInt8) :
    decode (percent :: h :: s) = none := by
  cases s with
  | nil => rfl
  | cons l s =>
    rw [decode, if_pos rfl]
    simp only [hh]

/-- nor one whose second is none. -/
theorem decode_low {l : UInt8} (hl : hexValue l = none) (h : UInt8) (s : List UInt8) :
    decode (percent :: h :: l :: s) = none := by
  rw [decode, if_pos rfl, hl]
  cases hexValue h with
  | none => rfl
  | some a => rfl

/-- **Decoding undoes encoding.** -/
theorem decode_encode (s : List UInt8) : decode (encode s) = some s := by
  induction s with
  | nil => rfl
  | cons c s ih =>
    have hc := c.toNat_lt
    have hhigh : hexValue (hexDigit (c.toNat / 16)) = some (c.toNat / 16) :=
      hexValue_hexDigit (by omega)
    have hlow : hexValue (hexDigit (c.toNat % 16)) = some (c.toNat % 16) :=
      hexValue_hexDigit (Nat.mod_lt _ (by decide))
    have hbyte : UInt8.ofNat (c.toNat / 16 * 16 + c.toNat % 16) = c := by
      rw [Nat.div_add_mod', UInt8.ofNat_toNat]
    show decode (percent :: _ :: _ :: encode s) = _
    rw [decode_escape hhigh hlow, ih, hbyte]
    rfl

/-- An encoding is a C string. -/
theorem encode_ne_zero (s : List UInt8) : ∀ c ∈ encode s, c ≠ 0 := by
  have hdigit : ∀ n : Fin 16, hexDigit n ≠ 0 := by decide +kernel
  intro c hc
  obtain ⟨d, -, hd⟩ := List.mem_flatMap.mp hc
  have hlt := d.toNat_lt
  simp only [List.mem_cons, List.not_mem_nil, or_false] at hd
  rcases hd with rfl | rfl | rfl
  · decide
  · exact hdigit ⟨d.toNat / 16, by omega⟩
  · exact hdigit ⟨d.toNat % 16, Nat.mod_lt _ (by decide)⟩

end PercentEncoding
