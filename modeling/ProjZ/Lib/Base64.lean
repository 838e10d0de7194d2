import Mathlib.Data.List.Basic

/-!
# Base64

Three bytes as four characters of six bits each; `=` fills up the last group. A decoder that
passes over other characters and takes `=` for zero bits gets the bytes back, with zeros for
the padding (`octets_encode`).
-/

namespace Base64

/-- The character of six bits. -/
def digit (n : Nat) : UInt8 :=
  if n < 26 then UInt8.ofNat (65 + n)
  else if n < 52 then UInt8.ofNat (97 + (n - 26))
  else if n < 62 then UInt8.ofNat (48 + (n - 52))
  else if n = 62 then 43
  else 47

/-- The padding character `=`. -/
def pad : UInt8 := 61

/-- The six bits of a character. -/
def sextet (c : UInt8) : Option Nat :=
  if 48 ≤ c ∧ c ≤ 57 then some (c.toNat - 48 + 52)
  else if 65 ≤ c ∧ c ≤ 90 then some (c.toNat - 65)
  else if 97 ≤ c ∧ c ≤ 122 then some (c.toNat - 97 + 26)
  else if c = 43 then some 62
  else if c = 47 then some 63
  else if c = pad then some 0
  else none

/-- The characters of up to three bytes. -/
def encode : List UInt8 → List UInt8
  | [] => []
  | [x] => [digit (x.toNat / 4), digit (x.toNat % 4 * 16), pad, pad]
  | [x, y] =>
    [digit (x.toNat / 4), digit (x.toNat % 4 * 16 + y.toNat / 16), digit (y.toNat % 16 * 4), pad]
  | x :: y :: z :: s =>
    [digit (x.toNat / 4), digit (x.toNat % 4 * 16 + y.toNat / 16),
      digit (y.toNat % 16 * 4 + z.toNat / 64), digit (z.toNat % 64)] ++ encode s

/-- The bits of a group. -/
def group (a b c d : Nat) : Nat := ((a * 64 + b) * 64 + c) * 64 + d

/-- The bytes of groups of four sextets. What is left at the end is no byte. -/
def octets : List Nat → List UInt8
  | a :: b :: c :: d :: s =>
    UInt8.ofNat (group a b c d / 65536) :: UInt8.ofNat (group a b c d / 256) ::
      UInt8.ofNat (group a b c d) :: octets s
  | _ => []

/-- Every six bits have a character. -/
theorem sextet_digit {n : Nat} (h : n < 64) : sextet (digit n) = some n := by
  have hall : ∀ n : Fin 64, sextet (digit n) = some n.val := by decide +kernel
  exact hall ⟨n, h⟩

/-- The padding counts as zero bits. -/
theorem sextet_pad : sextet pad = some 0 := by decide

/-- The number of characters of padding. -/
def padding (s : List UInt8) : Nat := (3 - s.length % 3) % 3

/-- The sextets of three bytes are a group. -/
theorem octets_group (x y z : UInt8) (s : List Nat) :
    octets (x.toNat / 4 :: (x.toNat % 4 * 16 + y.toNat / 16) ::
      (y.toNat % 16 * 4 + z.toNat / 64) :: z.toNat % 64 :: s) = x :: y :: z :: octets s := by
  have hx := x.toNat_lt
  have hy := y.toNat_lt
  have hz := z.toNat_lt
  have hgroup : group (x.toNat / 4) (x.toNat % 4 * 16 + y.toNat / 16)
      (y.toNat % 16 * 4 + z.toNat / 64) (z.toNat % 64) =
      x.toNat * 65536 + y.toNat * 256 + z.toNat := by
    unfold group
    omega
  have hbyte : ∀ (n : Nat) (c : UInt8), n % 256 = c.toNat → UInt8.ofNat n = c := by
    intro n c h
    rw [← UInt8.toNat_inj, UInt8.toNat_ofNat']
    exact h
  rw [octets, hgroup, hbyte _ x (by omega), hbyte _ y (by omega), hbyte _ z (by omega)]

/-- Decoded with its padding, an encoding gives the text and zeros. -/
theorem octets_encode (s : List UInt8) :
    octets ((encode s).filterMap sextet) = s ++ List.replicate (padding s) 0 := by
  induction s using encode.induct with
  | case1 => rfl
  | case2 x =>
    have hx := x.toNat_lt
    -- two zeros for what is missing of the group
    have h := octets_group x 0 0 []
    simp only [UInt8.toNat_zero, Nat.zero_div, Nat.zero_mod, Nat.add_zero, Nat.zero_mul] at h
    unfold encode
    simp only [List.filterMap_cons, List.filterMap_nil, sextet_pad,
      sextet_digit (show x.toNat / 4 < 64 by omega),
      sextet_digit (show x.toNat % 4 * 16 < 64 by omega)]
    exact h
  | case3 x y =>
    have hx := x.toNat_lt
    have hy := y.toNat_lt
    -- one zero
    have h := octets_group x y 0 []
    simp only [UInt8.toNat_zero, Nat.zero_div, Nat.zero_mod, Nat.add_zero] at h
    unfold encode
    simp only [List.filterMap_cons, List.filterMap_nil, sextet_pad,
      sextet_digit (show x.toNat / 4 < 64 by omega),
      sextet_digit (show x.toNat % 4 * 16 + y.toNat / 16 < 64 by omega),
      sextet_digit (show y.toNat % 16 * 4 < 64 by omega)]
    exact h
  | case4 x y z s ih =>
    have hx := x.toNat_lt
    have hy := y.toNat_lt
    have hz := z.toNat_lt
    have hpad : padding (x :: y :: z :: s) = padding s := by
      unfold padding
      rw [List.length_cons, List.length_cons, List.length_cons, Nat.add_assoc, Nat.add_assoc,
        Nat.add_mod_right]
    unfold encode
    simp only [List.cons_append, List.nil_append, List.filterMap_cons,
      sextet_digit (show x.toNat / 4 < 64 by omega),
      sextet_digit (show x.toNat % 4 * 16 + y.toNat / 16 < 64 by omega),
      sextet_digit (show y.toNat % 16 * 4 + z.toNat / 64 < 64 by omega),
      sextet_digit (show z.toNat % 64 < 64 by omega)]
    rw [octets_group, ih, hpad]

/-- Only digits and padding are written. -/
theorem forall_mem_encode {P : UInt8 → Prop} (hdigit : ∀ n : Fin 64, P (digit n)) (hpad : P pad)
    (s : List UInt8) : ∀ c ∈ encode s, P c := by
  have h : ∀ n, n < 64 → P (digit n) := fun n hn => hdigit ⟨n, hn⟩
  induction s using encode.induct with
  | case1 => exact fun c hc => absurd hc List.not_mem_nil
  | case2 x =>
    have hx := x.toNat_lt
    simp only [encode, List.forall_mem_cons]
    exact ⟨h _ (by omega), h _ (by omega), hpad, hpad, fun c hc => absurd hc List.not_mem_nil⟩
  | case3 x y =>
    have hx := x.toNat_lt
    have hy := y.toNat_lt
    simp only [encode, List.forall_mem_cons]
    exact ⟨h _ (by omega), h _ (by omega), h _ (by omega), hpad,
      fun c hc => absurd hc List.not_mem_nil⟩
  | case4 x y z s ih =>
    have hx := x.toNat_lt
    have hy := y.toNat_lt
    have hz := z.toNat_lt
    simp only [encode, List.cons_append, List.nil_append, List.forall_mem_cons]
    exact ⟨h _ (by omega), h _ (by omega), h _ (by omega), h _ (by omega), ih⟩

/-- An encoding is a C string. -/
theorem encode_ne_zero (s : List UInt8) : ∀ c ∈ encode s, c ≠ 0 :=
  forall_mem_encode (by decide +kernel) (by decide) s

end Base64
