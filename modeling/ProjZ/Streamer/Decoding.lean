import Mathlib.Data.Bool.AllAny
import ProjZ.Lib.Base64
import ProjZ.Lib.CString
import ProjZ.Lib.CharBuf
import ProjZ.Lib.PercentEncoding

/-!
# Decoding in place

`decodeBase64` and `unescape` of `httpd.c` store what they decode over the text they read. The
store never overtakes the read, so that they decode the text as it was: `decodeBase64_eq` and
`unescape_eq`. Neither leaves the text with its `NUL`.
-/

namespace ProjZ

namespace Httpd

open CString

variable {n : Nat}

/-! ## Stores behind the read -/

/-- The memory holds what has been decoded, bytes that have been read since, and what is still
ahead. -/
structure Split (mem : CharBuf n) (out gap s : List UInt8) : Prop where
  bytes : mem.bytes = out ++ (gap ++ s)

section Split

variable {mem : CharBuf n} {out gap s : List UInt8} {c d : UInt8}

/-- What is still to be read has not been touched. -/
theorem Split.read (h : Split mem out gap s) (k : Nat) :
    mem.bytes[out.length + gap.length + k]? = s[k]? := by
  rw [h.bytes, ← List.append_assoc, ← List.length_append,
    List.getElem?_append_right (Nat.le_add_right _ _), Nat.add_sub_cancel_left]

/-- A byte is read, and nothing stored for it. -/
theorem Split.skip (h : Split mem out gap (c :: s)) : Split mem out (gap ++ [c]) s :=
  ⟨by rw [h.bytes, List.append_cons gap]⟩

/-- A byte is stored in the gap, over what was read. -/
theorem Split.store (h : Split mem out (d :: gap) s) (c : UInt8) :
    ∃ mem' : CharBuf n, mem.write out.length c = some mem' ∧ Split mem' (out ++ [c]) gap s := by
  have hlen := mem.length_eq
  rw [h.bytes, List.cons_append, List.length_append, List.length_cons] at hlen
  refine ⟨mem.set out.length c, CharBuf.write_of_lt (by omega) c mem, ⟨?_⟩⟩
  show mem.bytes.set out.length c = _
  rw [h.bytes, List.set_append_right _ _ (Nat.le_refl _), Nat.sub_self, List.cons_append,
    List.set_cons_zero, List.append_cons]

/-- The last byte that was stored is stored once more. -/
theorem Split.again (h : Split mem (out ++ [d]) gap s) (c : UInt8) :
    ∃ mem' : CharBuf n, mem.write out.length c = some mem' ∧ Split mem' (out ++ [c]) gap s := by
  have hbefore : Split mem out (d :: gap) s := ⟨by rw [h.bytes, List.append_assoc]; rfl⟩
  exact hbefore.store c

/-- A byte is read, and one is stored. -/
theorem Split.next (h : Split mem out gap (c :: s)) (e : UInt8) :
    ∃ (mem' : CharBuf n) (gap' : List UInt8), mem.write out.length e = some mem' ∧
      Split mem' (out ++ [e]) gap' s ∧ gap'.length = gap.length := by
  obtain ⟨d, gap', hgap⟩ := List.exists_cons_of_ne_nil
    (List.append_ne_nil_of_right_ne_nil gap (List.cons_ne_nil c []))
  have hlen := congrArg List.length hgap
  rw [List.length_append, List.length_singleton, List.length_cons] at hlen
  have hskip := h.skip
  rw [hgap] at hskip
  obtain ⟨mem', hwrite, hsplit⟩ := hskip.store e
  exact ⟨mem', gap', hwrite, hsplit, by omega⟩

end Split

/-! ## Base64 -/

/-- The three bytes of a group, stored one after the other. -/
def storeGroup (mem : CharBuf n) (data ch : Nat) : Option (CharBuf n) := do
  let mem ← mem.write data (UInt8.ofNat (ch >>> 16))
  let mem ← mem.write (data + 1) (UInt8.ofNat (ch >>> 8))
  mem.write (data + 2) (UInt8.ofNat ch)

/-- The loop of `decodeBase64`, for at most `fuel` rounds. `ch` is an `unsigned` of 32 bits. -/
def decodeBase64Loop : Nat → CharBuf n → Nat → Nat → Nat → Nat → Option (CharBuf n)
  | 0, _, _, _, _, _ => none
  | fuel + 1, mem, inp, data, ch, i => do
    let c ← mem.bytes[inp]?
    if c = 0 then mem.write data 0
    else
      match Base64.sextet c with
      | none => decodeBase64Loop fuel mem (inp + 1) data ch i
      | some t =>
        let ch := (ch <<< 6 ||| t) % 2 ^ 32
        if i + 1 = 4 then do
          let mem ← storeGroup mem data ch
          decodeBase64Loop fuel mem (inp + 1) (data + 3) ch 0
        else decodeBase64Loop fuel mem (inp + 1) data ch (i + 1)

/-- `decodeBase64`, on the memory from `data` on. `none` is a read or a store outside. -/
def decodeBase64 (mem : CharBuf n) : Option (CharBuf n) := decodeBase64Loop n mem 0 0 0 0

/-- The sextets of a group so far are the low bits of `ch`. -/
structure Gathered (ch : Nat) (g : List Nat) : Prop where
  short : g.length < 4
  bits : ch % 64 ^ g.length = g.foldl (fun acc t => acc * 64 + t) 0

/-- One more sextet. -/
theorem gather (ch : Nat) {t : Nat} (ht : t < 64) {k : Nat} (hk : k < 4) :
    (ch <<< 6 ||| t) % 2 ^ 32 % 64 ^ (k + 1) = ch % 64 ^ k * 64 + t := by
  have hor : ch <<< 6 ||| t = ch * 64 + t := by
    rw [← Nat.shiftLeft_add_eq_or_of_lt ht, Nat.shiftLeft_eq]
  have hdvd : 64 ^ (k + 1) ∣ 2 ^ 32 := by
    rw [show 64 = 2 ^ 6 from rfl, ← Nat.pow_mul]
    exact Nat.pow_dvd_pow 2 (by omega)
  have hdiv : (ch * 64 + t) / 64 = ch := by omega
  have hmod : (ch * 64 + t) % 64 = t := by omega
  rw [hor, Nat.mod_mod_of_dvd _ hdvd, Nat.pow_succ, Nat.mul_comm (64 ^ k), Nat.mod_mul, hdiv, hmod,
    Nat.add_comm, Nat.mul_comm]

/-- A character stands for six bits. -/
theorem sextet_lt {c : UInt8} {t : Nat} (h : Base64.sextet c = some t) : t < 64 := by
  have hall : ∀ c : Fin 256, ∀ t ∈ Base64.sextet (UInt8.ofNat c), t < 64 := by decide +kernel
  have hc := hall ⟨c.toNat, c.toNat_lt⟩ t
  rw [UInt8.ofNat_toNat] at hc
  exact hc h

/-- The three bytes of a full group. -/
theorem octets_full {ch : Nat} {a b c d : Nat} (h : ch % 64 ^ 4 = Base64.group a b c d)
    (s : List Nat) :
    Base64.octets (a :: b :: c :: d :: s) =
      UInt8.ofNat (ch >>> 16) :: UInt8.ofNat (ch >>> 8) :: UInt8.ofNat ch :: Base64.octets s := by
  have hbyte : ∀ x y : Nat, x % 256 = y % 256 → UInt8.ofNat x = UInt8.ofNat y := by
    intro x y hxy
    rw [← UInt8.toNat_inj, UInt8.toNat_ofNat', UInt8.toNat_ofNat']
    exact hxy
  rw [Base64.octets, Nat.shiftRight_eq_div_pow, Nat.shiftRight_eq_div_pow]
  rw [hbyte (ch / 2 ^ 16) (Base64.group a b c d / 65536) (by omega),
    hbyte (ch / 2 ^ 8) (Base64.group a b c d / 256) (by omega),
    hbyte ch (Base64.group a b c d) (by omega)]

/-- Three bytes are stored for the four characters read. -/
theorem storeGroup_eq {mem : CharBuf n} {out gap s : List UInt8} (h : Split mem out gap s)
    (hgap : 3 ≤ gap.length) (ch : Nat) :
    ∃ (mem' : CharBuf n) (gap' : List UInt8), storeGroup mem out.length ch = some mem' ∧
      Split mem' (out ++ [UInt8.ofNat (ch >>> 16), UInt8.ofNat (ch >>> 8), UInt8.ofNat ch]) gap' s ∧
      gap'.length + 3 = gap.length := by
  match gap, hgap with
  | _ :: _ :: _ :: gap', _ =>
    obtain ⟨mem₁, hx, h₁⟩ := h.store (UInt8.ofNat (ch >>> 16))
    obtain ⟨mem₂, hy, h₂⟩ := h₁.store (UInt8.ofNat (ch >>> 8))
    obtain ⟨mem₃, hz, h₃⟩ := h₂.store (UInt8.ofNat ch)
    simp only [List.length_append, List.length_singleton, Nat.add_assoc, Nat.reduceAdd] at hy hz
    refine ⟨mem₃, gap', ?_, ?_, rfl⟩
    · simp only [storeGroup, hx, hy, hz, Option.bind_eq_bind, Option.bind_some]
    · simp only [List.append_assoc, List.cons_append, List.nil_append] at h₃
      exact h₃

/-- The loop, with `out` decoded, `gap` read behind it, and `s` ahead. -/
theorem decodeBase64Loop_eq {fuel : Nat} {mem : CharBuf n} {out gap s tail : List UInt8}
    {ch : Nat} {g : List Nat} (hmem : Split mem out gap (s ++ 0 :: tail))
    (hs : ∀ c ∈ s, c ≠ 0) (hfuel : s.length < fuel) (hgap : g.length ≤ gap.length)
    (hg : Gathered ch g) :
    ∃ (mem' : CharBuf n) (rest : List UInt8),
      decodeBase64Loop fuel mem (out.length + gap.length) out.length ch g.length = some mem' ∧
        mem'.bytes = out ++ Base64.octets (g ++ s.filterMap Base64.sextet) ++ 0 :: rest := by
  -- on the text ahead; `ch` holds the sextets `g` of a group that is not full
  induction s generalizing fuel mem out gap ch g with
  | nil =>
    obtain ⟨fuel, rfl⟩ := Nat.exists_eq_add_one_of_ne_zero (Nat.ne_of_gt hfuel)
    -- a group that is not full at the end gives no byte
    have hnone : Base64.octets g = [] := by
      match g, hg.short with
      | [], _ => rfl
      | [_], _ => rfl
      | [_, _], _ => rfl
      | [_, _, _], _ => rfl
    have hread := hmem.read 0
    obtain ⟨mem', gap', hwrite, hsplit, -⟩ := hmem.next 0
    refine ⟨mem', gap' ++ tail, ?_, ?_⟩
    · unfold decodeBase64Loop
      rw [Nat.add_zero] at hread
      rw [hread]
      exact hwrite
    · rw [hsplit.bytes, List.filterMap_nil, List.append_nil, hnone, List.append_nil,
        List.append_assoc]
      rfl
  | cons c s ih =>
    obtain ⟨fuel, rfl⟩ := Nat.exists_eq_add_one_of_ne_zero (Nat.ne_of_gt (Nat.zero_lt_of_lt hfuel))
    have hc : c ≠ 0 := hs c List.mem_cons_self
    have hs' : ∀ c ∈ s, c ≠ 0 := fun d hd => hs d (List.mem_cons_of_mem c hd)
    have hfuel' : s.length < fuel := Nat.lt_of_succ_lt_succ hfuel
    have hread := hmem.read 0
    have hskip : Split mem out (gap ++ [c]) (s ++ 0 :: tail) := hmem.skip
    have hgap' : (gap ++ [c]).length = gap.length + 1 := List.length_append
    rw [Nat.add_zero] at hread
    unfold decodeBase64Loop
    rw [hread]
    show ∃ mem' rest, (if c = 0 then _ else _) = some mem' ∧ _
    rw [if_neg hc, Nat.add_assoc, ← hgap']
    cases ht : Base64.sextet c with
    | none =>
      -- a character that stands for nothing is skipped
      rw [List.filterMap_cons_none ht]
      exact ih hskip hs' hfuel' (by omega) hg
    | some t =>
      rw [List.filterMap_cons_some ht]
      dsimp only
      have hbits := gather ch (sextet_lt ht) hg.short
      by_cases hfull : g.length + 1 = 4
      · -- the group is full, and has room for its bytes among its characters
        rw [if_pos hfull]
        obtain ⟨a, b, d, rfl⟩ : ∃ a b d, g = [a, b, d] := by
          match g, hfull with
          | [a, b, d], _ => exact ⟨a, b, d, rfl⟩
        have hgroup : (ch <<< 6 ||| t) % 2 ^ 32 % 64 ^ 4 = Base64.group a b d t := by
          have hg₃ := hg.bits
          rw [show (4 : Nat) = [a, b, d].length + 1 from rfl, hbits, hg₃]
          simp only [List.foldl_cons, List.foldl_nil, Base64.group]
          omega
        obtain ⟨mem₁, gap₁, hstore, hsplit, hlen⟩ :=
          storeGroup_eq hskip (by rw [hgap']; exact Nat.le_succ_of_le hgap)
            ((ch <<< 6 ||| t) % 2 ^ 32)
        rw [hstore, Option.bind_eq_bind, Option.bind_some]
        have hnil : Gathered ((ch <<< 6 ||| t) % 2 ^ 32) [] := ⟨by decide, Nat.mod_one _⟩
        obtain ⟨mem', rest, hloop, hresult⟩ := ih hsplit hs' hfuel' (Nat.zero_le _) hnil
        refine ⟨mem', rest, ?_, ?_⟩
        · rw [← hloop, ← hlen]
          simp only [List.length_append, List.length_cons, List.length_nil]
          congr 1
          omega
        · rw [hresult, List.nil_append]
          show _ = out ++ Base64.octets (a :: b :: d :: t :: _) ++ _
          rw [octets_full hgroup]
          simp only [List.append_assoc, List.cons_append, List.nil_append]
      · rw [if_neg hfull]
        have hcount : (g ++ [t]).length = g.length + 1 := List.length_append
        have hg' : Gathered ((ch <<< 6 ||| t) % 2 ^ 32) (g ++ [t]) := by
          have := hg.short
          refine ⟨by omega, ?_⟩
          rw [hcount, hbits, hg.bits, List.foldl_append]
          rfl
        have hrest := ih hskip hs' hfuel' (by omega) hg'
        rw [hcount, List.append_assoc g] at hrest
        exact hrest

/-- **`decodeBase64` decodes the text that was there before**, and never leaves the memory of
that text. -/
theorem decodeBase64_eq {mem : CharBuf n} {s tail : List UInt8} (hmem : mem.bytes = s ++ 0 :: tail)
    (hs : ∀ c ∈ s, c ≠ 0) :
    ∃ (mem' : CharBuf n) (rest : List UInt8), decodeBase64 mem = some mem' ∧
      mem'.bytes = Base64.octets (s.filterMap Base64.sextet) ++ 0 :: rest := by
  have hlen := mem.length_eq
  rw [hmem, List.length_append, List.length_cons] at hlen
  have hnil : Gathered 0 [] := ⟨by decide, Nat.mod_one _⟩
  have hmem' : Split mem [] [] (s ++ 0 :: tail) := ⟨hmem⟩
  have hgap : ([] : List Nat).length ≤ ([] : List UInt8).length := Nat.le_refl 0
  exact decodeBase64Loop_eq hmem' hs (by omega) hgap hnil

/-- The C string that `decodeBase64` makes of a C string. -/
def decoded (s : List UInt8) : List UInt8 := cstr (Base64.octets (s.filterMap Base64.sextet))

/-- What the caller sees of the decoded text. -/
theorem cstr_decodeBase64 {mem : CharBuf n} {s tail : List UInt8}
    (hmem : mem.bytes = s ++ 0 :: tail) (hs : ∀ c ∈ s, c ≠ 0) :
    ∃ mem' : CharBuf n, decodeBase64 mem = some mem' ∧ cstr mem'.bytes = decoded s := by
  obtain ⟨mem', rest, hcall, hbytes⟩ := decodeBase64_eq hmem hs
  refine ⟨mem', hcall, ?_⟩
  rw [hbytes]
  exact cstr_append_zero _ _

/-- **A text that has been encoded is decoded in place.** -/
theorem decodeBase64_encode {mem : CharBuf n} {s tail : List UInt8} (hs : ∀ c ∈ s, c ≠ 0)
    (hmem : mem.bytes = Base64.encode s ++ 0 :: tail) :
    ∃ mem' : CharBuf n, decodeBase64 mem = some mem' ∧ cstr mem'.bytes = s := by
  obtain ⟨mem', hcall, hcstr⟩ := cstr_decodeBase64 hmem (Base64.encode_ne_zero s)
  refine ⟨mem', hcall, hcstr.trans ?_⟩
  rw [decoded, Base64.octets_encode, cstr_append_replicate hs]

/-! ## Escapes -/

/-- The outcomes of `unescape`: the return value 0 with the memory, or -1; `outside` is a read
or a store outside the memory. -/
inductive Unescaped (n : Nat) where
  | done (mem : CharBuf n)
  | malformed
  | outside
deriving DecidableEq

/-- The loop of `unescape`, for at most `fuel` rounds. -/
def unescapeLoop : Nat → CharBuf n → Nat → Nat → Nat → Unescaped n
  | 0, _, _, _, _ => .outside
  | fuel + 1, mem, length, src, dst =>
    if src < length then
      match mem.bytes[src]? with
      | none => .outside
      | some c =>
        if c ≠ PercentEncoding.percent then
          match mem.write dst c with
          | none => .outside
          | some mem => unescapeLoop fuel mem length (src + 1) (dst + 1)
        -- one character behind the percent sign is enough here
        else if src + 2 > length then .malformed
        else
          match mem.bytes[src + 1]? with
          | none => .outside
          | some high =>
            match PercentEncoding.hexValue high with
            | none => .malformed
            | some rc =>
              -- `*dst` holds the high digit while the low one is read
              match mem.write dst (UInt8.ofNat (rc * 16)) with
              | none => .outside
              | some mem =>
                match mem.bytes[src + 2]? with
                | none => .outside
                | some low =>
                  match PercentEncoding.hexValue low with
                  | none => .malformed
                  | some rc' =>
                    match mem.write dst (UInt8.ofNat (rc * 16) + UInt8.ofNat rc') with
                    | none => .outside
                    | some mem => unescapeLoop fuel mem length (src + 3) (dst + 1)
    else
      match mem.write dst 0 with
      | none => .outside
      | some mem => .done mem

/-- `unescape`, on the memory from `string` on. -/
def unescape (mem : CharBuf n) : Unescaped n :=
  unescapeLoop (n + 1) mem (cstr mem.bytes).length 0 0

/-- The outcome for a text that decodes to `d`, or to nothing, stored behind `out`. -/
inductive Outcome (out : List UInt8) : Option (List UInt8) → Unescaped n → Prop where
  | done {d : List UInt8} {mem : CharBuf n} (rest : List UInt8)
    (bytes : mem.bytes = out ++ d ++ 0 :: rest) : Outcome out (some d) (.done mem)
  | malformed : Outcome out none .malformed

/-- A byte that has been decoded is the first of the result. -/
theorem Outcome.cons {out : List UInt8} {c : UInt8} {d : Option (List UInt8)} {r : Unescaped n}
    (h : Outcome (out ++ [c]) d r) : Outcome out (d.map (c :: ·)) r := by
  cases h with
  | done rest bytes =>
    refine .done rest ?_
    rw [bytes]
    simp only [List.append_assoc, List.cons_append, List.nil_append]
  | malformed => exact .malformed

/-- The loop, with `out` decoded, `gap` read behind it, and `s` ahead. -/
theorem unescapeLoop_eq {fuel : Nat} {mem : CharBuf n} {out gap s tail : List UInt8}
    (hmem : Split mem out gap (s ++ 0 :: tail)) (hfuel : s.length < fuel) {length : Nat}
    (hlength : length = out.length + gap.length + s.length) :
    Outcome out (PercentEncoding.decode s)
      (unescapeLoop fuel mem length (out.length + gap.length) out.length) := by
  -- on the rounds; a round reads one character, or the three of an escape
  induction fuel generalizing mem out gap s with
  | zero => exact absurd hfuel (Nat.not_lt_zero _)
  | succ fuel ih =>
    have hdst : ∀ c : UInt8, (out ++ [c]).length = out.length + 1 := fun _ => List.length_append
    unfold unescapeLoop
    cases s with
    | nil =>
      -- the end of the text: a `NUL` goes behind what has been decoded
      obtain ⟨mem', gap', hwrite, hsplit, -⟩ := hmem.next 0
      rw [if_neg (by rw [hlength]; exact Nat.lt_irrefl _), hwrite]
      refine .done (gap' ++ tail) ?_
      rw [hsplit.bytes, List.append_nil, List.append_assoc]
      rfl
    | cons c s =>
      have hread := hmem.read 0
      rw [Nat.add_zero] at hread
      rw [List.length_cons] at hlength hfuel
      rw [if_pos (by omega), hread]
      show Outcome out _ (if c ≠ PercentEncoding.percent then _ else _)
      by_cases hc : c = PercentEncoding.percent
      · rw [if_neg (not_not.mpr hc), hc]
        have hahead := hmem.read
        cases s with
        | nil =>
          -- nothing follows the percent sign
          rw [if_pos (by rw [hlength, List.length_nil]; omega)]
          exact .malformed
        | cons high s =>
          rw [List.length_cons] at hlength hfuel
          rw [if_neg (by omega), hahead 1]
          show Outcome out _ (match PercentEncoding.hexValue high with
            | none => _
            | some rc => _)
          cases hrc : PercentEncoding.hexValue high with
          | none =>
            rw [PercentEncoding.decode_high hrc]
            exact .malformed
          | some rc =>
            -- half of the byte is stored before the low digit is looked at
            obtain ⟨mem₁, gap₁, hwrite₁, hsplit₁, hgap₁⟩ := hmem.next (UInt8.ofNat (rc * 16))
            have hlow := hsplit₁.read 1
            rw [hdst, hgap₁] at hlow
            dsimp only
            rw [hwrite₁]
            dsimp only
            rw [show out.length + gap.length + 2 = out.length + 1 + gap.length + 1 by omega, hlow]
            cases s with
            | nil =>
              -- where the low digit is missing, the `NUL` is read for it
              rw [PercentEncoding.decode_short]
              exact .malformed
            | cons low s =>
              rw [List.length_cons] at hlength hfuel
              show Outcome out _ (match PercentEncoding.hexValue low with
                | none => _
                | some rc' => _)
              cases hrc' : PercentEncoding.hexValue low with
              | none =>
                rw [PercentEncoding.decode_low hrc']
                exact .malformed
              | some rc' =>
                -- the same place is stored to once more
                obtain ⟨mem₂, hwrite₂, hsplit₂⟩ :=
                  hsplit₁.skip.skip.again (UInt8.ofNat (rc * 16) + UInt8.ofNat rc')
                have hgap₂ : (gap₁ ++ [high] ++ [low]).length = gap.length + 2 := by
                  rw [List.length_append, List.length_append, hgap₁]
                  rfl
                have hrest := ih hsplit₂ (by omega) (by rw [hdst, hgap₂]; omega)
                dsimp only
                rw [hwrite₂]
                rw [hdst, hgap₂, Nat.add_right_comm, ← UInt8.ofNat_add] at hrest
                rw [PercentEncoding.decode_escape hrc hrc']
                exact hrest.cons
      · rw [if_pos hc, PercentEncoding.decode_cons hc]
        obtain ⟨mem', gap', hwrite, hsplit, hgap⟩ := hmem.next c
        have hrest := ih hsplit (by omega) (by rw [hdst]; omega)
        rw [hwrite]
        rw [hdst, hgap, Nat.add_right_comm] at hrest
        exact hrest.cons

/-- **`unescape` decodes the text that was there before**, or returns -1 where it cannot be
decoded, and never leaves the memory of that text. -/
theorem unescape_eq {mem : CharBuf n} {s tail : List UInt8} (hmem : mem.bytes = s ++ 0 :: tail)
    (hs : ∀ c ∈ s, c ≠ 0) : Outcome [] (PercentEncoding.decode s) (unescape mem) := by
  have hlen := mem.length_eq
  have hcstr : cstr mem.bytes = s := by
    rw [hmem]
    exact cstr_append hs tail
  rw [hmem, List.length_append, List.length_cons] at hlen
  have hsplit : Split mem [] [] (s ++ 0 :: tail) := ⟨hmem⟩
  unfold unescape
  rw [hcstr]
  exact unescapeLoop_eq hsplit (by omega) (Nat.zero_add _).symm

/-- **A text that has been escaped is unescaped in place.** -/
theorem unescape_encode {mem : CharBuf n} {s tail : List UInt8} (hs : ∀ c ∈ s, c ≠ 0)
    (hmem : mem.bytes = PercentEncoding.encode s ++ 0 :: tail) :
    ∃ mem' : CharBuf n, unescape mem = .done mem' ∧ cstr mem'.bytes = s := by
  have houtcome := unescape_eq hmem (PercentEncoding.encode_ne_zero s)
  rw [PercentEncoding.decode_encode] at houtcome
  generalize unescape mem = r at houtcome ⊢
  cases houtcome with
  | done rest bytes =>
    refine ⟨_, rfl, ?_⟩
    rw [bytes, List.nil_append]
    exact cstr_append hs rest

/-- `a%`. -/
theorem unescape_encode_two :
    ∃ mem', unescape (⟨PercentEncoding.encode [97, 37] ++ [0], rfl⟩ : CharBuf 7) = .done mem' ∧
      cstr mem'.bytes = [97, 37] :=
  unescape_encode (List.all_iff_forall_prop.mp (by decide +kernel)) rfl

/-- A digit that is missing is looked for at the `NUL`. -/
example : unescape (⟨[97, 37, 52, 0], rfl⟩ : CharBuf 4) = .malformed := by decide

/-- `a:`. -/
theorem decodeBase64_encode_two :
    ∃ mem', decodeBase64 (⟨Base64.encode [97, 58] ++ [0], rfl⟩ : CharBuf 5) = some mem' ∧
      cstr mem'.bytes = [97, 58] :=
  decodeBase64_encode (List.all_iff_forall_prop.mp (by decide +kernel)) rfl

end Httpd

end ProjZ
