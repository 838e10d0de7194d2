import ProjZ.Firmware.ReplyProtocol

/-!
# The command language, written out

With blanks removed and letters upper-cased, the commands are
`G(LE|LP|SE|SX|SY)[0-9]*`, `S(LE|LP|SE|SX|SY)[0-9]*` and `SSP[0-9]*,[0-9]*`. Here
they are texts (`GetText`, `SetText`, `SetXYText`), and `parse` is shown to know these
and no others: each letter table is inverted by the letter that is printed in a
reply, and the arguments by `Args.text`.

`receiveI2c_language` puts this on the state machine: the marker it ends with, whatever
the globals were before, tells which of the languages the message is in.
-/

namespace ProjZ

open Ascii

/-! ## Letters and arguments -/

/-- The method letter. -/
def Method.letter : Method → UInt8
  | .get => 'G'.toUInt8
  | .set => 'S'.toUInt8

theorem methodOf_eq_some {c : UInt8} {k : Method} : methodOf c = some k ↔ c = k.letter := by
  constructor
  · intro h
    unfold methodOf at h
    split at h
    · next hc =>
      cases h
      exact hc
    · split at h
      · next hc =>
        cases h
        exact hc
      · cases h
  · rintro rfl
    cases k <;> decide

theorem deviceOf_eq_some {c : UInt8} {d : SDevice} : deviceOf c = some d ↔ c = d.letter := by
  constructor
  · intro h
    unfold deviceOf at h
    split at h
    · next hc =>
      cases h
      exact hc
    · split at h
      · next hc =>
        cases h
        exact hc
      · cases h
  · rintro rfl
    cases d <;> decide

theorem typeOf_eq_some {c : UInt8} {t : SType} : typeOf c = some t ↔ c = t.letter := by
  constructor
  · intro h
    unfold typeOf at h
    repeat' split at h
    all_goals cases h
    all_goals assumption
  · rintro rfl
    cases t <;> decide

/-- A string of digits, possibly empty. -/
def Digits (s : List UInt8) : Prop := ∀ c ∈ s, isDigit c = true

instance (s : List UInt8) : Decidable (Digits s) := inferInstanceAs (Decidable (∀ c ∈ s, _))

/-- The arguments as they stand in a message. -/
def Args.text : Args → List UInt8
  | .one a => a
  | .two a b => a ++ ','.toUInt8 :: b

/-- Arguments are digit strings. -/
def Args.Digits : Args → Prop
  | .one a => ProjZ.Digits a
  | .two a b => ProjZ.Digits a ∧ ProjZ.Digits b

theorem argsOf_digits {s : List UInt8} (h : Digits s) : argsOf s = some (.one s) := by
  rcases argsOf_cases s with ⟨hargs, -⟩ | ⟨a, b, rfl, -⟩ | ⟨a, c, b, rfl, -, -, hc, -⟩
  · exact hargs
  · exact absurd (h ','.toUInt8 (by simp)) (by decide)
  · exact absurd (h c (by simp)) hc

theorem argsOf_eq_some {s : List UInt8} {a : Args} : argsOf s = some a ↔ s = a.text ∧ a.Digits := by
  constructor
  · intro h
    rcases argsOf_cases s with ⟨hargs, hs⟩ | ⟨x, y, rfl, hargs, hx, hy⟩ | ⟨x, c, y, rfl, hargs, -⟩
    · obtain rfl : Args.one s = a := Option.some.inj (hargs.symm.trans h)
      exact ⟨rfl, hs⟩
    · obtain rfl : Args.two x y = a := Option.some.inj (hargs.symm.trans h)
      exact ⟨rfl, hx, List.all_eq_true.mp hy⟩
    · rw [hargs] at h
      cases h
  · rintro ⟨rfl, hd⟩
    cases a with
    | one a => exact argsOf_digits hd
    | two a b => exact argsOf_comma hd.1 hd.2

/-- **The grammar, as a set of texts.** -/
theorem parse_eq_some_iff {m : List UInt8} {q : Request} :
    parse m = some q ↔
      ∃ k d t a, squeeze m = k.letter :: d.letter :: t.letter :: a.text ∧ a.Digits ∧
        Request.of k d t a = some q := by
  constructor
  · intro h
    unfold parse at h
    match hsq : squeeze m, h with
    | c0 :: c1 :: c2 :: s, h =>
      simp only [Option.bind_eq_bind, Option.bind_eq_some_iff] at h
      obtain ⟨k, hk, d, hd, t, ht, a, ha, hof⟩ := h
      obtain ⟨rfl, hdig⟩ := argsOf_eq_some.mp ha
      refine ⟨k, d, t, a, ?_, hdig, hof⟩
      rw [methodOf_eq_some.mp hk, deviceOf_eq_some.mp hd, typeOf_eq_some.mp ht]
  · rintro ⟨k, d, t, a, hsq, hdig, hof⟩
    unfold parse
    rw [hsq]
    simp only [methodOf_eq_some.mpr rfl, deviceOf_eq_some.mpr rfl, typeOf_eq_some.mpr rfl,
      argsOf_eq_some.mpr ⟨rfl, hdig⟩, Option.bind_eq_bind, Option.bind_some, hof]

/-- The first letter of a well-formed message is that of the request's method. -/
theorem squeeze_of_parse {m : List UInt8} {q : Request} (h : parse m = some q) :
    ∃ s, squeeze m = q.method.letter :: s := by
  obtain ⟨k, d, t, a, hsq, -, hof⟩ := parse_eq_some_iff.mp h
  rw [Request.method_of hof]
  exact ⟨_, hsq⟩

/-! ## The three languages -/

/-- `LE`, `LP`, `SE`, `SX` or `SY`. -/
def Reg.letters (r : Reg) : List UInt8 := [r.device.letter, r.type.letter]

/-- `G(LE|LP|SE|SX|SY)[0-9]*`, with the digits `d`. -/
structure GetText (u : List UInt8) (r : Reg) (d : List UInt8) : Prop where
  eq : u = 'G'.toUInt8 :: (r.letters ++ d)
  digits : Digits d

/-- `S(LE|LP|SE|SX|SY)[0-9]*`, with the digits `d`. -/
structure SetText (u : List UInt8) (r : Reg) (d : List UInt8) : Prop where
  eq : u = 'S'.toUInt8 :: (r.letters ++ d)
  digits : Digits d

/-- `SSP[0-9]*,[0-9]*`, with the digits `a` and `b`. -/
structure SetXYText (u a b : List UInt8) : Prop where
  eq : u = bytes ['S', 'S', 'P'] ++ a ++ ','.toUInt8 :: b
  digits_left : Digits a
  digits_right : Digits b

theorem parse_eq_get_iff {m : List UInt8} {r : Reg} :
    parse m = some (.get r) ↔ ∃ d, GetText (squeeze m) r d := by
  rw [parse_eq_some_iff]
  constructor
  · rintro ⟨k, d, t, a, hsq, hdig, hof⟩
    cases k with
    | get =>
      cases a with
      | one a =>
        obtain ⟨r', hr, hq⟩ := Option.map_eq_some_iff.mp hof
        cases hq
        obtain ⟨rfl, rfl⟩ := Reg.of_eq_some.mp hr
        exact ⟨a, hsq, hdig⟩
      | two a b => cases d <;> cases t <;> cases hof
    | set => cases Request.method_of hof
  · rintro ⟨d, hsq, hdig⟩
    refine ⟨.get, r.device, r.type, .one d, hsq, hdig, ?_⟩
    simp only [Request.of, Reg.of_eq_some.mpr ⟨rfl, rfl⟩, Option.map_some]

theorem parse_eq_set_iff {m : List UInt8} {r : Reg} {v : Int} :
    parse m = some (.set r v) ↔ ∃ d, SetText (squeeze m) r d ∧ v = int16 (toInt d) := by
  rw [parse_eq_some_iff]
  constructor
  · rintro ⟨k, d, t, a, hsq, hdig, hof⟩
    cases k with
    | get => cases Request.method_of hof
    | set =>
      cases a with
      | one a =>
        obtain ⟨r', hr, hq⟩ := Option.map_eq_some_iff.mp hof
        cases hq
        obtain ⟨rfl, rfl⟩ := Reg.of_eq_some.mp hr
        exact ⟨a, ⟨hsq, hdig⟩, rfl⟩
      | two a b => cases d <;> cases t <;> cases hof
  · rintro ⟨d, ⟨hsq, hdig⟩, hv⟩
    refine ⟨.set, r.device, r.type, .one d, hsq, hdig, ?_⟩
    simp only [Request.of, Reg.of_eq_some.mpr ⟨rfl, rfl⟩, Option.map_some, hv]

theorem parse_eq_setXY_iff {m : List UInt8} {x y : Int} :
    parse m = some (.setXY x y) ↔
      ∃ a b, SetXYText (squeeze m) a b ∧ x = int16 (toInt a) ∧ y = int16 (toInt b) := by
  rw [parse_eq_some_iff]
  constructor
  · rintro ⟨k, d, t, a, hsq, hdig, hof⟩
    cases k with
    | get => cases Request.method_of hof
    | set =>
      cases a with
      | one a =>
        obtain ⟨r, -, hq⟩ := Option.map_eq_some_iff.mp hof
        cases hq
      | two a b =>
        cases d <;> cases t <;> simp only [Request.of, reduceCtorEq, Option.some.injEq,
          Request.setXY.injEq] at hof
        exact ⟨a, b, ⟨hsq, hdig.1, hdig.2⟩, hof.1.symm, hof.2.symm⟩
  · rintro ⟨a, b, ⟨hsq, ha, hb⟩, hx, hy⟩
    refine ⟨.set, .servo, .pwm, .two a b, hsq, ⟨ha, hb⟩, ?_⟩
    rw [hx, hy]
    rfl

/-! ## The machine -/

/-- A write changes neither of the two letters. -/
theorem Reg.write_letters (r : Reg) (v : Int) (fw : Firmware) :
    (r.write v fw).device = fw.device ∧ (r.write v fw).type = fw.type := by
  cases r <;> exact ⟨rfl, rfl⟩

theorem Firmware.applyAxis_letters (r : Reg) (v : Int) (fw : Firmware) :
    (fw.applyAxis r v).device = fw.device ∧ (fw.applyAxis r v).type = fw.type := by
  unfold applyAxis
  split
  · exact r.write_letters v fw
  · split <;> exact ⟨rfl, rfl⟩

/-- What an accepted set leaves in `device`, `type` and the registers. -/
theorem receiveI2c_accepted {m : List UInt8} {q : Request} (hq : parse m = some q)
    (hmethod : q.method = .set) (hacc : q.Accepted) (fw : Firmware) :
    (∃ r d, SetText (squeeze m) r d ∧ (receiveI2c m fw).device = r.device ∧
      (receiveI2c m fw).type = r.type ∧
      (receiveI2c m fw).regs = r.store (int16 (toInt d)) fw.regs) ∨
    ∃ a b, SetXYText (squeeze m) a b ∧ (receiveI2c m fw).device = .servo ∧
      (receiveI2c m fw).type = .pwm ∧
      (receiveI2c m fw).regs = Reg.servoPwmY.storeAxis (int16 (toInt b))
        (Reg.servoPwmX.storeAxis (int16 (toInt a)) fw.regs) := by
  cases q with
  | get r => cases hmethod
  | set r v =>
    -- the letters come from the text, and the digits from its argument
    obtain ⟨d, htext, hv⟩ := parse_eq_set_iff.mp hq
    have hv' : r.Admits v := hacc
    have hrec := receiveI2c_set hq fw
    rw [if_pos hv'] at hrec
    obtain ⟨hd, ht⟩ := r.write_letters v (fw.addressing .chS r.device r.type)
    left
    refine ⟨r, d, htext, ?_, ?_, ?_⟩
    · rw [hrec, hd]
      rfl
    · rw [hrec, ht]
      rfl
    · rw [hrec, Reg.write_regs, hv]
      rfl
  | setXY x y =>
    obtain ⟨a, b, htext, hx, hy⟩ := parse_eq_setXY_iff.mp hq
    have hrec := receiveI2c_setXY hq fw
    right
    refine ⟨a, b, htext, ?_, ?_, ?_⟩
    · rw [hrec, (Firmware.applyAxis_letters ..).1, (Firmware.applyAxis_letters ..).1]
      rfl
    · rw [hrec, (Firmware.applyAxis_letters ..).2, (Firmware.applyAxis_letters ..).2]
      rfl
    · rw [hrec, Firmware.applyAxis_regs, Firmware.applyAxis_regs, hx, hy]
      rfl

/-- **`receiveI2c` recognises exactly its grammar.** It ends with `'G'` on the get commands
and on nothing else; it ends with `'S'` on set commands only, whose letters and digits it
has used for the update; every other message ends with `'F'`. The marker depends on the
message alone. -/
theorem receiveI2c_language (m : List UInt8) (fw : Firmware) :
    ((receiveI2c m fw).i2cRet = .chG ↔ ∃ r d, GetText (squeeze m) r d) ∧
    ((receiveI2c m fw).i2cRet = .chS →
      (∃ r d, SetText (squeeze m) r d ∧ (receiveI2c m fw).device = r.device ∧
        (receiveI2c m fw).type = r.type ∧
        (receiveI2c m fw).regs = r.store (int16 (toInt d)) fw.regs) ∨
      ∃ a b, SetXYText (squeeze m) a b ∧ (receiveI2c m fw).device = .servo ∧
        (receiveI2c m fw).type = .pwm ∧
        (receiveI2c m fw).regs = Reg.servoPwmY.storeAxis (int16 (toInt b))
          (Reg.servoPwmX.storeAxis (int16 (toInt a)) fw.regs)) ∧
    ((receiveI2c m fw).i2cRet ≠ .chG → (receiveI2c m fw).i2cRet ≠ .chS →
      (receiveI2c m fw).i2cRet = .chF) ∧
    ∀ fw', (receiveI2c m fw').i2cRet = (receiveI2c m fw).i2cRet := by
  have hret := receiveI2c_i2cRet m fw
  refine ⟨?_, ?_, ?_, ?_⟩
  · rw [hret, Verdict.marker_eq_chG]
    exact exists_congr fun r => verdict_eq_get.trans parse_eq_get_iff
  · intro h
    have hset : verdict m = .set := Verdict.marker_eq_chS.mp (hret.symm.trans h)
    -- the verdict is one of a parsed request
    obtain ⟨q, hq, hmethod, hacc⟩ := verdict_eq_set.mp hset
    exact receiveI2c_accepted hq hmethod hacc fw
  · intro hG hS
    rw [hret] at hG hS ⊢
    cases hv : verdict m with
    | rejected => rfl
    | set =>
      rw [hv] at hS
      exact absurd rfl hS
    | get r =>
      rw [hv] at hG
      exact absurd rfl hG
  · intro fw'
    rw [hret, receiveI2c_i2cRet]

end ProjZ
