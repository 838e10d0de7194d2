import ProjZ.Firmware.ReceiveI2c

/-!
# The command language of the firmware

`receiveI2c` is a byte-at-a-time machine with leftovers of earlier messages in
`device` and `type`. This file says what it accepts without the machine: a
message is *squeezed* (blanks and control bytes removed, letters upper-cased),
split into a method letter, a device letter, a type letter and arguments, and
read as a `Request` on one of five registers (`parse`).

`scan_cases` connects the two: for every message and every leftover, the loop of
`receiveI2c` ends in the state `parse` predicts. What the code then does with a
request is in `Firmware/Requests.lean`; nothing above that file unfolds the
parser again.
-/

namespace ProjZ

open Ascii

/-! ## Requests -/

/-- The registers a command can address. -/
inductive Reg where
  | ledEn
  | ledPwm
  | servoEn
  | servoPwmX
  | servoPwmY
deriving DecidableEq, Repr

namespace Reg

/-- The device letter's value. -/
def device : Reg → SDevice
  | .ledEn | .ledPwm => .led
  | .servoEn | .servoPwmX | .servoPwmY => .servo

/-- The type letter's value. -/
def type : Reg → SType
  | .ledEn | .servoEn => .en
  | .ledPwm => .pwm
  | .servoPwmX => .pwmX
  | .servoPwmY => .pwmY

/-- The register named by a device and a type, if a single register is. -/
def of : SDevice → SType → Option Reg
  | .led, .en => some .ledEn
  | .led, .pwm => some .ledPwm
  | .servo, .en => some .servoEn
  | .servo, .pwmX => some .servoPwmX
  | .servo, .pwmY => some .servoPwmY
  | _, _ => none

/-- The number of digits of the reply. -/
def width : Reg → Nat
  | .ledEn | .servoEn => 1
  | .ledPwm => 3
  | .servoPwmX | .servoPwmY => 4

/-- The current value of the register. -/
def value (r : Reg) (regs : Regs) : Int :=
  match r with
  | .ledEn => regs.ledEn
  | .ledPwm => regs.ledPwm
  | .servoEn => regs.servoEn
  | .servoPwmX => regs.servoPwmX
  | .servoPwmY => regs.servoPwmY

/-- The values a set command may give the register. -/
def Admits : Reg → Int → Prop
  | .ledEn, v | .servoEn, v => v = 0 ∨ v = 1
  | .ledPwm, v => 0 ≤ v ∧ v ≤ 255
  | .servoPwmX, v | .servoPwmY, v => pulseOk v

instance (r : Reg) (v : Int) : Decidable (r.Admits v) := by
  cases r <;> unfold Admits <;> infer_instance

/-- The register update of a set command, with its pin write. -/
def write (r : Reg) (v : Int) (fw : Firmware) : Firmware :=
  match r with
  | .ledEn => fw.setLedEn v
  | .ledPwm => fw.setLedPwm v
  | .servoEn => fw.setServoEn v
  | .servoPwmX => fw.setServoPwmX v
  | .servoPwmY => fw.setServoPwmY v

theorem of_eq_some {d : SDevice} {t : SType} {r : Reg} :
    of d t = some r ↔ d = r.device ∧ t = r.type := by
  cases d <;> cases t <;> cases r <;> simp [of, device, type]

end Reg

/-- What a message asks for. -/
inductive Request where
  | get (r : Reg)
  | set (r : Reg) (v : Int)
  | setXY (x y : Int)
deriving DecidableEq, Repr

/-- The two method letters. -/
inductive Method where
  | get
  | set
deriving DecidableEq, Repr

/-- The arguments of a command: one digit string, or two around a comma. -/
inductive Args where
  | one (a : List UInt8)
  | two (a b : List UInt8)
deriving DecidableEq, Repr

/-! ## The parser -/

/-- The message without blanks and control bytes, letters upper-cased. -/
def squeeze (m : List UInt8) : List UInt8 :=
  (m.filter fun c => decide (32 < c)).map toupper

/-- A printable byte stays, upper-cased. -/
theorem squeeze_cons {c : UInt8} (h : 32 < c) (m : List UInt8) :
    squeeze (c :: m) = toupper c :: squeeze m := by
  simp [squeeze, h]

/-- `G` or `S`. -/
def methodOf (c : UInt8) : Option Method :=
  if c = 'G'.toUInt8 then some .get else if c = 'S'.toUInt8 then some .set else none

/-- The device letter of a command. -/
def deviceOf (c : UInt8) : Option SDevice :=
  if c = 'L'.toUInt8 then some .led else if c = 'S'.toUInt8 then some .servo else none

/-- The letter that names the register of a device. -/
def typeOf (c : UInt8) : Option SType :=
  if c = 'E'.toUInt8 then some .en
  else if c = 'P'.toUInt8 then some .pwm
  else if c = 'X'.toUInt8 then some .pwmX
  else if c = 'Y'.toUInt8 then some .pwmY
  else none

/-- Digits, or digits, a comma and digits. -/
def argsOf (s : List UInt8) : Option Args :=
  match s.dropWhile isDigit with
  | [] => some (.one s)
  | c :: b =>
    if c = ','.toUInt8 ∧ b.all isDigit then some (.two (s.takeWhile isDigit) b) else none

/-- The commands that exist: gets and sets of the five registers, and the
two-axis servo set. A get ignores its argument. -/
def Request.of : Method → SDevice → SType → Args → Option Request
  | .get, d, t, .one _ => (Reg.of d t).map .get
  | .set, d, t, .one a => (Reg.of d t).map fun r => .set r (int16 (toInt a))
  | .set, .servo, .pwm, .two a b => some (.setXY (int16 (toInt a)) (int16 (toInt b)))
  | _, _, _, .two _ _ => none

/-- The request a message stands for, if it is well formed. -/
def parse (m : List UInt8) : Option Request :=
  match squeeze m with
  | c0 :: c1 :: c2 :: s => do
    let k ← methodOf c0
    let d ← deviceOf c1
    let t ← typeOf c2
    let a ← argsOf s
    Request.of k d t a
  | _ => none

/-- The method letter of a request. -/
def Request.method : Request → Method
  | .get _ => .get
  | .set _ _ | .setXY _ _ => .set

theorem Request.method_of {k : Method} {d : SDevice} {t : SType} {a : Args} {q : Request}
    (h : Request.of k d t a = some q) : q.method = k := by
  cases a with
  | one a =>
    cases k with
    | get =>
      obtain ⟨r, -, rfl⟩ := Option.map_eq_some_iff.mp h
      rfl
    | set =>
      obtain ⟨r, -, rfl⟩ := Option.map_eq_some_iff.mp h
      rfl
  | two a b =>
    cases k with
    | get => cases d <;> cases t <;> cases h
    | set =>
      cases d <;> cases t <;> cases h
      rfl

/-- Digits, a comma and digits are two arguments. -/
theorem argsOf_comma {a b : List UInt8} (ha : ∀ c ∈ a, isDigit c = true)
    (hb : ∀ c ∈ b, isDigit c = true) :
    argsOf (a ++ ','.toUInt8 :: b) = some (.two a b) := by
  have hcomma : isDigit ','.toUInt8 = false := by decide
  have hdrop : (a ++ ','.toUInt8 :: b).dropWhile isDigit = ','.toUInt8 :: b := by
    rw [List.dropWhile_append_of_pos ha, List.dropWhile_cons_of_neg (by rw [hcomma]; decide)]
  have htake : (a ++ ','.toUInt8 :: b).takeWhile isDigit = a := by
    rw [List.takeWhile_append_of_pos ha, List.takeWhile_cons_of_neg (by rw [hcomma]; decide),
      List.append_nil]
  unfold argsOf
  rw [hdrop, htake]
  exact if_pos ⟨rfl, List.all_eq_true.mpr hb⟩

example : parse (bytes [' ', 'g', 's', '\n', 'X']) = some (.get .servoPwmX) := by decide

/-! ## The scanner on squeezed messages -/

/-- A byte as `squeeze` leaves it. -/
def Squeezed (c : UInt8) : Prop := 32 < c ∧ toupper c = c

theorem squeezed_of_mem {m : List UInt8} {c : UInt8} (hc : c ∈ squeeze m) : Squeezed c := by
  obtain ⟨b, hb, rfl⟩ := List.mem_map.mp hc
  have hlt : 32 < b := by simpa using (List.mem_filter.mp hb).2
  unfold Squeezed toupper
  grind

/-- A message without blanks and lower-case letters is its own squeezed form. -/
theorem squeeze_of_squeezed {m : List UInt8} (h : ∀ c ∈ m, Squeezed c) : squeeze m = m := by
  induction m with
  | nil => rfl
  | cons c m ih =>
    obtain ⟨hlt, hup⟩ := h c (List.mem_cons_self ..)
    rw [squeeze_cons hlt, hup, ih fun x hx => h x (List.mem_cons_of_mem c hx)]

theorem squeezed_of_isDigit {c : UInt8} (h : isDigit c = true) : Squeezed c :=
  ⟨blank_lt_of_isDigit h, toupper_of_isDigit h⟩

/-- The scanner does not tell a byte from its upper-case form. -/
theorem scanByte_toupper (st : Scan) {c : UInt8} (h : 32 < c) :
    scanByte st (toupper c) = scanByte st c := by
  have hge : ¬ c ≤ 32 := by grind
  have hge' : ¬ toupper c ≤ 32 := by
    unfold toupper
    grind
  have hidem : toupper (toupper c) = toupper c := by
    unfold toupper
    grind
  have htmp : isDigit c = true → toupper c = c := toupper_of_isDigit
  unfold scanByte
  rw [if_neg hge, if_neg hge', hidem, isDigit_toupper]
  simp only [toupper_eq_comma]
  by_cases hd : isDigit c = true
  · rw [htmp hd]
  · simp only [hd, Bool.false_eq_true, if_false]

/-- Scanning a message is scanning its squeezed form. -/
theorem foldl_scanByte_squeeze (m : List UInt8) (st : Scan) :
    m.foldl scanByte st = (squeeze m).foldl scanByte st := by
  induction m generalizing st with
  | nil => rfl
  | cons c m ih =>
    by_cases h : 32 < c
    · rw [squeeze_cons h, List.foldl_cons, List.foldl_cons, scanByte_toupper st h, ih]
    · have hsq : squeeze (c :: m) = squeeze m := by simp [squeeze, h]
      have hskip : scanByte st c = st := by
        unfold scanByte
        rw [if_pos (by grind)]
      rw [hsq, List.foldl_cons, hskip, ih]

/-- The error marker is final. -/
theorem foldl_scanByte_chF (s : List UInt8) {st : Scan} (h : st.i2cRet = .chF) :
    s.foldl scanByte st = st := by
  induction s with
  | nil => rfl
  | cons c s ih =>
    have hc : scanByte st c = st := by
      unfold scanByte
      by_cases hb : c ≤ 32
      · rw [if_pos hb]
      · rw [if_neg hb, if_pos h]
    rw [List.foldl_cons, hc, ih]

/-- The value `i2c_ret` takes from the method letter. -/
def Method.ret : Method → I2cRet
  | .get => .chG
  | .set => .chS

/-- The scanner after the first `n` of the three letters. -/
def Scan.letters (k : Method) (d : SDevice) (t : SType) (n : Nat) : Scan :=
  { Scan.start d t with i2cRet := k.ret, needFlags := n }

/-- The scanner after the arguments. -/
def Scan.withArgs (st : Scan) : Args → Scan
  | .one a => { st with tmpStr := a }
  | .two a b =>
    { st with
      valTmp0 := int16 (toInt a)
      needFlags := 4
      valTmpPtr := .valTmp1
      tmpStr := b }

theorem Method.ret_ne_chF (k : Method) : k.ret ≠ .chF := by cases k <;> decide

@[simp] theorem Scan.start_needFlags (d : SDevice) (t : SType) :
    (Scan.start d t).needFlags = 0 := rfl

@[simp] theorem Scan.letters_needFlags (k : Method) (d : SDevice) (t : SType) (n : Nat) :
    (Scan.letters k d t n).needFlags = n := rfl

theorem Scan.letters_ne_chF (k : Method) (d : SDevice) (t : SType) (n : Nat) :
    (Scan.letters k d t n).i2cRet ≠ .chF := k.ret_ne_chF

/-! One byte at each `need_flags`, in terms of the letter tables. -/

theorem scanByte_method {c : UInt8} (hc : Squeezed c) (d : SDevice) (t : SType) :
    (∀ k, methodOf c = some k → scanByte (Scan.start d t) c = Scan.letters k d t 1) ∧
    (methodOf c = none → (scanByte (Scan.start d t) c).i2cRet = .chF) := by
  obtain ⟨hlt, hup⟩ := hc
  have hbranch : scanByte (Scan.start d t) c =
      if c = 'G'.toUInt8 then Scan.letters .get d t 1
      else if c = 'S'.toUInt8 then Scan.letters .set d t 1
      else { Scan.start d t with i2cRet := .chF } := by
    unfold scanByte
    rw [if_neg (by grind), if_neg (by simp [Scan.start]), if_pos (Scan.start_needFlags d t), hup]
    rfl
  rw [hbranch]
  unfold methodOf
  by_cases hG : c = 'G'.toUInt8
  · simp [hG]
  · by_cases hS : c = 'S'.toUInt8
    · simp only [if_neg hG, if_pos hS]
      simp
    · simp [hG, hS]

theorem scanByte_device {c : UInt8} (hc : Squeezed c) (k : Method) (d0 : SDevice) (t : SType) :
    (∀ d, deviceOf c = some d →
      scanByte (Scan.letters k d0 t 1) c = Scan.letters k d t 2) ∧
    (deviceOf c = none → (scanByte (Scan.letters k d0 t 1) c).i2cRet = .chF) := by
  obtain ⟨hlt, hup⟩ := hc
  have hbranch : scanByte (Scan.letters k d0 t 1) c =
      if c = 'L'.toUInt8 then Scan.letters k .led t 2
      else if c = 'S'.toUInt8 then Scan.letters k .servo t 2
      else { Scan.letters k d0 t 1 with i2cRet := .chF } := by
    unfold scanByte
    rw [if_neg (by grind), if_neg (Scan.letters_ne_chF _ _ _ _), if_neg (by simp),
      if_pos (Scan.letters_needFlags ..), hup]
    rfl
  rw [hbranch]
  unfold deviceOf
  by_cases hL : c = 'L'.toUInt8
  · simp [hL]
  · by_cases hS : c = 'S'.toUInt8
    · simp only [if_neg hL, if_pos hS]
      simp
    · simp [hL, hS]

theorem scanByte_type {c : UInt8} (hc : Squeezed c) (k : Method) (d : SDevice) (t0 : SType) :
    (∀ t, typeOf c = some t →
      scanByte (Scan.letters k d t0 2) c = Scan.letters k d t 3) ∧
    (typeOf c = none → (scanByte (Scan.letters k d t0 2) c).i2cRet = .chF) := by
  obtain ⟨hlt, hup⟩ := hc
  -- the third letter meets the branch `need_flags == 2`
  have hbranch : scanByte (Scan.letters k d t0 2) c =
      if c = 'E'.toUInt8 then Scan.letters k d .en 3
      else if c = 'P'.toUInt8 then Scan.letters k d .pwm 3
      else if c = 'X'.toUInt8 then Scan.letters k d .pwmX 3
      else if c = 'Y'.toUInt8 then Scan.letters k d .pwmY 3
      else { Scan.letters k d t0 2 with i2cRet := .chF } := by
    unfold scanByte
    rw [if_neg (by grind), if_neg (Scan.letters_ne_chF _ _ _ _), if_neg (by simp),
      if_neg (by simp), if_pos (Scan.letters_needFlags ..), hup]
    rfl
  rw [hbranch]
  unfold typeOf
  by_cases hE : c = 'E'.toUInt8
  · simp [hE]
  · by_cases hP : c = 'P'.toUInt8
    · simp only [if_neg hE, if_pos hP]
      simp
    · by_cases hX : c = 'X'.toUInt8
      · simp only [if_neg hE, if_neg hP, if_pos hX]
        simp
      · by_cases hY : c = 'Y'.toUInt8
        · simp only [if_neg hE, if_neg hP, if_neg hX, if_pos hY]
          simp
        · simp [hE, hP, hX, hY]

/-- A digit in the argument part is appended to `tmp_str`. -/
theorem scanByte_digit {st : Scan} {c : UInt8} (hd : isDigit c = true)
    (hf : st.i2cRet ≠ .chF) (hn : st.needFlags = 3 ∨ st.needFlags = 4) :
    scanByte st c = { st with tmpStr := st.tmpStr ++ [c] } := by
  have hlt := blank_lt_of_isDigit hd
  unfold scanByte
  rw [if_neg (by grind), if_neg hf, if_neg (by omega), if_neg (by omega), if_neg (by omega),
    if_pos hd]
  rcases hn with hn | hn
  · rw [if_pos hn]
  · rw [if_neg (by omega), if_pos hn, if_pos hd]

/-- Anything but a digit or the first comma is an error in the argument part. -/
theorem scanByte_reject {st : Scan} {c : UInt8} (hc : Squeezed c) (hd : isDigit c ≠ true)
    (hf : st.i2cRet ≠ .chF)
    (hn : st.needFlags = 3 ∧ c ≠ ','.toUInt8 ∨ st.needFlags = 4) :
    scanByte st c = { st with i2cRet := .chF } := by
  have hlt := hc.1
  unfold scanByte
  rw [if_neg (by grind), if_neg hf, if_neg (by omega), if_neg (by omega), if_neg (by omega)]
  rcases hn with ⟨hn, hcomma⟩ | hn
  · rw [if_pos hn, if_neg hd, if_neg hcomma]
  · rw [if_neg (by omega), if_pos hn, if_neg hd]

/-- The comma moves on to the second argument. -/
theorem scanByte_comma {st : Scan} (hf : st.i2cRet ≠ .chF) (hn : st.needFlags = 3) :
    scanByte st ','.toUInt8 =
      { st with
        valTmp0 := int16 (toInt st.tmpStr)
        needFlags := 4
        valTmpPtr := .valTmp1
        tmpStr := [] } := by
  unfold scanByte
  rw [if_neg (by decide), if_neg hf, if_neg (by omega), if_neg (by omega), if_neg (by omega),
    if_pos hn, if_neg (by decide), if_pos rfl]

theorem foldl_scanByte_digits (a : List UInt8) (st : Scan) (ha : ∀ c ∈ a, isDigit c = true)
    (hf : st.i2cRet ≠ .chF) (hn : st.needFlags = 3 ∨ st.needFlags = 4) :
    a.foldl scanByte st = { st with tmpStr := st.tmpStr ++ a } := by
  induction a generalizing st with
  | nil => simp
  | cons c a ih =>
    have hc := scanByte_digit (ha c List.mem_cons_self) hf hn
    rw [List.foldl_cons, hc,
      ih { st with tmpStr := st.tmpStr ++ [c] } (fun b hb => ha b (List.mem_cons_of_mem _ hb))
        hf hn]
    simp

/-- A non-digit in the second argument is an error. -/
theorem foldl_scanByte_reject (b : List UInt8) (st : Scan) (hb : b.all isDigit ≠ true)
    (hs : ∀ c ∈ b, Squeezed c) (hf : st.i2cRet ≠ .chF) (hn : st.needFlags = 4) :
    (b.foldl scanByte st).i2cRet = .chF := by
  induction b generalizing st with
  | nil => exact absurd rfl hb
  | cons c b ih =>
    have hs' : ∀ x ∈ b, Squeezed x := fun x hx => hs x (List.mem_cons_of_mem _ hx)
    rw [List.foldl_cons]
    by_cases hc : isDigit c = true
    · rw [scanByte_digit hc hf (Or.inr hn)]
      exact ih _ (by simpa [hc] using hb) hs' hf hn
    · rw [scanByte_reject (hs c List.mem_cons_self) hc hf (Or.inr hn), foldl_scanByte_chF b rfl]

/-- The three shapes of the argument part. -/
theorem argsOf_cases (s : List UInt8) :
    (argsOf s = some (.one s) ∧ ∀ c ∈ s, isDigit c = true) ∨
    (∃ a b, s = a ++ ','.toUInt8 :: b ∧ argsOf s = some (.two a b) ∧
      (∀ c ∈ a, isDigit c = true) ∧ b.all isDigit = true) ∨
    (∃ a c b, s = a ++ c :: b ∧ argsOf s = none ∧ (∀ x ∈ a, isDigit x = true) ∧
      isDigit c ≠ true ∧ (c = ','.toUInt8 → b.all isDigit ≠ true)) := by
  have hsplit : s.takeWhile isDigit ++ s.dropWhile isDigit = s := List.takeWhile_append_dropWhile
  have htake : ∀ c ∈ s.takeWhile isDigit, isDigit c = true :=
    fun c hc => (List.all_eq_true.mp List.all_takeWhile) c hc
  cases hdrop : s.dropWhile isDigit with
  | nil =>
    rw [hdrop, List.append_nil] at hsplit
    exact Or.inl ⟨by simp [argsOf, hdrop], hsplit ▸ htake⟩
  | cons c b =>
    rw [hdrop] at hsplit
    have hc : isDigit c ≠ true := by
      have := List.head?_dropWhile_not isDigit s
      rw [hdrop] at this
      simpa using this
    by_cases hok : c = ','.toUInt8 ∧ b.all isDigit = true
    · obtain ⟨rfl, hb⟩ := hok
      refine Or.inr (Or.inl ⟨_, b, hsplit.symm, ?_, htake, hb⟩)
      simp [argsOf, hdrop, hb]
    · refine Or.inr (Or.inr ⟨_, c, b, hsplit.symm, ?_, htake, hc, fun h hb => hok ⟨h, hb⟩⟩)
      simp only [argsOf, hdrop]
      exact if_neg hok

/-- The argument part, scanned after the three letters. -/
theorem foldl_scanByte_args {s : List UInt8} (hs : ∀ c ∈ s, Squeezed c)
    (k : Method) (d : SDevice) (t : SType) :
    (∀ a, argsOf s = some a →
      s.foldl scanByte (Scan.letters k d t 3) = (Scan.letters k d t 3).withArgs a) ∧
    (argsOf s = none → (s.foldl scanByte (Scan.letters k d t 3)).i2cRet = .chF) := by
  have hf : (Scan.letters k d t 3).i2cRet ≠ .chF := k.ret_ne_chF
  -- the digits up to the first other byte
  have hdigits : ∀ a : List UInt8, (∀ c ∈ a, isDigit c = true) →
      a.foldl scanByte (Scan.letters k d t 3) = (Scan.letters k d t 3).withArgs (.one a) := by
    intro a ha
    rw [foldl_scanByte_digits a _ ha hf (Or.inl rfl)]
    rfl
  have hf1 : ∀ a, ((Scan.letters k d t 3).withArgs (.one a)).i2cRet ≠ .chF :=
    fun _ => k.ret_ne_chF
  rcases argsOf_cases s with ⟨hargs, ha⟩ | ⟨a, b, rfl, hargs, ha, hb⟩ |
      ⟨a, c, b, rfl, hargs, ha, hc, hb⟩
  · refine ⟨fun x hx => ?_, fun hx => ?_⟩
    · obtain rfl : Args.one s = x := Option.some.inj (hargs.symm.trans hx)
      exact hdigits s ha
    · rw [hargs] at hx
      cases hx
  · refine ⟨fun x hx => ?_, fun hx => ?_⟩
    · obtain rfl : Args.two a b = x := Option.some.inj (hargs.symm.trans hx)
      rw [List.foldl_append, hdigits a ha, List.foldl_cons, scanByte_comma (hf1 a) rfl,
        foldl_scanByte_digits b _ (List.all_eq_true.mp hb) k.ret_ne_chF (Or.inr rfl)]
      simp [Scan.withArgs]
    · rw [hargs] at hx
      cases hx
  · refine ⟨fun x hx => ?_, fun _ => ?_⟩
    · rw [hargs] at hx
      cases hx
    · have hsc : Squeezed c := hs c (by simp)
      have hsb : ∀ x ∈ b, Squeezed x := fun x hx => hs x (by simp [hx])
      rw [List.foldl_append, hdigits a ha, List.foldl_cons]
      by_cases hcomma : c = ','.toUInt8
      · subst hcomma
        rw [scanByte_comma (hf1 a) rfl]
        exact foldl_scanByte_reject b _ (hb rfl) hsb k.ret_ne_chF rfl
      · rw [scanByte_reject hsc hc (hf1 a) (Or.inl ⟨rfl, hcomma⟩), foldl_scanByte_chF b rfl]

/-- The three letters, scanned from the start: either all three are known and the
scanner is at the arguments, or the message is rejected. -/
theorem foldl_scanByte_letters {c0 c1 c2 : UInt8} (s : List UInt8)
    (h0 : Squeezed c0) (h1 : Squeezed c1) (h2 : Squeezed c2) (d0 : SDevice) (t0 : SType) :
    (∃ k d t, methodOf c0 = some k ∧ deviceOf c1 = some d ∧ typeOf c2 = some t ∧
      (c0 :: c1 :: c2 :: s).foldl scanByte (Scan.start d0 t0) =
        s.foldl scanByte (Scan.letters k d t 3)) ∨
    ((methodOf c0 = none ∨ deviceOf c1 = none ∨ typeOf c2 = none) ∧
      ((c0 :: c1 :: c2 :: s).foldl scanByte (Scan.start d0 t0)).i2cRet = .chF) := by
  have hm := scanByte_method h0 d0 t0
  cases hk : methodOf c0 with
  | none =>
    have hF := hm.2 hk
    -- once there is an error marker, it stays
    refine Or.inr ⟨Or.inl rfl, ?_⟩
    rw [List.foldl_cons, foldl_scanByte_chF _ hF, hF]
  | some k =>
    have hdev := scanByte_device h1 k d0 t0
    rw [List.foldl_cons, hm.1 k hk]
    cases hd : deviceOf c1 with
    | none =>
      have hF := hdev.2 hd
      refine Or.inr ⟨Or.inr (Or.inl rfl), ?_⟩
      rw [List.foldl_cons, foldl_scanByte_chF _ hF, hF]
    | some d =>
      have htype := scanByte_type h2 k d t0
      rw [List.foldl_cons, hdev.1 d hd]
      cases ht : typeOf c2 with
      | none =>
        have hF := htype.2 ht
        refine Or.inr ⟨Or.inr (Or.inr rfl), ?_⟩
        rw [List.foldl_cons, foldl_scanByte_chF _ hF, hF]
      | some t =>
        refine Or.inl ⟨k, d, t, rfl, rfl, rfl, ?_⟩
        rw [List.foldl_cons, htype.1 t ht]

/-- **The scanner implements the grammar.** Either the three letters and the
arguments are those of the message, or the message does not parse and the scanner
holds the error marker or stopped before the arguments. -/
theorem scan_cases (m : List UInt8) (d0 : SDevice) (t0 : SType) :
    (∃ k d t a, parse m = Request.of k d t a ∧
      m.foldl scanByte (Scan.start d0 t0) = (Scan.letters k d t 3).withArgs a) ∨
    (parse m = none ∧
      ((m.foldl scanByte (Scan.start d0 t0)).i2cRet = .chF ∨
        (m.foldl scanByte (Scan.start d0 t0)).needFlags < 3)) := by
  rw [foldl_scanByte_squeeze]
  have hsq : ∀ c ∈ squeeze m, Squeezed c := fun c hc => squeezed_of_mem hc
  unfold parse
  -- with less than three letters the scanner does not get to the arguments
  match squeeze m, hsq with
  | [], _ => exact Or.inr ⟨rfl, Or.inr (by simp)⟩
  | [c0], hsq =>
    refine Or.inr ⟨rfl, ?_⟩
    have hm := scanByte_method (hsq c0 (by simp)) d0 t0
    cases hk : methodOf c0 with
    | none => exact Or.inl (hm.2 hk)
    | some k =>
      right
      show (scanByte (Scan.start d0 t0) c0).needFlags < 3
      rw [hm.1 k hk, Scan.letters_needFlags]
      omega
  | [c0, c1], hsq =>
    refine Or.inr ⟨rfl, ?_⟩
    have hm := scanByte_method (hsq c0 (by simp)) d0 t0
    cases hk : methodOf c0 with
    | none =>
      left
      rw [List.foldl_cons, foldl_scanByte_chF _ (hm.2 hk), hm.2 hk]
    | some k =>
      rw [List.foldl_cons, hm.1 k hk]
      have hdev := scanByte_device (hsq c1 (by simp)) k d0 t0
      cases hd : deviceOf c1 with
      | none => exact Or.inl (hdev.2 hd)
      | some d =>
        right
        show (scanByte (Scan.letters k d0 t0 1) c1).needFlags < 3
        rw [hdev.1 d hd, Scan.letters_needFlags]
        omega
  | c0 :: c1 :: c2 :: s, hsq =>
    have hs : ∀ c ∈ s, Squeezed c := fun c hc => hsq c (by simp [hc])
    rcases foldl_scanByte_letters s (hsq c0 (by simp)) (hsq c1 (by simp)) (hsq c2 (by simp)) d0 t0
      with ⟨k, d, t, hk, hd, ht, hfold⟩ | ⟨hnone, hF⟩
    · -- all letters are known; the rest are the arguments
      have hargs := foldl_scanByte_args hs k d t
      rw [hfold]
      cases ha : argsOf s with
      | none =>
        refine Or.inr ⟨?_, Or.inl (hargs.2 ha)⟩
        simp [hk, hd, ht, ha]
      | some a =>
        refine Or.inl ⟨k, d, t, a, ?_, hargs.1 a ha⟩
        simp [hk, hd, ht, ha]
    · refine Or.inr ⟨?_, Or.inl hF⟩
      rcases hnone with h | h | h <;> simp [h]

end ProjZ
