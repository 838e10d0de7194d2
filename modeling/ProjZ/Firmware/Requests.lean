import ProjZ.Firmware.Grammar

/-!
# What the firmware does with a request

The spec lemmas of `receiveI2c`, one per outcome of `parse`: `receiveI2c_get`,
`receiveI2c_set`, `receiveI2c_setXY`, `receiveI2c_none`. They mention neither the
scanner nor what `device`, `type`, `get_bytes_c` and `i2c_ret` were before.

`verdict` is the answer a message gets, a function of the message alone:
rejected, an accepted set, or an accepted get of a register.
-/

namespace ProjZ

namespace Firmware

/-- The state in which `receiveI2c` enters its shape checks. -/
def addressing (ret : I2cRet) (d : SDevice) (t : SType) (fw : Firmware) : Firmware :=
  { fw with i2cRet := ret, device := d, type := t }

@[simp] theorem addressing_regs (ret : I2cRet) (d : SDevice) (t : SType) (fw : Firmware) :
    (fw.addressing ret d t).regs = fw.regs := rfl

/-- One-argument gets of an existing register set up its reply. -/
theorem executeOne_get (v : Int) (r : Reg) (fw : Firmware) :
    (fw.addressing .chG r.device r.type).executeOne v =
      { fw.addressing .chG r.device r.type with getBytesC := r.width } := by
  cases r <;> rfl

/-- One-argument sets of an existing register are range-checked and written. -/
theorem executeOne_set (v : Int) (r : Reg) (fw : Firmware) :
    (fw.addressing .chS r.device r.type).executeOne v =
      if r.Admits v then r.write v (fw.addressing .chS r.device r.type)
      else fw.addressing .chF r.device r.type := by
  cases r <;> simp [executeOne, addressing, fail, Reg.device, Reg.type, Reg.Admits, Reg.write]

/-- No one-argument command addresses a missing register. -/
theorem executeOne_none (v : Int) (k : Method) {d : SDevice} {t : SType}
    (h : Reg.of d t = none) (fw : Firmware) :
    (fw.addressing k.ret d t).executeOne v = fw.addressing .chF d t := by
  cases d <;> cases t <;> simp only [Reg.of, reduceCtorEq] at h <;> rfl

/-- Two arguments only fit the two-axis servo set. -/
theorem executeTwo_none (x y : Int) (k : Method) {d : SDevice} {t : SType}
    (h : ¬ (k = .set ∧ d = .servo ∧ t = .pwm)) (fw : Firmware) :
    (fw.addressing k.ret d t).executeTwo x y = fw.addressing .chF d t := by
  have hcond : ¬ (d = .servo ∧ t = .pwm ∧ k.ret = .chS) := by
    rintro ⟨hd, ht, hk⟩
    refine h ⟨?_, hd, ht⟩
    cases k with
    | get => cases hk
    | set => rfl
  exact if_neg hcond

/-- One axis of the two-axis servo set. -/
def applyAxis (r : Reg) (v : Int) (fw : Firmware) : Firmware :=
  if pulseOk v then r.write v fw else if v ≠ -1 then fw.fail else fw

theorem executeTwo_setXY (x y : Int) (fw : Firmware) :
    (fw.addressing .chS .servo .pwm).executeTwo x y =
      ((fw.addressing .chS .servo .pwm).applyAxis .servoPwmX x).applyAxis .servoPwmY y :=
  if_pos ⟨rfl, rfl, rfl⟩

/-- The shape checks on scanned arguments. -/
def executeArgs (fw : Firmware) : Args → Firmware
  | .one a => fw.executeOne (int16 (toInt a))
  | .two a b => fw.executeTwo (int16 (toInt a)) (int16 (toInt b))

end Firmware

/-! ## The spec lemmas -/

theorem execute_withArgs (k : Method) (d : SDevice) (t : SType) (a : Args) (fw : Firmware) :
    fw.execute ((Scan.letters k d t 3).withArgs a) = fw.executeArgs a := by
  cases a with
  | one a =>
    have hst : ((Scan.letters k d t 3).withArgs (.one a)).storeTmp =
        { Scan.letters k d t 3 with valTmp0 := int16 (toInt a), tmpStr := a } := by
      simp only [Scan.storeTmp, Scan.withArgs, Scan.letters, Scan.start]
    simp only [Firmware.execute, hst, Scan.letters_needFlags, if_true, Firmware.executeArgs]
  | two a b =>
    have hst : ((Scan.letters k d t 3).withArgs (.two a b)).storeTmp =
        { Scan.letters k d t 3 with
          valTmp0 := int16 (toInt a)
          valTmp1 := int16 (toInt b)
          needFlags := 4
          valTmpPtr := .valTmp1
          tmpStr := b } := by
      simp only [Scan.storeTmp, Scan.withArgs]
    simp [Firmware.execute, hst, Firmware.executeArgs]

/-- `receiveI2c` on a message of known shape. -/
theorem receiveI2c_withArgs {m : List UInt8} {fw : Firmware} {k : Method} {d : SDevice}
    {t : SType} {a : Args}
    (h : m.foldl scanByte (Scan.start fw.device fw.type) = (Scan.letters k d t 3).withArgs a) :
    receiveI2c m fw = (fw.addressing k.ret d t).executeArgs a := by
  have hlet : ((Scan.letters k d t 3).withArgs a).i2cRet = k.ret ∧
      ((Scan.letters k d t 3).withArgs a).device = d ∧
      ((Scan.letters k d t 3).withArgs a).type = t := by
    cases a <;> exact ⟨rfl, rfl, rfl⟩
  simp only [receiveI2c, h, hlet.1, hlet.2.1, hlet.2.2, if_neg k.ret_ne_chF]
  exact execute_withArgs k d t a _

/-- A message that does not parse is answered by the error marker; only `device`
and `type` may change. -/
theorem receiveI2c_none {m : List UInt8} (h : parse m = none) (fw : Firmware) :
    ∃ d t, receiveI2c m fw = fw.addressing .chF d t := by
  rcases scan_cases m fw.device fw.type with ⟨k, d, t, a, hp, hfold⟩ | ⟨-, hst⟩
  · -- the shape is right, but no register is addressed
    refine ⟨d, t, ?_⟩
    rw [h] at hp
    rw [receiveI2c_withArgs hfold]
    cases a with
    | one a =>
      have hof : Reg.of d t = none := by
        cases k <;> simpa [Request.of] using hp.symm
      exact Firmware.executeOne_none _ k hof fw
    | two a b =>
      refine Firmware.executeTwo_none _ _ k ?_ fw
      rintro ⟨rfl, rfl, rfl⟩
      cases hp
  · refine ⟨(m.foldl scanByte (Scan.start fw.device fw.type)).device,
      (m.foldl scanByte (Scan.start fw.device fw.type)).type, ?_⟩
    unfold receiveI2c
    -- a byte was rejected, or the message ended before its three letters
    by_cases hF : (m.foldl scanByte (Scan.start fw.device fw.type)).i2cRet = .chF
    · simp only [hF, if_true]
      rfl
    · have hlt := hst.resolve_left hF
      simp only [if_neg hF, Firmware.execute, Scan.storeTmp_needFlags]
      rw [if_neg (by omega), if_neg (by omega)]
      rfl

/-- An accepted get touches nothing but the reply state. -/
theorem receiveI2c_get {m : List UInt8} {r : Reg} (h : parse m = some (.get r))
    (fw : Firmware) :
    receiveI2c m fw =
      { fw.addressing .chG r.device r.type with getBytesC := r.width } := by
  rcases scan_cases m fw.device fw.type with ⟨k, d, t, a, hp, hfold⟩ | ⟨hp, -⟩
  · rw [h] at hp
    rw [receiveI2c_withArgs hfold]
    cases k with
    | get =>
      cases a with
      | one a =>
        have hof : Reg.of d t = some r := by
          simpa [Request.of] using hp.symm
        obtain ⟨rfl, rfl⟩ := Reg.of_eq_some.mp hof
        exact Firmware.executeOne_get _ r fw
      | two a b => cases d <;> cases t <;> cases hp
    | set =>
      cases a with
      | one a => simp [Request.of] at hp
      | two a b => cases d <;> cases t <;> cases hp
  · rw [h] at hp
    cases hp

/-- A set of one register writes it when the value is admitted. -/
theorem receiveI2c_set {m : List UInt8} {r : Reg} {v : Int} (h : parse m = some (.set r v))
    (fw : Firmware) :
    receiveI2c m fw =
      if r.Admits v then r.write v (fw.addressing .chS r.device r.type)
      else fw.addressing .chF r.device r.type := by
  rcases scan_cases m fw.device fw.type with ⟨k, d, t, a, hp, hfold⟩ | ⟨hp, -⟩
  · rw [h] at hp
    rw [receiveI2c_withArgs hfold]
    cases k with
    | get =>
      cases a with
      | one a => simp [Request.of] at hp
      | two a b => cases d <;> cases t <;> cases hp
    | set =>
      cases a with
      | one a =>
        obtain ⟨hof, rfl⟩ : Reg.of d t = some r ∧ int16 (toInt a) = v := by
          cases hof : Reg.of d t with
          | none => simp [Request.of, hof] at hp
          | some r' =>
            simp only [Request.of, hof, Option.map_some, Option.some.injEq,
              Request.set.injEq] at hp
            exact ⟨by rw [hp.1], hp.2.symm⟩
        obtain ⟨rfl, rfl⟩ := Reg.of_eq_some.mp hof
        exact Firmware.executeOne_set _ r fw
      | two a b => cases d <;> cases t <;> cases hp
  · rw [h] at hp
    cases hp

/-- A two-axis servo set checks and applies its arguments one after the other. -/
theorem receiveI2c_setXY {m : List UInt8} {x y : Int} (h : parse m = some (.setXY x y))
    (fw : Firmware) :
    receiveI2c m fw =
      ((fw.addressing .chS .servo .pwm).applyAxis .servoPwmX x).applyAxis .servoPwmY y := by
  rcases scan_cases m fw.device fw.type with ⟨k, d, t, a, hp, hfold⟩ | ⟨hp, -⟩
  · rw [h] at hp
    rw [receiveI2c_withArgs hfold]
    cases k with
    | get =>
      cases a with
      | one a => simp [Request.of] at hp
      | two a b => cases d <;> cases t <;> cases hp
    | set =>
      cases a with
      | one a => simp [Request.of] at hp
      | two a b =>
        cases d <;> cases t <;> simp only [Request.of, reduceCtorEq, Option.some.injEq,
          Request.setXY.injEq] at hp
        rw [hp.1, hp.2]
        exact Firmware.executeTwo_setXY _ _ fw
  · rw [h] at hp
    cases hp

/-! ## Registers under requests -/

/-- Every register holds a value a set command could have given it. -/
def Regs.InRange (regs : Regs) : Prop := ∀ r : Reg, r.Admits (r.value regs)

theorem Regs.inRange_init : Regs.InRange {} := by
  intro r
  cases r <;> decide

/-- A register update on the registers alone. -/
def Reg.store (r : Reg) (v : Int) (regs : Regs) : Regs :=
  match r with
  | .ledEn => { regs with ledEn := v }
  | .ledPwm => { regs with ledPwm := v }
  | .servoEn => { regs with servoEn := v }
  | .servoPwmX => { regs with servoPwmX := v }
  | .servoPwmY => { regs with servoPwmY := v }

theorem Reg.value_store (r q : Reg) (v : Int) (regs : Regs) :
    q.value (r.store v regs) = if q = r then v else q.value regs := by
  cases r <;> cases q <;> rfl

theorem Regs.InRange.store {regs : Regs} (h : regs.InRange) {r : Reg} {v : Int}
    (hv : r.Admits v) : (r.store v regs).InRange := by
  intro q
  rw [Reg.value_store]
  split
  · next hq => exact hq ▸ hv
  · exact h q

@[simp] theorem Reg.write_regs (r : Reg) (v : Int) (fw : Firmware) :
    (r.write v fw).regs = r.store v fw.regs := by
  cases r <;> rfl

@[simp] theorem Reg.write_i2cRet (r : Reg) (v : Int) (fw : Firmware) :
    (r.write v fw).i2cRet = fw.i2cRet := by
  cases r <;> rfl

/-- The register a request for one axis leaves: an argument out of range is skipped. -/
def Reg.storeAxis (r : Reg) (v : Int) (regs : Regs) : Regs :=
  if pulseOk v then r.store v regs else regs

/-- The registers after a request. The axes of a two-axis set are stored one by one:
an argument out of range does not keep the other one from being stored. -/
def Request.effect : Request → Regs → Regs
  | .get _, regs => regs
  | .set r v, regs => if r.Admits v then r.store v regs else regs
  | .setXY x y, regs => Reg.servoPwmY.storeAxis y (Reg.servoPwmX.storeAxis x regs)

theorem Regs.InRange.storeAxis {regs : Regs} (h : regs.InRange) {r : Reg}
    (hr : r.Admits = pulseOk) (v : Int) : (r.storeAxis v regs).InRange := by
  unfold Reg.storeAxis
  split
  · next hv => exact h.store (by rwa [hr])
  · exact h

theorem Regs.InRange.effect {regs : Regs} (h : regs.InRange) (q : Request) :
    (q.effect regs).InRange := by
  cases q with
  | get r => exact h
  | set r v =>
    by_cases hv : r.Admits v
    · simpa only [Request.effect, if_pos hv] using h.store hv
    · simpa only [Request.effect, if_neg hv] using h
  | setXY x y => exact (h.storeAxis rfl x).storeAxis rfl y

/-- The firmware's own check of the arguments. -/
def Request.Accepted : Request → Prop
  | .get _ => True
  | .set r v => r.Admits v
  | .setXY x y => (pulseOk x ∨ x = -1) ∧ (pulseOk y ∨ y = -1)

instance (q : Request) : Decidable q.Accepted := by
  cases q <;> unfold Request.Accepted <;> infer_instance

namespace Firmware

@[simp] theorem applyAxis_regs (r : Reg) (v : Int) (fw : Firmware) :
    (fw.applyAxis r v).regs = r.storeAxis v fw.regs := by
  unfold applyAxis Reg.storeAxis
  by_cases hv : pulseOk v
  · rw [if_pos hv, if_pos hv, Reg.write_regs]
  · rw [if_neg hv, if_neg hv]
    split <;> rfl

theorem applyAxis_i2cRet (r : Reg) (v : Int) (fw : Firmware) :
    (fw.applyAxis r v).i2cRet = if pulseOk v ∨ v = -1 then fw.i2cRet else .chF := by
  unfold applyAxis
  by_cases hv : pulseOk v
  · rw [if_pos hv, if_pos (Or.inl hv), Reg.write_i2cRet]
  · by_cases hm : v = -1
    · rw [if_neg hv, if_neg (fun h => h hm), if_pos (Or.inr hm)]
    · rw [if_neg hv, if_pos hm, if_neg (fun h => h.elim hv hm)]
      rfl

theorem applyAxes_i2cRet (x y : Int) (fw : Firmware) :
    ((fw.applyAxis .servoPwmX x).applyAxis .servoPwmY y).i2cRet =
      if (Request.setXY x y).Accepted then fw.i2cRet else .chF := by
  rw [applyAxis_i2cRet, applyAxis_i2cRet]
  unfold Request.Accepted
  by_cases hx : pulseOk x ∨ x = -1 <;> by_cases hy : pulseOk y ∨ y = -1 <;> simp [hx, hy]

end Firmware

/-! ## Verdicts -/

/-- The answer a message gets. -/
inductive Verdict where
  | rejected
  | set
  | get (r : Reg)
deriving DecidableEq, Repr

/-- What `i2c_ret` is after a message. -/
def Verdict.marker : Verdict → I2cRet
  | .rejected => .chF
  | .set => .chS
  | .get _ => .chG

theorem Verdict.marker_eq_chG {v : Verdict} : v.marker = .chG ↔ ∃ r, v = .get r := by
  cases v with
  | get r => exact iff_of_true rfl ⟨r, rfl⟩
  | rejected | set => exact iff_of_false (by rintro ⟨⟩) (by rintro ⟨r, ⟨⟩⟩)

theorem Verdict.marker_eq_chS {v : Verdict} : v.marker = .chS ↔ v = .set := by
  cases v with
  | set => exact iff_of_true rfl rfl
  | rejected | get _ => exact iff_of_false (by rintro ⟨⟩) (by rintro ⟨⟩)

/-- The verdict on a message: a function of its bytes alone. -/
def verdict (m : List UInt8) : Verdict :=
  match parse m with
  | none => .rejected
  | some (.get r) => .get r
  | some q => if q.Accepted then .set else .rejected

/-- A get verdict comes from a get request. -/
theorem verdict_eq_get {m : List UInt8} {r : Reg} :
    verdict m = .get r ↔ parse m = some (.get r) := by
  unfold verdict
  match parse m with
  | none => simp
  | some (.get q) => simp
  | some (.set q v) => by_cases hv : (Request.set q v).Accepted <;> simp [hv]
  | some (.setXY x y) => by_cases hv : (Request.setXY x y).Accepted <;> simp [hv]

/-- A set verdict comes from an accepted set request. -/
theorem verdict_eq_set {m : List UInt8} :
    verdict m = .set ↔ ∃ q, parse m = some q ∧ q.method = .set ∧ q.Accepted := by
  unfold verdict
  match parse m with
  | none => simp
  | some (.get q) => simp [Request.method]
  | some (.set q v) => by_cases hv : (Request.set q v).Accepted <;> simp [hv, Request.method]
  | some (.setXY x y) => by_cases hv : (Request.setXY x y).Accepted <;> simp [hv, Request.method]

/-- The registers after a message. -/
def effect (m : List UInt8) (regs : Regs) : Regs :=
  match parse m with
  | none => regs
  | some q => q.effect regs

/-- Gets change nothing. -/
theorem effect_of_get {m : List UInt8} {r : Reg} (h : verdict m = .get r) (regs : Regs) :
    effect m regs = regs := by
  unfold effect
  rw [verdict_eq_get.mp h]
  rfl

/-- An admitted set stores its value. -/
theorem effect_of_set {m : List UInt8} {r : Reg} {v : Int} (h : parse m = some (.set r v))
    (hv : r.Admits v) (regs : Regs) : effect m regs = r.store v regs := by
  unfold effect
  rw [h]
  exact if_pos hv

theorem Regs.InRange.message {regs : Regs} (h : regs.InRange) (m : List UInt8) :
    (ProjZ.effect m regs).InRange := by
  unfold ProjZ.effect
  split
  · exact h
  · exact h.effect _

/-- `receiveI2c` changes the registers as `effect` says. -/
theorem receiveI2c_regs (m : List UInt8) (fw : Firmware) :
    (receiveI2c m fw).regs = effect m fw.regs := by
  unfold effect
  match h : parse m with
  | none =>
    obtain ⟨d, t, hrec⟩ := receiveI2c_none h fw
    rw [hrec]
    rfl
  | some (.get r) =>
    rw [receiveI2c_get h]
    rfl
  | some (.set r v) =>
    rw [receiveI2c_set h]
    by_cases hv : r.Admits v
    · simp [Request.effect, hv]
    · simp [Request.effect, hv]
  | some (.setXY x y) =>
    rw [receiveI2c_setXY h, Firmware.applyAxis_regs, Firmware.applyAxis_regs]
    rfl

/-- `receiveI2c` ends with the reply marker of the verdict. -/
theorem receiveI2c_i2cRet (m : List UInt8) (fw : Firmware) :
    (receiveI2c m fw).i2cRet = (verdict m).marker := by
  unfold verdict
  match h : parse m with
  | none =>
    obtain ⟨d, t, hrec⟩ := receiveI2c_none h fw
    rw [hrec]
    rfl
  | some (.get r) =>
    rw [receiveI2c_get h]
    rfl
  | some (.set r v) =>
    rw [receiveI2c_set h]
    by_cases hv : r.Admits v
    · simp [Request.Accepted, hv, Firmware.addressing, Verdict.marker]
    · simp [Request.Accepted, hv, Firmware.addressing, Verdict.marker]
  | some (.setXY x y) =>
    rw [receiveI2c_setXY h, Firmware.applyAxes_i2cRet]
    by_cases hq : (Request.setXY x y).Accepted
    · simp [hq, Firmware.addressing, Verdict.marker]
    · simp [hq, Verdict.marker]

end ProjZ
