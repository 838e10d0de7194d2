import ProjZ.Firmware.Language
import ProjZ.Firmware.Mirror

/-!
# What the argument checks let through

A digit string reaches a range check through `String::toInt`, a 32-bit `long`, and an
assignment to a 16-bit `int`: what is checked is its value modulo 65536
(`int16_toInt`), with 0 for the empty string. So a set of one register is accepted by the
residue of its argument (`receiveI2c_i2cRet_set`), and an argument of the two-axis servo
command counts as present when its residue is a pulse width and as omitted when it
is 65535, that is -1 (`receiveI2c_i2cRet_setXY`).

The three main results say for which messages this is what the checks are meant to be,
and when a rejected message has left its trace in a register.
-/

namespace ProjZ

open Ascii Decimal

/-! ## Arguments modulo 65536 -/

/-- Narrowing the `long` drops what the `long` had kept: the value counts modulo 65536. -/
theorem int16_toInt (d : List UInt8) : int16 (toInt d) = (value d : Int).bmod 65536 :=
  Int.bmod_bmod_of_dvd (by decide)

/-- The residue is read back with its sign. -/
theorem bmod_eq (n : Nat) :
    (n : Int).bmod 65536 =
      if n % 65536 < 32768 then ((n % 65536 : Nat) : Int)
      else ((n % 65536 : Nat) : Int) - 65536 := by
  rw [Int.bmod_def]
  split <;> split <;> omega

/-- No register admits a negative number or a number above 9999. -/
theorem Reg.Admits.lt {r : Reg} {v : Int} (h : r.Admits v) : 0 ≤ v ∧ v < 10000 := by
  cases r <;> simp only [Reg.Admits, pulseOk] at h <;> omega

/-- The range check sees the residue. -/
theorem Reg.admits_int16_toInt (r : Reg) (d : List UInt8) :
    r.Admits (int16 (toInt d)) ↔ r.Admits ((Decimal.value d % 65536 : Nat) : Int) := by
  rw [int16_toInt, bmod_eq]
  split
  · exact Iff.rfl
  · next h =>
    -- a residue with the sign bit is out of range on both sides
    constructor
    · intro hadm
      have := hadm.lt
      omega
    · intro hadm
      have := hadm.lt
      omega

/-- Below 65536 the check sees the number itself. -/
theorem Reg.admits_mod {r : Reg} {n : Nat} (h : n < 65536) :
    r.Admits ((n % 65536 : Nat) : Int) ↔ r.Admits (n : Int) := by
  rw [Nat.mod_eq_of_lt h]

/-! ## One argument -/

/-- A set of one register is accepted by the residue of its argument. -/
theorem receiveI2c_i2cRet_set {m : List UInt8} {r : Reg} {d : List UInt8}
    (h : SetText (squeeze m) r d) (fw : Firmware) :
    (receiveI2c m fw).i2cRet = .chS ↔ r.Admits ((value d % 65536 : Nat) : Int) := by
  have hparse := parse_eq_set_iff.mpr ⟨d, h, rfl⟩
  rw [← r.admits_int16_toInt, receiveI2c_set hparse]
  by_cases hadm : r.Admits (int16 (toInt d))
  · rw [if_pos hadm, Reg.write_i2cRet]
    exact iff_of_true rfl hadm
  · rw [if_neg hadm]
    exact iff_of_false (by rintro ⟨⟩) hadm

/-- An accepted set stores its argument as it was checked. -/
theorem receiveI2c_value_set {m : List UInt8} {r : Reg} {d : List UInt8}
    (h : SetText (squeeze m) r d) {fw : Firmware} (hacc : (receiveI2c m fw).i2cRet = .chS) :
    r.value (receiveI2c m fw).regs = (value d : Int).bmod 65536 := by
  have hparse := parse_eq_set_iff.mpr ⟨d, h, rfl⟩
  have hadm := (r.admits_int16_toInt d).mpr ((receiveI2c_i2cRet_set h fw).mp hacc)
  rw [receiveI2c_regs, effect_of_set hparse hadm, Reg.value_store, if_pos rfl, int16_toInt]

/-- A set command with digits `d` is checked by the number they denote: it is accepted when
there is one in the register's range, and the register then holds it. -/
structure CheckedByValue (m : List UInt8) (r : Reg) (d : List UInt8) (fw : Firmware) : Prop where
  accepted : (receiveI2c m fw).i2cRet = .chS ↔ d ≠ [] ∧ r.Admits (value d : Int)
  stored : (receiveI2c m fw).i2cRet = .chS → r.value (receiveI2c m fw).regs = (value d : Int)

/-- **When a numeric argument is checked by its true value**: unless it is empty and the
register admits 0, or it denotes a number from 65536 on whose residue the register
admits. -/
theorem checkedByValue_iff {m : List UInt8} {r : Reg} {d : List UInt8}
    (h : SetText (squeeze m) r d) (fw : Firmware) :
    CheckedByValue m r d fw ↔
      (d ≠ [] ∨ ¬ r.Admits 0) ∧
        ¬ (65536 ≤ value d ∧ r.Admits ((value d % 65536 : Nat) : Int)) := by
  have hret := receiveI2c_i2cRet_set h fw
  constructor
  · rintro ⟨hiff, -⟩
    rw [hret] at hiff
    constructor
    · by_contra hnot
      obtain ⟨hd, h0⟩ := not_or.mp hnot
      rw [not_not] at hd h0
      -- the empty argument is taken for 0
      subst hd
      exact (hiff.mp h0).1 rfl
    · rintro ⟨hbig, hadm⟩
      -- no register admits as much as 65536
      have hlt := (hiff.mp hadm).2.lt
      omega
  · rintro ⟨hempty, hbig⟩
    -- what is left is a number that fits 16 bits
    have hsmall : r.Admits ((value d % 65536 : Nat) : Int) → value d < 65536 := by
      intro hadm
      by_contra hge
      exact hbig ⟨Nat.le_of_not_lt hge, hadm⟩
    constructor
    · rw [hret]
      constructor
      · intro hadm
        have hd : d ≠ [] := by
          rintro rfl
          rcases hempty with hne | h0
          · exact hne rfl
          · exact h0 hadm
        exact ⟨hd, (Reg.admits_mod (hsmall hadm)).mp hadm⟩
      · rintro ⟨-, hadm⟩
        have hlt := hadm.lt
        exact (Reg.admits_mod (by omega)).mpr hadm
    · intro hacc
      have hadm := hret.mp hacc
      have hlt := ((Reg.admits_mod (hsmall hadm)).mp hadm).lt
      rw [receiveI2c_value_set h hacc, bmod_eq, if_pos (by omega), Nat.mod_eq_of_lt (by omega)]

/-- The lamp is switched on. -/
theorem checkedByValue_iff_lamp :
    CheckedByValue (bytes ['s', 'l', 'e', ' ', '1']) .ledEn (bytes ['1']) (setup true true) ↔
      (bytes ['1'] ≠ [] ∨ ¬ Reg.ledEn.Admits 0) ∧
        ¬ (65536 ≤ value (bytes ['1']) ∧
          Reg.ledEn.Admits ((value (bytes ['1']) % 65536 : Nat) : Int)) :=
  checkedByValue_iff ⟨by decide +kernel, by decide +kernel⟩ (setup true true)

/-- `SSX66536` is accepted and sets the pulse width 1000. -/
theorem checkedByValue_alias :
    ¬ ∀ (m : List UInt8) (r : Reg) (d : List UInt8) (fw : Firmware),
      SetText (squeeze m) r d → CheckedByValue m r d fw := by
  intro h
  have htext : SetText (squeeze (bytes ['S', 'S', 'X', '6', '6', '5', '3', '6'])) .servoPwmX
      (bytes ['6', '6', '5', '3', '6']) := ⟨by decide +kernel, by decide +kernel⟩
  have halias := (h _ _ _ (setup true true) htext).accepted.mp (by decide +kernel)
  revert halias
  decide +kernel

/-! ## Two arguments -/

/-- An argument the two-axis command takes for a pulse width or for an omitted one. -/
def Taken (d : List UInt8) : Prop :=
  value d % 65536 = 65535 ∨ pulseOk ((value d % 65536 : Nat) : Int)

theorem taken_iff (d : List UInt8) :
    pulseOk (int16 (toInt d)) ∨ int16 (toInt d) = -1 ↔ Taken d := by
  have hpulse : pulseOk (int16 (toInt d)) ↔ pulseOk ((value d % 65536 : Nat) : Int) :=
    Reg.servoPwmX.admits_int16_toInt d
  have hsentinel : int16 (toInt d) = -1 ↔ value d % 65536 = 65535 := by
    rw [int16_toInt, bmod_eq]
    split <;> omega
  rw [hpulse, hsentinel, or_comm]
  exact Iff.rfl

/-- The empty string is the number 0, which is neither. -/
theorem not_taken_nil : ¬ Taken [] := by
  rintro (h | h)
  · cases h
  · exact absurd h.1 (by decide)

theorem receiveI2c_i2cRet_setXY {m a b : List UInt8} (h : SetXYText (squeeze m) a b)
    (fw : Firmware) :
    ((receiveI2c m fw).i2cRet = .chS ↔ Taken a ∧ Taken b) ∧
      ((receiveI2c m fw).i2cRet = .chF ↔ ¬ (Taken a ∧ Taken b)) := by
  have hparse := parse_eq_setXY_iff.mpr ⟨a, b, h, rfl, rfl⟩
  have hacc : (Request.setXY (int16 (toInt a)) (int16 (toInt b))).Accepted ↔
      Taken a ∧ Taken b := by
    rw [← taken_iff, ← taken_iff]
    exact Iff.rfl
  rw [receiveI2c_setXY hparse, Firmware.applyAxes_i2cRet]
  by_cases hboth : Taken a ∧ Taken b
  · rw [if_pos (hacc.mpr hboth)]
    exact ⟨iff_of_true rfl hboth, iff_of_false (by rintro ⟨⟩) (not_not.mpr hboth)⟩
  · rw [if_neg (fun h' => hboth (hacc.mp h'))]
    exact ⟨iff_of_false (by rintro ⟨⟩) hboth, iff_of_true rfl hboth⟩

/-- How the two-axis command is meant to read its arguments: an omitted axis is left alone,
and an argument that is there is a pulse width or the message is rejected. -/
structure AxesAsMeant (m a b : List UInt8) (fw : Firmware) : Prop where
  onlyX : b = [] → pulseOk (value a : Int) →
    (receiveI2c m fw).regs.servoPwmX = (value a : Int) ∧
      (receiveI2c m fw).regs.servoPwmY = fw.regs.servoPwmY ∧ (receiveI2c m fw).i2cRet = .chS
  onlyY : a = [] → pulseOk (value b : Int) →
    (receiveI2c m fw).regs.servoPwmY = (value b : Int) ∧
      (receiveI2c m fw).regs.servoPwmX = fw.regs.servoPwmX ∧ (receiveI2c m fw).i2cRet = .chS
  both : a ≠ [] → b ≠ [] → ¬ (pulseOk (value a : Int) ∧ pulseOk (value b : Int)) →
    (receiveI2c m fw).i2cRet = .chF

/-- **When the two-axis command reads its arguments as meant.** An axis is never omitted with
success: the empty argument is the number 0. With both arguments there, one that is no
pulse width is noticed unless the residues of both are taken for pulse widths or for the
sentinel. -/
theorem axesAsMeant_iff {m a b : List UInt8} (h : SetXYText (squeeze m) a b) (fw : Firmware) :
    AxesAsMeant m a b fw ↔
      ¬ (b = [] ∧ pulseOk (value a : Int)) ∧ ¬ (a = [] ∧ pulseOk (value b : Int)) ∧
        ¬ (a ≠ [] ∧ b ≠ [] ∧ ¬ (pulseOk (value a : Int) ∧ pulseOk (value b : Int)) ∧
          Taken a ∧ Taken b) := by
  obtain ⟨hS, hF⟩ := receiveI2c_i2cRet_setXY h fw
  constructor
  · rintro ⟨hx, hy, hboth⟩
    refine ⟨?_, ?_, ?_⟩
    · rintro ⟨rfl, hpulse⟩
      exact not_taken_nil (hS.mp (hx rfl hpulse).2.2).2
    · rintro ⟨rfl, hpulse⟩
      exact not_taken_nil (hS.mp (hy rfl hpulse).2.2).1
    · rintro ⟨ha, hb, hout, htaken⟩
      exact hF.mp (hboth ha hb hout) htaken
  · rintro ⟨hx, hy, hboth⟩
    refine ⟨?_, ?_, ?_⟩
    · intro hb hpulse
      exact absurd ⟨hb, hpulse⟩ hx
    · intro ha hpulse
      exact absurd ⟨ha, hpulse⟩ hy
    · intro ha hb hout
      refine hF.mpr ?_
      intro htaken
      exact hboth ⟨ha, hb, hout, htaken⟩

/-- Both arguments are there and one is far out of range. -/
theorem axesAsMeant_iff_out :
    AxesAsMeant (bytes ['S', 'S', 'P', '9', '9', '9', '9', ',', '7', '0', '0'])
        (bytes ['9', '9', '9', '9']) (bytes ['7', '0', '0']) (setup true true) ↔
      ¬ (bytes ['7', '0', '0'] = [] ∧ pulseOk (value (bytes ['9', '9', '9', '9']) : Int)) ∧
        ¬ (bytes ['9', '9', '9', '9'] = [] ∧ pulseOk (value (bytes ['7', '0', '0']) : Int)) ∧
        ¬ (bytes ['9', '9', '9', '9'] ≠ [] ∧ bytes ['7', '0', '0'] ≠ [] ∧
          ¬ (pulseOk (value (bytes ['9', '9', '9', '9']) : Int) ∧
            pulseOk (value (bytes ['7', '0', '0']) : Int)) ∧
          Taken (bytes ['9', '9', '9', '9']) ∧ Taken (bytes ['7', '0', '0'])) :=
  axesAsMeant_iff ⟨by decide +kernel, by decide +kernel, by decide +kernel⟩ (setup true true)

/-- `SSP1000,` is rejected. -/
theorem axesAsMeant_omitted :
    ¬ ∀ (m a b : List UInt8) (fw : Firmware), SetXYText (squeeze m) a b →
      AxesAsMeant m a b fw := by
  intro h
  have htext : SetXYText (squeeze (bytes ['S', 'S', 'P', '1', '0', '0', '0', ',']))
      (bytes ['1', '0', '0', '0']) [] :=
    ⟨by decide +kernel, by decide +kernel, by decide +kernel⟩
  have hret := ((h _ _ _ (setup true true) htext).onlyX rfl (by decide +kernel)).2.2
  revert hret
  decide +kernel

/-! ## Rejected messages -/

/-- One axis is a pulse width that its register or its output does not have yet, and the
argument of the other axis is neither a pulse width nor omitted. -/
structure HalfSet (r : Reg) (v w : Int) (fw : Firmware) : Prop where
  pulse : pulseOk v
  out : ¬ pulseOk w
  present : w ≠ -1
  new : ¬ (r.value fw.regs = v ∧ r.value fw.panel = v)

/-- The message is a two-axis servo set with one axis to write and one to reject. -/
def HalfApplied (m : List UInt8) (fw : Firmware) : Prop :=
  ∃ x y, parse m = some (.setXY x y) ∧ (HalfSet .servoPwmX x y fw ∨ HalfSet .servoPwmY y x fw)

/-- Storing the axes changes nothing when they are there already. -/
theorem storeAxes_eq_iff (x y : Int) (regs : Regs) :
    Reg.servoPwmY.storeAxis y (Reg.servoPwmX.storeAxis x regs) = regs ↔
      (pulseOk x → Reg.servoPwmX.value regs = x) ∧ (pulseOk y → Reg.servoPwmY.value regs = y) := by
  obtain ⟨ledEn, ledPwm, servoEn, servoPwmX, servoPwmY⟩ := regs
  by_cases hx : pulseOk x <;> by_cases hy : pulseOk y <;>
    simp [Reg.storeAxis, Reg.store, Reg.value, hx, hy, eq_comm]

/-- A rejected message without two axes has no effect. -/
theorem effect_of_rejected {m : List UInt8} (hxy : ∀ x y, parse m ≠ some (.setXY x y))
    {fw : Firmware} (hF : (receiveI2c m fw).i2cRet = .chF) (regs : Regs) :
    effect m regs = regs := by
  unfold effect
  match h : parse m with
  | none => rfl
  | some (.get r) => rfl
  | some (.set r v) =>
    have hv : ¬ r.Admits v := by
      intro hv
      rw [receiveI2c_set h, if_pos hv, Reg.write_i2cRet] at hF
      cases hF
    exact if_neg hv
  | some (.setXY x y) => exact absurd h (hxy x y)

theorem not_halfSet_iff {r : Reg} {v w : Int} {fw : Firmware} :
    ¬ HalfSet r v w fw ↔
      (pulseOk v → ¬ pulseOk w → w ≠ -1 → r.value fw.regs = v ∧ r.value fw.panel = v) := by
  constructor
  · intro h hv hw hm
    by_contra hnew
    exact h ⟨hv, hw, hm, hnew⟩
  · rintro h ⟨hv, hw, hm, hnew⟩
    exact hnew (h hv hw hm)

/-- A rejected two-axis set changes nothing unless it was half applied. -/
theorem setXY_unchanged_iff {m : List UInt8} {x y : Int} (h : parse m = some (.setXY x y))
    (fw : Firmware) :
    ((receiveI2c m fw).i2cRet = .chF →
      (receiveI2c m fw).regs = fw.regs ∧ (receiveI2c m fw).panel = fw.panel) ↔
    ¬ (HalfSet .servoPwmX x y fw ∨ HalfSet .servoPwmY y x fw) := by
  have heffect : ∀ regs, effect m regs =
      Reg.servoPwmY.storeAxis y (Reg.servoPwmX.storeAxis x regs) := by
    intro regs
    unfold effect
    rw [h]
    rfl
  have hF : (receiveI2c m fw).i2cRet = .chF ↔
      ¬ ((pulseOk x ∨ x = -1) ∧ (pulseOk y ∨ y = -1)) := by
    rw [receiveI2c_setXY h, Firmware.applyAxes_i2cRet]
    by_cases hacc : (Request.setXY x y).Accepted
    · rw [if_pos hacc]
      exact iff_of_false (by rintro ⟨⟩) (fun hnot => hnot hacc)
    · rw [if_neg hacc]
      exact iff_of_true rfl hacc
  rw [receiveI2c_regs, receiveI2c_panel, heffect, heffect, storeAxes_eq_iff, storeAxes_eq_iff,
    hF, not_or, not_halfSet_iff, not_halfSet_iff]
  constructor
  · intro h'
    constructor
    · intro hx hy hm
      obtain ⟨hregs, hpanel⟩ := h' fun hacc => hacc.2.elim hy hm
      exact ⟨hregs.1 hx, hpanel.1 hx⟩
    · intro hy hx hm
      obtain ⟨hregs, hpanel⟩ := h' fun hacc => hacc.1.elim hx hm
      exact ⟨hregs.2 hy, hpanel.2 hy⟩
  · rintro ⟨hX, hY⟩ hrej
    -- an axis that is written while the message is rejected has the other one to blame
    have hx := fun hx : pulseOk x =>
      hX hx (fun hy => hrej ⟨Or.inl hx, Or.inl hy⟩) (fun hm => hrej ⟨Or.inl hx, Or.inr hm⟩)
    have hy := fun hy : pulseOk y =>
      hY hy (fun hx => hrej ⟨Or.inl hx, Or.inl hy⟩) (fun hm => hrej ⟨Or.inr hm, Or.inl hy⟩)
    exact ⟨⟨fun h => (hx h).1, fun h => (hy h).1⟩, fun h => (hx h).2, fun h => (hy h).2⟩

/-- **When a rejected command changes nothing**: unless it is a two-axis servo set of which
one axis is written and the other one rejected. -/
theorem rejected_unchanged_iff (m : List UInt8) (fw : Firmware) :
    ((receiveI2c m fw).i2cRet = .chF →
      (receiveI2c m fw).regs = fw.regs ∧ (receiveI2c m fw).panel = fw.panel) ↔
    ¬ HalfApplied m fw := by
  by_cases hxy : ∃ x y, parse m = some (.setXY x y)
  · obtain ⟨x, y, h⟩ := hxy
    rw [setXY_unchanged_iff h]
    constructor
    · rintro hnot ⟨x', y', h', hset⟩
      rw [h] at h'
      cases h'
      exact hnot hset
    · intro hnot hset
      exact hnot ⟨x, y, h, hset⟩
  · have hne : ∀ x y, parse m ≠ some (.setXY x y) := fun x y h => hxy ⟨x, y, h⟩
    refine iff_of_true ?_ ?_
    · intro hF
      rw [receiveI2c_regs, receiveI2c_panel]
      exact ⟨effect_of_rejected hne hF _, effect_of_rejected hne hF _⟩
    · rintro ⟨x, y, h, -⟩
      exact hne x y h

/-- `SSP1000,9999` is rejected and has set the first axis. -/
theorem rejected_changed :
    ¬ ∀ (m : List UInt8) (fw : Firmware), (receiveI2c m fw).i2cRet = .chF →
      (receiveI2c m fw).regs = fw.regs ∧ (receiveI2c m fw).panel = fw.panel := by
  intro h
  have hregs := (h (bytes ['S', 'S', 'P', '1', '0', '0', '0', ',', '9', '9', '9', '9'])
    (setup true true) (by decide +kernel)).1
  revert hregs
  decide +kernel

end ProjZ
