import ProjZ.Firmware.PollingTimer

/-!
# Why the host's power is cut

Runs of `pollingTimer` from `setup`, told by the readings alone. A past lists its
ticks newest first; ticks without the 12 V supply do not count. From the past one
reads off the rising edges of `GPIO_0` (`isEdge`), those not preceded by a reboot
sample (`isShutdown`) and for how many ticks the button has been held
(`pressCount`). The locals of the code are these functions of the past
(`pwrLast_after`, `isReboot_after`, `counter_after`).

`master_en` and `PIN_MASTER_EN` may differ only between a shutdown edge and the
next write of the pin (`shutdown_pending`); that gap is the reason for every power
cut but the long press, and it is also where a short press overwrites a shutdown.
-/

namespace ProjZ

/-! ## Pasts -/

/-- The state after the ticks of a past, newest first. -/
def afterTicks (vIn gpio0 : Bool) (past : List Readings) : Firmware :=
  Runs.run pollingTimer (setup vIn gpio0) past.reverse

/-- The last tick with the supply present. -/
def lastNormal (past : List Readings) : Option Readings := past.find? (·.host12V)

/-- `GPIO_0` goes from low to high: it is high at `r` and was low at the tick before. -/
def isEdge (past : List Readings) (r : Readings) : Bool :=
  r.host12V && r.hostHigh && (lastNormal past).any fun q => !q.hostHigh

/-- An edge whose preceding `GPIO_1` sample does not announce a reboot. -/
def isShutdown (past : List Readings) (r : Readings) : Bool :=
  isEdge past r && (lastNormal past).any fun q => !q.gpio1

/-- A tick that processes the released button. -/
def isRelease (past : List Readings) (r : Readings) : Bool :=
  r.host12V && r.btnPwr && !isEdge past r

/-- The ticks with the button pressed since the last processed release; edges and
ticks without the supply neither count nor interrupt. -/
def pressCount : List Readings → Nat
  | [] => 0
  | r :: past =>
    if r.host12V = false ∨ isEdge past r = true then pressCount past
    else if r.btnPwr then 0
    else pressCount past + 1

theorem lastNormal_cons_of_host12V {r : Readings} (h : r.host12V = true)
    (past : List Readings) : lastNormal (r :: past) = some r := by
  simp [lastNormal, h]

theorem lastNormal_cons_of_not_host12V {r : Readings} (h : r.host12V = false)
    (past : List Readings) : lastNormal (r :: past) = lastNormal past := by
  simp [lastNormal, h]

/-! ## The moves of the power machine -/

namespace Power

/-- The sample does not change what counts as an edge. -/
theorem rising_sample (p : Power) (r : Readings) : (p.sample r).rising r = p.rising r := rfl

theorem step_of_rising {p : Power} {r : Readings} (h : p.rising r = true) :
    p.step r =
      { p with masterEn := p.masterEn && p.isReboot, isReboot := false, pwrLast := true } := by
  have hhigh : r.hostHigh = true := by
    simp only [rising, Bool.and_eq_true] at h
    exact h.1
  have hsample : p.sample r = p := by simp [sample, hhigh]
  simp only [step, act, hsample, if_pos h, hhigh]

theorem step_of_release {p : Power} {r : Readings} (h : p.rising r = false)
    (hrel : r.btnPwr = true) :
    p.step r =
      { (p.sample r).drive
          (p.masterEn || (decide (1 < p.counter) && decide (p.counter < 40))) with
        counter := 0, pwrLast := r.hostHigh } := by
  have h' : ¬ (p.sample r).rising r = true := by
    rw [rising_sample, h]
    decide
  simp only [step, act, if_neg h', if_pos hrel]
  rfl

theorem step_of_held {p : Power} {r : Readings} (h : p.rising r = false)
    (hheld : r.btnPwr = false) :
    p.step r =
      { (if 40 < p.counter + 1 then { (p.sample r).drive false with counter := 40 }
          else { p.sample r with counter := p.counter + 1 }) with
        pwrLast := r.hostHigh } := by
  have h' : ¬ (p.sample r).rising r = true := by
    rw [rising_sample, h]
    decide
  have hheld' : ¬ r.btnPwr = true := by simp [hheld]
  simp only [step, act, if_neg h', if_neg hheld']
  rfl

/-- A confirmed low level of `GPIO_0` stores the reboot sample. -/
theorem step_isReboot {p : Power} {r : Readings} (h : r.hostHigh = false) :
    (p.step r).isReboot = r.gpio1 := by
  have hr : p.rising r = false := by simp [rising, h]
  have hsample : (p.sample r).isReboot = r.gpio1 := by simp [sample, h]
  cases hb : r.btnPwr with
  | true =>
    rw [step_of_release hr hb]
    exact hsample
  | false =>
    rw [step_of_held hr hb]
    split <;> exact hsample

end Power

/-! ## The locals as functions of the past -/

section Past

variable (vIn gpio0 : Bool)

theorem setup_power : (setup vIn gpio0).power = ⟨!gpio0, !gpio0, 1, true, false, 0⟩ := by
  cases vIn <;> cases gpio0 <;> decide

/-- One more tick. -/
theorem power_after_cons (r : Readings) (past : List Readings) :
    (afterTicks vIn gpio0 (r :: past)).power =
      if r.host12V then (afterTicks vIn gpio0 past).power.step r
      else (afterTicks vIn gpio0 past).power := by
  unfold afterTicks
  rw [Runs.run_reverse_cons, pollingTimer_power]

theorem power_after_of_host12V {r : Readings} (h : r.host12V = true) (past : List Readings) :
    (afterTicks vIn gpio0 (r :: past)).power = (afterTicks vIn gpio0 past).power.step r := by
  rw [power_after_cons, if_pos h]

theorem power_after_of_not_host12V {r : Readings} (h : r.host12V = false)
    (past : List Readings) :
    (afterTicks vIn gpio0 (r :: past)).power = (afterTicks vIn gpio0 past).power := by
  rw [power_after_cons, if_neg (by simp [h])]

/-- `pwr_last` is the level seen at the last normal tick; it starts high. -/
theorem pwrLast_after (past : List Readings) :
    (afterTicks vIn gpio0 past).power.pwrLast =
      ((lastNormal past).map Readings.hostHigh).getD true := by
  induction past with
  | nil =>
    rw [show (afterTicks vIn gpio0 []).power = _ from setup_power vIn gpio0]
    rfl
  | cons r past ih =>
    cases h : r.host12V with
    | true =>
      rw [power_after_of_host12V _ _ h, lastNormal_cons_of_host12V h]
      rfl
    | false =>
      rw [power_after_of_not_host12V _ _ h, lastNormal_cons_of_not_host12V h, ih]

/-- The code's edge condition is the edge of the past. -/
theorem rising_after {r : Readings} (h : r.host12V = true) (past : List Readings) :
    (afterTicks vIn gpio0 past).power.rising r = isEdge past r := by
  rw [Power.rising, pwrLast_after, isEdge, h, Bool.true_and]
  cases lastNormal past <;> rfl

/-- What one more tick makes of the power state `p`: the supply is missing, or `GPIO_0` has
an edge, or the button is released, held beyond the cap of the counter, or held. -/
inductive Tick (past : List Readings) (r : Readings) (p p' : Power) : Prop where
  | unpowered (h : r.host12V = false) (hp : p' = p)
  | edge (h : r.host12V = true) (he : isEdge past r = true)
      (hp : p' = { p with
        masterEn := p.masterEn && p.isReboot, isReboot := false, pwrLast := true })
  | release (h : r.host12V = true) (he : isEdge past r = false) (hb : r.btnPwr = true)
      (hp : p' = { (p.sample r).drive
          (p.masterEn || (decide (1 < p.counter) && decide (p.counter < 40))) with
        counter := 0, pwrLast := r.hostHigh })
  | longPress (h : r.host12V = true) (he : isEdge past r = false) (hb : r.btnPwr = false)
      (hlong : 40 ≤ p.counter)
      (hp : p' = { (p.sample r).drive false with counter := 40, pwrLast := r.hostHigh })
  | held (h : r.host12V = true) (he : isEdge past r = false) (hb : r.btnPwr = false)
      (hshort : p.counter < 40)
      (hp : p' = { p.sample r with counter := p.counter + 1, pwrLast := r.hostHigh })

theorem tick_after (past : List Readings) (r : Readings) :
    Tick past r (afterTicks vIn gpio0 past).power (afterTicks vIn gpio0 (r :: past)).power := by
  cases h : r.host12V with
  | false => exact .unpowered h (power_after_of_not_host12V vIn gpio0 h past)
  | true =>
    have hr := rising_after vIn gpio0 h past
    have hp := power_after_of_host12V vIn gpio0 h past
    cases he : isEdge past r with
    | true =>
      rw [he] at hr
      exact .edge h he (hp.trans (Power.step_of_rising hr))
    | false =>
      rw [he] at hr
      cases hb : r.btnPwr with
      | true => exact .release h he hb (hp.trans (Power.step_of_release hr hb))
      | false =>
        rw [Power.step_of_held hr hb] at hp
        by_cases hlong : 40 < (afterTicks vIn gpio0 past).power.counter + 1
        · rw [if_pos hlong] at hp
          exact .longPress h he hb (Nat.le_of_lt_succ hlong) hp
        · rw [if_neg hlong] at hp
          exact .held h he hb (Nat.not_lt.mp hlong) hp

/-- `is_reboot` holds the `GPIO_1` sample of the last normal tick, if `GPIO_0` was low. -/
theorem isReboot_after {past : List Readings} {q : Readings} (hq : lastNormal past = some q)
    (hlow : q.hostHigh = false) : (afterTicks vIn gpio0 past).power.isReboot = q.gpio1 := by
  induction past with
  | nil => cases hq
  | cons r past ih =>
    cases h : r.host12V with
    | true =>
      rw [lastNormal_cons_of_host12V h, Option.some.injEq] at hq
      subst hq
      rw [power_after_of_host12V _ _ h, Power.step_isReboot hlow]
    | false =>
      rw [lastNormal_cons_of_not_host12V h] at hq
      rw [power_after_of_not_host12V _ _ h, ih hq]

/-- At an edge, `is_reboot` decides whether it is a shutdown. -/
theorem isShutdown_of_isEdge {past : List Readings} {r : Readings}
    (h : isEdge past r = true) :
    isShutdown past r = !(afterTicks vIn gpio0 past).power.isReboot := by
  have hlow := h
  simp only [isEdge, Bool.and_eq_true, Option.any_eq_true, Bool.not_eq_true'] at hlow
  obtain ⟨-, q, hq, hqlow⟩ := hlow
  rw [isShutdown, h, hq, isReboot_after vIn gpio0 hq hqlow]
  rfl

/-- `counter` is the press count, capped at 40. -/
theorem counter_after (past : List Readings) :
    (afterTicks vIn gpio0 past).power.counter = min 40 (pressCount past) := by
  induction past with
  | nil =>
    rw [show (afterTicks vIn gpio0 []).power = _ from setup_power vIn gpio0]
    rfl
  | cons r past ih =>
    rw [pressCount]
    cases tick_after vIn gpio0 past r with
    | unpowered h hp => rw [hp, ih, if_pos (Or.inl h)]
    | edge h he hp =>
      rw [hp, if_pos (Or.inr he)]
      exact ih
    | release h he hb hp =>
      rw [hp, if_neg (by simp [h, he]), if_pos hb]
      rfl
    | longPress h he hb hlong hp =>
      rw [hp, if_neg (by simp [h, he]), if_neg (by simp [hb])]
      show 40 = min 40 (pressCount past + 1)
      omega
    | held h he hb hshort hp =>
      rw [hp, if_neg (by simp [h, he]), if_neg (by simp [hb])]
      show (afterTicks vIn gpio0 past).power.counter + 1 = min 40 (pressCount past + 1)
      omega

/-! ## Pending shutdowns -/

/-- There was a shutdown edge since the pin was last written. -/
def ShutdownPending (past : List Readings) : Prop :=
  ∃ later e earlier, past = later ++ e :: earlier ∧ isShutdown earlier e = true ∧
    (afterTicks vIn gpio0 earlier).writes .masterEn =
      (afterTicks vIn gpio0 past).writes .masterEn

variable {vIn gpio0}

/-- A pending shutdown stays pending until the pin is written. -/
theorem ShutdownPending.cons {past : List Readings} (h : ShutdownPending vIn gpio0 past)
    {r : Readings}
    (hw : (afterTicks vIn gpio0 (r :: past)).power.writes =
      (afterTicks vIn gpio0 past).power.writes) :
    ShutdownPending vIn gpio0 (r :: past) := by
  obtain ⟨later, e, earlier, hsplit, he, hwrites⟩ := h
  refine ⟨r :: later, e, earlier, ?_, he, ?_⟩
  · rw [hsplit]
    rfl
  · exact hwrites.trans hw.symm

/-- **The gap between the variable and the pin**: `master_en` is clear and the pin
still high only while a shutdown edge is pending. -/
theorem shutdown_pending (past : List Readings)
    (hen : (afterTicks vIn gpio0 past).power.masterEn = false)
    (hpin : (afterTicks vIn gpio0 past).power.pin = true) :
    ShutdownPending vIn gpio0 past := by
  induction past with
  | nil =>
    rw [show (afterTicks vIn gpio0 []).power = _ from setup_power vIn gpio0] at hen hpin
    simp only at hen hpin
    rw [hen] at hpin
    cases hpin
  | cons r past ih =>
    cases tick_after vIn gpio0 past r with
    | unpowered h hp =>
      rw [hp] at hen hpin
      exact (ih hen hpin).cons (by rw [hp])
    | edge h he hp =>
      rw [hp] at hen hpin
      -- `master_en` was clear before, or this edge clears it
      cases hold : (afterTicks vIn gpio0 past).power.masterEn with
      | false => exact (ih hold hpin).cons (by rw [hp])
      | true =>
        simp only [hold, Bool.true_and] at hen
        refine ⟨[], r, past, rfl, ?_, ?_⟩
        · rw [isShutdown_of_isEdge vIn gpio0 he, hen]
          rfl
        · exact (congrArg Power.writes hp).symm
    | release h he hb hp =>
      -- a release writes the pin with `master_en`
      rw [hp] at hen hpin
      exact absurd (hen.symm.trans hpin) (by decide)
    | longPress h he hb hlong hp =>
      rw [hp] at hpin
      cases hpin
    | held h he hb hshort hp =>
      rw [hp] at hen hpin
      exact (ih hen hpin).cons (by rw [hp]; rfl)

/-- An edge announced by a reboot sample changes neither `master_en` nor the pin. -/
theorem power_after_reboot {past : List Readings} {r : Readings} (he : isEdge past r = true)
    (hs : isShutdown past r = false) :
    (afterTicks vIn gpio0 (r :: past)).power.masterEn =
        (afterTicks vIn gpio0 past).power.masterEn ∧
      (afterTicks vIn gpio0 (r :: past)).power.pin =
        (afterTicks vIn gpio0 past).power.pin := by
  have h : r.host12V = true := by
    simp only [isEdge, Bool.and_eq_true] at he
    exact he.1.1
  have hr := rising_after vIn gpio0 h past
  rw [he] at hr
  rw [isShutdown_of_isEdge vIn gpio0 he, Bool.not_eq_false'] at hs
  rw [power_after_of_host12V _ _ h, Power.step_of_rising hr]
  exact ⟨by simp [hs], rfl⟩

/-- **Host power is cut only for a reason.** A tick takes `PIN_MASTER_EN` from high to
low only after more than 40 counted button-pressed ticks, or with a shutdown edge since
the pin was last written. An edge announced by a reboot sample leaves both `master_en`
and the pin as they are. -/
theorem masterEn_low_reason (vIn gpio0 : Bool) (past : List Readings) (r : Readings) :
    ((afterTicks vIn gpio0 past).digitalRead .masterEn = true →
      (afterTicks vIn gpio0 (r :: past)).digitalRead .masterEn = false →
      41 ≤ pressCount (r :: past) ∨ ShutdownPending vIn gpio0 past) ∧
    (isEdge past r = true → isShutdown past r = false →
      (afterTicks vIn gpio0 (r :: past)).masterEn = (afterTicks vIn gpio0 past).masterEn ∧
      (afterTicks vIn gpio0 (r :: past)).digitalRead .masterEn =
        (afterTicks vIn gpio0 past).digitalRead .masterEn) := by
  refine ⟨?_, power_after_reboot⟩
  intro (hhigh : (afterTicks vIn gpio0 past).power.pin = true)
    (hlow : (afterTicks vIn gpio0 (r :: past)).power.pin = false)
  -- which of its branches the tick has taken
  cases tick_after vIn gpio0 past r with
  | unpowered h hp =>
    rw [hp, hhigh] at hlow
    cases hlow
  | edge h he hp =>
    rw [hp, hhigh] at hlow
    cases hlow
  | release h he hb hp =>
    rw [hp] at hlow
    exact Or.inr (shutdown_pending past (Bool.or_eq_false_iff.mp hlow).1 hhigh)
  | longPress h he hb hlong hp =>
    left
    have hcount := counter_after vIn gpio0 past
    rw [pressCount, if_neg (by simp [h, he]), if_neg (by simp [hb])]
    omega
  | held h he hb hshort hp =>
    rw [hp] at hlow
    exact absurd (hlow.symm.trans hhigh) (by decide)

end Past

/-- Both reasons occur: a host that shuts down, and a button held for 41 ticks. -/
example :
    (afterTicks true false [⟨true, true, true, true, false⟩, ⟨true, true, true, true, false⟩,
      ⟨true, true, false, false, false⟩]).digitalRead .masterEn = false ∧
    (afterTicks true false (List.replicate 40 ⟨true, false, false, false, false⟩)).digitalRead
      .masterEn = true ∧
    (afterTicks true false (List.replicate 41 ⟨true, false, false, false, false⟩)).digitalRead
      .masterEn = false := by decide +kernel

/-! ## Shutdowns against the button -/

/-- The edge condition of the code at a tick: `pwr_last == 0` and `GPIO_0` high. -/
def Firmware.seesEdge (fw : Firmware) (r : Readings) : Bool :=
  r.host12V && r.hostHigh && !fw.poll.pwrLast

/-- A tick of a past is an edge for the code exactly when the past says so. -/
theorem seesEdge_after (vIn gpio0 : Bool) (past : List Readings) (r : Readings) :
    (afterTicks vIn gpio0 past).seesEdge r = isEdge past r := by
  cases h : r.host12V with
  | false => simp [Firmware.seesEdge, isEdge, h]
  | true =>
    rw [← rising_after vIn gpio0 h past, Firmware.seesEdge, h, Bool.true_and]
    rfl

/-- Only a processed release sets `master_en`. -/
theorem masterEn_of_not_isRelease {vIn gpio0 : Bool} {past : List Readings} {r : Readings}
    (hrel : isRelease past r = false)
    (hen : (afterTicks vIn gpio0 past).power.masterEn = false) :
    (afterTicks vIn gpio0 (r :: past)).power.masterEn = false := by
  cases tick_after vIn gpio0 past r with
  | unpowered h hp => rw [hp, hen]
  | edge h he hp =>
    rw [hp, hen]
    rfl
  | release h he hb hp =>
    rw [isRelease, h, hb, he] at hrel
    cases hrel
  | longPress h he hb hlong hp =>
    rw [hp]
    rfl
  | held h he hb hshort hp =>
    rw [hp]
    exact hen

/-- From a shutdown edge to the next processed release, `master_en` is clear. -/
theorem masterEn_after_shutdown {vIn gpio0 : Bool} {earlier : List Readings} {e : Readings}
    (he : isEdge earlier e = true)
    (hreboot : (afterTicks vIn gpio0 earlier).power.isReboot = false) {mid : List Readings}
    (hmid : ∀ newer q older, mid = newer ++ q :: older →
      isRelease (older ++ e :: earlier) q = false) :
    (afterTicks vIn gpio0 (mid ++ e :: earlier)).power.masterEn = false := by
  induction mid with
  | nil =>
    -- the edge itself clears it, without a reboot
    have h : e.host12V = true := by
      simp only [isEdge, Bool.and_eq_true] at he
      exact he.1.1
    have hr := rising_after vIn gpio0 h earlier
    rw [he] at hr
    rw [List.nil_append, power_after_of_host12V _ _ h, Power.step_of_rising hr, hreboot]
    exact Bool.and_false _
  | cons q mid ih =>
    -- nothing but a release sets it again
    refine masterEn_of_not_isRelease (hmid [] q mid rfl) (ih ?_)
    intro newer q' older hsplit
    exact hmid (q :: newer) q' older (by rw [hsplit]; rfl)

/-- **When a host shutdown takes effect.** After an edge with `is_reboot = 0`, the first
later tick that processes the released button drives `PIN_MASTER_EN` low exactly when the
button was not held for 2 to 39 counted ticks: a press of such a length reads the level
back from the pin, which is still high, and turns the power on again. -/
theorem shutdown_driven_low_iff (vIn gpio0 : Bool) (earlier mid : List Readings)
    (e r : Readings) (he : (afterTicks vIn gpio0 earlier).seesEdge e = true)
    (hreboot : (afterTicks vIn gpio0 earlier).poll.isReboot = false)
    (hmid : ∀ newer q older, mid = newer ++ q :: older →
      ¬ (q.host12V = true ∧ q.btnPwr = true ∧
        (afterTicks vIn gpio0 (older ++ e :: earlier)).seesEdge q = false))
    (hr : r.host12V = true ∧ r.btnPwr = true ∧
      (afterTicks vIn gpio0 (mid ++ e :: earlier)).seesEdge r = false) :
    ((afterTicks vIn gpio0 (r :: mid ++ e :: earlier)).digitalRead .masterEn = false ∧
      (afterTicks vIn gpio0 (r :: mid ++ e :: earlier)).writes .masterEn =
        (afterTicks vIn gpio0 (mid ++ e :: earlier)).writes .masterEn + 1) ↔
      ¬ (2 ≤ pressCount (mid ++ e :: earlier) ∧ pressCount (mid ++ e :: earlier) ≤ 39) := by
  rw [seesEdge_after] at he
  -- up to the release `master_en` is clear, so the release decides by the press alone
  have hen : (afterTicks vIn gpio0 (mid ++ e :: earlier)).power.masterEn = false := by
    refine masterEn_after_shutdown he hreboot ?_
    intro newer q older hsplit
    have hq := hmid newer q older hsplit
    rw [seesEdge_after] at hq
    simpa [isRelease] using hq
  obtain ⟨h, hb, hedge⟩ := hr
  rw [seesEdge_after] at hedge
  have hrise := rising_after vIn gpio0 h (mid ++ e :: earlier)
  rw [hedge] at hrise
  have hpow := power_after_of_host12V vIn gpio0 h (mid ++ e :: earlier)
  rw [Power.step_of_release hrise hb, hen, Bool.false_or, counter_after] at hpow
  have hpin := congrArg Power.pin hpow
  have hwrites := congrArg Power.writes hpow
  -- the counter stops at 40, which is a press that is too long
  have hcond : (decide (1 < min 40 (pressCount (mid ++ e :: earlier))) &&
      decide (min 40 (pressCount (mid ++ e :: earlier)) < 40)) = false ↔
      ¬ (2 ≤ pressCount (mid ++ e :: earlier) ∧ pressCount (mid ++ e :: earlier) ≤ 39) := by
    rw [← Bool.not_eq_true, Bool.and_eq_true, decide_eq_true_iff, decide_eq_true_iff]
    omega
  rw [← hcond]
  constructor
  · rintro ⟨hlow, -⟩
    exact hpin.symm.trans hlow
  · intro hlow
    exact ⟨hpin.trans hlow, hwrites⟩

/-- A host that shuts down with nobody at the button. -/
theorem shutdown_driven_low_iff_idle :
    ((afterTicks true false [⟨true, true, true, true, false⟩, ⟨true, true, true, true, false⟩,
        ⟨true, true, false, false, false⟩]).digitalRead .masterEn = false ∧
      (afterTicks true false [⟨true, true, true, true, false⟩, ⟨true, true, true, true, false⟩,
        ⟨true, true, false, false, false⟩]).writes .masterEn =
        (afterTicks true false [⟨true, true, true, true, false⟩,
          ⟨true, true, false, false, false⟩]).writes .masterEn + 1) ↔
      ¬ (2 ≤ 0 ∧ 0 ≤ 39) :=
  shutdown_driven_low_iff true false [⟨true, true, false, false, false⟩] []
    ⟨true, true, true, true, false⟩ ⟨true, true, true, true, false⟩ (by decide) (by decide)
    (fun newer _ _ h => by cases newer <;> cases h) (by decide)

/-- A shutdown can be lost: the button is pressed for two ticks, the host shuts down,
the button is released, and the pin stays high. -/
theorem shutdown_not_always_driven_low :
    ¬ ∀ (vIn gpio0 : Bool) (earlier mid : List Readings) (e r : Readings),
      (afterTicks vIn gpio0 earlier).seesEdge e = true →
      (afterTicks vIn gpio0 earlier).poll.isReboot = false →
      (∀ newer q older, mid = newer ++ q :: older →
        ¬ (q.host12V = true ∧ q.btnPwr = true ∧
          (afterTicks vIn gpio0 (older ++ e :: earlier)).seesEdge q = false)) →
      (r.host12V = true ∧ r.btnPwr = true ∧
        (afterTicks vIn gpio0 (mid ++ e :: earlier)).seesEdge r = false) →
      (afterTicks vIn gpio0 (r :: mid ++ e :: earlier)).digitalRead .masterEn = false := by
  intro h
  have hlow := h true false
    [⟨true, false, false, false, false⟩, ⟨true, false, false, false, false⟩] []
    ⟨true, false, true, true, false⟩ ⟨true, true, true, true, false⟩ (by decide) (by decide)
    (fun newer _ _ h => by cases newer <;> cases h) (by decide)
  revert hlow
  decide

end ProjZ
