import ProjZ.Firmware.PowerHistory

/-!
# The power button, and what a power-on remembers

A press is a row of normal ticks with the button held, without an edge of `GPIO_0`
(`NoEdge`), and the tick that sees it released. `HeldFor` is the state after `k` ticks
of it: `counter` stops at 40, and the pin and `master_en` are untouched up to the
fortieth tick and low from the next one on. So the release finds one of four cases
(`press_length`).

The release that powers the host on has sampled `GPIO_0` in the same tick, most likely
low, since the host was off. The code means to forget that sample and writes
`pwr_state == 1;`, a comparison. `powerOn_stale_iff` says when the stale sample turns the
power off again: when `GPIO_0` was confirmed low in that tick and `GPIO_1` did not
announce a reboot.
-/

namespace ProjZ

/-! ## A press -/

/-- No tick of the run is an edge for the code. -/
def NoEdge : Firmware → List Readings → Prop
  | _, [] => True
  | fw, r :: rs => fw.seesEdge r = false ∧ NoEdge (pollingTimer fw r) rs

theorem noEdge_append {fw : Firmware} {rs qs : List Readings} :
    NoEdge fw (rs ++ qs) ↔ NoEdge fw rs ∧ NoEdge (Runs.run pollingTimer fw rs) qs := by
  induction rs generalizing fw with
  | nil => exact (iff_of_eq (true_and _)).symm
  | cons r rs ih =>
    constructor
    · rintro ⟨hr, hrest⟩
      obtain ⟨hrs, hqs⟩ := ih.mp hrest
      exact ⟨⟨hr, hrs⟩, hqs⟩
    · rintro ⟨⟨hr, hrs⟩, hqs⟩
      exact ⟨hr, ih.mpr ⟨hrs, hqs⟩⟩

/-- A tick that holds the button down. -/
structure Held (r : Readings) : Prop where
  host12V : r.host12V = true
  btnPwr : r.btnPwr = false

/-- A tick that sees the button released. -/
structure Released (r : Readings) : Prop where
  host12V : r.host12V = true
  btnPwr : r.btnPwr = true

theorem rising_of_seesEdge {fw : Firmware} {r : Readings} (h : r.host12V = true)
    (he : fw.seesEdge r = false) : fw.power.rising r = false := by
  rwa [Firmware.seesEdge, h, Bool.true_and] at he

/-- No tick leaves the counter above 40. -/
theorem Power.step_counter_le {p : Power} (h : p.counter ≤ 40) (r : Readings) :
    (p.step r).counter ≤ 40 := by
  cases hr : p.rising r with
  | true =>
    rw [Power.step_of_rising hr]
    exact h
  | false =>
    cases hb : r.btnPwr with
    | true =>
      rw [Power.step_of_release hr hb]
      exact Nat.zero_le 40
    | false =>
      rw [Power.step_of_held hr hb]
      split
      · exact Nat.le_refl 40
      · next hlong =>
        show p.counter + 1 ≤ 40
        omega

theorem counter_le_run {fw : Firmware} (h : fw.poll.counter ≤ 40) (rs : List Readings) :
    (Runs.run pollingTimer fw rs).poll.counter ≤ 40 := by
  refine Runs.run_invariant (P := fun fw : Firmware => fw.power.counter ≤ 40) h ?_ rs
  intro r fw hfw
  rw [pollingTimer_power]
  split
  · exact Power.step_counter_le hfw r
  · exact hfw

/-- The power state after `k` ticks of a press that began in `p`. -/
structure HeldFor (p : Power) (k : Nat) (q : Power) : Prop where
  counter : q.counter = min 40 k
  short : k ≤ 40 → q.pin = p.pin ∧ q.masterEn = p.masterEn
  long : 41 ≤ k → q.pin = false ∧ q.masterEn = false

theorem heldFor_zero {p : Power} (h : p.counter = 0) : HeldFor p 0 p where
  counter := h
  short _ := ⟨rfl, rfl⟩
  long h := by omega

/-- One more tick. -/
theorem HeldFor.tick {p : Power} {k : Nat} {fw : Firmware} (h : HeldFor p k fw.power)
    {r : Readings} (hr : Held r) (he : fw.seesEdge r = false) :
    HeldFor p (k + 1) (pollingTimer fw r).power := by
  have hcounter := h.counter
  rw [pollingTimer_power, if_pos hr.host12V,
    Power.step_of_held (rising_of_seesEdge hr.host12V he) hr.btnPwr]
  by_cases hlong : 40 < fw.power.counter + 1
  · -- the fortieth tick is behind: this one drives the pin low
    rw [if_pos hlong]
    refine ⟨?_, ?_, ?_⟩
    · show 40 = min 40 (k + 1)
      omega
    · intro hk
      omega
    · intro _
      exact ⟨rfl, rfl⟩
  · rw [if_neg hlong]
    refine ⟨?_, ?_, ?_⟩
    · show fw.power.counter + 1 = min 40 (k + 1)
      omega
    · intro _
      exact h.short (by omega)
    · intro hk
      omega

/-- Many more ticks. -/
theorem HeldFor.run {p : Power} {rs : List Readings} (hrs : ∀ r ∈ rs, Held r) {k : Nat}
    {fw : Firmware} (h : HeldFor p k fw.power) (he : NoEdge fw rs) :
    HeldFor p (k + rs.length) (Runs.run pollingTimer fw rs).power := by
  induction rs generalizing k fw with
  | nil => exact h
  | cons r rs ih =>
    have htail := ih (fun q hq => hrs q (List.mem_cons_of_mem r hq))
      (h.tick (hrs r (List.mem_cons_self ..)) he.1) he.2
    rw [List.length_cons, show k + (rs.length + 1) = k + 1 + rs.length by omega]
    exact htail

/-- The end of a press of `k` ticks. -/
theorem HeldFor.release {p : Power} {k : Nat} {fw : Firmware} (h : HeldFor p k fw.power)
    (hpin : p.pin = p.masterEn) {r : Readings} (hr : Released r)
    (he : fw.seesEdge r = false) :
    (pollingTimer fw r).power.pin = (pollingTimer fw r).power.masterEn ∧
      (pollingTimer fw r).power.counter = 0 ∧
      (k = 0 ∨ k = 1 ∨ k = 40 → (pollingTimer fw r).power.pin = p.pin) ∧
      (2 ≤ k → k ≤ 39 → (pollingTimer fw r).power.pin = true) ∧
      (41 ≤ k → (pollingTimer fw r).power.pin = false) := by
  have hcounter := h.counter
  rw [pollingTimer_power, if_pos hr.host12V,
    Power.step_of_release (rising_of_seesEdge hr.host12V he) hr.btnPwr]
  have hdriven : ∀ b, (decide (1 < fw.power.counter) && decide (fw.power.counter < 40)) = b →
      (fw.power.masterEn || (decide (1 < fw.power.counter) && decide (fw.power.counter < 40))) =
        (fw.power.masterEn || b) := by
    rintro b rfl
    rfl
  refine ⟨rfl, rfl, ?_, ?_, ?_⟩
  · intro hk
    show (fw.power.masterEn || _) = _
    rw [hdriven false (by simp; omega), Bool.or_false, hpin]
    exact (h.short (by omega)).2
  · intro hlow hhigh
    show (fw.power.masterEn || _) = _
    rw [hdriven true (by simp; omega), Bool.or_true]
  · intro hk
    show (fw.power.masterEn || _) = _
    rw [hdriven false (by simp; omega), Bool.or_false]
    exact (h.long hk).2

/-- What the ticks `pressed` and the release after them do to the power of the host. -/
structure PressOutcome (fw : Firmware) (pressed : List Readings) (release : Readings) :
    Prop where
  undisturbed : ∀ k, k ≤ 40 →
    (Runs.run pollingTimer fw (pressed.take k)).digitalRead .masterEn = fw.digitalRead .masterEn
  bounded : ∀ pre suf, pressed ++ [release] = pre ++ suf →
    (Runs.run pollingTimer fw pre).poll.counter ≤ 40
  counter : (Runs.run pollingTimer fw (pressed ++ [release])).poll.counter = 0
  driven : (Runs.run pollingTimer fw (pressed ++ [release])).digitalRead .masterEn =
    (Runs.run pollingTimer fw (pressed ++ [release])).masterEn
  same : pressed.length = 0 ∨ pressed.length = 1 ∨ pressed.length = 40 →
    (Runs.run pollingTimer fw (pressed ++ [release])).digitalRead .masterEn =
      fw.digitalRead .masterEn
  on : 2 ≤ pressed.length → pressed.length ≤ 39 →
    (Runs.run pollingTimer fw (pressed ++ [release])).digitalRead .masterEn = true
  off : 41 ≤ pressed.length →
    (Runs.run pollingTimer fw (pressed ++ [release])).digitalRead .masterEn = false

/-- **What a press does, by its length.** From any state with `counter = 0` and the pin
driven by `master_en`: held for some normal ticks and released without an edge of `GPIO_0`,
the button leaves the pin alone for its first 40 ticks, and at the release the pin is as
before for 0, 1 and 40 ticks, high for 2 to 39, and low from 41 on. -/
theorem press_length {fw : Firmware} (hcounter : fw.poll.counter = 0)
    (hpin : fw.digitalRead .masterEn = fw.masterEn) {pressed : List Readings}
    (hpressed : ∀ r ∈ pressed, Held r) {release : Readings} (hrelease : Released release)
    (hedge : NoEdge fw (pressed ++ [release])) : PressOutcome fw pressed release := by
  obtain ⟨hedge, hlast, -⟩ := noEdge_append.mp hedge
  -- the state after the first ticks of the press
  have hheld : ∀ pre suf, pressed = pre ++ suf →
      HeldFor fw.power pre.length (Runs.run pollingTimer fw pre).power := by
    rintro pre suf rfl
    have hpre : ∀ r ∈ pre, Held r := fun r hr => hpressed r (List.mem_append_left suf hr)
    have hrun := (heldFor_zero (p := fw.power) hcounter).run hpre (noEdge_append.mp hedge).1
    rwa [Nat.zero_add] at hrun
  have hwhole := hheld pressed [] (List.append_nil _).symm
  obtain ⟨hdriven, hzero, hsame, hhigh, hlow⟩ := hwhole.release hpin hrelease hlast
  have hend : Runs.run pollingTimer fw (pressed ++ [release]) =
      pollingTimer (Runs.run pollingTimer fw pressed) release := Runs.run_concat ..
  rw [← hend] at hdriven hzero hsame hhigh hlow
  refine ⟨?_, ?_, hzero, hdriven, hsame, hhigh, hlow⟩
  · intro k hk
    have htake := hheld (pressed.take k) (pressed.drop k) (List.take_append_drop k pressed).symm
    refine (htake.short ?_).1
    rw [List.length_take]
    omega
  · intro pre _ _
    exact counter_le_run (by omega) pre

/-- The shortest press that counts, on a host that is off. -/
theorem press_length_two :
    PressOutcome (setup true true)
      [⟨true, false, false, false, false⟩, ⟨true, false, false, false, false⟩]
      ⟨true, true, false, false, false⟩ := by
  refine press_length (by decide) (by decide) ?_ ⟨rfl, rfl⟩
    ⟨by decide, by decide, by decide, trivial⟩
  intro r hr
  simp only [List.mem_cons, List.not_mem_nil, or_false, or_self] at hr
  subst hr
  exact ⟨rfl, rfl⟩

/-! ## The sample of the power-on tick -/

/-- A low level of `GPIO_0` is confirmed at a normal tick. -/
def ConfirmsLow (r : Readings) : Prop := r.host12V = true ∧ r.hostHigh = false

/-- Ticks that confirm no low level leave the last confirmed one where it was. -/
theorem lastNormal_low {mid past : List Readings} (hmid : ∀ q ∈ mid, ¬ ConfirmsLow q)
    {q : Readings} (hq : lastNormal (mid ++ past) = some q) (hlow : q.hostHigh = false) :
    lastNormal past = some q := by
  induction mid with
  | nil => exact hq
  | cons r mid ih =>
    cases h : r.host12V with
    | true =>
      rw [List.cons_append, lastNormal_cons_of_host12V h, Option.some.injEq] at hq
      subst hq
      exact absurd ⟨h, hlow⟩ (hmid r (List.mem_cons_self ..))
    | false =>
      rw [List.cons_append, lastNormal_cons_of_not_host12V h] at hq
      exact ih (fun q' hq' => hmid q' (List.mem_cons_of_mem r hq')) hq

/-- **The sample a tick leaves behind.** No later tick is a shutdown edge before a low level
has been confirmed anew, exactly when the tick itself has seen `GPIO_0` or `GPIO_1` high. -/
theorem stale_sample_iff (vIn gpio0 : Bool) (past : List Readings) {r : Readings}
    (h : r.host12V = true) :
    (∀ mid e, (afterTicks vIn gpio0 (mid ++ r :: past)).seesEdge e = true →
      (afterTicks vIn gpio0 (mid ++ r :: past)).poll.isReboot = false →
      ∃ q ∈ mid, ConfirmsLow q) ↔
    r.hostHigh = true ∨ r.gpio1 = true := by
  constructor
  · intro hsafe
    by_contra hnot
    obtain ⟨hlow, hgpio1⟩ := not_or.mp hnot
    rw [Bool.not_eq_true] at hlow hgpio1
    have hlast : lastNormal (r :: past) = some r := lastNormal_cons_of_host12V h past
    -- the host comes up at the very next tick
    have hedge : (afterTicks vIn gpio0 (r :: past)).seesEdge
        ⟨true, true, true, true, false⟩ = true := by
      rw [seesEdge_after, isEdge, hlast, Option.any_some, hlow]
      rfl
    have hreboot : (afterTicks vIn gpio0 (r :: past)).poll.isReboot = false :=
      (isReboot_after vIn gpio0 hlast hlow).trans hgpio1
    obtain ⟨q, hq, -⟩ := hsafe [] _ hedge hreboot
    cases hq
  · intro hseen mid e hedge hreboot
    by_contra hnone
    have hmid : ∀ q ∈ mid, ¬ ConfirmsLow q := fun q hq hc => hnone ⟨q, hq, hc⟩
    rw [seesEdge_after, isEdge, Bool.and_eq_true, Option.any_eq_true] at hedge
    obtain ⟨-, q, hq, hqlow⟩ := hedge
    rw [Bool.not_eq_true'] at hqlow
    -- the level the edge rises from is the one seen by `r`
    have hqr : q = r := by
      have hlast := lastNormal_low hmid hq hqlow
      rw [lastNormal_cons_of_host12V h, Option.some.injEq] at hlast
      exact hlast.symm
    subst hqr
    have hgpio1 : (afterTicks vIn gpio0 (mid ++ q :: past)).poll.isReboot = q.gpio1 :=
      isReboot_after vIn gpio0 hq hqlow
    rcases hseen with hhigh | hhigh
    · rw [hqlow] at hhigh
      cases hhigh
    · rw [hreboot, hhigh] at hgpio1
      cases hgpio1

/-- A release that raises the pin. -/
structure PowersOn (vIn gpio0 : Bool) (past : List Readings) (r : Readings) : Prop where
  released : Released r
  off : (afterTicks vIn gpio0 past).digitalRead .masterEn = false
  on : (afterTicks vIn gpio0 (r :: past)).digitalRead .masterEn = true

/-- **When powering on is not undone by a stale sample.** After a release that has raised the
pin, every shutdown edge the code sees comes after a low level of `GPIO_0` confirmed later
than the release, exactly when the release tick itself has read `GPIO_0` or `GPIO_1` high. -/
theorem powerOn_stale_iff {vIn gpio0 : Bool} {past : List Readings} {r : Readings}
    (h : PowersOn vIn gpio0 past r) :
    (∀ mid e, (afterTicks vIn gpio0 (mid ++ r :: past)).seesEdge e = true →
      (afterTicks vIn gpio0 (mid ++ r :: past)).poll.isReboot = false →
      ∃ q ∈ mid, ConfirmsLow q) ↔
    r.hostHigh = true ∨ r.gpio1 = true :=
  stale_sample_iff vIn gpio0 past h.released.host12V

/-- Two ticks of the button bring the host up, and it is seen high at once. -/
theorem powerOn_stale_iff_high :
    (∀ mid e, (afterTicks true true (mid ++ [⟨true, true, true, true, false⟩,
        ⟨true, false, true, true, false⟩, ⟨true, false, true, true, false⟩])).seesEdge e = true →
      (afterTicks true true (mid ++ [⟨true, true, true, true, false⟩,
        ⟨true, false, true, true, false⟩,
        ⟨true, false, true, true, false⟩])).poll.isReboot = false →
      ∃ q ∈ mid, ConfirmsLow q) ↔
    Readings.hostHigh ⟨true, true, true, true, false⟩ = true ∨ false = true :=
  powerOn_stale_iff ⟨⟨rfl, rfl⟩, by decide, by decide⟩

/-- The host is off, so `GPIO_0` is low at the release that powers it on; it comes up in the
next tick, which is taken for its shutdown. -/
theorem powerOn_undone :
    ¬ ∀ (vIn gpio0 : Bool) (past : List Readings) (r : Readings), PowersOn vIn gpio0 past r →
      ∀ mid e, (afterTicks vIn gpio0 (mid ++ r :: past)).seesEdge e = true →
        (afterTicks vIn gpio0 (mid ++ r :: past)).poll.isReboot = false →
        ∃ q ∈ mid, ConfirmsLow q := by
  intro h
  obtain ⟨q, hq, -⟩ := h true true
    [⟨true, false, false, false, false⟩, ⟨true, false, false, false, false⟩]
    ⟨true, true, false, false, false⟩ ⟨⟨rfl, rfl⟩, by decide, by decide⟩ []
    ⟨true, true, true, true, false⟩ (by decide) (by decide)
  cases hq

end ProjZ
