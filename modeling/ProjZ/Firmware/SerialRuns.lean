import ProjZ.Firmware.ConsoleRelay
import ProjZ.Firmware.LineCoding

/-!
# The software serial driver in any hands

The functions of the driver in any order and with any arguments, interrupts in between and
while they wait. Two things can be said of all such runs from the initial globals. An
interrupt always finds a routine to run, which stays in the buffer (`interrupts_safe`). And the
driver serves its user again after whatever has been asked of it, unless `sssEnd` or
`sssBegin` has been called with bytes still to be sent (`accepts_again_iff`): both stop the
timer and leave `sssNumBytesToSend` as it is, and every later call waits for a sender that no
longer runs (`Wedged`).
-/

namespace ProjZ

variable {d : Sss} {k : Nat}

/-- Stopped, whatever is still to be sent, and not ready. -/
def sssEnd (d : Sss) : Sss := { sssStopAll d with ready := false }

/-- A call of a function of the driver, with what happens while it waits, or an interrupt. -/
inductive Sss.Call where
  | sssBegin (events : List WaitEvent)
  | sssEnd
  | sssAvailable (events : List WaitEvent)
  | sssRead (events : List WaitEvent)
  | sssWrite (sssInByte : UInt8)
  | sssWriteArray (sssInByte : List UInt8)
  | irq (i : Irq)

/-- The modes do not look at `sssReady`. -/
theorem Mode.setReady (h : Mode d k) (ready : Bool) :
    Mode { d with ready := ready } k := by
  cases h with
  | stopped h hidle hfun => exact .stopped ⟨h.quiet, h.int1, h.timer2⟩ hidle hfun
  | listening h hidle => exact .listening ⟨h.listening, h.function⟩ hidle
  | talking h =>
    refine .talking ⟨h.quiet, h.int1, h.timer2, h.room, ?_⟩
    cases h.sends with
    | next hfun htx => exact .next hfun htx
    | start hfun hnum hpos hbyte => exact .start hfun hnum hpos hbyte
    | data hj hfun hnum hpos hbyte => exact .data hj hfun hnum hpos hbyte

namespace Sss

/-- The driver after a call. -/
def react (d : Sss) : Sss.Call → Sss
  | .sssBegin events => ProjZ.sssBegin events d
  | .sssEnd => ProjZ.sssEnd d
  | .sssAvailable events => (ProjZ.sssAvailable events d).2
  | .sssRead events => (ProjZ.sssRead events d).2
  | .sssWrite b => (ProjZ.sssWrite b d).2
  | .sssWriteArray bytes => (ProjZ.sssWriteArray bytes d).2
  | .irq i => interrupt d i

/-- The states in which a call is interrupted. -/
def interrupted (d : Sss) : Sss.Call → List Sss
  | .sssBegin events => whileWaiting (fun d _ => [d]) events (sssStopAll d)
  | .sssAvailable events | .sssRead events => duringCall (fun d _ => [d]) events d
  | .irq _ => [d]
  | .sssEnd | .sssWrite _ | .sssWriteArray _ => []

/-- The timer interrupt finds a routine, and the sender a byte within the buffer. -/
structure InterruptSafe (d : Sss) : Prop where
  function : d.timer2 = true → d.timerFunctionP ≠ .null
  inBuffer : d.timer2 = true → d.timerFunctionP = .sssSendNextByteISR → 0 < d.numBytesToSend →
    d.bufferPos < sssBufSize

/-- The driver does what it is asked to, now or when its bytes are sent. -/
structure Healthy (d : Sss) : Prop where
  mode : ∃ k, Mode d k
  room : d.bufferPos + d.numBytesToSend ≤ sssBufSize

/-- There are bytes to send, and no sender. -/
structure Wedged (d : Sss) : Prop where
  busy : 0 < d.numBytesToSend
  mode : Stopped d ∨ Listens d

/-- The functions that call `sssStopAll` in any case. -/
def Call.stops : Sss.Call → Bool
  | .sssBegin _ | .sssEnd => true
  | _ => false

/-- The driver is stopped with bytes still to be sent. -/
def Abandons (d : Sss) (c : Sss.Call) : Prop := 0 < d.numBytesToSend ∧ c.stops = true

/-! ## Drivers that do not send -/

theorem interruptSafe_of_quiet (h : Stopped d ∨ Listens d) : InterruptSafe d := by
  rcases h with hstopped | hlistens
  · have hoff : ¬ d.timer2 = true := by
      rw [hstopped.timer2]
      exact Bool.false_ne_true
    exact ⟨fun h => absurd h hoff, fun h => absurd h hoff⟩
  · refine ⟨fun _ => ?_, fun _ hfun => ?_⟩
    · rw [hlistens.function]
      decide
    · rw [hlistens.function] at hfun
      cases hfun

/-- Receiving does not touch the position of the sender. -/
theorem bufferPos_of_quiet (h : Stopped d ∨ Listens d) (i : Irq) :
    (interrupt d i).bufferPos = d.bufferPos := by
  rcases h with hstopped | hlistens
  · rw [(hstopped.interrupt i).1]
  · cases i with
    | edge =>
      unfold interrupt
      dsimp only
      split <;> rfl
    | match2 rx =>
      unfold interrupt TIMER2_COMPA_vect
      rw [hlistens.function]
      dsimp only
      split
      · unfold sssTimerGetBitsISR countBit saveByte addBit stopBits
        dsimp only
        split <;> split <;> rfl
      · rfl

theorem bufferPos_sssPrepareToListen (events : List WaitEvent) (d : Sss) :
    (sssPrepareToListen events d).bufferPos = d.bufferPos := by
  refine (Runs.run_invariant
    (P := fun s : Sss × Nat => Waits d s.1 ∧ s.1.bufferPos = d.bufferPos)
    (s := (sssStopAll d, 0))
    ⟨⟨Or.inl (stopped_sssStopAll d), rfl, rfl, Or.inl rfl⟩, rfl⟩ ?_ events).2
  rintro e s ⟨hwaits, hpos⟩
  refine ⟨hwaits.step e, ?_⟩
  cases e with
  | check rx =>
    unfold waitStep
    dsimp only
    split <;> exact hpos
  | irq i => exact (bufferPos_of_quiet hwaits.mode i).trans hpos

/-- Interrupts find the waiting driver stopped or listening. -/
theorem interruptSafe_whileWaiting (events : List WaitEvent) (d : Sss) :
    ∀ t ∈ whileWaiting (fun d _ => [d]) events d, InterruptSafe t := by
  refine (Runs.outputs_invariant (fun s e => (waitStep s e, onIrq (fun d _ => [d]) s e))
    (P := fun s os => Waits d s.1 ∧ ∀ t ∈ os, InterruptSafe t) (s := (sssStopAll d, 0))
    ⟨⟨Or.inl (stopped_sssStopAll d), rfl, rfl, Or.inl rfl⟩, nofun⟩ ?_ events).2
  rintro e s os ⟨hwaits, hos⟩
  refine ⟨hwaits.step e, ?_⟩
  intro t ht
  rcases List.mem_append.mp ht with ht | ht
  · exact hos t ht
  · cases e with
    | check => cases ht
    | irq i =>
      obtain rfl : t = s.1 := List.mem_singleton.mp ht
      exact interruptSafe_of_quiet hwaits.mode

/-! ## Healthy drivers -/

theorem Healthy.interruptSafe (h : Healthy d) : InterruptSafe d := by
  obtain ⟨k, hmode⟩ := h.mode
  refine ⟨hmode.timer2_ne_null, fun _ _ hpos => ?_⟩
  have hroom := h.room
  omega

theorem Healthy.listen (h : Healthy d) (hidle : d.numBytesToSend = 0) (events : List WaitEvent) :
    Mode (sssPrepareToListen events d) 0 ∧
      Healthy (sssPrepareToListen events d) := by
  obtain ⟨k, hmode⟩ := h.mode
  have hlisten := hmode.sssPrepareToListen hidle events
  refine ⟨hlisten, ⟨0, hlisten⟩, ?_⟩
  rw [bufferPos_sssPrepareToListen, (waits_sssPrepareToListen events d).idle]
  exact h.room

/-- Stopping an idle driver is the shortest wait. -/
theorem Healthy.stop (h : Healthy d) (hidle : d.numBytesToSend = 0) : Healthy (sssStopAll d) :=
  (h.listen hidle []).2

theorem Healthy.setReady (h : Healthy d) (ready : Bool) : Healthy { d with ready := ready } := by
  obtain ⟨k, hmode⟩ := h.mode
  exact ⟨⟨k, hmode.setReady ready⟩, h.room⟩

theorem Healthy.irq (h : Healthy d) (i : Irq) : Healthy (interrupt d i) := by
  obtain ⟨k, hmode⟩ := h.mode
  cases hmode with
  | stopped hstopped =>
    rw [(hstopped.interrupt i).1]
    exact h
  | listening hlistens hidle =>
    have hstep := hlistens.interrupt i
    refine ⟨⟨0, .listening hstep.listens (hstep.idle.trans hidle)⟩, ?_⟩
    rw [bufferPos_of_quiet (Or.inr hlistens), hstep.idle]
    exact h.room
  | talking htalks =>
    cases i with
    | edge =>
      have hsame : interrupt d .edge = d :=
        if_neg (by rw [htalks.int1]; exact Bool.false_ne_true)
      rw [hsame]
      exact h
    | match2 rx =>
      obtain ⟨k', htalks', -⟩ := htalks.step_todo rx
      exact ⟨⟨k', .talking htalks'⟩, htalks'.room⟩

/-- `sssAvailable` and `sssRead`, whose answers keep the driver listening. -/
theorem Healthy.whenListening (h : Healthy d) (events : List WaitEvent)
    {answer : Sss → Int × Sss}
    (hanswer : ∀ t, Listens t → Healthy t → Healthy (answer t).2) :
    Healthy (whenListening events answer d).2 := by
  cases hready : d.ready with
  | false =>
    have hsame : ProjZ.whenListening events answer d = (-1, d) := if_pos hready
    rw [hsame]
    exact h
  | true =>
    rcases Nat.eq_zero_or_pos d.numBytesToSend with hidle | hbusy
    · have hfirst : Healthy (listenFirst events d) := by
        unfold listenFirst
        split
        · exact h
        · exact (h.listen hidle events).2
      rw [whenListening_idle hready hidle]
      by_cases hlistening : (listenFirst events d).isListening = true
      · rw [if_pos hlistening]
        obtain ⟨k, hmode⟩ := hfirst.mode
        exact hanswer _ (hmode.listens hlistening).1 hfirst
      · rw [if_neg hlistening]
        exact hfirst
    · rw [whenListening_busy hbusy]
      exact h

theorem Healthy.takeByte {t : Sss} (hlistens : Listens t) (h : Healthy t) :
    Healthy (takeByte t).2 := by
  unfold ProjZ.takeByte
  split
  · exact h
  · obtain ⟨k, hmode⟩ := h.mode
    exact ⟨⟨0, .listening ⟨hlistens.listening, hlistens.function⟩
      (hmode.listens hlistens.listening).2⟩, h.room⟩

theorem healthy_of_talks (h : Talks d k) : Healthy d := ⟨⟨k, .talking h⟩, h.room⟩

theorem Healthy.sssWrite (h : Healthy d) (b : UInt8) : Healthy (sssWrite b d).2 := by
  cases hready : d.ready with
  | false =>
    have hsame : ProjZ.sssWrite b d = (-1, d) := if_pos hready
    rw [hsame]
    exact h
  | true =>
    rcases Nat.eq_zero_or_pos d.numBytesToSend with hidle | hbusy
    · exact healthy_of_talks (sssWrite_idle hready hidle b).1
    · rw [sssWrite_busy hbusy]
      exact h

theorem sssWriteArray_busy (hbusy : 0 < d.numBytesToSend) (bytes : List UInt8) :
    (sssWriteArray bytes d).2 = d := by
  unfold ProjZ.sssWriteArray
  rw [if_pos hbusy, ite_self]

theorem Healthy.sssWriteArray (h : Healthy d) (bytes : List UInt8) :
    Healthy (sssWriteArray bytes d).2 := by
  cases hready : d.ready with
  | false =>
    have hsame : ProjZ.sssWriteArray bytes d = (-1, d) := if_pos hready
    rw [hsame]
    exact h
  | true =>
    rcases Nat.eq_zero_or_pos d.numBytesToSend with hidle | hbusy
    · rcases Nat.lt_or_ge sssBufSize bytes.length with hlong | hle
      · -- refused, but the sender has been started already
        have hwrite : ProjZ.sssWriteArray bytes d = (-1, sssPrepareToTalk d) := by
          unfold ProjZ.sssWriteArray
          rw [if_neg (by rw [hready]; decide), if_neg (by rw [hidle]; decide)]
          exact if_pos hlong
        rw [hwrite]
        exact healthy_of_talks (k := 0) ⟨rfl, rfl, rfl, h.room, .next rfl rfl⟩
      · exact healthy_of_talks (talks_sssWriteArray hready hidle hle).2.1
    · rw [sssWriteArray_busy hbusy]
      exact h

/-- **A call that abandons no bytes keeps the driver healthy.** -/
theorem Healthy.react (h : Healthy d) {c : Sss.Call} (hc : ¬ Abandons d c) :
    Healthy (d.react c) := by
  have hidle (hstops : c.stops = true) : d.numBytesToSend = 0 :=
    Nat.eq_zero_of_not_pos fun hbusy => hc ⟨hbusy, hstops⟩
  cases c with
  | sssBegin events =>
    exact ((h.stop (hidle rfl)).listen (hidle rfl) events).2.setReady true
  | sssEnd => exact (h.stop (hidle rfl)).setReady false
  | sssAvailable events => exact h.whenListening events fun _ _ ht => ht
  | sssRead events => exact h.whenListening events fun _ hlistens ht => ht.takeByte hlistens
  | sssWrite b => exact h.sssWrite b
  | sssWriteArray bytes => exact h.sssWriteArray bytes
  | irq i => exact h.irq i

/-! ## Wedged drivers -/

theorem wedged_of_abandons {c : Sss.Call} (hc : Abandons d c) : Wedged (d.react c) := by
  obtain ⟨hbusy, hstops⟩ := hc
  cases c with
  | sssBegin events =>
    have hwaits := waits_sssPrepareToListen events (sssStopAll d)
    refine ⟨hwaits.idle.symm ▸ hbusy, ?_⟩
    rcases hwaits.mode with hstopped | hlistens
    · exact Or.inl ⟨hstopped.quiet, hstopped.int1, hstopped.timer2⟩
    · exact Or.inr ⟨hlistens.listening, hlistens.function⟩
  | sssEnd => exact ⟨hbusy, Or.inl ⟨rfl, rfl, rfl⟩⟩
  | _ => cases hstops

/-- **Nothing gets the driver out of it.** -/
theorem Wedged.react (h : Wedged d) (c : Sss.Call) : Wedged (d.react c) := by
  cases c with
  | sssBegin events => exact wedged_of_abandons ⟨h.busy, rfl⟩
  | sssEnd => exact wedged_of_abandons ⟨h.busy, rfl⟩
  | sssAvailable events | sssRead events =>
    show Wedged (whenListening events _ d).2
    rw [whenListening_busy h.busy]
    exact h
  | sssWrite b =>
    show Wedged (ProjZ.sssWrite b d).2
    rw [sssWrite_busy h.busy]
    exact h
  | sssWriteArray bytes =>
    show Wedged (ProjZ.sssWriteArray bytes d).2
    rw [sssWriteArray_busy h.busy]
    exact h
  | irq i =>
    show Wedged (interrupt d i)
    rcases h.mode with hstopped | hlistens
    · rw [(hstopped.interrupt i).1]
      exact h
    · have hstep := hlistens.interrupt i
      exact ⟨hstep.idle.symm ▸ h.busy, Or.inr hstep.listens⟩

theorem Wedged.refuses (h : Wedged d) (b : UInt8) : (ProjZ.sssWrite b d).1 = -1 := by
  unfold ProjZ.sssWrite
  rw [if_pos h.busy]
  split <;> rfl

/-! ## Runs -/

theorem healthy_initial : Healthy .initial :=
  ⟨⟨0, .stopped ⟨rfl, rfl, rfl⟩ rfl nofun⟩, Nat.zero_le _⟩

/-- A run in which no call abandons bytes, or one that ends wedged. -/
theorem healthy_or_wedged (cs : List Sss.Call) :
    (Healthy (Runs.run react .initial cs) ∧
        ∀ pre c suf, cs = pre ++ c :: suf → ¬ Abandons (Runs.run react .initial pre) c) ∨
      (Wedged (Runs.run react .initial cs) ∧
        ∃ pre c suf, cs = pre ++ c :: suf ∧ Abandons (Runs.run react .initial pre) c) := by
  have hrun := Runs.kept_or_lost (fun d c => (react d c, ([] : List Unit)))
    (P := fun d _ => Healthy d) (Q := fun d _ => Wedged d) (G := fun d c => ¬ Abandons d c)
    (s := .initial) healthy_initial (fun _ _ _ h hc => h.react hc)
    (fun _ _ _ _ hc => wedged_of_abandons (not_not.mp hc)) (fun c _ _ h => h.react c) cs
  simp only [not_not] at hrun
  exact hrun

/-- The matches of the timer in which the sender, if it runs, sends what there is to send. -/
def drain (d : Sss) : List Sss.Call :=
  List.replicate (11 * d.numBytesToSend) (.irq (.match2 true))

/-- Eleven matches a byte, and there is nothing left to send. -/
theorem Healthy.run_drain (h : Healthy d) :
    Healthy (Runs.run Sss.react d d.drain) ∧
      (Runs.run Sss.react d d.drain).numBytesToSend = 0 := by
  obtain ⟨k, hmode⟩ := h.mode
  unfold drain
  cases hmode with
  | stopped _ hidle =>
    rw [hidle]
    exact ⟨h, hidle⟩
  | listening _ hidle =>
    rw [hidle]
    exact ⟨h, hidle⟩
  | talking htalks =>
    obtain ⟨k', htalks', htodo, -⟩ := htalks.run (List.replicate (11 * d.numBytesToSend) true)
    have hrun : Runs.final sendAct d ((List.replicate (11 * d.numBytesToSend) true).map .match2) =
        Runs.run Sss.react d (List.replicate (11 * d.numBytesToSend) (.irq (.match2 true))) := by
      rw [List.map_replicate]
      unfold Runs.final Runs.run
      rw [← List.map_replicate (f := Sss.Call.irq), List.foldl_map]
      rfl
    rw [hrun] at htalks' htodo
    refine ⟨healthy_of_talks htalks', ?_⟩
    -- eleven levels a byte, of which some have been sent
    have hnone : (d.todo k).drop (11 * d.numBytesToSend) = [] := by
      refine List.drop_eq_nil_of_le ?_
      unfold todo
      rw [List.length_drop, Uart.length_flatMap_slot, length_queue]
      exact Nat.sub_le _ _
    rw [List.length_replicate, hnone] at htodo
    rw [htalks'.numBytesToSend_eq, htodo]
    rfl

theorem sssWrite_accepts (hready : d.ready = true) (hidle : d.numBytesToSend = 0) (b : UInt8) :
    (ProjZ.sssWrite b d).1 = 0 := by
  unfold ProjZ.sssWrite
  rw [if_neg (by rw [hready]; decide), if_neg (by rw [hidle]; decide)]

/-- **The driver accepts bytes again exactly if it was never made to abandon any.** After any
calls and interrupts from the initial globals, there is a way to go on after which `sssWrite`
accepts a byte, exactly if `sssBegin` and `sssEnd` have been called with nothing to send. -/
theorem accepts_again_iff (cs : List Sss.Call) (b : UInt8) :
    (∃ more, (ProjZ.sssWrite b (Runs.run react .initial (cs ++ more))).1 = 0) ↔
      ∀ pre c suf, cs = pre ++ c :: suf → ¬ Abandons (Runs.run react .initial pre) c := by
  rcases healthy_or_wedged cs with ⟨hhealthy, hnone⟩ | ⟨hwedged, pre, c, suf, hsplit, hc⟩
  · refine iff_of_true ?_ hnone
    -- the bytes are sent, and `sssBegin` makes the driver ready if it is not
    obtain ⟨-, hidle⟩ := hhealthy.run_drain
    refine ⟨(Runs.run react .initial cs).drain ++ [.sssBegin []], ?_⟩
    rw [Runs.run_append, Runs.run_concat]
    generalize Runs.run react (Runs.run react .initial cs) _ = t at hidle ⊢
    have hwaits := waits_sssPrepareToListen [] (sssStopAll t)
    exact sssWrite_accepts (d := t.react (.sssBegin [])) rfl (hwaits.idle.trans hidle) b
  · refine iff_of_false ?_ fun hall => hall pre c suf hsplit hc
    rintro ⟨more, hwrite⟩
    rw [Runs.run_append] at hwrite
    have hstuck : Wedged (Runs.run react (Runs.run react .initial cs) more) :=
      Runs.run_invariant hwedged (fun c _ h => h.react c) more
    rw [hstuck.refuses b] at hwrite
    cases hwrite

end Sss

end ProjZ
