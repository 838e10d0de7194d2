import ProjZ.Firmware.SoftwareSerial

/-!
# The three modes of the software serial driver

The driver is `Stopped`, it `Listens`, or it `Talks`. Interrupts do not change the mode;
`sssPrepareToListen` leaves the driver stopped or listening, and `sssWrite` talking. Each
function has one lemma here that says so, with what it does to the bytes: in listening
mode the buffer is a `Ring`, `sssTimerGetBitsISR` pushes the byte it completes
(`Listens.interrupt`), and `sssRead` pops one (`Listens.sssRead`).
-/

namespace ProjZ

open RingBuffer

/-- The driver neither receives nor sends. -/
structure Stopped (d : Sss) : Prop where
  quiet : d.isListening = false
  int1 : d.int1 = false
  timer2 : d.timer2 = false

/-- The driver receives. -/
structure Listens (d : Sss) : Prop where
  listening : d.isListening = true
  function : d.timerFunctionP = .sssTimerGetBitsISR

/-- The buffer as the receiver sees it. -/
def Sss.ring (d : Sss) : Ring UInt8 sssBufSize := ⟨d.buffer, d.bufHead, d.bufTail⟩

/-- The driver with the contents of its buffer replaced. -/
def Sss.setRing (d : Sss) (r : Ring UInt8 sssBufSize) : Sss :=
  { d with buffer := r.slots, bufHead := r.head, bufTail := r.tail }

variable {d : Sss} {k : Nat}

/-! ## Receiving a bit -/

/-- The bits before the last one are not stored. -/
theorem sssTimerGetBitsISR_bit (rx : Bool) (h7 : d.bitCount ≠ 7) (h8 : d.bitCount ≠ 8) :
    sssTimerGetBitsISR rx d = countBit (addBit rx d) := by
  have hstop : stopBits d = d := if_neg h8
  have hsave : saveByte (addBit rx d) = addBit rx d := if_neg h7
  unfold sssTimerGetBitsISR
  rw [hstop, hsave]

/-- The last bit completes the byte. -/
theorem sssTimerGetBitsISR_store (rx : Bool) (h7 : d.bitCount = 7) :
    sssTimerGetBitsISR rx d =
      countBit ((addBit rx d).setRing (d.ring.push (addBit rx d).recvByte)) := by
  have hstop : stopBits d = d := if_neg (by omega)
  have hsave : saveByte (addBit rx d) =
      (addBit rx d).setRing (d.ring.push (addBit rx d).recvByte) := by
    have hhead : (d.ring.push (addBit rx d).recvByte).head =
        if d.bufHead + 1 ≠ d.bufTail then d.bufHead + 1 else d.bufHead := (ite_not ..).symm
    have hslots : (d.ring.push (addBit rx d).recvByte).slots =
        Function.update d.buffer (d.ring.push (addBit rx d).recvByte).head
          (addBit rx d).recvByte := rfl
    unfold Sss.setRing
    rw [hslots, hhead]
    exact if_pos h7
  unfold sssTimerGetBitsISR
  rw [hstop, hsave]

/-- The stop bit has no place in the byte. -/
theorem sssTimerGetBitsISR_stop (rx : Bool) (h8 : d.bitCount = 8) :
    sssTimerGetBitsISR rx d = { d with timer2 := false, int1 := true, bitCount := 9 } := by
  have hstop : stopBits d = { d with timer2 := false, int1 := true } := if_pos h8
  have hadd : addBit rx (stopBits d) = stopBits d := by
    have hbit : sssNewBit d.bitCount rx = 0 := by
      rw [h8]
      cases rx <;> rfl
    rw [hstop]
    unfold addBit
    rw [hbit]
    congr 1
    exact UInt8.add_zero _
  have hsave : saveByte (stopBits d) = stopBits d := by
    rw [hstop]
    exact if_neg (by show ¬ d.bitCount = 7; omega)
  unfold sssTimerGetBitsISR
  rw [hadd, hsave, hstop]
  unfold countBit
  rw [h8]
  rfl

/-- What an interrupt does in listening mode: it stores the byte it completes, if any. -/
structure ListenStep (d d' : Sss) (bytes : List UInt8) : Prop where
  listens : Listens d'
  ready : d'.ready = d.ready
  idle : d'.numBytesToSend = d.numBytesToSend
  ring : (bytes = [] ∧ d'.ring = d.ring) ∨ ∃ b, bytes = [b] ∧ d'.ring = d.ring.push b

/-- **Interrupts in listening mode.** -/
theorem Listens.interrupt (h : Listens d) (i : Irq) :
    ListenStep d (interrupt d i) (completed d i) := by
  cases i with
  | edge =>
    cases hint1 : d.int1 with
    | false =>
      have hstep : ProjZ.interrupt d .edge = d := if_neg (by rw [hint1]; exact Bool.false_ne_true)
      rw [hstep]
      exact ⟨h, rfl, rfl, Or.inl ⟨rfl, rfl⟩⟩
    | true =>
      -- a start edge: the timer is set up, and no byte is complete
      have hstep : ProjZ.interrupt d .edge = INT1_vect d := if_pos hint1
      rw [hstep]
      exact ⟨⟨h.listening, h.function⟩, rfl, rfl, Or.inl ⟨rfl, rfl⟩⟩
  | match2 rx =>
    cases htimer : d.timer2 with
    | false =>
      have hoff : ¬ d.timer2 = true := by
        rw [htimer]
        exact Bool.false_ne_true
      have hstep : ProjZ.interrupt d (.match2 rx) = d := if_neg hoff
      rw [hstep]
      exact ⟨h, rfl, rfl, Or.inl ⟨if_neg fun hh => hoff hh.1, rfl⟩⟩
    | true =>
      have hstep : ProjZ.interrupt d (.match2 rx) = sssTimerGetBitsISR rx d := by
        unfold ProjZ.interrupt TIMER2_COMPA_vect
        rw [h.function]
        exact if_pos htimer
      rw [hstep]
      by_cases h7 : d.bitCount = 7
      · -- the eighth bit completes a byte
        rw [sssTimerGetBitsISR_store rx h7]
        exact ⟨⟨h.listening, h.function⟩, rfl, rfl,
          Or.inr ⟨_, if_pos ⟨htimer, h.function, h7⟩, rfl⟩⟩
      · have hnone : completed d (.match2 rx) = [] := if_neg fun hh => h7 hh.2.2
        rw [hnone]
        by_cases h8 : d.bitCount = 8
        · -- the stop bit lets the next start edge in
          rw [sssTimerGetBitsISR_stop rx h8]
          exact ⟨⟨h.listening, h.function⟩, rfl, rfl, Or.inl ⟨rfl, rfl⟩⟩
        · rw [sssTimerGetBitsISR_bit rx h7 h8]
          exact ⟨⟨h.listening, h.function⟩, rfl, rfl, Or.inl ⟨rfl, rfl⟩⟩

/-! ## Interrupts in the other modes -/

theorem Stopped.interrupt (h : Stopped d) (i : Irq) :
    interrupt d i = d ∧ completed d i = [] ∧ driven d i = [] := by
  have hint1 : ¬ d.int1 = true := by
    rw [h.int1]
    exact Bool.false_ne_true
  have htimer : ¬ d.timer2 = true := by
    rw [h.timer2]
    exact Bool.false_ne_true
  cases i with
  | edge => exact ⟨if_neg hint1, rfl, rfl⟩
  | match2 rx =>
    exact ⟨if_neg htimer, if_neg fun hh => htimer hh.1, if_neg fun hh => htimer hh.1⟩

theorem Listens.driven (h : Listens d) (i : Irq) : driven d i = [] := by
  cases i with
  | edge => rfl
  | match2 rx =>
    refine if_neg ?_
    rw [h.function]
    rintro ⟨-, hfun | hfun⟩ <;> cases hfun

theorem Talks.le (h : Talks d k) : k ≤ 10 := by
  cases h.sends with
  | next => exact Nat.zero_le 10
  | start => exact Nat.le_add_left 1 9
  | data hj => omega

theorem Talks.interrupt_eq (h : Talks d k) (rx : Bool) :
    interrupt d (.match2 rx) = TIMER2_COMPA_vect rx d := if_pos h.timer2

theorem Talks.driven_eq (h : Talks d k) (rx : Bool) :
    driven d (.match2 rx) = [(interrupt d (.match2 rx)).tx] := by
  refine if_pos ⟨h.timer2, ?_⟩
  cases h.sends with
  | next hfun => exact Or.inl hfun
  | start hfun => exact Or.inr hfun
  | data _ hfun => exact Or.inr hfun

/-! ## Waiting for an idle line -/

/-- The driver while `sssPrepareToListen`, called in state `d₀`, waits. -/
structure Waits (d₀ d : Sss) : Prop where
  mode : Stopped d ∨ Listens d
  ready : d.ready = d₀.ready
  idle : d.numBytesToSend = d₀.numBytesToSend
  function : d.timerFunctionP = d₀.timerFunctionP ∨ d.timerFunctionP = .sssTimerGetBitsISR

theorem stopped_sssStopAll (d : Sss) : Stopped (sssStopAll d) := ⟨rfl, rfl, rfl⟩

theorem listens_startListening (d : Sss) : Listens (startListening d) := ⟨rfl, rfl⟩

@[simp] theorem unread_startListening (d : Sss) : (startListening d).ring.unread = [] :=
  Ring.unread_clear d.ring 0

/-- What an event of the waiting loop can do. -/
inductive WaitCase (s : Sss × Nat) (e : WaitEvent) : Prop where
  | same (h : (waitStep s e).1 = s.1) (hnone : onIrq completed s e = [])
  | found {rx : Bool} (he : e = .check rx) (hidle : sssMinIdleCount ≤ idleAfter s.2 rx)
      (h : (waitStep s e).1 = startListening s.1)
  | listening {i : Irq} (he : e = .irq i) (h : Listens s.1)
      (hstep : ListenStep s.1 (waitStep s e).1 (completed s.1 i))

theorem waitStep_cases {s : Sss × Nat} (h : Stopped s.1 ∨ Listens s.1) (e : WaitEvent) :
    WaitCase s e := by
  cases e with
  | check rx =>
    by_cases hidle : sssMinIdleCount ≤ idleAfter s.2 rx
    · exact .found rfl hidle (if_pos hidle)
    · exact .same (if_neg hidle) rfl
  | irq i =>
    rcases h with hstopped | hlistens
    · obtain ⟨hsame, hnone, -⟩ := hstopped.interrupt i
      exact .same hsame hnone
    · exact .listening rfl hlistens (hlistens.interrupt i)

theorem Waits.step {d₀ : Sss} {s : Sss × Nat} (h : Waits d₀ s.1) (e : WaitEvent) :
    Waits d₀ (waitStep s e).1 := by
  cases waitStep_cases h.mode e with
  | same hsame =>
    rw [hsame]
    exact h
  | found _ _ hfound =>
    rw [hfound]
    exact ⟨Or.inr (listens_startListening s.1), h.ready, h.idle, Or.inr rfl⟩
  | listening _ _ hstep =>
    exact ⟨Or.inr hstep.listens, hstep.ready.trans h.ready, hstep.idle.trans h.idle,
      Or.inr hstep.listens.function⟩

theorem waits_sssPrepareToListen (events : List WaitEvent) (d : Sss) :
    Waits d (sssPrepareToListen events d) :=
  Runs.run_invariant (P := fun s : Sss × Nat => Waits d s.1)
    ⟨Or.inl (stopped_sssStopAll d), rfl, rfl, Or.inl rfl⟩ (fun e _ h => h.step e) events

/-- Nothing is sent while the driver waits. -/
theorem whileWaiting_driven (events : List WaitEvent) (d : Sss) :
    whileWaiting driven events d = [] := by
  refine (Runs.outputs_invariant (fun s e => (waitStep s e, onIrq driven s e))
    (P := fun s os => Waits d s.1 ∧ os = []) (s := (sssStopAll d, 0))
    ⟨⟨Or.inl (stopped_sssStopAll d), rfl, rfl, Or.inl rfl⟩, rfl⟩ ?_ events).2
  rintro e s os ⟨h, rfl⟩
  refine ⟨h.step e, ?_⟩
  cases e with
  | check => rfl
  | irq i =>
    rcases h.mode with hstopped | hlistens
    · exact (hstopped.interrupt i).2.2
    · exact hlistens.driven i

/-- What is unread in listening mode was completed during the wait. -/
structure Heard (s : Sss × Nat) (bytes : List UInt8) : Prop where
  mode : Stopped s.1 ∨ Listens s.1
  unread : s.1.isListening = true → s.1.ring.unread.Sublist bytes

theorem Heard.step {s : Sss × Nat} {bytes : List UInt8} (h : Heard s bytes) (e : WaitEvent) :
    Heard (waitStep s e) (bytes ++ onIrq completed s e) := by
  cases waitStep_cases h.mode e with
  | same hsame hnone =>
    rw [hnone, List.append_nil]
    exact ⟨by rw [hsame]; exact h.mode, by rw [hsame]; exact h.unread⟩
  | found _ _ hfound =>
    refine ⟨?_, ?_⟩
    · rw [hfound]
      exact Or.inr (listens_startListening s.1)
    · intro _
      rw [hfound, unread_startListening]
      exact List.nil_sublist _
  | @listening i he hlistens hstep =>
    subst he
    have hunread := h.unread hlistens.listening
    refine ⟨Or.inr hstep.listens, ?_⟩
    intro _
    show List.Sublist _ (bytes ++ completed s.1 i)
    rcases hstep.ring with ⟨hnone, hring⟩ | ⟨b, hb, hring⟩
    · rw [hring, hnone, List.append_nil]
      exact hunread
    · rw [hring, hb]
      exact (Ring.unread_push_sublist (by decide) s.1.ring b).trans
        (hunread.append (List.Sublist.refl [b]))

theorem heard_sssPrepareToListen (events : List WaitEvent) (d : Sss)
    (hlistening : (sssPrepareToListen events d).isListening = true) :
    (sssPrepareToListen events d).ring.unread.Sublist (whileWaiting completed events d) :=
  (Runs.outputs_invariant (fun s e => (waitStep s e, onIrq completed s e)) (P := Heard)
    (s := (sssStopAll d, 0)) ⟨Or.inl (stopped_sssStopAll d), nofun⟩ (fun e _ _ h => h.step e)
    events).unread hlistening

/-! ## Reading -/

/-- The driver in listening mode, as `sssAvailable` and `sssRead` find it. -/
structure Receives (d : Sss) : Prop where
  ready : d.ready = true
  idle : d.numBytesToSend = 0
  listens : Listens d

theorem Receives.whenListening (h : Receives d) (events : List WaitEvent)
    (answer : Sss → Int × Sss) : whenListening events answer d = answer d := by
  unfold ProjZ.whenListening
  rw [if_neg (by rw [h.ready]; decide), if_neg (by rw [h.idle]; decide), if_pos h.listens.listening]

/-- Taking a byte is a `pop` of the ring. -/
theorem takeByte_pop (d : Sss) :
    takeByte d = match d.ring.pop with
      | none => (-1, d)
      | some (b, r) => ((b.toNat : Int), { d with bufTail := r.tail }) := by
  by_cases hempty : d.bufTail = d.bufHead
  · have hpop : d.ring.pop = none := if_pos hempty
    rw [hpop]
    exact if_pos hempty
  · have hpop : d.ring.pop =
        some (d.buffer (d.bufTail + 1), { d.ring with tail := d.bufTail + 1 }) := if_neg hempty
    rw [hpop]
    exact if_neg hempty

theorem takeByte_nil (hunread : d.ring.unread = []) : takeByte d = (-1, d) := by
  rw [takeByte_pop, Ring.pop_nil hunread]

theorem takeByte_cons {b : UInt8} {rest : List UInt8} (hunread : d.ring.unread = b :: rest) :
    takeByte d = ((b.toNat : Int), { d with bufTail := d.bufTail + 1 }) ∧
      ({ d with bufTail := d.bufTail + 1 } : Sss).ring.unread = rest := by
  obtain ⟨hpop, hrest⟩ := Ring.pop_cons hunread
  refine ⟨?_, hrest⟩
  rw [takeByte_pop, hpop]
  rfl

theorem Receives.sssRead_nil (h : Receives d) (events : List WaitEvent)
    (hunread : d.ring.unread = []) : sssRead events d = (-1, d) :=
  (h.whenListening events takeByte).trans (takeByte_nil hunread)

theorem Receives.sssRead_cons (h : Receives d) (events : List WaitEvent) {b : UInt8}
    {rest : List UInt8} (hunread : d.ring.unread = b :: rest) :
    ∃ d', sssRead events d = ((b.toNat : Int), d') ∧ Receives d' ∧ d'.ring.unread = rest := by
  obtain ⟨htake, hrest⟩ := takeByte_cons hunread
  exact ⟨_, (h.whenListening events takeByte).trans htake,
    ⟨h.ready, h.idle, h.listens.listening, h.listens.function⟩, hrest⟩

/-- A `char` holds the difference of two positions. -/
theorem char_of_lt {x : Int} (hlow : -128 ≤ x) (hhigh : x < 128) : char x = x :=
  Int.bmod_eq_of_le hlow hhigh

/-- The count of the code is that of the ring. -/
theorem sssByteCount_eq (d : Sss) : sssByteCount d = (d.ring.unread.length : Int) := by
  have hhead : d.bufHead.val < 32 := d.bufHead.isLt
  have htail : d.bufTail.val < 32 := d.bufTail.isLt
  have hlen : d.ring.unread.length = (32 - d.bufTail.val + d.bufHead.val) % 32 :=
    Ring.length_unread _
  have hdiff : char (d.bufHead.val - d.bufTail.val) = (d.bufHead.val : Int) - d.bufTail.val :=
    char_of_lt (by omega) (by omega)
  unfold sssByteCount
  rw [hdiff, hlen]
  show (if (d.bufHead.val : Int) - d.bufTail.val < 0 then
    char ((d.bufHead.val : Int) - d.bufTail.val + 32) else _) = _
  by_cases hneg : (d.bufHead.val : Int) - d.bufTail.val < 0
  · rw [if_pos hneg, char_of_lt (by omega) (by omega)]
    omega
  · rw [if_neg hneg]
    omega

/-- `sssAvailable` counts the unread bytes. -/
theorem Receives.sssAvailable_eq (h : Receives d) (events : List WaitEvent) :
    sssAvailable events d = ((d.ring.unread.length : Int), d) := by
  unfold sssAvailable
  rw [h.whenListening, sssByteCount_eq]

/-! ## The mode -/

/-- The mode of the driver, and the steps its sender has taken in the slot of a byte. -/
inductive Mode (d : Sss) : Nat → Prop where
  | stopped (h : Stopped d) (hidle : d.numBytesToSend = 0)
      (hfun : d.timerFunctionP ≠ .sssSendBitsISR) : Mode d 0
  | listening (h : Listens d) (hidle : d.numBytesToSend = 0) : Mode d 0
  | talking {k : Nat} (h : Talks d k) : Mode d k

/-- The timer interrupt never calls through the null pointer. -/
theorem Mode.timer2_ne_null (h : Mode d k) (htimer : d.timer2 = true) :
    d.timerFunctionP ≠ .null := by
  cases h with
  | stopped h => exact absurd (htimer.symm.trans h.timer2) (by decide)
  | listening h =>
    rw [h.function]
    decide
  | talking h =>
    cases h.sends with
    | next hfun =>
      rw [hfun]
      decide
    | start hfun =>
      rw [hfun]
      decide
    | data _ hfun =>
      rw [hfun]
      decide

/-- Only the driver in listening mode listens. -/
theorem Mode.listens (h : Mode d k) (hlistening : d.isListening = true) :
    Listens d ∧ d.numBytesToSend = 0 := by
  cases h with
  | stopped h => exact absurd (hlistening.symm.trans h.quiet) (by decide)
  | listening h hidle => exact ⟨h, hidle⟩
  | talking h => exact absurd (hlistening.symm.trans h.quiet) (by decide)

theorem queue_nil (hidle : d.numBytesToSend = 0) : d.queue = [] :=
  List.eq_nil_of_length_eq_zero (by rw [length_queue, hidle])

/-- `sssPrepareToListen` is called with nothing to send. -/
theorem Mode.sssPrepareToListen (h : Mode d k) (hidle : d.numBytesToSend = 0)
    (events : List WaitEvent) : Mode (sssPrepareToListen events d) 0 := by
  have hwaits := waits_sssPrepareToListen events d
  have hidle' := hwaits.idle.trans hidle
  have hfun : d.timerFunctionP ≠ .sssSendBitsISR := by
    cases h with
    | stopped _ _ hfun => exact hfun
    | listening h =>
      rw [h.function]
      decide
    | talking h =>
      cases h.sends with
      | next hfun =>
        rw [hfun]
        decide
      | start _ hnum => exact absurd hidle (Nat.ne_of_gt hnum)
      | data _ _ hnum => exact absurd hidle (Nat.ne_of_gt hnum)
  rcases hwaits.mode with hstopped | hlistens
  · refine .stopped hstopped hidle' ?_
    rcases hwaits.function with hsame | hget
    · rwa [hsame]
    · rw [hget]
      decide
  · exact .listening hlistens hidle'

/-- With nothing to send the sender is at the beginning of a slot. -/
theorem Mode.zero (h : Mode d k) (hidle : d.numBytesToSend = 0) : k = 0 := by
  cases h with
  | stopped => rfl
  | listening => rfl
  | talking h =>
    cases h.sends with
    | next => rfl
    | start _ hnum => exact absurd hidle (Nat.ne_of_gt hnum)
    | data _ _ hnum => exact absurd hidle (Nat.ne_of_gt hnum)

/-- The driver that answers `sssAvailable` or `sssRead`. -/
def listenFirst (events : List WaitEvent) (d : Sss) : Sss :=
  if d.isListening then d else sssPrepareToListen events d

theorem whenListening_busy (hbusy : 0 < d.numBytesToSend) (events : List WaitEvent)
    (answer : Sss → Int × Sss) : whenListening events answer d = (-1, d) := by
  unfold whenListening
  rw [if_pos hbusy, ite_self]

theorem whenListening_idle (hready : d.ready = true) (hidle : d.numBytesToSend = 0)
    (events : List WaitEvent) (answer : Sss → Int × Sss) :
    whenListening events answer d =
      if (listenFirst events d).isListening then answer (listenFirst events d)
      else (-1, listenFirst events d) := by
  unfold whenListening listenFirst
  rw [if_neg (by rw [hready]; decide), if_neg (by rw [hidle]; decide)]
  by_cases hlistening : d.isListening = true
  · rw [if_pos hlistening, if_pos hlistening, if_pos hlistening]
  · rw [if_neg hlistening, if_neg hlistening]

theorem Mode.listenFirst (h : Mode d k) (hidle : d.numBytesToSend = 0) (events : List WaitEvent) :
    Mode (listenFirst events d) 0 ∧ (listenFirst events d).ready = d.ready ∧
      (listenFirst events d).numBytesToSend = 0 := by
  unfold ProjZ.listenFirst
  by_cases hlistening : d.isListening = true
  · rw [if_pos hlistening]
    exact ⟨.listening (h.listens hlistening).1 hidle, rfl, hidle⟩
  · rw [if_neg hlistening]
    have hwaits := waits_sssPrepareToListen events d
    exact ⟨h.sssPrepareToListen hidle events, hwaits.ready, hwaits.idle.trans hidle⟩

/-- A byte that is accepted is what there is to send. -/
theorem sssWrite_idle (hready : d.ready = true) (hidle : d.numBytesToSend = 0) (b : UInt8) :
    Talks (sssWrite b d).2 0 ∧ (sssWrite b d).2.queue = [b] ∧ (sssWrite b d).2.ready = true := by
  have hwrite : sssWrite b d =
      (0, { sssPrepareToTalk d with
        buffer := store d.buffer 0 b, bufferPos := 0, numBytesToSend := 1 }) := by
    unfold sssWrite
    rw [if_neg (by rw [hready]; decide), if_neg (by rw [hidle]; decide)]
    rfl
  rw [hwrite]
  refine ⟨⟨rfl, rfl, rfl, (by decide : 0 + 1 ≤ 32), .next rfl rfl⟩, ?_, hready⟩
  show [fetch (store d.buffer 0 b) 0] = [b]
  rw [fetch_store _ (by decide)]

theorem sssWrite_busy (hbusy : 0 < d.numBytesToSend) (b : UInt8) : (sssWrite b d).2 = d := by
  unfold sssWrite
  rw [if_pos hbusy, ite_self]

/-- What an interrupt does to the mode, the bytes to send and a receiver on the line. -/
structure LineStep (d d' : Sss) (line line' : Uart.Line) : Prop where
  mode : ∃ k, Mode d' k ∧ line'.frame = Uart.frameAt (fetch d'.buffer d'.bufferPos) k
  num_le : d'.numBytesToSend ≤ d.numBytesToSend
  bytes : line'.bytes ++ d'.queue = line.bytes ++ d.queue

/-- A step of the sender, at a receiver that has followed it so far. -/
theorem Talks.lineStep {line : Uart.Line} (h : Talks d k)
    (hframe : line.frame = Uart.frameAt (fetch d.buffer d.bufferPos) k) (rx : Bool) :
    LineStep d (TIMER2_COMPA_vect rx d) line (line.sample (TIMER2_COMPA_vect rx d).tx) := by
  obtain ⟨bytes, frame⟩ := line
  subst hframe
  cases hqueue : d.queue with
  | nil =>
    obtain ⟨rfl, hidle⟩ := h.idle rx hqueue
    have htx : d.tx = true := by
      cases h.sends with
      | next _ htx => exact htx
    rw [hidle, htx]
    exact ⟨⟨0, .talking h, rfl⟩, Nat.le_refl _, rfl⟩
  | cons b rest =>
    have hstep := h.step rx hqueue
    obtain ⟨-, hfirst, -⟩ := queue_cons hqueue
    rw [hfirst]
    rcases hstep.progress with ⟨hk, htalks, hsame⟩ | ⟨rfl, htalks, hrest⟩
    · obtain ⟨-, hfirst', -⟩ := queue_cons (hsame.trans hqueue)
      rw [Uart.sample_slot bytes b hk hstep.level]
      refine ⟨⟨k + 1, .talking htalks, by rw [hfirst']⟩, ?_, by rw [hsame]⟩
      rw [← length_queue, ← length_queue, hsame]
    · rw [Uart.sample_stop]
      refine ⟨⟨0, .talking htalks, rfl⟩, ?_, ?_⟩
      · rw [← length_queue, ← length_queue, hrest, hqueue, List.length_cons]
        exact Nat.le_succ _
      · rw [hrest, hqueue, List.append_assoc]
        rfl

/-- **The line carries what the queue gives up.** -/
theorem Mode.interrupt {line : Uart.Line} (h : Mode d k)
    (hframe : line.frame = Uart.frameAt (fetch d.buffer d.bufferPos) k) (i : Irq) :
    LineStep d (interrupt d i) line ((driven d i).foldl Uart.Line.sample line) := by
  cases h with
  | stopped h hidle hfun =>
    obtain ⟨hsame, -, hdriven⟩ := h.interrupt i
    rw [hsame, hdriven]
    exact ⟨⟨0, .stopped h hidle hfun, hframe⟩, Nat.le_refl _, rfl⟩
  | listening h hidle =>
    have hstep := h.interrupt i
    have hidle' := hstep.idle.trans hidle
    rw [h.driven]
    refine ⟨⟨0, .listening hstep.listens hidle', hframe⟩, Nat.le_of_eq hstep.idle, ?_⟩
    rw [queue_nil hidle, queue_nil hidle']
    rfl
  | talking h =>
    cases i with
    | edge =>
      have hsame : ProjZ.interrupt d .edge = d :=
        if_neg (by rw [h.int1]; exact Bool.false_ne_true)
      rw [hsame]
      exact ⟨⟨k, .talking h, hframe⟩, Nat.le_refl _, rfl⟩
    | match2 rx =>
      rw [h.driven_eq, h.interrupt_eq, List.foldl_cons, List.foldl_nil]
      exact h.lineStep hframe rx

/-- No interrupt routine writes `sssReady` or `sssIsListening`. -/
def SameFlags (d d' : Sss) : Prop := d'.ready = d.ready ∧ d'.isListening = d.isListening

theorem sameFlags_TIMER2_COMPA_vect (rx : Bool) (d : Sss) :
    SameFlags d (TIMER2_COMPA_vect rx d) := by
  unfold TIMER2_COMPA_vect
  cases d.timerFunctionP with
  | null => exact ⟨rfl, rfl⟩
  | sssTimerGetBitsISR =>
    show SameFlags d (countBit (saveByte (addBit rx (stopBits d))))
    unfold saveByte stopBits
    split <;> split <;> exact ⟨rfl, rfl⟩
  | sssSendNextByteISR =>
    show SameFlags d (sssSendNextByteISR d)
    unfold sssSendNextByteISR
    split <;> exact ⟨rfl, rfl⟩
  | sssSendBitsISR =>
    show SameFlags d (sssSendBitsISR d)
    unfold sssSendBitsISR
    split
    · exact ⟨rfl, rfl⟩
    · split <;> exact ⟨rfl, rfl⟩

theorem sameFlags_interrupt (d : Sss) (i : Irq) : SameFlags d (interrupt d i) := by
  cases i with
  | edge =>
    show SameFlags d (if d.int1 then INT1_vect d else d)
    split <;> exact ⟨rfl, rfl⟩
  | match2 rx =>
    show SameFlags d (if d.timer2 then TIMER2_COMPA_vect rx d else d)
    split
    · exact sameFlags_TIMER2_COMPA_vect rx d
    · exact ⟨rfl, rfl⟩

end ProjZ
