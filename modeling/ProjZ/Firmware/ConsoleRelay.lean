import ProjZ.Firmware.SerialModes

/-!
# The console relay in `loop`

`loop` copies what the software serial driver receives to the USB `Serial` port, and what
comes from there to the driver. It runs against the interrupts of the driver and the bytes
that arrive at `Serial`, in any order of these.

- `loop` takes a byte out of `Serial` before it knows whether the driver accepts it, and
  does not look at what `sssWrite` answers: `relay_carries_iff`.
- `sssAvailable` and `sssRead` answer -1 where they have no byte. `loop` takes the first for
  true and the second for a character: `relay_written_sublist`.
-/

namespace ProjZ

open RingBuffer

/-- The call that `loop` makes next. -/
inductive LoopAt where
  | sssAvailable
  | sssRead
  | serialAvailable
deriving DecidableEq, Repr

/-- The relay, and what has passed through it: the bytes `loop` took out of `Serial` and
wrote to it, the levels its sender drove, one for each of the sender's steps, and the bytes
its receiver completed. -/
structure Relay where
  driver : Sss
  loopAt : LoopAt
  /-- the bytes that wait in `Serial` -/
  serial : List UInt8
  taken : List UInt8
  written : List UInt8
  levels : List Bool
  completed : List UInt8

/-- What is seen of the interrupts during `sssAvailable` or `sssRead`, which wait if they call
`sssPrepareToListen`. -/
def duringCall {ο : Type} (seen : Sss → Irq → List ο) (events : List WaitEvent) (d : Sss) :
    List ο :=
  if d.ready = true ∧ d.numBytesToSend = 0 ∧ d.isListening = false then
    whileWaiting seen events d
  else []

/-- The byte that `Serial.write(c)` sends after `char c = answer`. -/
def writtenChar (answer : Int) : UInt8 := UInt8.ofNat (char answer % 256).toNat

namespace Relay

/-- The relay after `sssBegin`. -/
def start (events : List WaitEvent) : Relay where
  driver := sssBegin events .initial
  loopAt := .sssAvailable
  serial := []
  taken := []
  written := []
  levels := whileWaiting driven events (sssStopAll .initial)
  completed := whileWaiting ProjZ.completed events (sssStopAll .initial)

/-- A call of the driver, with the interrupts during it. -/
def call (s : Relay) (events : List WaitEvent) (d : Sss) : Relay :=
  { s with
    driver := d
    levels := s.levels ++ duringCall driven events s.driver
    completed := s.completed ++ duringCall ProjZ.completed events s.driver }

/-- `loop` up to its next call of the driver or of `Serial`. -/
def loop (s : Relay) (events : List WaitEvent) : Relay :=
  match s.loopAt with
  | .sssAvailable =>
    -- -1 is taken for bytes that can be read
    let (available, d) := ProjZ.sssAvailable events s.driver
    { s.call events d with loopAt := if available = 0 then .serialAvailable else .sssRead }
  | .sssRead =>
    let (c, d) := ProjZ.sssRead events s.driver
    { s.call events d with
      written := s.written ++ [writtenChar c]
      loopAt := .serialAvailable }
  | .serialAvailable =>
    match s.serial with
    | [] => { s with loopAt := .sssAvailable }
    | c :: serial =>
      -- the value of `sssWrite` is not looked at
      { s with
        driver := (sssWrite c s.driver).2
        serial := serial
        taken := s.taken ++ [c]
        loopAt := .sssAvailable }

end Relay

/-- A byte arrives at `Serial`, an interrupt is requested, or `loop` goes on; the events are
those of `sssPrepareToListen`, if it is called then. -/
inductive RelayEvent where
  | arrive (b : UInt8)
  | irq (i : Irq)
  | loop (events : List WaitEvent)
deriving DecidableEq, Repr

/-- The relay after an event. -/
def relayStep (s : Relay) : RelayEvent → Relay
  | .arrive b => { s with serial := s.serial ++ [b] }
  | .irq i =>
    { s with
      driver := interrupt s.driver i
      levels := s.levels ++ driven s.driver i
      completed := s.completed ++ completed s.driver i }
  | .loop events => s.loop events

variable {s : Relay}

/-! ## The three calls of `loop` -/

theorem Relay.loop_sssAvailable (hat : s.loopAt = .sssAvailable) (events : List WaitEvent) :
    s.loop events =
      { s.call events (sssAvailable events s.driver).2 with
        loopAt :=
          if (sssAvailable events s.driver).1 = 0 then .serialAvailable else .sssRead } := by
  unfold loop
  rw [hat]

theorem Relay.loop_sssRead (hat : s.loopAt = .sssRead) (events : List WaitEvent) :
    s.loop events =
      { s.call events (sssRead events s.driver).2 with
        written := s.written ++ [writtenChar (sssRead events s.driver).1]
        loopAt := .serialAvailable } := by
  unfold loop
  rw [hat]

theorem Relay.loop_serial_nil (hat : s.loopAt = .serialAvailable) (hserial : s.serial = [])
    (events : List WaitEvent) : s.loop events = { s with loopAt := .sssAvailable } := by
  unfold loop
  rw [hat]
  simp only [hserial]

theorem Relay.loop_serial_cons (hat : s.loopAt = .serialAvailable) {c : UInt8}
    {serial : List UInt8} (hserial : s.serial = c :: serial) (events : List WaitEvent) :
    s.loop events =
      { s with
        driver := (sssWrite c s.driver).2
        serial := serial
        taken := s.taken ++ [c]
        loopAt := .sssAvailable } := by
  unfold loop
  rw [hat]
  simp only [hserial]

/-! ## What every state of the relay has -/

theorem duringCall_driven (events : List WaitEvent) (d : Sss) :
    duringCall driven events d = [] := by
  unfold duringCall
  rw [whileWaiting_driven, ite_self]

theorem receive_append (levels more : List Bool) :
    Uart.receive (levels ++ more) = more.foldl Uart.Line.sample (Uart.receive levels) :=
  List.foldl_append

/-- The relay in every state it reaches: the driver is ready and in one of its modes, and a
receiver on its line is where its sender is. -/
structure Relay.Inv (s : Relay) : Prop where
  ready : s.driver.ready = true
  num_le : s.driver.numBytesToSend ≤ 1
  mode : ∃ k, Mode s.driver k ∧
    (Uart.receive s.levels).frame = Uart.frameAt (fetch s.driver.buffer s.driver.bufferPos) k

/-- The bytes the sender has shifted out, and the one that it still has. -/
def Relay.carried (s : Relay) : List UInt8 :=
  (Uart.receive s.levels).bytes ++ s.driver.queue

/-- With nothing to send no frame is open on the line. -/
theorem Relay.Inv.frame_none (h : s.Inv) (hidle : s.driver.numBytesToSend = 0) :
    (Uart.receive s.levels).frame = none := by
  obtain ⟨k, hmode, hframe⟩ := h.mode
  rw [hframe, hmode.zero hidle]
  rfl

/-- The driver after a call of `sssAvailable` or `sssRead` that had something to do. -/
structure Called (d : Sss) : Prop where
  ready : d.ready = true
  idle : d.numBytesToSend = 0
  mode : Mode d 0

theorem Relay.Inv.listenFirst (h : s.Inv) (hidle : s.driver.numBytesToSend = 0)
    (events : List WaitEvent) : Called (listenFirst events s.driver) := by
  obtain ⟨k, hmode, -⟩ := h.mode
  obtain ⟨hmode', hready, hidle'⟩ := hmode.listenFirst hidle events
  exact ⟨hready.trans h.ready, hidle', hmode'⟩

/-- A call either finds the sender busy and does nothing, or ends in a `Called` driver. -/
theorem Relay.Inv.call (h : s.Inv) (events : List WaitEvent) {d : Sss}
    (hd : (0 < s.driver.numBytesToSend ∧ d = s.driver) ∨
      (s.driver.numBytesToSend = 0 ∧ Called d)) :
    (s.call events d).Inv ∧ (s.call events d).carried = s.carried := by
  have hlevels : (s.call events d).levels = s.levels := by
    show s.levels ++ duringCall driven events s.driver = s.levels
    rw [duringCall_driven, List.append_nil]
  rcases hd with ⟨-, rfl⟩ | ⟨hidle, hcalled⟩
  · refine ⟨⟨h.ready, h.num_le, ?_⟩, ?_⟩
    · rw [hlevels]
      exact h.mode
    · unfold carried
      rw [hlevels]
      rfl
  · have hdriver : (s.call events d).driver = d := rfl
    refine ⟨⟨hcalled.ready, by rw [hdriver, hcalled.idle]; decide, 0, hcalled.mode, ?_⟩, ?_⟩
    · rw [hlevels]
      exact h.frame_none hidle
    · unfold carried
      rw [hlevels, hdriver, queue_nil hidle, queue_nil hcalled.idle]

theorem Relay.Inv.whenListening (h : s.Inv) (events : List WaitEvent)
    (answer : Sss → Int × Sss) (hanswer : ∀ d, Called d → Listens d → Called (answer d).2) :
    (0 < s.driver.numBytesToSend ∧ (whenListening events answer s.driver).2 = s.driver) ∨
      (s.driver.numBytesToSend = 0 ∧ Called (whenListening events answer s.driver).2) := by
  rcases Nat.eq_zero_or_pos s.driver.numBytesToSend with hidle | hbusy
  · refine Or.inr ⟨hidle, ?_⟩
    have hcalled := h.listenFirst hidle events
    rw [whenListening_idle h.ready hidle]
    by_cases hlistening : (ProjZ.listenFirst events s.driver).isListening = true
    · rw [if_pos hlistening]
      exact hanswer _ hcalled (hcalled.mode.listens hlistening).1
    · rw [if_neg hlistening]
      exact hcalled
  · rw [whenListening_busy hbusy]
    exact Or.inl ⟨hbusy, rfl⟩

theorem Called.takeByte {d : Sss} (h : Called d) (hlistens : Listens d) :
    Called (takeByte d).2 := by
  unfold ProjZ.takeByte
  split
  · exact h
  · exact ⟨h.ready, h.idle, .listening ⟨hlistens.listening, hlistens.function⟩ h.idle⟩

/-! ## From USB to the host -/

/-- `loop` takes a byte out of `Serial` while the sender has one. -/
inductive Drops (s : Relay) : RelayEvent → Prop where
  | loop {events : List WaitEvent} (hat : s.loopAt = .serialAvailable) (hserial : s.serial ≠ [])
      (hbusy : 0 < s.driver.numBytesToSend) : Drops s (.loop events)

/-- What one event adds to the bytes taken, it adds to the bytes carried, but for the one it
drops. -/
inductive CarryStep (s s' : Relay) (e : RelayEvent) : Prop where
  | carries (hsafe : ¬ Drops s e) (bytes : List UInt8) (htaken : s'.taken = s.taken ++ bytes)
      (hcarried : s'.carried = s.carried ++ bytes)
  | drops (hdrops : Drops s e) (b : UInt8) (htaken : s'.taken = s.taken ++ [b])
      (hcarried : s'.carried = s.carried)

theorem not_drops_of_at {events : List WaitEvent} (hat : s.loopAt ≠ .serialAvailable) :
    ¬ Drops s (.loop events) := fun h => by
  obtain ⟨hat', -, -⟩ := h
  exact hat hat'

/-- One call of `loop`. -/
theorem Relay.Inv.loop (h : s.Inv) (events : List WaitEvent) :
    (s.loop events).Inv ∧ CarryStep s (s.loop events) (.loop events) := by
  cases hat : s.loopAt with
  | sssAvailable =>
    obtain ⟨hinv, hcarried⟩ := h.call events (h.whenListening events
      (fun d => (sssByteCount d, d)) fun d hd _ => hd)
    have hsafe : ¬ Drops s (.loop events) := not_drops_of_at (by rw [hat]; decide)
    rw [loop_sssAvailable hat]
    refine ⟨⟨hinv.ready, hinv.num_le, hinv.mode⟩, .carries hsafe [] ?_ ?_⟩
    · exact (List.append_nil _).symm
    · rw [List.append_nil]
      exact hcarried
  | sssRead =>
    obtain ⟨hinv, hcarried⟩ := h.call events (h.whenListening events
      takeByte fun d hd hlistens => hd.takeByte hlistens)
    have hsafe : ¬ Drops s (.loop events) := not_drops_of_at (by rw [hat]; decide)
    rw [loop_sssRead hat]
    refine ⟨⟨hinv.ready, hinv.num_le, hinv.mode⟩, .carries hsafe [] ?_ ?_⟩
    · exact (List.append_nil _).symm
    · rw [List.append_nil]
      exact hcarried
  | serialAvailable =>
    cases hserial : s.serial with
    | nil =>
      have hsafe : ¬ Drops s (.loop events) := by
        rintro ⟨-, hserial', -⟩
        exact hserial' hserial
      rw [loop_serial_nil hat hserial]
      exact ⟨⟨h.ready, h.num_le, h.mode⟩, .carries hsafe [] (List.append_nil _).symm
        (List.append_nil _).symm⟩
    | cons c serial =>
      rw [loop_serial_cons hat hserial]
      rcases Nat.eq_zero_or_pos s.driver.numBytesToSend with hidle | hbusy
      · -- the driver accepts the byte
        have hsafe : ¬ Drops s (.loop events) := by
          rintro ⟨-, -, hbusy⟩
          exact absurd hidle (Nat.ne_of_gt hbusy)
        obtain ⟨htalks, hqueue, hready⟩ := sssWrite_idle h.ready hidle c
        have hnum : (sssWrite c s.driver).2.numBytesToSend = 1 := by
          rw [← length_queue, hqueue]
          rfl
        refine ⟨⟨hready, Nat.le_of_eq hnum, 0, .talking htalks, h.frame_none hidle⟩,
          .carries hsafe [c] rfl ?_⟩
        show (Uart.receive s.levels).bytes ++ (sssWrite c s.driver).2.queue = s.carried ++ [c]
        unfold carried
        rw [hqueue, queue_nil hidle, List.append_nil]
      · -- the driver refuses it, and it is gone
        have hdrops : Drops s (.loop events) :=
          ⟨hat, by rw [hserial]; exact List.cons_ne_nil c serial, hbusy⟩
        rw [sssWrite_busy hbusy]
        exact ⟨⟨h.ready, h.num_le, h.mode⟩, .drops hdrops c rfl rfl⟩

/-- **One event of the relay.** -/
theorem Relay.Inv.step (h : s.Inv) (e : RelayEvent) :
    (relayStep s e).Inv ∧ CarryStep s (relayStep s e) e := by
  cases e with
  | arrive b =>
    exact ⟨⟨h.ready, h.num_le, h.mode⟩, .carries nofun [] (List.append_nil _).symm
      (List.append_nil _).symm⟩
  | irq i =>
    obtain ⟨k, hmode, hframe⟩ := h.mode
    have hstep := hmode.interrupt hframe i
    obtain ⟨k', hmode', hframe'⟩ := hstep.mode
    refine ⟨⟨(sameFlags_interrupt s.driver i).1.trans h.ready, Nat.le_trans hstep.num_le h.num_le,
      k', hmode', ?_⟩, .carries nofun [] (List.append_nil _).symm ?_⟩
    · show (Uart.receive (s.levels ++ driven s.driver i)).frame = _
      rw [receive_append]
      exact hframe'
    · show (Uart.receive (s.levels ++ driven s.driver i)).bytes ++ _ = s.carried ++ []
      rw [receive_append, List.append_nil]
      exact hstep.bytes
  | loop events => exact h.loop events

/-- The relay as `setup` leaves it. -/
theorem Relay.inv_start (events : List WaitEvent) : (Relay.start events).Inv := by
  have hinitial : Mode (sssStopAll .initial) 0 :=
    .stopped (stopped_sssStopAll _) rfl (by decide)
  have hmode := hinitial.sssPrepareToListen rfl events
  have hidle : (sssPrepareToListen events (sssStopAll .initial)).numBytesToSend = 0 :=
    (waits_sssPrepareToListen events (sssStopAll .initial)).idle
  refine ⟨rfl, Nat.le_trans (Nat.le_of_eq hidle) (Nat.zero_le 1), 0, ?_, ?_⟩
  · show Mode (sssBegin events .initial) 0
    cases hmode with
    | stopped h _ hfun => exact .stopped ⟨h.quiet, h.int1, h.timer2⟩ hidle hfun
    | listening h => exact .listening ⟨h.listening, h.function⟩ hidle
    | talking h => exact .talking ⟨h.quiet, h.int1, h.timer2, h.room, by
        cases h.sends with
        | next hfun htx => exact .next hfun htx⟩
  · show (Uart.receive (whileWaiting driven events (sssStopAll .initial))).frame = _
    rw [whileWaiting_driven]
    rfl

theorem Relay.inv_run (events : List WaitEvent) (es : List RelayEvent) :
    (Runs.run relayStep (.start events) es).Inv :=
  Runs.run_invariant (inv_start events) (fun e _ h => (h.step e).1) es

/-- The bytes the sender has shifted out, and then the one it is sending, are those that
`loop` took out of `Serial`. -/
def Relay.Carried (s : Relay) : Prop :=
  (Uart.receive s.levels).bytes ++ s.driver.queue.take 1 = s.taken

theorem Relay.Inv.carried_iff (h : s.Inv) : s.Carried ↔ s.carried = s.taken := by
  have hqueue : s.driver.queue.take 1 = s.driver.queue := by
    rw [List.take_of_length_le]
    rw [length_queue]
    exact h.num_le
  unfold Carried carried
  rw [hqueue]

/-- **The relay carries every byte it takes, exactly as long as `loop` takes none while the
sender has one.** -/
theorem relay_carries_iff (events : List WaitEvent) (es : List RelayEvent) :
    (∀ pre suf, es = pre ++ suf → (Runs.run relayStep (.start events) pre).Carried) ↔
      ∀ pre e suf, es = pre ++ e :: suf → ¬ Drops (Runs.run relayStep (.start events) pre) e := by
  have hstart : (Relay.start events).Inv ∧ (Relay.start events).carried = [] := by
    refine ⟨Relay.inv_start events, ?_⟩
    -- nothing has been driven or queued yet
    have hidle := (waits_sssPrepareToListen events (sssStopAll .initial)).idle
    show (Uart.receive (whileWaiting driven events (sssStopAll .initial))).bytes ++
      (Relay.start events).driver.queue = []
    rw [whileWaiting_driven, queue_nil (d := (Relay.start events).driver) hidle]
    rfl
  refine Iff.trans ?_ (Runs.run_always_iff (P := fun s : Relay => s.Inv ∧ s.carried = s.taken)
    (G := fun s e => ¬ Drops s e) hstart ?_ es)
  · constructor
    · intro hcarried pre suf hsplit
      have hinv := Relay.inv_run events pre
      exact ⟨hinv, hinv.carried_iff.mp (hcarried pre suf hsplit)⟩
    · intro hboth pre suf hsplit
      obtain ⟨hinv, hcarried⟩ := hboth pre suf hsplit
      exact hinv.carried_iff.mpr hcarried
  · rintro e s ⟨hinv, hcarried⟩
    -- one event: it carries what it takes, or drops a byte
    obtain ⟨hinv', hstep⟩ := hinv.step e
    cases hstep with
    | carries hsafe bytes htaken hcarried' =>
      refine iff_of_true ⟨hinv', ?_⟩ hsafe
      rw [hcarried', htaken, hcarried]
    | drops hdrops b htaken hcarried' =>
      refine iff_of_false ?_ (not_not_intro hdrops)
      rintro ⟨-, heq⟩
      rw [hcarried', htaken, hcarried] at heq
      exact absurd heq (by simp)

/-- Two bytes arrive while `loop` runs once around for each. -/
theorem relay_drops :
    ¬ (Runs.run relayStep (.start (List.replicate 44 (.check true)))
      ([.arrive 0x41, .arrive 0x42] ++ List.replicate 5 (.loop []))).Carried := by
  unfold Relay.Carried
  decide +kernel

/-! ## From the host to USB -/

/-- `loop` calls `sssRead` where this has no byte to return: the sender has one, the line is
not idle, or nothing is unread. -/
inductive Invents (s : Relay) : RelayEvent → Prop where
  | busy {events : List WaitEvent} (hat : s.loopAt = .sssRead)
      (hbusy : 0 < s.driver.numBytesToSend) : Invents s (.loop events)
  | empty {events : List WaitEvent} (hat : s.loopAt = .sssRead)
      (hnone : (listenFirst events s.driver).isListening = true →
        (listenFirst events s.driver).ring.unread = []) : Invents s (.loop events)

/-- What was written comes from the line, and so does what is unread, in this order. -/
structure Relay.Faithful (s : Relay) : Prop where
  written : s.written.Sublist s.completed
  unread : s.driver.isListening = true →
    (s.written ++ s.driver.ring.unread).Sublist s.completed

theorem writtenChar_toNat (b : UInt8) : writtenChar (b.toNat : Int) = b := by
  have hlt := b.toNat_lt
  have hmod : char (b.toNat : Int) % 256 = (b.toNat : Int) := by
    show (b.toNat : Int).bmod 256 % ((256 : Nat) : Int) = _
    rw [Int.bmod_emod]
    exact Int.emod_eq_of_lt (by omega) (by omega)
  unfold writtenChar
  rw [hmod, Int.toNat_natCast, UInt8.ofNat_toNat]

/-- What is unread when the driver answers a call. -/
theorem Relay.Faithful.listenFirst (h : s.Faithful) (hinv : s.Inv)
    (hidle : s.driver.numBytesToSend = 0) (events : List WaitEvent)
    (hlistening : (listenFirst events s.driver).isListening = true) :
    (s.written ++ (ProjZ.listenFirst events s.driver).ring.unread).Sublist
      (s.completed ++ duringCall ProjZ.completed events s.driver) := by
  unfold ProjZ.listenFirst at hlistening ⊢
  unfold duringCall
  by_cases hbefore : s.driver.isListening = true
  · have hnone : ¬ (s.driver.ready = true ∧ s.driver.numBytesToSend = 0 ∧
        s.driver.isListening = false) := fun hh => absurd (hbefore.symm.trans hh.2.2) (by decide)
    rw [if_pos hbefore, if_neg hnone, List.append_nil]
    exact h.unread hbefore
  · have hwaits : s.driver.ready = true ∧ s.driver.numBytesToSend = 0 ∧
        s.driver.isListening = false := ⟨hinv.ready, hidle, Bool.eq_false_iff.mpr hbefore⟩
    rw [if_neg hbefore] at hlistening ⊢
    rw [if_pos hwaits]
    exact h.written.append (heard_sssPrepareToListen events s.driver hlistening)

theorem Relay.Faithful.irq (h : s.Faithful) (i : Irq) (hinv : s.Inv) :
    (relayStep s (.irq i)).Faithful := by
  refine ⟨h.written.trans (List.sublist_append_left _ _), ?_⟩
  intro hlistening
  show (s.written ++ (interrupt s.driver i).ring.unread).Sublist
    (s.completed ++ ProjZ.completed s.driver i)
  obtain ⟨k, hmode, -⟩ := hinv.mode
  have hbefore : s.driver.isListening = true :=
    (sameFlags_interrupt s.driver i).2.symm.trans hlistening
  have hunread := h.unread hbefore
  rcases ((hmode.listens hbefore).1.interrupt i).ring with ⟨hnone, hring⟩ | ⟨b, hb, hring⟩
  · rw [hring, hnone, List.append_nil]
    exact hunread
  · have hpush := Ring.unread_push_sublist (by decide) s.driver.ring b
    rw [hring, hb]
    refine ((List.Sublist.refl s.written).append hpush).trans ?_
    rw [← List.append_assoc]
    exact hunread.append (List.Sublist.refl [b])

theorem Relay.Faithful.loop (h : s.Faithful) (hinv : s.Inv) {events : List WaitEvent}
    (hsafe : ¬ Invents s (.loop events)) : (s.loop events).Faithful := by
  have hmore {bytes : List UInt8} : s.written.Sublist (s.completed ++ bytes) :=
    h.written.trans (List.sublist_append_left _ _)
  cases hat : s.loopAt with
  | sssAvailable =>
    rw [loop_sssAvailable hat]
    refine ⟨hmore, ?_⟩
    unfold ProjZ.sssAvailable
    -- only a driver with nothing to send goes over to listening
    rcases Nat.eq_zero_or_pos s.driver.numBytesToSend with hidle | hbusy
    · have hdriver : (whenListening events (fun d => (sssByteCount d, d)) s.driver).2 =
          ProjZ.listenFirst events s.driver := by
        rw [whenListening_idle hinv.ready hidle]
        split <;> rfl
      rw [hdriver]
      exact h.listenFirst hinv hidle events
    · rw [whenListening_busy hbusy]
      intro hlistening
      exact (h.unread hlistening).trans (List.sublist_append_left _ _)
  | sssRead =>
    have hidle : s.driver.numBytesToSend = 0 := by
      by_contra hbusy
      exact hsafe (.busy hat (Nat.pos_of_ne_zero hbusy))
    -- what `Invents` excludes: the driver listens, and has a byte
    have hoffers : (ProjZ.listenFirst events s.driver).isListening = true ∧
        (ProjZ.listenFirst events s.driver).ring.unread ≠ [] := by
      by_contra hnot
      refine hsafe (.empty hat fun hlistening => ?_)
      by_contra hunread
      exact hnot ⟨hlistening, hunread⟩
    obtain ⟨b, rest, hunread⟩ := List.exists_cons_of_ne_nil hoffers.2
    obtain ⟨htake, hrest⟩ := takeByte_cons hunread
    have hread : ProjZ.sssRead events s.driver = _ :=
      (whenListening_idle hinv.ready hidle events takeByte).trans
        ((if_pos hoffers.1).trans htake)
    have hsub := h.listenFirst hinv hidle events hoffers.1
    rw [hunread, List.append_cons] at hsub
    rw [loop_sssRead hat, hread, writtenChar_toNat]
    refine ⟨(List.sublist_append_left _ _).trans hsub, ?_⟩
    intro _
    show ((s.written ++ [b]) ++ ({ ProjZ.listenFirst events s.driver with
      bufTail := (ProjZ.listenFirst events s.driver).bufTail + 1 } : Sss).ring.unread).Sublist _
    rw [hrest]
    exact hsub
  | serialAvailable =>
    cases hserial : s.serial with
    | nil =>
      rw [loop_serial_nil hat hserial]
      exact ⟨h.written, h.unread⟩
    | cons c serial =>
      rw [loop_serial_cons hat hserial]
      refine ⟨h.written, ?_⟩
      rcases Nat.eq_zero_or_pos s.driver.numBytesToSend with hidle | hbusy
      · intro hlistening
        -- the driver turns to talking, so there is nothing unread to answer for
        have hquiet := (sssWrite_idle hinv.ready hidle c).1.quiet
        exact absurd (hlistening.symm.trans hquiet) (by decide)
      · rw [sssWrite_busy hbusy]
        exact h.unread

theorem Relay.Faithful.step (h : s.Faithful) (hinv : s.Inv) {e : RelayEvent}
    (hsafe : ¬ Invents s e) : (relayStep s e).Faithful := by
  cases e with
  | arrive b => exact ⟨h.written, h.unread⟩
  | irq i => exact h.irq i hinv
  | loop events => exact h.loop hinv hsafe

theorem Relay.faithful_start (events : List WaitEvent) : (Relay.start events).Faithful :=
  ⟨List.nil_sublist _, heard_sssPrepareToListen events (sssStopAll .initial)⟩

/-- **What the relay writes to USB are bytes from the line in their order, as long as `sssRead`
has a byte whenever `loop` calls it.** -/
theorem relay_written_sublist (events : List WaitEvent) (es : List RelayEvent)
    (hsafe : ∀ pre e suf, es = pre ++ e :: suf →
      ¬ Invents (Runs.run relayStep (.start events) pre) e)
    (pre suf : List RelayEvent) (hsplit : es = pre ++ suf) :
    (Runs.run relayStep (.start events) pre).written.Sublist
      (Runs.run relayStep (.start events) pre).completed := by
  have hfaithful : (Runs.run relayStep (.start events) pre).Faithful := by
    induction pre using List.reverseRecOn generalizing suf with
    | nil => exact Relay.faithful_start events
    | append_singleton pre e ih =>
      rw [List.append_assoc] at hsplit
      rw [Runs.run_concat]
      exact (ih _ hsplit).step (Relay.inv_run events pre) (hsafe pre e suf hsplit)
  exact hfaithful.written

/-- A wait in which the line is idle, and then brings a byte. -/
def idleThen (b : UInt8) : List WaitEvent :=
  List.replicate 44 (.check true) ++ (byteIrqs b).map .irq

/-- A byte that comes while `setup` waits, and is read. -/
theorem relay_written_one :
    (Runs.run relayStep (.start (idleThen 0x41)) [.loop [], .loop []]).written.Sublist
      (Runs.run relayStep (.start (idleThen 0x41)) [.loop [], .loop []]).completed := by
  have hfirst (e : RelayEvent) : ¬ Invents (.start (idleThen 0x41)) e := by
    intro hinvents
    cases hinvents with
    | busy hat => exact absurd hat (by decide +kernel)
    | empty hat => exact absurd hat (by decide +kernel)
  have hsecond :
      ¬ Invents (Runs.run relayStep (.start (idleThen 0x41)) [.loop []]) (.loop []) := by
    intro hinvents
    cases hinvents with
    | busy _ hbusy => exact absurd hbusy (by decide +kernel)
    | empty _ hnone => exact absurd (hnone (by decide +kernel)) (by decide +kernel)
  refine relay_written_sublist (idleThen 0x41) [.loop [], .loop []] ?_ [.loop [], .loop []] [] rfl
  rintro (_ | ⟨x, _ | ⟨y, pre⟩⟩) e suf hsplit
  · exact hfirst e
  · obtain ⟨rfl, hrest⟩ := List.cons.inj hsplit
    obtain ⟨rfl, -⟩ := List.cons.inj hrest
    exact hsecond
  · have hlen := congrArg List.length hsplit
    simp at hlen

/-- `loop` runs on while the driver sends. -/
theorem relay_invents :
    ¬ (Runs.run relayStep (.start (List.replicate 44 (.check true)))
        (.arrive 0x41 :: List.replicate 4 (.loop []))).written.Sublist
      (Runs.run relayStep (.start (List.replicate 44 (.check true)))
        (.arrive 0x41 :: List.replicate 4 (.loop []))).completed := by
  decide +kernel

end ProjZ
