import ProjZ.Lib.Runs
import ProjZ.Lib.RingBuffer
import ProjZ.Lib.Uart

/-!
# The software serial driver

The `sss` part of the sketch: a half-duplex UART on Timer2 and interrupt 1, with one
buffer for both directions. `Sss` holds its globals, the two interrupt enables it switches
and the level it drives on Tx; a function of the driver is a function on `Sss`, and so is
each interrupt routine, which takes the level of Rx where it reads it.

- `sssBufTail` and `sssBufHead` are positions in the buffer, and `% sssBufSize` is the
  addition of `Fin`. The other counters are `byte`s: numbers, with the wrap where the
  code computes one.
- An interrupt routine runs when its interrupt is enabled (`interrupt`). It runs as a
  whole, and so does each piece of the other code here: an interrupt between two of its
  statements finds the same as one before or after the piece, but for one place.
- That place is `sssStopAll`. Interrupt 1 between its two lines leaves Timer2 enabled, with
  the routine that receives. Interrupt 1 is enabled while the driver listens, and what is
  stopped then is stopped to send, to begin anew or to end. `sssPrepareToTalk` sets the
  routine and the timer anew and `sssWrite` fills the buffer from its start;
  `sssPrepareToListen` empties the buffer when it starts to listen, after an idle period
  longer than a byte; after `sssEnd`, or without an idle period, the bytes that are
  received land in a buffer that nobody reads. So nothing that is proved here of the
  bytes sent, read or counted depends on it, and it is left out.
- `sssPrepareToListen` waits, and interrupts come while it does. It takes the list of what
  happens in its loop, the checks of the line and the interrupts, up to the timeout.
-/

namespace ProjZ

open RingBuffer

/-- The size of the one buffer. -/
abbrev sssBufSize : Nat := 32

instance : NeZero sssBufSize := ⟨by decide⟩

/-- 20 bits looked at in half the bit interval, and a little extra. -/
def sssMinIdleCount : Nat := 44

/-- A `byte`. -/
def byte (x : Nat) : Nat := x % 256

/-- A `char`, which has a sign. -/
def char (x : Int) : Int := x.bmod 256

/-- What `sssTimerFunctionP` points to. -/
inductive TimerFunction where
  | null
  | sssTimerGetBitsISR
  | sssSendNextByteISR
  | sssSendBitsISR
deriving DecidableEq, Repr

/-- The globals of the driver, and the bits it switches in the registers. -/
structure Sss where
  bufTail : Fin sssBufSize
  bufHead : Fin sssBufSize
  buffer : Fin sssBufSize → UInt8
  bitCount : Nat
  recvByte : UInt8
  isListening : Bool
  ready : Bool
  numBytesToSend : Nat
  bufferPos : Nat
  nextByteToSend : UInt8
  bitPos : Nat
  timerFunctionP : TimerFunction
  /-- Timer2 Compare Match A in `TIMSK2` -/
  timer2 : Bool
  /-- interrupt 1 in `EIMSK` -/
  int1 : Bool
  /-- the level of Tx in `PORTD` -/
  tx : Bool

/-- The globals before `sssBegin`. -/
def Sss.initial : Sss where
  bufTail := 0
  bufHead := 0
  buffer _ := 0
  bitCount := 0
  recvByte := 0
  isListening := false
  ready := false
  numBytesToSend := 0
  bufferPos := 0
  nextByteToSend := 0
  bitPos := 0
  timerFunctionP := .null
  timer2 := false
  int1 := false
  tx := false

/-- `sssBuffer[pos]`. -/
def fetch (buffer : Fin sssBufSize → UInt8) (pos : Nat) : UInt8 :=
  if h : pos < sssBufSize then buffer ⟨pos, h⟩ else 0

/-- The buffer after `sssBuffer[pos] = b`. -/
def store (buffer : Fin sssBufSize → UInt8) (pos : Nat) (b : UInt8) : Fin sssBufSize → UInt8 :=
  if h : pos < sssBufSize then Function.update buffer ⟨pos, h⟩ b else buffer

/-! ## The interrupt routines -/

/-- A start bit is detected: Timer2 runs until the stop bit. -/
def INT1_vect (d : Sss) : Sss :=
  { d with int1 := false, timer2 := true, bitCount := 0, recvByte := 0 }

/-- `sssNewBit`, the level of Rx moved to its place in the byte. -/
def sssNewBit (bitCount : Nat) (rx : Bool) : UInt8 := UInt8.ofNat (byte (rx.toNat <<< bitCount))

/-- The end of a byte, at the stop bit. -/
def stopBits (d : Sss) : Sss :=
  if d.bitCount = 8 then { d with timer2 := false, int1 := true } else d

/-- The bit is added to the byte that is being received. -/
def addBit (rx : Bool) (d : Sss) : Sss :=
  { d with recvByte := d.recvByte + sssNewBit d.bitCount rx }

/-- The head moves on unless that would overwrite the tail; the byte is saved in any case. -/
def saveByte (d : Sss) : Sss :=
  if d.bitCount = 7 then
    let testHead := d.bufHead + 1
    let head := if testHead ≠ d.bufTail then testHead else d.bufHead
    { d with bufHead := head, buffer := Function.update d.buffer head d.recvByte }
  else d

/-- The end of the routine. -/
def countBit (d : Sss) : Sss := { d with bitCount := byte (d.bitCount + 1) }

/-- One sample of Rx. -/
def sssTimerGetBitsISR (rx : Bool) (d : Sss) : Sss :=
  countBit (saveByte (addBit rx (stopBits d)))

/-- The line is idle: the next byte is fetched, if there is one. -/
def sssSendNextByteISR (d : Sss) : Sss :=
  if 0 < d.numBytesToSend then
    { d with
      nextByteToSend := fetch d.buffer d.bufferPos
      bitPos := 0
      timerFunctionP := .sssSendBitsISR }
  else d

/-- One bit of the byte being sent, from the start bit to the stop bit. -/
def sssSendBitsISR (d : Sss) : Sss :=
  if d.bitPos = 9 then
    -- the stop bit
    { d with
      tx := true
      timerFunctionP := .sssSendNextByteISR
      bufferPos := byte (d.bufferPos + 1)
      numBytesToSend := byte (d.numBytesToSend + 255) }
  else if 0 < d.bitPos then
    { d with
      -- bit 0 first
      tx := decide (d.nextByteToSend &&& 1 ≠ 0)
      nextByteToSend := d.nextByteToSend >>> 1
      bitPos := byte (d.bitPos + 1) }
  else { d with tx := false, bitPos := byte (d.bitPos + 1) }

/-- `ISR(TIMER2_COMPA_vect)`. It never runs with a null pointer (`Mode.timer2_ne_null`). -/
def TIMER2_COMPA_vect (rx : Bool) (d : Sss) : Sss :=
  match d.timerFunctionP with
  | .null => d
  | .sssTimerGetBitsISR => sssTimerGetBitsISR rx d
  | .sssSendNextByteISR => sssSendNextByteISR d
  | .sssSendBitsISR => sssSendBitsISR d

/-- The requests for an interrupt: a falling edge on Rx, and a compare match of Timer2 with
the level that is on Rx then. -/
inductive Irq where
  | edge
  | match2 (rx : Bool)
deriving DecidableEq, Repr

/-- A request is served when its interrupt is enabled, and lost otherwise. -/
def interrupt (d : Sss) : Irq → Sss
  | .edge => if d.int1 then INT1_vect d else d
  | .match2 rx => if d.timer2 then TIMER2_COMPA_vect rx d else d

/-- The interrupts of one byte on Rx. -/
def byteIrqs (b : UInt8) : List Irq := .edge :: (Uart.lowBits b 8 ++ [true]).map .match2

/-- The byte that an interrupt completes and stores. -/
def completed (d : Sss) : Irq → List UInt8
  | .edge => []
  | .match2 rx =>
    if d.timer2 ∧ d.timerFunctionP = .sssTimerGetBitsISR ∧ d.bitCount = 7 then
      [(addBit rx d).recvByte]
    else []

/-- The level that an interrupt of the sender leaves on Tx. -/
def driven (d : Sss) (i : Irq) : List Bool :=
  match i with
  | .edge => []
  | .match2 _ =>
    if d.timer2 ∧ (d.timerFunctionP = .sssSendNextByteISR ∨ d.timerFunctionP = .sssSendBitsISR) then
      [(interrupt d i).tx]
    else []

/-! ## The functions of the sketch's main thread -/

/-- Both interrupts are disabled. -/
def sssStopAll (d : Sss) : Sss := { d with timer2 := false, int1 := false, isListening := false }

/-- What happens while `sssPrepareToListen` waits: its loop looks at Rx, or an interrupt. -/
inductive WaitEvent where
  | check (rx : Bool)
  | irq (i : Irq)
deriving DecidableEq, Repr

/-- `sssIdleCount` after a look at Rx. -/
def idleAfter (sssIdleCount : Nat) (rx : Bool) : Nat := if rx then byte (sssIdleCount + 1) else 0

/-- A valid idle period is found. -/
def startListening (d : Sss) : Sss :=
  { d with
    bufHead := 0
    bufTail := 0
    int1 := true
    timerFunctionP := .sssTimerGetBitsISR
    isListening := true }

/-- The driver and `sssIdleCount` after one event. -/
def waitStep (s : Sss × Nat) : WaitEvent → Sss × Nat
  | .check rx =>
    (if sssMinIdleCount ≤ idleAfter s.2 rx then startListening s.1 else s.1, idleAfter s.2 rx)
  | .irq i => (interrupt s.1 i, s.2)

/-- `sssPrepareToListen`, which returns `sssIsListening`. -/
def sssPrepareToListen (events : List WaitEvent) (d : Sss) : Sss :=
  (Runs.run waitStep (sssStopAll d, 0) events).1

/-- What an event of the loop shows of an interrupt. -/
def onIrq {ο : Type} (seen : Sss → Irq → List ο) (s : Sss × Nat) : WaitEvent → List ο
  | .check _ => []
  | .irq i => seen s.1 i

/-- The interrupts of a whole wait, as far as they are seen: with `completed` the bytes
completed, with `driven` the levels on Tx. -/
def whileWaiting {ο : Type} (seen : Sss → Irq → List ο) (events : List WaitEvent) (d : Sss) :
    List ο :=
  Runs.outputs (fun s e => (waitStep s e, onIrq seen s e)) (sssStopAll d, 0) events

/-- The line is driven high and Timer2 runs the sender. -/
def sssPrepareToTalk (d : Sss) : Sss :=
  { sssStopAll d with tx := true, timerFunctionP := .sssSendNextByteISR, timer2 := true }

/-- What it writes to the pin modes and to the prescaler is fixed and not part of the state. -/
def sssBegin (events : List WaitEvent) (d : Sss) : Sss :=
  { sssPrepareToListen events (sssStopAll d) with ready := true }

/-- What `sssAvailable` and `sssRead` begin with: they answer -1 unless the driver is ready,
its sender idle, and the driver listening, if need be after `sssPrepareToListen`. -/
def whenListening (events : List WaitEvent) (answer : Sss → Int × Sss) (d : Sss) : Int × Sss :=
  if d.ready = false then (-1, d)
  else if 0 < d.numBytesToSend then (-1, d)
  else if d.isListening then answer d
  else
    let d := sssPrepareToListen events d
    if d.isListening then answer d else (-1, d)

/-- The distance from the tail to the head, computed in a `char`. -/
def sssByteCount (d : Sss) : Int :=
  let sssByteCount := char (d.bufHead.val - d.bufTail.val)
  if sssByteCount < 0 then char (sssByteCount + sssBufSize) else sssByteCount

/-- `sssAvailable`. The events are those of `sssPrepareToListen`, where it is called. -/
def sssAvailable (events : List WaitEvent) : Sss → Int × Sss :=
  whenListening events fun d => (sssByteCount d, d)

/-- The next byte of the buffer. -/
def takeByte (d : Sss) : Int × Sss :=
  if d.bufTail = d.bufHead then (-1, d)
  else
    let d := { d with bufTail := d.bufTail + 1 }
    ((d.buffer d.bufTail).toNat, d)

/-- The events are those of `sssPrepareToListen`, where it is called. -/
def sssRead (events : List WaitEvent) : Sss → Int × Sss := whenListening events takeByte

/-- `sssWrite` of one byte. -/
def sssWrite (sssInByte : UInt8) (d : Sss) : Int × Sss :=
  if d.ready = false then (-1, d)
  else if 0 < d.numBytesToSend then (-1, d)
  else
    let d := sssPrepareToTalk d
    (0, { d with buffer := store d.buffer 0 sssInByte, bufferPos := 0, numBytesToSend := 1 })

/-- The loop that fills the buffer, from position `n` on. -/
def copyBytes (n : Nat) (sssInByte : List UInt8) (buffer : Fin sssBufSize → UInt8) :
    Fin sssBufSize → UInt8 :=
  match sssInByte with
  | [] => buffer
  | b :: bs => copyBytes (n + 1) bs (store buffer n b)

/-- `sssWrite` of an array of at most 255 bytes. -/
def sssWriteArray (sssInByte : List UInt8) (d : Sss) : Int × Sss :=
  if d.ready = false then (-1, d)
  else if 0 < d.numBytesToSend then (-1, d)
  else
    let d := sssPrepareToTalk d
    if sssBufSize < sssInByte.length then (-1, d)
    else
      (0, { d with
        buffer := copyBytes 0 sssInByte d.buffer
        bufferPos := 0
        numBytesToSend := sssInByte.length })

/-! ## Sending -/

/-- The `n` bytes of the buffer from a position on. -/
def fetchAll (buffer : Fin sssBufSize → UInt8) (pos : Nat) : Nat → List UInt8
  | 0 => []
  | n + 1 => fetch buffer pos :: fetchAll buffer (pos + 1) n

/-- The bytes that are still to be sent, with the one in progress. -/
def Sss.queue (d : Sss) : List UInt8 := fetchAll d.buffer d.bufferPos d.numBytesToSend

@[simp] theorem length_fetchAll (buffer : Fin sssBufSize → UInt8) (pos n : Nat) :
    (fetchAll buffer pos n).length = n := by
  induction n generalizing pos with
  | zero => rfl
  | succ n ih => exact congrArg (· + 1) (ih (pos + 1))

@[simp] theorem length_queue (d : Sss) : d.queue.length = d.numBytesToSend := length_fetchAll ..

theorem fetch_store (buffer : Fin sssBufSize → UInt8) {pos : Nat} (hpos : pos < sssBufSize)
    (b : UInt8) : fetch (store buffer pos b) pos = b := by
  unfold fetch store
  rw [dif_pos hpos, dif_pos hpos, Function.update_self]

/-- The sender has taken `k` of the eleven steps of a byte. -/
inductive Sends (d : Sss) : Nat → Prop where
  | next (hfun : d.timerFunctionP = .sssSendNextByteISR) (htx : d.tx = true) : Sends d 0
  | start (hfun : d.timerFunctionP = .sssSendBitsISR) (hnum : 0 < d.numBytesToSend)
      (hpos : d.bitPos = 0) (hbyte : d.nextByteToSend = fetch d.buffer d.bufferPos) : Sends d 1
  | data {j : Nat} (hj : j ≤ 8) (hfun : d.timerFunctionP = .sssSendBitsISR)
      (hnum : 0 < d.numBytesToSend) (hpos : d.bitPos = j + 1)
      (hbyte : d.nextByteToSend.toNat = (fetch d.buffer d.bufferPos).toNat >>> j) : Sends d (j + 2)

/-- The driver in talking mode. -/
structure Talks (d : Sss) (k : Nat) : Prop where
  quiet : d.isListening = false
  int1 : d.int1 = false
  timer2 : d.timer2 = true
  room : d.bufferPos + d.numBytesToSend ≤ sssBufSize
  sends : Sends d k

/-- What a step of the sender does to the byte it is at. -/
structure SlotStep (d d' : Sss) (k : Nat) (b : UInt8) (rest : List UInt8) : Prop where
  level : (Uart.slot b)[k]? = some d'.tx
  progress : (k < 10 ∧ Talks d' (k + 1) ∧ d'.queue = d.queue) ∨
    (k = 10 ∧ Talks d' 0 ∧ d'.queue = rest)

variable {d : Sss} {k : Nat} {b : UInt8} {rest : List UInt8}

theorem lowest_bit (x : UInt8) : decide (x &&& 1 ≠ 0) = x.toNat.testBit 0 := by
  rw [Nat.testBit_zero, decide_eq_decide, ne_eq, ← UInt8.toNat_inj, UInt8.toNat_and]
  show ¬ x.toNat &&& 1 = 0 ↔ _
  rw [Nat.and_one_is_mod]
  omega

theorem queue_cons (h : d.queue = b :: rest) :
    d.numBytesToSend = rest.length + 1 ∧ fetch d.buffer d.bufferPos = b ∧
      fetchAll d.buffer (d.bufferPos + 1) rest.length = rest := by
  have hlen : d.numBytesToSend = rest.length + 1 := by rw [← length_queue, h, List.length_cons]
  unfold Sss.queue at h
  rw [hlen] at h
  obtain ⟨hfirst, hrest⟩ := List.cons.inj h
  exact ⟨hlen, hfirst, hrest⟩

/-- **One step of the sender drives one level of the slot of its byte.** -/
theorem Talks.step (h : Talks d k) (rx : Bool) (hqueue : d.queue = b :: rest) :
    SlotStep d (TIMER2_COMPA_vect rx d) k b rest := by
  obtain ⟨hnum, hfirst, hrest⟩ := queue_cons hqueue
  have hpos : 0 < d.numBytesToSend := by omega
  cases h.sends with
  | next hfun htx =>
    have hstep : TIMER2_COMPA_vect rx d =
        { d with
          nextByteToSend := fetch d.buffer d.bufferPos
          bitPos := 0
          timerFunctionP := .sssSendBitsISR } := by
      unfold TIMER2_COMPA_vect sssSendNextByteISR
      rw [hfun]
      exact if_pos hpos
    rw [hstep]
    refine ⟨congrArg some htx.symm, Or.inl ⟨by decide, ?_, rfl⟩⟩
    exact ⟨h.quiet, h.int1, h.timer2, h.room, .start rfl hpos rfl rfl⟩
  | start hfun _ hbit hbyte =>
    have hstep : TIMER2_COMPA_vect rx d = { d with tx := false, bitPos := 1 } := by
      unfold TIMER2_COMPA_vect sssSendBitsISR
      rw [hfun, hbit]
      rfl
    rw [hstep]
    refine ⟨rfl, Or.inl ⟨by decide, ?_, rfl⟩⟩
    exact ⟨h.quiet, h.int1, h.timer2, h.room,
      .data (Nat.zero_le 8) hfun hpos rfl (congrArg UInt8.toNat hbyte)⟩
  | @data j hj hfun _ hbit hbyte =>
    rcases Nat.lt_or_eq_of_le hj with hlt | rfl
    · -- a data bit
      have hstep : TIMER2_COMPA_vect rx d =
          { d with
            tx := decide (d.nextByteToSend &&& 1 ≠ 0)
            nextByteToSend := d.nextByteToSend >>> 1
            bitPos := j + 2 } := by
        have hstop : ¬ j + 1 = 9 := by omega
        have hwrap : byte (j + 1 + 1) = j + 2 := Nat.mod_eq_of_lt (by omega)
        unfold TIMER2_COMPA_vect sssSendBitsISR
        rw [hfun, hbit]
        show (if j + 1 = 9 then _ else if 0 < j + 1 then _ else _ : Sss) = _
        rw [if_neg hstop, if_pos (Nat.succ_pos j), hwrap]
      have hlevel : decide (d.nextByteToSend &&& 1 ≠ 0) = b.toNat.testBit j := by
        rw [lowest_bit, hbyte, Nat.testBit_shiftRight, hfirst, Nat.add_zero]
      have hshift : (d.nextByteToSend >>> 1).toNat =
          (fetch d.buffer d.bufferPos).toNat >>> (j + 1) := by
        rw [Nat.shiftRight_add, ← hbyte]
        rfl
      rw [hstep]
      refine ⟨?_, Or.inl ⟨by omega, ?_, rfl⟩⟩
      · rw [Uart.slot_bit b hlt, ← hlevel]
      · exact ⟨h.quiet, h.int1, h.timer2, h.room, .data hlt hfun hpos rfl hshift⟩
    · -- the stop bit
      have hroom : d.bufferPos + d.numBytesToSend ≤ 32 := h.room
      have hstep : TIMER2_COMPA_vect rx d =
          { d with
            tx := true
            timerFunctionP := .sssSendNextByteISR
            bufferPos := d.bufferPos + 1
            numBytesToSend := rest.length } := by
        have hposWrap : byte (d.bufferPos + 1) = d.bufferPos + 1 := Nat.mod_eq_of_lt (by omega)
        have hnumWrap : byte (d.numBytesToSend + 255) = rest.length := by
          rw [hnum, Nat.add_assoc]
          show (rest.length + 256) % 256 = rest.length
          rw [Nat.add_mod_right, Nat.mod_eq_of_lt (by omega)]
        unfold TIMER2_COMPA_vect sssSendBitsISR
        rw [hfun, hbit, hposWrap, hnumWrap]
        rfl
      rw [hstep]
      refine ⟨Uart.slot_stop b, Or.inr ⟨rfl, ?_, hrest⟩⟩
      refine ⟨h.quiet, h.int1, h.timer2, ?_, .next rfl rfl⟩
      show d.bufferPos + 1 + rest.length ≤ 32
      omega

/-- Without a byte the sender does nothing. -/
theorem Talks.idle (h : Talks d k) (rx : Bool) (hqueue : d.queue = []) :
    k = 0 ∧ TIMER2_COMPA_vect rx d = d := by
  have hnum : ¬ 0 < d.numBytesToSend := by
    rw [← length_queue, hqueue]
    exact Nat.lt_irrefl 0
  cases h.sends with
  | next hfun =>
    refine ⟨rfl, ?_⟩
    unfold TIMER2_COMPA_vect sssSendNextByteISR
    rw [hfun]
    exact if_neg hnum
  | start _ hpos => exact absurd hpos hnum
  | data _ _ hpos => exact absurd hpos hnum

end ProjZ
