import ProjZ.Firmware.ReceiveBuffer

/-!
# From one driver to another over the line

What `sssWrite` queues, the timer steps of the sender put on Tx as one slot for each byte
(`Talks.run`), and a listening driver at the other end, which has its edge or its timer
step once in each bit time, pushes the byte of each slot (`Armed.slot`). Together
(`line_round_trip`) the bytes written are the bytes read.
-/

namespace ProjZ

open RingBuffer

variable {d : Sss} {k : Nat}

/-! ## The sender -/

/-- An interrupt, with the level it leaves on Tx. -/
def sendAct (d : Sss) (i : Irq) : Sss × List Bool := (interrupt d i, driven d i)

/-- The levels that are still to come. -/
def Sss.todo (d : Sss) (k : Nat) : List Bool := (d.queue.flatMap Uart.slot).drop k

/-- The levels of a queue, from a place in its first byte on. -/
theorem todo_cons {b : UInt8} {rest : List UInt8} (hqueue : d.queue = b :: rest) (hk : k ≤ 10) :
    d.todo k = (Uart.slot b)[k]?.toList ++ d.todo (k + 1) := by
  have hlen : k < (Uart.slot b).length := by
    rw [Uart.length_slot]
    exact Nat.lt_succ_of_le hk
  unfold Sss.todo
  rw [hqueue, List.flatMap_cons, List.drop_eq_getElem?_toList_append,
    List.getElem?_append_left hlen]

/-- **Every step of the sender drives the next level, and with none left a high one.** -/
theorem Talks.step_todo (h : Talks d k) (rx : Bool) :
    ∃ k', Talks (interrupt d (.match2 rx)) k' ∧
      driven d (.match2 rx) = [(d.todo k).headD true] ∧
      (interrupt d (.match2 rx)).todo k' = (d.todo k).tail := by
  rw [h.driven_eq, h.interrupt_eq]
  cases hqueue : d.queue with
  | nil =>
    -- nothing to send: the line stays high
    obtain ⟨rfl, hidle⟩ := h.idle rx hqueue
    have htodo : d.todo 0 = [] := by
      unfold Sss.todo
      rw [hqueue]
      rfl
    have htx : d.tx = true := by
      cases h.sends with
      | next _ htx => exact htx
    rw [hidle, htodo, htx]
    exact ⟨0, h, rfl, htodo⟩
  | cons b rest =>
    have hstep := h.step rx hqueue
    have htodo := todo_cons hqueue h.le
    rw [hstep.level] at htodo
    rw [htodo]
    -- a level of the same byte, or the last one of it
    rcases hstep.progress with ⟨-, htalks, hsame⟩ | ⟨rfl, htalks, hrest⟩
    · refine ⟨k + 1, htalks, rfl, ?_⟩
      unfold Sss.todo
      rw [hsame]
      rfl
    · refine ⟨0, htalks, rfl, ?_⟩
      unfold Sss.todo
      rw [hrest, hqueue]
      rfl

/-- The number of bytes left, from the number of levels. -/
theorem Talks.numBytesToSend_eq (h : Talks d k) :
    d.numBytesToSend = ((d.todo k).length + 10) / 11 := by
  have hlen : (d.todo k).length = 11 * d.numBytesToSend - k := by
    unfold Sss.todo
    rw [List.length_drop, Uart.length_flatMap_slot, length_queue]
  rw [hlen]
  cases h.sends with
  | next => omega
  | start _ hnum => omega
  | data hj _ hnum => omega

/-- The levels of one more step, when those after the last one are high. -/
theorem take_levels (levels : List Bool) (m : Nat) :
    [levels.headD true] ++ (levels.tail ++ List.replicate m true).take m =
      (levels ++ List.replicate (m + 1) true).take (m + 1) := by
  cases levels with
  | nil => rfl
  | cons level levels =>
    have hlen : m ≤ (levels ++ List.replicate m true).length := by
      rw [List.length_append, List.length_replicate]
      exact Nat.le_add_left m _
    show level :: (levels ++ List.replicate m true).take m =
      level :: (levels ++ List.replicate (m + 1) true).take m
    rw [List.replicate_succ', ← List.append_assoc, List.take_append_of_le_length hlen]

/-- **Any number of steps.** -/
theorem Talks.run (h : Talks d k) (rxs : List Bool) :
    ∃ k', Talks (Runs.final sendAct d (rxs.map .match2)) k' ∧
      (Runs.final sendAct d (rxs.map .match2)).todo k' = (d.todo k).drop rxs.length ∧
      Runs.outputs sendAct d (rxs.map .match2) =
        (d.todo k ++ List.replicate rxs.length true).take rxs.length := by
  induction rxs generalizing d k with
  | nil => exact ⟨k, h, rfl, rfl⟩
  | cons rx rxs ih =>
    obtain ⟨k₁, h₁, hlevel, htodo₁⟩ := h.step_todo rx
    obtain ⟨k₂, h₂, htodo₂, hlevels⟩ := ih h₁
    refine ⟨k₂, h₂, ?_, ?_⟩
    · rw [List.length_cons, ← List.drop_tail, ← htodo₁]
      exact htodo₂
    · rw [List.map_cons, Runs.outputs_cons, List.length_cons, ← take_levels, ← htodo₁, ← hlevels,
        ← hlevel]
      rfl

/-! ## What `sssWrite` queues -/

theorem fetch_store_of_ne (buffer : Fin sssBufSize → UInt8) {pos n : Nat} (hne : pos ≠ n)
    (b : UInt8) : fetch (store buffer n b) pos = fetch buffer pos := by
  unfold store
  by_cases hn : n < sssBufSize
  · rw [dif_pos hn]
    unfold fetch
    by_cases hpos : pos < sssBufSize
    · have hother : (⟨pos, hpos⟩ : Fin sssBufSize) ≠ ⟨n, hn⟩ := fun heq => hne (Fin.mk.inj heq)
      rw [dif_pos hpos, dif_pos hpos, Function.update_of_ne hother]
    · rw [dif_neg hpos, dif_neg hpos]
  · rw [dif_neg hn]

/-- Positions before the ones that are filled keep what they have. -/
theorem fetch_copyBytes (bytes : List UInt8) (buffer : Fin sssBufSize → UInt8) {pos n : Nat}
    (hpos : pos < n) : fetch (copyBytes n bytes buffer) pos = fetch buffer pos := by
  induction bytes generalizing n buffer with
  | nil => rfl
  | cons b bytes ih =>
    show fetch (copyBytes (n + 1) bytes (store buffer n b)) pos = _
    rw [ih _ (Nat.lt_succ_of_lt hpos), fetch_store_of_ne _ (Nat.ne_of_lt hpos)]

theorem fetchAll_copyBytes (bytes : List UInt8) (buffer : Fin sssBufSize → UInt8) {n : Nat}
    (hroom : n + bytes.length ≤ sssBufSize) :
    fetchAll (copyBytes n bytes buffer) n bytes.length = bytes := by
  induction bytes generalizing n buffer with
  | nil => rfl
  | cons b bytes ih =>
    rw [List.length_cons] at hroom
    have hfirst : fetch (copyBytes (n + 1) bytes (store buffer n b)) n = b := by
      rw [fetch_copyBytes _ _ (Nat.lt_succ_self n), fetch_store _ (by omega)]
    have hrest :
        fetchAll (copyBytes (n + 1) bytes (store buffer n b)) (n + 1) bytes.length = bytes :=
      ih _ (by omega)
    show fetch (copyBytes (n + 1) bytes (store buffer n b)) n ::
      fetchAll (copyBytes (n + 1) bytes (store buffer n b)) (n + 1) bytes.length = _
    rw [hfirst, hrest]

/-- An accepted array is what is to be sent. -/
theorem talks_sssWriteArray {bytes : List UInt8} (hready : d.ready = true)
    (hidle : d.numBytesToSend = 0) (hle : bytes.length ≤ sssBufSize) :
    (sssWriteArray bytes d).1 = 0 ∧ Talks (sssWriteArray bytes d).2 0 ∧
      (sssWriteArray bytes d).2.queue = bytes := by
  have hwrite : sssWriteArray bytes d =
      (0, { sssPrepareToTalk d with
        buffer := copyBytes 0 bytes d.buffer
        bufferPos := 0
        numBytesToSend := bytes.length }) := by
    unfold sssWriteArray
    rw [if_neg (by rw [hready]; decide), if_neg (by rw [hidle]; decide)]
    exact if_neg (Nat.not_lt.mpr hle)
  rw [hwrite]
  refine ⟨rfl, ⟨rfl, rfl, rfl, ?_, .next rfl rfl⟩, ?_⟩
  · show 0 + bytes.length ≤ _
    rwa [Nat.zero_add]
  · exact fetchAll_copyBytes bytes d.buffer (by rwa [Nat.zero_add])

/-! ## The receiver -/

/-- The driver in listening mode, before the start edge of a byte. -/
structure Armed (d : Sss) : Prop where
  receives : Receives d
  int1 : d.int1 = true
  timer2 : d.timer2 = false

/-- One bit time at a receiver: the driver, and the level the line had before. A falling edge
is the request for interrupt 1 where that is enabled; in the other bit times Timer2 has its
match in the middle of the bit. -/
def bitTime (s : Sss × Bool) (level : Bool) : Sss × Bool :=
  (if s.2 = true ∧ level = false ∧ s.1.int1 = true then interrupt s.1 .edge
    else interrupt s.1 (.match2 level), level)

/-- The receiver, armed in state `d₀`, has sampled `j` bits of a byte. -/
structure Samples (d₀ : Sss) (b : UInt8) (j : Nat) (d : Sss) : Prop where
  receives : Receives d
  timer2 : d.timer2 = true
  int1 : d.int1 = false
  bitCount : d.bitCount = j
  recvByte : d.recvByte.toNat = Uart.ofBits (Uart.lowBits b j)
  before : j < 8 → d.ring = d₀.ring
  after : j = 8 → d.ring = d₀.ring.push b

variable {d₀ : Sss} {b : UInt8} {j : Nat}

/-- The bit sampled makes one more low bit of the byte. -/
theorem Samples.recvByte_addBit (h : Samples d₀ b j d) :
    (addBit (b.toNat.testBit j) d).recvByte.toNat = Uart.ofBits (Uart.lowBits b (j + 1)) := by
  have hsum : Uart.ofBits (Uart.lowBits b (j + 1)) =
      Uart.ofBits (Uart.lowBits b j) + 2 ^ j * (b.toNat.testBit j).toNat := by
    rw [Uart.lowBits_succ, Uart.ofBits_concat, Uart.length_lowBits]
  have hlt : Uart.ofBits (Uart.lowBits b (j + 1)) < 256 := by
    rw [Uart.ofBits_lowBits]
    exact Nat.lt_of_le_of_lt (Nat.mod_le _ _) b.toNat_lt
  have hbit : (sssNewBit d.bitCount (b.toNat.testBit j)).toNat =
      2 ^ j * (b.toNat.testBit j).toNat := by
    unfold sssNewBit byte
    rw [h.bitCount, Nat.shiftLeft_eq, Nat.mul_comm, UInt8.toNat_ofNat', Nat.mod_mod]
    exact Nat.mod_eq_of_lt (by omega)
  show (d.recvByte + sssNewBit d.bitCount (b.toNat.testBit j)).toNat = _
  rw [UInt8.toNat_add, hbit, h.recvByte, ← hsum]
  exact Nat.mod_eq_of_lt hlt

theorem Samples.step (h : Samples d₀ b j d) (hj : j < 8) :
    Samples d₀ b (j + 1) (interrupt d (.match2 (b.toNat.testBit j))) := by
  have hreceives := h.receives.interrupt (.match2 (b.toNat.testBit j))
  have hbyte := h.recvByte_addBit
  have hcount : byte (d.bitCount + 1) = j + 1 := by
    rw [h.bitCount]
    exact Nat.mod_eq_of_lt (by omega)
  have hstep : interrupt d (.match2 (b.toNat.testBit j)) =
      sssTimerGetBitsISR (b.toNat.testBit j) d := by
    unfold interrupt TIMER2_COMPA_vect
    rw [h.receives.listens.function]
    exact if_pos h.timer2
  rw [hstep] at hreceives ⊢
  have h8 : d.bitCount ≠ 8 := by
    rw [h.bitCount]
    omega
  by_cases h7 : d.bitCount = 7
  · -- the last bit: the byte is whole and goes into the ring
    obtain rfl : j = 7 := h.bitCount.symm.trans h7
    have hwhole : (addBit (b.toNat.testBit 7) d).recvByte = b := by
      rw [← UInt8.toNat_inj, hbyte, Uart.ofBits_lowBits]
      exact Nat.mod_eq_of_lt b.toNat_lt
    rw [sssTimerGetBitsISR_store _ h7] at hreceives ⊢
    refine ⟨hreceives, h.timer2, h.int1, hcount, hbyte, nofun, fun _ => ?_⟩
    show d.ring.push (addBit (b.toNat.testBit 7) d).recvByte = _
    rw [hwhole, h.before hj]
  · have hlt : j + 1 ≠ 8 := by
      rw [h.bitCount] at h7
      omega
    rw [sssTimerGetBitsISR_bit _ h7 h8] at hreceives ⊢
    exact ⟨hreceives, h.timer2, h.int1, hcount, hbyte, fun _ => h.before hj,
      fun heq => absurd heq hlt⟩

/-- The eight data bits, whatever the level before them. -/
theorem Samples.bits (h : Samples d₀ b 0 d) (level : Bool) {k : Nat} (hk : k ≤ 8) :
    Samples d₀ b k (Runs.run bitTime (d, level) (Uart.lowBits b k)).1 := by
  induction k with
  | zero => exact h
  | succ k ih =>
    have hk' := ih (Nat.le_of_succ_le hk)
    rw [Uart.lowBits_succ, Runs.run_concat]
    -- interrupt 1 is off inside a byte, so that a falling edge is none of its own
    have hedge : (bitTime (Runs.run bitTime (d, level) (Uart.lowBits b k)) (b.toNat.testBit k)).1 =
        interrupt (Runs.run bitTime (d, level) (Uart.lowBits b k)).1
          (.match2 (b.toNat.testBit k)) := by
      refine if_neg ?_
      rw [hk'.int1]
      exact fun hh => Bool.false_ne_true hh.2.2
    rw [hedge]
    exact hk'.step hk

/-- **A slot of the line pushes its byte.** -/
theorem Armed.slot (h : Armed d) (level : Bool) (b : UInt8) :
    ∃ d', Runs.run bitTime (d, level) (Uart.slot b) = (d', true) ∧ Armed d' ∧
      d'.ring = d.ring.push b := by
  -- the idle level before the start bit
  have hidle : bitTime (d, level) true = (d, true) := by
    have hoff : interrupt d (.match2 true) = d :=
      if_neg (by rw [h.timer2]; exact Bool.false_ne_true)
    unfold bitTime
    rw [hoff, if_neg fun hh => Bool.noConfusion hh.2.1]
  have hstart : bitTime (d, true) false = (INT1_vect d, false) := by
    have hedge : interrupt d .edge = INT1_vect d := if_pos h.int1
    unfold bitTime
    rw [hedge, if_pos ⟨rfl, rfl, h.int1⟩]
  have hsamples : Samples d b 0 (INT1_vect d) :=
    ⟨⟨h.receives.ready, h.receives.idle, h.receives.listens.listening,
      h.receives.listens.function⟩, rfl, rfl, rfl, rfl, fun _ => rfl, nofun⟩
  have hbits := hsamples.bits false (Nat.le_refl 8)
  have hrun : Runs.run bitTime (d, level) (Uart.slot b) =
      bitTime (Runs.run bitTime (INT1_vect d, false) (Uart.lowBits b 8)) true := by
    show Runs.run bitTime (bitTime (bitTime (d, level) true) false) (Uart.lowBits b 8 ++ [true]) = _
    rw [hidle, hstart, Runs.run_concat]
  rw [hrun]
  generalize Runs.run bitTime (INT1_vect d, false) (Uart.lowBits b 8) = s at hbits
  have hstop : bitTime s true =
      ({ s.1 with timer2 := false, int1 := true, bitCount := 9 }, true) := by
    have hstep : interrupt s.1 (.match2 true) = sssTimerGetBitsISR true s.1 := by
      unfold interrupt TIMER2_COMPA_vect
      rw [hbits.receives.listens.function]
      exact if_pos hbits.timer2
    unfold bitTime
    rw [if_neg fun hh => Bool.noConfusion hh.2.1, hstep,
      sssTimerGetBitsISR_stop true hbits.bitCount]
  refine ⟨_, hstop, ⟨⟨hbits.receives.ready, hbits.receives.idle,
    hbits.receives.listens.listening, hbits.receives.listens.function⟩, rfl, rfl⟩, ?_⟩
  exact hbits.after rfl

/-- The slots of a line, as long as there is room. -/
theorem Armed.slots (h : Armed d) (level : Bool) (bytes : List UInt8)
    (hroom : d.ring.unread.length + bytes.length ≤ 31) :
    Armed (Runs.run bitTime (d, level) (bytes.flatMap Uart.slot)).1 ∧
      (Runs.run bitTime (d, level) (bytes.flatMap Uart.slot)).1.ring.unread =
        d.ring.unread ++ bytes := by
  induction bytes generalizing d level with
  | nil => exact ⟨h, (List.append_nil _).symm⟩
  | cons b bytes ih =>
    obtain ⟨d', hslot, h', hring⟩ := h.slot level b
    rw [List.length_cons] at hroom
    have hcount : d.ring.count + 1 < sssBufSize := by
      rw [← Ring.length_unread]
      show _ < 32
      omega
    have hunread : d'.ring.unread = d.ring.unread ++ [b] := by rw [hring, Ring.unread_push hcount]
    obtain ⟨hfinal, hbytes⟩ := ih h' true (by
      rw [hunread, List.length_append, List.length_singleton]
      omega)
    rw [List.flatMap_cons, Runs.run_append, hslot]
    refine ⟨hfinal, ?_⟩
    rw [hbytes, hunread, List.append_assoc]
    rfl

/-! ## Both ends -/

/-- What the sender does with the bytes it is given: it takes them, drives the slot of each of
them and a high level from then on, and has one byte less to send after each stop bit. -/
structure Transmits (bytes : List UInt8) (d : Sss) : Prop where
  accepted : (sssWriteArray bytes d).1 = 0
  levels : ∀ rxs : List Bool,
    Runs.outputs sendAct (sssWriteArray bytes d).2 (rxs.map .match2) =
      (bytes.flatMap Uart.slot ++ List.replicate rxs.length true).take rxs.length
  left : ∀ rxs : List Bool,
    (Runs.final sendAct (sssWriteArray bytes d).2 (rxs.map .match2)).numBytesToSend =
      bytes.length - rxs.length / 11

/-- What the receiver does with the levels: `sssRead` returns the bytes, and no others. -/
structure Recovers (bytes : List UInt8) (levels : List Bool) (e : Sss) : Prop where
  reads : ∀ level : Bool, reads (bytes.length + 1) (Runs.run bitTime (e, level) levels).1 =
    (bytes.map fun b => (b.toNat : Int)) ++ [-1]

/-- **What one driver writes another one reads.** -/
theorem line_round_trip {bytes : List UInt8} (hle : bytes.length ≤ 31) {d e : Sss}
    (hready : d.ready = true) (hidle : d.numBytesToSend = 0) (he : Armed e)
    (hempty : e.ring.unread = []) (rxs : List Bool) (hrxs : rxs.length = 11 * bytes.length) :
    Transmits bytes d ∧
      Recovers bytes (Runs.outputs sendAct (sssWriteArray bytes d).2 (rxs.map .match2)) e := by
  have hsize : bytes.length ≤ sssBufSize := Nat.le_succ_of_le hle
  -- the sender first: what it drives is the slots of the bytes
  obtain ⟨haccepted, htalks, hqueue⟩ := talks_sssWriteArray hready hidle hsize
  have htodo : (sssWriteArray bytes d).2.todo 0 = bytes.flatMap Uart.slot := by
    unfold Sss.todo
    rw [hqueue]
    rfl
  have hlen := Uart.length_flatMap_slot bytes
  have hlevels (rxs : List Bool) :
      Runs.outputs sendAct (sssWriteArray bytes d).2 (rxs.map .match2) =
        (bytes.flatMap Uart.slot ++ List.replicate rxs.length true).take rxs.length := by
    obtain ⟨k, -, -, houtputs⟩ := htalks.run rxs
    rw [houtputs, htodo]
  refine ⟨⟨haccepted, hlevels, ?_⟩, ⟨?_⟩⟩
  · intro rxs
    obtain ⟨k, hfinal, hleft, -⟩ := htalks.run rxs
    rw [hfinal.numBytesToSend_eq, hleft, htodo, List.length_drop, hlen]
    omega
  · intro level
    -- then the receiver, whose buffer has room for all of them
    have hroom : e.ring.unread.length + bytes.length ≤ 31 := by
      rw [hempty, List.length_nil, Nat.zero_add]
      exact hle
    obtain ⟨harmed, hunread⟩ := he.slots level bytes hroom
    rw [hempty, List.nil_append] at hunread
    rw [hlevels, hrxs, ← hlen, List.take_left]
    have hreads := reads_unread_add harmed.receives 1
    rwa [hunread] at hreads

/-- Two bytes, between drivers that have just begun. -/
theorem line_round_trip_two :
    Transmits [0x41, 0x0A] { Sss.initial with ready := true } ∧
      Recovers [0x41, 0x0A] (Runs.outputs sendAct
        (sssWriteArray [0x41, 0x0A] { Sss.initial with ready := true }).2
        ((List.replicate 22 true).map .match2)) .fresh :=
  line_round_trip (by decide) rfl rfl ⟨receives_fresh, rfl, rfl⟩ rfl (List.replicate 22 true) rfl

end ProjZ
