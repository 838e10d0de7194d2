import ProjZ.Firmware.SerialModes

/-!
# What becomes of the bytes received

Two questions about the receive buffer: whether `sssRead` returns the bytes in the order
and with the values they came with, for any interrupts between its calls
(`asFifo_iff`), and whether `sssPrepareToListen` still has every byte that came while
it waited (`keepsAll_iff`).

- The interrupt routine saves a byte even when it does not move the head. On a full buffer
  the new byte replaces the newest unread one, and `sssRead` returns it in that one's place.
- The loop that waits for an idle line goes on after it has found one, and clears the
  buffer each time it finds another.
-/

namespace ProjZ

open RingBuffer

variable {d : Sss}

/-! ## Reading while bytes come in -/

/-- What happens in listening mode: an interrupt, or a call of `sssRead`. -/
inductive ListenEvent where
  | irq (i : Irq)
  | read
deriving DecidableEq, Repr

/-- The driver beside the queue it is to be, of at most 31 bytes, that drops what arrives
when it is full; and what the calls of `sssRead` return, of either. -/
structure Bench where
  driver : Sss
  queue : List UInt8
  returned : List Int
  expected : List Int

/-- `sssRead` of a queue. -/
def front : List UInt8 → Int
  | [] => -1
  | b :: _ => b.toNat

/-- The bench after an event. -/
def benchStep (s : Bench) : ListenEvent → Bench
  | .irq i =>
    { s with
      driver := interrupt s.driver i
      queue := (completed s.driver i).foldl (arrive 31) s.queue }
  | .read =>
    { driver := (sssRead [] s.driver).2
      queue := s.queue.tail
      returned := s.returned ++ [(sssRead [] s.driver).1]
      expected := s.expected ++ [front s.queue] }

/-- The bench with a driver and nothing received. -/
def Bench.start (d : Sss) : Bench := ⟨d, d.ring.unread, [], []⟩

/-- The results of `n` calls of `sssRead` in a row. -/
def reads : Nat → Sss → List Int
  | 0, _ => []
  | n + 1, d => (sssRead [] d).1 :: reads n (sssRead [] d).2

/-- So far the driver is the queue: in what it returned, in what it counts, and in what it
will return next. -/
structure AsFifo (s : Bench) : Prop where
  returned : s.returned = s.expected
  available : (sssAvailable [] s.driver).1 = s.queue.length
  length_le : s.queue.length ≤ 31
  later : reads s.queue.length s.driver = s.queue.map fun b => (b.toNat : Int)

/-- An interrupt completes a byte while 31 others are unread, and the newest of these is
another one. -/
inductive Overwrites (d : Sss) : ListenEvent → Prop where
  | irq {i : Irq} {b : UInt8} (hbyte : completed d i = [b])
      (hfull : d.ring.unread.length = 31) (hother : d.ring.unread.getLast? ≠ some b) :
      Overwrites d (.irq i)

theorem reads_succ (h : Receives d) {b : UInt8} {rest : List UInt8}
    (hunread : d.ring.unread = b :: rest) (n : Nat) :
    ∃ d', Receives d' ∧ d'.ring.unread = rest ∧
      reads (n + 1) d = (b.toNat : Int) :: reads n d' := by
  obtain ⟨d', hread, hd', hrest⟩ := h.sssRead_cons [] hunread
  refine ⟨d', hd', hrest, ?_⟩
  show (sssRead [] d).1 :: reads n (sssRead [] d).2 = _
  rw [hread]

/-- Calls that find nothing. -/
theorem reads_nil (h : Receives d) (hunread : d.ring.unread = []) (k : Nat) :
    reads k d = List.replicate k (-1) := by
  induction k with
  | zero => rfl
  | succ k ih =>
    show (sssRead [] d).1 :: reads k (sssRead [] d).2 = _
    rw [h.sssRead_nil [] hunread, ih]
    rfl

/-- As many calls as bytes are unread return these, and further ones find nothing. -/
theorem reads_unread_add (h : Receives d) (k : Nat) :
    reads (d.ring.unread.length + k) d =
      (d.ring.unread.map fun b => (b.toNat : Int)) ++ List.replicate k (-1) := by
  generalize hunread : d.ring.unread = bytes
  induction bytes generalizing d with
  | nil =>
    rw [List.length_nil, Nat.zero_add]
    exact reads_nil h hunread k
  | cons b rest ih =>
    obtain ⟨d', hd', hrest, hreads⟩ := reads_succ h hunread (rest.length + k)
    rw [List.length_cons, Nat.succ_add]
    exact hreads.trans (congrArg _ (ih hd' hrest))

theorem reads_unread (h : Receives d) :
    reads d.ring.unread.length d = d.ring.unread.map fun b => (b.toNat : Int) := by
  have hreads := reads_unread_add h 0
  rwa [Nat.add_zero, List.replicate_zero, List.append_nil] at hreads

/-- The queue is what is unread. -/
structure Bench.InStep (s : Bench) : Prop where
  receives : Receives s.driver
  unread : s.driver.ring.unread = s.queue
  returned : s.returned = s.expected

theorem Bench.asFifo_iff_inStep {s : Bench} (h : Receives s.driver) : AsFifo s ↔ s.InStep := by
  constructor
  · intro hfifo
    have hlen : s.driver.ring.unread.length = s.queue.length := by
      have havail := hfifo.available
      rw [h.sssAvailable_eq] at havail
      exact Int.ofNat_inj.mp havail
    have hlater := hfifo.later
    rw [← hlen, reads_unread h] at hlater
    have hinj : Function.Injective fun b : UInt8 => (b.toNat : Int) := by
      intro a b hab
      exact UInt8.toNat_inj.mp (Int.ofNat_inj.mp hab)
    exact ⟨h, List.map_injective_iff.mpr hinj hlater, hfifo.returned⟩
  · intro hstep
    have hlt := s.driver.ring.count_lt
    refine ⟨hstep.returned, ?_, ?_, ?_⟩
    · rw [h.sssAvailable_eq, hstep.unread]
    · rw [← hstep.unread, Ring.length_unread]
      exact Nat.le_of_lt_succ hlt
    · rw [← hstep.unread]
      exact reads_unread h

theorem Receives.interrupt (h : Receives d) (i : Irq) : Receives (interrupt d i) := by
  have hstep := h.listens.interrupt i
  exact ⟨hstep.ready.trans h.ready, hstep.idle.trans h.idle, hstep.listens⟩

theorem Receives.benchStep {s : Bench} (h : Receives s.driver) (e : ListenEvent) :
    Receives (benchStep s e).driver := by
  cases e with
  | irq i => exact h.interrupt i
  | read =>
    cases hunread : s.driver.ring.unread with
    | nil =>
      show Receives (sssRead [] s.driver).2
      rw [h.sssRead_nil [] hunread]
      exact h
    | cons b rest =>
      obtain ⟨d', hread, hd', -⟩ := h.sssRead_cons [] hunread
      show Receives (sssRead [] s.driver).2
      rw [hread]
      exact hd'

/-- **One event keeps the driver in step exactly when it overwrites nothing.** -/
theorem Bench.InStep.step_iff {s : Bench} (h : s.InStep) (e : ListenEvent) :
    (benchStep s e).InStep ↔ ¬ Overwrites s.driver e := by
  have hreceives := h.receives.benchStep e
  cases e with
  | read =>
    -- reading never goes wrong: the empty buffer and the empty queue both give -1
    refine iff_of_true ?_ nofun
    have hqueue := h.unread
    cases hunread : s.driver.ring.unread with
    | nil =>
      have hread := h.receives.sssRead_nil [] hunread
      refine ⟨hreceives, ?_, ?_⟩
      · show (sssRead [] s.driver).2.ring.unread = s.queue.tail
        rw [hread, ← hqueue, hunread]
        rfl
      · show s.returned ++ [(sssRead [] s.driver).1] = s.expected ++ [front s.queue]
        rw [hread, ← hqueue, hunread, h.returned]
        rfl
    | cons b rest =>
      obtain ⟨d', hread, -, hrest⟩ := h.receives.sssRead_cons [] hunread
      refine ⟨hreceives, ?_, ?_⟩
      · show (sssRead [] s.driver).2.ring.unread = s.queue.tail
        rw [hread, ← hqueue, hunread]
        exact hrest
      · show s.returned ++ [(sssRead [] s.driver).1] = s.expected ++ [front s.queue]
        rw [hread, ← hqueue, hunread, h.returned]
        rfl
  | irq i =>
    -- an interrupt reads nothing, so the queues are all there is to compare
    have hinStep : (benchStep s (.irq i)).InStep ↔
        (interrupt s.driver i).ring.unread = (completed s.driver i).foldl (arrive 31) s.queue :=
      ⟨fun hin => hin.unread, fun hunread => ⟨hreceives, hunread, h.returned⟩⟩
    rw [hinStep, ← h.unread]
    rcases (h.receives.listens.interrupt i).ring with ⟨hnone, hring⟩ | ⟨b, hb, hring⟩
    · rw [hnone, hring]
      refine iff_of_true rfl ?_
      rintro ⟨hbyte, -, -⟩
      rw [hnone] at hbyte
      cases hbyte
    · rw [hb, hring]
      -- a byte that is stored over the newest one is noticed if it differs
      refine (Ring.unread_push_eq_arrive_iff (by decide) s.driver.ring b).trans ?_
      constructor
      · rintro hnewest ⟨hbyte, hfull, hother⟩
        rw [hb] at hbyte
        obtain rfl := (List.cons.inj hbyte).1
        exact hother (hnewest hfull)
      · intro hsafe hfull
        by_contra hother
        exact hsafe ⟨hb, hfull, hother⟩

/-- **In listening mode the driver is a queue that drops what comes when it is full, as long
as no byte comes then that differs from the newest one.** -/
theorem asFifo_iff (h : Receives d) (events : List ListenEvent) :
    (∀ pre suf, events = pre ++ suf → AsFifo (Runs.run benchStep (.start d) pre)) ↔
      ∀ pre e suf, events = pre ++ e :: suf →
        ¬ Overwrites (Runs.run benchStep (.start d) pre).driver e := by
  have hreceives (pre : List ListenEvent) :
      Receives (Runs.run benchStep (.start d) pre).driver :=
    Runs.run_invariant (P := fun s : Bench => Receives s.driver) h
      (fun e _ hs => hs.benchStep e) pre
  have hstart : (Bench.start d).InStep := ⟨h, rfl, rfl⟩
  rw [← Runs.run_always_iff hstart (fun e _ hs => hs.step_iff e) events]
  constructor
  · intro hfifo pre suf hsplit
    exact (Bench.asFifo_iff_inStep (hreceives pre)).mp (hfifo pre suf hsplit)
  · intro hin pre suf hsplit
    exact (Bench.asFifo_iff_inStep (hreceives pre)).mpr (hin pre suf hsplit)

/-- The driver that has just found the line idle. -/
def Sss.fresh : Sss := { startListening .initial with ready := true }

theorem receives_fresh : Receives .fresh := ⟨rfl, rfl, rfl, rfl⟩

/-- Two bytes, of which one is read in between. -/
theorem asFifo_iff_two :
    (∀ pre suf, (byteIrqs 0x41).map .irq ++ .read :: (byteIrqs 0x42).map .irq = pre ++ suf →
        AsFifo (Runs.run benchStep (.start .fresh) pre)) ↔
      ∀ pre e suf,
        (byteIrqs 0x41).map .irq ++ .read :: (byteIrqs 0x42).map .irq = pre ++ e :: suf →
        ¬ Overwrites (Runs.run benchStep (.start .fresh) pre).driver e :=
  asFifo_iff receives_fresh _

/-- After 31 zeros that nobody reads comes another byte, which is then read as the last one. -/
theorem newest_overwritten :
    ¬ AsFifo (Runs.run benchStep (.start .fresh)
      ((List.replicate 31 (0 : UInt8) ++ [0x41]).flatMap fun b => (byteIrqs b).map .irq)) := by
  intro hfifo
  exact absurd hfifo.later (by decide +kernel)

/-! ## Bytes that come while the driver waits for an idle line -/

/-- An iteration of the loop finds the line idle once more while bytes are unread, or an
interrupt completes a byte while 31 are. -/
inductive Loses (s : Sss × Nat) : WaitEvent → Prop where
  | clears {rx : Bool} (hlisten : s.1.isListening = true)
      (hidle : sssMinIdleCount ≤ idleAfter s.2 rx) (hunread : s.1.ring.unread ≠ []) :
      Loses s (.check rx)
  | full {i : Irq} (hbyte : completed s.1 i ≠ []) (hfull : s.1.ring.unread.length = 31) :
      Loses s (.irq i)

/-- Every byte so far is unread. -/
def KeptSoFar (s : Sss × Nat) (bytes : List UInt8) : Prop :=
  (Stopped s.1 ∧ bytes = []) ∨ (Listens s.1 ∧ s.1.ring.unread = bytes)

/-- A byte is lost. -/
def LostSome (s : Sss × Nat) (bytes : List UInt8) : Prop :=
  Listens s.1 ∧ s.1.ring.unread.length < bytes.length

theorem length_unread_push_le (d : Sss) (b : UInt8) :
    (d.ring.push b).unread.length ≤ d.ring.unread.length + 1 := by
  have hle := (Ring.unread_push_sublist (by decide) d.ring b).length_le
  rwa [List.length_append] at hle

theorem KeptSoFar.mode {s : Sss × Nat} {bytes : List UInt8} (h : KeptSoFar s bytes) :
    Stopped s.1 ∨ Listens s.1 := h.imp And.left And.left

theorem KeptSoFar.step {s : Sss × Nat} {bytes : List UInt8} (h : KeptSoFar s bytes)
    {e : WaitEvent} (hsafe : ¬ Loses s e) :
    KeptSoFar (waitStep s e) (bytes ++ onIrq completed s e) := by
  cases waitStep_cases h.mode e with
  | same hsame hnone =>
    unfold KeptSoFar
    rw [hsame, hnone, List.append_nil]
    exact h
  | found he hidle hfound =>
    subst he
    -- an idle line empties the buffer, which had nothing unread
    have hbytes : bytes = [] := by
      rcases h with ⟨-, hbytes⟩ | ⟨hlistens, hunread⟩
      · exact hbytes
      · by_contra hne
        exact hsafe (.clears hlistens.listening hidle (by rwa [hunread]))
    refine Or.inr ?_
    rw [hfound, hbytes]
    exact ⟨listens_startListening s.1, unread_startListening s.1⟩
  | @listening i he hlistens hstep =>
    subst he
    have hunread : s.1.ring.unread = bytes := by
      rcases h with ⟨hstopped, -⟩ | ⟨-, hunread⟩
      · exact absurd hlistens.listening (by rw [hstopped.quiet]; exact Bool.false_ne_true)
      · exact hunread
    refine Or.inr ⟨hstep.listens, ?_⟩
    show _ = bytes ++ completed s.1 i
    rcases hstep.ring with ⟨hnone, hring⟩ | ⟨b, hb, hring⟩
    · rw [hring, hnone, hunread, List.append_nil]
    · -- there is room, or the byte would be lost
      have hroom : s.1.ring.count + 1 < 32 := by
        have hlt := s.1.ring.count_lt
        by_contra hfull
        refine hsafe (.full ?_ ?_)
        · rw [hb]
          exact List.cons_ne_nil b []
        · rw [Ring.length_unread]
          show s.1.ring.count = 31
          have hlt' : s.1.ring.count < 32 := hlt
          omega
      rw [hring, hb, Ring.unread_push hroom, hunread]

theorem KeptSoFar.lose {s : Sss × Nat} {bytes : List UInt8} (h : KeptSoFar s bytes)
    {e : WaitEvent} (hloses : Loses s e) :
    LostSome (waitStep s e) (bytes ++ onIrq completed s e) := by
  cases hloses with
  | @clears rx hlisten hidle hunread =>
    have hbytes : s.1.ring.unread = bytes := by
      rcases h with ⟨hstopped, -⟩ | ⟨-, hbytes⟩
      · exact absurd hlisten (by rw [hstopped.quiet]; exact Bool.false_ne_true)
      · exact hbytes
    have hfound : (waitStep s (.check rx)).1 = startListening s.1 := if_pos hidle
    have hpos : 0 < bytes.length := by
      rw [← hbytes]
      exact List.length_pos_iff.mpr hunread
    unfold LostSome
    rw [hfound, unread_startListening]
    refine ⟨listens_startListening s.1, ?_⟩
    show 0 < (bytes ++ []).length
    rwa [List.append_nil]
  | @full i hbyte hfull =>
    rcases h with ⟨hstopped, -⟩ | ⟨hlistens, hbytes⟩
    · exact absurd (hstopped.interrupt i).2.1 hbyte
    · have hstep := hlistens.interrupt i
      rcases hstep.ring with ⟨hnone, -⟩ | ⟨b, hb, hring⟩
      · exact absurd hnone hbyte
      · refine ⟨hstep.listens, ?_⟩
        have hlt := (interrupt s.1 i).ring.count_lt
        show (interrupt s.1 i).ring.unread.length < (bytes ++ completed s.1 i).length
        rw [hb, List.length_append, ← hbytes, hfull, Ring.length_unread]
        exact hlt

theorem LostSome.step {s : Sss × Nat} {bytes : List UInt8} (h : LostSome s bytes)
    (e : WaitEvent) : LostSome (waitStep s e) (bytes ++ onIrq completed s e) := by
  obtain ⟨hlistens, hlt⟩ := h
  cases waitStep_cases (Or.inr hlistens) e with
  | same hsame hnone =>
    unfold LostSome
    rw [hsame, hnone, List.append_nil]
    exact ⟨hlistens, hlt⟩
  | found he _ hfound =>
    subst he
    unfold LostSome
    rw [hfound, unread_startListening, List.length_append]
    exact ⟨listens_startListening s.1, by rw [List.length_nil]; omega⟩
  | @listening i he _ hstep =>
    subst he
    refine ⟨hstep.listens, ?_⟩
    show _ < (bytes ++ completed s.1 i).length
    rw [List.length_append]
    rcases hstep.ring with ⟨hnone, hring⟩ | ⟨b, hb, hring⟩
    · rw [hring, hnone]
      exact Nat.lt_of_lt_of_le hlt (Nat.le_add_right _ _)
    · rw [hring, hb]
      exact Nat.lt_of_le_of_lt (length_unread_push_le s.1 b) (Nat.succ_lt_succ hlt)

/-- **`sssPrepareToListen` returns with every byte it received unread, exactly if its loop
finds no idle line while bytes are unread, and no byte comes to a full buffer.** -/
theorem keepsAll_iff (events : List WaitEvent) (d : Sss) :
    ((sssPrepareToListen events d).isListening = true →
        (sssPrepareToListen events d).ring.unread = whileWaiting completed events d) ↔
      ∀ pre e suf, events = pre ++ e :: suf →
        ¬ Loses (Runs.run waitStep (sssStopAll d, 0) pre) e := by
  have hstart : KeptSoFar (sssStopAll d, 0) [] := Or.inl ⟨stopped_sssStopAll d, rfl⟩
  rcases Runs.kept_or_lost (fun s e => (waitStep s e, onIrq completed s e)) hstart
    (G := fun s e => ¬ Loses s e) (fun e _ _ h hsafe => h.step hsafe)
    (fun e _ _ h hloses => h.lose (not_not.mp hloses)) (fun e _ _ h => h.step e) events with
    ⟨hkept, hsafe⟩ | ⟨hlost, pre, e, suf, hsplit, hloses⟩
  · -- no event has lost a byte
    refine iff_of_true ?_ hsafe
    intro hlistening
    rcases hkept with ⟨hstopped, -⟩ | ⟨-, hunread⟩
    · exact absurd (hlistening.symm.trans hstopped.quiet) (by decide)
    · exact hunread
  · -- one has, and it is not made up for
    refine iff_of_false ?_ fun hall => hloses (hall pre e suf hsplit)
    intro hkeeps
    exact absurd (congrArg List.length (hkeeps hlost.1.listening)) (Nat.ne_of_lt hlost.2)

/-- The line is idle, brings a byte, and is idle again, all before the timeout. -/
theorem received_cleared :
    ¬ ((sssPrepareToListen (List.replicate 44 (.check true) ++ (byteIrqs 0x41).map .irq ++
          .check false :: List.replicate 44 (.check true)) .initial).isListening = true →
        (sssPrepareToListen (List.replicate 44 (.check true) ++ (byteIrqs 0x41).map .irq ++
          .check false :: List.replicate 44 (.check true)) .initial).ring.unread =
        whileWaiting completed (List.replicate 44 (.check true) ++ (byteIrqs 0x41).map .irq ++
          .check false :: List.replicate 44 (.check true)) .initial) := by
  decide +kernel

end ProjZ
