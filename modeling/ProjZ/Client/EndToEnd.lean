import ProjZ.Client.ZClientService
import ProjZ.Server.Replies

/-!
# Client, server and firmware together

`System` is the three programs at work: a client's calls become chunks of the server,
the server's commands become messages of the firmware, and what the server writes is
what the client's reader gets. One client is connected at a time and each command
arrives in one `recv`.

Seen from the calls, all of it is a store of two numbers (`ServoStore`): `setServos`
writes both, `getServo` reads one, and nothing else touches them, neither
`enableServos` nor the command sequences the server sends of its own when a client
connects or goes (`system_servoStore`).
-/

namespace ProjZ

open Ascii Server JavaText

/-! ## The system -/

/-- A text that one `recv` can return. -/
def Chunk.ofBytes (text : List UInt8) : Option Chunk :=
  if h : text ≠ [] ∧ text.length ≤ 1024 then some ⟨text, h.1, h.2⟩ else none

/-- A command with its `'\0'` is one. -/
theorem Chunk.ofBytes_command {m : List UInt8} (h : m.length ≤ 15) :
    ∃ chunk, Chunk.ofBytes (m ++ [0]) = some chunk ∧ chunk.message = m ++ [0] := by
  have hok : m ++ [0] ≠ [] ∧ (m ++ [0]).length ≤ 1024 := by
    rw [List.length_append, List.length_singleton]
    exact ⟨List.append_ne_nil_of_right_ne_nil m (List.cons_ne_nil 0 []), by omega⟩
  exact ⟨⟨m ++ [0], hok.1, hok.2⟩, dif_pos hok, rfl⟩

/-- A connected client's end of the connection, with the server behind it. -/
structure Link where
  server : Server Firmware
  reader : LineReader

section System

variable (fuel : Nat)

/-- A text is delivered whole; what the server writes can be read. -/
def Link.writeBytes (text : List UInt8) (l : Link) : Link :=
  match Chunk.ofBytes text with
  | none => l
  | some chunk =>
    let r := zServer fuel l.server (.recv chunk)
    ⟨r.1, l.reader.receive (clientBytes r.2)⟩

/-- The two streams of a connected client. -/
def link : Connection Link where
  writeBytes := Link.writeBytes fuel
  readLine l := l.reader.readLine.map fun r => (r.1, { l with reader := r.2 })

/-- The three programs; `client` is the reader of the connected client. -/
structure System where
  server : Server Firmware
  client : Option LineReader

/-- What happens to the system. -/
inductive Action where
  | connect
  | call (c : Call)
  | disconnect

/-- One action, with what a call returned. A second client waits, and calls need a
connection. -/
def System.act (s : System) (a : Action) : System × List (Option Value) :=
  match s.client, a with
  | none, .connect =>
    let r := zServer fuel s.server .accept
    (⟨r.1, some (LineReader.empty.receive (clientBytes r.2))⟩, [])
  | some reader, .call c =>
    let r := c.perform (link fuel) ⟨s.server, reader⟩
    (⟨r.2.server, some r.2.reader⟩, [r.1])
  | some _, .disconnect => (⟨(zServer fuel s.server .disconnect).1, none⟩, [])
  | _, _ => (s, [])

/-- Firmware and server have just been started. -/
def System.powerUp (vIn gpio0 : Bool) (cmd : CharBuf 16) : System :=
  ⟨Server.startUp firmwareBus (fuel + 8) (setup vIn gpio0) cmd, none⟩

end System

/-! ## The store -/

/-- What the system is for: the two pulse widths last set. -/
structure ServoStore where
  x : Int := 1480
  y : Int := 1150
  connected : Bool := false
deriving DecidableEq, Repr

/-- What a call returns and stores. -/
def ServoStore.perform (t : ServoStore) : Call → Value × ServoStore
  | .getServo a =>
    (.int (if a.toUpper = 'X' then t.x else if a.toUpper = 'Y' then t.y else -1), t)
  | .enableServos _ => (.void, t)
  | .setServos x y => (.bool true, { t with x := x.val, y := y.val })

/-- One action on the store. Connecting and disconnecting leave the numbers alone. -/
def ServoStore.act (t : ServoStore) (a : Action) : ServoStore × List (Option Value) :=
  match t.connected, a with
  | false, .connect => ({ t with connected := true }, [])
  | true, .call c => ((t.perform c).2, [some (t.perform c).1])
  | true, .disconnect => ({ t with connected := false }, [])
  | _, _ => (t, [])

/-! ## Commands that keep the pulse widths -/

/-- The two servo registers. -/
def Regs.pulses (regs : Regs) : Int × Int := (regs.servoPwmX, regs.servoPwmY)

/-- A message after which both servos stand where they stood. -/
def KeepsPulses (m : List UInt8) : Prop := ∀ regs, (effect m regs).pulses = regs.pulses

/-- Setting another register keeps them. -/
theorem keepsPulses_set {m : List UInt8} {r : Reg} {v : Int} (h : parse m = some (.set r v))
    (hx : r ≠ .servoPwmX) (hy : r ≠ .servoPwmY) : KeepsPulses m := by
  intro regs
  unfold effect
  rw [h]
  show (if r.Admits v then r.store v regs else regs).pulses = regs.pulses
  split
  · cases r with
    | servoPwmX => exact absurd rfl hx
    | servoPwmY => exact absurd rfl hy
    | ledEn | ledPwm | servoEn => rfl
  · rfl

theorem keepsPulses_get {m : List UInt8} {r : Reg} (h : verdict m = .get r) :
    KeepsPulses m := by
  intro regs
  rw [effect_of_get h]

theorem keepsPulses_connect : ∀ text ∈ connectCommands, KeepsPulses text := by
  have hled : parse (bytes ['S', 'L', 'P', '0']) = some (.set .ledPwm 0) := by decide
  have hlamp : parse (bytes ['S', 'L', 'E', '1']) = some (.set .ledEn 1) := by decide
  have hservo : parse (bytes ['S', 'S', 'E', '1']) = some (.set .servoEn 1) := by decide
  unfold connectCommands
  rw [List.forall_mem_cons, List.forall_mem_cons, List.forall_mem_singleton]
  exact ⟨keepsPulses_set hled (by decide) (by decide),
    keepsPulses_set hlamp (by decide) (by decide),
    keepsPulses_set hservo (by decide) (by decide)⟩

theorem keepsPulses_idle : ∀ text ∈ idleCommands, KeepsPulses text := by
  have hservo : parse (bytes ['S', 'S', 'E', '0']) = some (.set .servoEn 0) := by decide
  have hled : parse (bytes ['S', 'L', 'P', '2', '5', '5']) = some (.set .ledPwm 255) := by
    decide
  have hlamp : parse (bytes ['S', 'L', 'E', '1']) = some (.set .ledEn 1) := by decide
  unfold idleCommands
  rw [List.forall_mem_cons, List.forall_mem_cons, List.forall_mem_singleton]
  exact ⟨keepsPulses_set hservo (by decide) (by decide),
    keepsPulses_set hled (by decide) (by decide),
    keepsPulses_set hlamp (by decide) (by decide)⟩

/-- A whole command sequence keeps them. -/
theorem pulses_foldl {texts : List (List UInt8)} (h : ∀ text ∈ texts, KeepsPulses text)
    (file : Mailbox.Box Regs UInt8) :
    (texts.foldl takeEffect file).store.pulses = file.store.pulses := by
  induction texts generalizing file with
  | nil => rfl
  | cons text texts ih =>
    rw [List.foldl_cons, ih fun t ht => h t (List.mem_cons_of_mem text ht)]
    exact h text (List.mem_cons_self ..) file.store

/-! ## The client's texts -/

/-- A text that is executed as a command and read the same way by server and firmware. -/
structure AcceptedText (m : List UInt8) : Prop where
  length : 3 ≤ m.length ∧ m.length ≤ 15
  zero_notMem : 0 ∉ m
  blank_lt : 32 < m.headD 0
  accepted : verdict m ≠ .rejected

section Texts

open ZClientService

theorem acceptedText_getServo {tmp : Char} (h : tmp = 'X' ∨ tmp = 'Y') :
    AcceptedText (getServoText tmp) := by
  rcases h with rfl | rfl
  · exact ⟨by decide, by decide, by decide, by decide⟩
  · exact ⟨by decide, by decide, by decide, by decide⟩

theorem acceptedText_enableServos (en : Bool) : AcceptedText (enableServosText en) := by
  cases en
  · exact ⟨by decide, by decide, by decide, by decide⟩
  · exact ⟨by decide, by decide, by decide, by decide⟩

theorem keepsPulses_enableServos (en : Bool) : KeepsPulses (enableServosText en) := by
  cases en with
  | false =>
    have h : parse (enableServosText false) = some (.set .servoEn 0) := by decide
    exact keepsPulses_set h (by decide) (by decide)
  | true =>
    have h : parse (enableServosText true) = some (.set .servoEn 1) := by decide
    exact keepsPulses_set h (by decide) (by decide)

variable (x y : Pulse)

/-- A printed pulse width: digits, four at most, that the firmware reads back. -/
theorem intToString_pulse (p : Pulse) :
    (∀ c ∈ intToString p.val, isDigit c = true) ∧ (intToString p.val).length ≤ 4 ∧
      int16 (toInt (intToString p.val)) = p.val := by
  have hge := p.ge
  have hle := p.le
  rw [intToString_of_nonneg (by omega)]
  refine ⟨fun c hc => Decimal.isDigit_of_mem_decimal hc, ?_, ?_⟩
  · exact Decimal.length_decimal_le (w := 3) (by omega)
  · rw [toInt_decimal (by omega), Int.toNat_of_nonneg (by omega)]
    exact int16_of_lt (by omega) (by omega)

/-- **The firmware parses what the client prints.** -/
theorem parse_setServosText :
    parse (setServosText x.val y.val) = some (.setXY x.val y.val) := by
  obtain ⟨hx, -, hxv⟩ := intToString_pulse x
  obtain ⟨hy, -, hyv⟩ := intToString_pulse y
  -- the text has no blanks and no lower-case letters
  have hsq : squeeze (setServosText x.val y.val) = setServosText x.val y.val := by
    refine squeeze_of_squeezed fun c hc => ?_
    rcases List.mem_append.mp hc with hc | hc
    · rcases List.mem_append.mp hc with hc | hc
      · have hall : ∀ c ∈ bytes ['S', 'S', 'P'], 32 < c ∧ toupper c = c := by decide +kernel
        exact hall c hc
      · exact squeezed_of_isDigit (hx c hc)
    · rcases List.mem_cons.mp hc with rfl | hc
      · exact ⟨by decide, by decide⟩
      · exact squeezed_of_isDigit (hy c hc)
  have hcons : setServosText x.val y.val = 'S'.toUInt8 :: 'S'.toUInt8 :: 'P'.toUInt8 ::
      (intToString x.val ++ ','.toUInt8 :: intToString y.val) := rfl
  have hk : methodOf 'S'.toUInt8 = some .set := by decide
  have hd : deviceOf 'S'.toUInt8 = some .servo := by decide
  have ht : typeOf 'P'.toUInt8 = some .pwm := by decide
  unfold parse
  rw [hsq, hcons]
  show ((methodOf 'S'.toUInt8).bind fun k => (deviceOf 'S'.toUInt8).bind fun d =>
    (typeOf 'P'.toUInt8).bind fun t => (argsOf _).bind fun a => Request.of k d t a) = _
  rw [hk, hd, ht, argsOf_comma hx hy]
  show some (Request.setXY _ _) = _
  rw [hxv, hyv]

/-- A clamped pulse width is in the firmware's range. -/
theorem pulseOk_val (p : Pulse) : pulseOk p.val := by
  have hge := p.ge
  have hle := p.le
  exact ⟨by omega, by omega⟩

theorem verdict_setServosText : verdict (setServosText x.val y.val) = .set := by
  refine verdict_eq_set.mpr ⟨_, parse_setServosText x y, rfl, ?_⟩
  exact ⟨Or.inl (pulseOk_val x), Or.inl (pulseOk_val y)⟩

theorem effect_setServosText (regs : Regs) :
    (effect (setServosText x.val y.val) regs).pulses = (x.val, y.val) := by
  unfold effect
  rw [parse_setServosText]
  show (Reg.servoPwmY.storeAxis y.val (Reg.servoPwmX.storeAxis x.val regs)).pulses = _
  rw [Reg.storeAxis, if_pos (pulseOk_val y), Reg.storeAxis, if_pos (pulseOk_val x)]
  rfl

theorem acceptedText_setServos : AcceptedText (setServosText x.val y.val) := by
  obtain ⟨hx, hxlen, -⟩ := intToString_pulse x
  obtain ⟨hy, hylen, -⟩ := intToString_pulse y
  have hzero : isDigit 0 ≠ true := by decide
  refine ⟨?_, ?_, ?_, ?_⟩
  · have hlen : (setServosText x.val y.val).length =
        3 + (intToString x.val).length + ((intToString y.val).length + 1) := by
      simp [setServosText, bytes]
      omega
    omega
  · intro h
    rcases List.mem_append.mp h with h | h
    · rcases List.mem_append.mp h with h | h
      · revert h
        decide
      · exact hzero (hx 0 h)
    · rcases List.mem_cons.mp h with h | h
      · exact absurd h (by decide)
      · exact hzero (hy 0 h)
  · show 32 < 'S'.toUInt8
    decide
  · rw [verdict_setServosText]
    intro h
    cases h

end Texts

/-! ## One call -/

/-- Between two calls of a connected client. -/
structure Ready (l : Link) : Prop where
  sound : Sound l.server
  waiting : Waiting l.server
  reader : l.reader = LineReader.empty

/-- What answers a command can be read as one line. -/
theorem inLine_answerText (v : Verdict) (regs : Regs) :
    ∀ c ∈ answerText v regs, inLine c = true := by
  cases v with
  | get r => exact fun c hc => inLine_of_isDigit (Decimal.isDigit_of_mem_padded hc)
  | set => exact fun c hc => by rw [List.mem_singleton.mp hc]; decide
  | rejected => exact fun c hc => by rw [List.mem_singleton.mp hc]; decide

/-- The line a get is answered by is parsed as the register's value. -/
theorem parseInt_numeral {regs : Regs} (h : regs.InRange) (r : Reg) :
    parseInt (r.numeral regs) = some (r.value regs) := by
  obtain ⟨hnonneg, hlt⟩ := (h r).bounds
  have hval := r.value_numeral h
  have hpow : 10 ^ r.width ≤ 10 ^ 4 := Nat.pow_le_pow_right (by decide) r.width_le
  have hlen : (r.numeral regs).length = r.width := Decimal.length_padded _ _
  have hpos := r.width_pos
  rw [parseInt_digits, hval]
  · intro hnil
    rw [hnil, List.length_nil] at hlen
    omega
  · exact fun c hc => Decimal.isDigit_of_mem_padded hc
  · omega

section Calls

variable (fuel : Nat) {l : Link}

/-- **One request**: the client reads the answer to its own text and nothing else, and the
registers have taken the text's effect. -/
theorem Ready.request (h : Ready l) {m : List UInt8} (hm : AcceptedText m) :
    ∃ l', ZClientService.request (link fuel) (m ++ [0]) l =
        (some (answerText (verdict m) l.server.file.regs), l') ∧
      Ready l' ∧ l'.server.file.regs = effect m l.server.file.regs := by
  have hlen := hm.length
  obtain ⟨chunk, hof, hmessage⟩ := Chunk.ofBytes_command hlen.2
  obtain ⟨hout, hregs, hwait⟩ := zServer_command fuel h.sound h.waiting.connected h.waiting.j
    hmessage hm.zero_notMem hlen
  have hagree : flag m = true ↔ ∃ r, verdict m = .get r :=
    (flag_iff_of_accepted hm.accepted).trans (and_iff_left hm.blank_lt)
  have hbytes := clientBytes_of_agree hm.accepted l.server.file.regs hagree
  -- the reader was empty, so the next line is the answer to this text
  have hwrite : (link fuel).writeBytes (m ++ [0]) l =
      ⟨(zServer fuel l.server (.recv chunk)).1,
        LineReader.empty.receive (answerLine (verdict m) l.server.file.regs)⟩ := by
    show Link.writeBytes fuel (m ++ [0]) l = _
    unfold Link.writeBytes
    rw [hof, h.reader]
    show (⟨_, LineReader.empty.receive (clientBytes (zServer fuel l.server _).2)⟩ : Link) = _
    rw [hout, hbytes]
  have hread := LineReader.readLine_receive (inLine_answerText (verdict m) l.server.file.regs)
  refine ⟨⟨(zServer fuel l.server (.recv chunk)).1, LineReader.empty⟩, ?_,
    ⟨h.sound.step _, hwait, rfl⟩, hregs⟩
  refine ZClientService.request_of_readLine ?_
  rw [hwrite]
  show (LineReader.readLine _).map _ = _
  rw [answerLine, hread]
  rfl

/-- One axis is asked for. -/
theorem Ready.getServo (h : Ready l) {tmp : Char} {r : Reg} (htmp : tmp = 'X' ∨ tmp = 'Y')
    (hv : verdict (ZClientService.getServoText tmp) = .get r) {a : Char}
    (ha : a.toUpper = tmp) :
    ∃ l', (Call.getServo a).perform (link fuel) l =
        (some (.int (r.value l.server.file.regs)), l') ∧
      Ready l' ∧ l'.server.file.regs.pulses = l.server.file.regs.pulses := by
  obtain ⟨l', hreq, hready, hregs⟩ := h.request fuel (acceptedText_getServo htmp)
  refine ⟨l', ?_, hready, ?_⟩
  · rw [Call.perform_getServo, ZClientService.getServo_axis htmp ha, hreq, hv]
    show ((parseInt (r.numeral l.server.file.regs)).map Value.int, l') = _
    rw [parseInt_numeral h.sound.replyOk.inRange]
    rfl
  · rw [hregs, keepsPulses_get hv]

theorem Ready.enableServos (h : Ready l) (en : Bool) :
    ∃ l', (Call.enableServos en).perform (link fuel) l = (some .void, l') ∧
      Ready l' ∧ l'.server.file.regs.pulses = l.server.file.regs.pulses := by
  obtain ⟨l', hreq, hready, hregs⟩ := h.request fuel (acceptedText_enableServos en)
  refine ⟨l', ?_, hready, ?_⟩
  · rw [Call.perform_enableServos, ZClientService.enableServos, hreq]
    rfl
  · rw [hregs, keepsPulses_enableServos en]

/-- Both axes are set, and the client is told so. -/
theorem Ready.setServos (h : Ready l) (x y : Pulse) :
    ∃ l', (Call.setServos x y).perform (link fuel) l = (some (.bool true), l') ∧
      Ready l' ∧ l'.server.file.regs.pulses = (x.val, y.val) := by
  obtain ⟨l', hreq, hready, hregs⟩ := h.request fuel (acceptedText_setServos x y)
  refine ⟨l', ?_, hready, ?_⟩
  · rw [Call.perform_setServos, ZClientService.setServos, hreq, verdict_setServosText]
    rfl
  · rw [hregs, effect_setServosText]

/-- **One call** does to the registers what it does to the store, and returns the same. -/
theorem Ready.perform (h : Ready l) {t : ServoStore}
    (ht : l.server.file.regs.pulses = (t.x, t.y)) (c : Call) :
    ∃ l', c.perform (link fuel) l = (some (t.perform c).1, l') ∧ Ready l' ∧
      l'.server.file.regs.pulses = ((t.perform c).2.x, (t.perform c).2.y) := by
  have hx : l.server.file.regs.servoPwmX = t.x := congrArg Prod.fst ht
  have hy : l.server.file.regs.servoPwmY = t.y := congrArg Prod.snd ht
  cases c with
  | getServo a =>
    show ∃ l', (Call.getServo a).perform (link fuel) l =
        (some (.int (if a.toUpper = 'X' then t.x else if a.toUpper = 'Y' then t.y else -1)), l') ∧
      Ready l' ∧ l'.server.file.regs.pulses = (t.x, t.y)
    rw [← ht, ← hx, ← hy]
    by_cases hX : a.toUpper = 'X'
    · have hv : verdict (ZClientService.getServoText 'X') = .get .servoPwmX := by decide
      rw [if_pos hX]
      exact h.getServo fuel (Or.inl rfl) hv hX
    · rw [if_neg hX]
      by_cases hY : a.toUpper = 'Y'
      · have hv : verdict (ZClientService.getServoText 'Y') = .get .servoPwmY := by decide
        rw [if_pos hY]
        exact h.getServo fuel (Or.inr rfl) hv hY
      · -- no other letter reaches the server
        rw [if_neg hY]
        refine ⟨l, ?_, h, rfl⟩
        rw [Call.perform_getServo, ZClientService.getServo_other hX hY]
        rfl
  | enableServos en =>
    obtain ⟨l', hcall, hready, hpulses⟩ := h.enableServos fuel en
    exact ⟨l', hcall, hready, hpulses.trans ht⟩
  | setServos x y => exact h.setServos fuel x y

end Calls

/-! ## The refinement -/

/-- The system stands for the store: nothing is under way, and the registers hold the two
numbers. -/
structure Stores (s : System) (t : ServoStore) : Prop where
  sound : Sound s.server
  j : s.server.j = 0
  connected : s.server.connected = t.connected
  client : s.client = if t.connected then some LineReader.empty else none
  pulses : s.server.file.regs.pulses = (t.x, t.y)

section Refinement

variable (fuel : Nat) {s : System} {t : ServoStore}

/-- The commands at a connection keep the numbers. -/
theorem Stores.connect (h : Stores s t) (hc : t.connected = false) :
    Stores (s.act fuel .connect).1 { t with connected := true } ∧
      (s.act fuel .connect).2 = [] := by
  have hclient : s.client = none := by
    rw [h.client, hc]
    rfl
  have haccept := mServer_accept fuel (s := s.server.map Firmware.box) h.sound.fault
    (h.connected.trans hc)
  obtain ⟨hstate, hout⟩ := zServer_eq fuel h.sound.replyOk haccept
  have hact : s.act fuel .connect =
      (⟨(zServer fuel s.server .accept).1, some LineReader.empty⟩, []) := by
    unfold System.act
    rw [hclient]
    show ((⟨_, some (LineReader.empty.receive (clientBytes (zServer fuel s.server _).2))⟩ :
      System), ([] : List (Option Value))) = _
    rw [hout]
    rfl
  rw [hact]
  refine ⟨⟨h.sound.step .accept, (congrArg Server.j hstate).trans h.j,
    congrArg Server.connected hstate, rfl, ?_⟩, rfl⟩
  have hregs : (zServer fuel s.server .accept).1.file.regs = _ :=
    congrArg (fun u => u.file.store) hstate
  show (zServer fuel s.server .accept).1.file.regs.pulses = _
  rw [hregs]
  exact (pulses_foldl keepsPulses_connect _).trans h.pulses

/-- So do the commands after a disconnection. -/
theorem Stores.disconnect (h : Stores s t) (hc : t.connected = true) :
    Stores (s.act fuel .disconnect).1 { t with connected := false } ∧
      (s.act fuel .disconnect).2 = [] := by
  have hclient : s.client = some LineReader.empty := by
    rw [h.client, hc]
    rfl
  have hgone := mServer_disconnect fuel (s := s.server.map Firmware.box) h.sound.fault
    (h.connected.trans hc)
  obtain ⟨hstate, -⟩ := zServer_eq fuel h.sound.replyOk hgone
  have hact : s.act fuel .disconnect = (⟨(zServer fuel s.server .disconnect).1, none⟩, []) := by
    unfold System.act
    rw [hclient]
  rw [hact]
  refine ⟨⟨h.sound.step .disconnect, (congrArg Server.j hstate).trans h.j,
    congrArg Server.connected hstate, rfl, ?_⟩, rfl⟩
  have hregs : (zServer fuel s.server .disconnect).1.file.regs = _ :=
    congrArg (fun u => u.file.store) hstate
  show (zServer fuel s.server .disconnect).1.file.regs.pulses = _
  rw [hregs]
  exact (pulses_foldl keepsPulses_idle _).trans h.pulses

theorem Stores.call (h : Stores s t) (hc : t.connected = true) (c : Call) :
    Stores (s.act fuel (.call c)).1 (t.perform c).2 ∧
      (s.act fuel (.call c)).2 = [some (t.perform c).1] := by
  have hclient : s.client = some LineReader.empty := by
    rw [h.client, hc]
    rfl
  have hready : Ready ⟨s.server, LineReader.empty⟩ :=
    ⟨h.sound, ⟨h.sound.fault, h.connected.trans hc, h.j⟩, rfl⟩
  obtain ⟨l', hperform, hready', hpulses⟩ := hready.perform fuel h.pulses c
  have hact : s.act fuel (.call c) =
      (⟨l'.server, some l'.reader⟩, [some (t.perform c).1]) := by
    unfold System.act
    rw [hclient]
    show ((⟨(c.perform (link fuel) _).2.server, _⟩ : System), [_]) = _
    rw [hperform]
  -- no call closes the connection
  have hstay : (t.perform c).2.connected = true := by
    cases c <;> exact hc
  rw [hact]
  refine ⟨⟨hready'.sound, hready'.waiting.j, hready'.waiting.connected.trans hstay.symm, ?_,
    hpulses⟩, rfl⟩
  rw [hstay, hready'.reader]
  rfl

/-- **Every action does to the system what it does to the store.** -/
theorem Stores.act (h : Stores s t) (a : Action) :
    Stores (s.act fuel a).1 (t.act a).1 ∧ (s.act fuel a).2 = (t.act a).2 := by
  cases hc : t.connected with
  | false =>
    have hclient : s.client = none := by
      rw [h.client, hc]
      rfl
    cases a with
    | connect =>
      have hact : t.act .connect = ({ t with connected := true }, []) := by
        unfold ServoStore.act
        rw [hc]
      rw [hact]
      exact h.connect fuel hc
    | call c | disconnect =>
      -- there is no connection, on either side
      unfold System.act ServoStore.act
      rw [hclient, hc]
      exact ⟨h, rfl⟩
  | true =>
    have hclient : s.client = some LineReader.empty := by
      rw [h.client, hc]
      rfl
    cases a with
    | connect =>
      unfold System.act ServoStore.act
      rw [hclient, hc]
      exact ⟨h, rfl⟩
    | call c =>
      have hact : t.act (.call c) = ((t.perform c).2, [some (t.perform c).1]) := by
        unfold ServoStore.act
        rw [hc]
      rw [hact]
      exact h.call fuel hc c
    | disconnect =>
      have hact : t.act .disconnect = ({ t with connected := false }, []) := by
        unfold ServoStore.act
        rw [hc]
      rw [hact]
      exact h.disconnect fuel hc

end Refinement

/-- After power-up the store holds the initial pulse widths. -/
theorem stores_powerUp (fuel : Nat) (vIn gpio0 : Bool) (cmd : CharBuf 16) :
    Stores (System.powerUp fuel vIn gpio0 cmd) {} := by
  have hreach : Reachable fuel (System.powerUp fuel vIn gpio0 cmd).server :=
    .startUp vIn gpio0 [] cmd
  obtain ⟨-, hbox⟩ := startUp_box fuel (replyOk_setup vIn gpio0) cmd
  have hregs : (System.powerUp fuel vIn gpio0 cmd).server.file.regs = _ :=
    congrArg (fun u => u.file.store) hbox
  have hsetup : (setup vIn gpio0).regs = {} := by cases gpio0 <;> rfl
  refine ⟨hreach.sound, congrArg Server.j hbox, congrArg Server.connected hbox, rfl, ?_⟩
  rw [hregs]
  refine (pulses_foldl keepsPulses_idle _).trans ?_
  show (setup vIn gpio0).regs.pulses = _
  rw [hsetup]
  rfl

/-- **The servo store.** From power-up on, in every sequence of client sessions, every call
returns what the store of the two last set pulse widths returns, and the registers hold
them at every point. -/
theorem system_servoStore (fuel : Nat) (vIn gpio0 : Bool) (cmd : CharBuf 16)
    (actions : List Action) :
    let s := System.powerUp fuel vIn gpio0 cmd
    Runs.outputs (System.act fuel) s actions = Runs.outputs ServoStore.act {} actions ∧
      (Runs.final (System.act fuel) s actions).server.file.regs.pulses =
        ((Runs.final ServoStore.act {} actions).x,
          (Runs.final ServoStore.act {} actions).y) := by
  intro s
  obtain ⟨hfinal, hout⟩ := Runs.outputs_eq_of_bisim (R := Stores)
    (fun a _ _ h => h.act fuel a) (stores_powerUp fuel vIn gpio0 cmd) actions
  exact ⟨hout, hfinal.pulses⟩

end ProjZ
