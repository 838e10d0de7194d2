import ProjZ.Streamer.SentFrames

/-!
# What the clients are sent

Whatever the scheduler does, what a client has been sent are whole frames that the camera
has published, each with its own length and time, in the order of their publication
(`delivered_after`). Without spurious wake-ups no frame is sent to a client twice.

Every thread is looked at alone, with what it relies on while it owns the mutex and while it
does not; the rule for monitors makes one invariant of these. A picture that does not fit its
buffer, which the source does not check, ends the camera thread where it is, for all that is
said here; what the clients are sent is whole all the same.
-/

namespace ProjZ

namespace Streamer

open Monitor Httpd InputUvc

/-! ## The invariants of the threads -/

section Invariants

variable (setup : Setup) (strict : Bool)

/-- The camera thread, while it owns the mutex: what it has stored so far. -/
inductive CamHeld (news : List Frame) (input : Input setup.framesizeIn) (cam : Cam) : Prop where
  | copy (pos : Nat) (pc : cam.pc = .copy pos) (le : pos ≤ (stored setup cam.videoIn).length)
    (inside : pos ≤ setup.framesizeIn)
    (bytes : input.buf.bytes.take pos = (stored setup cam.videoIn).take pos)
  | size (pc : cam.pc = .size) (bytes : stored setup cam.videoIn <+: input.buf.bytes)
  | timestamp (pc : cam.pc = .timestamp) (bytes : stored setup cam.videoIn <+: input.buf.bytes)
    (size : input.size = (stored setup cam.videoIn).length)
  | broadcast (pc : cam.pc = .broadcast)
    (holds : Holds input ⟨stored setup cam.videoIn, cam.videoIn.timestamp⟩)
  | unlock (pc : cam.pc = .unlock) (bytes : stored setup cam.videoIn <+: input.buf.bytes)
    (holds : Holds input (frameAt news news.length))
  | fault (pc : cam.pc = .fault) (long : setup.framesizeIn < (stored setup cam.videoIn).length)

/-- The camera thread without the mutex. -/
inductive CamOut (cam : Cam) : Prop where
  | idle (pc : cam.pc ∈ [CamPc.loop, .paused, .grab, .drop, .lock, .done])
  | fault (pc : cam.pc = .fault) (mjpeg : cam.videoIn.formatIn = .mjpeg)
    (long : setup.framesizeIn < cam.videoIn.bytesused)

/-- `max_frame_size` is the size of the memory of a stream. -/
def Allocated (client : Client) : Prop :=
  client.request = .stream → client.frame.length = client.maxFrameSize

/-- The client knows the size of the frame, and has memory for it. -/
structure Roomy (news : List Frame) {n : Nat} (input : Input n) (sent : List (List UInt8))
    (client : Client) : Prop where
  allocated : Allocated client
  ready : Ready strict client.request news sent
  size : client.frameSize = input.size
  room : client.frameSize ≤ client.frame.length

/-- A client that owns the mutex. -/
inductive ClientHeld (news : List Frame) {n : Nat} (input : Input n)
    (sent : List (List UInt8)) (client : Client) : Prop where
  | wait (pc : client.pc = .wait) (allocated : Allocated client)
    (idle : Idle strict client.request news sent)
  | size (pc : client.pc = .size) (allocated : Allocated client)
    (ready : Ready strict client.request news sent)
  | alloc (pc : client.pc = .alloc) (allocated : Allocated client)
    (ready : Ready strict client.request news sent) (size : client.frameSize = input.size)
  | timestamp (pc : client.pc = .timestamp) (roomy : Roomy strict news input sent client)
  | copy (i : Nat) (pc : client.pc = .copy i) (roomy : Roomy strict news input sent client)
    (time : client.timestamp = input.timestamp) (le : i ≤ client.frameSize)
    (bytes : client.frame.take i = input.buf.bytes.take i)
  | unlock (pc : client.pc = .unlock) (allocated : Allocated client)
    (ready : Ready strict client.request news sent)
    (copied : Copy client (frameAt news news.length))
  | unlockError (pc : client.pc = .unlockError)
    (ready : Ready strict client.request news sent)

/-- A client without the mutex. -/
inductive ClientOut (news : List Frame) (status : Status) (sent : List (List UInt8))
    (client : Client) : Prop where
  | opening (pc : client.pc = .opening) (running : status = .running)
    (stream : client.request = .stream) (allocated : Allocated client) (nil : sent = [])
  | loop (pc : client.pc = .loop) (running : status = .running)
    (stream : client.request = .stream) (allocated : Allocated client)
    (idle : Idle strict client.request news sent)
  | lock (pc : client.pc = .lock) (running : status = .running) (allocated : Allocated client)
    (idle : Idle strict client.request news sent)
  | asleep (pc : client.pc = .size) (asleep : status = .asleep) (allocated : Allocated client)
    (idle : Idle strict client.request news sent)
  | signalled (pc : client.pc = .size) (signalled : status = .signalled)
    (allocated : Allocated client) (ready : Ready strict client.request news sent)
  | header (pc : client.pc = .header) (running : status = .running)
    (allocated : Allocated client) (sending : Sending strict client news sent fun _ => [])
  | frame (pc : client.pc = .frame) (running : status = .running)
    (allocated : Allocated client)
    (sending : Sending strict client news sent fun f =>
      [Streamer.header client.request f.picture.length f.timestamp])
  | boundary (pc : client.pc = .boundary) (running : status = .running)
    (stream : client.request = .stream) (allocated : Allocated client)
    (sending : Sending strict client news sent fun f =>
      [Streamer.header client.request f.picture.length f.timestamp, f.picture])
  | error (pc : client.pc = .error) (running : status = .running)
    (idle : Idle strict client.request news sent)
  | done (pc : client.pc = .done) (running : status = .running)
    (delivered : ∃ ks, Delivered strict client.request news sent ks)

/-- The frame buffer: while the mutex is free, the newest frame is in it. -/
def spec {τ : Type} (camera : τ) (request : τ → Request) :
    Spec τ Loc (Input setup.framesizeIn) Frame (List UInt8) where
  free news input := Holds input (frameAt news news.length)
  held t news input th :=
    match th.loc with
    | .cam cam =>
      t = camera ∧ cam.videoIn.framesizeIn = setup.framesizeIn ∧ CamHeld setup news input cam
    | .client client =>
      t ≠ camera ∧ client.request = request t ∧ Holds input (frameAt news news.length) ∧
        ClientHeld strict news input th.sent client
  out t news th :=
    match th.loc with
    | .cam cam =>
      t = camera ∧ cam.videoIn.framesizeIn = setup.framesizeIn ∧ th.status = .running ∧
        CamOut setup cam
    | .client client =>
      t ≠ camera ∧ client.request = request t ∧ ClientOut strict news th.status th.sent client

/-- What the scheduler may do: everything, but for spurious wake-ups, which are those of the
weaker order. -/
def Allowed {τ : Type} : Monitor.Event τ Env → Prop
  | .run _ _ => True
  | .wake _ => strict = false

end Invariants

section Steps

variable {setup : Setup} {strict : Bool} {τ : Type} {camera t : τ} {request : τ → Request}
  {news : List Frame} {input : Input setup.framesizeIn} {sent : List (List UInt8)} {env : Env}

/-! ### The camera -/

/-- A new frame leaves the other clients as they are, and those that wait for it may send
it. -/
theorem ClientOut.wake {th : Thread Loc (List UInt8)} {client : Client}
    (h : ClientOut strict news th.status th.sent client) (f : Frame) :
    ClientOut strict (news ++ [f]) th.wake.status th.wake.sent client := by
  rw [Thread.wake_sent]
  have hrun : th.status = .running → th.wake.status = .running := by
    intro hst
    rw [Thread.wake_of_ne (by rw [hst]; nofun)]
    exact hst
  cases h with
  | opening pc hst stream allocated nil => exact .opening pc (hrun hst) stream allocated nil
  | loop pc hst stream allocated idle => exact .loop pc (hrun hst) stream allocated (idle.append f)
  | lock pc hst allocated idle => exact .lock pc (hrun hst) allocated (idle.append f)
  | asleep pc hst allocated idle =>
    refine .signalled pc ?_ allocated (idle.ready f)
    unfold Thread.wake
    rw [hst]
  | signalled pc hst allocated ready =>
    refine .signalled pc ?_ allocated (ready.idle.ready f)
    rw [Thread.wake_of_ne (by rw [hst]; nofun)]
    exact hst
  | header pc hst allocated sending => exact .header pc (hrun hst) allocated (sending.append f)
  | frame pc hst allocated sending => exact .frame pc (hrun hst) allocated (sending.append f)
  | boundary pc hst stream allocated sending =>
    exact .boundary pc (hrun hst) stream allocated (sending.append f)
  | error pc hst idle => exact .error pc (hrun hst) (idle.append f)
  | done pc hst delivered =>
    obtain ⟨ks, hks⟩ := delivered
    exact .done pc (hrun hst) ⟨ks, hks.append f⟩

/-- One more byte of the picture is stored. -/
theorem write_stored {n : Nat} {buf : CharBuf n} {bytes : List UInt8} {pos : Nat} {c : UInt8}
    (hn : pos < n) (hc : bytes[pos]? = some c) (htake : buf.bytes.take pos = bytes.take pos) :
    buf.write pos c = some (buf.set pos c) ∧
      (buf.set pos c).bytes.take (pos + 1) = bytes.take (pos + 1) := by
  refine ⟨CharBuf.write_of_lt hn c buf, ?_⟩
  have hset := CharBuf.take_overlay (s := [c]) (i := pos) (b := buf)
    (by rw [List.length_singleton]; omega)
  rw [List.length_singleton, CharBuf.overlay_cons, CharBuf.overlay_nil, htake] at hset
  rw [hset, List.take_add_one, hc]
  rfl

/-- The camera thread at work on the buffer. -/
theorem held_camThread {cam : Cam} (ht : t = camera)
    (hsize : cam.videoIn.framesizeIn = setup.framesizeIn) (h : CamHeld setup news input cam) :
    (spec setup strict camera request).AfterHeld t news input ⟨.cam cam, .running, sent⟩
      (camThread setup cam env) := by
  unfold camThread
  cases h with
  | copy pos pc le inside bytes =>
    rw [pc]
    dsimp only
    cases hc : (stored setup cam.videoIn)[pos]? with
    | none =>
      -- the end of the picture: all of it is in the buffer
      refine ⟨ht, hsize, .size rfl ?_⟩
      have hlen := List.getElem?_eq_none_iff.mp hc
      rw [List.take_of_length_le hlen] at bytes
      exact bytes ▸ List.take_prefix _ _
    | some c =>
      have hlt : pos < (stored setup cam.videoIn).length := (List.getElem?_eq_some_iff.mp hc).1
      show (spec setup strict camera request).held t news _ _
      rcases Nat.lt_or_ge pos setup.framesizeIn with hpos | hpos
      · obtain ⟨hwrite, hnext⟩ := write_stored hpos hc bytes
        simp only [hwrite]
        exact ⟨ht, hsize, .copy (pos + 1) rfl hlt hpos hnext⟩
      · -- the buffer is full, and there is more to store
        have hwrite := CharBuf.write_of_ge hpos c input.buf
        simp only [hwrite]
        exact ⟨ht, hsize, .fault rfl (Nat.lt_of_le_of_lt hpos hlt)⟩
  | size pc bytes =>
    rw [pc]
    exact ⟨ht, hsize, .timestamp rfl bytes rfl⟩
  | timestamp pc bytes size =>
    rw [pc]
    exact ⟨ht, hsize, .broadcast rfl ⟨bytes, size, rfl⟩⟩
  | broadcast pc holds =>
    rw [pc]
    -- the frame is the newest one now, and every client that waits is told
    refine ⟨⟨ht, hsize, .unlock rfl holds.picture ?_⟩, ?_⟩
    · rw [frameAt_last]
      exact holds
    · intro u th hu hout
      cases hloc : th.loc with
      | cam cam' =>
        simp only [spec, hloc] at hout
        exact absurd (hout.1.trans ht.symm) hu
      | client client =>
        simp only [spec, hloc, Thread.wake_loc] at hout ⊢
        exact ⟨hout.1, hout.2.1, hout.2.2.wake _⟩
  | unlock pc bytes holds =>
    rw [pc]
    exact ⟨holds, ht, hsize, rfl, .idle List.mem_cons_self⟩
  | fault pc long =>
    rw [pc]
    exact ⟨ht, hsize, .fault pc long⟩

/-- The camera thread without the mutex. -/
theorem out_camThread {cam : Cam} (ht : t = camera)
    (hsize : cam.videoIn.framesizeIn = setup.framesizeIn) (h : CamOut setup cam) :
    (spec setup strict camera request).AfterOut t news ⟨.cam cam, .running, sent⟩
      (camThread setup cam env) := by
  unfold camThread
  cases h with
  | idle pc =>
    simp only [List.mem_cons, List.not_mem_nil, or_false] at pc
    rcases pc with pc | pc | pc | pc | pc | pc
    · rw [pc]
      have hpc : ∀ stop : Bool, (if stop then CamPc.done else .paused) ∈
          [CamPc.loop, .paused, .grab, .drop, .lock, .done] := by decide
      exact ⟨ht, hsize, rfl, .idle (hpc env.stop)⟩
    · rw [pc]
      have hpc : ∀ paused : Bool, (if paused then CamPc.paused else .grab) ∈
          [CamPc.loop, .paused, .grab, .drop, .lock, .done] := by decide
      exact ⟨ht, hsize, rfl, .idle (hpc env.paused)⟩
    · rw [pc]
      dsimp only
      -- a grab keeps the size of the buffers, or is too long for `tmpbuffer`
      rcases grabbed_uvcGrab cam.videoIn env.buffer with
        ⟨next, hgrab, hnext⟩ | ⟨next, hgrab, hnext, hmjpeg, hlong⟩
      · rw [hgrab]
        have hpc : ∀ p : Prop, ∀ [Decidable p], (if p then CamPc.loop else .drop) ∈
            [CamPc.loop, .paused, .grab, .drop, .lock, .done] := by
          intro p _
          split <;> decide
        exact ⟨ht, hnext.framesizeIn.trans hsize, rfl, .idle (hpc _)⟩
      · rw [hgrab]
        have hnextSize := hnext.framesizeIn.trans hsize
        exact ⟨ht, hnextSize, rfl, .fault rfl hmjpeg (hnextSize ▸ hlong)⟩
    · rw [pc]
      intro input
      refine ⟨rfl, ht, hsize, rfl, .idle ?_⟩
      dsimp only
      split <;> decide
    · rw [pc]
      intro input _
      -- nothing has been stored yet
      exact ⟨ht, hsize, .copy 0 rfl (Nat.zero_le _) (Nat.zero_le _) rfl⟩
    · rw [pc]
      exact ⟨ht, hsize, rfl, .idle (by rw [pc]; decide)⟩
  | fault pc mjpeg long =>
    rw [pc]
    exact ⟨ht, hsize, rfl, .fault pc mjpeg long⟩

/-! ### The clients -/

/-- `realloc` gives as much memory as was asked for. -/
theorem length_realloc (frame : List UInt8) (fresh : Memory) (n : Nat) :
    (realloc frame fresh n).length = n := by
  rw [realloc, List.length_map, List.length_range]

/-- What `allocate` leaves alone, and its two outcomes. -/
structure Allocates (client next : Client) : Prop where
  request : next.request = client.request
  frameSize : next.frameSize = client.frameSize
  outcome : next.pc = .timestamp ∧ Allocated next ∧ next.frameSize ≤ next.frame.length ∨
    next.pc = .unlockError

/-- A client that needs more memory has it afterwards, or gives up. -/
theorem allocates_allocate {client : Client} (h : Allocated client) (env : Env) :
    Allocates client (allocate client env) := by
  obtain ⟨req, pc, frame, frameSize, maxFrameSize, timestamp⟩ := client
  have hlen := length_realloc
  unfold allocate Allocated at *
  cases req with
  | stream =>
    dsimp only
    by_cases hgrow : frameSize > maxFrameSize
    · rw [if_pos hgrow]
      -- ten kilobytes more than the frame needs
      have hgrown : frameSize ≤ frameSize + TEN_K := Nat.le_add_right _ _
      by_cases hok : env.ok = true
      · rw [if_pos hok]
        generalize frameSize + TEN_K = size at hgrown ⊢
        refine ⟨rfl, rfl, .inl ⟨rfl, fun _ => hlen _ _ _, ?_⟩⟩
        dsimp only
        rw [hlen]
        exact hgrown
      · rw [if_neg hok]
        exact ⟨rfl, rfl, .inr rfl⟩
    · rw [if_neg hgrow]
      refine ⟨rfl, rfl, .inl ⟨rfl, h, ?_⟩⟩
      have hframe : frame.length = maxFrameSize := h rfl
      dsimp only
      rw [hframe]
      exact Nat.le_of_not_lt hgrow
  | snapshot =>
    dsimp only
    by_cases hok : env.ok = true
    · rw [if_pos hok]
      refine ⟨rfl, rfl, .inl ⟨rfl, nofun, ?_⟩⟩
      dsimp only
      rw [hlen]
      exact Nat.le_succ _
    · rw [if_neg hok]
      exact ⟨rfl, rfl, .inr rfl⟩

/-- One more byte of the frame is copied. -/
theorem take_set {frame bytes : List UInt8} {i : Nat} {c : UInt8} (hlt : i < frame.length)
    (hc : bytes[i]? = some c) (h : frame.take i = bytes.take i) :
    (frame.set i c).take (i + 1) = bytes.take (i + 1) := by
  rw [List.take_add_one, List.take_add_one, List.take_set_of_le (Nat.le_refl i), h, hc,
    List.getElem?_set_self hlt]

/-- The copy of a frame that is in the buffer. -/
theorem Holds.copy {n : Nat} {input : Input n} {f : Frame} (h : Holds input f) {client : Client}
    (hsize : client.frameSize = input.size) (htime : client.timestamp = input.timestamp)
    (hframe : client.frame.take client.frameSize = input.buf.bytes.take client.frameSize) :
    Copy client f where
  picture := by
    rw [hframe, hsize, h.size]
    exact (List.prefix_iff_eq_take.mp h.picture).symm
  size := hsize.trans h.size
  timestamp := htime.trans h.timestamp

/-- A client that owns the mutex. -/
theorem held_sendFrames {client : Client} (ht : t ≠ camera) (hreq : client.request = request t)
    (hholds : Holds input (frameAt news news.length))
    (h : ClientHeld strict news input sent client) :
    (spec setup strict camera request).AfterHeld t news input
      ⟨.client client, .running, sent⟩ (sendFrames setup client env) := by
  unfold sendFrames
  cases h with
  | wait pc allocated idle =>
    rw [pc]
    exact ⟨hholds, ht, hreq, .asleep rfl rfl allocated idle⟩
  | size pc allocated ready =>
    rw [pc]
    exact ⟨ht, hreq, hholds, .alloc rfl allocated ready rfl⟩
  | alloc pc allocated ready size =>
    have halloc := allocates_allocate allocated env
    rw [pc]
    dsimp only
    generalize allocate client env = next at halloc
    have hready : Ready strict next.request news (sent ++ []) := by
      rw [halloc.request, List.append_nil]
      exact ready
    refine ⟨ht, halloc.request.trans hreq, hholds, ?_⟩
    rcases halloc.outcome with ⟨hpc, hmem, hroom⟩ | hpc
    · exact .timestamp hpc ⟨hmem, hready, halloc.frameSize.trans size, hroom⟩
    · exact .unlockError hpc hready
  | timestamp pc roomy =>
    rw [pc]
    exact ⟨ht, hreq, hholds, .copy 0 rfl ⟨roomy.allocated, roomy.ready, roomy.size, roomy.room⟩
      rfl (Nat.zero_le _) rfl⟩
  | copy i pc roomy time le bytes =>
    rw [pc]
    dsimp only
    by_cases hlt : i < client.frameSize
    · rw [if_pos hlt]
      -- byte `i` is inside the buffer, whose frame has this size, and inside the own memory
      have hbuf : i < input.buf.bytes.length :=
        Nat.lt_of_lt_of_le hlt (by rw [roomy.size, hholds.size]; exact hholds.picture.length_le)
      have hroom : i < client.frame.length := Nat.lt_of_lt_of_le hlt roomy.room
      have hc := List.getElem?_eq_getElem hbuf
      show (spec setup strict camera request).held t news _ _
      simp only [hc, if_pos hroom]
      refine ⟨ht, hreq, hholds, .copy (i + 1) rfl ⟨?_, roomy.ready, roomy.size, ?_⟩ time hlt
        (take_set hroom hc bytes)⟩
      · intro hstream
        show (client.frame.set _ _).length = _
        rw [List.length_set]
        exact roomy.allocated hstream
      · show _ ≤ (client.frame.set _ _).length
        rw [List.length_set]
        exact roomy.room
    · rw [if_neg hlt]
      -- the whole frame has been copied
      obtain rfl : i = client.frameSize := Nat.le_antisymm le (Nat.le_of_not_lt hlt)
      have hcopy := hholds.copy roomy.size time bytes
      refine ⟨ht, hreq, hholds, .unlock rfl roomy.allocated ?_
        ⟨hcopy.picture, hcopy.size, hcopy.timestamp⟩⟩
      rw [List.append_nil]
      exact roomy.ready
  | unlock pc allocated ready copied =>
    rw [pc]
    -- the frame that was copied is newer than all that were sent
    obtain ⟨ks, hks, hsent, hbefore⟩ := ready
    refine ⟨hholds, ht, hreq, .header rfl rfl allocated ⟨ks, news.length, hks, hbefore,
      Nat.le_refl _, ⟨copied.picture, copied.size, copied.timestamp⟩, ?_⟩⟩
    rw [List.append_nil]
    exact hsent
  | unlockError pc ready =>
    rw [pc]
    exact ⟨hholds, ht, hreq, .error rfl rfl ready.idle⟩

/-- What has been sent to a client, wherever it is. -/
theorem ClientHeld.delivered {client : Client} (h : ClientHeld strict news input sent client) :
    ∃ ks, Delivered strict client.request news sent ks := by
  cases h with
  | wait pc allocated idle => exact idle.delivered
  | size pc allocated ready => exact ready.idle.delivered
  | alloc pc allocated ready size => exact ready.idle.delivered
  | timestamp pc roomy => exact roomy.ready.idle.delivered
  | copy i pc roomy time le bytes => exact roomy.ready.idle.delivered
  | unlock pc allocated ready copied => exact ready.idle.delivered
  | unlockError pc ready => exact ready.idle.delivered

/-- Outside the mutex, too, whole frames have been sent but for the one in progress. -/
theorem ClientOut.delivered {client : Client} {status : Status}
    (h : ClientOut strict news status sent client) :
    ∃ ks, Delivered strict client.request news sent ks := by
  cases h with
  | opening pc running stream allocated nil =>
    refine ⟨[], List.pairwise_singleton _ _, nofun, fun _ => Nat.zero_le 1, .inl ?_⟩
    rw [nil]
    exact List.nil_prefix
  | loop pc running stream allocated idle => exact idle.delivered
  | lock pc running allocated idle => exact idle.delivered
  | asleep pc asleep allocated idle => exact idle.delivered
  | signalled pc signalled allocated ready => exact ready.idle.delivered
  | header pc running allocated sending => exact sending.delivered fun f => List.nil_prefix
  | frame pc running allocated sending =>
    exact sending.delivered fun f => ⟨f.picture :: ending client.request, rfl⟩
  | boundary pc running stream allocated sending =>
    exact sending.delivered fun f => List.prefix_append _ _
  | error pc running idle => exact idle.delivered
  | done pc running delivered => exact delivered

/-- A call of `write`: both of its outcomes. -/
theorem out_write {client : Client} (ht : t ≠ camera) (hreq : client.request = request t)
    {s : List UInt8} {next : ClientPc}
    (hok : ClientOut strict news .running (sent ++ [s]) { client with pc := next })
    (h : ClientOut strict news .running sent client) :
    (spec setup strict camera request).AfterOut t news ⟨.client client, .running, sent⟩
      (write setup client env s next) := by
  unfold write
  by_cases hwrite : env.ok = true
  · rw [if_pos hwrite]
    exact ⟨ht, hreq, hok⟩
  · rw [if_neg hwrite]
    -- the client gives up, and has been sent what it had been sent
    refine ⟨ht, hreq, .done rfl rfl ?_⟩
    rw [List.append_nil]
    exact h.delivered

/-- A client without the mutex. -/
theorem out_sendFrames {client : Client} (ht : t ≠ camera) (hreq : client.request = request t)
    (h : ClientOut strict news .running sent client) :
    (spec setup strict camera request).AfterOut t news ⟨.client client, .running, sent⟩
      (sendFrames setup client env) := by
  unfold sendFrames
  cases id h with
  | opening pc running stream allocated nil =>
    rw [pc]
    refine out_write ht hreq (.loop rfl rfl stream allocated ⟨[], series_nil, ?_⟩) h
    rw [nil]
    show _ = text client.request news []
    rw [stream]
    rfl
  | loop pc running stream allocated idle =>
    rw [pc]
    refine ⟨ht, hreq, ?_⟩
    rw [List.append_nil]
    cases hstop : env.stop with
    | true => exact .done (by simp only [if_true]) rfl idle.delivered
    | false => exact .lock (by simp only [Bool.false_eq_true, if_false]) rfl allocated idle
  | lock pc running allocated idle =>
    rw [pc]
    -- with the mutex comes the newest frame
    exact fun input hfree => ⟨ht, hreq, hfree, .wait rfl allocated idle⟩
  | asleep pc asleep allocated idle => cases asleep
  | signalled pc signalled allocated ready => cases signalled
  | header pc running allocated sending =>
    rw [pc]
    -- the length and the time are those of the frame that was copied
    refine out_write ht hreq (.frame rfl rfl allocated (sending.write .frame
      (fun f => [Streamer.header client.request f.picture.length f.timestamp]) ?_)) h
    intro f hcopy
    rw [hcopy.size, hcopy.timestamp]
  | frame pc running allocated sending =>
    have hpicture : ∀ f, Copy client f → [f.picture] = [client.frame.take client.frameSize] := by
      intro f hcopy
      rw [hcopy.picture]
    rw [pc]
    dsimp only
    cases hr : client.request with
    | stream =>
      exact out_write ht hreq (.boundary rfl rfl hr allocated
        (sending.write .boundary (fun f => [f.picture]) hpicture)) h
    | snapshot =>
      -- a snapshot ends with its picture
      have hdone := sending.write .done (fun f => [f.picture]) hpicture
      exact out_write ht hreq
        (.done rfl rfl (hdone.delivered fun f => List.prefix_append _ _)) h
  | boundary pc running stream allocated sending =>
    rw [pc]
    refine out_write ht hreq
      (.loop rfl rfl stream allocated (sending.idle stream [partBoundary] ?_)) h
    intro f
    rw [stream]
    rfl
  | error pc running idle =>
    obtain ⟨ks, hks, hsent⟩ := idle
    rw [pc]
    refine out_write ht hreq (.done rfl rfl ⟨ks, hks.sorted, hks.le, ?_, .inr ?_⟩) h
    · intro hsnap
      rw [hks.once hsnap]
      exact Nat.zero_le 1
    · rw [hsent]
  | done pc running delivered =>
    rw [pc]
    refine ⟨ht, hreq, .done pc rfl ?_⟩
    rw [List.append_nil]
    exact delivered

/-! ### Waking up -/

/-- A client that has been signalled finds the newest frame. -/
theorem ClientOut.resume {client : Client} (h : ClientOut strict news .signalled sent client) :
    ClientHeld strict news input sent client := by
  cases h with
  | signalled pc _ allocated ready => exact .size pc allocated ready
  | asleep pc asleep allocated idle => cases asleep
  | opening pc running => cases running
  | loop pc running => cases running
  | lock pc running => cases running
  | header pc running => cases running
  | frame pc running => cases running
  | boundary pc running => cases running
  | error pc running => cases running
  | done pc running => cases running

/-- After a spurious wake-up the newest frame may be one that was sent before. -/
theorem ClientOut.spurious {client : Client} (h : ClientOut false news .asleep sent client) :
    ClientOut false news .signalled sent client := by
  cases h with
  | asleep pc _ allocated idle => exact .signalled pc rfl allocated idle.ready_of_not_strict
  | signalled pc signalled allocated ready => cases signalled
  | opening pc running => cases running
  | loop pc running => cases running
  | lock pc running => cases running
  | header pc running => cases running
  | frame pc running => cases running
  | boundary pc running => cases running
  | error pc running => cases running
  | done pc running => cases running

/-! ## Every interleaving -/

/-- Every thread keeps the invariants. -/
theorem sound :
    (spec setup strict camera request).Sound (threads setup) (Allowed strict) where
  held t env _ news input th hst h := by
    obtain ⟨loc, status, sent⟩ := th
    obtain rfl : status = .running := hst
    cases loc with
    | cam cam => exact held_camThread h.1 h.2.1 h.2.2
    | client client => exact held_sendFrames h.1 h.2.1 h.2.2.1 h.2.2.2
  out t env _ news th hst h := by
    obtain ⟨loc, status, sent⟩ := th
    obtain rfl : status = .running := hst
    cases loc with
    | cam cam => exact out_camThread h.1 h.2.1 h.2.2.2
    | client client => exact out_sendFrames h.1 h.2.1 h.2.2
  resume t news input th hst hfree h := by
    obtain ⟨loc, status, sent⟩ := th
    obtain rfl : status = .signalled := hst
    cases loc with
    | cam cam => exact absurd h.2.2.1 nofun
    | client client => exact ⟨h.1, h.2.1, hfree, h.2.2.resume⟩
  wake t ha news th h := by
    obtain rfl : strict = false := ha
    by_cases hst : th.status = .asleep
    · obtain ⟨loc, status, sent⟩ := th
      obtain rfl : status = .asleep := hst
      cases loc with
      | cam cam => exact absurd h.2.2.1 nofun
      | client client => exact ⟨h.1, h.2.1, h.2.2.spurious⟩
    · rw [Thread.wake_of_ne hst]
      exact h

/-- Without a promise about wake-ups everything is allowed. -/
theorem allowed_false (e : Monitor.Event τ Env) : Allowed false e := by
  cases e with
  | run t env => trivial
  | wake t => rfl

variable [DecidableEq τ]

/-- The invariants hold at the start. -/
theorem inv_start (buf : CharBuf setup.framesizeIn) :
    (spec setup strict camera request).Inv (start setup camera request buf) where
  free _ := ⟨List.nil_prefix, rfl, rfl⟩
  running t ht := absurd ht nofun
  held t ht := absurd ht nofun
  out t _ := by
    by_cases ht : t = camera
    · simp only [spec, start, if_pos ht]
      exact ⟨ht, rfl, trivial, .idle List.mem_cons_self⟩
    · simp only [spec, start, if_neg ht]
      refine ⟨ht, rfl, ?_⟩
      unfold Client.start
      cases hr : request t with
      | stream => exact .opening rfl rfl rfl (fun _ => rfl) rfl
      | snapshot =>
        exact .lock rfl rfl nofun ⟨[], series_nil, rfl⟩

/-- The threads after a run of the scheduler. -/
def after (setup : Setup) (camera : τ) (request : τ → Request)
    (buf : CharBuf setup.framesizeIn) (es : List (Monitor.Event τ Env)) :
    State τ Loc (Input setup.framesizeIn) Frame (List UInt8) :=
  Runs.run (step (threads setup)) (start setup camera request buf) es

/-- The invariant holds after every allowed run. -/
theorem inv_after (camera : τ) (request : τ → Request) (buf : CharBuf setup.framesizeIn)
    {es : List (Monitor.Event τ Env)} (hes : ∀ e ∈ es, Allowed strict e) :
    (spec setup strict camera request).Inv (after setup camera request buf es) :=
  sound.run (inv_start buf) es hes

/-- What the invariants say of one thread, with the mutex or without it. -/
inductive ThreadCase (setup : Setup) (strict : Bool) (camera : τ) (request : τ → Request)
    (s : State τ Loc (Input setup.framesizeIn) Frame (List UInt8)) (t : τ) : Prop where
  | cam (cam : Cam) (loc : (s.thread t).loc = .cam cam) (ht : t = camera)
    (h : CamHeld setup s.news s.shared cam ∨ CamOut setup cam)
  | client (client : Client) (loc : (s.thread t).loc = .client client) (ht : t ≠ camera)
    (hreq : client.request = request t)
    (h : ClientHeld strict s.news s.shared (s.thread t).sent client ∨
      ClientOut strict s.news (s.thread t).status (s.thread t).sent client)

/-- Every thread is the camera or a client, and is where its invariant says. -/
theorem threadCase {s : State τ Loc (Input setup.framesizeIn) Frame (List UInt8)}
    (hinv : (spec setup strict camera request).Inv s) (t : τ) :
    ThreadCase setup strict camera request s t := by
  by_cases howner : s.owner = some t
  · have hheld := hinv.held t howner
    unfold spec at hheld
    cases hloc : (s.thread t).loc with
    | cam cam =>
      simp only [hloc] at hheld
      exact .cam cam hloc hheld.1 (.inl hheld.2.2)
    | client client =>
      simp only [hloc] at hheld
      exact .client client hloc hheld.1 hheld.2.1 (.inl hheld.2.2.2)
  · have hout := hinv.out t howner
    unfold spec at hout
    cases hloc : (s.thread t).loc with
    | cam cam =>
      simp only [hloc] at hout
      exact .cam cam hloc hout.1 (.inr hout.2.2.2)
    | client client =>
      simp only [hloc] at hout
      exact .client client hloc hout.1 hout.2.1 (.inr hout.2.2)

/-- Each thread knows what it has been sent. -/
theorem delivered_of_inv
    {s : State τ Loc (Input setup.framesizeIn) Frame (List UInt8)}
    (hinv : (spec setup strict camera request).Inv s) (ht : t ≠ camera) :
    ∃ ks, Delivered strict (request t) s.news (s.thread t).sent ks := by
  cases threadCase hinv t with
  | cam cam loc hcam => exact absurd hcam ht
  | client client loc _ hreq h =>
    rw [← hreq]
    exact h.elim ClientHeld.delivered ClientOut.delivered

end Steps

/-! ### A small picture -/

/-- A camera with two lines of two pixels. -/
def tinySetup : Setup where
  jpeg := firstColours
  gquality := 75
  minimumSize := 0
  videoIn := initVideoIn 2 2 .yuyv false 0

/-- White above black, taken at second 7. -/
def tinyEnv : Env where
  stop := false
  paused := false
  ok := true
  fresh := fun _ => 0
  buffer := ⟨[255, 128, 255, 128, 0, 128, 0, 128], ⟨7, 0⟩⟩

/-- The frame buffer of that camera. -/
def tinyBuf : CharBuf tinySetup.framesizeIn := ⟨List.replicate 8 0, by decide⟩

/-- The client waits, the camera publishes, and the client sends. -/
def tinyRun : List (Monitor.Event Bool Env) :=
  List.replicate 4 (.run false tinyEnv) ++ List.replicate 14 (.run true tinyEnv) ++
    List.replicate 13 (.run false tinyEnv)

/-- No thread of the small run is woken without a signal. -/
theorem allowed_tinyRun (strict : Bool) : ∀ e ∈ tinyRun, Allowed strict e := by
  intro e he
  simp only [tinyRun, List.mem_append, List.mem_replicate] at he
  rcases he with (⟨-, rfl⟩ | ⟨-, rfl⟩) | ⟨-, rfl⟩
  · trivial
  · trivial
  · trivial

/-- The threads after that run. -/
def tinyAfter : State Bool Loc (Input tinySetup.framesizeIn) Frame (List UInt8) :=
  after tinySetup true (fun _ => .stream) tinyBuf tinyRun

end Streamer

end ProjZ
