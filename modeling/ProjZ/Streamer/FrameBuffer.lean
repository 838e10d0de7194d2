import ProjZ.Lib.CharBuf
import ProjZ.Lib.Monitor
import ProjZ.Streamer.JpegUtils

/-!
# The frame buffer

One camera thread and any number of clients share the frame buffer of an input plugin
(`struct _input`), under the mutex `db` and the condition variable `db_update`: `cam_thread`
of `input_uvc.c`, and `send_stream` and `send_snapshot` of `httpd.c`. Every operation on
shared data is a step of its own; pictures are copied byte by byte, in and out, so that the
scheduler may switch threads between any two bytes.
-/

namespace ProjZ

namespace Streamer

open Monitor Httpd InputUvc

/-- What `input_init` leaves: the settings, and the camera. -/
structure Setup where
  jpeg : Jpeg
  gquality : Nat
  minimumSize : Nat
  videoIn : VdIn

/-- The size of the frame buffer, which `input_run` allocates. -/
def Setup.framesizeIn (setup : Setup) : Nat := setup.videoIn.framesizeIn

/-- The shared part of `struct _input`. -/
structure Input (n : Nat) where
  buf : CharBuf n
  size : Nat
  timestamp : Timeval

/-- What a step of a thread gets from outside: the value it reads in `pglobal->stop`, whether
the stream is paused, whether its call of `write`, `malloc` or `realloc` succeeds, what fresh
memory holds, and the next buffer of the driver. -/
structure Env where
  stop : Bool
  paused : Bool
  ok : Bool
  fresh : Memory
  buffer : V4l2Buffer

/-! ## The camera -/

/-- Where `cam_thread` is. -/
inductive CamPc where
  | loop
  | paused
  | grab
  | drop
  | lock
  | copy (pos : Nat)
  | size
  | timestamp
  | broadcast
  | unlock
  | done
  | fault
deriving DecidableEq, Repr

/-- The camera thread and its local variables. -/
structure Cam where
  pc : CamPc
  videoIn : VdIn

/-- The bytes that the camera thread stores into `buf` for the picture it has grabbed. -/
def stored (setup : Setup) (vd : VdIn) : List UInt8 :=
  match vd.formatIn with
  | .mjpeg => memcpyPicture vd.tmpbuffer vd.bytesused
  | _ => compressed setup.jpeg setup.gquality vd

/-- A time in milliseconds, as an `unsigned long` of 32 bits. -/
def milliseconds (t : Timeval) : Nat :=
  ((t.tv_sec * 1000 + t.tv_usec.tdiv 1000) % 2 ^ 32).toNat

/-- `(current - last) < frame_period_time` -/
def tooEarly (vd : VdIn) (last : Timeval) : Bool :=
  decide ((milliseconds vd.timestamp + 2 ^ 32 - milliseconds last) % 2 ^ 32 <
    vd.framePeriodTime)

/-! ## The clients -/

/-- The two functions that send pictures. -/
inductive Request where
  | stream
  | snapshot
deriving DecidableEq, Repr

/-- Where `send_stream` or `send_snapshot` is. -/
inductive ClientPc where
  | opening
  | loop
  | lock
  | wait
  | size
  | alloc
  | timestamp
  | copy (i : Nat)
  | unlock
  | header
  | frame
  | boundary
  | unlockError
  | error
  | done
  | fault
deriving DecidableEq, Repr

/-- A client and its local variables. `frame` is the memory it has allocated. -/
structure Client where
  request : Request
  pc : ClientPc
  frame : List UInt8
  frameSize : Nat
  maxFrameSize : Nat
  timestamp : Timeval

/-- `realloc`: the bytes that were there stay, the others are what memory holds. -/
def realloc (frame : List UInt8) (fresh : Memory) (n : Nat) : List UInt8 :=
  (List.range n).map fun i => frame[i]?.getD (fresh i)

/-- The memory for a frame of `frameSize` bytes: a stream makes its own larger when it has to,
a snapshot allocates it. -/
def allocate (client : Client) (env : Env) : Client :=
  match client.request with
  | .stream =>
    if client.frameSize > client.maxFrameSize then
      -- `max_frame_size` is raised before it is known whether there is memory
      let maxFrameSize := client.frameSize + TEN_K
      if env.ok then
        { client with
          maxFrameSize := maxFrameSize
          frame := realloc client.frame env.fresh maxFrameSize
          pc := .timestamp }
      else { client with maxFrameSize := maxFrameSize, pc := .unlockError }
    else { client with pc := .timestamp }
  | .snapshot =>
    if env.ok then
      { client with frame := realloc [] env.fresh (client.frameSize + 1), pc := .timestamp }
    else { client with pc := .unlockError }

/-- The text in front of a frame. -/
def header (request : Request) (frameSize : Nat) (timestamp : Timeval) : List UInt8 :=
  match request with
  | .stream => partHeader frameSize timestamp
  | .snapshot => snapshotHeader timestamp

/-- What a client is sent when `realloc` fails. -/
def notEnoughMemory : List UInt8 := errorText 500 (Ascii.literal "not enough memory")

/-! ## The threads -/

/-- The local state of a thread is that of the function it runs. -/
inductive Loc where
  | cam (cam : Cam)
  | client (client : Client)

section Program

variable (setup : Setup)

/-- An operation on the frame buffer of a set-up. -/
abbrev FrameOp := Op Loc (Input setup.framesizeIn) Frame (List UInt8)

/-- `cam_thread`. It does not look whether a picture fits the memory it is copied to; where one
does not, the thread has left the memory of a buffer, and nothing is said of it any more. -/
def camThread (cam : Cam) (env : Env) : FrameOp setup :=
  match cam.pc with
  | .loop => .go (.cam { cam with pc := if env.stop then .done else .paused }) []
  | .paused => .go (.cam { cam with pc := if env.paused then .paused else .grab }) []
  | .grab =>
    match uvcGrab cam.videoIn env.buffer with
    | .error vd => .go (.cam ⟨.fault, vd⟩) []
    | .ok vd => .go (.cam ⟨if vd.bytesused < setup.minimumSize then .loop else .drop, vd⟩) []
  | .drop =>
    -- only this thread writes the time, so it looks at it without the mutex
    .access fun input =>
      (input, .cam { cam with
        pc := if cam.videoIn.softFramedrop && tooEarly cam.videoIn input.timestamp then .loop
          else .lock })
  | .lock => .lock (.cam { cam with pc := .copy 0 })
  | .copy pos =>
    match (stored setup cam.videoIn)[pos]? with
    | none => .go (.cam { cam with pc := .size }) []
    | some c =>
      .access fun input =>
        match input.buf.write pos c with
        | none => (input, .cam { cam with pc := .fault })
        | some buf => ({ input with buf := buf }, .cam { cam with pc := .copy (pos + 1) })
  | .size =>
    .access fun input =>
      ({ input with size := (stored setup cam.videoIn).length },
        .cam { cam with pc := .timestamp })
  | .timestamp =>
    .access fun input =>
      ({ input with timestamp := cam.videoIn.timestamp }, .cam { cam with pc := .broadcast })
  | .broadcast =>
    .broadcast (.cam { cam with pc := .unlock })
      ⟨stored setup cam.videoIn, cam.videoIn.timestamp⟩
  | .unlock => .unlock (.cam { cam with pc := .loop })
  | .done => .go (.cam cam) []
  | .fault => .go (.cam cam) []

/-- A call of `write`, after which the client is at `next` or has given up. -/
def write (client : Client) (env : Env) (text : List UInt8) (next : ClientPc) : FrameOp setup :=
  if env.ok then .go (.client { client with pc := next }) [text]
  else .go (.client { client with pc := .done }) []

/-- `send_stream` and `send_snapshot`. -/
def sendFrames (client : Client) (env : Env) : FrameOp setup :=
  match client.pc with
  | .opening => write setup client env streamHeader .loop
  | .loop => .go (.client { client with pc := if env.stop then .done else .lock }) []
  | .lock => .lock (.client { client with pc := .wait })
  | .wait => .wait (.client { client with pc := .size })
  | .size =>
    .access fun input => (input, .client { client with frameSize := input.size, pc := .alloc })
  | .alloc => .go (.client (allocate client env)) []
  | .timestamp =>
    .access fun input =>
      (input, .client { client with timestamp := input.timestamp, pc := .copy 0 })
  | .copy i =>
    -- `memcpy`, a byte a step
    if i < client.frameSize then
      .access fun input =>
        match input.buf.bytes[i]? with
        | none => (input, .client { client with pc := .fault })
        | some c =>
          if i < client.frame.length then
            (input, .client { client with frame := client.frame.set i c, pc := .copy (i + 1) })
          else (input, .client { client with pc := .fault })
    else .go (.client { client with pc := .unlock }) []
  | .unlock => .unlock (.client { client with pc := .header })
  | .header =>
    write setup client env (header client.request client.frameSize client.timestamp) .frame
  | .frame =>
    write setup client env (client.frame.take client.frameSize)
      (match client.request with
        | .stream => .boundary
        | .snapshot => .done)
  | .boundary => write setup client env partBoundary .loop
  | .unlockError => .unlock (.client { client with pc := .error })
  | .error => write setup client env notEnoughMemory .done
  | .done => .go (.client client) []
  | .fault => .go (.client client) []

/-- All threads together. -/
def threads {τ : Type} :
    Program τ Loc (Input setup.framesizeIn) Frame (List UInt8) Env :=
  fun _ loc env =>
    match loc with
    | .cam cam => camThread setup cam env
    | .client client => sendFrames setup client env

end Program

/-- A client before its first step. -/
def Client.start (request : Request) : Client where
  request := request
  pc := match request with
    | .stream => .opening
    | .snapshot => .lock
  frame := []
  frameSize := 0
  maxFrameSize := 0
  timestamp := ⟨0, 0⟩

/-- The threads at the start: `camera` runs the camera thread, the others are the clients that
will have connected. The globals are zero, and the buffer holds what `malloc` has found. -/
def start {τ : Type} [DecidableEq τ] (setup : Setup) (camera : τ) (request : τ → Request)
    (buf : CharBuf setup.framesizeIn) :
    State τ Loc (Input setup.framesizeIn) Frame (List UInt8) where
  shared := ⟨buf, 0, ⟨0, 0⟩⟩
  owner := none
  thread t :=
    { loc := if t = camera then .cam ⟨.loop, setup.videoIn⟩ else .client (.start (request t))
      status := .running
      sent := [] }
  news := []

end Streamer

end ProjZ
