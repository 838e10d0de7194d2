import ProjZ.Lib.JavaProperties
import ProjZ.Lib.JavaStream

/-!
# The viewer's video stream

`MjpegInputStream.java`: a stream of JPEG frames, each after a header that tells its
length. `readMjpegFrame` looks for the start of a frame, goes back to read the header
before it, and goes back again to skip the header and read the frame.
-/

namespace ProjZ

open Ascii JavaStream

namespace MjpegInputStream

/-- The start of a JPEG picture. -/
def SOI_MARKER : List UInt8 := [0xFF, 0xD8]

/-- The end of one. -/
def EOF_MARKER : List UInt8 := [0xFF, 0xD9]

/-- The property that holds the length of a frame. -/
def CONTENT_LENGTH : List JavaProperties.JChar :=
  JavaProperties.text
    ['C', 'o', 'n', 't', 'e', 'n', 't', '-', 'L', 'e', 'n', 'g', 't', 'h']

/-- The room for the header of a part. -/
def HEADER_MAX_LENGTH : Nat := 100

/-- How far a marker is looked for. -/
def FRAME_MAX_LENGTH : Nat := 40000 + HEADER_MAX_LENGTH

section Read

variable (src : Source)

/-- The rest of the loop of `getEndOfSeqeunce`, with `n` rounds to go from round `i`. -/
def getEndOfSeqeunceLoop (sequence : List UInt8) : Nat → Nat → Nat → StreamM Int
  | 0, _, _ => pure (-1)
  | n + 1, i, seqIndex => do
    let c ← readUnsignedByte src
    if sequence[seqIndex]? = some c then
      if seqIndex + 1 = sequence.length then pure (i + 1 : Nat)
      else getEndOfSeqeunceLoop sequence n (i + 1) (seqIndex + 1)
    else getEndOfSeqeunceLoop sequence n (i + 1) 0

/-- The number of bytes up to and with the sequence; -1 when it is not among the next
`FRAME_MAX_LENGTH`. -/
def getEndOfSeqeunce (sequence : List UInt8) : StreamM Int :=
  getEndOfSeqeunceLoop src sequence FRAME_MAX_LENGTH 0 0

/-- The number of bytes before it. -/
def getStartOfSequence (sequence : List UInt8) : StreamM Int := do
  let «end» ← getEndOfSeqeunce src sequence
  pure (if «end» < 0 then -1 else «end» - sequence.length)

/-- `parseContentLength`. A missing property is the `null` that `Integer.parseInt`
rejects like a malformed number. -/
def parseContentLength (headerBytes : List UInt8) : Except Exception Int :=
  match JavaProperties.load headerBytes with
  | none => .error .illegalArgument
  | some props =>
    match (JavaProperties.getProperty props CONTENT_LENGTH).bind JavaProperties.parseInt with
    | none => .error .numberFormat
    | some n => .ok n

/-- The `try` statement of `readMjpegFrame`, which catches `NumberFormatException` only. -/
def contentLength (header : List UInt8) : StreamM Int :=
  match parseContentLength header with
  | .ok n => pure n
  | .error .numberFormat => getEndOfSeqeunce src EOF_MARKER
  | .error e => throw e

/-- `readMjpegFrame`. The bitmap is what `BitmapFactory.decodeStream` makes of the bytes
of the frame. -/
def readMjpegFrame {Bitmap : Type} (decodeStream : List UInt8 → Bitmap) : StreamM Bitmap := do
  mark FRAME_MAX_LENGTH
  let headerLen ← getStartOfSequence src SOI_MARKER
  reset
  let header ← readFully src (← newArray headerLen)
  let mContentLength ← contentLength src header
  reset
  let frameLen ← newArray mContentLength
  let _ ← skipBytes src headerLen.toNat
  let frameData ← readFully src frameLen
  pure (decodeStream frameData)

end Read

end MjpegInputStream

end ProjZ
