import ProjZ.Client.MjpegFrames

/-!
# The video on the wire

The texts `httpd.c` writes for a client of the video: the opening of a stream, and for
each frame a part header, the picture and a boundary. The viewer reads the body of that
answer with `MjpegInputStream`; its parts begin at the boundaries, so they are cut
differently (`viewed`), and `readFrames_stream` says that it decodes the pictures sent.
-/

namespace ProjZ

open Ascii Decimal JavaProperties

/-- `struct timeval`. -/
structure Timeval where
  tv_sec : Int
  tv_usec : Int
deriving DecidableEq, Repr

/-- A picture of the camera, with the time it was taken. -/
structure Frame where
  picture : List UInt8
  timestamp : Timeval
deriving DecidableEq, Repr

namespace Httpd

/-- The conversion to an `int` of 32 bits. -/
def cInt (n : Int) : Int := n.bmod (2 ^ 32)

/-- An `int` has at most ten digits. -/
theorem natAbs_cInt_lt (n : Int) : (cInt n).natAbs < 10 ^ (9 + 1) := by
  have hlo := Int.le_bmod (x := n) (m := 2 ^ 32) (by decide)
  have hhi := Int.bmod_lt (x := n) (m := 2 ^ 32) (by decide)
  unfold cInt
  omega

/-! ## The texts -/

/-- The size of the buffer for a header. -/
def BUFFER_SIZE : Nat := 1024

/-- What a client allocates beyond the frame that made it allocate. -/
def TEN_K : Nat := 10 * 1024

/-- The header lines of every answer. -/
def STD_HEADER : List UInt8 :=
  literal "Connection: close\r\n" ++
  literal "Server: MJPG-Streamer/0.2\r\n" ++
  literal "Cache-Control: no-store, no-cache, must-revalidate, " ++
  literal "pre-check=0, post-check=0, max-age=0\r\n" ++
  literal "Pragma: no-cache\r\n" ++
  literal "Expires: Mon, 3 Jan 2000 12:34:56 GMT\r\n"

/-- What separates the parts. -/
def BOUNDARY : List UInt8 := literal "boundarydonotcross"

/-- The answer of `send_stream`, up to the first part. -/
def streamHeader : List UInt8 :=
  literal "HTTP/1.0 200 OK\r\n" ++ STD_HEADER ++
  literal "Content-Type: multipart/x-mixed-replace;boundary=" ++ BOUNDARY ++ literal "\r\n" ++
  literal "\r\n" ++
  literal "--" ++ BOUNDARY ++ literal "\r\n"

/-- The time as `%d.%06d`. -/
def timestampText (timestamp : Timeval) : List UInt8 :=
  printfInt (cInt timestamp.tv_sec) ++ literal "." ++ printfZeros 6 (cInt timestamp.tv_usec)

/-- What `send_stream` writes before a frame. -/
def partHeader (frame_size : Nat) (timestamp : Timeval) : List UInt8 :=
  literal "Content-Type: image/jpeg\r\n" ++
  (literal "Content-Length: " ++ printfInt frame_size ++ literal "\r\n") ++
  (literal "X-Timestamp: " ++ timestampText timestamp ++ literal "\r\n") ++
  literal "\r\n"

/-- What `send_stream` writes after a frame. -/
def partBoundary : List UInt8 := literal "\r\n" ++ (literal "--" ++ BOUNDARY ++ literal "\r\n")

/-- The answer of `send_snapshot`, up to the frame. -/
def snapshotHeader (timestamp : Timeval) : List UInt8 :=
  literal "HTTP/1.0 200 OK\r\n" ++ STD_HEADER ++
  literal "Content-type: image/jpeg\r\n" ++
  (literal "X-Timestamp: " ++ timestampText timestamp ++ literal "\r\n") ++
  literal "\r\n"

/-- The text of `send_error`. -/
def errorText (which : Nat) (message : List UInt8) : List UInt8 :=
  if which = 401 then
    literal "HTTP/1.0 401 Unauthorized\r\n" ++ literal "Content-type: text/plain\r\n" ++
    STD_HEADER ++ literal "WWW-Authenticate: Basic realm=\"MJPG-Streamer\"\r\n" ++
    literal "\r\n" ++ literal "401: Not Authenticated!\r\n" ++ message
  else if which = 404 then
    literal "HTTP/1.0 404 Not Found\r\n" ++ literal "Content-type: text/plain\r\n" ++
    STD_HEADER ++ literal "\r\n" ++ literal "404: Not Found!\r\n" ++ message
  else if which = 500 then
    literal "HTTP/1.0 500 Internal Server Error\r\n" ++ literal "Content-type: text/plain\r\n" ++
    STD_HEADER ++ literal "\r\n" ++ literal "500: Internal Server Error!\r\n" ++ message
  else if which = 400 then
    literal "HTTP/1.0 400 Bad Request\r\n" ++ literal "Content-type: text/plain\r\n" ++
    STD_HEADER ++ literal "\r\n" ++ literal "400: Not Found!\r\n" ++ message
  else if which = 403 then
    literal "HTTP/1.0 403 Forbidden\r\n" ++ literal "Content-type: text/plain\r\n" ++
    STD_HEADER ++ literal "\r\n" ++ literal "403: Forbidden!\r\n" ++ message
  else
    literal "HTTP/1.0 501 Not Implemented\r\n" ++ literal "Content-type: text/plain\r\n" ++
    STD_HEADER ++ literal "\r\n" ++ literal "501: Not Implemented!\r\n" ++ message

/-- What a client is sent for one frame of a stream. -/
def part (f : Frame) : List UInt8 :=
  partHeader f.picture.length f.timestamp ++ f.picture ++ partBoundary

/-! ## The lines of a part header -/

/-- The line between two parts. -/
def boundaryLine : List UInt8 := literal "--" ++ BOUNDARY

/-- The lines of a part's header. -/
def typeLine : List UInt8 := literal "Content-Type: image/jpeg"

/-- The length of the picture. -/
def lengthLine (frame_size : Nat) : List UInt8 :=
  literal "Content-Length: " ++ printfInt frame_size

/-- Its time. -/
def timestampLine (timestamp : Timeval) : List UInt8 :=
  literal "X-Timestamp: " ++ timestampText timestamp

/-- What stands before a part header: a boundary, which for all but the first part is also
the end of the part before. -/
def opening (first : Bool) : List UInt8 :=
  if first then literal "--" ++ BOUNDARY ++ literal "\r\n" else partBoundary

/-- The rest of the line that ends the part before. -/
def openingLines (first : Bool) : List (List UInt8) := if first then [] else [[]]

/-- The text before a part, by lines. -/
theorem opening_eq (first : Bool) :
    opening first = crlf (openingLines first ++ [boundaryLine]) := by
  have hall : ∀ first, opening first = crlf (openingLines first ++ [boundaryLine]) := by
    decide +kernel
  exact hall first

/-- A part header, by lines. -/
theorem partHeader_eq (frame_size : Nat) (timestamp : Timeval) :
    partHeader frame_size timestamp =
      crlf [typeLine, lengthLine frame_size, timestampLine timestamp, []] := by
  have htype : literal "Content-Type: image/jpeg\r\n" = typeLine ++ [13, 10] := by
    decide +kernel
  have hend : literal "\r\n" = [13, 10] := by decide +kernel
  unfold partHeader crlf lengthLine timestampLine
  rw [htype, hend]
  simp only [List.flatMap_cons, List.flatMap_nil, List.append_assoc, List.nil_append,
    List.append_nil]

/-- A timestamp is digits and a point. -/
theorem mem_timestampText {timestamp : Timeval} {c : UInt8} (hc : c ∈ timestampText timestamp) :
    isNumeral c = true ∨ c = '.'.toUInt8 := by
  have hdot : literal "." = ['.'.toUInt8] := by decide +kernel
  unfold timestampText at hc
  rw [hdot] at hc
  rcases List.mem_append.mp hc with hc | hc
  · rcases List.mem_append.mp hc with hc | hc
    · exact .inl (isNumeral_of_mem_printfInt hc)
    · exact .inr (List.mem_singleton.mp hc)
  · exact .inl (isNumeral_of_mem_printfZeros hc)

/-- A byte of a number or a time. -/
def inNumber (c : UInt8) : Bool := isNumeral c || decide (c = '.'.toUInt8)

/-- Such bytes are ASCII, and no line end, backslash or white space. -/
theorem inNumber_spec {c : UInt8} (h : inNumber c = true) :
    c < 128 ∧ c.toUInt16 ≠ jchar '\n' ∧ c.toUInt16 ≠ jchar '\r' ∧ c.toUInt16 ≠ jchar '\\' ∧
      isBlank c.toUInt16 = false := by
  have hall : ∀ n : Fin 256, inNumber (UInt8.ofNat n) = true →
      UInt8.ofNat n < 128 ∧ (UInt8.ofNat n).toUInt16 ≠ jchar '\n' ∧
        (UInt8.ofNat n).toUInt16 ≠ jchar '\r' ∧ (UInt8.ofNat n).toUInt16 ≠ jchar '\\' ∧
        isBlank (UInt8.ofNat n).toUInt16 = false := by
    decide +kernel
  have hc := hall ⟨c.toNat, c.toNat_lt⟩
  rw [UInt8.ofNat_toNat] at hc
  exact hc h

/-- Numbers hold no blank, colon or backslash, -/
theorem inNumber_printfInt {n : Int} : ∀ c ∈ printfInt n, inNumber c = true := by
  intro c hc
  rw [inNumber, isNumeral_of_mem_printfInt hc, Bool.true_or]

/-- nor do timestamps. -/
theorem inNumber_timestampText (timestamp : Timeval) :
    ∀ c ∈ timestampText timestamp, inNumber c = true := by
  intro c hc
  rw [inNumber, Bool.or_eq_true]
  exact (mem_timestampText hc).imp_right fun h => decide_eq_true h

/-- The field names are ASCII text without white space and separators, followed by a colon
and a space. -/
structure IsField (name : List UInt8) (key : List JChar) : Prop where
  text : name.map UInt8.toUInt16 = key ++ [58, 32]
  ascii : ∀ c ∈ name, c < 128
  key : ∀ c ∈ key, c ≠ jchar '\\' ∧ endsKey c = false
  plain : Plain (name.map UInt8.toUInt16)

/-- **The line of a field whose value is a number** is ASCII and plain, and is that
property. -/
theorem field_line {name : List UInt8} {key : List JChar} (h : IsField name key)
    {value : List UInt8} (hvalue : ∀ c ∈ value, inNumber c = true) :
    (∀ c ∈ name ++ value, c < 128) ∧ Plain ((name ++ value).map UInt8.toUInt16) ∧
      property ((name ++ value).map UInt8.toUInt16) =
        some (key, value.map UInt8.toUInt16) := by
  have hchars : ∀ c ∈ value.map UInt8.toUInt16, c ≠ jchar '\n' ∧ c ≠ jchar '\r' ∧
      c ≠ jchar '\\' ∧ isBlank c = false := by
    intro c hc
    obtain ⟨d, hd, rfl⟩ := List.mem_map.mp hc
    exact (inNumber_spec (hvalue d hd)).2
  refine ⟨?_, ?_, ?_⟩
  · intro c hc
    rcases List.mem_append.mp hc with hc | hc
    · exact h.ascii c hc
    · exact (inNumber_spec (hvalue c hc)).1
  · rw [List.map_append]
    refine ⟨?_, ?_, ?_⟩
    · intro hnil
      exact h.plain.ne_nil (List.append_eq_nil_iff.mp hnil).1
    · intro c hc
      rcases List.mem_append.mp hc with hc | hc
      · exact h.plain.chars c hc
      · obtain ⟨hlf, hcr, hslash, -⟩ := hchars c hc
        exact ⟨hlf, hcr, hslash⟩
    · intro c hc
      rw [List.head?_append_of_ne_nil _ h.plain.ne_nil] at hc
      exact h.plain.head c hc
  · -- the value begins behind the blank
    have hline : (name ++ value).map UInt8.toUInt16 =
        key ++ 58 :: 32 :: value.map UInt8.toUInt16 := by
      rw [List.map_append, h.text, List.append_assoc]
      rfl
    rw [hline]
    refine property_field h.key (fun c hc => (hchars c hc).2.2.1) ?_
    intro c hc
    exact (hchars c (List.mem_of_head? hc)).2.2.2

/-- `Content-Length` is a field a `Properties` file can hold, -/
theorem isField_length :
    IsField (literal "Content-Length: ") MjpegInputStream.CONTENT_LENGTH where
  text := by decide +kernel
  ascii := List.all_iff_forall_prop.mp (by decide +kernel)
  key := List.all_iff_forall_prop.mp (by decide +kernel)
  plain := by decide +kernel

/-- and so is `X-Timestamp`. -/
theorem isField_timestamp :
    IsField (literal "X-Timestamp: ") ((literal "X-Timestamp").map UInt8.toUInt16) where
  text := by decide +kernel
  ascii := List.all_iff_forall_prop.mp (by decide +kernel)
  key := List.all_iff_forall_prop.mp (by decide +kernel)
  plain := by decide +kernel

/-! ## What the viewer reads -/

/-- The header of a frame as the viewer sees it: from the boundary before it on. -/
def viewedHeader (first : Bool) (f : Frame) : List UInt8 :=
  opening first ++ partHeader f.picture.length f.timestamp

/-- The lines of that header with text. -/
def viewedLines (f : Frame) : List (List UInt8) :=
  [boundaryLine, typeLine, lengthLine f.picture.length, timestampLine f.timestamp]

/-- What the viewer takes for the header of a part, by lines. -/
theorem viewedHeader_eq (first : Bool) (f : Frame) :
    viewedHeader first f = crlf (openingLines first ++ viewedLines f ++ [[]]) := by
  rw [viewedHeader, opening_eq, partHeader_eq]
  simp only [crlf, viewedLines, List.flatMap_append, List.flatMap_cons, List.flatMap_nil,
    List.append_assoc, List.append_nil]

/-- No line of it is joined with the next. -/
theorem plain_viewedLines (f : Frame) : ∀ l ∈ viewedLines f, Plain (l.map UInt8.toUInt16) := by
  intro l hl
  simp only [viewedLines, List.mem_cons, List.not_mem_nil, or_false] at hl
  rcases hl with rfl | rfl | rfl | rfl
  · decide +kernel
  · decide +kernel
  · exact (field_line isField_length inNumber_printfInt).2.1
  · exact (field_line isField_timestamp (inNumber_timestampText _)).2.1

/-- Before the boundary there are only empty lines. -/
theorem eq_nil_of_mem_openingLines {first : Bool} {l : List UInt8}
    (hl : l ∈ openingLines first) : l = [] := by
  cases first with
  | true => exact absurd hl List.not_mem_nil
  | false => exact List.mem_singleton.mp hl

/-- The lines of a header, as `Properties.load` takes them. -/
theorem lines_viewedHeader (first : Bool) (f : Frame) :
    lines (viewedHeader first f) = (viewedLines f).map (List.map UInt8.toUInt16) := by
  have hopening : (openingLines first).filter (· ≠ []) = [] :=
    List.filter_eq_nil_iff.mpr fun l hl hne =>
      of_decide_eq_true hne (eq_nil_of_mem_openingLines hl)
  have hviewed : (viewedLines f).filter (· ≠ []) = viewedLines f := by
    refine List.filter_eq_self.mpr fun l hl => decide_eq_true ?_
    rintro rfl
    exact (plain_viewedLines f [] hl).ne_nil rfl
  rw [viewedHeader_eq, lines_crlf]
  · rw [List.filter_append, List.filter_append, hopening, hviewed, List.nil_append]
    exact congrArg _ (List.append_nil _)
  · intro l hl
    rcases List.mem_append.mp hl with hl | hl
    · rcases List.mem_append.mp hl with hl | hl
      · exact .inl (eq_nil_of_mem_openingLines hl)
      · exact .inr (plain_viewedLines f l hl)
    · exact .inl (List.mem_singleton.mp hl)

/-- **The length the viewer finds in the header of a frame is the length of the frame.** -/
theorem parseContentLength_viewedHeader (first : Bool) {f : Frame}
    (h : f.picture.length ≤ 2147483647) :
    MjpegInputStream.parseContentLength (viewedHeader first f) =
      .ok (f.picture.length : Int) := by
  have hlength := (field_line isField_length
    (inNumber_printfInt (n := f.picture.length))).2.2
  have htime := (field_line isField_timestamp
    (inNumber_timestampText f.timestamp)).2.2
  have hboundary : property (boundaryLine.map UInt8.toUInt16) =
      some (boundaryLine.map UInt8.toUInt16, []) := by decide +kernel
  have htype : property (typeLine.map UInt8.toUInt16) =
      some ((literal "Content-Type").map UInt8.toUInt16,
        (literal "image/jpeg").map UInt8.toUInt16) := by
    decide +kernel
  -- the boundary is a key without a value, and the only line with this key is the length
  have hload : load (viewedHeader first f) =
      some [(boundaryLine.map UInt8.toUInt16, []),
        ((literal "Content-Type").map UInt8.toUInt16,
          (literal "image/jpeg").map UInt8.toUInt16),
        (MjpegInputStream.CONTENT_LENGTH, (printfInt f.picture.length).map UInt8.toUInt16),
        ((literal "X-Timestamp").map UInt8.toUInt16,
          (timestampText f.timestamp).map UInt8.toUInt16)] := by
    unfold load
    rw [lines_viewedHeader]
    simp only [viewedLines, List.map_cons, List.map_nil, List.mapM_cons, List.mapM_nil, hboundary,
      htype]
    unfold lengthLine timestampLine
    rw [hlength, htime]
    rfl
  have hother : (decide ((literal "X-Timestamp").map UInt8.toUInt16 =
      MjpegInputStream.CONTENT_LENGTH)) = false := by
    decide +kernel
  unfold MjpegInputStream.parseContentLength
  rw [hload]
  have hget : getProperty [(boundaryLine.map UInt8.toUInt16, []),
      ((literal "Content-Type").map UInt8.toUInt16, (literal "image/jpeg").map UInt8.toUInt16),
      (MjpegInputStream.CONTENT_LENGTH, (printfInt f.picture.length).map UInt8.toUInt16),
      ((literal "X-Timestamp").map UInt8.toUInt16,
        (timestampText f.timestamp).map UInt8.toUInt16)] MjpegInputStream.CONTENT_LENGTH =
      some ((printfInt f.picture.length).map UInt8.toUInt16) := by
    unfold getProperty
    simp only [List.reverse_cons, List.reverse_nil, List.nil_append, List.cons_append,
      List.find?_cons, hother, decide_true, Option.map_some]
  simp only [hget, Option.bind_some]
  rw [printfInt_natCast, parseInt_decimal h]

/-- No byte of the header can be taken for a marker. -/
theorem viewedHeader_ascii (first : Bool) (f : Frame) : ∀ c ∈ viewedHeader first f, c < 128 := by
  have hall : ∀ first, ∀ c ∈ opening first, c < 128 := by decide +kernel
  have htype : ∀ c ∈ literal "Content-Type: image/jpeg\r\n", c < 128 := by decide +kernel
  have hend : ∀ c ∈ literal "\r\n", c < 128 := by decide +kernel
  have hlength := (field_line isField_length
    (inNumber_printfInt (n := f.picture.length))).1
  have htime := (field_line isField_timestamp
    (inNumber_timestampText f.timestamp)).1
  intro c hc
  unfold viewedHeader partHeader at hc
  simp only [List.mem_append] at hc hlength htime
  rcases hc with hc | ((hc | hc | hc) | hc | hc) | hc
  · exact hall first c hc
  · exact htype c hc
  · exact hlength c hc
  · exact hend c hc
  · exact htime c hc
  · exact hend c hc
  · exact hend c hc

/-- The text of a header fits the viewer's limit. -/
theorem length_viewedHeader_le (first : Bool) {f : Frame} (h : f.picture.length ≤ 2147483647) :
    (viewedHeader first f).length ≤ 200 := by
  have hall : ∀ first, (opening first).length ≤ 24 := by decide +kernel
  have hopening := hall first
  have htype : (literal "Content-Type: image/jpeg\r\n").length = 26 := by decide +kernel
  have hlength : (literal "Content-Length: ").length = 16 := by decide +kernel
  have htime : (literal "X-Timestamp: ").length = 13 := by decide +kernel
  have hend : (literal "\r\n").length = 2 := by decide +kernel
  have hdot : (literal ".").length = 1 := by decide +kernel
  have hnat : ((f.picture.length : Int)).natAbs < 10 ^ (9 + 1) := by omega
  have hsize := length_printfInt_le hnat
  have hsec := length_printfInt_le (natAbs_cInt_lt f.timestamp.tv_sec)
  have husec := length_printfZeros_le (natAbs_cInt_lt f.timestamp.tv_usec) 6
  unfold viewedHeader partHeader timestampText
  simp only [List.length_append, htype, hlength, htime, hend, hdot]
  omega

/-- A frame the viewer can show: a JPEG picture whose length is an `int`. -/
structure Viewable (f : Frame) : Prop where
  start : MjpegInputStream.SOI_MARKER <+: f.picture
  length : f.picture.length ≤ 2147483647

/-- The part of the viewer's stream for a frame. -/
def viewedPart (first : Bool) (f : Frame) (h : Viewable f) : MjpegInputStream.Part where
  header := viewedHeader first f
  frame := f.picture
  ascii := viewedHeader_ascii first f
  header_le := Nat.le_trans (length_viewedHeader_le first h.length) (by decide)
  start := h.start
  length := parseContentLength_viewedHeader first h.length

open JavaStream

variable {src : Source} {s : BufferedInput} {Bitmap : Type}

/-- **One call shows the next frame that was sent, and stops at the boundary after it.** -/
theorem readMjpegFrame_sent (decodeStream : List UInt8 → Bitmap) {first : Bool} {f : Frame}
    (hf : Viewable f) {rest : List UInt8}
    (h : src.Holds s.pos (opening first ++ (part f ++ rest))) :
    ∃ s', MjpegInputStream.readMjpegFrame src decodeStream s = .ok (decodeStream f.picture) s' ∧
      src.Holds s'.pos (opening false ++ rest) := by
  have hsplit : opening first ++ (part f ++ rest) =
      (viewedPart first f hf).bytes ++ (opening false ++ rest) := by
    show _ = (opening first ++ partHeader f.picture.length f.timestamp) ++ f.picture ++ _
    simp only [part, List.append_assoc]
    rfl
  rw [hsplit, Source.holds_append] at h
  obtain ⟨s', hcall, hpos⟩ :=
    MjpegInputStream.readMjpegFrame_part decodeStream (viewedPart first f hf) h.1
  refine ⟨s', hcall, ?_⟩
  rw [hpos]
  exact h.2

/-- **The viewer decodes the pictures that were sent**, in order, and stands at the boundary
after the last one. -/
theorem readFrames_stream (decodeStream : List UInt8 → Bitmap) {first : Bool} (fs : List Frame)
    (hfs : ∀ f ∈ fs, Viewable f) {rest : List UInt8}
    (h : src.Holds s.pos (opening first ++ (fs.flatMap part ++ rest))) :
    ∃ s', MjpegInputStream.readFrames src decodeStream fs.length s =
        .ok (fs.map fun f => decodeStream f.picture) s' ∧
      src.Holds s'.pos (opening (first && fs.isEmpty) ++ rest) := by
  induction fs generalizing s first with
  | nil =>
    refine ⟨s, rfl, ?_⟩
    rw [List.isEmpty_nil, Bool.and_true]
    exact h
  | cons f fs ih =>
    rw [List.flatMap_cons, List.append_assoc] at h
    obtain ⟨s₁, hcall, hheld⟩ := readMjpegFrame_sent decodeStream (hfs f List.mem_cons_self) h
    obtain ⟨s₂, hcalls, hrest⟩ := ih (fun g hg => hfs g (List.mem_cons_of_mem f hg)) hheld
    refine ⟨s₂, ?_, ?_⟩
    · show (MjpegInputStream.readMjpegFrame src decodeStream >>= _) s = _
      rw [bind_ok hcall, bind_ok hcalls]
      rfl
    · rw [List.isEmpty_cons, Bool.and_false]
      rw [Bool.false_and] at hrest
      exact hrest

/-- Two pictures, of which the first has the text of a boundary inside. -/
theorem readFrames_stream_two :
    let pictures := [[0xFF, 0xD8] ++ partBoundary ++ [0xFF, 0xD9], [0xFF, 0xD8]]
    let fs := pictures.map fun picture => Frame.mk picture ⟨1, 2⟩
    ∃ s', MjpegInputStream.readFrames (.ofList (opening true ++ fs.flatMap part)) id 2 .fresh =
      .ok pictures s' := by
  intro pictures fs
  have hfs : ∀ f ∈ fs, Viewable f := by
    intro f hf
    simp only [fs, pictures, List.map_cons, List.map_nil, List.mem_cons, List.not_mem_nil,
      or_false] at hf
    rcases hf with rfl | rfl
    · exact ⟨⟨partBoundary ++ [0xFF, 0xD9], rfl⟩, by decide +kernel⟩
    · exact ⟨⟨[], rfl⟩, by decide⟩
  have hholds : (Source.ofList (opening true ++ fs.flatMap part)).Holds BufferedInput.fresh.pos
      (opening true ++ (fs.flatMap part ++ [])) := by
    rw [List.append_nil]
    exact (Source.endsWith_ofList _).holds
  obtain ⟨s', hread, -⟩ := readFrames_stream id fs hfs hholds
  exact ⟨s', hread⟩

end Httpd

end ProjZ
