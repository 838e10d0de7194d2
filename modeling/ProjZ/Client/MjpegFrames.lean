import ProjZ.Client.MarkerScan

/-!
# The frames of a stream

A well-formed stream is made of `Part`s, whose headers tell the length of the frame: the
frames are decoded in order, whatever is inside them (`readFrames_parts`). Without a
`Content-Length` the frame is looked for by its end marker, which finds the same bytes
exactly when the marker follows an odd run of `FF` bytes (`fallback_agrees_iff`).
-/

namespace ProjZ

open Ascii JavaStream PairMatcher

namespace MjpegInputStream

variable {src : Source} {s : BufferedInput} {Bitmap : Type} {header : List UInt8}

/-! ## Frames with a length -/

/-- A part of a well-formed stream: an ASCII header with the length of the frame, and the
frame, any bytes that begin with the start marker. -/
structure Part where
  header : List UInt8
  frame : List UInt8
  ascii : ∀ c ∈ header, c < 128
  header_le : header.length ≤ 40098
  start : SOI_MARKER <+: frame
  length : parseContentLength header = .ok (frame.length : Int)

/-- The bytes of a part. -/
def Part.bytes (part : Part) : List UInt8 := part.header ++ part.frame

/-- The bitmaps of `n` calls of `readMjpegFrame`, one after the other. -/
def readFrames (src : Source) {Bitmap : Type} (decodeStream : List UInt8 → Bitmap) :
    Nat → StreamM (List Bitmap)
  | 0 => pure []
  | n + 1 => do
    let bitmap ← readMjpegFrame src decodeStream
    let bitmaps ← readFrames src decodeStream n
    pure (bitmap :: bitmaps)

/-- **One call reads the frame of the part it stands at, and stops at the next part.** -/
theorem readMjpegFrame_part (decodeStream : List UInt8 → Bitmap) (part : Part)
    (h : src.Holds s.pos part.bytes) :
    ∃ s', readMjpegFrame src decodeStream s = .ok (decodeStream part.frame) s' ∧
      s'.pos = s.pos + part.bytes.length := by
  have hle : part.header.length + 2 ≤ FRAME_MAX_LENGTH := by
    have := part.header_le
    show _ ≤ 40100
    omega
  rw [readMjpegFrame_startsAt (startsAt_of_ascii part.ascii part.start part.header_le h),
    bind_ok (contentLength_of_parse part.length)]
  exact finishFrame_holds decodeStream h (by omega)

/-- **Successive calls decode the frames of a stream of parts in order, and after each
call the stream stands at the first byte of the next part**, whatever the stream is after
the parts. -/
theorem readFrames_parts (decodeStream : List UInt8 → Bitmap) (parts : List Part)
    (h : src.Holds s.pos (parts.flatMap Part.bytes)) (i : Nat) (hi : i ≤ parts.length) :
    ∃ s', readFrames src decodeStream i s =
        .ok ((parts.take i).map fun part => decodeStream part.frame) s' ∧
      s'.pos = s.pos + ((parts.take i).flatMap Part.bytes).length := by
  induction i generalizing s parts with
  | zero => exact ⟨s, rfl, rfl⟩
  | succ i ih =>
    cases parts with
    | nil => exact absurd hi (by simp)
    | cons part parts =>
      rw [List.flatMap_cons, Source.holds_append] at h
      obtain ⟨s₁, hcall, hpos₁⟩ := readMjpegFrame_part decodeStream part h.1
      rw [← hpos₁] at h
      obtain ⟨s₂, hcalls, hpos₂⟩ := ih parts h.2 (Nat.le_of_succ_le_succ hi)
      refine ⟨s₂, ?_, ?_⟩
      · show (readMjpegFrame src decodeStream >>= _) s = _
        rw [bind_ok hcall, bind_ok hcalls]
        rfl
      · rw [hpos₂, hpos₁, List.take_succ_cons, List.flatMap_cons, List.length_append]
        omega

/-- Two parts, of which the first has both markers inside its frame. -/
theorem readFrames_parts_two :
    ∃ s', readFrames (.ofList (bytes ['C', 'o', 'n', 't', 'e', 'n', 't', '-', 'L', 'e', 'n', 'g',
        't', 'h', ':', '6', '\n'] ++ [0xFF, 0xD8, 0xFF, 0xD9, 0xFF, 0xD8] ++
        bytes ['C', 'o', 'n', 't', 'e', 'n', 't', '-', 'L', 'e', 'n', 'g', 't', 'h', '=', '2'] ++
        [0xFF, 0xD8])) id 2 .fresh =
        .ok [[0xFF, 0xD8, 0xFF, 0xD9, 0xFF, 0xD8], [0xFF, 0xD8]] s' ∧ s'.pos = 41 := by
  let first : Part :=
    { header := bytes ['C', 'o', 'n', 't', 'e', 'n', 't', '-', 'L', 'e', 'n', 'g',
        't', 'h', ':', '6', '\n']
      frame := [0xFF, 0xD8, 0xFF, 0xD9, 0xFF, 0xD8]
      ascii := by decide +kernel
      header_le := by decide +kernel
      start := ⟨[0xFF, 0xD9, 0xFF, 0xD8], rfl⟩
      length := by decide +kernel }
  let second : Part :=
    { header := bytes ['C', 'o', 'n', 't', 'e', 'n', 't', '-', 'L', 'e', 'n', 'g',
        't', 'h', '=', '2']
      frame := [0xFF, 0xD8]
      ascii := by decide +kernel
      header_le := by decide +kernel
      start := ⟨[], rfl⟩
      length := by decide +kernel }
  have hholds := Source.holds_ofList [] ([first, second].flatMap Part.bytes) []
  exact readFrames_parts id [first, second] hholds 2 (Nat.le_refl 2)

/-! ## Frames without a length -/

/-- A part whose header has no `Content-Length` line, and whose frame has an end marker
at its end and nowhere else. -/
structure UnsizedPart where
  header : List UInt8
  frame : List UInt8
  ascii : ∀ c ∈ header, c < 128
  noLength : ¬ JavaProperties.HasLine header CONTENT_LENGTH
  start : SOI_MARKER <+: frame
  stop : EOF_MARKER <:+ frame
  once : ¬ EOF_MARKER <:+: frame.dropLast
  length_le : header.length + frame.length ≤ 40100

/-- One call decodes the frame and stops behind it. -/
def ReadsFrame (src : Source) (s : BufferedInput) (header frame : List UInt8) : Prop :=
  ∀ (Bitmap : Type) (decodeStream : List UInt8 → Bitmap),
    ∃ s', readMjpegFrame src decodeStream s = .ok (decodeStream frame) s' ∧
      s'.pos = s.pos + (header ++ frame).length

theorem UnsizedPart.startsAt (part : UnsizedPart)
    (h : src.Holds s.pos (part.header ++ part.frame)) : StartsAt src s.pos part.header := by
  refine startsAt_of_ascii part.ascii part.start ?_ h
  have hlen : 2 ≤ part.frame.length := part.start.length_le
  have := part.length_le
  omega

/-- A header without the line makes the search for the end marker the length. -/
theorem UnsizedPart.contentLength (part : UnsizedPart)
    (hload : JavaProperties.load part.header ≠ none) :
    contentLength src part.header = getEndOfSeqeunce src EOF_MARKER := by
  obtain ⟨props, hprops⟩ := Option.ne_none_iff_exists'.mp hload
  have hnone := JavaProperties.getProperty_eq_none hprops part.noLength
  have hparse : parseContentLength part.header = .error .numberFormat := by
    simp only [parseContentLength, hprops, hnone, Option.bind_none]
  exact contentLength_search hparse

theorem UnsizedPart.frame_firstHit (part : UnsizedPart) (h : Hits 0xFF 0xD9 part.frame) :
    FirstHit 0xFF 0xD9 part.frame := by
  refine ⟨h, ?_⟩
  rintro p ⟨rest, hrest⟩ hhits
  rcases List.eq_nil_or_concat' rest with rfl | ⟨rest, c, rfl⟩
  · rw [← hrest, List.append_nil]
  · -- a marker before the last byte of the frame
    obtain ⟨x, rfl⟩ := hhits.pair
    refine absurd ⟨x, rest, ?_⟩ part.once
    rw [← hrest, ← List.append_assoc, List.dropLast_concat]
    rfl

/-- What the search reads as a frame ends in an odd run of `FF` bytes and `D9`. -/
theorem UnsizedPart.hits_of_readsFrame (part : UnsizedPart)
    (h : src.Holds s.pos (part.header ++ part.frame))
    (hreads : ReadsFrame src s part.header part.frame) :
    JavaProperties.load part.header ≠ none ∧ Hits 0xFF 0xD9 part.frame := by
  obtain ⟨s', hcall, hpos⟩ := hreads Unit fun _ => ()
  rw [readMjpegFrame_startsAt (part.startsAt h)] at hcall
  have hload : JavaProperties.load part.header ≠ none := by
    intro hload
    rw [bind_error (contentLength_badEscape hload)] at hcall
    cases hcall
  refine ⟨hload, ?_⟩
  rw [part.contentLength hload] at hcall
  have hcases : Search src 0xFF 0xD9 _ FRAME_MAX_LENGTH (getEndOfSeqeunce src EOF_MARKER _) :=
    getEndOfSeqeunce_cases 0xFF 0xD9 ((s.setMark FRAME_MAX_LENGTH).advance part.header.length)
  generalize hr : getEndOfSeqeunce src EOF_MARKER _ = r at hcases
  cases hcases with
  | @found pre hpre _ hit =>
    have hboth : src.Holds s.pos (part.header ++ pre) :=
      Source.holds_append.mpr ⟨(Source.holds_append.mp h).1, hpre⟩
    rw [bind_ok hr, advance_advance] at hcall
    rcases Nat.lt_or_ge FRAME_MAX_LENGTH (part.header.length + pre.length) with hk | hk
    · obtain ⟨s'', hfail⟩ := finishFrame_past (s := s) src (fun _ => ()) part.header.length hk
        pre.length
      rw [hfail] at hcall
      cases hcall
    · obtain ⟨s'', hread, hpos'⟩ := finishFrame_holds (fun _ => ()) hboth hk
      rw [hread] at hcall
      cases hcall
      -- the position tells the length, and the length tells the bytes
      have hlen : (part.header ++ pre).length = (part.header ++ part.frame).length := by omega
      have heq : part.header ++ pre = part.header ++ part.frame :=
        (hboth.isPrefix h (Nat.le_of_eq hlen)).eq_of_length hlen
      rw [← List.append_cancel_left heq]
      exact hit.hits
  | missing =>
    rw [bind_ok hr, advance_advance] at hcall
    have hneg : (-1 : Int) < 0 := by decide
    rcases Nat.lt_or_ge FRAME_MAX_LENGTH (part.header.length + FRAME_MAX_LENGTH) with hk | hk
    · obtain ⟨s'', hfail⟩ := finishFrame_past (s := s) src (fun _ => ()) part.header.length hk (-1)
      rw [hfail] at hcall
      cases hcall
    · obtain ⟨s'', hfail⟩ := finishFrame_neg (s := s) src (fun _ => ()) part.header.length hk hneg
      rw [hfail] at hcall
      cases hcall
  | ended =>
    rw [bind_error hr] at hcall
    cases hcall

theorem UnsizedPart.readsFrame_of_hits (part : UnsizedPart)
    (h : src.Holds s.pos (part.header ++ part.frame))
    (hload : JavaProperties.load part.header ≠ none) (hit : Hits 0xFF 0xD9 part.frame) :
    ReadsFrame src s part.header part.frame := by
  intro Bitmap decodeStream
  have hframe := (Source.holds_append.mp h).2
  have hle : part.header.length + part.frame.length ≤ FRAME_MAX_LENGTH := part.length_le
  have hend : getEndOfSeqeunce src EOF_MARKER
      ((s.setMark FRAME_MAX_LENGTH).advance part.header.length) = _ :=
    getEndOfSeqeunce_firstHit hframe (part.frame_firstHit hit) (by omega)
  rw [readMjpegFrame_startsAt (part.startsAt h), part.contentLength hload, bind_ok hend,
    advance_advance]
  exact finishFrame_holds decodeStream h hle

/-- The search for the end marker reads the frame that a part with the length reads,
wherever that part stands. -/
structure Agrees (src : Source) (s : BufferedInput) (part : UnsizedPart) : Prop where
  unsized : ReadsFrame src s part.header part.frame
  sized : ∀ (sized : Part) (src : Source) (s : BufferedInput), sized.frame = part.frame →
    src.Holds s.pos sized.bytes → ReadsFrame src s sized.header part.frame

/-- **The two paths agree exactly on the frames that end in an odd run of `FF` bytes and
`D9`**, under a header that can be read at all. -/
theorem fallback_agrees_iff (part : UnsizedPart)
    (h : src.Holds s.pos (part.header ++ part.frame)) :
    Agrees src s part ↔
      JavaProperties.load part.header ≠ none ∧ Hits 0xFF 0xD9 part.frame := by
  constructor
  · intro hagrees
    exact part.hits_of_readsFrame h hagrees.unsized
  · rintro ⟨hload, hit⟩
    refine ⟨part.readsFrame_of_hits h hload hit, ?_⟩
    intro sized src s hframe hsized Bitmap decodeStream
    rw [← hframe]
    exact readMjpegFrame_part decodeStream sized hsized

/-- A frame without fill bytes, after a header of another line. -/
theorem fallback_agrees_plain :
    ∃ part : UnsizedPart, part.header = bytes ['A', ':', 'b', '\n'] ∧
      part.frame = [0xFF, 0xD8, 0x00, 0xFF, 0xD9] ∧
      Agrees (.ofList ([] ++ (part.header ++ part.frame) ++ [0xFF])) .fresh part := by
  let part : UnsizedPart :=
    { header := bytes ['A', ':', 'b', '\n']
      frame := [0xFF, 0xD8, 0x00, 0xFF, 0xD9]
      ascii := by decide +kernel
      noLength := by decide +kernel
      start := ⟨[0x00, 0xFF, 0xD9], rfl⟩
      stop := ⟨[0xFF, 0xD8, 0x00], rfl⟩
      once := by decide +kernel
      length_le := by decide +kernel }
  have hload : JavaProperties.load part.header ≠ none := by decide +kernel
  have hit : Hits 0xFF 0xD9 part.frame := ⟨[0xFF, 0xD8, 0x00], 0, rfl, by decide⟩
  exact ⟨part, rfl, rfl, (fallback_agrees_iff part (Source.holds_ofList [] _ _)).mpr ⟨hload, hit⟩⟩

/-- One fill byte before the end marker: the search takes it for the `FF` of the marker,
and the `FF` of the marker for a mismatch. -/
theorem fallback_misses_fill :
    ∃ part : UnsizedPart, part.header = [] ∧ part.frame = [0xFF, 0xD8, 0xFF, 0xFF, 0xD9] ∧
      ¬ Agrees (.ofList ([] ++ (part.header ++ part.frame) ++ [])) .fresh part := by
  let part : UnsizedPart :=
    { header := []
      frame := [0xFF, 0xD8, 0xFF, 0xFF, 0xD9]
      ascii := nofun
      noLength := by decide +kernel
      start := ⟨[0xFF, 0xFF, 0xD9], rfl⟩
      stop := ⟨[0xFF, 0xD8, 0xFF], rfl⟩
      once := by decide +kernel
      length_le := by decide }
  refine ⟨part, rfl, rfl, ?_⟩
  intro hagrees
  have hit := (part.hits_of_readsFrame (Source.holds_ofList [] _ _) hagrees.unsized).2
  have hheld := (hits_concat (s := [0xFF, 0xD8, 0xFF, 0xFF]) (c := 0xD9)).mp hit
  exact absurd hheld.2 (by decide)

end MjpegInputStream

end ProjZ
