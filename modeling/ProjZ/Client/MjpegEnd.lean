import ProjZ.Client.MjpegFrames

/-!
# The end of a stream

The connection may be lost anywhere. `Arrives bs frames` says that of the stream `bs` these
frames are there to their last byte; the rest of it (`Silent`) is not enough for another one.
Each call reads the next whole frame, and at the rest it throws an `IOException`, as often
as it is called.
-/

namespace ProjZ

open JavaStream PairMatcher

namespace MjpegInputStream

variable {src : Source} {s : BufferedInput} {Bitmap : Type} {bs : List UInt8}

/-- The last bytes of a stream, too few for a frame: no start marker, or less than a part. -/
inductive Silent : List UInt8 → Prop where
  | noStart {bs : List UInt8} (hno : NoHit 0xFF 0xD8 bs) (hlt : bs.length < FRAME_MAX_LENGTH) :
      Silent bs
  | cut {bs : List UInt8} (part : Part) (hbs : bs <+: part.bytes)
      (hlt : bs.length < part.bytes.length) : Silent bs

/-- The frames that are whole in a stream. -/
inductive Arrives : List UInt8 → List (List UInt8) → Prop where
  | silent {bs : List UInt8} (h : Silent bs) : Arrives bs []
  | part {bs : List UInt8} {frames : List (List UInt8)} (part : Part) (h : Arrives bs frames) :
      Arrives (part.bytes ++ bs) (part.frame :: frames)

theorem silent_nil : Silent [] := .noStart (noHit_nil _ _) (by decide)

theorem silent_of_notMem (h : 0xFF ∉ bs) (hlt : bs.length < FRAME_MAX_LENGTH) : Silent bs := by
  refine .noStart ?_ hlt
  rintro p ⟨rest, rfl⟩ hhits
  obtain ⟨x, rfl⟩ := hhits.pair
  simp at h

/-- The search comes to the end of the stream. -/
theorem getEndOfSeqeunce_endsWith {a b : UInt8} (h : src.EndsWith s.pos bs)
    (hlt : bs.length < FRAME_MAX_LENGTH) (hno : NoHit a b bs) :
    getEndOfSeqeunce src [a, b] s = .error .io (s.advance bs.length) := by
  have hcases : Search src a b s _ _ := getEndOfSeqeunce_cases a b s
  generalize getEndOfSeqeunce src [a, b] s = r at hcases
  cases hcases with
  | @found pre hpre _ hit =>
    rcases Nat.le_total pre.length bs.length with hle | hle
    · exact absurd hit.hits (hno pre (hpre.isPrefix h.holds hle))
    · rcases Nat.eq_or_lt_of_le hle with hlen | hlen
      · exact absurd hit.hits (hno pre (hpre.isPrefix h.holds (Nat.le_of_eq hlen.symm)))
      · exact absurd h.ended (hpre.byte_ne_none hlen)
  | missing hbs' hlen => exact absurd h.ended (hbs'.byte_ne_none (by omega))
  | @ended bs' hbs' _ hend _ =>
    rcases Nat.lt_trichotomy bs'.length bs.length with hlen | hlen | hlen
    · exact absurd hend (h.holds.byte_ne_none hlen)
    · rw [hlen]
    · exact absurd h.ended (hbs'.byte_ne_none hlen)

/-- A call at the end of a stream. -/
def Fails (src : Source) (s : BufferedInput) : Prop :=
  ∀ (Bitmap : Type) (decodeStream : List UInt8 → Bitmap),
    ∃ s', readMjpegFrame src decodeStream s = .error .io s' ∧ src.EndsWith s'.pos []

theorem fails_of_noHit (h : src.EndsWith s.pos bs) (hlt : bs.length < FRAME_MAX_LENGTH)
    (hno : NoHit 0xFF 0xD8 bs) : Fails src s := by
  intro Bitmap decodeStream
  have hmark : mark FRAME_MAX_LENGTH s = .ok () (s.setMark FRAME_MAX_LENGTH) := rfl
  have hend : getEndOfSeqeunce src SOI_MARKER (s.setMark FRAME_MAX_LENGTH) = _ :=
    getEndOfSeqeunce_endsWith h hlt hno
  have hstart : getStartOfSequence src SOI_MARKER (s.setMark FRAME_MAX_LENGTH) = _ :=
    bind_error hend
  refine ⟨(s.setMark FRAME_MAX_LENGTH).advance bs.length, ?_, ⟨trivial, h.ended⟩⟩
  unfold readMjpegFrame
  rw [bind_ok hmark, bind_error hstart]

/-- The header is there with the start marker: it is the end of the frame that is missing. -/
theorem fails_of_startsAt {part : Part} {frame : List UInt8}
    (h : src.EndsWith s.pos (part.header ++ frame)) (hstart : StartsAt src s.pos part.header)
    (hlt : frame.length < part.frame.length) : Fails src s := by
  intro Bitmap decodeStream
  have hle : part.header.length ≤ FRAME_MAX_LENGTH := by
    have := part.header_le
    show _ ≤ 40100
    omega
  have hheader := (Source.holds_append.mp h.holds).1
  have hskip := skipBytes_holds (s := s.setMark FRAME_MAX_LENGTH) hheader
  have hread := readFully_endsWith
    (s := (s.setMark FRAME_MAX_LENGTH).advance part.header.length) h.append hlt
  refine ⟨((s.setMark FRAME_MAX_LENGTH).advance part.header.length).advance frame.length, ?_,
    ⟨trivial, h.append.ended⟩⟩
  rw [readMjpegFrame_startsAt hstart, bind_ok (contentLength_of_parse part.length)]
  unfold finishFrame
  rw [bind_ok (reset_advance s hle), bind_ok (newArray_ofNat _ _), bind_ok hskip,
    bind_error hread]

/-- **A part that is cut off is not read**, wherever it is cut. -/
theorem fails_of_cut (part : Part) (h : src.EndsWith s.pos bs) (hbs : bs <+: part.bytes)
    (hlt : bs.length < part.bytes.length) : Fails src s := by
  have hle := part.header_le
  obtain ⟨rest, hframe⟩ := part.start
  have hit : FirstHit 0xFF 0xD8 (part.header ++ SOI_MARKER) := by
    have hFF : 0xFF ∉ part.header := fun hc => absurd (part.ascii _ hc) (by decide)
    have hhit := firstHit_of_notMem 0xD8 hFF
    rwa [List.append_assoc] at hhit
  have hpre : part.header ++ SOI_MARKER <+: part.bytes :=
    ⟨rest, by rw [List.append_assoc, hframe]; rfl⟩
  rcases Nat.lt_or_ge bs.length (part.header ++ SOI_MARKER).length with hlen | hlen
  · -- not even the start marker is whole
    have hmarker : (part.header ++ SOI_MARKER).length = part.header.length + 2 :=
      List.length_append
    have hbs' := List.prefix_of_prefix_length_le hbs hpre (Nat.le_of_lt hlen)
    refine fails_of_noHit h ?_ ?_
    · show _ < 40100
      omega
    · intro p hp hhits
      have heq := hit.first p (hp.trans hbs') hhits
      have := hp.length_le
      rw [heq] at this
      omega
  · obtain ⟨frame, rfl⟩ := List.prefix_of_prefix_length_le hpre hbs hlen
    rw [List.append_assoc] at h
    refine fails_of_startsAt h ⟨?_, hit, hle⟩ ?_
    · rw [← List.append_assoc] at h
      exact (Source.holds_append.mp h.holds).1
    · simp only [Part.bytes, List.length_append] at hlt ⊢
      omega

theorem Silent.fails (hsilent : Silent bs) (h : src.EndsWith s.pos bs) : Fails src s := by
  cases hsilent with
  | noStart hno hlt => exact fails_of_noHit h hlt hno
  | cut part hbs hlt => exact fails_of_cut part h hbs hlt

/-- The frames that are still to be read from a position on. -/
def Ahead (src : Source) (i : Nat) (frames : List (List UInt8)) : Prop :=
  ∃ bs, src.EndsWith i bs ∧ Arrives bs frames

theorem ahead_ofList {frames : List (List UInt8)} (h : Arrives bs frames) :
    Ahead (.ofList bs) 0 frames := ⟨bs, Source.endsWith_ofList bs, h⟩

/-- **A call reads the next whole frame.** -/
theorem readMjpegFrame_ahead (decodeStream : List UInt8 → Bitmap) {frame : List UInt8}
    {frames : List (List UInt8)} (h : Ahead src s.pos (frame :: frames)) :
    ∃ s', readMjpegFrame src decodeStream s = .ok (decodeStream frame) s' ∧
      Ahead src s'.pos frames := by
  obtain ⟨bs, hends, harrives⟩ := h
  cases harrives with
  | part part harrives =>
    obtain ⟨s', hcall, hpos⟩ :=
      readMjpegFrame_part decodeStream part (Source.holds_append.mp hends.holds).1
    refine ⟨s', hcall, _, ?_, harrives⟩
    rw [hpos]
    exact hends.append

/-- **With no whole frame left a call throws an `IOException`**, and so do the calls after
it. -/
theorem readMjpegFrame_ahead_nil (decodeStream : List UInt8 → Bitmap)
    (h : Ahead src s.pos []) :
    ∃ s', readMjpegFrame src decodeStream s = .error .io s' ∧ Ahead src s'.pos [] := by
  obtain ⟨bs, hends, harrives⟩ := h
  cases harrives with
  | silent hsilent =>
    obtain ⟨s', hcall, hends'⟩ := hsilent.fails hends Bitmap decodeStream
    exact ⟨s', hcall, [], hends', .silent silent_nil⟩

end MjpegInputStream

end ProjZ
