import ProjZ.Client.MarkerScan

/-!
# What a call can throw

`readMjpegFrame` declares `IOException`. On the streams of `Breaks` something else leaves
it: a `NegativeArraySizeException` or an `IllegalArgumentException`; on all others it
returns or throws an `IOException` (`onlyIOException_iff`).
-/

namespace ProjZ

open Ascii JavaStream PairMatcher

namespace MjpegInputStream

variable {src : Source} {s : BufferedInput} {Bitmap : Type} {decodeStream : List UInt8 → Bitmap}
  {header : List UInt8}

/-- The streams on which a call throws something else than an `IOException`. With a header
that is not empty the search for the end marker goes past the limit of the mark before it
gives up, and then it is `reset` that throws. -/
inductive Breaks (src : Source) (s : BufferedInput) : Prop where
  | noStart {bs : List UInt8} (h : src.Holds s.pos bs) (hlen : bs.length = FRAME_MAX_LENGTH)
      (hno : NoHit 0xFF 0xD8 bs)
  | badEscape {header : List UInt8} (h : StartsAt src s.pos header)
      (hload : JavaProperties.load header = none)
  | negativeLength {header : List UInt8} {n : Int} (h : StartsAt src s.pos header)
      (hparse : parseContentLength header = .ok n) (hneg : n < 0)
  | noEnd {bs : List UInt8} (h : StartsAt src s.pos []) (hbs : src.Holds s.pos bs)
      (hlen : bs.length = FRAME_MAX_LENGTH) (hno : NoHit 0xFF 0xD9 bs)

/-- A result that is no exception, or an `IOException`. -/
def OnlyIOException {α : Type} (r : EStateM.Result Exception BufferedInput α) : Prop :=
  ∀ e s', r = .error e s' → e = .io

theorem onlyIOException_ok {α : Type} (x : α) (s : BufferedInput) :
    OnlyIOException (.ok x s) := nofun

theorem onlyIOException_io {α : Type} (s : BufferedInput) :
    OnlyIOException (.error .io s : EStateM.Result Exception BufferedInput α) := by
  rintro e s' ⟨⟩
  rfl

theorem not_onlyIOException {α : Type} {e : Exception} (he : e ≠ .io) (s : BufferedInput) :
    ¬ OnlyIOException (.error e s : EStateM.Result Exception BufferedInput α) :=
  fun h => he (h e s rfl)

/-- The length of a header is a number, the mark of a malformed one, or not there. -/
theorem parseContentLength_cases (header : List UInt8) :
    JavaProperties.load header = none ∨ (∃ n, parseContentLength header = .ok n) ∨
      parseContentLength header = .error .numberFormat := by
  cases hload : JavaProperties.load header with
  | none => exact Or.inl rfl
  | some props =>
    refine Or.inr ?_
    cases hparse : (JavaProperties.getProperty props CONTENT_LENGTH).bind
        JavaProperties.parseInt with
    | none =>
      refine Or.inr ?_
      simp only [parseContentLength, hload, hparse]
    | some n =>
      refine Or.inl ⟨n, ?_⟩
      simp only [parseContentLength, hload, hparse]

/-- Without a start marker the length of the header is negative. -/
theorem readMjpegFrame_noStart (decodeStream : List UInt8 → Bitmap) {bs : List UInt8}
    (h : src.Holds s.pos bs)
    (hlen : bs.length = FRAME_MAX_LENGTH) (hno : NoHit 0xFF 0xD8 bs) :
    readMjpegFrame src decodeStream s =
      .error .negativeArraySize (s.setMark FRAME_MAX_LENGTH) := by
  have hmark : mark FRAME_MAX_LENGTH s = .ok () (s.setMark FRAME_MAX_LENGTH) := rfl
  have hend : getEndOfSeqeunce src SOI_MARKER (s.setMark FRAME_MAX_LENGTH) = _ :=
    getEndOfSeqeunce_noHit h hlen hno
  have hstart : getStartOfSequence src SOI_MARKER (s.setMark FRAME_MAX_LENGTH) =
      .ok (-1) ((s.setMark FRAME_MAX_LENGTH).advance FRAME_MAX_LENGTH) := by
    unfold getStartOfSequence
    rw [bind_ok hend]
    rfl
  have hneg : (-1 : Int) < 0 := by decide
  unfold readMjpegFrame
  rw [bind_ok hmark, bind_ok hstart, bind_ok (reset_advance s (Nat.le_refl _))]
  exact bind_error (newArray_of_neg hneg _)

theorem Breaks.not_onlyIOException (h : Breaks src s) :
    ¬ OnlyIOException (readMjpegFrame src decodeStream s) := by
  cases h with
  | noStart h hlen hno =>
    have hfail := readMjpegFrame_noStart decodeStream h hlen hno
    rw [hfail]
    exact MjpegInputStream.not_onlyIOException (by decide) _
  | @badEscape header h hload =>
    rw [readMjpegFrame_startsAt h, bind_error (contentLength_badEscape hload)]
    exact MjpegInputStream.not_onlyIOException (by decide) _
  | @negativeLength header n h hparse hneg =>
    have hle : header.length ≤ FRAME_MAX_LENGTH := Nat.le_trans h.length_le (by decide)
    obtain ⟨s', hfail⟩ := finishFrame_neg (s := s) src decodeStream header.length hle hneg
    rw [readMjpegFrame_startsAt h, bind_ok (contentLength_of_parse hparse), hfail]
    exact MjpegInputStream.not_onlyIOException (by decide) _
  | noEnd h hbs hlen hno =>
    have hparse : parseContentLength [] = .error .numberFormat := by decide
    have hsearch : getEndOfSeqeunce src EOF_MARKER ((s.setMark FRAME_MAX_LENGTH).advance 0) = _ :=
      getEndOfSeqeunce_noHit hbs hlen hno
    obtain ⟨s', hfail⟩ := finishFrame_neg (s := s) src decodeStream 0
      (Nat.le_refl FRAME_MAX_LENGTH) (m := -1) (by decide)
    rw [readMjpegFrame_startsAt h, contentLength_search hparse, List.length_nil,
      bind_ok hsearch, advance_advance, Nat.zero_add, hfail]
    exact MjpegInputStream.not_onlyIOException (by decide) _

/-- With both lengths known nothing but an `IOException` is left to be thrown. -/
theorem finishFrame_onlyIOException (decodeStream : List UInt8 → Bitmap) (headerLen k n : Nat) :
    OnlyIOException (finishFrame src decodeStream headerLen n
      ((s.setMark FRAME_MAX_LENGTH).advance k)) := by
  rcases Nat.lt_or_ge FRAME_MAX_LENGTH k with hk | hk
  · obtain ⟨s', hfail⟩ := finishFrame_past (s := s) src decodeStream headerLen hk n
    rw [hfail]
    exact onlyIOException_io s'
  · rcases finishFrame_ofNat (s := s) src decodeStream headerLen hk n with
      ⟨bitmap, s', hread⟩ | ⟨s', hfail⟩
    · rw [hread]
      exact onlyIOException_ok bitmap s'
    · rw [hfail]
      exact onlyIOException_io s'

theorem onlyIOException_or_breaks_of_startsAt (decodeStream : List UInt8 → Bitmap)
    (h : StartsAt src s.pos header) :
    OnlyIOException (readMjpegFrame src decodeStream s) ∨ Breaks src s := by
  rw [readMjpegFrame_startsAt h]
  rcases parseContentLength_cases header with hload | ⟨n, hparse⟩ | hparse
  · exact Or.inr (.badEscape h hload)
  · rcases lt_or_ge n 0 with hneg | hnonneg
    · exact Or.inr (.negativeLength h hparse hneg)
    · obtain ⟨n, rfl⟩ := Int.eq_ofNat_of_zero_le hnonneg
      rw [bind_ok (contentLength_of_parse hparse)]
      exact Or.inl (finishFrame_onlyIOException decodeStream _ _ n)
  · -- no length in the header: the end marker is searched for
    have hcases : Search src 0xFF 0xD9 _ FRAME_MAX_LENGTH (getEndOfSeqeunce src EOF_MARKER _) :=
      getEndOfSeqeunce_cases 0xFF 0xD9 ((s.setMark FRAME_MAX_LENGTH).advance header.length)
    rw [contentLength_search hparse]
    generalize hr : getEndOfSeqeunce src EOF_MARKER _ = r at hcases
    cases hcases with
    | found =>
      rw [bind_ok hr, advance_advance]
      exact Or.inl (finishFrame_onlyIOException decodeStream _ _ _)
    | missing hbs hlen hno =>
      cases header with
      | nil => exact Or.inr (.noEnd h hbs hlen hno)
      | cons c header =>
        -- -1 for the length; with the header the skip goes past the mark
        have hpast : FRAME_MAX_LENGTH < (c :: header).length + FRAME_MAX_LENGTH :=
          Nat.lt_add_of_pos_left (Nat.zero_lt_succ _)
        obtain ⟨s', hfail⟩ := finishFrame_past (s := s) src decodeStream (c :: header).length
          hpast (-1)
        rw [bind_ok hr, advance_advance, hfail]
        exact Or.inl (onlyIOException_io s')
    | ended =>
      rw [bind_error hr]
      exact Or.inl (onlyIOException_io _)

theorem onlyIOException_or_breaks (src : Source) (s : BufferedInput)
    (decodeStream : List UInt8 → Bitmap) :
    OnlyIOException (readMjpegFrame src decodeStream s) ∨ Breaks src s := by
  have hcases : Search src 0xFF 0xD8 _ FRAME_MAX_LENGTH (getEndOfSeqeunce src SOI_MARKER _) :=
    getEndOfSeqeunce_cases 0xFF 0xD8 (s.setMark FRAME_MAX_LENGTH)
  generalize hr : getEndOfSeqeunce src SOI_MARKER _ = r at hcases
  cases hcases with
  | @found pre h hle hit =>
    obtain ⟨header, rfl⟩ := hit.hits.pair
    have hlen : (header ++ [0xFF, 0xD8]).length = header.length + 2 := List.length_append
    have hstarts : StartsAt src s.pos header := by
      refine ⟨h, hit, ?_⟩
      have : header.length + 2 ≤ 40100 := hlen ▸ hle
      omega
    exact onlyIOException_or_breaks_of_startsAt decodeStream hstarts
  | missing h hlen hno => exact Or.inr (.noStart h hlen hno)
  | ended h hlt hend hno =>
    have hmark : mark FRAME_MAX_LENGTH s = .ok () (s.setMark FRAME_MAX_LENGTH) := rfl
    have hstart : getStartOfSequence src SOI_MARKER (s.setMark FRAME_MAX_LENGTH) = _ :=
      bind_error hr
    unfold readMjpegFrame
    rw [bind_ok hmark, bind_error hstart]
    exact Or.inl (onlyIOException_io _)

/-- **The call throws nothing but `IOException`s exactly outside of `Breaks`.** -/
theorem onlyIOException_iff (src : Source) (s : BufferedInput)
    (decodeStream : List UInt8 → Bitmap) :
    OnlyIOException (readMjpegFrame src decodeStream s) ↔ ¬ Breaks src s := by
  constructor
  · intro honly hbreaks
    exact hbreaks.not_onlyIOException honly
  · intro hsafe
    exact (onlyIOException_or_breaks src s decodeStream).resolve_right hsafe

/-- A negative length in the header. -/
theorem readMjpegFrame_negativeLength :
    ¬ OnlyIOException (readMjpegFrame (.ofList ([] ++
      (bytes ['C', 'o', 'n', 't', 'e', 'n', 't', '-', 'L', 'e', 'n', 'g', 't', 'h', ':',
        '-', '1', '\n'] ++ SOI_MARKER) ++ [])) id .fresh) := by
  let header := bytes ['C', 'o', 'n', 't', 'e', 'n', 't', '-', 'L', 'e', 'n', 'g', 't', 'h', ':',
    '-', '1', '\n']
  have hascii : 0xFF ∉ header := by decide +kernel
  have hparse : parseContentLength header = .ok (-1) := by decide +kernel
  have hstarts : StartsAt (.ofList ([] ++ (header ++ SOI_MARKER) ++ [])) 0 header := by
    refine ⟨Source.holds_ofList [] _ [], ?_, by decide +kernel⟩
    have hhit := firstHit_of_notMem 0xD8 hascii
    rwa [List.append_assoc] at hhit
  exact (Breaks.negativeLength hstarts hparse (by decide)).not_onlyIOException

end MjpegInputStream

end ProjZ
