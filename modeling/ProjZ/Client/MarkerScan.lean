import ProjZ.Client.MjpegInputStream
import ProjZ.Lib.PairMatcher

/-!
# The marker search

`getEndOfSeqeunce` compares byte by byte and, after a mismatch, goes on with the next
byte and the first one of the marker: it is the matcher of `PairMatcher`, so that a
marker behind an even run of `FF` bytes is not seen. `getEndOfSeqeunce_cases` has its
three outcomes: the first marker it sees, `-1` after `FRAME_MAX_LENGTH` bytes, or an
`IOException` at the end of the stream.

A call of `readMjpegFrame` is such a search for the header (`readMjpegFrame_startsAt`),
the length, and the read of the frame (`finishFrame`).
-/

namespace ProjZ

open Ascii JavaStream PairMatcher

namespace MjpegInputStream

variable {src : Source} {s : BufferedInput}

/-! ## The search -/

/-- The outcomes of a search for the marker `a b` in the next `n` bytes. -/
inductive Search (src : Source) (a b : UInt8) (s : BufferedInput) (n : Nat) :
    EStateM.Result Exception BufferedInput Int → Prop where
  | found {pre : List UInt8} (h : src.Holds s.pos pre) (hle : pre.length ≤ n)
      (hit : FirstHit a b pre) : Search src a b s n (.ok pre.length (s.advance pre.length))
  | missing {bs : List UInt8} (h : src.Holds s.pos bs) (hlen : bs.length = n)
      (hno : NoHit a b bs) : Search src a b s n (.ok (-1) (s.advance n))
  | ended {bs : List UInt8} (h : src.Holds s.pos bs) (hlt : bs.length < n)
      (hend : src.byte (s.pos + bs.length) = none) (hno : NoHit a b bs) :
      Search src a b s n (.error .io (s.advance bs.length))

/-- One round of the loop: `seqIndex` is the bit of the matcher. -/
theorem getEndOfSeqeunceLoop_round {a b c : UInt8} (n i : Nat) (q : Bool)
    (hc : src.byte s.pos = some c) :
    getEndOfSeqeunceLoop src [a, b] (n + 1) i q.toNat s =
      if c = b ∧ q = true then .ok (i + 1 : Nat) (s.advance 1)
      else getEndOfSeqeunceLoop src [a, b] n (i + 1) (next a q c).toNat (s.advance 1) := by
  show (readUnsignedByte src >>= _) s = _
  rw [bind_ok (readUnsignedByte_holds hc)]
  cases q with
  | false =>
    have hright : ¬ (c = b ∧ false = true) := fun h => Bool.false_ne_true h.2
    rw [if_neg hright]
    show (if some a = some c then _ else _ : StreamM Int) _ = _
    by_cases hca : c = a
    · rw [if_pos (congrArg some hca.symm), next, decide_eq_true hca]
      rfl
    · rw [if_neg fun h => hca (Option.some.inj h).symm, next, decide_eq_false hca]
      rfl
  | true =>
    show (if some b = some c then _ else _ : StreamM Int) _ = _
    by_cases hcb : c = b
    · have hright : c = b ∧ true = true := ⟨hcb, rfl⟩
      rw [if_pos hright, if_pos (congrArg some hcb.symm)]
      rfl
    · have hright : ¬ (c = b ∧ true = true) := fun h => hcb h.1
      rw [if_neg hright, if_neg fun h => hcb (Option.some.inj h).symm, next, Bool.not_true,
        Bool.and_false]
      rfl

theorem getEndOfSeqeunceLoop_cases {a b : UInt8} (n : Nat) {x : List UInt8}
    (h : src.Holds s.pos x) (hno : NoHit a b x) :
    Search src a b s (x.length + n)
      (getEndOfSeqeunceLoop src [a, b] n x.length (held a x).toNat (s.advance x.length)) := by
  induction n generalizing x with
  | zero => exact .missing h rfl hno
  | succ n ih =>
    cases hc : src.byte (s.pos + x.length) with
    | none =>
      have hround : getEndOfSeqeunceLoop src [a, b] (n + 1) x.length (held a x).toNat
          (s.advance x.length) = .error .io (s.advance x.length) :=
        bind_error (readUnsignedByte_ended hc)
      rw [hround]
      exact .ended h (by omega) hc hno
    | some c =>
      rw [getEndOfSeqeunceLoop_round n x.length (held a x) hc, advance_advance]
      have hnext := h.concat hc
      have hlen : (x ++ [c]).length = x.length + 1 := by simp
      by_cases hhit : c = b ∧ held a x = true
      · rw [if_pos hhit, ← hlen]
        exact .found hnext (by rw [hlen]; omega) (hno.firstHit (hits_concat.mpr hhit))
      · rw [if_neg hhit, ← hlen, ← held_concat]
        have hrest := ih hnext (hno.concat fun hh => hhit (hits_concat.mp hh))
        rwa [hlen, Nat.add_assoc, Nat.add_comm 1, ← hlen] at hrest

/-- **The search, whatever the stream is.** -/
theorem getEndOfSeqeunce_cases (a b : UInt8) (s : BufferedInput) :
    Search src a b s FRAME_MAX_LENGTH (getEndOfSeqeunce src [a, b] s) := by
  have hloop : Search src a b s _ _ := getEndOfSeqeunceLoop_cases FRAME_MAX_LENGTH
    (x := []) trivial (noHit_nil a b)
  rwa [List.length_nil, Nat.zero_add, advance_zero] at hloop

/-- The first marker the matcher sees is found. -/
theorem getEndOfSeqeunce_firstHit {a b : UInt8} {pre : List UInt8} (h : src.Holds s.pos pre)
    (hit : FirstHit a b pre) (hle : pre.length ≤ FRAME_MAX_LENGTH) :
    getEndOfSeqeunce src [a, b] s = .ok pre.length (s.advance pre.length) := by
  have hcases : Search src a b s _ _ := getEndOfSeqeunce_cases a b s
  generalize getEndOfSeqeunce src [a, b] s = r at hcases
  cases hcases with
  | @found pre' h' _ hit' =>
    -- of two first hits at one position each begins the other
    have heq : pre' = pre := by
      rcases Nat.le_total pre'.length pre.length with hlen | hlen
      · exact hit.first pre' (h'.isPrefix h hlen) hit'.hits
      · exact (hit'.first pre (h.isPrefix h' hlen) hit.hits).symm
    rw [heq]
  | missing h' hlen hno => exact absurd hit.hits (hno pre (h.isPrefix h' (by omega)))
  | @ended bs h' hlt hend hno =>
    rcases Nat.lt_or_ge bs.length pre.length with hlen | hlen
    · exact absurd hend (h.byte_ne_none hlen)
    · exact absurd hit.hits (hno pre (h.isPrefix h' hlen))

/-- Without a marker the search gives up where its last byte is. -/
theorem getEndOfSeqeunce_noHit {a b : UInt8} {bs : List UInt8} (h : src.Holds s.pos bs)
    (hlen : bs.length = FRAME_MAX_LENGTH) (hno : NoHit a b bs) :
    getEndOfSeqeunce src [a, b] s = .ok (-1) (s.advance FRAME_MAX_LENGTH) := by
  have hcases : Search src a b s _ _ := getEndOfSeqeunce_cases a b s
  generalize getEndOfSeqeunce src [a, b] s = r at hcases
  cases hcases with
  | found h' hle hit => exact absurd hit.hits (hno _ (h'.isPrefix h (by omega)))
  | missing => rfl
  | ended h' hlt hend => exact absurd hend (h.byte_ne_none (by omega))

/-! ## The two halves of a call -/

/-- The bytes before the first start marker the search sees, if it is in its reach. -/
structure StartsAt (src : Source) (i : Nat) (header : List UInt8) : Prop where
  holds : src.Holds i (header ++ SOI_MARKER)
  hit : FirstHit 0xFF 0xD8 (header ++ SOI_MARKER)
  length_le : header.length ≤ 40098

/-- What `readMjpegFrame` does when it knows both lengths. -/
def finishFrame (src : Source) {Bitmap : Type} (decodeStream : List UInt8 → Bitmap)
    (headerLen : Nat) (mContentLength : Int) : StreamM Bitmap := do
  reset
  let frameLen ← newArray mContentLength
  let _ ← skipBytes src headerLen
  let frameData ← readFully src frameLen
  pure (decodeStream frameData)

variable {Bitmap : Type} {decodeStream : List UInt8 → Bitmap} {header : List UInt8}

/-- ASCII text hides no marker. -/
theorem startsAt_of_ascii {frame : List UInt8} {i : Nat} (hascii : ∀ c ∈ header, c < 128)
    (hstart : SOI_MARKER <+: frame) (hle : header.length ≤ 40098)
    (h : src.Holds i (header ++ frame)) : StartsAt src i header := by
  obtain ⟨rest, hrest⟩ := hstart
  have hFF : 0xFF ∉ header := fun hc => absurd (hascii _ hc) (by decide)
  refine ⟨?_, ?_, hle⟩
  · rw [← hrest, ← List.append_assoc] at h
    exact (Source.holds_append.mp h).1
  · have hhit := firstHit_of_notMem 0xD8 hFF
    rwa [List.append_assoc] at hhit

/-- The search of a call, its first reset and the read of the header. -/
theorem readMjpegFrame_startsAt (h : StartsAt src s.pos header) :
    readMjpegFrame src decodeStream s =
      (contentLength src header >>= finishFrame src decodeStream header.length)
        ((s.setMark FRAME_MAX_LENGTH).advance header.length) := by
  have hlen : (header ++ SOI_MARKER).length = header.length + 2 := List.length_append
  have hle : header.length + 2 ≤ FRAME_MAX_LENGTH := by
    have := h.length_le
    show _ ≤ 40100
    omega
  -- the search ends behind the start marker, which the mark still reaches
  have hend : getEndOfSeqeunce src SOI_MARKER (s.setMark FRAME_MAX_LENGTH) = _ :=
    getEndOfSeqeunce_firstHit h.holds h.hit (by rw [hlen]; exact hle)
  rw [hlen] at hend
  have hnonneg : ¬ ((header.length + 2 : Nat) : Int) < 0 := by omega
  have hstart : getStartOfSequence src SOI_MARKER (s.setMark FRAME_MAX_LENGTH) =
      .ok (header.length : Int) ((s.setMark FRAME_MAX_LENGTH).advance (header.length + 2)) := by
    have hsub : ((header.length + 2 : Nat) : Int) - (SOI_MARKER.length : Int) =
        (header.length : Int) := by
      show ((header.length + 2 : Nat) : Int) - 2 = _
      omega
    unfold getStartOfSequence
    rw [bind_ok hend, if_neg hnonneg, hsub]
    rfl
  have hmark : mark FRAME_MAX_LENGTH s = .ok () (s.setMark FRAME_MAX_LENGTH) := rfl
  have hread := readFully_holds (s := s.setMark FRAME_MAX_LENGTH)
    (Source.holds_append.mp h.holds).1
  unfold readMjpegFrame
  rw [bind_ok hmark, bind_ok hstart, bind_ok (reset_advance s hle), bind_ok (newArray_ofNat _ _),
    bind_ok hread]
  rfl

/-! ## The length of a frame -/

/-- A header with a length is not searched for a marker. -/
theorem contentLength_of_parse {header : List UInt8} {n : Int}
    (h : parseContentLength header = .ok n) : contentLength src header s = .ok n s := by
  unfold contentLength
  rw [h]
  rfl

theorem contentLength_badEscape (hload : JavaProperties.load header = none) :
    contentLength src header s = .error .illegalArgument s := by
  unfold contentLength parseContentLength
  rw [hload]
  rfl

theorem contentLength_search (h : parseContentLength header = .error .numberFormat) :
    contentLength src header = getEndOfSeqeunce src EOF_MARKER := by
  unfold contentLength
  rw [h]

/-! ## Reading a frame -/

section Finish

variable (src) (decodeStream) (headerLen : Nat)

/-- The search has gone past the limit of the mark. -/
theorem finishFrame_past {k : Nat} (hk : FRAME_MAX_LENGTH < k) (m : Int) :
    ∃ s', finishFrame src decodeStream headerLen m ((s.setMark FRAME_MAX_LENGTH).advance k) =
      .error .io s' := by
  obtain ⟨s', hreset⟩ := reset_past s hk
  exact ⟨s', bind_error hreset⟩

theorem finishFrame_neg {k : Nat} (hk : k ≤ FRAME_MAX_LENGTH) {m : Int} (hm : m < 0) :
    ∃ s', finishFrame src decodeStream headerLen m ((s.setMark FRAME_MAX_LENGTH).advance k) =
      .error .negativeArraySize s' := by
  refine ⟨s.setMark FRAME_MAX_LENGTH, ?_⟩
  unfold finishFrame
  rw [bind_ok (reset_advance s hk)]
  exact bind_error (newArray_of_neg hm _)

/-- With a length that is not negative the frame is read or the stream ends. -/
theorem finishFrame_ofNat {k : Nat} (hk : k ≤ FRAME_MAX_LENGTH) (n : Nat) :
    (∃ bitmap s', finishFrame src decodeStream headerLen n
        ((s.setMark FRAME_MAX_LENGTH).advance k) = .ok bitmap s') ∨
      ∃ s', finishFrame src decodeStream headerLen n
        ((s.setMark FRAME_MAX_LENGTH).advance k) = .error .io s' := by
  obtain ⟨skipped, s₁, hskip⟩ := skipBytes_cases src headerLen (s.setMark FRAME_MAX_LENGTH)
  unfold finishFrame
  rw [bind_ok (reset_advance s hk), bind_ok (newArray_ofNat _ _), bind_ok hskip]
  rcases readFully_cases src n s₁ with ⟨bs, s', hread, -⟩ | ⟨s', hread⟩
  · rw [bind_ok hread]
    exact Or.inl ⟨decodeStream bs, s', rfl⟩
  · exact Or.inr ⟨s', bind_error hread⟩

end Finish

/-- With the length of what the stream holds, that is read. -/
theorem finishFrame_holds (decodeStream : List UInt8 → Bitmap) {frame : List UInt8}
    (h : src.Holds s.pos (header ++ frame)) {k : Nat}
    (hk : k ≤ FRAME_MAX_LENGTH) :
    ∃ s', finishFrame src decodeStream header.length frame.length
        ((s.setMark FRAME_MAX_LENGTH).advance k) = .ok (decodeStream frame) s' ∧
      s'.pos = s.pos + (header ++ frame).length := by
  obtain ⟨hheader, hframe⟩ := Source.holds_append.mp h
  have hskip := skipBytes_holds (s := s.setMark FRAME_MAX_LENGTH) hheader
  have hdata := readFully_holds (s := (s.setMark FRAME_MAX_LENGTH).advance header.length) hframe
  refine ⟨((s.setMark FRAME_MAX_LENGTH).advance header.length).advance frame.length, ?_, ?_⟩
  · unfold finishFrame
    rw [bind_ok (reset_advance s hk), bind_ok (newArray_ofNat _ _), bind_ok hskip, bind_ok hdata]
    rfl
  · show s.pos + header.length + frame.length = _
    rw [List.length_append]
    omega

end MjpegInputStream

end ProjZ
