import ProjZ.Streamer.FrameBuffer

/-!
# The frames of a client

What a client has been sent, as the list of its writes, told by the numbers of the frames in
it: whole frames so far (`Idle`), whole frames and a part of the next (`Sending`), and what
holds at any time (`Delivered`).
-/

namespace ProjZ

namespace Streamer

open Httpd

/-! ## Published frames -/

/-- What the buffer holds before the first picture: an empty one. -/
def blank : Frame := ⟨[], ⟨0, 0⟩⟩

/-- The frames by number; the camera publishes number 1 first. -/
def frameAt (news : List Frame) (k : Nat) : Frame := (blank :: news)[k]?.getD blank

/-- Publishing a frame does not change the earlier ones. -/
theorem frameAt_append {news : List Frame} {k : Nat} (hk : k ≤ news.length) (f : Frame) :
    frameAt (news ++ [f]) k = frameAt news k := by
  unfold frameAt
  rw [← List.cons_append, List.getElem?_append_left (by rw [List.length_cons]; omega)]

/-- The last frame published is the one in the buffer. -/
theorem frameAt_last (news : List Frame) (f : Frame) :
    frameAt (news ++ [f]) (news ++ [f]).length = f := by
  unfold frameAt
  rw [List.length_append, List.length_singleton, List.getElem?_cons_succ,
    List.getElem?_append_right (Nat.le_refl _), Nat.sub_self]
  rfl

/-- The shared data are those of a frame. -/
structure Holds {n : Nat} (input : Input n) (f : Frame) : Prop where
  picture : f.picture <+: input.buf.bytes
  size : input.size = f.picture.length
  timestamp : input.timestamp = f.timestamp

/-- The order of the frames sent to a client. The strict one begins behind frame 0, which
nobody has published. -/
def Before (strict : Bool) (j k : Nat) : Prop := if strict then j < k else j ≤ k

/-- The next frame is after all earlier ones. -/
theorem before_succ {strict : Bool} {j k : Nat} (h : j ≤ k) : Before strict j (k + 1) := by
  cases strict with
  | true => exact Nat.lt_succ_of_le h
  | false => exact Nat.le_succ_of_le h

/-! ## Texts -/

/-- The writes before the first frame. -/
def greeting : Request → List (List UInt8)
  | .stream => [streamHeader]
  | .snapshot => []

/-- The writes after a frame. -/
def ending : Request → List (List UInt8)
  | .stream => [partBoundary]
  | .snapshot => []

/-- The writes for a frame. -/
def writes (request : Request) (f : Frame) : List (List UInt8) :=
  [header request f.picture.length f.timestamp, f.picture] ++ ending request

/-- The writes for the frames with the numbers `ks`. -/
def text (request : Request) (news : List Frame) (ks : List Nat) : List (List UInt8) :=
  greeting request ++ ks.flatMap fun k => writes request (frameAt news k)

/-- One more frame is sent. -/
theorem text_concat (request : Request) (news : List Frame) (ks : List Nat) (k : Nat) :
    text request news (ks ++ [k]) = text request news ks ++ writes request (frameAt news k) := by
  unfold text
  rw [List.flatMap_append, List.flatMap_singleton, List.append_assoc]

/-- What was sent is not changed by what is published. -/
theorem text_append {request : Request} {news : List Frame} {ks : List Nat}
    (hks : ∀ k ∈ ks, k ≤ news.length) (f : Frame) :
    text request (news ++ [f]) ks = text request news ks := by
  unfold text
  refine congrArg (greeting request ++ ·)
    (congrArg List.flatten (List.map_congr_left fun k hk => ?_))
  rw [frameAt_append (hks k hk)]

/-- The numbers of the frames sent so far, in order. A snapshot has sent none. -/
structure Series (strict : Bool) (request : Request) (news : List Frame) (ks : List Nat) :
    Prop where
  sorted : (0 :: ks).Pairwise (Before strict)
  le : ∀ k ∈ ks, k ≤ news.length
  once : request = .snapshot → ks = []

/-- Whole frames have been sent. -/
def Idle (strict : Bool) (request : Request) (news : List Frame) (sent : List (List UInt8)) :
    Prop := ∃ ks, Series strict request news ks ∧ sent = text request news ks

/-- Whole frames have been sent, and the newest one may be the next. -/
def Ready (strict : Bool) (request : Request) (news : List Frame) (sent : List (List UInt8)) :
    Prop :=
  ∃ ks, Series strict request news ks ∧ sent = text request news ks ∧
    ∀ k ∈ 0 :: ks, Before strict k news.length

/-- The client has a copy of a frame. -/
structure Copy (client : Client) (f : Frame) : Prop where
  picture : client.frame.take client.frameSize = f.picture
  size : client.frameSize = f.picture.length
  timestamp : client.timestamp = f.timestamp

/-- Whole frames have been sent, and of the next one the writes `tail`. -/
def Sending (strict : Bool) (client : Client) (news : List Frame) (sent : List (List UInt8))
    (tail : Frame → List (List UInt8)) : Prop :=
  ∃ ks k, Series strict client.request news ks ∧ (∀ j ∈ 0 :: ks, Before strict j k) ∧
    k ≤ news.length ∧ Copy client (frameAt news k) ∧
    sent = text client.request news ks ++ tail (frameAt news k)

/-- What a client has been sent at any time: frames in order, the last one perhaps not to its
end, or the message that memory is short. -/
structure Delivered (strict : Bool) (request : Request) (news : List Frame)
    (sent : List (List UInt8)) (ks : List Nat) : Prop where
  sorted : (0 :: ks).Pairwise (Before strict)
  le : ∀ k ∈ ks, k ≤ news.length
  once : request = .snapshot → ks.length ≤ 1
  sent : sent <+: text request news ks ∨ sent = text request news ks ++ [notEnoughMemory]

section Texts

variable {strict : Bool} {request : Request} {news : List Frame} {sent : List (List UInt8)}
  {client : Client} {tail : Frame → List (List UInt8)}

/-- Nothing has been sent. -/
theorem series_nil : Series strict request news [] :=
  ⟨List.pairwise_singleton _ _, nofun, fun _ => rfl⟩

/-- No frame sent is newer than the newest one. -/
theorem Series.le_length {ks : List Nat} (h : Series strict request news ks) :
    ∀ k ∈ 0 :: ks, k ≤ news.length := by
  intro k hk
  rcases List.mem_cons.mp hk with rfl | hk
  · exact Nat.zero_le _
  · exact h.le k hk

/-- The frames sent so far stay published ones when another is published. -/
theorem Series.append {ks : List Nat} (h : Series strict request news ks) (f : Frame) :
    Series strict request (news ++ [f]) ks where
  sorted := h.sorted
  le k hk := by
    rw [List.length_append]
    exact Nat.le_add_right_of_le (h.le k hk)
  once := h.once

/-- A client that waits may have missed the new frame. -/
theorem Idle.append (h : Idle strict request news sent) (f : Frame) :
    Idle strict request (news ++ [f]) sent := by
  obtain ⟨ks, hks, rfl⟩ := h
  exact ⟨ks, hks.append f, (text_append hks.le f).symm⟩

/-- A new frame comes after all frames sent. -/
theorem Idle.ready (h : Idle strict request news sent) (f : Frame) :
    Ready strict request (news ++ [f]) sent := by
  obtain ⟨ks, hks, rfl⟩ := h
  refine ⟨ks, hks.append f, (text_append hks.le f).symm, fun k hk => ?_⟩
  rw [List.length_append]
  exact before_succ (hks.le_length k hk)

/-- Without the news it was woken for, such a client is one that waits. -/
theorem Ready.idle (h : Ready strict request news sent) : Idle strict request news sent := by
  obtain ⟨ks, hks, hsent, -⟩ := h
  exact ⟨ks, hks, hsent⟩

/-- With spurious wake-ups, a client that waits may go on at any time. -/
theorem Idle.ready_of_not_strict (h : Idle false request news sent) :
    Ready false request news sent := by
  obtain ⟨ks, hks, hsent⟩ := h
  exact ⟨ks, hks, hsent, hks.le_length⟩

/-- A client that sends has its copy. -/
theorem Sending.append (h : Sending strict client news sent tail) (f : Frame) :
    Sending strict client (news ++ [f]) sent tail := by
  obtain ⟨ks, k, hks, hbefore, hk, hcopy, rfl⟩ := h
  refine ⟨ks, k, hks.append f, hbefore, ?_, ?_, ?_⟩
  · rw [List.length_append]
    exact Nat.le_add_right_of_le hk
  · rw [frameAt_append hk]
    exact hcopy
  · rw [text_append hks.le, frameAt_append hk]

/-- So does the promise that is made for the whole of what was sent. -/
theorem Delivered.append {ks : List Nat} (h : Delivered strict request news sent ks)
    (f : Frame) : Delivered strict request (news ++ [f]) sent ks where
  sorted := h.sorted
  le k hk := by
    rw [List.length_append]
    exact Nat.le_add_right_of_le (h.le k hk)
  once := h.once
  sent := by
    rw [text_append h.le]
    exact h.sent

/-- Between two frames, what was sent is whole frames. -/
theorem Idle.delivered (h : Idle strict request news sent) :
    ∃ ks, Delivered strict request news sent ks := by
  obtain ⟨ks, hks, rfl⟩ := h
  refine ⟨ks, hks.sorted, hks.le, fun hsnap => ?_, .inl (List.prefix_refl _)⟩
  rw [hks.once hsnap]
  exact Nat.zero_le 1

/-- The frames sent with the one that is being sent. -/
theorem Series.concat {ks : List Nat} {k : Nat} (h : Series strict request news ks)
    (hbefore : ∀ j ∈ 0 :: ks, Before strict j k) (hk : k ≤ news.length) {sent : List (List UInt8)}
    (hsent : sent <+: text request news (ks ++ [k])) :
    Delivered strict request news sent (ks ++ [k]) where
  sorted := by
    rw [← List.cons_append, List.pairwise_append]
    refine ⟨h.sorted, List.pairwise_singleton _ _, ?_⟩
    intro j hj k' hk'
    rw [List.mem_singleton.mp hk']
    exact hbefore j hj
  le k' hk' := by
    rcases List.mem_append.mp hk' with hk' | hk'
    · exact h.le k' hk'
    · rw [List.mem_singleton.mp hk']
      exact hk
  once hsnap := by
    rw [h.once hsnap]
    exact Nat.le_refl 1
  sent := .inl hsent

/-- Within a frame, its text has been begun. -/
theorem Sending.delivered (h : Sending strict client news sent tail)
    (htail : ∀ f, tail f <+: writes client.request f) :
    ∃ ks, Delivered strict client.request news sent ks := by
  obtain ⟨ks, k, hks, hbefore, hk, -, rfl⟩ := h
  refine ⟨ks ++ [k], hks.concat hbefore hk ?_⟩
  rw [text_concat]
  exact (List.prefix_append_right_inj _).mpr (htail _)

/-- The frame that was being sent has been sent to its end. -/
theorem Sending.idle (h : Sending strict client news sent tail)
    (hstream : client.request = .stream) (last : List (List UInt8))
    (htail : ∀ f, tail f ++ last = writes client.request f) :
    Idle strict client.request news (sent ++ last) := by
  obtain ⟨ks, k, hks, hbefore, hk, -, rfl⟩ := h
  have hdone := hks.concat hbefore hk (List.prefix_refl _)
  refine ⟨ks ++ [k], ⟨hdone.sorted, hdone.le, ?_⟩, ?_⟩
  · intro hsnap
    rw [hstream] at hsnap
    cases hsnap
  · rw [text_concat, List.append_assoc, htail]

/-- One more write of the frame that is being sent. -/
theorem Sending.write (h : Sending strict client news sent tail) (pc : ClientPc)
    (last : Frame → List (List UInt8)) {s : List (List UInt8)}
    (hs : ∀ f, Copy client f → last f = s) :
    Sending strict { client with pc := pc } news (sent ++ s) (fun f => tail f ++ last f) := by
  obtain ⟨ks, k, hks, hbefore, hk, hcopy, rfl⟩ := h
  refine ⟨ks, k, hks, hbefore, hk, ⟨hcopy.picture, hcopy.size, hcopy.timestamp⟩, ?_⟩
  show _ = text client.request news ks ++ (tail _ ++ last _)
  rw [hs _ hcopy, List.append_assoc]

end Texts

end Streamer

end ProjZ
