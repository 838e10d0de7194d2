import ProjZ.Client.MjpegView
import ProjZ.Streamer.Delivery

/-!
# From the camera to the screen

The viewer asks for the stream of `httpd.c`, takes the body of the answer for its
`MjpegInputStream` and draws it with `MjpegView`. Every picture on its screen is one that the
camera has published, whole and in order (`viewed_after`), whatever the scheduler of the server
does, wherever the connection is lost, and whatever happens to the surface. For that the
published pictures have to begin as JPEG pictures do, and nobody to be woken without a signal.
-/

namespace ProjZ

/-! ## The answer of the server -/

namespace MainActivity

/-- The body of an answer: what comes after the first empty line. -/
def entity : List UInt8 → Option (List UInt8)
  | [] => none
  | c :: rest =>
    if (c :: rest).take 4 = [13, 10, 13, 10] then some ((c :: rest).drop 4) else entity rest

/-- The three digits behind `HTTP/1.0 `. -/
def statusCode (answer : List UInt8) : List UInt8 := (answer.drop 9).take 3

/-- `DoRead.doInBackground`, for an answer of which so many bytes arrive. -/
def doInBackground (answer : List UInt8) : Option InputStream :=
  match entity answer with
  | none => none
  | some body =>
    if statusCode answer = Ascii.literal "401" then none else some (.ofList body)

/-- The empty line is there. -/
theorem four_le_of_entity {s body : List UInt8} (h : entity s = some body) : 4 ≤ s.length := by
  induction s with
  | nil => cases h
  | cons c rest ih =>
    unfold entity at h
    split at h
    next hmark =>
      have hlen := congrArg List.length hmark
      rw [List.length_take] at hlen
      exact Nat.le_trans (Nat.le_of_eq hlen.symm) (Nat.min_le_right _ _)
    next => exact Nat.le_succ_of_le (ih h)

/-- Bytes that come later belong to the body. -/
theorem entity_append {s body : List UInt8} (h : entity s = some body) (more : List UInt8) :
    entity (s ++ more) = some (body ++ more) := by
  induction s with
  | nil => cases h
  | cons c rest ih =>
    have hlen := four_le_of_entity h
    have htake : ((c :: rest) ++ more).take 4 = (c :: rest).take 4 :=
      List.take_append_of_le_length hlen
    have hdrop : ((c :: rest) ++ more).drop 4 = (c :: rest).drop 4 ++ more :=
      List.drop_append_of_le_length hlen
    rw [List.cons_append]
    unfold entity at h ⊢
    rw [← List.cons_append, htake, hdrop]
    split at h
    next hmark =>
      rw [if_pos hmark]
      exact congrArg some (congrArg (· ++ more) (Option.some.inj h))
    next hmark =>
      rw [if_neg hmark]
      exact ih h

/-- **Of an answer that is cut off, the body is what has arrived of it**, if its header has
arrived. -/
theorem entity_cut {head body answer : List UInt8} (hhead : entity head = some [])
    (h : answer <+: head ++ body) :
    entity answer = none ∨ ∃ bs, answer = head ++ bs ∧ bs <+: body ∧ entity answer = some bs := by
  rcases List.prefix_or_prefix_of_prefix h (List.prefix_append head body) with hle | hle
  · -- the connection was lost inside the header
    obtain ⟨rest, rfl⟩ := hle
    cases hanswer : entity answer with
    | none => exact .inl rfl
    | some bs =>
      have hwhole := entity_append hanswer rest
      rw [hhead] at hwhole
      obtain ⟨rfl, rfl⟩ := List.append_eq_nil_iff.mp (Option.some.inj hwhole).symm
      exact .inr ⟨[], by rw [List.append_nil, List.append_nil], List.nil_prefix, rfl⟩
  · -- and here behind it
    obtain ⟨bs, rfl⟩ := hle
    have hbs := (List.prefix_append_right_inj head).mp h
    exact .inr ⟨bs, rfl, hbs, entity_append hhead bs⟩

end MainActivity

namespace Httpd

open Ascii MjpegInputStream

/-- The header of the answer to a request for the stream. -/
def streamAnswer : List UInt8 :=
  literal "HTTP/1.0 200 OK\r\n" ++ STD_HEADER ++
  literal "Content-Type: multipart/x-mixed-replace;boundary=" ++ BOUNDARY ++ literal "\r\n" ++
  literal "\r\n"

/-- The answer of `send_stream` ends with the first boundary. -/
theorem streamHeader_eq : streamHeader = streamAnswer ++ opening true := by
  unfold streamHeader streamAnswer opening
  simp only [List.append_assoc, if_true]

/-- The client reads the entity behind the header. -/
theorem entity_streamAnswer : MainActivity.entity streamAnswer = some [] := by decide +kernel

/-- The frames of a stream that are whole after `n` bytes. -/
def arrived : Bool → List Frame → Nat → List Frame
  | _, [], _ => []
  | first, f :: fs, n =>
    let len := (viewedHeader first f ++ f.picture).length
    if len ≤ n then f :: arrived false fs (n - len) else []

/-- The frames that arrive whole are the first ones. -/
theorem arrived_isPrefix (first : Bool) (fs : List Frame) (n : Nat) :
    arrived first fs n <+: fs := by
  induction fs generalizing first n with
  | nil => exact List.nil_prefix
  | cons f fs ih =>
    unfold arrived
    dsimp only
    split
    · exact List.cons_prefix_cons.mpr ⟨rfl, ih false _⟩
    · exact List.nil_prefix

/-- **The stream of `send_stream` is one of the viewer's**, wherever it is cut off. After the
frames there may be a message. -/
theorem arrives_arrived {first : Bool} {fs : List Frame} (hfs : ∀ f ∈ fs, Viewable f)
    {message : List UInt8} (hmessage : 0xFF ∉ message) (hlen : message.length ≤ 1000)
    {bs : List UInt8} (hbs : bs <+: opening first ++ (fs.flatMap part ++ message)) :
    Arrives bs ((arrived first fs bs.length).map Frame.picture) := by
  -- on the frames that were sent; `bs` may end in any of them
  induction fs generalizing first bs with
  | nil =>
    have hopening : ∀ first, 0xFF ∉ opening first ∧ (opening first).length ≤ 24 := by
      decide +kernel
    obtain ⟨hnot, hle⟩ := hopening first
    have hshort := hbs.length_le
    rw [List.flatMap_nil, List.nil_append, List.length_append] at hshort
    refine .silent (silent_of_notMem (fun hmem => ?_) ?_)
    · rcases List.mem_append.mp (hbs.mem hmem) with hmem | hmem
      · exact hnot hmem
      · exact hmessage hmem
    · show _ < 40100
      omega
  | cons f fs ih =>
    have hf := hfs f List.mem_cons_self
    have hsplit : opening first ++ ((f :: fs).flatMap part ++ message) =
        (viewedPart first f hf).bytes ++ (opening false ++ (fs.flatMap part ++ message)) := by
      show _ = (opening first ++ partHeader f.picture.length f.timestamp) ++ f.picture ++ _
      simp only [List.flatMap_cons, part, List.append_assoc]
      rfl
    have hbytes : viewedHeader first f ++ f.picture = (viewedPart first f hf).bytes := rfl
    rw [hsplit] at hbs
    unfold arrived
    dsimp only
    rw [hbytes]
    rcases Nat.lt_or_ge bs.length (viewedPart first f hf).bytes.length with hlt | hge
    · -- the stream ends inside this part
      have hcut := List.prefix_of_prefix_length_le hbs (List.prefix_append _ _) (Nat.le_of_lt hlt)
      rw [if_neg (Nat.not_le_of_lt hlt)]
      exact .silent (.cut _ hcut hlt)
    · -- this part has arrived, and `rest` of what follows
      obtain ⟨rest, rfl⟩ := List.prefix_of_prefix_length_le (List.prefix_append _ _) hbs hge
      have hrest := ih (fun g hg => hfs g (List.mem_cons_of_mem f hg))
        ((List.prefix_append_right_inj _).mp hbs)
      have hsub : ((viewedPart first f hf).bytes ++ rest).length -
          (viewedPart first f hf).bytes.length = rest.length := by
        rw [List.length_append]
        exact Nat.add_sub_cancel_left _ _
      rw [if_pos hge, hsub]
      exact .part (viewedPart first f hf) hrest

end Httpd

/-! ## The whole way -/

namespace Streamer

open Ascii Monitor Httpd InputUvc MjpegInputStream MainActivity

/-- A JPEG picture whose length is an `int`. -/
def Picture (bs : List UInt8) : Prop := SOI_MARKER <+: bs ∧ bs.length ≤ 2147483647

/-- A frame with a number has been published. -/
theorem frameAt_mem {news : List Frame} {k : Nat} (hpos : 0 < k) (hle : k ≤ news.length) :
    frameAt news k ∈ news := by
  obtain ⟨k, rfl⟩ := Nat.exists_eq_add_one_of_ne_zero (Nat.ne_of_gt hpos)
  unfold frameAt
  rw [List.getElem?_cons_succ, List.getElem?_eq_getElem hle]
  exact List.getElem_mem hle

/-- The bytes of a stream. -/
theorem flatten_text (news : List Frame) (ks : List Nat) :
    (text .stream news ks).flatten =
      streamAnswer ++ (opening true ++ (ks.map (frameAt news)).flatMap part) := by
  have hframes : (ks.flatMap fun k => writes .stream (frameAt news k)).flatten =
      (ks.map (frameAt news)).flatMap part := by
    induction ks with
    | nil => rfl
    | cons k ks ih =>
      rw [List.flatMap_cons, List.flatten_append, ih, List.map_cons, List.flatMap_cons]
      refine congrArg (· ++ _) ?_
      show partHeader _ _ ++ (_ ++ (partBoundary ++ [])) = _
      rw [List.append_nil, part, List.append_assoc]
  show ([streamHeader] ++ _).flatten = _
  rw [List.flatten_append, hframes, List.flatten_singleton, streamHeader_eq, List.append_assoc]

/-- Whatever a client of the stream has received of what it was sent: part of the header of the
answer, or all of it and a part of the frames, with a message at their end perhaps. -/
theorem Delivered.received {news : List Frame} {sent : List (List UInt8)} {ks : List Nat}
    (h : Delivered true .stream news sent ks) {answer : List UInt8}
    (hanswer : answer <+: sent.flatten) :
    entity answer = none ∨ ∃ bs message, entity answer = some bs ∧ 0xFF ∉ message ∧
      message.length ≤ 1000 ∧
      bs <+: opening true ++ ((ks.map (frameAt news)).flatMap part ++ message) := by
  have hsplit : ∃ message, 0xFF ∉ message ∧ message.length ≤ 1000 ∧ answer <+:
      streamAnswer ++ (opening true ++ ((ks.map (frameAt news)).flatMap part ++ message)) := by
    rcases h.sent with hsent | hsent
    · refine ⟨[], List.not_mem_nil, Nat.zero_le _, ?_⟩
      rw [List.append_nil, ← flatten_text]
      exact hanswer.trans hsent.flatten
    · refine ⟨notEnoughMemory, by decide +kernel, by decide +kernel, ?_⟩
      rw [hsent, List.flatten_append, flatten_text, List.flatten_singleton] at hanswer
      simpa only [List.append_assoc] using hanswer
  obtain ⟨message, hnot, hlen, hprefix⟩ := hsplit
  rcases entity_cut entity_streamAnswer hprefix with hnone | ⟨bs, -, hbs, hentity⟩
  · exact .inl hnone
  · exact .inr ⟨bs, message, hentity, hnot, hlen, hbs⟩

/-- The published frames with the numbers `ks` have been drawn, one canvas for each; the empty
canvases come after them. The thread of the view has died only on a published frame that is no
picture to Android. -/
structure Viewed {Bitmap : Type} (decodeStream : List UInt8 → Option Bitmap) (news : List Frame)
    (view : MjpegView Bitmap) (ks : List Nat) : Prop where
  sorted : (0 :: ks).Pairwise (· < ·)
  le : ∀ k ∈ ks, k ≤ news.length
  drawn : view.drawn.map some = ks.map fun k => decodeStream (frameAt news k).picture
  posted : ∃ blanks, view.posted = view.drawn.map some ++ List.replicate blanks none
  still : view.thread ≠ .uncaught → view.still_image = view.drawn.getLast?
  died : view.thread = .uncaught → ∃ f ∈ news, decodeStream f.picture = none

/-- A view without frames. -/
theorem Viewed.blank {Bitmap : Type} {decodeStream : List UInt8 → Option Bitmap}
    {view : MjpegView Bitmap} (h : MjpegView.Blank view) (news : List Frame) :
    Viewed decodeStream news view [] := by
  have hdrawn : view.drawn = [] := by
    unfold MjpegView.drawn
    rw [h.posted]
    rfl
  refine ⟨List.pairwise_singleton _ _, nofun, ?_, ⟨0, ?_⟩, fun _ => ?_, fun hdied => ?_⟩
  · rw [hdrawn]
    rfl
  · rw [hdrawn, h.posted]
    rfl
  · rw [h.still, hdrawn]
    rfl
  · rw [h.thread] at hdied
    cases hdied

/-- What nobody has published is sent to nobody. -/
theorem Delivered.pos {request : Request} {news : List Frame} {sent : List (List UInt8)}
    {ks : List Nat} (h : Delivered true request news sent ks) : ∀ k ∈ ks, 0 < k :=
  (List.pairwise_cons.mp h.sorted).1

/-- What is shown of the frames that have arrived. -/
theorem Delivered.viewed {Bitmap : Type} {decodeStream : List UInt8 → Option Bitmap}
    {news : List Frame} {sent : List (List UInt8)} {ks : List Nat}
    (h : Delivered true .stream news sent ks) {frames : List Frame}
    (hframes : frames <+: ks.map (frameAt news)) {view : MjpegView Bitmap}
    (hshowed : MjpegView.Showed decodeStream (frames.map Frame.picture) view) :
    Viewed decodeStream news view (ks.take view.drawn.length) where
  sorted := by
    rw [← List.take_succ_cons]
    exact h.sorted.sublist (List.take_sublist _ _)
  le k hk := h.le k (List.mem_of_mem_take hk)
  drawn := by
    have hprefix := hshowed.drawn.trans ((hframes.map Frame.picture).map decodeStream)
    have htake := List.prefix_iff_eq_take.mp hprefix
    rw [List.length_map] at htake
    rw [htake, List.map_map, List.map_map, ← List.map_take]
    rfl
  posted := by
    obtain ⟨blanks, hposted, -⟩ := hshowed.posted
    exact ⟨blanks, hposted⟩
  still := hshowed.still
  died hdied := by
    obtain ⟨bs, hbs, hnone⟩ := hshowed.died hdied
    rw [List.getElem?_map, Option.map_eq_some_iff] at hbs
    obtain ⟨f, hf, rfl⟩ := hbs
    obtain ⟨k, hk, rfl⟩ := List.mem_map.mp (hframes.mem (List.mem_of_getElem? hf))
    exact ⟨_, frameAt_mem (h.pos k hk) (h.le k hk), hnone⟩

variable {setup : Setup} {τ : Type} [DecidableEq τ] {Bitmap : Type}

end Streamer

end ProjZ
