import Mathlib.Data.List.ReduceOption
import ProjZ.Client.MjpegEnd
import ProjZ.Lib.Runs

/-!
# The viewer's screen

`MjpegView.java`: the callbacks of the surface, and the thread that reads a frame and draws
it, round by round. Every round posts its canvas, in a `finally` block, whether it has drawn
on it or not. `showed_after` says what has been posted after any order of callbacks and rounds;
`posted_rounds` that nothing is left out while the surface is there.
-/

namespace ProjZ

open Ascii JavaStream MjpegInputStream

/-- A `MjpegInputStream`: what comes in, and how far it has been read. -/
structure InputStream where
  src : Source
  input : BufferedInput

/-- A stream of these bytes, of which none has been read. -/
def InputStream.ofList (bs : List UInt8) : InputStream := ⟨.ofList bs, .fresh⟩

/-- The life of a `MjpegViewThread`. It ends when `run` returns, or with an exception that
`run` does not catch. -/
inductive Life where
  | new
  | running
  | returned
  | uncaught
deriving DecidableEq, Repr

/-- The fields of a `MjpegView` with its thread. `posted` are the canvases that have been
posted to the surface, oldest first, each with the picture that was drawn on it, if any was. -/
structure MjpegView (Bitmap : Type) where
  mIn : Option InputStream
  mRun : Bool
  surfaceDone : Bool
  still_image : Option Bitmap
  thread : Life
  posted : List (Option Bitmap)

namespace MjpegView

variable {Bitmap : Type}

/-- A new view. -/
def init : MjpegView Bitmap where
  mIn := none
  mRun := false
  surfaceDone := false
  still_image := none
  thread := .new
  posted := []

/-- The pictures that have been drawn, oldest first. -/
def drawn (view : MjpegView Bitmap) : List Bitmap := view.posted.reduceOption

/-- `startPlayback` -/
def startPlayback (view : MjpegView Bitmap) : MjpegView Bitmap :=
  if view.mIn.isSome then { view with mRun := true, thread := .running } else view

/-- `stopPlayback`, which waits for the loop of the thread to end. -/
def stopPlayback (view : MjpegView Bitmap) : MjpegView Bitmap :=
  { view with mRun := false, thread := if view.thread = .running then .returned else view.thread }

/-- `setSource` -/
def setSource (source : Option InputStream) (view : MjpegView Bitmap) : MjpegView Bitmap :=
  startPlayback { view with mIn := source }

/-- `surfaceCreated` -/
def surfaceCreated (view : MjpegView Bitmap) : MjpegView Bitmap :=
  { view with surfaceDone := true }

/-- `surfaceDestroyed` -/
def surfaceDestroyed (view : MjpegView Bitmap) : MjpegView Bitmap :=
  stopPlayback { view with surfaceDone := false }

/-- What `run` does with a frame, up to the post in its `finally` block. Without a bitmap
`getWidth` is called on `null`, and of the exceptions of `readMjpegFrame` only `IOException`
is caught; with any of them nothing has been drawn. -/
def drawFrame (source : InputStream) (view : MjpegView Bitmap) :
    EStateM.Result Exception BufferedInput (Option Bitmap) → MjpegView Bitmap
  | .ok (some bm) input =>
    { view with
      mIn := some { source with input := input }
      still_image := some bm
      posted := view.posted ++ [some bm] }
  | .ok none input =>
    { view with
      mIn := some { source with input := input }
      still_image := none
      thread := .uncaught
      posted := view.posted ++ [none] }
  | .error .io input =>
    { view with
      mIn := some { source with input := input }
      posted := view.posted ++ [none] }
  | .error _ input =>
    { view with
      mIn := some { source with input := input }
      thread := .uncaught
      posted := view.posted ++ [none] }

/-- One round of the loop of `run`. -/
def round (decodeStream : List UInt8 → Option Bitmap) (view : MjpegView Bitmap) :
    MjpegView Bitmap :=
  if view.thread ≠ .running then view
  else if view.mRun = false then { view with thread := .returned }
  else if view.surfaceDone = false then view
  else
    match view.mIn with
    -- `mIn` is null: the call of `readMjpegFrame` throws
    | none => { view with thread := .uncaught, posted := view.posted ++ [none] }
    | some source => drawFrame source view (readMjpegFrame source.src decodeStream source.input)

/-- What happens to a view with a source. -/
inductive Event where
  | surfaceCreated
  | surfaceDestroyed
  | round
deriving DecidableEq, Repr

/-- The view after an event. -/
def step (decodeStream : List UInt8 → Option Bitmap) (view : MjpegView Bitmap) :
    Event → MjpegView Bitmap
  | .surfaceCreated => view.surfaceCreated
  | .surfaceDestroyed => view.surfaceDestroyed
  | .round => view.round decodeStream

/-! ## What is posted -/

/-- The frames `done` have been drawn, and the frames `rest` are still to be read. After the
pictures there are so many canvases with nothing drawn, and only when there is nothing more to
draw. The thread has died only on a frame that is no picture. -/
structure Shows (decodeStream : List UInt8 → Option Bitmap) (done rest : List (List UInt8))
    (blanks : Nat) (view : MjpegView Bitmap) : Prop where
  posted : view.posted = done.map decodeStream ++ List.replicate blanks none
  pictures : ∀ frame ∈ done, decodeStream frame ≠ none
  blank : blanks ≠ 0 → rest = [] ∨ view.thread = .uncaught
  still : view.thread ≠ .uncaught → view.still_image = done.getLast?.bind decodeStream
  ahead : view.thread ≠ .uncaught →
    ∃ source, view.mIn = some source ∧ Ahead source.src source.input.pos rest
  died : view.thread = .uncaught →
    ∃ frame frames, rest = frame :: frames ∧ decodeStream frame = none

section Rounds

variable {decodeStream : List UInt8 → Option Bitmap} {view : MjpegView Bitmap}
  {done rest : List (List UInt8)} {frame : List UInt8} {source : InputStream} {blanks : Nat}

/-- The loop is in its body. -/
structure Playing (view : MjpegView Bitmap) : Prop where
  thread : view.thread = .running
  mRun : view.mRun = true
  surfaceDone : view.surfaceDone = true

/-- A thread that plays has not died. -/
theorem Playing.lives (h : view.Playing) : view.thread ≠ .uncaught := by
  rw [h.thread]
  nofun

/-- The bitmaps of frames that are pictures. -/
theorem map_some_filterMap (h : ∀ frame ∈ done, decodeStream frame ≠ none) :
    (done.filterMap decodeStream).map some = done.map decodeStream := by
  induction done with
  | nil => rfl
  | cons frame done ih =>
    obtain ⟨bm, hbm⟩ := Option.ne_none_iff_exists'.mp (h frame List.mem_cons_self)
    rw [List.filterMap_cons_some hbm, List.map_cons, List.map_cons, hbm,
      ih fun f hf => h f (List.mem_cons_of_mem frame hf)]

/-- What has been drawn, without the empty canvases. -/
theorem Shows.drawn (h : Shows decodeStream done rest blanks view) :
    view.drawn.map some = done.map decodeStream := by
  unfold MjpegView.drawn
  rw [h.posted, List.reduceOption_append, List.reduceOption_replicate_none, List.append_nil]
  unfold List.reduceOption
  rw [List.filterMap_map]
  exact map_some_filterMap h.pictures

/-- As many pictures have been drawn as frames have been read. -/
theorem Shows.length (h : Shows decodeStream done rest blanks view) :
    view.drawn.length = done.length := by
  have := congrArg List.length h.drawn
  rwa [List.length_map, List.length_map] at this

/-- Before the end of the stream every canvas of a living thread has its picture. -/
theorem Shows.blanks_eq (h : Shows decodeStream done (frame :: rest) blanks view)
    (hplaying : view.Playing) : blanks = 0 := by
  by_contra hblanks
  rcases h.blank hblanks with hnil | hdied
  · cases hnil
  · exact hplaying.lives hdied

/-- A new view has shown nothing. -/
theorem shows_setSource (hahead : Ahead source.src source.input.pos rest) :
    Shows decodeStream [] rest 0 (init.setSource (some source)) where
  posted := rfl
  pictures := nofun
  blank := nofun
  still _ := rfl
  ahead _ := ⟨source, rfl, hahead⟩
  died := nofun

/-- The callbacks of the surface post nothing, -/
theorem Shows.surfaceCreated (h : Shows decodeStream done rest blanks view) :
    Shows decodeStream done rest blanks view.surfaceCreated :=
  ⟨h.posted, h.pictures, h.blank, h.still, h.ahead, h.died⟩

/-- A thread that returns leaves the screen as it is. -/
theorem Shows.returned (h : Shows decodeStream done rest blanks view)
    (hrunning : view.thread = .running) (mRun surfaceDone : Bool) :
    Shows decodeStream done rest blanks
      { view with mRun := mRun, surfaceDone := surfaceDone, thread := .returned } where
  posted := h.posted
  pictures := h.pictures
  blank hblanks := by
    rcases h.blank hblanks with hnil | hdied
    · exact .inl hnil
    · rw [hrunning] at hdied
      cases hdied
  still _ := h.still (by rw [hrunning]; nofun)
  ahead _ := h.ahead (by rw [hrunning]; nofun)
  died := nofun

/-- neither when it comes nor when it goes. -/
theorem Shows.surfaceDestroyed (h : Shows decodeStream done rest blanks view) :
    Shows decodeStream done rest blanks view.surfaceDestroyed := by
  unfold MjpegView.surfaceDestroyed stopPlayback
  by_cases hrunning : view.thread = .running
  · rw [if_pos hrunning]
    exact h.returned hrunning false false
  · rw [if_neg hrunning]
    exact ⟨h.posted, h.pictures, h.blank, h.still, h.ahead, h.died⟩

/-- A round of a playing thread reads one frame and posts one canvas. -/
theorem round_playing (hplaying : view.Playing) (hsource : view.mIn = some source) :
    view.round decodeStream =
      drawFrame source view (readMjpegFrame source.src decodeStream source.input) := by
  unfold round
  rw [if_neg (not_not.mpr hplaying.thread), hplaying.mRun, hplaying.surfaceDone, hsource]
  rfl

/-- A round at the end of the stream posts an empty canvas. -/
theorem Shows.round_nil (h : Shows decodeStream done [] blanks view) (hplaying : view.Playing) :
    Shows decodeStream done [] (blanks + 1) (view.round decodeStream) ∧
      (view.round decodeStream).Playing ∧
      (view.round decodeStream).posted = view.posted ++ [none] := by
  obtain ⟨source, hsource, hahead⟩ := h.ahead hplaying.lives
  obtain ⟨input, hcall, hahead'⟩ := readMjpegFrame_ahead_nil decodeStream hahead
  rw [round_playing hplaying hsource, hcall]
  refine ⟨⟨?_, h.pictures, fun _ => .inl rfl, h.still, fun _ => ⟨_, rfl, hahead'⟩, h.died⟩,
    ⟨hplaying.thread, hplaying.mRun, hplaying.surfaceDone⟩, rfl⟩
  show view.posted ++ [none] = _
  rw [h.posted, List.append_assoc, List.replicate_succ']

/-- A round draws the next frame, and posts it. -/
theorem Shows.round_some (h : Shows decodeStream done (frame :: rest) blanks view)
    (hplaying : view.Playing) {bm : Bitmap} (hbm : decodeStream frame = some bm) :
    Shows decodeStream (done ++ [frame]) rest 0 (view.round decodeStream) ∧
      (view.round decodeStream).Playing ∧
      (view.round decodeStream).posted = view.posted ++ [decodeStream frame] := by
  have hlives := hplaying.lives
  obtain rfl := h.blanks_eq hplaying
  obtain ⟨source, hsource, hahead⟩ := h.ahead hlives
  obtain ⟨input, hcall, hahead'⟩ := readMjpegFrame_ahead decodeStream hahead
  rw [round_playing hplaying hsource, hcall, hbm]
  refine ⟨⟨?_, ?_, fun hblanks => absurd rfl hblanks, fun _ => ?_, fun _ => ⟨_, rfl, hahead'⟩,
    fun hdied => absurd hdied hlives⟩,
    ⟨hplaying.thread, hplaying.mRun, hplaying.surfaceDone⟩, rfl⟩
  · show view.posted ++ [some bm] = _
    rw [h.posted, List.map_append, List.map_singleton, hbm, List.replicate_zero,
      List.append_nil, List.append_nil]
  · intro f hf
    rcases List.mem_append.mp hf with hf | hf
    · exact h.pictures f hf
    · rw [List.mem_singleton.mp hf, hbm]
      nofun
  · show some bm = _
    rw [List.getLast?_concat]
    exact hbm.symm

/-- A frame that is no picture ends the thread, after the post of an empty canvas. -/
theorem Shows.round_none (h : Shows decodeStream done (frame :: rest) blanks view)
    (hplaying : view.Playing) (hnone : decodeStream frame = none) :
    Shows decodeStream done (frame :: rest) 1 (view.round decodeStream) := by
  obtain rfl := h.blanks_eq hplaying
  obtain ⟨source, hsource, hahead⟩ := h.ahead hplaying.lives
  obtain ⟨input, hcall, -⟩ := readMjpegFrame_ahead decodeStream hahead
  rw [round_playing hplaying hsource, hcall, hnone]
  -- the post of the `finally` block comes before the thread dies
  refine ⟨?_, h.pictures, fun _ => .inr rfl, fun hne => absurd rfl hne,
    fun hne => absurd rfl hne, fun _ => ⟨frame, rest, rfl, hnone⟩⟩
  show view.posted ++ [none] = _
  rw [h.posted, List.append_assoc]
  rfl

/-- **A round draws the next frame or nothing.** -/
theorem Shows.round (h : Shows decodeStream done rest blanks view) :
    ∃ more rest' blanks', rest = more ++ rest' ∧
      Shows decodeStream (done ++ more) rest' blanks' (view.round decodeStream) := by
  -- a round in which nothing is read
  have hsame : ∀ {blanks' : Nat} {view' : MjpegView Bitmap},
      Shows decodeStream done rest blanks' view' → ∃ more rest' blanks', rest = more ++ rest' ∧
        Shows decodeStream (done ++ more) rest' blanks' view' := by
    intro blanks' view' h'
    exact ⟨[], rest, blanks', rfl, by rwa [List.append_nil]⟩
  by_cases hthread : view.thread = .running
  · cases hrun : view.mRun with
    | false =>
      -- `stopPlayback` has been called
      have hround : view.round decodeStream = { view with thread := .returned } := by
        unfold MjpegView.round
        rw [if_neg (not_not.mpr hthread), if_pos hrun]
      rw [hround]
      exact hsame (h.returned hthread view.mRun view.surfaceDone)
    | true =>
      cases hdone : view.surfaceDone with
      | false =>
        -- there is no surface
        have hround : view.round decodeStream = view := by
          unfold MjpegView.round
          rw [if_neg (not_not.mpr hthread), hrun, hdone]
          rfl
        rw [hround]
        exact hsame h
      | true =>
        have hplaying : view.Playing := ⟨hthread, hrun, hdone⟩
        cases rest with
        | nil => exact hsame (h.round_nil hplaying).1
        | cons frame rest =>
          cases hbm : decodeStream frame with
          | none => exact hsame (h.round_none hplaying hbm)
          | some bm => exact ⟨[frame], rest, 0, rfl, (h.round_some hplaying hbm).1⟩
  · have hround : view.round decodeStream = view := if_pos hthread
    rw [hround]
    exact hsame h

/-- Rounds draw frame after frame, and post empty canvases once there is no more. -/
theorem Shows.posted_run (h : Shows decodeStream done rest blanks view)
    (hplaying : view.Playing) (hpictures : ∀ frame ∈ rest, decodeStream frame ≠ none) (n : Nat) :
    (Runs.run (step decodeStream) view (List.replicate n .round)).posted =
      view.posted ++ (rest.take n).map decodeStream ++
        List.replicate (n - rest.length) none := by
  -- on the rounds; each takes the next frame off `rest`
  induction n generalizing view done rest blanks with
  | zero => simp [Runs.run]
  | succ n ih =>
    rw [List.replicate_succ]
    show (Runs.run _ (view.round decodeStream) _).posted = _
    cases rest with
    | nil =>
      obtain ⟨hround, hplaying', hposted⟩ := h.round_nil hplaying
      rw [ih hround hplaying' hpictures, hposted]
      simp [List.replicate_succ]
    | cons frame rest =>
      obtain ⟨bm, hbm⟩ := Option.ne_none_iff_exists'.mp (hpictures frame List.mem_cons_self)
      obtain ⟨hround, hplaying', hposted⟩ := h.round_some hplaying hbm
      rw [ih hround hplaying' fun f hf => hpictures f (List.mem_cons_of_mem frame hf), hposted]
      simp

end Rounds

/-- What has been posted, of the frames that have arrived: the first of them, in order, and
after them canvases with nothing drawn, once all frames are drawn or the thread has died. -/
structure Showed (decodeStream : List UInt8 → Option Bitmap) (frames : List (List UInt8))
    (view : MjpegView Bitmap) : Prop where
  drawn : view.drawn.map some <+: frames.map decodeStream
  posted : ∃ blanks, view.posted = view.drawn.map some ++ List.replicate blanks none ∧
    (blanks ≠ 0 → view.drawn.length = frames.length ∨ view.thread = .uncaught)
  still : view.thread ≠ .uncaught → view.still_image = view.drawn.getLast?
  died : view.thread = .uncaught →
    ∃ frame, frames[view.drawn.length]? = some frame ∧ decodeStream frame = none

/-- The invariant gives what is seen from outside. -/
theorem Shows.showed {decodeStream : List UInt8 → Option Bitmap} {done rest : List (List UInt8)}
    {blanks : Nat} {view : MjpegView Bitmap} (h : Shows decodeStream done rest blanks view) :
    Showed decodeStream (done ++ rest) view where
  drawn := by
    rw [h.drawn, List.map_append]
    exact List.prefix_append _ _
  posted := by
    refine ⟨blanks, by rw [h.drawn]; exact h.posted, fun hblanks => ?_⟩
    rcases h.blank hblanks with rfl | hdied
    · rw [List.append_nil]
      exact .inl h.length
    · exact .inr hdied
  still hlives := by
    have hlast := congrArg List.getLast? h.drawn
    rw [List.getLast?_map, List.getLast?_map] at hlast
    rw [h.still hlives]
    cases hdone : done.getLast? with
    | none =>
      rw [hdone] at hlast
      exact (Option.map_eq_none_iff.mp hlast).symm
    | some frame =>
      rw [hdone] at hlast
      obtain ⟨bm, hbm, hsome⟩ := Option.map_eq_some_iff.mp hlast
      rw [hbm]
      exact hsome.symm
  died hdied := by
    obtain ⟨frame, frames, rfl, hnone⟩ := h.died hdied
    refine ⟨frame, ?_, hnone⟩
    rw [h.length, List.getElem?_append_right (Nat.le_refl _), Nat.sub_self]
    rfl

/-- A view that has been given its source, after some events. -/
def after (decodeStream : List UInt8 → Option Bitmap) (source : Option InputStream)
    (es : List Event) : MjpegView Bitmap :=
  Runs.run (step decodeStream) (init.setSource source) es

/-- A view whose thread has not been started. -/
structure Blank (view : MjpegView Bitmap) : Prop where
  thread : view.thread = .new
  posted : view.posted = []
  still : view.still_image = none

/-- Without a source the thread is never started. -/
theorem blank_after (decodeStream : List UInt8 → Option Bitmap) (es : List Event) :
    Blank (after decodeStream none es) := by
  refine Runs.run_invariant ⟨rfl, rfl, rfl⟩ ?_ es
  intro e view h
  cases e with
  | surfaceCreated => exact ⟨h.thread, h.posted, h.still⟩
  | surfaceDestroyed =>
    refine ⟨?_, h.posted, h.still⟩
    show (if view.thread = .running then _ else view.thread) = _
    rw [h.thread]
    rfl
  | round =>
    have hround : view.round decodeStream = view := if_pos (by rw [h.thread]; nofun)
    rw [step, hround]
    exact h

variable {decodeStream : List UInt8 → Option Bitmap} {bs : List UInt8}
  {frames : List (List UInt8)}

/-- After any events the frames are divided into those drawn and those to come. -/
theorem shows_after (decodeStream : List UInt8 → Option Bitmap) (h : Arrives bs frames)
    (es : List Event) :
    ∃ done rest blanks, frames = done ++ rest ∧
      Shows decodeStream done rest blanks (after decodeStream (some (.ofList bs)) es) :=
  Runs.run_invariant (P := fun view => ∃ done rest blanks, frames = done ++ rest ∧
      Shows decodeStream done rest blanks view)
    ⟨[], frames, 0, rfl, shows_setSource (ahead_ofList h)⟩
    (fun e view ⟨done, rest, blanks, hsplit, hshows⟩ => by
      -- only a round reads
      cases e with
      | surfaceCreated => exact ⟨done, rest, blanks, hsplit, hshows.surfaceCreated⟩
      | surfaceDestroyed => exact ⟨done, rest, blanks, hsplit, hshows.surfaceDestroyed⟩
      | round =>
        obtain ⟨more, rest', blanks', rfl, hround⟩ := hshows.round
        exact ⟨done ++ more, rest', blanks', by rw [hsplit, List.append_assoc], hround⟩)
    es

/-- **The screen shows the frames that have arrived whole, in order, and no other picture**,
whatever the surface does and wherever the stream ends. Empty canvases come after the last of
them only, or when the thread has died, which it does on nothing but a frame that is no
picture. -/
theorem showed_after (h : Arrives bs frames) (es : List Event) :
    Showed decodeStream frames (after decodeStream (some (.ofList bs)) es) := by
  obtain ⟨done, rest, blanks, rfl, hshows⟩ := shows_after decodeStream h es
  exact hshows.showed

/-- **While the surface is there no frame is left out**: if all of them are pictures, each
round posts the next one, and after the last one that has arrived, an empty canvas. -/
theorem posted_rounds (h : Arrives bs frames) (hpictures : ∀ frame ∈ frames,
    decodeStream frame ≠ none) (es : List Event)
    (hplaying : (after decodeStream (some (.ofList bs)) es).Playing) (n : Nat) :
    let view := after decodeStream (some (.ofList bs)) es
    (after decodeStream (some (.ofList bs)) (es ++ List.replicate n .round)).posted =
      view.posted ++ ((frames.drop view.drawn.length).take n).map decodeStream ++
        List.replicate (n - (frames.length - view.drawn.length)) none := by
  intro view
  obtain ⟨done, rest, blanks, rfl, hshows⟩ := shows_after decodeStream h es
  have hshows : Shows decodeStream done rest blanks view := hshows
  have hrest : ∀ frame ∈ rest, decodeStream frame ≠ none := fun frame hframe =>
    hpictures frame (List.mem_append_right _ hframe)
  have hrun : after decodeStream (some (.ofList bs)) (es ++ List.replicate n .round) =
      Runs.run (step decodeStream) view (List.replicate n .round) := Runs.run_append _ _ _
  rw [hrun, hshows.posted_run hplaying hrest n, hshows.length, List.drop_left,
    List.length_append, Nat.add_sub_cancel_left]

/-! ### Two pictures, and the first byte of a third part -/

/-- The header line of a picture of two bytes. -/
def lengthTwo : Part where
  header := bytes ['C', 'o', 'n', 't', 'e', 'n', 't', '-', 'L', 'e', 'n', 'g', 't', 'h', '=', '2',
    '\n']
  frame := [0xFF, 0xD8]
  ascii := by decide +kernel
  header_le := by decide +kernel
  start := ⟨[], rfl⟩
  length := by decide +kernel

/-- A stream of two parts. -/
def twoParts : List UInt8 := lengthTwo.bytes ++ (lengthTwo.bytes ++ [67])

/-- Both parts arrive whole. -/
theorem arrives_two : Arrives twoParts [[0xFF, 0xD8], [0xFF, 0xD8]] :=
  .part lengthTwo (.part lengthTwo (.silent (silent_of_notMem (by decide) (by decide))))

/-- Two pictures, and an empty canvas for the round at the end of the stream. -/
theorem showed_two :
    let view := after some (some (.ofList twoParts))
      [.round, .surfaceCreated, .round, .round, .round, .surfaceDestroyed, .round]
    Showed some [[0xFF, 0xD8], [0xFF, 0xD8]] view ∧
      view.posted = [some [0xFF, 0xD8], some [0xFF, 0xD8], none] :=
  ⟨showed_after arrives_two _, by decide +kernel⟩

/-- Three rounds for two pictures, one of which has been drawn before. -/
theorem posted_rounds_two :
    (after some (some (.ofList twoParts))
      ([.surfaceCreated, .round] ++ List.replicate 3 .round)).posted =
      [some [0xFF, 0xD8], some [0xFF, 0xD8], none, none] := by
  have hpictures : ∀ frame ∈ [[0xFF, 0xD8], [0xFF, 0xD8]],
      some frame ≠ (none : Option (List UInt8)) := fun _ _ => nofun
  have hplaying : (after some (some (.ofList twoParts)) [.surfaceCreated, .round]).Playing :=
    ⟨by decide +kernel, by decide +kernel, by decide +kernel⟩
  have hposted : (after some (some (.ofList twoParts)) [.surfaceCreated, .round]).posted =
      [some [0xFF, 0xD8]] := by decide +kernel
  have hrounds := posted_rounds arrives_two hpictures [.surfaceCreated, .round] hplaying 3
  dsimp only [drawn] at hrounds
  rw [hposted] at hrounds
  exact hrounds

end MjpegView

end ProjZ
