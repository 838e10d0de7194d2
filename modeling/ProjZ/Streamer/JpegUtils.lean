import Mathlib.Logic.Function.Iterate
import ProjZ.Streamer.InputUvc

/-!
# Compression

`jpeg_utils.c`, around libjpeg: the lines of pixels `compress_image_to_jpeg` hands to it,
and the destination manager that takes the compressed bytes, which stores them through a
buffer of its own. What libjpeg emits for an image is a parameter.

- `pixelLines_eq`: the two-pixel groups are followed through the whole image, whatever its
  width; `staysInside_iff` tells when that stays inside the frame buffer, whose size is not
  looked at;
- `stored_compressImageToJpeg`: what is stored is what was emitted, and nothing behind it.
-/

namespace ProjZ

namespace InputUvc

/-! ## Lines of pixels -/

section Scan

variable {σ : Type} (pixel : σ → List UInt8) (next : σ → σ)

/-- The loop over a line: its bytes, and where the next line begins. -/
def scanLine : Nat → σ → List UInt8 × σ
  | 0, s => ([], s)
  | n + 1, s =>
    let (line, s') := scanLine n (next s)
    (pixel s ++ line, s')

/-- The loop over the lines. -/
def scanLines (width : Nat) : Nat → σ → List (List UInt8)
  | 0, _ => []
  | n + 1, s =>
    let (line, s') := scanLine pixel next width s
    line :: scanLines width n s'

/-- A line is its pixels, and the next line begins behind them. -/
theorem scanLine_eq (n : Nat) (s : σ) :
    scanLine pixel next n s =
      ((List.range n).flatMap fun i => pixel (next^[i] s), next^[n] s) := by
  induction n generalizing s with
  | zero => rfl
  | succ n ih =>
    rw [scanLine, ih, List.range_succ_eq_map, List.flatMap_cons, List.flatMap_map]
    rfl

/-- **The pixels of an image follow each other**, from line to line. -/
theorem scanLines_eq (width height : Nat) (s : σ) :
    scanLines pixel next width height s =
      (List.range height).map fun j =>
        (List.range width).flatMap fun i => pixel (next^[j * width + i] s) := by
  induction height generalizing s with
  | zero => rfl
  | succ height ih =>
    rw [scanLines, scanLine_eq, List.range_succ_eq_map, List.map_cons, List.map_map]
    dsimp only
    rw [ih]
    congr 1
    · simp only [Nat.zero_mul, Nat.zero_add]
    · refine List.map_congr_left fun j _ => ?_
      refine congrArg List.flatten (List.map_congr_left fun i _ => ?_)
      rw [← Function.iterate_add_apply]
      congr 2
      rw [Nat.succ_mul]
      omega

end Scan

/-- A colour value as a byte. -/
def clamp (n : Int) : UInt8 :=
  if n > 255 then 255 else if n < 0 then 0 else UInt8.ofNat n.toNat

/-- The pixel at `yuyv`, the first or (`z`) the second of its group. The shifts by 8 of the
source round down. -/
def yuyvPixel (framebuffer : Memory) (s : Nat × Bool) : List UInt8 :=
  let (yuyv, z) := s
  let y : Int :=
    if z = false then (framebuffer yuyv).toNat * 256 else (framebuffer (yuyv + 2)).toNat * 256
  let u : Int := (framebuffer (yuyv + 1)).toNat - 128
  let v : Int := (framebuffer (yuyv + 3)).toNat - 128
  let r := (y + 359 * v) / 256
  let g := (y - 88 * u - 183 * v) / 256
  let b := (y + 454 * u) / 256
  [clamp r, clamp g, clamp b]

/-- `if(z++) { z = 0; yuyv += 4; }` -/
def yuyvNext (s : Nat × Bool) : Nat × Bool :=
  let (yuyv, z) := s
  if z then (yuyv + 4, false) else (yuyv, true)

/-- The pixel at `yuyv`, which has five bits of red, six of green and five of blue. -/
def rgb565Pixel (framebuffer : Memory) (yuyv : Nat) : List UInt8 :=
  let twoByte := (framebuffer (yuyv + 1)).toNat <<< 8 + (framebuffer yuyv).toNat
  [framebuffer (yuyv + 1) &&& 248, UInt8.ofNat ((twoByte &&& 2016) >>> 3),
    (framebuffer yuyv &&& 31) * 8]

/-- `yuyv += 2` -/
def rgb565Next (yuyv : Nat) : Nat := yuyv + 2

/-- The lines `compress_image_to_jpeg` gives to `jpeg_write_scanlines`. -/
def pixelLines (vd : VdIn) : List (List UInt8) :=
  match vd.formatIn with
  | .yuyv => scanLines (yuyvPixel vd.framebuffer) yuyvNext vd.width vd.height (0, false)
  | .rgb565 => scanLines (rgb565Pixel vd.framebuffer) rgb565Next vd.width vd.height 0
  | .mjpeg => []

/-- The `n`-th pixel is in group `n / 2`. -/
theorem iterate_yuyvNext (n : Nat) :
    yuyvNext^[n] (0, false) = (4 * (n / 2), decide (n % 2 = 1)) := by
  induction n with
  | zero => rfl
  | succ n ih =>
    rw [Function.iterate_succ_apply', ih]
    by_cases hodd : n % 2 = 1
    · have hnext : ¬ (n + 1) % 2 = 1 := by omega
      rw [decide_eq_true hodd, decide_eq_false hnext]
      show (4 * (n / 2) + 4, false) = _
      rw [show 4 * ((n + 1) / 2) = 4 * (n / 2) + 4 by omega]
    · have hnext : (n + 1) % 2 = 1 := by omega
      rw [decide_eq_false hodd, decide_eq_true hnext]
      show (4 * (n / 2), true) = _
      rw [show 4 * ((n + 1) / 2) = 4 * (n / 2) by omega]

/-- RGB565 moves on by two bytes a pixel. -/
theorem iterate_rgb565Next (n : Nat) : rgb565Next^[n] 0 = 2 * n := by
  induction n with
  | zero => rfl
  | succ n ih =>
    rw [Function.iterate_succ_apply', ih]
    rfl

/-- The `n`-th pixel of an image, counted through its lines. -/
def pixelAt (vd : VdIn) (n : Nat) : List UInt8 :=
  match vd.formatIn with
  | .yuyv => yuyvPixel vd.framebuffer (4 * (n / 2), decide (n % 2 = 1))
  | .rgb565 => rgb565Pixel vd.framebuffer (2 * n)
  | .mjpeg => []

/-- **Every line has the pixels with its numbers**: the groups of two are followed through
the whole image, so that one of them may begin in a line and end in the next. -/
theorem pixelLines_eq (vd : VdIn) (h : vd.formatIn ≠ .mjpeg) :
    pixelLines vd =
      (List.range vd.height).map fun j =>
        (List.range vd.width).flatMap fun i => pixelAt vd (j * vd.width + i) := by
  unfold pixelLines pixelAt
  cases hf : vd.formatIn with
  | mjpeg => exact absurd hf h
  | yuyv =>
    simp only [scanLines_eq, iterate_yuyvNext]
  | rgb565 =>
    simp only [scanLines_eq, iterate_rgb565Next]

/-- The lines depend on the bytes of the frame buffer only, not on what lies behind it. -/
def StaysInside (vd : VdIn) : Prop :=
  ∀ fb fb' : Memory, (∀ i < vd.framesizeIn, fb i = fb' i) →
    pixelLines { vd with framebuffer := fb } = pixelLines { vd with framebuffer := fb' }

/-- A pixel depends on the four bytes of its group. -/
theorem yuyvPixel_congr {fb fb' : Memory} {yuyv yuyv' : Nat}
    (h : ∀ k ≤ 3, fb (yuyv + k) = fb' (yuyv' + k)) (z : Bool) :
    yuyvPixel fb (yuyv, z) = yuyvPixel fb' (yuyv', z) := by
  have h0 : fb yuyv = fb' yuyv' := h 0 (by decide)
  have h1 := h 1 (by decide)
  have h2 := h 2 (by decide)
  have h3 := h 3 (by decide)
  unfold yuyvPixel
  simp only [h0, h1, h2, h3]

/-- A pixel depends on its two bytes. -/
theorem rgb565Pixel_congr {fb fb' : Memory} {yuyv yuyv' : Nat} (h0 : fb yuyv = fb' yuyv')
    (h1 : fb (yuyv + 1) = fb' (yuyv' + 1)) : rgb565Pixel fb yuyv = rgb565Pixel fb' yuyv' := by
  unfold rgb565Pixel
  rw [h0, h1]

/-- Two images with the same pixels have the same lines. -/
theorem pixelLines_congr {vd vd' : VdIn} (hf : vd.formatIn ≠ .mjpeg)
    (hf' : vd'.formatIn ≠ .mjpeg) (hw : vd'.width = vd.width) (hh : vd'.height = vd.height)
    (h : ∀ n < vd.width * vd.height, pixelAt vd n = pixelAt vd' n) :
    pixelLines vd = pixelLines vd' := by
  rw [pixelLines_eq vd hf, pixelLines_eq vd' hf', hw, hh]
  refine List.map_congr_left fun j hj => ?_
  refine congrArg List.flatten (List.map_congr_left fun i hi => h _ ?_)
  have hj := List.mem_range.mp hj
  have hi := List.mem_range.mp hi
  calc j * vd.width + i < j * vd.width + vd.width := by omega
    _ = (j + 1) * vd.width := (Nat.succ_mul j vd.width).symm
    _ ≤ vd.height * vd.width := Nat.mul_le_mul_right _ hj
    _ = vd.width * vd.height := Nat.mul_comm _ _

/-- A pixel has three colours. -/
theorem length_pixelAt (vd : VdIn) (hf : vd.formatIn ≠ .mjpeg) (n : Nat) :
    (pixelAt vd n).length = 3 := by
  unfold pixelAt
  cases hfmt : vd.formatIn with
  | mjpeg => exact absurd hfmt hf
  | yuyv => rfl
  | rgb565 => rfl

/-- Texts of pieces that are as long as each other are the same only piece by piece. -/
theorem flatMap_range_inj {f g : Nat → List UInt8} (hlen : ∀ i, (f i).length = (g i).length)
    {n : Nat} (h : (List.range n).flatMap f = (List.range n).flatMap g) :
    ∀ i < n, f i = g i := by
  induction n with
  | zero => nofun
  | succ n ih =>
    rw [List.range_succ, List.flatMap_append, List.flatMap_append, List.flatMap_singleton,
      List.flatMap_singleton] at h
    obtain ⟨hinit, hlast⟩ := List.append_inj' h (hlen n)
    intro i hi
    rcases Nat.lt_succ_iff_lt_or_eq.mp hi with hlt | rfl
    · exact ih hinit i hlt
    · exact hlast

/-- Two images with the same lines have the same pixels. -/
theorem pixelAt_eq_of_pixelLines {vd vd' : VdIn} (hf : vd.formatIn ≠ .mjpeg)
    (hf' : vd'.formatIn ≠ .mjpeg) (hw : vd'.width = vd.width) (hh : vd'.height = vd.height)
    (h : pixelLines vd = pixelLines vd') {n : Nat} (hn : n < vd.width * vd.height) :
    pixelAt vd n = pixelAt vd' n := by
  have hwidth : 0 < vd.width := by
    refine Nat.pos_of_ne_zero fun hzero => ?_
    rw [hzero, Nat.zero_mul] at hn
    exact absurd hn (Nat.not_lt_zero n)
  have hj : n / vd.width < vd.height := Nat.div_lt_of_lt_mul hn
  rw [pixelLines_eq vd hf, pixelLines_eq vd' hf', hw, hh] at h
  have hline := List.map_inj_left.mp h (n / vd.width) (List.mem_range.mpr hj)
  have hpixel := flatMap_range_inj (fun i => by
    rw [length_pixelAt vd hf, length_pixelAt vd' hf']) hline (n % vd.width)
    (Nat.mod_lt n hwidth)
  have hsplit : n / vd.width * vd.width + n % vd.width = n := Nat.div_add_mod' n vd.width
  rw [hsplit] at hpixel
  exact hpixel

/-- How many bytes of the frame buffer the lines are made of: groups of four that are read as
a whole, or two for a pixel. -/
def reach (vd : VdIn) : Nat :=
  match vd.formatIn with
  | .yuyv => 4 * ((vd.width * vd.height + 1) / 2)
  | .rgb565 => 2 * (vd.width * vd.height)
  | .mjpeg => 0

/-- A memory with one byte. -/
def oneByte (n : Nat) (c : UInt8) : Memory := fun i => if i = n then c else 0

/-- The last byte is part of the last pixel: it makes it red, in both formats. -/
theorem pixelAt_oneByte {vd : VdIn} (hf : vd.formatIn ≠ .mjpeg) {n : Nat}
    (hn : n + 1 = vd.width * vd.height) :
    pixelAt { vd with framebuffer := oneByte (reach vd - 1) 0 } n ≠
      pixelAt { vd with framebuffer := oneByte (reach vd - 1) 255 } n := by
  unfold pixelAt
  dsimp only
  cases hfmt : vd.formatIn with
  | mjpeg => exact absurd hfmt hf
  | yuyv =>
    -- it is the fourth byte of the last group
    have hlast : reach vd - 1 = 4 * (n / 2) + 3 := by
      unfold reach
      rw [hfmt, ← hn]
      dsimp only
      omega
    have hbytes : ∀ c z, yuyvPixel (oneByte (4 * (n / 2) + 3) c) (4 * (n / 2), z) =
        yuyvPixel (oneByte 3 c) (0, z) := by
      intro c z
      exact yuyvPixel_congr (fun k _ => if_congr (by omega) rfl rfl) z
    rw [hlast]
    dsimp only
    rw [hbytes, hbytes]
    cases decide (n % 2 = 1) with
    | true => decide
    | false => decide
  | rgb565 =>
    -- it is the second byte of the last pixel
    have hlast : reach vd - 1 = 2 * n + 1 := by
      unfold reach
      rw [hfmt, ← hn]
      dsimp only
      omega
    have hbytes : ∀ c, rgb565Pixel (oneByte (2 * n + 1) c) (2 * n) =
        rgb565Pixel (oneByte 1 c) 0 := by
      intro c
      exact rgb565Pixel_congr (if_congr (by omega) rfl rfl) (if_congr (by omega) rfl rfl)
    rw [hlast]
    dsimp only
    rw [hbytes, hbytes]
    decide

/-- **The lines are made of bytes of the frame buffer exactly if it is as large as they
reach.** The source does not look whether it is: `framesizeIn` stays as it was when the size
of the image changes. -/
theorem staysInside_iff (vd : VdIn) : StaysInside vd ↔ reach vd ≤ vd.framesizeIn := by
  by_cases hf : vd.formatIn = .mjpeg
  · have hreach : reach vd = 0 := by
      unfold reach
      rw [hf]
    refine ⟨fun _ => hreach ▸ Nat.zero_le _, fun _ fb fb' _ => ?_⟩
    simp only [pixelLines, hf]
  constructor
  · intro hinside
    by_contra hlt
    have hsize : 0 < vd.width * vd.height := by
      refine Nat.pos_of_ne_zero fun hzero => hlt ?_
      unfold reach
      rw [hzero]
      split <;> exact Nat.zero_le _
    -- two memories that differ in the last byte only, and a last pixel that tells them apart
    obtain ⟨n, hn⟩ : ∃ n, n + 1 = vd.width * vd.height := ⟨_, Nat.sub_add_cancel hsize⟩
    have hlines := hinside (oneByte (reach vd - 1) 0) (oneByte (reach vd - 1) 255) (by
      intro i hi
      have hne : i ≠ reach vd - 1 := by omega
      unfold oneByte
      rw [if_neg hne, if_neg hne])
    have hlast : n < vd.width * vd.height := by omega
    exact pixelAt_oneByte hf hn (@pixelAt_eq_of_pixelLines
      { vd with framebuffer := oneByte (reach vd - 1) 0 }
      { vd with framebuffer := oneByte (reach vd - 1) 255 } hf hf rfl rfl hlines n hlast)
  · intro hreach fb fb' hsame
    -- no pixel is made of a byte behind the reach
    refine pixelLines_congr hf hf rfl rfl fun n hn => ?_
    have hn : n < vd.width * vd.height := hn
    unfold reach at hreach
    unfold pixelAt
    cases hfmt : vd.formatIn with
    | mjpeg => exact absurd hfmt hf
    | rgb565 =>
      simp only [hfmt] at hreach
      exact rgb565Pixel_congr (hsame _ (by omega)) (hsame _ (by omega))
    | yuyv =>
      simp only [hfmt] at hreach
      exact yuyvPixel_congr (fun k hk => hsame _ (by omega)) _

/-- As `init_videoIn` leaves the camera, that is so unless the pixels come in twos and their
number is odd. -/
theorem staysInside_initVideoIn_iff (width height : Nat) (formatIn : Format)
    (softFramedrop : Bool) (framePeriodTime : Nat) :
    StaysInside (initVideoIn width height formatIn softFramedrop framePeriodTime) ↔
      formatIn = .yuyv → width * height % 2 = 0 := by
  have hsize : (width * height) <<< 1 = width * height * 2 := Nat.shiftLeft_eq _ 1
  rw [staysInside_iff]
  unfold initVideoIn reach
  dsimp only
  rw [hsize]
  cases formatIn with
  | yuyv =>
    dsimp only
    constructor
    · intro h _
      omega
    · intro h
      have := h rfl
      omega
  | rgb565 =>
    refine ⟨fun _ => nofun, fun _ => ?_⟩
    dsimp only
    omega
  | mjpeg => exact ⟨fun _ => nofun, fun _ => Nat.zero_le _⟩

/-- After a change to a larger image, the lines go past the frame buffer. -/
theorem not_staysInside_setResolution {vd : VdIn} (hf : vd.formatIn ≠ .mjpeg)
    {width height : Nat} (hlarger : vd.framesizeIn < 2 * (width * height)) :
    ¬ StaysInside (setResolution vd width height) := by
  rw [staysInside_iff]
  unfold setResolution reach
  cases hfmt : vd.formatIn with
  | mjpeg => exact absurd hfmt hf
  | yuyv =>
    dsimp only
    omega
  | rgb565 =>
    dsimp only
    omega

/-! ## The destination manager -/

/-- The size of the buffer between libjpeg and the destination. -/
def OUTPUT_BUF_SIZE : Nat := 4096

/-- `mjpg_destination_mgr`. `next` is the distance of `next_output_byte` from the start of
`buffer`, and `cursor` that of `outbuffer_cursor` from the start of `outbuffer`. -/
structure Dest where
  buffer : Memory
  next : Nat
  free : Nat
  outbuffer : Memory
  cursor : Nat
  written : Nat

/-- `dest_buffer` -/
def destBuffer (buffer outbuffer : Memory) (written : Nat) : Dest where
  buffer := buffer
  next := 0
  free := 0
  outbuffer := outbuffer
  cursor := 0
  written := written

/-- `init_destination` -/
def initDestination (dest : Dest) : Dest :=
  { dest with written := 0, next := 0, free := OUTPUT_BUF_SIZE }

/-- `empty_output_buffer` -/
def emptyOutputBuffer (dest : Dest) : Dest :=
  { dest with
    outbuffer := dest.outbuffer.store dest.cursor (dest.buffer.read OUTPUT_BUF_SIZE)
    cursor := dest.cursor + OUTPUT_BUF_SIZE
    written := dest.written + OUTPUT_BUF_SIZE
    next := 0
    free := OUTPUT_BUF_SIZE }

/-- `term_destination` -/
def termDestination (dest : Dest) : Dest :=
  let datacount := OUTPUT_BUF_SIZE - dest.free
  { dest with
    outbuffer := dest.outbuffer.store dest.cursor (dest.buffer.read datacount)
    cursor := dest.cursor + datacount
    written := dest.written + datacount }

/-- Bytes stored at `next_output_byte`. -/
def Dest.put (dest : Dest) (bytes : List UInt8) : Dest :=
  { dest with
    buffer := dest.buffer.store dest.next bytes
    next := dest.next + bytes.length
    free := dest.free - bytes.length }

/-- How libjpeg may emit bytes through a destination manager: it stores them at
`next_output_byte`, not more than `free_in_buffer` at a time, and calls `empty_output_buffer`
when the buffer is full, and only then. -/
inductive Emitted : List UInt8 → Dest → Dest → Prop
  | nil (dest : Dest) : Emitted [] dest dest
  | put {dest dest' : Dest} {rest : List UInt8} (bytes : List UInt8)
    (fits : bytes.length < dest.free) (emitted : Emitted rest (dest.put bytes) dest') :
    Emitted (bytes ++ rest) dest dest'
  | full {dest dest' : Dest} {rest : List UInt8} (bytes : List UInt8)
    (fits : bytes.length = dest.free)
    (emitted : Emitted rest (emptyOutputBuffer (dest.put bytes)) dest') :
    Emitted (bytes ++ rest) dest dest'

/-- The contract of libjpeg with a destination manager. -/
def Emits (emit : List UInt8 → Dest → Dest) : Prop :=
  ∀ s dest, 0 < dest.free → Emitted s dest (emit s dest)

/-- What libjpeg emits for the lines of an image of this width, height and quality. -/
abbrev Jpeg := Nat → Nat → Nat → List (List UInt8) → List UInt8

/-- The bytes emitted for an image. -/
def compressed (jpeg : Jpeg) (quality : Nat) (vd : VdIn) : List UInt8 :=
  jpeg vd.width vd.height quality (pixelLines vd)

/-- `compress_image_to_jpeg`: the memory at `buffer` afterwards, and `written`. The buffer of
the destination manager and `written` start with what they hold. -/
def compressImageToJpeg (jpeg : Jpeg) (emit : List UInt8 → Dest → Dest) (quality : Nat)
    (vd : VdIn) (buffer allocated : Memory) (written : Nat) : Memory × Nat :=
  let dest := initDestination (destBuffer allocated buffer written)
  let dest := termDestination (emit (compressed jpeg quality vd) dest)
  (dest.outbuffer, dest.written)

/-- The destination manager has taken the bytes `s`; behind them, the memory is `p`. -/
structure Took (p : Memory) (s : List UInt8) (dest : Dest) : Prop where
  room : dest.next + dest.free = OUTPUT_BUF_SIZE
  written_eq : dest.written = dest.cursor
  bytes : dest.outbuffer.read dest.cursor ++ dest.buffer.read dest.next = s
  behind : ∀ i ≥ dest.cursor, dest.outbuffer i = p i

/-- The destination has taken nothing. -/
theorem took_init (allocated p : Memory) (written : Nat) :
    Took p [] (initDestination (destBuffer allocated p written)) where
  room := rfl
  written_eq := rfl
  bytes := rfl
  behind _ _ := rfl

/-- Bytes for which there is room are taken behind those before. -/
theorem Took.put {p : Memory} {s : List UInt8} {dest : Dest} (h : Took p s dest)
    {bytes : List UInt8} (hfits : bytes.length ≤ dest.free) :
    Took p (s ++ bytes) (dest.put bytes) where
  room := by
    have hroom := h.room
    show dest.next + bytes.length + (dest.free - bytes.length) = _
    omega
  written_eq := h.written_eq
  bytes := by
    show dest.outbuffer.read dest.cursor ++
      (dest.buffer.store dest.next bytes).read (dest.next + bytes.length) = _
    rw [Memory.read_store, ← List.append_assoc, h.bytes]
  behind := h.behind

/-- A full buffer goes to the destination as a whole. -/
theorem Took.emptyOutputBuffer {p : Memory} {s : List UInt8} {dest : Dest} (h : Took p s dest)
    (hfull : dest.next = OUTPUT_BUF_SIZE) : Took p s (emptyOutputBuffer dest) := by
  have hlen : (dest.buffer.read OUTPUT_BUF_SIZE).length = OUTPUT_BUF_SIZE :=
    Memory.length_read _ _
  refine ⟨rfl, congrArg (· + OUTPUT_BUF_SIZE) h.written_eq, ?_, ?_⟩
  · have hstore := Memory.read_store dest.outbuffer dest.cursor
      (dest.buffer.read OUTPUT_BUF_SIZE)
    have hbytes := h.bytes
    rw [hfull] at hbytes
    rw [hlen, hbytes] at hstore
    exact (List.append_nil _).trans hstore
  · intro i hi
    have hi : dest.cursor + OUTPUT_BUF_SIZE ≤ i := hi
    refine (Memory.store_of_ge _ (by rw [hlen]; exact hi)).trans ?_
    exact h.behind i (Nat.le_trans (Nat.le_add_right _ _) hi)

/-- Whatever is emitted is taken, in whatever pieces it comes. -/
theorem Took.emitted {p : Memory} {s cs : List UInt8} {dest dest' : Dest}
    (h : Took p s dest) (hemit : Emitted cs dest dest') : Took p (s ++ cs) dest' := by
  -- on the pieces in which libjpeg hands the bytes over
  induction hemit generalizing s with
  | nil dest =>
    rw [List.append_nil]
    exact h
  | put bytes fits emitted ih =>
    rw [← List.append_assoc]
    exact ih (h.put (Nat.le_of_lt fits))
  | @full dest dest' rest bytes fits emitted ih =>
    have hput := h.put (Nat.le_of_eq fits)
    have hfull : (dest.put bytes).next = OUTPUT_BUF_SIZE := by
      have hroom := h.room
      show dest.next + bytes.length = _
      omega
    rw [← List.append_assoc]
    exact ih (hput.emptyOutputBuffer hfull)

/-- **The compressed picture is what libjpeg emitted**: `written` is its length, the memory
at `buffer` holds it, and nothing behind it is touched. -/
structure Stored (s : List UInt8) (p : Memory) (result : Memory × Nat) : Prop where
  written_eq : result.2 = s.length
  bytes : result.1.read s.length = s
  behind : ∀ i ≥ s.length, result.1 i = p i

/-- **What libjpeg emits is what is stored**, and its length is what is returned, for any libjpeg
that keeps the contract of a destination manager. -/
theorem stored_compressImageToJpeg (jpeg : Jpeg) {emit : List UInt8 → Dest → Dest}
    (hemit : Emits emit) (quality : Nat) (vd : VdIn) (buffer allocated : Memory)
    (written : Nat) :
    Stored (compressed jpeg quality vd) buffer
      (compressImageToJpeg jpeg emit quality vd buffer allocated written) := by
  have htook := (took_init allocated buffer written).emitted
    (hemit (compressed jpeg quality vd) _ (Nat.succ_pos 4095))
  rw [List.nil_append] at htook
  unfold compressImageToJpeg
  dsimp only
  generalize emit (compressed jpeg quality vd) _ = dest at htook ⊢
  have hroom := htook.room
  have hcount : OUTPUT_BUF_SIZE - dest.free = dest.next := by omega
  have hlen : (compressed jpeg quality vd).length = dest.cursor + dest.next := by
    rw [← htook.bytes, List.length_append, Memory.length_read, Memory.length_read]
  have hread : (dest.buffer.read dest.next).length = dest.next := Memory.length_read _ _
  refine ⟨?_, ?_, ?_⟩
  · show dest.written + (OUTPUT_BUF_SIZE - dest.free) = _
    rw [hcount, htook.written_eq, hlen]
  · show (dest.outbuffer.store dest.cursor (dest.buffer.read _)).read _ = _
    have hstore := Memory.read_store dest.outbuffer dest.cursor (dest.buffer.read dest.next)
    rw [hread, htook.bytes] at hstore
    rw [hcount, hlen, hstore]
  · intro i hi
    rw [hlen] at hi
    show dest.outbuffer.store dest.cursor (dest.buffer.read _) i = _
    rw [hcount, Memory.store_of_ge _ (by rw [hread]; exact hi)]
    exact htook.behind i (Nat.le_trans (Nat.le_add_right _ _) hi)

/-- The simplest way to emit: byte by byte. -/
def emitBytes : List UInt8 → Dest → Dest
  | [], dest => dest
  | c :: cs, dest =>
    let dest := dest.put [c]
    emitBytes cs (if dest.free = 0 then emptyOutputBuffer dest else dest)

/-- Storing at `next_output_byte` is an emission. -/
theorem emits_emitBytes : Emits emitBytes := by
  intro s
  induction s with
  | nil => exact fun dest _ => .nil dest
  | cons c cs ih =>
    intro dest hfree
    unfold emitBytes
    dsimp only
    by_cases hfull : (dest.put [c]).free = 0
    · have hone : dest.free = 1 := Nat.le_antisymm (Nat.sub_eq_zero_iff_le.mp hfull) hfree
      rw [if_pos hfull]
      exact .full [c] hone.symm (ih _ (Nat.succ_pos 4095))
    · rw [if_neg hfull]
      have hpos := Nat.pos_of_ne_zero hfull
      exact .put [c] (Nat.lt_of_sub_pos hpos) (ih _ hpos)

/-- A compressor that keeps the first colour of every line. -/
def firstColours : Jpeg := fun _ _ _ lines => 0xff :: 0xd8 :: lines.map (·.headD 0)

/-- An image of 4 by 2 pixels. -/
theorem stored_firstColours :
    let vd := initVideoIn 4 2 .yuyv false 0
    Stored (compressed firstColours 75 vd) (fun _ => 0)
      (compressImageToJpeg firstColours emitBytes 75 vd (fun _ => 0) (fun _ => 1) 7) :=
  stored_compressImageToJpeg firstColours emits_emitBytes 75 _ _ _ 7

end InputUvc

end ProjZ
