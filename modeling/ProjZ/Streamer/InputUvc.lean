import ProjZ.Lib.Memory
import ProjZ.Streamer.Multipart

/-!
# Pictures from the camera

`v4l2uvc.c`: what `uvcGrab` keeps of a buffer of the driver, and `memcpy_picture`, which
copies a picture of a Motion JPEG camera. Such cameras leave out the Huffman tables, so the
copy puts the standard ones before the frame header, if `is_huffman` finds none.
-/

namespace ProjZ

namespace InputUvc

/-- The standard Huffman tables, as the JPEG segment that defines them. -/
def dhtData : List UInt8 :=
  [
    0xff, 0xc4, 0x01, 0xa2, 0x00, 0x00, 0x01, 0x05, 0x01, 0x01, 0x01, 0x01, 0x01, 0x01, 0x00, 0x00,
    0x00, 0x00, 0x00, 0x00, 0x00, 0x00, 0x01, 0x02, 0x03, 0x04, 0x05, 0x06, 0x07, 0x08, 0x09, 0x0a,
    0x0b, 0x01, 0x00, 0x03, 0x01, 0x01, 0x01, 0x01, 0x01, 0x01, 0x01, 0x01, 0x01, 0x00, 0x00, 0x00,
    0x00, 0x00, 0x00, 0x01, 0x02, 0x03, 0x04, 0x05, 0x06, 0x07, 0x08, 0x09, 0x0a, 0x0b, 0x10, 0x00,
    0x02, 0x01, 0x03, 0x03, 0x02, 0x04, 0x03, 0x05, 0x05, 0x04, 0x04, 0x00, 0x00, 0x01, 0x7d, 0x01,
    0x02, 0x03, 0x00, 0x04, 0x11, 0x05, 0x12, 0x21, 0x31, 0x41, 0x06, 0x13, 0x51, 0x61, 0x07, 0x22,
    0x71, 0x14, 0x32, 0x81, 0x91, 0xa1, 0x08, 0x23, 0x42, 0xb1, 0xc1, 0x15, 0x52, 0xd1, 0xf0, 0x24,
    0x33, 0x62, 0x72, 0x82, 0x09, 0x0a, 0x16, 0x17, 0x18, 0x19, 0x1a, 0x25, 0x26, 0x27, 0x28, 0x29,
    0x2a, 0x34, 0x35, 0x36, 0x37, 0x38, 0x39, 0x3a, 0x43, 0x44, 0x45, 0x46, 0x47, 0x48, 0x49, 0x4a,
    0x53, 0x54, 0x55, 0x56, 0x57, 0x58, 0x59, 0x5a, 0x63, 0x64, 0x65, 0x66, 0x67, 0x68, 0x69, 0x6a,
    0x73, 0x74, 0x75, 0x76, 0x77, 0x78, 0x79, 0x7a, 0x83, 0x84, 0x85, 0x86, 0x87, 0x88, 0x89, 0x8a,
    0x92, 0x93, 0x94, 0x95, 0x96, 0x97, 0x98, 0x99, 0x9a, 0xa2, 0xa3, 0xa4, 0xa5, 0xa6, 0xa7, 0xa8,
    0xa9, 0xaa, 0xb2, 0xb3, 0xb4, 0xb5, 0xb6, 0xb7, 0xb8, 0xb9, 0xba, 0xc2, 0xc3, 0xc4, 0xc5, 0xc6,
    0xc7, 0xc8, 0xc9, 0xca, 0xd2, 0xd3, 0xd4, 0xd5, 0xd6, 0xd7, 0xd8, 0xd9, 0xda, 0xe1, 0xe2, 0xe3,
    0xe4, 0xe5, 0xe6, 0xe7, 0xe8, 0xe9, 0xea, 0xf1, 0xf2, 0xf3, 0xf4, 0xf5, 0xf6, 0xf7, 0xf8, 0xf9,
    0xfa, 0x11, 0x00, 0x02, 0x01, 0x02, 0x04, 0x04, 0x03, 0x04, 0x07, 0x05, 0x04, 0x04, 0x00, 0x01,
    0x02, 0x77, 0x00, 0x01, 0x02, 0x03, 0x11, 0x04, 0x05, 0x21, 0x31, 0x06, 0x12, 0x41, 0x51, 0x07,
    0x61, 0x71, 0x13, 0x22, 0x32, 0x81, 0x08, 0x14, 0x42, 0x91, 0xa1, 0xb1, 0xc1, 0x09, 0x23, 0x33,
    0x52, 0xf0, 0x15, 0x62, 0x72, 0xd1, 0x0a, 0x16, 0x24, 0x34, 0xe1, 0x25, 0xf1, 0x17, 0x18, 0x19,
    0x1a, 0x26, 0x27, 0x28, 0x29, 0x2a, 0x35, 0x36, 0x37, 0x38, 0x39, 0x3a, 0x43, 0x44, 0x45, 0x46,
    0x47, 0x48, 0x49, 0x4a, 0x53, 0x54, 0x55, 0x56, 0x57, 0x58, 0x59, 0x5a, 0x63, 0x64, 0x65, 0x66,
    0x67, 0x68, 0x69, 0x6a, 0x73, 0x74, 0x75, 0x76, 0x77, 0x78, 0x79, 0x7a, 0x82, 0x83, 0x84, 0x85,
    0x86, 0x87, 0x88, 0x89, 0x8a, 0x92, 0x93, 0x94, 0x95, 0x96, 0x97, 0x98, 0x99, 0x9a, 0xa2, 0xa3,
    0xa4, 0xa5, 0xa6, 0xa7, 0xa8, 0xa9, 0xaa, 0xb2, 0xb3, 0xb4, 0xb5, 0xb6, 0xb7, 0xb8, 0xb9, 0xba,
    0xc2, 0xc3, 0xc4, 0xc5, 0xc6, 0xc7, 0xc8, 0xc9, 0xca, 0xd2, 0xd3, 0xd4, 0xd5, 0xd6, 0xd7, 0xd8,
    0xd9, 0xda, 0xe2, 0xe3, 0xe4, 0xe5, 0xe6, 0xe7, 0xe8, 0xe9, 0xea, 0xf2, 0xf3, 0xf4, 0xf5, 0xf6,
    0xf7, 0xf8, 0xf9, 0xfa]

/-- The table that is inserted. -/
theorem length_dhtData : dhtData.length = 420 := by decide +kernel

/-- The marker that begins a scan. -/
def SOS : UInt8 × UInt8 := (0xff, 0xda)

/-- The marker that defines Huffman tables. -/
def DHT : UInt8 × UInt8 := (0xff, 0xc4)

/-- The marker that begins the frame header. -/
def SOF0 : UInt8 × UInt8 := (0xff, 0xc0)

/-- The loop of `is_huffman` at distance `i`, with `n` rounds until `i` is past 2048. -/
def isHuffmanLoop (buf : Memory) : Nat → Nat → Bool
  | 0, _ => false
  | n + 1, i =>
    if buf.pair i = SOS then false
    else if buf.pair i = DHT then true
    else isHuffmanLoop buf n (i + 1)

/-- `is_huffman`: a `DHT` before the first `SOS`, among the first 2049 pairs of bytes. -/
def isHuffman (buf : Memory) : Bool := isHuffmanLoop buf 2049 0

/-- `memcpy_picture`: the bytes it writes. -/
def memcpyPicture (buf : Memory) (size : Nat) : List UInt8 :=
  if isHuffman buf = false then
    match buf.firstPair SOF0 size 0 with
    | none => []
    | some sizein => buf.read sizein ++ dhtData ++ (buf.add sizein).read (size - sizein)
  else buf.read size

/-- The pixel formats the plugin knows. -/
inductive Format where
  | mjpeg
  | rgb565
  | yuyv
deriving DecidableEq, Repr

/-- A frame from the camera that is not longer holds no picture. -/
def HEADERFRAME1 : Nat := 0xaf

/-- The fields of `struct vdIn` that the camera thread uses. `framesizeIn` is the size with
which `tmpbuffer` or `framebuffer` was allocated, `bytesused` and `timestamp` are those of its
`buf`. -/
structure VdIn where
  width : Nat
  height : Nat
  formatIn : Format
  framesizeIn : Nat
  softFramedrop : Bool
  framePeriodTime : Nat
  tmpbuffer : Memory
  framebuffer : Memory
  bytesused : Nat
  timestamp : Timeval

/-- `init_videoIn`, for the width and height that the driver has agreed to: there, and only
there, the buffers get their size. -/
def initVideoIn (width height : Nat) (formatIn : Format) (softFramedrop : Bool)
    (framePeriodTime : Nat) : VdIn where
  width := width
  height := height
  formatIn := formatIn
  framesizeIn := (width * height) <<< 1
  softFramedrop := softFramedrop
  framePeriodTime := framePeriodTime
  tmpbuffer := fun _ => 0
  framebuffer := fun _ => 0
  bytesused := 0
  timestamp := ⟨0, 0⟩

/-- `setResolution`: the buffers stay as they are. -/
def setResolution (vd : VdIn) (width height : Nat) : VdIn :=
  { vd with width := width, height := height }

/-- A buffer of the driver: the bytes in use and the time. -/
structure V4l2Buffer where
  mem : List UInt8
  timestamp : Timeval

/-- `uvcGrab`, for a buffer the driver has filled. A short Motion JPEG picture leaves the
one before in `tmpbuffer`; a long one does not fit there (`.error`), which is not checked. -/
def uvcGrab (vd : VdIn) (buf : V4l2Buffer) : Except VdIn VdIn :=
  let vd := { vd with bytesused := buf.mem.length, timestamp := buf.timestamp }
  match vd.formatIn with
  | .mjpeg =>
    if vd.bytesused ≤ HEADERFRAME1 then .ok vd
    else if vd.bytesused > vd.framesizeIn then .error vd
    else .ok { vd with tmpbuffer := vd.tmpbuffer.write buf.mem }
  | _ =>
    if vd.bytesused > vd.framesizeIn then
      .ok { vd with framebuffer := vd.framebuffer.write (buf.mem.take vd.framesizeIn) }
    else .ok { vd with framebuffer := vd.framebuffer.write buf.mem }

/-- **What a grab does to the size of the buffers, and when it leaves `tmpbuffer`.** -/
structure Grabbed (vd : VdIn) (buf : V4l2Buffer) (next : VdIn) : Prop where
  framesizeIn : next.framesizeIn = vd.framesizeIn
  formatIn : next.formatIn = vd.formatIn
  bytesused : next.bytesused = buf.mem.length

/-- **What a grab does**: it takes the picture over, or stores behind `tmpbuffer`, and that only
with Motion JPEG. -/
theorem grabbed_uvcGrab (vd : VdIn) (buf : V4l2Buffer) :
    (∃ next, uvcGrab vd buf = .ok next ∧ Grabbed vd buf next) ∨
      ∃ next, uvcGrab vd buf = .error next ∧ Grabbed vd buf next ∧
        next.formatIn = .mjpeg ∧ next.framesizeIn < next.bytesused := by
  unfold uvcGrab
  dsimp only
  cases hf : vd.formatIn with
  | mjpeg =>
    dsimp only
    by_cases hshort : buf.mem.length ≤ HEADERFRAME1
    · rw [if_pos hshort]
      exact .inl ⟨_, rfl, rfl, hf.symm, rfl⟩
    · rw [if_neg hshort]
      by_cases hlong : buf.mem.length > vd.framesizeIn
      · rw [if_pos hlong]
        exact .inr ⟨_, rfl, ⟨rfl, hf.symm, rfl⟩, rfl, hlong⟩
      · rw [if_neg hlong]
        exact .inl ⟨_, rfl, rfl, hf.symm, rfl⟩
  | rgb565 =>
    dsimp only
    split
    · exact .inl ⟨_, rfl, rfl, hf.symm, rfl⟩
    · exact .inl ⟨_, rfl, rfl, hf.symm, rfl⟩
  | yuyv =>
    dsimp only
    split
    · exact .inl ⟨_, rfl, rfl, hf.symm, rfl⟩
    · exact .inl ⟨_, rfl, rfl, hf.symm, rfl⟩

/-! ## Which pictures have tables -/

/-- Within the searched bytes, a table stands ahead of the first scan. -/
def HasTable (buf : Memory) : Prop :=
  ∃ k, buf.pair k = DHT ∧ k ≤ 2048 ∧ ∀ j, j ≤ k → buf.pair j ≠ SOS

/-- The search finds a `DHT` in reach and before any `SOS`. -/
theorem isHuffmanLoop_iff (buf : Memory) (n i : Nat) :
    isHuffmanLoop buf n i = true ↔
      ∃ k, i ≤ k ∧ k < i + n ∧ buf.pair k = DHT ∧ ∀ j, i ≤ j → j ≤ k → buf.pair j ≠ SOS := by
  have hmarkers : DHT ≠ SOS := by decide
  -- on the rounds that are left; each looks at one pair
  induction n generalizing i with
  | zero =>
    refine ⟨nofun, ?_⟩
    rintro ⟨k, hik, hlt, -⟩
    exact absurd hik (by omega)
  | succ n ih =>
    unfold isHuffmanLoop
    by_cases hsos : buf.pair i = SOS
    · rw [if_pos hsos]
      refine ⟨nofun, ?_⟩
      rintro ⟨k, hik, -, -, hnone⟩
      exact absurd hsos (hnone i (Nat.le_refl i) hik)
    · rw [if_neg hsos]
      by_cases hdht : buf.pair i = DHT
      · rw [if_pos hdht]
        refine ⟨fun _ => ⟨i, Nat.le_refl i, by omega, hdht, ?_⟩, fun _ => rfl⟩
        intro j hij hji
        rw [Nat.le_antisymm hji hij]
        exact hsos
      · rw [if_neg hdht]
        -- neither marker: the search goes on one byte further
        refine (ih (i + 1)).trans ?_
        constructor
        · rintro ⟨k, hik, hlt, hk, hnone⟩
          refine ⟨k, by omega, by omega, hk, ?_⟩
          intro j hij hjk
          rcases Nat.eq_or_lt_of_le hij with heq | hj
          · rw [← heq]
            exact hsos
          · exact hnone j hj hjk
        · rintro ⟨k, hik, hlt, hk, hnone⟩
          -- pair `i` is no table, so the table is behind it
          have hne : i ≠ k := by
            rintro rfl
            exact hdht hk
          exact ⟨k, by omega, by omega, hk, fun j hij hjk => hnone j (by omega) hjk⟩

/-- In reach is what `HasTable` says. -/
theorem isHuffman_iff {buf : Memory} : isHuffman buf = true ↔ HasTable buf := by
  unfold isHuffman
  rw [isHuffmanLoop_iff]
  constructor
  · rintro ⟨k, -, hlt, hk, hnone⟩
    exact ⟨k, hk, by omega, fun j hjk => hnone j (Nat.zero_le j) hjk⟩
  · rintro ⟨k, hk, hle, hnone⟩
    exact ⟨k, Nat.zero_le k, by omega, hk, fun j _ hjk => hnone j hjk⟩

/-! ## What is published -/

/-- The three outcomes of `memcpy_picture`. -/
inductive Copied (buf : Memory) (size : Nat) : List UInt8 → Prop where
  | plain (table : HasTable buf) : Copied buf size (buf.read size)
  | inserted (k : Nat) (bare : ¬ HasTable buf) (sof : buf.First SOF0 0 k) (lt : k < size) :
    Copied buf size (buf.read k ++ dhtData ++ (buf.add k).read (size - k))
  | dropped (bare : ¬ HasTable buf) (none : ∀ j < size, buf.pair j ≠ SOF0) : Copied buf size []

/-- The three cases of `memcpy_picture`. -/
theorem copied_memcpyPicture (buf : Memory) (size : Nat) :
    Copied buf size (memcpyPicture buf size) := by
  unfold memcpyPicture
  by_cases htable : isHuffman buf = true
  · rw [htable, if_neg (by decide)]
    exact .plain (isHuffman_iff.mp htable)
  · have hbare : ¬ HasTable buf := fun h => htable (isHuffman_iff.mpr h)
    rw [if_pos (Bool.eq_false_iff.mpr htable)]
    cases hsof : buf.firstPair SOF0 size 0 with
    | none =>
      refine .dropped hbare fun j hj => ?_
      exact Memory.firstPair_eq_none_iff.mp hsof j (Nat.zero_le j) (by omega)
    | some k =>
      obtain ⟨hfirst, hlt⟩ := Memory.firstPair_eq_some_iff.mp hsof
      exact .inserted k hbare hfirst (by omega)

section Again

variable {buf q : Memory} {size k : Nat}

/-- The bytes of a copy with tables: those before the frame header, then the tables. -/
theorem bytes_inserted (hq : q.read (buf.read k ++ dhtData ++ (buf.add k).read (size - k)).length =
    buf.read k ++ dhtData ++ (buf.add k).read (size - k)) :
    (∀ i < k, q i = buf i) ∧ q k = 0xff ∧ q (k + 1) = 0xc4 := by
  rw [List.append_assoc] at hq
  -- the output is in three parts; the first two are looked at
  obtain ⟨hhead, htail⟩ := Memory.read_append hq
  rw [Memory.length_read] at hhead htail
  obtain ⟨hdht, -⟩ := Memory.read_append htail
  have hbyte : ∀ i < dhtData.length, some (q (k + i)) = dhtData[i]? := by
    intro i hi
    have h := Memory.getElem?_read (q.add k) hi
    rw [hdht] at h
    exact h.symm
  have hfirst : dhtData[0]? = some 0xff := by decide +kernel
  have hsecond : dhtData[1]? = some 0xc4 := by decide +kernel
  refine ⟨fun i hi => Memory.eq_of_read_eq hhead hi, ?_, ?_⟩
  · have h := hbyte 0 (by rw [length_dhtData]; decide)
    rw [hfirst] at h
    exact Option.some.inj h
  · have h := hbyte 1 (by rw [length_dhtData]; decide)
    rw [hsecond] at h
    exact Option.some.inj h

/-- Whether the inserted table is found again depends on the place it was inserted at. -/
theorem hasTable_inserted_iff (hbare : ¬ HasTable buf) (hsof : buf.First SOF0 0 k)
    (hq : q.read (buf.read k ++ dhtData ++ (buf.add k).read (size - k)).length =
      buf.read k ++ dhtData ++ (buf.add k).read (size - k)) :
    HasTable q ↔ k ≤ 2048 ∧ ∀ j < k, buf.pair j ≠ SOS := by
  obtain ⟨hsame, hff, hc4⟩ := bytes_inserted hq
  -- the frame header and the tables begin with the same byte
  have hk : buf k = 0xff := congrArg Prod.fst hsof.at_
  -- the pairs ahead of the table are those of the picture, the last of them too
  have hpair : ∀ j < k, q.pair j = buf.pair j := by
    intro j hj
    have hnext : q (j + 1) = buf (j + 1) := by
      rcases Nat.eq_or_lt_of_le hj with heq | hlt
      · rw [show j + 1 = k from heq, hff, hk]
      · exact hsame (j + 1) hlt
    exact Prod.ext (hsame j hj) hnext
  have hdht : q.pair k = DHT := Prod.ext hff hc4
  constructor
  · rintro ⟨i, hi, hle, hnone⟩
    have hki : k ≤ i := by
      -- a table before the frame header would have been found the first time
      by_contra hlt
      have hlt : i < k := Nat.lt_of_not_le hlt
      refine hbare ⟨i, ?_, hle, ?_⟩
      · rw [← hpair i hlt]
        exact hi
      · intro j hj
        rw [← hpair j (Nat.lt_of_le_of_lt hj hlt)]
        exact hnone j hj
    refine ⟨Nat.le_trans hki hle, ?_⟩
    intro j hj
    rw [← hpair j hj]
    exact hnone j (Nat.le_of_lt (Nat.lt_of_lt_of_le hj hki))
  · rintro ⟨hle, hnone⟩
    refine ⟨k, hdht, hle, ?_⟩
    intro j hj
    rcases Nat.eq_or_lt_of_le hj with rfl | hlt
    · rw [hdht]
      decide
    · rw [hpair j hlt]
      exact hnone j hlt

/-- **Copying a picture that got tables once more leaves it as it is exactly if the tables
are where `is_huffman` looks for them**: within its limit, and before the first scan. -/
theorem memcpyPicture_again_iff (hbare : ¬ HasTable buf) (hsof : buf.First SOF0 0 k)
    (hlt : k < size) (hq : q.read (memcpyPicture buf size).length = memcpyPicture buf size) :
    memcpyPicture q (memcpyPicture buf size).length = memcpyPicture buf size ↔
      k ≤ 2048 ∧ ∀ j < k, buf.pair j ≠ SOS := by
  have hout : memcpyPicture buf size =
      buf.read k ++ dhtData ++ (buf.add k).read (size - k) := by
    have hfound : buf.firstPair SOF0 size 0 = some k :=
      Memory.firstPair_eq_some_iff.mpr ⟨hsof, by omega⟩
    have hhuff : isHuffman buf = false :=
      Bool.eq_false_iff.mpr fun h => hbare (isHuffman_iff.mp h)
    rw [memcpyPicture, if_pos hhuff, hfound]
  rw [hout] at hq ⊢
  refine Iff.trans ?_ (hasTable_inserted_iff hbare hsof hq)
  generalize hn : (buf.read k ++ dhtData ++ (buf.add k).read (size - k)) = out at hq
  have hpos : 420 ≤ out.length := by
    rw [← hn, List.length_append, List.length_append, Memory.length_read, length_dhtData]
    exact Nat.le_trans (Nat.le_add_left _ _) (Nat.le_add_right _ _)
  have hcopied := copied_memcpyPicture q out.length
  generalize memcpyPicture q out.length = again at hcopied
  cases hcopied with
  | plain table => exact ⟨fun _ => table, fun _ => hq⟩
  | inserted i bare sof lt =>
    refine ⟨fun heq => ?_, fun h => absurd h bare⟩
    have hlen := congrArg List.length heq
    rw [List.length_append, List.length_append, Memory.length_read, Memory.length_read,
      length_dhtData] at hlen
    omega
  | dropped bare none =>
    refine ⟨fun heq => ?_, fun h => absurd h bare⟩
    rw [← heq] at hpos
    exact absurd hpos (by decide)

end Again

/-- A picture that is two markers. -/
theorem memcpyPicture_again_tiny :
    let buf := Memory.write (fun _ => 0) [0xff, 0xd8, 0xff, 0xc0]
    let copy := Memory.write (fun _ => 0) (memcpyPicture buf 4)
    memcpyPicture copy (memcpyPicture buf 4).length = memcpyPicture buf 4 := by
  intro buf copy
  have hbare : ¬ HasTable buf := by
    rw [← isHuffman_iff]
    decide +kernel
  have hsof : buf.First SOF0 0 2 :=
    (Memory.firstPair_eq_some_iff (n := 4).mp (by decide +kernel)).1
  exact (memcpyPicture_again_iff hbare hsof (by decide) (Memory.read_write _ _)).mpr
    ⟨by decide, by decide +kernel⟩

end InputUvc

end ProjZ
