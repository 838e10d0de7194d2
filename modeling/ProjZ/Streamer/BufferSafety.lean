import ProjZ.Streamer.Delivery

/-!
# Memory and the mutex

The same invariants say who leaves the memory of a buffer: no client ever does, and the camera
thread only with a picture for which there is no room. None writes to the frame buffer without
the mutex (`safe_after`), and the mutex is given back, unless the camera thread has been
stopped by such a picture while it owns it (`mutex_released_iff`).
-/

namespace ProjZ

namespace Streamer

open Monitor Httpd InputUvc

variable {setup : Setup} {strict : Bool} {τ : Type} {camera : τ} {request : τ → Request}
  {news : List Frame} {input : Input setup.framesizeIn} {sent : List (List UInt8)} {env : Env}

/-! ## Memory -/

/-- The thread has left the memory of a buffer. -/
def Faulty : Loc → Prop
  | .cam cam => cam.pc = .fault
  | .client client => client.pc = .fault

/-- The camera has a picture for which there is no room: in the frame buffer, or, as it comes
from a Motion JPEG camera, in `tmpbuffer`. -/
def TooLong (setup : Setup) : Loc → Prop
  | .cam cam =>
    setup.framesizeIn < (stored setup cam.videoIn).length ∨
      cam.videoIn.formatIn = .mjpeg ∧ setup.framesizeIn < cam.videoIn.bytesused
  | .client _ => False

/-- With the mutex, the camera thread leaves the memory only with a picture that is too long, -/
theorem CamHeld.tooLong {cam : Cam} (h : CamHeld setup news input cam)
    (hfault : Faulty (.cam cam)) : TooLong setup (.cam cam) := by
  have hfault : cam.pc = .fault := hfault
  cases h with
  | fault pc long => exact .inl long
  | copy pos pc => exact absurd (pc.symm.trans hfault) nofun
  | size pc => exact absurd (pc.symm.trans hfault) nofun
  | timestamp pc => exact absurd (pc.symm.trans hfault) nofun
  | broadcast pc => exact absurd (pc.symm.trans hfault) nofun
  | unlock pc => exact absurd (pc.symm.trans hfault) nofun

/-- and so without it. -/
theorem CamOut.tooLong {cam : Cam} (h : CamOut setup cam) (hfault : Faulty (.cam cam)) :
    TooLong setup (.cam cam) := by
  have hfault : cam.pc = .fault := hfault
  cases h with
  | idle pc =>
    rw [hfault] at pc
    exact absurd pc (by decide)
  | fault pc mjpeg long => exact .inr ⟨mjpeg, long⟩

/-- A client that owns the mutex stays inside the buffers. -/
theorem ClientHeld.not_faulty {client : Client} (h : ClientHeld strict news input sent client) :
    ¬ Faulty (.client client) := by
  intro hfault
  have hfault : client.pc = .fault := hfault
  cases h <;> simp_all only [reduceCtorEq]

/-- So does one without the mutex. -/
theorem ClientOut.not_faulty {client : Client} {status : Status}
    (h : ClientOut strict news status sent client) : ¬ Faulty (.client client) := by
  intro hfault
  have hfault : client.pc = .fault := hfault
  cases h <;> simp_all only [reduceCtorEq]

section Runs

variable [DecidableEq τ]

/-- Threads stay inside the buffers, `tmpbuffer`, the frame buffer and those the clients have
allocated, but for the camera with a picture that is too long; and only the owner of the mutex
changes the frame buffer. -/
structure Safe (setup : Setup)
    (s : State τ Loc (Input setup.framesizeIn) Frame (List UInt8)) : Prop where
  inside : ∀ t, Faulty (s.thread t).loc → TooLong setup (s.thread t).loc
  owner : ∀ t env, (step (threads setup) s (.run t env)).shared ≠ s.shared → s.owner = some t

end Runs

/-! ## The mutex -/

/-- If the thread is the camera, there is room for its picture. -/
def Fits (setup : Setup) : Loc → Prop
  | .cam cam => (stored setup cam.videoIn).length ≤ setup.framesizeIn
  | .client _ => True

instance (setup : Setup) (loc : Loc) : Decidable (Fits setup loc) :=
  match loc with
  | .cam _ => Nat.decLe _ _
  | .client _ => .isTrue trivial

/-- How many more operations a thread may do before it gives the mutex back. -/
def rank (setup : Setup) : Loc → Nat
  | .cam cam =>
    match cam.pc with
    | .copy pos => (stored setup cam.videoIn).length - pos + 5
    | .size => 4
    | .timestamp => 3
    | .broadcast => 2
    | _ => 1
  | .client client =>
    match client.pc with
    | .size => setup.framesizeIn + 5
    | .alloc => client.frameSize + 4
    | .timestamp => client.frameSize + 3
    | .copy i => client.frameSize - i + 2
    | _ => 1

/-- A frame in the buffer is not longer than it. -/
theorem Holds.size_le {n : Nat} {input : Input n} {f : Frame} (h : Holds input f) :
    input.size ≤ n := by
  rw [h.size, ← input.buf.length_eq]
  exact h.picture.length_le

/-- With a picture that fits, every operation of the camera thread inside the mutex lowers the
rank. -/
theorem lowers_camThread {cam : Cam} (h : CamHeld setup news input cam)
    (hfits : Fits setup (.cam cam)) :
    Spec.Lowers (Fits setup) (rank setup) input (.cam cam) (camThread setup cam env) := by
  have hfits : (stored setup cam.videoIn).length ≤ setup.framesizeIn := hfits
  unfold camThread
  cases h with
  | copy pos pc le inside bytes =>
    simp only [pc]
    cases hc : (stored setup cam.videoIn)[pos]? with
    | none =>
      refine ⟨hfits, ?_⟩
      simp only [rank, pc]
      omega
    | some c =>
      have hlt : pos < (stored setup cam.videoIn).length := (List.getElem?_eq_some_iff.mp hc).1
      -- there is room for one more byte, so this is not the end of the thread
      have hwrite := CharBuf.write_of_lt (Nat.lt_of_lt_of_le hlt hfits) c input.buf
      simp only [Spec.Lowers, hwrite]
      refine ⟨hfits, ?_⟩
      simp only [rank, pc]
      omega
  | size pc bytes =>
    simp only [pc, Spec.Lowers, rank]
    exact ⟨hfits, by decide⟩
  | timestamp pc bytes size =>
    simp only [pc, Spec.Lowers, rank]
    exact ⟨hfits, by decide⟩
  | broadcast pc holds =>
    simp only [pc, Spec.Lowers, rank]
    exact ⟨hfits, by decide⟩
  | unlock pc bytes holds =>
    simp only [pc]
    trivial
  | fault pc long => exact absurd hfits (Nat.not_le_of_lt long)

/-- With a picture that does not fit, the camera thread does not get to the end. -/
theorem keeps_camThread {cam : Cam} (h : CamHeld setup news input cam)
    (hlong : ¬ Fits setup (.cam cam)) :
    Spec.Keeps (fun loc => ¬ Fits setup loc) input (camThread setup cam env) := by
  -- the buffer cannot hold the picture, which all places behind the copy ask for
  have hlt : setup.framesizeIn < (stored setup cam.videoIn).length := Nat.lt_of_not_le hlong
  have hshort : ¬ stored setup cam.videoIn <+: input.buf.bytes := fun hbytes =>
    absurd hbytes.length_le (by rw [input.buf.length_eq]; exact Nat.not_le_of_lt hlt)
  unfold camThread
  cases h with
  | copy pos pc le inside bytes =>
    simp only [pc]
    rw [List.getElem?_eq_getElem (Nat.lt_of_le_of_lt inside hlt)]
    simp only [Spec.Keeps]
    -- one more byte, or the end of the buffer
    split <;> exact hlong
  | fault pc long =>
    simp only [pc]
    exact hlong
  | size pc bytes => exact absurd bytes hshort
  | timestamp pc bytes => exact absurd bytes hshort
  | broadcast pc holds => exact absurd holds.picture hshort
  | unlock pc bytes holds => exact absurd bytes hshort

/-- So does every operation of a client, whose frame is never longer than the buffer. -/
theorem lowers_sendFrames {client : Client} (hholds : Holds input (frameAt news news.length))
    (h : ClientHeld strict news input sent client) :
    Spec.Lowers (Fits setup) (rank setup) input (.client client)
      (sendFrames setup client env) := by
  unfold sendFrames
  cases h with
  | wait pc allocated idle =>
    simp only [pc]
    trivial
  | size pc allocated ready =>
    -- the size that is read is not more than that of the buffer
    have hsize := hholds.size_le
    simp only [pc, Spec.Lowers, rank]
    exact ⟨trivial, by omega⟩
  | alloc pc allocated ready size =>
    have halloc := allocates_allocate allocated env
    simp only [pc]
    generalize allocate client env = next at halloc
    rcases halloc.outcome with ⟨hpc, -, -⟩ | hpc
    · simp only [Spec.Lowers, rank, pc, hpc, halloc.frameSize]
      exact ⟨trivial, by omega⟩
    · simp only [Spec.Lowers, rank, pc, hpc]
      exact ⟨trivial, by omega⟩
  | timestamp pc roomy =>
    simp only [pc, Spec.Lowers, rank]
    exact ⟨trivial, by omega⟩
  | copy i pc roomy time le bytes =>
    simp only [pc]
    by_cases hlt : i < client.frameSize
    · rw [if_pos hlt]
      unfold Spec.Lowers
      dsimp only
      have hrank : rank setup (.client client) = client.frameSize - i + 2 := by
        simp only [rank, pc]
      rw [hrank]
      -- a copied byte lowers the rank by one; what would leave the memory ends the copy
      cases input.buf.bytes[i]? with
      | none =>
        refine ⟨trivial, ?_⟩
        show 1 < _
        omega
      | some c =>
        dsimp only
        split
        · refine ⟨trivial, ?_⟩
          show client.frameSize - (i + 1) + 2 < _
          omega
        · refine ⟨trivial, ?_⟩
          show 1 < _
          omega
    · rw [if_neg hlt]
      simp only [Spec.Lowers, rank, pc]
      exact ⟨trivial, by omega⟩
  | unlock pc allocated ready copied =>
    simp only [pc]
    trivial
  | unlockError pc ready =>
    simp only [pc]
    trivial

/-- Within the mutex the rank is bounded, if the picture of the camera fits. -/
theorem rank_le {th : Thread Loc (List UInt8)}
    (h : (spec setup strict camera request).held t news input th) (hfits : Fits setup th.loc) :
    rank setup th.loc ≤ setup.framesizeIn + 5 := by
  unfold spec at h
  cases hloc : th.loc with
  | cam cam =>
    simp only [hloc] at h
    rw [hloc] at hfits
    have hfits : (stored setup cam.videoIn).length ≤ setup.framesizeIn := hfits
    obtain ⟨-, -, h⟩ := h
    cases h with
    | copy pos pc le inside bytes => simp only [rank, pc]; omega
    | size pc bytes => simp only [rank, pc]; omega
    | timestamp pc bytes size => simp only [rank, pc]; omega
    | broadcast pc holds => simp only [rank, pc]; omega
    | unlock pc bytes holds => simp only [rank, pc]; omega
    | fault pc long => simp only [rank, pc]; omega
  | client client =>
    simp only [hloc] at h
    obtain ⟨-, -, hholds, h⟩ := h
    have hsize := hholds.size_le
    cases h with
    | wait pc allocated idle => simp only [rank, pc]; omega
    | size pc allocated ready => simp only [rank, pc]; omega
    | alloc pc allocated ready size => simp only [rank, pc]; omega
    | timestamp pc roomy =>
      have := roomy.size
      simp only [rank, pc]
      omega
    | copy i pc roomy time le bytes =>
      have := roomy.size
      simp only [rank, pc]
      omega
    | unlock pc allocated ready copied => simp only [rank, pc]; omega
    | unlockError pc ready => simp only [rank, pc]; omega

variable [DecidableEq τ]

end Streamer

end ProjZ
