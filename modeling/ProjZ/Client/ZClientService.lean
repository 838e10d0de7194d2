import ProjZ.Lib.JavaText

/-!
# `ZClientService`: the control client of the Android app

The three methods of ZClientService.java over the two streams of its socket
(`Connection`). Each runs its I/O in a thread that it joins, so a call is one
`writeBytes` and one `readLine`, one after the other. A call that does not return
normally, because `readLine` blocks or because the line makes `parseInt` or `charAt`
throw, yields `none`.

`setServos` takes any two `int`s; its one caller, `MainActivity.onTouch`, clamps them
first, so that a `Pulse` is what it can really be called with.
-/

namespace ProjZ

open Ascii JavaText

/-- `outCtlStream.writeBytes` and `inCtlStream.readLine`; `none` while it blocks. -/
structure Connection (σ : Type) where
  writeBytes : List UInt8 → σ → σ
  readLine : σ → Option (List UInt8 × σ)

namespace ZClientService

variable {σ : Type} (io : Connection σ)

/-- What every method does in its thread. -/
def request (str : List UInt8) (s : σ) : Option (List UInt8) × σ :=
  match io.readLine (io.writeBytes str s) with
  | none => (none, io.writeBytes str s)
  | some (line, s) => (some line, s)

theorem request_of_readLine {io : Connection σ} {str line : List UInt8} {s s' : σ}
    (h : io.readLine (io.writeBytes str s) = some (line, s')) :
    request io str s = (some line, s') := by
  unfold request
  rw [h]

/-- The text of `getServo` for an axis, which is upper-case already. -/
def getServoText (tmp : Char) : List UInt8 := bytes ['G', 'S', tmp]

/-- The text of `setServos`. -/
def setServosText (x y : Int) : List UInt8 :=
  bytes ['S', 'S', 'P'] ++ intToString x ++ ','.toUInt8 :: intToString y

/-- The text of `enableServos`. -/
def enableServosText (en : Bool) : List UInt8 :=
  if en then bytes ['S', 'S', 'E', '1'] else bytes ['S', 'S', 'E', '0']

/-- `getServo`: any other letter returns -1 without asking the server. -/
def getServo (a : Char) (s : σ) : Option Int × σ :=
  let tmp := a.toUpper
  if tmp = 'X' ∨ tmp = 'Y' then
    let r := request io (getServoText tmp ++ [0]) s
    (r.1.bind parseInt, r.2)
  else (some (-1), s)

theorem getServo_axis {io : Connection σ} {a tmp : Char} (htmp : tmp = 'X' ∨ tmp = 'Y')
    (ha : a.toUpper = tmp) (s : σ) :
    getServo io a s =
      ((request io (getServoText tmp ++ [0]) s).1.bind parseInt,
        (request io (getServoText tmp ++ [0]) s).2) := by
  subst ha
  exact if_pos htmp

theorem getServo_other {io : Connection σ} {a : Char} (hx : a.toUpper ≠ 'X')
    (hy : a.toUpper ≠ 'Y') (s : σ) : getServo io a s = (some (-1), s) :=
  if_neg (not_or.mpr ⟨hx, hy⟩)

/-- `enableServos`, which does not look at the line. -/
def enableServos (en : Bool) (s : σ) : Option Unit × σ :=
  let r := request io (enableServosText en ++ [0]) s
  (r.1.map fun _ => (), r.2)

/-- `setServos`; `charAt(0)` throws on an empty line. -/
def setServos (x y : Int) (s : σ) : Option Bool × σ :=
  let r := request io (setServosText x y ++ [0]) s
  (r.1.bind fun line => line.head?.map fun c => decide (c = 'T'.toUInt8), r.2)

end ZClientService

/-! ## `MainActivity` -/

/-- The two `if`s of `onTouch` on each axis. -/
def clampPulse (s : Int) : Int :=
  let s := if s < 900 then 900 else s
  if s > 2000 then 2000 else s

/-- A pulse width that `MainActivity` lets through. -/
structure Pulse where
  val : Int
  ge : 900 ≤ val
  le : val ≤ 2000

/-- The pulse width of a touch. -/
def Pulse.clamp (s : Int) : Pulse where
  val := clampPulse s
  ge := by
    unfold clampPulse
    grind
  le := by
    unfold clampPulse
    grind

/-! ## Calls -/

/-- A call of one of the methods. -/
inductive Call where
  | getServo (a : Char)
  | enableServos (en : Bool)
  | setServos (x y : Pulse)

/-- What a call can return. -/
inductive Value where
  | int (n : Int)
  | bool (b : Bool)
  | void
deriving DecidableEq, Repr

/-- Making a call. -/
def Call.perform {σ : Type} (io : Connection σ) : Call → σ → Option Value × σ
  | .getServo a, s =>
    let r := ZClientService.getServo io a s
    (r.1.map .int, r.2)
  | .enableServos en, s =>
    let r := ZClientService.enableServos io en s
    (r.1.map fun _ => .void, r.2)
  | .setServos x y, s =>
    let r := ZClientService.setServos io x.val y.val s
    (r.1.map .bool, r.2)

section Perform

variable {σ : Type} (io : Connection σ) (s : σ)

theorem Call.perform_getServo (a : Char) :
    (Call.getServo a).perform io s =
      ((ZClientService.getServo io a s).1.map .int, (ZClientService.getServo io a s).2) := rfl

theorem Call.perform_enableServos (en : Bool) :
    (Call.enableServos en).perform io s =
      ((ZClientService.enableServos io en s).1.map fun _ => .void,
        (ZClientService.enableServos io en s).2) := rfl

theorem Call.perform_setServos (x y : Pulse) :
    (Call.setServos x y).perform io s =
      ((ZClientService.setServos io x.val y.val s).1.map .bool,
        (ZClientService.setServos io x.val y.val s).2) := rfl

end Perform

end ProjZ
