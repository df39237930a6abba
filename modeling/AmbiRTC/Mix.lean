/-
AmbiRTC/Mix.lean

The mix clock of a room (mcu/internal/room/room.go).  Each tick it reads one
input frame from every member of the roster, adds them up channel by channel in
`int32`, and submits to each member that sum less the member's own frame,
clamped to `int16`.

The clock owns the accumulator, the output frame and one input buffer per
member; all three are reused from tick to tick, and the input buffers fall to
other members whenever the roster or its order changes.  The wall clock (when a
tick fires, how late) and the log are left out.
-/
import AmbiRTC.Runs
import Mathlib.Algebra.Group.Defs

namespace AmbiRTC

/-- `channels × frameSize` samples. -/
abbrev Frame (α : Type) (channels frameSize : ℕ) := Vector (Vector α frameSize) channels

/-- `makeI16`, `makeI32`: a frame of zeros. -/
def makeFrame {α : Type} [Zero α] (channels frameSize : ℕ) : Frame α channels frameSize :=
  Vector.replicate channels (Vector.replicate frameSize 0)

variable {C F : ℕ}

/-! ### Members -/

/-- A member of the roster as one tick sees it (`Participant`).  Its
`ReadInputFrame` returns `ready` and leaves `readInputFrame buf` in the buffer
`buf` it is given; if it returns true it has overwritten every sample. -/
structure Participant (C F : ℕ) where
  id : String
  isRecording : Bool
  /-- the member's input frame of this tick -/
  input : Frame Int16 C F
  ready : Bool
  readInputFrame : Frame Int16 C F → Frame Int16 C F
  overwrites : ready = true → ∀ buf, readInputFrame buf = input

/-- What `SubmitMix` is called with, and on whom. -/
structure Submission (C F : ℕ) where
  member : String
  pcm : Frame Int16 C F
  frameTs : UInt32
  isRec : Bool
  deriving DecidableEq

/-! ### Adding up -/

/-- Set every sample of a frame to zero, in place. -/
def clear {α : Type} [Zero α] (buf : Frame α C F) : Frame α C F :=
  buf.map fun row => row.map fun _ => 0

/-- `ac[s] += int32(sc[s])` for every sample. -/
def addInto (acc : Frame Int32 C F) (buf : Frame Int16 C F) : Frame Int32 C F :=
  acc.mapFinIdx fun c ac hc => ac.mapFinIdx fun s a hs => a + (buf[c][s]).toInt32

/-- The member loop of `accumulate`: who was ready, the input buffers and the
sum afterwards.  `none` is an index out of range. -/
def accumulateFrom : List (Participant C F) → List (Frame Int16 C F) → Frame Int32 C F →
    Option (ℕ × List (Frame Int16 C F) × Frame Int32 C F)
  | [], inbufs, acc => some (0, inbufs, acc)
  | _ :: _, [], _ => none
  | m :: members, buf :: inbufs, acc => do
    let buf := m.readInputFrame buf
    if m.ready then
      let (ready, inbufs, acc) ← accumulateFrom members inbufs (addInto acc buf)
      return (ready + 1, buf :: inbufs, acc)
    else
      let (ready, inbufs, acc) ← accumulateFrom members inbufs acc
      return (ready, clear buf :: inbufs, acc)

/-- `accumulate`. -/
def accumulate (members : List (Participant C F)) (inbufs : List (Frame Int16 C F))
    (acc : Frame Int32 C F) : Option (ℕ × List (Frame Int16 C F) × Frame Int32 C F) :=
  accumulateFrom members inbufs (clear acc)

/-! ### Subtracting and clamping -/

/-- `saturate`. -/
def saturate (v : Int32) : Int16 :=
  if v > 32767 then 32767 else if v < -32768 then -32768 else v.toInt16

/-- `subtractAndSaturate`: `out` afterwards. -/
def subtractAndSaturate (acc : Frame Int32 C F) (own out : Frame Int16 C F) : Frame Int16 C F :=
  out.mapFinIdx fun c oc hc => oc.mapFinIdx fun s _ hs =>
    saturate (acc[c][s] - (own[c][s]).toInt32)

/-- The submit loop: one frame for each member, all through the one `out`. -/
def submitAll (acc : Frame Int32 C F) (mixTs : UInt32) (isRec : Bool) :
    List (Participant C F) → List (Frame Int16 C F) → Frame Int16 C F →
    Option (Frame Int16 C F × List (Submission C F))
  | [], _, out => some (out, [])
  | _ :: _, [], _ => none
  | m :: members, own :: inbufs, out => do
    let out := subtractAndSaturate acc own out
    let (out', submissions) ← submitAll acc mixTs isRec members inbufs out
    return (out', ⟨m.id, out, mixTs, isRec⟩ :: submissions)

/-! ### The mix clock -/

/-- What `mixClock` keeps between ticks, with the counters it publishes. -/
structure MixClock (C F : ℕ) where
  acc : Frame Int32 C F
  out : Frame Int16 C F
  inbufs : List (Frame Int16 C F)
  mixTs : UInt32
  ticks : UInt64
  active : ℕ
  curMixTs : UInt32

/-- The clock when it is started. -/
def newMixClock (C F : ℕ) : MixClock C F where
  acc := makeFrame C F
  out := makeFrame C F
  inbufs := []
  mixTs := 0
  ticks := 0
  active := 0
  curMixTs := 0

/-- `for len(inbufs) < len(members) { inbufs = append(inbufs, makeI16(...)) }` -/
def growInbufs (members : List (Participant C F)) (inbufs : List (Frame Int16 C F)) :
    List (Frame Int16 C F) :=
  inbufs ++ List.replicate (members.length - inbufs.length) (makeFrame C F)

/-- One tick on the roster `members`, in the order the snapshot lists it: the
clock afterwards and the frames submitted.  A tick on an empty roster does
nothing. -/
def MixClock.tick (k : MixClock C F) (members : List (Participant C F)) :
    Option (MixClock C F × List (Submission C F)) :=
  if members.length > 0 then do
    let (ready, inbufs, acc) ← accumulate members (growInbufs members k.inbufs) k.acc
    let isRec := members.any Participant.isRecording
    let (out, submissions) ← submitAll acc k.mixTs isRec members inbufs k.out
    let mixTs := k.mixTs + UInt32.ofNat F
    return ({ acc, out, inbufs, mixTs, ticks := k.ticks + 1, active := ready, curMixTs := mixTs },
      submissions)
  else some (k, [])

/-! ### Runs of ticks -/

/-- The clock with everything it has submitted, tick by tick. -/
structure Mixing (C F : ℕ) where
  clock : MixClock C F
  submitted : List (List (Submission C F))

/-- A tick, with its submissions logged. -/
def Mixing.step (x : Mixing C F) (members : List (Participant C F)) : Option (Mixing C F) := do
  let (clock, submissions) ← x.clock.tick members
  return ⟨clock, x.submitted ++ [submissions]⟩

end AmbiRTC
