/-
AmbiRTC/Worklet.lean

The playback worklet of the client (client/worklet-receiver.js): decoded frames
are posted to it, placed in a ring by their absolute timestamp, and played in
blocks by the audio clock.  Re-anchoring and a change of the frame size empty
the ring; the prebuffer may change while it plays.

Timestamps and pointers are integers (the source's numbers stay far below
2 ^ 53).  A frame is posted as sixteen planes of equal length, which its type
says.  An index outside the ring is `none`.
-/
import AmbiRTC.Ring
import AmbiRTC.Runs
import Mathlib.Data.List.ProdSigma

namespace AmbiRTC.Playback

open Ring

variable {α : Type*}

/-- `CHANNELS`. -/
def CHANNELS : ℕ := 16

/-- `BUF_SECONDS`: ring buffer capacity. -/
def BUF_SECONDS : ℕ := 2

/-- A `frame` message: planar mono arrays, and the absolute starting sample. -/
structure PostedFrame (α : Type*) where
  timestamp : ℕ
  frameSize : ℕ
  channels : Fin CHANNELS → Fin frameSize → α

/-- What the worklet posts to the main thread. -/
inductive Notice (α : Type*) where
  | recycle (buffers : PostedFrame α)
  | underrun
  | depth (samples : ℤ)

/-- `ReceiverProcessor`. -/
structure ReceiverProcessor (α : Type*) where
  /-- `bufLen * CHANNELS` samples, interleaved -/
  buf : List α
  bufLen : ℕ
  /-- highest sample timestamp written + 1 -/
  writeTs : ℤ
  /-- next sample timestamp to read for playback -/
  readTs : ℤ
  /-- timestamp of the first frame received; -1 until anchored -/
  initTs : ℤ
  started : Bool
  frameSize : ℕ
  prebuffer : ℕ
  isUnderrunning : Bool
  depthTick : ℕ

namespace ReceiverProcessor

/-! ### Set-up -/

section Setup

variable [Zero α]

/-- The constructor; `prebuffer` is a tenth of a second, rounded up. -/
def new (α : Type*) [Zero α] (sampleRate : ℕ) : ReceiverProcessor α where
  buf := List.replicate (sampleRate * BUF_SECONDS * CHANNELS) 0
  bufLen := sampleRate * BUF_SECONDS
  writeTs := 0
  readTs := 0
  initTs := -1
  started := false
  frameSize := 960
  prebuffer := (sampleRate + 9) / 10
  isUnderrunning := false
  depthTick := 0

/-- The playback state before any frame: both resets below end with it. -/
def reset (w : ReceiverProcessor α) : ReceiverProcessor α :=
  { w with
    started := false, initTs := -1, writeTs := 0, readTs := 0
    buf := List.replicate w.buf.length 0 }

/-- A `reanchor` message. -/
def reanchor (w : ReceiverProcessor α) : ReceiverProcessor α :=
  { w.reset with isUnderrunning := false }

/-- A `config` message; a frame size that differs resets the playback state. -/
def config (w : ReceiverProcessor α) (frameSize prebuffer : Option ℕ) : ReceiverProcessor α :=
  let needsReset := frameSize.any (· ≠ w.frameSize)
  let w := if needsReset then { w with frameSize := frameSize.getD w.frameSize } else w
  let w := { w with prebuffer := prebuffer.getD w.prebuffer }
  if needsReset then w.reset else w

end Setup

/-! ### _writeFrame -/

/-- Anchor the ring buffer origin to the first frame's timestamp. -/
def anchor (w : ReceiverProcessor α) (timestamp : ℤ) : ReceiverProcessor α :=
  if w.initTs < 0 then { w with initTs := timestamp, readTs := timestamp, writeTs := timestamp }
  else w

/-- The loops of `_writeFrame`, over the samples and channels still to write. -/
def writeSamples (bufLen : ℕ) (f : PostedFrame α) :
    List (Fin f.frameSize × Fin CHANNELS) → List α → Option (List α)
  | [], buf => some buf
  | (s, c) :: rest, buf => do
    let pos := ((f.timestamp : ℤ) + s.val).tmod bufLen * CHANNELS
    let buf ← store buf (pos + c.val) (f.channels c s)
    writeSamples bufLen f rest buf

/-- Advance the write timestamp. -/
def advance (w : ReceiverProcessor α) (newWriteTs : ℤ) : ReceiverProcessor α :=
  if newWriteTs > w.writeTs then { w with writeTs := newWriteTs } else w

/-- Occupancy above this makes the read pointer snap. -/
def maxDepth (w : ReceiverProcessor α) : ℤ := w.prebuffer + 6 * w.frameSize

/-- The latency cap. -/
def snap (w : ReceiverProcessor α) : ReceiverProcessor α :=
  if w.writeTs - w.readTs > w.maxDepth then
    { w with readTs := w.writeTs - (w.prebuffer + 2 * w.frameSize) }
  else w

/-- Begin playback only once the prebuffer threshold is reached. -/
def start (w : ReceiverProcessor α) : ReceiverProcessor α :=
  if !w.started ∧ w.writeTs - w.readTs ≥ w.prebuffer then { w with started := true } else w

/-- `_writeFrame`: the worklet afterwards, and what it posts. -/
def writeFrame (w : ReceiverProcessor α) (f : PostedFrame α) :
    Option (ReceiverProcessor α × List (Notice α)) := do
  let w := w.anchor f.timestamp
  let buf ← writeSamples w.bufLen f (List.finRange f.frameSize ×ˢ List.finRange CHANNELS) w.buf
  return (({ w with buf := buf }.advance (f.timestamp + f.frameSize)).snap.start, [.recycle f])

/-! ### process -/

/-- `if (c < out.length) out[c][s] = buf[i]`. -/
def copyOut (buf : List α) (i : ℤ) (c s : ℕ) (out : List (List α)) : Option (List (List α)) :=
  if c < out.length then (load buf i).map (setPlaneSample out c s) else some out

/-- The loops of `process`, over the samples and channels still to play: copy
the sample to the output and clear its slot. -/
def playSamples [Zero α] (bufLen : ℕ) (readTs : ℤ) :
    List (ℕ × Fin CHANNELS) → List α → List (List α) → Option (List α × List (List α))
  | [], buf, out => some (buf, out)
  | (s, c) :: rest, buf, out => do
    let pos := (readTs + s).tmod bufLen * CHANNELS
    let out ← copyOut buf (pos + c.val) c.val s out
    let buf ← store buf (pos + c.val) 0
    playSamples bufLen readTs rest buf out

/-- Count the block, and report the ring occupancy every 180 blocks. -/
def tick (w : ReceiverProcessor α) : ReceiverProcessor α × List (Notice α) :=
  if w.depthTick + 1 ≥ 180 then ({ w with depthTick := 0 }, [.depth (w.writeTs - w.readTs)])
  else ({ w with depthTick := w.depthTick + 1 }, [])

/-- `process`: the worklet and the outputs afterwards, and what it posts.
Without an output plane the source throws. -/
def process [Zero α] (w : ReceiverProcessor α) (out : List (List α)) :
    Option (ReceiverProcessor α × List (List α) × List (Notice α)) := do
  let blockSize := (← out.head?).length
  if !w.started then return (w, out, [])
  else if w.writeTs - w.readTs < blockSize then
    if !w.isUnderrunning then return ({ w with isUnderrunning := true }, out, [.underrun])
    else return (w, out, [])
  else
    let (buf, out) ←
      playSamples w.bufLen w.readTs (List.range blockSize ×ˢ List.finRange CHANNELS) w.buf out
    let (w, posts) := tick
      { w with isUnderrunning := false, buf := buf, readTs := w.readTs + blockSize }
    return (w, out, posts)

/-! ### Messages and blocks -/

/-- A message of the main thread, or a block of the audio clock. -/
inductive Call (α : Type*) where
  | frame (f : PostedFrame α)
  | reanchor
  | config (frameSize prebuffer : Option ℕ)
  | process (out : List (List α))

/-- The worklet after a message or a block. -/
def call [Zero α] (w : ReceiverProcessor α) : Call α → Option (ReceiverProcessor α)
  | .frame f => (w.writeFrame f).map Prod.fst
  | .reanchor => some w.reanchor
  | .config frameSize prebuffer => some (w.config frameSize prebuffer)
  | .process out => (w.process out).map Prod.fst

/-- The sample the ring holds for channel `c` at position `t`. -/
def held (w : ReceiverProcessor α) (t : ℤ) (c : Fin CHANNELS) : Option α :=
  cell w.bufLen CHANNELS w.buf t c.val

end ReceiverProcessor

end AmbiRTC.Playback
