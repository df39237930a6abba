/-
AmbiRTC/Jitter.lean

The jitter buffer of the MCU (mcu/internal/audio/jitter.go): a ring of
`bufLen` slots of `channels` samples, indexed by the absolute sample timestamp
modulo `bufLen`.  Channels are written one at a time (`writeChannel`), whole
frames are read out (`readFrame`).

Timestamps are `int64` in the source and never come near its bounds (a frame
timestamp is a `uint32`), so they are integers here; `%` is Go's, which
truncates.  An index out of range panics in Go and is `none` here.
-/
import AmbiRTC.Ring
import AmbiRTC.Runs

namespace AmbiRTC

open Ring

/-! ### The buffer -/

/-- `JitterBuffer`. -/
structure JitterBuffer where
  channels : ℕ
  frameSize : ℕ
  bufLen : ℕ
  prebuffer : ℤ
  maxDepth : ℤ
  /-- `bufLen * channels` samples, interleaved -/
  buf : List Int16
  /-- first frameTs seen; -1 until anchored -/
  initTs : ℤ
  writeTs : ℤ
  readTs : ℤ
  started : Bool
  underruns : UInt64
  overflows : UInt64
  deriving DecidableEq, Repr

/-- `NewJitterBuffer`; an error is the text of its panic. -/
def newJitterBuffer (channels frameSize bufLenSamples prebufferSamples : ℤ) :
    Except String JitterBuffer :=
  if channels ≤ 0 ∨ frameSize ≤ 0 then
    .error "audio: channels and frameSize must be positive"
  else if bufLenSamples ≤ frameSize then
    .error "audio: bufLenSamples must exceed frameSize"
  else
    let prebufferSamples := if prebufferSamples < 0 then 0 else prebufferSamples
    let maxDepth := prebufferSamples + 6 * frameSize
    let cap := bufLenSamples - frameSize
    let maxDepth := if maxDepth > cap then cap else maxDepth
    .ok
      { channels := channels.toNat
        frameSize := frameSize.toNat
        bufLen := bufLenSamples.toNat
        prebuffer := prebufferSamples
        maxDepth := maxDepth
        buf := List.replicate (bufLenSamples.toNat * channels.toNat) 0
        initTs := -1
        writeTs := 0
        readTs := 0
        started := false
        underruns := 0
        overflows := 0 }

namespace JitterBuffer

/-! ### Writing -/

/-- Anchor the ring origin to the first frame's timestamp. -/
def anchor (j : JitterBuffer) (ts : ℤ) : JitterBuffer :=
  if j.initTs < 0 then { j with initTs := ts, readTs := ts, writeTs := ts } else j

/-- The sample loop of `WriteChannel`: one sample after the other, from `ts` on. -/
def writeSamples (bufLen channels : ℕ) (chIdx : ℤ) : ℤ → List Int16 → List Int16 →
    Option (List Int16)
  | _, [], buf => some buf
  | ts, v :: pcm, buf => do
    let slot := ts.tmod bufLen * channels
    let buf ← store buf (slot + chIdx) v
    writeSamples bufLen channels chIdx (ts + 1) pcm buf

/-- Advance the write frontier. -/
def advance (j : JitterBuffer) (frontier : ℤ) : JitterBuffer :=
  if frontier > j.writeTs then { j with writeTs := frontier } else j

/-- Where the read pointer goes when the buffer is too deep: two frames over the
prebuffer behind the frontier, rounded up to a frame boundary. -/
def snapTarget (j : JitterBuffer) : ℤ :=
  let target := j.writeTs - (j.prebuffer + 2 * j.frameSize)
  let rem := (target - j.initTs).tmod j.frameSize
  if rem ≠ 0 then target + (j.frameSize - rem) else target

/-- Bound the buffering latency. -/
def snap (j : JitterBuffer) : JitterBuffer :=
  if j.writeTs - j.readTs > j.maxDepth then
    { j with readTs := j.snapTarget, overflows := j.overflows + 1 }
  else j

/-- Begin readout once the prebuffer threshold is reached. -/
def start (j : JitterBuffer) : JitterBuffer :=
  if !j.started ∧ j.writeTs - j.readTs ≥ j.prebuffer then { j with started := true } else j

/-- `WriteChannel`. -/
def writeChannel (j : JitterBuffer) (frameTs : UInt32) (chIdx : ℤ) (pcm : List Int16) :
    Option JitterBuffer :=
  if chIdx < 0 ∨ chIdx ≥ j.channels ∨ pcm.length = 0 then some j
  else
    let n : ℤ := pcm.length
    let ts : ℤ := frameTs.toNat
    let j := j.anchor ts
    if ts + n ≤ j.readTs then some j
    else do
      let buf ← writeSamples j.bufLen j.channels chIdx ts pcm j.buf
      return (({ j with buf := buf }.advance (ts + n)).snap).start

/-! ### Reading -/

/-- The sample `out[c][s]`, if `out` has one there. -/
def sample (out : List (List Int16)) (c s : ℕ) : Option Int16 := (out[c]?).bind (·[s]?)

/-- `if c < len(out) && s < len(out[c]) { out[c][s] = v }`. -/
def setSample (out : List (List Int16)) (c s : ℕ) (v : Int16) : List (List Int16) :=
  out.modify c fun dst => dst.set s v

/-- The inner loop of `ReadFrame`: hand out the samples of one slot and clear it. -/
def readSlot (slot : ℤ) (s : ℕ) : List ℕ → List Int16 → List (List Int16) →
    Option (List Int16 × List (List Int16))
  | [], buf, out => some (buf, out)
  | c :: cs, buf, out => do
    let v ← load buf (slot + c)
    let buf ← store buf (slot + c) 0
    readSlot slot s cs buf (setSample out c s v)

/-- The outer loop of `ReadFrame`: slot after slot, from `readTs` on. -/
def readSlots (bufLen channels : ℕ) (readTs : ℤ) : List ℕ → List Int16 → List (List Int16) →
    Option (List Int16 × List (List Int16))
  | [], buf, out => some (buf, out)
  | s :: ss, buf, out => do
    let slot := (readTs + s).tmod bufLen * channels
    let (buf, out) ← readSlot slot s (List.range channels) buf out
    readSlots bufLen channels readTs ss buf out

/-- The silence of an underrun, where `out` has samples for it. -/
def zeroFill (channels frameSize : ℕ) (out : List (List Int16)) : List (List Int16) :=
  out.mapIdx fun c dst =>
    if c < channels then dst.mapIdx fun s v => if s < frameSize then 0 else v else dst

/-- `ReadFrame`: the buffer and `out` afterwards, and `(started, underrun)`. -/
def readFrame (j : JitterBuffer) (out : List (List Int16)) :
    Option (JitterBuffer × List (List Int16) × Bool × Bool) :=
  if !j.started then some (j, out, false, false)
  else if j.writeTs - j.readTs < j.frameSize then
    some ({ j with underruns := j.underruns + 1 }, zeroFill j.channels j.frameSize out, true, true)
  else do
    let (buf, out) ← readSlots j.bufLen j.channels j.readTs (List.range j.frameSize) j.buf out
    return ({ j with buf := buf, readTs := j.readTs + j.frameSize }, out, true, false)

/-! ### Calls -/

/-- A call on the buffer. -/
inductive Call where
  | write (frameTs : UInt32) (chIdx : ℤ) (pcm : List Int16)
  | read (out : List (List Int16))
  deriving DecidableEq, Repr

/-- The buffer after a call. -/
def call (j : JitterBuffer) : Call → Option JitterBuffer
  | .write frameTs chIdx pcm => j.writeChannel frameTs chIdx pcm
  | .read out => (j.readFrame out).map Prod.fst

/-! ### Samples of a channel -/

/-- The sample the ring holds for channel `c` at position `t`. -/
def held (j : JitterBuffer) (t c : ℤ) : Option Int16 := cell j.bufLen j.channels j.buf t c

/-- `WriteChannel` neither ignores nor drops the frame. -/
def Accepts (j : JitterBuffer) (frameTs : UInt32) (chIdx : ℤ) (pcm : List Int16) : Prop :=
  (0 ≤ chIdx ∧ chIdx < j.channels) ∧ pcm ≠ [] ∧
    (j.anchor frameTs.toNat).readTs < frameTs.toNat + pcm.length

instance (j : JitterBuffer) (frameTs : UInt32) (chIdx : ℤ) (pcm : List Int16) :
    Decidable (j.Accepts frameTs chIdx pcm) :=
  inferInstanceAs (Decidable (_ ∧ _ ∧ _))

end JitterBuffer

end AmbiRTC
