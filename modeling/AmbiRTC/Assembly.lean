/-
AmbiRTC/Assembly.lean

The receiving side of the browser client (client/engine.js): decoder outputs of
sixteen channels are put together into frames and posted to the playback worklet.

A frame is collected in a slot.  Slots are objects that are used again, so they
live on a heap and the ring and the pool hold references; a timer is the closure
over the timestamp it was set for.  Sample arithmetic is a parameter, and where a
plane's buffer comes from is left out.
-/
import AmbiRTC.Runs
import Mathlib.Algebra.Group.Nat.Defs
import Mathlib.Data.Fintype.Card
import Mathlib.Logic.Function.Basic

namespace AmbiRTC.Assembly

/-! ### The receiver's state -/

/-- Index below `CHANNELS`. -/
abbrev Channel := Fin 16

/-- `RX_FRAME_POOL_SIZE` -/
def rxFramePoolSize : ℕ := 64

/-- `TS_QUEUE_CAPACITY` -/
def tsQueueCapacity : ℕ := 64

/-- `PLC_MAX_FRAME_SIZE` -/
def plcMaxFrameSize : ℕ := 960

/-- `PLC_MAX_HOLDS` -/
def plcMaxHolds : ℕ := 4

/-- What a node is set to, and samples. -/
structure Config (α : Type) where
  frameSize : ℕ
  silence : α
  /-- a sample times `PLC_DECAY ** k`, as a 32-bit float -/
  fade : ℕ → α → α

/-- `_plcHold` -/
def Config.plcHold {α : Type} (cfg : Config α) : Bool := cfg.frameSize ≤ plcMaxFrameSize

/-- A frame assembly slot; `none` is `null`. -/
structure FrameSlot (α : Type) where
  data : Channel → Option (List α)
  count : ℕ
  frameSize : ℕ
  frameTs : ℤ
  timer : Option ℕ

/-- A slot without a frame. -/
def emptySlot (α : Type) (frameSize : ℕ) : FrameSlot α where
  data := fun _ => none
  count := 0
  frameSize := frameSize
  frameTs := -1
  timer := none

/-- A `frame` message to the worklet. -/
structure Message (α : Type) where
  timestamp : ℤ
  channels : Channel → Option (List α)

/-- A frame of an RX recording. -/
structure RecordedFrame (α : Type) where
  ts : ℤ
  channels : Channel → List α

/-- The fields of `AmbisonicsNode` that make up its receiving side, and what it has
posted to the worklet. -/
structure Rx (α : Type) where
  /-- the slot objects, of which `made` have been made -/
  slots : ℕ → FrameSlot α
  made : ℕ
  frameRing : ℕ → Option ℕ
  /-- the pool, from its end -/
  frameSlotPool : List ℕ
  /-- the timers that are set, with the timestamp they flush -/
  timers : List (ℕ × ℤ)
  timersSet : ℕ
  lastFlushedTs : ℤ
  tsQueues : Channel → List ℕ
  totalPktsLost : ℕ
  lastGoodPcm : Channel → Option (List α)
  holdCount : Channel → ℕ
  graphReady : Bool
  playbackWorklet : Bool
  rxRecActive : Bool
  rxRecSet : List ℤ
  rxRecFrames : List (RecordedFrame α)
  rxRecTimer : Bool
  posted : List (Message α)

namespace Rx

variable {α : Type}

/-- A node that has just been made. -/
def new (cfg : Config α) : Rx α where
  slots := fun _ => emptySlot α cfg.frameSize
  made := rxFramePoolSize
  frameRing := fun _ => none
  frameSlotPool := (List.range rxFramePoolSize).reverse
  timers := []
  timersSet := 0
  lastFlushedTs := -1
  tsQueues := fun _ => []
  totalPktsLost := 0
  lastGoodPcm := fun _ => none
  holdCount := fun _ => 0
  graphReady := false
  playbackWorklet := false
  rxRecActive := false
  rxRecSet := []
  rxRecFrames := []
  rxRecTimer := false
  posted := []

/-! ### Timestamps of decoder outputs -/

/-- `_pushDecoderTimestamp`. -/
def pushDecoderTimestamp (s : Rx α) (c : Channel) (frameTs : ℕ) : Rx α :=
  let q := s.tsQueues c
  let s := if q.length = tsQueueCapacity then { s with totalPktsLost := s.totalPktsLost + 1 } else s
  let q := if q.length = tsQueueCapacity then q.tail else q
  { s with tsQueues := Function.update s.tsQueues c (q ++ [frameTs % 2 ^ 32]) }

/-- `_shiftDecoderTimestamp`. -/
def shiftDecoderTimestamp (s : Rx α) (c : Channel) : Rx α × ℤ :=
  match s.tsQueues c with
  | [] => (s, -1)
  | frameTs :: q => ({ s with tsQueues := Function.update s.tsQueues c q }, frameTs)

/-! ### Slots -/

/-- `Math.floor(frameTs / this._frameSize) % RX_FRAME_POOL_SIZE` -/
def ringIdx (cfg : Config α) (frameTs : ℤ) : ℕ :=
  (frameTs / cfg.frameSize % rxFramePoolSize).toNat

/-- Change a slot. -/
def modifySlot (s : Rx α) (k : ℕ) (f : FrameSlot α → FrameSlot α) : Rx α :=
  { s with slots := Function.update s.slots k (f (s.slots k)) }

/-- `this._frameRing[i] = …` -/
def setRing (s : Rx α) (i : ℕ) (cell : Option ℕ) : Rx α :=
  { s with frameRing := Function.update s.frameRing i cell }

/-- `clearTimeout(frame.timer)` -/
def clearTimer (s : Rx α) (k : ℕ) : Rx α :=
  { s with timers := s.timers.filter fun e => (s.slots k).timer ≠ some e.1 }

/-- `_acquireFrameSlot`. -/
def acquireFrameSlot (s : Rx α) (frameTs : ℤ) (frameSize : ℕ) : Rx α × ℕ :=
  let claim (frame : FrameSlot α) : FrameSlot α :=
    { frame with count := 0, frameSize := frameSize, frameTs := frameTs, timer := none }
  match s.frameSlotPool with
  | k :: pool => ({ s with frameSlotPool := pool }.modifySlot k claim, k)
  | [] =>
    let k := s.made
    ({ s with made := k + 1 }.modifySlot k fun _ => claim (emptySlot α frameSize), k)

/-- `_releaseFrameSlot`. -/
def releaseFrameSlot (cfg : Config α) (s : Rx α) (k : ℕ) : Rx α :=
  let s := s.clearTimer k
  let s := s.modifySlot k fun _ => emptySlot α cfg.frameSize
  if s.frameSlotPool.length < rxFramePoolSize then { s with frameSlotPool := k :: s.frameSlotPool }
  else s

/-- The copy `_dispatchFrame` makes for a recording. -/
def record (cfg : Config α) (s : Rx α) (frame : FrameSlot α) : Rx α :=
  if s.rxRecActive ∧ frame.frameTs ∈ s.rxRecSet then
    { s with
      rxRecSet := s.rxRecSet.filter fun ts => ts ≠ frame.frameTs
      rxRecFrames := s.rxRecFrames ++ [⟨frame.frameTs, fun c =>
        (frame.data c).getD (List.replicate frame.frameSize cfg.silence)⟩]
      rxRecTimer := true }
  else s

/-- `_dispatchFrame`; a missing plane has no buffer, and nothing is posted. -/
def dispatchFrame (cfg : Config α) (s : Rx α) (k : ℕ) : Rx α :=
  if !s.playbackWorklet || !s.graphReady then s.releaseFrameSlot cfg k
  else
    let frame := s.slots k
    let s := s.record cfg frame
    let message : Message α := ⟨frame.frameTs, frame.data⟩
    if ∀ c, (frame.data c).isSome then
      releaseFrameSlot cfg { s with posted := s.posted ++ [message] } k
    else s

/-! ### Timeouts -/

/-- The last good frame of a channel, faded, if it may be held once more. -/
def held (cfg : Config α) (s : Rx α) (frameSize : ℕ) (c : Channel) : Option (List α) :=
  match s.lastGoodPcm c with
  | some lg =>
    if cfg.plcHold ∧ lg.length = frameSize ∧ s.holdCount c < plcMaxHolds then
      some (lg.map (cfg.fade (s.holdCount c + 1)))
    else none
  | none => none

/-- The loop of `_flushFrame` over the missing channels. -/
def conceal (cfg : Config α) (s : Rx α) (k : ℕ) : Rx α :=
  let frame := s.slots k
  let held := s.held cfg frame.frameSize
  { s.modifySlot k fun frame => { frame with
      data := fun c => some ((frame.data c).getD
        ((held c).getD (List.replicate frame.frameSize cfg.silence))) } with
    holdCount := fun c =>
      if (frame.data c).isNone ∧ (held c).isSome then s.holdCount c + 1 else s.holdCount c }

/-- `_flushFrame`. -/
def flushFrame (cfg : Config α) (s : Rx α) (frameTs : ℤ) : Rx α :=
  let i := ringIdx cfg frameTs
  match s.frameRing i with
  | none => s
  | some k =>
    if (s.slots k).frameTs ≠ frameTs then s
    else
      let s := s.setRing i none
      let s := s.modifySlot k fun frame => { frame with timer := none }
      if frameTs ≤ s.lastFlushedTs then s.releaseFrameSlot cfg k
      else
        let s := if (s.slots k).count < 16 then s.conceal cfg k else s
        { s with lastFlushedTs := frameTs }.dispatchFrame cfg k

/-! ### Decoder outputs -/

/-- Open a slot for a timestamp, and set its timer. -/
def openSlot (cfg : Config α) (s : Rx α) (frameTs : ℤ) (frameSize : ℕ) : Rx α × ℕ :=
  let r := s.acquireFrameSlot frameTs frameSize
  let s := r.1.setRing (ringIdx cfg frameTs) (some r.2)
  let id := s.timersSet + 1
  ({ s with timers := s.timers ++ [(id, frameTs)], timersSet := id }.modifySlot r.2
    fun frame => { frame with timer := some id }, r.2)

/-- The slot of a timestamp; one that is in its cell is flushed. -/
def slotFor (cfg : Config α) (s : Rx α) (frameTs : ℤ) (frameSize : ℕ) : Rx α × ℕ :=
  match s.frameRing (ringIdx cfg frameTs) with
  | some k =>
    if (s.slots k).frameTs = frameTs then (s, k)
    else (s.flushFrame cfg (s.slots k).frameTs).openSlot cfg frameTs frameSize
  | none => s.openSlot cfg frameTs frameSize

/-- A decoded plane goes into its slot, and is kept for concealment. -/
def storePlane (cfg : Config α) (s : Rx α) (k : ℕ) (c : Channel) (mono : List α) : Rx α :=
  let s := s.modifySlot k fun frame =>
    { frame with data := Function.update frame.data c (some mono), count := frame.count + 1 }
  if cfg.plcHold then
    { s with
      lastGoodPcm := Function.update s.lastGoodPcm c (some mono)
      holdCount := Function.update s.holdCount c 0 }
  else s

/-- The end of `_onDecoderOutput`: a frame with all its planes is dispatched. -/
def complete (cfg : Config α) (s : Rx α) (k : ℕ) (frameTs : ℤ) : Rx α :=
  if (s.slots k).count = 16 then
    let s := s.clearTimer k
    let s := s.modifySlot k fun frame => { frame with timer := none }
    let s := s.setRing (ringIdx cfg frameTs) none
    { s with lastFlushedTs := frameTs }.dispatchFrame cfg k
  else s

/-- `_onDecoderOutput`. -/
def onDecoderOutput (cfg : Config α) (s : Rx α) (c : Channel) (audioData : List α) : Rx α :=
  let r := s.shiftDecoderTimestamp c
  let s := r.1
  let frameTs := r.2
  if frameTs < 0 ∨ frameTs ≤ s.lastFlushedTs then s
  else if !s.graphReady then s
  else
    let r := s.slotFor cfg frameTs audioData.length
    let s := r.1
    if ((s.slots r.2).data c).isSome then s
    else (s.storePlane cfg r.2 c audioData).complete cfg r.2 frameTs

/-! ### Recording and reset -/

/-- `_markRxRecording`, on a node that is not itself the recorder. -/
def markRxRecording (s : Rx α) (frameTs : ℤ) : Rx α :=
  { s with rxRecSet := frameTs :: s.rxRecSet, rxRecActive := true }

/-- The end of an RX recording, half a second after its last frame. -/
def exportRecording (s : Rx α) : Rx α :=
  { s with rxRecTimer := false, rxRecActive := false, rxRecFrames := [], rxRecSet := [] }

/-- Empty a cell of the ring. -/
def resetCell (cfg : Config α) (s : Rx α) (i : ℕ) : Rx α :=
  match s.frameRing i with
  | some k => (s.releaseFrameSlot cfg k).setRing i none
  | none => s

/-- `_resetRxAssembly`. -/
def resetRxAssembly (cfg : Config α) (s : Rx α) : Rx α :=
  { (List.range rxFramePoolSize).foldl (fun s i => s.resetCell cfg i) s with
    tsQueues := fun _ => []
    lastFlushedTs := -1 }

end Rx

/-! ### Sessions -/

/-- A decoder output, with the timestamp it was paired with. -/
structure Output (α : Type) where
  chIdx : Channel
  frameTs : ℤ
  pcm : List α

/-- The receiver, with a record of the decoder outputs since the last reset, and of
those before. -/
structure State (α : Type) where
  rx : Rx α
  decoded : List (Output α)
  earlier : List (Output α)

/-- What may happen next. -/
inductive Action (α : Type) where
  /-- a packet is submitted to a decoder -/
  | push (c : Channel) (frameTs : ℕ)
  /-- a decoder calls back -/
  | output (c : Channel) (audioData : List α)
  /-- a timer fires -/
  | timeout (id : ℕ)
  /-- the audio graph comes up, or goes -/
  | graph (ready worklet : Bool)
  | mark (frameTs : ℤ)
  | recorded
  | reset

variable {α : Type}

/-- A node that has just been made. -/
def start (cfg : Config α) : State α := ⟨Rx.new cfg, [], []⟩

/-- One step; what was posted is counted from the last reset. -/
def step (cfg : Config α) (s : State α) : Action α → Option (State α)
  | .push c frameTs => some { s with rx := s.rx.pushDecoderTimestamp c frameTs }
  | .output c audioData =>
    some { s with
      rx := s.rx.onDecoderOutput cfg c audioData
      decoded := s.decoded ++ [⟨c, (s.rx.shiftDecoderTimestamp c).2, audioData⟩] }
  | .timeout id =>
    match s.rx.timers.find? fun e => e.1 = id with
    | some e =>
      some { s with
        rx := { s.rx with timers := s.rx.timers.filter fun e => e.1 ≠ id }.flushFrame cfg e.2 }
    | none => none
  | .graph ready worklet =>
    some { s with rx := { s.rx with graphReady := ready, playbackWorklet := worklet } }
  | .mark frameTs => some { s with rx := s.rx.markRxRecording frameTs }
  | .recorded => if s.rx.rxRecTimer then some { s with rx := s.rx.exportRecording } else none
  | .reset =>
    some {
      rx := { s.rx.resetRxAssembly cfg with posted := [] }
      decoded := []
      earlier := s.earlier ++ s.decoded }

end AmbiRTC.Assembly
