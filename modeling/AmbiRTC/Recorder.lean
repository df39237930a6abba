/-
AmbiRTC/Recorder.lean

The recordings of a browser (client/engine.js `startRecording`, `_encodePlanarFrame`,
`_markRxRecording`, `_dispatchFrame`, `destroy`, `setFrameSize`).  The sender's side takes
copies of the frames it encodes until it has ten seconds of them or a timeout fires, and
flags what it sends meanwhile; a receiver takes copies of the flagged frames it plays,
until half a second passes without one.

Times are in microseconds, and a timer may be late but not early.  What has happened is
recorded on the side (from `fed` on); no step depends on it.
-/
import AmbiRTC.Assembly
import AmbiRTC.Prebuffer

namespace AmbiRTC.Recorder

open Assembly
open Prebuffer (frameSizes)

variable {α : Type}

/-! ### The state of a node -/

/-- Milliseconds. -/
def ms (n : ℕ) : ℕ := n * 1000

/-- `SAMPLE_RATE` -/
def sampleRate : ℕ := 48000

/-- `TX_REC_EMIT_HANGOVER_MS` -/
def txRecEmitHangoverMs : ℕ := 250

/-- `N`, the frames of a recording. -/
def recFrames (frameSize : ℕ) : ℕ := (10 * sampleRate + frameSize - 1) / frameSize

/-- `recDurationMs` -/
def recDurationMs (frameSize : ℕ) : ℕ :=
  (recFrames frameSize * frameSize * 1000 + sampleRate - 1) / sampleRate

/-- `_txRec`; it has no `startedAt` before the first recording. -/
structure TxRec (α : Type) where
  active : Bool
  frames : List (RecordedFrame α)
  total : ℕ
  left : ℕ
  startedAt : Option ℕ

/-- What is exported: the frames, and when the recording was started. -/
structure Take (α : Type) where
  frames : List (RecordedFrame α)
  startedAt : Option ℕ

/-- `side` -/
inductive Side where
  | tx
  | rx
  deriving DecidableEq, Repr

/-- A recording under way: when it was started, with which frame size, and how many frames
had been encoded by then. -/
structure Current where
  startedAt : ℕ
  frameSize : ℕ
  first : ℕ

/-- A recording that has ended, with how many frames had been encoded by then. -/
structure Ended (α : Type) extends Current where
  endedAt : ℕ
  upTo : ℕ
  frames : List (RecordedFrame α)

/-- What is exported of it. -/
def Ended.take (e : Ended α) : Take α := ⟨e.frames, some e.startedAt⟩

/-- What of a node has to do with recordings. -/
structure State (α : Type) where
  /-- `performance.now()` -/
  now : ℕ
  frameSize : ℕ
  connected : Bool
  transmissionStarted : Bool
  destroyed : Bool
  /-- whether there are encoders -/
  encoders : Bool
  playbackWorklet : Bool
  graphReady : Bool
  txRec : TxRec α
  /-- when the timeout is due -/
  txRecTimeout : Option ℕ
  txRecEmitUntil : ℕ
  rxRecActive : Bool
  rxRecSet : List ℤ
  rxRecFrames : List (RecordedFrame α)
  /-- when the timer is due -/
  rxRecTimer : Option ℕ
  rxRecStartedAt : Option ℕ
  /-- the exports put off with `setTimeout(…, 0)` -/
  deferred : List (Take α)
  /-- the calls of `_exportWav` -/
  exported : List (Side × Take α)
  /-- the calls of `onRecordingComplete` -/
  completed : List Side
  /-- the frames that have gone to the encoders -/
  fed : List (RecordedFrame α)
  /-- when `startRecording` went through -/
  starts : List ℕ
  current : Option Current
  takes : List (Ended α)
  /-- when each packet was sent, and whether it was flagged -/
  packets : List (ℕ × Bool)
  /-- when a flagged packet was taken note of, and its timestamp -/
  marked : List (ℕ × ℤ)
  /-- the frames copied for the receiver's recordings -/
  copied : List (RecordedFrame α)

/-- A new node. -/
def start (frameSize : ℕ) : State α where
  now := 0
  frameSize := frameSize
  connected := false
  transmissionStarted := false
  destroyed := false
  encoders := false
  playbackWorklet := false
  graphReady := false
  txRec := ⟨false, [], 0, 0, none⟩
  txRecTimeout := none
  txRecEmitUntil := 0
  rxRecActive := false
  rxRecSet := []
  rxRecFrames := []
  rxRecTimer := none
  rxRecStartedAt := none
  deferred := []
  exported := []
  completed := []
  fed := []
  starts := []
  current := none
  takes := []
  packets := []
  marked := []
  copied := []

namespace State

/-! ### The sender's side -/

/-- `startRecording`; an error is the text of what it throws. -/
def startRecording (s : State α) : Except String (State α) :=
  if !s.connected then .error "[AmbisonicsNode] Not connected — cannot start recording"
  else if !s.transmissionStarted then
    .error "[AmbisonicsNode] Audio pipeline not ready — call connect() first"
  else if s.txRec.active then .error "[AmbisonicsNode] Recording already in progress"
  else
    let N := recFrames s.frameSize
    let duration := recDurationMs s.frameSize
    .ok { s with
      txRec := ⟨true, [], N, N, some s.now⟩
      txRecEmitUntil := s.now + ms (duration + txRecEmitHangoverMs)
      txRecTimeout := some (s.now + ms (duration + 1000))
      starts := s.starts ++ [s.now]
      current := some ⟨s.now, s.frameSize, s.fed.length⟩ }

/-- The recording ends, and its export is put off. -/
def endRecording (s : State α) : State α :=
  { s with
    txRec := { s.txRec with active := false, frames := [] }
    deferred := s.deferred ++ [⟨s.txRec.frames, s.txRec.startedAt⟩]
    current := none
    takes := s.takes ++
      (s.current.map fun b => ⟨b, s.now, s.fed.length, s.txRec.frames⟩).toList }

/-- The copy of a frame: a missing plane is silent. -/
def copyFrame (silence : α) (frameSize : ℕ) (ts : ℤ) (channels : Channel → Option (List α)) :
    RecordedFrame α where
  ts := ts
  channels c := (channels c).getD (List.replicate frameSize silence)

theorem zero_lt_channels : 0 < 16 := by decide

/-- `_encodePlanarFrame`, up to the encoders. -/
def encodePlanarFrame (silence : α) (s : State α) (channels : Channel → Option (List α))
    (ts : ℤ) : State α :=
  if s.destroyed || !s.encoders then s
  else
    let frameSize := ((channels ⟨0, zero_lt_channels⟩).map List.length).getD s.frameSize
    let copy := copyFrame silence frameSize ts channels
    let s := { s with fed := s.fed ++ [copy] }
    if s.txRec.active then
      let s := { s with
        txRec := { s.txRec with frames := s.txRec.frames ++ [copy], left := s.txRec.left - 1 } }
      if s.txRec.left = 0 then { s with txRecTimeout := none }.endRecording else s
    else s

/-- The timeout fires. -/
def txTimeout (s : State α) : State α :=
  let s := { s with txRecTimeout := none }
  if s.txRec.active then s.endRecording else s

/-- An export that was put off. -/
def exportTake (s : State α) (take : Take α) (rest : List (Take α)) : State α :=
  { s with
    deferred := rest
    exported := if 0 < take.frames.length then s.exported ++ [(.tx, take)] else s.exported
    completed := s.completed ++ [.tx] }

/-! ### The receiver's side -/

/-- `_markRxRecording` -/
def markRxRecording (s : State α) (frameTs : ℤ) : State α :=
  if s.txRec.active || s.now < s.txRecEmitUntil + ms 500 then s
  else
    let s := { s with
      rxRecSet := frameTs :: s.rxRecSet.filter fun ts => ts ≠ frameTs
      marked := s.marked ++ [(s.now, frameTs)] }
    if s.rxRecActive then s else { s with rxRecActive := true, rxRecStartedAt := some s.now }

/-- `_dispatchFrame`, up to the worklet; a frame comes with its copy. -/
def dispatchFrame (s : State α) (frame : RecordedFrame α) : State α :=
  if !s.playbackWorklet || !s.graphReady then s
  else if s.rxRecActive && decide (frame.ts ∈ s.rxRecSet) then
    { s with
      rxRecSet := s.rxRecSet.filter fun ts => ts ≠ frame.ts
      rxRecFrames := s.rxRecFrames ++ [frame]
      rxRecTimer := some (s.now + ms 500)
      copied := s.copied ++ [frame] }
  else s

/-- The receiver's timer fires. -/
def rxTimeout (s : State α) : State α :=
  { s with
    rxRecTimer := none
    rxRecActive := false
    rxRecFrames := []
    rxRecSet := []
    rxRecStartedAt := none
    exported :=
      if 0 < s.rxRecFrames.length then
        s.exported ++ [(.rx, ⟨s.rxRecFrames, s.rxRecStartedAt⟩)]
      else s.exported
    completed := s.completed ++ [.rx] }

/-! ### The node -/

/-- `setFrameSize`; a size it does not accept is an exception, and changes nothing. -/
def setFrameSize (s : State α) (n : ℕ) : State α :=
  if n ∉ frameSizes then s else if s.connected then s else { s with frameSize := n }

/-- `destroy` -/
def destroy (s : State α) : State α :=
  if s.destroyed then s
  else
    { s with
      destroyed := true
      connected := false
      transmissionStarted := false
      graphReady := false
      txRecTimeout := none
      rxRecTimer := none
      txRec := { s.txRec with active := false, frames := [] }
      txRecEmitUntil := 0
      rxRecActive := false
      rxRecFrames := []
      rxRecSet := []
      rxRecStartedAt := none
      encoders := false
      playbackWorklet := false
      current := none }

end State

/-- What may happen next. -/
inductive Action (α : Type) where
  /-- time passes -/
  | wait (dt : ℕ)
  | setFrameSize (n : ℕ)
  /-- the connection comes up or goes down -/
  | connected (up : Bool)
  /-- a step of `connect`: encoders, worklet, transmission, graph, each there or not yet -/
  | prepare (encoders playbackWorklet transmissionStarted graphReady : Bool)
  | startRecording
  | feed (channels : Channel → Option (List α)) (ts : ℤ)
  | txTimeout
  /-- an export that was put off -/
  | deferred
  /-- a packet is sent, legacy or bundled -/
  | send
  /-- a flagged packet arrives -/
  | mark (frameTs : ℤ)
  | dispatch (frame : RecordedFrame α)
  | rxTimeout
  | destroy

/-- One step; none where a timer is not due, there is no export, or `destroy` has closed
the channel or the decoders. -/
def step (silence : α) (s : State α) : Action α → Option (State α)
  | .wait dt => some { s with now := s.now + dt }
  | .setFrameSize n => some (s.setFrameSize n)
  | .connected up => if s.destroyed ∧ up then none else some { s with connected := up }
  | .prepare encoders playbackWorklet transmissionStarted graphReady =>
    some { s with encoders, playbackWorklet, transmissionStarted, graphReady }
  | .startRecording =>
    match s.startRecording with
    | .ok s' => some s'
    | .error _ => some s
  | .feed channels ts => some (s.encodePlanarFrame silence channels ts)
  | .txTimeout =>
    match s.txRecTimeout with
    | some due => if due ≤ s.now then some s.txTimeout else none
    | none => none
  | .deferred =>
    match s.deferred with
    | take :: rest => some (s.exportTake take rest)
    | [] => none
  | .send =>
    if s.destroyed then none
    else some { s with packets := s.packets ++ [(s.now, decide (s.now < s.txRecEmitUntil))] }
  | .mark frameTs =>
    if s.destroyed || !s.graphReady then none else some (s.markRxRecording frameTs)
  | .dispatch frame => if s.destroyed then none else some (s.dispatchFrame frame)
  | .rxTimeout =>
    match s.rxRecTimer with
    | some due => if due ≤ s.now then some s.rxTimeout else none
    | none => none
  | .destroy => some s.destroy

end AmbiRTC.Recorder
