/-
AmbiRTC/Playout.lean

From the decoders to the loudspeakers: the receiver that assembles frames, the
adaptation of the prebuffer, the playback worklet, and the message port between them
(client/engine.js `_setupRxGraph`, `startAudio`, `destroy`;
client/worklet-receiver.js).  The main thread and the audio thread run side by side;
messages arrive in the order they were posted, at any later time.

A run begins when the worklet has been made and configured.  The frame size is set
before that, as `setFrameSize` asks for.  What the renderer does with the output, and
the buffers given back for reuse, are left out.
-/
import AmbiRTC.PlayoutFrames
import AmbiRTC.Prebuffer
import AmbiRTC.WorkletPlayback

namespace AmbiRTC.Playout

open Playback ReceiverProcessor

variable {α : Type}

/-! ### State -/

/-- The client's playback path. -/
structure State (α : Type) where
  receiver : Assembly.State α
  prebuf : Prebuffer.Node
  /-- `_prebufTimer` is set -/
  prebufTimer : Bool
  destroyed : Bool
  /-- posted to the worklet, and not yet handled -/
  port : List (Call α)
  worklet : ReceiverProcessor α
  /-- the messages the worklet has handled -/
  taken : List (Call α)
  /-- posted by the worklet, and not yet handled -/
  notices : List (Notice α)

variable [Zero α]

/-- The worklet has been made, and its thresholds posted. -/
def start (cfg : Assembly.Config α) (sampleRate : ℕ) : State α where
  receiver :=
    let receiver := Assembly.start cfg
    { receiver with rx := { receiver.rx with playbackWorklet := true } }
  prebuf := .new cfg.frameSize
  prebufTimer := false
  destroyed := false
  port := [.config (some cfg.frameSize) (some (Prebuffer.Node.new cfg.frameSize).dynPrebuffer)]
  worklet := .new α sampleRate
  taken := []
  notices := []

/-! ### Steps -/

/-- What may happen next. -/
inductive Action (α : Type) where
  /-- a packet, a decoder output, a timeout, or the recording -/
  | receive (a : Assembly.Action α)
  /-- `_setupRxGraph` is done -/
  | ready
  | startAudio
  /-- an adaptation window ends -/
  | window (jitterSm : ℕ)
  /-- the worklet handles a message -/
  | deliver
  /-- the audio clock asks for a block -/
  | block (out : List (List α))
  /-- the main thread handles a message of the worklet -/
  | notice
  | destroy

/-- A message of the adaptation, as the worklet sees it. -/
def control : Prebuffer.Post → Call α
  | .reanchor => .reanchor
  | .config prebuffer => .config none (some prebuffer)

/-- The message handler of the worklet, and what it posts. -/
def handle (w : ReceiverProcessor α) : Call α → Option (ReceiverProcessor α × List (Notice α))
  | .frame f => w.writeFrame f
  | .reanchor => some (w.reanchor, [])
  | .config frameSize prebuffer => some (w.config frameSize prebuffer, [])
  | .process out => (w.process out).map fun r => (r.1, r.2.2)

/-- What the receiver has posted goes to the port. -/
def forward (cfg : Assembly.Config α) (s : State α) (receiver : Assembly.State α) : State α :=
  { s with
    receiver := receiver
    port := s.port ++ (receiver.rx.posted.drop s.receiver.rx.posted.length).map fun m =>
      .frame (m.frame cfg.silence) }

/-- The handler of the worklet's messages; `depth` is telemetry. -/
def onNotice (p : Prebuffer.Node) : Notice α → Prebuffer.Node
  | .underrun => p.onUnderrun
  | .recycle _ => p
  | .depth _ => p

/-- One step. -/
def step (cfg : Assembly.Config α) (bundle : Bool) (s : State α) : Action α → Option (State α)
  | .receive a =>
    if s.destroyed || !a.receives then none
    else (Assembly.step cfg s.receiver a).map (forward cfg s)
  | .ready =>
    -- without an audio context the set-up of a destroyed node throws
    if s.destroyed || s.receiver.rx.graphReady then none
    else
      let receiver := s.receiver
      some { s with
        receiver := { receiver with rx := { receiver.rx with graphReady := true } }
        prebuf := { s.prebuf with underrunCount := 0 : Prebuffer.Node }.updateAssemblyTimeout
        prebufTimer := true }
  | .startAudio =>
    if s.destroyed || !s.receiver.rx.graphReady then none
    else some { s with port := s.port ++ [.reanchor] }
  | .window jitterSm =>
    if !s.prebufTimer then none
    else if s.destroyed || !s.receiver.rx.playbackWorklet then some s
    else
      let r := s.prebuf.window bundle jitterSm
      some { s with prebuf := r.1, port := s.port ++ r.2.map control }
  | .deliver =>
    match s.port with
    | [] => none
    | m :: port => (handle s.worklet m).map fun r =>
      { s with port := port, worklet := r.1, taken := s.taken ++ [m], notices := s.notices ++ r.2 }
  | .block out => (s.worklet.process out).map fun r =>
    { s with worklet := r.1, notices := s.notices ++ r.2.2 }
  | .notice =>
    match s.notices with
    | [] => none
    | n :: notices => some { s with notices := notices, prebuf := onNotice s.prebuf n }
  | .destroy =>
    if s.destroyed then none
    else
      let receiver := s.receiver
      some { s with
        receiver := { receiver with
          rx := { receiver.rx.resetRxAssembly cfg with
            graphReady := false
            playbackWorklet := false
            rxRecActive := false
            rxRecFrames := []
            rxRecSet := []
            rxRecTimer := false } }
        prebuf := { s.prebuf with underrunCount := 0 }
        prebufTimer := false
        destroyed := true }

end AmbiRTC.Playout
