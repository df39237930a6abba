/-
AmbiRTC/Conference.lean

A conference: the browsers, their sessions and the mix clock of the room, all
running at once (mcu/internal/room/room.go `mixClock`, session/pipeline.go,
client/engine.js).  Each browser sends what its encoders give; the network brings
packets either way, as it likes; a session takes packets in, decodes, encodes and
sends; and in each tick the clock reads the members of its roster one by one,
asks them whether they record, and submits a mix to each.  Between any two steps
of one the others may take theirs.

The roster of a tick is whoever the room lists then, so members come and go.
What a tick has mixed is kept on the side.
-/
import AmbiRTC.DownlinkIntegrity
import AmbiRTC.MinusOne
import AmbiRTC.UplinkIntegrity
import AmbiRTC.VadGate

namespace AmbiRTC.Conference

open Runs

variable {D α : Type} {F K : ℕ}

/-! ### Frames as slices -/

/-- A frame as `[][]int16`. -/
def slices (frame : Frame Int16 16 F) : List (List Int16) := (frame.map Vector.toList).toList

/-- The frame in a `[][]int16`. -/
def frameOf (out : List (List Int16)) : Frame Int16 16 F :=
  Vector.ofFn fun c => Vector.ofFn fun t => (JitterBuffer.sample out c t).getD 0

/-- The rows of a frame, by channel. -/
def rows (frame : Frame Int16 16 F) (c : ℕ) : Vector Int16 F :=
  if h : c < 16 then frame[c] else Vector.replicate F 0

/-! ### The state -/

/-- A client: its browser and its session. -/
structure Peer (D α : Type) (F K : ℕ) where
  sender : Client.Sender
  /-- what the browser's encoders have given -/
  outs : List Client.Output
  ingress : Ingress.State D
  vad : VadGate
  vadActive : Bool
  pipeline : Pipeline.State (Vector Int16 F) K
  browser : Downlink.State α

/-- Where `mixClock` is in its tick. -/
inductive Phase (F : ℕ) where
  | waiting
  /-- about to read the first of `todo`; `members` have been read -/
  | reading (todo : List String) (members : List (Participant 16 F))
  /-- about to ask the first of `todo` whether it records -/
  | asking (asked todo : List (Participant 16 F))
  /-- about to submit the first of `todo` -/
  | submitting (todo : List (Submission 16 F))
  /-- inside `SubmitMix` on `member` -/
  | inside (member : String) (todo : List (Submission 16 F))

/-- A tick that has been mixed: its members as it saw them, and its timestamp. -/
structure Mixed (F : ℕ) where
  members : List (Participant 16 F)
  mixTs : UInt32

/-- The conference. -/
structure State (D α : Type) (F K : ℕ) where
  peers : String → Peer D α F K
  clock : MixClock 16 F
  phase : Phase F
  log : List (Mixed F)

/-- What sessions and browsers are set to. -/
structure Setup (D α : Type) (F : ℕ) where
  /-- the Opus decoder of a session, and its first state -/
  decode : D → List UInt8 → D × Option (List Int16)
  decoder : D
  jb : JitterBuffer
  threshold : ℤ
  hangover : ℤ
  egress : Pipeline.Config (Vector Int16 F)
  playback : Assembly.Config α

/-- A client that has just connected. -/
def newPeer (cfg : Setup D α F) : Peer D α F K where
  sender := .start
  outs := []
  ingress := Ingress.start cfg.decoder cfg.jb
  vad := ⟨cfg.threshold, cfg.hangover, 0⟩
  vadActive := false
  pipeline := Pipeline.initial cfg.egress
  browser := Downlink.start cfg.playback

/-- A room before its first tick. -/
def start (cfg : Setup D α F) : State D α F K where
  peers := fun _ => newPeer cfg
  clock := newMixClock 16 F
  phase := .waiting
  log := []

namespace State

/-- Change a client. -/
def set (s : State D α F K) (id : String) (p : Peer D α F K) : State D α F K :=
  { s with peers := Function.update s.peers id p }

/-- Whoever is asked says `isRec`, and if so nobody else is asked; then the frames are
added up and subtracted. -/
def ask (s : State D α F K) (asked : List (Participant 16 F)) (m : Participant 16 F)
    (todo : List (Participant 16 F)) (isRec : Bool) : Option (State D α F K) :=
  let m := { m with isRecording := isRec }
  if isRec ∨ todo = [] then
    let members := asked ++ m :: todo
    (s.clock.tick members).map fun r =>
      { s with
        clock := r.1
        phase := .submitting r.2
        log := s.log ++ [⟨members, s.clock.mixTs⟩] }
  else some { s with phase := .asking (asked ++ [m]) todo }

end State

/-- `ReadInputFrame` with the buffer `buf`: the session, the frame and the result. -/
def Peer.readInputFrame (p : Peer D α F K) (buf : Frame Int16 16 F) :
    Option (Peer D α F K × Frame Int16 16 F × Bool) :=
  (InputSide.readInputFrame ⟨p.ingress.decode.jb, p.vad, p.vadActive⟩ (slices buf)).map fun r =>
    ({ p with
        ingress := { p.ingress with decode := { p.ingress.decode with jb := r.1.jb } }
        vad := r.1.vad
        vadActive := r.1.vadActive },
      frameOf r.2.frame, r.2.contributes)

/-- The member a tick has read. -/
def member (id : String) (frame : Frame Int16 16 F) (ready : Bool) : Participant 16 F where
  id := id
  isRecording := false
  input := frame
  ready := ready
  readInputFrame := fun _ => frame
  overwrites := fun _ _ => rfl

/-! ### Steps -/

/-- What happens in a conference. -/
inductive Action (α : Type) (F K : ℕ) where
  /-- the sending side of a browser -/
  | send (id : String) (a : Client.Sender.Action)
  /-- the input side of a session; what the network brings it -/
  | intake (id : String) (a : Ingress.Action)
  /-- the encode pipeline of a session -/
  | encode (id : String) (a : Pipeline.Action (Vector Int16 F) K)
  /-- the receiving side of a browser; what the network brings it -/
  | play (id : String) (e : Downlink.Action α)
  /-- the timer of `mixClock` fires, and the roster is copied -/
  | tick (roster : List String)
  | read
  /-- `IsRecording` at the time `now`, in nanoseconds since 1970 -/
  | ask (now : ℕ)
  /-- `SubmitMix` is called, and acquires a pooled frame or a new one -/
  | submit (pooled : Option ℕ)
  /-- and returns -/
  | returned

/-- What the network may bring a session, and what its own goroutines do. -/
def Peer.Takes (p : Peer D α F K) : Ingress.Action → Prop
  | .message _ data => data.data ∈ p.sender.wire ∧ data.data.length < 2 ^ 32
  | .read _ => False
  | _ => True

/-- What the network may bring a browser. -/
def Peer.Plays (p : Peer D α F K) (e : Downlink.Action α) : Prop :=
  ∀ buf ∈ e.arrival, buf ∈ p.pipeline.sent.map Pipeline.Outgoing.buf ∧ buf.length < 2 ^ 32

instance (p : Peer D α F K) (a : Ingress.Action) : Decidable (p.Takes a) := by
  cases a <;> unfold Peer.Takes <;> infer_instance

instance (p : Peer D α F K) (e : Downlink.Action α) : Decidable (p.Plays e) :=
  inferInstanceAs (Decidable (∀ buf ∈ e.arrival, _))

/-- One step of a conference. -/
def step (cfg : Setup D α F) (s : State D α F K) : Action α F K → Option (State D α F K)
  | .send id a =>
    let p := s.peers id
    (p.sender.step a).map fun sender =>
      s.set id { p with sender, outs := p.outs ++ a.toOutput.toList }
  | .intake id a =>
    let p := s.peers id
    if p.Takes a then
      (Ingress.step cfg.decode p.ingress a).map fun ingress => s.set id { p with ingress }
    else none
  | .encode id a =>
    let p := s.peers id
    if a.submission.isNone then
      (Pipeline.step cfg.egress p.pipeline a).map fun pipeline => s.set id { p with pipeline }
    else none
  | .play id e =>
    let p := s.peers id
    if p.Plays e then
      (Downlink.step cfg.playback p.browser e).map fun browser => s.set id { p with browser }
    else none
  | .tick roster =>
    match s.phase, roster with
    | .waiting, [] => some s
    | .waiting, _ :: _ => some { s with phase := .reading roster [] }
    | _, _ => none
  | .read =>
    match s.phase with
    | .reading (id :: todo) members =>
      -- the buffers grow with the roster
      let buf := s.clock.inbufs.getD members.length (makeFrame 16 F)
      ((s.peers id).readInputFrame buf).map fun r =>
        let members := members ++ [member id r.2.1 r.2.2]
        { s.set id r.1 with
          phase := if todo = [] then .asking [] members else .reading todo members }
    | _ => none
  | .ask now =>
    match s.phase with
    | .asking asked (m :: todo) =>
      s.ask asked m todo ((now : ℤ) < (s.peers m.id).ingress.recDeadline)
    | _ => none
  | .submit pooled =>
    match s.phase with
    | .submitting (x :: todo) =>
      let p := s.peers x.member
      (Pipeline.step cfg.egress p.pipeline (.submit (rows x.pcm) x.frameTs x.isRec pooled)).map
        fun pipeline => { s.set x.member { p with pipeline } with phase := .inside x.member todo }
    | _ => none
  | .returned =>
    match s.phase with
    | .inside id todo =>
      match (s.peers id).pipeline.mixer with
      | .idle => some { s with phase := if todo = [] then .waiting else .submitting todo }
      | _ => none
    | _ => none

end AmbiRTC.Conference
