/-
AmbiRTC/Handshake.lean

The connection set-up of a browser with the MCU, both sides over one WebSocket: the
session (mcu/internal/session/session.go `Start`, `HandleAnswer`, `AddRemoteICE`, the
`OnICECandidate` of `New`), the loop of `ServeHTTP` (mcu/internal/signaling/
signaling.go) that reads for it, and the handlers of the browser.

The socket delivers in order, each way, and may stop delivering at any point.  What
the PeerConnections do is up to the environment, but for one thing: the DataChannel
does not open before the browser has applied a description.
-/
import AmbiRTC.Layout
import AmbiRTC.NegotiationSafety
import AmbiRTC.RemoteIce

namespace AmbiRTC.Handshake

open Runs Threads Negotiation

variable {S C : Type}

/-! ### The session's options -/

/-- `BitrateProfile` -/
inductive BitrateProfile where
  | uniform
  | high
  | balanced
  | low
  deriving DecidableEq, Repr

/-- `bitrateTiers`: orders 0 and 1, order 2, order 3. -/
def bitrateTiers : BitrateProfile → ℤ × ℤ × ℤ
  | .uniform => (64000, 64000, 64000)
  | .high => (64000, 48000, 32000)
  | .low => (48000, 24000, 24000)
  | .balanced => (48000, 32000, 24000)

/-- `ChannelBitRates`. -/
def channelBitRates (p : BitrateProfile) : List ℤ :=
  let (lo, mid, hi) := bitrateTiers p
  (List.range 16).map fun c => if c ≤ 3 then lo else if c ≤ 8 then mid else hi

/-- The `Options` an offer announces. -/
structure Options where
  frameSize : ℕ
  bundled : Bool
  bitrateProfile : BitrateProfile

/-- The offer of `Start`. -/
def Options.offer (cfg : Options) (sdp : S) : Offer S :=
  ⟨some cfg.frameSize, some (channelBitRates cfg.bitrateProfile), cfg.bundled, some sdp⟩

/-! ### The two sides -/

/-- How far the connection's goroutine has come. -/
inductive Stage where
  /-- in `Start`, before the local description is set -/
  | offering
  /-- in `Start`, before the offer is sent -/
  | sending
  /-- in the loop of `ServeHTTP` -/
  | serving
  | returned
  deriving DecidableEq

structure State (S C : Type) where
  stage : Stage
  session : System (RemoteIce.State C) (RemoteIce.Thread C)
  /-- the messages to the browser so far -/
  sent : List (Message S C)
  /-- how many of them have been delivered -/
  delivered : ℕ
  browser : System (Node S C) (Thread S C)
  /-- how many of the browser's messages have been read -/
  read : ℕ

inductive Action (S C : Type) where
  /-- `CreateOffer` and `SetLocalDescription` -/
  | setLocalDescription (ok : Bool)
  /-- the `send` of `Start` -/
  | sendOffer (sdp : S) (ok : Bool)
  /-- `OnICECandidate` -/
  | gathered (candidate : C)
  /-- `ReadMessage`, up to the call of the session -/
  | read
  /-- `ReadMessage` fails -/
  | disconnect
  /-- call `i` of the session goes on -/
  | session (i : ℕ) (ok : Bool)
  /-- the browser is handed a message -/
  | deliver
  /-- the browser is called otherwise -/
  | call (k : Call S C)
  /-- handler `i` of the browser goes on -/
  | handler (i : ℕ) (ok : Bool)

/-- A call that is no message; the DataChannel opens only after a description. -/
def admits (s : Node S C) : Call S C → Bool
  | .message _ => false
  | .opened | .connectionState true => s.described
  | _ => true

instance : DecidablePred (RemoteIce.Thread.Returned (C := C)) := fun t =>
  match t with
  | .added | .answered | .failed => isTrue trivial
  | .adding _ | .passing _ | .answering | .draining | .feeding _ => isFalse id

/-- What `ServeHTTP` calls for a message; others are unknown to it. -/
def serve : Sent C → Option (RemoteIce.Call C)
  | .offer _ => none
  | .answer _ => some .handleAnswer
  | .ice candidate => some (.addRemoteICE candidate)

/-- A session with a call begun. -/
def begin (s : System (RemoteIce.State C) (RemoteIce.Thread C)) (k : Option (RemoteIce.Call C)) :
    System (RemoteIce.State C) (RemoteIce.Thread C) :=
  ⟨s.shared, s.threads ++ (k.map RemoteIce.Call.entry).toList⟩

/-- One action. -/
def step (cfg : Options) (x : State S C) : Action S C → Option (State S C)
  | .setLocalDescription ok =>
    if x.stage = .offering then some { x with stage := if ok then .sending else .returned }
    else none
  | .sendOffer sdp ok =>
    if x.stage = .sending then
      if ok then
        some { x with stage := .serving, sent := x.sent ++ [.offer (cfg.offer sdp)] }
      else some { x with stage := .returned }
    else none
  | .gathered candidate => some { x with sent := x.sent ++ [.ice (some candidate)] }
  | .read =>
    -- one message at a time: the calls of the session are the loop's own
    if x.stage = .serving ∧ ∀ t ∈ x.session.threads, t.Returned then
      (x.browser.shared.sent[x.read]?).map fun m =>
        { x with read := x.read + 1, session := begin x.session (serve m) }
    else none
  | .disconnect => if x.stage = .serving then some { x with stage := .returned } else none
  | .session i ok =>
    (RemoteIce.step x.session (.next i ok)).map fun session => { x with session }
  | .deliver =>
    (x.sent[x.delivered]?).bind fun m =>
      (Negotiation.step x.browser (.call (.message m))).map fun browser =>
        { x with delivered := x.delivered + 1, browser }
  | .call k =>
    if admits x.browser.shared k then
      (Negotiation.step x.browser (.call k)).map fun browser => { x with browser }
    else none
  | .handler i ok =>
    (Negotiation.step x.browser (.next i ok)).map fun browser => { x with browser }

/-- A new connection; `node` is the browser's. -/
def start (node : Node S C) : State S C :=
  ⟨.offering, RemoteIce.start, [], 0, Negotiation.start node, 0⟩

end AmbiRTC.Handshake
