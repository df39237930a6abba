/-
AmbiRTC/Negotiation.lean

The browser's side of the connection set-up (client/engine.js `initWebRTC`,
`_handleSigMessage`, `_tryStartNegotiation`, `_addIceCandidate`,
`_drainPendingIceCandidates`, `destroy`).  Handlers are asynchronous: each is a
thread that runs up to its next `await`, and others may run before it goes on.  How a
promise of the PeerConnection settles is up to the environment.

The signaling socket is taken to be open as long as the node holds it.
-/
import AmbiRTC.Prebuffer
import AmbiRTC.Threads
import AmbiRTC.TxBundle

namespace AmbiRTC.Negotiation

open Runs Threads

variable {S C : Type}

/-- `BIT_RATE`: per mono channel -/
def bitRate : ℤ := 64000

/-- `TX_MAX_BUFFER_FLOOR`: bytes -/
def txMaxBufferFloor : ℤ := 16000

/-! ### Messages -/

/-- An `offer` message; without an `sdp` there is nothing to answer. -/
structure Offer (S : Type) where
  frameSize : Option ℤ
  bitrates : Option (List ℤ)
  /-- `packing` is `'bundled'` -/
  bundled : Bool
  sdp : Option S

/-- A message of the signaling server. -/
inductive Message (S C : Type) where
  | peerReady
  | peerDisconnected
  | offer (offer : Offer S)
  | answer
  | ice (candidate : Option C)

/-- A message to the signaling server. -/
inductive Sent (C : Type) where
  | offer (frameSize : ℕ)
  | answer (frameSize : ℕ)
  | ice (candidate : C)

/-! ### The node -/

/-- The fields of `AmbisonicsNode` for the connection set-up. -/
structure Node (S C : Type) where
  /-- `_role` is `'offerer'` -/
  offerer : Bool
  /-- a bundle codec was injected -/
  bundle : Bool
  destroyed : Bool
  /-- the DataChannel is open -/
  connected : Bool
  sizes : Prebuffer.Node
  bitrates : List ℤ
  maxTxBufferBytes : ℤ
  bundled : Bool
  txLayout : Option (List (List ℕ))
  peerIsReady : Bool
  offerSent : Bool
  pendingOffer : Option S
  /-- the PeerConnection, and whether it has a remote description -/
  pc : Option Bool
  pendingIceCandidates : List C
  /-- whether a `setRemoteDescription` has succeeded -/
  described : Bool
  /-- the arguments of `addIceCandidate` so far, whether it took them or not -/
  passed : List C
  sent : List (Sent C)

/-- `_applyBitrates`; the cap is 250 ms of all channels. -/
def Node.applyBitrates (s : Node S C) (arr : Option (List ℤ)) : Node S C :=
  let bitrates := (List.range 16).map fun c =>
    match arr.bind (·[c]?) with
    | some b => if b > 0 then b else bitRate
    | none => bitRate
  { s with
    bitrates := bitrates
    maxTxBufferBytes := max txMaxBufferFloor ((bitrates.sum + 16) / 32) }

/-- The constructor. -/
def Node.new (offerer bundle : Bool) (frameSize : ℕ) (bitrates : Option (List ℤ)) : Node S C :=
  { offerer := offerer
    bundle := bundle
    destroyed := false
    connected := false
    sizes := .new frameSize
    bitrates := []
    maxTxBufferBytes := 0
    bundled := false
    txLayout := none
    peerIsReady := false
    offerSent := false
    pendingOffer := none
    pc := none
    pendingIceCandidates := []
    described := false
    passed := []
    sent := [] : Node S C }.applyBitrates bitrates

/-! ### Handlers -/

/-- How far a handler has come. -/
inductive Thread (S C : Type) where
  /-- `_handleSigMessage`, called with a message -/
  | handling (m : Message S C)
  /-- `initWebRTC`, called -/
  | initialising
  /-- `initWebRTC`, before `_tryStartNegotiation` -/
  | starting
  /-- in `createOffer` -/
  | creatingOffer
  /-- in `setLocalDescription` of the offer -/
  | settingLocalOffer
  /-- in `setRemoteDescription` of an offer -/
  | settingOffer (sdp : S)
  /-- in `setRemoteDescription` of an answer -/
  | settingAnswer
  /-- before `_drainPendingIceCandidates`; an answer is to follow, or not -/
  | draining (answering : Bool)
  /-- in its loop, in `addIceCandidate` of candidate `i` -/
  | feeding (answering : Bool) (i : ℕ)
  /-- in `createAnswer` -/
  | creatingAnswer
  /-- in `setLocalDescription` of the answer -/
  | settingLocalAnswer
  /-- in `addIceCandidate` of a candidate that did not have to wait -/
  | adding
  /-- `destroy`, called -/
  | destroying
  /-- `dc.onopen`, called -/
  | opening
  /-- `pc.onconnectionstatechange`: failed or disconnected, or connected again -/
  | stateChanging (up : Bool)
  /-- `pc.onicecandidate`, called with a local candidate -/
  | gathering (candidate : C)
  | finished
  /-- an exception, or a promise rejected -/
  | failed

/-- What starts a handler. -/
inductive Call (S C : Type) where
  | message (m : Message S C)
  | initWebRTC
  | destroy
  | opened
  | connectionState (up : Bool)
  | iceCandidate (candidate : C)

/-- Where a handler begins. -/
def Call.entry : Call S C → Thread S C
  | .message m => .handling m
  | .initWebRTC => .initialising
  | .destroy => .destroying
  | .opened => .opening
  | .connectionState up => .stateChanging up
  | .iceCandidate candidate => .gathering candidate

/-- `_tryStartNegotiation`, up to its first `await`. -/
def tryStartNegotiation (s : Node S C) : Node S C × Thread S C :=
  if s.pc.isNone then (s, .finished)
  else if s.offerer && s.peerIsReady && !s.offerSent then
    ({ s with offerSent := true }, .creatingOffer)
  else
    match s.offerer, s.pendingOffer with
    | false, some sdp => ({ s with pendingOffer := none }, .settingOffer sdp)
    | _, _ => (s, .finished)

/-- Align the frame size with an offer's; a bad one is a RangeError. -/
def Node.alignFrameSize (s : Node S C) (frameSize : Option ℤ) : Option (Node S C) :=
  match frameSize with
  | some n =>
    if n = 0 then some s
    else (s.sizes.setFrameSize s.connected n.toNat).map fun sizes => { s with sizes := sizes }
  | none => some s

/-- The uplink's bitrates, if there is one for each channel. -/
def Node.matchBitrates (s : Node S C) (bitrates : Option (List ℤ)) : Node S C :=
  match bitrates with
  | some arr => if arr.length = 16 then s.applyBitrates arr else s
  | none => s

/-- The wire format, if this node can write it. -/
def Node.matchPacking (s : Node S C) (bundled : Bool) : Node S C :=
  if s.bundle && bundled then
    { s with bundled := true, txLayout := some (Client.planLayout s.sizes.frameSize) }
  else s

/-- What an answerer takes over from an offer. -/
def acceptOffer (s : Node S C) (offer : Offer S) : Option (Node S C) :=
  (s.alignFrameSize offer.frameSize).map fun s =>
    { (s.matchBitrates offer.bitrates).matchPacking offer.bundled with pendingOffer := offer.sdp }

/-- `_handleSigMessage`, up to its first `await`. -/
def handleSigMessage (s : Node S C) : Message S C → Node S C × Thread S C
  | .peerReady => tryStartNegotiation { s with peerIsReady := true }
  | .peerDisconnected => (s, .finished)
  | .offer offer =>
    if s.offerer then (s, .finished)
    else
      match acceptOffer s offer with
      | some s => tryStartNegotiation s
      | none => (s, .failed)
  | .answer => if s.pc.isNone then (s, .finished) else (s, .settingAnswer)
  | .ice none => (s, .finished)
  | .ice (some candidate) =>
    if s.pc ≠ some true then
      ({ s with pendingIceCandidates := s.pendingIceCandidates ++ [candidate] }, .finished)
    else ({ s with passed := s.passed ++ [candidate] }, .adding)

/-- After the drain. -/
def drained (answering : Bool) : Thread S C := if answering then .creatingAnswer else .finished

/-- The loop of `_drainPendingIceCandidates` from index `i` on, up to its next
`await`. -/
def feed (s : Node S C) (answering : Bool) (i : ℕ) : Node S C × Thread S C :=
  match s.pendingIceCandidates[i]? with
  | some candidate =>
    if s.pc.isNone then (s, .failed)
    else ({ s with passed := s.passed ++ [candidate] }, .feeding answering i)
  | none => ({ s with pendingIceCandidates := [] }, drained answering)

/-- `setRemoteDescription` has settled. -/
def describe (s : Node S C) (answering ok : Bool) : Node S C × Thread S C :=
  if ok && s.pc.isSome then ({ s with pc := some true, described := true }, .draining answering)
  else (s, .failed)

/-- The next step of a handler; `ok` is how the promise it waits for settles. -/
def advance (s : Node S C) : Thread S C → (ok : Bool) → Option (Node S C × Thread S C)
  | .handling m, _ =>
    -- `destroy` removes the listener
    some (if s.destroyed then (s, .finished) else handleSigMessage s m)
  | .initialising, ok =>
    if s.destroyed || (s.pc.isNone && !ok) then some (s, .failed)
    else if s.pc.isSome then some (s, .finished)
    else some ({ s with pc := some false }, .starting)
  | .starting, _ => some (tryStartNegotiation s)
  | .creatingOffer, ok => some (s, if ok && s.pc.isSome then .settingLocalOffer else .failed)
  | .settingLocalOffer, ok =>
    if ok && s.pc.isSome then
      some ({ s with sent := s.sent ++ [.offer s.sizes.frameSize] }, .finished)
    else some (s, .failed)
  | .settingOffer _, ok => some (describe s true ok)
  | .settingAnswer, ok => some (describe s false ok)
  | .draining answering, _ =>
    some (if s.pc = some true then feed s answering 0 else (s, drained answering))
  | .feeding answering i, _ => some (feed s answering (i + 1))
  | .creatingAnswer, ok => some (s, if ok && s.pc.isSome then .settingLocalAnswer else .failed)
  | .settingLocalAnswer, ok =>
    if ok && s.pc.isSome then
      some ({ s with sent := s.sent ++ [.answer s.sizes.frameSize] }, .finished)
    else some (s, .failed)
  | .adding, _ => some (s, .finished)
  | .destroying, _ =>
    if s.destroyed then some (s, .finished)
    else some ({ s with
      destroyed := true, connected := false, pendingIceCandidates := [], pc := none }, .finished)
  | .opening, _ => some ({ s with connected := true }, .finished)
  | .stateChanging up, _ =>
    if s.pc.isNone then some (s, .failed) else some ({ s with connected := up }, .finished)
  | .gathering candidate, _ =>
    if s.destroyed then some (s, .finished)
    else some ({ s with sent := s.sent ++ [.ice candidate] }, .finished)
  | .finished, _ | .failed, _ => none

/-- One action of the browser. -/
abbrev step : System (Node S C) (Thread S C) → Action (Call S C) Bool →
    Option (System (Node S C) (Thread S C)) :=
  Threads.step Call.entry advance

/-- A node with no handler running. -/
def start (node : Node S C) : System (Node S C) (Thread S C) := ⟨node, []⟩

end AmbiRTC.Negotiation
