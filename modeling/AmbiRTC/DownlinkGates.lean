/-
AmbiRTC/DownlinkGates.lean

What the browser does with a packet of the room before its frame is put together
(client/engine.js `_onDcMessage`, `_onBundle`, `_acceptInOrder`).  A packet is
dropped when its frame is no later than the last one flushed, and a channel of it
when it is no later than what its decoder was given last.

The decoders are the browser's: each gives its chunks back in order, as samples.
The audio graph is up and the decoders are there, as in a session that plays; the
sequence numbers, the jitter estimate and the warnings are left out.
-/
import AmbiRTC.AssemblyOrder
import AmbiRTC.ClientBundle

namespace AmbiRTC.Downlink

open Assembly Words

/-! ### Packets -/

/-- `HEADER_SIZE` -/
def headerSize : ℕ := 9

/-- `ISREC_BIT` -/
def isRecBit : UInt8 := 0x80

/-- `CHIDX_MASK` -/
def chIdxMask : UInt8 := 0x0f

/-- A packet as the two handlers see it. -/
inductive Packet where
  | single (chIdx : Channel) (isRec : Bool) (frameTs : UInt32) (data : List UInt8)
  | bundle (frameTs : UInt32) (chans : List (Channel × List UInt8)) (isRec : Bool)
  deriving DecidableEq

/-- The guard against channels that there are not. -/
def toChannel (chIdx : UInt8) : Option Channel :=
  if h : chIdx.toNat < 16 then some ⟨chIdx.toNat, h⟩ else none

/-- What `_onDcMessage` and `_onBundle` read off a buffer, where they do not return. -/
def readPacket (buf : List UInt8) : Option Packet :=
  let byte (i : ℕ) : UInt8 := buf.getD i 0
  if buf.length ≥ 7 ∧ byte 0 >>> 4 = bundleVersion then
    match Client.parseBundle buf with
    | .ok p =>
      let chans := p.chans.filterMap fun c =>
        (toChannel c.chIdx).map fun chIdx => (chIdx, c.payload)
      some (.bundle p.frameTs chans p.isRec)
    | .error _ => none
  else if buf.length ≤ headerSize then none
  else
    let frameTs := leUInt32 (byte 5) (byte 6) (byte 7) (byte 8)
    (toChannel (byte 0 &&& chIdxMask)).map fun chIdx =>
      .single chIdx (byte 0 &&& isRecBit ≠ 0) frameTs (buf.drop headerSize)

/-! ### The receiver -/

/-- A chunk for a decoder, under the timestamp of its packet. -/
structure Chunk where
  frameTs : UInt32
  data : List UInt8
  deriving DecidableEq

/-- The fields of `AmbisonicsNode` that packets go through, and what each decoder has
been given. -/
structure Receiver (α : Type) where
  rx : Rx α
  decoders : Channel → Bool
  lastDecodedTs : Channel → ℤ
  rxBundleTs : ℤ
  rxBundleSeen : Channel → Bool
  rxReorderDrops : ℕ
  preRxDrops : ℕ
  totalPktsRecv : ℕ
  submitted : Channel → List Chunk

namespace Receiver

variable {α : Type}

/-- A node that has just begun to play. -/
def ready (cfg : Config α) : Receiver α where
  rx := { Rx.new cfg with graphReady := true, playbackWorklet := true }
  decoders := fun _ => true
  lastDecodedTs := fun _ => -1
  rxBundleTs := -1
  rxBundleSeen := fun _ => false
  rxReorderDrops := 0
  preRxDrops := 0
  totalPktsRecv := 0
  submitted := fun _ => []

/-- `_acceptInOrder`. -/
def acceptInOrder (r : Receiver α) (chIdx : Channel) (frameTs : UInt32) : Receiver α × Bool :=
  if (frameTs.toNat : ℤ) ≤ r.lastDecodedTs chIdx then
    ({ r with rxReorderDrops := r.rxReorderDrops + 1 }, false)
  else ({ r with lastDecodedTs := Function.update r.lastDecodedTs chIdx frameTs.toNat }, true)

/-- The gate, the timestamp queue and the decoder. -/
def decode (r : Receiver α) (chIdx : Channel) (frameTs : UInt32) (data : List UInt8) :
    Receiver α :=
  let p := r.acceptInOrder chIdx frameTs
  if !p.2 then p.1
  else
    { p.1 with
      rx := p.1.rx.pushDecoderTimestamp chIdx frameTs.toNat
      submitted := Function.update p.1.submitted chIdx
        (p.1.submitted chIdx ++ [⟨frameTs, data⟩]) }

/-- One turn of the loop of `_onBundle`. -/
def decodeOnce (frameTs : UInt32) (r : Receiver α) (c : Channel × List UInt8) : Receiver α :=
  if r.rxBundleSeen c.1 then r
  else
    let r := { r with rxBundleSeen := Function.update r.rxBundleSeen c.1 true }
    if !r.decoders c.1 then r else r.decode c.1 frameTs c.2

/-- `_onBundle`. -/
def onBundle (r : Receiver α) (frameTs : UInt32) (chans : List (Channel × List UInt8))
    (isRec : Bool) : Receiver α :=
  let r := { r with totalPktsRecv := r.totalPktsRecv + 1 }
  if !r.rx.graphReady then r
  else if (frameTs.toNat : ℤ) ≤ r.rx.lastFlushedTs then r
  else
    let r := if isRec then { r with rx := r.rx.markRxRecording frameTs.toNat } else r
    let r := if r.rxBundleTs ≠ frameTs.toNat then
        { r with rxBundleTs := frameTs.toNat, rxBundleSeen := fun _ => false }
      else r
    chans.foldl (decodeOnce frameTs) r

/-- `_onDcMessage` on a packet of one channel. -/
def onSingle (r : Receiver α) (chIdx : Channel) (isRec : Bool) (frameTs : UInt32)
    (data : List UInt8) : Receiver α :=
  let r := { r with totalPktsRecv := r.totalPktsRecv + 1 }
  if !r.rx.graphReady then r
  else if (frameTs.toNat : ℤ) ≤ r.rx.lastFlushedTs then r
  else if !r.decoders chIdx then { r with preRxDrops := r.preRxDrops + 1 }
  else
    let r := if isRec then { r with rx := r.rx.markRxRecording frameTs.toNat } else r
    r.decode chIdx frameTs data

/-- `_onDcMessage`. -/
def onDcMessage (r : Receiver α) (buf : List UInt8) : Receiver α :=
  match readPacket buf with
  | some (.single chIdx isRec frameTs data) => r.onSingle chIdx isRec frameTs data
  | some (.bundle frameTs chans isRec) => r.onBundle frameTs chans isRec
  | none => r

end Receiver

/-! ### Sessions -/

/-- The receiver, with what each decoder has given back. -/
structure State (α : Type) where
  receiver : Receiver α
  outputs : Channel → List (List α)

/-- What may happen next. -/
inductive Action (α : Type) where
  | message (buf : List UInt8)
  /-- a decoder gives back its next chunk -/
  | output (chIdx : Channel) (audioData : List α)
  /-- an assembly timer fires -/
  | timeout (id : ℕ)
  /-- the recording timer fires -/
  | recorded

/-- The packet an action brings. -/
def Action.arrival {α : Type} : Action α → Option (List UInt8)
  | .message buf => some buf
  | _ => none

/-- The packets that arrive in a session, in the order of their arrival. -/
def arrivals {α : Type} (as : List (Action α)) : List (List UInt8) := as.filterMap Action.arrival

variable {α : Type}

/-- A session before its first packet. -/
def start (cfg : Config α) : State α := ⟨.ready cfg, fun _ => []⟩

/-- A timer of the receiving side fires. -/
def State.fire (cfg : Config α) (s : State α) (a : Assembly.Action α) : Option (State α) :=
  (Assembly.step cfg ⟨s.receiver.rx, [], []⟩ a).map fun t =>
    { s with receiver := { s.receiver with rx := t.rx } }

/-- One step. -/
def step (cfg : Config α) (s : State α) : Action α → Option (State α)
  | .message buf => some { s with receiver := s.receiver.onDcMessage buf }
  | .output chIdx audioData =>
    if (s.outputs chIdx).length < (s.receiver.submitted chIdx).length then
      some {
        receiver := { s.receiver with rx := s.receiver.rx.onDecoderOutput cfg chIdx audioData }
        outputs := Function.update s.outputs chIdx (s.outputs chIdx ++ [audioData]) }
    else none
  | .timeout id => s.fire cfg (.timeout id)
  | .recorded => s.fire cfg .recorded

end AmbiRTC.Downlink
