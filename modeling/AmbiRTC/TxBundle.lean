/-
AmbiRTC/TxBundle.lean

The bundled uplink of the browser client (client/engine.js `_accumulateBundle`,
`_flushBundle`; client/bundle.js `planLayout`).  The outputs of the sixteen
encoders come one at a time; those of one frame are collected, and sent in a few
packets when the frame is complete or one of another frame comes.

What the data channel has been given is kept with what each packet was made of.
-/
import AmbiRTC.ClientBundle
import Mathlib.Logic.Function.Basic

namespace AmbiRTC.Client

/-! ### The layout -/

/-- `BITRATE` -/
def bitrate : ℕ := 64000

/-- `SAMPLE_RATE` -/
def sampleRate : ℕ := 48000

/-- `MTU_CHANNEL_BUDGET`: bytes of Opus payload in one packet. -/
def mtuChannelBudget : ℕ := 1130

/-- `maxChannelsPerPacket`. -/
def maxChannelsPerPacket (frameSize : ℕ) : ℕ :=
  let ref := bitrate * frameSize / (sampleRate * 8)
  let ref := if ref < 1 then 1 else ref
  let m := mtuChannelBudget / ref
  let m := if m < 1 then 1 else m
  if m > channels then channels else m

/-- The loop of `chunk` from `i` on, at most `room` turns. -/
def chunkFrom (m : ℕ) (s : List ℕ) : ℕ → ℕ → List (List ℕ)
  | 0, _ => []
  | room + 1, i =>
    if i < s.length then (s.drop i).take m :: chunkFrom m s room (i + m) else []

/-- `chunk`. -/
def chunk (m : ℕ) (s : List ℕ) : List (List ℕ) := chunkFrom m s s.length 0

/-- `planLayout`. -/
def planLayout (frameSize : ℕ) : List (List ℕ) :=
  let base := [0, 1, 2, 3]
  let order2 := [4, 5, 6, 7, 8]
  let order3 := [9, 10, 11, 12, 13, 14, 15]
  let m := maxChannelsPerPacket frameSize
  if base.length + order2.length ≤ m ∧ base.length + order3.length ≤ m then
    [base ++ order2, base ++ order3]
  else chunk m base ++ chunk m order2 ++ chunk m order3 ++ chunk m base

/-! ### The accumulator -/

/-- A packet, with the arguments `marshalBundle` made it of. -/
structure Packet where
  frameTs : ℕ
  chans : List Chan
  isRec : Bool
  bytes : List UInt8
  marshalled : marshalBundle frameTs chans isRec = .ok bytes

/-- The fields of `AmbisonicsNode` that bundles are sent from, and what has been
given to the data channel; `none` is `null`. -/
structure Tx where
  txBundleTs : Option ℕ
  txBundleAccum : Option (ℕ → Option (List UInt8))
  txBundleCount : ℕ
  /-- `this._dc && this._dc.readyState === 'open'` -/
  dcOpen : Bool
  totalPktsSent : ℕ
  sent : List Packet

/-- A client whose data channel has just opened. -/
def Tx.start : Tx := ⟨none, none, 0, true, 0, []⟩

/-- An encoder output; `isRec` is the recording latch at that time. -/
structure Output where
  chIdx : Fin 16
  frameTs : ℕ
  payload : List UInt8
  isRec : Bool
  deriving DecidableEq

namespace Tx

/-- The channels of a group that have been collected. -/
def groupChans (accum : ℕ → Option (List UInt8)) (group : List ℕ) : List Chan :=
  group.filterMap fun ch => (accum ch).map fun payload => ⟨ch, payload⟩

/-- One turn of the loop of `_flushBundle`. -/
def sendGroup (ts : ℕ) (accum : ℕ → Option (List UInt8)) (isRec : Bool) (s : Tx)
    (group : List ℕ) : Tx :=
  let chans := groupChans accum group
  if chans.length = 0 then s
  else
    match h : marshalBundle ts chans isRec with
    | .error _ => s
    | .ok bytes =>
      { s with
        sent := s.sent ++ [⟨ts, chans, isRec, bytes, h⟩]
        totalPktsSent := s.totalPktsSent + 1 }

/-- `_flushBundle`. -/
def flushBundle (frameSize : ℕ) (isRec : Bool) (s : Tx) : Tx :=
  let s' := { s with txBundleTs := none, txBundleAccum := none, txBundleCount := 0 }
  match s.txBundleTs, s.txBundleAccum with
  | some ts, some accum =>
    if !s.dcOpen then s' else (planLayout frameSize).foldl (sendGroup ts accum isRec) s'
  | _, _ => s'

/-- `_accumulateBundle`; `none` is the exception where there is no accumulator. -/
def accumulateBundle (frameSize : ℕ) (s : Tx) (o : Output) : Option Tx :=
  let s := if s.txBundleTs ≠ some o.frameTs then
      { s.flushBundle frameSize o.isRec with
        txBundleTs := some o.frameTs
        txBundleAccum := some fun _ => none
        txBundleCount := 0 }
    else s
  match s.txBundleAccum with
  | none => none
  | some accum =>
    let count := if (accum o.chIdx).isNone then s.txBundleCount + 1 else s.txBundleCount
    let s := { s with
      txBundleCount := count
      txBundleAccum := some (Function.update accum o.chIdx (some o.payload)) }
    some (if s.txBundleCount = channels then s.flushBundle frameSize o.isRec else s)

/-- `_onEncoderOutput` on a bundled session; `congested` is
`this._dc.bufferedAmount > this._maxTxBufferBytes`. -/
def onEncoderOutput (frameSize : ℕ) (congested : Bool) (s : Tx) (o : Output) : Option Tx :=
  if !s.dcOpen then some s
  else if congested then some s
  else s.accumulateBundle frameSize o

end Tx

end AmbiRTC.Client
