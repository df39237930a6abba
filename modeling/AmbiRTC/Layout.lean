/-
AmbiRTC/Layout.lean

Which channels of a frame go into which bundle (mcu/internal/proto/bundle.go
`PlanLayout`).  Channels 0–3, the base, are sent twice; the others once, grouped
by ambisonic order, as many to a packet as fit the budget at the reference
bitrate.
-/
import AmbiRTC.Bundle

namespace AmbiRTC

/-- `proto.BitRate`, bits per second and channel. -/
def bitRate : ℕ := 64000

/-- `proto.SampleRate`. -/
def protoSampleRate : ℕ := 48000

/-- `proto.MTUChannelBudget`: bytes of payload in one packet. -/
def mtuChannelBudget : ℕ := 1130

/-- `MaxChannelsPerPacket`. -/
def maxChannelsPerPacket (frameSize : ℕ) : ℕ :=
  let ref := bitRate * frameSize / (protoSampleRate * 8)
  let ref := if ref < 1 then 1 else ref
  let m := mtuChannelBudget / ref
  let m := if m < 1 then 1 else m
  if m > channels then channels else m

/-- The loop of `chunkU8`: pieces of `n`, with room for as many as there are bytes. -/
def chunkLoop (n : ℕ) : ℕ → List UInt8 → List (List UInt8)
  | 0, _ => []
  | room + 1, s => if s = [] then [] else s.take n :: chunkLoop n room (s.drop n)

/-- `chunkU8`. -/
def chunkU8 (s : List UInt8) (n : ℕ) : List (List UInt8) :=
  let n := if n < 1 then 1 else n
  chunkLoop n s.length s

/-- The channels of orders 0 and 1, of order 2 and of order 3. -/
def baseChannels : List UInt8 := [0, 1, 2, 3]

@[inherit_doc baseChannels]
def order2Channels : List UInt8 := [4, 5, 6, 7, 8]

@[inherit_doc baseChannels]
def order3Channels : List UInt8 := [9, 10, 11, 12, 13, 14, 15]

/-- `PlanLayout`. -/
def planLayout (frameSize : ℕ) : List (List UInt8) :=
  let m := maxChannelsPerPacket frameSize
  if baseChannels.length + order2Channels.length ≤ m ∧
      baseChannels.length + order3Channels.length ≤ m then
    [baseChannels ++ order2Channels, baseChannels ++ order3Channels]
  else
    chunkU8 baseChannels m ++ chunkU8 order2Channels m ++ chunkU8 order3Channels m
      ++ chunkU8 baseChannels m

end AmbiRTC
