/-
AmbiRTC/Packet.lean

The legacy wire format (mcu/internal/proto/proto.go): one packet carries one
channel of one audio frame behind a header of nine bytes.

    byte 0     isRec (0x80) | channel index (low 4 bits)
    bytes 1–4  seqNum, little-endian
    bytes 5–8  frameTs, little-endian
    bytes 9..  the payload
-/
import AmbiRTC.Bundle

namespace AmbiRTC

open Words

/-- `proto.HeaderSize`. -/
def headerSize : ℕ := 9

/-- `proto.isRecBit`. -/
def isRecBit : UInt8 := 0x80

/-- `proto.chIdxMask`. -/
def chIdxMask : UInt8 := 0x0F

/-- `proto.Packet`. -/
structure Packet where
  isRec : Bool
  chIdx : UInt8
  seqNum : UInt32
  frameTs : UInt32
  payload : List UInt8
  deriving DecidableEq, Repr

namespace Packet

/-- `AppendTo`. -/
def appendTo (p : Packet) (dst : List UInt8) : Except ProtoError (List UInt8) :=
  if p.chIdx > chIdxMask then .error .channelRange
  else
    let control := p.chIdx &&& chIdxMask
    let control := if p.isRec then control ||| isRecBit else control
    .ok (dst ++ control :: (putLeUInt32 p.seqNum ++ putLeUInt32 p.frameTs) ++ p.payload)

/-- `MarshalBinary`. -/
def marshalBinary (p : Packet) : Except ProtoError (List UInt8) := p.appendTo []

/-- `Parse`; an error is the text of `ErrShortPacket`.  The payload aliases `buf`
in Go. -/
def parse (buf : List UInt8) : Except String Packet :=
  let byte (i : ℕ) : UInt8 := buf.getD i 0
  if buf.length < headerSize then .error "proto: buffer shorter than 9-byte header"
  else
    .ok
      { isRec := decide (byte 0 &&& isRecBit ≠ 0)
        chIdx := byte 0 &&& chIdxMask
        seqNum := leUInt32 (byte 1) (byte 2) (byte 3) (byte 4)
        frameTs := leUInt32 (byte 5) (byte 6) (byte 7) (byte 8)
        payload := buf.drop headerSize }

end Packet

end AmbiRTC
