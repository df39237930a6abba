/-
AmbiRTC/RxSequence.lean

The browser's loss estimate (client/engine.js `_trackRxSeq`, `_advanceRxSeqWindow`,
`_clearRxSeqWindow`, `_isSeqNewer`).  Each channel has a ring of 64 marks for the
sequence numbers from its base on; a number is lost when the base goes beyond it
and its mark is not set.

The counter of lost packets is a JavaScript number, here an integer; the typed
arrays are words of their own widths, and wrap as these do.
-/
import Mathlib.Logic.Function.Iterate
import Mathlib.Logic.Function.Basic
import Mathlib.Data.Int.Notation

namespace AmbiRTC.Client

/-- `RX_SEQ_WINDOW_SIZE` -/
def rxSeqWindowSize : ℕ := 64

/-- `RX_SEQ_WINDOW_MASK` -/
def rxSeqWindowMask : UInt32 := 63

/-- What the five arrays hold for one channel; the marks are 0 or 1. -/
structure SeqRecv where
  has : Bool
  base : UInt32
  high : UInt32
  seen : UInt16
  window : ℕ → Bool

/-- `_isSeqNewer`; `| 0` reads the difference as a signed word. -/
def isSeqNewer (seqNum lastSeq : UInt32) : Bool := 0 < (seqNum - lastSeq).toInt32.toInt

namespace SeqRecv

/-- The slot of a sequence number in its channel's part of the ring. -/
def slot (seqNum : UInt32) : ℕ := (seqNum &&& rxSeqWindowMask).toNat

/-- The row after `_resetRxSeqTracking`. -/
def reset : SeqRecv := ⟨false, 0, 0, 0, fun _ => false⟩

/-- One turn of the loop of `_advanceRxSeqWindow`, which keeps the base in a local
variable; `lost` is `_totalPktsLost`. -/
def expire (r : SeqRecv) (lost : ℤ) : SeqRecv × ℤ :=
  if r.window (slot r.base) = false then ({ r with base := r.base + 1 }, lost + 1)
  else
    ({ r with
        base := r.base + 1
        window := Function.update r.window (slot r.base) false
        seen := r.seen - 1 }, lost)

/-- `_advanceRxSeqWindow`. -/
def advanceRxSeqWindow (r : SeqRecv) (lost : ℤ) : ℕ → SeqRecv × ℤ
  | 0 => (r, lost)
  | count + 1 =>
    let p := r.expire lost
    p.1.advanceRxSeqWindow p.2 count

/-- `_clearRxSeqWindow`. -/
def clearRxSeqWindow (r : SeqRecv) : SeqRecv := { r with window := fun _ => false }

/-- The end of `_trackRxSeq`. -/
def mark (r : SeqRecv) (seqNum : UInt32) : SeqRecv :=
  if r.window (slot seqNum) = false then
    { r with
      window := Function.update r.window (slot seqNum) true
      seen := r.seen + 1 }
  else r

/-- `_trackRxSeq` on its channel's row and `_totalPktsLost`. -/
def track (r : SeqRecv) (lost : ℤ) (seqNum : UInt32) : SeqRecv × ℤ :=
  if !r.has then
    (⟨true, seqNum, seqNum, 1, Function.update r.window (slot seqNum) true⟩, lost)
  else
    let offsetFromBase := (seqNum - r.base).toNat
    if offsetFromBase ≥ rxSeqWindowSize then
      if !isSeqNewer seqNum r.high then (r, lost)
      else
        let advance := offsetFromBase - rxSeqWindowSize + 1
        let p :=
          if advance > rxSeqWindowSize then
            ({ r.clearRxSeqWindow with
                seen := 0
                base := seqNum - UInt32.ofNat rxSeqWindowSize + 1 },
              lost + ((advance : ℤ) - r.seen.toNat))
          else r.advanceRxSeqWindow lost advance
        ({ p.1 with high := seqNum }.mark seqNum, p.2)
    else if isSeqNewer seqNum r.high then ({ r with high := seqNum }.mark seqNum, lost)
    else (r.mark seqNum, lost)

end SeqRecv

/-- The rows of the sixteen channels and `_totalPktsLost`. -/
structure RxSeq where
  row : Fin 16 → SeqRecv
  totalPktsLost : ℤ

/-- `_trackRxSeq`. -/
def RxSeq.trackRxSeq (s : RxSeq) (chIdx : Fin 16) (seqNum : UInt32) : RxSeq :=
  let p := (s.row chIdx).track s.totalPktsLost seqNum
  ⟨Function.update s.row chIdx p.1, p.2⟩

/-- After `_resetRxSeqTracking`, with `lost` packets already counted. -/
def RxSeq.reset (lost : ℤ) : RxSeq := ⟨fun _ => SeqRecv.reset, lost⟩

end AmbiRTC.Client
