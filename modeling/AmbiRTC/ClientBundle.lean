/-
AmbiRTC/ClientBundle.lean

The browser's mirror of the bundled format (client/bundle.js).

A JavaScript number is a double; every number here is an integer far below
`2^53`, so lengths, offsets and sums are natural numbers.  The bitwise
operators work on 32-bit integers and take shift counts mod 32, which is what
`UInt32` does; `x >>> 0` reads the 32 bits as unsigned.
-/
import AmbiRTC.Bundle

namespace AmbiRTC.Client

open Words

/-- The exceptions `parseBundle` throws. -/
inductive BundleThrow
  | short
  | version
  | empty
  | lengthOverrun
  | varintTruncated
  | varintTooLong
  deriving DecidableEq, Repr

/-- The message of each exception. -/
def BundleThrow.message : BundleThrow → String
  | short => "bundle: short"
  | version => "bundle: version"
  | empty => "bundle: empty"
  | lengthOverrun => "bundle: length overrun"
  | varintTruncated => "bundle: varint truncated"
  | varintTooLong => "bundle: varint too long"

/-- The object `parseBundle` returns. -/
structure ParsedBundle where
  frameTs : UInt32
  chans : List ChannelPayload
  isRec : Bool
  deriving DecidableEq, Repr

/-- The loop of `readUvarint` over the bytes from `off` on: the value so far,
the shift and the bytes read. -/
def readUvarintLoop : List UInt8 → UInt32 → ℕ → ℕ → Except BundleThrow (UInt32 × ℕ)
  | [], _, _, _ => .error .varintTruncated
  | b :: rest, x, s, n =>
      if b < 0x80 then .ok (x ||| b.toUInt32 <<< UInt32.ofNat s, n + 1)
      else if n + 1 > 5 then .error .varintTooLong
      else readUvarintLoop rest (x ||| (b &&& 0x7f).toUInt32 <<< UInt32.ofNat s) (s + 7) (n + 1)

/-- `readUvarint`. -/
def readUvarint (buf : List UInt8) (off : ℕ) : Except BundleThrow (UInt32 × ℕ) :=
  readUvarintLoop (buf.drop off) 0 0 0

/-- The length-table loop of `parseBundle`: offset behind the table, lengths
and their sum. -/
def readLengths (buf : List UInt8) : ℕ → ℕ → ℕ → Except BundleThrow (ℕ × List ℕ × ℕ)
  | 0, off, sum => .ok (off, [], sum)
  | n + 1, off, sum => do
      let r ← readUvarint buf off
      let t ← readLengths buf n (off + r.2) (sum + r.1.toNat)
      .ok (t.1, r.1.toNat :: t.2.1, t.2.2)

/-- The loop that takes `buf.subarray(p, p + lengths[i])` for each channel. -/
def cutPayloads (buf : List UInt8) : List UInt8 → List ℕ → ℕ → List ChannelPayload
  | c :: idxs, l :: lengths, p =>
      ⟨c, (buf.drop p).take l⟩ :: cutPayloads buf idxs lengths (p + l)
  | _, _, _ => []

/-- `parseBundle`. -/
def parseBundle (buf : List UInt8) : Except BundleThrow ParsedBundle :=
  let byte (i : ℕ) : UInt8 := buf.getD i 0
  if buf.length < 7 then .error .short
  else if byte 0 >>> 4 ≠ bundleVersion then .error .version
  else
    let isRec := decide (byte 0 &&& bundleFlagIsRec ≠ 0)
    let frameTs := leUInt32 (byte 1) (byte 2) (byte 3) (byte 4)
    let mask := leUInt16 (byte 5) (byte 6)
    let idxs := ((List.range channels).filter fun c =>
      mask.toUInt32 &&& ((1 : UInt32) <<< UInt32.ofNat c) ≠ 0).map UInt8.ofNat
    let k := idxs.length
    if k = 0 then .error .empty
    else do
      let t ← readLengths buf (k - 1) 7 0
      let regionLen := buf.length - t.1
      if t.2.2 > regionLen then .error .lengthOverrun
      else
        .ok ⟨frameTs, cutPayloads buf idxs (t.2.1 ++ [regionLen - t.2.2]) t.1, isRec⟩

/-! ### marshalBundle -/

/-- An entry `{ chIdx, payload }` of a channel list. -/
structure Chan where
  chIdx : ℤ
  payload : List UInt8
  deriving DecidableEq, Repr

/-- The exceptions `marshalBundle` throws. -/
inductive MarshalThrow
  | empty
  | tooManyChannels
  | chIdxRange
  | duplicateChannel
  deriving DecidableEq, Repr

/-- The message of each exception. -/
def MarshalThrow.message : MarshalThrow → String
  | empty => "bundle: empty"
  | tooManyChannels => "bundle: too many channels"
  | chIdxRange => "bundle: chIdx range"
  | duplicateChannel => "bundle: duplicate channel"

/-- The loop of `uvarint`: seven bits of `v` a turn. -/
def uvarintLoop (v : UInt32) : List UInt8 :=
  if v ≥ 0x80 then (v &&& 0x7f ||| 0x80).toUInt8 :: uvarintLoop (v >>> 7) else [v.toUInt8]
termination_by v.toNat
decreasing_by
  rename_i h
  have hpos : 128 ≤ v.toNat := UInt32.le_iff_toNat_le.mp h
  rw [UInt32.toNat_shiftRight]
  simp only [UInt32.reduceToNat, Nat.reduceMod, Nat.shiftRight_eq_div_pow]
  omega

/-- `uvarint`. -/
def uvarint (value : ℕ) : List UInt8 := uvarintLoop (UInt32.ofNat value)

/-- The mask loop of `marshalBundle`; the mask is a 32-bit integer. -/
def chanMask : List Chan → UInt32 → Except MarshalThrow UInt32
  | [], mask => .ok mask
  | c :: cs, mask =>
      if c.chIdx < 0 ∨ c.chIdx ≥ channels then .error .chIdxRange
      else
        let bit : UInt32 := 1 <<< UInt32.ofNat c.chIdx.toNat
        if mask &&& bit ≠ 0 then .error .duplicateChannel
        else chanMask cs (mask ||| bit)

/-- `[...chans].sort((a, b) => a.chIdx - b.chIdx)`, which is stable. -/
def sortChans (chans : List Chan) : List Chan :=
  chans.insertionSort fun a b => a.chIdx ≤ b.chIdx

/-- `marshalBundle`.  `setUint32` and `setUint16` take their argument mod `2^32`
and `2^16`. -/
def marshalBundle (frameTs : ℤ) (chans : List Chan) (isRec : Bool) :
    Except MarshalThrow (List UInt8) :=
  if chans.length = 0 then .error .empty
  else if chans.length > channels then .error .tooManyChannels
  else
    let sorted := sortChans chans
    match chanMask sorted 0 with
    | .error e => .error e
    | .ok mask =>
        let lenBytes := sorted.dropLast.flatMap fun c => uvarint c.payload.length
        .ok ((bundleVersion <<< 4 ||| if isRec then bundleFlagIsRec else 0)
          :: (putLeUInt32 (UInt32.ofInt frameTs) ++ putLeUInt16 mask.toUInt16)
          ++ lenBytes ++ sorted.flatMap Chan.payload)

end AmbiRTC.Client
