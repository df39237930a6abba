/-
AmbiRTC/Bundle.lean

The bundled wire format, as the server's `proto` package writes and reads it
(mcu/internal/proto/bundle.go): one packet carries several channels of one
audio frame.

    byte 0     version (high nibble) = 1 | flags (low nibble)
    bytes 1–4  frameTs, little-endian
    bytes 5–6  chMask, little-endian; bit c set iff channel c is present
    bytes 7..  k−1 payload lengths, LEB128, ascending channel order
    then       the k payloads; the last one takes the bytes left over

Go's `int` is 64 bits: the lengths are `Int64` here, and the additions wrap as
they do there.  A result of `none` is a run-time panic; the errors a function
returns are part of its ordinary result.
-/
import AmbiRTC.GoSlice
import AmbiRTC.Words
import Mathlib.Data.List.Sort

namespace AmbiRTC

open GoSlice Words

/-! ### Constants and errors -/

/-- `proto.Channels`: third-order ambisonics. -/
def channels : ℕ := 16

/-- `proto.BundleVersion`: the high nibble of byte 0. -/
def bundleVersion : UInt8 := 1

/-- `proto.BundleFlagIsRec`. -/
def bundleFlagIsRec : UInt8 := 0x01

/-- `binary.MaxVarintLen64`. -/
def maxVarintLen64 : ℕ := 10

/-- The sentinel errors of package `proto` that the bundle functions return. -/
inductive ProtoError
  | bundleShort
  | bundleVersion
  | bundleLength
  | bundleEmpty
  | channelRange
  deriving DecidableEq, Repr

/-- The text of each error. -/
def ProtoError.text : ProtoError → String
  | bundleShort => "proto: bundle shorter than 7-byte header"
  | bundleVersion => "proto: unknown bundle version"
  | bundleLength => "proto: bundle length table overruns payload"
  | bundleEmpty => "proto: bundle has no channels"
  | channelRange => "proto: channel index out of range [0,15]"

/-- `proto.ChannelPayload`. -/
structure ChannelPayload where
  chIdx : UInt8
  payload : List UInt8
  deriving DecidableEq, Repr

/-! ### Varints of encoding/binary -/

/-- The loop of `binary.PutUvarint`, over the room left in its buffer. -/
def putUvarintLoop : ℕ → UInt64 → List UInt8
  | 0, _ => []
  | room + 1, x =>
      if x ≥ 0x80 then (x.toUInt8 ||| 0x80) :: putUvarintLoop room (x >>> 7)
      else [x.toUInt8]

/-- `binary.PutUvarint` into a buffer of `MaxVarintLen64` bytes. -/
def putUvarint (x : UInt64) : List UInt8 := putUvarintLoop maxVarintLen64 x

/-- The loop of `binary.Uvarint`: the index `i`, the value so far and the
shift. -/
def uvarintLoop : List UInt8 → ℕ → UInt64 → ℕ → UInt64 × ℤ
  | [], _, _, _ => (0, 0)
  | b :: rest, i, x, s =>
      if i = maxVarintLen64 then (0, -(i + 1))
      else if b < 0x80 then
        if i = maxVarintLen64 - 1 ∧ b > 1 then (0, -(i + 1))
        else (x ||| b.toUInt64 <<< UInt64.ofNat s, i + 1)
      else uvarintLoop rest (i + 1) (x ||| (b &&& 0x7f).toUInt64 <<< UInt64.ofNat s) (s + 7)

/-- `binary.Uvarint`: the value and the bytes read; a count of at most zero
reports a truncated or overlong number. -/
def uvarint (buf : List UInt8) : UInt64 × ℤ := uvarintLoop buf 0 0 0

/-! ### MarshalBundle -/

/-- The mask loop of `MarshalBundle`: one bit per channel, refusing an index
out of range or a bit already set. -/
def bundleMask : List ChannelPayload → UInt16 → Except ProtoError UInt16
  | [], mask => .ok mask
  | c :: cs, mask =>
      if c.chIdx.toNat ≥ channels then .error .channelRange
      else
        let bit : UInt16 := 1 <<< c.chIdx.toUInt16
        if mask &&& bit ≠ 0 then .error .channelRange
        else bundleMask cs (mask ||| bit)

/-- `hdr[:]`. -/
def bundleHeader (frameTs : UInt32) (mask : UInt16) (isRec : Bool) : List UInt8 :=
  [bundleVersion <<< 4 ||| if isRec then bundleFlagIsRec else 0]
    ++ putLeUInt32 frameTs ++ putLeUInt16 mask

/-- `sort.Slice` by `ChIdx`.  The sort there is not stable; entries with equal
indices are refused by the mask loop whichever way they come out. -/
def sortByChIdx (chans : List ChannelPayload) : List ChannelPayload :=
  chans.insertionSort fun a b => a.chIdx ≤ b.chIdx

/-- The length table: one varint for each channel but the last. -/
def lengthBytes (sorted : List ChannelPayload) : List UInt8 :=
  sorted.dropLast.flatMap fun c => putUvarint (UInt64.ofNat c.payload.length)

/-- `MarshalBundle`. -/
def marshalBundle (frameTs : UInt32) (chans : List ChannelPayload) (isRec : Bool) :
    Except ProtoError (List UInt8) :=
  if chans.length = 0 then .error .bundleEmpty
  else if chans.length > channels then .error .channelRange
  else
    let sorted := sortByChIdx chans
    match bundleMask sorted 0 with
    | .error e => .error e
    | .ok mask =>
        .ok (bundleHeader frameTs mask isRec ++ lengthBytes sorted
          ++ sorted.flatMap ChannelPayload.payload)

/-! ### ParseBundle -/

/-- The four results of `ParseBundle`. -/
structure BundleReturn where
  frameTs : UInt32
  chans : List ChannelPayload
  isRec : Bool
  err : Option ProtoError
  deriving DecidableEq, Repr

/-- `return 0, nil, false, e`. -/
def BundleReturn.fail (e : ProtoError) : BundleReturn := ⟨0, [], false, some e⟩

/-- `bits.OnesCount16`. -/
def onesCount16 (x : UInt16) : ℕ := (List.range 16).countP fun i => x.toNat.testBit i

/-- The channel indices of a mask: `mask&(uint16(1)<<c) != 0` for `c` from 0. -/
def maskIdxs (mask : UInt16) : List UInt8 :=
  ((List.range channels).map UInt8.ofNat).filter fun c =>
    mask &&& ((1 : UInt16) <<< c.toUInt16) ≠ 0

/-- The length-table loop: `n` varints from `off` on, with their sum as an
`int`.  Returns the offset behind the table, the lengths and the sum. -/
def readLengths (buf : Slice UInt8) :
    ℕ → ℕ → Int64 → Option (Except ProtoError (ℕ × List Int64 × Int64))
  | 0, off, sum => some (.ok (off, [], sum))
  | n + 1, off, sum => do
      let tail ← buf.dropFrom off
      let r := uvarint tail.data
      if r.2 ≤ 0 then some (.error .bundleLength)
      else
        match ← readLengths buf n (off + r.2.toNat) (sum + r.1.toInt64) with
        | .error e => some (.error e)
        | .ok (off', lengths, sum') => some (.ok (off', r.1.toInt64 :: lengths, sum'))

/-- The loop that slices `region[p : p+lengths[i]]` for each channel.  The
payloads alias the packet; nothing appends to them, so their spare capacity is
dropped here. -/
def cutPayloads (region : Slice UInt8) :
    List UInt8 → List Int64 → Int64 → Option (List ChannelPayload)
  | c :: idxs, l :: lengths, p => do
      let payload ← region.sub p.toInt (p + l).toInt
      let rest ← cutPayloads region idxs lengths (p + l)
      some (⟨c, payload.data⟩ :: rest)
  | _, _, _ => some []

/-- `ParseBundle`. -/
def parseBundle (buf : Slice UInt8) : Option BundleReturn :=
  let byte (i : ℕ) : UInt8 := buf.data.getD i 0
  if buf.data.length < 7 then some (.fail .bundleShort)
  else if byte 0 >>> 4 ≠ bundleVersion then some (.fail .bundleVersion)
  else
    let isRec := decide (byte 0 &&& bundleFlagIsRec ≠ 0)
    let frameTs := leUInt32 (byte 1) (byte 2) (byte 3) (byte 4)
    let mask := leUInt16 (byte 5) (byte 6)
    let k := onesCount16 mask
    if k = 0 then some ⟨frameTs, [], isRec, some .bundleEmpty⟩
    else do
      match ← readLengths buf (k - 1) 7 0 with
      | .error e => some (.fail e)
      | .ok (off, lengths, sum) =>
          let region ← buf.dropFrom off
          if sum > region.len then some (.fail .bundleLength)
          else
            -- the last length is implicit
            let chans ← cutPayloads region (maskIdxs mask) (lengths ++ [region.len - sum]) 0
            some ⟨frameTs, chans, isRec, none⟩

end AmbiRTC
