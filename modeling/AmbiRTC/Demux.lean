/-
AmbiRTC/Demux.lean

The receiving end of the uplink (mcu/internal/session/session.go `handlePacket`).
A DataChannel message is a legacy packet or a bundle, told apart by the high
nibble of its first byte: `isRec` and zeros in the one, the version in the other.

Main results: `Packet.parse_marshalled` (the legacy round trip) and
`handlePacket_demultiplexes`.
-/
import AmbiRTC.BundleRoundTrip
import AmbiRTC.Packet

namespace AmbiRTC

open GoSlice Words

/-! ### handlePacket -/

/-- `inboundPkt`. -/
structure InboundPkt where
  chIdx : UInt8
  frameTs : UInt32
  payload : List UInt8
  deriving DecidableEq, Repr

/-- What `handlePacket` changes in a session. -/
structure Uplink where
  /-- nanoseconds; recording while the clock is below it -/
  recDeadline : ℤ
  /-- what `pushInbound` has been called with -/
  handed : List InboundPkt
  deriving DecidableEq, Repr

/-- `recHangover`: 250 ms. -/
def recHangover : ℤ := 250 * 1000000

namespace Uplink

/-- `markRecording`. -/
def markRecording (now : ℤ) (s : Uplink) : Uplink := { s with recDeadline := now + recHangover }

/-- `IsRecording`. -/
def isRecording (now : ℤ) (s : Uplink) : Bool := now < s.recDeadline

/-- Call `pushInbound`. -/
def pushInbound (p : InboundPkt) (s : Uplink) : Uplink := { s with handed := s.handed ++ [p] }

/-- The channel loop of `handlePacket`. -/
def pushChannels (frameTs : UInt32) : List ChannelPayload → Uplink → Uplink
  | [], s => s
  | c :: chans, s =>
    if c.payload.length = 0 then pushChannels frameTs chans s
    else pushChannels frameTs chans (s.pushInbound ⟨c.chIdx, frameTs, c.payload⟩)

end Uplink

/-- `len(data) > 0 && data[0]>>4 == proto.BundleVersion` -/
def IsBundle (data : List UInt8) : Prop :=
  data.length > 0 ∧ data.getD 0 0 >>> 4 = bundleVersion

instance (data : List UInt8) : Decidable (IsBundle data) := inferInstanceAs (Decidable (_ ∧ _))

/-- `handlePacket` at the time `now`; `none` is a panic. -/
def handlePacket (now : ℤ) (s : Uplink) (data : Slice UInt8) : Option Uplink :=
  if IsBundle data.data then do
    let r ← parseBundle data
    match r.err with
    | some _ => return s
    | none =>
      let s := if r.isRec then s.markRecording now else s
      return s.pushChannels r.frameTs r.chans
  else
    match Packet.parse data.data with
    | .error _ => some s
    | .ok pkt =>
      let s := if pkt.isRec then s.markRecording now else s
      if pkt.payload.length = 0 then some s
      else some (s.pushInbound ⟨pkt.chIdx, pkt.frameTs, pkt.payload⟩)

/-! ### The legacy packet -/

namespace Packet

/-- The control byte of a legacy packet. -/
def control (p : Packet) : UInt8 :=
  if p.isRec then p.chIdx &&& chIdxMask ||| isRecBit else p.chIdx &&& chIdxMask

theorem marshalBinary_of_le {p : Packet} (h : p.chIdx ≤ 15) :
    p.marshalBinary = .ok
      (p.control :: (putLeUInt32 p.seqNum ++ putLeUInt32 p.frameTs) ++ p.payload) := by
  have hle : ¬ p.chIdx > chIdxMask := UInt8.not_lt.mpr h
  rw [marshalBinary, appendTo, if_neg hle]
  rfl

/-- The four low bits, the bit of `isRec` and the high nibble of a control byte. -/
theorem control_bits {p : Packet} (h : p.chIdx ≤ 15) :
    decide (p.control &&& isRecBit ≠ 0) = p.isRec ∧ p.control &&& chIdxMask = p.chIdx ∧
      p.control >>> 4 ≠ bundleVersion := by
  have hbits : ∀ (i : Fin 16) (b : Bool),
      let c : UInt8 := UInt8.ofNat i
      let control := if b then c &&& chIdxMask ||| isRecBit else c &&& chIdxMask
      decide (control &&& isRecBit ≠ 0) = b ∧ control &&& chIdxMask = c ∧
        control >>> 4 ≠ bundleVersion := by
    decide
  have hlt : p.chIdx.toNat < 16 := Nat.lt_succ_of_le (UInt8.le_iff_toNat_le.mp h)
  have hi := hbits ⟨p.chIdx.toNat, hlt⟩ p.isRec
  simp only [UInt8.ofNat_toNat] at hi
  exact hi

/-- **Legacy round trip.** -/
theorem parse_marshalled {p : Packet} (h : p.chIdx ≤ 15) :
    parse (p.control :: (putLeUInt32 p.seqNum ++ putLeUInt32 p.frameTs) ++ p.payload) = .ok p := by
  obtain ⟨hrec, hidx, -⟩ := control_bits h
  have hlen : ¬ (p.control :: (putLeUInt32 p.seqNum ++ putLeUInt32 p.frameTs)
      ++ p.payload).length < headerSize := by
    rw [List.length_append]
    exact not_lt.mpr (Nat.le_add_right 9 _)
  rw [parse, if_neg hlen]
  congr 1
  calc (⟨decide (p.control &&& isRecBit ≠ 0), p.control &&& chIdxMask,
        leUInt32 p.seqNum.toUInt8 (p.seqNum >>> 8).toUInt8 (p.seqNum >>> 16).toUInt8
          (p.seqNum >>> 24).toUInt8,
        leUInt32 p.frameTs.toUInt8 (p.frameTs >>> 8).toUInt8 (p.frameTs >>> 16).toUInt8
          (p.frameTs >>> 24).toUInt8, p.payload⟩ : Packet)
      = ⟨p.isRec, p.chIdx, p.seqNum, p.frameTs, p.payload⟩ := by
        rw [hrec, hidx, leUInt32_put, leUInt32_put]
    _ = p := rfl

end Packet

/-! ### The two formats on one channel -/

/-- What the loop hands over: the non-empty payloads, in order. -/
theorem Uplink.pushChannels_eq (frameTs : UInt32) (chans : List ChannelPayload) (s : Uplink) :
    s.pushChannels frameTs chans = { s with
      handed := s.handed ++ (chans.filter fun c => c.payload ≠ []).map fun c =>
        ⟨c.chIdx, frameTs, c.payload⟩ } := by
  induction chans generalizing s with
  | nil =>
    rw [List.filter_nil, List.map_nil, List.append_nil]
    rfl
  | cons c chans ih =>
    by_cases hc : c.payload = []
    · rw [pushChannels, if_pos (List.length_eq_zero_iff.mpr hc), ih,
        List.filter_cons_of_neg (by simpa using hc)]
    · rw [pushChannels, if_neg (mt List.length_eq_zero_iff.mp hc), ih,
        List.filter_cons_of_pos (by simpa using hc), List.map_cons, pushInbound]
      simp only [List.append_assoc, List.singleton_append]

theorem isBundle_of_parses {data : Slice UInt8} {frameTs : UInt32} {chans : List ChannelPayload}
    {isRec : Bool} (h : PacketOf data.data frameTs chans isRec) : IsBundle data.data :=
  ⟨lt_of_lt_of_le (by decide) h.header.length, (version_iff _).mpr h.header.version⟩

/-- **Demultiplexing**: the bytes of a legacy packet are handled as that packet,
those of a bundle as that bundle, and neither is taken for the other. -/
theorem handlePacket_demultiplexes (now : ℤ) (s : Uplink) :
    (∀ p : Packet, p.chIdx ≤ 15 → ∃ buf, p.marshalBinary = .ok buf ∧
      ∀ data : Slice UInt8, data.data = buf → ¬ IsBundle data.data ∧
        handlePacket now s data = some
          { recDeadline := if p.isRec then now + recHangover else s.recDeadline
            handed := s.handed ++
              if p.payload = [] then [] else [⟨p.chIdx, p.frameTs, p.payload⟩] }) ∧
    (∀ frameTs chans isRec buf, marshalBundle frameTs chans isRec = .ok buf →
      ∃ sorted : List ChannelPayload,
        sorted.Perm chans ∧ sorted.Pairwise (fun a b => a.chIdx < b.chIdx) ∧
        ∀ data : Slice UInt8, data.data = buf → IsBundle data.data ∧
          handlePacket now s data = some
            { recDeadline := if isRec then now + recHangover else s.recDeadline
              handed := s.handed ++ (sorted.filter fun c => c.payload ≠ []).map fun c =>
                ⟨c.chIdx, frameTs, c.payload⟩ }) := by
  constructor
  · intro p h
    refine ⟨_, Packet.marshalBinary_of_le h, fun data hdata => ?_⟩
    -- the flags of the legacy format never carry the bundle bit
    have hlegacy : ¬ IsBundle data.data := by
      rw [hdata]
      exact fun hbundle => (Packet.control_bits h).2.2 hbundle.2
    refine ⟨hlegacy, ?_⟩
    rw [handlePacket, if_neg hlegacy, hdata, Packet.parse_marshalled h]
    by_cases hpayload : p.payload = []
    · cases hrec : p.isRec <;> simp [hpayload, hrec, Uplink.markRecording]
    · cases hrec : p.isRec <;> simp [hpayload, hrec, Uplink.markRecording, Uplink.pushInbound]
  -- a bundle, whose channels are handed on in the order of the mask
  · intro frameTs chans isRec buf hbuf
    refine ⟨sortByChIdx chans, sortByChIdx_perm chans, ?_, fun data hdata => ?_⟩
    · have hpair := chIdxs_sort_pairwise (valid_of_marshalBundle hbuf).nodup
      exact (List.pairwise_map.mp hpair).imp UInt8.lt_iff_toNat_lt.mpr
    · have hpacket : PacketOf data.data frameTs (sortByChIdx chans) isRec := by
        rw [hdata]
        exact marshalBundle_packetOf hbuf (hdata ▸ data.length_lt)
      refine ⟨isBundle_of_parses hpacket, ?_⟩
      rw [handlePacket, if_pos (isBundle_of_parses hpacket), hpacket.parseBundle_eq]
      simp only [Option.bind_eq_bind, Option.bind_some, Uplink.pushChannels_eq]
      cases isRec <;> rfl

/-- A recorded packet of channel 3. -/
theorem handlePacket_demultiplexes_recorded :
    handlePacket 5 ⟨0, []⟩ ⟨[0x83, 1, 0, 0, 0, 7, 0, 0, 0, 42], [], by decide⟩
      = some ⟨5 + recHangover, [⟨3, 7, [42]⟩]⟩ := by
  obtain ⟨buf, hbuf, h⟩ :=
    (handlePacket_demultiplexes 5 ⟨0, []⟩).1 ⟨true, 3, 1, 7, [42]⟩ (by decide)
  obtain rfl := Except.ok.inj hbuf
  exact (h _ rfl).2

end AmbiRTC
