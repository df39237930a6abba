/-
AmbiRTC/ClientRoundTrip.lean

The browser's `marshalBundle` against the server's `MarshalBundle`.  The two
sort, build the mask and write the length table each in its own words: the
browser's mask and varints live in 32 bits, the server's in 16 and 64.

Main results: `Client.marshalBundle_eq` (they write the same bytes) and
`marshalBundle_interoperates`, which has the browser read them back.
-/
import AmbiRTC.BundleRoundTrip
import AmbiRTC.BundleAgreement

namespace AmbiRTC

open Words

namespace Client

/-! ### uvarint writes LEB128 -/

theorem uvarintLoop_eq_encode (v : UInt32) : uvarintLoop v = Leb128.encode v.toNat := by
  induction v using uvarintLoop.induct with
  | case1 v hge ih =>
    have hv : ¬ v.toNat < 128 := not_lt.mpr (UInt32.le_iff_toNat_le.mp hge)
    have hshift : (v >>> 7).toNat = v.toNat / 128 := by
      rw [UInt32.toNat_shiftRight]
      exact Nat.shiftRight_eq_div_pow v.toNat 7
    have hhead : (v &&& 0x7f ||| 0x80).toUInt8 = UInt8.ofNat (v.toNat % 128 + 128) := by
      apply UInt8.toNat_inj.mp
      have hlow : (v &&& 0x7f).toNat = v.toNat % 128 := by
        rw [UInt32.toNat_and]
        exact Nat.and_two_pow_sub_one_eq_mod v.toNat 7
      have hor : (v &&& 0x7f ||| 0x80).toNat = v.toNat % 128 + 128 := by
        rw [UInt32.toNat_or, hlow]
        exact or_shift_eq_add 1 7 (Nat.mod_lt _ (by decide))
      rw [UInt32.toNat_toUInt8, hor, Leb128.toNat_ofNat_of_lt (by omega)]
      exact Nat.mod_eq_of_lt (by omega)
    rw [uvarintLoop, if_pos hge, ih, hshift, hhead, Leb128.encode_of_ge hv]
  | case2 v hlt =>
    have hv : v.toNat < 128 := by
      rw [ge_iff_le, UInt32.le_iff_toNat_le, not_le] at hlt
      exact hlt
    rw [uvarintLoop, if_neg hlt, Leb128.encode_of_lt hv]
    congr 1

theorem uvarint_eq_encode {n : ℕ} (h : n < 2 ^ 32) : uvarint n = Leb128.encode n := by
  rw [uvarint, uvarintLoop_eq_encode, UInt32.toNat_ofNat', Nat.mod_eq_of_lt h]

/-! ### The channel list in the browser -/

/-- A channel of the server's list as the browser's caller writes it. -/
def Chan.of (c : ChannelPayload) : Chan := ⟨c.chIdx.toNat, c.payload⟩

theorem sortChans_map (chans : List ChannelPayload) :
    sortChans (chans.map Chan.of) = (sortByChIdx chans).map Chan.of := by
  refine (List.map_insertionSort _ _ Chan.of chans fun a _ b _ => ?_).symm
  show a.chIdx ≤ b.chIdx ↔ (a.chIdx.toNat : ℤ) ≤ b.chIdx.toNat
  rw [UInt8.le_iff_toNat_le, Nat.cast_le]

/-- Where the server's mask loop succeeds, the browser's builds the same mask. -/
theorem chanMask_of_bundleMask {chans : List ChannelPayload} {mask m : UInt16}
    (h : bundleMask chans mask = .ok m) :
    chanMask (chans.map Chan.of) mask.toUInt32 = .ok m.toUInt32 := by
  induction chans generalizing mask with
  | nil =>
    obtain rfl := Except.ok.inj h
    rfl
  | cons c cs ih =>
    rw [bundleMask] at h
    split at h
    · cases h
    simp only at h
    split at h
    · cases h
    rename_i hge hbit
    have hc : c.chIdx.toNat < 16 := not_le.mp hge
    have hrange : ¬ ((c.chIdx.toNat : ℤ) < 0 ∨ (c.chIdx.toNat : ℤ) ≥ channels) := by
      show ¬ ((c.chIdx.toNat : ℤ) < 0 ∨ (c.chIdx.toNat : ℤ) ≥ (16 : ℕ))
      omega
    rw [toUInt16_chIdx, and_bit_ne_zero_16 _ hc, ← and_bit_ne_zero_32 _ hc] at hbit
    have hbit32 : mask.toUInt32 ||| ((1 : UInt32) <<< UInt32.ofNat c.chIdx.toNat)
        = (mask ||| ((1 : UInt16) <<< c.chIdx.toUInt16)).toUInt32 := by
      apply UInt32.toNat_inj.mp
      rw [toUInt16_chIdx, UInt32.toNat_or, UInt16.toNat_toUInt32, UInt16.toNat_toUInt32,
        toNat_one_shiftLeft_32 hc, toNat_or_bit_16 mask hc]
    rw [List.map_cons, chanMask, Chan.of, if_neg hrange]
    simp only [Int.toNat_natCast]
    rw [if_neg hbit, hbit32]
    exact ih h

theorem lenBytes_eq {sorted : List ChannelPayload} (h : totalBytes sorted < 2 ^ 32) :
    ((sorted.map Chan.of).dropLast.flatMap fun c => uvarint c.payload.length)
      = lengthBytes sorted := by
  rw [lengthBytes, ← List.map_dropLast, List.flatMap_map]
  refine List.flatMap_congr fun c hc => ?_
  have hle := payload_length_le (List.dropLast_subset sorted hc)
  show uvarint c.payload.length = putUvarint (UInt64.ofNat c.payload.length)
  rw [uvarint_eq_encode (by omega), putUvarint_ofNat (by omega)]

/-! ### The same bytes -/

/-- On what the server can bundle in less than 4 GiB the browser writes the same
packet. -/
theorem marshalBundle_eq {frameTs : UInt32} {chans : List ChannelPayload} {isRec : Bool}
    {buf : List UInt8} (h : AmbiRTC.marshalBundle frameTs chans isRec = .ok buf)
    (htotal : totalBytes chans < 2 ^ 32) :
    marshalBundle frameTs.toNat (chans.map Chan.of) isRec = .ok buf := by
  have hvalid := valid_of_marshalBundle h
  obtain ⟨mask, hm, -⟩ := @bundleMask_ok _ 0 hvalid.sort.range hvalid.sort.nodup (by simp)
  have hne : ¬ chans.length = 0 := fun h0 => hvalid.nonempty (List.length_eq_zero_iff.mp h0)
  have hle : ¬ chans.length > channels := not_lt.mpr hvalid.length_le
  have hts : UInt32.ofInt (frameTs.toNat : ℤ) = frameTs := by
    have hlt := frameTs.toNat_lt
    apply UInt32.toNat_inj.mp
    simp only [UInt32.ofInt, UInt32.toNat_ofNat']
    omega
  rw [AmbiRTC.marshalBundle, if_neg hne, if_neg hle] at h
  simp only [hm] at h
  obtain rfl := Except.ok.inj h
  have hm32 : chanMask ((sortByChIdx chans).map Chan.of) 0 = .ok mask.toUInt32 :=
    chanMask_of_bundleMask hm
  have hpayloads : ((sortByChIdx chans).map Chan.of).flatMap Chan.payload
      = (sortByChIdx chans).flatMap ChannelPayload.payload := by
    rw [List.flatMap_map]
    rfl
  rw [marshalBundle, List.length_map, if_neg hne, if_neg hle]
  simp only [sortChans_map, hm32]
  rw [lenBytes_eq (by rwa [totalBytes_sort]), hpayloads, hts, UInt16.toUInt16_toUInt32]
  rfl

/-- The browser reads a packet of short enough payloads as the server does. -/
theorem parseBundle_packetOf {buf : List UInt8} {frameTs : UInt32}
    {sorted : List ChannelPayload} {isRec : Bool} (h : PacketOf buf frameTs sorted isRec)
    (htotal : totalBytes sorted < 2 ^ 32) :
    parseBundle buf = .ok ⟨frameTs, sorted, isRec⟩ := by
  have hlen : ∀ c ∈ sorted.dropLast, c.payload.length < 2 ^ 32 := by
    intro c hc
    have hle := payload_length_le (List.dropLast_subset sorted hc)
    omega
  have hshort : ∀ k ∈ Leb128.widths ((presentChannels buf).length - 1) (buf.drop 7), k ≤ 6 := by
    rw [h.widths]
    intro k hk
    obtain ⟨c, hc, rfl⟩ := List.mem_map.mp hk
    have := hlen c hc
    exact Leb128.length_encode_le (k := 5) (by omega)
  have hplain : (sorted.dropLast.map fun c => c.payload.length).map clientLength
      = sorted.dropLast.map fun c => c.payload.length := by
    rw [List.map_map]
    exact List.map_congr_left fun c hc => clientLength_of_lt (hlen c hc)
  have hfits : ¬ (sorted.dropLast.map fun c => c.payload.length).sum
      > (sorted.flatMap ChannelPayload.payload).length := by
    rw [length_flatMap_payload]
    exact not_lt.mpr (sum_dropLast_le sorted)
  have hresult := BundleReturn.mk.inj h.result
  rw [parseBundle_of_short h.header h.table hshort, hplain, if_neg hfits]
  congr 2
  · exact hresult.1
  · exact hresult.2.1
  · exact hresult.2.2.1

end Client

/-- **Interoperability**: a valid channel list of less than 2 GiB gives the same
bytes on either side, and the browser reads them back as the timestamp, the
flag and the payloads sorted by channel. -/
theorem marshalBundle_interoperates (frameTs : UInt32) (isRec : Bool)
    (chans : List ChannelPayload) (h : ValidChans chans) (htotal : totalBytes chans < 2 ^ 31) :
    ∃ buf sorted, Client.marshalBundle frameTs.toNat (chans.map Client.Chan.of) isRec = .ok buf ∧
      marshalBundle frameTs chans isRec = .ok buf ∧
      Client.parseBundle buf = .ok ⟨frameTs, sorted, isRec⟩ ∧
      sorted.Perm chans ∧ sorted.Pairwise fun a b => a.chIdx < b.chIdx := by
  obtain ⟨mask, -, hbuf⟩ := marshalBundle_of_valid h frameTs isRec
  have htotal' : totalBytes (sortByChIdx chans) < 2 ^ 31 := by rwa [totalBytes_sort]
  have hlen := @length_packet_lt frameTs isRec _ mask h.sort.length_le htotal'
  refine ⟨_, sortByChIdx chans, Client.marshalBundle_eq hbuf (by omega), hbuf, ?_,
    sortByChIdx_perm chans, ?_⟩
  · exact Client.parseBundle_packetOf (marshalBundle_packetOf hbuf hlen) (by omega)
  · exact (List.pairwise_map.mp (chIdxs_sort_pairwise h.nodup)).imp UInt8.lt_iff_toNat_lt.mpr

/-- Two channels given out of order, one of them empty. -/
theorem marshalBundle_interoperates_two :
    ∃ buf sorted,
      Client.marshalBundle 7 ([⟨9, [1, 2]⟩, ⟨0, []⟩].map Client.Chan.of) true = .ok buf ∧
        marshalBundle 7 [⟨9, [1, 2]⟩, ⟨0, []⟩] true = .ok buf ∧
        Client.parseBundle buf = .ok ⟨7, sorted, true⟩ ∧
        sorted.Perm [⟨9, [1, 2]⟩, ⟨0, []⟩] ∧ sorted.Pairwise fun a b => a.chIdx < b.chIdx :=
  marshalBundle_interoperates 7 true [⟨9, [1, 2]⟩, ⟨0, []⟩]
    ⟨by decide, by decide, by decide, by decide⟩ (by decide)

end AmbiRTC
