/-
AmbiRTC/BundleCanonical.lean

The canonical form of a bundle.  What `ParseBundle` accepts it has read without
loss: the channel list is one `MarshalBundle` takes, in the order it writes, and
the packet written from it parses to the same result.  Only two things of the
packet are not in that result: the flag bits without a meaning, and the spelling
of the lengths.

Main results: `marshalled_of_accepts` (the packet that is written back) and
`parseBundle_canonical`.
-/
import AmbiRTC.BundleRoundTrip

namespace AmbiRTC

open GoSlice Words

/-! ### Accepted packets -/

/-- A result without an error is that of a well-formed packet. -/
theorem accepts_of_parseBundle {buf : Slice UInt8} {r : BundleReturn}
    (hp : parseBundle buf = some r) (he : r.err = none) : Accepts buf.data := by
  have hno : ¬ LengthSumWraps buf.data := by
    rintro ⟨h, vs, rest, ht, hbig, hpass⟩
    rw [parseBundle_of_wraps h ht hpass hbig] at hp
    cases hp
  exact (parsesExactly_of_not_wraps hno).accepts_iff.mp ⟨r, hp, he⟩

section Accepted

variable {buf : List UInt8} {vs : List ℕ} {rest : List UInt8} (h : HeaderOk buf)
  (ht : lengthTable buf = some (vs, rest))

include h ht

theorem chIdxs_bundleResult : chIdxs (bundleResult buf vs rest).chans = presentChannels buf :=
  chIdx_bundleResult h ht

theorem validChans_bundleResult : ValidChans (bundleResult buf vs rest).chans := by
  have hidxs := chIdxs_bundleResult h ht
  have hlen : (bundleResult buf vs rest).chans.length = (presentChannels buf).length := by
    rw [← hidxs, chIdxs, List.length_map]
  constructor
  · intro hnil
    have hpos := length_presentChannels_pos h.mask
    rw [hnil] at hlen
    exact absurd hlen (by simpa using hpos.ne)
  · rw [hlen, presentChannels, setBits]
    exact (List.length_filter_le _ _).trans (List.length_range).le
  · rw [hidxs]
    exact fun c hc => presentChannels_lt hc
  · rw [hidxs]
    exact (setBits_pairwise _ _).imp ne_of_lt

/-- The channels come ascending already. -/
theorem sortByChIdx_bundleResult :
    sortByChIdx (bundleResult buf vs rest).chans = (bundleResult buf vs rest).chans := by
  apply List.Pairwise.insertionSort_eq
  have hpair : (chIdxs (bundleResult buf vs rest).chans).Pairwise (· < ·) := by
    rw [chIdxs_bundleResult h ht]
    exact setBits_pairwise _ _
  exact (List.pairwise_map.mp hpair).imp fun hlt => UInt8.le_iff_toNat_le.mpr hlt.le

variable (hfit : vs.sum ≤ rest.length)

include hfit

theorem lengths_bundleResult :
    (bundleResult buf vs rest).chans.map (fun c => c.payload.length)
      = vs ++ [rest.length - vs.sum] := by
  have hpay : (bundleResult buf vs rest).chans.map ChannelPayload.payload
      = (vs ++ [rest.length - vs.sum]).splitLengths rest := by
    rw [bundleResult, List.map_zipWith, ← List.map_uncurry_zip_eq_zipWith]
    exact List.map_snd_zip (bundleResult_lengths h ht).ge
  have hsum : (vs ++ [rest.length - vs.sum]).sum ≤ rest.length := by
    rw [List.sum_append, List.sum_singleton]
    omega
  calc (bundleResult buf vs rest).chans.map (fun c => c.payload.length)
      = ((bundleResult buf vs rest).chans.map ChannelPayload.payload).map List.length := by
        rw [List.map_map]
        rfl
    _ = vs ++ [rest.length - vs.sum] := by
        rw [hpay]
        exact List.map_splitLengths_length _ _ hsum

theorem totalBytes_bundleResult : totalBytes (bundleResult buf vs rest).chans = rest.length := by
  rw [totalBytes, lengths_bundleResult h ht hfit, List.sum_append, List.sum_singleton]
  omega

theorem lengthBytes_bundleResult (hrest : rest.length < 2 ^ 64) :
    lengthBytes (bundleResult buf vs rest).chans = vs.flatMap Leb128.encode := by
  rw [lengthBytes_eq (by rwa [totalBytes_bundleResult h ht hfit]), List.map_dropLast,
    lengths_bundleResult h ht hfit, List.dropLast_concat]

/-- The packet written from the result: its header without the unused flags, the
lengths in their shortest form, the payload bytes as they were. -/
theorem marshalled_of_accepts (hrest : rest.length < 2 ^ 64) :
    marshalBundle (bundleResult buf vs rest).frameTs (bundleResult buf vs rest).chans
        (bundleResult buf vs rest).isRec
      = .ok (bundleHeader (bundleResult buf vs rest).frameTs
          (leUInt16 (buf.getD 5 0) (buf.getD 6 0)) (bundleResult buf vs rest).isRec
        ++ vs.flatMap Leb128.encode ++ rest) := by
  obtain ⟨mask, hmask, hok⟩ := marshalBundle_of_valid (validChans_bundleResult h ht)
    (bundleResult buf vs rest).frameTs (bundleResult buf vs rest).isRec
  rw [sortByChIdx_bundleResult h ht] at hmask hok
  rw [chIdxs_bundleResult h ht] at hmask
  -- the mask is the one of the packet: the same bits are set
  have heq : mask = leUInt16 (buf.getD 5 0) (buf.getD 6 0) := by
    apply UInt16.toNat_inj.mp
    apply Nat.eq_of_testBit_eq
    intro i
    rw [Bool.eq_iff_iff, hmask, toNat_leUInt16_mask, presentChannels, mem_setBits,
      and_iff_right_iff_imp]
    intro hi
    by_contra hge
    have hbig : 2 ^ 16 ≤ 2 ^ i := Nat.pow_le_pow_right (by decide) (not_lt.mp hge)
    have := Nat.ge_two_pow_of_testBit hi
    have := chMask_lt buf
    omega
  rw [hok, heq, lengthBytes_bundleResult h ht hfit hrest, payload_bundleResult h ht]

end Accepted

/-! ### The header -/

/-- Bits 1 to 3 of byte 0, the flags without a meaning. -/
def unusedFlags : UInt8 := 0x0e

theorem byte0_marshalled {b : UInt8} (h : b.toNat / 16 = 1) :
    (bundleVersion <<< 4 ||| if decide (b &&& bundleFlagIsRec ≠ 0) then bundleFlagIsRec else 0)
      = b ↔ b &&& unusedFlags = 0 := by
  have hall : ∀ n < 256, n / 16 = 1 →
      ((bundleVersion <<< 4 ||| if decide (UInt8.ofNat n &&& bundleFlagIsRec ≠ 0) then
        bundleFlagIsRec else 0) = UInt8.ofNat n ↔ UInt8.ofNat n &&& unusedFlags = 0) := by
    decide +kernel
  rw [← UInt8.ofNat_toNat (x := b)]
  exact hall b.toNat b.toNat_lt h

/-- The header written back is the one read, but for the unused flags. -/
theorem header_marshalled_iff {buf : List UInt8} {vs : List ℕ} {rest : List UInt8}
    (h : HeaderOk buf) :
    bundleHeader (bundleResult buf vs rest).frameTs (leUInt16 (buf.getD 5 0) (buf.getD 6 0))
        (bundleResult buf vs rest).isRec = buf.take 7
      ↔ buf.getD 0 0 &&& unusedFlags = 0 := by
  have htake : buf.take 7 = [buf.getD 0 0] ++ [buf.getD 1 0, buf.getD 2 0, buf.getD 3 0,
      buf.getD 4 0] ++ [buf.getD 5 0, buf.getD 6 0] := by
    obtain ⟨b₀, b₁, b₂, b₃, b₄, b₅, b₆, tail, rfl⟩ : ∃ b₀ b₁ b₂ b₃ b₄ b₅ b₆ tail,
        buf = b₀ :: b₁ :: b₂ :: b₃ :: b₄ :: b₅ :: b₆ :: tail := by
      have hlen := h.length
      match buf, hlen with
      | b₀ :: b₁ :: b₂ :: b₃ :: b₄ :: b₅ :: b₆ :: tail, _ =>
        exact ⟨b₀, b₁, b₂, b₃, b₄, b₅, b₆, tail, rfl⟩
    rfl
  rw [htake, bundleHeader]
  simp only [bundleResult, putLeUInt32_get, putLeUInt16_get, List.append_left_inj,
    List.cons.injEq, and_true]
  exact byte0_marshalled h.version

/-! ### Canonical packets -/

/-- The length varints of a packet, one for each channel but the last. -/
def lengthVarints (buf : List UInt8) : List (List UInt8) :=
  Leb128.entries ((presentChannels buf).length - 1) (buf.drop 7)

/-- No flag without a meaning is set and no length is longer than it need be. -/
structure Canonical (buf : List UInt8) : Prop where
  flags : buf.getD 0 0 &&& unusedFlags = 0
  lengths : ∀ e ∈ lengthVarints buf, Leb128.Minimal e

/-- **Canonical form**: what `ParseBundle` accepts is marshalled again, to a
packet no longer than the one read that parses to the same result; and this
packet is the one read if and only if that one was canonical. -/
theorem parseBundle_canonical (buf : Slice UInt8) (r : BundleReturn)
    (hp : parseBundle buf = some r) (he : r.err = none) :
    (lengthVarints buf.data).length = r.chans.length - 1 ∧
      ∃ out, marshalBundle r.frameTs r.chans r.isRec = .ok out ∧
        out.length ≤ buf.data.length ∧
        (∀ s : Slice UInt8, s.data = out → parseBundle s = some r) ∧
        (out = buf.data ↔ Canonical buf.data) := by
  obtain ⟨h, vs, rest, ht, hfit⟩ := accepts_of_parseBundle hp he
  have hr : r = bundleResult buf.data vs rest :=
    Option.some.inj (hp.symm.trans (parseBundle_of_fits h ht hfit))
  have hlen := buf.length_lt
  have hdrop : (buf.data.drop 7).length = buf.data.length - 7 := List.length_drop
  have hseven := h.length
  have hback := Leb128.length_flatMap_encode_le ht
  have hrest : rest.length ≤ (vs.flatMap Leb128.encode ++ rest).length := by
    rw [List.length_append]
    exact Nat.le_add_left _ _
  have hmarshal := marshalled_of_accepts h ht hfit (by omega)
  rw [← hr] at hmarshal
  have hout : (bundleHeader r.frameTs (leUInt16 (buf.data.getD 5 0) (buf.data.getD 6 0)) r.isRec
      ++ vs.flatMap Leb128.encode ++ rest).length ≤ buf.data.length := by
    rw [List.append_assoc, List.length_append]
    show 7 + _ ≤ _
    omega
  refine ⟨?_, _, hmarshal, hout, ?_, ?_⟩
  -- one length for each channel but the last
  · rw [lengthVarints, Leb128.length_entries ht, ← chIdxs_bundleResult h ht, ← hr, chIdxs,
      List.length_map]
  -- the bytes written again parse to the same result
  · intro s hs
    have hsort : sortByChIdx r.chans = r.chans := by
      rw [hr]
      exact sortByChIdx_bundleResult h ht
    have hpacket := marshalBundle_packetOf hmarshal (by omega)
    rw [← hs, hsort] at hpacket
    have herr : r = ⟨r.frameTs, r.chans, r.isRec, none⟩ := by rw [← he]
    rw [herr]
    exact hpacket.parseBundle_eq
  · -- seven bytes of header against seven, and the tables behind them
    have hsplit := List.take_append_drop 7 buf.data
    have htable := Leb128.entries_minimal_iff ht
    have hheader := @header_marshalled_iff buf.data vs rest h
    rw [← hr] at hheader
    rw [List.append_assoc]
    constructor
    · intro heq
      have hseven' : (buf.data.take 7).length = 7 := by
        rw [List.length_take]
        exact min_eq_left hseven
      obtain ⟨h₁, h₂⟩ := List.append_inj (heq.trans hsplit.symm) hseven'.symm
      exact ⟨hheader.mp h₁, htable.mp h₂⟩
    · intro hcanon
      rw [hheader.mpr hcanon.flags, htable.mpr hcanon.lengths, hsplit]

/-- A packet of two channels, with an unused flag and a length in two bytes
where one would do. -/
def paddedPacket : Slice UInt8 where
  data := [0x12, 0, 0, 0, 0, 3, 0, 0x81, 0x00, 7, 8]
  spare := []
  cap_lt := by decide

/-- The padded packet is written back shorter by that byte. -/
theorem paddedPacket_not_kept :
    (lengthVarints paddedPacket.data).length = 1 ∧
      ∃ out, marshalBundle 0 [⟨0, [7]⟩, ⟨1, [8]⟩] false = .ok out ∧
        out.length ≤ paddedPacket.data.length ∧
        (∀ s : Slice UInt8, s.data = out →
          parseBundle s = some ⟨0, [⟨0, [7]⟩, ⟨1, [8]⟩], false, none⟩) ∧
        (out = paddedPacket.data ↔ Canonical paddedPacket.data) :=
  parseBundle_canonical paddedPacket ⟨0, [⟨0, [7]⟩, ⟨1, [8]⟩], false, none⟩ (by decide) rfl

example : marshalBundle 0 [⟨0, [7]⟩, ⟨1, [8]⟩] false
    = .ok [0x10, 0, 0, 0, 0, 3, 0, 0x01, 7, 8] := by decide

end AmbiRTC
