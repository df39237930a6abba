/-
AmbiRTC/BundleRoundTrip.lean

`ParseBundle` undoes `MarshalBundle`.  The mask loop accepts just the lists of
distinct channels (`ValidChans`); sorted, they are the set bits of the mask, and
the table that is written reads back as the lengths of all payloads but the last.

Main results: `packetOf_marshalled` (what is read off the packet of a sorted list)
and `marshalBundle_roundTrip`.
-/
import AmbiRTC.BundleParse
import Mathlib.Algebra.Order.BigOperators.Group.List

namespace AmbiRTC

open GoSlice Words

/-! ### binary.PutUvarint writes LEB128 -/

theorem putUvarintLoop_eq_encode {room : ℕ} {x : UInt64} (h : x.toNat < 128 ^ (room + 1)) :
    putUvarintLoop (room + 1) x = Leb128.encode x.toNat := by
  have hx : ∀ y : UInt64, y ≥ 0x80 ↔ ¬ y.toNat < 128 := by
    intro y
    rw [ge_iff_le, UInt64.le_iff_toNat_le, not_lt]
    rfl
  induction room generalizing x with
  | zero =>
    have hlt : x.toNat < 128 := by simpa using h
    rw [putUvarintLoop, if_neg (by rwa [hx, not_not]), Leb128.encode_of_lt hlt]
    congr 1
  | succ room ih =>
    have hshift : (x >>> 7).toNat = x.toNat / 128 := by
      rw [UInt64.toNat_shiftRight]
      exact Nat.shiftRight_eq_div_pow x.toNat 7
    by_cases hlt : x.toNat < 128
    · rw [putUvarintLoop, if_neg (by rwa [hx, not_not]), Leb128.encode_of_lt hlt]
      congr 1
    · have hhead : x.toUInt8 ||| 0x80 = UInt8.ofNat (x.toNat % 128 + 128) := by
        apply UInt8.toNat_inj.mp
        rw [or_128, UInt64.toNat_toUInt8, Leb128.toNat_ofNat_of_lt (by omega)]
        omega
      rw [putUvarintLoop, if_pos ((hx x).mpr hlt), Leb128.encode_of_ge hlt, hhead,
        ih (by rw [hshift]; rw [pow_succ] at h; omega), hshift]

theorem putUvarint_ofNat {n : ℕ} (h : n < 2 ^ 64) :
    putUvarint (UInt64.ofNat n) = Leb128.encode n := by
  have hn : (UInt64.ofNat n).toNat = n := by
    rw [UInt64.toNat_ofNat']
    exact Nat.mod_eq_of_lt h
  rw [putUvarint, maxVarintLen64, putUvarintLoop_eq_encode (by rw [hn]; norm_num; omega), hn]

/-! ### The mask loop -/

/-- The channel indices of a list, as numbers. -/
def chIdxs (chans : List ChannelPayload) : List ℕ := chans.map fun c => c.chIdx.toNat

@[simp] theorem chIdxs_cons (c : ChannelPayload) (cs : List ChannelPayload) :
    chIdxs (c :: cs) = c.chIdx.toNat :: chIdxs cs := rfl

theorem toUInt16_chIdx (c : UInt8) : c.toUInt16 = UInt16.ofNat c.toNat := by
  conv_lhs => rw [← UInt8.ofNat_toNat (x := c)]
  exact toUInt16_ofNat c.toNat_lt

theorem testBit_or_two_pow (m c i : ℕ) :
    (m ||| 2 ^ c).testBit i = true ↔ m.testBit i = true ∨ c = i := by
  rw [Nat.testBit_or, Bool.or_eq_true, Nat.testBit_two_pow, decide_eq_true_iff]

/-- Indices in range, distinct and not yet in the mask are all added. -/
theorem bundleMask_ok {chans : List ChannelPayload} {mask : UInt16}
    (hrange : ∀ c ∈ chIdxs chans, c < channels) (hnodup : (chIdxs chans).Nodup)
    (hfree : ∀ c ∈ chIdxs chans, mask.toNat.testBit c = false) :
    ∃ m, bundleMask chans mask = .ok m ∧
      ∀ i, m.toNat.testBit i = true ↔ mask.toNat.testBit i = true ∨ i ∈ chIdxs chans := by
  induction chans generalizing mask with
  | nil => exact ⟨mask, rfl, by simp [chIdxs]⟩
  | cons c cs ih =>
    rw [chIdxs_cons] at hrange hnodup hfree
    obtain ⟨hnotin, hnodup'⟩ := List.nodup_cons.mp hnodup
    have hc : c.chIdx.toNat < 16 := hrange _ (by simp)
    have hnobit : ¬ mask &&& ((1 : UInt16) <<< c.chIdx.toUInt16) ≠ 0 := by
      rw [toUInt16_chIdx, and_bit_ne_zero_16 _ hc, hfree _ (by simp)]
      simp
    have hbits := toNat_or_bit_16 mask hc
    rw [← toUInt16_chIdx] at hbits
    obtain ⟨m, hm, hspec⟩ := @ih (mask ||| ((1 : UInt16) <<< c.chIdx.toUInt16))
      (fun d hd => hrange d (by simp [hd])) hnodup' fun d hd => by
        have hne : c.chIdx.toNat ≠ d := fun he => hnotin (he ▸ hd)
        rw [hbits, Bool.eq_false_iff, ne_eq, testBit_or_two_pow, hfree d (by simp [hd])]
        simpa using hne
    -- the bit of `c` goes in, which none of the later indices needs
    refine ⟨m, ?_, fun i => ?_⟩
    · rw [bundleMask, if_neg (show ¬ c.chIdx.toNat ≥ channels from not_le.mpr hc)]
      simp only
      rw [if_neg hnobit, hm]
    · rw [hspec i, hbits, testBit_or_two_pow, chIdxs_cons, List.mem_cons, or_assoc, @eq_comm _ i]

/-- A mask is returned only for indices in range, distinct and new. -/
theorem valid_of_bundleMask {chans : List ChannelPayload} {mask m : UInt16}
    (h : bundleMask chans mask = .ok m) :
    (∀ c ∈ chIdxs chans, c < channels) ∧ (chIdxs chans).Nodup ∧
      ∀ c ∈ chIdxs chans, mask.toNat.testBit c = false := by
  induction chans generalizing mask with
  | nil => simp [chIdxs]
  | cons c cs ih =>
    rw [bundleMask] at h
    split at h
    · cases h
    simp only at h
    split at h
    · cases h
    rename_i hge hbit
    have hc : c.chIdx.toNat < 16 := not_le.mp hge
    have hfree : mask.toNat.testBit c.chIdx.toNat = false := by
      rw [toUInt16_chIdx, and_bit_ne_zero_16 _ hc] at hbit
      simpa using hbit
    have hbits := toNat_or_bit_16 mask hc
    rw [← toUInt16_chIdx] at hbits
    obtain ⟨hrange, hnodup, hnew⟩ := ih h
    have hsplit : ∀ d ∈ chIdxs cs, mask.toNat.testBit d = false ∧ c.chIdx.toNat ≠ d := by
      intro d hd
      have := hnew d hd
      rw [hbits, Bool.eq_false_iff, ne_eq, testBit_or_two_pow, not_or] at this
      exact ⟨by simpa using this.1, this.2⟩
    refine ⟨?_, ?_, ?_⟩
    · intro d hd
      rcases List.mem_cons.mp hd with rfl | hd
      · exact hc
      · exact hrange d hd
    · exact List.nodup_cons.mpr ⟨fun hin => (hsplit _ hin).2 rfl, hnodup⟩
    · intro d hd
      rcases List.mem_cons.mp hd with rfl | hd
      · exact hfree
      · exact (hsplit d hd).1

/-! ### Channel lists that can be bundled -/

/-- What `MarshalBundle` accepts: 1 to 16 channels, in range and distinct. -/
structure ValidChans (chans : List ChannelPayload) : Prop where
  nonempty : chans ≠ []
  length_le : chans.length ≤ channels
  range : ∀ c ∈ chIdxs chans, c < channels
  nodup : (chIdxs chans).Nodup

/-- The payload bytes of a channel list. -/
def totalBytes (chans : List ChannelPayload) : ℕ := (chans.map fun c => c.payload.length).sum

theorem sortByChIdx_perm (chans : List ChannelPayload) : (sortByChIdx chans).Perm chans :=
  List.perm_insertionSort _ _

theorem chIdxs_sort_perm (chans : List ChannelPayload) :
    (chIdxs (sortByChIdx chans)).Perm (chIdxs chans) :=
  (sortByChIdx_perm chans).map _

theorem totalBytes_sort (chans : List ChannelPayload) :
    totalBytes (sortByChIdx chans) = totalBytes chans :=
  ((sortByChIdx_perm chans).map _).sum_nat

instance : Std.Total fun a b : ChannelPayload => a.chIdx ≤ b.chIdx :=
  ⟨fun a b => UInt8.le_total a.chIdx b.chIdx⟩

instance : IsTrans ChannelPayload fun a b => a.chIdx ≤ b.chIdx :=
  ⟨fun _ _ _ => UInt8.le_trans⟩

/-- Distinct indices come out of the sort strictly ascending. -/
theorem chIdxs_sort_pairwise {chans : List ChannelPayload} (h : (chIdxs chans).Nodup) :
    (chIdxs (sortByChIdx chans)).Pairwise (· < ·) := by
  have hle : (chIdxs (sortByChIdx chans)).Pairwise (· ≤ ·) :=
    List.pairwise_map.mpr ((List.pairwise_insertionSort _ _).imp UInt8.le_iff_toNat_le.mp)
  have hne : (chIdxs (sortByChIdx chans)).Pairwise (· ≠ ·) :=
    (chIdxs_sort_perm chans).nodup_iff.mpr h
  exact (hle.and hne).imp fun h => lt_of_le_of_ne h.1 h.2

theorem ValidChans.sort {chans : List ChannelPayload} (h : ValidChans chans) :
    ValidChans (sortByChIdx chans) where
  nonempty hnil := h.nonempty (List.nil_perm.mp (hnil ▸ sortByChIdx_perm chans))
  length_le := by rw [(sortByChIdx_perm chans).length_eq]; exact h.length_le
  range c hc := h.range c ((chIdxs_sort_perm chans).mem_iff.mp hc)
  nodup := (chIdxs_sort_perm chans).nodup_iff.mpr h.nodup

/-! ### The packet read back -/

section Packet

variable (frameTs : UInt32) (mask : UInt16) (isRec : Bool) (tail : List UInt8)

theorem drop_header : (bundleHeader frameTs mask isRec ++ tail).drop 7 = tail := rfl

theorem byte0_header : (bundleHeader frameTs mask isRec ++ tail).getD 0 0
    = bundleVersion <<< 4 ||| if isRec then bundleFlagIsRec else 0 := rfl

theorem version_header :
    ((bundleHeader frameTs mask isRec ++ tail).getD 0 0).toNat / 16 = 1 := by
  rw [byte0_header]
  cases isRec <;> decide

theorem isRec_header :
    decide ((bundleHeader frameTs mask isRec ++ tail).getD 0 0 &&& bundleFlagIsRec ≠ 0)
      = isRec := by
  rw [byte0_header]
  cases isRec <;> decide

theorem chMask_header : chMask (bundleHeader frameTs mask isRec ++ tail) = mask.toNat := by
  rw [← toNat_leUInt16_mask]
  exact congrArg UInt16.toNat (leUInt16_put mask)

theorem frameTs_header :
    leUInt32 ((bundleHeader frameTs mask isRec ++ tail).getD 1 0)
      ((bundleHeader frameTs mask isRec ++ tail).getD 2 0)
      ((bundleHeader frameTs mask isRec ++ tail).getD 3 0)
      ((bundleHeader frameTs mask isRec ++ tail).getD 4 0) = frameTs :=
  leUInt32_put frameTs

end Packet

/-- Cutting concatenated payloads at their own lengths gives them back. -/
theorem splitLengths_payloads (chans : List ChannelPayload) :
    (chans.map fun c => c.payload.length).splitLengths (chans.flatMap ChannelPayload.payload)
      = chans.map ChannelPayload.payload := by
  induction chans with
  | nil => rfl
  | cons c cs ih =>
    rw [List.map_cons, List.splitLengths_cons, List.flatMap_cons, List.take_left, List.drop_left,
      ih, List.map_cons]

theorem zipWith_chIdxs (chans : List ChannelPayload) :
    List.zipWith ChannelPayload.mk ((chIdxs chans).map UInt8.ofNat)
      (chans.map ChannelPayload.payload) = chans := by
  induction chans with
  | nil => rfl
  | cons c cs ih =>
    rw [chIdxs_cons, List.map_cons, List.map_cons, List.zipWith_cons_cons, ih, UInt8.ofNat_toNat]

theorem payload_length_le {chans : List ChannelPayload} {c : ChannelPayload} (h : c ∈ chans) :
    c.payload.length ≤ totalBytes chans :=
  List.single_le_sum (fun _ _ => Nat.zero_le _) _ (List.mem_map_of_mem h)

theorem lengthBytes_eq {sorted : List ChannelPayload} (h : totalBytes sorted < 2 ^ 64) :
    lengthBytes sorted
      = (sorted.dropLast.map fun c => c.payload.length).flatMap Leb128.encode := by
  rw [lengthBytes, List.flatMap_map]
  refine List.flatMap_congr fun c hc => ?_
  have hle := payload_length_le (List.dropLast_subset sorted hc)
  exact putUvarint_ofNat (by omega)

theorem length_flatMap_payload (chans : List ChannelPayload) :
    (chans.flatMap ChannelPayload.payload).length = totalBytes chans := List.length_flatMap

/-- The last length is the one the table leaves out. -/
theorem lengths_dropLast_append {sorted : List ChannelPayload} (h : sorted ≠ []) :
    (sorted.dropLast.map fun c => c.payload.length)
        ++ [totalBytes sorted - (sorted.dropLast.map fun c => c.payload.length).sum]
      = sorted.map fun c => c.payload.length := by
  conv_rhs => rw [← List.dropLast_append_getLast h]
  rw [List.map_append, List.map_singleton]
  congr 2
  have hsplit : totalBytes sorted
      = (sorted.dropLast.map fun c => c.payload.length).sum
        + (sorted.getLast h).payload.length := by
    rw [totalBytes]
    conv_lhs => rw [← List.dropLast_append_getLast h]
    rw [List.map_append, List.sum_append, List.map_singleton, List.sum_singleton]
  omega

/-- What both decoders read off the packet of an ascending channel list: its
header, its table and the payloads behind it. -/
structure PacketOf (buf : List UInt8) (frameTs : UInt32) (sorted : List ChannelPayload)
    (isRec : Bool) : Prop where
  header : HeaderOk buf
  table : lengthTable buf = some
    (sorted.dropLast.map fun c => c.payload.length, sorted.flatMap ChannelPayload.payload)
  widths : Leb128.widths ((presentChannels buf).length - 1) (buf.drop 7)
    = sorted.dropLast.map fun c => (Leb128.encode c.payload.length).length
  result : bundleResult buf (sorted.dropLast.map fun c => c.payload.length)
    (sorted.flatMap ChannelPayload.payload) = ⟨frameTs, sorted, isRec, none⟩

/-- Every packet `MarshalBundle` writes is well formed, and reads back as what
was written. -/
theorem packetOf_marshalled {frameTs : UInt32} {isRec : Bool} {sorted : List ChannelPayload}
    {mask : UInt16} (hne : sorted ≠ []) (hsorted : (chIdxs sorted).Pairwise (· < ·))
    (hrange : ∀ c ∈ chIdxs sorted, c < channels)
    (hmask : ∀ i, mask.toNat.testBit i = true ↔ i ∈ chIdxs sorted)
    (htotal : totalBytes sorted < 2 ^ 64) {buf : List UInt8}
    (hbuf : buf = bundleHeader frameTs mask isRec ++ lengthBytes sorted
      ++ sorted.flatMap ChannelPayload.payload) :
    PacketOf buf frameTs sorted isRec := by
  rw [List.append_assoc] at hbuf
  -- ascending and with the same members as the set bits, the indices are these
  have hpresent : presentChannels buf = chIdxs sorted := by
    refine (setBits_pairwise _ _).eq_of_mem_iff hsorted fun c => ?_
    rw [mem_setBits, hbuf, chMask_header, hmask, and_iff_right_iff_imp]
    exact hrange c
  have hlen : (chIdxs sorted).length - 1
      = (sorted.dropLast.map fun c => c.payload.length).length := by
    simp [chIdxs]
  have hvalues : ∀ v ∈ sorted.dropLast.map fun c => c.payload.length, v < 2 ^ 64 := by
    intro v hv
    obtain ⟨c, hc, rfl⟩ := List.mem_map.mp hv
    have hle := payload_length_le (List.dropLast_subset sorted hc)
    omega
  constructor
  case header =>
    refine ⟨?_, by rw [hbuf]; exact version_header _ _ _ _, fun h0 => ?_⟩
    · rw [hbuf, List.length_append]
      exact Nat.le_add_right 7 _
    · have hnil : presentChannels buf = [] := by rw [presentChannels, h0]; rfl
      rw [hpresent] at hnil
      exact hne (List.map_eq_nil_iff.mp hnil)
  case table =>
    -- the table has one entry less than there are channels, as the parser expects
    rw [lengthTable, hpresent, hlen, hbuf, drop_header, lengthBytes_eq htotal]
    exact Leb128.table_encode hvalues _
  case widths =>
    rw [hpresent, hlen, hbuf, drop_header, lengthBytes_eq htotal, Leb128.widths_encode,
      List.map_map]
    rfl
  case result =>
    rw [bundleResult, length_flatMap_payload, lengths_dropLast_append hne,
      splitLengths_payloads, hpresent, zipWith_chIdxs, hbuf, frameTs_header, isRec_header]

theorem sum_dropLast_le (sorted : List ChannelPayload) :
    (sorted.dropLast.map fun c => c.payload.length).sum ≤ totalBytes sorted :=
  ((List.dropLast_sublist sorted).map _).sum_le_sum fun _ _ => Nat.zero_le _

theorem PacketOf.parseBundle_eq {frameTs : UInt32} {isRec : Bool} {sorted : List ChannelPayload}
    {s : Slice UInt8} (h : PacketOf s.data frameTs sorted isRec) :
    parseBundle s = some ⟨frameTs, sorted, isRec, none⟩ := by
  have hfits : (sorted.dropLast.map fun c => c.payload.length).sum
      ≤ (sorted.flatMap ChannelPayload.payload).length := by
    rw [length_flatMap_payload]
    exact sum_dropLast_le sorted
  rw [parseBundle_of_fits h.header h.table hfits, h.result]

/-- No packet comes near the largest slice. -/
theorem length_packet_lt {frameTs : UInt32} {isRec : Bool} {sorted : List ChannelPayload}
    {mask : UInt16} (hlen : sorted.length ≤ channels) (htotal : totalBytes sorted < 2 ^ 31) :
    (bundleHeader frameTs mask isRec ++ lengthBytes sorted
      ++ sorted.flatMap ChannelPayload.payload).length < 2 ^ 63 := by
  have hvarint : ∀ n ∈ sorted.dropLast.map fun c => (Leb128.encode c.payload.length).length,
      n ≤ 10 := by
    intro n hn
    obtain ⟨c, hc, rfl⟩ := List.mem_map.mp hn
    have hle := payload_length_le (List.dropLast_subset sorted hc)
    exact Leb128.length_encode_le (k := 9) (by omega)
  have htable : (lengthBytes sorted).length ≤ 16 * 10 := by
    rw [lengthBytes_eq (by omega), List.flatMap_map, List.length_flatMap]
    apply (List.sum_le_card_nsmul _ _ hvarint).trans
    rw [List.length_map, List.length_dropLast, Nat.nsmul_eq_mul]
    exact Nat.mul_le_mul_right _ ((Nat.sub_le _ _).trans hlen)
  have hheader : (bundleHeader frameTs mask isRec).length = 7 := rfl
  rw [List.length_append, List.length_append, hheader, length_flatMap_payload]
  omega

/-! ### The round trip -/

/-- A valid list is marshalled, with the mask of its indices. -/
theorem marshalBundle_of_valid {chans : List ChannelPayload} (h : ValidChans chans)
    (frameTs : UInt32) (isRec : Bool) :
    ∃ mask : UInt16, (∀ i, mask.toNat.testBit i = true ↔ i ∈ chIdxs (sortByChIdx chans)) ∧
      marshalBundle frameTs chans isRec
        = .ok (bundleHeader frameTs mask isRec ++ lengthBytes (sortByChIdx chans)
          ++ (sortByChIdx chans).flatMap ChannelPayload.payload) := by
  obtain ⟨mask, hm, hbits⟩ := @bundleMask_ok _ 0 h.sort.range h.sort.nodup (by simp)
  refine ⟨mask, fun i => by simpa using hbits i, ?_⟩
  have hne : ¬ chans.length = 0 := fun h0 => h.nonempty (List.length_eq_zero_iff.mp h0)
  rw [marshalBundle, if_neg hne, if_neg (not_lt.mpr h.length_le)]
  simp only [hm]

/-- Only valid lists are marshalled. -/
theorem valid_of_marshalBundle {frameTs : UInt32} {chans : List ChannelPayload} {isRec : Bool}
    {buf : List UInt8} (h : marshalBundle frameTs chans isRec = .ok buf) : ValidChans chans := by
  rw [marshalBundle] at h
  split at h
  · cases h
  split at h
  · cases h
  rename_i hne hle
  rcases hm : bundleMask (sortByChIdx chans) 0 with e | mask
  · simp only [hm] at h
    cases h
  · obtain ⟨hrange, hnodup, -⟩ := valid_of_bundleMask hm
    have hperm := chIdxs_sort_perm chans
    exact
      { nonempty := fun hnil => hne (by rw [hnil]; rfl)
        length_le := not_lt.mp hle
        range := fun c hc => hrange c (hperm.mem_iff.mpr hc)
        nodup := hperm.nodup_iff.mp hnodup }

/-- What `MarshalBundle` returns is the packet of the sorted list, on any list a
Go program can hold. -/
theorem marshalBundle_packetOf {frameTs : UInt32} {chans : List ChannelPayload} {isRec : Bool}
    {buf : List UInt8} (h : marshalBundle frameTs chans isRec = .ok buf)
    (hlen : buf.length < 2 ^ 63) : PacketOf buf frameTs (sortByChIdx chans) isRec := by
  have hvalid := valid_of_marshalBundle h
  obtain ⟨mask, hmask, hbuf⟩ := marshalBundle_of_valid hvalid frameTs isRec
  obtain rfl := Except.ok.inj (h.symm.trans hbuf)
  rw [List.length_append, length_flatMap_payload] at hlen
  exact packetOf_marshalled hvalid.sort.nonempty (chIdxs_sort_pairwise hvalid.nodup)
    hvalid.sort.range hmask (by omega) rfl

theorem exists_marshalBundle {chans : List ChannelPayload} (h : ValidChans chans)
    (frameTs : UInt32) (isRec : Bool) : ∃ buf, marshalBundle frameTs chans isRec = .ok buf := by
  obtain ⟨mask, -, hbuf⟩ := marshalBundle_of_valid h frameTs isRec
  exact ⟨_, hbuf⟩

/-- **Round trip**: a valid channel list of less than 2 GiB is marshalled, and
the packet parses to the same timestamp, flag and payloads, sorted by channel;
every other list is refused. -/
theorem marshalBundle_roundTrip (frameTs : UInt32) (chans : List ChannelPayload) (isRec : Bool) :
    (ValidChans chans → totalBytes chans < 2 ^ 31 →
      ∃ buf sorted, marshalBundle frameTs chans isRec = .ok buf ∧ buf.length < 2 ^ 63 ∧
        sorted.Perm chans ∧ sorted.Pairwise (fun a b => a.chIdx < b.chIdx) ∧
        ∀ s : Slice UInt8, s.data = buf →
          parseBundle s = some ⟨frameTs, sorted, isRec, none⟩) ∧
    (¬ ValidChans chans → ∃ e, marshalBundle frameTs chans isRec = .error e) := by
  constructor
  · intro h htotal
    obtain ⟨mask, hmask, hbuf⟩ := marshalBundle_of_valid h frameTs isRec
    have htotal' : totalBytes (sortByChIdx chans) < 2 ^ 31 := by rwa [totalBytes_sort]
    have hpair := chIdxs_sort_pairwise h.nodup
    refine ⟨_, sortByChIdx chans, hbuf, length_packet_lt h.sort.length_le htotal',
      sortByChIdx_perm chans, ?_, fun s hs => ?_⟩
    · exact (List.pairwise_map.mp hpair).imp UInt8.lt_iff_toNat_lt.mpr
    · have hpacket := packetOf_marshalled h.sort.nonempty hpair h.sort.range hmask
        (by omega) hs
      exact hpacket.parseBundle_eq
  · intro h
    rcases hbuf : marshalBundle frameTs chans isRec with e | buf
    · exact ⟨e, rfl⟩
    · exact absurd (valid_of_marshalBundle hbuf) h

/-- The round trip on two channels given out of order, one of them empty. -/
theorem marshalBundle_roundTrip_two :
    ∃ buf sorted,
      marshalBundle 7 [⟨9, [1, 2]⟩, ⟨0, []⟩] true = .ok buf ∧ buf.length < 2 ^ 63 ∧
        sorted.Perm [⟨9, [1, 2]⟩, ⟨0, []⟩] ∧ sorted.Pairwise (fun a b => a.chIdx < b.chIdx) ∧
        ∀ s : Slice UInt8, s.data = buf → parseBundle s = some ⟨7, sorted, true, none⟩ :=
  (marshalBundle_roundTrip 7 [⟨9, [1, 2]⟩, ⟨0, []⟩] true).1
    ⟨by decide, by decide, by decide, by decide⟩ (by decide)

example : marshalBundle 0x04030201 [⟨2, [9]⟩, ⟨0, [8]⟩] false
    = .ok [0x10, 1, 2, 3, 4, 5, 0, 1, 8, 9] := by decide

end AmbiRTC
