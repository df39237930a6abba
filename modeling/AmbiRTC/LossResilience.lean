/-
AmbiRTC/LossResilience.lean

What a receiver gets from the packets of one bundled frame
(mcu/internal/session/pipeline.go `sendBundled`), and what is left when one of
them is lost.  The plan lists each base channel in two groups and every other
channel in one (`count_planLayout`); a group travels as one packet, less the
channels that failed to encode.

Main results: `forall₂_sendBundled` (the packets sent, group by group) and
`sendBundled_resilient`.
-/
import AmbiRTC.BundleRoundTrip
import AmbiRTC.Pipeline

namespace AmbiRTC

open GoSlice
open Pipeline (groupPayloads)

/-! ### sendBundled -/

/-- `sendBundled`: the packets it queues. -/
def sendBundled (layout : List (List UInt8)) (frameTs : UInt32) (isRec : Bool)
    (encoded : ℕ → List UInt8) : List (List UInt8) :=
  layout.flatMap fun group =>
    let chans := groupPayloads encoded group
    if chans.length = 0 then []
    else
      match marshalBundle frameTs chans isRec with
      | .error _ => []
      | .ok buf => [buf]

/-- The channel lists that make a packet: groups with something to send. -/
def bundles (layout : List (List UInt8)) (encoded : ℕ → List UInt8) :
    List (List ChannelPayload) :=
  (layout.map (groupPayloads encoded)).filter fun chans => chans ≠ []

/-! ### The plan -/

/-- Chunking loses nothing and keeps the order. -/
theorem flatten_chunkLoop {n room : ℕ} {s : List UInt8} (hn : 1 ≤ n) (hroom : s.length ≤ room) :
    (chunkLoop n room s).flatten = s := by
  induction room generalizing s with
  | zero =>
    obtain rfl := List.length_eq_zero_iff.mp (Nat.le_zero.mp hroom)
    rfl
  | succ room ih =>
    by_cases hs : s = []
    · rw [hs]
      rfl
    · have hpos := List.length_pos_iff.mpr hs
      have hdrop : (s.drop n).length ≤ room := by
        rw [List.length_drop]
        omega
      rw [chunkLoop, if_neg hs, List.flatten_cons, ih hdrop, List.take_append_drop]

theorem length_of_mem_chunkLoop {n room : ℕ} {s : List UInt8} {group : List UInt8}
    (h : group ∈ chunkLoop n room s) : group.length ≤ n := by
  induction room generalizing s with
  | zero => cases h
  | succ room ih =>
    rw [chunkLoop] at h
    split at h
    · cases h
    · rcases List.mem_cons.mp h with rfl | h
      · exact List.length_take_le n s
      · exact ih h

theorem maxChannelsPerPacket_pos (frameSize : ℕ) : 1 ≤ maxChannelsPerPacket frameSize := by
  simp only [maxChannelsPerPacket, channels]
  split_ifs <;> omega

theorem flatten_chunkU8 (s : List UInt8) {n : ℕ} (hn : 1 ≤ n) : (chunkU8 s n).flatten = s := by
  rw [chunkU8, if_neg (by omega)]
  exact flatten_chunkLoop hn le_rfl

theorem length_of_mem_chunkU8 {s group : List UInt8} {n : ℕ} (hn : 1 ≤ n)
    (h : group ∈ chunkU8 s n) : group.length ≤ n := by
  rw [chunkU8, if_neg (by omega)] at h
  exact length_of_mem_chunkLoop h

/-- Every channel of the plan, in order and with repetition. -/
theorem flatten_planLayout (frameSize : ℕ) :
    (planLayout frameSize).flatten
        = baseChannels ++ order2Channels ++ baseChannels ++ order3Channels
      ∨ (planLayout frameSize).flatten
        = baseChannels ++ order2Channels ++ order3Channels ++ baseChannels := by
  have hm := maxChannelsPerPacket_pos frameSize
  rw [planLayout]
  split_ifs
  · left
    simp
  · right
    simp only [List.flatten_append, flatten_chunkU8 _ hm]

/-- A base channel stands in the plan twice, any other channel once. -/
theorem count_planLayout (frameSize : ℕ) (c : UInt8) :
    (planLayout frameSize).flatten.count c
      = if c.toNat < 4 then 2 else if c.toNat < channels then 1 else 0 := by
  have hlow : ∀ i : Fin 16,
      (baseChannels ++ order2Channels ++ baseChannels ++ order3Channels).count (UInt8.ofNat i)
        = (if i.val < 4 then 2 else 1) ∧
      (baseChannels ++ order2Channels ++ order3Channels ++ baseChannels).count (UInt8.ofNat i)
        = if i.val < 4 then 2 else 1 := by
    decide
  have hall : ∀ d ∈ (planLayout frameSize).flatten, d.toNat < 16 := by
    rcases flatten_planLayout frameSize with h | h <;> rw [h] <;>
      simp [baseChannels, order2Channels, order3Channels]
  by_cases hc : c.toNat < 16
  · have hi := hlow ⟨c.toNat, hc⟩
    rw [UInt8.ofNat_toNat] at hi
    rw [if_pos (show c.toNat < channels from hc)]
    rcases flatten_planLayout frameSize with h | h <;> rw [h]
    · exact hi.1
    · exact hi.2
  · rw [if_neg (by omega), if_neg (show ¬ c.toNat < channels from hc), List.count_eq_zero]
    intro hmem
    exact hc (hall c hmem)

/-- No group names a channel twice. -/
theorem nodup_of_mem_planLayout {frameSize : ℕ} {group : List UInt8}
    (h : group ∈ planLayout frameSize) : group.Nodup := by
  have hm := maxChannelsPerPacket_pos frameSize
  have hchunk : ∀ {s : List UInt8}, s.Nodup →
      group ∈ chunkU8 s (maxChannelsPerPacket frameSize) → group.Nodup := by
    intro s hs hmem
    rw [← flatten_chunkU8 s hm] at hs
    exact hs.sublist (List.sublist_flatten_of_mem hmem)
  rw [planLayout] at h
  split_ifs at h
  · rcases List.mem_pair.mp h with rfl | rfl <;> decide
  · simp only [List.mem_append] at h
    rcases h with ((h | h) | h) | h
    · exact hchunk (by decide) h
    · exact hchunk (by decide) h
    · exact hchunk (by decide) h
    · exact hchunk (by decide) h

/-- Both regimes keep to the channel limit. -/
theorem length_of_mem_planLayout {frameSize : ℕ} {group : List UInt8}
    (h : group ∈ planLayout frameSize) : group.length ≤ maxChannelsPerPacket frameSize := by
  have hm := maxChannelsPerPacket_pos frameSize
  rw [planLayout] at h
  split_ifs at h with hfit
  · rcases List.mem_pair.mp h with rfl | rfl
    · exact hfit.1
    · exact hfit.2
  · simp only [List.mem_append] at h
    rcases h with ((h | h) | h) | h <;> exact length_of_mem_chunkU8 hm h

/-- As many channels as a packet may carry fit its budget. -/
theorem maxChannelsPerPacket_mul_le {frameSize : ℕ}
    (h : max 1 (64000 * frameSize / 384000) ≤ 1130) :
    maxChannelsPerPacket frameSize * max 1 (64000 * frameSize / 384000) ≤ 1130 := by
  set ref := max 1 (64000 * frameSize / 384000) with href
  have hm : maxChannelsPerPacket frameSize ≤ 1130 / ref := by
    have hdiv : 1 ≤ 1130 / ref := (Nat.one_le_div_iff (by omega)).mpr h
    have heq : (if bitRate * frameSize / (protoSampleRate * 8) < 1 then 1
        else bitRate * frameSize / (protoSampleRate * 8)) = ref := by
      have hdiv : bitRate * frameSize / (protoSampleRate * 8) = 64000 * frameSize / 384000 := rfl
      rw [hdiv, href]
      split_ifs with hlt
      · rw [max_eq_left (by omega)]
      · rw [max_eq_right (by omega)]
    simp only [maxChannelsPerPacket, heq, mtuChannelBudget]
    split_ifs <;> omega
  calc maxChannelsPerPacket frameSize * ref ≤ 1130 / ref * ref := Nat.mul_le_mul_right _ hm
    _ ≤ 1130 := Nat.div_mul_le_self _ _

/-! ### The payloads of a group -/

section Group

variable {encoded : ℕ → List UInt8} {group : List UInt8}

theorem mem_groupPayloads {c : UInt8} {p : List UInt8} :
    ⟨c, p⟩ ∈ groupPayloads encoded group ↔ c ∈ group ∧ p = encoded c.toNat ∧ p ≠ [] := by
  rw [groupPayloads, List.mem_filterMap]
  constructor
  · rintro ⟨ch, hmem, h⟩
    split at h
    · obtain ⟨rfl, rfl⟩ := ChannelPayload.mk.inj (Option.some.inj h)
      exact ⟨hmem, rfl, List.length_pos_iff.mp ‹_›⟩
    · cases h
  · rintro ⟨hmem, rfl, hne⟩
    exact ⟨c, hmem, if_pos (List.length_pos_iff.mpr hne)⟩

theorem groupPayloads_cons (c : UInt8) :
    groupPayloads encoded (c :: group)
      = if 0 < (encoded c.toNat).length then
          ⟨c, encoded c.toNat⟩ :: groupPayloads encoded group
        else groupPayloads encoded group := by
  simp only [groupPayloads, List.filterMap_cons]
  split_ifs <;> rfl

/-- The indices of a group's payloads are the channels that were encoded. -/
theorem chIdxs_groupPayloads :
    chIdxs (groupPayloads encoded group)
      = (group.filter fun c => 0 < (encoded c.toNat).length).map UInt8.toNat := by
  induction group with
  | nil => rfl
  | cons c group ih =>
    by_cases hc : 0 < (encoded c.toNat).length
    · rw [groupPayloads_cons, if_pos hc, List.filter_cons_of_pos (by simpa), chIdxs_cons,
        List.map_cons, ih]
    · rw [groupPayloads_cons, if_neg hc, List.filter_cons_of_neg (by simpa using hc), ih]

theorem nodup_chIdxs_groupPayloads (h : group.Nodup) :
    (chIdxs (groupPayloads encoded group)).Nodup := by
  rw [chIdxs_groupPayloads]
  exact (h.filter _).map fun _ _ => UInt8.toNat_inj.mp

theorem mem_chIdxs_groupPayloads {c : UInt8} :
    c.toNat ∈ chIdxs (groupPayloads encoded group) ↔ c ∈ group ∧ encoded c.toNat ≠ [] := by
  rw [chIdxs_groupPayloads, List.mem_map]
  constructor
  · rintro ⟨d, hd, heq⟩
    obtain rfl := UInt8.toNat_inj.mp heq
    obtain ⟨hmem, hpos⟩ := List.mem_filter.mp hd
    exact ⟨hmem, List.length_pos_iff.mp (of_decide_eq_true hpos)⟩
  · rintro ⟨hmem, hne⟩
    exact ⟨c, List.mem_filter.mpr ⟨hmem, decide_eq_true (List.length_pos_iff.mpr hne)⟩, rfl⟩

theorem length_groupPayloads_le : (groupPayloads encoded group).length ≤ group.length :=
  List.length_filterMap_le _ _

/-- A group of distinct channels with anything to send can be bundled. -/
theorem validChans_groupPayloads (hnodup : group.Nodup)
    (hrange : ∀ c ∈ group, c.toNat < channels) (hne : groupPayloads encoded group ≠ []) :
    ValidChans (groupPayloads encoded group) := by
  have hidx : ∀ c ∈ chIdxs (groupPayloads encoded group), c < channels := by
    rw [chIdxs_groupPayloads]
    intro c hc
    obtain ⟨d, hd, rfl⟩ := List.mem_map.mp hc
    exact hrange d (List.mem_of_mem_filter hd)
  constructor
  case nonempty => exact hne
  case length_le =>
    have hsub : chIdxs (groupPayloads encoded group) ⊆ List.range channels :=
      fun c hc => List.mem_range.mpr (hidx c hc)
    have hle := ((nodup_chIdxs_groupPayloads hnodup).subperm hsub).length_le
    rwa [List.length_range, chIdxs, List.length_map] at hle
  case range => exact hidx
  case nodup => exact nodup_chIdxs_groupPayloads hnodup

end Group

/-! ### The packets of a frame -/

/-- Group by group, what is sent is the bundle of what the group has. -/
theorem forall₂_sendBundled {layout : List (List UInt8)} {frameTs : UInt32} {isRec : Bool}
    {encoded : ℕ → List UInt8} (hnodup : ∀ group ∈ layout, group.Nodup)
    (hrange : ∀ group ∈ layout, ∀ c ∈ group, c.toNat < channels) :
    List.Forall₂ (fun chans buf => marshalBundle frameTs chans isRec = .ok buf)
      (bundles layout encoded) (sendBundled layout frameTs isRec encoded) := by
  induction layout with
  | nil => exact .nil
  | cons group layout ih =>
    have ih := ih (fun g hg => hnodup g (by simp [hg])) fun g hg => hrange g (by simp [hg])
    by_cases hne : groupPayloads encoded group = []
    · have hskip : sendBundled (group :: layout) frameTs isRec encoded
          = sendBundled layout frameTs isRec encoded := by
        simp [sendBundled, hne]
      rw [hskip, bundles, List.map_cons, List.filter_cons_of_neg (by simpa)]
      exact ih
    · have hvalid := validChans_groupPayloads (hnodup group (by simp)) (hrange group (by simp)) hne
      obtain ⟨buf, hbuf⟩ := exists_marshalBundle hvalid frameTs isRec
      have hsend : sendBundled (group :: layout) frameTs isRec encoded
          = buf :: sendBundled layout frameTs isRec encoded := by
        simp [sendBundled, hne, hbuf]
      rw [hsend, bundles, List.map_cons, List.filter_cons_of_pos (by simpa)]
      exact .cons hbuf ih

/-- The packets parse to the channel lists that were bundled, each sorted. -/
theorem parseBundle_sendBundled {layout : List (List UInt8)} {frameTs : UInt32} {isRec : Bool}
    {encoded : ℕ → List UInt8} (hnodup : ∀ group ∈ layout, group.Nodup)
    (hrange : ∀ group ∈ layout, ∀ c ∈ group, c.toNat < channels) {packets : List (Slice UInt8)}
    (h : packets.map Slice.data = sendBundled layout frameTs isRec encoded) :
    packets.map parseBundle = (bundles layout encoded).map fun chans =>
      some ⟨frameTs, sortByChIdx chans, isRec, none⟩ := by
  have hsent := @forall₂_sendBundled _ frameTs isRec encoded hnodup hrange
  rw [← h, List.forall₂_map_right_iff] at hsent
  clear h
  generalize bundles layout encoded = sent at hsent ⊢
  induction hsent with
  | nil => rfl
  | @cons chans s _ packets hbuf _ ih =>
    have hpacket := marshalBundle_packetOf hbuf s.length_lt
    rw [List.map_cons, List.map_cons, hpacket.parseBundle_eq]
    exact congrArg _ ih

/-! ### Where the channels are -/

section Receiver

variable {encoded : ℕ → List UInt8}

theorem mem_chIdxs_sort {chans : List ChannelPayload} {c : ℕ} :
    c ∈ chIdxs (sortByChIdx chans) ↔ c ∈ chIdxs chans :=
  (chIdxs_sort_perm chans).mem_iff

/-- In lists without repetition the lists that hold `c` are counted by its
occurrences. -/
theorem countP_mem_eq_count {layout : List (List UInt8)}
    (h : ∀ group ∈ layout, group.Nodup) (c : UInt8) :
    layout.countP (fun group => c ∈ group) = layout.flatten.count c := by
  induction layout with
  | nil => rfl
  | cons group layout ih =>
    rw [List.countP_cons, ih fun g hg => h g (by simp [hg]), List.flatten_cons, List.count_append,
      (h group (by simp)).count]
    by_cases hc : c ∈ group <;> simp [hc, Nat.add_comm]

/-- What is sent: the sorted payloads of a group that has any. -/
theorem mem_sorted_bundles {layout : List (List UInt8)} {chans : List ChannelPayload} :
    chans ∈ (bundles layout encoded).map sortByChIdx ↔
      ∃ group ∈ layout, groupPayloads encoded group ≠ [] ∧
        chans = sortByChIdx (groupPayloads encoded group) := by
  rw [List.mem_map]
  constructor
  · rintro ⟨payloads, h, rfl⟩
    obtain ⟨hmem, hne⟩ := List.mem_filter.mp h
    obtain ⟨group, hgroup, rfl⟩ := List.mem_map.mp hmem
    exact ⟨group, hgroup, of_decide_eq_true hne, rfl⟩
  · rintro ⟨group, hgroup, hne, rfl⟩
    exact ⟨_, List.mem_filter.mpr ⟨List.mem_map_of_mem hgroup, decide_eq_true hne⟩, rfl⟩

/-- A channel with a payload is in as many packets as it is in groups. -/
theorem countP_bundles {layout : List (List UInt8)} (hnodup : ∀ group ∈ layout, group.Nodup)
    {c : UInt8} (hc : encoded c.toNat ≠ []) :
    ((bundles layout encoded).map sortByChIdx).countP (fun chans => c.toNat ∈ chIdxs chans)
      = layout.flatten.count c := by
  rw [← countP_mem_eq_count hnodup, List.countP_map, bundles, List.countP_filter, List.countP_map]
  apply List.countP_congr
  intro group _
  simp only [Function.comp_apply, mem_chIdxs_sort, mem_chIdxs_groupPayloads, Bool.and_eq_true,
    decide_eq_true_iff]
  constructor
  · rintro ⟨⟨hmem, -⟩, -⟩
    exact hmem
  · intro hmem
    refine ⟨⟨hmem, hc⟩, fun hnil => ?_⟩
    -- a group left out has no payload, while `c` has one
    have hin := mem_chIdxs_groupPayloads.mpr ⟨hmem, hc⟩
    rw [hnil] at hin
    cases hin

/-- The channels that arrive, with their payloads. -/
theorem mem_flatten_bundles {layout : List (List UInt8)} {c : UInt8} {p : List UInt8} :
    ⟨c, p⟩ ∈ ((bundles layout encoded).map sortByChIdx).flatten ↔
      c ∈ layout.flatten ∧ p = encoded c.toNat ∧ p ≠ [] := by
  rw [List.mem_flatten, List.mem_flatten]
  constructor
  · rintro ⟨chans, hchans, hin⟩
    obtain ⟨group, hgroup, -, rfl⟩ := mem_sorted_bundles.mp hchans
    rw [(sortByChIdx_perm _).mem_iff, mem_groupPayloads] at hin
    exact ⟨⟨group, hgroup, hin.1⟩, hin.2⟩
  · rintro ⟨⟨group, hgroup, hc⟩, hp⟩
    have hin := mem_groupPayloads.mpr ⟨hc, hp⟩
    exact ⟨_, mem_sorted_bundles.mpr ⟨group, hgroup, List.ne_nil_of_mem hin, rfl⟩,
      (sortByChIdx_perm _).mem_iff.mpr hin⟩

/-- One list taken away takes away at most one that has `p`. -/
theorem countP_le_eraseIdx {α : Type} (p : α → Bool) (xs : List α) (i : ℕ) :
    xs.countP p ≤ (xs.eraseIdx i).countP p + 1 := by
  induction xs generalizing i with
  | nil => simp
  | cons x xs ih =>
    cases i with
    | zero =>
      rw [List.eraseIdx_cons_zero, List.countP_cons]
      split <;> omega
    | succ i =>
      rw [List.eraseIdx_cons_succ, List.countP_cons, List.countP_cons]
      have := ih i
      omega

/-- A channel that is in two packets is in one of those left. -/
theorem mem_eraseIdx_bundles {layout : List (List UInt8)} {c : UInt8}
    (hne : encoded c.toNat ≠ []) (htwo : ((bundles layout encoded).map sortByChIdx).countP
      (fun chans => c.toNat ∈ chIdxs chans) = 2) (i : ℕ) :
    ⟨c, encoded c.toNat⟩ ∈ (((bundles layout encoded).map sortByChIdx).eraseIdx i).flatten := by
  have hleft := countP_le_eraseIdx (fun chans => decide (c.toNat ∈ chIdxs chans))
    ((bundles layout encoded).map sortByChIdx) i
  rw [htwo] at hleft
  have hpos : 0 < (((bundles layout encoded).map sortByChIdx).eraseIdx i).countP
      fun chans => decide (c.toNat ∈ chIdxs chans) := by
    omega
  obtain ⟨chans, hchans, hin⟩ := List.countP_pos_iff.mp hpos
  obtain ⟨group, hgroup, -, rfl⟩ := mem_sorted_bundles.mp (List.mem_of_mem_eraseIdx hchans)
  refine List.mem_flatten.mpr ⟨_, hchans, (sortByChIdx_perm _).mem_iff.mpr ?_⟩
  rw [decide_eq_true_iff, mem_chIdxs_sort, mem_chIdxs_groupPayloads] at hin
  exact mem_groupPayloads.mpr ⟨hin.1, rfl, hne⟩

theorem totalBytes_le {chans : List ChannelPayload} {n : ℕ}
    (h : ∀ c ∈ chans, c.payload.length ≤ n) : totalBytes chans ≤ chans.length * n := by
  have hle := List.sum_le_card_nsmul (chans.map fun c => c.payload.length) n fun v hv => by
    obtain ⟨c, hc, rfl⟩ := List.mem_map.mp hv
    exact h c hc
  rwa [List.length_map, Nat.nsmul_eq_mul] at hle

/-- A group's payloads stay within budget if each is within the reference size. -/
theorem totalBytes_groupPayloads_le {frameSize : ℕ} {group : List UInt8}
    (hgroup : group ∈ planLayout frameSize)
    (hsize : ∀ c ∈ group, (encoded c.toNat).length ≤ max 1 (64000 * frameSize / 384000))
    (hbudget : max 1 (64000 * frameSize / 384000) ≤ 1130) :
    totalBytes (groupPayloads encoded group) ≤ 1130 := by
  have hlen : (groupPayloads encoded group).length ≤ maxChannelsPerPacket frameSize :=
    length_groupPayloads_le.trans (length_of_mem_planLayout hgroup)
  have hpayload : ∀ c ∈ groupPayloads encoded group,
      c.payload.length ≤ max 1 (64000 * frameSize / 384000) := by
    rintro ⟨c, p⟩ hc
    obtain ⟨hin, rfl, -⟩ := mem_groupPayloads.mp hc
    exact hsize c hin
  calc totalBytes (groupPayloads encoded group)
      ≤ (groupPayloads encoded group).length * max 1 (64000 * frameSize / 384000) :=
        totalBytes_le hpayload
    _ ≤ maxChannelsPerPacket frameSize * max 1 (64000 * frameSize / 384000) :=
        Nat.mul_le_mul_right _ hlen
    _ ≤ 1130 := maxChannelsPerPacket_mul_le hbudget

end Receiver

/-! ### One packet lost -/

/-- **Loss resilience**: the packets of a frame parse to its timestamp, its flag
and just the channels that were encoded, with their payloads; a base channel is
in two of them and any other in one, so that a base channel survives the loss of
any one packet.  Payloads within the reference size keep each packet within
budget. -/
theorem sendBundled_resilient (frameSize : ℕ) (frameTs : UInt32) (isRec : Bool)
    (encoded : ℕ → List UInt8) (packets : List (Slice UInt8))
    (hsent : packets.map Slice.data = sendBundled (planLayout frameSize) frameTs isRec encoded) :
    ∃ parsed : List (List ChannelPayload),
      packets.map parseBundle = parsed.map (fun chans => some ⟨frameTs, chans, isRec, none⟩) ∧
      (∀ chans ∈ parsed, (chIdxs chans).Nodup) ∧
      (∀ c p, ⟨c, p⟩ ∈ parsed.flatten ↔
        c.toNat < channels ∧ p = encoded c.toNat ∧ p ≠ []) ∧
      (∀ c : UInt8, c.toNat < channels → encoded c.toNat ≠ [] →
        parsed.countP (fun chans => c.toNat ∈ chIdxs chans) = if c.toNat < 4 then 2 else 1) ∧
      (∀ i, ∀ c : UInt8, c.toNat < 4 → encoded c.toNat ≠ [] →
        ⟨c, encoded c.toNat⟩ ∈ (parsed.eraseIdx i).flatten) ∧
      ((∀ c < channels, (encoded c).length ≤ max 1 (64000 * frameSize / 384000)) →
        max 1 (64000 * frameSize / 384000) ≤ 1130 → ∀ chans ∈ parsed, totalBytes chans ≤ 1130) := by
  have hnodup : ∀ group ∈ planLayout frameSize, group.Nodup :=
    fun group => nodup_of_mem_planLayout
  have hplan : ∀ c, c ∈ (planLayout frameSize).flatten ↔ c.toNat < channels := by
    intro c
    rw [← List.count_pos_iff, count_planLayout]
    show 0 < (if c.toNat < 4 then 2 else if c.toNat < 16 then 1 else 0) ↔ c.toNat < 16
    split_ifs <;> omega
  have hrange : ∀ group ∈ planLayout frameSize, ∀ c ∈ group, c.toNat < channels :=
    fun group hgroup c hc => (hplan c).mp (List.mem_flatten.mpr ⟨group, hgroup, hc⟩)
  have hcount : ∀ c : UInt8, c.toNat < channels → encoded c.toNat ≠ [] →
      ((bundles (planLayout frameSize) encoded).map sortByChIdx).countP
        (fun chans => c.toNat ∈ chIdxs chans) = if c.toNat < 4 then 2 else 1 := by
    intro c hc hne
    rw [countP_bundles hnodup hne, count_planLayout, if_pos hc]
  refine ⟨(bundles (planLayout frameSize) encoded).map sortByChIdx, ?_, ?_, ?_, hcount, ?_, ?_⟩
  · rw [parseBundle_sendBundled hnodup hrange hsent, List.map_map]
    rfl
  · intro chans hchans
    obtain ⟨group, hgroup, -, rfl⟩ := mem_sorted_bundles.mp hchans
    exact (chIdxs_sort_perm _).nodup_iff.mpr (nodup_chIdxs_groupPayloads (hnodup group hgroup))
  · intro c p
    rw [mem_flatten_bundles, hplan]
  · intro i c hc hne
    -- of the two packets with `c` at most one is lost
    have htwo := hcount c (show c.toNat < 16 by omega) hne
    rw [if_pos hc] at htwo
    exact mem_eraseIdx_bundles hne htwo i
  · intro hsize hbudget chans hchans
    obtain ⟨group, hgroup, -, rfl⟩ := mem_sorted_bundles.mp hchans
    rw [totalBytes_sort]
    exact totalBytes_groupPayloads_le hgroup (fun c hc => hsize _ (hrange group hgroup c hc))
      hbudget

/-- Two of sixteen channels encoded, at 10 ms. -/
def twoEncoded : ℕ → List UInt8
  | 0 => [9]
  | 9 => [1, 2]
  | _ => []

/-- The packets of `twoEncoded`. -/
def twoPackets : List (Slice UInt8) :=
  [⟨[0x10, 7, 0, 0, 0, 1, 0, 9], [], by decide⟩,
    ⟨[0x10, 7, 0, 0, 0, 1, 2, 1, 9, 1, 2], [], by decide⟩]

theorem sendBundled_resilient_two :
    ∃ parsed : List (List ChannelPayload),
      twoPackets.map parseBundle = parsed.map (fun chans => some ⟨7, chans, false, none⟩) ∧
      (∀ chans ∈ parsed, (chIdxs chans).Nodup) ∧
      (∀ c p, ⟨c, p⟩ ∈ parsed.flatten ↔
        c.toNat < channels ∧ p = twoEncoded c.toNat ∧ p ≠ []) ∧
      (∀ c : UInt8, c.toNat < channels → twoEncoded c.toNat ≠ [] →
        parsed.countP (fun chans => c.toNat ∈ chIdxs chans) = if c.toNat < 4 then 2 else 1) ∧
      (∀ i, ∀ c : UInt8, c.toNat < 4 → twoEncoded c.toNat ≠ [] →
        ⟨c, twoEncoded c.toNat⟩ ∈ (parsed.eraseIdx i).flatten) ∧
      ((∀ c < channels, (twoEncoded c).length ≤ max 1 (64000 * 480 / 384000)) →
        max 1 (64000 * 480 / 384000) ≤ 1130 → ∀ chans ∈ parsed, totalBytes chans ≤ 1130) :=
  sendBundled_resilient 480 7 false twoEncoded twoPackets (by decide)

end AmbiRTC
