/-
AmbiRTC/TxConservation.lean

No payload of the bundled uplink is lost.  The accumulator holds one frame at a
time, so outputs of encoders that run apart flush each other's frames in pieces;
what is flushed has been sent in as many packets as the layout names its channel,
and a straggler opens its frame again and goes out later.

Main result: `Tx.outputs_conserved`, for every interleaving of the sixteen streams.
-/
import AmbiRTC.TxBundle
import AmbiRTC.ClientRoundTrip
import AmbiRTC.LossResilience

namespace AmbiRTC.Client

open Runs

/-! ### The same layout -/

theorem chunkFrom_eq {m : ℕ} {s : List UInt8} (room i : ℕ) :
    chunkFrom m (s.map UInt8.toNat) room i
      = (chunkLoop m room (s.drop i)).map (List.map UInt8.toNat) := by
  induction room generalizing i with
  | zero => rfl
  | succ room ih =>
    rw [chunkFrom, chunkLoop, List.length_map]
    by_cases hi : i < s.length
    · have hne : s.drop i ≠ [] := by
        rw [Ne, List.drop_eq_nil_iff]
        omega
      rw [if_pos hi, if_neg hne, List.map_cons, List.drop_drop, ih, List.map_take, List.map_drop]
    · rw [if_neg hi, if_pos (List.drop_eq_nil_iff.mpr (not_lt.mp hi)), List.map_nil]

theorem chunk_eq {m : ℕ} (hm : 1 ≤ m) (s : List UInt8) :
    chunk m (s.map UInt8.toNat) = (chunkU8 s m).map (List.map UInt8.toNat) := by
  rw [chunk, chunkU8, chunkFrom_eq, List.length_map, List.drop_zero]
  simp only [if_neg (not_lt.mpr hm)]

/-- The browser plans the packets of a frame as the server does. -/
theorem planLayout_eq (frameSize : ℕ) :
    planLayout frameSize = (AmbiRTC.planLayout frameSize).map (List.map UInt8.toNat) := by
  have hm := maxChannelsPerPacket_pos frameSize
  have hbase : [0, 1, 2, 3] = baseChannels.map UInt8.toNat := rfl
  have horder2 : [4, 5, 6, 7, 8] = order2Channels.map UInt8.toNat := rfl
  have horder3 : [9, 10, 11, 12, 13, 14, 15] = order3Channels.map UInt8.toNat := rfl
  have hmax : maxChannelsPerPacket frameSize = AmbiRTC.maxChannelsPerPacket frameSize := rfl
  unfold planLayout AmbiRTC.planLayout
  simp only [hbase, horder2, horder3, hmax, List.length_map]
  split
  · simp
  · simp only [chunk_eq hm, List.map_append]

/-- The layout names no other channels than the sixteen. -/
theorem lt_channels_of_mem_planLayout {frameSize : ℕ} {group : List UInt8} {c : UInt8}
    (hgroup : group ∈ AmbiRTC.planLayout frameSize) (hc : c ∈ group) : c.toNat < channels := by
  have hcount := count_planLayout frameSize c
  by_contra hge
  rw [if_neg (by simp only [channels] at hge; omega), if_neg hge] at hcount
  exact List.count_eq_zero.mp hcount (List.mem_flatten.mpr ⟨group, hgroup, hc⟩)

/-! ### The packets of a flush -/

section Group

variable {accum : ℕ → Option (List UInt8)} {group : List UInt8}

/-- The collected channels of a group, as the server would list them. -/
def payloadsOf (accum : ℕ → Option (List UInt8)) (group : List UInt8) : List ChannelPayload :=
  group.filterMap fun c => (accum c.toNat).map fun payload => ⟨c, payload⟩

theorem groupChans_eq : Tx.groupChans accum (group.map UInt8.toNat)
    = (payloadsOf accum group).map Chan.of := by
  unfold Tx.groupChans payloadsOf
  rw [List.filterMap_map, List.map_filterMap]
  refine List.filterMap_congr fun c _ => ?_
  rw [Function.comp_apply]
  cases accum c.toNat <;> rfl

theorem chIdxs_payloadsOf : chIdxs (payloadsOf accum group)
    = (group.filter fun c => (accum c.toNat).isSome).map UInt8.toNat := by
  induction group with
  | nil => rfl
  | cons c group ih =>
    unfold payloadsOf at ih ⊢
    cases hc : accum c.toNat with
    | none => simp [hc, ih]
    | some payload => simp [hc, ih]

/-- Distinct channels with anything collected can be bundled. -/
theorem valid_payloadsOf (hnodup : group.Nodup) (hrange : ∀ c ∈ group, c.toNat < channels)
    (hne : payloadsOf accum group ≠ []) : ValidChans (payloadsOf accum group) := by
  have hidx : ∀ c ∈ chIdxs (payloadsOf accum group), c < channels := by
    rw [chIdxs_payloadsOf]
    intro c hc
    obtain ⟨d, hd, rfl⟩ := List.mem_map.mp hc
    exact hrange d (List.mem_of_mem_filter hd)
  have hdistinct : (chIdxs (payloadsOf accum group)).Nodup := by
    rw [chIdxs_payloadsOf]
    exact (hnodup.filter _).map fun _ _ => UInt8.toNat_inj.mp
  refine ⟨hne, ?_, hidx, hdistinct⟩
  have hsub : chIdxs (payloadsOf accum group) ⊆ List.range channels :=
    fun c hc => List.mem_range.mpr (hidx c hc)
  have hle := (hdistinct.subperm hsub).length_le
  rwa [List.length_range, chIdxs, List.length_map] at hle

/-- Whatever the server could bundle the browser does bundle. -/
theorem exists_marshalBundle {chans : List ChannelPayload} (h : ValidChans chans) (frameTs : ℤ)
    (isRec : Bool) : ∃ bytes, marshalBundle frameTs (chans.map Chan.of) isRec = .ok bytes := by
  obtain ⟨mask, hm, -⟩ := @bundleMask_ok _ 0 h.sort.range h.sort.nodup (by simp)
  have hmask : chanMask ((sortByChIdx chans).map Chan.of) 0 = .ok mask.toUInt32 :=
    chanMask_of_bundleMask hm
  have hne : ¬ chans.length = 0 := fun h0 => h.nonempty (List.length_eq_zero_iff.mp h0)
  rw [marshalBundle, List.length_map, if_neg hne, if_neg (not_lt.mpr h.length_le)]
  simp only [sortChans_map, hmask]
  exact ⟨_, rfl⟩

end Group

/-- The browser reads one of its packets back. -/
theorem Packet.parseBundle_bytes (p : Packet) {chans : List ChannelPayload} (h : ValidChans chans)
    (hchans : p.chans = chans.map Chan.of) (hts : p.frameTs < 2 ^ 32)
    (htotal : (p.chans.map fun ch => ch.payload.length).sum < 2 ^ 31) :
    ∃ sorted, parseBundle p.bytes = .ok ⟨UInt32.ofNat p.frameTs, sorted, p.isRec⟩ ∧
      (sorted.map Chan.of).Perm p.chans ∧ sorted.Pairwise fun a b => a.chIdx < b.chIdx := by
  have hbytes : totalBytes chans < 2 ^ 31 := by
    rw [hchans, List.map_map] at htotal
    exact htotal
  obtain ⟨buf, sorted, hmarshal, -, hparse, hperm, hsorted⟩ :=
    marshalBundle_interoperates (UInt32.ofNat p.frameTs) p.isRec chans h hbytes
  have hbuf := p.marshalled
  rw [UInt32.toNat_ofNat_of_lt' hts, ← hchans, hbuf] at hmarshal
  obtain rfl := Except.ok.inj hmarshal
  refine ⟨sorted, hparse, ?_, hsorted⟩
  rw [hchans]
  exact hperm.map Chan.of

namespace Tx

variable {s s' : Tx} {ts frameSize : ℕ} {accum : ℕ → Option (List UInt8)} {isRec : Bool}

/-- What packets are made of. -/
def contents (packets : List Packet) : List (ℕ × List Chan) :=
  packets.map fun p => (p.frameTs, p.chans)

/-- The contents of the packets of a frame. -/
def plan (frameSize ts : ℕ) (accum : ℕ → Option (List UInt8)) : List (ℕ × List Chan) :=
  (((planLayout frameSize).map (groupChans accum)).filter fun chans => chans ≠ []).map
    fun chans => (ts, chans)

/-- What is collected of a group of the layout can be bundled. -/
theorem exists_valid_groupChans {group : List ℕ} (hgroup : group ∈ planLayout frameSize)
    (hne : groupChans accum group ≠ []) :
    ∃ chans, ValidChans chans ∧ groupChans accum group = chans.map Chan.of := by
  rw [planLayout_eq] at hgroup
  obtain ⟨g, hg, rfl⟩ := List.mem_map.mp hgroup
  refine ⟨payloadsOf accum g, valid_payloadsOf (nodup_of_mem_planLayout hg)
    (fun c hc => lt_channels_of_mem_planLayout hg hc) fun hnil => hne ?_, groupChans_eq⟩
  rw [groupChans_eq, hnil]
  rfl

/-- A group with anything collected is sent in one packet. -/
theorem sendGroup_spec {group : List ℕ} (hgroup : group ∈ planLayout frameSize) :
    ∃ packets count, sendGroup ts accum isRec s group
        = { s with sent := s.sent ++ packets, totalPktsSent := count } ∧
      contents packets = if groupChans accum group = [] then [] else [(ts, groupChans accum group)]
        := by
  unfold sendGroup
  by_cases hempty : groupChans accum group = []
  · refine ⟨[], s.totalPktsSent, ?_, by rw [if_pos hempty]; rfl⟩
    rw [if_pos (List.length_eq_zero_iff.mpr hempty), List.append_nil]
  · rw [if_neg (fun h0 => hempty (List.length_eq_zero_iff.mp h0)), if_neg hempty]
    obtain ⟨chans, hvalid, hchans⟩ := exists_valid_groupChans hgroup hempty
    obtain ⟨bytes, hbytes⟩ := exists_marshalBundle hvalid ts isRec
    rw [← hchans] at hbytes
    split
    · rename_i hmarshal
      rw [hbytes] at hmarshal
      cases hmarshal
    · exact ⟨[⟨ts, _, isRec, _, ‹_›⟩], s.totalPktsSent + 1, rfl, rfl⟩

/-- All groups of the layout, one after the other. -/
theorem sendGroups_spec {groups : List (List ℕ)} (h : ∀ g ∈ groups, g ∈ planLayout frameSize) :
    ∃ packets count, groups.foldl (sendGroup ts accum isRec) s
        = { s with sent := s.sent ++ packets, totalPktsSent := count } ∧
      contents packets = ((groups.map (groupChans accum)).filter fun chans => chans ≠ []).map
        fun chans => (ts, chans) := by
  induction groups generalizing s with
  | nil => exact ⟨[], s.totalPktsSent, by simp, rfl⟩
  | cons group groups ih =>
    obtain ⟨packets, count, hsend, hpackets⟩ :=
      @sendGroup_spec s ts frameSize accum isRec group (h group (by simp))
    obtain ⟨packets', count', hrest, hpackets'⟩ :=
      @ih (sendGroup ts accum isRec s group) fun g hg => h g (by simp [hg])
    refine ⟨packets ++ packets', count', ?_, ?_⟩
    · rw [List.foldl_cons, hrest, hsend]
      simp
    · unfold contents at hpackets hpackets' ⊢
      rw [List.map_append, hpackets, hpackets', List.map_cons, List.filter_cons]
      by_cases hempty : groupChans accum group = [] <;> simp [hempty]

/-- The accumulator is given up. -/
def cleared (s : Tx) : Tx :=
  { s with txBundleTs := none, txBundleAccum := none, txBundleCount := 0 }

/-- **What a flush does**: it sends what has been collected, by the layout. -/
theorem flushBundle_spec (hopen : s.dcOpen = true) (hts : s.txBundleTs = some ts)
    (haccum : s.txBundleAccum = some accum) : ∃ packets count, s.flushBundle frameSize isRec
        = { s.cleared with sent := s.sent ++ packets, totalPktsSent := count } ∧
      contents packets = plan frameSize ts accum := by
  obtain ⟨packets, count, hsend, hpackets⟩ :=
    @sendGroups_spec s.cleared ts frameSize accum isRec (planLayout frameSize) fun g hg => hg
  refine ⟨packets, count, ?_, hpackets⟩
  unfold flushBundle
  rw [hts, haccum]
  simp only
  rw [if_neg (by simp [hopen])]
  exact hsend

/-- Without an accumulator there is nothing to flush. -/
theorem flushBundle_of_none (hts : s.txBundleTs = none) :
    s.flushBundle frameSize isRec = s.cleared := by
  unfold flushBundle
  rw [hts]
  rfl

/-! ### Where a payload is -/

/-- The output is in the accumulator. -/
def Held (s : Tx) (o : Output) : Prop :=
  s.txBundleTs = some o.frameTs ∧
    ∃ accum, s.txBundleAccum = some accum ∧ accum o.chIdx = some o.payload

/-- A packet of the output's frame has its payload under its channel. -/
def Carries (p : Packet) (o : Output) : Prop :=
  p.frameTs = o.frameTs ∧ ⟨o.chIdx.val, o.payload⟩ ∈ p.chans

instance (p : Packet) (o : Output) : Decidable (Carries p o) :=
  inferInstanceAs (Decidable (_ ∧ _))

/-- In how many packets the output has been sent. -/
def copies (s : Tx) (o : Output) : ℕ := s.sent.countP fun p => Carries p o

/-- How many groups of the layout contain a channel. -/
def groups (frameSize : ℕ) (c : Fin 16) : ℕ := (planLayout frameSize).countP fun g => c.val ∈ g

/-- The base channels go twice, the others once. -/
theorem groups_eq (frameSize : ℕ) (c : Fin 16) :
    groups frameSize c = if c.val < 4 then 2 else 1 := by
  have hval : (UInt8.ofNat c.val).toNat = c.val := Leb128.toNat_ofNat_of_lt (by omega)
  have hcount := count_planLayout frameSize (UInt8.ofNat c.val)
  rw [hval, ← countP_mem_eq_count fun group => nodup_of_mem_planLayout] at hcount
  have hmem : ∀ group : List UInt8, c.val ∈ group.map UInt8.toNat ↔ UInt8.ofNat c.val ∈ group := by
    intro group
    rw [← hval, UInt8.ofNat_toNat]
    exact List.mem_map_of_injective fun _ _ => UInt8.toNat_inj.mp
  rw [groups, planLayout_eq, List.countP_map]
  simp only [Function.comp_def, hmem]
  rw [hcount]
  have hc := c.isLt
  simp only [channels, hc, if_true]

theorem mem_groupChans {c : ℕ} {payload : List UInt8} {group : List ℕ} :
    ⟨c, payload⟩ ∈ groupChans accum group ↔ c ∈ group ∧ accum c = some payload := by
  unfold groupChans
  rw [List.mem_filterMap]
  constructor
  · rintro ⟨ch, hmem, h⟩
    obtain ⟨payload', haccum, heq⟩ := Option.map_eq_some_iff.mp h
    obtain ⟨hch, rfl⟩ := Chan.mk.inj heq
    obtain rfl : ch = c := by exact_mod_cast hch
    exact ⟨hmem, haccum⟩
  · rintro ⟨hmem, haccum⟩
    exact ⟨c, hmem, by rw [haccum]; rfl⟩

/-- Of the packets of a frame as many carry a collected payload as the layout has
groups with its channel, and none carries another one. -/
theorem countP_plan {packets : List Packet} (h : contents packets = plan frameSize ts accum)
    (o : Output) : packets.countP (fun p => Carries p o)
      = if ts = o.frameTs ∧ accum o.chIdx = some o.payload then groups frameSize o.chIdx
        else 0 := by
  have hcontents : packets.countP (fun p => Carries p o) = (contents packets).countP
      fun q => q.1 = o.frameTs ∧ ⟨o.chIdx.val, o.payload⟩ ∈ q.2 := by
    rw [contents, List.countP_map]
    rfl
  rw [hcontents, h, plan, List.countP_map, List.countP_filter, List.countP_map, groups]
  split
  case isTrue hheld =>
    refine List.countP_congr fun group _ => ?_
    simp only [Function.comp_apply, Bool.and_eq_true, decide_eq_true_eq, mem_groupChans, hheld,
      true_and, and_true]
    refine ⟨fun hmem => hmem.1, fun hmem => ⟨hmem, fun hnil => ?_⟩⟩
    have := mem_groupChans.mpr ⟨hmem, hheld.2⟩
    rw [hnil] at this
    cases this
  case isFalse hother =>
    rw [List.countP_eq_zero]
    intro group _ hp
    simp only [Function.comp_apply, Bool.and_eq_true, decide_eq_true_eq, mem_groupChans] at hp
    exact hother ⟨hp.1.1, hp.1.2.2⟩

/-- What holds after the outputs `past`: each of them is in the accumulator and
not sent, or not there and sent by the layout; and there is nothing else. -/
structure Conserves (frameSize : ℕ) (past : List Output) (s : Tx) : Prop where
  dcOpen : s.dcOpen = true
  paired : s.txBundleTs = none ↔ s.txBundleAccum = none
  held : ∀ ts accum, s.txBundleTs = some ts → s.txBundleAccum = some accum →
    ∀ (c : Fin 16) payload, accum c = some payload →
      ∃ o ∈ past, o.chIdx = c ∧ o.frameTs = ts ∧ o.payload = payload
  sent : ∀ p ∈ s.sent, ∀ ch ∈ p.chans, ∃ o ∈ past, o.frameTs = p.frameTs ∧
    ch = ⟨o.chIdx.val, o.payload⟩
  wellFormed : ∀ p ∈ s.sent, ∃ chans, ValidChans chans ∧ p.chans = chans.map Chan.of
  fate : ∀ o ∈ past, Held s o ∧ s.copies o = 0 ∨ ¬Held s o ∧ s.copies o = groups frameSize o.chIdx

variable {past : List Output} {o : Output}

theorem conserves_start (frameSize : ℕ) : Conserves frameSize [] start := by
  refine ⟨rfl, iff_of_true rfl rfl, ?_, ?_, ?_, ?_⟩
  · intro _ _ h
    cases h
  all_goals
    intro _ h
    cases h

/-- A new packet is what was collected of a group. -/
theorem of_mem_packets {packets : List Packet} {ts : ℕ}
    (hpackets : contents packets = plan frameSize ts accum) {p : Packet} (hp : p ∈ packets) :
    p.frameTs = ts ∧ ∃ group ∈ planLayout frameSize,
      p.chans = groupChans accum group ∧ groupChans accum group ≠ [] := by
  have hmem : (p.frameTs, p.chans) ∈ plan frameSize ts accum := by
    rw [← hpackets]
    exact List.mem_map_of_mem hp
  obtain ⟨chans, hchans, heq⟩ := List.mem_map.mp hmem
  obtain ⟨hframe, rfl⟩ := Prod.mk.inj heq
  obtain ⟨hmem, hne⟩ := List.mem_filter.mp hchans
  obtain ⟨group, hgroup, hfrom⟩ := List.mem_map.mp hmem
  exact ⟨hframe.symm, group, hgroup, hfrom.symm, by rw [hfrom]; exact of_decide_eq_true hne⟩

/-- What is in the packet of a group is in the accumulator. -/
theorem of_mem_groupChans {group : List ℕ} (hgroup : group ∈ planLayout frameSize) {ch : Chan}
    (hch : ch ∈ groupChans accum group) :
    ∃ (c : Fin 16) (payload : List UInt8), accum c = some payload ∧ ch = ⟨c.val, payload⟩ := by
  obtain ⟨c, hc, hput⟩ := List.mem_filterMap.mp hch
  obtain ⟨payload, hpayload, rfl⟩ := Option.map_eq_some_iff.mp hput
  have hlt : c < 16 := by
    rw [planLayout_eq] at hgroup
    obtain ⟨g, hg, rfl⟩ := List.mem_map.mp hgroup
    obtain ⟨d, hd, rfl⟩ := List.mem_map.mp hc
    exact lt_channels_of_mem_planLayout hg hd
  exact ⟨⟨c, hlt⟩, payload, hpayload, rfl⟩

/-- Nothing is held when no frame is open. -/
theorem not_held_of_none (hts : s.txBundleTs = none) (o : Output) : ¬Held s o := by
  rintro ⟨hts', -⟩
  rw [hts] at hts'
  cases hts'

/-- An open frame has its accumulator. -/
theorem Conserves.exists_accum (h : Conserves frameSize past s) {ts : ℕ}
    (hts : s.txBundleTs = some ts) : ∃ accum, s.txBundleAccum = some accum := by
  refine Option.ne_none_iff_exists'.mp fun hnone => ?_
  rw [h.paired.mpr hnone] at hts
  cases hts

/-- **A flush loses nothing**: what was in the accumulator has been sent. -/
theorem Conserves.flush (h : Conserves frameSize past s) (isRec : Bool) :
    Conserves frameSize past (s.flushBundle frameSize isRec) ∧
      (s.flushBundle frameSize isRec).txBundleTs = none := by
  rcases hts : s.txBundleTs with - | ts
  -- nothing accumulated, nothing sent
  · rw [flushBundle_of_none hts]
    refine ⟨⟨h.dcOpen, iff_of_true rfl rfl, ?_, h.sent, h.wellFormed, fun o ho => ?_⟩, rfl⟩
    · intro _ _ hts
      cases hts
    refine Or.inr ⟨not_held_of_none rfl o, ?_⟩
    rcases h.fate o ho with ⟨hheld, -⟩ | ⟨-, hcopies⟩
    · exact absurd hheld (not_held_of_none hts o)
    · exact hcopies
  · obtain ⟨accum, haccum⟩ := h.exists_accum hts
    obtain ⟨packets, count, hflush, hpackets⟩ :=
      @flushBundle_spec s ts frameSize accum isRec h.dcOpen hts haccum
    rw [hflush]
    refine ⟨⟨h.dcOpen, iff_of_true rfl rfl, ?_, fun p hp ch hch => ?_, fun p hp => ?_,
      fun o ho => Or.inr ⟨not_held_of_none rfl o, ?_⟩⟩, rfl⟩
    · intro _ _ hts
      cases hts
    -- a new packet carries what the accumulator held
    · rcases List.mem_append.mp hp with hp | hp
      · exact h.sent p hp ch hch
      · obtain ⟨hframe, group, hgroup, hfrom, -⟩ := of_mem_packets hpackets hp
        rw [hfrom] at hch
        obtain ⟨c, payload, hpayload, rfl⟩ := of_mem_groupChans hgroup hch
        obtain ⟨o, ho, hidx, hts', rfl⟩ := h.held ts accum hts haccum c payload hpayload
        exact ⟨o, ho, hts'.trans hframe.symm, by rw [hidx]⟩
    -- and it is well formed
    · rcases List.mem_append.mp hp with hp | hp
      · exact h.wellFormed p hp
      · obtain ⟨-, group, hgroup, hfrom, hne⟩ := of_mem_packets hpackets hp
        rw [hfrom]
        exact exists_valid_groupChans hgroup hne
    · -- as many packets are added as the layout asks for, if it was not sent before
      have hadded := countP_plan hpackets o
      have hcopies : copies { s.cleared with sent := s.sent ++ packets, totalPktsSent := count } o
          = s.copies o + packets.countP fun p => Carries p o := List.countP_append
      rw [hcopies, hadded]
      rcases h.fate o ho with ⟨hheld, hzero⟩ | ⟨hnot, hsent⟩
      · obtain ⟨hframe, accum', haccum', hput⟩ := hheld
        obtain rfl := Option.some.inj (haccum.symm.trans haccum')
        rw [if_pos ⟨Option.some.inj (hts.symm.trans hframe), hput⟩, hzero, Nat.zero_add]
      · rw [if_neg, hsent, Nat.add_zero]
        rintro ⟨rfl, hput⟩
        exact hnot ⟨hts, accum, haccum, hput⟩

/-- A frame may be opened where there is none. -/
theorem Conserves.openFrame (h : Conserves frameSize past s) (hts : s.txBundleTs = none)
    (frameTs : ℕ) : Conserves frameSize past { s with
      txBundleTs := some frameTs
      txBundleAccum := some fun _ => none
      txBundleCount := 0 } := by
  refine ⟨h.dcOpen, iff_of_false (by simp) (by simp), fun _ _ _ haccum c payload hput => ?_, h.sent,
    h.wellFormed, fun o ho => Or.inr ⟨?_, ?_⟩⟩
  · obtain rfl := Option.some.inj haccum
    cases hput
  · rintro ⟨-, accum, haccum, hput⟩
    obtain rfl := Option.some.inj haccum
    cases hput
  · rcases h.fate o ho with ⟨⟨hts', -⟩, -⟩ | ⟨-, hcopies⟩
    · rw [hts] at hts'
      cases hts'
    · exact hcopies

/-- A new output goes into its frame, where its channel has none yet. -/
theorem Conserves.put (h : Conserves frameSize past s) (hts : s.txBundleTs = some o.frameTs)
    (haccum : s.txBundleAccum = some accum)
    (hfresh : ∀ o' ∈ past, o'.chIdx = o.chIdx → o'.frameTs ≠ o.frameTs) (count : ℕ) :
    Conserves frameSize (past ++ [o]) { s with
      txBundleCount := count
      txBundleAccum := some (Function.update accum o.chIdx (some o.payload)) } := by
  have hother : ∀ o' ∈ past, o'.frameTs = o.frameTs →
      Function.update accum o.chIdx (some o.payload) o'.chIdx = accum o'.chIdx := by
    intro o' ho' hframe
    refine Function.update_of_ne (fun hidx => ?_) _ _
    exact hfresh o' ho' (Fin.val_injective hidx) hframe
  refine ⟨h.dcOpen, iff_of_false (by simp [hts]) (by simp), ?_, fun p hp ch hch => ?_,
    h.wellFormed, fun o' ho' => ?_⟩
  · intro ts accum' hts' haccum' c payload hput
    obtain rfl := Option.some.inj haccum'
    by_cases hc : c = o.chIdx
    · subst hc
      rw [Function.update_self] at hput
      exact ⟨o, by simp, rfl, Option.some.inj (hts.symm.trans hts'), Option.some.inj hput⟩
    · rw [Function.update_of_ne (fun hval => hc (Fin.val_injective hval))] at hput
      obtain ⟨o', ho', hrest⟩ := h.held ts accum hts' haccum c payload hput
      exact ⟨o', List.mem_append_left _ ho', hrest⟩
  · obtain ⟨o', ho', hrest⟩ := h.sent p hp ch hch
    exact ⟨o', List.mem_append_left _ ho', hrest⟩
  rcases List.mem_append.mp ho' with ho' | ho'
  · -- an older output: it is where it was
    have hheld : Held { s with
        txBundleCount := count
        txBundleAccum := some (Function.update accum o.chIdx (some o.payload)) } o'
          ↔ Held s o' := by
      constructor
      · rintro ⟨hts', accum', haccum', hput⟩
        obtain rfl := Option.some.inj haccum'
        rw [hother o' ho' (Option.some.inj (hts'.symm.trans hts))] at hput
        exact ⟨hts', accum, haccum, hput⟩
      · rintro ⟨hts', accum', haccum', hput⟩
        obtain rfl := Option.some.inj (haccum.symm.trans haccum')
        refine ⟨hts', _, rfl, ?_⟩
        rw [hother o' ho' (Option.some.inj (hts'.symm.trans hts))]
        exact hput
    rw [hheld]
    exact h.fate o' ho'
  · obtain rfl := List.mem_singleton.mp ho'
    refine Or.inl ⟨⟨hts, _, rfl, Function.update_self ..⟩, ?_⟩
    -- no packet has a payload of this channel and frame
    refine List.countP_eq_zero.mpr fun p hp hcarries => ?_
    obtain ⟨hframe, hmem⟩ := of_decide_eq_true hcarries
    obtain ⟨o, ho, hts', heq⟩ := h.sent p hp _ hmem
    have hidx : o.chIdx = o'.chIdx := by
      have := (Chan.mk.inj heq).1
      exact Fin.val_injective (by exact_mod_cast this.symm)
    exact hfresh o ho hidx (hts'.trans hframe)

/-- **An output is put into the accumulator, and nothing is lost.** -/
theorem Conserves.next (h : Conserves frameSize past s)
    (hfresh : ∀ o' ∈ past, o'.chIdx = o.chIdx → o'.frameTs ≠ o.frameTs) :
    ∃ s', s.onEncoderOutput frameSize false o = some s' ∧ Conserves frameSize (past ++ [o]) s' := by
  -- the frame is open: the output is put into it, and the sixteenth flushes it
  have hopened : ∀ {s : Tx}, Conserves frameSize past s → s.txBundleTs = some o.frameTs →
      ∀ accum, s.txBundleAccum = some accum → ∀ count,
      Conserves frameSize (past ++ [o])
        (let s := { s with
          txBundleCount := count
          txBundleAccum := some (Function.update accum o.chIdx (some o.payload)) }
        if s.txBundleCount = channels then s.flushBundle frameSize o.isRec else s) := by
    intro s h hts accum haccum count
    have hput := h.put hts haccum hfresh count
    show Conserves _ _ (if count = channels then _ else _)
    split
    · exact (hput.flush o.isRec).1
    · exact hput
  unfold onEncoderOutput accumulateBundle
  rw [if_neg (by simp [h.dcOpen]), if_neg (by simp)]
  by_cases hsame : s.txBundleTs = some o.frameTs
  case neg =>
    simp only [ne_eq, hsame, not_false_eq_true, if_true]
    obtain ⟨hflush, hnone⟩ := h.flush o.isRec
    exact ⟨_, rfl, hopened (hflush.openFrame hnone o.frameTs) rfl _ rfl _⟩
  case pos =>
    have hcond : ¬ s.txBundleTs ≠ some o.frameTs := not_not.mpr hsame
    obtain ⟨accum, haccum⟩ := h.exists_accum hsame
    simp only [if_neg hcond, haccum]
    exact ⟨_, rfl, hopened h hsame accum haccum _⟩

/-- After every run of outputs, no two of a channel of one frame. -/
theorem conserves_of_run {outs : List Output}
    (h : outs.Pairwise fun o o' => o.chIdx = o'.chIdx → o.frameTs < o'.frameTs) :
    ∃ s, Run (onEncoderOutput frameSize false) start outs s ∧ Conserves frameSize outs s := by
  induction outs using List.reverseRecOn with
  | nil => exact ⟨start, .nil start, conserves_start frameSize⟩
  | append_singleton outs o ih =>
    obtain ⟨houts, -, hlast⟩ := List.pairwise_append.mp h
    obtain ⟨s, hrun, hconserves⟩ := ih houts
    have hfresh : ∀ o' ∈ outs, o'.chIdx = o.chIdx → o'.frameTs ≠ o.frameTs :=
      fun o' ho' hidx => (hlast o' ho' o (List.mem_singleton_self o) hidx).ne
    obtain ⟨s', hs', hconserves'⟩ := hconserves.next hfresh
    exact ⟨s', hrun.snoc hs', hconserves'⟩

/-- **The uplink conserves payloads**: whatever the skew of the encoders, each
output is in the accumulator and in no packet, or out of it and in as many packets
as groups of the layout have its channel; packets hold payloads of their own frame
and channels only, and the browser's parser reads them off the bytes. -/
theorem outputs_conserved (frameSize : ℕ) (outs : List Output)
    (hincreasing : outs.Pairwise fun o o' => o.chIdx = o'.chIdx → o.frameTs < o'.frameTs)
    (hrange : ∀ o ∈ outs, o.frameTs < 2 ^ 32) :
    ∃ s, Run (onEncoderOutput frameSize false) start outs s ∧
      (∀ o ∈ outs, Held s o ∧ s.copies o = 0 ∨
        ¬Held s o ∧ s.copies o = groups frameSize o.chIdx ∧ 0 < groups frameSize o.chIdx) ∧
      (∀ p ∈ s.sent, ∀ ch ∈ p.chans, ∃ o ∈ outs, o.frameTs = p.frameTs ∧
        ch = ⟨o.chIdx.val, o.payload⟩) ∧
      ∀ p ∈ s.sent, (p.chans.map fun ch => ch.payload.length).sum < 2 ^ 31 →
        ∃ sorted, parseBundle p.bytes = .ok ⟨UInt32.ofNat p.frameTs, sorted, p.isRec⟩ ∧
          (sorted.map Chan.of).Perm p.chans ∧ sorted.Pairwise fun a b => a.chIdx < b.chIdx := by
  obtain ⟨s, hrun, h⟩ := @conserves_of_run frameSize outs hincreasing
  refine ⟨s, hrun, fun o ho => ?_, h.sent, fun p hp htotal => ?_⟩
  · have hgroups : 0 < groups frameSize o.chIdx := by
      rw [groups_eq]
      split <;> decide
    rcases h.fate o ho with hheld | ⟨hnot, hcopies⟩
    · exact Or.inl hheld
    · exact Or.inr ⟨hnot, hcopies, hgroups⟩
  obtain ⟨chans, hvalid, hchans⟩ := h.wellFormed p hp
  have hts : p.frameTs < 2 ^ 32 := by
    obtain ⟨c, hc⟩ := List.exists_mem_of_ne_nil chans hvalid.nonempty
    obtain ⟨o, ho, hframe, -⟩ := h.sent p hp (Chan.of c) (by
      rw [hchans]
      exact List.mem_map_of_mem hc)
    rw [← hframe]
    exact hrange o ho
  exact p.parseBundle_bytes hvalid hchans hts htotal

/-- Channel `d` runs a frame behind channel `c`; the straggler opens its frame again. -/
def skewedOutputs (c d : Fin 16) : List Output :=
  [⟨c, 0, [1], false⟩, ⟨c, 480, [2, 2], false⟩, ⟨d, 0, [3], false⟩]

theorem outputs_conserved_skewed :
    ∃ s, Run (onEncoderOutput 480 false) start (skewedOutputs 0 1) s ∧
      (∀ o ∈ skewedOutputs 0 1, Held s o ∧ s.copies o = 0 ∨
        ¬Held s o ∧ s.copies o = groups 480 o.chIdx ∧ 0 < groups 480 o.chIdx) ∧
      (∀ p ∈ s.sent, ∀ ch ∈ p.chans, ∃ o ∈ skewedOutputs 0 1, o.frameTs = p.frameTs ∧
        ch = ⟨o.chIdx.val, o.payload⟩) ∧
      ∀ p ∈ s.sent, (p.chans.map fun ch => ch.payload.length).sum < 2 ^ 31 →
        ∃ sorted, parseBundle p.bytes = .ok ⟨UInt32.ofNat p.frameTs, sorted, p.isRec⟩ ∧
          (sorted.map Chan.of).Perm p.chans ∧ sorted.Pairwise fun a b => a.chIdx < b.chIdx :=
  outputs_conserved 480 (skewedOutputs 0 1) (by decide) (by decide)

end Tx

end AmbiRTC.Client
