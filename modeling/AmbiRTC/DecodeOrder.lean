/-
AmbiRTC/DecodeOrder.lean

The packets of one frame, in any order (mcu/internal/session/pipeline.go
`decodeLoop`).  A packet reaches the decoder of its channel only if its timestamp
is new there, so of several for one channel only the first is decoded; packets of
different channels act on different decoders and gates, and on the jitter buffer
by writes that commute.

Main result: from every state a session can reach, all orders of the packets of a
frame lead to one state, and no channel is decoded twice (`packets_perm`).
-/
import AmbiRTC.Decode
import AmbiRTC.JitterOrder

namespace AmbiRTC

open Runs

namespace Decode

variable {D : Type} {decode : D → List UInt8 → D × Option (List Int16)}

/-! ### One packet, seen from its channel -/

/-- What a packet comes to: decoder and gate of its channel afterwards, what is
added to the two counters, and the samples to be written. -/
structure Turn (D : Type) where
  decoder : D
  decInTs : ℤ
  reorderDrops : UInt64
  decCount : UInt64
  pcm : Option (List Int16)

/-- The turn of a packet, given decoder and gate of its channel. -/
def turn (decode : D → List UInt8 → D × Option (List Int16)) (decoder : D) (decInTs : ℤ)
    (p : InboundPkt) : Turn D :=
  if p.chIdx.toNat ≥ channels then ⟨decoder, decInTs, 0, 0, none⟩
  else if (p.frameTs.toNat : ℤ) ≤ decInTs then ⟨decoder, decInTs, 1, 0, none⟩
  else
    let r := decode decoder p.payload
    ⟨r.1, p.frameTs.toNat, 0, if r.2.isSome then 1 else 0, r.2⟩

/-- The turn a packet gets in a state. -/
def turnOf (decode : D → List UInt8 → D × Option (List Int16)) (s : DecodeState D)
    (p : InboundPkt) : Turn D :=
  Decode.turn decode (s.decoders p.chIdx.toNat) (s.decInTs p.chIdx.toNat) p

/-- Write the samples of a packet, if there are any. -/
def place (jb : JitterBuffer) (p : InboundPkt) : Option (List Int16) → Option JitterBuffer
  | none => some jb
  | some pcm => jb.writeChannel p.frameTs p.chIdx.toNat pcm

/-- The state after a turn, with its jitter buffer. -/
def after (s : DecodeState D) (c : ℕ) (t : Turn D) (jb : JitterBuffer) : DecodeState D where
  decoders := Function.update s.decoders c t.decoder
  decInTs := Function.update s.decInTs c t.decInTs
  jb := jb
  reorderDrops := s.reorderDrops + t.reorderDrops
  decCount := s.decCount + t.decCount

variable {s s' : DecodeState D} {p q : InboundPkt}

theorem decodePacket_eq (s : DecodeState D) (p : InboundPkt) : decodePacket decode s p
    = (place s.jb p (turnOf decode s p).pcm).map
        (after s p.chIdx.toNat (turnOf decode s p)) := by
  unfold decodePacket turnOf turn
  by_cases hci : p.chIdx.toNat ≥ channels
  · simp [hci, place, after, Function.update_eq_self]
  · by_cases hgate : (p.frameTs.toNat : ℤ) ≤ s.decInTs p.chIdx.toNat
    · simp [hci, hgate, place, after, Function.update_eq_self]
    · simp only [if_neg hci, if_neg hgate]
      rcases (decode (s.decoders p.chIdx.toNat) p.payload).2 with - | pcm
      · simp [place, after]
      · simp only [place, Option.map_eq_bind]
        refine Option.bind_congr fun jb _ => ?_
        simp [after]

/-- A packet gets the same turn after one of another channel. -/
theorem turnOf_after {c : ℕ} {t : Turn D} {jb : JitterBuffer} (hne : q.chIdx.toNat ≠ c) :
    turnOf decode (after s c t jb) q = turnOf decode s q := by
  simp [turnOf, after, Function.update_of_ne hne]

theorem after_comm {c c' : ℕ} {t t' : Turn D} (hne : c ≠ c') (jb jb' jb'' : JitterBuffer) :
    after (after s c t jb) c' t' jb'' = after (after s c' t' jb') c t jb'' := by
  have hadd : ∀ x y z : UInt64, x + y + z = x + z + y := fun x y z => by
    rw [UInt64.add_assoc, UInt64.add_comm y, UInt64.add_assoc]
  simp only [after]
  rw [Function.update_comm hne, Function.update_comm hne, hadd, hadd s.decCount]

/-! ### The packets of a frame -/

/-- The packets still to come are of the frame `ts`; those of one channel are
copies, and the ones that will be decoded have `n` samples. -/
structure OfFrame (decode : D → List UInt8 → D × Option (List Int16)) (ts : UInt32) (n : ℕ)
    (s : DecodeState D) (ps : List InboundPkt) : Prop where
  sound : s.jb.Sound
  channels_eq : s.jb.channels = channels
  frameTs_eq : ∀ p ∈ ps, p.frameTs = ts
  payload_eq : ∀ p ∈ ps, ∀ q ∈ ps, p.chIdx = q.chIdx → p.payload = q.payload
  length_eq : ∀ p ∈ ps, Gated s p → ∀ pcm,
    (decode (s.decoders p.chIdx.toNat) p.payload).2 = some pcm → pcm.length = n

variable {ts : UInt32} {n : ℕ} {ps qs : List InboundPkt}

theorem OfFrame.perm (h : OfFrame decode ts n s ps) (hperm : ps.Perm qs) :
    OfFrame decode ts n s qs where
  sound := h.sound
  channels_eq := h.channels_eq
  frameTs_eq p hp := h.frameTs_eq p (hperm.mem_iff.mpr hp)
  payload_eq p hp q hq := h.payload_eq p (hperm.mem_iff.mpr hp) q (hperm.mem_iff.mpr hq)
  length_eq p hp := h.length_eq p (hperm.mem_iff.mpr hp)

/-- A packet that is decoded after another one of its frame is of another
channel, whose decoder and gate have not changed. -/
theorem gated_before (hts : q.frameTs = p.frameTs) (h : decodePacket decode s p = some s')
    (hgate : Gated s' q) :
    Gated s q ∧ s'.decoders q.chIdx.toNat = s.decoders q.chIdx.toNat := by
  by_cases hp : Gated s p
  · rw [decodePacket_eq] at h
    obtain ⟨jb, -, rfl⟩ := Option.map_eq_some_iff.mp h
    have hturn : (turnOf decode s p).decInTs = p.frameTs.toNat := by
      simp only [turnOf, turn, if_neg (not_le.mpr hp.1), if_neg (not_le.mpr hp.2)]
    have hne : q.chIdx.toNat ≠ p.chIdx.toNat := by
      intro hch
      have hlt := hgate.2
      rw [hts] at hlt
      simp only [after, hch, Function.update_self, hturn] at hlt
      exact absurd hlt (lt_irrefl _)
    refine ⟨⟨hgate.1, ?_⟩, Function.update_of_ne hne _ _⟩
    have hlt := hgate.2
    simp only [after, Function.update_of_ne hne] at hlt
    exact hlt
  · obtain ⟨m, hm⟩ := @decodePacket_of_not_gated _ decode _ _ hp
    obtain rfl := Option.some.inj (hm.symm.trans h)
    exact ⟨hgate, rfl⟩

theorem channels_decodePacket (h : s.jb.Sound) (hp : decodePacket decode s p = some s') :
    s'.jb.channels = s.jb.channels := by
  obtain ⟨s₁, hs₁, -, -, hjb⟩ := @decodePacket_spec _ decode _ h p
  obtain rfl := Option.some.inj (hs₁.symm.trans hp)
  rcases hjb with hjb | ⟨pcm, -, hjb⟩
  · rw [hjb]
  · exact (h.call (a := .write p.frameTs p.chIdx.toNat pcm) hjb).2.channels

theorem OfFrame.tail (h : OfFrame decode ts n s (p :: ps))
    (hp : decodePacket decode s p = some s') : OfFrame decode ts n s' ps := by
  refine ⟨@sound_step _ decode _ _ (.packet p) h.sound hp,
    (channels_decodePacket h.sound hp).trans h.channels_eq,
    fun q hq => h.frameTs_eq q (by simp [hq]),
    fun q hq r hr => h.payload_eq q (by simp [hq]) r (by simp [hr]), fun q hq hgate pcm hpcm => ?_⟩
  have hts : q.frameTs = p.frameTs :=
    (h.frameTs_eq q (by simp [hq])).trans (h.frameTs_eq p (by simp)).symm
  obtain ⟨hgate', hdec⟩ := gated_before hts hp hgate
  exact h.length_eq q (by simp [hq]) hgate' pcm (by rw [← hdec]; exact hpcm)

/-- The packet of a turn with samples is decoded. -/
theorem gated_of_pcm {pcm : List Int16} (h : (turnOf decode s p).pcm = some pcm) :
    Gated s p ∧ (decode (s.decoders p.chIdx.toNat) p.payload).2 = some pcm := by
  unfold turnOf turn at h
  split at h
  · cases h
  split at h
  · cases h
  exact ⟨⟨not_le.mp ‹_›, not_le.mp ‹_›⟩, h⟩

/-- **Packets of a frame commute.** -/
theorem OfFrame.swap (h : OfFrame decode ts n s (p :: q :: ps)) :
    exec (decodePacket decode) s [p, q] = exec (decodePacket decode) s [q, p] := by
  have htsp := h.frameTs_eq p (by simp)
  have htsq := h.frameTs_eq q (by simp)
  by_cases hch : p.chIdx = q.chIdx
  · -- the second is a copy of the first
    have hpayload := h.payload_eq p (by simp) q (by simp) hch
    obtain ⟨c, ts, payload⟩ := p
    obtain ⟨c', ts', payload'⟩ := q
    simp only at htsp htsq hch hpayload
    subst htsp htsq hch hpayload
    rfl
  have hne : p.chIdx.toNat ≠ q.chIdx.toNat := fun heq => hch (UInt8.toNat_inj.mp heq)
  have hplace : (place s.jb p (turnOf decode s p).pcm).bind
        (fun jb => place jb q (turnOf decode s q).pcm)
      = (place s.jb q (turnOf decode s q).pcm).bind
        fun jb => place jb p (turnOf decode s p).pcm := by
    rcases hp : (turnOf decode s p).pcm with - | pcm
    · simp [place]
    rcases hq : (turnOf decode s q).pcm with - | pcm'
    · simp [place]
    obtain ⟨hgp, hdp⟩ := gated_of_pcm hp
    obtain ⟨hgq, hdq⟩ := gated_of_pcm hq
    have hlen := (h.length_eq p (by simp) hgp pcm hdp).trans
      (h.length_eq q (by simp) hgq pcm' hdq).symm
    have hcp := hgp.1
    have hcq := hgq.1
    simp only [place, htsp, htsq]
    refine JitterBuffer.writeChannel_comm h.sound ?_ ?_ (by omega) hlen
    · rw [h.channels_eq]
      omega
    · rw [h.channels_eq]
      omega
  simp only [exec, decodePacket_eq, Option.bind_map, Function.comp_def,
    turnOf_after hne, turnOf_after hne.symm]
  -- the last write decides the buffer, and the rest of the state does not see it
  calc _ = ((place s.jb p (turnOf decode s p).pcm).bind
          fun jb => place jb q (turnOf decode s q).pcm).bind
        fun jb => some (after (after s p.chIdx.toNat (turnOf decode s p) s.jb) q.chIdx.toNat
          (turnOf decode s q) jb) := (Option.bind_assoc _ _ _).symm
    _ = ((place s.jb q (turnOf decode s q).pcm).bind
          fun jb => place jb p (turnOf decode s p).pcm).bind
        fun jb => some (after (after s q.chIdx.toNat (turnOf decode s q) s.jb) p.chIdx.toNat
          (turnOf decode s p) jb) := by
      rw [hplace]
      exact Option.bind_congr fun jb _ => congrArg some (after_comm hne _ _ _)
    _ = _ := Option.bind_assoc _ _ _

/-! ### Once a channel -/

/-- How many packets of channel `c` are decoded on the way. -/
def decodes (decode : D → List UInt8 → D × Option (List Int16)) (c : ℕ) :
    DecodeState D → List InboundPkt → ℕ
  | _, [] => 0
  | s, p :: ps =>
    (if Gated s p ∧ p.chIdx.toNat = c then 1 else 0) +
      match decodePacket decode s p with
      | none => 0
      | some s' => decodes decode c s' ps

/-- Behind a gate at the timestamp of the frame nothing is decoded. -/
theorem OfFrame.decodes_eq_zero {c : ℕ} (h : OfFrame decode ts n s ps)
    (hgate : (ts.toNat : ℤ) ≤ s.decInTs c) : decodes decode c s ps = 0 := by
  induction ps generalizing s with
  | nil => rfl
  | cons p ps ih =>
    obtain ⟨s', hs', -, hdecInTs, -⟩ := @decodePacket_spec _ decode _ h.sound p
    have hts := h.frameTs_eq p (by simp)
    have hnot : ¬(Gated s p ∧ p.chIdx.toNat = c) := by
      rintro ⟨hgated, rfl⟩
      have := hgated.2
      rw [hts] at this
      omega
    rw [decodes, if_neg hnot, hs']
    refine (Nat.zero_add _).trans (ih (h.tail hs') ?_)
    rw [hdecInTs, hts]
    split
    · exact le_rfl
    · exact hgate

theorem OfFrame.decodes_le (h : OfFrame decode ts n s ps) (c : ℕ) :
    decodes decode c s ps ≤ 1 := by
  induction ps generalizing s with
  | nil => exact Nat.zero_le 1
  | cons p ps ih =>
    obtain ⟨s', hs', -, hdecInTs, -⟩ := @decodePacket_spec _ decode _ h.sound p
    have htail := h.tail hs'
    rw [decodes, hs']
    split
    case isTrue hfirst =>
      -- the gate of the channel is at the frame from here on
      have hzero : decodes decode c s' ps = 0 := by
        apply htail.decodes_eq_zero
        rw [hdecInTs, if_pos ⟨hfirst.1, hfirst.2.symm⟩, h.frameTs_eq p (by simp)]
      simp only [hzero]
      exact le_rfl
    case isFalse => exact (Nat.zero_add _).trans_le (ih htail)

/-! ### All orders -/

theorem OfFrame.exists_run (h : OfFrame decode ts n s ps) :
    ∃ s', Run (decodePacket decode) s ps s' := by
  induction ps generalizing s with
  | nil => exact ⟨s, .nil s⟩
  | cons p ps ih =>
    obtain ⟨s₁, hs₁, -⟩ := @decodePacket_spec _ decode _ h.sound p
    obtain ⟨s', hs'⟩ := ih (h.tail hs₁)
    exact ⟨s', .cons hs₁ hs'⟩

/-- A session's buffer has its sixteen channels after every run. -/
theorem channels_of_run {as : List Action} (hrun : Run (step decode) s as s') (h : s.jb.Sound)
    (hch : s.jb.channels = channels) : s'.jb.Sound ∧ s'.jb.channels = channels := by
  refine hrun.invariant (I := fun s => s.jb.Sound ∧ s.jb.channels = channels) ?_ ⟨h, hch⟩
  rintro s a s' ⟨hs, hch⟩ hstep
  refine ⟨sound_step hs hstep, ?_⟩
  cases a with
  | packet p => exact (channels_decodePacket hs hstep).trans hch
  | read out =>
    obtain ⟨jb, hread, hcall⟩ := @step_read _ decode _ out hs
    obtain rfl := Option.some.inj (hread.symm.trans hstep)
    show jb.channels = channels
    rw [(hs.call hcall).2.channels, hch]

/-- **The order of the packets of a frame does not matter.**  From every state of
a session, all orders of packets with one timestamp, those of one channel copies
and all that are decoded of one length, lead to the same decoders, gates, counters
and jitter buffer, and no channel is decoded more than once. -/
theorem packets_perm {frameSize : ℕ} (hfs : frameSize ∈ validFrameSizes) {jb : JitterBuffer}
    (hjb : sessionJitterBuffer frameSize = .ok jb) {decoder : D} {as : List Action}
    (hrun : Run (step decode) (newDecodeState decoder jb) as s) (hperm : ps.Perm qs)
    (hts : ∀ p ∈ ps, p.frameTs = ts)
    (hcopies : ∀ p ∈ ps, ∀ q ∈ ps, p.chIdx = q.chIdx → p.payload = q.payload)
    (hlen : ∀ p ∈ ps, Gated s p → ∀ pcm,
      (decode (s.decoders p.chIdx.toNat) p.payload).2 = some pcm → pcm.length = n) :
    ∃ s', Run (decodePacket decode) s ps s' ∧ Run (decodePacket decode) s qs s' ∧
      ∀ c, decodes decode c s ps ≤ 1 ∧ decodes decode c s qs ≤ 1 := by
  obtain ⟨jb', hjb', hsound, -⟩ := sessionJitterBuffer_sound hfs
  obtain rfl := Except.ok.inj (hjb'.symm.trans hjb)
  have hchannels : jb'.channels = channels := JitterBuffer.channels_of_new hjb
  obtain ⟨hs, hch⟩ := channels_of_run hrun hsound hchannels
  have h : OfFrame decode ts n s ps := ⟨hs, hch, hts, hcopies, hlen⟩
  obtain ⟨s', hs'⟩ := h.exists_run
  have hexec := exec_perm (H := OfFrame decode ts n) (fun _ _ _ hperm h => h.perm hperm)
    (fun _ _ _ _ h hp => h.tail hp) (fun _ _ _ _ h => h.swap) hperm h
  refine ⟨s', hs', .of_exec (hexec.symm.trans (run_iff_exec.mp hs')), fun c =>
    ⟨h.decodes_le c, (h.perm hperm).decodes_le c⟩⟩

/-- A decoder of uncompressed bytes, which counts its packets. -/
def rawDecode (count : ℕ) (payload : List UInt8) : ℕ × Option (List Int16) :=
  (count + 1, some (payload.map fun b => Int16.ofNat b.toNat))

/-- Two channels of a frame, the first one sent twice. -/
def twice : List InboundPkt := [⟨0, 960, [1, 2]⟩, ⟨1, 960, [3, 4]⟩, ⟨0, 960, [1, 2]⟩]

theorem packets_perm_twice : ∃ jb s', sessionJitterBuffer 960 = .ok jb ∧
    Run (decodePacket rawDecode) (newDecodeState 0 jb) twice s' ∧
    Run (decodePacket rawDecode) (newDecodeState 0 jb)
      [⟨1, 960, [3, 4]⟩, ⟨0, 960, [1, 2]⟩, ⟨0, 960, [1, 2]⟩] s' := by
  obtain ⟨jb, hjb, -⟩ := @sessionJitterBuffer_sound 960 (by decide)
  have hts : ∀ p ∈ twice, p.frameTs = 960 := by simp [twice]
  have hcopies : ∀ p ∈ twice, ∀ q ∈ twice, p.chIdx = q.chIdx → p.payload = q.payload := by
    simp [twice]
  have hlen : ∀ p ∈ twice, Gated (newDecodeState 0 jb) p → ∀ pcm,
      (rawDecode 0 p.payload).2 = some pcm → pcm.length = 2 := by
    intro p hp _ pcm hpcm
    obtain rfl := Option.some.inj hpcm
    simp only [twice, List.mem_cons, List.not_mem_nil, or_false] at hp
    rcases hp with rfl | rfl | rfl <;> rfl
  have hperm : twice.Perm [⟨1, 960, [3, 4]⟩, ⟨0, 960, [1, 2]⟩, ⟨0, 960, [1, 2]⟩] := .swap _ _ _
  obtain ⟨s', hs, hs', -⟩ := packets_perm (by decide) hjb (.nil (newDecodeState 0 jb)) hperm hts
    hcopies hlen
  exact ⟨jb, s', hjb, hs, hs'⟩

end Decode

end AmbiRTC
