/-
AmbiRTC/Decode.lean

The input side of a session (mcu/internal/session/pipeline.go `decodeLoop`,
`ReadInputFrame`): packets are decoded, one decoder a channel, and written into
the jitter buffer, which the mix clock reads.

The Opus decoder is a parameter: `decode d payload` is the decoder afterwards
and the samples, or `none` for an error.

Main results: `decodePacket_spec` (what one turn of the loop does) and
`exists_run`, by which a session with a sound buffer never panics.
-/
import AmbiRTC.Demux
import AmbiRTC.Layout
import AmbiRTC.JitterSteps

namespace AmbiRTC

open Runs

/-! ### The loop -/

/-- What `decodeLoop` keeps, by channel where there is one of each. -/
structure DecodeState (D : Type) where
  decoders : ℕ → D
  /-- timestamp of the last packet decoded; -1 before the first -/
  decInTs : ℕ → ℤ
  jb : JitterBuffer
  reorderDrops : UInt64
  decCount : UInt64

/-- `proto.ValidFrameSizes`. -/
def validFrameSizes : List ℕ := [120, 240, 480, 960, 1920, 2880]

/-- `jitterBufferSeconds`. -/
def jitterBufferSeconds : ℕ := 2

/-- `prebufferFrames`. -/
def prebufferFrames : ℕ := 2

/-- The jitter buffer of a new session. -/
def sessionJitterBuffer (frameSize : ℕ) : Except String JitterBuffer :=
  newJitterBuffer channels frameSize (jitterBufferSeconds * protoSampleRate : ℕ)
    (prebufferFrames * frameSize : ℕ)

/-- The state of a new session. -/
def newDecodeState {D : Type} (decoder : D) (jb : JitterBuffer) : DecodeState D where
  decoders := fun _ => decoder
  decInTs := fun _ => -1
  jb := jb
  reorderDrops := 0
  decCount := 0

variable {D : Type} (decode : D → List UInt8 → D × Option (List Int16))

/-- One turn of `decodeLoop`, on the packet `p`. -/
def decodePacket (s : DecodeState D) (p : InboundPkt) : Option (DecodeState D) :=
  let ci := p.chIdx.toNat
  if ci ≥ channels then some s
  else if (p.frameTs.toNat : ℤ) ≤ s.decInTs ci then
    some { s with reorderDrops := s.reorderDrops + 1 }
  else
    let s := { s with decInTs := Function.update s.decInTs ci p.frameTs.toNat }
    let r := decode (s.decoders ci) p.payload
    let s := { s with decoders := Function.update s.decoders ci r.1 }
    match r.2 with
    | none => some s
    | some pcm => do
      let jb ← s.jb.writeChannel p.frameTs ci pcm
      return { s with decCount := s.decCount + 1, jb := jb }

/-- A session's buffer exists at every frame size the server starts with, and is
sound, with its pointers at zero. -/
theorem sessionJitterBuffer_sound {frameSize : ℕ} (h : frameSize ∈ validFrameSizes) :
    ∃ jb, sessionJitterBuffer frameSize = .ok jb ∧ jb.Sound ∧ jb.frameSize = frameSize ∧
      jb.readTs = 0 ∧ jb.writeTs = 0 := by
  have hbounds : 0 < frameSize ∧ 5 * frameSize ≤ 96000 := by
    have hall : ∀ n ∈ validFrameSizes, 0 < n ∧ 5 * n ≤ 96000 := by decide
    exact hall frameSize h
  have hlen : jitterBufferSeconds * protoSampleRate = 96000 := rfl
  have hpre : prebufferFrames * frameSize = 2 * frameSize := rfl
  have hnew : ∃ jb, sessionJitterBuffer frameSize = .ok jb ∧ jb.frameSize = frameSize ∧
      jb.bufLen = 96000 ∧ jb.prebuffer = 2 * frameSize ∧ jb.readTs = 0 ∧ jb.writeTs = 0 := by
    unfold sessionJitterBuffer newJitterBuffer
    rw [hlen, hpre, if_neg (show ¬ ((channels : ℤ) ≤ 0 ∨ (frameSize : ℤ) ≤ 0) by
      simp only [channels]; omega), if_neg (by omega)]
    refine ⟨_, rfl, Int.toNat_natCast _, rfl, ?_, rfl, rfl⟩
    simp only
    rw [if_neg (by omega)]
    push_cast
    rfl
  obtain ⟨jb, hjb, hfs, hbuf, hprebuffer, hread, hwrite⟩ := hnew
  refine ⟨jb, hjb, JitterBuffer.sound_of_new hjb ?_, hfs, hread, hwrite⟩
  rw [hfs, hbuf, hprebuffer]
  omega

namespace Decode

/-- A packet for `decodeLoop`, or a read by the mix clock. -/
inductive Action where
  | packet (p : InboundPkt)
  | read (out : List (List Int16))
  deriving DecidableEq, Repr

/-- The state after one action. -/
def step (s : DecodeState D) : Action → Option (DecodeState D)
  | .packet p => decodePacket decode s p
  | .read out => (s.jb.readFrame out).map fun r => { s with jb := r.1 }

/-- The packet is for a channel and newer than the last one: it goes to the decoder. -/
def Gated (s : DecodeState D) (p : InboundPkt) : Prop :=
  p.chIdx.toNat < channels ∧ s.decInTs p.chIdx.toNat < p.frameTs.toNat

/-- The packet's samples lie entirely behind the read pointer, where
`WriteChannel` drops them. -/
def DroppedLate (s : DecodeState D) (p : InboundPkt) : Prop :=
  ∃ pcm, (decode (s.decoders p.chIdx.toNat) p.payload).2 = some pcm ∧ pcm ≠ [] ∧
    (p.frameTs.toNat : ℤ) + pcm.length ≤ (s.jb.anchor p.frameTs.toNat).readTs

instance (s : DecodeState D) (p : InboundPkt) : Decidable (Gated s p) :=
  inferInstanceAs (Decidable (_ ∧ _))

/-! ### What one turn does -/

variable {decode} {s s' : DecodeState D}

theorem decodePacket_of_not_gated {p : InboundPkt} (h : ¬ Gated s p) :
    ∃ n, decodePacket decode s p = some { s with reorderDrops := n } := by
  unfold decodePacket
  by_cases hci : p.chIdx.toNat ≥ channels
  · exact ⟨s.reorderDrops, if_pos hci⟩
  · have hle : (p.frameTs.toNat : ℤ) ≤ s.decInTs p.chIdx.toNat :=
      not_lt.mp fun hlt => h ⟨not_le.mp hci, hlt⟩
    exact ⟨s.reorderDrops + 1, by simp only [if_neg hci, if_pos hle]⟩

/-- The session once a packet has been to its decoder. -/
def decoded (decode : D → List UInt8 → D × Option (List Int16)) (s : DecodeState D)
    (p : InboundPkt) : DecodeState D :=
  { s with
    decInTs := Function.update s.decInTs p.chIdx.toNat p.frameTs.toNat
    decoders := Function.update s.decoders p.chIdx.toNat
      (decode (s.decoders p.chIdx.toNat) p.payload).1 }

theorem decodePacket_of_gated {p : InboundPkt} (h : Gated s p) :
    decodePacket decode s p =
      match (decode (s.decoders p.chIdx.toNat) p.payload).2 with
      | none => some (decoded decode s p)
      | some pcm => (s.jb.writeChannel p.frameTs p.chIdx.toNat pcm).map fun jb =>
          { decoded decode s p with decCount := s.decCount + 1, jb := jb } := by
  unfold decodePacket
  simp only [if_neg (not_le.mpr h.1), if_neg (not_le.mpr h.2)]
  cases (decode (s.decoders p.chIdx.toNat) p.payload).2 with
  | none => rfl
  | some pcm =>
    simp only [Option.map_eq_bind, Function.comp_def]
    rfl

theorem decInTs_decoded {p : InboundPkt} (h : Gated s p) (c : ℕ) :
    (decoded decode s p).decInTs c
      = if Gated s p ∧ c = p.chIdx.toNat then (p.frameTs.toNat : ℤ) else s.decInTs c := by
  show Function.update s.decInTs p.chIdx.toNat (p.frameTs.toNat : ℤ) c = _
  by_cases hc : c = p.chIdx.toNat
  · rw [hc, Function.update_self, if_pos ⟨h, rfl⟩]
  · rw [Function.update_of_ne hc, if_neg fun hboth => hc hboth.2]

/-- **What one turn does.**  It never panics, moves the gate of the packet's
channel if it is open, and leaves the buffer alone or makes one `WriteChannel`. -/
theorem decodePacket_spec (h : s.jb.Sound) (p : InboundPkt) :
    ∃ s', decodePacket decode s p = some s' ∧ s'.jb.Sound ∧
      (∀ c, s'.decInTs c
        = if Gated s p ∧ c = p.chIdx.toNat then (p.frameTs.toNat : ℤ) else s.decInTs c) ∧
      (s'.jb = s.jb ∨ ∃ pcm, (decode (s.decoders p.chIdx.toNat) p.payload).2 = some pcm ∧
        s.jb.writeChannel p.frameTs p.chIdx.toNat pcm = some s'.jb) := by
  by_cases hgate : Gated s p
  · rw [decodePacket_of_gated hgate]
    rcases (decode (s.decoders p.chIdx.toNat) p.payload).2 with - | pcm
    · exact ⟨_, rfl, h, decInTs_decoded hgate, Or.inl rfl⟩
    · obtain ⟨jb, hjb⟩ := h.exists_call (.write p.frameTs p.chIdx.toNat pcm)
      have hsound := (h.call hjb).1
      simp only [JitterBuffer.call] at hjb
      simp only [hjb, Option.map_some]
      exact ⟨_, rfl, hsound, @decInTs_decoded _ decode _ _ hgate, Or.inr ⟨pcm, rfl, hjb⟩⟩
  · obtain ⟨n, hn⟩ := @decodePacket_of_not_gated _ decode _ _ hgate
    refine ⟨_, hn, h, fun c => ?_, Or.inl rfl⟩
    rw [if_neg fun hboth => hgate hboth.1]

theorem step_read {out : List (List Int16)} (h : s.jb.Sound) :
    ∃ jb, step decode s (.read out) = some { s with jb := jb } ∧
      s.jb.call (.read out) = some jb := by
  obtain ⟨jb, hjb⟩ := h.exists_call (.read out)
  refine ⟨jb, ?_, hjb⟩
  simp only [JitterBuffer.call, Option.map_eq_some_iff] at hjb
  obtain ⟨r, hr, rfl⟩ := hjb
  rw [step, hr, Option.map_some]

/-- Every action keeps the buffer sound. -/
theorem sound_step {a : Action} (h : s.jb.Sound) (ha : step decode s a = some s') :
    s'.jb.Sound := by
  cases a with
  | packet p =>
    obtain ⟨s₁, hs₁, hsound, -⟩ := @decodePacket_spec _ decode _ h p
    obtain rfl := Option.some.inj (ha.symm.trans hs₁)
    exact hsound
  | read out =>
    obtain ⟨jb, hstep, hcall⟩ := @step_read _ decode _ out h
    obtain rfl := Option.some.inj (ha.symm.trans hstep)
    exact (h.call hcall).1

/-- **No action panics.** -/
theorem exists_run (h : s.jb.Sound) (as : List Action) : ∃ s', Run (step decode) s as s' := by
  induction as generalizing s with
  | nil => exact ⟨s, .nil s⟩
  | cons a as ih =>
    have hstep : ∃ s₁, step decode s a = some s₁ := by
      cases a with
      | packet p =>
        obtain ⟨s₁, hs₁, -⟩ := @decodePacket_spec _ decode _ h p
        exact ⟨s₁, hs₁⟩
      | read out =>
        obtain ⟨jb, hread, -⟩ := @step_read _ decode _ out h
        exact ⟨_, hread⟩
    obtain ⟨s₁, hs₁⟩ := hstep
    obtain ⟨s', hs'⟩ := ih (sound_step h hs₁)
    exact ⟨s', .cons hs₁ hs'⟩

end Decode

end AmbiRTC
