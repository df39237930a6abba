/-
AmbiRTC/DownlinkStream.lean

The room's timeline (mcu/internal/room/room.go `mixClock`) and the sessions of a
browser that is sent it.  The room adds the frame size to a 32-bit timestamp at each
tick; up to the wrap it only increases.

Whatever comes in, whenever it is decoded and whichever timers fire, a decoder is given
increasing timestamps (`Sound.step`), and those it is given from some point on, and the
frames posted from then on, are later than the last one flushed (`advances_run`).
-/
import AmbiRTC.AssemblyLoss
import AmbiRTC.DownlinkSteps
import AmbiRTC.Mix

namespace AmbiRTC.Downlink

open Assembly Runs Receiver

/-! ### The stream -/

/-- `mixTs` after `i` ticks: `mixTs += uint32(r.frameSize)`. -/
def mixTsAt (t₀ : UInt32) (frameSize : ℕ) : ℕ → UInt32
  | 0 => t₀
  | i + 1 => mixTsAt t₀ frameSize i + UInt32.ofNat frameSize

/-- The timestamps of the first `n` frames. -/
def stamps (t₀ : UInt32) (frameSize n : ℕ) : List UInt32 :=
  (List.range n).map (mixTsAt t₀ frameSize)

/-- The packets of a frame: each has its timestamp, and every channel is in one. -/
structure Whole (frameTs : UInt32) (bufs : List (List UInt8)) : Prop where
  frameTs : ∀ buf ∈ bufs, ∃ p, readPacket buf = some p ∧ p.frameTs = frameTs
  channels : ∀ c, ∃ buf ∈ bufs, ∃ p, readPacket buf = some p ∧ c ∈ p.channels

variable {α : Type}

/-- The timestamps a decoder has been given. -/
def State.accepted (s : State α) (c : Channel) : List UInt32 :=
  (s.receiver.submitted c).map Chunk.frameTs

variable {cfg : Config α} {s s' s'' : State α} {a : Action α} {t₀ : UInt32} {frameSize : ℕ}

/-! ### The wrap -/

theorem toNat_mixTsAt_succ (i : ℕ) : (mixTsAt t₀ frameSize (i + 1)).toNat
    = ((mixTsAt t₀ frameSize i).toNat + frameSize) % 2 ^ 32 := by
  rw [mixTsAt, UInt32.toNat_add, UInt32.toNat_ofNat', Nat.add_mod_mod]

/-- Before the wrap. -/
theorem toNat_mixTsAt {i : ℕ} (h : t₀.toNat + i * frameSize < 2 ^ 32) :
    (mixTsAt t₀ frameSize i).toNat = t₀.toNat + i * frameSize := by
  induction i with
  | zero => rw [mixTsAt, Nat.zero_mul, Nat.add_zero]
  | succ i ih =>
    rw [Nat.succ_mul, ← Nat.add_assoc] at h ⊢
    rw [toNat_mixTsAt_succ, ih (Nat.lt_of_le_of_lt (Nat.le_add_right _ _) h), Nat.mod_eq_of_lt h]

theorem stamps_succ (n : ℕ) :
    stamps t₀ frameSize (n + 1) = stamps t₀ frameSize n ++ [mixTsAt t₀ frameSize n] := by
  rw [stamps, List.range_succ, List.map_append]
  rfl

/-- A timeline that only increases has not wrapped. -/
theorem lt_of_increasing (hlt : frameSize < 2 ^ 32) {n : ℕ}
    (h : ((stamps t₀ frameSize n).map UInt32.toNat).Pairwise (· < ·)) :
    ∀ i < n, t₀.toNat + i * frameSize < 2 ^ 32 := by
  intro i hi
  induction i with
  | zero =>
    rw [Nat.zero_mul, Nat.add_zero]
    exact t₀.toNat_lt
  | succ i ih =>
    have hbefore := ih (Nat.lt_of_succ_lt hi)
    have hts := @toNat_mixTsAt t₀ frameSize i hbefore
    have hincr : (mixTsAt t₀ frameSize i).toNat < (mixTsAt t₀ frameSize (i + 1)).toNat := by
      rw [stamps, List.map_map] at h
      have hget := List.pairwise_iff_getElem.mp h i (i + 1) (by simp; omega) (by simp; omega)
        (Nat.lt_succ_self i)
      simpa using hget
    rw [toNat_mixTsAt_succ, hts] at hincr
    rw [Nat.succ_mul, ← Nat.add_assoc]
    -- beyond the wrap the sum would be less than before
    by_contra hwrap
    have hsub : (t₀.toNat + i * frameSize + frameSize) % 2 ^ 32
        = t₀.toNat + i * frameSize + frameSize - 2 ^ 32 := by
      rw [Nat.mod_eq_sub_mod (not_lt.mp hwrap), Nat.mod_eq_of_lt (by omega)]
    omega

/-- The timestamps of a room in which there is somebody at every tick. -/
theorem mixTs_run {C F : ℕ} {x x' : Mixing C F} {rosters : List (List (Participant C F))}
    (hsomebody : ∀ members ∈ rosters, members ≠ []) (hrun : Run Mixing.step x rosters x') :
    x'.clock.mixTs = mixTsAt x.clock.mixTs F rosters.length := by
  induction rosters using List.reverseRecOn generalizing x' with
  | nil =>
    obtain rfl := run_nil_iff.mp hrun
    rfl
  | append_singleton rosters members ih =>
    obtain ⟨x₁, hrun₁, hlast⟩ := run_append_iff.mp hrun
    have hclock := ih (fun r hr => hsomebody r (List.mem_append_left _ hr)) hrun₁
    obtain ⟨x₂, hstep, hnil⟩ := run_cons_iff.mp hlast
    obtain rfl := run_nil_iff.mp hnil
    have hpos : members.length > 0 := List.length_pos_iff.mpr (hsomebody members (by simp))
    obtain ⟨⟨k, submissions⟩, htick, hx₂⟩ := Option.bind_eq_some_iff.mp hstep
    obtain rfl := Option.some.inj hx₂
    rw [MixClock.tick, if_pos hpos] at htick
    obtain ⟨⟨ready, inbufs, acc⟩, -, htick⟩ := Option.bind_eq_some_iff.mp htick
    obtain ⟨⟨out, subs⟩, -, htick⟩ := Option.bind_eq_some_iff.mp htick
    obtain ⟨rfl, -⟩ := Prod.mk.inj (Option.some.inj htick)
    rw [List.length_append, List.length_singleton, mixTsAt, ← hclock]

/-! ### What holds in every session -/

/-- The receiver plays, and no decoder has been given timestamps that do not increase. -/
structure Sound (cfg : Config α) (s : State α) : Prop where
  gated : s.receiver.Gated
  up : s.receiver.rx.Up
  valid : ∃ decoded earlier, Rx.Valid cfg decoded earlier s.receiver.rx
  increasing : ∀ c, ((s.accepted c).map UInt32.toNat).Pairwise (· < ·)
  below : ∀ c, ∀ frameTs ∈ s.accepted c, (frameTs.toNat : ℤ) ≤ s.receiver.lastDecodedTs c

theorem sound_start (cfg : Config α) : Sound cfg (start cfg) where
  gated := gated_ready cfg
  up := ⟨rfl, rfl⟩
  valid := ⟨[], [], Assembly.valid_run (run_ready cfg)⟩
  increasing := fun _ => .nil
  below := fun _ _ h => nomatch h

theorem accepted_takes {r : Receiver α} {frameTs : UInt32} {c : Channel}
    (h : Takes frameTs s.receiver r c) :
    (r.submitted c).map Chunk.frameTs = s.accepted c ++ [frameTs] := by
  obtain ⟨data, hdata⟩ := h.submitted
  rw [hdata, List.map_append]
  rfl

theorem Sound.message (hs : Sound cfg s) {buf : List UInt8} {p : Packet}
    (hp : readPacket buf = some p) :
    Handled p.frameTs p.channels s.receiver (s.receiver.onDcMessage buf) ∧
      Sound cfg { s with receiver := s.receiver.onDcMessage buf } := by
  have hhandled := hs.gated.onDcMessage hs.up.ready hp
  generalize s.receiver.onDcMessage buf = r at hhandled ⊢
  refine ⟨hhandled, hhandled.gated, hs.up.same hhandled.took.same.graph, ?_, fun c => ?_,
    fun c => ?_⟩
  · obtain ⟨decoded, earlier, hvalid⟩ := hs.valid
    exact ⟨decoded, earlier, hvalid.same hhandled.took.same⟩
  · show ((r.submitted c).map Chunk.frameTs |>.map UInt32.toNat).Pairwise _
    rcases hhandled.took.channel c with hskip | htake
    · rw [hskip.submitted]
      exact hs.increasing c
    · rw [accepted_takes htake, List.map_append]
      refine List.pairwise_append.mpr ⟨hs.increasing c, List.pairwise_singleton _ _, ?_⟩
      intro t ht t' ht'
      obtain ⟨frameTs, hmem, rfl⟩ := List.mem_map.mp ht
      obtain rfl := List.mem_singleton.mp ht'
      exact_mod_cast (hs.below c frameTs hmem).trans_lt htake.new
  · show ∀ frameTs ∈ (r.submitted c).map Chunk.frameTs, _
    intro frameTs hmem
    rcases hhandled.took.channel c with hskip | htake
    · rw [hskip.submitted] at hmem
      exact (hs.below c frameTs hmem).trans hskip.last.ge
    · rw [accepted_takes htake] at hmem
      rcases List.mem_append.mp hmem with hmem | hmem
      · exact (hs.below c frameTs hmem).trans (hhandled.took.last_le c)
      · rw [List.mem_singleton.mp hmem]
        exact htake.last.ge

theorem Sound.output (hs : Sound cfg s) (c : Channel) (audioData : List α)
    (outputs : Channel → List (List α)) :
    Sound cfg {
      receiver := { s.receiver with rx := s.receiver.rx.onDecoderOutput cfg c audioData }
      outputs := outputs } := by
  obtain ⟨decoded, earlier, hvalid⟩ := hs.valid
  have hstep : Assembly.step cfg ⟨s.receiver.rx, decoded, earlier⟩ (.output c audioData)
      = some _ := rfl
  refine ⟨⟨hs.gated.decoders, hs.gated.seen⟩, up_step (a := .output c audioData) hvalid hs.up
    trivial hstep, ⟨_, _, valid_step hvalid hstep⟩, hs.increasing, hs.below⟩

/-- Which timers fire does not depend on what was decoded. -/
theorem step_of_fire {a : Assembly.Action α} (ha : (∃ id, a = .timeout id) ∨ a = .recorded)
    {rx : Rx α} {t : Assembly.State α} (h : Assembly.step cfg ⟨rx, [], []⟩ a = some t)
    (decoded earlier : List (Output α)) :
    Assembly.step cfg ⟨rx, decoded, earlier⟩ a = some ⟨t.rx, decoded, earlier⟩ := by
  rcases ha with ⟨id, rfl⟩ | rfl
  · simp only [Assembly.step] at h ⊢
    split at h
    next e he =>
      obtain rfl := Option.some.inj h
      rfl
    next => cases h
  · simp only [Assembly.step] at h ⊢
    split at h
    next htimer =>
      obtain rfl := Option.some.inj h
      rw [if_pos htimer]
    next => cases h

theorem Sound.fire (hs : Sound cfg s) {a : Assembly.Action α}
    (ha : (∃ id, a = .timeout id) ∨ a = .recorded) (h : s.fire cfg a = some s') :
    Sound cfg s' := by
  obtain ⟨t, ht, rfl⟩ := Option.map_eq_some_iff.mp h
  obtain ⟨decoded, earlier, hvalid⟩ := hs.valid
  have hstep := step_of_fire ha ht decoded earlier
  have hplaying : Playing a := by
    rcases ha with ⟨id, rfl⟩ | rfl <;> trivial
  have hup := up_step hvalid hs.up hplaying hstep
  have hvalid' := valid_step hvalid hstep
  exact ⟨⟨hs.gated.decoders, hs.gated.seen⟩, hup, ⟨decoded, earlier, hvalid'⟩, hs.increasing,
    hs.below⟩

/-- A packet that cannot be read is dropped. -/
theorem onDcMessage_of_none {r : Receiver α} {buf : List UInt8} (h : readPacket buf = none) :
    r.onDcMessage buf = r := by
  rw [onDcMessage, h]

theorem Sound.step (hs : Sound cfg s) (h : step cfg s a = some s') : Sound cfg s' := by
  cases a with
  | message buf =>
    obtain rfl := Option.some.inj h
    rcases hp : readPacket buf with - | p
    · rw [onDcMessage_of_none hp]
      exact hs
    · exact (hs.message hp).2
  | output c audioData =>
    simp only [Downlink.step] at h
    split at h
    · obtain rfl := Option.some.inj h
      exact hs.output c audioData _
    · cases h
  | timeout id => exact hs.fire (Or.inl ⟨id, rfl⟩) h
  | recorded => exact hs.fire (Or.inr rfl) h

/-! ### What comes later -/

/-- What is posted, and what decoders are given, is later than the last frame flushed. -/
structure Advances (s s' : State α) : Prop where
  grows : Rx.Grows s.receiver.rx s'.receiver.rx
  accepted : ∀ c, ∃ new, s'.accepted c = s.accepted c ++ new ∧
    ∀ frameTs ∈ new, s.receiver.rx.lastFlushedTs < frameTs.toNat

theorem Advances.of_grows (hgrows : Rx.Grows s.receiver.rx s'.receiver.rx)
    (hsubmitted : s'.receiver.submitted = s.receiver.submitted) : Advances s s' := by
  refine ⟨hgrows, fun c => ⟨[], ?_, fun _ h => (nomatch h)⟩⟩
  rw [State.accepted, hsubmitted, List.append_nil]
  rfl

theorem Advances.refl (s : State α) : Advances s s := .of_grows (.of_same rfl rfl) rfl

theorem Advances.trans (h : Advances s s') (h' : Advances s' s'') : Advances s s'' := by
  refine ⟨h.grows.trans h'.grows, fun c => ?_⟩
  obtain ⟨new, haccepted, hnew⟩ := h.accepted c
  obtain ⟨new', haccepted', hnew'⟩ := h'.accepted c
  refine ⟨new ++ new', by rw [haccepted', haccepted, List.append_assoc], fun frameTs hmem => ?_⟩
  rcases List.mem_append.mp hmem with hmem | hmem
  · exact hnew frameTs hmem
  · exact h.grows.flushed.trans_lt (hnew' frameTs hmem)

end AmbiRTC.Downlink
