/-
AmbiRTC/JitterOrder.lean

The channels of one frame may be written in any order.  Two channels have no
sample in common, and whichever is written first moves the pointers: it may
anchor the ring, advance the frontier, snap the read pointer and start readout
(`settle`).  The pointers are then where the next channel of the frame would have
moved them, and that one is not late.

Main result: `writeChannel_comm`.
-/
import AmbiRTC.JitterSteps

namespace AmbiRTC

open Ring

namespace JitterBuffer

/-! ### Samples of two channels -/

section Samples

variable {L C : ℕ} {c c' ts ts' : ℤ} {pcm pcm' buf : List Int16}

/-- A store beside the samples of a channel. -/
theorem writeSamples_store {i : ℤ} {v : Int16}
    (hi : ∀ k : ℕ, k < pcm.length → index L C (ts + k) c ≠ i) :
    (writeSamples L C c ts pcm buf).bind (fun b => store b i v)
      = (store buf i v).bind fun b => writeSamples L C c ts pcm b := by
  induction pcm generalizing ts buf with
  | nil => simp [writeSamples]
  | cons w pcm ih =>
    have hne : index L C ts c ≠ i := by simpa using hi 0 (by simp)
    have hrest : ∀ k : ℕ, k < pcm.length → index L C (ts + 1 + k) c ≠ i := by
      intro k hk
      have := hi (k + 1) (by simpa using hk)
      rwa [show ts + ((k + 1 : ℕ) : ℤ) = ts + 1 + k by push_cast; ring] at this
    have hwrite : ∀ b, writeSamples L C c ts (w :: pcm) b
        = (store b (index L C ts c) w).bind (writeSamples L C c (ts + 1) pcm) := fun _ => rfl
    calc (writeSamples L C c ts (w :: pcm) buf).bind (fun b => store b i v)
        = (store buf (index L C ts c) w).bind fun b =>
            (writeSamples L C c (ts + 1) pcm b).bind fun b => store b i v := by
          rw [hwrite, Option.bind_assoc]
      _ = (store buf (index L C ts c) w).bind fun b =>
            (store b i v).bind (writeSamples L C c (ts + 1) pcm) :=
          Option.bind_congr fun b _ => ih hrest
      _ = (store buf i v).bind fun b =>
            (store b (index L C ts c) w).bind (writeSamples L C c (ts + 1) pcm) := by
          rw [← Option.bind_assoc, store_comm hne, Option.bind_assoc]
      _ = (store buf i v).bind fun b => writeSamples L C c ts (w :: pcm) b := by
          simp only [hwrite]

/-- **Channels do not touch.** -/
theorem writeSamples_comm (hc : 0 ≤ c ∧ c < C) (hc' : 0 ≤ c' ∧ c' < C) (hne : c ≠ c')
    (hts : 0 ≤ ts) (hts' : 0 ≤ ts') :
    (writeSamples L C c ts pcm buf).bind (writeSamples L C c' ts' pcm')
      = (writeSamples L C c' ts' pcm' buf).bind (writeSamples L C c ts pcm) := by
  induction pcm' generalizing ts' buf with
  | nil => simp [writeSamples]
  | cons v pcm' ih =>
    have hwrite : ∀ b, writeSamples L C c' ts' (v :: pcm') b
        = (store b (index L C ts' c') v).bind (writeSamples L C c' (ts' + 1) pcm') := fun _ => rfl
    calc (writeSamples L C c ts pcm buf).bind (writeSamples L C c' ts' (v :: pcm'))
        = ((writeSamples L C c ts pcm buf).bind fun b => store b (index L C ts' c') v).bind
            (writeSamples L C c' (ts' + 1) pcm') := by
          rw [Option.bind_assoc]
          exact Option.bind_congr fun b _ => hwrite b
      _ = (store buf (index L C ts' c') v).bind fun b =>
            (writeSamples L C c ts pcm b).bind (writeSamples L C c' (ts' + 1) pcm') := by
          rw [writeSamples_store, Option.bind_assoc]
          intro k _ hindex
          exact hne (index_inj (by omega) hts' hc hc' hindex).2
      _ = (store buf (index L C ts' c') v).bind fun b =>
            (writeSamples L C c' (ts' + 1) pcm' b).bind (writeSamples L C c ts pcm) :=
          Option.bind_congr fun b _ => ih (by omega)
      _ = (writeSamples L C c' ts' (v :: pcm') buf).bind (writeSamples L C c ts pcm) := by
          rw [hwrite, Option.bind_assoc]

end Samples

/-! ### The pointers -/

variable {j j' : JitterBuffer}

/-- The buffer with other samples. -/
def withBuf (j : JitterBuffer) (buf : List Int16) : JitterBuffer := { j with buf := buf }

/-- What a write does to the pointers, once the ring is anchored. -/
def settle (j : JitterBuffer) (frontier : ℤ) : JitterBuffer := ((j.advance frontier).snap).start

theorem advance_buf (j : JitterBuffer) (frontier : ℤ) (buf : List Int16) :
    (j.withBuf buf).advance frontier = (j.advance frontier).withBuf buf := by
  unfold withBuf advance
  split <;> rfl

theorem snap_buf (j : JitterBuffer) (buf : List Int16) :
    (j.withBuf buf).snap = (j.snap).withBuf buf := by
  unfold withBuf snap
  split <;> rfl

theorem start_buf (j : JitterBuffer) (buf : List Int16) :
    (j.withBuf buf).start = (j.start).withBuf buf := by
  unfold withBuf start
  split <;> rfl

/-- The pointers do not depend on the samples. -/
theorem settle_buf (j : JitterBuffer) (frontier : ℤ) (buf : List Int16) :
    (j.withBuf buf).settle frontier = (j.settle frontier).withBuf buf := by
  rw [settle, advance_buf, snap_buf, start_buf]
  rfl

theorem start_start (j : JitterBuffer) : j.start.start = j.start := by
  unfold start
  by_cases h : !j.started ∧ j.writeTs - j.readTs ≥ j.prebuffer
  · simp only [if_pos h, Bool.not_true, Bool.false_eq_true, false_and, if_false]
  · simp only [if_neg h]

/-- Where there is nothing to advance and nothing to snap, only readout may start. -/
theorem settle_of_settled {frontier : ℤ} (hwrite : frontier ≤ j.writeTs)
    (hdepth : j.writeTs - j.readTs ≤ j.maxDepth) : j.settle frontier = j.start := by
  rw [settle, advance, if_neg (not_lt.mpr hwrite), snap, if_neg (not_lt.mpr hdepth)]

/-- An accepted write: the samples, and the pointers that do not depend on them. -/
theorem writeChannel_eq {frameTs : UInt32} {chIdx : ℤ} {pcm : List Int16}
    (hacc : j.Accepts frameTs chIdx pcm) : j.writeChannel frameTs chIdx pcm
      = (writeSamples j.bufLen j.channels chIdx frameTs.toNat pcm j.buf).map
        ((j.anchor frameTs.toNat).settle (frameTs.toNat + pcm.length)).withBuf := by
  have hne := List.length_pos_iff.mpr hacc.2.1
  have hc := hacc.1
  have hs := sameSizes_anchor j frameTs.toNat
  unfold writeChannel
  rw [if_neg (by omega), ← buf_anchor j frameTs.toNat, ← hs.bufLen, ← hs.channels]
  simp only [if_neg (not_le.mpr hacc.2.2)]
  generalize j.anchor frameTs.toNat = k
  rw [Option.map_eq_bind]
  refine Option.bind_congr fun buf _ => ?_
  show some ((k.withBuf buf).settle (frameTs.toNat + pcm.length)) = _
  rw [settle_buf]
  rfl

/-! ### Two channels of a frame -/

/-- The frame of a channel has been placed: for the next one there is nothing
left to move, and it is not late. -/
structure Reached (k : JitterBuffer) (frontier : ℤ) (j : JitterBuffer) : Prop where
  sizes : SameSizes k j
  anchored : Anchored j
  started_eq : j.start = j
  writeTs_le : frontier ≤ j.writeTs
  readTs_lt : j.readTs < frontier

theorem Reached.settle_eq {k : JitterBuffer} {frontier : ℤ} (h : Reached k frontier j) :
    j.settle frontier = j := by
  rw [settle_of_settled h.writeTs_le h.anchored.depth_le, h.started_eq]

/-- The read pointer stays behind the end of the frame, snap or not. -/
theorem reached_of_write (h : Sound j) {frameTs : UInt32} {chIdx : ℤ} {pcm : List Int16}
    (hacc : j.Accepts frameTs chIdx pcm) :
    Reached (j.anchor frameTs.toNat) (frameTs.toNat + pcm.length)
      ((j.anchor frameTs.toNat).settle (frameTs.toNat + pcm.length)) := by
  rcases writeChannel_cases h frameTs chIdx pcm with ⟨hnot, -⟩ | ⟨-, j', hw, hp⟩
  · exact absurd hacc hnot
  have hk := h.wellSized_anchor frameTs.toNat
  have ha := h.anchored_anchor (show (0 : ℤ) ≤ frameTs.toNat by omega)
  have hlt := hacc.2.2
  rw [writeChannel_eq hacc] at hw
  obtain ⟨buf, -, rfl⟩ := Option.map_eq_some_iff.mp hw
  generalize (frameTs.toNat : ℤ) = ts at *
  generalize j.anchor ts = k at *
  have hstart : (k.settle (ts + pcm.length)).start = k.settle (ts + pcm.length) := start_start _
  have hsizes := hp.sizes
  have hanchored := hp.anchored
  -- only the samples differ
  generalize k.settle (ts + pcm.length) = x at *
  have hwrite : x.writeTs = max k.writeTs (ts + pcm.length) := hp.writeTs_eq
  have hread : x.readTs = if k.maxDepth < x.writeTs - k.readTs then
      boundary k.initTs k.frameSize (x.writeTs - (k.prebuffer + 2 * k.frameSize))
    else k.readTs := hp.readTs_eq
  refine ⟨⟨hsizes.1, hsizes.2, hsizes.3, hsizes.4, hsizes.5⟩,
    ⟨hanchored.1, hanchored.2, hanchored.3, hanchored.4, hanchored.5⟩, hstart, ?_, ?_⟩
  · omega
  · have hdepth := ha.depth_le
    have hpre := hk.prebuffer_nonneg
    have hfs := hk.frameSize_pos
    have hsnap := (boundary_spec k.initTs hfs (x.writeTs - (k.prebuffer + 2 * k.frameSize))).2.1
    rw [hread]
    split <;> omega

/-- A channel on a buffer in which another one of the frame has been placed. -/
theorem Reached.writeChannel_eq {k : JitterBuffer} {frameTs : UInt32} {chIdx : ℤ}
    {pcm : List Int16} (h : Reached k (frameTs.toNat + pcm.length) j)
    (hc : 0 ≤ chIdx ∧ chIdx < k.channels) (hne : pcm ≠ []) (buf : List Int16) :
    (j.withBuf buf).writeChannel frameTs chIdx pcm
      = (writeSamples k.bufLen k.channels chIdx frameTs.toNat pcm buf).map j.withBuf := by
  have ha : Anchored (j.withBuf buf) :=
    ⟨h.anchored.1, h.anchored.2, h.anchored.3, h.anchored.4, h.anchored.5⟩
  have hanchor := anchor_of_anchored ha frameTs.toNat
  have hacc : Accepts (j.withBuf buf) frameTs chIdx pcm := by
    refine ⟨?_, hne, ?_⟩
    · show 0 ≤ chIdx ∧ chIdx < j.channels
      rw [h.sizes.channels]
      exact hc
    · rw [hanchor]
      exact h.readTs_lt
  rw [JitterBuffer.writeChannel_eq hacc, hanchor, settle_buf, h.settle_eq]
  show (writeSamples j.bufLen j.channels chIdx frameTs.toNat pcm buf).map _ = _
  rw [h.sizes.bufLen, h.sizes.channels]
  rfl

/-- Whether a frame is accepted depends on its length, not on the channel. -/
theorem accepts_congr {frameTs : UInt32} {c c' : ℤ} {pcm pcm' : List Int16}
    (hc : 0 ≤ c ∧ c < j.channels) (hc' : 0 ≤ c' ∧ c' < j.channels)
    (hlen : pcm.length = pcm'.length) :
    j.Accepts frameTs c pcm ↔ j.Accepts frameTs c' pcm' := by
  have hnil : pcm ≠ [] ↔ pcm' ≠ [] := by
    rw [← List.length_pos_iff, ← List.length_pos_iff, hlen]
  unfold Accepts
  rw [hnil, hlen]
  exact and_congr_left' (iff_of_true hc hc')

/-- **The channels of a frame may be written in any order.** -/
theorem writeChannel_comm (h : Sound j) {frameTs : UInt32} {c c' : ℤ} {pcm pcm' : List Int16}
    (hc : 0 ≤ c ∧ c < j.channels) (hc' : 0 ≤ c' ∧ c' < j.channels) (hne : c ≠ c')
    (hlen : pcm.length = pcm'.length) :
    (j.writeChannel frameTs c pcm).bind (fun j => j.writeChannel frameTs c' pcm')
      = (j.writeChannel frameTs c' pcm').bind fun j => j.writeChannel frameTs c pcm := by
  have hiff := @accepts_congr j frameTs _ _ _ _ hc hc' hlen
  by_cases hacc : j.Accepts frameTs c pcm
  · have hacc' := hiff.mp hacc
    have hs := sameSizes_anchor j frameTs.toNat
    have hreach := reached_of_write h hacc
    have hreach' := hreach
    rw [hlen] at hreach'
    have hfirst := hreach.writeChannel_eq (by rw [hs.channels]; exact hc) hacc.2.1
    have hsecond := hreach'.writeChannel_eq (by rw [hs.channels]; exact hc') hacc'.2.1
    rw [hs.bufLen, hs.channels] at hfirst hsecond
    rw [writeChannel_eq hacc, writeChannel_eq hacc', ← hlen]
    rw [← hlen] at hsecond
    simp only [Option.bind_map, Function.comp_def, hfirst, hsecond]
    have hcomm := @writeSamples_comm j.bufLen j.channels c c' frameTs.toNat frameTs.toNat pcm pcm'
      j.buf hc hc' hne (by omega) (by omega)
    have hmap := congrArg (Option.map
      ((j.anchor frameTs.toNat).settle (frameTs.toNat + pcm.length)).withBuf) hcomm
    simpa only [Option.map_bind, Function.comp_def] using hmap
  · -- late on one channel is late on the other
    rcases writeChannel_cases h frameTs c pcm with ⟨-, hw⟩ | ⟨hyes, -⟩
    · rcases writeChannel_cases h frameTs c' pcm' with ⟨-, hw'⟩ | ⟨hyes, -⟩
      · rw [hw, hw', Option.bind_some, Option.bind_some, hw, hw']
      · exact absurd (hiff.mpr hyes) hacc
    · exact absurd hyes hacc

end JitterBuffer

end AmbiRTC
