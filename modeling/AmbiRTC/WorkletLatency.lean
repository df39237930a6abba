/-
AmbiRTC/WorkletLatency.lean

How far playback lags behind.  Reads advance at the audio clock only, so that what
piles up in the ring would stay there; a frame that makes it more than the prebuffer
and six frames moves the read pointer up.  While the prebuffer is at most six frames,
the ring never holds more than twelve, whatever frames are skipped over.

Main results: `Paced.frame` and `Paced.block`, for frames that come one after the
other.
-/
import AmbiRTC.WorkletPlayback

namespace AmbiRTC.Playback

open Ring

variable {α : Type*}

namespace ReceiverProcessor

/-- The worklet's frames have `F` samples and its ring `L`; the frames `fs` have been
placed since the last reanchor, and at most twelve frames are unread. -/
structure Paced (F L : ℕ) (fs : List (PostedFrame α)) (w : ReceiverProcessor α) : Prop where
  length_buf : w.buf.length = w.bufLen * CHANNELS
  bufLen_eq : w.bufLen = L
  frameSize_eq : w.frameSize = F
  prebuffer_le : w.prebuffer ≤ 6 * F
  readTs_nonneg : 0 ≤ w.readTs
  readTs_le : w.readTs ≤ w.writeTs
  depth : w.writeTs - w.readTs ≤ 12 * F
  sizes : ∀ f ∈ fs, f.frameSize = F
  ended : ∀ f ∈ fs, (f.timestamp + f.frameSize : ℤ) ≤ w.writeTs
  frontier : (w.initTs < 0 ∧ fs = [] ∧ w.readTs = w.writeTs) ∨
    (0 ≤ w.initTs ∧ ∃ f ∈ fs, w.writeTs = f.timestamp + f.frameSize)

/-- What may be posted after the frames `fs`. -/
def Allows (F : ℕ) (fs : List (PostedFrame α)) : Call α → Prop
  | .frame f => f.frameSize = F ∧ ∀ g ∈ fs, (g.timestamp + g.frameSize : ℤ) ≤ f.timestamp
  | .reanchor => True
  | .config frameSize prebuffer => (∀ n ∈ frameSize, n = F) ∧ ∀ n ∈ prebuffer, n ≤ 6 * F
  | .process _ => True

variable {F L : ℕ} {fs : List (PostedFrame α)} {w w' : ReceiverProcessor α} {f : PostedFrame α}

theorem paced_of_fresh [Zero α] (h : Fresh w) (hbufLen : w.bufLen = L)
    (hframeSize : w.frameSize = F) (hprebuffer : w.prebuffer ≤ 6 * F) : Paced F L [] w := by
  have hread := h.readTs_eq
  have hwrite := h.writeTs_eq
  have hinit := h.initTs_eq
  exact
    { length_buf := by rw [h.buf_eq, List.length_replicate]
      bufLen_eq := hbufLen
      frameSize_eq := hframeSize
      prebuffer_le := hprebuffer
      readTs_nonneg := by omega
      readTs_le := by omega
      depth := by omega
      sizes := by simp
      ended := by simp
      frontier := Or.inl ⟨by omega, rfl, by omega⟩ }

theorem Paced.reanchor [Zero α] (h : Paced F L fs w) : Paced F L [] w.reanchor := by
  have hfresh := fresh_reset h.length_buf
  exact paced_of_fresh ⟨hfresh.1, hfresh.2, hfresh.3, hfresh.4⟩ h.bufLen_eq h.frameSize_eq
    h.prebuffer_le

theorem Paced.config [Zero α] (h : Paced F L fs w) {frameSize prebuffer : Option ℕ}
    (hallows : Allows F fs (.config frameSize prebuffer)) :
    Paced F L fs (w.config frameSize prebuffer) := by
  obtain ⟨hframeSize, hprebuffer⟩ := hallows
  have hle : prebuffer.getD w.prebuffer ≤ 6 * F := by
    rcases prebuffer with - | n
    · exact h.prebuffer_le
    · exact hprebuffer n rfl
  rw [config_of_eq fun n hn => (hframeSize n hn).trans h.frameSize_eq.symm]
  exact ⟨h.length_buf, h.bufLen_eq, h.frameSize_eq, hle, h.readTs_nonneg, h.readTs_le, h.depth,
    h.sizes, h.ended, h.frontier⟩

/-- Where the pointers are when a frame is to be placed. -/
theorem Paced.anchor (h : Paced F L fs w) (ts : ℕ)
    (hnext : ∀ g ∈ fs, (g.timestamp + g.frameSize : ℤ) ≤ ts) :
    0 ≤ (w.anchor ts).readTs ∧ (w.anchor ts).readTs ≤ (w.anchor ts).writeTs ∧
      (w.anchor ts).writeTs ≤ ts ∧ 0 ≤ (w.anchor ts).initTs := by
  rcases h.frontier with ⟨hun, -, -⟩ | ⟨hanch, g, hg, hfront⟩
  · rw [ReceiverProcessor.anchor, if_pos hun]
    exact ⟨Int.natCast_nonneg ts, le_refl _, le_refl _, Int.natCast_nonneg ts⟩
  · rw [ReceiverProcessor.anchor, if_neg (not_lt.mpr hanch)]
    exact ⟨h.readTs_nonneg, h.readTs_le, hfront ▸ hnext g hg, hanch⟩

/-- **A frame is placed, and the latency cap holds.** -/
theorem Paced.frame (h : Paced F L fs w) (hroom : 13 * F < L)
    (hallows : Allows F fs (.frame f)) :
    ∃ w', w.writeFrame f = some (w', [.recycle f]) ∧ w'.prebuffer = w.prebuffer ∧
      Paced F L (fs ++ [f]) w' := by
  obtain ⟨hsize, hnext⟩ := hallows
  obtain ⟨hnonneg, hle, hahead, hinit⟩ := h.anchor f.timestamp hnext
  obtain ⟨hs, -, -⟩ := sameSizes_anchor w f.timestamp
  have hbufLen := h.bufLen_eq
  have hframeSize := h.frameSize_eq
  have hprebuffer := h.prebuffer_le
  obtain ⟨w', hw', hp⟩ := writeFrame_placed (by omega) h.length_buf (by omega) hahead
  have hread := hp.readTs_eq
  have hwrite := hp.writeTs_eq
  -- frames come in order, so each ends before the new one does
  have hbefore : ∀ g ∈ fs, (g.timestamp + g.frameSize : ℤ) ≤ f.timestamp + f.frameSize := by
    intro g hg
    have := hnext g hg
    omega
  -- the read pointer is where it was, or at the target of the snap
  unfold snapTarget maxDepth at hread
  rw [hs.prebuffer, hs.frameSize] at hread
  refine ⟨w', hw', by rw [hp.sizes.prebuffer, hs.prebuffer], ?_⟩
  refine
    { length_buf := by rw [hp.length_buf, hp.sizes.bufLen]
      bufLen_eq := by rw [hp.sizes.bufLen, hs.bufLen, hbufLen]
      frameSize_eq := by rw [hp.sizes.frameSize, hs.frameSize, hframeSize]
      prebuffer_le := by rw [hp.sizes.prebuffer, hs.prebuffer]; exact hprebuffer
      readTs_nonneg := by split at hread <;> omega
      readTs_le := by split at hread <;> omega
      depth := by split at hread <;> omega
      sizes := fun g hg => ?_, ended := fun g hg => ?_, frontier := Or.inr ⟨?_, f, ?_, hwrite⟩ }
  · rcases List.mem_append.mp hg with hg | hg
    · exact h.sizes g hg
    · obtain rfl := List.mem_singleton.mp hg
      exact hsize
  · rw [hwrite]
    rcases List.mem_append.mp hg with hg | hg
    · exact hbefore g hg
    · obtain rfl := List.mem_singleton.mp hg
      exact le_refl _
  · rw [hp.initTs_eq]
    exact hinit
  · exact List.mem_append_right fs (List.mem_singleton_self f)

/-- A block is held back or played; either way the frames placed stay. -/
theorem Paced.block [Zero α] (h : Paced F L fs w) (hroom : 13 * F < L) (block : List α)
    (rest : List (List α)) :
    ∃ w' out' posts, w.process (block :: rest) = some (w', out', posts) ∧
      w'.prebuffer = w.prebuffer ∧ Paced F L fs w' := by
  have hbufLen := h.bufLen_eq
  have hdepth := h.depth
  rcases process_cases (by omega) h.length_buf h.readTs_nonneg (by omega) block rest with
    ⟨-, b, posts, hp⟩ | ⟨hplays, w', out', posts, hp, hplayed⟩
  · exact ⟨_, _, _, hp, rfl, h.length_buf, h.bufLen_eq, h.frameSize_eq, h.prebuffer_le,
      h.readTs_nonneg, h.readTs_le, h.depth, h.sizes, h.ended, h.frontier⟩
  · have hread := hplayed.readTs_eq
    have hwrite := hplayed.writeTs_eq
    have hnonneg := h.readTs_nonneg
    have hdeep := hplays.2
    refine ⟨w', out', posts, hp, hplayed.sizes.prebuffer, ?_⟩
    refine
      { length_buf := by rw [hplayed.length_buf, hplayed.sizes.bufLen]
        bufLen_eq := by rw [hplayed.sizes.bufLen, hbufLen]
        frameSize_eq := by rw [hplayed.sizes.frameSize, h.frameSize_eq]
        prebuffer_le := by rw [hplayed.sizes.prebuffer]; exact h.prebuffer_le
        readTs_nonneg := by omega
        readTs_le := by omega
        depth := by omega
        sizes := h.sizes
        ended := hwrite ▸ h.ended
        frontier := ?_ }
    rw [hplayed.initTs_eq, hwrite]
    rcases h.frontier with ⟨hun, hnil, hempty⟩ | hanch
    · exact Or.inl ⟨hun, hnil, by omega⟩
    · exact Or.inr hanch

end ReceiverProcessor

end AmbiRTC.Playback
