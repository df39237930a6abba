/-
AmbiRTC/WorkletSteps.lean

What one message or block does to the playback worklet.

* A frame at or past the frontier is placed, and the read pointer stays or snaps
  (`writeFrame_placed`, `Placed`).
* A block is not played and changes neither ring nor pointers, or is played and
  its slots cleared (`process_cases`, `Played`).

Neither leaves the ring, as long as the frame and the unread samples fit in it.
-/
import AmbiRTC.Worklet
import Mathlib.Data.List.Nodup

namespace AmbiRTC.Playback

open Ring

variable {α : Type*}

theorem lane_bounds (c : Fin CHANNELS) : 0 ≤ (c.val : ℤ) ∧ (c.val : ℤ) < (CHANNELS : ℕ) :=
  ⟨Int.natCast_nonneg _, by exact_mod_cast c.isLt⟩

namespace ReceiverProcessor

/-! ### The loops -/

section Loops

variable {L : ℕ} {buf : List α}

/-- The samples written are found where they were put, and positions in no slot
that is written keep theirs. -/
theorem writeSamples_spec {f : PostedFrame α} (ps : List (Fin f.frameSize × Fin CHANNELS))
    (hL : 0 < L) (hfit : f.frameSize ≤ L) (hlen : buf.length = L * CHANNELS) :
    ∃ buf', writeSamples L f ps buf = some buf' ∧ buf'.length = L * CHANNELS ∧
      (∀ s c, (s, c) ∈ ps →
        cell L CHANNELS buf' (f.timestamp + s.val) c.val = some (f.channels c s)) ∧
      (∀ (t : ℤ) (c : Fin CHANNELS), 0 ≤ t →
        (∀ s, (s, c) ∈ ps → t % L ≠ (f.timestamp + s.val) % L) →
        cell L CHANNELS buf' t c.val = cell L CHANNELS buf t c.val) := by
  induction ps generalizing buf with
  | nil => exact ⟨buf, rfl, hlen, by simp, fun _ _ _ _ => rfl⟩
  | cons p ps ih =>
    obtain ⟨s, c⟩ := p
    have hpos : 0 ≤ (f.timestamp : ℤ) + s.val := by omega
    have hc := lane_bounds c
    obtain ⟨ys, hys, hylen⟩ := exists_store_index (f.channels c s) hlen hL hpos hc
    obtain ⟨buf', hbuf', hlen', hsame, hne⟩ := ih hylen
    refine ⟨buf', ?_, hlen', fun s' c' hmem => ?_, fun t d ht hmiss => ?_⟩
    · rw [writeSamples]
      simp only [show (((f.timestamp : ℤ) + s.val).tmod L * CHANNELS + c.val : ℤ)
        = index L CHANNELS (f.timestamp + s.val) c.val from rfl, hys, Option.bind_eq_bind,
        Option.bind_some, hbuf']
    · by_cases hin : (s', c') ∈ ps
      · exact hsame s' c' hin
      · obtain ⟨rfl, rfl⟩ : s' = s ∧ c' = c := by simpa [hin] using hmem
        -- the samples that follow on this channel are less than a ring away
        rw [hne _ _ hpos, cell_store_same hys hpos hpos rfl]
        intro s'' hin' hslot
        have hs := s'.isLt
        have hs' := s''.isLt
        have := eq_of_emod_eq hslot (by omega) (by omega)
        obtain rfl : s' = s'' := Fin.ext (by omega)
        exact hin hin'
    · rw [hne t d ht fun s' hin => hmiss s' (List.mem_cons_of_mem _ hin)]
      refine cell_store_ne hys hpos ht hc (lane_bounds d) fun hdc => ?_
      obtain rfl : d = c := Fin.ext (by omega)
      exact hmiss s List.mem_cons_self

/-- Without a plane `c` setting its sample changes nothing. -/
theorem copyOut_eq {i : ℤ} {c : ℕ} {v : α} (out : List (List α)) (s : ℕ)
    (hv : load buf i = some v) : copyOut buf i c s out = some (setPlaneSample out c s v) := by
  unfold copyOut
  split
  · rw [hv, Option.map_some]
  · rename_i hlt
    rw [setPlaneSample, List.modify_eq_self (by omega)]

variable [Zero α]

/-- The samples played are those the ring held; their slots are cleared. -/
theorem playSamples_spec {readTs : ℤ} (ps : List (ℕ × Fin CHANNELS)) (out : List (List α))
    (hL : 0 < L) (hread : 0 ≤ readTs) (hlen : buf.length = L * CHANNELS)
    (hfit : ∀ p ∈ ps, p.1 < L) (hnodup : ps.Nodup) :
    ∃ buf' out', playSamples L readTs ps buf out = some (buf', out') ∧
      buf'.length = L * CHANNELS ∧
      (∀ s c, (s, c) ∈ ps → cell L CHANNELS buf' (readTs + s) c.val = some 0) ∧
      (∀ (t : ℤ) (c : Fin CHANNELS), 0 ≤ t → (∀ s, (s, c) ∈ ps → t % L ≠ (readTs + s) % L) →
        cell L CHANNELS buf' t c.val = cell L CHANNELS buf t c.val) ∧
      (∀ s c, (s, c) ∈ ps → planeSample out' c.val s =
        (planeSample out c.val s).bind fun _ => cell L CHANNELS buf (readTs + s) c.val) ∧
      (∀ s (c : Fin CHANNELS), (s, c) ∉ ps →
        planeSample out' c.val s = planeSample out c.val s) := by
  induction ps generalizing buf out with
  | nil => exact ⟨buf, out, rfl, hlen, by simp, fun _ _ _ _ => rfl, by simp, by simp⟩
  | cons p ps ih =>
    obtain ⟨s, c⟩ := p
    obtain ⟨hnotin, hnodup'⟩ := List.nodup_cons.mp hnodup
    have hpos : 0 ≤ readTs + (s : ℤ) := by omega
    have hc := lane_bounds c
    obtain ⟨v, hv⟩ := exists_cell hlen hL hpos hc
    obtain ⟨ys, hys, hylen⟩ := exists_store_index 0 hlen hL hpos hc
    obtain ⟨buf', out', hr, hlen', hclear, hne, hout, hkeep⟩ :=
      ih (setPlaneSample out c.val s v) hylen (fun q hq => hfit q (by simp [hq])) hnodup'
    -- the slots still to come are others: they are less than a ring away
    have hother : ∀ s' c', (s', c') ∈ ps → c' = c → (readTs + s) % L ≠ (readTs + s') % L := by
      rintro s' c' hin rfl hslot
      have hs := hfit (s, c') List.mem_cons_self
      have hs' := hfit (s', c') (List.mem_cons_of_mem _ hin)
      simp only at hs hs'
      have := eq_of_emod_eq hslot (by omega) (by omega)
      obtain rfl : s = s' := by omega
      exact hnotin hin
    refine ⟨buf', out', ?_, hlen', fun s' c' hmem => ?_, fun t d ht hmiss => ?_,
      fun s' c' hmem => ?_, fun s' c' hmem => ?_⟩
    · rw [playSamples]
      simp only [show ((readTs + s).tmod L * CHANNELS + c.val : ℤ)
        = index L CHANNELS (readTs + s) c.val from rfl, copyOut_eq out s hv, hys,
        Option.bind_eq_bind, Option.bind_some, hr]
    · by_cases hin : (s', c') ∈ ps
      · exact hclear s' c' hin
      · obtain ⟨rfl, rfl⟩ : s' = s ∧ c' = c := by simpa [hin] using hmem
        rw [hne _ _ hpos fun s'' hin' => hother s'' c' hin' rfl]
        exact cell_store_same hys hpos hpos rfl
    · rw [hne t d ht fun s' hin => hmiss s' (List.mem_cons_of_mem _ hin)]
      refine cell_store_ne hys hpos ht hc (lane_bounds d) fun hdc => ?_
      obtain rfl : d = c := Fin.ext (by omega)
      exact hmiss s List.mem_cons_self
    · by_cases hin : (s', c') ∈ ps
      · have hpos' : 0 ≤ readTs + (s' : ℤ) := by omega
        have hthis : ¬ (c.val = c'.val ∧ s = s') := by
          rintro ⟨hcc, rfl⟩
          obtain rfl : c = c' := Fin.ext hcc
          exact hnotin hin
        rw [hout s' c' hin, planeSample_set, if_neg hthis,
          cell_store_ne hys hpos hpos' hc (lane_bounds c')]
        intro hcc hslot
        exact hother s' c' hin (Fin.ext (by omega)) hslot.symm
      · obtain ⟨rfl, rfl⟩ : s' = s ∧ c' = c := by simpa [hin] using hmem
        rw [hkeep s' c' hin, planeSample_set, if_pos ⟨rfl, rfl⟩, hv]
        rcases planeSample out c'.val s' with - | x <;> rfl
    · obtain ⟨hthis, hin⟩ : (s', c') ≠ (s, c) ∧ (s', c') ∉ ps := by simpa using hmem
      rw [hkeep s' c' hin, planeSample_set, if_neg]
      rintro ⟨hcc, rfl⟩
      exact hthis (Prod.ext rfl (Fin.ext hcc.symm))

end Loops

variable {w w' : ReceiverProcessor α}

/-! ### Configuration -/

/-- The playback state of a worklet that no frame has reached. -/
structure Fresh [Zero α] (w : ReceiverProcessor α) : Prop where
  buf_eq : w.buf = List.replicate (w.bufLen * CHANNELS) 0
  initTs_eq : w.initTs = -1
  writeTs_eq : w.writeTs = 0
  readTs_eq : w.readTs = 0

/-- A fresh ring is silent. -/
theorem Fresh.eq_zero [Zero α] (h : Fresh w) {t : ℤ} {c : Fin CHANNELS} {v : α}
    (hv : w.held t c = some v) : v = 0 := by
  have hmem := mem_of_cell hv
  rw [h.buf_eq] at hmem
  exact List.eq_of_mem_replicate hmem

/-- A frame size that is the present one resets nothing. -/
theorem config_of_eq [Zero α] {frameSize : Option ℕ} (h : ∀ n ∈ frameSize, n = w.frameSize)
    (prebuffer : Option ℕ) :
    w.config frameSize prebuffer = { w with prebuffer := prebuffer.getD w.prebuffer } := by
  rcases frameSize with - | n
  · rfl
  · obtain rfl := h n rfl
    simp [config]

theorem fresh_reset [Zero α] (hlen : w.buf.length = w.bufLen * CHANNELS) : Fresh w.reset :=
  ⟨congrArg (List.replicate · 0) hlen, rfl, rfl, rfl⟩

/-- The worklet is fresh after its first configuration. -/
theorem fresh_config_new (α : Type*) [Zero α] (sampleRate : ℕ) (frameSize prebuffer : Option ℕ) :
    Fresh ((new α sampleRate).config frameSize prebuffer) := by
  unfold config
  simp only
  split
  · exact fresh_reset List.length_replicate
  · exact ⟨rfl, rfl, rfl, rfl⟩

/-! ### A frame -/

theorem held_congr {t t' : ℤ} (ht : 0 ≤ t) (ht' : 0 ≤ t') (c : Fin CHANNELS)
    (hslot : t % w.bufLen = t' % w.bufLen) : w.held t c = w.held t' c :=
  cell_congr ht ht' hslot

/-- The ring and the frame and prebuffer sizes. -/
structure SameSizes (w w' : ReceiverProcessor α) : Prop where
  bufLen : w'.bufLen = w.bufLen
  frameSize : w'.frameSize = w.frameSize
  prebuffer : w'.prebuffer = w.prebuffer

/-- Anchoring moves nothing but the pointers. -/
theorem sameSizes_anchor (w : ReceiverProcessor α) (ts : ℤ) :
    SameSizes w (w.anchor ts) ∧ (w.anchor ts).buf = w.buf ∧ (w.anchor ts).started = w.started := by
  unfold anchor
  split <;> exact ⟨⟨rfl, rfl, rfl⟩, rfl, rfl⟩

/-- Where the read pointer goes when a frame leads to a frontier too far ahead. -/
def snapTarget (w : ReceiverProcessor α) (frontier : ℤ) : ℤ :=
  frontier - (w.prebuffer + 2 * w.frameSize)

theorem advance_eq {newWriteTs : ℤ} (h : w.writeTs ≤ newWriteTs) :
    w.advance newWriteTs = { w with writeTs := newWriteTs } := by
  unfold advance
  split
  · rfl
  · rw [show newWriteTs = w.writeTs by omega]

theorem snap_eq (w : ReceiverProcessor α) :
    w.snap = { w with
      readTs := if w.writeTs - w.readTs > w.maxDepth then w.snapTarget w.writeTs
        else w.readTs } := by
  unfold snap
  split <;> rfl

theorem start_eq (w : ReceiverProcessor α) :
    w.start = { w with
      started := w.started || decide (w.prebuffer ≤ w.writeTs - w.readTs) } := by
  obtain ⟨buf, bufLen, writeTs, readTs, initTs, started, frameSize, prebuffer, _, _⟩ := w
  cases started with
  | false =>
    rcases le_or_gt (prebuffer : ℤ) (writeTs - readTs) with h | h
    · simp [start, h]
    · simp [start, h.not_ge]
  | true => simp [start]

/-- `w'` is `w` after frame `f`, at or past the frontier, has been placed. -/
structure Placed (w w' : ReceiverProcessor α) (f : PostedFrame α) : Prop where
  sizes : SameSizes w w'
  length_buf : w'.buf.length = w.bufLen * CHANNELS
  initTs_eq : w'.initTs = w.initTs
  writeTs_eq : w'.writeTs = f.timestamp + f.frameSize
  readTs_eq : w'.readTs = if f.timestamp + f.frameSize - w.readTs > w.maxDepth then
    w.snapTarget (f.timestamp + f.frameSize) else w.readTs
  started_eq : w'.started = (w.started || decide (w.prebuffer ≤ w'.writeTs - w'.readTs))
  held_same : ∀ s c, w'.held (f.timestamp + s.val) c = some (f.channels c s)
  held_ne : ∀ (t : ℤ) (c : Fin CHANNELS), 0 ≤ t →
    (∀ s : Fin f.frameSize, t % w.bufLen ≠ (f.timestamp + s.val) % w.bufLen) →
    w'.held t c = w.held t c

/-- **A frame at or past the frontier is placed.** -/
theorem writeFrame_placed {f : PostedFrame α} (hL : 0 < w.bufLen)
    (hlen : w.buf.length = w.bufLen * CHANNELS) (hfit : f.frameSize ≤ w.bufLen)
    (hahead : (w.anchor f.timestamp).writeTs ≤ f.timestamp) :
    ∃ w', w.writeFrame f = some (w', [.recycle f]) ∧ Placed (w.anchor f.timestamp) w' f := by
  obtain ⟨hs, hbuf, -⟩ := sameSizes_anchor w f.timestamp
  unfold writeFrame
  generalize w.anchor f.timestamp = k at hahead hs hbuf
  rw [← hbuf, ← hs.bufLen] at hlen
  rw [← hs.bufLen] at hL hfit
  obtain ⟨buf', hwrite, hlen', hsame, hne⟩ := writeSamples_spec
    (List.finRange f.frameSize ×ˢ List.finRange CHANNELS) hL hfit hlen
  have hmem : ∀ s c, (s, c) ∈ List.finRange f.frameSize ×ˢ List.finRange CHANNELS := by
    intro s c
    exact List.mem_product.mpr ⟨List.mem_finRange s, List.mem_finRange c⟩
  refine ⟨_, by simp only [hwrite, Option.bind_eq_bind, Option.bind_some]; rfl, ?_⟩
  have hfront : ({ k with buf := buf' } : ReceiverProcessor α).writeTs
      ≤ f.timestamp + f.frameSize := by
    show k.writeTs ≤ f.timestamp + f.frameSize
    omega
  rw [start_eq, snap_eq, advance_eq hfront]
  exact ⟨⟨rfl, rfl, rfl⟩, hlen', rfl, rfl, rfl, rfl, fun s c => hsame s c (hmem s c),
    fun t c ht hmiss => hne t c ht fun s _ => hmiss s⟩

/-! ### A block -/

/-- The block of `out` is played, not held back. -/
def Plays (w : ReceiverProcessor α) (block : List α) : Prop :=
  w.started = true ∧ (block.length : ℤ) ≤ w.writeTs - w.readTs

/-- `w'` is `w` after a block has been played from `out` to `out'`. -/
structure Played (w w' : ReceiverProcessor α) [Zero α] (blockSize : ℕ) (out out' : List (List α)) :
    Prop where
  sizes : SameSizes w w'
  length_buf : w'.buf.length = w.bufLen * CHANNELS
  initTs_eq : w'.initTs = w.initTs
  writeTs_eq : w'.writeTs = w.writeTs
  readTs_eq : w'.readTs = w.readTs + blockSize
  held_same : ∀ (s : ℕ) c, s < blockSize → w'.held (w.readTs + s) c = some 0
  held_ne : ∀ (t : ℤ) (c : Fin CHANNELS), 0 ≤ t →
    (∀ s : ℕ, s < blockSize → t % w.bufLen ≠ (w.readTs + s) % w.bufLen) →
    w'.held t c = w.held t c
  out_eq : ∀ (c : Fin CHANNELS) (s : ℕ), s < blockSize → planeSample out' c.val s =
    (planeSample out c.val s).bind fun _ => w.held (w.readTs + s) c

/-- **A block is held back, or played.** -/
theorem process_cases [Zero α] (hL : 0 < w.bufLen) (hlen : w.buf.length = w.bufLen * CHANNELS)
    (hread : 0 ≤ w.readTs) (hdepth : w.writeTs - w.readTs < w.bufLen) (block : List α)
    (rest : List (List α)) :
    (¬ w.Plays block ∧ ∃ b posts,
      w.process (block :: rest) = some ({ w with isUnderrunning := b }, block :: rest, posts)) ∨
    (w.Plays block ∧ ∃ w' out' posts, w.process (block :: rest) = some (w', out', posts) ∧
      Played w w' block.length (block :: rest) out') := by
  unfold process Plays
  simp only [List.head?_cons, Option.bind_eq_bind, Option.bind_some]
  split
  -- still prebuffering
  · rename_i hwait
    left
    refine ⟨fun h => ?_, w.isUnderrunning, [], rfl⟩
    rw [h.1] at hwait
    simp at hwait
  split
  -- started, and short of a block: an underrun
  · rename_i hstarted hshort
    left
    refine ⟨fun h => absurd h.2 (not_le.mpr hshort), ?_⟩
    split
    · exact ⟨true, [.underrun], rfl⟩
    · exact ⟨w.isUnderrunning, [], rfl⟩
  -- a whole block is there, and is played and cleared
  · rename_i hstarted hdeep
    right
    rw [Bool.not_eq_true', Bool.not_eq_false] at hstarted
    obtain ⟨buf', out', hplay, hlen', hclear, hne, hout, -⟩ := playSamples_spec
      (List.range block.length ×ˢ List.finRange CHANNELS) (block :: rest) hL hread hlen
      (by
        rintro ⟨s, c⟩ hin
        have := List.mem_range.mp (List.mem_product.mp hin).1
        simp only
        omega)
      (List.Nodup.product List.nodup_range (List.nodup_finRange _))
    have hmem : ∀ s c, (s, c) ∈ List.range block.length ×ˢ List.finRange CHANNELS
        ↔ s < block.length := by
      intro s c
      exact List.mem_product.trans
        ((and_iff_left (List.mem_finRange c)).trans List.mem_range)
    refine ⟨⟨hstarted, not_lt.mp hdeep⟩, ?_⟩
    simp only [hplay, Option.bind_some]
    unfold tick
    split
    all_goals
      refine ⟨_, _, _, rfl, ⟨⟨rfl, rfl, rfl⟩, hlen', rfl, rfl, rfl, ?_, ?_, ?_⟩⟩
      · exact fun s c hs => hclear s c ((hmem s c).mpr hs)
      · exact fun t c ht hmiss => hne t c ht fun s hin => hmiss s ((hmem s c).mp hin)
      · exact fun c s hs => hout s c ((hmem s c).mpr hs)

end ReceiverProcessor

end AmbiRTC.Playback
