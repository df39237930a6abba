/-
AmbiRTC/JitterSteps.lean

What one call on the jitter buffer does.  A buffer with room for the prebuffer
and three frames keeps its pointers in order and less than a ring apart
(`Sound`), never indexes out of range, and

* `writeChannel` ignores the call, drops a frame that is entirely late, or
  places the samples and moves the pointers (`writeChannel_cases`, `Placed`);
* `readFrame` waits, underruns, or hands out and clears one frame
  (`readFrame_cases`, `TakenFrame`).
-/
import AmbiRTC.Jitter

namespace AmbiRTC

open Ring

namespace JitterBuffer

/-! ### The sample loop of WriteChannel -/

section WriteLoop

variable {L C : ℕ} {c ts : ℤ} {pcm : List Int16} {buf : List Int16}

/-- The loop stays inside the ring. -/
theorem exists_writeSamples (pcm : List Int16) (hL : 0 < L) (hc : 0 ≤ c ∧ c < C) (hts : 0 ≤ ts)
    (hlen : buf.length = L * C) :
    ∃ buf', writeSamples L C c ts pcm buf = some buf' ∧ buf'.length = L * C := by
  induction pcm generalizing ts buf with
  | nil => exact ⟨buf, rfl, hlen⟩
  | cons v pcm ih =>
    obtain ⟨ys, hys, hylen⟩ := exists_store_index v hlen hL hts hc
    obtain ⟨buf', hbuf', hlen'⟩ := @ih (ts + 1) ys (by omega) hylen
    refine ⟨buf', ?_, hlen'⟩
    rw [writeSamples]
    simp only [show ts.tmod L * C + c = index L C ts c from rfl, hys, Option.bind_eq_bind,
      Option.bind_some, hbuf']

/-- **Frame rule of the loop.**  Other channels, and positions in no slot that
is written, keep their sample. -/
theorem cell_writeSamples_ne {buf' : List Int16} (hc : 0 ≤ c ∧ c < C) (hts : 0 ≤ ts)
    (h : writeSamples L C c ts pcm buf = some buf') {t d : ℤ} (ht : 0 ≤ t)
    (hd : 0 ≤ d ∧ d < C) (hne : d = c → ∀ i : ℕ, i < pcm.length → t % L ≠ (ts + i) % L) :
    cell L C buf' t d = cell L C buf t d := by
  induction pcm generalizing ts buf with
  | nil =>
    obtain rfl := Option.some.inj h
    rfl
  | cons v pcm ih =>
    rw [writeSamples] at h
    obtain ⟨ys, hys, hrest⟩ := Option.bind_eq_some_iff.mp h
    rw [ih (by omega) hrest]
    · refine cell_store_ne hys hts ht hc hd fun hdc => ?_
      have := hne hdc 0 (by simp)
      simpa using this
    · intro hdc i hi
      have := hne hdc (i + 1) (by simpa using hi)
      rwa [show ts + ((i + 1 : ℕ) : ℤ) = ts + 1 + i by push_cast; ring] at this

/-- A frame no longer than the ring is found where it was put. -/
theorem cell_writeSamples_same {buf' : List Int16} (hc : 0 ≤ c ∧ c < C) (hts : 0 ≤ ts)
    (hfit : pcm.length ≤ L) (h : writeSamples L C c ts pcm buf = some buf') {i : ℕ}
    (hi : i < pcm.length) : cell L C buf' (ts + i) c = pcm[i]? := by
  induction pcm generalizing ts buf i with
  | nil => simp at hi
  | cons v pcm ih =>
    rw [writeSamples] at h
    obtain ⟨ys, hys, hrest⟩ := Option.bind_eq_some_iff.mp h
    rw [List.length_cons] at hfit hi
    cases i with
    | zero =>
      -- the samples that follow are less than a ring ahead of the first one
      rw [Nat.cast_zero, add_zero, cell_writeSamples_ne hc (by omega) hrest hts hc]
      · exact cell_store_same hys hts hts rfl
      · intro _ k hk hslot
        have := eq_of_emod_eq hslot (by omega) (by omega)
        omega
    | succ i =>
      have := ih (by omega) (by omega) hrest (show i < pcm.length by omega)
      rw [show ts + ((i + 1 : ℕ) : ℤ) = ts + 1 + i by push_cast; ring, this]
      rfl

end WriteLoop

/-! ### The loops of ReadFrame -/

theorem sample_setSample (out : List (List Int16)) (c s c' s' : ℕ) (v : Int16) :
    sample (setSample out c s v) c' s'
      = if c = c' ∧ s = s' then (sample out c' s').map fun _ => v else sample out c' s' :=
  planeSample_set out c s c' s' v

section ReadLoops

variable {L C : ℕ} {buf : List Int16} {out : List (List Int16)}

/-- One slot: its samples are handed out, those of the channels in `cs` cleared. -/
theorem readSlot_spec {t : ℤ} {s : ℕ} {cs : List ℕ} (hL : 0 < L) (ht : 0 ≤ t)
    (hlen : buf.length = L * C) (hcs : ∀ c ∈ cs, c < C) (hnodup : cs.Nodup) :
    ∃ buf' out', readSlot (t.tmod L * C) s cs buf out = some (buf', out') ∧
      buf'.length = L * C ∧
      (∀ t' d : ℤ, 0 ≤ t' → 0 ≤ d ∧ d < C → cell L C buf' t' d
        = if t' % L = t % L ∧ d.toNat ∈ cs then some 0 else cell L C buf t' d) ∧
      (∀ c s', sample out' c s' = if c ∈ cs ∧ s' = s then
        (sample out c s').bind fun _ => cell L C buf t c else sample out c s') := by
  induction cs generalizing buf out with
  | nil => exact ⟨buf, out, rfl, hlen, by simp, by simp⟩
  | cons c cs ih =>
    have hc : 0 ≤ (c : ℤ) ∧ (c : ℤ) < C := by
      have := hcs c (by simp)
      omega
    obtain ⟨hnotin, hnodup'⟩ := List.nodup_cons.mp hnodup
    obtain ⟨v, hv⟩ := exists_cell hlen hL ht hc
    obtain ⟨ys, hys, hylen⟩ := exists_store_index 0 hlen hL ht hc
    obtain ⟨buf', out', hr, hlen', hcell, hout⟩ :=
      @ih ys (setSample out c s v) hylen (fun d hd => hcs d (by simp [hd])) hnodup'
    refine ⟨buf', out', ?_, hlen', fun t' d ht' hd => ?_, fun c' s' => ?_⟩
    · rw [readSlot]
      simp only [show t.tmod L * C + (c : ℤ) = index L C t c from rfl, hys, show load buf
        (index L C t c) = some v from hv, Option.bind_eq_bind, Option.bind_some, hr]
    · rw [hcell t' d ht' hd]
      by_cases hmem : t' % L = t % L ∧ d.toNat ∈ cs
      · rw [if_pos hmem, if_pos ⟨hmem.1, by simp [hmem.2]⟩]
      · rw [if_neg hmem]
        by_cases hthis : t' % L = t % L ∧ d = c
        · obtain ⟨hslot, rfl⟩ := hthis
          rw [if_pos ⟨hslot, by simp⟩]
          exact cell_store_same hys ht ht' hslot
        · rw [if_neg]
          · exact cell_store_ne hys ht ht' hc hd fun hdc hslot => hthis ⟨hslot, hdc⟩
          · rintro ⟨hslot, hin⟩
            rcases List.mem_cons.mp hin with heq | hin
            · exact hthis ⟨hslot, by omega⟩
            · exact hmem ⟨hslot, hin⟩
    · rw [hout c' s', sample_setSample]
      -- the slot of `c` is read before it is cleared, those of `cs` are untouched
      have hkeep : c' ∈ cs → cell L C ys t c' = cell L C buf t c' := by
        intro hin
        have hc' := hcs c' (by simp [hin])
        refine cell_store_ne hys ht ht hc (by omega) fun heq => ?_
        obtain rfl : c' = c := by omega
        exact absurd hin hnotin
      by_cases hs : s' = s
      · subst hs
        by_cases hcc : c' = c
        · subst hcc
          simp only [hnotin, if_false, and_true, if_true, List.mem_cons_self]
          rw [hv]
          rcases sample out c' s' with - | w <;> rfl
        · by_cases hin : c' ∈ cs
          · simp [hin, hcc, Ne.symm hcc, hkeep hin]
          · simp [hin, hcc, Ne.symm hcc]
      · simp [hs, Ne.symm hs]

/-- All slots of a frame: each position's samples are handed out, then cleared. -/
theorem readSlots_spec {readTs : ℤ} {ss : List ℕ} (hL : 0 < L) (hread : 0 ≤ readTs)
    (hlen : buf.length = L * C) (hss : ∀ s ∈ ss, s < L) (hnodup : ss.Nodup) :
    ∃ buf' out', readSlots L C readTs ss buf out = some (buf', out') ∧
      buf'.length = L * C ∧
      (∀ t d : ℤ, 0 ≤ t → 0 ≤ d ∧ d < C → cell L C buf' t d
        = if ∃ s ∈ ss, t % L = (readTs + s) % L then some 0 else cell L C buf t d) ∧
      (∀ c s, sample out' c s = if c < C ∧ s ∈ ss then
        (sample out c s).bind fun _ => cell L C buf (readTs + s) c else sample out c s) := by
  induction ss generalizing buf out with
  | nil => exact ⟨buf, out, rfl, hlen, by simp, by simp⟩
  | cons s ss ih =>
    obtain ⟨hnotin, hnodup'⟩ := List.nodup_cons.mp hnodup
    have hs := hss s (by simp)
    have hpos : 0 ≤ readTs + (s : ℤ) := by omega
    -- one slot is read and cleared, then the others
    obtain ⟨ys, out₁, hslot, hylen, hycell, hyout⟩ :=
      @readSlot_spec L C buf out (readTs + s) s (List.range C) hL hpos hlen
        (by simp) List.nodup_range
    obtain ⟨buf', out', hr, hlen', hcell, hout⟩ :=
      @ih ys out₁ hylen (fun d hd => hss d (by simp [hd])) hnodup'
    refine ⟨buf', out', ?_, hlen', fun t d ht hd => ?_, fun c s' => ?_⟩
    · rw [readSlots]
      simp only [hslot, Option.bind_eq_bind, Option.bind_some, hr]
    -- a cell is cleared here or later
    · have hdC : d.toNat ∈ List.range C := List.mem_range.mpr (by omega)
      rw [hcell t d ht hd, hycell t d ht hd]
      by_cases hin : ∃ s' ∈ ss, t % L = (readTs + s') % L
      · obtain ⟨s', hs', hmod⟩ := hin
        rw [if_pos ⟨s', hs', hmod⟩, if_pos ⟨s', by simp [hs'], hmod⟩]
      · rw [if_neg hin]
        by_cases hthis : t % L = (readTs + s) % L
        · rw [if_pos ⟨hthis, hdC⟩, if_pos ⟨s, by simp, hthis⟩]
        · rw [if_neg (fun h => hthis h.1), if_neg]
          rintro ⟨s', hs', hmod⟩
          rcases List.mem_cons.mp hs' with rfl | hs'
          · exact hthis hmod
          · exact hin ⟨s', hs', hmod⟩
    · rw [hout c s', hyout c s']
      by_cases hc : c < C
      · -- the slots still to come are others: they are less than a ring away
        have hkeep : s' ∈ ss → cell L C ys (readTs + s') c = cell L C buf (readTs + s') c := by
          intro hin
          have hs' := hss s' (by simp [hin])
          rw [hycell _ _ (by omega) (by omega), if_neg]
          rintro ⟨hmod, -⟩
          have := eq_of_emod_eq hmod (by omega) (by omega)
          obtain rfl : s' = s := by omega
          exact hnotin hin
        -- the slot of this row is this one, one of the others, or none
        by_cases hss' : s' = s
        · subst hss'
          simp [hnotin, hc]
        · by_cases hin : s' ∈ ss
          · simp [hin, hss', hc, hkeep hin]
          · simp [hin, hss', hc]
      · simp [hc]

end ReadLoops

/-! ### Sizes and pointers -/

/-- The sizes `NewJitterBuffer` gives a buffer with room for the prebuffer and
three frames. -/
structure WellSized (j : JitterBuffer) : Prop where
  channels_pos : 0 < j.channels
  frameSize_pos : 0 < j.frameSize
  prebuffer_nonneg : 0 ≤ j.prebuffer
  room : j.prebuffer + 3 * j.frameSize ≤ j.bufLen
  maxDepth_eq : j.maxDepth = min (j.prebuffer + 6 * j.frameSize) (j.bufLen - j.frameSize)
  length_buf : j.buf.length = j.bufLen * j.channels

/-- The pointers before the first frame. -/
structure Unanchored (j : JitterBuffer) : Prop where
  initTs_eq : j.initTs = -1
  started_eq : j.started = false

/-- The pointers from the first frame on. -/
structure Anchored (j : JitterBuffer) : Prop where
  initTs_nonneg : 0 ≤ j.initTs
  initTs_le : j.initTs ≤ j.readTs
  readTs_le : j.readTs ≤ j.writeTs
  depth_le : j.writeTs - j.readTs ≤ j.maxDepth
  aligned : (j.frameSize : ℤ) ∣ j.readTs - j.initTs

/-- A buffer with good sizes and good pointers. -/
structure Sound (j : JitterBuffer) : Prop extends WellSized j where
  pointers : Unanchored j ∨ Anchored j

variable {j j' : JitterBuffer}

/-- The latency cap leaves a frame of the ring free, and is no less than the
depth the snap drains to. -/
theorem WellSized.maxDepth_bounds (h : WellSized j) :
    j.prebuffer + 2 * j.frameSize ≤ j.maxDepth ∧ j.maxDepth + j.frameSize ≤ j.bufLen := by
  have := h.room
  rw [h.maxDepth_eq]
  omega

theorem WellSized.bufLen_pos (h : WellSized j) : 0 < j.bufLen := by
  have := h.maxDepth_bounds
  have := h.frameSize_pos
  have := h.prebuffer_nonneg
  omega

/-- A new buffer is sound if it has the room. -/
theorem sound_of_new {channels frameSize bufLen prebuffer : ℤ}
    (hnew : newJitterBuffer channels frameSize bufLen prebuffer = .ok j)
    (hroom : j.prebuffer + 3 * j.frameSize ≤ j.bufLen) : Sound j := by
  unfold newJitterBuffer at hnew
  split at hnew
  · cases hnew
  split at hnew
  · cases hnew
  rename_i hpos hlen
  obtain rfl := Except.ok.inj hnew
  refine { channels_pos := ?_, frameSize_pos := ?_, prebuffer_nonneg := ?_, room := hroom,
           maxDepth_eq := ?_, length_buf := ?_, pointers := Or.inl ⟨rfl, rfl⟩ }
  · simp only
    omega
  · simp only
    omega
  · simp only
    split <;> omega
  · simp only
    split <;> split <;> omega
  · exact List.length_replicate

theorem channels_of_new {channels frameSize bufLen prebuffer : ℤ}
    (hnew : newJitterBuffer channels frameSize bufLen prebuffer = .ok j) :
    j.channels = channels.toNat := by
  unfold newJitterBuffer at hnew
  split at hnew
  · cases hnew
  split at hnew
  · cases hnew
  obtain rfl := Except.ok.inj hnew
  rfl

/-! ### The snap -/

/-- The first frame boundary at or after `x`, counted from `origin`. -/
def boundary (origin : ℤ) (frameSize : ℕ) (x : ℤ) : ℤ :=
  origin + frameSize * ((x - origin + frameSize - 1) / frameSize)

theorem boundary_spec (origin : ℤ) {frameSize : ℕ} (hfs : 0 < frameSize) (x : ℤ) :
    x ≤ boundary origin frameSize x ∧ boundary origin frameSize x < x + frameSize ∧
      (frameSize : ℤ) ∣ boundary origin frameSize x - origin := by
  have hfs' : (frameSize : ℤ) ≠ 0 := by omega
  have hdiv := Int.mul_ediv_add_emod (x - origin + frameSize - 1) frameSize
  have hnonneg := Int.emod_nonneg (x - origin + frameSize - 1) hfs'
  have hlt := Int.emod_lt_of_pos (x - origin + frameSize - 1) (show (0 : ℤ) < frameSize by omega)
  unfold boundary
  refine ⟨by omega, by omega, ?_⟩
  rw [add_sub_cancel_left]
  exact dvd_mul_right _ _

/-- Boundaries less than a frame apart are equal. -/
theorem boundary_unique {origin x y : ℤ} {frameSize : ℕ} (hfs : 0 < frameSize)
    (hle : x ≤ y) (hlt : y < x + frameSize) (hdvd : (frameSize : ℤ) ∣ y - origin) :
    y = boundary origin frameSize x := by
  obtain ⟨hle', hlt', hdvd'⟩ := boundary_spec origin hfs x
  have hdiff : (frameSize : ℤ) ∣ y - boundary origin frameSize x := by
    have := Int.dvd_sub hdvd hdvd'
    rwa [sub_sub_sub_cancel_right] at this
  have := Int.eq_zero_of_abs_lt_dvd hdiff (abs_lt.mpr ⟨by omega, by omega⟩)
  omega

/-- The snap goes to the first frame boundary two frames over the prebuffer
behind the frontier. -/
theorem snapTarget_eq (hfs : 0 < j.frameSize)
    (hbehind : j.initTs ≤ j.writeTs - (j.prebuffer + 2 * j.frameSize)) :
    j.snapTarget
      = boundary j.initTs j.frameSize (j.writeTs - (j.prebuffer + 2 * j.frameSize)) := by
  have hfs' : (0 : ℤ) < j.frameSize := by omega
  generalize hx : j.writeTs - (j.prebuffer + 2 * j.frameSize) = x at hbehind
  unfold snapTarget
  simp only [hx]
  have hmod := Int.tmod_eq_emod_of_nonneg (b := j.frameSize) (show 0 ≤ x - j.initTs by omega)
  -- not negative, so Go's remainder is the mathematical one
  rw [hmod]
  have hnonneg := Int.emod_nonneg (x - j.initTs) hfs'.ne'
  have hlt := Int.emod_lt_of_pos (x - j.initTs) hfs'
  have hdvd : (j.frameSize : ℤ) ∣ x - j.initTs - (x - j.initTs) % j.frameSize :=
    Int.dvd_self_sub_emod
  split
  · apply boundary_unique hfs (by omega) (by omega)
    have hround := Int.dvd_add hdvd (dvd_refl (j.frameSize : ℤ))
    convert hround using 1
    ring
  · rename_i hzero
    apply boundary_unique hfs (by omega) (by omega)
    rwa [not_not.mp hzero, sub_zero] at hdvd

/-! ### One call -/

/-- The sizes are the same. -/
structure SameSizes (j j' : JitterBuffer) : Prop where
  channels : j'.channels = j.channels
  frameSize : j'.frameSize = j.frameSize
  bufLen : j'.bufLen = j.bufLen
  prebuffer : j'.prebuffer = j.prebuffer
  maxDepth : j'.maxDepth = j.maxDepth

theorem SameSizes.refl (j : JitterBuffer) : SameSizes j j := ⟨rfl, rfl, rfl, rfl, rfl⟩

theorem SameSizes.trans {j'' : JitterBuffer} (h : SameSizes j j') (h' : SameSizes j' j'') :
    SameSizes j j'' :=
  ⟨h'.channels.trans h.channels, h'.frameSize.trans h.frameSize, h'.bufLen.trans h.bufLen,
    h'.prebuffer.trans h.prebuffer, h'.maxDepth.trans h.maxDepth⟩

theorem WellSized.congr (h : WellSized j) (hs : SameSizes j j')
    (hlen : j'.buf.length = j.bufLen * j.channels) : WellSized j' := by
  constructor
  · rw [hs.channels]
    exact h.channels_pos
  · rw [hs.frameSize]
    exact h.frameSize_pos
  · rw [hs.prebuffer]
    exact h.prebuffer_nonneg
  · rw [hs.prebuffer, hs.frameSize, hs.bufLen]
    exact h.room
  · rw [hs.prebuffer, hs.frameSize, hs.bufLen, hs.maxDepth]
    exact h.maxDepth_eq
  · rw [hs.channels, hs.bufLen, hlen]

theorem anchor_of_anchored (h : Anchored j) (ts : ℤ) : j.anchor ts = j :=
  if_neg (not_lt.mpr h.initTs_nonneg)

theorem anchor_of_unanchored (h : Unanchored j) (ts : ℤ) :
    j.anchor ts = { j with initTs := ts, readTs := ts, writeTs := ts } :=
  if_pos (by rw [h.initTs_eq]; decide)

/-- Anchoring moves nothing but the pointers. -/
theorem sameSizes_anchor (j : JitterBuffer) (ts : ℤ) : SameSizes j (j.anchor ts) := by
  unfold anchor
  split <;> exact ⟨rfl, rfl, rfl, rfl, rfl⟩

@[simp] theorem buf_anchor (j : JitterBuffer) (ts : ℤ) : (j.anchor ts).buf = j.buf := by
  unfold anchor
  split <;> rfl

theorem held_anchor (j : JitterBuffer) (ts t c : ℤ) : (j.anchor ts).held t c = j.held t c := by
  have hs := sameSizes_anchor j ts
  rw [held, held, hs.channels, hs.bufLen, buf_anchor]

theorem Sound.wellSized_anchor (h : Sound j) (ts : ℤ) : WellSized (j.anchor ts) :=
  h.toWellSized.congr (sameSizes_anchor j ts) (by rw [buf_anchor, h.length_buf])

theorem Sound.anchored_anchor (h : Sound j) {ts : ℤ} (hts : 0 ≤ ts) :
    Anchored (j.anchor ts) := by
  rcases h.pointers with hun | han
  · -- the first frame: all pointers at its timestamp
    have hdepth := h.maxDepth_bounds
    have hpre := h.prebuffer_nonneg
    rw [anchor_of_unanchored hun]
    exact ⟨hts, le_rfl, le_rfl, by simp only; omega, by simp⟩
  · rwa [anchor_of_anchored han]

/-- What an accepted `WriteChannel` does to an anchored buffer. -/
structure Placed (j j' : JitterBuffer) (ts chIdx : ℤ) (pcm : List Int16) : Prop where
  sizes : SameSizes j j'
  initTs_eq : j'.initTs = j.initTs
  samples : writeSamples j.bufLen j.channels chIdx ts pcm j.buf = some j'.buf
  writeTs_eq : j'.writeTs = max j.writeTs (ts + pcm.length)
  readTs_eq : j'.readTs = if j.maxDepth < j'.writeTs - j.readTs then
      boundary j.initTs j.frameSize (j'.writeTs - (j.prebuffer + 2 * j.frameSize))
    else j.readTs
  anchored : Anchored j'

theorem advance_writeTs (j : JitterBuffer) (frontier : ℤ) :
    j.advance frontier = { j with writeTs := max j.writeTs frontier } := by
  unfold advance
  split
  · rw [max_eq_right (by omega)]
  · rw [max_eq_left (by omega)]

theorem start_eq (j : JitterBuffer) : ∃ b, j.start = { j with started := b } := by
  unfold start
  split
  · exact ⟨true, rfl⟩
  · exact ⟨j.started, rfl⟩

/-- The snap, on a buffer whose read pointer is at a frame boundary. -/
theorem snap_eq (hw : WellSized j) (hinit : j.initTs ≤ j.readTs) :
    ∃ n, j.snap =
      { j with
        readTs := if j.maxDepth < j.writeTs - j.readTs then
            boundary j.initTs j.frameSize (j.writeTs - (j.prebuffer + 2 * j.frameSize))
          else j.readTs
        overflows := n } := by
  have hdepth := hw.maxDepth_bounds
  unfold snap
  split
  · rename_i hover
    exact ⟨j.overflows + 1, by rw [snapTarget_eq hw.frameSize_pos (by omega)]⟩
  · exact ⟨j.overflows, rfl⟩

/-- The pointers after a write: the snap drains to a depth under the cap. -/
theorem anchored_of_moved (hw : WellSized j) (ha : Anchored j) {frontier : ℤ}
    (hs : SameSizes j j') (hinit : j'.initTs = j.initTs)
    (hwrite : j'.writeTs = max j.writeTs frontier)
    (hread : j'.readTs = if j.maxDepth < j'.writeTs - j.readTs then
        boundary j.initTs j.frameSize (j'.writeTs - (j.prebuffer + 2 * j.frameSize))
      else j.readTs) : Anchored j' := by
  have hdepth := hw.maxDepth_bounds
  have hfs := hw.frameSize_pos
  have hpre := hw.prebuffer_nonneg
  have hinit_nonneg := ha.initTs_nonneg
  have hinit_le := ha.initTs_le
  have hread_le := ha.readTs_le
  obtain ⟨hge, hlt, hdvd⟩ := boundary_spec j.initTs hfs
    (j'.writeTs - (j.prebuffer + 2 * j.frameSize))
  constructor
  · rw [hinit]
    exact hinit_nonneg
  · rw [hinit, hread]
    split <;> omega
  · rw [hread]
    split <;> omega
  · rw [hread, hs.maxDepth]
    split <;> omega
  · rw [hread, hinit, hs.frameSize]
    split
    · exact hdvd
    · exact ha.aligned

/-- **What WriteChannel does.**  It leaves the buffer alone, or places the frame
in the anchored buffer; it never indexes out of range. -/
theorem writeChannel_cases (h : Sound j) (frameTs : UInt32) (chIdx : ℤ) (pcm : List Int16) :
    (¬ j.Accepts frameTs chIdx pcm ∧ j.writeChannel frameTs chIdx pcm = some j) ∨
    (j.Accepts frameTs chIdx pcm ∧ ∃ j', j.writeChannel frameTs chIdx pcm = some j' ∧
      Placed (j.anchor frameTs.toNat) j' frameTs.toNat chIdx pcm) := by
  have hts : (0 : ℤ) ≤ frameTs.toNat := by omega
  have hs := sameSizes_anchor j frameTs.toNat
  have hw := h.wellSized_anchor frameTs.toNat
  have ha := h.anchored_anchor hts
  unfold writeChannel
  by_cases hinvalid : chIdx < 0 ∨ chIdx ≥ j.channels ∨ pcm.length = 0
  · -- the guard: no such channel, or nothing to write
    refine Or.inl ⟨fun hacc => ?_, if_pos hinvalid⟩
    have hne := List.length_pos_iff.mpr hacc.2.1
    have := hacc.1
    omega
  rw [if_neg hinvalid]
  simp only
  by_cases hlate : (frameTs.toNat : ℤ) + pcm.length ≤ (j.anchor frameTs.toNat).readTs
  · -- entirely behind the read pointer; then this is not the first frame
    refine Or.inl ⟨fun hacc => absurd hacc.2.2 (not_lt.mpr hlate), ?_⟩
    rw [if_pos hlate]
    rcases h.pointers with hun | han
    · rw [anchor_of_unanchored hun] at hlate
      simp only at hlate
      omega
    · rw [anchor_of_anchored han]
  · rw [if_neg hlate]
    refine Or.inr ⟨⟨by omega, ?_, not_le.mp hlate⟩, ?_⟩
    · intro hnil
      exact hinvalid (Or.inr (Or.inr (List.length_eq_zero_iff.mpr hnil)))
    obtain ⟨buf, hbuf, hlen⟩ := exists_writeSamples (c := chIdx) pcm hw.bufLen_pos
      (by rw [hs.channels]; omega) hts hw.length_buf
    -- from here on only the anchored buffer matters
    rw [hbuf]
    generalize j.anchor frameTs.toNat = k at *
    -- frontier, snap and start, one after the other
    have hadv := advance_writeTs { k with buf := buf } (frameTs.toNat + pcm.length)
    obtain ⟨n, hsnap⟩ := @snap_eq (JitterBuffer.advance { k with buf := buf }
      (frameTs.toNat + pcm.length))
      (hw.congr (by rw [hadv]; exact ⟨rfl, rfl, rfl, rfl, rfl⟩) (by rw [hadv]; exact hlen))
      (by rw [hadv]; exact ha.initTs_le)
    obtain ⟨b, hstart⟩ := start_eq (JitterBuffer.advance { k with buf := buf }
      (frameTs.toNat + pcm.length)).snap
    refine ⟨_, rfl, ?_⟩
    rw [hstart, hsnap, hadv]
    exact
      { sizes := ⟨rfl, rfl, rfl, rfl, rfl⟩
        initTs_eq := rfl
        samples := hbuf
        writeTs_eq := rfl
        readTs_eq := rfl
        anchored := anchored_of_moved hw ha ⟨rfl, rfl, rfl, rfl, rfl⟩ rfl rfl rfl }

/-- A snap does not skip any part of the frame that causes it, if that is no
longer than `frameSize`. -/
theorem Placed.readTs_le_of_snap {ts chIdx : ℤ} {pcm : List Int16}
    (hp : Placed j j' ts chIdx pcm) (hw : WellSized j) (ha : Anchored j)
    (hfit : pcm.length ≤ j.frameSize) (hsnap : j.maxDepth < j'.writeTs - j.readTs) :
    j'.readTs ≤ ts := by
  have hdepth := ha.depth_le
  have hpre := hw.prebuffer_nonneg
  have hlt := (boundary_spec j.initTs hw.frameSize_pos
    (j'.writeTs - (j.prebuffer + 2 * j.frameSize))).2.1
  have hwrite := hp.writeTs_eq
  rw [hp.readTs_eq, if_pos hsnap]
  -- the depth was under the cap before, so the frontier is the frame's own
  omega

/-- What a `ReadFrame` that hands out a frame does. -/
structure TakenFrame (j j' : JitterBuffer) (out out' : List (List Int16)) : Prop where
  sizes : SameSizes j j'
  started : j.started = true
  depth : (j.frameSize : ℤ) ≤ j.writeTs - j.readTs
  initTs_eq : j'.initTs = j.initTs
  writeTs_eq : j'.writeTs = j.writeTs
  readTs_eq : j'.readTs = j.readTs + j.frameSize
  length_buf : j'.buf.length = j.bufLen * j.channels
  held_eq : ∀ t c : ℤ, 0 ≤ t → 0 ≤ c ∧ c < j.channels → j'.held t c
    = if ∃ s < j.frameSize, t % j.bufLen = (j.readTs + s) % j.bufLen then some 0
      else j.held t c
  out_eq : ∀ c s, sample out' c s = if c < j.channels ∧ s < j.frameSize then
      (sample out c s).bind fun _ => j.held (j.readTs + s) c
    else sample out c s

theorem Sound.anchored_of_started (h : Sound j) (hstarted : j.started = true) : Anchored j := by
  rcases h.pointers with hun | han
  · rw [hun.started_eq] at hstarted
    cases hstarted
  · exact han

/-- **What ReadFrame does.**  It waits for the prebuffer, underruns and holds
the read pointer, or hands out one frame; it never indexes out of range. -/
theorem readFrame_cases (h : Sound j) (out : List (List Int16)) :
    j.readFrame out = some (j, out, false, false) ∨
    j.readFrame out = some ({ j with underruns := j.underruns + 1 },
      zeroFill j.channels j.frameSize out, true, true) ∨
    ∃ j' out', j.readFrame out = some (j', out', true, false) ∧ TakenFrame j j' out out' := by
  unfold readFrame
  by_cases hstarted : j.started = true
  · rw [if_neg (by simp [hstarted])]
    by_cases hunder : j.writeTs - j.readTs < j.frameSize
    · exact Or.inr (Or.inl (if_pos hunder))
    · have ha := h.anchored_of_started hstarted
      have hroom := h.room
      have hpre := h.prebuffer_nonneg
      have hread : 0 ≤ j.readTs := ha.initTs_nonneg.trans ha.initTs_le
      obtain ⟨buf, out', hr, hlen, hcell, hout⟩ :=
        @readSlots_spec j.bufLen j.channels j.buf out j.readTs (List.range j.frameSize)
          h.bufLen_pos hread h.length_buf (fun s hs => by
            have := List.mem_range.mp hs
            omega) List.nodup_range
      refine Or.inr (Or.inr
        ⟨{ j with buf := buf, readTs := j.readTs + j.frameSize }, out', ?_, ?_⟩)
      · rw [if_neg hunder, hr]
        rfl
      · exact
          { sizes := ⟨rfl, rfl, rfl, rfl, rfl⟩
            started := hstarted
            depth := not_lt.mp hunder
            initTs_eq := rfl
            writeTs_eq := rfl
            readTs_eq := rfl
            length_buf := hlen
            held_eq := fun t c ht hc => by simpa [held] using hcell t c ht hc
            out_eq := fun c s => by simpa [held] using hout c s }
  · exact Or.inl (if_pos (by simp [hstarted]))

theorem TakenFrame.anchored (ht : TakenFrame j j' out out') (ha : Anchored j) : Anchored j' := by
  have hdepth := ht.depth
  have hinit := ha.initTs_le
  have hcap := ha.depth_le
  constructor
  · rw [ht.initTs_eq]
    exact ha.initTs_nonneg
  · rw [ht.initTs_eq, ht.readTs_eq]
    omega
  · rw [ht.writeTs_eq, ht.readTs_eq]
    omega
  · rw [ht.writeTs_eq, ht.readTs_eq, ht.sizes.maxDepth]
    omega
  · rw [ht.readTs_eq, ht.initTs_eq, ht.sizes.frameSize, add_sub_right_comm]
    exact Int.dvd_add ha.aligned (dvd_refl _)

/-! ### What the calls leave in the ring -/

section Held

variable {ts chIdx : ℤ} {pcm : List Int16}

/-- The frame is found where it was placed. -/
theorem Placed.held_same (hp : Placed j j' ts chIdx pcm) (hts : 0 ≤ ts)
    (hc : 0 ≤ chIdx ∧ chIdx < j.channels) (hfit : pcm.length ≤ j.bufLen) {i : ℕ}
    (hi : i < pcm.length) : j'.held (ts + i) chIdx = pcm[i]? := by
  rw [held, hp.sizes.bufLen, hp.sizes.channels]
  exact cell_writeSamples_same hc hts hfit hp.samples hi

/-- Everything in other slots or of other channels is still there. -/
theorem Placed.held_ne (hp : Placed j j' ts chIdx pcm) (hts : 0 ≤ ts)
    (hc : 0 ≤ chIdx ∧ chIdx < j.channels) {t c : ℤ} (ht : 0 ≤ t) (hc' : 0 ≤ c ∧ c < j.channels)
    (hne : c = chIdx → ∀ i : ℕ, i < pcm.length → t % j.bufLen ≠ (ts + i) % j.bufLen) :
    j'.held t c = j.held t c := by
  rw [held, held, hp.sizes.bufLen, hp.sizes.channels]
  exact cell_writeSamples_ne hc hts hp.samples ht hc' hne

theorem Placed.sound (hp : Placed j j' ts chIdx pcm) (hw : WellSized j) (hts : 0 ≤ ts)
    (hc : 0 ≤ chIdx ∧ chIdx < j.channels) : Sound j' := by
  obtain ⟨buf', hbuf', hlen⟩ :=
    exists_writeSamples pcm hw.bufLen_pos hc hts hw.length_buf
  obtain rfl := Option.some.inj (hp.samples.symm.trans hbuf')
  exact ⟨hw.congr hp.sizes hlen, Or.inr hp.anchored⟩

theorem TakenFrame.sound (ht : TakenFrame j j' out out') (h : Sound j) : Sound j' :=
  ⟨h.toWellSized.congr ht.sizes ht.length_buf,
    Or.inr (ht.anchored (h.anchored_of_started ht.started))⟩

/-- **Calls keep a buffer sound.** -/
theorem Sound.call (h : Sound j) {a : Call} (ha : j.call a = some j') :
    Sound j' ∧ SameSizes j j' := by
  cases a with
  | write frameTs chIdx pcm =>
    rcases writeChannel_cases h frameTs chIdx pcm with ⟨-, hw⟩ | ⟨hacc, k, hw, hp⟩
    · obtain rfl := Option.some.inj (ha.symm.trans hw)
      exact ⟨h, .refl _⟩
    · obtain rfl := Option.some.inj (ha.symm.trans hw)
      have hs := sameSizes_anchor j frameTs.toNat
      exact ⟨hp.sound (h.wellSized_anchor _) (by omega) (by rw [hs.channels]; exact hacc.1),
        hs.trans hp.sizes⟩
  | read out =>
    simp only [JitterBuffer.call] at ha
    rcases readFrame_cases h out with hr | hr | ⟨k, out', hr, ht⟩
    · rw [hr] at ha
      obtain rfl := Option.some.inj ha
      exact ⟨h, .refl _⟩
    · rw [hr] at ha
      obtain rfl := Option.some.inj ha
      refine ⟨⟨h.toWellSized.congr ⟨rfl, rfl, rfl, rfl, rfl⟩ h.length_buf, ?_⟩,
        ⟨rfl, rfl, rfl, rfl, rfl⟩⟩
      exact h.pointers.imp (fun hun => ⟨hun.1, hun.2⟩)
        fun han => ⟨han.1, han.2, han.3, han.4, han.5⟩
    · rw [hr] at ha
      obtain rfl := Option.some.inj ha
      exact ⟨ht.sound h, ht.sizes⟩

/-- **No call panics.** -/
theorem Sound.exists_call (h : Sound j) (a : Call) : ∃ j', j.call a = some j' := by
  cases a with
  | write frameTs chIdx pcm =>
    rcases writeChannel_cases h frameTs chIdx pcm with ⟨-, hw⟩ | ⟨-, k, hw, -⟩
    · exact ⟨j, hw⟩
    · exact ⟨k, hw⟩
  | read out =>
    simp only [JitterBuffer.call]
    rcases readFrame_cases h out with hr | hr | ⟨k, out', hr, -⟩ <;>
      exact ⟨_, by rw [hr]; rfl⟩

end Held

end JitterBuffer

end AmbiRTC
