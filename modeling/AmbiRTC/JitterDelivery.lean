/-
AmbiRTC/JitterDelivery.lean

Delivered audio is intact.  What the buffer is for is a timeline: for every
channel and every absolute position, the sample that the most recent accepted
write placed there.  The ring refines it: from the read pointer on, the slot of
a position holds the sample of the timeline (`Intact`), as long as no frame is
longer than what the latency cap leaves free of the ring.

Two positions share a slot when they are a multiple of the ring length apart.
A write that is not dropped ends after the read pointer, so it reaches back
less than its own length, and not to the slot of an unread position one turn
later; a write further ahead than the ring makes the read pointer snap past
every position whose slot it took.

Main results: `intact_call` (one call) and `readFrame_delivers` (every run).
-/
import AmbiRTC.JitterSteps

namespace AmbiRTC

open Runs Ring

namespace JitterBuffer

/-! ### The timeline -/

/-- The sample that belongs at each position of each channel, if any. -/
abbrev Timeline := ℤ → ℤ → Option Int16

/-- Place a frame of channel `chIdx` from `ts` on. -/
def Timeline.place (timeline : Timeline) (ts chIdx : ℤ) (pcm : List Int16) : Timeline :=
  fun t c =>
    if c = chIdx ∧ ts ≤ t ∧ t < ts + pcm.length then pcm[(t - ts).toNat]? else timeline t c

/-- A buffer together with what its accepted writes have placed so far. -/
structure Traced where
  jitter : JitterBuffer
  timeline : Timeline

/-- A call, with its effect on the timeline. -/
def Traced.call (x : Traced) (a : Call) : Option Traced := do
  let jitter ← x.jitter.call a
  return {
    jitter
    timeline := match a with
      | .write frameTs chIdx pcm =>
        if x.jitter.Accepts frameTs chIdx pcm then x.timeline.place frameTs.toNat chIdx pcm
        else x.timeline
      | .read _ => x.timeline }

/-! ### The ring refines the timeline -/

/-- From the read pointer on, the ring holds what the timeline says. -/
structure Intact (x : Traced) : Prop where
  sound : Sound x.jitter
  empty : Unanchored x.jitter → ∀ t c, x.timeline t c = none
  held : ∀ (t c : ℤ) (v : Int16), x.jitter.readTs ≤ t → 0 ≤ t → 0 ≤ c ∧ c < x.jitter.channels →
    x.timeline t c = some v → t < x.jitter.writeTs ∧ x.jitter.held t c = some v

/-- Anchoring keeps the ring in step with the timeline: it moves the pointers
only while nothing has been placed. -/
theorem Intact.held_anchor {x : Traced} (h : Intact x) (ts : ℤ) {t c : ℤ} {v : Int16}
    (hread : (x.jitter.anchor ts).readTs ≤ t) (ht : 0 ≤ t)
    (hc : 0 ≤ c ∧ c < x.jitter.channels) (hv : x.timeline t c = some v) :
    t < (x.jitter.anchor ts).writeTs ∧ (x.jitter.anchor ts).held t c = some v := by
  rcases h.sound.pointers with hun | han
  · rw [h.empty hun] at hv
    cases hv
  · rw [anchor_of_anchored han] at hread ⊢
    exact h.held t c v hread ht hc hv

/-- Slots of unread positions are not hit by an accepted write for another
position: it starts less than a ring before them, and if it ends a ring after
them the read pointer has moved on. -/
theorem Placed.ne_slot {j j' : JitterBuffer} {ts chIdx : ℤ} {pcm : List Int16}
    (hp : Placed j j' ts chIdx pcm) (hw : WellSized j) (ha : Anchored j)
    (hlate : j.readTs < ts + pcm.length) (hfit : pcm.length ≤ j.bufLen - j.maxDepth)
    {t : ℤ} (hread : j'.readTs ≤ t) (hwrite : t < j.writeTs)
    (hout : ¬(ts ≤ t ∧ t < ts + pcm.length)) :
    ∀ i : ℕ, i < pcm.length → t % j.bufLen ≠ (ts + i) % j.bufLen := by
  intro i hi hslot
  have hdepth := ha.depth_le
  have hdepth' := hp.anchored.depth_le
  have hcap := hw.maxDepth_bounds
  have hfs := hw.frameSize_pos
  rw [hp.sizes.maxDepth] at hdepth'
  have hne : t ≠ ts + i := by
    rintro rfl
    exact hout ⟨by omega, by omega⟩
  rcases turn_apart hslot hne with hahead | hbehind
  · -- a turn ahead of `t`: the frontier is too, so `t` is behind the read pointer
    have hfront : ts + pcm.length ≤ j'.writeTs := by
      rw [hp.writeTs_eq]
      exact le_max_right _ _
    omega
  · -- a turn behind `t`: the frame would end at or before the read pointer
    omega

/-- **One call keeps the ring intact.** -/
theorem intact_call {x x' : Traced} {a : Call} (h : Intact x)
    (hfit : ∀ frameTs chIdx pcm, a = .write frameTs chIdx pcm →
      (pcm.length : ℤ) ≤ x.jitter.bufLen - x.jitter.maxDepth)
    (hcall : x.call a = some x') : Intact x' := by
  obtain ⟨j, hj, hx'⟩ := Option.bind_eq_some_iff.mp hcall
  obtain rfl := Option.some.inj hx'
  have hsound := h.sound.call hj
  cases a with
  | write frameTs chIdx pcm =>
    rcases writeChannel_cases h.sound frameTs chIdx pcm with ⟨hno, hw⟩ | ⟨hacc, j', hw, hp⟩
    · obtain rfl := Option.some.inj (hj.symm.trans hw)
      exact ⟨h.sound, by simpa [hno] using h.empty, by simpa [hno] using h.held⟩
    obtain rfl := Option.some.inj (hj.symm.trans hw)
    have hts : (0 : ℤ) ≤ frameTs.toNat := by omega
    have hs := sameSizes_anchor x.jitter frameTs.toNat
    have hk := h.sound.wellSized_anchor frameTs.toNat
    have ha := h.sound.anchored_anchor hts
    have hcap := hk.maxDepth_bounds
    have hpre := hk.prebuffer_nonneg
    have hlen := hfit frameTs chIdx pcm rfl
    have hc : 0 ≤ chIdx ∧ chIdx < (x.jitter.anchor frameTs.toNat).channels := by
      rw [hs.channels]
      exact hacc.1
    rw [← hs.bufLen, ← hs.maxDepth] at hlen
    refine ⟨hsound.1, fun hun => ?_, fun t c v hread ht hcc hv => ?_⟩
    · -- an accepted write anchors the buffer
      have := hp.anchored.initTs_nonneg
      rw [hun.initTs_eq] at this
      omega
    simp only [if_pos hacc, Timeline.place] at hv
    rw [hsound.2.channels] at hcc
    rw [hp.writeTs_eq]
    split at hv
    case isTrue hin =>
      -- a sample of this very frame
      obtain ⟨rfl, hge, hlt⟩ := hin
      obtain ⟨i, hi⟩ : ∃ i : ℕ, t = frameTs.toNat + i := ⟨(t - frameTs.toNat).toNat, by omega⟩
      refine ⟨lt_max_of_lt_right hlt, ?_⟩
      rw [hi, hp.held_same hts hc (by omega) (by omega), ← hv]
      congr 1
      omega
    case isFalse hout =>
      -- an older sample: it is unread, and its slot is not hit
      have hread' : (x.jitter.anchor frameTs.toNat).readTs ≤ t := by
        rw [hp.readTs_eq] at hread
        split at hread
        · -- the snap only moves the read pointer forward
          have hback := (boundary_spec (x.jitter.anchor frameTs.toNat).initTs hk.frameSize_pos
            (j.writeTs - ((x.jitter.anchor frameTs.toNat).prebuffer
              + 2 * (x.jitter.anchor frameTs.toNat).frameSize))).1
          omega
        · exact hread
      obtain ⟨hwrite, hheld⟩ := h.held_anchor frameTs.toNat hread' ht hcc hv
      refine ⟨lt_max_of_lt_left hwrite, ?_⟩
      rw [hp.held_ne hts hc ht (by rw [hs.channels]; exact hcc)]
      · exact hheld
      · rintro rfl
        exact hp.ne_slot hk ha hacc.2.2 hlen hread hwrite fun hin => hout ⟨rfl, hin⟩
  | read out =>
    simp only [JitterBuffer.call] at hj
    rcases readFrame_cases h.sound out with hr | hr | ⟨j', out', hr, ht⟩
    · rw [hr] at hj
      obtain rfl := Option.some.inj hj
      exact ⟨h.sound, h.empty, h.held⟩
    · rw [hr] at hj
      obtain rfl := Option.some.inj hj
      exact ⟨hsound.1, fun hun => h.empty ⟨hun.1, hun.2⟩, h.held⟩
    · rw [hr] at hj
      obtain rfl := Option.some.inj hj
      have ha := h.sound.anchored_of_started ht.started
      have hinit := ha.initTs_nonneg
      have hle := ha.initTs_le
      have hdepth := ha.depth_le
      have hcap := h.sound.maxDepth_bounds
      have hfs := h.sound.frameSize_pos
      refine ⟨hsound.1, fun hun => ?_, fun t c v hread htpos hcc hv => ?_⟩
      · have := hun.initTs_eq
        simp only at this
        rw [ht.initTs_eq] at this
        omega
      · simp only at hread hcc hv ⊢
        rw [ht.readTs_eq] at hread
        rw [ht.sizes.channels] at hcc
        obtain ⟨hwrite, hheld⟩ := h.held t c v (by omega) htpos hcc hv
        rw [ht.writeTs_eq, ht.held_eq t c htpos hcc, if_neg]
        · exact ⟨hwrite, hheld⟩
        · -- the cleared slots are those of the frame just read, less than a ring back
          rintro ⟨s, hs, hslot⟩
          have := eq_of_emod_eq hslot (by omega) (by omega)
          omega

/-! ### Runs -/

theorem intact_new {channels frameSize bufLen prebuffer : ℤ} {j : JitterBuffer}
    (hnew : newJitterBuffer channels frameSize bufLen prebuffer = .ok j)
    (hroom : j.prebuffer + 3 * j.frameSize ≤ j.bufLen) : Intact ⟨j, fun _ _ => none⟩ :=
  ⟨sound_of_new hnew hroom, fun _ _ _ => rfl, fun _ _ _ _ _ _ hv => by cases hv⟩

/-- **Delivered audio is intact.**  In every run of a new buffer with room for
the prebuffer and three frames, whose frames fit beside the latency cap, a frame
that `ReadFrame` hands out has at every sample the most recent one that was
placed there. -/
theorem readFrame_delivers {channels frameSize bufLen prebuffer : ℤ} {j₀ : JitterBuffer}
    (hnew : newJitterBuffer channels frameSize bufLen prebuffer = .ok j₀)
    (hroom : j₀.prebuffer + 3 * j₀.frameSize ≤ j₀.bufLen) {calls : List Call} {x : Traced}
    (hfit : ∀ frameTs chIdx pcm, .write frameTs chIdx pcm ∈ calls →
      (pcm.length : ℤ) ≤ j₀.bufLen - j₀.maxDepth)
    (hrun : Run Traced.call ⟨j₀, fun _ _ => none⟩ calls x)
    {out out' : List (List Int16)} {j' : JitterBuffer}
    (hread : x.jitter.readFrame out = some (j', out', true, false))
    {c s : ℕ} (hc : c < j₀.channels) (hs : s < j₀.frameSize) {v : Int16}
    (hplaced : x.timeline (x.jitter.readTs + s) c = some v)
    (hout : (sample out c s).isSome) : sample out' c s = some v := by
  -- the invariant is carried through the run; every frame of it fits the ring
  have hinv : SameSizes j₀ x.jitter ∧ Intact x := by
    refine hrun.invariant_of_along (P := fun _ a => ∀ frameTs chIdx pcm,
        a = .write frameTs chIdx pcm → (pcm.length : ℤ) ≤ j₀.bufLen - j₀.maxDepth)
      (I := fun y => SameSizes j₀ y.jitter ∧ Intact y) ?_ ?_ ⟨.refl _, intact_new hnew hroom⟩
    · rintro y a y' ⟨hsizes, hy⟩ hlen hcall
      obtain ⟨j, hj, hy'⟩ := Option.bind_eq_some_iff.mp hcall
      obtain rfl := Option.some.inj hy'
      refine ⟨hsizes.trans (hy.sound.call hj).2, intact_call hy ?_ hcall⟩
      rw [hsizes.bufLen, hsizes.maxDepth]
      exact hlen
    · intro as₁ a as₂ y has _ frameTs chIdx pcm ha
      exact hfit frameTs chIdx pcm (by rw [has, ha]; simp)
  obtain ⟨hsizes, hintact⟩ := hinv
  have hsound := hintact.sound
  rcases readFrame_cases hsound out with hr | hr | ⟨k, out'', hr, ht⟩
  · rw [hr] at hread
    simp at hread
  · rw [hr] at hread
    simp at hread
  · rw [hr] at hread
    simp only [Option.some.injEq, Prod.mk.injEq, and_true] at hread
    obtain ⟨rfl, rfl⟩ := hread
    -- a read that hands out a frame: the slots it copies hold what was placed there
    have ha := hsound.anchored_of_started ht.started
    have hinit := ha.initTs_nonneg
    have hle := ha.initTs_le
    have hheld := (hintact.held _ _ _ (by omega) (by omega)
      (by rw [hsizes.channels]; omega) hplaced).2
    obtain ⟨w, hw⟩ := Option.isSome_iff_exists.mp hout
    rw [ht.out_eq, hsizes.channels, hsizes.frameSize, if_pos ⟨hc, hs⟩, hw, Option.bind_some,
      hheld]

/-- Two channels of one frame, handed out as they were placed. -/
theorem readFrame_delivers_stereo :
    ∃ x j', Run Traced.call ⟨⟨2, 1, 3, 0, 2, [0, 0, 0, 0, 0, 0], -1, 0, 0, false, 0, 0⟩,
        fun _ _ => none⟩ [.write 6 0 [9], .write 6 1 [4]] x ∧
      x.jitter.readFrame [[0], [0]] = some (j', [[9], [4]], true, false) ∧
      sample [[9], [4]] 1 0 = some 4 := by
  refine ⟨_, _, Run.of_exec rfl, rfl, ?_⟩
  refine readFrame_delivers (show newJitterBuffer 2 1 3 0 = .ok _ from rfl) (by decide)
    ?_ (show Run _ _ [.write 6 0 [9], .write 6 1 [4]] _ from Run.of_exec rfl)
    (show JitterBuffer.readFrame _ [[0], [0]] = _ from rfl) (by decide) (by decide) rfl rfl
  intro frameTs chIdx pcm hmem
  simp only [List.mem_cons, Call.write.injEq, List.not_mem_nil, or_false] at hmem
  rcases hmem with ⟨-, -, rfl⟩ | ⟨-, -, rfl⟩ <;> decide

end JitterBuffer

end AmbiRTC
