/-
AmbiRTC/JitterSilence.lean

Missing audio is silence, as long as nothing is stranded.  A slot is cleared
when it is read, and only then.  Two kinds of write leave an audible sample in
a slot that will not be read in this turn of the ring: a frame that is partly
behind the read pointer fills slots already consumed, and a frame that makes
the read pointer snap leaves the skipped samples behind (`Strands`).  A turn
later such a sample is handed out at a position nothing was written for
(`skippedSample_resurfaces`).

In a run without such writes every audible sample of the ring belongs to an
unread position that was written (`Clean`), so `ReadFrame` plays silence
wherever nothing was written.

Main results: `clean_call` (one call) and `silentWhereMissing_of_no_strands`
(every run).
-/
import AmbiRTC.JitterSteps

namespace AmbiRTC

open Runs Ring

namespace JitterBuffer

/-! ### The property -/

/-- Some `WriteChannel` call was made for position `t` of channel `c`. -/
def Covered (calls : List Call) (t c : ℤ) : Prop :=
  ∃ frameTs pcm, Call.write frameTs c pcm ∈ calls ∧
    frameTs.toNat ≤ t ∧ t < frameTs.toNat + pcm.length

/-- Whatever the calls lead to, a frame handed out then is silent where no call
was made for its position. -/
def SilentWhereMissing (j₀ : JitterBuffer) (calls : List Call) : Prop :=
  ∀ j j' out out' (c s : ℕ) v, Run JitterBuffer.call j₀ calls j →
    j.readFrame out = some (j', out', true, false) → c < j₀.channels → s < j₀.frameSize →
    ¬ Covered calls (j.readTs + s) c → sample out' c s = some v → v = 0

/-- Frames of the calls are no longer than `frameSize`. -/
def FramesFit (j₀ : JitterBuffer) (calls : List Call) : Prop :=
  ∀ frameTs chIdx pcm, .write frameTs chIdx pcm ∈ calls → pcm.length ≤ j₀.frameSize

/-- Two frames of a mono buffer, four samples apart, in a ring of three. -/
def jumpingCalls : List Call := [.write 0 0 [7], .write 4 0 [8]]

/-- **A skipped sample resurfaces.**  The second frame makes the read pointer
snap over the first one; a turn later position 3, for which no call was made,
plays its sample. -/
theorem skippedSample_resurfaces :
    ¬ ∀ channels frameSize bufLen prebuffer j₀ calls,
      newJitterBuffer channels frameSize bufLen prebuffer = .ok j₀ →
      j₀.prebuffer + 3 * j₀.frameSize ≤ j₀.bufLen → FramesFit j₀ calls →
      SilentWhereMissing j₀ calls := by
  intro h
  have hfit : FramesFit ⟨1, 1, 3, 0, 2, [0, 0, 0], -1, 0, 0, false, 0, 0⟩ jumpingCalls := by
    intro frameTs chIdx pcm hmem
    simp only [jumpingCalls, List.mem_cons, Call.write.injEq, List.not_mem_nil, or_false] at hmem
    rcases hmem with ⟨-, -, rfl⟩ | ⟨-, -, rfl⟩ <;> decide
  have hrun : Run JitterBuffer.call ⟨1, 1, 3, 0, 2, [0, 0, 0], -1, 0, 0, false, 0, 0⟩ jumpingCalls
      ⟨1, 1, 3, 0, 2, [7, 8, 0], 0, 5, 3, true, 0, 1⟩ := Run.of_exec (by decide)
  have hmissing : ¬ Covered jumpingCalls (3 + (0 : ℕ)) (0 : ℕ) := by
    rintro ⟨frameTs, pcm, hmem, hle, hlt⟩
    simp only [jumpingCalls, List.mem_cons, Call.write.injEq, List.not_mem_nil, or_false] at hmem
    rcases hmem with ⟨rfl, -, rfl⟩ | ⟨rfl, -, rfl⟩
    · revert hlt
      decide
    · revert hle
      decide
  have := h 1 1 3 0 _ jumpingCalls rfl (by decide) hfit _ _ [[5]] [[7]] 0 0 7 hrun rfl (by decide)
    (by decide) hmissing rfl
  exact absurd this (by decide)

/-! ### Writes that strand a sample -/

/-- A sample of the frame itself is audible and behind the read pointer. -/
def FillsConsumed (j : JitterBuffer) (ts : ℤ) (pcm : List Int16) : Prop :=
  ∃ (i : ℕ) (v : Int16), pcm[i]? = some v ∧ v ≠ 0 ∧ ts + i < j.readTs

/-- The frame reaches more than the latency cap ahead of the read pointer, and
some audible sample before the frame boundary playback resumes at is neither
read nor overwritten by the frame. -/
def SkipsAudible (j : JitterBuffer) (ts chIdx : ℤ) (pcm : List Int16) : Prop :=
  j.readTs + j.maxDepth < ts + pcm.length ∧
  ∃ (t c : ℤ) (v : Int16), j.readTs ≤ t ∧ t < j.writeTs ∧
    t < boundary j.initTs j.frameSize (ts + pcm.length - (j.prebuffer + 2 * j.frameSize)) ∧
    (0 ≤ c ∧ c < j.channels) ∧ j.held t c = some v ∧ v ≠ 0 ∧
    (c = chIdx → ∀ i : ℕ, i < pcm.length → t % j.bufLen ≠ (ts + i) % j.bufLen)

/-- The call leaves an audible sample in a slot that is not read in this turn. -/
def Strands (j : JitterBuffer) : Call → Prop
  | .write frameTs chIdx pcm => j.Accepts frameTs chIdx pcm ∧
      ((j.anchor frameTs.toNat).FillsConsumed frameTs.toNat pcm ∨
        (j.anchor frameTs.toNat).SkipsAudible frameTs.toNat chIdx pcm)
  | .read _ => False

/-! ### Clean rings -/

/-- After the calls, every audible sample of the ring belongs to an unread
position that was written. -/
structure Clean (calls : List Call) (j : JitterBuffer) : Prop where
  sound : Sound j
  empty : Unanchored j → ∀ (t c : ℤ) (v : Int16), 0 ≤ t → 0 ≤ c ∧ c < j.channels →
    j.held t c = some v → v = 0
  audible : ∀ (t c : ℤ) (v : Int16), 0 ≤ t → 0 ≤ c ∧ c < j.channels →
    j.held t c = some v → v ≠ 0 →
    ∃ p, p % j.bufLen = t % j.bufLen ∧ j.readTs ≤ p ∧ p < j.writeTs ∧ Covered calls p c

variable {j j' : JitterBuffer} {calls : List Call}

theorem Covered.append {t c : ℤ} (h : Covered calls t c) (a : Call) :
    Covered (calls ++ [a]) t c := by
  obtain ⟨frameTs, pcm, hmem, hrange⟩ := h
  exact ⟨frameTs, pcm, by simp [hmem], hrange⟩

/-- A call that changes neither ring nor pointers keeps the ring clean. -/
theorem Clean.log (h : Clean calls j) (a : Call) : Clean (calls ++ [a]) j := by
  refine ⟨h.sound, h.empty, fun t c v ht hc hv hne => ?_⟩
  obtain ⟨p, hslot, hge, hlt, hcov⟩ := h.audible t c v ht hc hv hne
  exact ⟨p, hslot, hge, hlt, hcov.append a⟩

theorem Clean.underrun (h : Clean calls j) (n : UInt64) :
    Clean calls { j with underruns := n } :=
  ⟨⟨h.sound.toWellSized.congr ⟨rfl, rfl, rfl, rfl, rfl⟩ h.sound.length_buf,
    h.sound.pointers.imp (fun hun => ⟨hun.1, hun.2⟩)
      fun han => ⟨han.1, han.2, han.3, han.4, han.5⟩⟩,
    fun hun => h.empty ⟨hun.1, hun.2⟩, h.audible⟩

/-- Anchoring keeps the ring clean: before the first frame it is silent. -/
theorem Clean.audible_anchor (h : Clean calls j) (ts : ℤ) {t c : ℤ} {v : Int16}
    (ht : 0 ≤ t) (hc : 0 ≤ c ∧ c < j.channels) (hv : j.held t c = some v) (hne : v ≠ 0) :
    ∃ p, p % j.bufLen = t % j.bufLen ∧ (j.anchor ts).readTs ≤ p ∧ p < (j.anchor ts).writeTs ∧
      Covered calls p c := by
  rcases h.sound.pointers with hun | han
  · exact absurd (h.empty hun t c v ht hc hv) hne
  · rw [anchor_of_anchored han]
    exact h.audible t c v ht hc hv hne

/-- A frame no longer than `frameSize` is not skipped by the snap it causes. -/
theorem Placed.readTs_le {ts chIdx : ℤ} {pcm : List Int16}
    (hp : Placed j j' ts chIdx pcm) (hw : WellSized j) (ha : Anchored j)
    (hfit : pcm.length ≤ j.frameSize) : j'.readTs ≤ max j.readTs ts := by
  by_cases hsnap : j.maxDepth < j'.writeTs - j.readTs
  · exact le_max_of_le_right (hp.readTs_le_of_snap hw ha hfit hsnap)
  · rw [hp.readTs_eq, if_neg hsnap]
    exact le_max_left _ _

/-- **A write that strands nothing keeps the ring clean.** -/
theorem clean_write {frameTs : UInt32} {chIdx : ℤ} {pcm : List Int16} (h : Clean calls j)
    (hfit : pcm.length ≤ j.frameSize) (hacc : j.Accepts frameTs chIdx pcm)
    (hp : Placed (j.anchor frameTs.toNat) j' frameTs.toNat chIdx pcm)
    (hstrand : ¬ j.Strands (.write frameTs chIdx pcm)) :
    Clean (calls ++ [.write frameTs chIdx pcm]) j' := by
  have hts : (0 : ℤ) ≤ frameTs.toNat := by omega
  have hs := sameSizes_anchor j frameTs.toNat
  have hk := h.sound.wellSized_anchor frameTs.toNat
  have ha := h.sound.anchored_anchor hts
  have hcap := hk.maxDepth_bounds
  have hpre := hk.prebuffer_nonneg
  have hc : 0 ≤ chIdx ∧ chIdx < (j.anchor frameTs.toNat).channels := by
    rw [hs.channels]
    exact hacc.1
  rw [← hs.frameSize] at hfit
  have hread := hp.readTs_le hk ha hfit
  refine ⟨hp.sound hk hts hc, fun hun => ?_, fun t c v ht hcc hv hne => ?_⟩
  · have := hp.anchored.initTs_nonneg
    rw [hun.initTs_eq] at this
    omega
  rw [hp.sizes.channels] at hcc
  rw [hp.sizes.bufLen]
  by_cases hhit : c = chIdx ∧ ∃ i : ℕ, i < pcm.length ∧
      t % (j.anchor frameTs.toNat).bufLen
        = (frameTs.toNat + i) % (j.anchor frameTs.toNat).bufLen
  · -- a sample of the frame: it is not behind the read pointer, which is not past it
    obtain ⟨rfl, i, hi, hslot⟩ := hhit
    have hsample : pcm[i]? = some v := by
      rw [← hp.held_same hts hc (by omega) hi, ← hv]
      exact cell_congr (by omega) ht (by rw [hp.sizes.bufLen]; exact hslot.symm)
    have hahead : ¬ ((frameTs.toNat : ℤ) + i < (j.anchor frameTs.toNat).readTs) :=
      fun hbehind => hstrand ⟨hacc, Or.inl ⟨i, v, hsample, hne, hbehind⟩⟩
    refine ⟨frameTs.toNat + i, hslot.symm, ?_, ?_, ?_⟩
    · omega
    · rw [hp.writeTs_eq]
      exact lt_max_of_lt_right (by omega)
    · exact ⟨frameTs, pcm, by simp, by omega, by omega⟩
  · -- an older sample: it is not skipped by the snap
    have hmiss : c = chIdx → ∀ i : ℕ, i < pcm.length →
        t % (j.anchor frameTs.toNat).bufLen
          ≠ (frameTs.toNat + i) % (j.anchor frameTs.toNat).bufLen :=
      fun hcc' i hi hslot => hhit ⟨hcc', i, hi, hslot⟩
    have hold : j.held t c = some v := by
      rw [← held_anchor j frameTs.toNat, ← hp.held_ne hts hc ht hcc hmiss]
      exact hv
    obtain ⟨p, hslot, hge, hlt, hcov⟩ :=
      h.audible_anchor frameTs.toNat ht (by rw [← hs.channels]; exact hcc) hold hne
    rw [← hs.bufLen] at hslot
    refine ⟨p, hslot, ?_, ?_, hcov.append _⟩
    · rw [hp.readTs_eq]
      split
      case isTrue hsnap =>
        -- the frontier that made the pointer snap is the frame's own
        have hdepth := ha.depth_le
        have hfront : j'.writeTs = frameTs.toNat + pcm.length := by
          have := hp.writeTs_eq
          omega
        by_contra hskip
        refine hstrand ⟨hacc, Or.inr ⟨by omega, p, c, v, hge, hlt, ?_, hcc, ?_, hne, ?_⟩⟩
        · rw [← hfront]
          exact not_le.mp hskip
        · have hpos := ha.initTs_nonneg.trans (ha.initTs_le.trans hge)
          rw [held_anchor, ← hold]
          exact cell_congr hpos ht (by rw [← hs.bufLen]; exact hslot)
        · rw [hslot]
          exact hmiss
      case isFalse => exact hge
    · rw [hp.writeTs_eq]
      exact lt_max_of_lt_left hlt

/-- **Reading keeps the ring clean.** -/
theorem clean_read {out out' : List (List Int16)} (h : Clean calls j)
    (ht : TakenFrame j j' out out') : Clean calls j' := by
  have ha := h.sound.anchored_of_started ht.started
  have hinit := ha.initTs_nonneg
  refine ⟨ht.sound h.sound, fun hun => ?_, fun t c v htpos hcc hv hne => ?_⟩
  · have := hun.initTs_eq
    rw [ht.initTs_eq] at this
    omega
  · rw [ht.sizes.channels] at hcc
    rw [ht.held_eq t c htpos hcc] at hv
    split at hv
    case isTrue =>
      -- a slot of the frame just read is silent now
      obtain rfl := Option.some.inj hv
      exact absurd rfl hne
    case isFalse hkept =>
      obtain ⟨p, hslot, hge, hlt, hcov⟩ := h.audible t c v htpos hcc hv hne
      rw [ht.sizes.bufLen, ht.readTs_eq, ht.writeTs_eq]
      refine ⟨p, hslot, ?_, hlt, hcov⟩
      -- a position of the frame just read has been cleared
      by_contra hin
      refine hkept ⟨(p - j.readTs).toNat, by omega, ?_⟩
      rw [← hslot]
      congr 1
      omega

/-- **One call that strands nothing keeps the ring clean.** -/
theorem clean_call {a : Call} (h : Clean calls j)
    (hfit : ∀ frameTs chIdx pcm, a = .write frameTs chIdx pcm → pcm.length ≤ j.frameSize)
    (hstrand : ¬ j.Strands a) (hcall : j.call a = some j') : Clean (calls ++ [a]) j' := by
  cases a with
  | write frameTs chIdx pcm =>
    rcases writeChannel_cases h.sound frameTs chIdx pcm with ⟨-, hw⟩ | ⟨hacc, k, hw, hp⟩
    · obtain rfl := Option.some.inj (hcall.symm.trans hw)
      exact h.log _
    · obtain rfl := Option.some.inj (hcall.symm.trans hw)
      exact clean_write h (hfit _ _ _ rfl) hacc hp hstrand
  | read out =>
    simp only [JitterBuffer.call] at hcall
    rcases readFrame_cases h.sound out with hr | hr | ⟨k, out', hr, ht⟩
    · rw [hr] at hcall
      obtain rfl := Option.some.inj hcall
      exact h.log _
    · rw [hr] at hcall
      obtain rfl := Option.some.inj hcall
      exact (h.underrun _).log _
    · rw [hr] at hcall
      obtain rfl := Option.some.inj hcall
      exact (clean_read h ht).log _

/-! ### Runs -/

/-- A new ring is silent. -/
theorem clean_new {channels frameSize bufLen prebuffer : ℤ}
    (hnew : newJitterBuffer channels frameSize bufLen prebuffer = .ok j)
    (hroom : j.prebuffer + 3 * j.frameSize ≤ j.bufLen) : Clean [] j := by
  have hbuf : ∀ v ∈ j.buf, v = 0 := by
    unfold newJitterBuffer at hnew
    split at hnew
    · cases hnew
    split at hnew
    · cases hnew
    obtain rfl := Except.ok.inj hnew
    exact fun v hv => List.eq_of_mem_replicate hv
  have hzero : ∀ (t c : ℤ) (v : Int16), j.held t c = some v → v = 0 :=
    fun t c v hv => hbuf v (mem_of_cell hv)
  exact ⟨sound_of_new hnew hroom, fun _ t c v _ _ hv => hzero t c v hv,
    fun t c v _ _ hv hne => absurd (hzero t c v hv) hne⟩

/-- **Missing audio is silence** in every run of a new buffer with room for the
prebuffer and three frames, none of whose writes strands an audible sample. -/
theorem silentWhereMissing_of_no_strands {channels frameSize bufLen prebuffer : ℤ}
    {j₀ : JitterBuffer} (hnew : newJitterBuffer channels frameSize bufLen prebuffer = .ok j₀)
    (hroom : j₀.prebuffer + 3 * j₀.frameSize ≤ j₀.bufLen) {calls : List Call}
    (hfit : FramesFit j₀ calls)
    (hstrand : Along JitterBuffer.call (fun j a => ¬ j.Strands a) j₀ calls) :
    SilentWhereMissing j₀ calls := by
  intro j j' out out' c s v hrun hread hc hs hmissing hv
  have hinv : SameSizes j₀ j ∧ Clean ([] ++ calls) j := by
    refine hrun.invariant_history (I := fun past k => SameSizes j₀ k ∧ Clean past k)
      (P := fun k a => ¬ k.Strands a ∧ ∀ frameTs chIdx pcm,
        a = .write frameTs chIdx pcm → pcm.length ≤ j₀.frameSize) ?_ ?_
      ⟨.refl _, clean_new hnew hroom⟩
    · rintro past k a k' ⟨hsizes, hk⟩ ⟨hno, hlen⟩ hcall
      rw [← hsizes.frameSize] at hlen
      exact ⟨hsizes.trans (hk.sound.call hcall).2, clean_call hk hlen hno hcall⟩
    · intro as₁ a as₂ k has hk
      exact ⟨hstrand as₁ a as₂ k has hk, fun frameTs chIdx pcm ha =>
        hfit frameTs chIdx pcm (by rw [has, ha]; simp)⟩
  obtain ⟨hsizes, hclean⟩ := hinv
  rw [List.nil_append] at hclean
  rcases readFrame_cases hclean.sound out with hr | hr | ⟨k, out'', hr, ht⟩
  · rw [hr] at hread
    simp at hread
  · rw [hr] at hread
    simp at hread
  · rw [hr] at hread
    simp only [Option.some.injEq, Prod.mk.injEq, and_true] at hread
    obtain ⟨rfl, rfl⟩ := hread
    have ha := hclean.sound.anchored_of_started ht.started
    have hinit := ha.initTs_nonneg
    have hle := ha.initTs_le
    have hdepth := ha.depth_le
    have hcap := hclean.sound.maxDepth_bounds
    have hdepth' := ht.depth
    have hfs := hclean.sound.frameSize_pos
    rw [ht.out_eq, hsizes.channels, hsizes.frameSize, if_pos ⟨hc, hs⟩] at hv
    obtain ⟨w, -, hheld⟩ := Option.bind_eq_some_iff.mp hv
    -- an audible sample would belong to an unread position in the same slot, that is to this one
    by_contra hne
    obtain ⟨p, hslot, hge, hlt, hcov⟩ := hclean.audible _ _ v (by omega)
      (by rw [hsizes.channels]; omega) hheld hne
    have hp : p = j.readTs + s := by
      have hs' := hs
      rw [← hsizes.frameSize] at hs'
      exact eq_of_emod_eq hslot (by omega) (by omega)
    rw [hp] at hcov
    exact hmissing hcov

/-- The frame starts at or ahead of the read pointer, and it stays below the
latency cap or finds nothing unread. -/
def staysOrSkipsNothing (j : JitterBuffer) : Call → Bool
  | .write frameTs _ pcm =>
      let j := j.anchor frameTs.toNat
      decide (j.readTs ≤ frameTs.toNat) &&
        (decide ((frameTs.toNat : ℤ) + pcm.length ≤ j.readTs + j.maxDepth) ||
          decide (j.writeTs ≤ j.readTs))
  | .read _ => true

theorem not_strands_of_stays (j : JitterBuffer) (a : Call) (h : j.staysOrSkipsNothing a = true) :
    ¬ j.Strands a := by
  cases a with
  | read out => exact id
  | write frameTs chIdx pcm =>
    simp only [staysOrSkipsNothing, Bool.and_eq_true, Bool.or_eq_true, decide_eq_true_eq] at h
    obtain ⟨hahead, hcap⟩ := h
    rintro ⟨-, ⟨i, v, -, -, hbehind⟩ | ⟨hdeep, t, c, v, hge, hlt, -⟩⟩
    · omega
    · rcases hcap with hcap | hcap <;> omega

/-- A new stereo buffer of eight samples, for frames of two. -/
def stereoRing : JitterBuffer :=
  ⟨2, 2, 8, 0, 6, [0, 0, 0, 0, 0, 0, 0, 0, 0, 0, 0, 0, 0, 0, 0, 0], -1, 0, 0, false, 0, 0⟩

/-- The second channel is missing at first, then the frame at 2 and, after a
jump of the read pointer over silence, the frames at 6 to 12. -/
def gappedCalls : List Call :=
  [.write 0 0 [7, 7], .read [[1, 1], [1, 1]], .write 4 0 [8, 8], .write 4 1 [5, 5],
    .read [[1, 1], [1, 1]], .read [[1, 1], [1, 1]], .write 14 0 [9, 9]]

/-- The frame handed out next starts at 12: it was skipped to, nobody wrote it,
and its slots are those of the frame at 4. -/
theorem silentWhereMissing_gapped :
    (∃ j j', Run JitterBuffer.call stereoRing gappedCalls j ∧ j.readTs = 12 ∧
      j.readFrame [[1, 1], [1, 1]] = some (j', [[0, 0], [0, 0]], true, false)) ∧
    SilentWhereMissing stereoRing gappedCalls := by
  refine ⟨⟨_, _, .of_exec rfl, rfl, rfl⟩,
    silentWhereMissing_of_no_strands (show newJitterBuffer 2 2 8 0 = .ok _ from rfl) (by decide) ?_
      (along_of_check not_strands_of_stays (by decide))⟩
  intro frameTs chIdx pcm hmem
  simp only [gappedCalls, List.mem_cons, Call.write.injEq, List.not_mem_nil, or_false, false_or,
    reduceCtorEq] at hmem
  rcases hmem with ⟨-, -, rfl⟩ | ⟨-, -, rfl⟩ | ⟨-, -, rfl⟩ | ⟨-, -, rfl⟩ <;> decide

end JitterBuffer

end AmbiRTC
