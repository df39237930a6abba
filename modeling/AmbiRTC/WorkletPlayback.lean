/-
AmbiRTC/WorkletPlayback.lean

The playback worklet plays what was posted, as long as nothing is stranded.  A
slot is cleared when it is played, and only then.  A frame that makes the read
pointer snap leaves the samples skipped over in the ring (`Strands`); a turn
later such a sample is played at a position no frame was posted for
(`staleSample_played`).

In a run without such frames an audible sample of the ring belongs to a
position still to be played, and every position between the pointers holds the
sample of its frame, or silence (`InStep`).

Main results: `InStep.placed` and `InStep.played` (one frame, one block), and
`playsPosted_of_no_strands` for every run; `exists_run`, that runs go through.
-/
import AmbiRTC.WorkletSteps
import Mathlib.Data.List.Induction

namespace AmbiRTC.Playback

open Runs Ring

variable {α : Type*}

namespace ReceiverProcessor

/-! ### The property -/

/-- The frames posted since the last reanchor, after one more call. -/
def record (fs : List (PostedFrame α)) : Call α → List (PostedFrame α)
  | .frame f => fs ++ [f]
  | .reanchor => []
  | .config _ _ => fs
  | .process _ => fs

/-- The frames posted since the last reanchor. -/
def posted (calls : List (Call α)) : List (PostedFrame α) := calls.foldl record []

@[simp] theorem posted_concat (calls : List (Call α)) (a : Call α) :
    posted (calls ++ [a]) = record (posted calls) a := by
  rw [posted, List.foldl_append]
  rfl

/-- `v` is what channel `c` should play at `t`: the sample of the frame that
covers `t`, or silence. -/
structure Due [Zero α] (fs : List (PostedFrame α)) (t : ℤ) (c : Fin CHANNELS) (v : α) : Prop where
  covered : ∀ f ∈ fs, ∀ s : Fin f.frameSize, t = f.timestamp + s.val → v = f.channels c s
  missing : (∀ f ∈ fs, ∀ s : Fin f.frameSize, t ≠ f.timestamp + s.val) → v = 0

/-- Every sample of every block that is played, on every channel there is an output
for, is the one due. -/
def PlaysPosted [Zero α] (w₀ : ReceiverProcessor α) (calls : List (Call α)) : Prop :=
  ∀ as₁ block rest as₂ w, calls = as₁ ++ .process (block :: rest) :: as₂ →
    Run call w₀ as₁ w → w.Plays block →
    ∃ w' out' posts, w.process (block :: rest) = some (w', out', posts) ∧
      ∀ (c : Fin CHANNELS) (s : ℕ) (x : α), s < block.length →
        planeSample (block :: rest) c.val s = some x →
        ∃ v, planeSample out' c.val s = some v ∧ Due (posted as₁) (w.readTs + s) c v

/-- What the main thread may post after the frames `fs`: a later frame on the
grid, or a prebuffer that leaves the ring its room. -/
def Admits (w₀ : ReceiverProcessor α) (fs : List (PostedFrame α)) : Call α → Prop
  | .frame f => f.frameSize = w₀.frameSize ∧
      ∀ g ∈ fs, g.timestamp < f.timestamp ∧ w₀.frameSize ∣ f.timestamp - g.timestamp
  | .reanchor => True
  | .config frameSize prebuffer => (∀ n ∈ frameSize, n = w₀.frameSize) ∧
      ∀ n ∈ prebuffer, n + 7 * w₀.frameSize < w₀.bufLen
  | .process _ => True

/-- Every call is admitted after those before it. -/
def Admissible (w₀ : ReceiverProcessor α) (calls : List (Call α)) : Prop :=
  ∀ as₁ a as₂, calls = as₁ ++ a :: as₂ → Admits w₀ (posted as₁) a

theorem admissible_nil (w₀ : ReceiverProcessor α) : Admissible w₀ [] := by
  intro as₁ a as₂ h
  simp at h

theorem Admissible.concat {w₀ : ReceiverProcessor α} {calls : List (Call α)} {a : Call α}
    (h : Admissible w₀ calls) (ha : Admits w₀ (posted calls) a) : Admissible w₀ (calls ++ [a]) := by
  intro as₁ b as₂ heq
  rcases concat_eq_append_cons heq with ⟨rfl, rfl, -⟩ | ⟨as₃, -, rfl⟩
  · exact ha
  · exact h as₁ b as₃ rfl

instance (w₀ : ReceiverProcessor α) (fs : List (PostedFrame α)) (a : Call α) :
    Decidable (Admits w₀ fs a) :=
  match a with
  | .frame _ => inferInstanceAs (Decidable (_ ∧ ∀ g ∈ fs, _))
  | .reanchor => inferInstanceAs (Decidable True)
  | .config frameSize prebuffer =>
    inferInstanceAs (Decidable ((∀ n ∈ frameSize, _) ∧ ∀ n ∈ prebuffer, _))
  | .process _ => inferInstanceAs (Decidable True)

/-- `Admissible`, call by call. -/
theorem admissible_of_get {w₀ : ReceiverProcessor α} {calls : List (Call α)}
    (h : ∀ i : Fin calls.length, Admits w₀ (posted (calls.take i)) calls[i]) :
    Admissible w₀ calls := by
  intro as₁ a as₂ hcalls
  have hlt : as₁.length < calls.length := by
    rw [hcalls, List.length_append, List.length_cons]
    omega
  have ha := h ⟨as₁.length, hlt⟩
  simpa [hcalls] using ha

/-- A 20 ms frame at 48 kHz, the same sample throughout. -/
def steadyFrame (timestamp : ℕ) (v : ℤ) : PostedFrame ℤ := ⟨timestamp, 960, fun _ _ => v⟩

/-- A render quantum. -/
def quantum : List ℤ := List.replicate 128 0

theorem length_quantum : quantum.length = 128 := List.length_replicate

/-- A frame, one that comes 103 frames later, and a block. -/
def skippingCalls : List (Call ℤ) :=
  [.frame (steadyFrame 0 7), .frame (steadyFrame 98880 8), .process [quantum]]

/-- A worklet at 48 kHz expects 20 ms frames, so a first configuration for them
sets the prebuffer only. -/
theorem config_new_eq (prebuffer : ℕ) : (new ℤ 48000).config (some 960) (some prebuffer)
    = { new ℤ 48000 with prebuffer := prebuffer } :=
  config_of_eq (fun _ hn => (Option.some.inj hn).symm) _

theorem admissible_skipping {w₀ : ReceiverProcessor ℤ} (hsize : w₀.frameSize = 960) :
    Admissible w₀ skippingCalls := by
  refine (((admissible_nil w₀).concat (a := .frame (steadyFrame 0 7)) ⟨hsize.symm, ?_⟩).concat
    (a := .frame (steadyFrame 98880 8)) ⟨hsize.symm, ?_⟩).concat (a := .process [quantum]) trivial
  · intro g hg
    cases hg
  · intro g hg
    obtain rfl := List.mem_singleton.mp hg
    rw [hsize]
    decide

/-- The second frame makes the read pointer snap to 96000, a turn past the first
one, whose samples are still there. -/
theorem snap_skipping {w₀ : ReceiverProcessor ℤ}
    (hw₀ : w₀ = (new ℤ 48000).config (some 960) (some 1920)) :
    ∃ w, Run call w₀ [.frame (steadyFrame 0 7), .frame (steadyFrame 98880 8)] w ∧
      w.started = true ∧ w.readTs = 96000 ∧ w.writeTs = 99840 ∧ w.bufLen = 96000 ∧
      w.buf.length = w.bufLen * CHANNELS ∧ ∀ c, w.held 96000 c = some 7 := by
  have hzero : ((steadyFrame 0 7).timestamp : ℤ) = 0 := rfl
  have hnext : ((steadyFrame 98880 8).timestamp : ℤ) = 98880 := rfl
  have hsize : (steadyFrame 0 7).frameSize = 960 := rfl
  have hsize' : (steadyFrame 98880 8).frameSize = 960 := rfl
  rw [config_new_eq] at hw₀
  have hfresh : w₀.bufLen = 96000 ∧ w₀.frameSize = 960 ∧ w₀.prebuffer = 1920 ∧ w₀.initTs < 0 := by
    rw [hw₀]
    exact ⟨rfl, rfl, rfl, by decide⟩
  obtain ⟨hL, hfs, hpre, hinit⟩ := hfresh
  have hanchor : w₀.anchor 0 = { w₀ with initTs := 0, readTs := 0, writeTs := 0 } := if_pos hinit
  -- the first frame: too shallow to snap or to start
  obtain ⟨w₁, hw₁, hp₁⟩ := @writeFrame_placed _ w₀ (steadyFrame 0 7) (by omega)
    (by rw [hw₀]; exact List.length_replicate) (by omega) (by rw [hzero, hanchor])
  rw [hzero, hanchor] at hp₁
  have hread₁ : w₁.readTs = 0 := by
    rw [hp₁.readTs_eq, if_neg]
    simp only [maxDepth, hzero, hsize]
    omega
  have hanchor₁ : w₁.anchor 98880 = w₁ := if_neg (by rw [hp₁.initTs_eq]; exact lt_irrefl (0 : ℤ))
  have hL₁ : w₁.bufLen = 96000 := hp₁.sizes.bufLen.trans hL
  have hfs₁ : w₁.frameSize = 960 := hp₁.sizes.frameSize.trans hfs
  have hpre₁ : w₁.prebuffer = 1920 := hp₁.sizes.prebuffer.trans hpre
  -- the second frame: 99840 samples deep
  obtain ⟨w₂, hw₂, hp₂⟩ := @writeFrame_placed _ w₁ (steadyFrame 98880 8) (by omega)
    (by rw [hp₁.length_buf, hL₁, hL]) (by omega)
    (by rw [hnext, hanchor₁, hp₁.writeTs_eq, hzero, hsize]; decide)
  rw [hnext, hanchor₁] at hp₂
  have hwrite₂ : w₂.writeTs = 99840 := by rw [hp₂.writeTs_eq, hnext, hsize']; rfl
  have hread₂ : w₂.readTs = 96000 := by
    rw [hp₂.readTs_eq, if_pos]
    · simp only [snapTarget, hnext, hsize']
      omega
    · simp only [maxDepth, hnext, hsize']
      omega
  have hcall₁ : call w₀ (.frame (steadyFrame 0 7)) = some w₁ := by
    rw [call, hw₁, Option.map_some]
  have hcall₂ : call w₁ (.frame (steadyFrame 98880 8)) = some w₂ := by
    rw [call, hw₂, Option.map_some]
  refine ⟨w₂, .cons hcall₁ (.cons hcall₂ (.nil w₂)), ?_, hread₂, hwrite₂, ?_, ?_, fun c => ?_⟩
  · rw [hp₂.started_eq, hread₂, hwrite₂, hpre₁]
    simp
  · rw [hp₂.sizes.bufLen, hL₁]
  · rw [hp₂.length_buf, hp₂.sizes.bufLen]
  · have hslot : (96000 : ℤ) % w₁.bufLen = 0 % w₁.bufLen := by
      rw [hL₁]
      rfl
    rw [hp₂.held_ne 96000 c (by decide), held_congr (by decide) (le_refl 0) c hslot]
    · exact hp₁.held_same ⟨0, by decide⟩ c
    · intro s
      have := s.isLt
      rw [hL₁, hnext]
      omega

/-- **A skipped sample is played a turn later**, at a position no frame was
posted for. -/
theorem staleSample_played :
    ¬ ∀ (sampleRate : ℕ) (frameSize prebuffer : Option ℕ) (w₀ : ReceiverProcessor ℤ)
      (calls : List (Call ℤ)), w₀ = (new ℤ sampleRate).config frameSize prebuffer →
      w₀.prebuffer + 7 * w₀.frameSize < w₀.bufLen → Admissible w₀ calls →
      PlaysPosted w₀ calls := by
  intro h
  obtain ⟨w₀, hw⟩ : ∃ w₀, w₀ = (new ℤ 48000).config (some 960) (some 1920) := ⟨_, rfl⟩
  obtain ⟨w, hrun, hstarted, hread, hwrite, hL, hlen, hheld⟩ := snap_skipping hw
  have hplays : w.Plays quantum := ⟨hstarted, by rw [hread, hwrite, length_quantum]; decide⟩
  obtain ⟨w', out', posts, hp, hdue⟩ := h 48000 _ _ w₀ skippingCalls hw
    (by rw [hw, config_new_eq]; decide) (admissible_skipping (by rw [hw, config_new_eq]; rfl))
    _ quantum [] [] w rfl hrun hplays
  rcases process_cases (by omega) hlen (by omega) (by omega) quantum []
    with ⟨hwait, -⟩ | ⟨-, w'', out'', posts', hp', hplayed⟩
  · exact hwait hplays
  · rw [hp] at hp'
    obtain ⟨rfl, rfl, rfl⟩ : w' = w'' ∧ out' = out'' ∧ posts = posts' := by simpa using hp'
    have hout := hplayed.out_eq ⟨0, by decide⟩ 0 (by rw [length_quantum]; decide)
    rw [hread, Nat.cast_zero, add_zero, hheld] at hout
    obtain ⟨v, hv, hdue⟩ := hdue ⟨0, by decide⟩ 0 0 (by rw [length_quantum]; decide) rfl
    obtain rfl := Option.some.inj (hv.symm.trans hout)
    have hmissing := hdue.missing
    rw [hread] at hmissing
    refine absurd (hmissing fun f hf s => ?_) (by decide)
    have := s.isLt
    rcases List.mem_cons.mp hf with rfl | hf
    · show (96000 + (0 : ℕ) : ℤ) ≠ (0 : ℕ) + s.val
      have : s.val < 960 := s.isLt
      omega
    · obtain rfl := List.mem_singleton.mp hf
      show (96000 + (0 : ℕ) : ℤ) ≠ (98880 : ℕ) + s.val
      omega

/-! ### Frames that strand a sample -/

variable [Zero α]

/-- The frame leads to a frontier above the latency cap, and some audible sample
the read pointer then jumps over is not overwritten by the frame. -/
def SkipsAudible (w : ReceiverProcessor α) (f : PostedFrame α) : Prop :=
  f.timestamp + f.frameSize - w.readTs > w.maxDepth ∧
  ∃ (t : ℤ) (c : Fin CHANNELS) (v : α), w.readTs ≤ t ∧ t < w.writeTs ∧
    t < w.snapTarget (f.timestamp + f.frameSize) ∧ w.held t c = some v ∧ v ≠ 0 ∧
    ∀ s : Fin f.frameSize, t % w.bufLen ≠ (f.timestamp + s.val) % w.bufLen

/-- The call leaves an audible sample in a slot that is not played in this turn. -/
def Strands (w : ReceiverProcessor α) : Call α → Prop
  | .frame f => (w.anchor f.timestamp).SkipsAudible f
  | .reanchor => False
  | .config _ _ => False
  | .process _ => False

/-! ### Rings in step with the frames -/

/-- The ring holds what is due between the pointers, and nothing audible
elsewhere. -/
structure InStep (fs : List (PostedFrame α)) (w : ReceiverProcessor α) : Prop where
  length_buf : w.buf.length = w.bufLen * CHANNELS
  room : w.prebuffer + 7 * w.frameSize < w.bufLen
  readTs_nonneg : 0 ≤ w.readTs
  readTs_le : w.readTs ≤ w.writeTs
  depth : w.writeTs - w.readTs + w.frameSize < w.bufLen
  ended : ∀ f ∈ fs, (f.timestamp + f.frameSize : ℤ) ≤ w.writeTs
  due : ∀ (t : ℤ) (c : Fin CHANNELS) (v : α), w.readTs ≤ t → t < w.writeTs →
    w.held t c = some v → Due fs t c v
  audible : ∀ (t : ℤ) (c : Fin CHANNELS) (v : α), 0 ≤ t → w.held t c = some v → v ≠ 0 →
    ∃ p, p % w.bufLen = t % w.bufLen ∧ w.readTs ≤ p ∧ p < w.writeTs

variable {w w' : ReceiverProcessor α} {fs : List (PostedFrame α)} {f : PostedFrame α}

theorem InStep.bufLen_pos (h : InStep fs w) : 0 < w.bufLen := by
  have := h.room
  omega

/-- A frame past `t` does not change what is due at `t`. -/
theorem Due.append {t : ℤ} {c : Fin CHANNELS} {v : α} (h : Due fs t c v) (hpast : t < f.timestamp) :
    Due (fs ++ [f]) t c v := by
  refine ⟨fun g hg s hs => ?_, fun hmiss => h.missing fun g hg => hmiss g (by simp [hg])⟩
  rcases List.mem_append.mp hg with hg | hg
  · exact h.covered g hg s hs
  · obtain rfl := List.mem_singleton.mp hg
    omega

/-- Silence is due where all frames have ended, and none has begun. -/
theorem due_gap {t : ℤ} {c : Fin CHANNELS}
    (hended : ∀ g ∈ fs, (g.timestamp + g.frameSize : ℤ) ≤ t) (hpast : t < f.timestamp) :
    Due (fs ++ [f]) t c (0 : α) := by
  refine ⟨fun g hg s hs => ?_, fun _ => rfl⟩
  rcases List.mem_append.mp hg with hg | hg
  · have := hended g hg
    have := s.isLt
    omega
  · obtain rfl := List.mem_singleton.mp hg
    omega

/-- The newest frame's sample is due where it lies. -/
theorem due_newest {c : Fin CHANNELS} (s : Fin f.frameSize)
    (hended : ∀ g ∈ fs, (g.timestamp + g.frameSize : ℤ) ≤ f.timestamp) :
    Due (fs ++ [f]) (f.timestamp + s.val) c (f.channels c s) := by
  refine ⟨fun g hg s' hs => ?_, fun hmiss => absurd rfl (hmiss f (by simp) s)⟩
  rcases List.mem_append.mp hg with hg | hg
  · have := hended g hg
    have := s'.isLt
    omega
  · obtain rfl := List.mem_singleton.mp hg
    obtain rfl : s = s' := Fin.ext (by omega)
    rfl

section Frame

variable (h : InStep fs w) (hp : Placed w w' f)

include h hp

/-- The read pointer moves forward, and no further than the frame. -/
theorem InStep.pointers_placed (hahead : w.writeTs ≤ f.timestamp)
    (hsize : f.frameSize = w.frameSize) :
    w.readTs ≤ w'.readTs ∧ w'.readTs ≤ f.timestamp ∧
      w'.writeTs - w'.readTs + w.frameSize < w.bufLen := by
  have hle := h.readTs_le
  have hroom := h.room
  have hwrite := hp.writeTs_eq
  have hread := hp.readTs_eq
  unfold snapTarget maxDepth at hread
  split at hread <;> omega

omit h in
/-- What the read pointer jumps over is silent, or overwritten by the frame. -/
theorem Placed.overwritten (hno : ¬ w.SkipsAudible f) {p : ℤ} {c : Fin CHANNELS} {v : α}
    (hge : w.readTs ≤ p) (hlt : p < w.writeTs) (hskipped : p < w'.readTs)
    (hv : w.held p c = some v) (hne : v ≠ 0) :
    ∃ s : Fin f.frameSize, p % w.bufLen = (f.timestamp + s.val) % w.bufLen := by
  by_contra hmiss
  have hread := hp.readTs_eq
  split at hread
  · rename_i hsnap
    exact hno ⟨hsnap, p, c, v, hge, hlt, hread ▸ hskipped, hv, hne, fun s hs => hmiss ⟨s, hs⟩⟩
  · omega

/-- Positions before the frame that are still to be played share no slot with it. -/
theorem InStep.slot_ne (hahead : w.writeTs ≤ f.timestamp) (hsize : f.frameSize = w.frameSize)
    {t : ℤ} (hge : w'.readTs ≤ t) (hlt : t < f.timestamp) (s : Fin f.frameSize) :
    t % w.bufLen ≠ (f.timestamp + s.val) % w.bufLen := by
  intro hslot
  obtain ⟨-, -, hdepth⟩ := h.pointers_placed hp hahead hsize
  have hwrite := hp.writeTs_eq
  have hs := s.isLt
  have := eq_of_emod_eq hslot (by omega) (by omega)
  omega

/-- The gap between the old frontier and the frame is silent. -/
theorem InStep.gap_silent (hahead : w.writeTs ≤ f.timestamp) (hsize : f.frameSize = w.frameSize)
    (hno : ¬ w.SkipsAudible f) {t : ℤ} {c : Fin CHANNELS} {v : α} (hread : w'.readTs ≤ t)
    (hgap : w.writeTs ≤ t) (hlt : t < f.timestamp) (hv : w.held t c = some v) : v = 0 := by
  obtain ⟨hforward, -, hdepth⟩ := h.pointers_placed hp hahead hsize
  have hnonneg := h.readTs_nonneg
  have hwrite := hp.writeTs_eq
  by_contra hne
  -- an audible sample would be one the snap left behind
  obtain ⟨p, hslot, hge, hplt⟩ := h.audible t c v (by omega) hv hne
  rcases turn_apart hslot (by omega) with hturn | hturn
  · rw [held_congr (by omega) (by omega) c hslot.symm] at hv
    obtain ⟨s, hs⟩ := hp.overwritten hno hge hplt (by omega) hv hne
    exact h.slot_ne hp hahead hsize hread hlt s (hslot.symm.trans hs)
  · omega

/-- **A frame that strands nothing keeps the ring in step.** -/
theorem InStep.placed (hahead : w.writeTs ≤ f.timestamp) (hsize : f.frameSize = w.frameSize)
    (hno : ¬ w.SkipsAudible f) : InStep (fs ++ [f]) w' := by
  have hread := h.readTs_nonneg
  have hwrite := hp.writeTs_eq
  obtain ⟨hforward, hbefore, hdepth⟩ := h.pointers_placed hp hahead hsize
  refine
    { length_buf := by rw [hp.length_buf, hp.sizes.bufLen]
      room := by rw [hp.sizes.prebuffer, hp.sizes.frameSize, hp.sizes.bufLen]; exact h.room
      readTs_nonneg := by omega
      readTs_le := by omega
      depth := by rw [hp.sizes.frameSize, hp.sizes.bufLen]; exact hdepth
      ended := ?_, due := ?_, audible := ?_ }
  -- every frame ends before the write pointer
  · intro g hg
    rcases List.mem_append.mp hg with hg | hg
    · have := h.ended g hg
      omega
    · obtain rfl := List.mem_singleton.mp hg
      omega
  -- every slot still to be played is due: under the new frame, in the gap before it, or older
  · intro t c v hge hlt hv
    rcases lt_or_ge t f.timestamp with hbf | hin
    · rw [hp.held_ne t c (by omega) (h.slot_ne hp hahead hsize hge hbf)] at hv
      rcases lt_or_ge t w.writeTs with hold | hgap
      · exact (h.due t c v (by omega) hold hv).append hbf
      · rw [h.gap_silent hp hahead hsize hno hge hgap hbf hv]
        exact due_gap (fun g hg => (h.ended g hg).trans hgap) hbf
    · obtain ⟨s, rfl⟩ : ∃ s : Fin f.frameSize, t = f.timestamp + s.val :=
        ⟨⟨(t - f.timestamp).toNat, by omega⟩, by simp only; omega⟩
      rw [hp.held_same s c] at hv
      obtain rfl := Option.some.inj hv
      exact due_newest s fun g hg => (h.ended g hg).trans hahead
  -- an audible sample is under the new frame, or where it was, between the pointers
  · intro t c v ht hv hne
    rw [hp.sizes.bufLen]
    by_cases hhit : ∃ s : Fin f.frameSize, t % w.bufLen = (f.timestamp + s.val) % w.bufLen
    · obtain ⟨s, hs⟩ := hhit
      have := s.isLt
      exact ⟨f.timestamp + s.val, hs.symm, by omega, by omega⟩
    · have hmiss := not_exists.mp hhit
      rw [hp.held_ne t c ht hmiss] at hv
      obtain ⟨p, hslot, hpge, hplt⟩ := h.audible t c v ht hv hne
      refine ⟨p, hslot, ?_, by omega⟩
      -- else it would be stranded behind the read pointer
      by_contra hlt
      rw [held_congr ht (by omega) c hslot.symm] at hv
      obtain ⟨s, hs⟩ := hp.overwritten hno hpge hplt (by omega) hv hne
      exact hmiss s (hslot.symm.trans hs)

end Frame

/-- **Playing a block keeps the ring in step.** -/
theorem InStep.played {blockSize : ℕ} {out out' : List (List α)} (h : InStep fs w)
    (hblock : (blockSize : ℤ) ≤ w.writeTs - w.readTs) (hp : Played w w' blockSize out out') :
    InStep fs w' := by
  have hread := h.readTs_nonneg
  have hdepth := h.depth
  have hread' := hp.readTs_eq
  have hwrite := hp.writeTs_eq
  refine
    { length_buf := by rw [hp.length_buf, hp.sizes.bufLen]
      room := by rw [hp.sizes.prebuffer, hp.sizes.frameSize, hp.sizes.bufLen]; exact h.room
      readTs_nonneg := by omega
      readTs_le := by omega
      depth := by rw [hp.sizes.frameSize, hp.sizes.bufLen]; omega
      ended := fun f hf => hwrite ▸ h.ended f hf, due := ?_, audible := ?_ }
  · intro t c v hge hlt hv
    rw [hp.held_ne t c (by omega)] at hv
    · exact h.due t c v (by omega) (by omega) hv
    · intro s hs hslot
      have := eq_of_emod_eq hslot (by omega) (by omega)
      omega
  · intro t c v ht hv hne
    rw [hp.sizes.bufLen]
    -- an audible sample is in no slot of the block, for those are cleared
    have hmiss : ∀ s : ℕ, s < blockSize → t % w.bufLen ≠ (w.readTs + s) % w.bufLen := by
      intro s hs hslot
      rw [← hp.sizes.bufLen] at hslot
      rw [held_congr ht (by omega) c hslot, hp.held_same s c hs] at hv
      exact hne (Option.some.inj hv).symm
    rw [hp.held_ne t c ht hmiss] at hv
    obtain ⟨p, hslot, hpge, hplt⟩ := h.audible t c v ht hv hne
    refine ⟨p, hslot, ?_, by omega⟩
    by_contra hlt
    refine hmiss (p - w.readTs).toNat (by omega) ?_
    rw [show w.readTs + ((p - w.readTs).toNat : ℤ) = p by omega]
    exact hslot.symm

/-! ### Runs -/

/-- Of the sizes of `w₀`, in step with the frames, and the frontier is where the
newest frame ends. -/
structure Tracks (w₀ : ReceiverProcessor α) (fs : List (PostedFrame α))
    (w : ReceiverProcessor α) : Prop extends InStep fs w where
  bufLen_eq : w.bufLen = w₀.bufLen
  frameSize_eq : w.frameSize = w₀.frameSize
  sizes : ∀ g ∈ fs, g.frameSize = w₀.frameSize
  frontier : (w.initTs < 0 ∧ fs = [] ∧ w.readTs = w.writeTs) ∨
    (0 ≤ w.initTs ∧ ∃ g ∈ fs, w.writeTs = g.timestamp + g.frameSize)

variable {w₀ : ReceiverProcessor α}

/-- A fresh worklet is in step with no frames. -/
theorem tracks_of_fresh (h : Fresh w) (hroom : w.prebuffer + 7 * w.frameSize < w.bufLen)
    (hbufLen : w.bufLen = w₀.bufLen) (hframeSize : w.frameSize = w₀.frameSize) :
    Tracks w₀ [] w := by
  have hread := h.readTs_eq
  have hwrite := h.writeTs_eq
  have hinit := h.initTs_eq
  exact
    { length_buf := by rw [h.buf_eq, List.length_replicate]
      room := hroom
      readTs_nonneg := by omega
      readTs_le := by omega
      depth := by omega
      ended := by simp
      due := fun t c v hge hlt => by omega
      audible := fun t c v _ hv hne => absurd (h.eq_zero hv) hne
      bufLen_eq := hbufLen
      frameSize_eq := hframeSize
      sizes := by simp
      frontier := Or.inl ⟨by omega, rfl, by omega⟩ }

theorem Tracks.reanchor (h : Tracks w₀ fs w) : Tracks w₀ [] w.reanchor := by
  have hfresh := fresh_reset h.length_buf
  exact tracks_of_fresh ⟨hfresh.1, hfresh.2, hfresh.3, hfresh.4⟩ h.room h.bufLen_eq
    h.frameSize_eq

/-- A prebuffer message keeps the ring in step. -/
theorem Tracks.config (h : Tracks w₀ fs w) {frameSize prebuffer : Option ℕ}
    (hadm : Admits w₀ fs (.config frameSize prebuffer)) :
    Tracks w₀ fs (w.config frameSize prebuffer) := by
  have hroom : prebuffer.getD w.prebuffer + 7 * w.frameSize < w.bufLen := by
    rcases prebuffer with - | n
    · exact h.room
    · have := hadm.2 n rfl
      rw [← h.frameSize_eq, ← h.bufLen_eq] at this
      exact this
  rw [config_of_eq fun n hn => (hadm.1 n hn).trans h.frameSize_eq.symm]
  exact ⟨⟨h.length_buf, hroom, h.readTs_nonneg, h.readTs_le, h.depth, h.ended, h.due, h.audible⟩,
    h.bufLen_eq, h.frameSize_eq, h.sizes, h.frontier⟩

/-- Anchoring keeps the ring in step; a later frame is then at or past the frontier. -/
theorem Tracks.anchor (h : Tracks w₀ fs w) (ts : ℕ)
    (hnext : ∀ g ∈ fs, (g.timestamp + g.frameSize : ℤ) ≤ ts) :
    InStep fs (w.anchor ts) ∧ (w.anchor ts).writeTs ≤ ts ∧ 0 ≤ (w.anchor ts).initTs := by
  rcases h.frontier with ⟨hun, rfl, hempty⟩ | ⟨hanch, g, hg, hfront⟩
  · rw [ReceiverProcessor.anchor, if_pos hun]
    have hroom := h.room
    refine ⟨⟨h.length_buf, hroom, ?_, le_refl _, ?_, by simp, ?_, ?_⟩, le_refl _, ?_⟩
    · exact Int.natCast_nonneg ts
    · show (ts : ℤ) - ts + w.frameSize < w.bufLen
      omega
    · intro t c v hge hlt
      simp only at hge hlt
      omega
    · intro t c v ht hv hne
      obtain ⟨p, -, hge, hlt⟩ := h.audible t c v ht hv hne
      omega
    · exact Int.natCast_nonneg ts
  · rw [ReceiverProcessor.anchor, if_neg (not_lt.mpr hanch)]
    exact ⟨h.toInStep, hfront ▸ hnext g hg, hanch⟩

/-- An admitted frame begins where all earlier ones have ended. -/
theorem Tracks.le_timestamp (h : Tracks w₀ fs w)
    (hadm : Admits w₀ fs (.frame f)) :
    ∀ g ∈ fs, (g.timestamp + g.frameSize : ℤ) ≤ f.timestamp := by
  intro g hg
  obtain ⟨hlt, hdvd⟩ := hadm.2 g hg
  have := Nat.le_of_dvd (by omega) hdvd
  rw [h.sizes g hg]
  omega

/-- What the worklet does with an admitted frame. -/
theorem Tracks.frame (h : Tracks w₀ fs w) (hadm : Admits w₀ fs (.frame f))
    (hno : ¬ w.Strands (.frame f)) :
    ∃ w', w.writeFrame f = some (w', [.recycle f]) ∧ Tracks w₀ (fs ++ [f]) w' := by
  obtain ⟨hk, hahead, hinit⟩ := h.anchor f.timestamp (h.le_timestamp hadm)
  obtain ⟨hs, -, -⟩ := sameSizes_anchor w f.timestamp
  have hsize : f.frameSize = (w.anchor f.timestamp).frameSize := by
    rw [hs.frameSize, h.frameSize_eq, hadm.1]
  have hroom := hk.room
  rw [← hsize, hs.bufLen] at hroom
  obtain ⟨w', hw', hp⟩ := writeFrame_placed h.bufLen_pos h.length_buf (by omega) hahead
  refine ⟨w', hw', ⟨hk.placed hp hahead hsize hno, ?_, ?_, fun g hg => ?_, Or.inr ⟨?_, f, ?_, ?_⟩⟩⟩
  · rw [hp.sizes.bufLen, hs.bufLen, h.bufLen_eq]
  · rw [hp.sizes.frameSize, hs.frameSize, h.frameSize_eq]
  · rcases List.mem_append.mp hg with hg | hg
    · exact h.sizes g hg
    · obtain rfl := List.mem_singleton.mp hg
      exact hadm.1
  · rw [hp.initTs_eq]
    exact hinit
  · exact List.mem_append_right fs (List.mem_singleton_self f)
  · exact hp.writeTs_eq

theorem Tracks.cases_block (h : Tracks w₀ fs w) (block : List α) (rest : List (List α)) :
    (¬ w.Plays block ∧ ∃ b posts,
      w.process (block :: rest) = some ({ w with isUnderrunning := b }, block :: rest, posts)) ∨
    (w.Plays block ∧ ∃ w' out' posts, w.process (block :: rest) = some (w', out', posts) ∧
      Played w w' block.length (block :: rest) out') :=
  process_cases h.bufLen_pos h.length_buf h.readTs_nonneg
    (by have := h.depth; omega) block rest

/-- **One call keeps the ring in step**, if it strands nothing. -/
theorem Tracks.call {a : Call α} (h : Tracks w₀ fs w) (hadm : Admits w₀ fs a)
    (hno : ¬ w.Strands a) (hcall : call w a = some w') : Tracks w₀ (record fs a) w' := by
  cases a with
  | frame f =>
    obtain ⟨w₁, hw₁, htracks⟩ := h.frame hadm hno
    rw [ReceiverProcessor.call, hw₁] at hcall
    obtain rfl := Option.some.inj hcall
    exact htracks
  | reanchor =>
    obtain rfl := Option.some.inj hcall
    exact h.reanchor
  | config frameSize prebuffer =>
    obtain rfl := Option.some.inj hcall
    exact h.config hadm
  | process out =>
    rw [ReceiverProcessor.call] at hcall
    rcases out with - | ⟨block, rest⟩
    · cases hcall
    · rcases h.cases_block block rest with ⟨-, b, posts, hp⟩ |
        ⟨hplays, w₁, out', posts, hp, hplayed⟩
      · rw [hp] at hcall
        obtain rfl := Option.some.inj hcall
        exact ⟨⟨h.length_buf, h.room, h.readTs_nonneg, h.readTs_le, h.depth, h.ended, h.due,
          h.audible⟩, h.bufLen_eq, h.frameSize_eq, h.sizes, h.frontier⟩
      · rw [hp, Option.map_some] at hcall
        obtain rfl := Option.some.inj hcall
        simp only
        refine ⟨h.toInStep.played hplays.2 hplayed, ?_, ?_, h.sizes, ?_⟩
        · rw [hplayed.sizes.bufLen, h.bufLen_eq]
        · rw [hplayed.sizes.frameSize, h.frameSize_eq]
        · rw [hplayed.initTs_eq, hplayed.writeTs_eq]
          rcases h.frontier with ⟨hun, hnil, hempty⟩ | hanch
          · -- nothing is unread, so the block is empty
            have := hplayed.readTs_eq
            have := hplays.2
            exact Or.inl ⟨hun, hnil, by omega⟩
          · exact Or.inr hanch

/-- An admitted call goes through, if a block comes with an output. -/
theorem Tracks.exists_call {a : Call α} (h : Tracks w₀ fs w) (hadm : Admits w₀ fs a)
    (hno : ¬ w.Strands a) (hout : a ≠ .process []) :
    ∃ w', ReceiverProcessor.call w a = some w' := by
  cases a with
  | frame f =>
    obtain ⟨w', hw', -⟩ := h.frame hadm hno
    exact ⟨w', by rw [ReceiverProcessor.call, hw', Option.map_some]⟩
  | reanchor => exact ⟨_, rfl⟩
  | config frameSize prebuffer => exact ⟨_, rfl⟩
  | process out =>
    rcases out with - | ⟨block, rest⟩
    · exact absurd rfl hout
    · rcases h.cases_block block rest with ⟨-, b, posts, hp⟩ | ⟨-, w', out', posts, hp, -⟩
      · exact ⟨_, by rw [ReceiverProcessor.call, hp, Option.map_some]⟩
      · exact ⟨w', by rw [ReceiverProcessor.call, hp, Option.map_some]⟩

/-- After every piece of a run none of whose frames strands a sample. -/
theorem tracks_of_run (hstart : Tracks w₀ [] w₀) {as₁ as₂ : List (Call α)}
    (hadm : Admissible w₀ (as₁ ++ as₂))
    (hstrand : Along call (fun w a => ¬ w.Strands a) w₀ (as₁ ++ as₂)) (hrun : Run call w₀ as₁ w) :
    Tracks w₀ (posted as₁) w := by
  have hinv : Tracks w₀ (posted ([] ++ as₁)) w := by
    refine hrun.invariant_past (I := fun past k => Tracks w₀ (posted past) k)
      (P := fun past k a => Admits w₀ (posted past) a ∧ ¬ k.Strands a) ?_ ?_ hstart
    · intro past k a k' hk ⟨ha, hno⟩ hcall
      rw [posted_concat]
      exact hk.call ha hno hcall
    · intro bs₁ a bs₂ k has hk
      have hsplit : as₁ ++ as₂ = bs₁ ++ a :: (bs₂ ++ as₂) := by
        rw [has, List.append_assoc, List.cons_append]
      exact ⟨hadm bs₁ a _ hsplit, hstrand bs₁ a _ k hsplit hk⟩
  exact hinv

/-- Admitted calls go through to the last, if every block comes with an output. -/
theorem exists_run (hstart : Tracks w₀ [] w₀) {calls : List (Call α)} (hadm : Admissible w₀ calls)
    (hstrand : Along call (fun w a => ¬ w.Strands a) w₀ calls) (hout : .process [] ∉ calls) :
    ∃ w, Run call w₀ calls w := by
  induction calls using List.reverseRecOn with
  | nil => exact ⟨w₀, .nil w₀⟩
  | append_singleton calls a ih =>
    have hprefix : Admissible w₀ calls := fun as₁ b as₂ h =>
      hadm as₁ b (as₂ ++ [a]) (by rw [h, List.append_assoc, List.cons_append])
    obtain ⟨w, hrun⟩ := ih hprefix hstrand.prefix fun hmem => hout (List.mem_append_left _ hmem)
    obtain ⟨w', hw'⟩ := (tracks_of_run hstart hadm hstrand hrun).exists_call
      (hadm calls a [] rfl) (hstrand calls a [] w rfl hrun) (by rintro rfl; exact hout (by simp))
    exact ⟨w', hrun.snoc hw'⟩

/-- **The worklet plays what was posted, and silence elsewhere**, in every run
none of whose frames strands a sample. -/
theorem playsPosted_of_no_strands {sampleRate : ℕ} {frameSize prebuffer : Option ℕ}
    {w₀ : ReceiverProcessor α} (hnew : w₀ = (new α sampleRate).config frameSize prebuffer)
    (hroom : w₀.prebuffer + 7 * w₀.frameSize < w₀.bufLen) {calls : List (Call α)}
    (hadm : Admissible w₀ calls) (hstrand : Along call (fun w a => ¬ w.Strands a) w₀ calls) :
    PlaysPosted w₀ calls := by
  intro as₁ block rest as₂ w hcalls hrun hplays
  have hstart : Tracks w₀ [] w₀ :=
    tracks_of_fresh (hnew ▸ fresh_config_new α sampleRate frameSize prebuffer) hroom rfl rfl
  rw [hcalls] at hadm hstrand
  have htracks := tracks_of_run hstart hadm hstrand hrun
  rcases htracks.cases_block block rest with ⟨hwait, -⟩ | ⟨-, w', out', posts, hp, hplayed⟩
  · exact absurd hplays hwait
  · refine ⟨w', out', posts, hp, fun c s x hs hx => ?_⟩
    have hread := htracks.readTs_nonneg
    have hdeep := hplays.2
    obtain ⟨v, hv⟩ := exists_cell htracks.length_buf htracks.bufLen_pos
      (show 0 ≤ w.readTs + (s : ℤ) by omega) (lane_bounds c)
    refine ⟨v, ?_, htracks.due _ c v (by omega) (by omega) hv⟩
    rw [hplayed.out_eq c s hs, hx]
    exact hv

/-- The frame stays below the latency cap, or finds nothing unplayed. -/
def staysOrSkipsNothing (w : ReceiverProcessor α) : Call α → Bool
  | .frame f =>
    let w := w.anchor f.timestamp
    decide ((f.timestamp : ℤ) + f.frameSize - w.readTs ≤ w.maxDepth) ||
      decide (w.writeTs ≤ w.readTs)
  | _ => true

theorem not_strands_of_stays (w : ReceiverProcessor α) (a : Call α)
    (h : w.staysOrSkipsNothing a = true) : ¬ w.Strands a := by
  cases a with
  | frame f =>
    simp only [staysOrSkipsNothing, Bool.or_eq_true, decide_eq_true_eq] at h
    rintro ⟨hdeep, t, c, v, hge, hlt, -⟩
    rcases h with h | h <;> omega
  | _ => exact id

/-- A frame of two samples. -/
def shortFrame (timestamp : ℕ) (v : ℤ) : PostedFrame ℤ := ⟨timestamp, 2, fun _ _ => v⟩

/-- The frame at 2 is missing, then those at 6 to 50, most of which the latency
cap skips; after a reanchor the timestamps start lower again. -/
def gappedCalls : List (Call ℤ) :=
  [.frame (shortFrame 0 7), .frame (shortFrame 4 8), .process [[1, 1, 1, 1, 1, 1]],
    .frame (shortFrame 52 9), .process [[1, 1, 1, 1, 1, 1]], .reanchor,
    .frame (shortFrame 30 5), .process [[1, 1]]]

/-- In a ring of 48 samples the second block starts at 48, in the slots of the
first: nobody posted its first four samples. -/
theorem playsPosted_gapped :
    (∃ w, Run call ((new ℤ 24).config (some 2) (some 2)) (gappedCalls.take 4) w ∧ w.readTs = 48 ∧
      (w.process [[1, 1, 1, 1, 1, 1]]).map (fun r => r.2.1) = some [[0, 0, 0, 0, 9, 9]]) ∧
    PlaysPosted ((new ℤ 24).config (some 2) (some 2)) gappedCalls := by
  refine ⟨?_, playsPosted_of_no_strands rfl (by decide) (admissible_of_get (by decide))
    (along_of_check not_strands_of_stays (by decide +kernel))⟩
  obtain ⟨w, hw, hread⟩ := (Option.any_eq_true _ _).mp
    (by decide +kernel : (exec call ((new ℤ 24).config (some 2) (some 2)) (gappedCalls.take 4)).any
      (fun w => w.readTs = 48 ∧
        (w.process [[1, 1, 1, 1, 1, 1]]).map (fun r => r.2.1) = some [[0, 0, 0, 0, 9, 9]]) = true)
  exact ⟨w, .of_exec hw, of_decide_eq_true hread⟩

end ReceiverProcessor

end AmbiRTC.Playback
