/-
AmbiRTC/VadGate.lean

The energy gate of a session (mcu/internal/session/pipeline.go `vadGate`,
`ReadInputFrame`).  Each tick the mix clock reads a frame out of the session's
jitter buffer; the gate lets it into the mix if its channel 0 is loud, or if a
frame shortly before was.

Peaks are at most 32768 and the countdown at most the hangover, so the gate's
`int`s are integers here.  A frame without a channel 0 is a panic and `none`.

Main results: `decisions_iff` (the countdown against the history of the frames)
and `contributes_iff_recently_loud`.
-/
import AmbiRTC.Decode
import Mathlib.Algebra.Order.Group.Unbundled.Int

namespace AmbiRTC

/-! ### The gate -/

/-- `vadGate`. -/
structure VadGate where
  /-- peak on channel 0 below which a frame is silent; `<= 0` disables -/
  threshold : ℤ
  /-- frames to stay active after the last loud frame -/
  hangover : ℤ
  /-- hangover countdown -/
  remaining : ℤ
  deriving DecidableEq, Repr

/-- The loop of `active` over the samples of channel 0. -/
def peakAbs (samples : List Int16) : ℤ :=
  samples.foldl (fun peak v =>
    let a := v.toInt
    let a := if a < 0 then -a else a
    if a > peak then a else peak) 0

/-- `active`: the gate afterwards and whether the frame should contribute. -/
def VadGate.active (g : VadGate) (frame : List (List Int16)) : Option (VadGate × Bool) :=
  if g.threshold ≤ 0 then some (g, true)
  else do
    let w ← frame.head?
    if peakAbs w ≥ g.threshold then return ({ g with remaining := g.hangover }, true)
    else if g.remaining > 0 then return ({ g with remaining := g.remaining - 1 }, true)
    else return (g, false)

/-- The gate on one frame after the other. -/
def VadGate.decisions : VadGate → List (List (List Int16)) → Option (List Bool)
  | _, [] => some []
  | g, frame :: frames => do
    let r ← g.active frame
    let rest ← r.1.decisions frames
    return r.2 :: rest

/-! ### The input side of a session -/

/-- What `ReadInputFrame` works on. -/
structure InputSide where
  jb : JitterBuffer
  vad : VadGate
  vadActive : Bool

/-- One `ReadInputFrame`: whether readout had started, the frame left in `out`
and the result. -/
structure Tick where
  started : Bool
  frame : List (List Int16)
  contributes : Bool

/-- `ReadInputFrame`. -/
def InputSide.readInputFrame (s : InputSide) (out : List (List Int16)) :
    Option (InputSide × Tick) := do
  let (jb, out, started, _) ← s.jb.readFrame out
  if !started then return ({ s with jb := jb, vadActive := false }, ⟨started, out, false⟩)
  else
    let (vad, active) ← s.vad.active out
    return (⟨jb, vad, active⟩, ⟨started, out, active⟩)

/-- A new session. -/
def newInputSide (jb : JitterBuffer) (threshold hangover : ℤ) : InputSide where
  jb := jb
  vad := { threshold := threshold, hangover := hangover, remaining := 0 }
  vadActive := false

/-- Calls in the order they take the buffer's lock: the decoder writes, the mix
clock reads into one of its buffers.  The ticks come out. -/
def InputSide.ticks : InputSide → List JitterBuffer.Call → Option (List Tick)
  | _, [] => some []
  | s, .write frameTs chIdx pcm :: calls => do
    let jb ← s.jb.writeChannel frameTs chIdx pcm
    InputSide.ticks { s with jb := jb } calls
  | s, .read out :: calls => do
    let r ← s.readInputFrame out
    let rest ← r.1.ticks calls
    return r.2 :: rest

/-! ### Loud frames -/

/-- A sample of channel 0 reaches the threshold in absolute value. -/
def Loud (threshold : ℤ) (frame : List (List Int16)) : Prop :=
  ∃ v ∈ frame.headD [], threshold ≤ |v.toInt|

/-- Frame `n` or one of the `hangover` frames before it is loud. -/
def RecentlyLoud (threshold hangover : ℤ) (frames : List (List (List Int16))) (n : ℕ) : Prop :=
  ∃ m ≤ n, (n : ℤ) - m ≤ hangover ∧ ∃ frame, frames[m]? = some frame ∧ Loud threshold frame

/-- The loop finds the greatest absolute value. -/
theorem le_peakAbs_iff {threshold : ℤ} (ht : 0 < threshold) (samples : List Int16) :
    threshold ≤ peakAbs samples ↔ ∃ v ∈ samples, threshold ≤ |v.toInt| := by
  have hloop : ∀ peak, threshold ≤ samples.foldl (fun peak v =>
      let a := v.toInt
      let a := if a < 0 then -a else a
      if a > peak then a else peak) peak
        ↔ threshold ≤ peak ∨ ∃ v ∈ samples, threshold ≤ |v.toInt| := by
    induction samples with
    | nil => simp
    | cons v samples ih =>
      intro peak
      have habs : (if v.toInt < 0 then -v.toInt else v.toInt) = |v.toInt| := by
        split
        · rw [abs_of_neg (by assumption)]
        · rw [abs_of_nonneg (by omega)]
      have hmax : threshold ≤ (if |v.toInt| > peak then |v.toInt| else peak)
          ↔ threshold ≤ peak ∨ threshold ≤ |v.toInt| := by
        split <;> omega
      rw [List.foldl_cons, ih, List.exists_mem_cons_iff, ← or_assoc]
      simp only [habs, hmax]
  rw [peakAbs, hloop]
  exact or_iff_right (not_le.mpr ht)

variable {threshold hangover : ℤ}

/-- What `active` does on a frame with a channel 0. -/
theorem active_cases {g : VadGate} (ht : 0 < g.threshold) {frame : List (List Int16)}
    (hne : frame ≠ []) :
    (Loud g.threshold frame ∧
      g.active frame = some ({ g with remaining := g.hangover }, true)) ∨
    (¬ Loud g.threshold frame ∧ 0 < g.remaining ∧
      g.active frame = some ({ g with remaining := g.remaining - 1 }, true)) ∨
    (¬ Loud g.threshold frame ∧ ¬ 0 < g.remaining ∧ g.active frame = some (g, false)) := by
  obtain ⟨w, rest, rfl⟩ := List.exists_cons_of_ne_nil hne
  have hloud : Loud g.threshold (w :: rest) ↔ g.threshold ≤ peakAbs w :=
    (le_peakAbs_iff ht w).symm
  have hactive : g.active (w :: rest)
      = if peakAbs w ≥ g.threshold then some ({ g with remaining := g.hangover }, true)
        else if g.remaining > 0 then some ({ g with remaining := g.remaining - 1 }, true)
        else some (g, false) := by
    rw [VadGate.active, if_neg (not_le.mpr ht)]
    rfl
  rw [hactive, hloud]
  by_cases hpeak : g.threshold ≤ peakAbs w
  · exact Or.inl ⟨hpeak, if_pos hpeak⟩
  · rw [if_neg hpeak]
    by_cases hrem : 0 < g.remaining
    · exact Or.inr (Or.inl ⟨hpeak, hrem, if_pos hrem⟩)
    · exact Or.inr (Or.inr ⟨hpeak, hrem, if_neg hrem⟩)

theorem recentlyLoud_zero {frame : List (List Int16)} {frames : List (List (List Int16))}
    (hh : 0 ≤ hangover) :
    RecentlyLoud threshold hangover (frame :: frames) 0 ↔ Loud threshold frame := by
  constructor
  · rintro ⟨m, hm, -, f, hf, hloud⟩
    obtain rfl := Nat.le_zero.mp hm
    obtain rfl := Option.some.inj hf
    exact hloud
  · intro hloud
    exact ⟨0, le_rfl, by simpa using hh, frame, rfl, hloud⟩

theorem recentlyLoud_succ {frame : List (List Int16)} {frames : List (List (List Int16))} {n : ℕ} :
    RecentlyLoud threshold hangover (frame :: frames) (n + 1)
      ↔ RecentlyLoud threshold hangover frames n
        ∨ ((n : ℤ) + 1 ≤ hangover ∧ Loud threshold frame) := by
  constructor
  · rintro ⟨m, hm, hdist, f, hf, hloud⟩
    cases m with
    | zero =>
      obtain rfl := Option.some.inj hf
      exact Or.inr ⟨by simpa using hdist, hloud⟩
    | succ m => exact Or.inl ⟨m, by omega, by push_cast at hdist; omega, f, hf, hloud⟩
  · rintro (⟨m, hm, hdist, f, hf, hloud⟩ | ⟨hdist, hloud⟩)
    · exact ⟨m + 1, by omega, by push_cast; omega, f, hf, hloud⟩
    · exact ⟨0, by omega, by push_cast; omega, frame, rfl, hloud⟩

theorem recentlyLoud_succ_of_quiet {frame : List (List Int16)}
    {frames : List (List (List Int16))} {n : ℕ} (h : ¬ Loud threshold frame) :
    RecentlyLoud threshold hangover (frame :: frames) (n + 1)
      ↔ RecentlyLoud threshold hangover frames n := by
  rw [recentlyLoud_succ]
  exact or_iff_left fun hboth => h hboth.2

/-- **The countdown against the history.**  A gate that is to stay open for
`remaining` frames lets frame `n` in if a frame up to `hangover` before it was
loud, or if it is one of those `remaining`. -/
theorem decisions_iff {frames : List (List (List Int16))} {g : VadGate} (ht : 0 < g.threshold)
    (hrem : g.remaining ≤ g.hangover) (hh : 0 ≤ g.hangover) (hne : ∀ f ∈ frames, f ≠ []) :
    ∃ ds, g.decisions frames = some ds ∧ ds.length = frames.length ∧
      ∀ n d, ds[n]? = some d →
        (d = true ↔ RecentlyLoud g.threshold g.hangover frames n ∨ (n : ℤ) < g.remaining) := by
  induction frames generalizing g with
  | nil => exact ⟨[], rfl, rfl, fun n d hd => nomatch hd⟩
  | cons frame frames ih =>
    obtain ⟨hframe, hframes⟩ := List.forall_mem_cons.mp hne
    rcases active_cases ht hframe with ⟨hloud, hact⟩ | ⟨hquiet, hpos, hact⟩ | ⟨hquiet, hpos, hact⟩
    -- loud: active, and the countdown begins again
    · obtain ⟨ds, hds, hlen, hall⟩ := @ih { g with remaining := g.hangover } ht le_rfl hh hframes
      refine ⟨true :: ds, by rw [VadGate.decisions, hact]; simp [hds], by simp [hlen], ?_⟩
      rintro (- | n) d hd
      · obtain rfl := Option.some.inj hd
        simpa [recentlyLoud_zero hh] using Or.inl hloud
      · -- the loud frame reaches `hangover` frames on, at least as far as the old countdown
        rw [hall n d hd, recentlyLoud_succ, or_assoc]
        refine or_congr_right ⟨fun h => Or.inl ⟨h, hloud⟩, ?_⟩
        rintro (⟨h, -⟩ | h)
        · exact h
        · show (n : ℤ) < g.hangover
          push_cast at h
          omega
    -- quiet, but the countdown is still running
    · obtain ⟨ds, hds, hlen, hall⟩ := @ih { g with remaining := g.remaining - 1 } ht
        (by simp only; omega) hh hframes
      refine ⟨true :: ds, by rw [VadGate.decisions, hact]; simp [hds], by simp [hlen], ?_⟩
      rintro (- | n) d hd
      · obtain rfl := Option.some.inj hd
        simpa using Or.inr hpos
      · rw [hall n d hd, recentlyLoud_succ_of_quiet hquiet]
        refine or_congr_right ?_
        show (n : ℤ) < g.remaining - 1 ↔ _
        push_cast
        omega
    -- quiet, and the countdown is over
    · obtain ⟨ds, hds, hlen, hall⟩ := ih ht hrem hh hframes
      refine ⟨false :: ds, by rw [VadGate.decisions, hact]; simp [hds], by simp [hlen], ?_⟩
      rintro (- | n) d hd
      · obtain rfl := Option.some.inj hd
        simpa [recentlyLoud_zero hh, hquiet] using hpos
      · rw [hall n d hd, recentlyLoud_succ_of_quiet hquiet]
        refine or_congr_right ?_
        push_cast
        omega

/-! ### The ticks of a session -/

/-- The ticks since readout started. -/
def startedTicks (ticks : List Tick) : List Tick := ticks.filter Tick.started

/-- What comes out of a session's input side, in terms of its gate: silence
before readout has started, and the gate's decisions from then on. -/
theorem ticks_decisions {calls : List JitterBuffer.Call} {s : InputSide} {ticks : List Tick}
    (h : s.ticks calls = some ticks) :
    (∀ t ∈ ticks, t.started = false → t.contributes = false) ∧
      s.vad.decisions ((startedTicks ticks).map Tick.frame)
        = some ((startedTicks ticks).map Tick.contributes) := by
  induction calls generalizing s ticks with
  | nil =>
    obtain rfl := Option.some.inj h
    exact ⟨List.forall_mem_nil _, rfl⟩
  | cons call calls ih =>
    cases call with
    | write frameTs chIdx pcm =>
      simp only [InputSide.ticks, Option.bind_eq_bind, Option.bind_eq_some_iff] at h
      obtain ⟨jb, -, hrest⟩ := h
      exact @ih { s with jb := jb } ticks hrest
    | read out =>
      simp only [InputSide.ticks, Option.bind_eq_bind, Option.bind_eq_some_iff] at h
      obtain ⟨⟨s₁, t⟩, hread, rest, hrest, hticks⟩ := h
      obtain rfl := Option.some.inj hticks
      obtain ⟨hsilent, hdecisions⟩ := ih hrest
      simp only [InputSide.readInputFrame, Option.bind_eq_bind, Option.bind_eq_some_iff] at hread
      obtain ⟨⟨jb, out', started, underrun⟩, -, hread⟩ := hread
      cases started with
      | false =>
        obtain ⟨rfl, rfl⟩ := Prod.mk.inj (Option.some.inj hread)
        exact ⟨List.forall_mem_cons.mpr ⟨fun _ => rfl, hsilent⟩, hdecisions⟩
      | true =>
        simp only [Bool.not_true, Bool.false_eq_true, if_false, Option.bind_eq_some_iff] at hread
        obtain ⟨⟨vad, active⟩, hactive, hread⟩ := hread
        obtain ⟨rfl, rfl⟩ := Prod.mk.inj (Option.some.inj hread)
        refine ⟨List.forall_mem_cons.mpr ⟨Bool.noConfusion, hsilent⟩, ?_⟩
        have hstarted : startedTicks (⟨true, out', active⟩ :: rest)
            = ⟨true, out', active⟩ :: startedTicks rest := rfl
        rw [hstarted, List.map_cons, VadGate.decisions, hactive]
        simp only [Option.bind_eq_bind, Option.bind_some, hdecisions]
        rfl

/-! ### Reads that go through -/

theorem length_readSlot {slot : ℤ} {s : ℕ} {cs : List ℕ} {buf buf' : List Int16}
    {out out' : List (List Int16)}
    (h : JitterBuffer.readSlot slot s cs buf out = some (buf', out')) :
    out'.length = out.length := by
  induction cs generalizing buf out with
  | nil =>
    obtain ⟨-, rfl⟩ := Prod.mk.inj (Option.some.inj h)
    rfl
  | cons c cs ih =>
    simp only [JitterBuffer.readSlot, Option.bind_eq_bind, Option.bind_eq_some_iff] at h
    obtain ⟨v, -, buf₁, -, hrest⟩ := h
    rw [ih hrest, JitterBuffer.setSample, List.length_modify]

theorem length_readSlots {bufLen channels : ℕ} {readTs : ℤ} {ss : List ℕ} {buf buf' : List Int16}
    {out out' : List (List Int16)}
    (h : JitterBuffer.readSlots bufLen channels readTs ss buf out = some (buf', out')) :
    out'.length = out.length := by
  induction ss generalizing buf out with
  | nil =>
    obtain ⟨-, rfl⟩ := Prod.mk.inj (Option.some.inj h)
    rfl
  | cons s ss ih =>
    simp only [JitterBuffer.readSlots, Option.bind_eq_bind, Option.bind_eq_some_iff] at h
    obtain ⟨⟨buf₁, out₁⟩, hslot, hrest⟩ := h
    rw [ih hrest, length_readSlot hslot]

theorem length_readFrame {j j' : JitterBuffer} {out out' : List (List Int16)} {a b : Bool}
    (h : j.readFrame out = some (j', out', a, b)) : out'.length = out.length := by
  unfold JitterBuffer.readFrame at h
  split at h
  · simp only [Option.some.injEq, Prod.mk.injEq] at h
    rw [h.2.1]
  split at h
  · simp only [Option.some.injEq, Prod.mk.injEq] at h
    rw [← h.2.1, JitterBuffer.zeroFill, List.length_mapIdx]
  · simp only [Option.bind_eq_bind, Option.bind_eq_some_iff] at h
    obtain ⟨⟨buf, out₁⟩, hslots, hout⟩ := h
    obtain ⟨-, rfl, -⟩ := by simpa using hout
    exact length_readSlots hslots

/-- A read into a buffer with a channel 0 goes through and leaves one in it. -/
theorem exists_readInputFrame {s : InputSide} (hs : s.jb.Sound) (ht : 0 < s.vad.threshold)
    {out : List (List Int16)} (hout : out ≠ []) :
    ∃ s' t, s.readInputFrame out = some (s', t) ∧ s'.jb.Sound ∧
      s'.vad.threshold = s.vad.threshold ∧ t.frame ≠ [] := by
  obtain ⟨jb, hjb⟩ := hs.exists_call (.read out)
  have hsound := (hs.call hjb).1
  simp only [JitterBuffer.call, Option.map_eq_some_iff] at hjb
  obtain ⟨⟨jb', out', started, underrun⟩, hread, rfl⟩ := hjb
  have hout' : out' ≠ [] := by
    rw [← List.length_pos_iff, length_readFrame hread]
    exact List.length_pos_of_ne_nil hout
  simp only [InputSide.readInputFrame, hread, Option.bind_eq_bind, Option.bind_some]
  cases started with
  | false => exact ⟨_, _, rfl, hsound, rfl, hout'⟩
  | true =>
    obtain ⟨vad, active, hact, hthr⟩ : ∃ vad active,
        s.vad.active out' = some (vad, active) ∧ vad.threshold = s.vad.threshold := by
      rcases active_cases ht hout' with ⟨-, hact⟩ | ⟨-, -, hact⟩ | ⟨-, -, hact⟩ <;>
        exact ⟨_, _, hact, rfl⟩
    exact ⟨⟨jb', vad, active⟩, ⟨true, out', active⟩, by rw [hact]; rfl, hsound, hthr, hout'⟩

/-- The clock reads into buffers that have a channel 0. -/
def HasChannel : JitterBuffer.Call → Prop
  | .write _ _ _ => True
  | .read out => out ≠ []

theorem exists_ticks {calls : List JitterBuffer.Call} {s : InputSide} (hs : s.jb.Sound)
    (ht : 0 < s.vad.threshold) (hcalls : ∀ a ∈ calls, HasChannel a) :
    ∃ ticks, s.ticks calls = some ticks ∧ ∀ t ∈ ticks, t.frame ≠ [] := by
  induction calls generalizing s with
  | nil => exact ⟨[], rfl, fun t ht => nomatch ht⟩
  | cons call calls ih =>
    obtain ⟨hcall, hrest⟩ := List.forall_mem_cons.mp hcalls
    cases call with
    | write frameTs chIdx pcm =>
      obtain ⟨jb, hjb⟩ := hs.exists_call (.write frameTs chIdx pcm)
      obtain ⟨ticks, hticks, hne⟩ := @ih { s with jb := jb } (hs.call hjb).1 ht hrest
      refine ⟨ticks, ?_, hne⟩
      simp only [JitterBuffer.call] at hjb
      simp only [InputSide.ticks, hjb, Option.bind_eq_bind, Option.bind_some, hticks]
    | read out =>
      obtain ⟨s₁, t, hread, hsound, hthr, hframe⟩ := exists_readInputFrame hs ht hcall
      obtain ⟨ticks, hticks, hne⟩ := ih hsound (hthr ▸ ht) hrest
      refine ⟨t :: ticks, ?_, List.forall_mem_cons.mpr ⟨hframe, hne⟩⟩
      simp only [InputSide.ticks, hread, Option.bind_eq_bind, Option.bind_some, hticks]
      rfl

/-- **The gate over whole runs.**  With a threshold above zero, the gate lets
frame `n` in just when a frame at most `hangover` before it, or the frame itself,
is loud on channel 0.  A session contributes to the mix under that condition,
counted over the frames read since readout started, and not at all before; it
never panics. -/
theorem contributes_iff_recently_loud (threshold hangover : ℤ) (ht : 0 < threshold)
    (hh : 0 ≤ hangover) :
    (∀ frames : List (List (List Int16)), (∀ f ∈ frames, f ≠ []) →
      ∃ ds, VadGate.decisions ⟨threshold, hangover, 0⟩ frames = some ds ∧
        ds.length = frames.length ∧
        ∀ n d, ds[n]? = some d → (d = true ↔ RecentlyLoud threshold hangover frames n)) ∧
    ∀ frameSize ∈ validFrameSizes, ∀ calls : List JitterBuffer.Call,
      (∀ a ∈ calls, HasChannel a) →
      ∃ jb ticks, sessionJitterBuffer frameSize = .ok jb ∧
        (newInputSide jb threshold hangover).ticks calls = some ticks ∧
        (∀ t ∈ ticks, t.started = false → t.contributes = false) ∧
        ∀ n t, (startedTicks ticks)[n]? = some t → (t.contributes = true ↔
          RecentlyLoud threshold hangover ((startedTicks ticks).map Tick.frame) n) := by
  have hgate : ∀ frames : List (List (List Int16)), (∀ f ∈ frames, f ≠ []) →
      ∃ ds, VadGate.decisions ⟨threshold, hangover, 0⟩ frames = some ds ∧
        ds.length = frames.length ∧
        ∀ n d, ds[n]? = some d → (d = true ↔ RecentlyLoud threshold hangover frames n) := by
    intro frames hne
    obtain ⟨ds, hds, hlen, hall⟩ := @decisions_iff frames ⟨threshold, hangover, 0⟩ ht hh hh hne
    refine ⟨ds, hds, hlen, fun n d hd => ?_⟩
    -- no frame is owed any time at the start
    rw [hall n d hd]
    exact or_iff_left (not_lt.mpr (Int.natCast_nonneg n))
  refine ⟨hgate, fun frameSize hsize calls hcalls => ?_⟩
  obtain ⟨jb, hjb, hsound, -⟩ := sessionJitterBuffer_sound hsize
  obtain ⟨ticks, hticks, hne⟩ :=
    @exists_ticks calls (newInputSide jb threshold hangover) hsound ht hcalls
  obtain ⟨hsilent, hdecisions⟩ := ticks_decisions hticks
  refine ⟨jb, ticks, hjb, hticks, hsilent, fun n t hn => ?_⟩
  obtain ⟨ds, hds, -, hall⟩ := hgate ((startedTicks ticks).map Tick.frame) (by
    intro f hf
    obtain ⟨t, ht, rfl⟩ := List.mem_map.mp hf
    exact hne t (List.mem_filter.mp ht).1)
  obtain rfl := Option.some.inj (hdecisions.symm.trans hds)
  apply hall n t.contributes
  rw [List.getElem?_map, hn]
  rfl

/-- A threshold of 100 and a hangover of 2: the third quiet frame is gated. -/
theorem contributes_iff_recently_loud_test :
    VadGate.decisions ⟨100, 2, 0⟩ [[[-32768]], [[10]], [[10]], [[10]]]
        = some [true, true, true, false] ∧
      RecentlyLoud 100 2 [[[-32768]], [[10]], [[10]], [[10]]] 2 ∧
      ¬ RecentlyLoud 100 2 [[[-32768]], [[10]], [[10]], [[10]]] 3 := by
  have hdecisions : VadGate.decisions ⟨100, 2, 0⟩ [[[-32768]], [[10]], [[10]], [[10]]]
      = some [true, true, true, false] := by decide
  obtain ⟨ds, hds, -, hall⟩ := (contributes_iff_recently_loud 100 2 (by decide) (by decide)).1
    [[[-32768]], [[10]], [[10]], [[10]]] (by decide)
  obtain rfl := Option.some.inj (hdecisions.symm.trans hds)
  refine ⟨hdecisions, (hall 2 true rfl).mp rfl, fun hrecent => ?_⟩
  exact Bool.false_ne_true ((hall 3 false rfl).mpr hrecent)

end AmbiRTC
