/-
AmbiRTC/Prebuffer.lean

The depth of the playback buffer (client/engine.js `setFrameSize`,
`_updateAssemblyTimeout`, `_startPrebufAdaptation`).  Every two seconds the client
looks at the underruns the worklet has reported and deepens its prebuffer by a frame,
makes it half a frame shallower, or leaves it.  A client of the MCU with frames of at
most 20 ms aims at the jitter it has measured; others aim at two frames.

Depths are in samples.  The timeout of a frame is in 192nds of a millisecond, so that
a sample is four of them; the measured jitter is what a window rounds it to.

Main results: `Fitted.window` (one window, both schemes), `fitted_of_run`, and
`settles`: the depth a steady link leads to, and how soon.
-/
import AmbiRTC.Runs
import Mathlib.Algebra.Order.Group.Nat

namespace AmbiRTC.Prebuffer

open Runs

/-! ### The node -/

/-- `ASSEMBLY_TIMEOUT_FLOOR_MS`: 4 ms -/
def assemblyTimeoutFloor : ℕ := 4 * 192

/-- `PREBUF_MIN_FRAMES` -/
def prebufMinFrames : ℕ := 2

/-- `PREBUF_MAX_FRAMES` -/
def prebufMaxFrames : ℕ := 6

/-- `PLC_MAX_FRAME_SIZE` -/
def plcMaxFrameSize : ℕ := 960

/-- `Math.round(PREBUF_LOWLAT_FLOOR_FRAMES * frameSize)`: one and a half frames -/
def lowLatFloor (frameSize : ℕ) : ℕ := (3 * frameSize + 1) / 2

/-- `PREBUF_JITTER_K` -/
def prebufJitterK : ℕ := 3

/-- `PREBUF_UNDERRUN_THRESHOLD`: underruns per window before growing -/
def prebufUnderrunThreshold : ℕ := 2

/-- The frame sizes `setFrameSize` accepts. -/
def frameSizes : List ℕ := [120, 240, 480, 960, 1920, 2880]

/-- The fields of `AmbisonicsNode` the adaptation works on. -/
structure Node where
  frameSize : ℕ
  plcHold : Bool
  /-- current target in samples -/
  dynPrebuffer : ℕ
  /-- 192nds of a millisecond -/
  assemblyTimeout : ℕ
  /-- underruns accumulated in the current window -/
  underrunCount : ℕ
  deriving DecidableEq, Repr

/-- What the adaptation posts to the playback worklet. -/
inductive Post where
  | reanchor
  | config (prebuffer : ℕ)
  deriving DecidableEq, Repr

namespace Node

/-- `_updateAssemblyTimeout`: a frame and 15 ms, at most three quarters of the
prebuffer. -/
def updateAssemblyTimeout (p : Node) : Node :=
  let base := 4 * p.frameSize + 15 * 192
  { p with assemblyTimeout := max assemblyTimeoutFloor (min base (3 * p.dynPrebuffer)) }

/-- The constructor's part. -/
def new (frameSize : ℕ) : Node :=
  { frameSize := frameSize
    plcHold := frameSize ≤ plcMaxFrameSize
    dynPrebuffer := prebufMinFrames * frameSize
    assemblyTimeout := 0
    underrunCount := 0 : Node }.updateAssemblyTimeout

/-- `setFrameSize`; a size that is not accepted is a RangeError. -/
def setFrameSize (p : Node) (connected : Bool) (n : ℕ) : Option Node :=
  if n ∉ frameSizes then none
  else if connected then some p
  else some { p with
    frameSize := n
    plcHold := n ≤ plcMaxFrameSize
    dynPrebuffer := prebufMinFrames * n : Node }.updateAssemblyTimeout

/-! ### A window -/

/-- A new depth, after which playback waits until the buffer has filled to it. -/
def grow (p : Node) (next : ℕ) : Node × List Post :=
  if next ≠ p.dynPrebuffer then
    ({ p with dynPrebuffer := next }.updateAssemblyTimeout, [.reanchor, .config next])
  else (p, [])

/-- A new depth the buffer drains to. -/
def bleed (p : Node) (next : ℕ) : Node × List Post :=
  if next ≠ p.dynPrebuffer then
    ({ p with dynPrebuffer := next }.updateAssemblyTimeout, [.config next])
  else (p, [])

/-- The jitter-driven scheme. -/
def lowLatency (p : Node) (count jitterSm : ℕ) : Node × List Post :=
  let maxPrebuf := prebufMaxFrames * p.frameSize
  let floor := lowLatFloor p.frameSize
  let target := max floor (min maxPrebuf (prebufJitterK * jitterSm + p.frameSize))
  if count > prebufUnderrunThreshold then
    p.grow (max floor (min maxPrebuf (max target (p.dynPrebuffer + p.frameSize))))
  else if count = 0 ∧ p.dynPrebuffer > target then
    p.bleed (max target (p.dynPrebuffer - (p.frameSize + 1) / 2))
  else (p, [])

/-- The scheme of blind steps. -/
def conservative (p : Node) (count : ℕ) : Node × List Post :=
  let maxPrebuf := prebufMaxFrames * p.frameSize
  let minPrebuf := prebufMinFrames * p.frameSize
  if count > prebufUnderrunThreshold then p.grow (min (p.dynPrebuffer + p.frameSize) maxPrebuf)
  else if count = 0 ∧ p.dynPrebuffer > minPrebuf then
    p.bleed (max (p.dynPrebuffer - (p.frameSize + 1) / 2) minPrebuf)
  else (p, [])

/-- The end of a window of `_startPrebufAdaptation`. -/
def window (bundle : Bool) (p : Node) (jitterSm : ℕ) : Node × List Post :=
  let count := p.underrunCount
  let p := { p with underrunCount := 0 }
  if bundle && p.plcHold then p.lowLatency count jitterSm else p.conservative count

/-- An `underrun` message of the worklet. -/
def onUnderrun (p : Node) : Node := { p with underrunCount := p.underrunCount + 1 }

/-! ### What a window does -/

variable {bundle : Bool} {p p' : Node} {jitterSm : ℕ}

/-- The least depth of the scheme. -/
def leastDepth (bundle : Bool) (p : Node) : ℕ :=
  if bundle && p.plcHold then lowLatFloor p.frameSize else prebufMinFrames * p.frameSize

/-- The greatest depth. -/
def mostDepth (p : Node) : ℕ := prebufMaxFrames * p.frameSize

/-- The depth the scheme aims at. -/
def restDepth (bundle : Bool) (p : Node) (jitterSm : ℕ) : ℕ :=
  if bundle && p.plcHold then
    max (lowLatFloor p.frameSize) (min p.mostDepth (prebufJitterK * jitterSm + p.frameSize))
  else prebufMinFrames * p.frameSize

/-- The depth after a window, in either scheme. -/
def nextDepth (bundle : Bool) (p : Node) (jitterSm : ℕ) : ℕ :=
  if p.underrunCount > prebufUnderrunThreshold then
    min p.mostDepth (max (p.restDepth bundle jitterSm) (p.dynPrebuffer + p.frameSize))
  else if p.underrunCount = 0 then
    min p.dynPrebuffer (max (p.restDepth bundle jitterSm)
      (p.dynPrebuffer - (p.frameSize + 1) / 2))
  else p.dynPrebuffer

/-- The timeout is the one of these sizes, and the depth within its bounds. -/
structure Fitted (bundle : Bool) (p : Node) : Prop where
  hold : p.plcHold = decide (p.frameSize ≤ plcMaxFrameSize)
  timeout : p.updateAssemblyTimeout = p
  least : p.leastDepth bundle ≤ p.dynPrebuffer
  most : p.dynPrebuffer ≤ p.mostDepth

/-- The prebuffer becomes `next` samples, the timeout follows, and a new window
begins. -/
def settle (p : Node) (next : ℕ) : Node :=
  { p with dynPrebuffer := next, underrunCount := 0 }.updateAssemblyTimeout

@[simp] theorem frameSize_settle (next : ℕ) : (p.settle next).frameSize = p.frameSize := rfl

@[simp] theorem plcHold_settle (next : ℕ) : (p.settle next).plcHold = p.plcHold := rfl

@[simp] theorem dynPrebuffer_settle (next : ℕ) : (p.settle next).dynPrebuffer = next := rfl

@[simp] theorem underrunCount_settle (next : ℕ) : (p.settle next).underrunCount = 0 := rfl

@[simp] theorem restDepth_settle (next : ℕ) :
    (p.settle next).restDepth bundle jitterSm = p.restDepth bundle jitterSm := rfl

@[simp] theorem leastDepth_settle (next : ℕ) :
    (p.settle next).leastDepth bundle = p.leastDepth bundle := rfl

@[simp] theorem mostDepth_settle (next : ℕ) : (p.settle next).mostDepth = p.mostDepth := rfl

/-- What is posted with a new depth: a reanchor, if it is deeper, and the depth. -/
def announced (p : Node) (next : ℕ) : List Post :=
  if p.dynPrebuffer < next then [.reanchor, .config next]
  else if next < p.dynPrebuffer then [.config next]
  else []

theorem least_le_rest : p.leastDepth bundle ≤ p.restDepth bundle jitterSm := by
  unfold leastDepth restDepth
  split
  · exact le_max_left _ _
  · exact le_refl _

theorem rest_le_most : p.restDepth bundle jitterSm ≤ p.mostDepth := by
  unfold restDepth mostDepth lowLatFloor prebufMaxFrames prebufMinFrames
  split <;> omega

theorem settle_self (h : p.updateAssemblyTimeout = p) :
    p.settle p.dynPrebuffer = { p with underrunCount := 0 } := by
  show { p.updateAssemblyTimeout with underrunCount := 0 } = _
  rw [h]

theorem grow_eq (h : p.updateAssemblyTimeout = p) {next : ℕ} (hle : p.dynPrebuffer ≤ next) :
    { p with underrunCount := 0 }.grow next = (p.settle next, p.announced next) := by
  unfold grow announced
  rcases hle.eq_or_lt with rfl | hlt
  · simp [settle_self h]
  · rw [if_pos hlt.ne', if_pos hlt]
    rfl

theorem bleed_eq (h : p.updateAssemblyTimeout = p) {next : ℕ} (hle : next ≤ p.dynPrebuffer) :
    { p with underrunCount := 0 }.bleed next = (p.settle next, p.announced next) := by
  unfold bleed announced
  rcases hle.eq_or_lt with rfl | hlt
  · simp [settle_self h]
  · rw [if_pos hlt.ne, if_neg hlt.not_gt, if_pos hlt]
    rfl

theorem stay_eq (h : p.updateAssemblyTimeout = p) :
    ({ p with underrunCount := 0 }, [])
      = (p.settle p.dynPrebuffer, p.announced p.dynPrebuffer) := by
  rw [settle_self h]
  simp [announced]

/-- **What the end of a window does**, in both schemes: it moves to the next depth,
and announces it. -/
theorem Fitted.window_eq (h : Fitted bundle p) (jitterSm : ℕ) :
    p.window bundle jitterSm
      = (p.settle (p.nextDepth bundle jitterSm), p.announced (p.nextDepth bundle jitterSm)) := by
  have hleast := h.least
  have hmost := h.most
  unfold window
  simp only
  by_cases hscheme : (bundle && p.plcHold) = true
  -- the low-latency scheme: the bounds make the clamps of the code disappear
  · have hrest := @rest_le_most bundle p jitterSm
    have hfloor := @least_le_rest bundle p jitterSm
    rw [leastDepth, if_pos hscheme] at hleast hfloor
    rw [if_pos hscheme]
    unfold lowLatency nextDepth
    simp only
    rw [show max (lowLatFloor p.frameSize) (min (prebufMaxFrames * p.frameSize)
      (prebufJitterK * jitterSm + p.frameSize)) = p.restDepth bundle jitterSm by
        rw [restDepth, if_pos hscheme]
        rfl]
    rw [show prebufMaxFrames * p.frameSize = p.mostDepth from rfl]
    by_cases hmany : p.underrunCount > prebufUnderrunThreshold
    -- too many underruns: grow
    · rw [if_pos hmany, if_pos hmany, max_eq_right (by omega)]
      exact grow_eq h.timeout (by omega)
    · rw [if_neg hmany, if_neg hmany]
      by_cases hnone : p.underrunCount = 0
      · rw [if_pos hnone]
        by_cases hdeep : p.dynPrebuffer > p.restDepth bundle jitterSm
        -- none, and deeper than at rest: bleed
        · rw [if_pos ⟨hnone, hdeep⟩, min_eq_right (by omega)]
          exact bleed_eq h.timeout (by omega)
        · rw [if_neg fun hc => hdeep hc.2, min_eq_left (by omega)]
          exact stay_eq h.timeout
      · rw [if_neg fun hc => hnone hc.1, if_neg hnone]
        exact stay_eq h.timeout
  -- the conservative scheme, the same three cases
  · rw [leastDepth, if_neg hscheme] at hleast
    rw [if_neg hscheme]
    unfold conservative nextDepth
    simp only
    rw [show prebufMaxFrames * p.frameSize = p.mostDepth from rfl, restDepth, if_neg hscheme]
    by_cases hmany : p.underrunCount > prebufUnderrunThreshold
    · rw [if_pos hmany, if_pos hmany, min_comm,
        max_eq_right (show prebufMinFrames * p.frameSize ≤ p.dynPrebuffer + p.frameSize by omega)]
      exact grow_eq h.timeout (by unfold mostDepth at hmost ⊢; omega)
    · rw [if_neg hmany, if_neg hmany]
      by_cases hnone : p.underrunCount = 0
      · rw [if_pos hnone]
        by_cases hdeep : p.dynPrebuffer > prebufMinFrames * p.frameSize
        · rw [if_pos ⟨hnone, hdeep⟩, max_comm, min_eq_right (by omega)]
          exact bleed_eq h.timeout (by omega)
        · rw [if_neg fun hc => hdeep hc.2, min_eq_left (by omega)]
          exact stay_eq h.timeout
      · rw [if_neg fun hc => hnone hc.1, if_neg hnone]
        exact stay_eq h.timeout

/-! ### Bounds -/

theorem Fitted.settle (h : Fitted bundle p) {next : ℕ} (hleast : p.leastDepth bundle ≤ next)
    (hmost : next ≤ p.mostDepth) : Fitted bundle (p.settle next) :=
  ⟨h.hold, rfl, hleast, hmost⟩

theorem Fitted.next_bounds (h : Fitted bundle p) (jitterSm : ℕ) :
    p.leastDepth bundle ≤ p.nextDepth bundle jitterSm ∧
      p.nextDepth bundle jitterSm ≤ p.mostDepth := by
  have hleast := h.least
  have hmost := h.most
  have hfloor := @least_le_rest bundle p jitterSm
  have hrest := @rest_le_most bundle p jitterSm
  unfold nextDepth
  split
  · omega
  · split <;> omega

theorem Fitted.window (h : Fitted bundle p) (jitterSm : ℕ) :
    Fitted bundle (p.window bundle jitterSm).1 := by
  obtain ⟨hleast, hmost⟩ := h.next_bounds jitterSm
  rw [h.window_eq jitterSm]
  exact h.settle hleast hmost

theorem Fitted.onUnderrun (h : Fitted bundle p) : Fitted bundle p.onUnderrun :=
  ⟨h.hold, congrArg Node.onUnderrun h.timeout, h.least, h.most⟩

/-- Two frames are within the bounds of either scheme. -/
theorem fitted_new (bundle : Bool) {frameSize : ℕ} (hpos : 0 < frameSize) :
    Fitted bundle (new frameSize) := by
  refine ⟨rfl, rfl, ?_, ?_⟩
  · unfold leastDepth lowLatFloor
    show _ ≤ prebufMinFrames * frameSize
    split
    · show (3 * frameSize + 1) / 2 ≤ 2 * frameSize
      omega
    · exact le_refl _
  · show 2 * frameSize ≤ 6 * frameSize
    omega

theorem Fitted.setFrameSize (h : Fitted bundle p) {connected : Bool} {n : ℕ}
    (hset : p.setFrameSize connected n = some p') : Fitted bundle p' := by
  unfold Node.setFrameSize at hset
  split at hset
  · cases hset
  · rename_i hvalid
    split at hset
    · obtain rfl := Option.some.inj hset
      exact h
    · obtain rfl := Option.some.inj hset
      have hpos : 0 < n := by
        rcases n with - | n
        · exact absurd (by decide) hvalid
        · exact Nat.succ_pos n
      have hnew := fitted_new bundle hpos
      exact ⟨rfl, rfl, hnew.least, hnew.most⟩

end Node

/-! ### Runs -/

/-- What may happen next. -/
inductive Action where
  | underrun
  /-- two seconds have passed -/
  | window (jitterSm : ℕ)
  /-- an offer, or the page, sets the frame size -/
  | setFrameSize (connected : Bool) (n : ℕ)

/-- One step. -/
def step (bundle : Bool) (p : Node) : Action → Option Node
  | .underrun => some p.onUnderrun
  | .window jitterSm => some (p.window bundle jitterSm).1
  | .setFrameSize connected n => p.setFrameSize connected n

open Node

variable {bundle : Bool} {p p' : Node}

theorem Node.Fitted.step {a : Action} (h : Fitted bundle p) (ha : step bundle p a = some p') :
    Fitted bundle p' := by
  cases a with
  | underrun =>
    obtain rfl := Option.some.inj ha
    exact h.onUnderrun
  | window jitterSm =>
    obtain rfl := Option.some.inj ha
    exact h.window jitterSm
  | setFrameSize connected n => exact h.setFrameSize ha

/-- Whatever the sizes set, the underruns and the jitter. -/
theorem fitted_of_run {as : List Action} (h : Fitted bundle p) (hrun : Run (step bundle) p as p') :
    Fitted bundle p' :=
  hrun.invariant (fun _ _ _ h ha => h.step ha) h

/-! ### A steady link -/

/-- Windows without an underrun bring the depth down to where it rests, half a frame
each. -/
theorem dynPrebuffer_quiet {jitterSm n : ℕ} (h : Fitted bundle p) (hcount : p.underrunCount = 0)
    (hrun : Run (step bundle) p (List.replicate n (.window jitterSm)) p') :
    p'.dynPrebuffer = min p.dynPrebuffer
      (max (p.restDepth bundle jitterSm) (p.dynPrebuffer - n * ((p.frameSize + 1) / 2))) := by
  induction n generalizing p with
  | zero =>
    obtain rfl := run_nil_iff.mp hrun
    omega
  | succ n ih =>
    rw [List.replicate_succ] at hrun
    obtain ⟨p₁, ha, hrun⟩ := run_cons_iff.mp hrun
    obtain rfl := Option.some.inj ha
    have hfit := h.window jitterSm
    rw [h.window_eq jitterSm] at hrun hfit
    have hlater := ih hfit rfl hrun
    have hnext : p.nextDepth bundle jitterSm = min p.dynPrebuffer
        (max (p.restDepth bundle jitterSm) (p.dynPrebuffer - (p.frameSize + 1) / 2)) := by
      rw [nextDepth, hcount, if_neg (Nat.not_lt_zero _), if_pos rfl]
    rw [restDepth_settle, dynPrebuffer_settle, frameSize_settle, hnext] at hlater
    rw [hlater, Nat.succ_mul]
    omega

/-- A window in which playback ran dry `count` times. -/
def dryWindow (count jitterSm : ℕ) : List Action :=
  List.replicate count .underrun ++ [.window jitterSm]

/-- Underruns are counted, and change nothing else. -/
theorem run_underruns {n : ℕ} (hrun : Run (step bundle) p (List.replicate n .underrun) p') :
    p' = { p with underrunCount := p.underrunCount + n } := by
  induction n generalizing p with
  | zero =>
    obtain rfl := run_nil_iff.mp hrun
    rfl
  | succ n ih =>
    rw [List.replicate_succ] at hrun
    obtain ⟨p₁, ha, hrun⟩ := run_cons_iff.mp hrun
    obtain rfl := Option.some.inj ha
    rw [ih hrun]
    simp only [Node.onUnderrun, Node.mk.injEq, true_and]
    omega

/-- A window with more underruns than the threshold adds a frame, up to the most. -/
theorem grows_of_dry {count jitterSm : ℕ} (h : Fitted bundle p)
    (hcount : prebufUnderrunThreshold < count)
    (hrun : Run (step bundle) p (dryWindow count jitterSm) p') :
    p'.frameSize = p.frameSize ∧
      min p.mostDepth (p.dynPrebuffer + p.frameSize) ≤ p'.dynPrebuffer := by
  obtain ⟨p₁, hunder, hwindow⟩ := run_append_iff.mp hrun
  have hfit := fitted_of_run h hunder
  obtain rfl := run_underruns hunder
  obtain ⟨p₂, ha, hnil⟩ := run_cons_iff.mp hwindow
  obtain rfl := Option.some.inj ha
  obtain rfl := run_nil_iff.mp hnil
  rw [hfit.window_eq jitterSm, frameSize_settle, dynPrebuffer_settle, nextDepth, if_pos]
  · refine ⟨rfl, ?_⟩
    show min p.mostDepth _ ≤ min p.mostDepth (max _ (p.dynPrebuffer + p.frameSize))
    omega
  · show prebufUnderrunThreshold < p.underrunCount + count
    omega

theorem dynPrebuffer_dry {dry : List (ℕ × ℕ)} (h : Fitted bundle p)
    (hcount : ∀ w ∈ dry, prebufUnderrunThreshold < w.1)
    (hrun : Run (step bundle) p (dry.flatMap fun w => dryWindow w.1 w.2) p') :
    p'.frameSize = p.frameSize ∧
      min p.mostDepth (p.dynPrebuffer + dry.length * p.frameSize) ≤ p'.dynPrebuffer := by
  induction dry generalizing p with
  | nil =>
    obtain rfl := run_nil_iff.mp hrun
    exact ⟨rfl, by simp⟩
  | cons w dry ih =>
    rw [List.flatMap_cons] at hrun
    obtain ⟨p₁, hfirst, hrest⟩ := run_append_iff.mp hrun
    obtain ⟨hsize, hgrown⟩ := grows_of_dry h (hcount w List.mem_cons_self) hfirst
    obtain ⟨hsize', hgrown'⟩ := ih (fitted_of_run h hfirst)
      (fun w' hw' => hcount w' (List.mem_cons_of_mem _ hw')) hrest
    refine ⟨hsize'.trans hsize, ?_⟩
    rw [mostDepth, hsize] at hgrown'
    rw [mostDepth] at hgrown ⊢
    rw [List.length_cons, Nat.succ_mul]
    omega

/-- **The prebuffer settles.**  Whatever came before, it is between the least and the
most of its scheme; nine quiet windows of the same jitter take it down to where it
rests, and leave it if it is shallower; and five dry windows take it to the most, from
anywhere. -/
theorem settles {frameSize : ℕ} (hpos : 0 < frameSize) {as : List Action}
    (hrun : Run (step bundle) (Node.new frameSize) as p) :
    Fitted bundle p ∧
      (∀ n jitterSm p', 9 ≤ n → p.underrunCount = 0 →
        Run (step bundle) p (List.replicate n (.window jitterSm)) p' →
        p'.dynPrebuffer = min p.dynPrebuffer (p.restDepth bundle jitterSm)) ∧
      ∀ (dry : List (ℕ × ℕ)) p', 5 ≤ dry.length →
        (∀ w ∈ dry, prebufUnderrunThreshold < w.1) →
        Run (step bundle) p (dry.flatMap fun w => dryWindow w.1 w.2) p' →
        p'.dynPrebuffer = p.mostDepth := by
  have hfit := fitted_of_run (fitted_new bundle hpos) hrun
  have hleast := hfit.least
  have hmost := hfit.most
  have hspread : 2 * p.mostDepth ≤ 2 * p.leastDepth bundle + 9 * p.frameSize := by
    unfold mostDepth leastDepth lowLatFloor prebufMaxFrames prebufMinFrames
    split <;> omega
  refine ⟨hfit, fun n jitterSm p' hn hcount hquiet => ?_, fun dry p' hlen hcount hdry => ?_⟩
  · have hfloor := @least_le_rest bundle p jitterSm
    have henough : 9 * ((p.frameSize + 1) / 2) ≤ n * ((p.frameSize + 1) / 2) :=
      Nat.mul_le_mul_right _ hn
    rw [dynPrebuffer_quiet hfit hcount hquiet]
    omega
  · obtain ⟨hsize, hgrown⟩ := dynPrebuffer_dry hfit hcount hdry
    have hmost' := (fitted_of_run hfit hdry).most
    have henough : 5 * p.frameSize ≤ dry.length * p.frameSize := Nat.mul_le_mul_right _ hlen
    rw [mostDepth, hsize, ← mostDepth] at hmost'
    omega

/-- With 10 ms frames: a dry window takes the prebuffer to three frames, and nine quiet
ones without jitter to one and a half. -/
theorem settles_tenMs : ∃ p p', Run (step true) (Node.new 480) (dryWindow 3 40) p ∧
    p.dynPrebuffer = 1440 ∧ Run (step true) p (List.replicate 9 (.window 0)) p' ∧
    p'.dynPrebuffer = 720 := by
  have hdry : Run (step true) (Node.new 480) (dryWindow 3 40) ((Node.new 480).settle 1440) :=
    .of_exec rfl
  have hquiet : Run (step true) ((Node.new 480).settle 1440) (List.replicate 9 (.window 0))
      ((Node.new 480).settle 720) := .of_exec rfl
  exact ⟨_, _, hdry, rfl, hquiet,
    (settles (by decide) hdry).2.1 9 0 _ (le_refl 9) rfl hquiet⟩

end AmbiRTC.Prebuffer
