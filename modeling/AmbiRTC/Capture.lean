/-
AmbiRTC/Capture.lean

Audio on its way in.  The sender worklet of the browser
(client/worklet-sender.js) and the audio callback of the bridges
(bridges/asio_ws_bridge.py and pipewire_ws_bridge.py, which do the same here) are
handed blocks of whatever length the driver chooses, and cut them into frames:
the worklet in sixteen planes, the bridges in rows of sixteen samples.

The worklet posts a frame to the main thread; a bridge has the event loop put it
into its queue, which is where `Bridge.lean` takes it up.
-/
import AmbiRTC.Bridge
import AmbiRTC.Reblock
import Mathlib.Data.List.GetD
import Mathlib.Logic.Function.Basic

namespace AmbiRTC.Capture

open Reblock

variable {α : Type}

/-- `CHANNELS`; `NUM_CHANNELS` in the bridges. -/
def CHANNELS : ℕ := 16

/-! ### The sender worklet -/

/-- An input of `process`: one plane for each channel, all of a length. -/
structure Input (α : Type) where
  channels : List (List α)
  planar : ∀ ch ∈ channels, ch.length = (channels.headD []).length

/-- What is posted to the main thread. -/
structure Message (α : Type) where
  timestamp : ℕ
  channels : Fin CHANNELS → List α

/-- `SenderProcessor`. -/
structure SenderProcessor (α : Type) where
  frameSize : ℕ
  buf : Fin CHANNELS → List α
  /-- samples accumulated in the current frame -/
  fill : ℕ
  /-- running timestamp in samples -/
  ts : ℕ

namespace SenderProcessor

/-- The constructor. -/
def new [Zero α] : SenderProcessor α where
  frameSize := 960
  buf := fun _ => List.replicate 960 0
  fill := 0
  ts := 0

/-- A `config` message. -/
def config [Zero α] (p : SenderProcessor α) : Option ℕ → SenderProcessor α
  | none => p
  | some frameSize =>
    { frameSize := frameSize, buf := fun _ => List.replicate frameSize 0, fill := 0, ts := 0 }

end SenderProcessor

namespace Input

/-- `blockSize`. -/
def blockSize (input : Input α) : ℕ := (input.channels.headD []).length

/-- `input[c] ?? input[0]`. -/
def channel (input : Input α) (c : Fin CHANNELS) : List α :=
  input.channels.getD c.val (input.channels.headD [])

theorem length_channel (input : Input α) (c : Fin CHANNELS) :
    (input.channel c).length = input.blockSize := by
  by_cases hc : c.val < input.channels.length
  · rw [channel, List.getD_eq_getElem _ _ hc]
    exact input.planar _ (List.getElem_mem hc)
  · rw [channel, List.getD_eq_default _ _ (not_lt.mp hc), blockSize]

end Input

namespace SenderProcessor

/-- The loop over the channels that copies a piece of the block. -/
def copyChannels (input : Input α) (offset toCopy fill : ℕ) :
    List (Fin CHANNELS) → (Fin CHANNELS → List α) → Option (Fin CHANNELS → List α)
  | [], buf => some buf
  | c :: rest, buf => do
    let plane ← overwrite (buf c) (((input.channel c).drop offset).take toCopy) fill
    copyChannels input offset toCopy fill rest (Function.update buf c plane)

/-- Post a complete frame and start the next one. -/
def post [Zero α] (p : SenderProcessor α) : SenderProcessor α × List (Message α) :=
  if p.fill = p.frameSize then
    ({ p with
        buf := fun _ => List.replicate p.frameSize 0
        ts := p.ts + p.frameSize
        fill := 0 }, [⟨p.ts, p.buf⟩])
  else (p, [])

/-- The `while` loop of `process`, at most `room` turns: the processor
afterwards and what it has posted. -/
def processLoop [Zero α] (input : Input α) :
    ℕ → ℕ → SenderProcessor α → Option (SenderProcessor α × List (Message α))
  | 0, offset, p => if offset < input.blockSize then none else some (p, [])
  | room + 1, offset, p =>
    if offset < input.blockSize then do
      let toCopy := min (input.blockSize - offset) (p.frameSize - p.fill)
      let buf ← copyChannels input offset toCopy p.fill (List.finRange CHANNELS) p.buf
      let now := post { p with buf := buf, fill := p.fill + toCopy }
      let later ← processLoop input room (offset + toCopy) now.1
      return (later.1, now.2 ++ later.2)
    else some (p, [])

/-- `process`.  A turn of its loop copies a sample at least, so that the length
of the block is turns enough. -/
def process [Zero α] (p : SenderProcessor α) (inputs : List (Input α)) :
    Option (SenderProcessor α × List (Message α)) :=
  match inputs.head? with
  | none => some (p, [])
  | some input =>
    if input.channels.length = 0 then some (p, [])
    else processLoop input input.blockSize 0 p

/-- The audio engine calls `process` block by block. -/
def processAll [Zero α] :
    SenderProcessor α → List (List (Input α)) → Option (SenderProcessor α × List (Message α))
  | p, [] => some (p, [])
  | p, inputs :: rest => do
    let now ← p.process inputs
    let later ← processAll now.1 rest
    return (later.1, now.2 ++ later.2)

end SenderProcessor

/-! ### The callback of the bridges -/

/-- One sample of every channel. -/
def Row (α : Type) : Type := Fin CHANNELS → α

/-- The fields of `AudioBridge` that the callback uses. -/
structure CallbackState (α : Type) where
  /-- `_loop` and `_queue` have been set -/
  running : Bool
  accum : List (Row α)
  accumFill : ℕ
  bridge : Bridge.AudioBridge (List (Row α))

namespace CallbackState

/-- A bridge that has just been started. -/
def start [Zero α] (outputFrame : ℕ) : CallbackState α where
  running := true
  accum := List.replicate outputFrame fun _ => 0
  accumFill := 0
  bridge := Bridge.start

/-- Stamp a complete frame and schedule it; `none` is the OverflowError of a
clock beyond eight bytes. -/
def finish (outputFrame : ℕ) (s : CallbackState α) : Option (CallbackState α) :=
  if s.accumFill = outputFrame then
    (s.bridge.frameComplete outputFrame s.accum).map fun bridge =>
      { s with bridge := bridge, accumFill := 0 }
  else some s

/-- The `while` loop of `_audio_callback`, at most `room` turns. -/
def callbackLoop (outputFrame : ℕ) (block : List (Row α)) :
    ℕ → ℕ → CallbackState α → Option (CallbackState α)
  | 0, offset, s => if offset < block.length then none else some s
  | room + 1, offset, s =>
    if offset < block.length then do
      let space := outputFrame - s.accumFill
      let toCopy := min space (block.length - offset)
      let accum ← overwrite s.accum ((block.drop offset).take toCopy) s.accumFill
      let s ← finish outputFrame { s with accum := accum, accumFill := s.accumFill + toCopy }
      callbackLoop outputFrame block room (offset + toCopy) s
    else some s

/-- `_audio_callback`. -/
def audioCallback (outputFrame : ℕ) (s : CallbackState α) (block : List (Row α)) :
    Option (CallbackState α) :=
  if !s.running then some s else callbackLoop outputFrame block block.length 0 s

/-- The driver calls `_audio_callback` block by block. -/
def audioCallbacks (outputFrame : ℕ) :
    CallbackState α → List (List (Row α)) → Option (CallbackState α)
  | s, [] => some s
  | s, block :: rest => do audioCallbacks outputFrame (← s.audioCallback outputFrame block) rest

end CallbackState

/-! ### The worklet, frame by frame -/

/-- The samples `process` has been handed for channel `c`. -/
def samples (calls : List (List (Input α))) (c : Fin CHANNELS) : List α :=
  calls.flatMap fun inputs => (inputs.head?.map fun input => input.channel c).getD []

/-- After `n` samples `xs c` of every channel: the complete frames are posted
and the rest is in the buffers. -/
structure Captured (F n : ℕ) (xs : Fin CHANNELS → List α) (p : SenderProcessor α)
    (posted : List (Message α)) : Prop where
  length : ∀ c, (xs c).length = n
  frameSize : p.frameSize = F
  holds : ∀ c, Holds F (xs c) (p.buf c) p.fill
  ts : p.ts = n / F * F
  posted : posted = (List.range (n / F)).map fun k => ⟨k * F, fun c => frame F (xs c) k⟩

namespace Captured

variable {F n : ℕ} {xs : Fin CHANNELS → List α} {p : SenderProcessor α} {posted : List (Message α)}

theorem fill_eq (h : Captured F n xs p posted) : p.fill = n % F := by
  rw [(h.holds ⟨0, by decide⟩).fill_eq, h.length]

theorem config [Zero α] (q : SenderProcessor α) (F : ℕ) :
    Captured F 0 (fun _ => []) (q.config (some F)) ([] : List (Message α)) where
  length _ := rfl
  frameSize := rfl
  holds _ := holds_zero List.length_replicate (Nat.zero_mod F)
  ts := by rw [Nat.zero_div, Nat.zero_mul]; rfl
  posted := by rw [Nat.zero_div]; rfl

/-- The copy loop writes each plane once, and no other. -/
theorem exists_copyChannels {input : Input α} {offset toCopy fill : ℕ} {new : Fin CHANNELS → List α}
    (cs : List (Fin CHANNELS)) (hnodup : cs.Nodup) (buf : Fin CHANNELS → List α)
    (hnew : ∀ c ∈ cs, overwrite (buf c) (((input.channel c).drop offset).take toCopy) fill
      = some (new c)) :
    ∃ buf', SenderProcessor.copyChannels input offset toCopy fill cs buf = some buf' ∧
      (∀ c, c ∈ cs → buf' c = new c) ∧ ∀ c, c ∉ cs → buf' c = buf c := by
  induction cs generalizing buf with
  | nil => exact ⟨buf, rfl, fun c hc => absurd hc List.not_mem_nil, fun c _ => rfl⟩
  | cons c cs ih =>
    obtain ⟨hc, hnodup'⟩ := List.nodup_cons.mp hnodup
    obtain ⟨buf', hrest, hwritten, hkept⟩ := ih hnodup' (Function.update buf c (new c))
      fun d hd => by
        have hne : d ≠ c := fun he => hc (he ▸ hd)
        rw [Function.update_of_ne hne]
        exact hnew d (List.mem_cons_of_mem _ hd)
    refine ⟨buf', ?_, fun d hd => ?_, fun d hd => ?_⟩
    · rw [SenderProcessor.copyChannels, hnew c List.mem_cons_self, Option.bind_eq_bind,
        Option.bind_some, hrest]
    · rcases List.mem_cons.mp hd with rfl | hd
      · rw [hkept d hc, Function.update_self]
      · exact hwritten d hd
    · have hne : d ≠ c := fun he => hd (he ▸ List.mem_cons_self)
      rw [hkept d fun hmem => hd (List.mem_cons_of_mem _ hmem), Function.update_of_ne hne]

/-- Behind the end of the block there is nothing left to hand on. -/
theorem block_done {input : Input α} {offset : ℕ} (h : Captured F n xs p posted)
    (hge : ¬ offset < input.blockSize) :
    Captured F (n + (input.blockSize - offset)) (fun c => xs c ++ (input.channel c).drop offset)
      p (posted ++ []) := by
  have hnil : ∀ c, (input.channel c).drop offset = [] := fun c =>
    List.drop_eq_nil_of_le (by rw [input.length_channel]; omega)
  simpa only [hnil, List.append_nil, Nat.sub_eq_zero_of_le (not_lt.mp hge), Nat.add_zero] using h

variable [Zero α]

/-- Posting, after `m` samples more of every channel have been copied. -/
theorem post {ys : Fin CHANNELS → List α} {buf : Fin CHANNELS → List α} {m : ℕ} (hF : 0 < F)
    (h : Captured F n xs p posted) (hys : ∀ c, (ys c).length = m) (hfit : p.fill + m ≤ F)
    (hlen : ∀ c, (buf c).length = F)
    (htake : ∀ c, (buf c).take (p.fill + m) = held F (xs c) ++ ys c) :
    Captured F (n + m) (fun c => xs c ++ ys c)
      (SenderProcessor.post { p with buf := buf, fill := p.fill + m }).1
      (posted ++ (SenderProcessor.post { p with buf := buf, fill := p.fill + m }).2) := by
  have hfill := h.fill_eq
  have hlength : ∀ c, (xs c ++ ys c).length = n + m := fun c => by
    rw [List.length_append, h.length, hys]
  -- the frames posted before stay as they are
  have hold : (List.range (n / F)).map
      (fun k => (⟨k * F, fun c => frame F (xs c ++ ys c) k⟩ : Message α)) = posted := by
    rw [h.posted]
    refine List.map_congr_left fun k hk => ?_
    congr 1
    funext c
    apply frame_append
    rw [h.length c]
    exact List.mem_range.mp hk
  by_cases hfull : p.fill + m = F
  · obtain ⟨hdiv, hmod⟩ := count_of_eq hF (hfill ▸ hfull)
    -- the frame is full: it is posted, and the buffers begin anew
    have hpost : SenderProcessor.post { p with buf := buf, fill := p.fill + m }
        = ({ p with buf := fun _ => List.replicate p.frameSize 0
                    ts := p.ts + p.frameSize, fill := 0 }, [⟨p.ts, buf⟩]) :=
      if_pos (hfull.trans h.frameSize.symm)
    have hframe : ∀ c, frame F (xs c ++ ys c) (n / F) = buf c := fun c => by
      rw [← h.length c]
      exact (h.holds c).full_frame (hlen c) (by rw [hys]; exact htake c) (by rw [hys, hfull])
    rw [hpost]
    constructor
    case length => exact hlength
    case frameSize => exact h.frameSize
    case holds =>
      intro c
      exact holds_zero (by rw [List.length_replicate, h.frameSize]) (by rw [hlength, hmod])
    case ts =>
      show p.ts + p.frameSize = _
      rw [hdiv, h.ts, h.frameSize, Nat.add_mul, Nat.one_mul]
    case posted =>
      rw [hdiv, List.range_succ, List.map_append, hold, List.map_singleton, h.ts]
      simp only [hframe]
  · have hroom : p.fill + m < F := lt_of_le_of_ne hfit hfull
    obtain ⟨hdiv, hmod⟩ := count_of_lt (hfill ▸ hroom)
    -- the frame is not full yet
    have hpost : SenderProcessor.post { p with buf := buf, fill := p.fill + m }
        = ({ p with buf := buf, fill := p.fill + m }, []) :=
      if_neg fun heq => hfull (heq.trans h.frameSize)
    rw [hpost]
    constructor
    case length => exact hlength
    case frameSize => exact h.frameSize
    case holds =>
      intro c
      have hnext := (h.holds c).partial_frame (hlen c) (by rw [hys]; exact htake c)
        (by rw [hys]; exact hroom)
      rwa [hys] at hnext
    case ts => rw [hdiv]; exact h.ts
    case posted => rw [hdiv, hold, List.append_nil]

/-- One turn: a piece of at least one sample is copied into every plane. -/
theorem turn {input : Input α} {offset : ℕ} (hF : 0 < F) (h : Captured F n xs p posted)
    (hlt : offset < input.blockSize) :
    ∃ m buf, 0 < m ∧ offset + m ≤ input.blockSize ∧
      m = min (input.blockSize - offset) (p.frameSize - p.fill) ∧
      SenderProcessor.copyChannels input offset m p.fill (List.finRange CHANNELS) p.buf = some buf ∧
      Captured F (n + m) (fun c => xs c ++ ((input.channel c).drop offset).take m)
        (SenderProcessor.post { p with buf := buf, fill := p.fill + m }).1
        (posted ++ (SenderProcessor.post { p with buf := buf, fill := p.fill + m }).2) := by
  have hfill : p.fill < p.frameSize := by
    rw [h.fill_eq, h.frameSize]
    exact Nat.mod_lt n hF
  have hsize := h.frameSize
  obtain ⟨m, hm⟩ : ∃ m, m = min (input.blockSize - offset) (p.frameSize - p.fill) := ⟨_, rfl⟩
  have hys : ∀ c, (((input.channel c).drop offset).take m).length = m := fun c => by
    rw [List.length_take, List.length_drop, input.length_channel]
    omega
  have hcopy : ∀ c, ∃ new, overwrite (p.buf c) (((input.channel c).drop offset).take m) p.fill
      = some new ∧ new.length = F ∧
        new.take (p.fill + m) = held F (xs c) ++ ((input.channel c).drop offset).take m := by
    intro c
    have hfit : p.fill + (((input.channel c).drop offset).take m).length ≤ F := by
      rw [hys]
      omega
    have := (h.holds c).exists_overwrite hfit
    rwa [hys] at this
  choose buf hnew hlen htake using hcopy
  refine ⟨m, buf, by omega, by omega, hm, ?_, h.post hF hys (by omega) hlen htake⟩
  obtain ⟨buf', hcopied, hwritten, -⟩ :=
    exists_copyChannels _ (List.nodup_finRange _) p.buf fun c _ => hnew c
  have hall : buf' = buf := by
    funext c
    exact hwritten c (List.mem_finRange c)
  rw [hcopied, hall]

/-- The loop hands on what the block has left, and ends. -/
theorem processLoop (hF : 0 < F) (input : Input α) (room offset : ℕ)
    (h : Captured F n xs p posted) (hroom : input.blockSize ≤ offset + room) :
    ∃ p' later, SenderProcessor.processLoop input room offset p = some (p', later) ∧
      Captured F (n + (input.blockSize - offset)) (fun c => xs c ++ (input.channel c).drop offset)
        p' (posted ++ later) := by
  induction room generalizing n xs p posted offset with
  | zero =>
    have hge : ¬ offset < input.blockSize := by omega
    exact ⟨p, [], by rw [SenderProcessor.processLoop, if_neg hge], h.block_done hge⟩
  | succ room ih =>
    by_cases hlt : offset < input.blockSize
    · obtain ⟨m, buf, hpos, hle, hm, hcopy, hnext⟩ := h.turn hF hlt
      obtain ⟨p', later, hloop, hcap⟩ := ih (offset + m) hnext (by omega)
      refine ⟨p', (SenderProcessor.post { p with buf := buf, fill := p.fill + m }).2 ++ later,
        ?_, ?_⟩
      · rw [SenderProcessor.processLoop, if_pos hlt]
        simp only [← hm, hcopy, Option.bind_eq_bind, Option.bind_some, hloop]
        rfl
      · -- the piece copied and what the later turns copy are the rest of the block
        have hpieces : ∀ c, ((input.channel c).drop offset).take m
            ++ (input.channel c).drop (offset + m) = (input.channel c).drop offset := fun c => by
          rw [← List.drop_drop, List.take_append_drop]
        have hcount : n + m + (input.blockSize - (offset + m))
            = n + (input.blockSize - offset) := by omega
        simpa only [hcount, List.append_assoc, hpieces] using hcap
    · exact ⟨p, [], by rw [SenderProcessor.processLoop, if_neg hlt], h.block_done hlt⟩

/-- One call of `process`. -/
theorem process (hF : 0 < F) (inputs : List (Input α)) (h : Captured F n xs p posted) :
    ∃ p' later, p.process inputs = some (p', later) ∧
      Captured F (n + (samples [inputs] ⟨0, by decide⟩).length)
        (fun c => xs c ++ samples [inputs] c) p' (posted ++ later) := by
  rcases inputs with - | ⟨input, rest⟩
  · refine ⟨p, [], rfl, ?_⟩
    simpa [samples] using h
  · have hsamples : ∀ c, samples [input :: rest] c = input.channel c := fun c => by
      simp [samples]
    have hproc : p.process (input :: rest)
        = if input.channels.length = 0 then some (p, [])
          else SenderProcessor.processLoop input input.blockSize 0 p := rfl
    simp only [hsamples, input.length_channel, hproc]
    by_cases hnone : input.channels.length = 0
    · -- an input without channels hands over nothing
      have hchan : ∀ c, input.channel c = [] := fun c => by
        rw [Input.channel, List.length_eq_zero_iff.mp hnone]
        rfl
      have hsize : input.blockSize = 0 := by
        rw [← input.length_channel ⟨0, by decide⟩, hchan]
        rfl
      refine ⟨p, [], if_pos hnone, ?_⟩
      simpa only [hchan, hsize, List.append_nil, Nat.add_zero] using h
    · obtain ⟨p', later, hloop, hcap⟩ := h.processLoop hF input input.blockSize 0 (by omega)
      refine ⟨p', later, by rw [if_neg hnone, hloop], ?_⟩
      simpa only [Nat.sub_zero, List.drop_zero] using hcap

/-- Every call of `process`. -/
theorem processAll (hF : 0 < F) (calls : List (List (Input α)))
    (h : Captured F n xs p posted) :
    ∃ p' later, SenderProcessor.processAll p calls = some (p', later) ∧
      Captured F (n + (samples calls ⟨0, by decide⟩).length)
        (fun c => xs c ++ samples calls c) p' (posted ++ later) := by
  induction calls generalizing n xs p posted with
  | nil =>
    refine ⟨p, [], rfl, ?_⟩
    simpa [samples] using h
  | cons inputs rest ih =>
    obtain ⟨p₁, now, hnow, hcap₁⟩ := h.process hF inputs
    obtain ⟨p₂, later, hlater, hcap₂⟩ := ih hcap₁
    have hsplit : ∀ c, samples [inputs] c ++ samples rest c = samples (inputs :: rest) c :=
      fun c => by simp [samples]
    refine ⟨p₂, now ++ later, ?_, ?_⟩
    · simp only [SenderProcessor.processAll, hnow, hlater, Option.bind_eq_bind, Option.bind_some]
      rfl
    · have hcount : n + (samples [inputs] ⟨0, by decide⟩).length
            + (samples rest ⟨0, by decide⟩).length
          = n + (samples (inputs :: rest) ⟨0, by decide⟩).length := by
        rw [← hsplit, List.length_append, Nat.add_assoc]
      simpa only [hcount, List.append_assoc, hsplit] using hcap₂

end Captured

/-! ### The callback, frame by frame -/

/-- The clock fits the eight bytes of the header for every frame of `n` samples. -/
def ClockFits (F n : ℕ) : Prop := ∀ k < n / F, k * F < 2 ^ 64

theorem ClockFits.mono {F n m : ℕ} (h : ClockFits F m) (hle : n ≤ m) : ClockFits F n :=
  fun k hk => h k (lt_of_lt_of_le hk (Nat.div_le_div_right hle))

/-- After the rows `xs`: the complete frames are scheduled and the rest is in the
accumulation buffer. -/
structure Recorded (F : ℕ) (xs : List (Row α)) (s : CallbackState α) : Prop where
  running : s.running = true
  holds : Holds F xs s.accum s.accumFill
  clock : s.bridge.sampleClock = xs.length / F * F
  scheduled : s.bridge.scheduled = (List.range (xs.length / F)).map fun k => ⟨k * F, frame F xs k⟩
  fits : ClockFits F xs.length

namespace Recorded

variable {F : ℕ} {xs : List (Row α)} {s : CallbackState α}

theorem start [Zero α] (F : ℕ) : Recorded F [] (CallbackState.start F : CallbackState α) where
  running := rfl
  holds := holds_zero List.length_replicate (Nat.zero_mod F)
  clock := by rw [List.length_nil, Nat.zero_div, Nat.zero_mul]; rfl
  scheduled := by rw [List.length_nil, Nat.zero_div]; rfl
  fits := by
    intro k hk
    rw [List.length_nil, Nat.zero_div] at hk
    exact absurd hk (Nat.not_lt_zero k)

/-- Finishing, after the rows `ys` have been copied: it fails just when the clock
has run out. -/
theorem finish {ys accum : List (Row α)} (hF : 0 < F) (h : Recorded F xs s)
    (hfit : s.accumFill + ys.length ≤ F) (hlen : accum.length = F)
    (htake : accum.take (s.accumFill + ys.length) = held F xs ++ ys) :
    (∃ s', CallbackState.finish F { s with
        accum := accum, accumFill := s.accumFill + ys.length } = some s' ∧
      Recorded F (xs ++ ys) s') ∨
    (CallbackState.finish F { s with
        accum := accum, accumFill := s.accumFill + ys.length } = none ∧
      ¬ ClockFits F (xs ++ ys).length) := by
  have hfill := h.holds.fill_eq
  -- the frames scheduled before stay as they are
  have hold : (List.range (xs.length / F)).map
      (fun k => (⟨k * F, frame F (xs ++ ys) k⟩ : Bridge.Blob (List (Row α))))
        = s.bridge.scheduled := by
    rw [h.scheduled]
    refine List.map_congr_left fun k hk => ?_
    rw [frame_append ys (List.mem_range.mp hk)]
  by_cases hfull : s.accumFill + ys.length = F
  · obtain ⟨hdiv, hmod⟩ := count_of_eq hF (hfill ▸ hfull)
    rw [← List.length_append] at hdiv hmod
    have hframe := h.holds.full_frame hlen htake hfull
    -- the accumulator is full, and the clock can be stamped
    by_cases hclock : s.bridge.sampleClock < 2 ^ 64
    · refine Or.inl ⟨{ s with
          accum := accum, accumFill := 0
          bridge := { s.bridge with
            sampleClock := s.bridge.sampleClock + F
            scheduled := s.bridge.scheduled ++ [⟨s.bridge.sampleClock, accum⟩] } }, ?_, ?_⟩
      · rw [CallbackState.finish, if_pos hfull, Bridge.AudioBridge.frameComplete, if_pos hclock]
        rfl
      constructor
      case running => exact h.running
      case holds => exact holds_zero hlen hmod
      case clock =>
        show s.bridge.sampleClock + F = _
        rw [hdiv, h.clock, Nat.add_mul, Nat.one_mul]
      case scheduled =>
        rw [hdiv, List.range_succ, List.map_append, hold, List.map_singleton, hframe, h.clock]
      case fits =>
        intro k hk
        rw [hdiv] at hk
        rcases Nat.lt_succ_iff_lt_or_eq.mp hk with hk | rfl
        · exact h.fits k hk
        · rwa [← h.clock]
    -- it cannot, and no clock of 64 bits fits this many samples
    · refine Or.inr ⟨?_, fun hfits => hclock ?_⟩
      · rw [CallbackState.finish, if_pos hfull, Bridge.AudioBridge.frameComplete, if_neg hclock]
        rfl
      · rw [h.clock]
        exact hfits _ (by rw [hdiv]; exact Nat.lt_succ_self _)
  · have hroom : s.accumFill + ys.length < F := lt_of_le_of_ne hfit hfull
    obtain ⟨hdiv, -⟩ := count_of_lt (hfill ▸ hroom)
    rw [← List.length_append] at hdiv
    refine Or.inl ⟨_, if_neg hfull, ?_⟩
    constructor
    case running => exact h.running
    case holds => exact h.holds.partial_frame hlen htake hroom
    case clock => rw [hdiv]; exact h.clock
    case scheduled => rw [hdiv, hold]
    case fits =>
      rw [ClockFits, hdiv]
      exact h.fits

/-- The loop hands on what the block has left, unless the clock runs out. -/
theorem callbackLoop (hF : 0 < F) (block : List (Row α)) (room offset : ℕ)
    (h : Recorded F xs s) (hroom : block.length ≤ offset + room) :
    (∃ s', CallbackState.callbackLoop F block room offset s = some s' ∧
      Recorded F (xs ++ block.drop offset) s') ∨
    (CallbackState.callbackLoop F block room offset s = none ∧
      ¬ ClockFits F (xs ++ block.drop offset).length) := by
  induction room generalizing xs s offset with
  -- no room means that the block has been read to its end
  | zero =>
    have hge : ¬ offset < block.length := by omega
    rw [List.drop_eq_nil_of_le (not_lt.mp hge), List.append_nil]
    exact Or.inl ⟨s, by rw [CallbackState.callbackLoop, if_neg hge], h⟩
  | succ room ih =>
    rw [CallbackState.callbackLoop]
    by_cases hlt : offset < block.length
    · have hfill : s.accumFill < F := by
        rw [h.holds.fill_eq]
        exact Nat.mod_lt _ hF
      -- as much as the accumulator takes, and as the block has
      obtain ⟨m, hm⟩ : ∃ m, m = min (F - s.accumFill) (block.length - offset) := ⟨_, rfl⟩
      have hys : ((block.drop offset).take m).length = m := by
        rw [List.length_take, List.length_drop]
        omega
      have hsplit : xs ++ (block.drop offset).take m ++ block.drop (offset + m)
          = xs ++ block.drop offset := by
        rw [List.append_assoc, ← List.drop_drop, List.take_append_drop]
      obtain ⟨accum, hcopy, hlen, htake⟩ :=
        h.holds.exists_overwrite (show s.accumFill + ((block.drop offset).take m).length ≤ F by
          rw [hys]
          omega)
      have hfinish := h.finish hF (by rw [hys]; omega) hlen htake
      rw [hys] at hfinish
      rw [if_pos hlt]
      simp only [← hm, hcopy, Option.bind_eq_bind, Option.bind_some]
      rcases hfinish with ⟨s₁, hs₁, hrec⟩ | ⟨hnone, hno⟩
      · rw [hs₁, Option.bind_some, ← hsplit]
        exact ih (offset + m) hrec (by omega)
      · rw [hnone, Option.bind_none]
        refine Or.inr ⟨rfl, fun hfits => hno (hfits.mono ?_)⟩
        rw [← hsplit]
        exact (List.sublist_append_left _ _).length_le
    · rw [if_neg hlt, List.drop_eq_nil_of_le (not_lt.mp hlt), List.append_nil]
      exact Or.inl ⟨s, rfl, h⟩

/-- Every call of `_audio_callback`. -/
theorem audioCallbacks (hF : 0 < F) (blocks : List (List (Row α))) (h : Recorded F xs s) :
    (∃ s', CallbackState.audioCallbacks F s blocks = some s' ∧
      Recorded F (xs ++ blocks.flatten) s') ∨
    (CallbackState.audioCallbacks F s blocks = none ∧
      ¬ ClockFits F (xs ++ blocks.flatten).length) := by
  induction blocks generalizing xs s with
  | nil => exact Or.inl ⟨s, rfl, by rwa [List.flatten_nil, List.append_nil]⟩
  | cons block rest ih =>
    have hcall : s.audioCallback F block
        = CallbackState.callbackLoop F block block.length 0 s := by
      rw [CallbackState.audioCallback, h.running]
      rfl
    have hloop := h.callbackLoop hF block block.length 0 (by omega)
    rw [List.drop_zero] at hloop
    rw [CallbackState.audioCallbacks, hcall, List.flatten_cons, ← List.append_assoc]
    rcases hloop with ⟨s₁, hs₁, hrec⟩ | ⟨hnone, hno⟩
    · rw [hs₁]
      exact ih hrec
    · rw [hnone]
      refine Or.inr ⟨rfl, fun hfits => hno (hfits.mono ?_)⟩
      exact (List.sublist_append_left _ _).length_le

end Recorded

/-! ### Every sample once -/

/-- **Re-blocking captures every sample once**, for every frame size and every
sequence of blocks.  With `n` samples a channel handed over since it was
configured, the worklet has ended every call and has posted `n / F` frames, frame
`k` stamped `k * F` with the samples from `k * F` on of every channel, and holds
the samples behind them.  A bridge has scheduled the frames in the same way,
with rows for samples; it fails just when the clock of a frame no longer fits the
eight bytes of the header. -/
theorem captures_every_sample [Zero α] (F : ℕ) (hF : 1 ≤ F) :
    (∀ (q : SenderProcessor α) (calls : List (List (Input α))), ∃ n p posted,
      (∀ c, (samples calls c).length = n) ∧
      SenderProcessor.processAll (q.config (some F)) calls = some (p, posted) ∧
      posted = (List.range (n / F)).map
        (fun k => ⟨k * F, fun c => ((samples calls c).drop (k * F)).take F⟩) ∧
      p.fill < F ∧ p.fill = n % F ∧
      ∀ c, (p.buf c).take p.fill = (samples calls c).drop (n / F * F)) ∧
    ∀ blocks : List (List (Row α)),
      ((CallbackState.audioCallbacks F (CallbackState.start F) blocks).isSome = true ↔
        ClockFits F blocks.flatten.length) ∧
      ∀ s, CallbackState.audioCallbacks F (CallbackState.start F) blocks = some s →
        s.bridge.scheduled = (List.range (blocks.flatten.length / F)).map
          (fun k => ⟨k * F, (blocks.flatten.drop (k * F)).take F⟩) ∧
        s.accumFill < F ∧ s.accumFill = blocks.flatten.length % F ∧
        s.accum.take s.accumFill = blocks.flatten.drop (blocks.flatten.length / F * F) := by
  constructor
  -- the worklet
  · intro q calls
    obtain ⟨p, posted, hrun, hcap⟩ := (Captured.config q F).processAll hF calls
    rw [Nat.zero_add] at hcap
    have hlength := hcap.length
    have hcontents := fun c => (hcap.holds c).contents
    have hposted := hcap.posted
    simp only [List.nil_append] at hlength hcontents hposted
    refine ⟨_, p, posted, hlength, hrun, hposted, ?_, hcap.fill_eq, fun c => ?_⟩
    · rw [hcap.fill_eq]
      exact Nat.mod_lt _ hF
    · rw [hcontents, held, hlength]
  -- the bridge
  · intro blocks
    have hall := (Recorded.start F).audioCallbacks hF blocks
    rw [List.nil_append] at hall
    rcases hall with ⟨s, hs, hrec⟩ | ⟨hnone, hno⟩
    · refine ⟨⟨fun _ => hrec.fits, fun _ => by rw [hs]; rfl⟩, fun s' hs' => ?_⟩
      obtain rfl := Option.some.inj (hs.symm.trans hs')
      refine ⟨hrec.scheduled, ?_, hrec.holds.fill_eq, hrec.holds.contents⟩
      rw [hrec.holds.fill_eq]
      exact Nat.mod_lt _ hF
    · rw [hnone]
      exact ⟨⟨fun h => absurd h Bool.false_ne_true, fun h => absurd h hno⟩,
        fun s hs => absurd hs.symm (Option.some_ne_none s)⟩

/-- Three rows in two blocks: a frame of two, and one row held. -/
theorem captures_every_sample_two :
    ∃ s : CallbackState ℤ, CallbackState.audioCallbacks 2 (CallbackState.start 2)
        [[fun _ => 1], [fun _ => 2, fun _ => 3]] = some s ∧
      s.bridge.scheduled = [⟨0, [fun _ => 1, fun _ => 2]⟩] ∧ s.accumFill = 1 := by
  have hall := (captures_every_sample (α := ℤ) 2 (by decide)).2
    [[fun _ => 1], [fun _ => 2, fun _ => 3]]
  have hfits : ClockFits 2 3 := by
    intro k hk
    have hk0 : k = 0 := Nat.lt_one_iff.mp hk
    rw [hk0]
    decide
  obtain ⟨s, hs⟩ := Option.isSome_iff_exists.mp (hall.1.mpr hfits)
  obtain ⟨hscheduled, -, hfill, -⟩ := hall.2 s hs
  exact ⟨s, hs, hscheduled, hfill⟩

example : (SenderProcessor.new : SenderProcessor ℤ) = SenderProcessor.new.config (some 960) := rfl

end AmbiRTC.Capture
