/-
AmbiRTC/AssemblySteps.lean

What the functions of the receiving side do to the ring, the pool and the slots.
A frame ends in one way only, whichever path it takes: its cell is emptied and
its slot cleared and given back (`Ended`).

Main results: a flush leaves the frame alone if it is not there, drops it if a
later one has been dispatched, and dispatches it otherwise (`flushFrame_cases`);
a decoder output is ignored, or adds a plane to the frame of its timestamp
(`Tidy.heard`); `Tidy.step_cases` has them together.
-/
import AmbiRTC.Assembly

namespace AmbiRTC.Assembly

variable {α : Type}

/-- How many planes a slot has. -/
def FrameSlot.filled (frame : FrameSlot α) : ℕ :=
  (Finset.univ.filter fun c => (frame.data c).isSome).card

/-- A plane for a channel that had none. -/
def FrameSlot.add (frame : FrameSlot α) (c : Channel) (mono : List α) : FrameSlot α :=
  { frame with data := Function.update frame.data c (some mono), count := frame.count + 1 }

theorem FrameSlot.filled_eq_zero {frame : FrameSlot α} (h : ∀ c, frame.data c = none) :
    frame.filled = 0 := by
  simp [filled, h]

theorem FrameSlot.filled_add {frame : FrameSlot α} {c : Channel} {mono : List α}
    (h : frame.data c = none) : (frame.add c mono).filled = frame.filled + 1 := by
  have hinsert : (Finset.univ.filter fun c' => ((frame.add c mono).data c').isSome)
      = insert c (Finset.univ.filter fun c' => (frame.data c').isSome) := by
    ext c'
    rw [Finset.mem_insert, Finset.mem_filter, Finset.mem_filter]
    by_cases hc : c' = c
    · subst hc
      simp [add]
    · simp [add, hc]
  rw [filled, hinsert, Finset.card_insert_of_notMem, filled]
  simp [h]

/-- A slot with sixteen planes has them all. -/
theorem FrameSlot.full {frame : FrameSlot α} (h : frame.filled = 16) (c : Channel) :
    (frame.data c).isSome := by
  have huniv := (Finset.card_eq_iff_eq_univ
    (Finset.univ.filter fun c => (frame.data c).isSome)).mp (by simpa [filled] using h)
  have hc := Finset.mem_univ c
  rw [← huniv] at hc
  exact (Finset.mem_filter.mp hc).2

theorem FrameSlot.filled_of_full {frame : FrameSlot α} (h : ∀ c, (frame.data c).isSome) :
    frame.filled = 16 := by
  rw [filled, Finset.filter_true_of_mem fun c _ => h c]
  rfl

namespace Rx

variable {cfg : Config α} {s s' : Rx α} {i k : ℕ} {c : Channel} {frameTs : ℤ}

/-! ### The way a frame ends -/

/-- The frame in slot `k` and cell `i` is no more. -/
structure Ended (cfg : Config α) (s s' : Rx α) (i k : ℕ) : Prop where
  ring : s'.frameRing = Function.update s.frameRing i none
  slots : s'.slots = Function.update s.slots k (emptySlot α cfg.frameSize)
  pool : s'.frameSlotPool = k :: s.frameSlotPool ∨ s'.frameSlotPool = s.frameSlotPool
  made : s'.made = s.made

/-- The graph is as it was. -/
structure SameGraph (s s' : Rx α) : Prop where
  ready : s'.graphReady = s.graphReady
  worklet : s'.playbackWorklet = s.playbackWorklet

theorem SameGraph.refl (s : Rx α) : SameGraph s s := ⟨rfl, rfl⟩

theorem SameGraph.trans {s'' : Rx α} (h : SameGraph s s') (h' : SameGraph s' s'') :
    SameGraph s s'' :=
  ⟨h'.ready.trans h.ready, h'.worklet.trans h.worklet⟩

/-- What has been posted after a frame is dispatched. -/
def posts (s : Rx α) (message : Message α) : List (Message α) :=
  if s.playbackWorklet && s.graphReady then s.posted ++ [message] else s.posted

@[simp] theorem frameRing_release : (s.releaseFrameSlot cfg k).frameRing = s.frameRing := by
  unfold releaseFrameSlot
  simp only
  split <;> rfl

theorem slots_release : (s.releaseFrameSlot cfg k).slots
    = Function.update s.slots k (emptySlot α cfg.frameSize) := by
  unfold releaseFrameSlot
  simp only
  split <;> rfl

theorem pool_release : (s.releaseFrameSlot cfg k).frameSlotPool = k :: s.frameSlotPool ∨
    (s.releaseFrameSlot cfg k).frameSlotPool = s.frameSlotPool := by
  unfold releaseFrameSlot
  simp only
  split
  · exact Or.inl rfl
  · exact Or.inr rfl

@[simp] theorem made_release : (s.releaseFrameSlot cfg k).made = s.made := by
  unfold releaseFrameSlot
  simp only
  split <;> rfl

@[simp] theorem lastFlushedTs_release :
    (s.releaseFrameSlot cfg k).lastFlushedTs = s.lastFlushedTs := by
  unfold releaseFrameSlot
  simp only
  split <;> rfl

@[simp] theorem lastGoodPcm_release :
    (s.releaseFrameSlot cfg k).lastGoodPcm = s.lastGoodPcm := by
  unfold releaseFrameSlot
  simp only
  split <;> rfl

@[simp] theorem posted_release : (s.releaseFrameSlot cfg k).posted = s.posted := by
  unfold releaseFrameSlot
  simp only
  split <;> rfl

theorem sameGraph_release : SameGraph s (s.releaseFrameSlot cfg k) := by
  unfold releaseFrameSlot
  simp only
  split <;> exact ⟨rfl, rfl⟩

/-- The recording only touches what is recorded. -/
theorem record_eq (frame : FrameSlot α) : ∃ set frames timer, s.record cfg frame
    = { s with rxRecSet := set, rxRecFrames := frames, rxRecTimer := timer } := by
  unfold record
  split
  · exact ⟨_, _, _, rfl⟩
  · exact ⟨s.rxRecSet, s.rxRecFrames, s.rxRecTimer, rfl⟩

/-- What is left of the receiver once the frame in slot `k` has been dispatched. -/
structure Dispatched (cfg : Config α) (s s' : Rx α) (k : ℕ) : Prop where
  ring : s'.frameRing = s.frameRing
  slots : s'.slots = Function.update s.slots k (emptySlot α cfg.frameSize)
  pool : s'.frameSlotPool = k :: s.frameSlotPool ∨ s'.frameSlotPool = s.frameSlotPool
  made : s'.made = s.made
  lastFlushedTs : s'.lastFlushedTs = s.lastFlushedTs
  lastGoodPcm : s'.lastGoodPcm = s.lastGoodPcm
  posted : s'.posted = s.posts ⟨(s.slots k).frameTs, (s.slots k).data⟩
  graph : SameGraph s s'

/-- A frame with all its planes is posted, if there is a graph to post it to. -/
theorem dispatched (hfull : ∀ c, ((s.slots k).data c).isSome) :
    Dispatched cfg s (s.dispatchFrame cfg k) k := by
  unfold dispatchFrame
  split
  case isTrue hdown =>
    refine ⟨by simp, slots_release, pool_release, by simp, by simp, by simp, ?_,
      sameGraph_release⟩
    have hnot : ¬(s.playbackWorklet && s.graphReady) = true := by
      simp only [Bool.or_eq_true, Bool.not_eq_true'] at hdown
      simp only [Bool.and_eq_true, not_and_or, Bool.not_eq_true]
      exact hdown
    rw [posted_release, posts, if_neg hnot]
  case isFalse hup =>
    have hready : (s.playbackWorklet && s.graphReady) = true := by simpa using hup
    obtain ⟨set, frames, timer, hrecord⟩ := @record_eq α cfg s (s.slots k)
    simp only [hrecord, if_pos hfull]
    refine ⟨by simp, slots_release, ?_, by simp, by simp, by simp, ?_, ?_⟩
    · exact pool_release
    · rw [posted_release, posts, if_pos hready]
    · exact ⟨sameGraph_release.ready, sameGraph_release.worklet⟩

/-! ### Timeouts -/

/-- The planes of a frame, the missing ones made up. -/
def madeUp (cfg : Config α) (s : Rx α) (frame : FrameSlot α) (c : Channel) : Option (List α) :=
  some ((frame.data c).getD
    ((s.held cfg frame.frameSize c).getD (List.replicate frame.frameSize cfg.silence)))

/-- The hold counters, once they have been. -/
def countHolds (cfg : Config α) (s : Rx α) (frame : FrameSlot α) (c : Channel) : ℕ :=
  if (frame.data c).isNone ∧ (s.held cfg frame.frameSize c).isSome then s.holdCount c + 1
  else s.holdCount c

@[simp] theorem holdCount_release : (s.releaseFrameSlot cfg k).holdCount = s.holdCount := by
  unfold releaseFrameSlot
  simp only
  split <;> rfl

theorem holdCount_dispatch : (s.dispatchFrame cfg k).holdCount = s.holdCount := by
  unfold dispatchFrame
  split
  · exact holdCount_release
  · obtain ⟨set, frames, timer, hrecord⟩ := @record_eq α cfg s (s.slots k)
    simp only [hrecord]
    split
    · exact holdCount_release
    · rfl

/-- The frame in slot `k` is given up. -/
structure Released (cfg : Config α) (s s' : Rx α) (i k : ℕ) : Prop extends Ended cfg s s' i k where
  lastFlushedTs : s'.lastFlushedTs = s.lastFlushedTs
  posted : s'.posted = s.posted
  lastGoodPcm : s'.lastGoodPcm = s.lastGoodPcm
  holdCount : s'.holdCount = s.holdCount
  graph : SameGraph s s'

/-- The frame in slot `k` is dispatched with the planes `data`; the hold counters
become `count`. -/
structure Sent (cfg : Config α) (s s' : Rx α) (i k : ℕ) (data : Channel → Option (List α))
    (count : Channel → ℕ) : Prop extends Ended cfg s s' i k where
  lastFlushedTs : s'.lastFlushedTs = (s.slots k).frameTs
  posted : s'.posted = s.posts ⟨(s.slots k).frameTs, data⟩
  lastGoodPcm : s'.lastGoodPcm = s.lastGoodPcm
  holdCount : s'.holdCount = count
  graph : SameGraph s s'

/-- A plane made up for a missing one: silence, or the channel's last good plane
faded. -/
def Concealment (cfg : Config α) (s : Rx α) (frameSize : ℕ) (c : Channel) (plane : List α) :
    Prop :=
  plane = List.replicate frameSize cfg.silence ∨
    ∃ lg h, s.lastGoodPcm c = some lg ∧ 0 < h ∧ h ≤ plcMaxHolds ∧ plane = lg.map (cfg.fade h)

/-- Every plane of the frame, the missing ones made up. -/
def Concealed (cfg : Config α) (s : Rx α) (frame : FrameSlot α)
    (data : Channel → Option (List α)) : Prop :=
  ∀ c, ∃ plane, data c = some plane ∧ (frame.data c = some plane ∨
    (frame.data c = none ∧ Concealment cfg s frame.frameSize c plane))

theorem concealment_held (frameSize : ℕ) (c : Channel) : Concealment cfg s frameSize c
    ((s.held cfg frameSize c).getD (List.replicate frameSize cfg.silence)) := by
  unfold held
  split
  · rename_i lg hlg
    split
    · rename_i hhold
      exact Or.inr ⟨lg, _, hlg, Nat.succ_pos _, hhold.2.2, rfl⟩
    · exact Or.inl rfl
  · exact Or.inl rfl

theorem concealed_madeUp (frame : FrameSlot α) : Concealed cfg s frame (s.madeUp cfg frame) := by
  intro c
  unfold madeUp
  cases frame.data c with
  | some plane => exact ⟨plane, rfl, Or.inl rfl⟩
  | none => exact ⟨_, rfl, Or.inr ⟨rfl, concealment_held _ c⟩⟩

/-- A flush of a frame that is not there. -/
theorem flushFrame_of_absent
    (h : ∀ k, s.frameRing (ringIdx cfg frameTs) = some k → (s.slots k).frameTs ≠ frameTs) :
    s.flushFrame cfg frameTs = s := by
  unfold flushFrame
  simp only
  split
  case h_1 => rfl
  case h_2 k hcell => rw [if_pos (h k hcell)]

/-- The flush of a frame that has been overtaken. -/
theorem released_flush (hcell : s.frameRing (ringIdx cfg frameTs) = some k)
    (hts : (s.slots k).frameTs = frameTs) (hlate : frameTs ≤ s.lastFlushedTs) :
    Released cfg s (s.flushFrame cfg frameTs) (ringIdx cfg frameTs) k := by
  unfold flushFrame
  simp only [hcell, hts, ne_eq, not_true_eq_false, if_false]
  rw [if_pos (show frameTs ≤ ((s.setRing (ringIdx cfg frameTs) none).modifySlot k
    fun frame => { frame with timer := none }).lastFlushedTs from hlate)]
  refine ⟨⟨?_, ?_, pool_release, ?_⟩, ?_, ?_, ?_, ?_,
    ⟨sameGraph_release.ready, sameGraph_release.worklet⟩⟩
  · rw [frameRing_release]
    rfl
  · rw [slots_release]
    exact Function.update_idem _ _ _
  · rw [made_release]
    rfl
  · rw [lastFlushedTs_release]
    rfl
  · rw [posted_release]
    rfl
  · rw [lastGoodPcm_release]
    rfl
  · rw [holdCount_release]
    rfl

/-- **The flush that dispatches a frame**, with the planes it makes up. -/
theorem sent_flush (hcell : s.frameRing (ringIdx cfg frameTs) = some k)
    (hts : (s.slots k).frameTs = frameTs) (hnew : s.lastFlushedTs < frameTs)
    (hcount : (s.slots k).count < 16) :
    Sent cfg s (s.flushFrame cfg frameTs) (ringIdx cfg frameTs) k (s.madeUp cfg (s.slots k))
      (s.countHolds cfg (s.slots k)) := by
  unfold flushFrame
  simp only [hcell, hts, ne_eq, not_true_eq_false, if_false]
  -- the cell is emptied and the timer cleared; then the missing planes are made up
  let s₁ : Rx α := (s.setRing (ringIdx cfg frameTs) none).modifySlot k
    fun frame => { frame with timer := none }
  have hslot : s₁.slots k = { s.slots k with timer := none } := Function.update_self ..
  have hlt : (s₁.slots k).count < 16 := by
    rw [hslot]
    exact hcount
  rw [if_neg (show ¬frameTs ≤ s₁.lastFlushedTs from not_le.mpr hnew), if_pos hlt]
  let s₂ : Rx α := { s₁.conceal cfg k with lastFlushedTs := frameTs }
  have hdata : (s₂.slots k).data = s.madeUp cfg (s.slots k) := by
    show (Function.update s₁.slots k _ k).data = _
    rw [Function.update_self, hslot]
    rfl
  have hts₂ : (s₂.slots k).frameTs = frameTs := by
    show (Function.update s₁.slots k _ k).frameTs = _
    rw [Function.update_self, hslot]
    exact hts
  -- the frame goes out with no plane missing
  have hdispatched : Dispatched cfg s₂ (s₂.dispatchFrame cfg k) k := by
    refine dispatched fun c => ?_
    rw [hdata]
    rfl
  refine ⟨⟨hdispatched.ring, ?_, hdispatched.pool, hdispatched.made⟩, ?_, ?_,
    hdispatched.lastGoodPcm, ?_, ⟨hdispatched.graph.ready, hdispatched.graph.worklet⟩⟩
  · rw [hdispatched.slots]
    show Function.update (Function.update (Function.update s.slots k _) k _) k _ = _
    rw [Function.update_idem, Function.update_idem]
  · rw [hdispatched.lastFlushedTs, hts]
  · rw [hdispatched.posted, hts₂, hdata, hts]
    rfl
  · rw [holdCount_dispatch]
    show (s₁.conceal cfg k).holdCount = _
    unfold conceal countHolds
    rw [hslot]
    rfl

/-- A flush of `frameTs`. -/
inductive Flushed (cfg : Config α) (s : Rx α) (frameTs : ℤ) : Rx α → Prop
  | idle (h : ∀ k, s.frameRing (ringIdx cfg frameTs) = some k → (s.slots k).frameTs ≠ frameTs) :
      Flushed cfg s frameTs s
  | late {k : ℕ} {s' : Rx α} (hcell : s.frameRing (ringIdx cfg frameTs) = some k)
      (hts : (s.slots k).frameTs = frameTs) (hlate : frameTs ≤ s.lastFlushedTs)
      (hended : Ended cfg s s' (ringIdx cfg frameTs) k)
      (hflushed : s'.lastFlushedTs = s.lastFlushedTs) (hposted : s'.posted = s.posted)
      (hgood : s'.lastGoodPcm = s.lastGoodPcm) (hgraph : SameGraph s s') :
      Flushed cfg s frameTs s'
  | dispatched {k : ℕ} {s' : Rx α} {data : Channel → Option (List α)}
      (hcell : s.frameRing (ringIdx cfg frameTs) = some k)
      (hts : (s.slots k).frameTs = frameTs) (hnew : s.lastFlushedTs < frameTs)
      (hdata : Concealed cfg s (s.slots k) data)
      (hended : Ended cfg s s' (ringIdx cfg frameTs) k) (hflushed : s'.lastFlushedTs = frameTs)
      (hposted : s'.posted = s.posts ⟨frameTs, data⟩)
      (hgood : s'.lastGoodPcm = s.lastGoodPcm) (hgraph : SameGraph s s') :
      Flushed cfg s frameTs s'

/-- **What a flush does**, where no frame in the ring is complete. -/
theorem flushFrame_cases (hcount : ∀ i k, s.frameRing i = some k → (s.slots k).count < 16)
    (frameTs : ℤ) : Flushed cfg s frameTs (s.flushFrame cfg frameTs) := by
  by_cases hthere : ∃ k, s.frameRing (ringIdx cfg frameTs) = some k ∧ (s.slots k).frameTs = frameTs
  · obtain ⟨k, hcell, hts⟩ := hthere
    rcases le_or_gt frameTs s.lastFlushedTs with hlate | hnew
    · have h := released_flush hcell hts hlate
      exact .late hcell hts hlate h.toEnded h.lastFlushedTs h.posted h.lastGoodPcm h.graph
    · have h := sent_flush hcell hts hnew (hcount _ k hcell)
      refine .dispatched hcell hts hnew (concealed_madeUp _) h.toEnded ?_ ?_ h.lastGoodPcm h.graph
      · rw [h.lastFlushedTs, hts]
      · rw [h.posted, hts]
  · have habsent := fun k hcell hts => hthere ⟨k, hcell, hts⟩
    rw [flushFrame_of_absent habsent]
    exact .idle habsent

/-! ### Decoder outputs -/

/-- Neither the frames nor the slots have changed. -/
structure SameFrames (s s' : Rx α) : Prop where
  ring : s'.frameRing = s.frameRing
  slots : s'.slots = s.slots
  pool : s'.frameSlotPool = s.frameSlotPool
  made : s'.made = s.made

/-- Nothing has been posted or kept for concealment. -/
structure Untouched (s s' : Rx α) : Prop where
  lastFlushedTs : s'.lastFlushedTs = s.lastFlushedTs
  posted : s'.posted = s.posted
  lastGoodPcm : s'.lastGoodPcm = s.lastGoodPcm
  graph : SameGraph s s'

/-- Neither. -/
structure Same (s s' : Rx α) : Prop extends SameFrames s s', Untouched s s'

/-- The ring's frames are incomplete, and the pool's slots empty. -/
structure Tidy (s : Rx α) : Prop where
  count : ∀ i k, s.frameRing i = some k → (s.slots k).count < 16
  filled : ∀ i k, s.frameRing i = some k → (s.slots k).filled = (s.slots k).count
  clean : ∀ k ∈ s.frameSlotPool, ∀ c, (s.slots k).data c = none

theorem tidy_new : Tidy (Rx.new cfg) :=
  ⟨fun _ _ h => (nomatch h), fun _ _ h => (nomatch h), fun _ _ _ => rfl⟩

theorem Tidy.sameFrames (hs : Tidy s) (h : SameFrames s s') : Tidy s' := by
  obtain ⟨hcount, hfilled, hclean⟩ := hs
  rw [← h.ring, ← h.slots] at hcount hfilled
  rw [← h.pool, ← h.slots] at hclean
  exact ⟨hcount, hfilled, hclean⟩

theorem Tidy.ended (hs : Tidy s) (h : Ended cfg s s' i k) : Tidy s' := by
  -- the cells are those there were, the ended frame's apart
  have hring : ∀ i' k', s'.frameRing i' = some k' → k' = k ∨ s.frameRing i' = some k' := by
    intro i' k' hk'
    rw [h.ring] at hk'
    by_cases hi : i' = i
    · subst hi
      rw [Function.update_self] at hk'
      cases hk'
    · rw [Function.update_of_ne hi] at hk'
      exact Or.inr hk'
  constructor
  · intro i' k' hk'
    rw [h.slots]
    by_cases hk : k' = k
    · subst hk
      rw [Function.update_self]
      exact Nat.succ_pos 15
    · rw [Function.update_of_ne hk]
      exact hs.count i' k' ((hring i' k' hk').resolve_left hk)
  · intro i' k' hk'
    rw [h.slots]
    by_cases hk : k' = k
    · subst hk
      rw [Function.update_self]
      exact FrameSlot.filled_eq_zero fun _ => rfl
    · rw [Function.update_of_ne hk]
      exact hs.filled i' k' ((hring i' k' hk').resolve_left hk)
  -- a slot given back to the pool has been cleared
  · intro k' hk' c
    rw [h.slots]
    by_cases hk : k' = k
    · subst hk
      rw [Function.update_self]
      rfl
    · rw [Function.update_of_ne hk]
      rcases h.pool with hpool | hpool
      · rw [hpool] at hk'
        exact hs.clean k' ((List.mem_cons.mp hk').resolve_left hk) c
      · rw [hpool] at hk'
        exact hs.clean k' hk' c

/-- The frame `frameTs` is opened in cell `i` and slot `k`, from the pool or new. -/
structure Opened (s s' : Rx α) (frameTs : ℤ) (i k : ℕ) : Prop where
  ring : s'.frameRing = Function.update s.frameRing i (some k)
  slots : ∀ k', k' ≠ k → s'.slots k' = s.slots k'
  frameTs : (s'.slots k).frameTs = frameTs
  count : (s'.slots k).count = 0
  data : ∀ c, (s'.slots k).data c = none
  source : (s.frameSlotPool = k :: s'.frameSlotPool ∧ s'.made = s.made) ∨
    (k = s.made ∧ s'.frameSlotPool = s.frameSlotPool ∧ s'.made = s.made + 1)
  untouched : Untouched s s'

theorem opened (hclean : ∀ k ∈ s.frameSlotPool, ∀ c, (s.slots k).data c = none) (frameTs : ℤ)
    (frameSize : ℕ) : Opened s (s.openSlot cfg frameTs frameSize).1 frameTs (ringIdx cfg frameTs)
      (s.openSlot cfg frameTs frameSize).2 := by
  unfold openSlot acquireFrameSlot
  rcases hpool : s.frameSlotPool with - | ⟨k, pool⟩
  · refine ⟨rfl, fun k' hk' => ?_, ?_, ?_, fun c => ?_, Or.inr ⟨rfl, ?_, rfl⟩,
      ⟨rfl, rfl, rfl, rfl, rfl⟩⟩
    · simp [modifySlot, setRing, Function.update_of_ne hk']
    · simp [modifySlot, setRing]
    · simp [modifySlot, setRing]
    · simp [modifySlot, setRing, emptySlot]
    · exact hpool.symm
  · refine ⟨rfl, fun k' hk' => ?_, ?_, ?_, fun c => ?_, Or.inl ⟨hpool, rfl⟩,
      ⟨rfl, rfl, rfl, rfl, rfl⟩⟩
    · simp [modifySlot, setRing, Function.update_of_ne hk']
    · simp [modifySlot, setRing]
    · simp [modifySlot, setRing]
    · simpa [modifySlot, setRing] using hclean k (by rw [hpool]; exact List.mem_cons_self) c

/-- The slot a decoder output goes to. -/
inductive Chosen (cfg : Config α) (s : Rx α) (frameTs : ℤ) : Rx α → ℕ → Prop
  | found {k : ℕ} (hcell : s.frameRing (ringIdx cfg frameTs) = some k)
      (hts : (s.slots k).frameTs = frameTs) : Chosen cfg s frameTs s k
  | opened {s' : Rx α} {k : ℕ} (hcell : s.frameRing (ringIdx cfg frameTs) = none)
      (h : Opened s s' frameTs (ringIdx cfg frameTs) k) : Chosen cfg s frameTs s' k
  | evicted {s₁ s' : Rx α} {k k' : ℕ} (hcell : s.frameRing (ringIdx cfg frameTs) = some k')
      (hts : (s.slots k').frameTs ≠ frameTs)
      (hflush : Flushed cfg s (s.slots k').frameTs s₁)
      (h : Opened s₁ s' frameTs (ringIdx cfg frameTs) k) : Chosen cfg s frameTs s' k

theorem Tidy.flushed (hs : Tidy s) (h : Flushed cfg s frameTs s') : Tidy s' := by
  cases h with
  | idle => exact hs
  | late _ _ _ hended => exact hs.ended hended
  | dispatched _ _ _ _ hended => exact hs.ended hended

theorem Tidy.chosen (hs : Tidy s) (frameTs : ℤ) (frameSize : ℕ) :
    Chosen cfg s frameTs (s.slotFor cfg frameTs frameSize).1
      (s.slotFor cfg frameTs frameSize).2 := by
  unfold slotFor
  split
  case h_1 k hcell =>
    split
    case isTrue hts => exact .found hcell hts
    case isFalse hts =>
      have hflush := @flushFrame_cases α cfg s hs.count (s.slots k).frameTs
      exact .evicted hcell hts hflush (opened (hs.flushed hflush).clean frameTs frameSize)
  case h_2 hcell => exact .opened hcell (opened hs.clean frameTs frameSize)

/-- The plane `mono` of channel `c` is in slot `k`. -/
structure Stored (s s' : Rx α) (k : ℕ) (c : Channel) (mono : List α) : Prop where
  ring : s'.frameRing = s.frameRing
  slots : s'.slots = Function.update s.slots k ((s.slots k).add c mono)
  pool : s'.frameSlotPool = s.frameSlotPool
  made : s'.made = s.made
  lastFlushedTs : s'.lastFlushedTs = s.lastFlushedTs
  posted : s'.posted = s.posted
  lastGoodPcm : s'.lastGoodPcm = s.lastGoodPcm ∨
    s'.lastGoodPcm = Function.update s.lastGoodPcm c (some mono)
  graph : SameGraph s s'

theorem stored (mono : List α) : Stored s (s.storePlane cfg k c mono) k c mono := by
  unfold storePlane
  simp only
  split
  · exact ⟨rfl, rfl, rfl, rfl, rfl, rfl, Or.inr rfl, rfl, rfl⟩
  · exact ⟨rfl, rfl, rfl, rfl, rfl, rfl, Or.inl rfl, rfl, rfl⟩

/-- A decoder output of channel `c`, paired with `frameTs`. -/
inductive Heard (cfg : Config α) (s : Rx α) (c : Channel) (frameTs : ℤ) (mono : List α) :
    Rx α → Prop
  | ignored (hwhy : frameTs < 0 ∨ frameTs ≤ s.lastFlushedTs ∨ s.graphReady = false ∨
      ∃ k, s.frameRing (ringIdx cfg frameTs) = some k ∧ (s.slots k).frameTs = frameTs ∧
        ((s.slots k).data c).isSome) : Heard cfg s c frameTs mono s
  | stored {s₁ s' : Rx α} {k : ℕ} (hpos : 0 ≤ frameTs) (hnew : s.lastFlushedTs < frameTs)
      (hchosen : Chosen cfg s frameTs s₁ k) (hnone : (s₁.slots k).data c = none)
      (hcount : (s₁.slots k).count + 1 ≠ 16) (hstored : Stored s₁ s' k c mono) :
      Heard cfg s c frameTs mono s'
  | completed {s' : Rx α} {k : ℕ} (hpos : 0 ≤ frameTs) (hnew : s.lastFlushedTs < frameTs)
      (hcell : s.frameRing (ringIdx cfg frameTs) = some k) (hts : (s.slots k).frameTs = frameTs)
      (hnone : (s.slots k).data c = none) (hcount : (s.slots k).count + 1 = 16)
      (hfull : ∀ c', (((s.slots k).add c mono).data c').isSome)
      (hended : Ended cfg s s' (ringIdx cfg frameTs) k) (hflushed : s'.lastFlushedTs = frameTs)
      (hposted : s'.posted = s.posts ⟨frameTs, ((s.slots k).add c mono).data⟩)
      (hgood : s'.lastGoodPcm = s.lastGoodPcm ∨
        s'.lastGoodPcm = Function.update s.lastGoodPcm c (some mono))
      (hgraph : SameGraph s s') : Heard cfg s c frameTs mono s'

/-- A frame with all its planes is dispatched as it is. -/
theorem sent_complete (hcount : (s.slots k).count = 16) (hts : (s.slots k).frameTs = frameTs)
    (hfull : ∀ c, ((s.slots k).data c).isSome) :
    Sent cfg s (s.complete cfg k frameTs) (ringIdx cfg frameTs) k (s.slots k).data s.holdCount := by
  unfold complete
  rw [if_pos hcount]
  -- the timer is cleared and the cell emptied before the frame goes out
  let s₁ : Rx α := ((s.clearTimer k).modifySlot k
    fun frame => { frame with timer := none }).setRing (ringIdx cfg frameTs) none
  let s₂ : Rx α := { s₁ with lastFlushedTs := frameTs }
  have hslots : s₂.slots = Function.update s.slots k { s.slots k with timer := none } := rfl
  have hdata : (s₂.slots k).data = (s.slots k).data := by
    rw [hslots, Function.update_self]
  have hts₂ : (s₂.slots k).frameTs = frameTs := by
    rw [hslots, Function.update_self]
    exact hts
  have hdispatched : Dispatched cfg s₂ (s₂.dispatchFrame cfg k) k := by
    refine dispatched fun c => ?_
    rw [hdata]
    exact hfull c
  refine ⟨⟨hdispatched.ring, ?_, hdispatched.pool, hdispatched.made⟩, ?_, ?_,
    hdispatched.lastGoodPcm, holdCount_dispatch,
    ⟨hdispatched.graph.ready, hdispatched.graph.worklet⟩⟩
  · rw [hdispatched.slots, hslots, Function.update_idem]
  · rw [hdispatched.lastFlushedTs, hts]
  · rw [hdispatched.posted, hts₂, hdata, hts]
    rfl

/-- With the sixteenth plane a frame has them all. -/
theorem Tidy.full_add (hs : Tidy s) {mono : List α} (hcell : s.frameRing i = some k)
    (hnone : (s.slots k).data c = none) (hcount : (s.slots k).count + 1 = 16) :
    ∀ c', (((s.slots k).add c mono).data c').isSome := by
  apply FrameSlot.full
  rw [FrameSlot.filled_add hnone, hs.filled _ k hcell, hcount]

/-- The sixteenth plane. -/
theorem Tidy.completed (hs : Tidy s) {mono : List α} (hpos : 0 ≤ frameTs)
    (hnew : s.lastFlushedTs < frameTs) (hcell : s.frameRing (ringIdx cfg frameTs) = some k)
    (hts : (s.slots k).frameTs = frameTs) (hnone : (s.slots k).data c = none)
    (hcount : (s.slots k).count + 1 = 16) :
    Heard cfg s c frameTs mono ((s.storePlane cfg k c mono).complete cfg k frameTs) := by
  -- the plane is stored, and then the full frame sent
  have hst : Stored s (s.storePlane cfg k c mono) k c mono := stored mono
  have hslot : (s.storePlane cfg k c mono).slots k = (s.slots k).add c mono := by
    rw [hst.slots, Function.update_self]
  have hfull : ∀ c', (((s.slots k).add c mono).data c').isSome :=
    hs.full_add hcell hnone hcount
  have hts' : ((s.storePlane cfg k c mono).slots k).frameTs = frameTs := by
    rw [hslot]
    exact hts
  have hsent := @sent_complete α cfg _ _ _ (by rw [hslot]; exact hcount) hts' (by rwa [hslot])
  refine .completed hpos hnew hcell hts hnone hcount hfull ⟨?_, ?_, ?_, ?_⟩ ?_ ?_ ?_
    (hst.graph.trans hsent.graph)
  · rw [hsent.ring, hst.ring]
  · rw [hsent.slots, hst.slots, Function.update_idem]
  · rw [← hst.pool]
    exact hsent.pool
  · rw [hsent.made, hst.made]
  · rw [hsent.lastFlushedTs, hts']
  · rw [hsent.posted, hts', hslot, posts, posts, hst.graph.worklet, hst.graph.ready, hst.posted]
  · rw [hsent.lastGoodPcm]
    exact hst.lastGoodPcm

theorem same_push (frameTs : ℕ) : Same s (s.pushDecoderTimestamp c frameTs) := by
  unfold pushDecoderTimestamp
  simp only
  split <;> exact ⟨⟨rfl, rfl, rfl, rfl⟩, ⟨rfl, rfl, rfl, rfl, rfl⟩⟩

/-- Reading the timestamp leaves all but its queue. -/
theorem same_shift : Same s (s.shiftDecoderTimestamp c).1 := by
  unfold shiftDecoderTimestamp
  split <;> exact ⟨⟨rfl, rfl, rfl, rfl⟩, ⟨rfl, rfl, rfl, rfl, rfl⟩⟩

/-- **What a decoder output does**, once its timestamp has been read. -/
theorem Tidy.heard (hs : Tidy s) (c : Channel) (mono : List α) :
    Heard cfg (s.shiftDecoderTimestamp c).1 c (s.shiftDecoderTimestamp c).2 mono
      (s.onDecoderOutput cfg c mono) := by
  have hs₀ : Tidy (s.shiftDecoderTimestamp c).1 := hs.sameFrames same_shift.toSameFrames
  unfold onDecoderOutput
  simp only
  generalize (s.shiftDecoderTimestamp c).1 = s₀ at hs₀ ⊢
  generalize (s.shiftDecoderTimestamp c).2 = frameTs
  split
  · rename_i hold
    exact .ignored (hold.imp_right Or.inl)
  split
  · rename_i hdown
    exact .ignored (Or.inr (Or.inr (Or.inl (by simpa using hdown))))
  rename_i hts _
  obtain ⟨hpos, hnew⟩ := not_or.mp hts
  rw [not_lt] at hpos
  rw [not_le] at hnew
  have hchosen := @Tidy.chosen α cfg s₀ hs₀ frameTs mono.length
  generalize (s₀.slotFor cfg frameTs mono.length).1 = s₁ at hchosen ⊢
  generalize (s₀.slotFor cfg frameTs mono.length).2 = k at hchosen ⊢
  split
  case isTrue hdup =>
    -- only a frame that was there has a plane already
    cases hchosen with
    | found hcell hts => exact .ignored (Or.inr (Or.inr (Or.inr ⟨k, hcell, hts, hdup⟩)))
    | opened _ h =>
      rw [h.data] at hdup
      cases hdup
    | evicted _ _ _ h =>
      rw [h.data] at hdup
      cases hdup
  case isFalse hfirst =>
    have hnone : (s₁.slots k).data c = none := Option.not_isSome_iff_eq_none.mp hfirst
    by_cases hcount : (s₁.slots k).count + 1 = 16
    · -- and only such a frame can be complete
      cases hchosen with
      | found hcell hts => exact hs₀.completed hpos hnew hcell hts hnone hcount
      | opened _ h =>
        rw [h.count] at hcount
        cases hcount
      | evicted _ _ _ h =>
        rw [h.count] at hcount
        cases hcount
    · have hst : Stored s₁ (s₁.storePlane cfg k c mono) k c mono := stored mono
      have hincomplete : ¬((s₁.storePlane cfg k c mono).slots k).count = 16 := by
        rw [hst.slots, Function.update_self]
        exact hcount
      rw [complete, if_neg hincomplete]
      exact .stored hpos hnew hchosen hnone hcount hst

/-! ### Reset -/

theorem ringIdx_lt (frameTs : ℤ) : ringIdx cfg frameTs < rxFramePoolSize := by
  unfold ringIdx rxFramePoolSize
  omega

/-- A cell is emptied as any frame ends. -/
theorem resetCell_cases (s : Rx α) (i : ℕ) :
    (s.frameRing i = none ∧ s.resetCell cfg i = s) ∨
      ∃ k, s.frameRing i = some k ∧ Ended cfg s (s.resetCell cfg i) i k ∧
        (s.resetCell cfg i).lastGoodPcm = s.lastGoodPcm := by
  unfold resetCell
  split
  · rename_i k hcell
    refine Or.inr ⟨k, hcell, ⟨?_, ?_, ?_, ?_⟩, ?_⟩
    · show Function.update (s.releaseFrameSlot cfg k).frameRing i none = _
      rw [frameRing_release]
    · exact slots_release
    · exact pool_release
    · exact made_release
    · exact lastGoodPcm_release
  · exact Or.inl ⟨‹_›, rfl⟩

/-! ### Timestamp queues -/

theorem tsQueues_release : (s.releaseFrameSlot cfg k).tsQueues = s.tsQueues := by
  unfold releaseFrameSlot
  simp only
  split <;> rfl

theorem tsQueues_dispatch : (s.dispatchFrame cfg k).tsQueues = s.tsQueues := by
  have hrecord : ∀ frame, (s.record cfg frame).tsQueues = s.tsQueues := by
    intro frame
    unfold record
    split <;> rfl
  unfold dispatchFrame
  simp only
  split
  · exact tsQueues_release
  · split
    · rw [tsQueues_release]
      exact hrecord _
    · exact hrecord _

theorem tsQueues_flush : (s.flushFrame cfg frameTs).tsQueues = s.tsQueues := by
  unfold flushFrame
  simp only
  split
  · rfl
  split
  · rfl
  split
  · exact tsQueues_release
  · rw [tsQueues_dispatch]
    simp only
    split <;> rfl

theorem tsQueues_open (frameSize : ℕ) :
    (s.openSlot cfg frameTs frameSize).1.tsQueues = s.tsQueues := by
  unfold openSlot acquireFrameSlot
  cases s.frameSlotPool <;> rfl

theorem tsQueues_slotFor (frameSize : ℕ) :
    (s.slotFor cfg frameTs frameSize).1.tsQueues = s.tsQueues := by
  unfold slotFor
  split
  · split
    · rfl
    · rw [tsQueues_open, tsQueues_flush]
  · exact tsQueues_open frameSize

theorem tsQueues_complete (mono : List α) :
    ((s.storePlane cfg k c mono).complete cfg k frameTs).tsQueues = s.tsQueues := by
  have hstore : (s.storePlane cfg k c mono).tsQueues = s.tsQueues := by
    unfold storePlane
    simp only
    split <;> rfl
  unfold complete
  split
  · rw [tsQueues_dispatch]
    exact hstore
  · exact hstore

/-- A decoder output reads one timestamp of its channel, and no other. -/
theorem tsQueues_onDecoderOutput (mono : List α) : (s.onDecoderOutput cfg c mono).tsQueues
    = (s.shiftDecoderTimestamp c).1.tsQueues := by
  unfold onDecoderOutput
  simp only
  split
  · rfl
  split
  · rfl
  split
  · exact tsQueues_slotFor _
  · rw [tsQueues_complete]
    exact tsQueues_slotFor _

/-! ### The graph -/

theorem Flushed.sameGraph (h : Flushed cfg s frameTs s') : SameGraph s s' := by
  cases h with
  | idle => exact .refl s
  | late _ _ _ _ _ _ _ hgraph => exact hgraph
  | dispatched _ _ _ _ _ _ _ _ hgraph => exact hgraph

theorem Chosen.sameGraph (h : Chosen cfg s frameTs s' k) : SameGraph s s' := by
  cases h with
  | found => exact .refl s
  | opened _ h => exact h.untouched.graph
  | evicted _ _ hflush h => exact hflush.sameGraph.trans h.untouched.graph

/-- Frames come and go, the graph stays. -/
theorem Heard.sameGraph {mono : List α} (h : Heard cfg s c frameTs mono s') : SameGraph s s' := by
  cases h with
  | ignored => exact .refl s
  | stored _ _ hchosen _ _ hstored => exact hchosen.sameGraph.trans hstored.graph
  | completed _ _ _ _ _ _ _ _ _ _ _ hgraph => exact hgraph

end Rx

/-! ### Steps -/

open Rx

/-- What a step does to the state. -/
inductive Stepped (cfg : Config α) (s : State α) : Action α → State α → Prop
  | push {c : Channel} {frameTs : ℕ} {rx : Rx α} (h : Same s.rx rx) :
      Stepped cfg s (.push c frameTs) { s with rx := rx }
  | output {c : Channel} {audioData : List α} {rx₀ rx : Rx α} (h₀ : Same s.rx rx₀)
      (h : Heard cfg rx₀ c (s.rx.shiftDecoderTimestamp c).2 audioData rx) :
      Stepped cfg s (.output c audioData) { s with
        rx := rx
        decoded := s.decoded ++ [⟨c, (s.rx.shiftDecoderTimestamp c).2, audioData⟩] }
  | timeout {id : ℕ} {e : ℕ × ℤ} {rx₀ rx : Rx α}
      (hfind : (s.rx.timers.find? fun e => e.1 = id) = some e) (h₀ : Same s.rx rx₀)
      (h : Flushed cfg rx₀ e.2 rx) : Stepped cfg s (.timeout id) { s with rx := rx }
  | graph {ready worklet : Bool} : Stepped cfg s (.graph ready worklet)
      { s with rx := { s.rx with graphReady := ready, playbackWorklet := worklet } }
  | mark {frameTs : ℤ} {rx : Rx α} (h : Same s.rx rx) :
      Stepped cfg s (.mark frameTs) { s with rx := rx }
  | recorded {rx : Rx α} (h : Same s.rx rx) : Stepped cfg s .recorded { s with rx := rx }
  | reset : Stepped cfg s .reset {
      rx := { s.rx.resetRxAssembly cfg with posted := [] }
      decoded := []
      earlier := s.earlier ++ s.decoded }

/-- **What a step does.** -/
theorem Rx.Tidy.step_cases {cfg : Config α} {s s' : State α} {a : Action α} (hs : Tidy s.rx)
    (h : step cfg s a = some s') : Stepped cfg s a s' := by
  cases a with
  | push c frameTs =>
    obtain rfl := Option.some.inj h
    exact .push (same_push frameTs)
  | output c audioData =>
    obtain rfl := Option.some.inj h
    exact .output same_shift (hs.heard c audioData)
  | timeout id =>
    simp only [step] at h
    split at h
    · rename_i e hfind
      obtain rfl := Option.some.inj h
      have hfired : Same s.rx { s.rx with timers := s.rx.timers.filter fun e => e.1 ≠ id } :=
        ⟨⟨rfl, rfl, rfl, rfl⟩, ⟨rfl, rfl, rfl, rfl, rfl⟩⟩
      exact .timeout hfind hfired (flushFrame_cases (hs.sameFrames hfired.toSameFrames).count e.2)
    · cases h
  | graph ready worklet =>
    obtain rfl := Option.some.inj h
    exact .graph
  | mark frameTs =>
    obtain rfl := Option.some.inj h
    exact .mark ⟨⟨rfl, rfl, rfl, rfl⟩, ⟨rfl, rfl, rfl, rfl, rfl⟩⟩
  | recorded =>
    obtain ⟨-, heq⟩ := Option.ite_none_right_eq_some.mp h
    obtain rfl := Option.some.inj heq
    exact .recorded ⟨⟨rfl, rfl, rfl, rfl⟩, ⟨rfl, rfl, rfl, rfl, rfl⟩⟩
  | reset =>
    obtain rfl := Option.some.inj h
    exact .reset

end AmbiRTC.Assembly
