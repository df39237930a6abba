/-
AmbiRTC/DownlinkAssembly.lean

A stream of whole frames in the receiver's ring.  Each decoder gives back its frames
in order, the decoders at their own pace, and none is a turn of the ring ahead.
Nothing is evicted then, and a frame is posted when all before it have been: with its
sixteenth plane, or by its timer, after which the planes it still lacks are late.

Main results: `Collecting.heard`, `Collecting.timedOut`.
-/
import AmbiRTC.AssemblyLoss

namespace AmbiRTC.Assembly

open Rx

variable {α : Type} {cfg : Config α} {rx rx' : Rx α} {t₀ m : ℕ} {c : Channel}
  {outputs : Channel → List (List α)} {mono : List α} {quiet : Prop}

/-- The timestamp of frame `j` of a stream from `t₀` on. -/
def frameAt (cfg : Config α) (t₀ j : ℕ) : ℤ := ((t₀ + j * cfg.frameSize : ℕ) : ℤ)

/-- The last timestamp of the first `n` frames. -/
def lastAt (cfg : Config α) (t₀ : ℕ) : ℕ → ℤ
  | 0 => -1
  | n + 1 => frameAt cfg t₀ n

theorem frameAt_nonneg (j : ℕ) : 0 ≤ frameAt cfg t₀ j := Int.natCast_nonneg _

theorem frameAt_mono {j j' : ℕ} (h : j ≤ j') : frameAt cfg t₀ j ≤ frameAt cfg t₀ j' := by
  have hmul : j * cfg.frameSize ≤ j' * cfg.frameSize := Nat.mul_le_mul_right _ h
  unfold frameAt
  omega

theorem lastAt_lt {n : ℕ} (hpos : 0 < cfg.frameSize) (h : m ≤ n) :
    lastAt cfg t₀ m < frameAt cfg t₀ n := by
  cases m with
  | zero =>
    have hnonneg := @frameAt_nonneg α cfg t₀ n
    show (-1 : ℤ) < _
    omega
  | succ m =>
    have hmul : m * cfg.frameSize < n * cfg.frameSize := Nat.mul_lt_mul_of_pos_right h hpos
    show frameAt cfg t₀ m < frameAt cfg t₀ n
    unfold frameAt
    omega

/-- A frame later than the last of the first `m` is not one of them. -/
theorem le_of_lastAt_lt {j : ℕ} (h : lastAt cfg t₀ m < frameAt cfg t₀ j) : m ≤ j := by
  cases m with
  | zero => exact Nat.zero_le j
  | succ m =>
    by_contra hlt
    have hle : frameAt cfg t₀ j ≤ frameAt cfg t₀ m :=
      frameAt_mono (Nat.le_of_lt_succ (not_le.mp hlt))
    exact absurd h (not_lt.mpr hle)

/-- Frames less than a turn of the ring apart have cells of their own. -/
theorem ringIdx_inj (hpos : 0 < cfg.frameSize) {j j' : ℕ}
    (h : ringIdx cfg (frameAt cfg t₀ j) = ringIdx cfg (frameAt cfg t₀ j'))
    (hlo : j < j' + 64) (hhi : j' < j + 64) : j = j' := by
  have hdiv : ∀ i : ℕ, frameAt cfg t₀ i / cfg.frameSize
      = ((t₀ / cfg.frameSize + i : ℕ) : ℤ) := by
    intro i
    rw [frameAt, ← Int.natCast_ediv, Nat.add_mul_div_right _ _ hpos]
  unfold ringIdx rxFramePoolSize at h
  rw [hdiv, hdiv] at h
  omega

/-- The receiver when the decoders have given back `outputs`: `m` frames have been
posted, and a plane of a later one is in the ring, in the slot of its frame.  If no
timer has found a frame there, those posted have the planes that were decoded. -/
structure Collecting (quiet : Prop) (cfg : Config α) (t₀ m : ℕ)
    (outputs : Channel → List (List α)) (rx : Rx α) : Prop where
  valid : ∃ decoded earlier, Rx.Valid cfg decoded earlier rx
  up : rx.Up
  behind : ∃ c, (outputs c).length ≤ m
  posted : rx.posted.map Message.timestamp = (List.range m).map (frameAt cfg t₀)
  flushed : rx.lastFlushedTs = lastAt cfg t₀ m
  slots : ∀ i q, rx.frameRing i = some q → ∃ j, m ≤ j ∧ (∃ c, j < (outputs c).length) ∧
    (rx.slots q).frameTs = frameAt cfg t₀ j ∧ ∀ c, (rx.slots q).data c = (outputs c)[j]?
  cells : ∀ c j, m ≤ j → j < (outputs c).length →
    ∃ q, rx.frameRing (ringIdx cfg (frameAt cfg t₀ j)) = some q
  exact : quiet → (∀ c, m ≤ (outputs c).length) ∧
    rx.posted = (List.range m).map fun i => ⟨frameAt cfg t₀ i, fun c => (outputs c)[i]?⟩

theorem Collecting.same (h : Collecting quiet cfg t₀ m outputs rx) (hsame : Same rx rx') :
    Collecting quiet cfg t₀ m outputs rx' := by
  obtain ⟨⟨decoded, earlier, hvalid⟩, hup, hbehind, hposted, hflushed, hslots, hcells, hexact⟩ := h
  rw [← hsame.ring, ← hsame.slots] at hslots
  rw [← hsame.ring] at hcells
  rw [← hsame.posted] at hposted hexact
  exact ⟨⟨decoded, earlier, hvalid.same hsame⟩, hup.same hsame.graph, hbehind, hposted,
    hsame.lastFlushedTs.trans hflushed, hslots, hcells, hexact⟩

/-- The frame of a cell: the only one near that may be there. -/
theorem Collecting.slot_of_cell (h : Collecting quiet cfg t₀ m outputs rx)
    (hpos : 0 < cfg.frameSize) (hwindow : ∀ d, (outputs d).length ≤ m + 64) {j q : ℕ}
    (hlo : m ≤ j) (hhi : j < m + 64)
    (hcell : rx.frameRing (ringIdx cfg (frameAt cfg t₀ j)) = some q) :
    (rx.slots q).frameTs = frameAt cfg t₀ j ∧ ∀ d, (rx.slots q).data d = (outputs d)[j]? := by
  obtain ⟨decoded, earlier, hvalid⟩ := h.valid
  obtain ⟨j', hj', ⟨d, hd⟩, hts, hdata⟩ := h.slots _ q hcell
  have hidx := hvalid.collected.cell _ q hcell
  rw [hts] at hidx
  have hwin := hwindow d
  obtain rfl := ringIdx_inj hpos hidx (by omega) (by omega)
  exact ⟨hts, hdata⟩

/-! ### One output -/

/-- What the decoders have given back, with one more output of channel `c`. -/
def given (outputs : Channel → List (List α)) (c : Channel) (mono : List α) :
    Channel → List (List α) :=
  Function.update outputs c (outputs c ++ [mono])

theorem given_self : (given outputs c mono c)[(outputs c).length]? = some mono := by
  rw [given, Function.update_self, List.getElem?_concat_length]

theorem given_ne {d : Channel} {j : ℕ} (hne : d ≠ c ∨ j ≠ (outputs c).length) :
    (given outputs c mono d)[j]? = (outputs d)[j]? := by
  unfold given
  rcases eq_or_ne d c with rfl | hd
  · have hj := hne.resolve_left (not_not.mpr rfl)
    rw [Function.update_self]
    rcases Nat.lt_or_gt_of_ne hj with hlt | hgt
    · exact List.getElem?_append_left hlt
    · rw [List.getElem?_eq_none (by rw [List.length_append, List.length_singleton]; omega),
        List.getElem?_eq_none hgt.le]
  · rw [Function.update_of_ne hd]

theorem length_given_self : (given outputs c mono c).length = (outputs c).length + 1 := by
  rw [given, Function.update_self, List.length_append, List.length_singleton]

theorem length_given_ne {d : Channel} (hd : d ≠ c) :
    (given outputs c mono d).length = (outputs d).length := by
  rw [given, Function.update_of_ne hd]

theorem le_length_given (d : Channel) : (outputs d).length ≤ (given outputs c mono d).length := by
  rcases eq_or_ne d c with rfl | hd
  · rw [length_given_self]
    exact Nat.le_succ _
  · rw [length_given_ne hd]

/-- All but the new output were there before. -/
theorem lt_of_lt_given {d : Channel} {j : ℕ} (h : j < (given outputs c mono d).length)
    (hne : ¬ (d = c ∧ j = (outputs c).length)) : j < (outputs d).length := by
  rcases eq_or_ne d c with rfl | hd
  · rw [length_given_self] at h
    have hj : j ≠ (outputs d).length := fun heq => hne ⟨rfl, heq⟩
    omega
  · rwa [length_given_ne hd] at h

/-- The planes of a frame, once the new output is among them. -/
theorem data_add {frame : FrameSlot α}
    (h : ∀ d, frame.data d = (outputs d)[(outputs c).length]?) (d : Channel) :
    (frame.add c mono).data d = (given outputs c mono d)[(outputs c).length]? := by
  show Function.update frame.data c (some mono) d = _
  rcases eq_or_ne d c with rfl | hd
  · rw [Function.update_self, given_self]
  · rw [Function.update_of_ne hd, given_ne (Or.inl hd), h]

/-- What was posted is as it was. -/
theorem posted_given {n : ℕ} (hn : n ≤ (outputs c).length) :
    ((List.range n).map fun i =>
        (⟨frameAt cfg t₀ i, fun d => (given outputs c mono d)[i]?⟩ : Message α))
      = (List.range n).map fun i => ⟨frameAt cfg t₀ i, fun d => (outputs d)[i]?⟩ := by
  refine List.map_congr_left fun i hi => ?_
  have hlt := List.mem_range.mp hi
  congr 1
  funext d
  exact given_ne (Or.inr (by omega))

/-- Slot `q` has the next frame of channel `c`, and the rest of the ring is as
before. -/
structure Placed (cfg : Config α) (rx rx₁ : Rx α) (frameTs : ℤ) (q : ℕ)
    (planes : Channel → Option (List α)) : Prop where
  cell : rx₁.frameRing (ringIdx cfg frameTs) = some q
  stamp : (rx₁.slots q).frameTs = frameTs
  data : ∀ d, (rx₁.slots q).data d = planes d
  filled : (rx₁.slots q).filled = (rx₁.slots q).count
  only : ∀ i, rx₁.frameRing i = some q → i = ringIdx cfg frameTs
  others : ∀ i q', q' ≠ q → rx₁.frameRing i = some q' →
    rx.frameRing i = some q' ∧ rx₁.slots q' = rx.slots q'
  kept : ∀ i q', rx.frameRing i = some q' → rx₁.frameRing i = some q'
  valid : ∃ decoded earlier, Rx.Valid cfg decoded earlier rx₁
  flushed : rx₁.lastFlushedTs = rx.lastFlushedTs
  posted : rx₁.posted = rx.posted

/-- **The slot of an output**: its frame is there, or opened in an empty cell. -/
theorem Collecting.placed (h : Collecting quiet cfg t₀ m outputs rx) (hpos : 0 < cfg.frameSize)
    (hwindow : ∀ d, (outputs d).length ≤ m + 64) (hlo : m ≤ (outputs c).length)
    (hnear : (outputs c).length < m + 64) {rx₁ : Rx α} {q : ℕ}
    (hchosen : Chosen cfg rx (frameAt cfg t₀ (outputs c).length) rx₁ q) :
    Placed cfg rx rx₁ (frameAt cfg t₀ (outputs c).length) q
      fun d => (outputs d)[(outputs c).length]? := by
  obtain ⟨decoded, earlier, hvalid⟩ := h.valid
  cases hchosen with
  | found hcell hts =>
    obtain ⟨-, hdata⟩ := h.slot_of_cell hpos hwindow hlo hnear hcell
    exact ⟨hcell, hts, hdata, hvalid.tidy.filled _ q hcell,
      fun i hi => hvalid.owned.oneCell i _ q hi hcell, fun i q' _ hq' => ⟨hq', rfl⟩,
      fun _ _ hq' => hq', ⟨decoded, earlier, hvalid⟩, rfl, rfl⟩
  | opened hcell hopened =>
    -- no channel has given this frame back
    have hnone : ∀ d, (outputs d)[(outputs c).length]? = none := by
      intro d
      refine List.getElem?_eq_none (not_lt.mp fun hlt => ?_)
      obtain ⟨q', hq'⟩ := h.cells d _ hlo hlt
      rw [hcell] at hq'
      cases hq'
    refine ⟨by rw [hopened.ring, Function.update_self], hopened.frameTs,
      fun d => (hopened.data d).trans (hnone d).symm, ?_, fun i hi => ?_, fun i q' hne hq' => ?_,
      fun i q' hq' => ?_, ⟨decoded, earlier, hvalid.opened hopened⟩,
      hopened.untouched.lastFlushedTs, hopened.untouched.posted⟩
    · rw [FrameSlot.filled_eq_zero hopened.data, hopened.count]
    · rcases hopened.of_ring hi with ⟨rfl, -⟩ | ⟨-, hold⟩
      · rfl
      · exact absurd hold (hvalid.owned.not_ring hopened i)
    · rcases hopened.of_ring hq' with ⟨-, rfl⟩ | ⟨-, hold⟩
      · exact absurd rfl hne
      · exact ⟨hold, hopened.slots q' hne⟩
    · rw [hopened.ring, Function.update_of_ne, hq']
      rintro rfl
      rw [hcell] at hq'
      cases hq'
  | evicted hcell hts _ _ =>
    exact absurd (h.slot_of_cell hpos hwindow hlo hnear hcell).1 hts

/-- An output of a frame that has been posted is late. -/
theorem Collecting.ignored (h : Collecting quiet cfg t₀ m outputs rx)
    (hlate : (outputs c).length < m) : Collecting quiet cfg t₀ m (given outputs c mono) rx where
  valid := h.valid
  up := h.up
  behind := ⟨c, by rw [length_given_self]; exact hlate⟩
  posted := h.posted
  flushed := h.flushed
  slots i q hq := by
    obtain ⟨j, hj, ⟨d, hd⟩, hts, hdata⟩ := h.slots i q hq
    refine ⟨j, hj, ⟨d, hd.trans_le (le_length_given d)⟩, hts, fun d => ?_⟩
    rw [hdata, given_ne (Or.inr (by omega))]
  cells d j hj hlt := h.cells d j hj (lt_of_lt_given hlt (by omega))
  exact hquiet := absurd ((h.exact hquiet).1 c) (not_le.mpr hlate)

/-- While its frame is not complete some channel is still where all have got to. -/
theorem Collecting.behind_given (h : Collecting quiet cfg t₀ m outputs rx) {frame : FrameSlot α}
    (hlo : m ≤ (outputs c).length)
    (hdata : ∀ d, frame.data d = (outputs d)[(outputs c).length]?)
    (hfilled : frame.filled = frame.count) (hnone : frame.data c = none)
    (hcount : frame.count + 1 ≠ 16) : ∃ d, (given outputs c mono d).length ≤ m := by
  obtain ⟨d, hd⟩ := h.behind
  rcases eq_or_ne d c with rfl | hne
  · by_contra hall
    -- then all other channels have the frame, and this is its last plane
    refine hcount ?_
    rw [← hfilled, ← @FrameSlot.filled_add α frame d mono hnone]
    refine FrameSlot.filled_of_full fun d' => ?_
    rw [data_add hdata]
    rcases eq_or_ne d' d with rfl | hd'
    · rw [given_self]
      rfl
    · have hlen : ¬ (given outputs d mono d').length ≤ m := fun hle => hall ⟨d', hle⟩
      rw [Option.isSome_iff_ne_none, Ne, List.getElem?_eq_none_iff]
      rw [length_given_ne hd'] at hlen ⊢
      omega
  · exact ⟨d, (length_given_ne hne).trans_le hd⟩

/-- **A plane of a frame that is not complete.** -/
theorem Collecting.stored (h : Collecting quiet cfg t₀ m outputs rx)
    (hlo : m ≤ (outputs c).length) {rx₁ : Rx α} {q : ℕ}
    (hplaced : Placed cfg rx rx₁ (frameAt cfg t₀ (outputs c).length) q
      fun d => (outputs d)[(outputs c).length]?)
    (hnone : (rx₁.slots q).data c = none) (hcount : (rx₁.slots q).count + 1 ≠ 16)
    (hstored : Stored rx₁ rx' q c mono)
    (hvalid' : ∃ decoded earlier, Rx.Valid cfg decoded earlier rx') (hup' : rx'.Up) :
    Collecting quiet cfg t₀ m (given outputs c mono) rx' := by
  have hposted : rx'.posted = rx.posted := hstored.posted.trans hplaced.posted
  refine ⟨hvalid', hup', h.behind_given hlo hplaced.data hplaced.filled hnone hcount, ?_, ?_, ?_,
    ?_, fun hquiet => ⟨fun d => ((h.exact hquiet).1 d).trans (le_length_given d), ?_⟩⟩
  · rw [hposted, h.posted]
  · rw [hstored.lastFlushedTs, hplaced.flushed, h.flushed]
  · intro i q' hq'
    rw [hstored.ring] at hq'
    rcases eq_or_ne q' q with rfl | hne
    · rw [hstored.slots, Function.update_self]
      exact ⟨(outputs c).length, hlo, ⟨c, by rw [length_given_self]; exact Nat.lt_succ_self _⟩,
        hplaced.stamp, data_add hplaced.data⟩
    · obtain ⟨hold, hslot⟩ := hplaced.others i q' hne hq'
      obtain ⟨j, hj, ⟨d, hd⟩, hts, hdata⟩ := h.slots i q' hold
      rw [hstored.slots, Function.update_of_ne hne, hslot]
      refine ⟨j, hj, ⟨d, hd.trans_le (le_length_given d)⟩, hts, fun d => ?_⟩
      rw [hdata, given_ne (Or.inr ?_)]
      -- it is another frame than that of the output
      rintro rfl
      obtain ⟨decoded, earlier, hvalid⟩ := h.valid
      have hidx := hvalid.collected.cell i q' hold
      rw [hts] at hidx
      rw [← hidx, hplaced.cell] at hq'
      exact hne (Option.some.inj hq').symm
  · intro d j hj hlt
    rw [hstored.ring]
    by_cases hnew : d = c ∧ j = (outputs c).length
    · rw [hnew.2]
      exact ⟨q, hplaced.cell⟩
    · obtain ⟨q', hq'⟩ := h.cells d j hj (lt_of_lt_given hlt hnew)
      exact ⟨q', hplaced.kept _ q' hq'⟩
  · rw [hposted, (h.exact hquiet).2, posted_given hlo]

/-- When the next frame is posted, those left in the ring are later. -/
theorem Collecting.later (h : Collecting quiet cfg t₀ m outputs rx) {q : ℕ}
    (hcell : rx.frameRing (ringIdx cfg (frameAt cfg t₀ m)) = some q)
    (hended : Ended cfg rx rx' (ringIdx cfg (frameAt cfg t₀ m)) q) {i q' : ℕ}
    (hq' : rx'.frameRing i = some q') : ∃ j, m + 1 ≤ j ∧ (∃ d, j < (outputs d).length) ∧
      (rx'.slots q').frameTs = frameAt cfg t₀ j ∧ ∀ d, (rx'.slots q').data d = (outputs d)[j]? := by
  obtain ⟨decoded, earlier, hvalid⟩ := h.valid
  obtain ⟨hi, hold⟩ := hended.of_ring hq'
  obtain ⟨j, hj, hsome, hts, hdata⟩ := h.slots i q' hold
  have hne : j ≠ m := by
    rintro rfl
    have hidx := hvalid.collected.cell i q' hold
    rw [hts] at hidx
    exact hi hidx.symm
  rw [hvalid.owned.slots_ended hcell hended hq']
  exact ⟨j, by omega, hsome, hts, hdata⟩

/-- And all planes of later frames are. -/
theorem Collecting.cells_ended (h : Collecting quiet cfg t₀ m outputs rx) (hpos : 0 < cfg.frameSize)
    (hwindow : ∀ d, (outputs d).length ≤ m + 64) {q : ℕ}
    (hended : Ended cfg rx rx' (ringIdx cfg (frameAt cfg t₀ m)) q) {d : Channel} {j : ℕ}
    (hj : m + 1 ≤ j) (hlt : j < (outputs d).length) :
    ∃ q', rx'.frameRing (ringIdx cfg (frameAt cfg t₀ j)) = some q' := by
  obtain ⟨q', hq'⟩ := h.cells d j (by omega) hlt
  refine ⟨q', ?_⟩
  rw [hended.ring, Function.update_of_ne, hq']
  intro hsame
  have hwin := hwindow d
  have := ringIdx_inj hpos hsame (by omega) (by omega)
  omega

/-- The timestamps posted, when the next frame is. -/
theorem Collecting.posted_succ (h : Collecting quiet cfg t₀ m outputs rx)
    {data : Channel → Option (List α)} (hposted : rx'.posted = rx.posts ⟨frameAt cfg t₀ m, data⟩) :
    rx'.posted.map Message.timestamp = (List.range (m + 1)).map (frameAt cfg t₀) := by
  rw [hposted, h.up.posts, List.map_append, h.posted, List.range_succ, List.map_append]
  rfl

/-- **The sixteenth plane**, of the first frame that has not been posted. -/
theorem Collecting.completed (h : Collecting quiet cfg t₀ m outputs rx) (hpos : 0 < cfg.frameSize)
    (hwindow : ∀ d, (outputs d).length ≤ m + 64) (hlo : m ≤ (outputs c).length) {q : ℕ}
    (hcell : rx.frameRing (ringIdx cfg (frameAt cfg t₀ (outputs c).length)) = some q)
    (hdata : ∀ d, (rx.slots q).data d = (outputs d)[(outputs c).length]?)
    (hfull : ∀ d, (((rx.slots q).add c mono).data d).isSome)
    (hended : Ended cfg rx rx' (ringIdx cfg (frameAt cfg t₀ (outputs c).length)) q)
    (hflushed : rx'.lastFlushedTs = frameAt cfg t₀ (outputs c).length)
    (hposted : rx'.posted
      = rx.posts ⟨frameAt cfg t₀ (outputs c).length, ((rx.slots q).add c mono).data⟩)
    (hvalid' : ∃ decoded earlier, Rx.Valid cfg decoded earlier rx') (hup' : rx'.Up) :
    Collecting quiet cfg t₀ (m + 1) (given outputs c mono) rx' ∧
      ∀ d, m + 1 ≤ (given outputs c mono d).length := by
  have hothers : ∀ d, d ≠ c → (outputs c).length < (outputs d).length := by
    intro d hd
    have hsome := hfull d
    have hadd : ((rx.slots q).add c mono).data d = (rx.slots q).data d :=
      Function.update_of_ne hd _ _
    rw [hadd, hdata, Option.isSome_iff_ne_none, Ne,
      List.getElem?_eq_none_iff, not_le] at hsome
    exact hsome
  -- the channel that completes the frame was the last one behind
  have hm : (outputs c).length = m := by
    obtain ⟨d, hd⟩ := h.behind
    rcases eq_or_ne d c with rfl | hne
    · exact hd.antisymm hlo
    · have := hothers d hne
      omega
  have hplanes : ((rx.slots q).add c mono).data = fun d => (given outputs c mono d)[m]? := by
    funext d
    rw [data_add hdata, hm]
  rw [hm] at hcell hended hflushed hposted
  have hall : ∀ d, m + 1 ≤ (given outputs c mono d).length := by
    intro d
    rcases eq_or_ne d c with rfl | hd
    · rw [length_given_self, hm]
    · rw [length_given_ne hd]
      have := hothers d hd
      omega
  refine ⟨⟨hvalid', hup', ⟨c, by rw [length_given_self, hm]⟩, h.posted_succ hposted, hflushed,
    fun i q' hq' => ?_, fun d j hj hlt => ?_, fun hquiet => ⟨hall, ?_⟩⟩, hall⟩
  -- the other cells hold later frames, as before
  · obtain ⟨j, hj, ⟨d, hd⟩, hts, hold⟩ := h.later hcell hended hq'
    refine ⟨j, hj, ⟨d, hd.trans_le (le_length_given d)⟩, hts, fun d => ?_⟩
    rw [hold, given_ne (Or.inr (by omega))]
  · exact h.cells_ended hpos hwindow hended hj (lt_of_lt_given hlt (by omega))
  -- in quiet runs what has been posted is every frame, with its planes
  · rw [hposted, h.up.posts, (h.exact hquiet).2, hplanes, List.range_succ, List.map_append,
      posted_given hm.ge]
    rfl

/-- **An output of a decoder.**  It is late, or it goes to its frame; the next frame to
be posted is posted with its sixteenth plane. -/
theorem Collecting.heard (h : Collecting quiet cfg t₀ m outputs rx) (hpos : 0 < cfg.frameSize)
    (hwindow : ∀ d, (outputs d).length ≤ m + 64) (hnear : (outputs c).length < m + 64)
    (hheard : Heard cfg rx c (frameAt cfg t₀ (outputs c).length) mono rx')
    (hvalid' : ∃ decoded earlier, Rx.Valid cfg decoded earlier rx') :
    ∃ m', Collecting quiet cfg t₀ m' (given outputs c mono) rx' ∧
      (m' = m ∨ ∀ d, m' ≤ (given outputs c mono d).length) := by
  have hup' := h.up.same hheard.sameGraph
  cases hheard with
  | ignored hwhy =>
    rcases Nat.lt_or_ge (outputs c).length m with hlate | hlo
    · exact ⟨m, h.ignored hlate, Or.inl rfl⟩
    -- a plane of a frame that has not been posted is not ignored
    exfalso
    rcases hwhy with hneg | hold | hdown | ⟨q, hcell, -, hdup⟩
    · exact absurd hneg (not_lt.mpr (frameAt_nonneg _))
    · rw [h.flushed] at hold
      exact absurd (lastAt_lt hpos hlo) (not_lt.mpr hold)
    · rw [h.up.ready] at hdown
      cases hdown
    · rw [(h.slot_of_cell hpos hwindow hlo hnear hcell).2,
        List.getElem?_eq_none le_rfl] at hdup
      cases hdup
  | stored _ hnew hchosen hnone hcount hstored =>
    rw [h.flushed] at hnew
    have hlo := le_of_lastAt_lt hnew
    exact ⟨m, h.stored hlo (h.placed hpos hwindow hlo hnear hchosen) hnone hcount hstored hvalid'
      hup', Or.inl rfl⟩
  | completed _ hnew hcell _ _ _ hfull hended hflushed hposted _ _ =>
    rw [h.flushed] at hnew
    have hlo := le_of_lastAt_lt hnew
    have hdata := (h.slot_of_cell hpos hwindow hlo hnear hcell).2
    obtain ⟨hcollecting, hall⟩ :=
      h.completed hpos hwindow hlo hcell hdata hfull hended hflushed hposted hvalid' hup'
    exact ⟨m + 1, hcollecting, Or.inr hall⟩

/-! ### One timeout -/

/-- The oldest frame in the ring is the next to be posted. -/
theorem Collecting.next_of_oldest (h : Collecting quiet cfg t₀ m outputs rx)
    (hpos : 0 < cfg.frameSize) (hwindow : ∀ d, (outputs d).length ≤ m + 64) {i q : ℕ}
    (hcell : rx.frameRing i = some q) (holdest : Oldest rx (rx.slots q).frameTs) :
    (rx.slots q).frameTs = frameAt cfg t₀ m := by
  obtain ⟨j, hj, ⟨c, hc⟩, hts, -⟩ := h.slots i q hcell
  -- channel `c` has given frame `m` back as well, which is in the ring
  obtain ⟨q', hcell'⟩ := h.cells c m le_rfl (by omega)
  have hfirst := (h.slot_of_cell hpos hwindow le_rfl (by omega) hcell').1
  have hle := holdest _ q' hcell'
  rw [hts, hfirst] at hle
  rcases hj.eq_or_lt with rfl | hlt
  · exact hts
  · have hmul : m * cfg.frameSize < j * cfg.frameSize := Nat.mul_lt_mul_of_pos_right hlt hpos
    unfold frameAt at hle
    omega

/-- **A timer** that finds its frame in the ring ends it. -/
theorem Collecting.flush (h : Collecting quiet cfg t₀ m outputs rx) (hpos : 0 < cfg.frameSize)
    {q : ℕ} (hcell : rx.frameRing (ringIdx cfg (rx.slots q).frameTs) = some q)
    (hflush : Flushed cfg rx (rx.slots q).frameTs rx') :
    rx'.lastFlushedTs = (rx.slots q).frameTs ∧
      Ended cfg rx rx' (ringIdx cfg (rx.slots q).frameTs) q ∧
      ∃ data, rx'.posted = rx.posts ⟨(rx.slots q).frameTs, data⟩ := by
  obtain ⟨j, hj, -, hts, -⟩ := h.slots _ q hcell
  cases hflush with
  | idle habsent => exact absurd rfl (habsent q hcell)
  | late _ _ hlate =>
    rw [h.flushed, hts] at hlate
    exact absurd (lastAt_lt hpos hj) (not_lt.mpr hlate)
  | dispatched hcell' _ _ _ hended hflushed hposted =>
    obtain rfl := Option.some.inj (hcell.symm.trans hcell')
    exact ⟨hflushed, hended, _, hposted⟩

/-- **The timer of the next frame to be posted** posts it. -/
theorem Collecting.timedOut (h : Collecting quiet cfg t₀ m outputs rx) (hpos : 0 < cfg.frameSize)
    (hwindow : ∀ d, (outputs d).length ≤ m + 64) (hloud : ¬quiet) {q : ℕ}
    (hcell : rx.frameRing (ringIdx cfg (rx.slots q).frameTs) = some q)
    (hflush : Flushed cfg rx (rx.slots q).frameTs rx')
    (hts : (rx.slots q).frameTs = frameAt cfg t₀ m)
    (hvalid' : ∃ decoded earlier, Rx.Valid cfg decoded earlier rx') :
    Collecting quiet cfg t₀ (m + 1) outputs rx' := by
  obtain ⟨hflushed, hended, data, hposted⟩ := h.flush hpos hcell hflush
  obtain ⟨c, hc⟩ := h.behind
  rw [hts] at hcell hflushed hended hposted
  exact ⟨hvalid', h.up.same hflush.sameGraph, ⟨c, hc.trans (Nat.le_succ m)⟩,
    h.posted_succ hposted, hflushed, fun i q' hq' => h.later hcell hended hq',
    fun d j hj hlt => h.cells_ended hpos hwindow hended hj hlt, fun hquiet => absurd hquiet hloud⟩

end AmbiRTC.Assembly
