/-
AmbiRTC/PlayoutFrames.lean

What the receiver posts to the playback worklet (client/engine.js `_dispatchFrame`).
The worklet takes the length of the first plane for the length of all, and places the
frame by its timestamp.  As long as every decoder output has the frame size and every
packet a timestamp on the frame grid, so has every frame posted, also those with
planes made up and those that end early.

Main result: `OnTheGrid.step`.
-/
import AmbiRTC.AssemblyOrder
import AmbiRTC.Worklet

namespace AmbiRTC.Assembly

open Runs Rx

variable {α : Type}

/-- What the worklet reads of a message: the planes, at the length of the first.  Past the
end of a shorter plane the worklet stores NaN, for which `silence` stands here; no plane
of a posted message is shorter (`Playout.Posting`). -/
def Message.frame (silence : α) (m : Message α) : Playback.PostedFrame α where
  timestamp := m.timestamp.toNat
  frameSize := ((m.channels ⟨0, Nat.succ_pos 15⟩).getD []).length
  channels c s := ((m.channels c).getD []).getD s.val silence

/-- On the grid of frames, `r` samples off its origin. -/
def OnGrid (cfg : Config α) (r : ℕ) (t : ℤ) : Prop := 0 ≤ t ∧ t % cfg.frameSize = r

/-- Each of the planes there are has the frame size. -/
def Sized (cfg : Config α) (data : Channel → Option (List α)) : Prop :=
  ∀ c plane, data c = some plane → plane.length = cfg.frameSize

/-- A message of full length on the grid. -/
structure Message.Regular (cfg : Config α) (r : ℕ) (m : Message α) : Prop where
  onGrid : OnGrid cfg r m.timestamp
  sized : Sized cfg m.channels

/-- What the decoders and the network keep to: outputs of the frame size, timestamps
on the grid. -/
def Keeps (cfg : Config α) (r : ℕ) : Action α → Prop
  | .push _ frameTs => frameTs < 2 ^ 32 ∧ frameTs % cfg.frameSize = r
  | .output _ audioData => audioData.length = cfg.frameSize
  | _ => True

namespace Rx

variable {cfg : Config α} {s s' : Rx α} {i k n r : ℕ} {c : Channel} {frameTs : ℤ}

/-! ### The size of the slots -/

/-- Every slot has the frame size. -/
def SlotSizes (cfg : Config α) (slots : ℕ → FrameSlot α) : Prop :=
  ∀ k, (slots k).frameSize = cfg.frameSize

theorem SlotSizes.update {slots : ℕ → FrameSlot α} (h : SlotSizes cfg slots) {frame : FrameSlot α}
    (hframe : frame.frameSize = cfg.frameSize) :
    SlotSizes cfg (Function.update slots k frame) := by
  intro k'
  by_cases hk : k' = k
  · subst hk
    rw [Function.update_self]
    exact hframe
  · rw [Function.update_of_ne hk]
    exact h k'

theorem SlotSizes.ended (h : SlotSizes cfg s.slots) (hended : Ended cfg s s' i k) :
    SlotSizes cfg s'.slots := by
  rw [hended.slots]
  exact h.update rfl

theorem SlotSizes.flushed (h : SlotSizes cfg s.slots) (hflush : Flushed cfg s frameTs s') :
    SlotSizes cfg s'.slots := by
  cases hflush with
  | idle => exact h
  | late _ _ _ hended => exact h.ended hended
  | dispatched _ _ _ _ hended => exact h.ended hended

/-- A slot is opened for a frame of the size of the output that needs it. -/
theorem SlotSizes.opened (h : SlotSizes cfg s.slots) :
    SlotSizes cfg (s.openSlot cfg frameTs cfg.frameSize).1.slots := by
  unfold openSlot acquireFrameSlot
  rcases s.frameSlotPool with - | ⟨k, pool⟩
  · refine SlotSizes.update (h.update rfl) ?_
    show (Function.update s.slots s.made _ s.made).frameSize = _
    rw [Function.update_self]
  · refine SlotSizes.update (h.update rfl) ?_
    show (Function.update s.slots k _ k).frameSize = _
    rw [Function.update_self]

theorem SlotSizes.slotFor (h : SlotSizes cfg s.slots) (htidy : Tidy s) :
    SlotSizes cfg (s.slotFor cfg frameTs cfg.frameSize).1.slots := by
  unfold Rx.slotFor
  split
  · split
    · exact h
    · exact (h.flushed (flushFrame_cases htidy.count _)).opened
  · exact h.opened

theorem SlotSizes.dispatch (h : SlotSizes cfg s.slots) :
    SlotSizes cfg (s.dispatchFrame cfg k).slots := by
  unfold dispatchFrame
  split
  · rw [slots_release]
    exact h.update rfl
  · obtain ⟨set, frames, timer, hrecord⟩ := @record_eq α cfg s (s.slots k)
    simp only [hrecord]
    split
    · rw [slots_release]
      exact h.update rfl
    · exact h

theorem SlotSizes.complete (h : SlotSizes cfg s.slots) :
    SlotSizes cfg (s.complete cfg k frameTs).slots := by
  unfold Rx.complete
  split
  · exact SlotSizes.dispatch (h.update (h k))
  · exact h

/-- A plane more does not change the size of a slot. -/
theorem SlotSizes.of_stored {mono : List α} (h : SlotSizes cfg s'.slots)
    (hstored : Stored s s' k c mono) : SlotSizes cfg s.slots := by
  intro k'
  have hk' := h k'
  rw [hstored.slots] at hk'
  by_cases hk : k' = k
  · subst hk
    rwa [Function.update_self] at hk'
  · rwa [Function.update_of_ne hk] at hk'

theorem SlotSizes.heard (h : SlotSizes cfg s.slots) (htidy : Tidy s) {mono : List α}
    (hlen : mono.length = cfg.frameSize) :
    SlotSizes cfg (s.onDecoderOutput cfg c mono).slots := by
  have hshift := htidy.sameFrames (same_shift (c := c)).toSameFrames
  rw [← (same_shift (c := c)).slots] at h
  unfold onDecoderOutput
  simp only
  split
  · exact h
  split
  · exact h
  rw [hlen]
  have hchosen : SlotSizes cfg ((s.shiftDecoderTimestamp c).1.slotFor cfg
      (s.shiftDecoderTimestamp c).2 cfg.frameSize).1.slots := h.slotFor hshift
  split
  · exact hchosen
  · refine SlotSizes.complete ?_
    rw [(stored mono).slots]
    exact hchosen.update (hchosen _)

/-! ### Frames of full length on the grid -/

/-- All there is has the frame size and lies on the grid. -/
structure Regular (cfg : Config α) (r : ℕ) (s : Rx α) : Prop where
  slotSizes : SlotSizes cfg s.slots
  onGrid : ∀ i k, s.frameRing i = some k → OnGrid cfg r (s.slots k).frameTs
  sized : ∀ k, Sized cfg (s.slots k).data
  kept : ∀ c lg, s.lastGoodPcm c = some lg → lg.length = cfg.frameSize
  posted : ∀ m ∈ s.posted, m.Regular cfg r

theorem regular_new (cfg : Config α) (r : ℕ) : Regular cfg r (Rx.new cfg) where
  slotSizes _ := rfl
  onGrid _ _ h := nomatch h
  sized _ _ _ h := nomatch h
  kept _ _ h := nomatch h
  posted _ h := nomatch h

theorem Regular.same (hs : Regular cfg r s) (h : Same s s') : Regular cfg r s' where
  slotSizes := by
    rw [h.slots]
    exact hs.slotSizes
  onGrid := by
    rw [h.ring, h.slots]
    exact hs.onGrid
  sized := by
    rw [h.slots]
    exact hs.sized
  kept := by
    rw [h.lastGoodPcm]
    exact hs.kept
  posted := by
    rw [h.posted]
    exact hs.posted

/-- A frame more is posted, or none. -/
theorem Regular.posts (hs : Regular cfg r s) {m : Message α} (hm : m.Regular cfg r) :
    ∀ m' ∈ s.posts m, m'.Regular cfg r := by
  unfold Rx.posts
  split
  · intro m' hm'
    rcases List.mem_append.mp hm' with hold | hnew
    · exact hs.posted m' hold
    · rw [List.mem_singleton.mp hnew]
      exact hm
  · exact hs.posted

theorem Regular.ended (hs : Regular cfg r s) (howned : Owned s) (hcell : s.frameRing i = some k)
    (h : Ended cfg s s' i k)
    (hkept : ∀ c lg, s'.lastGoodPcm c = some lg → lg.length = cfg.frameSize)
    (hposted : ∀ m ∈ s'.posted, m.Regular cfg r) : Regular cfg r s' where
  slotSizes := hs.slotSizes.ended h
  onGrid i' k' hk' := by
    rw [howned.slots_ended hcell h hk']
    exact hs.onGrid i' k' (h.of_ring hk').2
  sized k' := by
    rw [h.slots]
    by_cases hk : k' = k
    · subst hk
      rw [Function.update_self]
      intro c plane hplane
      cases hplane
    · rw [Function.update_of_ne hk]
      exact hs.sized k'
  kept := hkept
  posted := hposted

/-- What is made up for a frame has its size. -/
theorem Regular.concealed (hs : Regular cfg r s) {data : Channel → Option (List α)}
    (h : Concealed cfg s (s.slots k) data) : Sized cfg data := by
  intro c plane hplane
  obtain ⟨plane', hplane', hsource⟩ := h c
  obtain rfl : plane' = plane := Option.some.inj (hplane'.symm.trans hplane)
  rcases hsource with hslot | ⟨-, rfl | ⟨lg, n, hlg, -, -, rfl⟩⟩
  · exact hs.sized k c plane' hslot
  · rw [List.length_replicate, hs.slotSizes k]
  · rw [List.length_map, hs.kept c lg hlg]

theorem Regular.flushed (hs : Regular cfg r s) (howned : Owned s)
    (h : Flushed cfg s frameTs s') : Regular cfg r s' := by
  cases h with
  | idle => exact hs
  | late hcell _ _ hended _ hposted hgood =>
    exact hs.ended howned hcell hended (hgood ▸ hs.kept) (hposted ▸ hs.posted)
  | dispatched hcell hts _ hdata hended _ hposted hgood =>
    have hgrid := hs.onGrid _ _ hcell
    rw [hts] at hgrid
    exact hs.ended howned hcell hended (hgood ▸ hs.kept)
      (hposted ▸ hs.posts ⟨hgrid, hs.concealed hdata⟩)

theorem Regular.opened (hs : Regular cfg r s) (howned : Owned s)
    (hsizes : SlotSizes cfg s'.slots) (hgrid : OnGrid cfg r frameTs)
    (h : Opened s s' frameTs i k) : Regular cfg r s' where
  slotSizes := hsizes
  onGrid i' k' hk' := by
    rcases h.of_ring hk' with ⟨-, rfl⟩ | ⟨-, hold⟩
    · rw [h.frameTs]
      exact hgrid
    · rw [howned.slots_opened h hold]
      exact hs.onGrid i' k' hold
  sized k' := by
    by_cases hk : k' = k
    · subst hk
      intro c plane hplane
      rw [h.data] at hplane
      cases hplane
    · rw [h.slots k' hk]
      exact hs.sized k'
  kept := by
    rw [h.untouched.lastGoodPcm]
    exact hs.kept
  posted := by
    rw [h.untouched.posted]
    exact hs.posted

/-- The slot of a timestamp, before a plane goes into it. -/
theorem Regular.chosen (hs : Regular cfg r s) (howned : Owned s)
    (hsizes : SlotSizes cfg s'.slots) (hgrid : OnGrid cfg r frameTs)
    (h : Chosen cfg s frameTs s' k) : Regular cfg r s' := by
  cases h with
  | found => exact hs
  | opened _ h => exact hs.opened howned hsizes hgrid h
  | evicted _ _ hflush h =>
    refine (hs.flushed howned hflush).opened ?_ hsizes hgrid h
    cases hflush with
    | idle => exact howned
    | late hcell _ _ hended => exact howned.ended hcell hended
    | dispatched hcell _ _ _ hended => exact howned.ended hcell hended

theorem sized_add {frame : FrameSlot α} {mono : List α} (h : Sized cfg frame.data)
    (hlen : mono.length = cfg.frameSize) : Sized cfg (frame.add c mono).data := by
  intro c' plane hplane
  by_cases hc : c' = c
  · subst hc
    obtain rfl : mono = plane := by simpa [FrameSlot.add] using hplane
    exact hlen
  · simp only [FrameSlot.add, Function.update_of_ne hc] at hplane
    exact h c' plane hplane

theorem kept_update {mono : List α} (hlen : mono.length = cfg.frameSize)
    (hkept : ∀ c lg, s.lastGoodPcm c = some lg → lg.length = cfg.frameSize)
    (hgood : s'.lastGoodPcm = s.lastGoodPcm ∨
      s'.lastGoodPcm = Function.update s.lastGoodPcm c (some mono)) :
    ∀ c lg, s'.lastGoodPcm c = some lg → lg.length = cfg.frameSize := by
  rcases hgood with hgood | hgood
  · rw [hgood]
    exact hkept
  · intro c' lg hlg
    rw [hgood] at hlg
    by_cases hc : c' = c
    · subst hc
      rw [Function.update_self] at hlg
      rw [← Option.some.inj hlg, hlen]
    · rw [Function.update_of_ne hc] at hlg
      exact hkept c' lg hlg

theorem Regular.stored (hs : Regular cfg r s) {mono : List α} (hlen : mono.length = cfg.frameSize)
    (h : Stored s s' k c mono) : Regular cfg r s' where
  slotSizes := by
    rw [h.slots]
    exact hs.slotSizes.update (hs.slotSizes k)
  onGrid i' k' hk' := by
    rw [h.ring] at hk'
    rw [h.slots]
    by_cases hk : k' = k
    · subst hk
      rw [Function.update_self]
      exact hs.onGrid i' k' hk'
    · rw [Function.update_of_ne hk]
      exact hs.onGrid i' k' hk'
  sized k' := by
    rw [h.slots]
    by_cases hk : k' = k
    · subst hk
      rw [Function.update_self]
      exact sized_add (hs.sized k') hlen
    · rw [Function.update_of_ne hk]
      exact hs.sized k'
  kept := kept_update hlen hs.kept h.lastGoodPcm
  posted := by
    rw [h.posted]
    exact hs.posted

/-- **A decoder output of the frame size**, with a timestamp on the grid if it has one. -/
theorem Regular.heard (hs : Regular cfg r s) (hvalid : Tidy s) (howned : Owned s) {mono : List α}
    (hlen : mono.length = cfg.frameSize) (hpaired : ∀ t ∈ s.tsQueues c, t % cfg.frameSize = r) :
    Regular cfg r (s.onDecoderOutput cfg c mono) := by
  have hsizes := hs.slotSizes.heard hvalid hlen (c := c)
  have hs₀ := hs.same (same_shift (c := c))
  have howned₀ := howned.sameFrames (same_shift (c := c)).toSameFrames
  have hgrid : 0 ≤ (s.shiftDecoderTimestamp c).2 →
      OnGrid cfg r (s.shiftDecoderTimestamp c).2 := by
    intro hpos
    refine ⟨hpos, ?_⟩
    unfold shiftDecoderTimestamp at hpos ⊢
    split
    · rename_i hnil
      rw [hnil] at hpos
      exact absurd hpos (by show ¬(0 : ℤ) ≤ -1; decide)
    · rename_i t q hq
      show (t : ℤ) % cfg.frameSize = r
      exact_mod_cast hpaired t (hq ▸ List.mem_cons_self)
  have hheard : Heard cfg (s.shiftDecoderTimestamp c).1 c (s.shiftDecoderTimestamp c).2 mono
      (s.onDecoderOutput cfg c mono) := hvalid.heard c mono
  generalize (s.shiftDecoderTimestamp c).1 = s₀ at hs₀ howned₀ hheard
  generalize (s.shiftDecoderTimestamp c).2 = frameTs at hgrid hheard
  generalize s.onDecoderOutput cfg c mono = s' at hsizes hheard ⊢
  cases hheard with
  | ignored => exact hs₀
  | stored hpos _ hchosen _ _ hstored =>
    exact (hs₀.chosen howned₀ (hsizes.of_stored hstored) (hgrid hpos) hchosen).stored hlen hstored
  | completed hpos _ hcell hts _ _ _ hended _ hposted hgood =>
    exact hs₀.ended howned₀ hcell hended (kept_update hlen hs₀.kept hgood)
      (hposted ▸ hs₀.posts ⟨hgrid hpos, sized_add (hs₀.sized _) hlen⟩)

end Rx

/-! ### Steps -/

variable {cfg : Config α} {r : ℕ} {s s' : State α} {a : Action α}

/-- The receiver, with what its decoders still have to give back. -/
structure OnTheGrid (cfg : Config α) (r : ℕ) (s : State α) : Prop where
  valid : Rx.Valid cfg s.decoded s.earlier s.rx
  regular : Rx.Regular cfg r s.rx
  queued : ∀ c, ∀ t ∈ s.rx.tsQueues c, t % cfg.frameSize = r

theorem onTheGrid_start (cfg : Config α) (r : ℕ) : OnTheGrid cfg r (start cfg) :=
  ⟨Rx.valid_new, Rx.regular_new cfg r, fun _ _ ht => (nomatch ht)⟩

theorem mem_tsQueues_push {rx : Rx α} {c c' : Channel} {frameTs t : ℕ}
    (ht : t ∈ (rx.pushDecoderTimestamp c frameTs).tsQueues c') :
    t ∈ rx.tsQueues c' ∨ t = frameTs % 2 ^ 32 := by
  have hqueue : (rx.pushDecoderTimestamp c frameTs).tsQueues = Function.update rx.tsQueues c
      ((if (rx.tsQueues c).length = tsQueueCapacity then (rx.tsQueues c).tail
        else rx.tsQueues c) ++ [frameTs % 2 ^ 32]) := by
    unfold Rx.pushDecoderTimestamp
    simp only
    split <;> rfl
  rw [hqueue] at ht
  by_cases hc : c' = c
  · subst hc
    rw [Function.update_self] at ht
    rcases List.mem_append.mp ht with hold | hnew
    · refine Or.inl ?_
      split at hold
      · exact List.mem_of_mem_tail hold
      · exact hold
    · exact Or.inr (List.mem_singleton.mp hnew)
  · rw [Function.update_of_ne hc] at ht
    exact Or.inl ht

theorem mem_tsQueues_shift {rx : Rx α} {c c' : Channel} {t : ℕ}
    (ht : t ∈ (rx.shiftDecoderTimestamp c).1.tsQueues c') : t ∈ rx.tsQueues c' := by
  unfold Rx.shiftDecoderTimestamp at ht
  split at ht
  · exact ht
  · rename_i t' q hq
    by_cases hc : c' = c
    · subst hc
      simp only [Function.update_self] at ht
      rw [hq]
      exact List.mem_cons_of_mem t' ht
    · simp only [Function.update_of_ne hc] at ht
      exact ht

/-- The graph stays as it is, and nothing is reset. -/
def Action.receives : Action α → Bool
  | .graph _ _ => false
  | .reset => false
  | _ => true

/-- **Whatever the receiver does, all stays regular.** -/
theorem OnTheGrid.step (hs : OnTheGrid cfg r s) (hkeeps : Keeps cfg r a)
    (hreceives : a.receives) (h : Assembly.step cfg s a = some s') :
    OnTheGrid cfg r s' := by
  have hvalid := valid_step hs.valid h
  have hstepped := hs.valid.tidy.step_cases h
  cases a with
  -- a timestamp that enters a queue is on the grid; it leaves with an output
  | push c frameTs =>
    obtain rfl := Option.some.inj h
    refine ⟨hvalid, hs.regular.same (same_push frameTs), fun c' t ht => ?_⟩
    rcases mem_tsQueues_push ht with hold | rfl
    · exact hs.queued c' t hold
    · rw [Nat.mod_eq_of_lt hkeeps.1]
      exact hkeeps.2
  | output c audioData =>
    obtain rfl := Option.some.inj h
    refine ⟨hvalid, hs.regular.heard hs.valid.tidy hs.valid.owned hkeeps (hs.queued c),
      fun c' t ht => ?_⟩
    rw [show (s.rx.onDecoderOutput cfg c audioData).tsQueues
      = (s.rx.shiftDecoderTimestamp c).1.tsQueues from tsQueues_onDecoderOutput audioData] at ht
    exact hs.queued c' t (mem_tsQueues_shift ht)
  | timeout id =>
    simp only [Assembly.step] at h
    split at h
    · rename_i e _
      obtain rfl := Option.some.inj h
      refine ⟨hvalid, ?_, ?_⟩
      · cases hstepped with
        | timeout _ h₀ hflush =>
          exact (hs.regular.same h₀).flushed (hs.valid.owned.sameFrames h₀.toSameFrames) hflush
      · intro c t ht
        rw [show (Rx.flushFrame cfg _ e.2).tsQueues = _ from tsQueues_flush] at ht
        exact hs.queued c t ht
    · cases h
  -- marks and recordings touch neither frames nor queues
  | mark frameTs =>
    obtain rfl := Option.some.inj h
    cases hstepped with
    | mark h₀ => exact ⟨hvalid, hs.regular.same h₀, hs.queued⟩
  | recorded =>
    cases hstepped with
    | recorded h₀ =>
      obtain ⟨-, heq⟩ := Option.ite_none_right_eq_some.mp h
      exact ⟨hvalid, hs.regular.same h₀, by
        rw [← congrArg State.rx (Option.some.inj heq)]
        exact hs.queued⟩
  | graph ready worklet => cases hreceives
  | reset => cases hreceives

/-- What has been posted stays posted, and comes before what is posted later. -/
theorem posted_prefix (hs : Tidy s.rx) (hreceives : a.receives)
    (h : Assembly.step cfg s a = some s') : s.rx.posted <+: s'.rx.posted := by
  have hposts : ∀ (rx : Rx α) (m : Message α), rx.posted <+: rx.posts m := by
    intro rx m
    unfold Rx.posts
    split
    · exact List.prefix_append _ _
    · exact List.prefix_refl _
  have hflushed : ∀ {rx rx' : Rx α} {frameTs : ℤ}, Flushed cfg rx frameTs rx' →
      rx.posted <+: rx'.posted := by
    intro rx rx' frameTs hflush
    cases hflush with
    | idle => exact List.prefix_refl _
    | late _ _ _ _ _ hposted => exact hposted ▸ List.prefix_refl _
    | dispatched _ _ _ _ _ _ hposted => exact hposted ▸ hposts rx _
  cases hs.step_cases h with
  | push h₀ | mark h₀ | recorded h₀ => exact h₀.posted ▸ List.prefix_refl _
  | timeout _ h₀ hflush => exact h₀.posted ▸ hflushed hflush
  | output h₀ hheard =>
    rw [← h₀.posted]
    cases hheard with
    | ignored => exact List.prefix_refl _
    | stored _ _ hchosen _ _ hstored =>
      rw [hstored.posted]
      cases hchosen with
      | found => exact List.prefix_refl _
      | opened _ h => exact h.untouched.posted ▸ List.prefix_refl _
      | evicted _ _ hflush h => exact h.untouched.posted ▸ hflushed hflush
    | completed _ _ _ _ _ _ _ _ _ hposted => exact hposted ▸ hposts _ _
  | graph => cases hreceives
  | reset => cases hreceives

end AmbiRTC.Assembly
