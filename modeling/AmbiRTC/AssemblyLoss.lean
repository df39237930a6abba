/-
AmbiRTC/AssemblyLoss.lean

Whether an incomplete frame is concealed or lost.  A frame that is flushed after
a later one is dropped with the planes it has, so all depends on the order in
which frames end: by their sixteenth plane, by their timeout, or by a frame that
needs their cell.

As long as each step that ends a frame ends the oldest one, every frame leaves
the ring by being posted (`keeps_of_inOrder`).  That is exactly when no frame in
the ring has been overtaken (`live_iff`).
-/
import AmbiRTC.AssemblyOrder

namespace AmbiRTC.Assembly

open Runs Rx

variable {α : Type}

namespace Rx

/-! ### What may happen to a frame -/

/-- The frame in cell `i` stays there, and keeps its planes. -/
def Holds (s s' : Rx α) (i k : ℕ) : Prop :=
  s'.frameRing i = some k ∧ (s'.slots k).frameTs = (s.slots k).frameTs ∧
    ∀ c plane, (s.slots k).data c = some plane → (s'.slots k).data c = some plane

/-- The frame is posted, with the planes it had. -/
def Posts (s s' : Rx α) (k : ℕ) : Prop :=
  ∃ m, s'.posted = s.posted ++ [m] ∧ m.timestamp = (s.slots k).frameTs ∧
    ∀ c plane, (s.slots k).data c = some plane → m.channels c = some plane

/-- Every frame that leaves the ring is posted. -/
def Keeps (s s' : Rx α) : Prop :=
  ∀ i k, s.frameRing i = some k → Holds s s' i k ∨ Posts s s' k

/-- No frame in the ring is older. -/
def Oldest (s : Rx α) (frameTs : ℤ) : Prop :=
  ∀ i k, s.frameRing i = some k → frameTs ≤ (s.slots k).frameTs

/-- No frame in the ring has been overtaken by one that was dispatched. -/
def Live (s : Rx α) : Prop :=
  ∀ i k, s.frameRing i = some k → s.lastFlushedTs < (s.slots k).frameTs

/-- The frame that a decoder output for `frameTs` ends: one whose cell it needs, or
its own, if this is the sixteenth plane. -/
def endingAt (cfg : Config α) (s : Rx α) (c : Channel) (frameTs : ℤ) : Option ℤ :=
  if frameTs < 0 ∨ frameTs ≤ s.lastFlushedTs then none
  else
    (s.frameRing (ringIdx cfg frameTs)).bind fun k =>
      let frame := s.slots k
      if frame.frameTs ≠ frameTs then some frame.frameTs
      else if (frame.data c).isNone ∧ frame.count + 1 = 16 then some frameTs
      else none

/-- The frame it opens, in the cell of another. -/
def openingAt (cfg : Config α) (s : Rx α) (frameTs : ℤ) : Option ℤ :=
  (s.frameRing (ringIdx cfg frameTs)).bind fun k =>
    if (s.slots k).frameTs = frameTs then none else some frameTs

/-- The frame that an action ends. -/
def ending (cfg : Config α) (s : Rx α) : Action α → Option ℤ
  | .output c _ => endingAt cfg s c (s.shiftDecoderTimestamp c).2
  | .timeout id =>
    (s.timers.find? fun e => e.1 = id).bind fun e =>
      (s.frameRing (ringIdx cfg e.2)).bind fun k =>
        if (s.slots k).frameTs = e.2 then some e.2 else none
  | _ => none

/-- The frame that an action opens in the cell of the one it ends. -/
def opening (cfg : Config α) (s : Rx α) : Action α → Option ℤ
  | .output c _ => openingAt cfg s (s.shiftDecoderTimestamp c).2
  | _ => none

/-- The audio graph is up. -/
structure Up (s : Rx α) : Prop where
  ready : s.graphReady = true
  worklet : s.playbackWorklet = true

variable {cfg : Config α} {s s' s'' : Rx α} {i k i' k' : ℕ} {c : Channel} {frameTs : ℤ}

theorem Holds.trans (h : Holds s s' i k) (h' : Holds s' s'' i k) : Holds s s'' i k :=
  ⟨h'.1, h'.2.1.trans h.2.1, fun c plane hplane => h'.2.2 c plane (h.2.2 c plane hplane)⟩

theorem holds_same (h : SameFrames s s') (hcell : s.frameRing i = some k) : Holds s s' i k := by
  refine ⟨by rw [h.ring, hcell], by rw [h.slots], fun c plane hplane => ?_⟩
  rw [h.slots, hplane]

theorem Posts.of_same (h₀ : Same s s') (h : Posts s' s'' k) : Posts s s'' k := by
  unfold Posts at h ⊢
  rwa [h₀.posted, h₀.slots] at h

theorem endingAt_same (h : Same s s') : endingAt cfg s' c frameTs = endingAt cfg s c frameTs := by
  simp only [endingAt, h.ring, h.slots, h.lastFlushedTs]

theorem openingAt_same (h : Same s s') : openingAt cfg s' frameTs = openingAt cfg s frameTs := by
  simp only [openingAt, h.ring, h.slots]

theorem Live.same (hs : Live s) (h : Same s s') : Live s' := by
  unfold Live at hs ⊢
  rwa [h.ring, h.slots, h.lastFlushedTs]

theorem Oldest.same (hs : Oldest s frameTs) (h : Same s s') : Oldest s' frameTs := by
  unfold Oldest at hs ⊢
  rwa [h.ring, h.slots]

theorem Up.same (hs : Up s) (h : SameGraph s s') : Up s' :=
  ⟨h.ready.trans hs.ready, h.worklet.trans hs.worklet⟩

theorem holds_ended (howned : Owned s) (hcell : s.frameRing i = some k)
    (h : Ended cfg s s' i k) (hi : i' ≠ i) (hcell' : s.frameRing i' = some k') :
    Holds s s' i' k' := by
  have hring : s'.frameRing i' = some k' := by
    rw [h.ring, Function.update_of_ne hi, hcell']
  have hslot := howned.slots_ended hcell h hring
  exact ⟨hring, by rw [hslot], fun c plane hplane => by rw [hslot, hplane]⟩

theorem holds_opened (howned : Owned s) (h : Opened s s' frameTs i k) (hi : i' ≠ i)
    (hcell' : s.frameRing i' = some k') : Holds s s' i' k' := by
  have hslot := howned.slots_opened h hcell'
  refine ⟨?_, by rw [hslot], fun c plane hplane => by rw [hslot, hplane]⟩
  rw [h.ring, Function.update_of_ne hi, hcell']

theorem holds_stored {mono : List α} (h : Stored s s' k c mono)
    (hnone : (s.slots k).data c = none) (hcell' : s.frameRing i' = some k') :
    Holds s s' i' k' := by
  refine ⟨by rw [h.ring, hcell'], ?_, fun c' plane hplane => ?_⟩
  · rw [h.slots]
    by_cases hk : k' = k
    · subst hk
      rw [Function.update_self]
      rfl
    · rw [Function.update_of_ne hk]
  · rw [h.slots]
    by_cases hk : k' = k
    · subst hk
      rw [Function.update_self]
      have hc : c' ≠ c := by
        rintro rfl
        rw [hnone] at hplane
        cases hplane
      simp only [FrameSlot.add, Function.update_of_ne hc, hplane]
    · rw [Function.update_of_ne hk, hplane]

/-! ### What a step does -/

/-- No frame ends; one may be opened. -/
structure Stays (s s' : Rx α) : Prop where
  flushed : s'.lastFlushedTs = s.lastFlushedTs
  kept : ∀ i k, s.frameRing i = some k → Holds s s' i k
  ring : ∀ i k, s'.frameRing i = some k →
    s.frameRing i = some k ∨ s.lastFlushedTs < (s'.slots k).frameTs

/-- The frame in cell `i` and slot `k` is posted; one may be opened in its cell. -/
structure Ends (s s' : Rx α) (i k : ℕ) (opened : Option ℤ) : Prop where
  cell : s.frameRing i = some k
  flushed : s'.lastFlushedTs = (s.slots k).frameTs
  posts : Posts s s' k
  kept : ∀ i' k', i' ≠ i → s.frameRing i' = some k' → Holds s s' i' k'
  ring : ∀ i' k', s'.frameRing i' = some k' →
    (i' ≠ i ∧ s.frameRing i' = some k') ∨ opened = some (s'.slots k').frameTs
  opens : ∀ frameTs, opened = some frameTs →
    ∃ k', s'.frameRing i = some k' ∧ (s'.slots k').frameTs = frameTs

theorem Stays.keeps (h : Stays s s') : Keeps s s' :=
  fun i k hcell => Or.inl (h.kept i k hcell)

theorem Stays.live (h : Stays s s') (hs : Live s) : Live s' := by
  intro i k hcell
  rw [h.flushed]
  rcases h.ring i k hcell with hold | hnew
  · rw [(h.kept i k hold).2.1]
    exact hs i k hold
  · exact hnew

theorem Ends.keeps {opened : Option ℤ} (h : Ends s s' i k opened) : Keeps s s' := by
  intro i' k' hcell'
  by_cases hi : i' = i
  · subst hi
    obtain rfl := Option.some.inj (h.cell.symm.trans hcell')
    exact Or.inr h.posts
  · exact Or.inl (h.kept i' k' hi hcell')

theorem stays_same (h : Same s s') : Stays s s' := by
  refine ⟨h.lastFlushedTs, fun i k hcell => holds_same h.toSameFrames hcell, fun i k hk => ?_⟩
  rw [h.ring] at hk
  exact Or.inl hk

theorem Stays.trans (h : Stays s s') (h' : Stays s' s'') : Stays s s'' := by
  refine ⟨h'.flushed.trans h.flushed, fun i k hcell => ?_, fun i k hk => ?_⟩
  · have hfirst := h.kept i k hcell
    exact hfirst.trans (h'.kept i k hfirst.1)
  · rcases h'.ring i k hk with hold | hnew
    · rw [(h'.kept i k hold).2.1]
      exact h.ring i k hold
    · rw [h.flushed] at hnew
      exact Or.inr hnew

theorem Ends.of_same {opened : Option ℤ} (h₀ : Same s s') (h : Ends s' s'' i k opened) :
    Ends s s'' i k opened where
  cell := by rw [← h₀.ring, h.cell]
  flushed := by rw [h.flushed, h₀.slots]
  posts := h.posts.of_same h₀
  kept i' k' hi hcell := by
    have hfirst := holds_same h₀.toSameFrames hcell
    exact hfirst.trans (h.kept i' k' hi hfirst.1)
  ring := by
    rw [← h₀.ring]
    exact h.ring
  opens := h.opens

/-- **The frame that ends overtakes nobody** just if it is the oldest, and none but
a later one takes its place. -/
theorem Ends.live_iff {opened : Option ℤ} (h : Ends s s' i k opened)
    (hcells : ∀ i k, s.frameRing i = some k → ringIdx cfg (s.slots k).frameTs = i) :
    Live s' ↔ Oldest s (s.slots k).frameTs ∧
      ∀ frameTs, opened = some frameTs → (s.slots k).frameTs < frameTs := by
  constructor
  · intro hs'
    constructor
    · intro i' k' hcell'
      by_cases hi : i' = i
      · subst hi
        obtain rfl := Option.some.inj (h.cell.symm.trans hcell')
        exact le_rfl
      · obtain ⟨hring, hts, -⟩ := h.kept i' k' hi hcell'
        have hlt := hs' i' k' hring
        rw [h.flushed, hts] at hlt
        exact hlt.le
    · intro frameTs hopened
      obtain ⟨k', hring, rfl⟩ := h.opens frameTs hopened
      rw [← h.flushed]
      exact hs' i k' hring
  · rintro ⟨holdest, hlater⟩ i' k' hring
    rw [h.flushed]
    rcases h.ring i' k' hring with ⟨hi, hcell'⟩ | hopened
    · rw [(h.kept i' k' hi hcell').2.1]
      -- frames of other cells have other timestamps
      refine lt_of_le_of_ne (holdest i' k' hcell') fun heq => hi ?_
      rw [← hcells i' k' hcell', ← heq, hcells i k h.cell]
    · exact hlater _ hopened

/-- What is posted while the graph is up. -/
theorem Up.posts (hup : Up s) (m : Message α) : s.posts m = s.posted ++ [m] := by
  rw [Rx.posts, hup.ready, hup.worklet]
  rfl

/-- A frame that ends by being posted. -/
theorem Ended.ends (howned : Owned s) (hcell : s.frameRing i = some k) (h : Ended cfg s s' i k)
    (hflushed : s'.lastFlushedTs = (s.slots k).frameTs) (hposts : Posts s s' k) :
    Ends s s' i k none where
  cell := hcell
  flushed := hflushed
  posts := hposts
  kept _ _ hi hcell' := holds_ended howned hcell h hi hcell'
  ring _ _ hk' := Or.inl (h.of_ring hk')
  opens _ hopened := nomatch hopened

/-- A flush of a frame that has not been overtaken. -/
theorem Flushed.ends (howned : Owned s) (hlive : Live s) (hup : Up s)
    (hcell : s.frameRing (ringIdx cfg frameTs) = some k) (hts : (s.slots k).frameTs = frameTs)
    (h : Flushed cfg s frameTs s') : Ends s s' (ringIdx cfg frameTs) k none := by
  cases h with
  | idle h => exact absurd hts (h k hcell)
  | late hcell' _ hlate =>
    have hlt := hlive _ k hcell
    rw [hts] at hlt
    exact absurd hlate (not_le.mpr hlt)
  | @dispatched k' _ data hcell' _ _ hdata hended hflushed hposted _ _ =>
    obtain rfl := Option.some.inj (hcell.symm.trans hcell')
    refine hended.ends howned hcell (by rw [hflushed, hts])
      ⟨_, by rw [hposted, hup.posts], hts.symm, fun c plane hplane => ?_⟩
    obtain ⟨plane', hplane', hsource⟩ := hdata c
    rcases hsource with hsame | ⟨hnone, -⟩
    · rw [hplane] at hsame
      exact hplane'.trans hsame.symm
    · rw [hplane] at hnone
      cases hnone

/-- Another frame takes the cell of one that has ended. -/
theorem Ends.opened {mono : List α} (h : Ends s s' i k none) (howned : Owned s')
    {s₁ : Rx α} (hopened : Opened s' s₁ frameTs i k') (hstored : Stored s₁ s'' k' c mono) :
    Ends s s'' i k (some frameTs) := by
  have hring : s''.frameRing i = some k' := by
    rw [hstored.ring, hopened.ring, Function.update_self]
  have hts : (s''.slots k').frameTs = frameTs := by
    rw [hstored.slots, Function.update_self]
    exact hopened.frameTs
  obtain ⟨m, hposted, hm⟩ := h.posts
  refine ⟨h.cell, ?_, ⟨m, ?_, hm⟩, fun i₁ k₁ hi hcell₁ => ?_, fun i₁ k₁ hk₁ => ?_,
    fun ts hts' => ⟨k', hring, by rw [hts]; exact Option.some.inj hts'⟩⟩
  · rw [hstored.lastFlushedTs, hopened.untouched.lastFlushedTs, h.flushed]
  · rw [hstored.posted, hopened.untouched.posted, hposted]
  · have hfirst := h.kept i₁ k₁ hi hcell₁
    have hsecond := holds_opened howned hopened hi hfirst.1
    exact (hfirst.trans hsecond).trans (holds_stored hstored (hopened.data c) hsecond.1)
  · rw [hstored.ring] at hk₁
    rcases hopened.of_ring hk₁ with ⟨rfl, rfl⟩ | ⟨hi, hold⟩
    · exact Or.inr (by rw [hts])
    · exact Or.inl ((h.ring i₁ k₁ hold).resolve_right fun h => nomatch h)

/-- A new plane, for a frame that stays. -/
theorem Stored.stays {mono : List α} (h : Stored s s' k c mono)
    (hnone : (s.slots k).data c = none) : Stays s s' := by
  refine ⟨h.lastFlushedTs, fun i k' hcell => holds_stored h hnone hcell, fun i k' hk' => ?_⟩
  rw [h.ring] at hk'
  exact Or.inl hk'

/-- A new frame, in an empty cell. -/
theorem Opened.stays (howned : Owned s) (hcell : s.frameRing i = none)
    (hnew : s.lastFlushedTs < frameTs) (h : Opened s s' frameTs i k) : Stays s s' := by
  refine ⟨h.untouched.lastFlushedTs, fun i' k' hcell' => ?_, fun i' k' hk' => ?_⟩
  · refine holds_opened howned h ?_ hcell'
    rintro rfl
    rw [hcell] at hcell'
    cases hcell'
  · rcases h.of_ring hk' with ⟨rfl, rfl⟩ | ⟨-, hold⟩
    · exact Or.inr (h.frameTs ▸ hnew)
    · exact Or.inl hold

/-- **A decoder output** ends a frame or it does not. -/
theorem Heard.outcome {decoded earlier : List (Output α)} {mono : List α}
    (hs : Valid cfg decoded earlier s) (hlive : Live s) (hup : Up s)
    (h : Heard cfg s c frameTs mono s') :
    (endingAt cfg s c frameTs = none ∧ Stays s s') ∨
      ∃ k, endingAt cfg s c frameTs = some (s.slots k).frameTs ∧
        Ends s s' (ringIdx cfg frameTs) k (openingAt cfg s frameTs) := by
  cases h with
  | ignored hwhy =>
    refine Or.inl ⟨?_, rfl, fun i k hcell => ⟨hcell, rfl, fun _ _ hplane => hplane⟩,
      fun i k hcell => Or.inl hcell⟩
    -- none of the reasons for dropping the output ends a frame
    unfold endingAt
    rcases hwhy with hneg | hold | hdown | ⟨k, hcell, hts, hdup⟩
    · rw [if_pos (Or.inl hneg)]
    · rw [if_pos (Or.inr hold)]
    · rw [hup.ready] at hdown
      cases hdown
    · split
      · rfl
      · have hsome : (s.slots k).data c ≠ none := Option.isSome_iff_ne_none.mp hdup
        simp [hcell, hts, hsome]
  | @stored s₁ _ k hpos hnew hchosen hnone hcount hstored =>
    have hguard : ¬(frameTs < 0 ∨ frameTs ≤ s.lastFlushedTs) :=
      not_or.mpr ⟨not_lt.mpr hpos, not_le.mpr hnew⟩
    cases hchosen with
    -- the cell is its frame's, and this is not the last channel
    | found hcell hts =>
      refine Or.inl ⟨?_, hstored.stays hnone⟩
      have hcount' : (s.slots k).count ≠ 15 := fun heq => hcount (by rw [heq])
      rw [endingAt, if_neg hguard]
      simp [hcell, hts, hcount']
    -- the cell is empty
    | opened hcell hopened =>
      refine Or.inl ⟨?_, (hopened.stays hs.owned hcell hnew).trans (hstored.stays hnone)⟩
      rw [endingAt, if_neg hguard, hcell, Option.bind_none]
    -- the cell is another frame's, which is flushed first
    | @evicted s₀ _ _ k' hcell hts hflush hopened =>
      have hidx := hs.collected.cell _ k' hcell
      have hends : Ends s s₀ (ringIdx cfg frameTs) k' none := by
        have hcell' := hcell
        rw [← hidx] at hcell' ⊢
        exact hflush.ends hs.owned hlive hup hcell' rfl
      refine Or.inr ⟨k', ?_, ?_⟩
      · rw [endingAt, if_neg hguard]
        simp [hcell, hts]
      · have hopening : openingAt cfg s frameTs = some frameTs := by
          simp [openingAt, hcell, hts]
        rw [hopening]
        exact hends.opened (hs.flushed hflush).owned hopened hstored
  -- the last channel: the frame is posted, and every plane of it with it
  | @completed _ k hpos hnew hcell hts hnone hcount hfull hended hflushed hposted _ _ =>
    have hguard : ¬(frameTs < 0 ∨ frameTs ≤ s.lastFlushedTs) :=
      not_or.mpr ⟨not_lt.mpr hpos, not_le.mpr hnew⟩
    refine Or.inr ⟨k, ?_, ?_⟩
    · have hcount' : (s.slots k).count = 15 := Nat.succ.inj hcount
      rw [endingAt, if_neg hguard]
      simp [hcell, hts, hnone, hcount']
    · have hopening : openingAt cfg s frameTs = none := by
        simp [openingAt, hcell, hts]
      rw [hopening]
      refine hended.ends hs.owned hcell (by rw [hflushed, hts])
        ⟨_, by rw [hposted, hup.posts], hts.symm, fun c' plane hplane => ?_⟩
      have hc : c' ≠ c := by
        rintro rfl
        rw [hnone] at hplane
        cases hplane
      simp only [FrameSlot.add, Function.update_of_ne hc, hplane]

/-! ### Frames that have been overtaken -/

/-- What is posted is later than the last frame flushed. -/
structure Grows (s s' : Rx α) : Prop where
  flushed : s.lastFlushedTs ≤ s'.lastFlushedTs
  posted : ∃ new, s'.posted = s.posted ++ new ∧ ∀ m ∈ new, s.lastFlushedTs < m.timestamp

theorem Grows.of_same (hflushed : s'.lastFlushedTs = s.lastFlushedTs)
    (hposted : s'.posted = s.posted) : Grows s s' :=
  ⟨hflushed.ge, [], by rw [hposted, List.append_nil], fun _ h => (nomatch h)⟩

theorem Grows.trans (h : Grows s s') (h' : Grows s' s'') : Grows s s'' := by
  obtain ⟨new, hposted, hnew⟩ := h.posted
  obtain ⟨new', hposted', hnew'⟩ := h'.posted
  refine ⟨h.flushed.trans h'.flushed, new ++ new', ?_, fun m hm => ?_⟩
  · rw [hposted', hposted, List.append_assoc]
  · rcases List.mem_append.mp hm with hm | hm
    · exact hnew m hm
    · exact h.flushed.trans_lt (hnew' m hm)

theorem Grows.of_posts {m : Message α} (hnew : s.lastFlushedTs < m.timestamp)
    (hflushed : s'.lastFlushedTs = m.timestamp) (hposted : s'.posted = s.posts m) :
    Grows s s' := by
  refine ⟨hflushed ▸ hnew.le, ?_⟩
  unfold Rx.posts at hposted
  split at hposted
  · refine ⟨[m], hposted, fun m' hm' => ?_⟩
    rw [List.mem_singleton.mp hm']
    exact hnew
  · exact ⟨[], by rw [hposted, List.append_nil], fun _ h => (nomatch h)⟩

theorem Flushed.grows (h : Flushed cfg s frameTs s') : Grows s s' := by
  cases h with
  | idle => exact .of_same rfl rfl
  | late _ _ _ _ hflushed hposted => exact .of_same hflushed hposted
  | dispatched _ _ hnew _ _ hflushed hposted => exact .of_posts hnew hflushed hposted

theorem Opened.grows (h : Opened s s' frameTs i k) : Grows s s' :=
  .of_same h.untouched.lastFlushedTs h.untouched.posted

theorem Heard.grows {mono : List α} (h : Heard cfg s c frameTs mono s') : Grows s s' := by
  cases h with
  | ignored => exact .of_same rfl rfl
  | stored _ _ hchosen _ _ hstored =>
    have hlast : ∀ {s₁ : Rx α}, Grows s s₁ → s'.lastFlushedTs = s₁.lastFlushedTs →
        s'.posted = s₁.posted → Grows s s' :=
      fun h hflushed hposted => h.trans (.of_same hflushed hposted)
    refine hlast ?_ hstored.lastFlushedTs hstored.posted
    cases hchosen with
    | found => exact .of_same rfl rfl
    | opened _ h => exact h.grows
    | evicted _ _ hflush h => exact hflush.grows.trans h.grows
  | completed _ hnew _ _ _ _ _ _ hflushed hposted => exact .of_posts hnew hflushed hposted

end Rx

/-! ### Runs -/

/-- A step that ends a frame ends the oldest, and puts none but a later one in its
place. -/
def InOrder (cfg : Config α) (s : State α) (a : Action α) : Prop :=
  ∀ frameTs, ending cfg s.rx a = some frameTs →
    Oldest s.rx frameTs ∧ ∀ frameTs', opening cfg s.rx a = some frameTs' → frameTs < frameTs'

/-- Decoders, timers and recording; the graph stays, and there is no reset. -/
def Playing : Action α → Prop
  | .graph _ _ => False
  | .reset => False
  | _ => True

variable {cfg : Config α} {s s' : State α} {a : Action α}

/-- A timer finds its frame in the ring, or nothing happens. -/
theorem timeout_cases {id : ℕ} (hs : Tidy s.rx) (h : step cfg s (.timeout id) = some s') :
    (s.rx.ending cfg (.timeout id) = none ∧ Same s.rx s'.rx) ∨
      ∃ k rx₀, s.rx.ending cfg (.timeout id) = some (s.rx.slots k).frameTs ∧
        s.rx.frameRing (ringIdx cfg (s.rx.slots k).frameTs) = some k ∧ Same s.rx rx₀ ∧
        Flushed cfg rx₀ (s.rx.slots k).frameTs s'.rx := by
  cases hs.step_cases h with
  | @timeout _ e rx₀ rx hfind h₀ hflush =>
    by_cases hthere : ∃ k, s.rx.frameRing (ringIdx cfg e.2) = some k ∧
        (s.rx.slots k).frameTs = e.2
    · obtain ⟨k, hcell, hts⟩ := hthere
      refine Or.inr ⟨k, rx₀, by simp [ending, hfind, hcell, hts], by rwa [hts], h₀, ?_⟩
      rwa [hts]
    · refine Or.inl ⟨?_, ?_⟩
      · simp only [ending, hfind, Option.bind_some, Option.bind_eq_none_iff]
        intro k hcell
        rw [if_neg fun hts => hthere ⟨k, hcell, hts⟩]
      · rw [← h₀.ring, ← h₀.slots] at hthere
        cases hflush with
        | idle => exact h₀
        | late hcell hts => exact absurd ⟨_, hcell, hts⟩ hthere
        | dispatched hcell hts => exact absurd ⟨_, hcell, hts⟩ hthere

/-- **What a step does**, before any frame has been overtaken. -/
theorem step_outcome (hs : Rx.Valid cfg s.decoded s.earlier s.rx) (hlive : s.rx.Live)
    (hup : s.rx.Up) (hplaying : Playing a) (h : step cfg s a = some s') :
    (s.rx.ending cfg a = none ∧ Stays s.rx s'.rx) ∨
      ∃ i k, s.rx.ending cfg a = some (s.rx.slots k).frameTs ∧
        Ends s.rx s'.rx i k (s.rx.opening cfg a) := by
  cases hs.tidy.step_cases h with
  | push h₀ | mark h₀ | recorded h₀ => exact Or.inl ⟨rfl, stays_same h₀⟩
  | output h₀ hheard =>
    rcases hheard.outcome (hs.same h₀) (hlive.same h₀) (hup.same h₀.graph) with
      ⟨hnone, hstays⟩ | ⟨k, hsome, hends⟩
    · rw [endingAt_same h₀] at hnone
      exact Or.inl ⟨hnone, (stays_same h₀).trans hstays⟩
    · rw [endingAt_same h₀, h₀.slots] at hsome
      rw [openingAt_same h₀] at hends
      exact Or.inr ⟨_, k, hsome, hends.of_same h₀⟩
  | timeout =>
    rcases timeout_cases hs.tidy h with ⟨hnone, hsame⟩ | ⟨k, rx₀, hsome, hcell, h₀, hflush⟩
    · exact Or.inl ⟨hnone, stays_same hsame⟩
    · refine Or.inr ⟨ringIdx cfg (s.rx.slots k).frameTs, k, hsome, ?_⟩
      have hcell₀ : rx₀.frameRing (ringIdx cfg (s.rx.slots k).frameTs) = some k := by
        rw [h₀.ring, hcell]
      have hts₀ : (rx₀.slots k).frameTs = (s.rx.slots k).frameTs := by rw [h₀.slots]
      have hends := hflush.ends (hs.same h₀).owned (hlive.same h₀) (hup.same h₀.graph) hcell₀ hts₀
      exact hends.of_same h₀
  | graph | reset => exact absurd hplaying id

/-- **Ending the oldest frame overtakes nobody**, and nothing else does. -/
theorem live_step_iff (hs : Rx.Valid cfg s.decoded s.earlier s.rx) (hlive : s.rx.Live)
    (hup : s.rx.Up) (hplaying : Playing a) (h : step cfg s a = some s') :
    s'.rx.Live ↔ InOrder cfg s a := by
  rcases step_outcome hs hlive hup hplaying h with ⟨hnone, hstays⟩ | ⟨i, k, hsome, hends⟩
  · refine iff_of_true (hstays.live hlive) fun frameTs hend => ?_
    rw [hnone] at hend
    cases hend
  · rw [hends.live_iff hs.collected.cell, InOrder, hsome]
    constructor
    · rintro horder frameTs ⟨⟩
      exact horder
    · exact fun horder => horder _ rfl

theorem keeps_step (hs : Rx.Valid cfg s.decoded s.earlier s.rx) (hlive : s.rx.Live)
    (hup : s.rx.Up) (hplaying : Playing a) (h : step cfg s a = some s') : Keeps s.rx s'.rx := by
  rcases step_outcome hs hlive hup hplaying h with ⟨-, hstays⟩ | ⟨i, k, -, hends⟩
  · exact hstays.keeps
  · exact hends.keeps

/-- The graph stays up. -/
theorem up_step (hs : Rx.Valid cfg s.decoded s.earlier s.rx) (hup : s.rx.Up)
    (hplaying : Playing a) (h : step cfg s a = some s') : s'.rx.Up := by
  cases hs.tidy.step_cases h with
  | push h₀ | mark h₀ | recorded h₀ => exact hup.same h₀.graph
  | output h₀ hheard => exact hup.same (h₀.graph.trans hheard.sameGraph)
  | timeout _ h₀ hflush => exact hup.same (h₀.graph.trans hflush.sameGraph)
  | graph | reset => exact absurd hplaying id

/-- The state of a session in which no frame has been overtaken. -/
structure Going (cfg : Config α) (s : State α) : Prop where
  valid : Rx.Valid cfg s.decoded s.earlier s.rx
  live : s.rx.Live
  up : s.rx.Up

theorem Going.step_iff (hs : Going cfg s) (hplaying : Playing a)
    (h : step cfg s a = some s') : Going cfg s' ↔ InOrder cfg s a := by
  rw [← live_step_iff hs.valid hs.live hs.up hplaying h]
  refine ⟨Going.live, fun hlive => ⟨valid_step hs.valid h, hlive, ?_⟩⟩
  exact up_step hs.valid hs.up hplaying h

section Sessions

variable {as₀ as : List (Action α)} {s₀ : State α}

/-- A session begins with an empty ring and the graph up. -/
theorem going_begin (hrun : Run (step cfg) (start cfg) as₀ s₀)
    (hempty : ∀ i, s₀.rx.frameRing i = none) (hup : s₀.rx.Up) : Going cfg s₀ := by
  refine ⟨valid_run hrun, fun i k hcell => ?_, hup⟩
  rw [hempty] at hcell
  cases hcell

/-- The steps of a session, with a condition on each. -/
theorem along_playing {P : State α → Action α → Prop} (hplaying : ∀ a ∈ as, Playing a)
    (hP : Along (step cfg) P s₀ as) : Along (step cfg) (fun s a => Playing a ∧ P s a) s₀ as := by
  rintro as₁ a as₂ s rfl hrun
  exact ⟨hplaying a (by simp), hP as₁ a as₂ s rfl hrun⟩

/-- **No partial frame is lost** in a session each step of which, if it ends a
frame, ends the oldest one, and puts none but a later one in its place. -/
theorem keeps_of_inOrder (hrun : Run (step cfg) (start cfg) as₀ s₀)
    (hempty : ∀ i, s₀.rx.frameRing i = none) (hup : s₀.rx.Up)
    (hplaying : ∀ a ∈ as, Playing a) (horder : Along (step cfg) (InOrder cfg) s₀ as) :
    Along (step cfg) (fun s a => ∀ s', step cfg s a = some s' → Keeps s.rx s'.rx) s₀ as := by
  rintro as₁ a as₂ s rfl hrun' s' hstep
  have hsteps := along_playing hplaying horder
  have hgoing : Going cfg s := hrun'.invariant_of_along
    (fun _ _ _ hs hP h => (hs.step_iff hP.1 h).mpr hP.2) hsteps.prefix
    (going_begin hrun hempty hup)
  exact keeps_step hgoing.valid hgoing.live hgoing.up (hplaying a (by simp)) hstep

/-- **The condition is exact**: it holds along a session if and only if no frame in
the ring is ever overtaken. -/
theorem live_iff (hrun : Run (step cfg) (start cfg) as₀ s₀)
    (hempty : ∀ i, s₀.rx.frameRing i = none) (hup : s₀.rx.Up)
    (hplaying : ∀ a ∈ as, Playing a) (hsession : Run (step cfg) s₀ as s) :
    Throughout (step cfg) (fun s => s.rx.Live) s₀ as ↔ Along (step cfg) (InOrder cfg) s₀ as := by
  have hbegin := going_begin hrun hempty hup
  constructor
  · intro hlive as₁ a as₂ s₁ has hrun₁
    -- up to here no frame has been overtaken, so it is a session that goes on
    have hgoing : Going cfg s₁ := by
      have hinv : Rx.Valid cfg s₁.decoded s₁.earlier s₁.rx ∧ s₁.rx.Up := by
        refine hrun₁.invariant_of_along (P := fun _ a => Playing a)
          (I := fun s => Rx.Valid cfg s.decoded s.earlier s.rx ∧ s.rx.Up)
          (fun _ _ _ hs hP h => ⟨valid_step hs.1 h, up_step hs.1 hs.2 hP h⟩) ?_
          ⟨hbegin.valid, hup⟩
        rintro bs₁ b bs₂ _ rfl _
        exact hplaying b (by simp [has])
      exact ⟨hinv.1, hlive as₁ (a :: as₂) s₁ has hrun₁, hinv.2⟩
    obtain ⟨s₂, hrun₂, hrest⟩ := run_append_iff.mp (has ▸ hsession)
    obtain ⟨s₃, hstep, -⟩ := run_cons_iff.mp hrest
    obtain rfl := hrun₂.unique hrun₁
    have hlive₃ := hlive (as₁ ++ [a]) as₂ s₃ (by rw [has]; simp) (hrun₁.snoc hstep)
    have ha : Playing a := hplaying a (by simp [has])
    exact (live_step_iff hgoing.valid hgoing.live hgoing.up ha hstep).mp hlive₃
  · intro horder as₁ as₂ s₁ has hrun₁
    exact (throughout_of_along (fun _ _ _ hs hP h => (hs.step_iff hP.1 h).mpr hP.2)
      (along_playing hplaying horder) hbegin as₁ as₂ s₁ has hrun₁).live

end Sessions

theorem grows_step (hs : Rx.Valid cfg s.decoded s.earlier s.rx) (hreset : a ≠ .reset)
    (h : step cfg s a = some s') : Grows s.rx s'.rx := by
  cases hs.tidy.step_cases h with
  | push h₀ | mark h₀ | recorded h₀ => exact .of_same h₀.lastFlushedTs h₀.posted
  | output h₀ hheard => exact (Grows.of_same h₀.lastFlushedTs h₀.posted).trans hheard.grows
  | timeout _ h₀ hflush => exact (Grows.of_same h₀.lastFlushedTs h₀.posted).trans hflush.grows
  | graph => exact .of_same rfl rfl
  | reset => exact absurd rfl hreset

/-- **A frame that has been overtaken is lost**: whatever is posted after that, until
the next reset, is later. -/
theorem overtaken_not_posted {as₀ as : List (Action α)}
    (hrun : Run (step cfg) (start cfg) as₀ s) (hlater : Run (step cfg) s as s')
    (hreset : .reset ∉ as) {k : ℕ} (hovertaken : (s.rx.slots k).frameTs ≤ s.rx.lastFlushedTs) :
    ∃ new, s'.rx.posted = s.rx.posted ++ new ∧
      ∀ m ∈ new, (s.rx.slots k).frameTs < m.timestamp := by
  have hinv : Rx.Valid cfg s'.decoded s'.earlier s'.rx ∧ Grows s.rx s'.rx := by
    refine hlater.invariant_of_along (P := fun _ a => a ≠ Action.reset)
      (I := fun s' => Rx.Valid cfg s'.decoded s'.earlier s'.rx ∧ Grows s.rx s'.rx)
      (fun _ _ _ hs hP h => ⟨valid_step hs.1 h, hs.2.trans (grows_step hs.1 hP h)⟩) ?_
      ⟨valid_run hrun, .of_same rfl rfl⟩
    rintro as₁ a as₂ _ rfl _ rfl
    exact hreset (by simp)
  obtain ⟨new, hposted, hnew⟩ := hinv.2.posted
  exact ⟨new, hposted, fun m hm => hovertaken.trans_lt (hnew m hm)⟩

/-! ### Two sessions -/

/-- `Oldest`, as a test. -/
def Rx.oldest (s : Rx α) (frameTs : ℤ) : Bool :=
  (List.range rxFramePoolSize).all fun i =>
    (s.frameRing i).all fun k => frameTs ≤ (s.slots k).frameTs

theorem Rx.oldest_of_test {rx : Rx α} {decoded earlier : List (Output α)}
    (hs : Rx.Valid cfg decoded earlier rx) {frameTs : ℤ} (h : rx.oldest frameTs = true) :
    Oldest rx frameTs := by
  intro i k hcell
  have hi : i < rxFramePoolSize := by
    rw [← hs.collected.cell i k hcell]
    exact ringIdx_lt _
  have hall := List.all_eq_true.mp h i (List.mem_range.mpr hi)
  simpa [hcell] using hall

/-- `InOrder`, as a test. -/
def inOrder (cfg : Config α) (s : State α) (a : Action α) : Bool :=
  (ending cfg s.rx a).all fun frameTs =>
    s.rx.oldest frameTs && (opening cfg s.rx a).all fun frameTs' => frameTs < frameTs'

theorem inOrder_of_inOrder (hs : Rx.Valid cfg s.decoded s.earlier s.rx)
    (h : inOrder cfg s a = true) : InOrder cfg s a := by
  intro frameTs hending
  simp only [inOrder, hending, Option.all_some, Bool.and_eq_true] at h
  obtain ⟨holdest, hlater⟩ := h
  refine ⟨Rx.oldest_of_test hs holdest, fun frameTs' hopening => ?_⟩
  simpa [hopening] using hlater

theorem along_of_inOrder {as₀ as : List (Action α)} (hrun : Run (step cfg) (start cfg) as₀ s)
    (h : checkAlong (step cfg) (inOrder cfg) s as = true) :
    Along (step cfg) (InOrder cfg) s as := by
  intro as₁ a as₂ s₁ has hrun₁
  exact inOrder_of_inOrder (valid_run (hrun.append hrun₁))
    (along_of_check (fun _ _ h => h) h as₁ a as₂ s₁ has hrun₁)

/-- A node with small frames; samples do not fade. -/
def smallFrames : Config ℕ := ⟨120, 0, fun _ pcm => pcm⟩

/-- The graph has come up. -/
def ready (cfg : Config α) : State α :=
  { start cfg with rx := { Rx.new cfg with graphReady := true, playbackWorklet := true } }

theorem run_ready (cfg : Config α) : Run (step cfg) (start cfg) [.graph true true] (ready cfg) :=
  .of_exec rfl

/-- Two frames with one plane each, which time out in turn. -/
def timeouts : List (Action ℕ) :=
  [.push 0 0, .output 0 [7], .push 0 120, .output 0 [8], .timeout 1, .timeout 2]

theorem keeps_of_inOrder_timeouts :
    Along (step smallFrames)
      (fun s a => ∀ s', step smallFrames s a = some s' → Keeps s.rx s'.rx)
      (ready smallFrames) timeouts :=
  keeps_of_inOrder (run_ready smallFrames) (fun _ => rfl) ⟨rfl, rfl⟩
    (by simp [timeouts, Playing])
    (along_of_inOrder (run_ready smallFrames) (by decide +kernel))

/-- The outputs of each channel come in the order of their timestamps. -/
def Ascending (decoded : List (Output α)) : Prop :=
  decoded.Pairwise fun o o' => o.chIdx = o'.chIdx → o.frameTs < o'.frameTs

instance (decoded : List (Output α)) : Decidable (Ascending decoded) :=
  inferInstanceAs (Decidable (List.Pairwise _ _))

/-- One plane of a frame, then all sixteen of the next. -/
def overtaking : List (Action ℕ) :=
  [.push 0 0, .output 0 [7]] ++
    (List.finRange 16).flatMap fun c => [.push c 120, .output c [8]]

/-- When the timer of the first frame fires, its plane is thrown away. -/
theorem not_keeps_overtaking :
    ∃ s s' k, Run (step smallFrames) (ready smallFrames) overtaking s ∧
      (∀ a ∈ overtaking, Playing a) ∧ Ascending s.decoded ∧
      s.rx.frameRing 0 = some k ∧ (s.rx.slots k).data 0 = some [7] ∧
      step smallFrames s (.timeout 1) = some s' ∧
      ¬(Holds s.rx s'.rx 0 k ∨ Posts s.rx s'.rx k) := by
  obtain ⟨s, hs, h⟩ := (Option.any_eq_true _ _).mp
    (by decide +kernel : (exec (step smallFrames) (ready smallFrames) overtaking).any (fun s =>
      decide (Ascending s.decoded ∧ s.rx.frameRing 0 = some 63 ∧
        (s.rx.slots 63).data 0 = some [7]) &&
      (step smallFrames s (.timeout 1)).any fun s' =>
        decide (s'.rx.frameRing 0 = none ∧ s'.rx.posted.length = s.rx.posted.length)) = true)
  rw [Bool.and_eq_true, decide_eq_true_eq] at h
  obtain ⟨⟨hascending, hcell, hplane⟩, h⟩ := h
  obtain ⟨s', hs', h⟩ := (Option.any_eq_true _ _).mp h
  obtain ⟨hcell', hposted⟩ := of_decide_eq_true h
  refine ⟨s, s', 63, .of_exec hs, ?_, hascending, hcell, hplane, hs', ?_⟩
  · intro a ha
    simp only [overtaking, List.mem_append, List.mem_flatMap, List.mem_cons,
      List.not_mem_nil, or_false] at ha
    rcases ha with (rfl | rfl) | ⟨c, -, rfl | rfl⟩ <;> exact trivial
  · rintro (hholds | ⟨m, hm, -⟩)
    · rw [hholds.1] at hcell'
      cases hcell'
    · rw [hm, List.length_append] at hposted
      simp at hposted

end AmbiRTC.Assembly
