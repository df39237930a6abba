/-
AmbiRTC/AssemblyConcealment.lean

Concealment over a whole session.  How the outputs of later frames and the timeouts
of earlier ones come between each other decides what a missing plane is made of, so
a session is run with a record of the frames dispatched and the channels concealed
in them.

Where a frame that lacks a channel is flushed after the last output before it and
before any output behind it, what is made up is that output, faded once more for
every frame just before in which the channel was concealed:

    usesPast_of_onTime :  Along … (OnTime cfg) … as → Along … (UsesPast cfg) … as
-/
import AmbiRTC.AssemblyHold

namespace AmbiRTC.Assembly

open Runs Rx

variable {α : Type}

/-! ### Decoder outputs in time -/

theorem Ascending.lt_last {decoded : List (Output α)} {o o' : Output α}
    (h : Ascending (decoded ++ [o])) (hmem : o' ∈ decoded) (hc : o'.chIdx = o.chIdx) :
    o'.frameTs < o.frameTs :=
  (List.pairwise_append.mp h).2.2 o' hmem o (List.mem_singleton_self o) hc

namespace Rx

variable {cfg : Config α} {s s' : Rx α} {k : ℕ} {c : Channel} {frameTs : ℤ} {mono : List α}
  {log : List Dispatch} {decoded earlier : List (Output α)} {late lacks : Channel → Bool}

/-- Slot `k` is where an output of channel `c` for `frameTs` goes. -/
structure Placed (cfg : Config α) (decoded : List (Output α)) (s : Rx α) (c : Channel)
    (frameTs : ℤ) (k : ℕ) : Prop where
  tidy : Tidy s
  owned : Owned s
  collected : Collected cfg decoded s
  up : Up s
  cell : s.frameRing (ringIdx cfg frameTs) = some k
  stamped : (s.slots k).frameTs = frameTs
  lacks : (s.slots k).data c = none
  new : s.lastFlushedTs < frameTs

/-- A plane that leaves its frame incomplete. -/
theorem complete_of_ne (hcount : (s.slots k).count + 1 ≠ 16) :
    (s.storePlane cfg k c mono).complete cfg k frameTs = s.storePlane cfg k c mono := by
  have hst : Stored s (s.storePlane cfg k c mono) k c mono := stored mono
  unfold complete
  rw [hst.slots, Function.update_self]
  exact if_neg hcount

/-- The last output of its channel. -/
theorem Placed.tracks_stored (h : Placed cfg decoded s c frameTs k) (hplc : cfg.plcHold = true)
    (htracks : Tracks s decoded log late) (hasc : Ascending (decoded ++ [⟨c, frameTs, mono⟩])) :
    Tracks (s.storePlane cfg k c mono) (decoded ++ [⟨c, frameTs, mono⟩]) log
      (Function.update late c false) := by
  intro c' o hlate hlast
  rw [lastOutput_concat] at hlast
  split at hlast
  case isTrue hc =>
    obtain rfl := Option.some.inj hlast
    refine kept_stored hplc h.stamped h.new fun i' k' plane hcell hplane => ?_
    exact (hasc.lt_last (h.collected.planes i' k' c plane hcell hplane) rfl).le
  case isFalse hc =>
    have hne : c' ≠ c := fun heq => hc heq.symm
    rw [Function.update_of_ne hne] at hlate
    have hkept := htracks c' o hlate hlast
    obtain ⟨-, rfl⟩ := mem_of_lastOutput hlast
    exact hkept.stored hplc hne mono

/-- The sixteenth plane, after which nothing is left to be concealed. -/
theorem Placed.tracks_complete (h : Placed cfg decoded s c frameTs k) (hplc : cfg.plcHold = true)
    (htracks : Tracks s decoded log late) (hasc : Ascending (decoded ++ [⟨c, frameTs, mono⟩]))
    (hcount : (s.slots k).count + 1 = 16) (hlacks : ∀ c, lacks c = false) :
    Tracks ((s.storePlane cfg k c mono).complete cfg k frameTs)
      (decoded ++ [⟨c, frameTs, mono⟩])
      (noted log s ((s.storePlane cfg k c mono).complete cfg k frameTs) lacks)
      (Function.update late c false) := by
  have htracks' := h.tracks_stored hplc htracks hasc
  have hst : Stored s (s.storePlane cfg k c mono) k c mono := stored mono
  have howned := h.owned.stored hst
  have hup := h.up.same hst.graph
  have hposted := hst.posted
  have hslot : (s.storePlane cfg k c mono).slots k = (s.slots k).add c mono := by
    rw [hst.slots, Function.update_self]
  have hcell : (s.storePlane cfg k c mono).frameRing (ringIdx cfg frameTs) = some k := by
    rw [hst.ring, h.cell]
  have hts : ((s.storePlane cfg k c mono).slots k).frameTs = frameTs := by
    rw [hslot]
    exact h.stamped
  have hnew : (s.storePlane cfg k c mono).lastFlushedTs
      < ((s.storePlane cfg k c mono).slots k).frameTs := by
    rw [hst.lastFlushedTs, hts]
    exact h.new
  have hfull : ∀ c', (((s.storePlane cfg k c mono).slots k).data c').isSome := by
    rw [hslot]
    exact h.tidy.full_add h.cell h.lacks hcount
  have hsent := @sent_complete α cfg _ _ _ (by rw [hslot]; exact hcount) hts hfull
  rw [noted_posts (hsent.posted.trans ((hup.posts _).trans (by rw [hposted])))]
  intro c' o hlate hlast
  obtain ⟨plane, hplane⟩ := Option.isSome_iff_exists.mp (hfull o.chIdx)
  exact (htracks' c' o hlate hlast).present howned hcell hnew hplane hsent rfl (hlacks _)

/-- The slot of the frame, if it has been opened. -/
theorem placed_found (hs : Valid cfg decoded earlier s) (hup : Up s)
    (hnew : s.lastFlushedTs < frameTs) (hasc : Ascending (decoded ++ [⟨c, frameTs, mono⟩]))
    (hcell : s.frameRing (ringIdx cfg frameTs) = some k) (hts : (s.slots k).frameTs = frameTs) :
    Placed cfg decoded s c frameTs k where
  tidy := hs.tidy
  owned := hs.owned
  collected := hs.collected
  up := hup
  cell := hcell
  stamped := hts
  lacks := by
    cases hdata : (s.slots k).data c with
    | none => rfl
    | some plane =>
      have hlt := hasc.lt_last (hs.collected.planes _ k c plane hcell hdata) rfl
      rw [hts] at hlt
      exact absurd hlt (lt_irrefl _)
  new := hnew

/-- A new one. -/
theorem placed_opened (hs : Valid cfg decoded earlier s) (hup : Up s)
    (hnew : s.lastFlushedTs < frameTs) (h : Opened s s' frameTs (ringIdx cfg frameTs) k) :
    Placed cfg decoded s' c frameTs k where
  tidy := hs.tidy.opened hs.owned h
  owned := hs.owned.opened h
  collected := hs.collected.opened hs.owned h
  up := hup.same h.untouched.graph
  cell := by rw [h.ring, Function.update_self]
  stamped := h.frameTs
  lacks := h.data c
  new := by
    rw [h.untouched.lastFlushedTs]
    exact hnew

/-- Its first plane. -/
theorem Tracks.opened (h : Tracks s decoded log late) (hplc : cfg.plcHold = true)
    (hs : Valid cfg decoded earlier s) (hup : Up s) (hnew : s.lastFlushedTs < frameTs)
    (hasc : Ascending (decoded ++ [⟨c, frameTs, mono⟩])) {frameSize : ℕ}
    (hslot : s.openSlot cfg frameTs frameSize = (s', k)) :
    Placed cfg decoded s' c frameTs k ∧
      ((s'.storePlane cfg k c mono).complete cfg k frameTs).posted = s.posted ∧
      Tracks ((s'.storePlane cfg k c mono).complete cfg k frameTs)
        (decoded ++ [⟨c, frameTs, mono⟩]) log (Function.update late c false) := by
  have hopened : Opened s s' frameTs (ringIdx cfg frameTs) k := by
    have := @Rx.opened α cfg s hs.tidy.clean frameTs frameSize
    rwa [hslot] at this
  have hcount : s'.holdCount = s.holdCount := by
    have := @holdCount_open α cfg s frameTs frameSize
    rwa [hslot] at this
  have hplaced := placed_opened (c := c) hs hup hnew hopened
  have hst : Stored s' (s'.storePlane cfg k c mono) k c mono := stored mono
  have htracks : Tracks s' decoded log late := fun c o hlate hlast =>
    (h c o hlate hlast).opened hs.owned hopened hcount
  have hne : (s'.slots k).count + 1 ≠ 16 := by
    rw [hopened.count]
    decide
  refine ⟨hplaced, ?_, ?_⟩
  · rw [complete_of_ne hne, hst.posted, hopened.untouched.posted]
  · rw [complete_of_ne hne]
    exact hplaced.tracks_stored hplc htracks hasc

/-- The frame in slot `k` makes room for one of channel `c`, for `frameTs`: if it lacks
a plane of the channel, it is an earlier one. -/
def MakesRoom (s : Rx α) (c : Channel) (frameTs : ℤ) (k : ℕ) : Prop :=
  s.lastFlushedTs < (s.slots k).frameTs → (s.slots k).data c = none →
    (s.slots k).frameTs < frameTs

instance (c : Channel) (frameTs : ℤ) (k : ℕ) : Decidable (MakesRoom s c frameTs k) :=
  inferInstanceAs (Decidable (_ → _ → _))

theorem MakesRoom.same (h : MakesRoom s c frameTs k) (hsame : Same s s') :
    MakesRoom s' c frameTs k := by
  unfold MakesRoom
  rw [hsame.lastFlushedTs, hsame.slots]
  exact h

/-- What is flushed to make room is older than the frame that takes it. -/
theorem MakesRoom.new (h : MakesRoom s c frameTs k)
    (hs : Valid cfg decoded earlier s) (hasc : Ascending (decoded ++ [⟨c, frameTs, mono⟩]))
    (hcell : s.frameRing (ringIdx cfg (s.slots k).frameTs) = some k)
    (hnew : s.lastFlushedTs < frameTs) :
    (s.flushFrame cfg (s.slots k).frameTs).lastFlushedTs < frameTs := by
  rcases le_or_gt (s.slots k).frameTs s.lastFlushedTs with hold | hahead
  · rw [(released_flush hcell rfl hold).lastFlushedTs]
    exact hnew
  · rw [(sent_flush hcell rfl hahead (hs.tidy.count _ k hcell)).lastFlushedTs]
    cases hdata : (s.slots k).data c with
    | none => exact h hahead hdata
    | some plane => exact hasc.lt_last (hs.collected.planes _ k c plane hcell hdata) rfl

section Outputs

variable (h : Tracks s decoded log late) (hplc : cfg.plcHold = true)
  (hs : Valid cfg decoded earlier s) (hup : Up s)
  (hpos : 0 ≤ (s.shiftDecoderTimestamp c).2)
  (hnew : s.lastFlushedTs < (s.shiftDecoderTimestamp c).2)
  (hasc : Ascending (decoded ++ [⟨c, (s.shiftDecoderTimestamp c).2, mono⟩]))

include h hplc hs hup hpos hnew hasc

/-- An output for a frame that has been opened. -/
theorem Tracks.output_found
    (hcell : s.frameRing (ringIdx cfg (s.shiftDecoderTimestamp c).2) = some k)
    (hts : (s.slots k).frameTs = (s.shiftDecoderTimestamp c).2) (hlacks : ∀ c, lacks c = false) :
    Tracks (s.onDecoderOutput cfg c mono)
      (decoded ++ [⟨c, (s.shiftDecoderTimestamp c).2, mono⟩])
      (noted log s (s.onDecoderOutput cfg c mono) lacks) (Function.update late c false) := by
  have hsame : Same s (s.shiftDecoderTimestamp c).1 := same_shift
  have htracks := h.same hsame holdCount_shift
  have hcell₀ := hcell
  have hts₀ := hts
  rw [← hsame.ring] at hcell₀
  rw [← hsame.slots] at hts₀
  have hnew₀ := hnew
  rw [← hsame.lastFlushedTs] at hnew₀
  have hplaced := placed_found (hs.same hsame) (hup.same hsame.graph) hnew₀ hasc hcell₀ hts₀
  have hslot : (s.shiftDecoderTimestamp c).1.slotFor cfg (s.shiftDecoderTimestamp c).2
      mono.length = ((s.shiftDecoderTimestamp c).1, k) := by
    unfold slotFor
    simp only [hcell₀]
    exact if_pos hts₀
  rw [onDecoderOutput_of_new hpos hnew hup.ready hslot hplaced.lacks]
  by_cases hcount : ((s.shiftDecoderTimestamp c).1.slots k).count + 1 = 16
  · have := hplaced.tracks_complete hplc htracks hasc hcount hlacks
    rw [noted, hsame.posted] at this
    exact this
  · rw [complete_of_ne hcount, noted_same]
    · exact hplaced.tracks_stored hplc htracks hasc
    · exact ((stored mono).posted).trans hsame.posted

/-- An output that opens its frame. -/
theorem Tracks.output_opened
    (hcell : s.frameRing (ringIdx cfg (s.shiftDecoderTimestamp c).2) = none) :
    Tracks (s.onDecoderOutput cfg c mono)
      (decoded ++ [⟨c, (s.shiftDecoderTimestamp c).2, mono⟩])
      (noted log s (s.onDecoderOutput cfg c mono) lacks) (Function.update late c false) := by
  have hsame : Same s (s.shiftDecoderTimestamp c).1 := same_shift
  have hcell₀ := hcell
  rw [← hsame.ring] at hcell₀
  have hnew₀ := hnew
  rw [← hsame.lastFlushedTs] at hnew₀
  have hslot : (s.shiftDecoderTimestamp c).1.slotFor cfg (s.shiftDecoderTimestamp c).2
      mono.length = (s.shiftDecoderTimestamp c).1.openSlot cfg (s.shiftDecoderTimestamp c).2
        mono.length := by
    unfold slotFor
    simp only [hcell₀]
  obtain ⟨hplaced, hposted, htracks⟩ := (h.same hsame holdCount_shift).opened hplc
    (hs.same hsame) (hup.same hsame.graph) hnew₀ hasc rfl
  rw [onDecoderOutput_of_new hpos hnew hup.ready hslot hplaced.lacks,
    noted_same (hposted.trans hsame.posted)]
  exact htracks

/-- One that needs the cell of another: what it posts is what the flush posts. -/
theorem Tracks.output_evicted
    (hcell : s.frameRing (ringIdx cfg (s.shiftDecoderTimestamp c).2) = some k)
    (hts : (s.slots k).frameTs ≠ (s.shiftDecoderTimestamp c).2)
    (htime : FlushesInTime s decoded log late k)
    (hroom : MakesRoom s c (s.shiftDecoderTimestamp c).2 k)
    (hlacks : ∀ c, lacks c = ((s.slots k).data c).isNone) :
    (s.onDecoderOutput cfg c mono).posted
      = ((s.shiftDecoderTimestamp c).1.flushFrame cfg (s.slots k).frameTs).posted ∧
    Tracks (s.onDecoderOutput cfg c mono)
      (decoded ++ [⟨c, (s.shiftDecoderTimestamp c).2, mono⟩])
      (noted log s (s.onDecoderOutput cfg c mono) lacks) (Function.update late c false) := by
  have hsame : Same s (s.shiftDecoderTimestamp c).1 := same_shift
  have hcell₀ : (s.shiftDecoderTimestamp c).1.frameRing
      (ringIdx cfg ((s.shiftDecoderTimestamp c).1.slots k).frameTs) = some k := by
    rw [hsame.slots, hs.collected.cell _ k hcell, hsame.ring, hcell]
  have hnew₀ := hnew
  rw [← hsame.lastFlushedTs] at hnew₀
  have hs₀ := hs.same hsame
  have hup₀ := hup.same hsame.graph
  have hflush : Flushed cfg _ _ _ :=
    flushFrame_cases hs₀.tidy.count ((s.shiftDecoderTimestamp c).1.slots k).frameTs
  have hlacks₀ : ∀ c', lacks c' = (((s.shiftDecoderTimestamp c).1.slots k).data c').isNone := by
    rw [hsame.slots]
    exact hlacks
  -- first the flush of the old frame
  have htracks := (h.same hsame holdCount_shift).flushed hplc hs₀.tidy hs₀.owned hup₀ hcell₀
    (htime.same hsame) hlacks₀
  have hnew₁ := (hroom.same hsame).new hs₀ hasc hcell₀ hnew₀
  rw [hsame.slots] at hflush htracks hnew₁
  have hslot : (s.shiftDecoderTimestamp c).1.slotFor cfg (s.shiftDecoderTimestamp c).2
      mono.length = ((s.shiftDecoderTimestamp c).1.flushFrame cfg (s.slots k).frameTs).openSlot
        cfg (s.shiftDecoderTimestamp c).2 mono.length := by
    unfold slotFor
    rw [hsame.ring, hcell, hsame.slots]
    exact if_neg hts
  -- then the new frame is opened in its cell, and the output stored
  obtain ⟨hplaced, hposted, htracks'⟩ := htracks.opened hplc (hs₀.flushed hflush)
    (hup₀.same hflush.sameGraph) hnew₁ hasc rfl
  rw [onDecoderOutput_of_new hpos hnew hup.ready hslot hplaced.lacks]
  refine ⟨hposted, ?_⟩
  rw [noted, hsame.posted] at htracks'
  rw [noted, hposted]
  exact htracks'

end Outputs

end Rx

/-! ### Sessions with a record -/

/-- A session, with what is recorded of it. -/
structure Session (α : Type) where
  state : State α
  /-- whether the last output of a channel came late, or without a timestamp -/
  late : Channel → Bool
  dispatched : List Dispatch

namespace Session

/-- The slot that `_flushFrame` finds the frame in, when an action calls it. -/
def flushing (cfg : Config α) (s : Rx α) : Action α → Option ℕ
  | .timeout id =>
    (s.timers.find? fun e => e.1 = id).bind fun e =>
      (s.frameRing (ringIdx cfg e.2)).bind fun k =>
        if (s.slots k).frameTs = e.2 then some k else none
  | .output c _ =>
    let frameTs := (s.shiftDecoderTimestamp c).2
    if frameTs < 0 ∨ frameTs ≤ s.lastFlushedTs then none
    else
      (s.frameRing (ringIdx cfg frameTs)).bind fun k =>
        if (s.slots k).frameTs = frameTs then none else some k
  | _ => none

/-- What a frame being flushed lacks. -/
def lacking (cfg : Config α) (s : Rx α) (a : Action α) (c : Channel) : Bool :=
  (flushing cfg s a).any fun k => ((s.slots k).data c).isNone

/-- Whose last output was late, after an action. -/
def lateAfter (s : Rx α) (late : Channel → Bool) : Action α → Channel → Bool
  | .output c _ =>
    let frameTs := (s.shiftDecoderTimestamp c).2
    Function.update late c (decide (frameTs < 0 ∨ frameTs ≤ s.lastFlushedTs))
  | _ => late

/-- One step, recorded. -/
def step (cfg : Config α) (x : Session α) (a : Action α) : Option (Session α) :=
  (Assembly.step cfg x.state a).map fun s =>
    { state := s
      late := lateAfter x.state.rx x.late a
      dispatched := noted x.dispatched x.state.rx s.rx (lacking cfg x.state.rx a) }

/-- A new node, with the graph up. -/
def begin (cfg : Config α) : Session α := ⟨ready cfg, fun _ => false, []⟩

/-- **Concealment uses the past**: a frame that is dispatched by a flush has, in every
channel it lacks, the plane before it, faded once more than in the frames
dispatched just before. -/
def UsesPast (cfg : Config α) (x : Session α) (a : Action α) : Prop :=
  ∀ x' k m, step cfg x a = some x' → flushing cfg x.state.rx a = some k →
    x'.state.rx.posted = x.state.rx.posted ++ [m] → ∀ c, (x.state.rx.slots k).data c = none →
      ∃ plane, m.channels c = some plane ∧
        Past cfg x'.state.decoded c m.timestamp (x.state.rx.slots k).frameSize
          (concealedRun x.dispatched c + 1) plane

/-- Frames are flushed in time for what their channels put out. -/
def OnTime (cfg : Config α) (x : Session α) (a : Action α) : Prop :=
  ∀ k, flushing cfg x.state.rx a = some k →
    FlushesInTime x.state.rx x.state.decoded x.dispatched x.late k ∧
      ∀ c pcm, a = .output c pcm →
        MakesRoom x.state.rx c (x.state.rx.shiftDecoderTimestamp c).2 k

/-- What is known of a session all of whose frames were flushed in time. -/
structure Tracked (cfg : Config α) (x : Session α) : Prop where
  valid : Valid cfg x.state.decoded [] x.state.rx
  earlier : x.state.earlier = []
  up : x.state.rx.Up
  tracks : Tracks x.state.rx x.state.decoded x.dispatched x.late

variable {cfg : Config α} {x x' : Session α} {a : Action α} {k : ℕ}

/-- The timer of the frame in slot `k` fires. -/
theorem flushing_timeout {id : ℕ} {e : ℕ × ℤ}
    (hfind : (x.state.rx.timers.find? fun e => e.1 = id) = some e) :
    flushing cfg x.state.rx (.timeout id) = some k ↔
      x.state.rx.frameRing (ringIdx cfg e.2) = some k ∧ (x.state.rx.slots k).frameTs = e.2 := by
  simp only [flushing, hfind, Option.bind_some, Option.bind_eq_some_iff,
    Option.ite_none_right_eq_some, Option.some.injEq]
  constructor
  · rintro ⟨k', hcell, hts, rfl⟩
    exact ⟨hcell, hts⟩
  · rintro ⟨hcell, hts⟩
    exact ⟨k, hcell, hts, rfl⟩

/-- The frame in slot `k` has the cell of one to come. -/
theorem flushing_output {c : Channel} {pcm : List α}
    (hpos : 0 ≤ (x.state.rx.shiftDecoderTimestamp c).2)
    (hnew : x.state.rx.lastFlushedTs < (x.state.rx.shiftDecoderTimestamp c).2) :
    flushing cfg x.state.rx (.output c pcm) = some k ↔
      x.state.rx.frameRing (ringIdx cfg (x.state.rx.shiftDecoderTimestamp c).2) = some k ∧
        (x.state.rx.slots k).frameTs ≠ (x.state.rx.shiftDecoderTimestamp c).2 := by
  unfold flushing
  simp only
  rw [if_neg (not_or.mpr ⟨not_lt.mpr hpos, not_le.mpr hnew⟩)]
  simp only [Option.bind_eq_some_iff, Option.ite_none_left_eq_some, Option.some.injEq]
  constructor
  · rintro ⟨k', hcell, hts, rfl⟩
    exact ⟨hcell, hts⟩
  · rintro ⟨hcell, hts⟩
    exact ⟨k, hcell, hts, rfl⟩

/-- The node once its timer has fired. -/
theorem same_fired (s : Rx α) (id : ℕ) :
    Same s { s with timers := s.timers.filter fun e => e.1 ≠ id } :=
  ⟨⟨rfl, rfl, rfl, rfl⟩, ⟨rfl, rfl, rfl, rfl, rfl⟩⟩

/-- A timer fires. -/
theorem Tracked.timeout (hx : Tracked cfg x) (hplc : cfg.plcHold = true) {id : ℕ} {e : ℕ × ℤ}
    (hfind : (x.state.rx.timers.find? fun e => e.1 = id) = some e)
    (hon : OnTime cfg x (.timeout id)) {s : Rx α} (hsame : Same x.state.rx s)
    (hcount : s.holdCount = x.state.rx.holdCount) :
    Tracks (s.flushFrame cfg e.2) x.state.decoded
      (noted x.dispatched x.state.rx (s.flushFrame cfg e.2)
        (lacking cfg x.state.rx (.timeout id))) x.late := by
  have hs := hx.valid.same hsame
  have htracks := hx.tracks.same hsame hcount
  by_cases hthere : ∃ k, flushing cfg x.state.rx (.timeout id) = some k
  · obtain ⟨k, hk⟩ := hthere
    obtain ⟨hcell, hts⟩ := (flushing_timeout hfind).mp hk
    have hlacks : ∀ c, lacking cfg x.state.rx (.timeout id) c = ((s.slots k).data c).isNone := by
      intro c
      rw [lacking, hk, hsame.slots]
      rfl
    have hcell₀ : s.frameRing (ringIdx cfg (s.slots k).frameTs) = some k := by
      rw [hsame.ring, hsame.slots, hts, hcell]
    have := htracks.flushed hplc hs.tidy hs.owned (hx.up.same hsame.graph) hcell₀
      ((hon k hk).1.same hsame) hlacks
    rw [noted, hsame.posted, hsame.slots, hts] at this
    exact this
  · have habsent : s.flushFrame cfg e.2 = s := by
      apply flushFrame_of_absent
      rw [hsame.ring, hsame.slots]
      exact fun k hcell hts => hthere ⟨k, (flushing_timeout hfind).mpr ⟨hcell, hts⟩⟩
    rw [habsent, noted_same hsame.posted]
    exact htracks

/-- A decoder calls back. -/
theorem Tracked.output (hx : Tracked cfg x) (hplc : cfg.plcHold = true) {c : Channel}
    {pcm : List α} (hon : OnTime cfg x (.output c pcm))
    (hasc : Ascending (x.state.decoded ++ [⟨c, (x.state.rx.shiftDecoderTimestamp c).2, pcm⟩])) :
    Tracks (x.state.rx.onDecoderOutput cfg c pcm)
      (x.state.decoded ++ [⟨c, (x.state.rx.shiftDecoderTimestamp c).2, pcm⟩])
      (noted x.dispatched x.state.rx (x.state.rx.onDecoderOutput cfg c pcm)
        (lacking cfg x.state.rx (.output c pcm)))
      (lateAfter x.state.rx x.late (.output c pcm)) := by
  by_cases hlate : (x.state.rx.shiftDecoderTimestamp c).2 < 0 ∨
      (x.state.rx.shiftDecoderTimestamp c).2 ≤ x.state.rx.lastFlushedTs
  · have hsame : Same x.state.rx (x.state.rx.shiftDecoderTimestamp c).1 := same_shift
    have hlateAfter : lateAfter x.state.rx x.late (.output c pcm)
        = Function.update x.late c true := by
      unfold lateAfter
      simp only
      rw [decide_eq_true hlate]
    rw [onDecoderOutput_of_late hlate, noted_same hsame.posted, hlateAfter]
    -- too late: nothing is said of this channel, and for the others nothing changes
    intro c' o htaken hlast
    have hne : c' ≠ c := by
      rintro rfl
      rw [Function.update_self] at htaken
      cases htaken
    rw [Function.update_of_ne hne] at htaken
    rw [lastOutput_concat, if_neg hne.symm] at hlast
    exact (hx.tracks c' o htaken hlast).same hsame holdCount_shift
  · have hlateAfter : lateAfter x.state.rx x.late (.output c pcm)
        = Function.update x.late c false := by
      unfold lateAfter
      simp only
      rw [decide_eq_false hlate]
    rw [hlateAfter]
    obtain ⟨hneg, hold⟩ := not_or.mp hlate
    have hpos := not_lt.mp hneg
    have hnew := not_le.mp hold
    rcases hcell : x.state.rx.frameRing (ringIdx cfg (x.state.rx.shiftDecoderTimestamp c).2) with
      - | k
    -- the cell is empty
    · exact hx.tracks.output_opened hplc hx.valid hx.up hpos hnew hasc hcell
    · by_cases hts : (x.state.rx.slots k).frameTs = (x.state.rx.shiftDecoderTimestamp c).2
      -- the cell is its frame's, and nothing is flushed
      · refine hx.tracks.output_found hplc hx.valid hx.up hpos hnew hasc hcell hts fun c' => ?_
        have hnone : flushing cfg x.state.rx (.output c pcm) = none := by
          refine Option.eq_none_iff_forall_ne_some.mpr fun k' hk' => ?_
          obtain ⟨hcell', hts'⟩ := (flushing_output hpos hnew).mp hk'
          obtain rfl := Option.some.inj (hcell.symm.trans hcell')
          exact hts' hts
        rw [lacking, hnone]
        rfl
      -- the cell is another frame's
      · have hk := (@flushing_output α cfg x k c pcm hpos hnew).mpr ⟨hcell, hts⟩
        refine (hx.tracks.output_evicted hplc hx.valid hx.up hpos hnew hasc hcell hts
          (hon k hk).1 ((hon k hk).2 c pcm rfl) fun c' => ?_).2
        rw [lacking, hk]
        rfl

theorem holdCount_push {s : Rx α} (c : Channel) (frameTs : ℕ) :
    (s.pushDecoderTimestamp c frameTs).holdCount = s.holdCount := by
  unfold pushDecoderTimestamp
  simp only
  split <;> rfl

/-- **One step** of a session whose frames are flushed in time. -/
theorem Tracked.step (hx : Tracked cfg x) (hplc : cfg.plcHold = true) (hplaying : Playing a)
    (hon : OnTime cfg x a) (h : step cfg x a = some x') (hasc : Ascending x'.state.decoded) :
    Tracked cfg x' := by
  obtain ⟨s', hstep, rfl⟩ := Option.map_eq_some_iff.mp h
  have hvalid : Valid cfg x.state.decoded x.state.earlier x.state.rx := by
    rw [hx.earlier]
    exact hx.valid
  have hvalid' := valid_step hvalid hstep
  have hup' := up_step hvalid hx.up hplaying hstep
  have hearlier : s'.earlier = [] := by
    rw [← hx.earlier]
    cases hvalid.tidy.step_cases hstep with
    | push | mark | recorded | output | timeout => rfl
    | graph | reset => exact absurd hplaying id
  rw [hearlier] at hvalid'
  refine ⟨hvalid', hearlier, hup', ?_⟩
  -- where nothing is posted, nothing is noted either
  have hsame : ∀ s : Rx α, Same x.state.rx s → s.holdCount = x.state.rx.holdCount →
      Tracks s x.state.decoded
        (noted x.dispatched x.state.rx s (lacking cfg x.state.rx a)) x.late := by
    intro s hsame hcount
    rw [noted_same hsame.posted]
    exact hx.tracks.same hsame hcount
  cases a with
  | push c frameTs =>
    obtain rfl := Option.some.inj hstep
    exact hsame _ (same_push frameTs) (holdCount_push c frameTs)
  | output c pcm =>
    obtain rfl := Option.some.inj hstep
    exact hx.output hplc hon hasc
  | timeout id =>
    simp only [Assembly.step] at hstep
    split at hstep
    · rename_i e hfind
      obtain rfl := Option.some.inj hstep
      exact hx.timeout hplc hfind hon (same_fired _ id) rfl
    · cases hstep
  | mark frameTs =>
    obtain rfl := Option.some.inj hstep
    exact hsame _ ⟨⟨rfl, rfl, rfl, rfl⟩, ⟨rfl, rfl, rfl, rfl, rfl⟩⟩ rfl
  | recorded =>
    obtain ⟨-, heq⟩ := Option.ite_none_right_eq_some.mp hstep
    obtain rfl := Option.some.inj heq
    exact hsame _ ⟨⟨rfl, rfl, rfl, rfl⟩, ⟨rfl, rfl, rfl, rfl, rfl⟩⟩ rfl
  | graph | reset => exact absurd hplaying id

/-- What such a step posts, if it flushes a frame. -/
theorem Tracked.usesPast (hx : Tracked cfg x) (hplc : cfg.plcHold = true)
    (hon : OnTime cfg x a)
    (hasc : ∀ x', Session.step cfg x a = some x' → Ascending x'.state.decoded) :
    UsesPast cfg x a := by
  intro x' k m h hk hposted c hnone
  have hdecoded := hasc x' h
  obtain ⟨s', hstep, rfl⟩ := Option.map_eq_some_iff.mp h
  cases a with
  | timeout id =>
    simp only [Assembly.step] at hstep
    split at hstep
    -- the timer of the oldest frame in its cell: what it dispatches is filled from the past
    · rename_i e hfind
      obtain rfl := Option.some.inj hstep
      have hsame := same_fired x.state.rx id
      have hs := hx.valid.same hsame
      obtain ⟨hcell, hts⟩ := (flushing_timeout hfind).mp hk
      rw [← hts] at hcell hposted
      obtain ⟨hnew, rfl⟩ := posted_flush hs.tidy (hx.up.same hsame.graph) hcell hposted
      exact (hx.tracks.same hsame rfl).past hplc hs.good hdecoded hnew ((hon k hk).1.same hsame)
        hnone
    · cases hstep
  | output c' pcm =>
    obtain rfl := Option.some.inj hstep
    have hsame : Same x.state.rx (x.state.rx.shiftDecoderTimestamp c').1 := same_shift
    have hs := hx.valid.same hsame
    by_cases hlate : (x.state.rx.shiftDecoderTimestamp c').2 < 0 ∨
        (x.state.rx.shiftDecoderTimestamp c').2 ≤ x.state.rx.lastFlushedTs
    -- an output of a frame flushed already flushes nothing
    · unfold flushing at hk
      simp only [if_pos hlate] at hk
      cases hk
    · obtain ⟨hneg, hold⟩ := not_or.mp hlate
      have hpos := not_lt.mp hneg
      have hlater := not_le.mp hold
      obtain ⟨hcell, hts⟩ := (flushing_output hpos hlater).mp hk
      have hroom := (hon k hk).2 c' pcm rfl
      -- the output takes the cell of another frame, which is flushed before it is stored
      have hevicted := (hx.tracks.output_evicted hplc hx.valid hx.up hpos hlater hdecoded hcell hts
        (hon k hk).1 hroom fun _ => rfl).1
      rw [hevicted, ← hsame.posted, ← hsame.slots] at hposted
      have hcell₀ : (x.state.rx.shiftDecoderTimestamp c').1.frameRing (ringIdx cfg
          ((x.state.rx.shiftDecoderTimestamp c').1.slots k).frameTs) = some k := by
        rw [hsame.slots, hx.valid.collected.cell _ k hcell, hsame.ring, hcell]
      obtain ⟨hnew, rfl⟩ := posted_flush hs.tidy (hx.up.same hsame.graph) hcell₀ hposted
      rw [← hsame.slots] at hnone
      have hbefore : Ascending x.state.decoded := (List.pairwise_append.mp hdecoded).1
      obtain ⟨plane, hplane, hpast⟩ := (hx.tracks.same hsame holdCount_shift).past hplc hs.good
        hbefore hnew ((hon k hk).1.same hsame) hnone
      rw [hsame.slots] at hpast hnew hnone
      rw [hsame.lastFlushedTs] at hnew
      refine ⟨plane, hplane, ?_⟩
      rw [hsame.slots]
      -- the new output is of a later frame than the one dispatched
      refine hpast.concat fun hc => ?_
      obtain rfl : c' = c := hc
      exact (hroom hnew hnone).le
  | push | mark | recorded | graph | reset => cases hk

/-- **Concealment uses the past** in every session whose frames are flushed in time
for what their channels put out. -/
theorem usesPast_of_onTime (hplc : cfg.plcHold = true) {as : List (Action α)}
    (hplaying : ∀ a ∈ as, Playing a)
    (hasc : Throughout (Session.step cfg) (fun x => Ascending x.state.decoded) (begin cfg) as)
    (hon : Along (Session.step cfg) (OnTime cfg) (begin cfg) as) :
    Along (Session.step cfg) (UsesPast cfg) (begin cfg) as := by
  have hbegin : Tracked cfg (begin cfg) := by
    refine ⟨?_, rfl, ⟨rfl, rfl⟩, fun _ _ _ hlast => nomatch hlast⟩
    exact valid_run (run_ready cfg)
  have hnext : ∀ as₁ a as₂ x₁ x₂, as = as₁ ++ a :: as₂ →
      Run (Session.step cfg) (begin cfg) as₁ x₁ → Session.step cfg x₁ a = some x₂ →
        Ascending x₂.state.decoded := by
    intro as₁ a as₂ x₁ x₂ has hrun hstep
    exact hasc (as₁ ++ [a]) as₂ x₂ (by rw [has, List.append_cons]) (hrun.snoc hstep)
  rintro as₁ a as₂ x has hrun
  have htracked : Tracked cfg x := by
    refine hrun.invariant_of_along (I := Tracked cfg) (P := fun x a => Playing a ∧ OnTime cfg x a ∧
      ∀ x', Session.step cfg x a = some x' → Ascending x'.state.decoded)
      (fun _ _ _ hx hP h => hx.step hplc hP.1 hP.2.1 h (hP.2.2 _ h)) ?_ hbegin
    rintro bs₁ b bs₂ x₁ rfl hrun₁
    have heq : as = bs₁ ++ b :: (bs₂ ++ a :: as₂) := by rw [has]; simp
    refine ⟨hplaying b (by rw [heq]; simp), hon bs₁ b _ x₁ heq hrun₁, fun x' hx' => ?_⟩
    exact hnext bs₁ b _ x₁ x' heq hrun₁ hx'
  exact htracked.usesPast hplc (hon as₁ a as₂ x has hrun) fun x' hx' =>
    hnext as₁ a as₂ x x' has hrun hx'

/-! ### Two sessions with concealment -/

/-- `OnTime`, computed. -/
def onTime (cfg : Config α) (x : Session α) (a : Action α) : Bool :=
  (flushing cfg x.state.rx a).all fun k =>
    decide (x.state.rx.lastFlushedTs < (x.state.rx.slots k).frameTs →
      ∀ c, (x.state.rx.slots k).data c = none → ∀ o ∈ lastOutput x.state.decoded c,
        InTime x.state.rx x.dispatched x.late k o) &&
    match a with
    | .output c _ => decide (MakesRoom x.state.rx c (x.state.rx.shiftDecoderTimestamp c).2 k)
    | _ => true

theorem onTime_of_onTime (h : onTime cfg x a = true) : OnTime cfg x a := by
  intro k hk
  rw [onTime, hk, Option.all_some, Bool.and_eq_true, decide_eq_true_eq] at h
  refine ⟨fun hnew c hnone o hlast => h.1 hnew c hnone o hlast, ?_⟩
  rintro c pcm rfl
  exact of_decide_eq_true h.2

/-- A node with small frames, whose samples fade by halves. -/
def halving : Config ℕ := ⟨120, 0, fun n x => x / 2 ^ n⟩

/-- The last channel but one. -/
def nextToLast : Channel := (Fin.last 14).castSucc

/-- A plane with the same sample all over. -/
def flat (x : ℕ) : List ℕ := List.replicate halving.frameSize x

/-- One output of the last channel, and two frames without it. -/
def lagging : List (Action ℕ) :=
  [.push (Fin.last 15) 0, .output (Fin.last 15) (flat 8), .timeout 1,
    .push nextToLast 120, .output nextToLast (flat 6), .timeout 2,
    .push nextToLast 240, .output nextToLast (flat 6), .timeout 3]

theorem usesPast_of_onTime_lagging :
    Along (Session.step halving) (UsesPast halving) (begin halving) lagging :=
  usesPast_of_onTime rfl (by simp [lagging, Playing])
    (throughout_of_check (fun _ h => of_decide_eq_true h) (by decide +kernel))
    (along_of_check (fun _ _ h => onTime_of_onTime h) (by decide +kernel))

/-- The last channel puts out its plane of the second frame before the first has timed
out. -/
def overlapping : List (Action ℕ) :=
  [.push nextToLast 0, .output nextToLast (flat 6),
    .push (Fin.last 15) 120, .output (Fin.last 15) (flat 8)]

/-- What it is given in the first is made of that. -/
theorem not_usesPast_overlapping :
    halving.plcHold = true ∧ (∀ a ∈ overlapping ++ [.timeout 1], Playing a) ∧
      Throughout (Session.step halving) (fun x => Ascending x.state.decoded) (begin halving)
        (overlapping ++ [.timeout 1]) ∧
      ¬Along (Session.step halving) (UsesPast halving) (begin halving)
        (overlapping ++ [.timeout 1]) := by
  refine ⟨rfl, by simp [overlapping, Playing],
    throughout_of_check (fun _ h => of_decide_eq_true h) (by decide +kernel), fun hall => ?_⟩
  obtain ⟨x, hx, h⟩ := (Option.any_eq_true _ _).mp
    (by decide +kernel : (exec (Session.step halving) (begin halving) overlapping).any (fun x =>
      decide (flushing halving x.state.rx (.timeout 1) = some 63 ∧
        (x.state.rx.slots 63).data (Fin.last 15) = none ∧ (x.state.rx.slots 63).frameSize = 120 ∧
        x.state.rx.posted.length = 0) &&
      (Session.step halving x (.timeout 1)).any fun x' =>
        decide ((∀ o ∈ x'.state.decoded, 0 ≤ o.frameTs) ∧
          x'.state.rx.posted.map (fun m => (m.timestamp, m.channels (Fin.last 15)))
            = [(0, some (flat 4))])) = true)
  rw [Bool.and_eq_true, decide_eq_true_eq] at h
  obtain ⟨⟨hk, hnone, hsize, hempty⟩, h⟩ := h
  obtain ⟨x', hx', h⟩ := (Option.any_eq_true _ _).mp h
  obtain ⟨hfrom, hposted⟩ := of_decide_eq_true h
  obtain ⟨m, hm, hpair⟩ := List.map_eq_singleton_iff.mp hposted
  obtain ⟨hts, hplane⟩ := Prod.ext_iff.mp hpair
  obtain ⟨plane, hplane', -, hsilent⟩ := hall overlapping (.timeout 1) [] x rfl (.of_exec hx) x' 63
    m hx' hk (by rw [hm, List.eq_nil_of_length_eq_zero hempty, List.nil_append]) (Fin.last 15) hnone
  -- the channel has nothing before this frame, which should be silent then
  have hsilence := hsilent (Or.inr fun o hmem _ => hts.le.trans (hfrom o hmem))
  rw [hsize] at hsilence
  rw [hsilence] at hplane'
  have hflat : List.replicate 120 0 = flat 4 := Option.some.inj (hplane'.symm.trans hplane)
  exact absurd ((List.replicate_right_inj (by decide)).mp hflat) (by decide)

end Session

end AmbiRTC.Assembly
