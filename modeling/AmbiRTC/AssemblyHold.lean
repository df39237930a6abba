/-
AmbiRTC/AssemblyHold.lean

What a missing plane is made of.  The last good plane of a channel and its hold
counter are those of the decoder's last output, while concealment comes with the
timeout of a frame that may be older.

While the last output of a channel is kept (`Kept`), a frame that lacks the channel
has that output, faded by the counter.  Flushes keep it so, where the frame is later
than the output and the counter says in how many frames the channel has been
concealed (`Tracks.flushed`); then what is made up comes from the past
(`Tracks.past`).  An output whose frame is still to be dispatched is taken too early
(`Tracks.madeUp_of_pending`).
-/
import AmbiRTC.AssemblyLoss

namespace AmbiRTC.Assembly

open Runs Rx

variable {α : Type}

namespace Rx

variable {cfg : Config α} {s s' : Rx α} {i k : ℕ} {c : Channel} {frameTs : ℤ}

/-! ### Decoder outputs -/

/-- An output that is late, or has no timestamp, is left alone. -/
theorem onDecoderOutput_of_late {mono : List α} (h : (s.shiftDecoderTimestamp c).2 < 0 ∨
    (s.shiftDecoderTimestamp c).2 ≤ s.lastFlushedTs) :
    s.onDecoderOutput cfg c mono = (s.shiftDecoderTimestamp c).1 := by
  unfold onDecoderOutput
  simp only
  rw [if_pos (by rwa [same_shift.lastFlushedTs])]

/-- One for a frame to come is stored in it. -/
theorem onDecoderOutput_of_new {mono : List α} {s₁ : Rx α}
    (hpos : 0 ≤ (s.shiftDecoderTimestamp c).2)
    (hnew : s.lastFlushedTs < (s.shiftDecoderTimestamp c).2) (hready : s.graphReady = true)
    (hslot : (s.shiftDecoderTimestamp c).1.slotFor cfg (s.shiftDecoderTimestamp c).2 mono.length
      = (s₁, k)) (hnone : (s₁.slots k).data c = none) :
    s.onDecoderOutput cfg c mono
      = (s₁.storePlane cfg k c mono).complete cfg k (s.shiftDecoderTimestamp c).2 := by
  unfold onDecoderOutput
  simp only
  rw [if_neg (by rw [same_shift.lastFlushedTs, not_or]; exact ⟨not_lt.mpr hpos, not_le.mpr hnew⟩),
    if_neg (by rw [same_shift.graph.ready, hready]; exact Bool.false_ne_true), hslot,
    if_neg (by rw [hnone]; exact Bool.false_ne_true)]

theorem holdCount_shift : (s.shiftDecoderTimestamp c).1.holdCount = s.holdCount := by
  unfold shiftDecoderTimestamp
  split <;> rfl

theorem holdCount_open (n : ℕ) : (s.openSlot cfg frameTs n).1.holdCount = s.holdCount := by
  unfold openSlot acquireFrameSlot
  cases s.frameSlotPool <;> rfl

theorem holdCount_store (hplc : cfg.plcHold = true) (mono : List α) :
    (s.storePlane cfg k c mono).holdCount = Function.update s.holdCount c 0 := by
  unfold storePlane
  rw [if_pos hplc]
  rfl

theorem lastGoodPcm_store (hplc : cfg.plcHold = true) (mono : List α) :
    (s.storePlane cfg k c mono).lastGoodPcm = Function.update s.lastGoodPcm c (some mono) := by
  unfold storePlane
  rw [if_pos hplc]
  rfl

end Rx

/-! ### What has been dispatched -/

/-- A frame that has been dispatched, and the channels concealed in it. -/
structure Dispatch where
  frameTs : ℤ
  concealed : Channel → Bool

/-- In how many frames the channel has been concealed, up to the last one. -/
def concealedRun (log : List Dispatch) (c : Channel) : ℕ :=
  (log.reverse.takeWhile fun d => d.concealed c).length

theorem concealedRun_concat (log : List Dispatch) (d : Dispatch) (c : Channel) :
    concealedRun (log ++ [d]) c = if d.concealed c then concealedRun log c + 1 else 0 := by
  unfold concealedRun
  rw [List.reverse_append, List.reverse_singleton, List.singleton_append, List.takeWhile_cons]
  split <;> rfl

/-- The last output of a channel's decoder. -/
def lastOutput (decoded : List (Output α)) (c : Channel) : Option (Output α) :=
  (decoded.filter fun o => o.chIdx = c).getLast?

theorem lastOutput_concat (decoded : List (Output α)) (o : Output α) (c : Channel) :
    lastOutput (decoded ++ [o]) c = if o.chIdx = c then some o else lastOutput decoded c := by
  unfold lastOutput
  rw [List.filter_append]
  split
  · rename_i hc
    rw [List.filter_singleton, decide_eq_true hc, Bool.cond_true, List.getLast?_concat]
  · rename_i hc
    rw [List.filter_singleton, decide_eq_false hc, Bool.cond_false, List.append_nil]

theorem mem_of_lastOutput {decoded : List (Output α)} {c : Channel} {o : Output α}
    (h : lastOutput decoded c = some o) : o ∈ decoded ∧ o.chIdx = c := by
  have hmem := List.mem_filter.mp (List.mem_of_getLast? h)
  exact ⟨hmem.1, of_decide_eq_true hmem.2⟩

theorem lastOutput_ne_none {decoded : List (Output α)} {c : Channel} {o : Output α}
    (h : o ∈ decoded) (hc : o.chIdx = c) : lastOutput decoded c ≠ none := by
  intro hnone
  rw [lastOutput, List.getLast?_eq_none_iff] at hnone
  have hmem : o ∈ decoded.filter fun o => o.chIdx = c :=
    List.mem_filter.mpr ⟨h, decide_eq_true hc⟩
  rw [hnone] at hmem
  exact List.not_mem_nil hmem

/-- The last output of a channel is its latest. -/
theorem Ascending.le_lastOutput {decoded : List (Output α)} (hasc : Ascending decoded)
    {c : Channel} {o o' : Output α} (h : lastOutput decoded c = some o) (hmem : o' ∈ decoded)
    (hc : o'.chIdx = c) : o' = o ∨ o'.frameTs < o.frameTs := by
  obtain ⟨before, hsplit⟩ := List.getLast?_eq_some_iff.mp h
  have hmem' : o' ∈ decoded.filter fun o => o.chIdx = c :=
    List.mem_filter.mpr ⟨hmem, decide_eq_true hc⟩
  have hpairs := hasc.filter fun o => o.chIdx = c
  rw [hsplit] at hmem' hpairs
  rcases List.mem_append.mp hmem' with hbefore | hlast
  · refine Or.inr ((List.pairwise_append.mp hpairs).2.2 o' hbefore o (List.mem_singleton_self o) ?_)
    rw [hc, (mem_of_lastOutput h).2]
  · exact Or.inl (List.mem_singleton.mp hlast)

namespace Rx

variable {cfg : Config α} {s s' : Rx α} {i k : ℕ} {c : Channel} {frameTs : ℤ}
  {log : List Dispatch} {o : Output α}

/-! ### What is kept for concealment -/

/-- The output `o` is what its channel is concealed with.  The counter says how often
it has been, unless its frame is still to come. -/
structure Kept (s : Rx α) (log : List Dispatch) (o : Output α) : Prop where
  good : s.lastGoodPcm o.chIdx = some o.pcm
  newest : ∀ i k plane, s.frameRing i = some k → (s.slots k).data o.chIdx = some plane →
    (s.slots k).frameTs ≤ o.frameTs
  count : s.holdCount o.chIdx = min plcMaxHolds (concealedRun log o.chIdx) ∨
    (s.holdCount o.chIdx = 0 ∧ s.lastFlushedTs < o.frameTs)
  behind : 0 < s.holdCount o.chIdx → o.frameTs < s.lastFlushedTs

theorem Kept.same (h : Kept s log o) (hsame : Same s s') (hcount : s'.holdCount = s.holdCount) :
    Kept s' log o where
  good := by
    rw [hsame.lastGoodPcm]
    exact h.good
  newest := by
    rw [hsame.ring, hsame.slots]
    exact h.newest
  count := by
    rw [hcount, hsame.lastFlushedTs]
    exact h.count
  behind := by
    rw [hcount, hsame.lastFlushedTs]
    exact h.behind

/-- The frames that are left when one ends. -/
theorem newest_ended (h : Kept s log o) (howned : Owned s) (hcell : s.frameRing i = some k)
    (hended : Ended cfg s s' i k) : ∀ i' k' plane, s'.frameRing i' = some k' →
      (s'.slots k').data o.chIdx = some plane → (s'.slots k').frameTs ≤ o.frameTs := by
  intro i' k' plane hcell' hplane
  rw [howned.slots_ended hcell hended hcell'] at hplane ⊢
  exact h.newest i' k' plane (hended.of_ring hcell').2 hplane

/-- A frame that has been overtaken ends. -/
theorem Kept.released (h : Kept s log o) (howned : Owned s) (hcell : s.frameRing i = some k)
    (hended : Released cfg s s' i k) : Kept s' log o where
  good := by
    rw [hended.lastGoodPcm]
    exact h.good
  newest := newest_ended h howned hcell hended.toEnded
  count := by
    rw [hended.holdCount, hended.lastFlushedTs]
    exact h.count
  behind := by
    rw [hended.holdCount, hended.lastFlushedTs]
    exact h.behind

/-- While the frames of its channel are still to come, nothing has been held. -/
theorem Kept.holdCount_eq_zero (h : Kept s log o) (hcell : s.frameRing i = some k)
    (hnew : s.lastFlushedTs < (s.slots k).frameTs) {plane : List α}
    (hplane : (s.slots k).data o.chIdx = some plane) : s.holdCount o.chIdx = 0 := by
  have hle := h.newest i k plane hcell hplane
  by_contra hpos
  have hbehind := h.behind (Nat.pos_of_ne_zero hpos)
  omega

/-- A frame with a plane of the channel is dispatched. -/
theorem Kept.present (h : Kept s log o) (howned : Owned s) (hcell : s.frameRing i = some k)
    (hnew : s.lastFlushedTs < (s.slots k).frameTs) {plane : List α}
    (hplane : (s.slots k).data o.chIdx = some plane) {data : Channel → Option (List α)}
    {count : Channel → ℕ} (hsent : Sent cfg s s' i k data count)
    (hcount : count o.chIdx = s.holdCount o.chIdx) {d : Dispatch}
    (hd : d.concealed o.chIdx = false) : Kept s' (log ++ [d]) o := by
  have hzero : s'.holdCount o.chIdx = 0 := by
    rw [hsent.holdCount, hcount]
    exact h.holdCount_eq_zero hcell hnew hplane
  constructor
  case good =>
    rw [hsent.lastGoodPcm]
    exact h.good
  case newest => exact newest_ended h howned hcell hsent.toEnded
  case count =>
    refine Or.inl ?_
    rw [hzero, concealedRun_concat, hd]
    rfl
  case behind =>
    intro hpos
    rw [hzero] at hpos
    exact absurd hpos (Nat.lt_irrefl 0)

/-- What the channel's counter is when a frame without it is flushed in time. -/
theorem Kept.holdCount_eq (h : Kept s log o)
    (hturn : concealedRun log o.chIdx = 0 ∨ o.frameTs ≤ s.lastFlushedTs) :
    s.holdCount o.chIdx = min plcMaxHolds (concealedRun log o.chIdx) := by
  rcases h.count with hcount | ⟨hzero, hahead⟩
  · exact hcount
  · rcases hturn with hrun | hgone
    · rw [hzero, hrun]
      rfl
    · exact absurd hahead (not_lt.mpr hgone)

/-- A frame without the channel is flushed, and the output held once more. -/
theorem Kept.concealed (h : Kept s log o) (howned : Owned s) (hcell : s.frameRing i = some k)
    (hbefore : o.frameTs < (s.slots k).frameTs)
    (hrun : s.holdCount o.chIdx = min plcMaxHolds (concealedRun log o.chIdx))
    {data : Channel → Option (List α)} {count : Channel → ℕ} (hsent : Sent cfg s s' i k data count)
    (hcount : count o.chIdx = min plcMaxHolds (s.holdCount o.chIdx + 1)) {d : Dispatch}
    (hd : d.concealed o.chIdx = true) : Kept s' (log ++ [d]) o := by
  constructor
  case good =>
    rw [hsent.lastGoodPcm]
    exact h.good
  case newest => exact newest_ended h howned hcell hsent.toEnded
  case count =>
    refine Or.inl ?_
    rw [hsent.holdCount, hcount, hrun, concealedRun_concat, hd, if_pos rfl]
    omega
  case behind =>
    intro _
    rw [hsent.lastFlushedTs]
    exact hbefore

/-- A frame is opened. -/
theorem Kept.opened (h : Kept s log o) (howned : Owned s) (hopened : Opened s s' frameTs i k)
    (hcount : s'.holdCount = s.holdCount) : Kept s' log o where
  good := by
    rw [hopened.untouched.lastGoodPcm]
    exact h.good
  newest := by
    intro i' k' plane hcell' hplane
    rcases hopened.of_ring hcell' with ⟨rfl, rfl⟩ | ⟨-, hold⟩
    · rw [hopened.data] at hplane
      cases hplane
    · rw [howned.slots_opened hopened hold] at hplane ⊢
      exact h.newest i' k' plane hold hplane
  count := by
    rw [hcount, hopened.untouched.lastFlushedTs]
    exact h.count
  behind := by
    rw [hcount, hopened.untouched.lastFlushedTs]
    exact h.behind

/-- A plane of another channel is stored. -/
theorem Kept.stored (h : Kept s log o) (hplc : cfg.plcHold = true) (hne : o.chIdx ≠ c)
    (mono : List α) : Kept (s.storePlane cfg k c mono) log o := by
  have hst : Stored s (s.storePlane cfg k c mono) k c mono := Rx.stored mono
  constructor
  case good =>
    rw [lastGoodPcm_store hplc, Function.update_of_ne hne]
    exact h.good
  case newest =>
    intro i' k' plane hcell hplane
    rw [hst.ring] at hcell
    rw [hst.slots] at hplane ⊢
    by_cases hk : k' = k
    · subst hk
      rw [Function.update_self] at hplane ⊢
      simp only [FrameSlot.add, Function.update_of_ne hne] at hplane
      exact h.newest i' k' plane hcell hplane
    · rw [Function.update_of_ne hk] at hplane ⊢
      exact h.newest i' k' plane hcell hplane
  case count =>
    rw [holdCount_store hplc, Function.update_of_ne hne, hst.lastFlushedTs]
    exact h.count
  case behind =>
    rw [holdCount_store hplc, Function.update_of_ne hne, hst.lastFlushedTs]
    exact h.behind

/-- **A new plane** is what its channel will be concealed with. -/
theorem kept_stored (hplc : cfg.plcHold = true) {mono : List α}
    (hts : (s.slots k).frameTs = frameTs) (hnew : s.lastFlushedTs < frameTs)
    (hearlier : ∀ i' k' plane, s.frameRing i' = some k' → (s.slots k').data c = some plane →
      (s.slots k').frameTs ≤ frameTs) :
    Kept (s.storePlane cfg k c mono) log ⟨c, frameTs, mono⟩ := by
  have hst : Stored s (s.storePlane cfg k c mono) k c mono := Rx.stored mono
  have hslot : (s.storePlane cfg k c mono).slots k = (s.slots k).add c mono := by
    rw [hst.slots, Function.update_self]
  have hzero : (s.storePlane cfg k c mono).holdCount c = 0 := by
    rw [holdCount_store hplc, Function.update_self]
  constructor
  case good =>
    rw [lastGoodPcm_store hplc]
    exact Function.update_self ..
  case newest =>
    intro i' k' plane hcell' hplane
    rw [hst.ring] at hcell'
    by_cases hk : k' = k
    · subst hk
      rw [hslot]
      exact hts.le
    · rw [hst.slots, Function.update_of_ne hk] at hplane ⊢
      exact hearlier i' k' plane hcell' hplane
  case count =>
    refine Or.inr ⟨hzero, ?_⟩
    rw [hst.lastFlushedTs]
    exact hnew
  case behind =>
    intro hpos
    rw [hzero] at hpos
    exact absurd hpos (Nat.lt_irrefl 0)

/-! ### Flushes -/

/-- The frame in slot `k` lacks the channel of `o`, its last output: this is for an
earlier frame, was not late, and has the frame's size; and its own frame does not
still wait while the channel is being concealed. -/
structure InTime (s : Rx α) (log : List Dispatch) (late : Channel → Bool) (k : ℕ)
    (o : Output α) : Prop where
  before : o.frameTs < (s.slots k).frameTs
  taken : late o.chIdx = false
  size : o.pcm.length = (s.slots k).frameSize
  turn : concealedRun log o.chIdx = 0 ∨ o.frameTs ≤ s.lastFlushedTs

/-- What the frame in slot `k` lacks has been put out in time, or never. -/
def FlushesInTime (s : Rx α) (decoded : List (Output α)) (log : List Dispatch)
    (late : Channel → Bool) (k : ℕ) : Prop :=
  s.lastFlushedTs < (s.slots k).frameTs → ∀ c, (s.slots k).data c = none →
    ∀ o, lastOutput decoded c = some o → InTime s log late k o

/-- The last output of every channel is kept, unless it was late. -/
def Tracks (s : Rx α) (decoded : List (Output α)) (log : List Dispatch)
    (late : Channel → Bool) : Prop :=
  ∀ c o, late c = false → lastOutput decoded c = some o → Kept s log o

/-- The record, with what has been posted. -/
def noted (log : List Dispatch) (s s' : Rx α) (lacks : Channel → Bool) : List Dispatch :=
  log ++ (s'.posted.drop s.posted.length).map fun m => ⟨m.timestamp, lacks⟩

theorem noted_same {lacks : Channel → Bool} (h : s'.posted = s.posted) :
    noted log s s' lacks = log := by
  rw [noted, h, List.drop_length, List.map_nil, List.append_nil]

theorem noted_posts {lacks : Channel → Bool} {m : Message α} (h : s'.posted = s.posted ++ [m]) :
    noted log s s' lacks = log ++ [⟨m.timestamp, lacks⟩] := by
  rw [noted, h, List.drop_left]
  rfl

variable {decoded : List (Output α)} {late lacks : Channel → Bool}

instance (o : Output α) : Decidable (InTime s log late k o) :=
  decidable_of_iff (o.frameTs < (s.slots k).frameTs ∧ late o.chIdx = false ∧
      o.pcm.length = (s.slots k).frameSize ∧
      (concealedRun log o.chIdx = 0 ∨ o.frameTs ≤ s.lastFlushedTs))
    ⟨fun h => ⟨h.1, h.2.1, h.2.2.1, h.2.2.2⟩, fun h => ⟨h.before, h.taken, h.size, h.turn⟩⟩

theorem InTime.same (h : InTime s log late k o) (hsame : Same s s') : InTime s' log late k o where
  before := by
    rw [hsame.slots]
    exact h.before
  taken := h.taken
  size := by
    rw [hsame.slots]
    exact h.size
  turn := by
    rw [hsame.lastFlushedTs]
    exact h.turn

theorem FlushesInTime.same (h : FlushesInTime s decoded log late k) (hsame : Same s s') :
    FlushesInTime s' decoded log late k := by
  intro hnew c hnone o hlast
  rw [hsame.lastFlushedTs, hsame.slots] at hnew
  rw [hsame.slots] at hnone
  exact (h hnew c hnone o hlast).same hsame

theorem Tracks.same (h : Tracks s decoded log late) (hsame : Same s s')
    (hcount : s'.holdCount = s.holdCount) : Tracks s' decoded log late :=
  fun c o hlate hlast => (h c o hlate hlast).same hsame hcount

/-- What a kept output is held as. -/
theorem Kept.held (h : Kept s log o) (hplc : cfg.plcHold = true) {frameSize : ℕ}
    (hsize : o.pcm.length = frameSize) : s.held cfg frameSize o.chIdx =
      if s.holdCount o.chIdx < plcMaxHolds then
        some (o.pcm.map (cfg.fade (s.holdCount o.chIdx + 1)))
      else none := by
  unfold Rx.held
  rw [h.good]
  simp only [hplc, hsize, true_and]

/-- The counter of a channel that a frame lacks. -/
theorem Kept.countHolds (h : Kept s log o) (hplc : cfg.plcHold = true)
    (hsize : o.pcm.length = (s.slots k).frameSize) (hnone : (s.slots k).data o.chIdx = none)
    (hle : s.holdCount o.chIdx ≤ plcMaxHolds) : s.countHolds cfg (s.slots k) o.chIdx
      = min plcMaxHolds (s.holdCount o.chIdx + 1) := by
  unfold Rx.countHolds
  rw [h.held hplc hsize, hnone]
  by_cases hlt : s.holdCount o.chIdx < plcMaxHolds
  · rw [if_pos hlt, if_pos ⟨rfl, rfl⟩, Nat.min_eq_right hlt]
  · rw [if_neg hlt, if_neg fun h => absurd h.2 Bool.false_ne_true]
    omega

/-- **What is tracked stays so** when a frame is flushed in time. -/
theorem Tracks.flushed (h : Tracks s decoded log late) (hplc : cfg.plcHold = true)
    (htidy : Tidy s) (howned : Owned s) (hup : Up s)
    (hcell : s.frameRing (ringIdx cfg (s.slots k).frameTs) = some k)
    (htime : FlushesInTime s decoded log late k)
    (hlacks : ∀ c, lacks c = ((s.slots k).data c).isNone) :
    Tracks (s.flushFrame cfg (s.slots k).frameTs) decoded
      (noted log s (s.flushFrame cfg (s.slots k).frameTs) lacks) late := by
  intro c o hlate hlast
  have hkept := h c o hlate hlast
  obtain ⟨-, rfl⟩ := mem_of_lastOutput hlast
  rcases le_or_gt (s.slots k).frameTs s.lastFlushedTs with hold | hnew
  · have hreleased := released_flush hcell rfl hold
    rw [noted_same hreleased.posted]
    exact hkept.released howned hcell hreleased
  · have hsent := sent_flush hcell rfl hnew (htidy.count _ k hcell)
    rw [noted_posts (hsent.posted.trans (hup.posts _))]
    cases hdata : (s.slots k).data o.chIdx with
    | some plane =>
      refine hkept.present howned hcell hnew hdata hsent ?_ ?_
      · unfold countHolds
        rw [if_neg fun h => by rw [hdata] at h; exact absurd h.1 Bool.false_ne_true]
      · show lacks o.chIdx = false
        rw [hlacks, hdata]
        rfl
    | none =>
      have hin := htime hnew o.chIdx hdata o hlast
      have hrun := hkept.holdCount_eq hin.turn
      refine hkept.concealed howned hcell hin.before hrun hsent ?_ ?_
      · exact hkept.countHolds hplc hin.size hdata (hrun.trans_le (Nat.min_le_left _ _))
      · show lacks o.chIdx = true
        rw [hlacks, hdata]
        rfl

end Rx

/-! ### Concealment by the past -/

/-- The plane a channel has in a frame it lacks: the decoded plane with the greatest
timestamp below the frame's, faded `n` times; or silence, where that is too often or
there is no such plane. -/
def Past (cfg : Config α) (decoded : List (Output α)) (c : Channel) (frameTs : ℤ)
    (frameSize n : ℕ) (plane : List α) : Prop :=
  (∀ o ∈ decoded, o.chIdx = c → o.frameTs < frameTs →
    (∀ o' ∈ decoded, o'.chIdx = c → o'.frameTs < frameTs → o'.frameTs ≤ o.frameTs) →
      n ≤ plcMaxHolds → plane = o.pcm.map (cfg.fade n)) ∧
  ((plcMaxHolds < n ∨ ∀ o ∈ decoded, o.chIdx = c → frameTs ≤ o.frameTs) →
    plane = List.replicate frameSize cfg.silence)

/-- Later outputs are not the past. -/
theorem Past.concat {cfg : Config α} {decoded : List (Output α)} {c : Channel} {frameTs : ℤ}
    {frameSize n : ℕ} {plane : List α} (h : Past cfg decoded c frameTs frameSize n plane)
    {o : Output α} (hlater : o.chIdx = c → frameTs ≤ o.frameTs) :
    Past cfg (decoded ++ [o]) c frameTs frameSize n plane := by
  constructor
  · intro o' hmem hc hbefore hgreatest
    rcases List.mem_append.mp hmem with hmem | hmem
    · refine h.1 o' hmem hc hbefore fun o'' hmem'' => ?_
      exact hgreatest o'' (List.mem_append_left _ hmem'')
    · obtain rfl := List.mem_singleton.mp hmem
      exact absurd hbefore (not_lt.mpr (hlater hc))
  · intro hsilent
    apply h.2
    refine hsilent.imp_right fun hnone o' hmem => ?_
    exact hnone o' (List.mem_append_left _ hmem)

namespace Rx

variable {cfg : Config α} {s : Rx α} {k : ℕ} {c : Channel} {log : List Dispatch}
  {decoded : List (Output α)} {late : Channel → Bool}

/-- A channel that has put out nothing is silent. -/
theorem past_of_silent (hgood : Good decoded s) (hnone : lastOutput decoded c = none)
    (frameTs : ℤ) (frameSize n : ℕ) : Past cfg decoded c frameTs frameSize n
      ((s.held cfg frameSize c).getD (List.replicate frameSize cfg.silence)) := by
  have hnever : ∀ o ∈ decoded, o.chIdx ≠ c := fun o hmem hc => lastOutput_ne_none hmem hc hnone
  have hlast : s.lastGoodPcm c = none := by
    cases hlg : s.lastGoodPcm c with
    | none => rfl
    | some lg =>
      obtain ⟨o, hmem, hc, -⟩ := hgood c lg hlg
      exact absurd hc (hnever o hmem)
  have hheld : s.held cfg frameSize c = none := by
    unfold Rx.held
    rw [hlast]
  rw [hheld]
  exact ⟨fun o hmem hc => absurd hc (hnever o hmem), fun _ => rfl⟩

/-- **Any other** has its last output held, as often as the frames before say. -/
theorem Kept.past {o : Output α} (h : Kept s log o) (hplc : cfg.plcHold = true)
    (hasc : Ascending decoded) (hlast : lastOutput decoded o.chIdx = some o)
    (hin : InTime s log late k o) :
    Past cfg decoded o.chIdx (s.slots k).frameTs (s.slots k).frameSize
      (concealedRun log o.chIdx + 1) ((s.held cfg (s.slots k).frameSize o.chIdx).getD
        (List.replicate (s.slots k).frameSize cfg.silence)) := by
  have hrun := h.holdCount_eq hin.turn
  rw [h.held hplc hin.size, hrun]
  constructor
  · intro o' hmem hc hbefore hgreatest hfew
    have ho : o' = o := by
      rcases hasc.le_lastOutput hlast hmem hc with heq | hlt
      · exact heq
      · have hge := hgreatest o (mem_of_lastOutput hlast).1 rfl hin.before
        exact absurd hlt (not_lt.mpr hge)
    have hlt : concealedRun log o.chIdx < plcMaxHolds := hfew
    rw [ho, Nat.min_eq_right hlt.le, if_pos hlt]
    rfl
  · rintro (hmany | hnone)
    · rw [Nat.min_eq_left (Nat.le_of_lt_succ hmany), if_neg (Nat.lt_irrefl _)]
      rfl
    · have hge := hnone o (mem_of_lastOutput hlast).1 rfl
      exact absurd hin.before (not_lt.mpr hge)

/-- What a frame flushed in time is made up of. -/
theorem Tracks.past (h : Tracks s decoded log late) (hplc : cfg.plcHold = true)
    (hgood : Good decoded s) (hasc : Ascending decoded)
    (hnew : s.lastFlushedTs < (s.slots k).frameTs) (htime : FlushesInTime s decoded log late k)
    (hnone : (s.slots k).data c = none) :
    ∃ plane, s.madeUp cfg (s.slots k) c = some plane ∧
      Past cfg decoded c (s.slots k).frameTs (s.slots k).frameSize (concealedRun log c + 1)
        plane := by
  refine ⟨_, by rw [madeUp, hnone, Option.getD_none], ?_⟩
  cases hlast : lastOutput decoded c with
  | none => exact past_of_silent hgood hlast _ _ _
  | some o =>
    have hin := htime hnew c hnone o hlast
    obtain ⟨-, rfl⟩ := mem_of_lastOutput hlast
    exact (h _ o hin.taken hlast).past hplc hasc hlast hin

/-- What a flush posts, if anything. -/
theorem posted_flush (htidy : Tidy s) (hup : Up s)
    (hcell : s.frameRing (ringIdx cfg (s.slots k).frameTs) = some k) {m : Message α}
    (hposted : (s.flushFrame cfg (s.slots k).frameTs).posted = s.posted ++ [m]) :
    s.lastFlushedTs < (s.slots k).frameTs ∧
      m = ⟨(s.slots k).frameTs, s.madeUp cfg (s.slots k)⟩ := by
  rcases le_or_gt (s.slots k).frameTs s.lastFlushedTs with hold | hnew
  · rw [(released_flush hcell rfl hold).posted] at hposted
    exact absurd (List.self_eq_append_right.mp hposted) (List.cons_ne_nil m [])
  · rw [(sent_flush hcell rfl hnew (htidy.count _ k hcell)).posted, hup.posts] at hposted
    exact ⟨hnew, (List.singleton_inj.mp (List.append_cancel_left hposted)).symm⟩

/-- **Too early**: an output whose frame is still to be dispatched is what a frame
without its channel is given, faded once, though it may be for a later frame, or the
channel may have been concealed just before. -/
theorem Tracks.madeUp_of_pending (h : Tracks s decoded log late) (hplc : cfg.plcHold = true)
    (hnone : (s.slots k).data c = none) {o : Output α} (hlast : lastOutput decoded c = some o)
    (htaken : late c = false) (hsize : o.pcm.length = (s.slots k).frameSize)
    (hpending : s.lastFlushedTs < o.frameTs) :
    s.madeUp cfg (s.slots k) c = some (o.pcm.map (cfg.fade 1)) := by
  have hkept := h c o htaken hlast
  obtain ⟨-, rfl⟩ := mem_of_lastOutput hlast
  have hzero : s.holdCount o.chIdx = 0 := by
    by_contra hpos
    exact absurd (hkept.behind (Nat.pos_of_ne_zero hpos)) (not_lt.mpr hpending.le)
  rw [madeUp, hnone, hkept.held hplc hsize, hzero]
  rfl

end Rx

end AmbiRTC.Assembly
