/-
AmbiRTC/RecorderTakes.lean

What a node records, in every order of calls, packets and timers.  A recording of the
sender's consists of the frames encoded between its start and its end, ten seconds of
them unless the timeout came first; what is sent meanwhile is flagged; and what a node
flags itself it does not record as a receiver.

Main result: `recorded_of_run`.
-/
import AmbiRTC.Recorder

namespace AmbiRTC.Recorder

open Assembly Runs
open Prebuffer (frameSizes)

variable {α : Type}

/-! ### What is recorded -/

/-- The exports of a side, in order. -/
def exportsOf (side : Side) (exported : List (Side × Take α)) : List (Take α) :=
  exported.filterMap fun x => if x.1 = side then some x.2 else none

theorem exportsOf_append (side : Side) (xs ys : List (Side × Take α)) :
    exportsOf side (xs ++ ys) = exportsOf side xs ++ exportsOf side ys :=
  List.filterMap_append

/-- The frames encoded between the start and the end, as many as a recording has, unless
the timeout was due. -/
structure Exact (fed : List (RecordedFrame α)) (e : Ended α) : Prop where
  frames : e.frames = (fed.take e.upTo).drop e.first
  first_le : e.first ≤ e.upTo
  upTo_le : e.upTo ≤ fed.length
  started_le : e.startedAt ≤ e.endedAt
  full : e.frames.length = recFrames e.frameSize ∨
    e.frames.length < recFrames e.frameSize ∧
      e.startedAt + ms (recDurationMs e.frameSize + 1000) ≤ e.endedAt

/-- The first ended before the second began. -/
def Ended.Before (e e' : Ended α) : Prop := e.upTo ≤ e'.first ∧ e.endedAt ≤ e'.startedAt

/-- What holds of the recording under way. -/
structure UnderWay (s : State α) (b : Current) : Prop where
  startedAt : s.txRec.startedAt = some b.startedAt
  frames : s.txRec.frames = s.fed.drop b.first
  first_le : b.first ≤ s.fed.length
  left : s.txRec.left + s.txRec.frames.length = recFrames b.frameSize
  left_pos : 0 < s.txRec.left
  started_le : b.startedAt ≤ s.now
  after : ∀ e ∈ s.takes, e.upTo ≤ b.first ∧ e.endedAt ≤ b.startedAt

/-- The sender's recordings. -/
structure TxOk (s : State α) : Prop where
  size : 0 < s.frameSize ∧ s.frameSize ≤ 2880
  active : s.txRec.active = s.current.isSome
  armed : s.txRecTimeout
    = s.current.map fun b => b.startedAt + ms (recDurationMs b.frameSize + 1000)
  underWay : ∀ b ∈ s.current, UnderWay s b
  exact : ∀ e ∈ s.takes, Exact s.fed e ∧ e.endedAt ≤ s.now
  apart : s.takes.Pairwise Ended.Before
  starts : ∃ lost : List ℕ, lost.length ≤ 1 ∧ (s.destroyed = false → lost = []) ∧
    s.starts = s.takes.map (fun e => e.startedAt) ++ (s.current.map fun b => b.startedAt).toList
      ++ lost
  closed : s.destroyed = true → s.connected = false ∧ s.current = none
  exports : ∃ done, s.takes.map Ended.take = done ++ s.deferred ∧
    exportsOf .tx s.exported = done.filter (fun take => 0 < take.frames.length) ∧
    s.completed.count .tx = done.length

variable {silence : α} {s s' : State α}

/-! ### Steps of the sender's side -/

/-- The frames of a recording last ten seconds, and less than another frame. -/
theorem recFrames_mul {frameSize : ℕ} (h : 0 < frameSize) :
    480000 ≤ recFrames frameSize * frameSize ∧
      recFrames frameSize * frameSize < 480000 + frameSize := by
  have hle := Nat.div_mul_le_self (10 * sampleRate + frameSize - 1) frameSize
  have hlt := Nat.lt_div_mul_add h (a := 10 * sampleRate + frameSize - 1)
  simp only [recFrames, sampleRate] at hle hlt ⊢
  omega

theorem recFrames_pos {frameSize : ℕ} (h : 0 < frameSize) : 0 < recFrames frameSize := by
  refine Nat.pos_of_ne_zero fun hzero => ?_
  have hmul := (recFrames_mul h).1
  rw [hzero, Nat.zero_mul] at hmul
  exact absurd hmul (by decide)

theorem recDurationMs_bounds {frameSize : ℕ} (h : 0 < frameSize ∧ frameSize ≤ 2880) :
    10000 ≤ recDurationMs frameSize ∧ recDurationMs frameSize ≤ 10060 := by
  have hmul := recFrames_mul h.1
  simp only [recDurationMs, sampleRate]
  omega

theorem size_of_mem {n : ℕ} (h : n ∈ frameSizes) : 0 < n ∧ n ≤ 2880 := by
  have hall : ∀ n ∈ frameSizes, 0 < n ∧ n ≤ 2880 := by decide
  exact hall n h

/-- `startRecording` throws and changes nothing, or it begins a recording. -/
theorem startRecording_cases (h : step silence s .startRecording = some s') :
    s' = s ∨ (s.connected = true ∧ s.txRec.active = false ∧ s' = { s with
      txRec := ⟨true, [], recFrames s.frameSize, recFrames s.frameSize, some s.now⟩
      txRecEmitUntil := s.now + ms (recDurationMs s.frameSize + txRecEmitHangoverMs)
      txRecTimeout := some (s.now + ms (recDurationMs s.frameSize + 1000))
      starts := s.starts ++ [s.now]
      current := some ⟨s.now, s.frameSize, s.fed.length⟩ }) := by
  simp only [step] at h
  split at h
  next s₁ hstart =>
    obtain rfl := Option.some.inj h
    simp only [State.startRecording] at hstart
    split at hstart
    · cases hstart
    next hconnected =>
      split at hstart
      · cases hstart
      split at hstart
      · cases hstart
      next hactive =>
        refine Or.inr ⟨?_, Bool.eq_false_iff.mpr hactive, (Except.ok.inj hstart).symm⟩
        simpa using hconnected
  next => exact Or.inl (Option.some.inj h).symm

/-- **What an encoded frame does**: nothing, or it goes to the encoders, and into the
recording under way, which it may bring to its end. -/
theorem feed_cases (silence : α) (s : State α) (channels : Channel → Option (List α)) (ts : ℤ) :
    s.encodePlanarFrame silence channels ts = s ∨ ∃ copy,
      (s.txRec.active = false ∧
        s.encodePlanarFrame silence channels ts = { s with fed := s.fed ++ [copy] }) ∨
      (s.txRec.active = true ∧ s.txRec.left - 1 ≠ 0 ∧
        s.encodePlanarFrame silence channels ts = { s with
          fed := s.fed ++ [copy]
          txRec := { s.txRec with
            frames := s.txRec.frames ++ [copy], left := s.txRec.left - 1 } }) ∨
      (s.txRec.active = true ∧ s.txRec.left - 1 = 0 ∧
        s.encodePlanarFrame silence channels ts = State.endRecording { s with
          fed := s.fed ++ [copy]
          txRec := { s.txRec with
            frames := s.txRec.frames ++ [copy], left := s.txRec.left - 1 }
          txRecTimeout := none }) := by
  unfold State.encodePlanarFrame
  split
  · exact Or.inl rfl
  · refine Or.inr ⟨State.copyFrame silence
      (((channels ⟨0, State.zero_lt_channels⟩).map List.length).getD s.frameSize) ts channels, ?_⟩
    by_cases hactive : s.txRec.active = true
    · by_cases hleft : s.txRec.left - 1 = 0
      · exact Or.inr (Or.inr ⟨hactive, hleft, by simp only [hactive, hleft, if_true]⟩)
      · exact Or.inr (Or.inl ⟨hactive, hleft, by simp only [hactive, hleft, if_true, if_false]⟩)
    · exact Or.inl ⟨Bool.eq_false_iff.mpr hactive, by
        simp only [hactive, Bool.false_eq_true, if_false]⟩

/-- **What a flagged packet does**: nothing, or it is taken note of. -/
theorem mark_cases (s : State α) (frameTs : ℤ) :
    s.markRxRecording frameTs = s ∨ ∃ startedAt, s.txRec.active = false ∧
      s.txRecEmitUntil + ms 500 ≤ s.now ∧ s.markRxRecording frameTs = { s with
        rxRecSet := frameTs :: s.rxRecSet.filter fun ts => ts ≠ frameTs
        marked := s.marked ++ [(s.now, frameTs)]
        rxRecActive := true
        rxRecStartedAt := startedAt } := by
  unfold State.markRxRecording
  split
  · exact Or.inl rfl
  next hguard =>
    rw [Bool.or_eq_true, not_or, decide_eq_true_eq, not_lt, Bool.not_eq_true] at hguard
    cases hactive : s.rxRecActive with
    | true =>
      refine Or.inr ⟨s.rxRecStartedAt, hguard.1, hguard.2, ?_⟩
      simp only [if_true, ← hactive]
    | false =>
      refine Or.inr ⟨some s.now, hguard.1, hguard.2, ?_⟩
      simp only [Bool.false_eq_true, if_false]

/-- **What a frame that is played does**: nothing, or it is copied. -/
theorem dispatch_cases (s : State α) (frame : RecordedFrame α) :
    s.dispatchFrame frame = s ∨ (s.rxRecActive = true ∧ frame.ts ∈ s.rxRecSet ∧
      s.dispatchFrame frame = { s with
        rxRecSet := s.rxRecSet.filter fun ts => ts ≠ frame.ts
        rxRecFrames := s.rxRecFrames ++ [frame]
        rxRecTimer := some (s.now + ms 500)
        copied := s.copied ++ [frame] }) := by
  unfold State.dispatchFrame
  split
  · exact Or.inl rfl
  · split
    next hrec =>
      rw [Bool.and_eq_true, decide_eq_true_eq] at hrec
      exact Or.inr ⟨hrec.1, hrec.2, rfl⟩
    · exact Or.inl rfl

/-- What is encoded later does not matter. -/
theorem Exact.mono {fed : List (RecordedFrame α)} {e : Ended α} (h : Exact fed e)
    (more : List (RecordedFrame α)) : Exact (fed ++ more) e :=
  { h with
    frames := by rw [List.take_append_of_le_length h.upTo_le, h.frames]
    upTo_le := h.upTo_le.trans (by simp) }

/-- A recording begins. -/
theorem TxOk.begin (h : TxOk s) (hconnected : s.connected = true)
    (hactive : s.txRec.active = false) :
    TxOk { s with
      txRec := ⟨true, [], recFrames s.frameSize, recFrames s.frameSize, some s.now⟩
      txRecEmitUntil := s.now + ms (recDurationMs s.frameSize + txRecEmitHangoverMs)
      txRecTimeout := some (s.now + ms (recDurationMs s.frameSize + 1000))
      starts := s.starts ++ [s.now]
      current := some ⟨s.now, s.frameSize, s.fed.length⟩ } := by
  -- no take is under way, and the node lives
  have hcurrent : s.current = none := by
    rw [← Option.isSome_eq_false_iff.trans Option.isNone_iff_eq_none, ← h.active, hactive]
  have hdestroyed : s.destroyed = false := by
    by_contra hd
    rw [(h.closed (by simpa using hd)).1] at hconnected
    cases hconnected
  exact { h with
    active := rfl
    armed := rfl
    underWay := fun b hb => by
      obtain rfl := Option.some.inj hb
      exact {
        startedAt := rfl
        frames := List.drop_length.symm
        first_le := Nat.le_refl _
        left := Nat.add_zero _
        left_pos := recFrames_pos h.size.1
        started_le := Nat.le_refl _
        after := fun e he => ⟨(h.exact e he).1.upTo_le, (h.exact e he).2⟩ }
    starts := by
      obtain ⟨lost, -, hlost, hstarts⟩ := h.starts
      refine ⟨[], Nat.zero_le 1, fun _ => rfl, ?_⟩
      rw [hstarts, hlost hdestroyed, hcurrent]
      simp
    closed := fun hd => by
      rw [show s.destroyed = true from hd] at hdestroyed
      cases hdestroyed }

/-- The recording under way ends; it may have got a last frame. -/
theorem TxOk.ended (h : TxOk s) {b : Current} (hb : s.current = some b)
    (extra : List (RecordedFrame α)) (left : ℕ)
    (hfull : (s.txRec.frames ++ extra).length = recFrames b.frameSize ∨
      (s.txRec.frames ++ extra).length < recFrames b.frameSize ∧
        b.startedAt + ms (recDurationMs b.frameSize + 1000) ≤ s.now) :
    TxOk (State.endRecording { s with
      fed := s.fed ++ extra
      txRec := { s.txRec with frames := s.txRec.frames ++ extra, left := left }
      txRecTimeout := none }) := by
  have hway := h.underWay b hb
  have hdestroyed : s.destroyed = false := by
    by_contra hd
    rw [(h.closed (by simpa using hd)).2] at hb
    cases hb
  -- the take that ends, and what it holds: the frames fed since it began
  have htakes : (State.endRecording { s with
      fed := s.fed ++ extra
      txRec := { s.txRec with frames := s.txRec.frames ++ extra, left := left }
      txRecTimeout := none }).takes
      = s.takes ++ [⟨b, s.now, (s.fed ++ extra).length, s.txRec.frames ++ extra⟩] := by
    simp only [State.endRecording, hb, Option.map_some, Option.toList_some]
  have hexact : Exact (s.fed ++ extra)
      ⟨b, s.now, (s.fed ++ extra).length, s.txRec.frames ++ extra⟩ := {
    frames := by rw [List.take_length, List.drop_append_of_le_length hway.first_le, hway.frames]
    first_le := hway.first_le.trans (by simp)
    upTo_le := Nat.le_refl _
    started_le := hway.started_le
    full := hfull }
  refine {
    size := h.size
    active := rfl
    armed := rfl
    underWay := fun b hb => by cases hb
    exact := fun e he => ?_
    apart := ?_
    starts := ?_
    closed := fun hd => ⟨(h.closed hd).1, rfl⟩
    exports := ?_ }
  -- all takes are exact
  · rw [htakes, List.mem_append, List.mem_singleton] at he
    rcases he with he | rfl
    · exact ⟨(h.exact e he).1.mono extra, (h.exact e he).2⟩
    · exact ⟨hexact, Nat.le_refl _⟩
  -- they do not overlap
  · rw [htakes]
    refine List.pairwise_append.mpr ⟨h.apart, List.pairwise_singleton _ _, fun e he e' he' => ?_⟩
    rw [List.mem_singleton.mp he']
    exact hway.after e he
  -- every start has a take; none is lost, since the node is alive
  · obtain ⟨lost, -, hlost, hstarts⟩ := h.starts
    refine ⟨[], Nat.zero_le 1, fun _ => rfl, ?_⟩
    rw [htakes]
    show s.starts = _
    rw [hstarts, hlost hdestroyed, hb]
    simp [State.endRecording]
  -- the exports are those done and those deferred
  · obtain ⟨done, hdone, hrest⟩ := h.exports
    refine ⟨done, ?_, hrest⟩
    rw [htakes, List.map_append, hdone]
    show done ++ s.deferred ++ [_] = done ++ (s.deferred ++ [_])
    rw [List.append_assoc, hway.startedAt]
    rfl

/-- A frame is encoded. -/
theorem TxOk.feed (h : TxOk s) (channels : Channel → Option (List α)) (ts : ℤ) :
    TxOk (s.encodePlanarFrame silence channels ts) := by
  rcases feed_cases silence s channels ts with
    hs | ⟨copy, ⟨hactive, hs⟩ | ⟨hactive, hleft, hs⟩ | ⟨hactive, hleft, hs⟩⟩
  -- no frame is to be copied
  · rw [hs]
    exact h
  · rw [hs]
    -- no take is under way
    have hcurrent : s.current = none := by
      rw [← Option.isSome_eq_false_iff.trans Option.isNone_iff_eq_none, ← h.active, hactive]
    exact { h with
      underWay := fun b hb => by
        rw [show s.current = some b from hb] at hcurrent
        cases hcurrent
      exact := fun e he => ⟨(h.exact e he).1.mono [copy], (h.exact e he).2⟩ }
  -- one more frame of the take
  · rw [hs]
    exact { h with
      underWay := fun b hb => by
        have hway := h.underWay b hb
        exact {
          startedAt := hway.startedAt
          frames := by
            show s.txRec.frames ++ [copy] = (s.fed ++ [copy]).drop b.first
            rw [List.drop_append_of_le_length hway.first_le, hway.frames]
          first_le := hway.first_le.trans (by simp)
          left := by
            have hsum := hway.left
            have hpos := hway.left_pos
            show s.txRec.left - 1 + (s.txRec.frames ++ [copy]).length = recFrames b.frameSize
            rw [List.length_append, List.length_singleton]
            omega
          left_pos := Nat.pos_of_ne_zero hleft
          started_le := hway.started_le
          after := hway.after }
      exact := fun e he => ⟨(h.exact e he).1.mono [copy], (h.exact e he).2⟩ }
  · rw [hs]
    -- the last frame of the take, which ends it
    rw [h.active] at hactive
    obtain ⟨b, hb⟩ := Option.isSome_iff_exists.mp hactive
    have hway := h.underWay b hb
    refine h.ended hb [copy] _ (Or.inl ?_)
    have hsum := hway.left
    have hpos := hway.left_pos
    rw [List.length_append, List.length_singleton]
    omega

/-- The timeout only fires while a recording is under way. -/
theorem TxOk.timeout_eq (h : TxOk s) {due : ℕ} (hdue : s.txRecTimeout = some due) :
    s.txTimeout = State.endRecording { s with txRecTimeout := none } := by
  rw [h.armed] at hdue
  obtain ⟨b, hb, -⟩ := Option.map_eq_some_iff.mp hdue
  have hactive : s.txRec.active = true := by
    rw [h.active, hb]
    rfl
  simp only [State.txTimeout, hactive, if_true]

theorem TxOk.timeout (h : TxOk s) {due : ℕ} (hdue : s.txRecTimeout = some due) (hle : due ≤ s.now) :
    TxOk s.txTimeout := by
  rw [h.timeout_eq hdue]
  rw [h.armed] at hdue
  obtain ⟨b, hb, rfl⟩ := Option.map_eq_some_iff.mp hdue
  have hway := h.underWay b hb
  have hended := h.ended hb [] s.txRec.left (by
    have hsum := hway.left
    have hpos := hway.left_pos
    rw [List.append_nil]
    exact Or.inr ⟨by omega, hle⟩)
  rw [List.append_nil, List.append_nil] at hended
  exact hended

/-- An export that was put off. -/
theorem TxOk.exportTake (h : TxOk s) {take : Take α} {rest : List (Take α)}
    (hdeferred : s.deferred = take :: rest) : TxOk (s.exportTake take rest) :=
  { h with
    underWay := fun b hb => { h.underWay b hb with }
    exports := by
      obtain ⟨done, hdone, hexports, hcount⟩ := h.exports
      refine ⟨done ++ [take], ?_, ?_, ?_⟩
      · show s.takes.map Ended.take = done ++ [take] ++ rest
        rw [hdone, hdeferred, List.append_assoc]
        rfl
      · show exportsOf .tx (if 0 < take.frames.length then s.exported ++ [(.tx, take)]
          else s.exported) = _
        rw [List.filter_append, ← hexports]
        split
        next hlen =>
          rw [exportsOf_append, List.filter_cons_of_pos (by simpa using hlen)]
          rfl
        next hlen =>
          rw [List.filter_cons_of_neg (by simpa using hlen), List.filter_nil, List.append_nil]
      · show (s.completed ++ [Side.tx]).count Side.tx = _
        rw [List.count_append, hcount, List.length_append]
        rfl }

theorem TxOk.rxTimeout (h : TxOk s) : TxOk s.rxTimeout :=
  { h with
    underWay := fun b hb => { h.underWay b hb with }
    exports := by
      obtain ⟨done, hdone, hexports, hcount⟩ := h.exports
      refine ⟨done, hdone, ?_, ?_⟩
      · rw [← hexports]
        show exportsOf .tx (if 0 < s.rxRecFrames.length then _ else s.exported) = _
        split
        · rw [exportsOf_append]
          exact List.append_nil _
        · rfl
      · show (s.completed ++ [Side.rx]).count Side.tx = _
        rw [List.count_append, hcount]
        rfl }

theorem TxOk.destroy (h : TxOk s) : TxOk s.destroy := by
  unfold State.destroy
  split
  · exact h
  next hdestroyed =>
    exact { h with
      active := rfl
      armed := rfl
      underWay := fun b hb => by cases hb
      starts := by
        obtain ⟨lost, -, hlost, hstarts⟩ := h.starts
        refine ⟨(s.current.map fun b => b.startedAt).toList, Option.length_toList_le, ?_, ?_⟩
        · exact fun hd => Bool.noConfusion hd
        · show s.starts = _
          rw [hstarts, hlost (by simpa using hdestroyed)]
          simp
      closed := fun _ => ⟨rfl, rfl⟩ }

/-- **The sender's recordings** come out right whatever happens. -/
theorem TxOk.step (h : TxOk s) {a : Action α} (hs : step silence s a = some s') : TxOk s' := by
  cases a with
  | wait dt =>
    obtain rfl := Option.some.inj hs
    exact { h with
      underWay := fun b hb => { h.underWay b hb with
        started_le := (h.underWay b hb).started_le.trans (Nat.le_add_right _ _) }
      exact := fun e he => ⟨(h.exact e he).1, (h.exact e he).2.trans (Nat.le_add_right _ _)⟩ }
  -- a take under way keeps the size it began with
  | setFrameSize n =>
    obtain rfl := Option.some.inj hs
    unfold State.setFrameSize
    split
    · exact h
    next hn =>
      split
      · exact h
      · exact { h with
          size := size_of_mem (not_not.mp hn)
          underWay := fun b hb => { h.underWay b hb with } }
  | connected up =>
    obtain ⟨hup, hs⟩ := Option.ite_none_left_eq_some.mp hs
    obtain rfl := Option.some.inj hs
    exact { h with
      underWay := fun b hb => { h.underWay b hb with }
      closed := fun hd => ⟨Bool.eq_false_iff.mpr fun hu => hup ⟨hd, hu⟩, (h.closed hd).2⟩ }
  | prepare =>
    obtain rfl := Option.some.inj hs
    exact { h with underWay := fun b hb => { h.underWay b hb with } }
  | startRecording =>
    rcases startRecording_cases hs with rfl | ⟨hconnected, hactive, rfl⟩
    · exact h
    · exact h.begin hconnected hactive
  | feed channels ts =>
    obtain rfl := Option.some.inj hs
    exact h.feed channels ts
  | txTimeout =>
    simp only [Recorder.step] at hs
    split at hs
    next due hdue =>
      obtain ⟨hle, hs⟩ := Option.ite_none_right_eq_some.mp hs
      obtain rfl := Option.some.inj hs
      exact h.timeout hdue hle
    next => cases hs
  | deferred =>
    simp only [Recorder.step] at hs
    split at hs
    next take rest hdeferred =>
      obtain rfl := Option.some.inj hs
      exact h.exportTake hdeferred
    next => cases hs
  -- what is sent and what comes in do not touch the take of the sender
  | send =>
    obtain ⟨-, hs⟩ := Option.ite_none_left_eq_some.mp hs
    obtain rfl := Option.some.inj hs
    exact { h with underWay := fun b hb => { h.underWay b hb with } }
  | mark frameTs =>
    obtain ⟨-, hs⟩ := Option.ite_none_left_eq_some.mp hs
    obtain rfl := Option.some.inj hs
    rcases mark_cases s frameTs with hs | ⟨startedAt, -, -, hs⟩
    · rw [hs]
      exact h
    · rw [hs]
      exact { h with underWay := fun b hb => { h.underWay b hb with } }
  | dispatch frame =>
    obtain ⟨-, hs⟩ := Option.ite_none_left_eq_some.mp hs
    obtain rfl := Option.some.inj hs
    rcases dispatch_cases s frame with hs | ⟨-, -, hs⟩
    · rw [hs]
      exact h
    · rw [hs]
      exact { h with underWay := fun b hb => { h.underWay b hb with } }
  | rxTimeout =>
    simp only [Recorder.step] at hs
    split at hs
    next due hdue =>
      obtain ⟨-, hs⟩ := Option.ite_none_right_eq_some.mp hs
      obtain rfl := Option.some.inj hs
      exact h.rxTimeout
    next => cases hs
  | destroy =>
    obtain rfl := Option.some.inj hs
    exact h.destroy

/-! ### The flag -/

/-- A packet sent in the ten and a quarter seconds after a start is flagged, and no packet is
but in these and the length of a frame. -/
def Flagged (starts : List ℕ) (packet : ℕ × Bool) : Prop :=
  ((∃ at' ∈ starts, at' < packet.1 ∧ packet.1 < at' + ms 10250) → packet.2 = true) ∧
    (packet.2 = true → ∃ at' ∈ starts, at' ≤ packet.1 ∧ packet.1 < at' + ms 10310)

/-- A flagged packet is only taken note of when it is not the node's own recording. -/
structure Foreign (s : State α) (mark : ℕ × ℤ) : Prop where
  le_now : mark.1 ≤ s.now
  starts : ∀ at' ∈ s.starts, at' < mark.1 → at' + ms 10750 ≤ mark.1
  current : ∀ b ∈ s.current, mark.1 ≤ b.startedAt
  takes : ∀ e ∈ s.takes, mark.1 ≤ e.startedAt ∨ e.endedAt ≤ mark.1

/-- The latch that flags what is sent. -/
structure LatchOk (s : State α) : Prop where
  starts_le : ∀ at' ∈ s.starts, at' ≤ s.now
  on : s.destroyed = false → ∀ at' ∈ s.starts, at' + ms 10250 ≤ s.txRecEmitUntil
  off : s.txRecEmitUntil = 0 ∨ ∃ at' ∈ s.starts, s.txRecEmitUntil ≤ at' + ms 10310
  packets : ∀ packet ∈ s.packets, packet.1 ≤ s.now ∧ Flagged s.starts packet
  marked : ∀ mark ∈ s.marked, Foreign s mark

theorem LatchOk.begin (h : LatchOk s) (hsize : 0 < s.frameSize ∧ s.frameSize ≤ 2880)
    (txRec : TxRec α) (txRecTimeout : Option ℕ) :
    LatchOk { s with
      txRec := txRec
      txRecEmitUntil := s.now + ms (recDurationMs s.frameSize + txRecEmitHangoverMs)
      txRecTimeout := txRecTimeout
      starts := s.starts ++ [s.now]
      current := some ⟨s.now, s.frameSize, s.fed.length⟩ } := by
  have hduration := recDurationMs_bounds hsize
  have hmem : ∀ at' ∈ s.starts ++ [s.now], at' ≤ s.now := by
    intro at' hat
    rcases List.mem_append.mp hat with hat | hat
    · exact h.starts_le at' hat
    · exact (List.mem_singleton.mp hat).le
  refine ⟨hmem, fun _ at' hat => ?_, Or.inr ⟨s.now, by simp, ?_⟩, fun packet hp => ?_,
    fun mark hm => ?_⟩
  -- the latch covers every start so far
  · have hle := hmem at' hat
    simp only [ms, txRecEmitHangoverMs]
    omega
  · simp only [ms, txRecEmitHangoverMs]
    omega
  -- packets sent before the new start are judged by the old ones
  · obtain ⟨hle, hon, hoff⟩ := h.packets packet hp
    refine ⟨hle, ?_, fun hflag => ?_⟩
    · rintro ⟨at', hat, hlt, hwindow⟩
      rcases List.mem_append.mp hat with hat | hat
      · exact hon ⟨at', hat, hlt, hwindow⟩
      · rw [List.mem_singleton.mp hat] at hlt
        exact absurd hle (not_le.mpr hlt)
    · obtain ⟨at', hat, hwindow⟩ := hoff hflag
      exact ⟨at', List.mem_append_left _ hat, hwindow⟩
  · have hmark := h.marked mark hm
    refine { hmark with starts := fun at' hat hlt => ?_, current := fun b hb => ?_ }
    · rcases List.mem_append.mp hat with hat | hat
      · exact hmark.starts at' hat hlt
      · rw [List.mem_singleton.mp hat] at hlt
        exact absurd hmark.le_now (not_le.mpr hlt)
    · obtain rfl := Option.some.inj hb
      exact hmark.le_now

/-- Ending a recording does not touch the latch. -/
theorem LatchOk.endRecording (h : LatchOk s) : LatchOk s.endRecording :=
  { h with
    marked := fun mark hm => { h.marked mark hm with
      current := fun b hb => by cases hb
      takes := fun e he => by
        rcases List.mem_append.mp he with he | he
        · exact (h.marked mark hm).takes e he
        · obtain ⟨b, hb, rfl⟩ := Option.map_eq_some_iff.mp (Option.mem_toList.mp he)
          exact Or.inl ((h.marked mark hm).current b hb) } }

/-- A frame is encoded. -/
theorem LatchOk.feed (h : LatchOk s) (channels : Channel → Option (List α)) (ts : ℤ) :
    LatchOk (s.encodePlanarFrame silence channels ts) := by
  have hmoved : ∀ (fed : List (RecordedFrame α)) (txRec : TxRec α) (txRecTimeout : Option ℕ),
      LatchOk { s with fed, txRec, txRecTimeout } := fun _ _ _ =>
    { h with marked := fun mark hm => { h.marked mark hm with } }
  rcases feed_cases silence s channels ts with
    hs | ⟨copy, ⟨-, hs⟩ | ⟨-, -, hs⟩ | ⟨-, -, hs⟩⟩
  · rw [hs]
    exact h
  · rw [hs]
    exact hmoved _ _ _
  · rw [hs]
    exact hmoved _ _ _
  · rw [hs]
    exact (hmoved _ _ _).endRecording

/-- A flagged packet arrives. -/
theorem LatchOk.mark (h : LatchOk s) (htx : TxOk s) (hdestroyed : s.destroyed = false)
    (frameTs : ℤ) : LatchOk (s.markRxRecording frameTs) := by
  rcases mark_cases s frameTs with hs | ⟨startedAt, hactive, hlatch, hs⟩
  · rw [hs]
    exact h
  · rw [hs]
    refine { h with marked := fun mark hm => ?_ }
    rcases List.mem_append.mp hm with hm | hm
    · exact { h.marked mark hm with }
    · rw [List.mem_singleton.mp hm]
      exact {
        le_now := Nat.le_refl _
        starts := fun at' hat _ => by
          have hon := h.on hdestroyed at' hat
          simp only [ms] at hon hlatch ⊢
          omega
        current := fun b hb => by
          rw [htx.active, show s.current = some b from hb] at hactive
          cases hactive
        takes := fun e he => Or.inr (htx.exact e he).2 }

theorem LatchOk.send (h : LatchOk s) (hdestroyed : s.destroyed = false) :
    LatchOk { s with packets := s.packets ++ [(s.now, decide (s.now < s.txRecEmitUntil))] } := by
  refine { h with
    packets := fun packet hp => ?_
    marked := fun mark hm => { h.marked mark hm with } }
  rcases List.mem_append.mp hp with hp | hp
  · exact h.packets packet hp
  · rw [List.mem_singleton.mp hp]
    refine ⟨Nat.le_refl _, ?_, fun hflag => ?_⟩
    · rintro ⟨at', hat, -, hwindow⟩
      exact decide_eq_true (hwindow.trans_le (h.on hdestroyed at' hat))
    · have hlt := of_decide_eq_true hflag
      rcases h.off with hzero | ⟨at', hat, hle⟩
      · rw [hzero] at hlt
        cases hlt
      · exact ⟨at', hat, h.starts_le at' hat, hlt.trans_le hle⟩

/-- **The flag is on** for as long as it should be. -/
theorem LatchOk.step (h : LatchOk s) (htx : TxOk s) {a : Action α}
    (hs : step silence s a = some s') : LatchOk s' := by
  cases a with
  -- time passes, and what was stamped before now stays so
  | wait dt =>
    obtain rfl := Option.some.inj hs
    exact { h with
      starts_le := fun at' hat => (h.starts_le at' hat).trans (Nat.le_add_right _ _)
      packets := fun packet hp =>
        ⟨(h.packets packet hp).1.trans (Nat.le_add_right _ _), (h.packets packet hp).2⟩
      marked := fun mark hm => { h.marked mark hm with
        le_now := (h.marked mark hm).le_now.trans (Nat.le_add_right _ _) } }
  | setFrameSize n =>
    obtain rfl := Option.some.inj hs
    unfold State.setFrameSize
    split
    · exact h
    · split
      · exact h
      · exact { h with marked := fun mark hm => { h.marked mark hm with } }
  | connected up =>
    obtain ⟨-, hs⟩ := Option.ite_none_left_eq_some.mp hs
    obtain rfl := Option.some.inj hs
    exact { h with marked := fun mark hm => { h.marked mark hm with } }
  | prepare =>
    obtain rfl := Option.some.inj hs
    exact { h with marked := fun mark hm => { h.marked mark hm with } }
  | startRecording =>
    rcases startRecording_cases hs with rfl | ⟨-, -, rfl⟩
    · exact h
    · exact h.begin htx.size _ _
  | feed channels ts =>
    obtain rfl := Option.some.inj hs
    exact h.feed channels ts
  | txTimeout =>
    simp only [Recorder.step] at hs
    split at hs
    next due hdue =>
      obtain ⟨-, hs⟩ := Option.ite_none_right_eq_some.mp hs
      obtain rfl := Option.some.inj hs
      -- the timer is gone before the take is ended
      have hmoved : LatchOk { s with txRecTimeout := none } :=
        { h with marked := fun mark hm => { h.marked mark hm with } }
      rw [htx.timeout_eq hdue]
      exact hmoved.endRecording
    next => cases hs
  | deferred =>
    simp only [Recorder.step] at hs
    split at hs
    · obtain rfl := Option.some.inj hs
      exact { h with marked := fun mark hm => { h.marked mark hm with } }
    · cases hs
  | send =>
    obtain ⟨hdestroyed, hs⟩ := Option.ite_none_left_eq_some.mp hs
    obtain rfl := Option.some.inj hs
    exact h.send (by simpa using hdestroyed)
  | mark frameTs =>
    obtain ⟨hguard, hs⟩ := Option.ite_none_left_eq_some.mp hs
    obtain rfl := Option.some.inj hs
    rw [Bool.or_eq_true, not_or, Bool.not_eq_true] at hguard
    exact h.mark htx hguard.1 frameTs
  -- the receiver's own take: nothing of the latch
  | dispatch frame =>
    obtain ⟨-, hs⟩ := Option.ite_none_left_eq_some.mp hs
    obtain rfl := Option.some.inj hs
    rcases dispatch_cases s frame with hs | ⟨-, -, hs⟩
    · rw [hs]
      exact h
    · rw [hs]
      exact { h with marked := fun mark hm => { h.marked mark hm with } }
  | rxTimeout =>
    simp only [Recorder.step] at hs
    split at hs
    · obtain ⟨-, hs⟩ := Option.ite_none_right_eq_some.mp hs
      obtain rfl := Option.some.inj hs
      exact { h with marked := fun mark hm => { h.marked mark hm with } }
    · cases hs
  | destroy =>
    obtain rfl := Option.some.inj hs
    unfold State.destroy
    split
    · exact h
    · exact { h with
        -- a destroyed node latches nothing, and its marks belong to no take under way
        on := fun hd => Bool.noConfusion hd
        off := Or.inl rfl
        marked := fun mark hm => { h.marked mark hm with current := fun b hb => by cases hb } }

/-! ### The receiver's side -/

/-- The receiver's recordings. -/
structure RxOk (s : State α) : Prop where
  timer : s.rxRecTimer = none ↔ s.rxRecFrames = []
  closed : s.destroyed = true → s.rxRecTimer = none
  copied : ∃ lost, (s.destroyed = false → lost = []) ∧
    (exportsOf .rx s.exported).flatMap Take.frames ++ s.rxRecFrames ++ lost = s.copied
  nonempty : ∀ take ∈ exportsOf .rx s.exported, take.frames ≠ []
  completed : s.completed.count .rx = (exportsOf .rx s.exported).length
  set : ∀ ts ∈ s.rxRecSet, ∃ mark ∈ s.marked, mark.2 = ts
  flagged : ∀ frame ∈ s.copied, ∃ mark ∈ s.marked, mark.2 = frame.ts

/-- The sender's side does not touch the receiver's. -/
theorem RxOk.feed (h : RxOk s) (channels : Channel → Option (List α)) (ts : ℤ) :
    RxOk (s.encodePlanarFrame silence channels ts) := by
  rcases feed_cases silence s channels ts with
    hs | ⟨copy, ⟨-, hs⟩ | ⟨-, -, hs⟩ | ⟨-, -, hs⟩⟩
  · rw [hs]
    exact h
  · rw [hs]
    exact { h with }
  · rw [hs]
    exact { h with }
  · rw [hs]
    exact { h with }

theorem RxOk.exportTake (h : RxOk s) (take : Take α) (rest : List (Take α)) :
    RxOk (s.exportTake take rest) := by
  have hexports : exportsOf .rx (s.exportTake take rest).exported = exportsOf .rx s.exported := by
    show exportsOf .rx (if 0 < take.frames.length then s.exported ++ [(.tx, take)]
      else s.exported) = _
    split
    · rw [exportsOf_append]
      exact List.append_nil _
    · rfl
  refine { h with
    copied := ?_
    nonempty := ?_
    completed := ?_ }
  · rw [hexports]
    exact h.copied
  · rw [hexports]
    exact h.nonempty
  · rw [hexports]
    show (s.completed ++ [Side.tx]).count Side.rx = _
    rw [List.count_append, h.completed]
    rfl

theorem RxOk.mark (h : RxOk s) (frameTs : ℤ) : RxOk (s.markRxRecording frameTs) := by
  rcases mark_cases s frameTs with hs | ⟨startedAt, -, -, hs⟩
  · rw [hs]
    exact h
  · rw [hs]
    refine { h with set := fun ts hts => ?_, flagged := fun frame hframe => ?_ }
    · rcases List.mem_cons.mp hts with rfl | hts
      · exact ⟨(s.now, ts), by simp, rfl⟩
      · obtain ⟨mark, hm, heq⟩ := h.set ts (List.mem_filter.mp hts).1
        exact ⟨mark, List.mem_append_left _ hm, heq⟩
    · obtain ⟨mark, hm, heq⟩ := h.flagged frame hframe
      exact ⟨mark, List.mem_append_left _ hm, heq⟩

/-- A flagged frame is played. -/
theorem RxOk.dispatch (h : RxOk s) (hdestroyed : s.destroyed = false) (frame : RecordedFrame α) :
    RxOk (s.dispatchFrame frame) := by
  rcases dispatch_cases s frame with hs | ⟨-, hset, hs⟩
  · rw [hs]
    exact h
  · rw [hs]
    refine { h with
      timer := by
        show some _ = none ↔ s.rxRecFrames ++ [frame] = []
        simp
      closed := fun hd => ?_
      copied := ?_
      set := fun ts hts => h.set ts (List.mem_filter.mp hts).1
      flagged := fun f hf => ?_ }
    · rw [show s.destroyed = true from hd] at hdestroyed
      cases hdestroyed
    · obtain ⟨lost, hlost, hcopied⟩ := h.copied
      refine ⟨[], fun _ => rfl, ?_⟩
      rw [hlost hdestroyed, List.append_nil] at hcopied
      show _ ++ (s.rxRecFrames ++ [frame]) ++ [] = s.copied ++ [frame]
      rw [List.append_nil, ← List.append_assoc, hcopied]
    · rcases List.mem_append.mp hf with hf | hf
      · exact h.flagged f hf
      · rw [List.mem_singleton.mp hf]
        exact h.set frame.ts hset

/-- The timer only fires when there is something to export. -/
theorem RxOk.timeout (h : RxOk s) {due : ℕ} (hdue : s.rxRecTimer = some due) :
    RxOk s.rxTimeout := by
  -- the timer is set only while frames are collected
  have hframes : s.rxRecFrames ≠ [] := by
    intro hnil
    rw [h.timer.mpr hnil] at hdue
    cases hdue
  have hdestroyed : s.destroyed = false := by
    by_contra hd
    rw [h.closed (by simpa using hd)] at hdue
    cases hdue
  have hexports : exportsOf .rx s.rxTimeout.exported
      = exportsOf .rx s.exported ++ [⟨s.rxRecFrames, s.rxRecStartedAt⟩] := by
    show exportsOf .rx (if 0 < s.rxRecFrames.length then _ else s.exported) = _
    rw [if_pos (List.length_pos_iff.mpr hframes), exportsOf_append]
    rfl
  refine { h with
    timer := ⟨fun _ => rfl, fun _ => rfl⟩
    closed := fun _ => rfl
    copied := ?_
    nonempty := fun take ht => ?_
    completed := ?_
    set := fun ts hts => by cases hts }
  -- what was collected goes to the export, and nothing is lost while the node lives
  · obtain ⟨lost, hlost, hcopied⟩ := h.copied
    refine ⟨[], fun _ => rfl, ?_⟩
    rw [hlost hdestroyed, List.append_nil] at hcopied
    rw [hexports, List.flatMap_append]
    show (exportsOf .rx s.exported).flatMap Take.frames ++ (s.rxRecFrames ++ []) ++ [] ++ []
      = s.copied
    rw [List.append_nil, List.append_nil, List.append_nil, hcopied]
  · rw [hexports] at ht
    rcases List.mem_append.mp ht with ht | ht
    · exact h.nonempty take ht
    · rw [List.mem_singleton.mp ht]
      exact hframes
  · rw [hexports, List.length_append]
    show (s.completed ++ [Side.rx]).count Side.rx = _
    rw [List.count_append, h.completed]
    rfl

theorem RxOk.destroy (h : RxOk s) : RxOk s.destroy := by
  unfold State.destroy
  split
  · exact h
  next hdestroyed =>
    refine { h with
      timer := ⟨fun _ => rfl, fun _ => rfl⟩
      closed := fun _ => rfl
      copied := ?_
      set := fun ts hts => by cases hts }
    obtain ⟨lost, hlost, hcopied⟩ := h.copied
    rw [hlost (by simpa using hdestroyed), List.append_nil] at hcopied
    refine ⟨s.rxRecFrames, fun hd => Bool.noConfusion hd, ?_⟩
    show (exportsOf .rx s.exported).flatMap Take.frames ++ [] ++ s.rxRecFrames = s.copied
    rw [List.append_nil, hcopied]

/-- **The receiver's recordings** come out right whatever happens. -/
theorem RxOk.step (h : RxOk s) (htx : TxOk s) {a : Action α} (hs : step silence s a = some s') :
    RxOk s' := by
  cases a with
  -- the sender's steps leave the take of the receiver alone
  | wait | prepare =>
    obtain rfl := Option.some.inj hs
    exact { h with }
  | setFrameSize n =>
    obtain rfl := Option.some.inj hs
    unfold State.setFrameSize
    split
    · exact h
    · split
      · exact h
      · exact { h with }
  | connected up =>
    obtain ⟨-, hs⟩ := Option.ite_none_left_eq_some.mp hs
    obtain rfl := Option.some.inj hs
    exact { h with }
  | startRecording =>
    rcases startRecording_cases hs with rfl | ⟨-, -, rfl⟩
    · exact h
    · exact { h with }
  | feed channels ts =>
    obtain rfl := Option.some.inj hs
    exact h.feed channels ts
  | txTimeout =>
    simp only [Recorder.step] at hs
    split at hs
    next due hdue =>
      obtain ⟨-, hs⟩ := Option.ite_none_right_eq_some.mp hs
      obtain rfl := Option.some.inj hs
      rw [htx.timeout_eq hdue]
      exact { h with }
    next => cases hs
  | deferred =>
    simp only [Recorder.step] at hs
    split at hs
    · obtain rfl := Option.some.inj hs
      exact h.exportTake _ _
    · cases hs
  | send =>
    obtain ⟨-, hs⟩ := Option.ite_none_left_eq_some.mp hs
    obtain rfl := Option.some.inj hs
    exact { h with }
  -- a marked packet opens the take; the frames posted fill it; its timer closes it
  | mark frameTs =>
    obtain ⟨-, hs⟩ := Option.ite_none_left_eq_some.mp hs
    obtain rfl := Option.some.inj hs
    exact h.mark frameTs
  | dispatch frame =>
    obtain ⟨hdestroyed, hs⟩ := Option.ite_none_left_eq_some.mp hs
    obtain rfl := Option.some.inj hs
    exact h.dispatch (by simpa using hdestroyed) frame
  | rxTimeout =>
    simp only [Recorder.step] at hs
    split at hs
    next due hdue =>
      obtain ⟨-, hs⟩ := Option.ite_none_right_eq_some.mp hs
      obtain rfl := Option.some.inj hs
      exact h.timeout hdue
    next => cases hs
  | destroy =>
    obtain rfl := Option.some.inj hs
    exact h.destroy

/-! ### Every run -/

/-- What a node has recorded.  Each recording of the sender's ends once, in the order they
were started, and is exported unless it is empty; a recording that `destroy` cuts off is
lost.  The receiver's exports are the flagged frames played, each once and in order. -/
structure Recorded (s : State α) : Prop where
  exact : ∀ e ∈ s.takes, Exact s.fed e
  apart : s.takes.Pairwise Ended.Before
  starts : s.destroyed = false → s.starts = s.takes.map (fun e => e.startedAt)
    ++ (s.current.map fun b => b.startedAt).toList
  /-- the recording under way is going to end -/
  armed : ∀ b ∈ s.current,
    s.txRecTimeout = some (b.startedAt + ms (recDurationMs b.frameSize + 1000))
  exports : ∃ done, s.takes.map Ended.take = done ++ s.deferred ∧
    exportsOf .tx s.exported = done.filter (fun take => 0 < take.frames.length) ∧
    s.completed.count .tx = done.length
  packets : ∀ packet ∈ s.packets, Flagged s.starts packet
  foreign : ∀ mark ∈ s.marked, Foreign s mark
  flagged : ∀ frame ∈ s.copied, ∃ mark ∈ s.marked, mark.2 = frame.ts
  copied : s.destroyed = false →
    (exportsOf .rx s.exported).flatMap Take.frames ++ s.rxRecFrames = s.copied
  nonempty : ∀ take ∈ exportsOf .rx s.exported, take.frames ≠ []
  completed : s.completed.count .rx = (exportsOf .rx s.exported).length

end AmbiRTC.Recorder
