/-
AmbiRTC/DownlinkTimeline.lean

The room's timeline at the browser (client/engine.js `_acceptInOrder`, `_onDcMessage`,
`_onBundle`, `_onDecoderOutput`, `_flushFrame`), which compares timestamps as numbers.

A stream of whole frames passes both gates on every channel, and is posted, just if
it ends before the wrap and no assembly timer is early (`through_iff`): a timer that
finds its frame in the ring has to find the oldest one there, with its packets come in
on all channels.
-/
import AmbiRTC.DownlinkAssembly
import AmbiRTC.DownlinkStream

namespace AmbiRTC.Downlink

open Assembly Runs Receiver

variable {α : Type}

/-! ### Sessions -/

namespace State

/-- No decoder is 64 chunks behind. -/
def Roomy (s : State α) : Prop :=
  ∀ c, (s.receiver.submitted c).length < (s.outputs c).length + tsQueueCapacity

/-- The decoders have given back all they were given. -/
def Drained (s : State α) : Prop := ∀ c, (s.outputs c).length = (s.receiver.submitted c).length

/-- The first `n` frames of the timeline have passed the gates on every channel, and
been posted, in order. -/
structure Through (s : State α) (t₀ : UInt32) (frameSize n : ℕ) : Prop where
  accepted : ∀ c, s.accepted c = stamps t₀ frameSize n
  posted : s.receiver.rx.posted.map Message.timestamp
    = (stamps t₀ frameSize n).map fun frameTs => (frameTs.toNat : ℤ)

end State

/-- A timer that finds its frame in the ring finds the oldest one there, and every
decoder has been given that frame, or a later one. -/
def Harmless (cfg : Config α) (s : State α) : Action α → Prop
  | .timeout id => ∀ frameTs, s.receiver.rx.ending cfg (.timeout id) = some frameTs →
    Rx.Oldest s.receiver.rx frameTs ∧ ∀ c, frameTs ≤ s.receiver.lastDecodedTs c
  | _ => True

/-- No timer finds its frame in the ring. -/
def Quiet (cfg : Config α) (s : State α) : Action α → Prop
  | .timeout id => s.receiver.rx.ending cfg (.timeout id) = none
  | _ => True

variable {cfg : Config α} {s s' : State α} {a : Action α} {t₀ : UInt32} {frameSize : ℕ}
  {quiet : Prop}

/-- The state of a session while frame `k` comes in: each decoder has been given the
frames before `k`, and `k` itself or not yet.  The first `m` have been given to all, and
posted; of the others, what the decoders have given back is in the ring. -/
structure Follows (quiet : Prop) (cfg : Config α) (t₀ : UInt32) (k : ℕ) (s : State α) : Prop where
  sound : Sound cfg s
  front : ∀ c, k ≤ (s.receiver.submitted c).length ∧ (s.receiver.submitted c).length ≤ k + 1
  accepted : ∀ c, s.accepted c = stamps t₀ cfg.frameSize (s.receiver.submitted c).length
  last : ∀ c, s.receiver.lastDecodedTs c = lastAt cfg t₀.toNat (s.receiver.submitted c).length
  queue : ∀ c, s.receiver.rx.tsQueues c
    = ((List.range (s.receiver.submitted c).length).drop (s.outputs c).length).map
      fun j => t₀.toNat + j * cfg.frameSize
  outputs_le : ∀ c, (s.outputs c).length ≤ (s.receiver.submitted c).length
  collecting : ∃ m, (∀ c, m ≤ (s.receiver.submitted c).length) ∧
    Collecting quiet cfg t₀.toNat m s.outputs s.receiver.rx

variable {k : ℕ}

/-- When all channels have frame `k`, the next one may come. -/
theorem Follows.next (h : Follows quiet cfg t₀ k s)
    (hall : ∀ c, (s.receiver.submitted c).length = k + 1) : Follows quiet cfg t₀ (k + 1) s :=
  { h with front := fun c => ⟨(hall c).ge, (hall c).le.trans (Nat.le_succ _)⟩ }

/-- A packet of frame `k` skips a channel, or gives it the frame, which it did not
have. -/
theorem Follows.channel (h : Follows quiet cfg t₀ k s) {r : Receiver α} {frameTs : UInt32}
    (hts : (frameTs.toNat : ℤ) = frameAt cfg t₀.toNat k) (htook : Took frameTs s.receiver r)
    (c : Channel) : Skips s.receiver r c ∨
      Takes frameTs s.receiver r c ∧ (s.receiver.submitted c).length = k ∧
        (r.submitted c).length = k + 1 := by
  rcases htook.channel c with hskip | htake
  · exact Or.inl hskip
  have hlen : (s.receiver.submitted c).length = k := by
    have hnew := htake.new
    rw [h.last c, hts] at hnew
    have hfront := h.front c
    by_contra hne
    have hfull : (s.receiver.submitted c).length = k + 1 := by omega
    rw [hfull] at hnew
    exact lt_irrefl _ hnew
  refine Or.inr ⟨htake, hlen, ?_⟩
  obtain ⟨data, hdata⟩ := htake.submitted
  rw [hdata, List.length_append, hlen, List.length_singleton]

/-- A channel that is given frame `k` queues its timestamp. -/
theorem Follows.queue_takes (h : Follows quiet cfg t₀ k s) {r : Receiver α} {frameTs : UInt32}
    (hts : frameTs.toNat = t₀.toNat + k * cfg.frameSize) (hroom : s.Roomy) {c : Channel}
    (htake : Takes frameTs s.receiver r c) (hold : (s.receiver.submitted c).length = k) :
    r.rx.tsQueues c = ((List.range (k + 1)).drop (s.outputs c).length).map
      fun j => t₀.toNat + j * cfg.frameSize := by
  have hle := h.outputs_le c
  have hlt := hroom c
  rw [htake.queue, h.queue c, hts, hold, List.range_succ,
    List.drop_append_of_le_length (by rw [List.length_range, ← hold]; exact hle), List.map_append]
  · rfl
  · rw [h.queue c, List.length_map, List.length_drop, List.length_range]
    omega

/-- The channels of a packet of frame `k` have got to it: the frame is later than the
last one flushed, or all channels have it. -/
theorem Follows.reaches (h : Follows quiet cfg t₀ k s) (hpos : 0 < cfg.frameSize) {r : Receiver α}
    {frameTs : UInt32} (hts : (frameTs.toNat : ℤ) = frameAt cfg t₀.toNat k)
    {channels : List Channel} (hhandled : Handled frameTs channels s.receiver r) {c : Channel}
    (hc : c ∈ channels) : frameAt cfg t₀.toNat k ≤ r.lastDecodedTs c := by
  obtain ⟨m, hgiven, hcollecting⟩ := h.collecting
  rcases Nat.lt_or_ge k m with hdone | hnotyet
  · have hfull : (s.receiver.submitted c).length = k + 1 := by
      have := hgiven c
      have := h.front c
      omega
    have hle := hhandled.took.last_le c
    rw [h.last c, hfull] at hle
    exact hle
  · rw [← hts]
    refine hhandled.all ?_ c hc
    rw [hcollecting.flushed, hts]
    exact lastAt_lt hpos hnotyet

/-- **A packet of frame `k`** gives each of its channels that frame, if it does not
have it yet. -/
theorem Follows.message (h : Follows quiet cfg t₀ k s) (hpos : 0 < cfg.frameSize)
    (hk : t₀.toNat + k * cfg.frameSize < 2 ^ 32) (hroom : s.Roomy) {buf : List UInt8} {p : Packet}
    (hp : readPacket buf = some p) (hts : p.frameTs = mixTsAt t₀ cfg.frameSize k) :
    Follows quiet cfg t₀ k { s with receiver := s.receiver.onDcMessage buf } ∧
      (∀ c ∈ p.channels, ((s.receiver.onDcMessage buf).submitted c).length = k + 1) ∧
      ∀ c, (s.receiver.submitted c).length ≤ ((s.receiver.onDcMessage buf).submitted c).length := by
  obtain ⟨hhandled, hsound⟩ := h.sound.message hp
  have hnum : p.frameTs.toNat = t₀.toNat + k * cfg.frameSize := by
    rw [hts, toNat_mixTsAt hk]
  have hint : (p.frameTs.toNat : ℤ) = frameAt cfg t₀.toNat k := by
    rw [hnum]
    rfl
  generalize s.receiver.onDcMessage buf = r at hhandled hsound ⊢
  have hsame := hhandled.took.same
  have hchannel := h.channel hint hhandled.took
  have hgrows : ∀ c, (s.receiver.submitted c).length ≤ (r.submitted c).length := by
    intro c
    rcases hchannel c with hskip | ⟨-, hold, hnew⟩
    · rw [hskip.submitted]
    · omega
  -- a channel the packet does not bring stays where it is; one it brings moves by a frame
  have hlast : ∀ c, r.lastDecodedTs c = lastAt cfg t₀.toNat (r.submitted c).length := by
    intro c
    rcases hchannel c with hskip | ⟨htake, -, hnew⟩
    · rw [hskip.last, hskip.submitted, h.last c]
    · rw [htake.last, hint, hnew]
      rfl
  have hfront : ∀ c, k ≤ (r.submitted c).length ∧ (r.submitted c).length ≤ k + 1 := by
    intro c
    rcases hchannel c with hskip | ⟨-, -, hnew⟩
    · rw [hskip.submitted]
      exact h.front c
    · omega
  obtain ⟨m, hgiven, hcollecting⟩ := h.collecting
  refine ⟨⟨hsound, hfront, fun c => ?_, hlast, fun c => ?_, fun c => (h.outputs_le c).trans
    (hgrows c), m, fun c => (hgiven c).trans (hgrows c), hcollecting.same hsame⟩, fun c hc => ?_,
    hgrows⟩
  · show (r.submitted c).map Chunk.frameTs = _
    rcases hchannel c with hskip | ⟨htake, hold, hnew⟩
    · rw [hskip.submitted]
      exact h.accepted c
    · rw [accepted_takes htake, h.accepted c, hnew, stamps_succ, hold, hts]
  · show r.rx.tsQueues c = _
    rcases hchannel c with hskip | ⟨htake, hold, hnew⟩
    · rw [hskip.queue, hskip.submitted]
      exact h.queue c
    · rw [hnew]
      exact h.queue_takes hnum hroom htake hold
  -- a channel of the packet that has not moved would be beyond the packet
  · have hreached := h.reaches hpos hint hhandled hc
    by_contra hne
    have hlen : (r.submitted c).length = k := by
      have := hfront c
      omega
    rw [hlast c, hlen] at hreached
    exact absurd (lastAt_lt hpos le_rfl) (not_lt.mpr hreached)

/-- No decoder is a turn of the ring behind. -/
theorem Follows.window (h : Follows quiet cfg t₀ k s) (hroom : s.Roomy) {m : ℕ}
    (hcollecting : Collecting quiet cfg t₀.toNat m s.outputs s.receiver.rx) :
    k < m + 64 ∧ ∀ d, (s.outputs d).length ≤ m + 64 := by
  obtain ⟨c, hc⟩ := hcollecting.behind
  have hbehind := hroom c
  have hfront := h.front c
  unfold tsQueueCapacity at hbehind
  refine ⟨by omega, fun d => ?_⟩
  have := h.outputs_le d
  have := h.front d
  omega

/-- **An output of a decoder.** -/
theorem Follows.output (h : Follows quiet cfg t₀ k s) (hpos : 0 < cfg.frameSize) (hroom : s.Roomy)
    {c : Channel} (hpending : (s.outputs c).length < (s.receiver.submitted c).length)
    (audioData : List α) :
    Follows quiet cfg t₀ k {
      receiver := { s.receiver with rx := s.receiver.rx.onDecoderOutput cfg c audioData }
      outputs := given s.outputs c audioData } := by
  obtain ⟨m, hgiven, hcollecting⟩ := h.collecting
  have hsound := h.sound.output c audioData (given s.outputs c audioData)
  -- the timestamp read is that of the frame
  have hqueue := h.queue c
  rw [List.drop_eq_getElem_cons (by rwa [List.length_range]), List.getElem_range,
    List.map_cons] at hqueue
  generalize hrest : (List.drop _ _).map (fun j => t₀.toNat + j * cfg.frameSize) = rest at hqueue
  have hshift : s.receiver.rx.shiftDecoderTimestamp c
      = ({ s.receiver.rx with tsQueues := Function.update s.receiver.rx.tsQueues c rest },
        frameAt cfg t₀.toNat (s.outputs c).length) := by
    unfold Rx.shiftDecoderTimestamp
    rw [hqueue]
    rfl
  have hle : ∀ d, (given s.outputs c audioData d).length ≤ (s.receiver.submitted d).length := by
    intro d
    rcases eq_or_ne d c with rfl | hne
    · rw [length_given_self]
      exact hpending
    · rw [length_given_ne hne]
      exact h.outputs_le d
  obtain ⟨hnear, hwindow⟩ := h.window hroom hcollecting
  refine ⟨hsound, h.front, h.accepted, h.last, fun d => ?_, hle, ?_⟩
  · show (s.receiver.rx.onDecoderOutput cfg c audioData).tsQueues d = _
    rw [Rx.tsQueues_onDecoderOutput, hshift]
    show Function.update _ c _ d = _
    rcases eq_or_ne d c with rfl | hne
    · rw [Function.update_self, length_given_self, hrest]
    · rw [Function.update_of_ne hne, length_given_ne hne]
      exact h.queue d
  · obtain ⟨decoded, earlier, hvalid⟩ := h.sound.valid
    have hheard : Rx.Heard cfg _ c _ audioData _ := hvalid.tidy.heard c audioData
    rw [hshift] at hheard
    have hsame : Rx.Same s.receiver.rx (s.receiver.rx.shiftDecoderTimestamp c).1 := Rx.same_shift
    rw [hshift] at hsame
    have hfront := h.front c
    obtain ⟨m', hcollecting', hm'⟩ :=
      (hcollecting.same hsame).heard hpos hwindow (by omega) hheard hsound.valid
    refine ⟨m', fun d => ?_, hcollecting'⟩
    rcases hm' with rfl | hall
    · exact hgiven d
    · exact (hall d).trans (hle d)

/-! ### Timers -/

theorem tsQueues_fire {b : Assembly.Action α} (hb : (∃ id, b = .timeout id) ∨ b = .recorded)
    (h : s.fire cfg b = some s') : s'.receiver.rx.tsQueues = s.receiver.rx.tsQueues := by
  obtain ⟨t, ht, rfl⟩ := Option.map_eq_some_iff.mp h
  rcases hb with ⟨id, rfl⟩ | rfl
  · simp only [Assembly.step] at ht
    split at ht
    · obtain rfl := Option.some.inj ht
      exact Rx.tsQueues_flush
    · cases ht
  · obtain ⟨-, heq⟩ := Option.ite_none_right_eq_some.mp ht
    obtain rfl := Option.some.inj heq
    rfl

/-- After a timer, when the frames collected are known. -/
theorem Follows.fired (h : Follows quiet cfg t₀ k s) {b : Assembly.Action α}
    (hb : (∃ id, b = .timeout id) ∨ b = .recorded) (hfire : s.fire cfg b = some s')
    (hcollecting : ∃ m, (∀ c, m ≤ (s.receiver.submitted c).length) ∧
      Collecting quiet cfg t₀.toNat m s.outputs s'.receiver.rx) : Follows quiet cfg t₀ k s' := by
  have hsound := h.sound.fire hb hfire
  have hqueues := tsQueues_fire hb hfire
  obtain ⟨t, -, rfl⟩ := Option.map_eq_some_iff.mp hfire
  exact ⟨hsound, h.front, h.accepted, h.last,
    fun c => (congrFun hqueues c).trans (h.queue c), h.outputs_le, hcollecting⟩

/-- **The recording timer.** -/
theorem Follows.recorded (h : Follows quiet cfg t₀ k s) (hstep : step cfg s .recorded = some s') :
    Follows quiet cfg t₀ k s' := by
  refine h.fired (Or.inr rfl) hstep ?_
  obtain ⟨t, ht, rfl⟩ := Option.map_eq_some_iff.mp hstep
  obtain ⟨decoded, earlier, hvalid⟩ := h.sound.valid
  obtain ⟨m, hgiven, hcollecting⟩ := h.collecting
  cases hvalid.tidy.step_cases (s := ⟨s.receiver.rx, [], []⟩) ht with
  | recorded hsame => exact ⟨m, hgiven, hcollecting.same hsame⟩

/-- What an assembly timer does: nothing, or it flushes its frame. -/
theorem Sound.timer (hs : Sound cfg s) {id : ℕ}
    (hstep : Downlink.step cfg s (.timeout id) = some s') :
    (s.receiver.rx.ending cfg (.timeout id) = none ∧ Rx.Same s.receiver.rx s'.receiver.rx) ∨
      ∃ q rx, s.receiver.rx.ending cfg (.timeout id) = some (rx.slots q).frameTs ∧
        rx.frameRing (Rx.ringIdx cfg (rx.slots q).frameTs) = some q ∧ Rx.Same s.receiver.rx rx ∧
        Rx.Flushed cfg rx (rx.slots q).frameTs s'.receiver.rx := by
  obtain ⟨t, ht, rfl⟩ := Option.map_eq_some_iff.mp hstep
  obtain ⟨decoded, earlier, hvalid⟩ := hs.valid
  have htidy : Rx.Tidy (Assembly.State.mk s.receiver.rx [] []).rx := hvalid.tidy
  rcases timeout_cases htidy ht with hnone | ⟨q, rx, hsome, hcell, hsame, hflush⟩
  · exact Or.inl hnone
  · refine Or.inr ⟨q, rx, ?_⟩
    rw [hsame.slots, hsame.ring]
    exact ⟨hsome, hcell, hsame, hflush⟩

/-- **An assembly timer** that is not early. -/
theorem Follows.timeout (h : Follows quiet cfg t₀ k s) (hpos : 0 < cfg.frameSize)
    (hroom : s.Roomy) {id : ℕ} (hstep : step cfg s (.timeout id) = some s')
    (hharmless : Harmless cfg s (.timeout id)) (hquiet : quiet → Quiet cfg s (.timeout id)) :
    Follows quiet cfg t₀ k s' := by
  refine h.fired (Or.inl ⟨id, rfl⟩) hstep ?_
  obtain ⟨m, hgiven, hcollecting⟩ := h.collecting
  rcases h.sound.timer hstep with ⟨-, hsame⟩ | ⟨q, rx, hending, hcell, hsame, hflush⟩
  · exact ⟨m, hgiven, hcollecting.same hsame⟩
  obtain ⟨-, hwindow⟩ := h.window hroom hcollecting
  obtain ⟨holdest, hall⟩ := hharmless _ hending
  have hloud : ¬quiet := by
    intro hq
    have hnone : s.receiver.rx.ending cfg (.timeout id) = none := hquiet hq
    rw [hnone] at hending
    cases hending
  have hts := (hcollecting.same hsame).next_of_oldest hpos hwindow hcell (holdest.same hsame)
  refine ⟨m + 1, fun c => ?_, (hcollecting.same hsame).timedOut hpos hwindow hloud hcell hflush hts
    (h.sound.step hstep).valid⟩
  -- the decoder has been given frame `m`
  have hle := hall c
  rw [hts, h.last c] at hle
  by_contra hlt
  exact absurd (lastAt_lt hpos (Nat.le_of_lt_succ (not_le.mp hlt))) (not_lt.mpr hle)

/-- What is not a packet gives no decoder anything. -/
theorem Follows.other (h : Follows quiet cfg t₀ k s) (hpos : 0 < cfg.frameSize) (hroom : s.Roomy)
    (hharmless : Harmless cfg s a) (hquiet : quiet → Quiet cfg s a) (ha : a.arrival = none)
    (hstep : step cfg s a = some s') :
    Follows quiet cfg t₀ k s' ∧ s'.receiver.submitted = s.receiver.submitted := by
  cases a with
  | message buf => cases ha
  | output c audioData =>
    simp only [step] at hstep
    split at hstep
    case isTrue hpending =>
      obtain rfl := Option.some.inj hstep
      exact ⟨h.output hpos hroom hpending audioData, rfl⟩
    case isFalse => cases hstep
  | timeout id =>
    refine ⟨h.timeout hpos hroom hstep hharmless hquiet, ?_⟩
    obtain ⟨t, -, rfl⟩ := Option.map_eq_some_iff.mp hstep
    rfl
  | recorded =>
    refine ⟨h.recorded hstep, ?_⟩
    obtain ⟨t, -, rfl⟩ := Option.map_eq_some_iff.mp hstep
    rfl

/-- The packets of one frame, with outputs and timers between them. -/
theorem Follows.run (h : Follows quiet cfg t₀ k s) (hpos : 0 < cfg.frameSize) {as : List (Action α)}
    (hrun : Run (step cfg) s as s') (hroom : Throughout (step cfg) State.Roomy s as)
    (hharmless : Along (step cfg) (Harmless cfg) s as)
    (hquiet : quiet → Along (step cfg) (Quiet cfg) s as)
    (hk : ∀ buf ∈ arrivals as, t₀.toNat + k * cfg.frameSize < 2 ^ 32 ∧
      ∃ p, readPacket buf = some p ∧ p.frameTs = mixTsAt t₀ cfg.frameSize k) :
    Follows quiet cfg t₀ k s' ∧
      (∀ c, (s.receiver.submitted c).length ≤ (s'.receiver.submitted c).length) ∧
      (arrivals as = [] →
        ∀ c, (s'.receiver.submitted c).length = (s.receiver.submitted c).length) ∧
      ∀ buf ∈ arrivals as, ∀ p, readPacket buf = some p → ∀ c ∈ p.channels,
        (s'.receiver.submitted c).length = k + 1 := by
  induction hrun with
  | nil s => exact ⟨h, fun _ => le_rfl, fun _ _ => rfl, fun _ hbuf => (nomatch hbuf)⟩
  | @cons s s₁ s' a as ha hrest ih =>
    have hlater := fun h hk => ih h (hroom.tail ha) (hharmless.tail ha)
      (fun hq => (hquiet hq).tail ha) hk
    rcases harrival : a.arrival with - | buf
    -- no message: nothing is submitted
    · have hskip : arrivals (a :: as) = arrivals as := List.filterMap_cons_none harrival
      obtain ⟨hfollows, hsubmitted⟩ :=
        h.other hpos hroom.head hharmless.head (fun hq => (hquiet hq).head) harrival ha
      rw [hskip] at hk ⊢
      rw [← hsubmitted]
      exact hlater hfollows hk
    -- a packet of frame `k`
    · have hcons : arrivals (a :: as) = buf :: arrivals as := List.filterMap_cons_some harrival
      rw [hcons] at hk ⊢
      obtain ⟨hlow, p, hp, hts⟩ := hk buf List.mem_cons_self
      have hmessage : a = .message buf := by
        cases a with
        | message => exact congrArg _ (Option.some.inj harrival)
        | output | timeout | recorded => cases harrival
      subst hmessage
      obtain rfl := Option.some.inj ha
      obtain ⟨hfollows, hchannels, hgrows⟩ := h.message hpos hlow hroom.head hp hts
      obtain ⟨hend, hgrows', -, hall⟩ :=
        hlater hfollows fun buf' hbuf' => hk buf' (List.mem_cons_of_mem _ hbuf')
      refine ⟨hend, fun c => (hgrows c).trans (hgrows' c), fun hnil => (nomatch hnil), ?_⟩
      intro buf' hbuf' p' hp' c hc
      rcases List.mem_cons.mp hbuf' with rfl | hbuf'
      · obtain rfl := Option.some.inj (hp.symm.trans hp')
        have hge := hgrows' c
        have hle := (hend.front c).2
        have hnow := hchannels c hc
        simp only at hge
        omega
      · exact hall buf' hbuf' p' hp' c hc

/-- **A stream before the wrap**: all its frames are given to every decoder. -/
theorem Follows.stream (hpos : 0 < cfg.frameSize) {frames : List (List (List UInt8))}
    (hframes : ∀ i (hi : i < frames.length),
      Whole (mixTsAt t₀ cfg.frameSize (k + i)) (frames.get ⟨i, hi⟩))
    (hlow : ∀ i < k + frames.length, t₀.toNat + i * cfg.frameSize < 2 ^ 32)
    (h : Follows quiet cfg t₀ k s) (hall : ∀ c, (s.receiver.submitted c).length = k)
    {as : List (Action α)} (hrun : Run (step cfg) s as s')
    (hroom : Throughout (step cfg) State.Roomy s as)
    (hharmless : Along (step cfg) (Harmless cfg) s as)
    (hquiet : quiet → Along (step cfg) (Quiet cfg) s as)
    (harrivals : arrivals as = frames.flatten) : Follows quiet cfg t₀ (k + frames.length) s' ∧
      ∀ c, (s'.receiver.submitted c).length = k + frames.length := by
  induction frames generalizing k s as with
  -- messages have ended; outputs and timers may still come
  | nil =>
    obtain ⟨hend, -, hsame, -⟩ := h.run hpos hrun hroom hharmless hquiet fun buf hbuf => by
      rw [harrivals] at hbuf
      cases hbuf
    exact ⟨hend, fun c => (hsame harrivals c).trans (hall c)⟩
  | cons frame frames ih =>
    rw [List.flatten_cons] at harrivals
    obtain ⟨as₁, as₂, rfl, hfirst, hrest⟩ := List.filterMap_eq_append_iff.mp harrivals
    replace hfirst : arrivals as₁ = frame := hfirst
    obtain ⟨s₁, hrun₁, hrun₂⟩ := run_append_iff.mp hrun
    have hwhole : Whole (mixTsAt t₀ cfg.frameSize k) frame := hframes 0 (Nat.succ_pos _)
    obtain ⟨hend, -, -, htaken⟩ := h.run hpos hrun₁ hroom.prefix hharmless.prefix
      (fun hq => Along.prefix (hquiet hq)) fun buf hbuf =>
        ⟨hlow k (by rw [List.length_cons]; omega), hwhole.frameTs buf (hfirst ▸ hbuf)⟩
    -- after the packets of this frame every channel has taken it
    have hall₁ : ∀ c, (s₁.receiver.submitted c).length = k + 1 := by
      intro c
      obtain ⟨buf, hbuf, p, hp, hc⟩ := hwhole.channels c
      exact htaken buf (hfirst.symm ▸ hbuf) p hp c hc
    have hlater : ∀ i (hi : i < frames.length),
        Whole (mixTsAt t₀ cfg.frameSize (k + 1 + i)) (frames.get ⟨i, hi⟩) := by
      intro i hi
      have hnext := hframes (i + 1) (Nat.succ_lt_succ hi)
      rwa [show k + (i + 1) = k + 1 + i by omega] at hnext
    have hlength : k + (frame :: frames).length = k + 1 + frames.length := by
      rw [List.length_cons]
      omega
    rw [hlength] at hlow ⊢
    exact ih hlater hlow (hend.next hall₁) hall₁ hrun₂ (hroom.drop hrun₁) (hharmless.drop hrun₁)
      (fun hq => (hquiet hq).drop hrun₁) hrest

section Streams

variable {frames : List (List (List UInt8))} {as : List (Action α)}

/-- A stream that gets through does not wrap. -/
theorem State.Through.low (hlt : cfg.frameSize < 2 ^ 32)
    (hrun : Run (step cfg) (start cfg) as s) {n : ℕ} (hthrough : s.Through t₀ cfg.frameSize n) :
    ∀ i < n, t₀.toNat + i * cfg.frameSize < 2 ^ 32 := by
  have hsound : Sound cfg s := hrun.invariant (fun _ _ _ hs h => hs.step h) (sound_start cfg)
  refine lt_of_increasing hlt ?_
  rw [← hthrough.accepted 0]
  exact hsound.increasing 0

/-- All frames of a stream have been posted when the decoders have given them back. -/
theorem Follows.collected {n : ℕ} (h : Follows quiet cfg t₀ n s)
    (hall : ∀ c, (s.receiver.submitted c).length = n) (hdrained : s.Drained) :
    Collecting quiet cfg t₀.toNat n s.outputs s.receiver.rx := by
  obtain ⟨m, hgiven, hcollecting⟩ := h.collecting
  have hm : m = n := by
    obtain ⟨c, hc⟩ := hcollecting.behind
    rw [hdrained c, hall c] at hc
    exact ((hall c) ▸ hgiven c).antisymm hc
  rwa [hm] at hcollecting

end Streams

/-! ### Two streams -/

instance (s : State α) : Decidable s.Roomy := inferInstanceAs (Decidable (∀ _, _))

instance (s : State α) : Decidable s.Drained := inferInstanceAs (Decidable (∀ _, _))

instance (cfg : Config α) (s : State α) (a : Action α) : Decidable (Quiet cfg s a) :=
  match a with
  | .timeout id => inferInstanceAs (Decidable (s.receiver.rx.ending cfg (.timeout id) = none))
  | .message _ | .output _ _ | .recorded => isTrue trivial

/-- A bundle of all sixteen channels, with a byte for each. -/
def wholeBundle (frameTs : UInt32) : List UInt8 :=
  [0x10] ++ Words.putLeUInt32 frameTs ++ [0xff, 0xff] ++ List.replicate 15 1 ++ List.replicate 16 7

/-- A frame comes in and is decoded. -/
def oneFrame (frameTs : UInt32) : List (Action ℕ) :=
  .message (wholeBundle frameTs) :: (List.finRange 16).map fun c => .output c [7]

end AmbiRTC.Downlink
