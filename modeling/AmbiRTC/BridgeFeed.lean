/-
AmbiRTC/BridgeFeed.lean

From the audio driver to the page: the callback of a bridge cuts what the driver gives
into frames, stamps them and writes them as bytes, the event loop queues and broadcasts
them, and a page reads them again and feeds them to its encoders
(bridges/asio_ws_bridge.py and pipewire_ws_bridge.py `_audio_callback`, `_ws_handler`,
`_broadcaster`; client/app-mcu.js `startMediaPipeline`).  The callback runs in a thread of its
own; one turn of its loop is a step.

Samples are the four bytes of a float32.

Main results: `onmessage_serialise`, the bytes of a frame; `run_callbackLoop`, a call of the
callback as a run of turns; and `fed_captured`, the frames of a whole run.
-/
import AmbiRTC.Capture
import AmbiRTC.Words

namespace AmbiRTC.BridgeFeed

open Runs Words Reblock Capture Bridge

/-! ### The bytes of a frame -/

/-- A row of `_accum`. -/
def cells (row : Row UInt32) : List UInt32 := List.ofFn row

theorem length_cells (row : Row UInt32) : (cells row).length = 16 := List.length_ofFn

/-- The bytes of a frame: the header and the samples, row by row. -/
def serialise (blob : Blob (List (Row UInt32))) : List UInt8 :=
  toBytes 8 blob.ts
    ++ (blob.samples.flatMap cells).flatMap fun x => toBytes 4 x.toNat

/-! ### What the page reads -/

/-- `HEADER_BYTES` -/
def headerBytes : ℕ := 8

/-- `Number` of a `BigInt`: the nearest number with 53 bits, of two the even one. -/
def toNumber (n : ℕ) : ℕ :=
  let e := n.log2 - 52
  let q := n / 2 ^ e
  let r := n % 2 ^ e
  if 2 ^ e < 2 * r ∨ (2 ^ e = 2 * r ∧ q % 2 = 1) then (q + 1) * 2 ^ e else q * 2 ^ e

theorem toNumber_of_lt {n : ℕ} (h : n < 2 ^ 53) : toNumber n = n := by
  have hlog : n.log2 - 52 = 0 := by
    by_cases hn : n = 0
    · rw [hn]
      rfl
    · have := (Nat.log2_lt hn).mpr h
      omega
  simp [toNumber, hlog, Nat.mod_one]

/-- `src[i]`, of the `Float32Array` behind the header. -/
def float32At (data : List UInt8) (i : ℕ) : UInt32 :=
  UInt32.ofNat (ofBytes ((data.drop (headerBytes + 4 * i)).take 4))

/-- `localWsBridge.onmessage`: the arguments of `feedPlanarFrame`, or nothing for a
message of the wrong length. -/
def onmessage (bridgeFrameSize : ℕ) (data : List UInt8) : Option (ℕ × List (List UInt32)) :=
  if data.length ≠ headerBytes + bridgeFrameSize * 16 * 4 then none
  else some (toNumber (ofBytes (data.take headerBytes)),
    List.ofFn fun c : Fin CHANNELS => List.ofFn fun s : Fin bridgeFrameSize =>
      float32At data (s * 16 + c))

/-- The planes of a frame. -/
def planes (rows : List (Row UInt32)) : List (List UInt32) :=
  List.ofFn fun c : Fin CHANNELS => rows.map fun row => row c

/-- **The page reads what the bridge has written.** -/
theorem onmessage_serialise {F : ℕ} {blob : Blob (List (Row UInt32))}
    (hts : blob.ts < 2 ^ 53) (hlen : blob.samples.length = F) :
    onmessage F (serialise blob) = some (blob.ts, planes blob.samples) := by
  have hrows : ∀ row ∈ blob.samples, (cells row).length = 16 := fun row _ => length_cells row
  have hwords : (blob.samples.flatMap cells).length = F * 16 := by
    rw [length_flatMap_of_length _ hrows, hlen]
  have hbody := length_flatMap_of_length (f := fun x : UInt32 => toBytes 4 x.toNat)
    (blob.samples.flatMap cells) fun x _ => length_toBytes 4 x.toNat
  have hlength : (serialise blob).length = headerBytes + F * 16 * 4 := by
    rw [serialise, List.length_append, length_toBytes, hbody, hwords]
    rfl
  have hheader : (serialise blob).take headerBytes = toBytes 8 blob.ts :=
    List.take_left' (length_toBytes 8 blob.ts)
  have hsample : ∀ (c : Fin CHANNELS) (s : Fin F),
      float32At (serialise blob) (s * 16 + c) = blob.samples[s] c := by
    intro c s
    have hword : (blob.samples.flatMap cells)[s.val * 16 + c.val]?
        = some (blob.samples[s] c) := by
      have hrow : blob.samples[s.val]? = some blob.samples[s] :=
        List.getElem?_eq_getElem (by rw [hlen]; exact s.isLt)
      rw [getElem?_flatMap (n := 16) c.isLt _ _ hrows, hrow, Option.bind_some]
      exact List.getElem?_ofFn.trans (dif_pos c.isLt)
    rw [float32At, serialise, ← List.drop_drop, headerBytes,
      List.drop_left' (length_toBytes 8 blob.ts),
      take_drop_flatMap (fun x => length_toBytes 4 x.toNat) hword,
      ofBytes_toBytes (by exact UInt32.toNat_lt _)]
    exact UInt32.ofNat_toNat
  rw [onmessage, if_neg (not_not.mpr hlength), hheader,
    ofBytes_toBytes (hts.trans (by decide)), toNumber_of_lt hts]
  congr 2
  refine congrArg List.ofFn (funext fun c => ?_)
  refine List.ext_getElem (by rw [List.length_ofFn, List.length_map, hlen]) fun i hi hi' => ?_
  rw [List.getElem_ofFn, List.getElem_map]
  exact hsample c ⟨i, by simpa using hi⟩

/-! ### The bridge at work -/

/-- A bridge, and on the side all the rows the driver has given it. -/
structure State where
  callback : CallbackState UInt32
  captured : List (Row UInt32)

/-- A bridge that has just been started, with zeros in its buffer. -/
def start (F : ℕ) : State := ⟨@CallbackState.start UInt32 ⟨0⟩ F, []⟩

/-- What may happen next. -/
inductive Action where
  /-- a turn of the callback's loop, that copies some rows of its block -/
  | capture (rows : List (Row UInt32))
  /-- the event loop calls the oldest `_enqueue` -/
  | enqueue
  /-- `_broadcaster` dequeues and sends -/
  | broadcast
  | connect (c : ℕ)
  | disconnect (c : ℕ)

/-- What the event loop does. -/
def State.loop (F : ℕ) (s : State) (a : Bridge.Action (List (Row UInt32))) : Option State :=
  (Bridge.step F s.callback.bridge a).map fun bridge =>
    { s with callback := { s.callback with bridge := bridge } }

/-- One step. -/
def step (F : ℕ) (s : State) : Action → Option State
  | .capture rows =>
    if s.callback.accumFill + rows.length ≤ F then do
      let accum ← overwrite s.callback.accum rows s.callback.accumFill
      let callback ← CallbackState.finish F { s.callback with
        accum := accum, accumFill := s.callback.accumFill + rows.length }
      return ⟨callback, s.captured ++ rows⟩
    else none
  | .enqueue => s.loop F .enqueue
  | .broadcast => s.loop F .broadcast
  | .connect c => s.loop F (.connect c)
  | .disconnect c => s.loop F (.disconnect c)

/-- A first client finds no frame scheduled or queued. -/
def Quiet (s : State) : Action → Prop
  | .connect c => Bridge.Quiet s.callback.bridge (.connect c)
  | _ => True

variable {F k : ℕ} {s s' : State} {a : Action}

/-- A call of `_audio_callback` is so many turns. -/
theorem run_callbackLoop (block : List (Row UInt32)) {room offset : ℕ}
    {callback callback' : CallbackState UInt32} {captured : List (Row UInt32)}
    (hfill : callback.accumFill ≤ F)
    (h : CallbackState.callbackLoop F block room offset callback = some callback') :
    ∃ as, (∀ a ∈ as, ∃ rows, a = .capture rows) ∧
      Run (step F) ⟨callback, captured⟩ as ⟨callback', captured ++ block.drop offset⟩ := by
  have hdone : ∀ (captured : List (Row UInt32)) {offset}, ¬ offset < block.length →
      captured ++ block.drop offset = captured := fun captured offset h => by
    rw [List.drop_of_length_le (Nat.not_lt.mp h), List.append_nil]
  induction room generalizing offset callback captured with
  | zero =>
    obtain ⟨hoffset, h⟩ := Option.ite_none_left_eq_some.mp h
    obtain rfl := Option.some.inj h
    exact ⟨[], List.forall_mem_nil _, by rw [hdone captured hoffset]; exact .nil _⟩
  | succ room ih =>
    rw [CallbackState.callbackLoop] at h
    split at h
    next hoffset =>
      -- this turn copies `rows`, and the rest of the call is left to the induction
      obtain ⟨accum, haccum, h⟩ := Option.bind_eq_some_iff.mp h
      obtain ⟨callback₁, hfinish, h⟩ := Option.bind_eq_some_iff.mp h
      obtain ⟨n, hn⟩ : ∃ n, n = min (F - callback.accumFill) (block.length - offset) := ⟨_, rfl⟩
      obtain ⟨rows, hrows⟩ : ∃ rows, rows = (block.drop offset).take n := ⟨_, rfl⟩
      have hlen : rows.length = n := by
        rw [hrows, List.length_take, List.length_drop]
        omega
      have hfit : callback.accumFill + n ≤ F := by omega
      rw [← hn] at haccum hfinish h
      rw [← hrows] at haccum
      have hfill' : callback₁.accumFill ≤ F := by
        unfold CallbackState.finish at hfinish
        split at hfinish
        · obtain ⟨bridge, -, rfl⟩ := Option.map_eq_some_iff.mp hfinish
          exact Nat.zero_le F
        · obtain rfl := Option.some.inj hfinish
          exact hfit
      have hrest : captured ++ rows ++ block.drop (offset + n) = captured ++ block.drop offset := by
        rw [hrows, List.append_assoc, ← List.drop_drop, List.take_append_drop]
      obtain ⟨as, has, hrun⟩ : ∃ as, _ ∧ Run (step F) ⟨callback₁, captured ++ rows⟩ as _ :=
        ih hfill' h
      rw [hrest] at hrun
      refine ⟨.capture rows :: as, List.forall_mem_cons.mpr ⟨⟨rows, rfl⟩, has⟩, .cons ?_ hrun⟩
      rw [step, hlen, if_pos hfit, haccum]
      exact Option.bind_eq_some_iff.mpr
        ⟨accum, rfl, Option.bind_eq_some_iff.mpr ⟨callback₁, hfinish, rfl⟩⟩
    next hoffset =>
      obtain rfl := Option.some.inj h
      exact ⟨[], List.forall_mem_nil _, by rw [hdone captured hoffset]; exact .nil _⟩

/-! ### What the clients receive -/

/-- Frame `k + j` of what has been captured, stamped with the samples since frame `k`. -/
def Cut (F : ℕ) (xs : List (Row UInt32)) (k : ℕ) (b : Blob (List (Row UInt32))) : Prop :=
  ∃ j, k + j < xs.length / F ∧ b.ts = j * F ∧ b.samples = frame F xs (k + j)

theorem Cut.append {xs : List (Row UInt32)} {b : Blob (List (Row UInt32))} (h : Cut F xs k b)
    (ys : List (Row UInt32)) : Cut F (xs ++ ys) k b := by
  obtain ⟨j, hj, hts, hsamples⟩ := h
  refine ⟨j, hj.trans_le (Nat.div_le_div_right ?_), hts, ?_⟩
  · rw [List.length_append]
    exact Nat.le_add_right _ _
  · rw [hsamples, frame_append ys hj]

/-- The clock was last reset after frame `k`, and what has not got lost since is on its
way or has been received. -/
structure Since (F : ℕ) (s : State) (k : ℕ) : Prop where
  clock : k ≤ s.captured.length / F ∧
    s.callback.bridge.sampleClock = (s.captured.length / F - k) * F
  inFlight : ∀ b ∈ s.callback.bridge.queue ++ s.callback.bridge.scheduled, Cut F s.captured k b
  connected : ∀ c ∈ s.callback.bridge.clients, ∀ l, s.callback.bridge.received c = some l →
    ∀ b ∈ l, Cut F s.captured k b

/-- What holds in every run with quiet connections. -/
structure Sound (F : ℕ) (s : State) : Prop where
  holds : Reblock.Holds F s.captured s.callback.accum s.callback.accumFill
  timeline : Bridge.Inv s.callback.bridge
  since : ∃ k, Since F s k
  received : ∀ c l, s.callback.bridge.received c = some l → ∃ k, ∀ b ∈ l, Cut F s.captured k b

theorem sound_start (F : ℕ) : Sound F (start F) where
  holds := holds_zero List.length_replicate (Nat.zero_mod F)
  timeline := inv_start
  since := ⟨0, {
    clock := ⟨Nat.zero_le _, by simp [start, CallbackState.start, Bridge.start]⟩
    inFlight := fun _ hb => by cases hb
    connected := fun _ hc => by cases hc }⟩
  received := fun _ _ h => by cases h

/-- The driver's rows change nothing the clients have received. -/
theorem Sound.capture (hs : Sound F s) (hF : 0 < F) {rows : List (Row UInt32)}
    (h : step F s (.capture rows) = some s') : Sound F s' := by
  obtain ⟨hfit, h⟩ := Option.ite_none_right_eq_some.mp h
  obtain ⟨accum, haccum, h⟩ := Option.bind_eq_some_iff.mp h
  obtain ⟨callback, hfinish, h⟩ := Option.bind_eq_some_iff.mp h
  obtain rfl := Option.some.inj h
  obtain ⟨accum', haccum', hlen, htake⟩ := hs.holds.exists_overwrite hfit
  obtain rfl := Option.some.inj (haccum'.symm.trans haccum)
  obtain ⟨k, hk⟩ := hs.since
  have hfill := hs.holds.fill_eq
  have hreceived : ∀ c l, s.callback.bridge.received c = some l →
      ∃ k, ∀ b ∈ l, Cut F (s.captured ++ rows) k b := by
    intro c l hl
    obtain ⟨k, hcut⟩ := hs.received c l hl
    exact ⟨k, fun b hb => (hcut b hb).append rows⟩
  unfold CallbackState.finish at hfinish
  split at hfinish
  next hfull =>
    -- the frame is complete, and is the next one of the stream
    have hfull : s.callback.accumFill + rows.length = F := hfull
    obtain ⟨hdiv, hmod⟩ := count_of_eq hF (hfill ▸ hfull)
    rw [← List.length_append] at hdiv hmod
    obtain ⟨bridge, hbridge, rfl⟩ := Option.map_eq_some_iff.mp hfinish
    have hbridge : s.callback.bridge.frameComplete F accum' = some bridge := hbridge
    have htimeline := hs.timeline.kept hF (a := .complete accum') trivial hbridge
    obtain ⟨-, heq⟩ := Option.ite_none_right_eq_some.mp hbridge
    obtain rfl := Option.some.inj heq
    obtain ⟨hle, hclock⟩ := hk.clock
    refine ⟨holds_zero hlen hmod, htimeline, ⟨k, ⟨?_, ?_⟩, ?_, ?_⟩, hreceived⟩
    · exact hle.trans (by rw [hdiv]; exact Nat.le_succ _)
    · show s.callback.bridge.sampleClock + F = ((s.captured ++ rows).length / F - k) * F
      rw [hdiv, hclock, Nat.succ_sub hle, Nat.succ_mul]
    · intro b hb
      have hb : b ∈ (s.callback.bridge.queue ++ s.callback.bridge.scheduled)
          ++ [⟨s.callback.bridge.sampleClock, accum'⟩] := by
        rw [List.append_assoc]
        exact hb
      rcases List.mem_append.mp hb with hb | hb
      · exact (hk.inFlight b hb).append rows
      · obtain rfl := List.mem_singleton.mp hb
        refine ⟨s.captured.length / F - k, ?_, hclock, ?_⟩
        · rw [Nat.add_sub_cancel' hle, hdiv]
          exact Nat.lt_succ_self _
        · rw [Nat.add_sub_cancel' hle]
          exact (hs.holds.full_frame hlen htake hfull).symm
    · exact fun c hc l hl b hb => (hk.connected c hc l hl b hb).append rows
  next hroom =>
    have hroom : s.callback.accumFill + rows.length < F := lt_of_le_of_ne hfit hroom
    obtain ⟨hdiv, -⟩ := count_of_lt (hfill ▸ hroom)
    rw [← List.length_append] at hdiv
    obtain rfl := Option.some.inj hfinish
    exact ⟨hs.holds.partial_frame hlen htake hroom, hs.timeline,
      ⟨k, by rw [hdiv]; exact hk.clock, fun b hb => (hk.inFlight b hb).append rows,
        fun c hc l hl b hb => (hk.connected c hc l hl b hb).append rows⟩, hreceived⟩

/-- Frames may get lost on the way, and clients leave. -/
theorem Sound.of_less (hs : Sound F s) {bridge : AudioBridge (List (Row UInt32))}
    (htimeline : Bridge.Inv bridge)
    (hclock : bridge.sampleClock = s.callback.bridge.sampleClock)
    (hflight : (bridge.queue ++ bridge.scheduled).Sublist
      (s.callback.bridge.queue ++ s.callback.bridge.scheduled))
    (hclients : bridge.clients ⊆ s.callback.bridge.clients)
    (hreceived : bridge.received = s.callback.bridge.received) :
    Sound F { s with callback := { s.callback with bridge := bridge } } := by
  obtain ⟨k, hk⟩ := hs.since
  refine ⟨hs.holds, htimeline, ⟨k, ⟨?_, ?_, ?_⟩⟩, ?_⟩
  · show _ ∧ bridge.sampleClock = _
    rw [hclock]
    exact hk.clock
  · exact fun b hb => hk.inFlight b (hflight.subset hb)
  · intro c hc l hl
    exact hk.connected c (hclients hc) l (by rw [← hreceived]; exact hl)
  · intro c l hl
    exact hs.received c l (by rw [← hreceived]; exact hl)

theorem Sound.enqueue (hs : Sound F s) (hF : 0 < F) (h : step F s .enqueue = some s') :
    Sound F s' := by
  obtain ⟨bridge, hbridge, rfl⟩ := Option.map_eq_some_iff.mp h
  have htimeline := hs.timeline.kept hF (a := .enqueue) trivial hbridge
  simp only [Bridge.step] at hbridge
  split at hbridge
  next => cases hbridge
  next blob rest hscheduled =>
    obtain rfl := Option.some.inj hbridge
    obtain ⟨hclock, hrest, hclients, hreceived⟩ :=
      enqueue_frame { s.callback.bridge with scheduled := rest } blob
    refine hs.of_less htimeline hclock ?_ (by rw [hclients]; exact List.Subset.refl _) hreceived
    rw [hrest, hscheduled, List.append_cons]
    exact (enqueue_sublist { s.callback.bridge with scheduled := rest } blob).append_right rest

theorem Sound.disconnect (hs : Sound F s) (hF : 0 < F) {c : ℕ}
    (h : step F s (.disconnect c) = some s') : Sound F s' := by
  obtain ⟨bridge, hbridge, rfl⟩ := Option.map_eq_some_iff.mp h
  have htimeline := hs.timeline.kept hF (a := .disconnect c) trivial hbridge
  obtain ⟨-, heq⟩ := Option.ite_none_right_eq_some.mp hbridge
  obtain rfl := Option.some.inj heq
  exact hs.of_less htimeline rfl (List.Sublist.refl _) ((List.filter_subset_self _)) rfl

/-- A frame on its way is received by every client. -/
theorem Sound.broadcast (hs : Sound F s) (hF : 0 < F) (h : step F s .broadcast = some s') :
    Sound F s' := by
  obtain ⟨bridge, hbridge, rfl⟩ := Option.map_eq_some_iff.mp h
  have htimeline := hs.timeline.kept hF (a := .broadcast) trivial hbridge
  simp only [Bridge.step] at hbridge
  split at hbridge
  next => cases hbridge
  next blob rest hqueue =>
    obtain rfl := Option.some.inj hbridge
    obtain ⟨k, hk⟩ := hs.since
    have hblob : Cut F s.captured k blob :=
      hk.inFlight blob (by rw [hqueue]; exact List.mem_append_left _ List.mem_cons_self)
    have hconnected : ∀ c ∈ s.callback.bridge.clients, ∀ l,
        ({ s.callback.bridge with queue := rest }.broadcast blob).received c = some l →
          ∀ b ∈ l, Cut F s.captured k b := by
      intro c hc l hl b hb
      have hl : (s.callback.bridge.received c).map (fun l => l ++ [blob]) = some l :=
        (if_pos hc).symm.trans hl
      obtain ⟨l, hold, rfl⟩ := Option.map_eq_some_iff.mp hl
      rcases List.mem_append.mp hb with hb | hb
      · exact hk.connected c hc l hold b hb
      · obtain rfl := List.mem_singleton.mp hb
        exact hblob
    refine ⟨hs.holds, htimeline, ⟨k, hk.clock, fun b hb => hk.inFlight b ?_, hconnected⟩, ?_⟩
    · rw [hqueue]
      exact List.mem_cons_of_mem blob hb
    · intro c l hl
      by_cases hc : c ∈ s.callback.bridge.clients
      · exact ⟨k, hconnected c hc l hl⟩
      · exact hs.received c l ((if_neg hc).symm.trans hl)

/-- A first client finds nothing on its way, so the clock may be reset. -/
theorem Sound.connect (hs : Sound F s) (hF : 0 < F) {c : ℕ} (hquiet : Quiet s (.connect c))
    (h : step F s (.connect c) = some s') : Sound F s' := by
  obtain ⟨bridge, hbridge, rfl⟩ := Option.map_eq_some_iff.mp h
  have htimeline := hs.timeline.kept hF (a := .connect c) hquiet hbridge
  obtain ⟨-, heq⟩ := Option.ite_none_right_eq_some.mp hbridge
  obtain rfl := Option.some.inj heq
  obtain ⟨k, hk⟩ := hs.since
  -- the one who connects has received nothing; the others what they had
  have hnew : ∀ c' l, (s.callback.bridge.connect c).received c' = some l →
      l = [] ∨ c' ≠ c ∧ s.callback.bridge.received c' = some l := by
    intro c' l hl
    have hl : Function.update s.callback.bridge.received c (some []) c' = some l := by
      rw [← hl, AudioBridge.connect]
      split <;> rfl
    by_cases hc : c' = c
    · rw [hc, Function.update_self] at hl
      exact .inl (Option.some.inj hl).symm
    · rw [Function.update_of_ne hc] at hl
      exact .inr ⟨hc, hl⟩
  refine ⟨hs.holds, htimeline, ?_, fun c' l hl => ?_⟩
  · by_cases hclients : s.callback.bridge.clients = []
    · -- the clock starts again, at the next frame to be completed
      obtain ⟨hqueue, hscheduled⟩ := hquiet hclients
      have hstart : s.callback.bridge.connect c = { s.callback.bridge with
          sampleClock := 0, clients := [c]
          received := Function.update s.callback.bridge.received c (some []) } := by
        simp [AudioBridge.connect, hclients]
      refine ⟨s.captured.length / F, ⟨le_refl _, ?_⟩, fun b hb => ?_, fun c' hc' l hl b hb => ?_⟩
      · rw [hstart, Nat.sub_self, Nat.zero_mul]
      · rw [hstart] at hb
        change b ∈ s.callback.bridge.queue ++ s.callback.bridge.scheduled at hb
        rw [hqueue, hscheduled] at hb
        cases hb
      · rw [hstart] at hc'
        obtain rfl := List.mem_singleton.mp hc'
        rcases hnew c' l hl with rfl | ⟨hne, -⟩
        · cases hb
        · exact absurd rfl hne
    · -- for those who are connected nothing changes
      have hmore : s.callback.bridge.connect c = { s.callback.bridge with
          clients := c :: s.callback.bridge.clients
          received := Function.update s.callback.bridge.received c (some []) } := by
        simp [AudioBridge.connect, hclients]
      refine ⟨k, ?_, fun b hb => ?_, fun c' hc' l hl b hb => ?_⟩
      · rw [hmore]
        exact hk.clock
      · rw [hmore] at hb
        exact hk.inFlight b hb
      · rcases hnew c' l hl with rfl | ⟨hne, hold⟩
        · cases hb
        · rw [hmore] at hc'
          exact hk.connected c' (List.mem_of_ne_of_mem hne hc') l hold b hb
  -- somebody who is not connected keeps what was received while connected
  · rcases hnew c' l hl with rfl | ⟨-, hold⟩
    · exact ⟨k, fun _ hb => by cases hb⟩
    · exact hs.received c' l hold

/-- **One step.** -/
theorem Sound.step (hs : Sound F s) (hF : 0 < F) (hquiet : Quiet s a)
    (h : step F s a = some s') : Sound F s' := by
  cases a with
  | capture rows => exact hs.capture hF h
  | enqueue => exact hs.enqueue hF h
  | broadcast => exact hs.broadcast hF h
  | connect c => exact hs.connect hF hquiet h
  | disconnect c => exact hs.disconnect hF h

theorem Cut.onmessage {xs : List (Row UInt32)} {b : Blob (List (Row UInt32))} (h : Cut F xs k b)
    (hF : 0 < F) (hlong : xs.length ≤ 2 ^ 53) :
    ∃ j, k + j < xs.length / F ∧
      onmessage F (serialise b) = some (j * F, planes (frame F xs (k + j))) := by
  obtain ⟨j, hj, hts, hsamples⟩ := h
  have hend : (k + j + 1) * F ≤ xs.length :=
    (Nat.mul_le_mul_right F hj).trans (Nat.div_mul_le_self _ _)
  have hlen : b.samples.length = F := by
    rw [Nat.add_mul, Nat.one_mul] at hend
    rw [hsamples, frame, List.length_take, List.length_drop]
    omega
  have hsmall : b.ts < 2 ^ 53 := by
    rw [Nat.add_mul, Nat.add_mul, Nat.one_mul] at hend
    omega
  exact ⟨j, hj, by rw [onmessage_serialise hsmall hlen, hts, hsamples]⟩

/-- **What a page feeds its encoders.**  In every run in which a first client finds
nothing on its way: what a client has received is in order, and the page reads each of it
as a frame of what has been captured, all stamped with their distance from one of them. -/
theorem fed_captured (hF : F ∈ validFrameSizes) {as : List Action}
    (hrun : Run (step F) (start F) as s) (hquiet : Along (step F) Quiet (start F) as)
    (hlong : s.captured.length ≤ 2 ^ 53) {c : ℕ} {l : List (Blob (List (Row UInt32)))}
    (hl : s.callback.bridge.received c = some l) :
    Increasing l ∧ ∃ k, ∀ b ∈ l, ∃ j, k + j < s.captured.length / F ∧
      onmessage F (serialise b) = some (j * F, planes (frame F s.captured (k + j))) := by
  have hpos : 0 < F := by
    revert hF
    simp only [validFrameSizes, List.mem_cons, List.not_mem_nil, or_false]
    omega
  have hs : Sound F s := hrun.invariant_of_along
    (fun _ _ _ hs hP h => hs.step hpos hP h) hquiet (sound_start F)
  obtain ⟨k, hcut⟩ := hs.received c l hl
  exact ⟨hs.timeline.timeline c l hl, k, fun b hb => (hcut b hb).onmessage hpos hlong⟩

/-- Some rows. -/
def someRows (n : ℕ) : List (Row UInt32) := List.replicate n fun c => UInt32.ofNat c.val

/-- A client connects when a frame has been broadcast to nobody; a second one
joins it later. -/
def joinsLater : List Action :=
  [.capture (someRows 120), .enqueue, .broadcast, .connect 0, .capture (someRows 100),
    .capture (someRows 20), .enqueue, .broadcast, .connect 1, .capture (someRows 120),
    .capture (someRows 30), .enqueue, .broadcast]

/-- `Quiet`, computed. -/
def quiet (s : State) : Action → Bool
  | .connect c => Bridge.quiet s.callback.bridge (.connect c)
  | _ => true

theorem quiet_of_quiet (s : State) (a : Action) (h : quiet s a = true) : Quiet s a := by
  cases a with
  | connect c => exact Bridge.quiet_of_quiet s.callback.bridge (.connect c) h
  | _ => trivial

/-- The first receives the second and the third frame, with the timestamps 0 and 120. -/
theorem fed_captured_joinsLater : ∃ s b₁ b₂, Run (step 120) (start 120) joinsLater s ∧
    s.callback.bridge.received 0 = some [b₁, b₂] ∧ b₁.ts = 0 ∧ b₂.ts = 120 ∧
    s.captured.length = 390 ∧
    ∃ k, ∀ b ∈ [b₁, b₂], ∃ j, k + j < 3 ∧
      onmessage 120 (serialise b) = some (j * 120, planes (frame 120 s.captured (k + j))) := by
  obtain ⟨s, hs, h⟩ := (Option.any_eq_true _ _).mp
    (by decide +kernel : (exec (step 120) (start 120) joinsLater).any fun s =>
      s.captured.length = 390 ∧
        (s.callback.bridge.received 0).map (fun l => l.map fun b => b.ts) = some [0, 120])
  rw [decide_eq_true_eq] at h
  obtain ⟨hlength, hreceived⟩ := h
  obtain ⟨l, hl, hts⟩ := Option.map_eq_some_iff.mp hreceived
  obtain ⟨b₁, l, rfl, hfirst, hts⟩ := List.map_eq_cons_iff.mp hts
  obtain ⟨b₂, rfl, hsecond⟩ := List.map_eq_singleton_iff.mp hts
  have hquiet : Along (step 120) Quiet (start 120) joinsLater :=
    along_of_check quiet_of_quiet (by decide +kernel)
  obtain ⟨-, k, hfed⟩ := fed_captured (by decide) (Run.of_exec hs) hquiet (by rw [hlength]; decide)
    hl
  rw [hlength] at hfed
  exact ⟨s, b₁, b₂, Run.of_exec hs, hl, hfirst, hsecond, hlength, k, hfed⟩

end AmbiRTC.BridgeFeed
