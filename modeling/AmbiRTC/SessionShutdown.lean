/-
AmbiRTC/SessionShutdown.lean

Shutting a session down (mcu/internal/session/pipeline.go, session.go `Close`).
Every goroutine of the session returns when it sees at one of its `select`s that
`done` is closed, and may take whatever else is ready there instead.  `encodeDispatcher`
has a second `select`, at which it hands a frame to a worker: the worker may have
returned, and its queue be full.  `Close` closes `done` and waits for all of them.

The session is its input side and its encode pipeline together, with the goroutines that
have not returned.  The callbacks of the DataChannel, and the room with `SubmitMix` and
`ReadInputFrame`, are not goroutines of the session.

Main result: `close_returns`, in every interleaving of the goroutines: `wg.Wait` returns,
and no frame is lost track of on the way.
-/
import AmbiRTC.PipelineDrain
import AmbiRTC.PipelineOwnership
import AmbiRTC.UplinkIntegrity

namespace AmbiRTC

namespace Shutdown

open DropOldest Runs

variable {A D : Type} {K : ℕ}

/-! ### Goroutines -/

/-- The goroutines `startPipeline` launches. -/
inductive Goroutine (K : ℕ) where
  | decodeLoop
  | encodeDispatcher
  | encodeWorker (w : Fin K)
  | sendLoop
  | statsLoop
  deriving DecidableEq

namespace Goroutine

/-- All of them. -/
def all (K : ℕ) : Finset (Goroutine K) :=
  {decodeLoop, encodeDispatcher, sendLoop, statsLoop}
    ∪ Finset.univ.map ⟨encodeWorker, fun _ _ h => encodeWorker.inj h⟩

/-- As many as `startPipeline` adds to the wait group. -/
theorem card_all (K : ℕ) : (all K).card = 4 + K := by
  rw [all, Finset.card_union_of_disjoint, Finset.card_map, Finset.card_univ, Fintype.card_fin]
  · rfl
  · simp [Finset.disjoint_left]

end Goroutine

/-- Whose step it is, if a goroutine's of the session. -/
def inputOwner : Ingress.Action → Option (Goroutine K)
  | .receive | .decode => some .decodeLoop
  | .message _ _ | .push | .read _ => none

/-- Whose step it is, if a goroutine's of the session. -/
def pipeOwner (a : Pipeline.Action A K) : Option (Goroutine K) :=
  match a.worker, a with
  | some w, _ => some (.encodeWorker w)
  | none, .dispatch | none, .sendJob => some .encodeDispatcher
  | none, .transmit | none, .discard => some .sendLoop
  | none, _ => none

/-! ### The session -/

/-- A session that is being shut down. -/
structure State (A D : Type) (K : ℕ) where
  input : Ingress.State D
  pipe : Pipeline.State A K
  /-- whether `s.done` is closed -/
  done : Bool
  /-- the goroutines that have not returned -/
  running : Finset (Goroutine K)
  wg : ℕ

/-- A session whose pipeline has just been started. -/
def start (cfg : Pipeline.Config A) (decoder : D) (jb : JitterBuffer) : State A D K where
  input := Ingress.start decoder jb
  pipe := Pipeline.initial cfg
  done := false
  running := Goroutine.all K
  wg := 4 + K

/-- The goroutine is at a `select` with a case for `done`. -/
def State.Selecting (s : State A D K) : Goroutine K → Prop
  | .decodeLoop => s.input.taken = none
  | .encodeWorker w => s.pipe.workers w = .idle
  -- the dispatcher also while it is fanning out, and a step of `sendLoop` is a whole turn
  | .encodeDispatcher | .sendLoop | .statsLoop => True

instance (wk : Pipeline.Worker) : Decidable (wk = .idle) :=
  match wk with
  | .idle => .isTrue rfl
  | .encoding _ _ | .bundling _ _ | .pushing _ _ _ _ | .releasing _ => .isFalse fun h => by cases h

instance (s : State A D K) (g : Goroutine K) : Decidable (s.Selecting g) :=
  match g with
  | .decodeLoop => inferInstanceAs (Decidable (s.input.taken = none))
  | .encodeWorker w => inferInstanceAs (Decidable (s.pipe.workers w = .idle))
  | .encodeDispatcher | .sendLoop | .statsLoop => .isTrue trivial

/-- What may happen next. -/
inductive Action (A : Type) (K : ℕ) where
  | input (a : Ingress.Action)
  | pipe (a : Pipeline.Action A K)
  /-- `Close` closes `done` -/
  | closeDone
  /-- a goroutine sees `done` and returns -/
  | ret (g : Goroutine K)

/-- The step's goroutine, if it is one of the session, has not returned. -/
def State.Runs (s : State A D K) (owner : Option (Goroutine K)) : Prop := ∀ g ∈ owner, g ∈ s.running

instance (s : State A D K) (owner : Option (Goroutine K)) : Decidable (s.Runs owner) :=
  match owner with
  | none => .isTrue fun g hg => by cases hg
  | some g => decidable_of_iff (g ∈ s.running)
      ⟨fun h g' hg' => Option.some.inj hg' ▸ h, fun h => h g rfl⟩

variable (cfg : Pipeline.Config A) (decode : D → List UInt8 → D × Option (List Int16))

/-- One step of a goroutine, of a callback, of the room or of `Close`.  What `statsLoop`
sends over the signaling socket and logs is left out: the calls are taken to return. -/
def step (s : State A D K) : Action A K → Option (State A D K)
  | .input a =>
    if s.Runs (inputOwner a) then (Ingress.step decode s.input a).map fun input => { s with input }
    else none
  | .pipe a =>
    if s.Runs (pipeOwner a) then (Pipeline.step cfg s.pipe a).map fun pipe => { s with pipe }
    else none
  | .closeDone => if s.done then none else some { s with done := true }
  | .ret g =>
    if s.done ∧ g ∈ s.running ∧ s.Selecting g then
      some { s with running := s.running.erase g, wg := s.wg - 1 }
    else none

/-! ### The work that is left -/

/-- For what the callback has still to push, the first of it being at `stage`. -/
def pushingWork (stage : Stage) : List InboundPkt → ℕ
  | [] => 0
  | _ :: rest => stage.left + 2 + 5 * rest.length

/-- At the input side: for what is still to be pushed, and what is still to be decoded. -/
def inputWork (s : Ingress.State D) : ℕ :=
  2 * s.inbound.length + s.taken.elim 0 (fun _ => 1) + pushingWork s.stage s.pushing

/-- In the session; a goroutine that has not returned can still do so. -/
def State.work (s : State A D K) : ℕ := inputWork s.input + s.pipe.work cfg + s.running.card

/-- The session is called from outside: a message comes in, or the mix clock reads or
submits. -/
def Action.Calls : Action A K → Prop
  | .input (.message _ _) | .input (.read _) => True
  | .pipe a => a.Submits
  | _ => False

variable {cfg decode} {s s' : State A D K} {a : Action A K}

theorem inputWork_lt {input input' : Ingress.State D} {a : Ingress.Action}
    (ha : ¬(Action.input a : Action A K).Calls) (h : Ingress.step decode input a = some input') :
    inputWork input' < inputWork input := by
  cases a with
  | message | read => exact absurd trivial ha
  | push =>
    simp only [Ingress.step] at h
    split at h
    · cases h
    next p rest hpushing =>
      obtain rfl := Option.some.inj h
      have hspends := push_spends Queues.inboundCap input.inbound p input.stage (Nat.zero_le 2)
      have hbefore : inputWork input = 2 * input.inbound.length + input.taken.elim 0 (fun _ => 1)
          + (input.stage.left + 2 + 5 * rest.length) := by
        rw [inputWork, hpushing]
        rfl
      rw [hbefore]
      simp only [inputWork, Ingress.State.push]
      generalize push Queues.inboundCap input.inbound p input.stage = pushed at hspends
      obtain ⟨queue, next, dropped⟩ := pushed
      cases next with
      | some stage =>
        simp only [Option.isSome_some, if_true, Option.getD_some, pushingWork]
        simp only [Option.elim_some] at hspends
        omega
      | none =>
        -- the next packet takes as long as one further down the list
        have hrest : pushingWork .attempt rest = 5 * rest.length := by
          cases rest with
          | nil => rfl
          | cons q rest =>
            simp only [pushingWork, Stage.left, List.length_cons]
            omega
        simp only [Option.isSome_none, Bool.false_eq_true, if_false, Option.getD_none, hrest]
        simp only [Option.elim_none] at hspends
        omega
  | receive =>
    simp only [Ingress.step] at h
    split at h
    next p rest htaken hinbound =>
      obtain rfl := Option.some.inj h
      simp only [inputWork, htaken, hinbound, List.length_cons, Option.elim]
      omega
    · cases h
  | decode =>
    obtain ⟨p, htaken, h⟩ := Option.bind_eq_some_iff.mp h
    obtain ⟨d, -, rfl⟩ := Option.map_eq_some_iff.mp h
    simp only [inputWork, htaken, Option.elim]
    omega

/-- **Every step uses up work**, but for a call from outside. -/
theorem work_lt (hdone : s.done = true) (ha : ¬a.Calls) (h : step cfg decode s a = some s') :
    s'.done = true ∧ s'.work cfg < s.work cfg := by
  cases a with
  | input a =>
    obtain ⟨-, h⟩ := Option.ite_none_right_eq_some.mp h
    obtain ⟨input, hinput, rfl⟩ := Option.map_eq_some_iff.mp h
    exact ⟨hdone, Nat.add_lt_add_right (Nat.add_lt_add_right (inputWork_lt ha hinput) _) _⟩
  | pipe a =>
    obtain ⟨-, h⟩ := Option.ite_none_right_eq_some.mp h
    obtain ⟨pipe, hpipe, rfl⟩ := Option.map_eq_some_iff.mp h
    exact ⟨hdone, Nat.add_lt_add_right (Nat.add_lt_add_left (Pipeline.work_lt hpipe ha) _) _⟩
  | closeDone =>
    rw [step, if_pos hdone] at h
    cases h
  | ret g =>
    obtain ⟨⟨-, hg, -⟩, h⟩ := Option.ite_none_right_eq_some.mp h
    obtain rfl := Option.some.inj h
    exact ⟨hdone, Nat.add_lt_add_left (Finset.card_erase_lt_of_mem hg) _⟩

/-! ### What holds all along -/

/-- The invariant. -/
structure Sound (cfg : Pipeline.Config A) (s : State A D K) : Prop where
  jb : s.input.decode.jb.Sound
  pipe : s.pipe.Ok cfg.bundled
  within : s.pipe.dispatcher.Within K
  wg : s.wg = s.running.card

theorem sound_start (cfg : Pipeline.Config A) (decoder : D) {jb : JitterBuffer} (h : jb.Sound) :
    Sound cfg (start cfg decoder jb : State A D K) where
  jb := h
  pipe := Pipeline.ok_initial cfg
  within := trivial
  wg := (Goroutine.card_all K).symm

/-- The jitter buffer stays sound. -/
theorem jb_sound {input input' : Ingress.State D} {a : Ingress.Action}
    (hs : input.decode.jb.Sound) (h : Ingress.step decode input a = some input') :
    input'.decode.jb.Sound := by
  cases a with
  | message now data =>
    simp only [Ingress.step] at h
    split at h
    · obtain ⟨u, -, rfl⟩ := Option.map_eq_some_iff.mp h
      exact hs
    · cases h
  | push =>
    simp only [Ingress.step] at h
    split at h
    · cases h
    · obtain rfl := Option.some.inj h
      exact hs
  | receive =>
    simp only [Ingress.step] at h
    split at h
    · obtain rfl := Option.some.inj h
      exact hs
    · cases h
  | decode =>
    obtain ⟨p, -, h⟩ := Option.bind_eq_some_iff.mp h
    obtain ⟨d, hd, rfl⟩ := Option.map_eq_some_iff.mp h
    exact Decode.sound_step (a := .packet p) hs hd
  | read out =>
    obtain ⟨d, hd, rfl⟩ := Option.map_eq_some_iff.mp h
    exact Decode.sound_step hs hd

theorem sound_step (hK : 0 < K) (hs : Sound cfg s) (h : step cfg decode s a = some s') :
    Sound cfg s' := by
  cases a with
  | input a =>
    obtain ⟨-, h⟩ := Option.ite_none_right_eq_some.mp h
    obtain ⟨input, hinput, rfl⟩ := Option.map_eq_some_iff.mp h
    exact { hs with jb := jb_sound hs.jb hinput }
  | pipe a =>
    obtain ⟨-, h⟩ := Option.ite_none_right_eq_some.mp h
    obtain ⟨pipe, hpipe, rfl⟩ := Option.map_eq_some_iff.mp h
    have hstep := Pipeline.step_cases hpipe
    exact { hs with
      pipe := Pipeline.ok_step hK hs.pipe hstep
      within := Pipeline.within_step hK hs.within hstep }
  | closeDone =>
    obtain ⟨-, h⟩ := Option.ite_none_left_eq_some.mp h
    obtain rfl := Option.some.inj h
    exact { hs with }
  | ret g =>
    obtain ⟨⟨-, hg, -⟩, h⟩ := Option.ite_none_right_eq_some.mp h
    obtain rfl := Option.some.inj h
    exact { hs with wg := (congrArg (· - 1) hs.wg).trans (Finset.card_erase_of_mem hg).symm }

/-! ### All have returned -/

/-- What the goroutines, and calls from outside that have begun, do by themselves. -/
def Action.Works : Action A K → Prop
  | .input (.message _ _) | .input (.read _) | .closeDone => False
  | .pipe a => a.Works
  | _ => True

/-- No goroutine can go on, and no call from outside. -/
def Stuck (cfg : Pipeline.Config A) (decode : D → List UInt8 → D × Option (List Int16))
    (s : State A D K) : Prop :=
  ∀ a : Action A K, a.Works → step cfg decode s a = none

/-- `decodeLoop` never waits but at its `select`. -/
theorem decode_ready (hs : Sound cfg s) (htaken : s.input.taken ≠ none)
    (hrunning : Goroutine.decodeLoop ∈ s.running) :
    step cfg decode s (.input .decode) ≠ none := by
  obtain ⟨p, hp⟩ := Option.ne_none_iff_exists'.mp htaken
  obtain ⟨d, hd, -⟩ := @Decode.decodePacket_spec _ decode _ hs.jb p
  have hruns : s.Runs (inputOwner .decode) := fun g hg => Option.some.inj hg ▸ hrunning
  rw [step, if_pos hruns, Ingress.step, hp, Option.bind_some, hd]
  simp

theorem pipe_ready {a : Pipeline.Action A K} (hruns : s.Runs (pipeOwner a))
    (h : Pipeline.step cfg s.pipe a ≠ none) : step cfg decode s (.pipe a) ≠ none := by
  rw [step, if_pos hruns]
  simpa using h

/-- **No goroutine is left behind**: as long as one has not returned, some can go on. -/
theorem running_of_stuck (hs : Sound cfg s) (hdone : s.done = true) (h : Stuck cfg decode s) :
    s.running = ∅ := by
  refine Finset.eq_empty_of_forall_notMem fun g hg => ?_
  have hbusy : ¬s.Selecting g := by
    intro hselecting
    have hret := h (.ret g) trivial
    rw [step, if_pos ⟨hdone, hg, hselecting⟩] at hret
    cases hret
  cases g with
  | decodeLoop => exact decode_ready hs hbusy hg (h (.input .decode) trivial)
  | encodeWorker w =>
    obtain ⟨a, ha, hstep⟩ := Pipeline.worker_ready cfg hbusy
    have howner : pipeOwner a = some (.encodeWorker w) := by
      unfold pipeOwner
      rw [ha]
    have hruns : s.Runs (pipeOwner a) := by
      intro g' hg'
      rw [howner] at hg'
      exact Option.some.inj hg' ▸ hg
    exact pipe_ready hruns hstep (h (.pipe a) (Pipeline.Action.works_of_worker ha))
  | encodeDispatcher | sendLoop | statsLoop => exact hbusy trivial

/-- `SubmitMix` returns, whoever has returned before. -/
theorem mixer_of_stuck (h : Stuck cfg decode s) : s.pipe.mixer = .idle := by
  by_contra hmixer
  obtain ⟨a, ha, hstep⟩ := Pipeline.mixer_ready cfg hmixer
  refine pipe_ready (fun g hg => ?_) hstep (h (.pipe a) ha.works)
  cases a <;> first | exact ha.elim | cases hg

/-- So does the callback. -/
theorem pushing_of_stuck (h : Stuck cfg decode s) : s.input.pushing = [] := by
  have hpush := h (.input .push) trivial
  have hruns : s.Runs (inputOwner .push) := fun g hg => by cases hg
  rw [step, if_pos hruns, Ingress.step] at hpush
  split at hpush
  · assumption
  · cases hpush

/-- What `Close` waits for. -/
structure Closed (s : State A D K) : Prop where
  /-- `wg.Wait` returns -/
  wg : s.wg = 0
  running : s.running = ∅
  mixer : s.pipe.mixer = .idle
  pushing : s.input.pushing = []

theorem stuck_of_closed (h : Closed s) : Stuck cfg decode s := by
  have hidle : ∀ owner g, owner = some g → ¬s.Runs owner := by
    intro owner g howner hruns
    have hg := hruns g howner
    rw [h.running] at hg
    exact Finset.notMem_empty g hg
  intro a ha
  cases a with
  | input a =>
    cases a with
    | message | read => exact ha.elim
    | push => simp [step, Ingress.step, h.pushing]
    | receive | decode => exact if_neg (hidle _ _ rfl)
  | pipe a =>
    cases a with
    | submit | collect => exact ha.elim
    | fill | pushMix | recycle => simp [step, Pipeline.step, h.mixer]
    | dispatch | sendJob | transmit | discard => exact if_neg (hidle _ _ rfl)
    | take w | encode w | push w | finish w | marshal w | release w =>
      exact if_neg (hidle _ _ rfl)
  | closeDone => exact ha.elim
  | ret g => exact if_neg fun hret => Finset.notMem_empty g (h.running ▸ hret.2.1)

/-- **`Close` returns.**  Once `done` is closed, in whatever order the goroutines go on and
return: if the session is not called any more there are no more than `work` steps, and
nobody can go on only where all have returned.  All the while each frame is in one place. -/
theorem close_returns (cfg : Pipeline.Config A)
    (decode : D → List UInt8 → D × Option (List Int16)) (hK : 0 < K) {frameSize : ℕ}
    (hfs : frameSize ∈ validFrameSizes) {jb : JitterBuffer}
    (hjb : sessionJitterBuffer frameSize = .ok jb) (decoder : D) {as bs : List (Action A K)}
    {s s' : State A D K} (h : Run (step cfg decode) (start cfg decoder jb) as s)
    (hdone : s.done = true) (h' : Run (step cfg decode) s bs s') (hbs : ∀ a ∈ bs, ¬a.Calls) :
    bs.length ≤ s.work cfg ∧ Pipeline.Owned s'.pipe ∧ (Stuck cfg decode s' ↔ Closed s') := by
  obtain ⟨jb', hjb', hjbSound, -⟩ := sessionJitterBuffer_sound hfs
  obtain rfl := Except.ok.inj (hjb'.symm.trans hjb)
  have hsound : Sound cfg s' :=
    (h.append h').invariant (fun _ _ _ hs hstep => sound_step hK hs hstep)
      (sound_start cfg decoder hjbSound)
  have hdone' : s'.done = true :=
    h'.invariant_of_along (P := fun _ a => ¬a.Calls)
      (fun _ _ _ hs ha hstep => (work_lt hs ha hstep).1)
      (fun _ a _ _ hsplit _ => hbs a (by rw [hsplit]; simp)) hdone
  refine ⟨?_, Pipeline.owned_of_ok hsound.pipe.1, fun hstuck => ?_, stuck_of_closed⟩
  · exact (Nat.le_add_right _ _).trans
      (Run.length_add_le (fun _ _ _ hs ha hstep => work_lt hs ha hstep) h' hbs hdone)
  · have hrunning := running_of_stuck hsound hdone' hstuck
    exact ⟨by rw [hsound.wg, hrunning, Finset.card_empty], hrunning, mixer_of_stuck hstuck,
      pushing_of_stuck hstuck⟩

/-- `SubmitMix` has put three frames into `mixCh`, and `done` is closed. -/
def threeMixes : List (Action ℕ 1) :=
  (List.replicate 3 [.pipe (.submit (fun c => c) 960 false none), .pipe .fill,
    .pipe .pushMix]).flatten ++ [.closeDone]

/-- The worker returns at once, so its queue of two fills up; the dispatcher is about to
hand it the third frame when it sees `done`. -/
def leftBehind : List (Action ℕ 1) :=
  [.ret (.encodeWorker Pipeline.only), .pipe .dispatch, .pipe .sendJob, .pipe .dispatch,
    .pipe .sendJob, .pipe .dispatch, .ret .encodeDispatcher, .ret .sendLoop, .ret .statsLoop,
    .ret .decodeLoop]

/-- All have returned, and the three frames are where they were left. -/
theorem close_returns_leftBehind : ∃ (s s' : State ℕ (List (List UInt8)) 1)
    (cfg : Pipeline.Config ℕ),
    Run (step cfg Ingress.recorder) s leftBehind s' ∧ s'.wg = 0 ∧
      s'.pipe.jobs Pipeline.only = [0, 1] ∧ leftBehind.length ≤ s.work cfg ∧
      Pipeline.Owned s'.pipe ∧ (Stuck cfg Ingress.recorder s' ↔ Closed s') := by
  obtain ⟨jb, hjb, hexec⟩ := (Option.any_eq_true _ _).mp
    (by decide +kernel : (sessionJitterBuffer 480).toOption.any (fun jb =>
      (exec (step Pipeline.loneConfig Ingress.recorder) (start Pipeline.loneConfig [] jb)
        threeMixes).any fun s =>
          (exec (step Pipeline.loneConfig Ingress.recorder) s leftBehind).any fun s' =>
            decide (s.done = true ∧ s'.wg = 0 ∧ s'.pipe.jobs Pipeline.only = [0, 1])) = true)
  obtain ⟨s, hs, hexec⟩ := (Option.any_eq_true _ _).mp hexec
  obtain ⟨s', hs', hchecks⟩ := (Option.any_eq_true _ _).mp hexec
  obtain ⟨hdone, hwg, hjobs⟩ := of_decide_eq_true hchecks
  have hfresh : sessionJitterBuffer 480 = .ok jb := by
    cases hnew : sessionJitterBuffer 480 <;> rw [hnew] at hjb <;> cases hjb
    rfl
  exact ⟨s, s', Pipeline.loneConfig, .of_exec hs', hwg, hjobs,
    close_returns Pipeline.loneConfig Ingress.recorder Nat.one_pos (by decide) hfresh []
      (.of_exec hs) hdone (.of_exec hs')
      (by simp [leftBehind, Action.Calls, Pipeline.Action.Submits])⟩

end Shutdown

end AmbiRTC
