/-
AmbiRTC/PipelineProgress.lean

The pipeline refines the progress of encoding: what a state says about the
contents of frames and uses, and about the channels still to be encoded, is read
off it (`progress`), and every step of the pipeline either is a transition of
the abstract model or does not show there.

Main results: the refinement (`progress_step`), and that every step of the
pipeline keeps frames and records in order (`ok_step`).
-/
import AmbiRTC.PipelineCustody
import AmbiRTC.Progress

namespace AmbiRTC

namespace Pipeline

open DropOldest FanOut Runs

variable {A : Type} {K : ℕ}

/-! ### Reading the progress off a state -/

/-- The frames still ahead of a worker: those it is encoding, has queued or is
going to get, and those not dispatched yet. -/
def Custody.ahead (c : Custody K) (w : Fin K) : List ℕ :=
  c.fan.todo w ++ c.mixCh ++ c.fresh.toList

/-- The channels of a frame worker `w` has still to encode: what remains of the frame
it is encoding, and its whole range for the frames ahead. -/
def pendingOf (w : Fin K) (wk : Worker) (ahead : List ℕ) (fr : ℕ) : List ℕ :=
  match wk.remaining with
  | some (f, cs) => if f = fr then cs else if fr ∈ ahead then channelRange K w else []
  | none => if fr ∈ ahead then channelRange K w else []

/-- The frame that waits for its PCM. -/
def Mixer.unfilled : Mixer A → Option (ℕ × (ℕ → A))
  | .filling fr pcm _ _ => some (fr, pcm)
  | _ => none

/-- How far the frames of a state are. -/
def State.progress (s : State A K) : Progress A K where
  line := s.custody.line
  unfilled := s.mixer.unfilled
  pending w := pendingOf w (s.workers w) (s.custody.ahead w)
  pcm fr := (s.heap fr).pcm
  encoded fr := (s.heap fr).encoded
  use fr := (s.heap fr).use
  uses := s.uses
  given u := (s.log u).pcm
  results u := (s.log u).encoded

/-! ### What is pending -/

theorem pendingOf_current {w : Fin K} {wk : Worker} {fr : ℕ} {cs : List ℕ}
    (h : wk.remaining = some (fr, cs)) (ahead : List ℕ) : pendingOf w wk ahead fr = cs := by
  rw [pendingOf, h]
  exact if_pos rfl

theorem pendingOf_other {w : Fin K} {wk : Worker} {fr : ℕ} (h : wk.current ≠ some fr)
    (ahead : List ℕ) :
    pendingOf w wk ahead fr = if fr ∈ ahead then channelRange K w else [] := by
  rw [pendingOf]
  rw [Worker.current] at h
  split
  next f cs hr =>
    rw [hr] at h
    exact if_neg fun hf => h (congrArg some hf)
  next => rfl

theorem pendingOf_congr {w : Fin K} {wk wk' : Worker} {ahead ahead' : List ℕ} {fr : ℕ}
    (hwk : wk'.remaining = wk.remaining) (hahead : fr ∈ ahead' ↔ fr ∈ ahead) :
    pendingOf w wk' ahead' fr = pendingOf w wk ahead fr := by
  rw [pendingOf, pendingOf, hwk, if_congr hahead rfl rfl]

/-- The frame a worker is encoding is the first ahead of it. -/
theorem ahead_of_remaining {s : State A K} {w : Fin K} {fr : ℕ} {cs : List ℕ}
    (h : (s.workers w).remaining = some (fr, cs)) :
    s.custody.ahead w
      = fr :: (s.jobs w ++ s.dispatcher.due w ++ s.mixCh ++ s.mixer.fresh.toList) := by
  show (s.workers w).current.toList ++ s.jobs w ++ s.dispatcher.due w ++ s.mixCh
    ++ s.mixer.fresh.toList = _
  rw [Worker.current, h]
  rfl

variable {cfg : Config A} {s : State A K} {bundled : Bool}

/-- What is ahead of a worker is the end of the line. -/
theorem ahead_suffix (hok : s.custody.Ok bundled) (w : Fin K) :
    s.custody.ahead w <:+ s.custody.line := by
  obtain ⟨front, hfront⟩ := hok.fan.todo_suffix w
  exact ⟨front, by rw [Custody.ahead, Custody.line, ← hfront]; simp only [List.append_assoc]⟩

/-- A worker is encoding a dispatched frame. -/
theorem current_mem_flight (hok : s.custody.Ok bundled) {w : Fin K} {fr : ℕ}
    (h : (s.workers w).current = some fr) : fr ∈ s.flight := by
  apply (hok.fan.todo_suffix w).subset
  show fr ∈ (s.workers w).current.toList ++ s.jobs w ++ s.dispatcher.due w
  rw [h]
  exact List.mem_cons_self

/-! ### Steps that do not show -/

/-- A projection that a change of frames respects sees none. -/
theorem setFrame_proj {β : Type} (g : MixFrame A → β) (s : State A K) (fr : ℕ)
    {f : MixFrame A → MixFrame A} (hf : ∀ frame, g (f frame) = g frame) (x : ℕ) :
    g ((s.setFrame fr f).heap x) = g (s.heap x) := by
  show g (Function.update s.heap fr (f (s.heap fr)) x) = _
  by_cases hx : x = fr
  · rw [hx, Function.update_self, hf]
  · rw [Function.update_of_ne hx]

/-- A projection that a note respects does not see it. -/
theorem note_proj {β : Type} (g : Use A K → β) (s : State A K) (fr : ℕ)
    {f : Use A K → Use A K} (hf : ∀ u, g (f u) = g u) (x : ℕ) :
    g ((s.note fr f).log x) = g (s.log x) := by
  show g (Function.update s.log (s.heap fr).use (f (s.log (s.heap fr).use)) x) = _
  by_cases hx : x = (s.heap fr).use
  · rw [hx, Function.update_self, hf]
  · rw [Function.update_of_ne hx]

theorem note_encode_pcm (s : State A K) (fr c : ℕ) (result : Option (List UInt8)) (u : ℕ) :
    ((s.note fr fun u => u.encode c ((s.heap fr).pcm c) result).log u).pcm = (s.log u).pcm :=
  note_proj Use.pcm s fr (f := fun u => u.encode c ((s.heap fr).pcm c) result) (fun _ => rfl) u

/-- Releasing a frame shows only in the life of its use. -/
theorem releaseFrame_proj {β : Type} (g : Use A K → β) (s : State A K) (fr : ℕ)
    (hg : ∀ u, g { u with life := u.life.release } = g u) (u : ℕ) :
    g ((releaseFrame s fr).log u) = g (s.log u) :=
  note_proj g { s with pool := fr :: s.pool } fr hg u

theorem progress_setFrame (s : State A K) (fr : ℕ) {f : MixFrame A → MixFrame A}
    (hpcm : ∀ frame, (f frame).pcm = frame.pcm)
    (hencoded : ∀ frame, (f frame).encoded = frame.encoded)
    (huse : ∀ frame, (f frame).use = frame.use) : (s.setFrame fr f).progress = s.progress :=
  Progress.ext rfl rfl rfl (funext (setFrame_proj MixFrame.pcm s fr hpcm))
    (funext (setFrame_proj MixFrame.encoded s fr hencoded))
    (funext (setFrame_proj MixFrame.use s fr huse)) rfl rfl rfl

theorem progress_note (s : State A K) (fr : ℕ) {f : Use A K → Use A K}
    (hpcm : ∀ u, (f u).pcm = u.pcm) (hencoded : ∀ u, (f u).encoded = u.encoded) :
    (s.note fr f).progress = s.progress :=
  Progress.ext rfl rfl rfl rfl rfl rfl rfl (funext (note_proj Use.pcm s fr hpcm))
    (funext (note_proj Use.encoded s fr hencoded))

/-- What is ahead of the other workers does not depend on this one. -/
theorem ahead_setWorker_ne (s : State A K) {w w' : Fin K} (wk : Worker) (hw : w' ≠ w) :
    (s.setWorker w wk).custody.ahead w' = s.custody.ahead w' := by
  show (Function.update s.workers w wk w').current.toList ++ s.jobs w' ++ s.dispatcher.due w'
    ++ s.mixCh ++ s.mixer.fresh.toList = _
  rw [Function.update_of_ne hw]
  rfl

/-- A worker may move on, as long as it has the same left to encode. -/
theorem progress_setWorker (s : State A K) (w : Fin K) {wk : Worker}
    (h : ∀ fr, pendingOf w wk ((s.setWorker w wk).custody.ahead w) fr
      = pendingOf w (s.workers w) (s.custody.ahead w) fr) :
    (s.setWorker w wk).progress = s.progress := by
  refine Progress.ext rfl rfl (funext fun w' => funext fun fr => ?_) rfl rfl rfl rfl rfl rfl
  show pendingOf w' (Function.update s.workers w wk w') ((s.setWorker w wk).custody.ahead w') fr
    = pendingOf w' (s.workers w') (s.custody.ahead w') fr
  by_cases hw : w' = w
  · rw [hw, Function.update_self]
    exact h fr
  · rw [Function.update_of_ne hw, ahead_setWorker_ne s wk hw]

theorem progress_setWorker_of_remaining (s : State A K) (w : Fin K) {wk : Worker}
    (h : wk.remaining = (s.workers w).remaining) : (s.setWorker w wk).progress = s.progress := by
  refine progress_setWorker s w fun fr => pendingOf_congr h ?_
  show fr ∈ (Function.update s.workers w wk w).current.toList ++ s.jobs w ++ s.dispatcher.due w
    ++ s.mixCh ++ s.mixer.fresh.toList ↔ _
  rw [Function.update_self, Worker.current, h]
  exact Iff.rfl

/-! ### Steps of `SubmitMix` -/

/-- A new use of a frame begins. -/
theorem progress_submit (cfg : Config A) (hok : s.custody.Ok bundled) (hmixer : s.mixer = .idle)
    {fr : ℕ} (hfr : ¬ s.custody.InUse fr) (pool : List ℕ) (allocated : ℕ) (frame : MixFrame A)
    (pcm : ℕ → A) (frameTs : UInt32) (isRec : Bool) :
    State.progress { s with
      uses := s.uses + 1
      log := Function.update s.log s.uses (Use.new pcm)
      allocated := allocated
      pool := pool
      heap := Function.update s.heap fr (frame.ready cfg s.uses)
      mixer := .filling fr pcm frameTs isRec } =
    { line := s.progress.line ++ [fr]
      unfilled := some (fr, pcm)
      pending := fun w => Function.update (s.progress.pending w) fr (channelRange K w)
      pcm := Function.update s.progress.pcm fr frame.pcm
      encoded := Function.update s.progress.encoded fr
        (if cfg.bundled then fun _ => [] else frame.encoded)
      use := Function.update s.progress.use fr s.progress.uses
      uses := s.progress.uses + 1
      given := Function.update s.progress.given s.progress.uses pcm
      results := Function.update s.progress.results s.progress.uses fun _ => none } := by
  -- no frame is in the mixer's hands before
  have hahead : ∀ w, s.custody.ahead w
      = (s.workers w).current.toList ++ s.jobs w ++ s.dispatcher.due w ++ s.mixCh := by
    intro w
    rw [Custody.ahead]
    show _ ++ s.mixCh ++ s.mixer.fresh.toList = _
    rw [hmixer]
    exact List.append_nil _
  refine Progress.ext ?_ rfl (funext fun w => funext fun f => ?_) ?_ ?_ ?_ rfl ?_ ?_
  · show s.flight ++ s.mixCh ++ [fr] = s.flight ++ s.mixCh ++ s.mixer.fresh.toList ++ [fr]
    rw [hmixer]
    exact congrArg (· ++ [fr]) (List.append_nil _).symm
  · show pendingOf w (s.workers w)
        ((s.workers w).current.toList ++ s.jobs w ++ s.dispatcher.due w ++ s.mixCh ++ [fr]) f
      = Function.update (pendingOf w (s.workers w) (s.custody.ahead w)) fr (channelRange K w) f
    rw [← hahead]
    by_cases hf : f = fr
    · -- the worker is not encoding the new frame yet
      subst hf
      rw [Function.update_self, pendingOf_other, if_pos]
      · exact List.mem_append_right _ (List.mem_singleton_self f)
      · intro hcurrent
        exact hfr (Or.inl (Custody.mem_line.mpr (Or.inl (current_mem_flight hok hcurrent))))
    · rw [Function.update_of_ne hf]
      apply pendingOf_congr rfl
      rw [List.mem_append, List.mem_singleton, or_iff_left hf]
  · exact funext fun x => Function.apply_update (fun _ => MixFrame.pcm) s.heap fr _ x
  · exact funext fun x => Function.apply_update (fun _ => MixFrame.encoded) s.heap fr _ x
  · exact use_update _ _ _
  · exact funext fun x => Function.apply_update (fun _ => Use.pcm) s.log s.uses _ x
  · exact funext fun x => Function.apply_update (fun _ => Use.encoded) s.log s.uses _ x

/-- The frame gets its PCM. -/
theorem progress_fill {fr : ℕ} {pcm : ℕ → A} {frameTs : UInt32} {isRec : Bool}
    (hmixer : s.mixer = .filling fr pcm frameTs isRec) :
    State.progress { s.setFrame fr fun frame => { frame with pcm, frameTs, isRec } with
      mixer := .pushing fr .attempt } =
    { s.progress with unfilled := none, pcm := Function.update s.progress.pcm fr pcm } := by
  have hfresh : s.mixer.fresh = some fr := congrArg Mixer.fresh hmixer
  refine Progress.ext ?_ rfl (funext fun w => funext fun f => ?_) ?_ ?_ ?_ rfl rfl rfl
  · show s.flight ++ s.mixCh ++ [fr] = s.flight ++ s.mixCh ++ s.mixer.fresh.toList
    rw [hfresh]
    rfl
  · apply pendingOf_congr rfl
    show f ∈ _ ++ s.mixCh ++ [fr] ↔ f ∈ _ ++ s.mixCh ++ s.mixer.fresh.toList
    rw [hfresh]
    exact Iff.rfl
  · exact funext fun x => Function.apply_update (fun _ => MixFrame.pcm) s.heap fr _ x
  · exact funext (setFrame_proj MixFrame.encoded s fr
      (f := fun frame => { frame with pcm, frameTs, isRec }) fun _ => rfl)
  · exact funext (setFrame_proj MixFrame.use s fr
      (f := fun frame => { frame with pcm, frameTs, isRec }) fun _ => rfl)

/-- `pushFrame` and `recycle` change where frames are, not what they contain. -/
theorem progress_moved {s' : State A K} (hline : s'.custody.line = s.custody.line)
    (hahead : ∀ w, s'.custody.ahead w = s.custody.ahead w)
    (hunfilled : s'.mixer.unfilled = s.mixer.unfilled) (hworkers : s'.workers = s.workers)
    (hheap : s'.heap = s.heap) (huses : s'.uses = s.uses)
    (hgiven : ∀ u, (s'.log u).pcm = (s.log u).pcm)
    (hresults : ∀ u, (s'.log u).encoded = (s.log u).encoded) : s'.progress = s.progress := by
  refine Progress.ext hline hunfilled (funext fun w => funext fun fr => ?_) ?_ ?_ ?_ huses
    (funext hgiven) (funext hresults)
  · exact pendingOf_congr (by rw [hworkers]) (by rw [hahead])
  · exact congrArg (fun heap : ℕ → MixFrame A => fun fr => (heap fr).pcm) hheap
  · exact congrArg (fun heap : ℕ → MixFrame A => fun fr => (heap fr).encoded) hheap
  · exact congrArg (fun heap : ℕ → MixFrame A => fun fr => (heap fr).use) hheap

/-! ### Steps of the workers -/

/-- A worker that takes a job has all its channels of the frame still to encode. -/
theorem progress_take {w : Fin K} {fr : ℕ} {rest : List ℕ}
    (hworker : s.workers w = .idle) (hjobs : s.jobs w = fr :: rest) :
    ({ s with jobs := Function.update s.jobs w rest }.setWorker w
      (.encoding fr (channelRange K w))).progress = s.progress := by
  have hcustody := custody_take (channelRange K w) hworker hjobs
  have hnot : (s.workers w).current ≠ some fr := by
    rw [hworker]
    exact fun h => by cases h
  -- before, the frame was ahead of the worker, so its whole range was pending
  have hin : fr ∈ s.custody.ahead w := by
    refine List.mem_append_left _ (List.mem_append_left _ ?_)
    show fr ∈ (s.workers w).current.toList ++ s.jobs w ++ s.dispatcher.due w
    rw [hjobs]
    simp
  refine Progress.ext (congrArg Custody.line hcustody) rfl (funext fun w' => funext fun f => ?_)
    rfl rfl rfl rfl rfl rfl
  show pendingOf w' (Function.update s.workers w (.encoding fr (channelRange K w)) w') _ f
    = pendingOf w' (s.workers w') (s.custody.ahead w') f
  rw [hcustody]
  by_cases hw : w' = w
  · subst hw
    rw [Function.update_self]
    by_cases hf : f = fr
    · subst hf
      rw [pendingOf_current rfl, pendingOf_other hnot, if_pos hin]
    · have hne : (Worker.encoding fr (channelRange K w')).current ≠ some f :=
        fun h => hf (Option.some.inj h).symm
      rw [pendingOf_other hne, pendingOf_other]
      rw [hworker]
      exact fun h => by cases h
  · rw [Function.update_of_ne hw]

/-- A worker that is done with a frame has nothing of it left to encode. -/
theorem progress_finish {w : Fin K} (fr : ℕ) {wk : Worker}
    (hnodup : (s.custody.ahead w).Nodup) (hworker : s.workers w = .encoding fr [])
    (hwk : wk.remaining = none) : (s.setWorker w wk).progress = s.progress := by
  have hahead := ahead_of_remaining (s := s) (w := w) (congrArg Worker.remaining hworker)
  rw [hahead] at hnodup
  -- the frame does not come again among those still ahead
  have hnot := (List.nodup_cons.mp hnodup).1
  have hahead' : (s.setWorker w wk).custody.ahead w
      = s.jobs w ++ s.dispatcher.due w ++ s.mixCh ++ s.mixer.fresh.toList := by
    show (Function.update s.workers w wk w).current.toList ++ s.jobs w ++ s.dispatcher.due w
      ++ s.mixCh ++ s.mixer.fresh.toList = _
    rw [Function.update_self, Worker.current, hwk]
    rfl
  have hcurrent : ∀ f, wk.current ≠ some f := by
    intro f
    rw [Worker.current, hwk]
    exact fun h => by cases h
  refine progress_setWorker s w fun f => ?_
  rw [hahead', pendingOf_other (hcurrent f), hahead]
  by_cases hf : f = fr
  · rw [hf, pendingOf_current (congrArg Worker.remaining hworker), if_neg hnot]
  · have hne : (s.workers w).current ≠ some f := by
      rw [hworker]
      exact fun h => hf (Option.some.inj h).symm
    rw [pendingOf_other hne]
    exact if_congr (by rw [List.mem_cons, or_iff_right hf]) rfl rfl

/-- What encoding a channel changes. -/
theorem progress_encode {s' : State A K} {w : Fin K} {fr c : ℕ}
    {cs : List ℕ} {wk : Worker} {result : Option (List UInt8)}
    {encoded : ℕ → ℕ → List UInt8} (hworker : s.workers w = .encoding fr (c :: cs))
    (hwk : wk.remaining = some (fr, cs)) (hs' : s'.workers = Function.update s.workers w wk)
    (hcustody : s'.custody = s.custody) (hmixer : s'.mixer = s.mixer)
    (hpcm : ∀ f, (s'.heap f).pcm = (s.heap f).pcm) (hencoded : ∀ f, (s'.heap f).encoded = encoded f)
    (hgiven : ∀ u, (s'.log u).pcm = (s.log u).pcm)
    (hresults : s'.log = (s.note fr fun u => u.encode c ((s.heap fr).pcm c) result).log) :
    s'.progress =
    { s.progress with
      pending := Function.update s.progress.pending w
        (Function.update (s.progress.pending w) fr cs)
      encoded := encoded
      results := Function.update s.progress.results (s.progress.use fr)
        (Function.update (s.progress.results (s.progress.use fr)) c
          (some (s.progress.pcm fr c, result))) } := by
  refine Progress.ext (congrArg Custody.line hcustody) (congrArg Mixer.unfilled hmixer)
    (funext fun w' => funext fun f => ?_) (funext hpcm) (funext hencoded)
    (congrArg Custody.use hcustody) (congrArg Custody.uses hcustody) (funext hgiven) ?_
  · show pendingOf w' (s'.workers w') (s'.custody.ahead w') f = Function.update
      s.progress.pending w (Function.update (s.progress.pending w) fr cs) w' f
    rw [hs', hcustody]
    -- only this worker, and only of this frame, has less to encode
    by_cases hw : w' = w
    · subst hw
      rw [Function.update_self, Function.update_self]
      by_cases hf : f = fr
      · rw [hf, Function.update_self, pendingOf_current hwk]
      · rw [Function.update_of_ne hf, pendingOf_other]
        · refine (pendingOf_other ?_ _).symm
          rw [hworker]
          exact fun h => hf (Option.some.inj h).symm
        · rw [Worker.current, hwk]
          exact fun h => hf (Option.some.inj h).symm
    · rw [Function.update_of_ne hw, Function.update_of_ne hw]
      rfl
  · show (fun u => (s'.log u).encoded) = _
    rw [hresults]
    exact funext fun x => Function.apply_update (fun _ => Use.encoded) s.log (s.heap fr).use _ x

theorem fresh_of_unfilled {fr : ℕ} {pcm : ℕ → A} (h : s.mixer.unfilled = some (fr, pcm)) :
    s.mixer.fresh = some fr := by
  cases hm : s.mixer with
  | filling f pcm' frameTs isRec =>
    rw [hm] at h
    exact congrArg (Option.map Prod.fst) h
  | _ =>
    rw [hm] at h
    cases h

/-- A frame that waits for its PCM has not been dispatched. -/
theorem unfilled_ne_of_flight (hok : s.custody.Ok bundled) {fr : ℕ} (hfr : fr ∈ s.flight)
    (pcm : ℕ → A) : s.mixer.unfilled ≠ some (fr, pcm) := by
  intro hunfilled
  have hfresh := fresh_of_unfilled hunfilled
  have hnodup := hok.line_nodup
  rw [Custody.line, List.nodup_append] at hnodup
  exact hnodup.2.2 fr (List.mem_append_left _ hfr) fr (Option.mem_toList.mpr hfresh) rfl

/-- The frame a worker is encoding is the first of those it has a channel of to encode. -/
theorem use_le_of_pending (hok : s.custody.Ok bundled) {w : Fin K} {fr : ℕ} {cs : List ℕ}
    (hremaining : (s.workers w).remaining = some (fr, cs)) {f c : ℕ}
    (hc : c ∈ s.progress.pending w f) : s.progress.use fr ≤ s.progress.use f := by
  by_cases hf : f = fr
  · rw [hf]
  · have hne : (s.workers w).current ≠ some f := by
      rw [Worker.current, hremaining]
      exact fun h => hf (Option.some.inj h).symm
    change c ∈ pendingOf w (s.workers w) (s.custody.ahead w) f at hc
    rw [pendingOf_other hne] at hc
    split at hc
    next hin =>
      -- what is ahead of the worker is a suffix of the line, so it is sorted by use
      have hsorted := hok.sorted.sublist ((ahead_suffix hok w).sublist.map s.custody.use)
      rw [ahead_of_remaining hremaining] at hsorted hin
      rw [List.map_cons, List.pairwise_cons] at hsorted
      exact (hsorted.1 _ (List.mem_map_of_mem ((List.mem_cons.mp hin).resolve_left hf))).le
    next => cases hc

/-- A step that encodes a channel is a transition of the abstract model. -/
theorem encode_step (hok : s.custody.Ok bundled) {s' : State A K} {w : Fin K} {fr c : ℕ}
    {cs : List ℕ} {wk : Worker} {result : Option (List UInt8)}
    (hworker : s.workers w = .encoding fr (c :: cs))
    (hwk : wk.remaining = some (fr, cs)) (hs' : s'.workers = Function.update s.workers w wk)
    (hcustody : s'.custody = s.custody) (hmixer : s'.mixer = s.mixer)
    (hpcm : ∀ f, (s'.heap f).pcm = (s.heap f).pcm)
    (hencoded : ∀ f, (s'.heap f).encoded = (if bundled then Function.update s.progress.encoded fr
      (Progress.store (s.progress.encoded fr) c result) else s.progress.encoded) f)
    (hgiven : ∀ u, (s'.log u).pcm = (s.log u).pcm)
    (hresults : s'.log = (s.note fr fun u => u.encode c ((s.heap fr).pcm c) result).log) :
    Progress.Step bundled s.progress s'.progress := by
  have hremaining := congrArg Worker.remaining hworker
  have hflight := current_mem_flight hok (congrArg Worker.current hworker)
  rw [progress_encode hworker hwk hs' hcustody hmixer hpcm hencoded hgiven hresults]
  exact .encode w fr c cs result (Custody.mem_line.mpr (Or.inl hflight))
    (unfilled_ne_of_flight hok hflight) (pendingOf_current hremaining _)
    fun f _ hc => use_le_of_pending hok hremaining hc

/-! ### Steps by which a frame leaves -/

/-- `pushFrame` displaces a frame of the line that has not been dispatched. -/
theorem displace_step (hok : s.custody.Ok bundled) {fr : ℕ} {stage : Stage} {mixCh : List ℕ}
    {mixer : Mixer A} (front : List ℕ) (old : ℕ) (back : List ℕ)
    (hmixer : s.mixer = .pushing fr stage) (hunfilled : mixer.unfilled = none)
    (hline : s.custody.line = front ++ old :: back)
    (hline' : s.flight ++ mixCh ++ mixer.fresh.toList = front ++ back)
    (hwait : ∀ f, f ≠ old →
      (f ∈ mixCh ++ mixer.fresh.toList ↔ f ∈ s.mixCh ++ s.mixer.fresh.toList)) :
    Progress.Step bundled s.progress
      (State.progress { s with mixCh := mixCh, mixer := mixer }) := by
  have hnot := hok.not_mem_of_line hline
  have hold : s.progress.unfilled = none := congrArg Mixer.unfilled hmixer
  have hs' : State.progress { s with mixCh := mixCh, mixer := mixer }
      = { s.progress with
          line := front ++ back
          pending := fun w =>
            pendingOf w (s.workers w) (s.fan.todo w ++ mixCh ++ mixer.fresh.toList) } :=
    Progress.ext hline' (hunfilled.trans hold.symm) rfl rfl rfl rfl rfl rfl rfl
  rw [hs']
  refine .leave _ _ ?_ (fun w f hf => pendingOf_congr rfl ?_) fun f pcm hpcm => ?_
  · rw [show s.progress.line = _ from hline]
    exact (List.sublist_cons_self old back).append_left front
  · -- the workers keep what they have to do of every other frame
    have hne : f ≠ old := by
      rintro rfl
      exact hnot hf
    show f ∈ s.fan.todo w ++ mixCh ++ mixer.fresh.toList
      ↔ f ∈ s.fan.todo w ++ s.mixCh ++ s.mixer.fresh.toList
    rw [List.append_assoc, List.append_assoc, List.mem_append, hwait f hne]
    exact List.mem_append.symm
  · rw [hold] at hpcm
    cases hpcm

/-- `pushFrame` displaces the oldest frame that waits. -/
theorem evict_step (hok : s.custody.Ok bundled) {fr old : ℕ} {stage : Stage} {rest : List ℕ}
    (hmixer : s.mixer = .pushing fr stage) (hmix : s.mixCh = old :: rest) :
    Progress.Step bundled s.progress
      (State.progress { s with mixCh := rest, mixer := .recycling old (some (fr, .retry)) }) := by
  have hfresh : s.mixer.fresh = some fr := congrArg Mixer.fresh hmixer
  refine displace_step hok s.flight old (rest ++ [fr]) hmixer rfl ?_ (List.append_assoc _ _ _)
    fun f hne => ?_
  · show s.flight ++ s.mixCh ++ s.mixer.fresh.toList = _
    rw [hmix, hfresh, List.append_assoc]
    rfl
  · rw [hmix, hfresh, List.cons_append, List.mem_cons, or_iff_right hne]
    exact Iff.rfl

/-- `pushFrame` gives up on the frame it was to push. -/
theorem giveUp_step (hok : s.custody.Ok bundled) {fr : ℕ} {stage : Stage}
    (hmixer : s.mixer = .pushing fr stage) :
    Progress.Step bundled s.progress
      (State.progress { s with mixer := .recycling fr none }) := by
  have hfresh : s.mixer.fresh = some fr := congrArg Mixer.fresh hmixer
  refine displace_step hok (s.flight ++ s.mixCh) fr [] hmixer rfl ?_ rfl fun f hne => ?_
  · show s.flight ++ s.mixCh ++ s.mixer.fresh.toList = _
    rw [hfresh]
    rfl
  · rw [hfresh, Option.toList_some, List.mem_append, List.mem_append, List.mem_singleton,
      or_iff_left hne]
    exact or_iff_left List.not_mem_nil

/-- A worker returns the frame it has finished, the first of the line, to the pool. -/
theorem release_step (hok : s.custody.Ok bundled) {w : Fin K} {fr : ℕ}
    (hworker : s.workers w = .releasing fr) :
    Progress.Step bundled s.progress
      ({ releaseFrame s fr with flight := s.flight.erase fr }.setWorker w .idle).progress := by
  have hlast : s.custody.fan.last w = some fr := congrArg Worker.finishing hworker
  obtain ⟨rest, hflight⟩ := hok.fan.head hlast
  have hs' : ({ releaseFrame s fr with flight := s.flight.erase fr }.setWorker w .idle).progress
      = { s.progress with
          line := s.flight.erase fr ++ s.mixCh ++ s.mixer.fresh.toList
          pending := s.progress.pending } := by
    refine (progress_setWorker_of_remaining _ w ?_).trans ?_
    · exact (congrArg Worker.remaining hworker).symm
    · exact Progress.ext rfl rfl rfl rfl rfl rfl rfl
        (funext (releaseFrame_proj Use.pcm s fr fun _ => rfl))
        (funext (releaseFrame_proj Use.encoded s fr fun _ => rfl))
  rw [hs']
  refine .leave _ _ ?_ (fun _ _ _ => rfl) fun f pcm hpcm => ?_
  · exact (List.erase_sublist.append_right _).append_right _
  · -- a frame that waits for its PCM is at the other end of the line
    exact List.mem_append_right _ (Option.mem_toList.mpr (fresh_of_unfilled hpcm))

/-! ### The remaining steps of `SubmitMix` and the dispatcher -/

/-- `SubmitMix` takes a frame out of the pool, or makes one. -/
theorem submit_step (cfg : Config A) (hok : s.custody.Ok cfg.bundled) (hmixer : s.mixer = .idle)
    {fr : ℕ} (hfr : ¬ s.custody.InUse fr) (pool : List ℕ) (allocated : ℕ) (frame : MixFrame A)
    (pcm : ℕ → A) (frameTs : UInt32) (isRec : Bool) :
    Progress.Step cfg.bundled s.progress (State.progress { s with
      uses := s.uses + 1
      log := Function.update s.log s.uses (Use.new pcm)
      allocated := allocated
      pool := pool
      heap := Function.update s.heap fr (frame.ready cfg s.uses)
      mixer := .filling fr pcm frameTs isRec }) := by
  rw [progress_submit cfg hok hmixer hfr]
  exact .start fr pcm _ _ (fun hin => hfr (Or.inl hin)) (congrArg Mixer.unfilled hmixer)

theorem fill_step {fr : ℕ} {pcm : ℕ → A} {frameTs : UInt32} {isRec : Bool}
    (hmixer : s.mixer = .filling fr pcm frameTs isRec) :
    Progress.Step bundled s.progress
      (State.progress { s.setFrame fr fun frame => { frame with pcm, frameTs, isRec } with
        mixer := .pushing fr .attempt }) := by
  rw [progress_fill hmixer]
  exact .fill fr pcm (congrArg Mixer.unfilled hmixer)

/-- The frame to be pushed stays at the end of the line while `pushFrame` tries. -/
theorem progress_pushAgain {fr : ℕ} {stage : Stage} (stage' : Stage)
    (hmixer : s.mixer = .pushing fr stage) :
    State.progress { s with mixer := .pushing fr stage' } = s.progress := by
  have hfresh : s.mixer.fresh = some fr := congrArg Mixer.fresh hmixer
  refine progress_moved ?_ (fun w => ?_) (congrArg Mixer.unfilled hmixer).symm rfl rfl rfl
    (fun _ => rfl) fun _ => rfl
  · show s.flight ++ s.mixCh ++ [fr] = s.flight ++ s.mixCh ++ s.mixer.fresh.toList
    rw [hfresh]
    rfl
  · show _ ++ s.mixCh ++ [fr] = _ ++ s.mixCh ++ s.mixer.fresh.toList
    rw [hfresh]
    rfl

/-- And it does so when it is in `mixCh`. -/
theorem progress_enqueue {fr : ℕ} {stage : Stage} (hmixer : s.mixer = .pushing fr stage) :
    State.progress { s with mixCh := s.mixCh ++ [fr], mixer := .idle } = s.progress := by
  have hfresh : s.mixer.fresh = some fr := congrArg Mixer.fresh hmixer
  refine progress_moved ?_ (fun w => ?_) (congrArg Mixer.unfilled hmixer).symm rfl rfl rfl
    (fun _ => rfl) fun _ => rfl
  · show s.flight ++ (s.mixCh ++ [fr]) ++ [] = s.flight ++ s.mixCh ++ s.mixer.fresh.toList
    rw [hfresh, List.append_nil, ← List.append_assoc]
    rfl
  · show s.fan.todo w ++ (s.mixCh ++ [fr]) ++ [] = s.fan.todo w ++ s.mixCh
      ++ s.mixer.fresh.toList
    rw [hfresh, List.append_nil, ← List.append_assoc]
    rfl

/-- A displaced frame has left the line before it goes to the pool. -/
theorem progress_recycle {old : ℕ} {next : Option (ℕ × Stage)}
    (hmixer : s.mixer = .recycling old next) :
    State.progress { releaseFrame s old with
      mixDrops := s.mixDrops + 1
      mixer := .next next } = s.progress := by
  have hfresh : s.mixer.fresh = next.map Prod.fst := congrArg Mixer.fresh hmixer
  have hunfilled : (Mixer.next next : Mixer A).unfilled = none := by
    rcases next with - | ⟨fr, stage⟩ <;> rfl
  refine progress_moved ?_ (fun w => ?_) ?_ rfl rfl rfl ?_ ?_
  · show s.flight ++ s.mixCh ++ (Mixer.next next : Mixer A).fresh.toList
      = s.flight ++ s.mixCh ++ s.mixer.fresh.toList
    rw [fresh_next, hfresh]
  · show _ ++ s.mixCh ++ (Mixer.next next : Mixer A).fresh.toList
      = _ ++ s.mixCh ++ s.mixer.fresh.toList
    rw [fresh_next, hfresh]
    rfl
  · rw [hmixer]
    exact hunfilled
  · exact releaseFrame_proj Use.pcm s old fun _ => rfl
  · exact releaseFrame_proj Use.encoded s old fun _ => rfl

/-- The first frame of `mixCh` becomes the last one in flight: the line is the same. -/
theorem progress_dispatch {fr : ℕ} {rest : List ℕ} (hdispatcher : s.dispatcher = .idle)
    (hmix : s.mixCh = fr :: rest) :
    State.progress (({ s with
      mixCh := rest
      dispatcher := .fanning fr 0
      flight := s.flight ++ [fr] }.setFrame fr fun frame => { frame with refs := K }).note fr
        fun u => { u with life := u.life.dispatch }) = s.progress := by
  rw [progress_note, progress_setFrame]
  · refine progress_moved ?_ (fun w => ?_) rfl rfl rfl rfl (fun _ => rfl) fun _ => rfl
    · show s.flight ++ [fr] ++ rest ++ s.mixer.fresh.toList
        = s.flight ++ s.mixCh ++ s.mixer.fresh.toList
      rw [hmix, List.append_assoc s.flight [fr] rest]
      rfl
    · show (s.workers w).current.toList ++ s.jobs w ++ [fr] ++ rest ++ s.mixer.fresh.toList
        = (s.workers w).current.toList ++ s.jobs w ++ s.dispatcher.due w ++ s.mixCh
          ++ s.mixer.fresh.toList
      rw [hmix, hdispatcher, Dispatcher.due, List.append_nil, List.append_assoc _ [fr] rest]
      rfl
  all_goals exact fun _ => rfl

/-- What the dispatcher was going to send a worker, the worker has queued. -/
theorem progress_sendJob {fr w : ℕ} (hw : w < K) (hdispatcher : s.dispatcher = .fanning fr w) :
    State.progress { s with
      jobs := Function.update s.jobs ⟨w, hw⟩ (s.jobs ⟨w, hw⟩ ++ [fr])
      dispatcher := if w + 1 < K then .fanning fr (w + 1) else .idle } = s.progress := by
  have hcustody := custody_sendJob hw hdispatcher
  exact progress_moved (congrArg Custody.line hcustody)
    (fun w' => congrArg (fun c : Custody K => c.ahead w') hcustody) rfl rfl rfl rfl
    (fun _ => rfl) fun _ => rfl

/-! ### The remaining steps of a worker -/

/-- A failed encode stores nothing. -/
theorem encodeFailed_step (hok : s.custody.Ok bundled) {w : Fin K} {fr c : ℕ} {cs : List ℕ}
    (hworker : s.workers w = .encoding fr (c :: cs)) :
    Progress.Step bundled s.progress
      ((s.note fr fun u => u.encode c ((s.heap fr).pcm c) none).setWorker w
        (.encoding fr cs)).progress := by
  refine encode_step hok hworker rfl rfl
    (custody_encode s none s.encCount s.encSeq hworker rfl rfl) rfl (fun _ => rfl)
    (fun f => ?_) (note_encode_pcm s fr c none) rfl
  have hstore : Function.update s.progress.encoded fr
      (Progress.store (s.progress.encoded fr) c none) = s.progress.encoded :=
    Function.update_eq_self fr _
  rw [hstore, ite_self]
  rfl

/-- In bundled mode the payload is stored in the frame. -/
theorem encodeBundled_step (hok : s.custody.Ok bundled) (hbundled : bundled = true) {w : Fin K}
    {fr c : ℕ} {cs : List ℕ} (payload : List UInt8)
    (hworker : s.workers w = .encoding fr (c :: cs)) :
    Progress.Step bundled s.progress
      (({ s.note fr fun u => u.encode c ((s.heap fr).pcm c) (some payload) with
          encCount := s.encCount + 1 }.setFrame fr fun frame =>
        { frame with encoded := Function.update frame.encoded c payload }).setWorker w
          (.encoding fr cs)).progress := by
  refine encode_step hok hworker rfl rfl (custody_encodeBundled s payload _ hworker) rfl ?_ ?_
    (note_encode_pcm s fr c (some payload)) rfl
  · exact setFrame_proj MixFrame.pcm s fr
      (f := fun frame => { frame with encoded := Function.update frame.encoded c payload })
      fun _ => rfl
  · rw [if_pos hbundled]
    exact fun f => Function.apply_update (fun _ => MixFrame.encoded) s.heap fr _ f

/-- In legacy mode it goes into a packet, or nowhere, and the frame is as it was. -/
theorem encodeLegacy_step (hok : s.custody.Ok bundled) (hlegacy : bundled = false) {w : Fin K}
    {fr c : ℕ} {cs : List ℕ} {wk : Worker} (payload : List UInt8)
    (hworker : s.workers w = .encoding fr (c :: cs)) (hremaining : wk.remaining = some (fr, cs))
    (hfinishing : wk.finishing = none) :
    Progress.Step bundled s.progress
      ({ s.note fr fun u => u.encode c ((s.heap fr).pcm c) (some payload) with
          encCount := s.encCount + 1
          encSeq := Function.update s.encSeq c (s.encSeq c + 1) }.setWorker w wk).progress := by
  have hcurrent : wk.current = some fr := congrArg (Option.map Prod.fst) hremaining
  refine encode_step hok hworker hremaining rfl
    (custody_encode s (some payload) _ _ hworker hcurrent hfinishing) rfl (fun _ => rfl) ?_
    (note_encode_pcm s fr c (some payload)) rfl
  rw [hlegacy]
  exact fun _ => rfl

/-- A worker counts down a frame it has encoded to the end. -/
theorem progress_counted (hok : s.custody.Ok bundled) {w : Fin K} {fr : ℕ} {isLast : Bool}
    {wk : Worker} (hworker : s.workers w = .encoding fr []) (hwk : wk.remaining = none) :
    (((s.setFrame fr fun frame => { frame with refs := (s.heap fr).refs - 1 }).note fr fun u =>
      { u with life := u.life.finish w (isLast && bundled) }).setWorker w wk).progress
        = s.progress := by
  refine (progress_finish fr ?_ ?_ hwk).trans ?_
  · exact hok.line_nodup.sublist (ahead_suffix hok w).sublist
  · exact hworker
  · rw [progress_note, progress_setFrame]
    all_goals exact fun _ => rfl

/-- A worker notes the payloads of a group. -/
theorem progress_marshal {w : Fin K} {fr : ℕ} {group : List UInt8} {wk : Worker}
    (h : wk.remaining = (s.workers w).remaining) :
    ((s.note fr fun u => u.marshal group (groupPayloads (s.heap fr).encoded group)).setWorker w
      wk).progress = s.progress := by
  refine (progress_setWorker_of_remaining _ w ?_).trans
    (progress_note s fr (f := fun u => u.marshal group (groupPayloads (s.heap fr).encoded group))
      (fun _ => rfl) fun _ => rfl)
  exact h

/-! ### The refinement -/

/-- **The pipeline refines the progress of encoding.** -/
theorem progress_step {s' : State A K} (hok : s.custody.Ok cfg.bundled) (h : Stepped cfg s s') :
    s'.progress = s.progress ∨ Progress.Step cfg.bundled s.progress s'.progress := by
  cases h with
  -- `SubmitMix`: a use begins, its frame gets its PCM and stands at the end of the line
  | acquire pcm frameTs isRec fr hmixer hpool =>
    exact Or.inr (submit_step cfg hok hmixer (hok.not_inUse_of_pool hpool) _ _ _ pcm frameTs isRec)
  | allocate pcm frameTs isRec hmixer =>
    have hfr : ¬ s.custody.InUse s.allocated := hok.not_inUse_of_allocated
    exact Or.inr (submit_step cfg hok hmixer hfr _ _ _ pcm frameTs isRec)
  | fill fr pcm frameTs isRec hmixer => exact Or.inr (fill_step hmixer)
  | pushAgain fr stage stage' hmixer => exact Or.inl (progress_pushAgain stage' hmixer)
  | enqueue fr stage hmixer => exact Or.inl (progress_enqueue hmixer)
  -- a frame that is displaced leaves the line
  | evict fr stage old rest hmixer hmix => exact Or.inr (evict_step hok hmixer hmix)
  | giveUp fr stage hmixer => exact Or.inr (giveUp_step hok hmixer)
  | recycle old next hmixer => exact Or.inl (progress_recycle hmixer)
  | collect fr hpool => exact Or.inl rfl
  -- from `mixCh` to the workers: the line is the same
  | dispatch fr rest hdispatcher hmix => exact Or.inl (progress_dispatch hdispatcher hmix)
  | sendJob fr w hw hdispatcher => exact Or.inl (progress_sendJob hw hdispatcher)
  | take w fr rest hworker hjobs => exact Or.inl (progress_take hworker hjobs)
  -- a channel is encoded
  | encodeFailed w fr c cs hworker => exact Or.inr (encodeFailed_step hok hworker)
  | encodeBundled w fr c cs payload hworker hbundled =>
    exact Or.inr (encodeBundled_step hok hbundled payload hworker)
  | encodeRefused w fr c cs payload e hworker hbundled hmarshal =>
    exact Or.inr (encodeLegacy_step hok hbundled payload hworker rfl rfl)
  | encodeLegacy w fr c cs payload buf hworker hbundled hmarshal =>
    exact Or.inr (encodeLegacy_step hok hbundled payload hworker rfl rfl)
  -- `pushSend` does not show: the worker has the same left to encode
  | sendAgain w fr item stage stage' next hworker =>
    refine Or.inl (progress_setWorker_of_remaining s w ?_)
    rw [hworker]
    cases next <;> rfl
  | sendEnqueue w fr item stage next hworker =>
    refine Or.inl (progress_setWorker_of_remaining { s with sendCh := s.sendCh ++ [item] } w ?_)
    exact (remaining_resume fr item stage next).trans (congrArg Worker.remaining hworker).symm
  | sendEvict w fr item stage next old rest hworker hsend =>
    refine Or.inl (progress_setWorker_of_remaining
      { s with sendCh := rest, sendDrops := s.sendDrops + 1 } w ?_)
    rw [show s.workers w = _ from hworker]
    cases next <;> rfl
  | sendGiveUp w fr item stage next hworker =>
    refine Or.inl (progress_setWorker_of_remaining { s with sendDrops := s.sendDrops + 1 } w ?_)
    exact (remaining_resume fr item stage next).trans (congrArg Worker.remaining hworker).symm
  -- a frame that is encoded has nothing pending; it leaves the line when it is released
  | finish w fr isLast hworker hlast =>
    refine Or.inl (progress_counted hok hworker ?_)
    cases isLast <;> cases cfg.bundled <;> rfl
  | marshalDone w fr hworker =>
    exact Or.inl (progress_setWorker_of_remaining s w (congrArg Worker.remaining hworker).symm)
  | marshalSkip w fr group groups hworker =>
    exact Or.inl (progress_marshal (congrArg Worker.remaining hworker).symm)
  | marshalPush w fr group groups buf hworker =>
    exact Or.inl (progress_marshal (congrArg Worker.remaining hworker).symm)
  | release w fr hworker => exact Or.inr (release_step hok hworker)
  | transmit item rest hsend => exact Or.inl rfl
  | discard item rest hsend => exact Or.inl rfl

/-- The invariants of both abstract models. -/
def State.Ok (bundled : Bool) (s : State A K) : Prop :=
  s.custody.Ok bundled ∧ s.progress.Ok bundled

theorem ok_initial (cfg : Config A) : (initial cfg : State A K).Ok cfg.bundled :=
  ⟨Custody.ok_empty _ _ _, Progress.ok_empty _ _ _ _ _⟩

/-- **A step of the pipeline keeps frames and records in order.** -/
theorem ok_step (hK : 0 < K) {s' : State A K} (hok : s.Ok cfg.bundled) (h : Stepped cfg s s') :
    s'.Ok cfg.bundled := by
  refine ⟨custody_ok_step hK hok.1 h, ?_⟩
  rcases progress_step hok.1 h with heq | hs
  · rw [heq]
    exact hok.2
  · exact hok.2.step hs

end Pipeline

end AmbiRTC
