/-
AmbiRTC/PipelinePackets.lean

What the packets of the downlink say.  Frames go round between pool, mixer and
workers, payloads are put into them and taken out again; a packet handed to
`dc.Send` is still one of the frame it was made in, with the timestamp and the
recording flag `SubmitMix` was called with, and with payloads that the encoders
made of the PCM of that call.

Main results: every step keeps the stamps of the frames in use (`Stamped.step`),
and every packet made in a run is genuine (`packets_genuine`).
-/
import AmbiRTC.PipelineOwnership
import AmbiRTC.PipelineSends

namespace AmbiRTC

namespace Pipeline

open DropOldest FanOut Runs

variable {A : Type} {K : ℕ}

/-! ### What the room submits -/

/-- The arguments of a `SubmitMix` call. -/
structure Submission (A : Type) where
  pcm : ℕ → A
  frameTs : UInt32
  isRec : Bool

/-- The call that begins with an action. -/
def Action.submission : Action A K → Option (Submission A)
  | .submit pcm frameTs isRec _ => some ⟨pcm, frameTs, isRec⟩
  | _ => none

/-- The calls of a run, in order. -/
def submissions (as : List (Action A K)) : List (Submission A) := as.filterMap Action.submission

theorem submissions_snoc (as : List (Action A K)) (a : Action A K) :
    submissions (as ++ [a]) = submissions as ++ a.submission.toList := by
  rw [submissions, List.filterMap_append]
  cases h : a.submission <;> simp [submissions, h]

variable {cfg : Config A} {s s' : State A K} {a : Action A K}

/-! ### What a step does to the stamps -/

/-- A `SubmitMix` call has begun. -/
structure Begun (cfg : Config A) (s s' : State A K) (x : Submission A) : Prop where
  mixer : s.mixer = .idle
  uses : s'.uses = s.uses + 1
  frame : ∃ fr, s'.mixer = .filling fr x.pcm x.frameTs x.isRec ∧ (s'.heap fr).use = s.uses ∧
    (∀ f, f ≠ fr → s'.heap f = s.heap f) ∧ ∀ f ∈ s'.custody.line, f ∈ s.custody.line ∨ f = fr
  log : s'.log = Function.update s.log s.uses (Use.new x.pcm)
  workers : s'.workers = s.workers

/-- No call has begun: frames keep their stamps, or the one being filled gets its own. -/
structure GoesOn (s s' : State A K) : Prop where
  uses : s'.uses = s.uses
  pcm : ∀ u, (s'.log u).pcm = (s.log u).pcm
  use : ∀ f, (s'.heap f).use = (s.heap f).use
  filling : ∀ fr pcm frameTs isRec, s'.mixer = .filling fr pcm frameTs isRec →
    s.mixer = .filling fr pcm frameTs isRec
  stamp : ∀ f, (∀ pcm frameTs isRec, s'.mixer ≠ .filling f pcm frameTs isRec) →
    ((s'.heap f).frameTs = (s.heap f).frameTs ∧ (s'.heap f).isRec = (s.heap f).isRec ∧
      ∀ pcm frameTs isRec, s.mixer ≠ .filling f pcm frameTs isRec) ∨
    ∃ pcm, s.mixer = .filling f pcm (s'.heap f).frameTs (s'.heap f).isRec

theorem mem_line_begun {fr f : ℕ} (h : f ∈ s.flight ++ s.mixCh ++ [fr]) :
    f ∈ s.custody.line ∨ f = fr := by
  rw [List.mem_append, List.mem_singleton] at h
  exact h.imp_left fun hin => List.mem_append_left _ hin

theorem begun_of_submit {pcm : ℕ → A} {frameTs : UInt32} {isRec : Bool} {pooled : Option ℕ}
    (h : step cfg s (.submit pcm frameTs isRec pooled) = some s') :
    Begun cfg s s' ⟨pcm, frameTs, isRec⟩ := by
  simp only [step] at h
  split at h
  next hmixer =>
    cases pooled with
    | none =>
      obtain rfl := Option.some.inj h
      refine ⟨hmixer, rfl, ⟨s.allocated, rfl, ?_, fun f hf => Function.update_of_ne hf _ _,
        fun _ => mem_line_begun⟩, rfl, rfl⟩
      show (Function.update s.heap s.allocated ((newFrame cfg).ready cfg s.uses)
        s.allocated).use = _
      rw [Function.update_self]
      rfl
    | some fr =>
      by_cases hpool : fr ∈ s.pool
      · simp only [acquireFrame, if_pos hpool] at h
        obtain rfl := Option.some.inj h
        refine ⟨hmixer, rfl, ⟨fr, rfl, ?_, fun f hf => Function.update_of_ne hf _ _,
          fun _ => mem_line_begun⟩, rfl, rfl⟩
        show (Function.update s.heap fr ((s.heap fr).ready cfg s.uses) fr).use = _
        rw [Function.update_self]
        rfl
      · simp only [acquireFrame, if_neg hpool] at h
        cases h
  next => cases h

/-- Steps that leave the mixer and the stamps alone. -/
theorem GoesOn.quiet (huses : s'.uses = s.uses) (hmixer : s'.mixer = s.mixer)
    (hpcm : ∀ u, (s'.log u).pcm = (s.log u).pcm) (huse : ∀ f, (s'.heap f).use = (s.heap f).use)
    (hts : ∀ f, (s'.heap f).frameTs = (s.heap f).frameTs)
    (hrec : ∀ f, (s'.heap f).isRec = (s.heap f).isRec) : GoesOn s s' :=
  ⟨huses, hpcm, huse, fun _ _ _ _ h => hmixer ▸ h,
    fun f h => Or.inl ⟨hts f, hrec f, fun _ _ _ => hmixer ▸ h _ _ _⟩⟩

/-- Steps that change one frame, but not its stamp. -/
theorem GoesOn.framed (fr : ℕ) (f : MixFrame A → MixFrame A) (huses : s'.uses = s.uses)
    (hmixer : s'.mixer = s.mixer) (hpcm : ∀ u, (s'.log u).pcm = (s.log u).pcm)
    (hheap : s'.heap = (s.setFrame fr f).heap) (huse : ∀ frame, (f frame).use = frame.use)
    (hts : ∀ frame, (f frame).frameTs = frame.frameTs)
    (hrec : ∀ frame, (f frame).isRec = frame.isRec) : GoesOn s s' := by
  refine .quiet huses hmixer hpcm ?_ ?_ ?_ <;> rw [hheap]
  · exact setFrame_proj MixFrame.use s fr huse
  · exact setFrame_proj MixFrame.frameTs s fr hts
  · exact setFrame_proj MixFrame.isRec s fr hrec

/-- Steps of a mixer that has filled its frame. -/
theorem GoesOn.moved (huses : s'.uses = s.uses) (hlog : ∀ u, (s'.log u).pcm = (s.log u).pcm)
    (hheap : s'.heap = s.heap)
    (hmixer : ∀ fr pcm frameTs isRec, s.mixer ≠ .filling fr pcm frameTs isRec)
    (hmixer' : ∀ fr pcm frameTs isRec, s'.mixer ≠ .filling fr pcm frameTs isRec) : GoesOn s s' :=
  ⟨huses, hlog, fun _ => by rw [hheap], fun _ _ _ _ h => absurd h (hmixer' _ _ _ _),
    fun f _ => Or.inl ⟨by rw [hheap], by rw [hheap], fun _ _ _ => hmixer f _ _ _⟩⟩

theorem marshal_pcm (s : State A K) (fr : ℕ) (group : List UInt8) (u : ℕ) :
    ((s.note fr fun u => u.marshal group (groupPayloads (s.heap fr).encoded group)).log u).pcm
      = (s.log u).pcm :=
  note_proj Use.pcm s fr
    (f := fun u => u.marshal group (groupPayloads (s.heap fr).encoded group)) (fun _ => rfl) u

theorem uses_step (h : step cfg s a = some s') (ha : a.submission = none) : s'.uses = s.uses := by
  cases a with
  | submit => cases ha
  | _ =>
    simp only [step] at h
    repeat' split at h
    all_goals first
      | exact absurd h (Option.some_ne_none _).symm
      | obtain rfl := Option.some.inj h
        rfl

theorem goesOn_of_stepped (h : Stepped cfg s s') (huses : s'.uses = s.uses) : GoesOn s s' := by
  cases h with
  | acquire pcm frameTs isRec fr hmixer hpool => exact absurd huses (Nat.succ_ne_self _)
  | allocate pcm frameTs isRec hmixer => exact absurd huses (Nat.succ_ne_self _)
  | fill fr pcm frameTs isRec hmixer =>
    refine ⟨rfl, fun _ => rfl, setFrame_proj MixFrame.use s fr
      (f := fun frame => { frame with pcm, frameTs, isRec }) fun _ => rfl,
      fun _ _ _ _ h => (by cases h), fun f _ => ?_⟩
    -- the frame takes what it was submitted with; the others keep theirs
    by_cases hf : f = fr
    · subst hf
      refine Or.inr ⟨pcm, ?_⟩
      show s.mixer = .filling f pcm (Function.update s.heap f _ f).frameTs
        (Function.update s.heap f _ f).isRec
      rw [Function.update_self]
      exact hmixer
    · refine Or.inl ⟨?_, ?_, fun _ _ _ h => hf ?_⟩
      · exact congrArg MixFrame.frameTs (Function.update_of_ne hf _ _)
      · exact congrArg MixFrame.isRec (Function.update_of_ne hf _ _)
      · rw [hmixer] at h
        cases h
        rfl
  -- the mixer is past filling, and no frame is touched
  | pushAgain fr stage stage' hmixer =>
    exact .moved rfl (fun _ => rfl) rfl (by simp [hmixer]) (by simp)
  | enqueue fr stage hmixer =>
    exact .moved rfl (fun _ => rfl) rfl (by simp [hmixer]) (by simp)
  | evict fr stage old rest hmixer hmix =>
    exact .moved rfl (fun _ => rfl) rfl (by simp [hmixer]) (by simp)
  | giveUp fr stage hmixer => exact .moved rfl (fun _ => rfl) rfl (by simp [hmixer]) (by simp)
  | recycle old next hmixer =>
    refine .moved rfl (releaseFrame_proj Use.pcm s old fun _ => rfl) rfl (by simp [hmixer]) ?_
    cases next <;> simp [Mixer.next]
  | collect fr hpool =>
    exact .quiet rfl rfl (fun _ => rfl) (fun _ => rfl) (fun _ => rfl) fun _ => rfl
  | dispatch fr rest hdispatcher hmix =>
    exact .framed fr (fun frame => { frame with refs := K }) rfl rfl
      (count_proj Use.pcm _ fr K fun _ => rfl) rfl (fun _ => rfl) (fun _ => rfl) fun _ => rfl
  | sendJob | take | sendAgain | sendEnqueue | sendEvict | sendGiveUp | marshalDone | transmit
  | discard => exact .quiet rfl rfl (fun _ => rfl) (fun _ => rfl) (fun _ => rfl) fun _ => rfl
  -- an outcome goes into the record, and of the frame only `encoded` changes
  | encodeFailed w fr c cs hworker =>
    exact .quiet rfl rfl (note_encode_pcm s fr c none) (fun _ => rfl) (fun _ => rfl) fun _ => rfl
  | encodeBundled w fr c cs payload hworker hbundled =>
    exact .framed fr
      (fun frame => { frame with encoded := Function.update frame.encoded c payload }) rfl rfl
      (note_encode_pcm s fr c (some payload)) rfl (fun _ => rfl) (fun _ => rfl) fun _ => rfl
  | encodeRefused w fr c cs payload e hworker hbundled hmarshal =>
    exact .quiet rfl rfl (note_encode_pcm s fr c (some payload)) (fun _ => rfl) (fun _ => rfl)
      fun _ => rfl
  | encodeLegacy w fr c cs payload buf hworker hbundled hmarshal =>
    exact .quiet rfl rfl (note_encode_pcm s fr c (some payload)) (fun _ => rfl) (fun _ => rfl)
      fun _ => rfl
  | finish w fr isLast hworker hlast =>
    exact .framed fr (fun frame => { frame with refs := (s.heap fr).refs - 1 }) rfl rfl
      (count_proj Use.pcm s fr ((s.heap fr).refs - 1)
        (f := fun l => l.finish w (isLast && cfg.bundled)) fun _ => rfl)
      rfl (fun _ => rfl) (fun _ => rfl) fun _ => rfl
  | marshalSkip w fr group groups hworker =>
    exact .quiet rfl rfl (marshal_pcm s fr group) (fun _ => rfl) (fun _ => rfl) fun _ => rfl
  | marshalPush w fr group groups buf hworker =>
    exact .quiet rfl rfl (marshal_pcm s fr group) (fun _ => rfl) (fun _ => rfl) fun _ => rfl
  | release w fr hworker =>
    exact .quiet rfl rfl (releaseFrame_proj Use.pcm s fr fun _ => rfl) (fun _ => rfl)
      (fun _ => rfl) fun _ => rfl

/-- No frame comes into use but by a call. -/
theorem line_of_uses (hok : s.Ok cfg.bundled) (h : Stepped cfg s s') (huses : s'.uses = s.uses) :
    ∀ fr ∈ s'.custody.line, fr ∈ s.custody.line := by
  have hline : ∀ fr ∈ s'.custody.line, fr ∈ s'.progress.line := fun _ hfr => hfr
  have hcount : s'.progress.uses = s'.uses := rfl
  rcases progress_step hok.1 h with heq | hs
  · rw [heq] at hline
    exact hline
  · generalize s'.progress = p at hs hline hcount
    cases hs with
    | start => exact absurd (hcount.trans huses) (Nat.succ_ne_self _)
    | leave line pending hsub => exact fun fr hfr => hsub.subset (hline fr hfr)
    | fill => exact hline
    | encode => exact hline

/-- What a channel was encoded to in a use stays on record. -/
theorem encoded_kept (hok : s.Ok cfg.bundled) (h : Stepped cfg s s') {u c : ℕ}
    {r : A × Option (List UInt8)} (hr : (s.log u).encoded c = some r) :
    (s'.log u).encoded c = some r := by
  show s'.progress.results u c = some r
  have hr' : s.progress.results u c = some r := hr
  rcases progress_step hok.1 h with heq | hs
  · rw [heq]
    exact hr'
  · generalize s'.progress = p at hs
    cases hs with
    | start fr pcm oldPcm old =>
      -- a use that is still to come has nothing on record
      have hne : u ≠ s.progress.uses := by
        rintro rfl
        rw [hok.2.unborn _ c (le_refl _)] at hr'
        cases hr'
      show Function.update s.progress.results s.progress.uses _ u c = some r
      rw [Function.update_of_ne hne]
      exact hr'
    | fill => exact hr'
    | leave => exact hr'
    | encode w fr c' cs result hfr hfilled hpending hfirst =>
      show Function.update s.progress.results (s.progress.use fr) _ u c = some r
      by_cases hu : u = s.progress.use fr
      · -- the channel that is encoded now was pending
        have hne : c ≠ c' := by
          rintro rfl
          have hin : c ∈ s.progress.pending w fr := by
            rw [hpending]
            exact List.mem_cons_self
          have hnone := (hok.2.unencoded fr hfr w c ((hok.2.suffix w fr hfr).subset hin)).mpr hin
          rw [← hu, hr'] at hnone
          cases hnone
        rw [hu, Function.update_self, Function.update_of_ne hne, ← hu]
        exact hr'
      · rw [Function.update_of_ne hu]
        exact hr'

/-! ### The stamps of frames in use -/

/-- The frames in use, the filled ones, have the stamps of the calls they are used in. -/
structure Stamped (xs : List (Submission A)) (s : State A K) : Prop where
  count : s.uses = xs.length
  pcm : ∀ u x, xs[u]? = some x → (s.log u).pcm = x.pcm
  filling : ∀ fr pcm frameTs isRec, s.mixer = .filling fr pcm frameTs isRec →
    xs[(s.heap fr).use]? = some ⟨pcm, frameTs, isRec⟩
  stamp : ∀ fr ∈ s.custody.line,
    (∀ pcm frameTs isRec, s.mixer ≠ .filling fr pcm frameTs isRec) →
      ∃ x, xs[(s.heap fr).use]? = some x ∧ (s.heap fr).frameTs = x.frameTs ∧
        (s.heap fr).isRec = x.isRec

theorem stamped_initial (cfg : Config A) : Stamped [] (initial cfg : State A K) where
  count := rfl
  pcm _ _ h := by cases h
  filling _ _ _ _ h := by cases h
  stamp _ h := by cases h

variable {xs : List (Submission A)} {item : Outgoing}

theorem Stamped.begun (h : Stamped xs s) (hok : s.Ok cfg.bundled) {x : Submission A}
    (hb : Begun cfg s s' x) : Stamped (xs ++ [x]) s' := by
  obtain ⟨hmixer, huses, ⟨fr, hfilling, hfr, hheap, hline⟩, hlog, -⟩ := hb
  have hnew : (xs ++ [x])[s.uses]? = some x := by
    rw [h.count, List.getElem?_append_right (le_refl _), Nat.sub_self]
    rfl
  have hold : ∀ u < s.uses, (xs ++ [x])[u]? = xs[u]? := fun u hu =>
    List.getElem?_append_left (h.count ▸ hu)
  refine
    { count := ?count
      pcm := fun u y hy => ?pcm
      filling := fun f pcm frameTs isRec hf => ?filling
      stamp := fun f hf hfilled => ?stamp }
  case count =>
    rw [huses, h.count, List.length_append]
    rfl
  case pcm =>
    rw [hlog]
    -- an older use, the new one, or none at all
    rcases lt_trichotomy u s.uses with hlt | rfl | hgt
    · rw [Function.update_of_ne hlt.ne]
      exact h.pcm u y (hold u hlt ▸ hy)
    · rw [Function.update_self]
      obtain rfl := Option.some.inj (hnew.symm.trans hy)
      rfl
    · rw [h.count] at hgt
      rw [List.getElem?_eq_none (by rw [List.length_append]; exact hgt)] at hy
      cases hy
  case filling =>
    rw [hfilling] at hf
    cases hf
    rw [hfr]
    exact hnew
  case stamp =>
    -- the frames filled before are not the new one
    have hne : f ≠ fr := by
      rintro rfl
      exact hfilled _ _ _ hfilling
    have hin := (hline f hf).resolve_right hne
    obtain ⟨y, hy, hts, hrec⟩ := h.stamp f hin fun _ _ _ => by rw [hmixer]; exact nofun
    rw [hheap f hne]
    exact ⟨y, (hold _ (hok.2.use_lt f hin)).trans hy, hts, hrec⟩

theorem Stamped.goesOn (h : Stamped xs s) (hline : ∀ fr ∈ s'.custody.line, fr ∈ s.custody.line)
    (hg : GoesOn s s') : Stamped xs s' where
  count := hg.uses.trans h.count
  pcm u x hx := (hg.pcm u).trans (h.pcm u x hx)
  filling fr pcm frameTs isRec hf := by
    rw [hg.use]
    exact h.filling fr pcm frameTs isRec (hg.filling fr pcm frameTs isRec hf)
  stamp fr hfr hfilled := by
    rw [hg.use]
    rcases hg.stamp fr hfilled with ⟨hts, hrec, hbefore⟩ | ⟨pcm, hfilling⟩
    · rw [hts, hrec]
      exact h.stamp fr (hline fr hfr) hbefore
    · -- the frame has just been filled
      exact ⟨_, h.filling fr pcm _ _ hfilling, rfl, rfl⟩

/-- **Every step keeps the stamps of the frames in use.** -/
theorem Stamped.step (h : Stamped xs s) (hok : s.Ok cfg.bundled)
    (hstep : step cfg s a = some s') : Stamped (xs ++ a.submission.toList) s' := by
  cases ha : a.submission with
  | some x =>
    cases a with
    | submit pcm frameTs isRec pooled =>
      obtain rfl := Option.some.inj ha
      exact h.begun hok (begun_of_submit hstep)
    | _ => cases ha
  | none =>
    rw [Option.toList_none, List.append_nil]
    have huses := uses_step hstep ha
    refine h.goesOn (fun fr hfr => ?_) (goesOn_of_stepped (step_cases hstep) huses)
    exact (line_of_uses hok (step_cases hstep) huses) fr hfr

/-! ### Packets -/

/-- The packet is of the call it was made in: of its timestamp and its flag, and of
payloads that channels came to when they were encoded from its PCM. -/
inductive Genuine (cfg : Config A) (s : State A K) (x : Submission A) (item : Outgoing) : Prop
  | bundle (group : List UInt8) (chans : List ChannelPayload) (hbundled : cfg.bundled = true)
      (hgroup : group ∈ cfg.layout) (hbuf : marshalBundle x.frameTs chans x.isRec = .ok item.buf)
      (hchans : ∀ c ∈ chans, c.chIdx ∈ group ∧ c.payload ≠ [] ∧
        (s.log item.use).encoded c.chIdx.toNat = some (x.pcm c.chIdx.toNat, some c.payload))
  | single (p : Packet) (hbundled : cfg.bundled = false) (hbuf : p.marshalBinary = .ok item.buf)
      (hts : p.frameTs = x.frameTs) (hrec : p.isRec = x.isRec)
      (hencoded : (s.log item.use).encoded p.chIdx.toNat
        = some (x.pcm p.chIdx.toNat, some p.payload))

theorem Genuine.kept {x : Submission A} {item : Outgoing} (h : Genuine cfg s x item)
    (hok : s.Ok cfg.bundled) (hstep : Stepped cfg s s') : Genuine cfg s' x item := by
  cases h with
  | bundle group chans hbundled hgroup hbuf hchans =>
    refine .bundle group chans hbundled hgroup hbuf fun c hc => ?_
    obtain ⟨hin, hne, hencoded⟩ := hchans c hc
    exact ⟨hin, hne, encoded_kept hok hstep hencoded⟩
  | single p hbundled hbuf hts hrec hencoded =>
    exact .single p hbundled hbuf hts hrec (encoded_kept hok hstep hencoded)

/-- A packet comes into a worker's hands. -/
inductive Makes (cfg : Config A) (s s' : State A K) (item : Outgoing) : Prop
  | bundle (w : Fin K) (fr : ℕ) (group : List UInt8) (groups : List (List UInt8))
      (hworker : s.workers w = .bundling fr (group :: groups))
      (hbuf : marshalBundle (s.heap fr).frameTs (groupPayloads (s.heap fr).encoded group)
        (s.heap fr).isRec = .ok item.buf)
      (huse : item.use = (s.heap fr).use)
      (hencoded : ∀ u, (s'.log u).encoded = (s.log u).encoded)
  | single (w : Fin K) (fr c : ℕ) (cs : List ℕ) (payload : List UInt8)
      (hbundled : cfg.bundled = false) (hworker : s.workers w = .encoding fr (c :: cs))
      (hbuf : (legacyPacket s fr c payload).marshalBinary = .ok item.buf)
      (huse : item.use = (s.heap fr).use)
      (hencoded : (s'.log (s.heap fr).use).encoded c = some ((s.heap fr).pcm c, some payload))

/-- Only a worker that has just moved carries anything new. -/
theorem carrying_setWorker_cases {t : State A K} {w w' : Fin K} {wk : Worker}
    {x : ℕ × Outgoing × Next} (hworkers : t.workers = s.workers)
    (hc : ((t.setWorker w' wk).workers w).carrying = some x) :
    wk.carrying = some x ∨ (s.workers w).carrying = some x := by
  rw [carrying_setWorker] at hc
  split at hc
  · exact Or.inl hc
  · rw [hworkers] at hc
    exact Or.inr hc

theorem makes_of_encode {w w' : Fin K} {result : Option (List UInt8)}
    (h : step cfg s (.encode w' result) = some s') {fr : ℕ} {item : Outgoing} {next : Next}
    (hc : (s'.workers w).carrying = some (fr, item, next)) :
    (s.workers w).carrying = some (fr, item, next) ∨ Makes cfg s s' item := by
  simp only [step] at h
  split at h
  next f c cs hworker =>
    cases result with
    -- the encoder failed, and there is nothing to send
    | none =>
      obtain rfl := Option.some.inj h
      rcases carrying_setWorker_cases (s := s) rfl hc with hc | hc
      · cases hc
      · exact Or.inl hc
    | some payload =>
      cases hb : cfg.bundled with
      -- the payload waits in the frame for its bundle
      | true =>
        simp only [hb, if_true] at h
        obtain rfl := Option.some.inj h
        rcases carrying_setWorker_cases (s := s) rfl hc with hc | hc
        · cases hc
        · exact Or.inl hc
      -- the legacy format: the packet goes out at once, if it can be written
      | false =>
        simp only [hb, Bool.false_eq_true, if_false] at h
        cases hm : (legacyPacket s f c payload).marshalBinary with
        | error e =>
          simp only [hm] at h
          obtain rfl := Option.some.inj h
          rcases carrying_setWorker_cases (s := s) rfl hc with hc | hc
          · cases hc
          · exact Or.inl hc
        | ok buf =>
          simp only [hm] at h
          obtain rfl := Option.some.inj h
          rcases carrying_setWorker_cases (s := s) rfl hc with hc | hc
          · obtain ⟨rfl, hc'⟩ := Prod.mk.inj (Option.some.inj hc)
            obtain ⟨rfl, -⟩ := Prod.mk.inj hc'
            refine Or.inr (.single w' f c cs payload hb hworker hm rfl ?_)
            show ((Function.update s.log (s.heap f).use _ (s.heap f).use).encoded c) = _
            rw [Function.update_self]
            exact Function.update_self ..
          · exact Or.inl hc
  next => cases h

theorem makes_of_marshal {w w' : Fin K} (h : step cfg s (.marshal w') = some s') {fr : ℕ}
    {item : Outgoing} {next : Next} (hc : (s'.workers w).carrying = some (fr, item, next)) :
    (s.workers w).carrying = some (fr, item, next) ∨ Makes cfg s s' item := by
  simp only [step] at h
  split at h
  next f hworker =>
    obtain rfl := Option.some.inj h
    rcases carrying_setWorker_cases (s := s) rfl hc with hc | hc
    · cases hc
    · exact Or.inl hc
  next f group groups hworker =>
    split at h
    · obtain rfl := Option.some.inj h
      rcases carrying_setWorker_cases (s := s) rfl hc with hc | hc
      · cases hc
      · exact Or.inl hc
    · split at h
      · obtain rfl := Option.some.inj h
        rcases carrying_setWorker_cases (s := s) rfl hc with hc | hc
        · cases hc
        · exact Or.inl hc
      next buf hbuf =>
        obtain rfl := Option.some.inj h
        rcases carrying_setWorker_cases (s := s) rfl hc with hc | hc
        · obtain ⟨rfl, hc'⟩ := Prod.mk.inj (Option.some.inj hc)
          obtain ⟨rfl, -⟩ := Prod.mk.inj hc'
          refine Or.inr (.bundle w' f group groups hworker hbuf rfl ?_)
          exact note_proj Use.encoded s f
            (f := fun u => u.marshal group (groupPayloads (s.heap f).encoded group)) fun _ => rfl
        · exact Or.inl hc
  next => cases h

/-- A worker that pushes a packet keeps it, or has got rid of it. -/
theorem carrying_push {w w' : Fin K} (h : step cfg s (.push w') = some s')
    {x : ℕ × Outgoing × Next} (hc : (s'.workers w).carrying = some x) :
    (s.workers w).carrying = some x := by
  simp only [step] at h
  split at h
  next f item stage next hworker =>
    obtain rfl := Option.some.inj h
    rw [carrying_setWorker] at hc
    split at hc
    next hw =>
      rw [hw, hworker]
      split at hc
      · exact hc
      · rw [carrying_resume] at hc
        cases hc
    next => exact hc
  next => cases h

/-- A packet in a worker's hands was there before, or is made now. -/
theorem makes_of_carrying (h : step cfg s a = some s') {w : Fin K} {fr : ℕ} {item : Outgoing}
    {next : Next} (hc : (s'.workers w).carrying = some (fr, item, next)) :
    (s.workers w).carrying = some (fr, item, next) ∨ Makes cfg s s' item := by
  cases a with
  | encode w' result => exact makes_of_encode h hc
  | marshal w' => exact makes_of_marshal h hc
  | push w' => exact Or.inl (carrying_push h hc)
  | submit pcm frameTs isRec pooled =>
    rw [(begun_of_submit h).workers] at hc
    exact Or.inl hc
  | take w' =>
    simp only [step] at h
    split at h
    · obtain rfl := Option.some.inj h
      rcases carrying_setWorker_cases (s := s) rfl hc with hc | hc
      -- a worker that has taken a frame has nothing to send yet
      · cases hc
      · exact Or.inl hc
    · cases h
  | finish w' =>
    simp only [step] at h
    split at h
    · obtain rfl := Option.some.inj h
      rcases carrying_setWorker_cases (s := s) rfl hc with hc | hc
      · split at hc
        · split at hc <;> cases hc
        · cases hc
      · exact Or.inl hc
    · cases h
  | release w' =>
    simp only [step] at h
    split at h
    · obtain rfl := Option.some.inj h
      rcases carrying_setWorker_cases (s := s) rfl hc with hc | hc
      · cases hc
      · exact Or.inl hc
    · cases h
  | _ =>
    -- the mixer, the dispatcher and `sendLoop` leave the workers alone
    simp only [step] at h
    repeat' split at h
    all_goals first
      | exact absurd h (Option.some_ne_none _).symm
      | obtain rfl := Option.some.inj h
        exact Or.inl hc

/-- A dispatched frame is not being filled. -/
theorem not_filling_of_flight (hok : s.custody.Ok cfg.bundled) {fr : ℕ} (hfr : fr ∈ s.flight)
    (pcm : ℕ → A) (frameTs : UInt32) (isRec : Bool) : s.mixer ≠ .filling fr pcm frameTs isRec := by
  intro hmixer
  have hfresh : s.mixer.fresh = some fr := congrArg Mixer.fresh hmixer
  have hnodup := hok.line_nodup
  rw [Custody.line, List.nodup_append] at hnodup
  exact hnodup.2.2 fr (List.mem_append_left _ hfr) fr (Option.mem_toList.mpr hfresh) rfl

theorem filling_of_unfilled {mixer : Mixer A} {fr : ℕ} {pcm : ℕ → A}
    (h : mixer.unfilled = some (fr, pcm)) :
    ∃ frameTs isRec, mixer = .filling fr pcm frameTs isRec := by
  cases mixer with
  | filling f p frameTs isRec =>
    obtain ⟨rfl, rfl⟩ := Prod.mk.inj (Option.some.inj h)
    exact ⟨frameTs, isRec, rfl⟩
  | _ => cases h

/-- What has been made is genuine. -/
theorem Makes.genuine (h : Makes cfg s s' item) (hok : s.Ok cfg.bundled) (hbundles : Bundles cfg s)
    (hstamped : Stamped xs s) : ∃ x, xs[item.use]? = some x ∧ Genuine cfg s' x item := by
  cases h with
  | bundle w fr group groups hworker hbuf huse hencoded =>
    have hflight := finishing_mem_flight hok.1 (w := w) (congrArg Worker.finishing hworker)
    have hline : fr ∈ s.custody.line := Custody.mem_line.mpr (Or.inl hflight)
    obtain ⟨x, hx, hts, hrec⟩ :=
      hstamped.stamp fr hline (not_filling_of_flight hok.1 hflight)
    -- the group is one of the layout, and what is in it comes from the frame
    have hgroup : group ∈ cfg.layout := by
      rw [← hbundles.underway w fr _ (congrArg Worker.groups hworker)]
      exact List.mem_append_right _ List.mem_cons_self
    have hbundled : cfg.bundled = true := by
      by_contra hlegacy
      rw [Config.layout, if_neg hlegacy] at hgroup
      cases hgroup
    rw [hts, hrec] at hbuf
    rw [← huse] at hx
    refine ⟨x, hx, .bundle group _ hbundled hgroup hbuf fun c hc => ?_⟩
    obtain ⟨hin, hne, hpayload⟩ := mem_groupPayloads.mp hc
    -- what the frame holds for a channel is what the channel came to in this use
    have hstored : (s.heap fr).encoded c.chIdx.toNat
        = Progress.outcome ((s.log (s.heap fr).use).encoded c.chIdx.toNat) :=
      hok.2.stored hbundled fr hline c.chIdx.toNat
    obtain ⟨y, hy⟩ := (outcome_eq_iff hne).mp (hstored.symm.trans hpayload)
    have hsource : y = (s.log (s.heap fr).use).pcm c.chIdx.toNat := hok.2.source _ _ _ _ hy
    rw [← huse, hstamped.pcm _ _ hx] at hsource
    rw [← huse] at hy
    rw [hencoded, hy, hsource]
    exact ⟨hin, hne, rfl⟩
  | single w fr c cs payload hbundled hworker hbuf huse hencoded =>
    have hflight := current_mem_flight hok.1 (w := w) (congrArg Worker.current hworker)
    have hline : fr ∈ s.custody.line := Custody.mem_line.mpr (Or.inl hflight)
    have hfilled := not_filling_of_flight hok.1 hflight
    obtain ⟨x, hx, hts, hrec⟩ := hstamped.stamp fr hline hfilled
    -- the worker encodes channels of its own range, so the index fits a byte
    have hchannel : c < channels :=
      lt_of_mem_channelRange ((remaining_suffix hok (congrArg Worker.remaining hworker)).subset
        List.mem_cons_self)
    have hchIdx : (legacyPacket s fr c payload).chIdx.toNat = c := by
      show (UInt8.ofNat c).toNat = c
      rw [UInt8.toNat_ofNat']
      exact Nat.mod_eq_of_lt (hchannel.trans (by decide))
    have hpcm : (s.heap fr).pcm = x.pcm := by
      have hgiven : (s.heap fr).pcm = (s.log (s.heap fr).use).pcm := by
        refine hok.2.filled fr hline fun pcm hunfilled => ?_
        obtain ⟨frameTs, isRec, hmixer⟩ := filling_of_unfilled hunfilled
        exact hfilled pcm frameTs isRec hmixer
      rw [hgiven, hstamped.pcm _ _ hx]
    refine ⟨x, huse ▸ hx, .single _ hbundled hbuf hts hrec ?_⟩
    rw [hchIdx, huse, hencoded, hpcm]
    rfl

/-- Every packet there is, in the hands of a worker or past them, is genuine. -/
def AllGenuine (cfg : Config A) (xs : List (Submission A)) (s : State A K) : Prop :=
  ∀ item, (item ∈ s.out ∨ ∃ w fr next, (s.workers w).carrying = some (fr, item, next)) →
    ∃ x, xs[item.use]? = some x ∧ Genuine cfg s x item

theorem allGenuine_initial (cfg : Config A) : AllGenuine cfg [] (initial cfg : State A K) := by
  rintro item (h | ⟨w, fr, next, h⟩) <;> cases h

/-- **Every step makes genuine packets, and keeps them so.** -/
theorem AllGenuine.step (h : AllGenuine cfg xs s) (hok : s.Ok cfg.bundled)
    (hbundles : Bundles cfg s) (hstamped : Stamped xs s) (hstep : step cfg s a = some s') :
    AllGenuine cfg (xs ++ a.submission.toList) s' := by
  have hstepped := step_cases hstep
  have hlonger : ∀ {u : ℕ} {x : Submission A}, xs[u]? = some x →
      (xs ++ a.submission.toList)[u]? = some x := fun hx =>
    (List.getElem?_append_left (List.getElem?_eq_some_iff.mp hx).1).trans hx
  have hkept : ∀ item,
      (item ∈ s.out ∨ ∃ w fr next, (s.workers w).carrying = some (fr, item, next)) →
      ∃ x, (xs ++ a.submission.toList)[item.use]? = some x ∧ Genuine cfg s' x item := by
    intro item hitem
    obtain ⟨x, hx, hgenuine⟩ := h item hitem
    exact ⟨x, hlonger hx, hgenuine.kept hok hstepped⟩
  rintro item (hout | ⟨w, fr, next, hcarrying⟩)
  · -- what is queued now was queued before, or in a worker's hands
    refine hkept item ?_
    cases sends_step hok hstepped with
    | quiet hsub => exact Or.inl (hsub.subset hout)
    | marshalled w fr group groups buf hworker hsame => exact Or.inl (hsame ▸ hout)
    | numbered w fr c cs payload buf hbundled hworker hmarshal hsame => exact Or.inl (hsame ▸ hout)
    | enqueued w fr new next hworker hsnoc =>
      rw [hsnoc, List.mem_append, List.mem_singleton] at hout
      rcases hout with hin | rfl
      · exact Or.inl hin
      · exact Or.inr ⟨w, fr, next, hworker⟩
  · rcases makes_of_carrying hstep hcarrying with hbefore | hmakes
    · exact hkept item (Or.inr ⟨w, fr, next, hbefore⟩)
    · obtain ⟨x, hx, hgenuine⟩ := hmakes.genuine hok hbundles hstamped
      exact ⟨x, hlonger hx, hgenuine⟩

/-- What holds of a pipeline after the calls `xs`. -/
structure Traced (cfg : Config A) (xs : List (Submission A)) (s : State A K) : Prop where
  ok : s.Ok cfg.bundled
  bundles : Bundles cfg s
  stamped : Stamped xs s
  genuine : AllGenuine cfg xs s

theorem traced_initial (cfg : Config A) : Traced cfg [] (initial cfg : State A K) :=
  ⟨ok_initial cfg, bundles_initial cfg, stamped_initial cfg, allGenuine_initial cfg⟩

theorem Traced.step (hK : 0 < K) (h : Traced cfg xs s) (hstep : step cfg s a = some s') :
    Traced cfg (xs ++ a.submission.toList) s' where
  ok := ok_step hK h.ok (step_cases hstep)
  bundles := bundles_step hK h.ok.1 h.ok.2 h.bundles (step_cases hstep)
  stamped := h.stamped.step h.ok hstep
  genuine := h.genuine.step h.ok h.bundles h.stamped hstep

/-- **The packets of a run are genuine.**  Whatever the number of workers and the
interleaving, what is handed to `dc.Send` is of the frame it was made in. -/
theorem packets_genuine (cfg : Config A) (hK : 0 < K) {as : List (Action A K)} {s : State A K}
    (h : Run (step cfg) (initial cfg) as s) : AllGenuine cfg (submissions as) s := by
  have hkeep : ∀ (past : List (Action A K)) s₁ a s₂, Traced cfg (submissions past) s₁ → True →
      Pipeline.step cfg s₁ a = some s₂ → Traced cfg (submissions (past ++ [a])) s₂ := by
    intro past s₁ a s₂ htraced _ hstep
    rw [submissions_snoc]
    exact htraced.step hK hstep
  have hinit : Traced cfg (submissions ([] : List (Action A K))) (initial cfg : State A K) :=
    traced_initial cfg
  exact (h.invariant_history hkeep (fun _ _ _ _ _ _ => trivial) hinit).genuine

end Pipeline

end AmbiRTC
