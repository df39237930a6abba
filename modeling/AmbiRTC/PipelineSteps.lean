/-
AmbiRTC/PipelineSteps.lean

What a step of the pipeline does, outcome by outcome (`Stepped`).  Invariants of
the pipeline are proved by cases on the outcome, and never unfold `step`.

Main results: every step has one of the outcomes (`step_cases`), and what every
outcome keeps holds after every run (`invariant_of_stepped`).
-/
import AmbiRTC.Pipeline

namespace AmbiRTC

namespace Pipeline

open DropOldest Runs

variable {A : Type} {K : ℕ}

/-- The outcomes of a step. -/
inductive Stepped (cfg : Config A) (s : State A K) : State A K → Prop
  | acquire (pcm : ℕ → A) (frameTs : UInt32) (isRec : Bool) (fr : ℕ) (hmixer : s.mixer = .idle)
      (hpool : fr ∈ s.pool) :
      Stepped cfg s
        { s with
          uses := s.uses + 1
          log := Function.update s.log s.uses (Use.new pcm)
          pool := s.pool.erase fr
          heap := Function.update s.heap fr ((s.heap fr).ready cfg s.uses)
          mixer := .filling fr pcm frameTs isRec }
  | allocate (pcm : ℕ → A) (frameTs : UInt32) (isRec : Bool) (hmixer : s.mixer = .idle) :
      Stepped cfg s
        { s with
          uses := s.uses + 1
          log := Function.update s.log s.uses (Use.new pcm)
          allocated := s.allocated + 1
          heap := Function.update s.heap s.allocated ((newFrame cfg).ready cfg s.uses)
          mixer := .filling s.allocated pcm frameTs isRec }
  | fill (fr : ℕ) (pcm : ℕ → A) (frameTs : UInt32) (isRec : Bool)
      (hmixer : s.mixer = .filling fr pcm frameTs isRec) :
      Stepped cfg s
        { s.setFrame fr fun frame => { frame with pcm, frameTs, isRec } with
          mixer := .pushing fr .attempt }
  | pushAgain (fr : ℕ) (stage stage' : Stage) (hmixer : s.mixer = .pushing fr stage) :
      Stepped cfg s { s with mixer := .pushing fr stage' }
  | enqueue (fr : ℕ) (stage : Stage) (hmixer : s.mixer = .pushing fr stage) :
      Stepped cfg s { s with mixCh := s.mixCh ++ [fr], mixer := .idle }
  | evict (fr : ℕ) (stage : Stage) (old : ℕ) (rest : List ℕ)
      (hmixer : s.mixer = .pushing fr stage) (hmix : s.mixCh = old :: rest) :
      Stepped cfg s { s with mixCh := rest, mixer := .recycling old (some (fr, .retry)) }
  | giveUp (fr : ℕ) (stage : Stage) (hmixer : s.mixer = .pushing fr stage) :
      Stepped cfg s { s with mixer := .recycling fr none }
  | recycle (old : ℕ) (next : Option (ℕ × Stage)) (hmixer : s.mixer = .recycling old next) :
      Stepped cfg s
        { releaseFrame s old with mixDrops := s.mixDrops + 1, mixer := .next next }
  | collect (fr : ℕ) (hpool : fr ∈ s.pool) :
      Stepped cfg s { s with pool := s.pool.erase fr, collected := fr :: s.collected }
  | dispatch (fr : ℕ) (rest : List ℕ) (hdispatcher : s.dispatcher = .idle)
      (hmix : s.mixCh = fr :: rest) :
      Stepped cfg s
        (({ s with
            mixCh := rest
            dispatcher := .fanning fr 0
            flight := s.flight ++ [fr] }.setFrame fr fun frame => { frame with refs := K }).note fr
          fun u => { u with life := u.life.dispatch })
  | sendJob (fr w : ℕ) (hw : w < K) (hdispatcher : s.dispatcher = .fanning fr w) :
      Stepped cfg s
        { s with
          jobs := Function.update s.jobs ⟨w, hw⟩ (s.jobs ⟨w, hw⟩ ++ [fr])
          dispatcher := if w + 1 < K then .fanning fr (w + 1) else .idle }
  | take (w : Fin K) (fr : ℕ) (rest : List ℕ) (hworker : s.workers w = .idle)
      (hjobs : s.jobs w = fr :: rest) :
      Stepped cfg s ({ s with jobs := Function.update s.jobs w rest }.setWorker w
        (.encoding fr (channelRange K w)))
  | encodeFailed (w : Fin K) (fr c : ℕ) (cs : List ℕ)
      (hworker : s.workers w = .encoding fr (c :: cs)) :
      Stepped cfg s ((s.note fr fun u => u.encode c ((s.heap fr).pcm c) none).setWorker w
        (.encoding fr cs))
  | encodeBundled (w : Fin K) (fr c : ℕ) (cs : List ℕ) (payload : List UInt8)
      (hworker : s.workers w = .encoding fr (c :: cs)) (hbundled : cfg.bundled = true) :
      Stepped cfg s
        (({ s.note fr fun u => u.encode c ((s.heap fr).pcm c) (some payload) with
            encCount := s.encCount + 1 }.setFrame fr fun frame =>
          { frame with encoded := Function.update frame.encoded c payload }).setWorker w
            (.encoding fr cs))
  | encodeRefused (w : Fin K) (fr c : ℕ) (cs : List ℕ) (payload : List UInt8) (e : ProtoError)
      (hworker : s.workers w = .encoding fr (c :: cs)) (hbundled : cfg.bundled = false)
      (hmarshal : (legacyPacket s fr c payload).marshalBinary = .error e) :
      Stepped cfg s
        ({ s.note fr fun u => u.encode c ((s.heap fr).pcm c) (some payload) with
            encCount := s.encCount + 1
            encSeq := Function.update s.encSeq c (s.encSeq c + 1) }.setWorker w (.encoding fr cs))
  | encodeLegacy (w : Fin K) (fr c : ℕ) (cs : List ℕ) (payload buf : List UInt8)
      (hworker : s.workers w = .encoding fr (c :: cs)) (hbundled : cfg.bundled = false)
      (hmarshal : (legacyPacket s fr c payload).marshalBinary = .ok buf) :
      Stepped cfg s
        ({ s.note fr fun u => u.encode c ((s.heap fr).pcm c) (some payload) with
            encCount := s.encCount + 1
            encSeq := Function.update s.encSeq c (s.encSeq c + 1) }.setWorker w
          (.pushing fr ⟨buf, (s.heap fr).use, some (legacyPacket s fr c payload)⟩ .attempt
            (.encode cs)))
  | sendAgain (w : Fin K) (fr : ℕ) (item : Outgoing) (stage stage' : Stage) (next : Next)
      (hworker : s.workers w = .pushing fr item stage next) :
      Stepped cfg s (s.setWorker w (.pushing fr item stage' next))
  | sendEnqueue (w : Fin K) (fr : ℕ) (item : Outgoing) (stage : Stage) (next : Next)
      (hworker : s.workers w = .pushing fr item stage next) :
      Stepped cfg s ({ s with sendCh := s.sendCh ++ [item] }.setWorker w (resume fr next))
  | sendEvict (w : Fin K) (fr : ℕ) (item : Outgoing) (stage : Stage) (next : Next)
      (old : Outgoing) (rest : List Outgoing)
      (hworker : s.workers w = .pushing fr item stage next) (hsend : s.sendCh = old :: rest) :
      Stepped cfg s ({ s with sendCh := rest, sendDrops := s.sendDrops + 1 }.setWorker w
        (.pushing fr item .retry next))
  | sendGiveUp (w : Fin K) (fr : ℕ) (item : Outgoing) (stage : Stage) (next : Next)
      (hworker : s.workers w = .pushing fr item stage next) :
      Stepped cfg s ({ s with sendDrops := s.sendDrops + 1 }.setWorker w (resume fr next))
  | finish (w : Fin K) (fr : ℕ) (isLast : Bool) (hworker : s.workers w = .encoding fr [])
      (hlast : isLast = decide ((s.heap fr).refs - 1 = 0)) :
      Stepped cfg s
        (((s.setFrame fr fun frame => { frame with refs := (s.heap fr).refs - 1 }).note fr fun u =>
          { u with life := u.life.finish w (isLast && cfg.bundled) }).setWorker w
            (if isLast then
              if cfg.bundled then .bundling fr cfg.layout else .releasing fr
            else .idle))
  | marshalDone (w : Fin K) (fr : ℕ) (hworker : s.workers w = .bundling fr []) :
      Stepped cfg s (s.setWorker w (.releasing fr))
  | marshalSkip (w : Fin K) (fr : ℕ) (group : List UInt8) (groups : List (List UInt8))
      (hworker : s.workers w = .bundling fr (group :: groups)) :
      Stepped cfg s
        ((s.note fr fun u => u.marshal group (groupPayloads (s.heap fr).encoded group)).setWorker w
          (.bundling fr groups))
  | marshalPush (w : Fin K) (fr : ℕ) (group : List UInt8) (groups : List (List UInt8))
      (buf : List UInt8) (hworker : s.workers w = .bundling fr (group :: groups)) :
      Stepped cfg s
        ((s.note fr fun u => u.marshal group (groupPayloads (s.heap fr).encoded group)).setWorker w
          (.pushing fr ⟨buf, (s.heap fr).use, none⟩ .attempt (.bundle groups)))
  | release (w : Fin K) (fr : ℕ) (hworker : s.workers w = .releasing fr) :
      Stepped cfg s ({ releaseFrame s fr with flight := s.flight.erase fr }.setWorker w .idle)
  | transmit (item : Outgoing) (rest : List Outgoing) (hsend : s.sendCh = item :: rest) :
      Stepped cfg s { s with sendCh := rest, sent := s.sent ++ [item] }
  | discard (item : Outgoing) (rest : List Outgoing) (hsend : s.sendCh = item :: rest) :
      Stepped cfg s { s with sendCh := rest, sendDrops := s.sendDrops + 1 }

variable {cfg : Config A} {s s' : State A K} {a : Action A K}

/-! ### The steps of `SubmitMix` and `encodeDispatcher` -/

theorem stepped_submit {pcm : ℕ → A} {frameTs : UInt32} {isRec : Bool} {pooled : Option ℕ}
    (h : step cfg s (.submit pcm frameTs isRec pooled) = some s') : Stepped cfg s s' := by
  simp only [step] at h
  split at h
  next hmixer =>
    cases pooled with
    | none =>
      obtain rfl := Option.some.inj h
      exact .allocate pcm frameTs isRec hmixer
    | some fr =>
      by_cases hpool : fr ∈ s.pool
      · simp only [acquireFrame, if_pos hpool] at h
        obtain rfl := Option.some.inj h
        exact .acquire pcm frameTs isRec fr hmixer hpool
      · simp only [acquireFrame, if_neg hpool] at h
        cases h
  next => cases h

theorem stepped_pushMix (h : step cfg s .pushMix = some s') : Stepped cfg s s' := by
  simp only [step] at h
  split at h
  next fr stage hmixer =>
    obtain rfl := Option.some.inj h
    rcases push_cases mixCap s.mixCh fr stage with ⟨stage', hp⟩ | ⟨-, hp⟩ | ⟨old, rest, hq, hp⟩ | hp
    · rw [hp]
      exact .pushAgain fr stage stage' hmixer
    · rw [hp]
      exact .enqueue fr stage hmixer
    · rw [hp]
      exact .evict fr stage old rest hmixer hq
    · rw [hp]
      exact .giveUp fr stage hmixer
  next => cases h

theorem stepped_sendJob (h : step cfg s .sendJob = some s') : Stepped cfg s s' := by
  simp only [step] at h
  split at h
  next fr w hdispatcher =>
    split at h
    next hw =>
      split at h
      · obtain rfl := Option.some.inj h
        exact .sendJob fr w hw hdispatcher
      · cases h
    · cases h
  next => cases h

/-! ### The steps of a worker -/

theorem stepped_encode {w : Fin K} {result : Option (List UInt8)}
    (h : step cfg s (.encode w result) = some s') : Stepped cfg s s' := by
  simp only [step] at h
  split at h
  next fr c cs hworker =>
    cases result with
    | none =>
      obtain rfl := Option.some.inj h
      exact .encodeFailed w fr c cs hworker
    | some payload =>
      cases hb : cfg.bundled with
      | true =>
        simp only [hb, if_true] at h
        obtain rfl := Option.some.inj h
        exact .encodeBundled w fr c cs payload hworker hb
      | false =>
        simp only [hb, Bool.false_eq_true, if_false] at h
        cases hm : (legacyPacket s fr c payload).marshalBinary with
        | error e =>
          simp only [hm] at h
          obtain rfl := Option.some.inj h
          exact .encodeRefused w fr c cs payload e hworker hb hm
        | ok buf =>
          simp only [hm] at h
          obtain rfl := Option.some.inj h
          exact .encodeLegacy w fr c cs payload buf hworker hb hm
  next => cases h

theorem stepped_push {w : Fin K} (h : step cfg s (.push w) = some s') : Stepped cfg s s' := by
  simp only [step] at h
  split at h
  next fr item stage next hworker =>
    obtain rfl := Option.some.inj h
    rcases push_cases sendCap s.sendCh item stage with
      ⟨stage', hp⟩ | ⟨-, hp⟩ | ⟨old, rest, hq, hp⟩ | hp
    · rw [hp]
      exact .sendAgain w fr item stage stage' next hworker
    · rw [hp]
      exact .sendEnqueue w fr item stage next hworker
    · rw [hp]
      exact .sendEvict w fr item stage next old rest hworker hq
    · rw [hp]
      exact .sendGiveUp w fr item stage next hworker
  next => cases h

theorem stepped_marshal {w : Fin K} (h : step cfg s (.marshal w) = some s') :
    Stepped cfg s s' := by
  simp only [step] at h
  split at h
  next fr hworker =>
    obtain rfl := Option.some.inj h
    exact .marshalDone w fr hworker
  next fr group groups hworker =>
    split at h
    · obtain rfl := Option.some.inj h
      exact .marshalSkip w fr group groups hworker
    · split at h
      · obtain rfl := Option.some.inj h
        exact .marshalSkip w fr group groups hworker
      next buf _ =>
        obtain rfl := Option.some.inj h
        exact .marshalPush w fr group groups buf hworker
  next => cases h

/-! ### All steps -/

/-- **Every step has one of the outcomes.** -/
theorem step_cases (h : step cfg s a = some s') : Stepped cfg s s' := by
  cases a with
  -- the steps with branches of their own are inverted above
  | submit pcm frameTs isRec pooled => exact stepped_submit h
  | fill =>
    simp only [step] at h
    split at h
    next fr pcm frameTs isRec hmixer =>
      obtain rfl := Option.some.inj h
      exact .fill fr pcm frameTs isRec hmixer
    next => cases h
  | pushMix => exact stepped_pushMix h
  | recycle =>
    simp only [step] at h
    split at h
    next old next hmixer =>
      obtain rfl := Option.some.inj h
      exact .recycle old next hmixer
    next => cases h
  | collect fr =>
    simp only [step] at h
    split at h
    next hpool =>
      obtain rfl := Option.some.inj h
      exact .collect fr hpool
    next => cases h
  | dispatch =>
    simp only [step] at h
    split at h
    next fr rest hdispatcher hmix =>
      obtain rfl := Option.some.inj h
      exact .dispatch fr rest hdispatcher hmix
    next => cases h
  | sendJob => exact stepped_sendJob h
  | take w =>
    simp only [step] at h
    split at h
    next fr rest hworker hjobs =>
      obtain rfl := Option.some.inj h
      exact .take w fr rest hworker hjobs
    next => cases h
  | encode w result => exact stepped_encode h
  | push w => exact stepped_push h
  -- whether the worker is the last is decided here, and not by the step
  | finish w =>
    simp only [step] at h
    split at h
    next fr hworker =>
      obtain rfl := Option.some.inj h
      exact .finish w fr _ hworker rfl
    next => cases h
  | marshal w => exact stepped_marshal h
  | release w =>
    simp only [step] at h
    split at h
    next fr hworker =>
      obtain rfl := Option.some.inj h
      exact .release w fr hworker
    next => cases h
  | transmit =>
    simp only [step] at h
    split at h
    next item rest hsend =>
      obtain rfl := Option.some.inj h
      exact .transmit item rest hsend
    next => cases h
  | discard =>
    simp only [step] at h
    split at h
    next item rest hsend =>
      obtain rfl := Option.some.inj h
      exact .discard item rest hsend
    next => cases h

/-- What every outcome keeps holds after every run. -/
theorem invariant_of_stepped {I : State A K → Prop}
    (hstep : ∀ s s', I s → Stepped cfg s s' → I s') {as : List (Action A K)}
    (h : Run (step cfg) s as s') (hs : I s) : I s' :=
  h.invariant (fun s _ s' hI ha => hstep s s' hI (step_cases ha)) hs

end Pipeline

end AmbiRTC
