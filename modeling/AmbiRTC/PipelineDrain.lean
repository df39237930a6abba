/-
AmbiRTC/PipelineDrain.lean

The encode pipeline comes to rest.  Every step of a goroutine uses up some of the work
that is left (`work`), so without new mixes there are only so many; and where no
goroutine can go on there is nothing left to do: no frame is stuck in a queue, and no
goroutine waits for another that waits for it.

Main result: `drains`, from any reachable state and in every interleaving.
-/
import AmbiRTC.PipelineProgress
import Mathlib.Algebra.BigOperators.Group.Finset.Basic

namespace AmbiRTC

namespace Pipeline

open DropOldest Runs

variable {A : Type} {K : ℕ}

/-! ### The work that is left -/

/-- For a packet: what it takes to marshal and push it. -/
def packetWork : ℕ := 5

/-- For a frame a worker has encoded: bundling and releasing it, as if it were the
last. -/
def finishWork (cfg : Config A) : ℕ := packetWork * cfg.layout.length + 4

/-- For a frame in the queue of a worker. -/
def jobWork (cfg : Config A) : ℕ := packetWork * channels + finishWork cfg + 1

/-- For a frame in `mixCh`. -/
def mixWork (cfg : Config A) (K : ℕ) : ℕ := K * (jobWork cfg + 1) + 3

/-- For what a worker goes back to. -/
def Next.work (cfg : Config A) : Next → ℕ
  | .encode cs => packetWork * cs.length + finishWork cfg
  | .bundle groups => packetWork * groups.length + 3

/-- For what a worker is doing. -/
def Worker.work (cfg : Config A) : Worker → ℕ
  | .idle => 0
  | .encoding _ cs => packetWork * cs.length + finishWork cfg
  | .bundling _ groups => packetWork * groups.length + 3
  | .pushing _ _ stage next => stage.left + 1 + next.work cfg
  | .releasing _ => 2

/-- For the dispatcher. -/
def Dispatcher.work (cfg : Config A) (K : ℕ) : Dispatcher → ℕ
  | .idle => 0
  | .fanning _ w => (K - w) * (jobWork cfg + 1)

/-- For `SubmitMix`. -/
def Mixer.work (cfg : Config A) (K : ℕ) : Mixer A → ℕ
  | .idle => 0
  | .filling _ _ _ _ => 4 + mixWork cfg K
  | .pushing _ stage => stage.left + mixWork cfg K
  | .recycling _ next => 2 + next.elim 0 fun p => p.2.left + mixWork cfg K

/-- For a worker and its queue. -/
def State.workOf (cfg : Config A) (s : State A K) (w : Fin K) : ℕ :=
  jobWork cfg * (s.jobs w).length + (s.workers w).work cfg

/-- The work that is left; a pooled frame can still be collected. -/
def State.work (cfg : Config A) (s : State A K) : ℕ :=
  s.pool.length + s.sendCh.length + mixWork cfg K * s.mixCh.length + s.mixer.work cfg K
    + s.dispatcher.work cfg K + ∑ w, s.workOf cfg w

variable {cfg : Config A} {s t s' : State A K} {a : Action A K}

/-- When one worker moves on, or its queue. -/
theorem sum_workOf (cfg : Config A) {w : Fin K} (hjobs : ∀ w', w' ≠ w → t.jobs w' = s.jobs w')
    (hworkers : ∀ w', w' ≠ w → t.workers w' = s.workers w') :
    ∑ w', t.workOf cfg w' + s.workOf cfg w = ∑ w', s.workOf cfg w' + t.workOf cfg w := by
  rw [← Finset.add_sum_erase _ _ (Finset.mem_univ w),
    ← Finset.add_sum_erase _ (s.workOf cfg) (Finset.mem_univ w), add_right_comm,
    add_comm (t.workOf cfg w), add_right_comm]
  refine congrArg (s.workOf cfg w + · + t.workOf cfg w) (Finset.sum_congr rfl fun w' hw' => ?_)
  have hne := Finset.ne_of_mem_erase hw'
  rw [State.workOf, State.workOf, hjobs w' hne, hworkers w' hne]

/-- A worker uses up work of its own. -/
theorem work_worker (w : Fin K) (hmix : t.mixCh = s.mixCh) (hmixer : t.mixer = s.mixer)
    (hdispatcher : t.dispatcher = s.dispatcher)
    (hjobs : ∀ w', w' ≠ w → t.jobs w' = s.jobs w')
    (hworkers : ∀ w', w' ≠ w → t.workers w' = s.workers w')
    (hlt : t.pool.length + t.sendCh.length + t.workOf cfg w
      < s.pool.length + s.sendCh.length + s.workOf cfg w) : t.work cfg < s.work cfg := by
  have hsum := sum_workOf cfg hjobs hworkers
  unfold State.work
  rw [hmix, hmixer, hdispatcher]
  omega

theorem length_channelRange_le (w : Fin K) : (channelRange K w).length ≤ channels := by
  have hsub : channelRange K w ⊆ List.range channels := fun c hc =>
    List.mem_range.mpr (lt_of_mem_channelRange hc)
  simpa using ((channelRange_nodup w).subperm hsub).length_le

theorem two_le_mixWork (cfg : Config A) (K : ℕ) : 2 ≤ mixWork cfg K :=
  (Nat.le_add_left 2 1).trans (Nat.le_add_left 3 _)

/-! ### Every step works -/

/-- A mix is submitted. -/
def Action.Submits : Action A K → Prop
  | .submit _ _ _ _ => True
  | _ => False

theorem work_pushMix (h : step cfg s .pushMix = some s') : s'.work cfg < s.work cfg := by
  simp only [step] at h
  split at h
  next fr stage hmixer =>
    obtain rfl := Option.some.inj h
    have hspends := push_spends mixCap s.mixCh fr stage (two_le_mixWork cfg K)
    have hbefore : s.mixer.work cfg K = stage.left + mixWork cfg K := congrArg _ hmixer
    generalize push mixCap s.mixCh fr stage = pushed at hspends
    obtain ⟨queue, next, dropped⟩ := pushed
    dsimp only at hspends
    have hmixing : ∀ mixer : Mixer A,
        mixer.work cfg K ≤ next.elim 0 (fun stage => stage.left + mixWork cfg K)
          + dropped.elim 0 (fun _ => 2) →
        State.work cfg { s with mixCh := queue, mixer } < s.work cfg := by
      intro mixer hle
      unfold State.work
      show s.pool.length + s.sendCh.length + mixWork cfg K * queue.length + mixer.work cfg K
        + s.dispatcher.work cfg K + ∑ w, s.workOf cfg w < _
      omega
    refine hmixing _ ?_
    cases dropped with
    | none =>
      cases next with
      | none => exact Nat.zero_le _
      | some stage' => exact Nat.le_refl _
    | some old =>
      cases next with
      | none => exact Nat.le_refl _
      | some stage' => exact (Nat.add_comm _ _).le
  next => cases h

theorem work_push {w : Fin K} (h : step cfg s (.push w) = some s') : s'.work cfg < s.work cfg := by
  simp only [step] at h
  split at h
  next fr item stage next hworker =>
    obtain rfl := Option.some.inj h
    have hspends := push_spends sendCap s.sendCh item stage (Nat.zero_le 1)
    have hbefore : (s.workers w).work cfg = stage.left + 1 + next.work cfg := congrArg _ hworker
    generalize push sendCap s.sendCh item stage = pushed at hspends
    obtain ⟨queue, again, dropped⟩ := pushed
    dsimp only at hspends
    have hmoving : ∀ (wk : Worker) (drops : UInt64),
        wk.work cfg ≤ again.elim 0 (fun stage => stage.left + 1) + next.work cfg →
        State.work cfg ({ s with sendCh := queue, sendDrops := drops }.setWorker w wk)
          < s.work cfg := by
      intro wk drops hle
      refine work_worker w rfl rfl rfl (fun _ _ => rfl)
        (fun w' hw' => Function.update_of_ne hw' _ _) ?_
      show s.pool.length + queue.length
          + (jobWork cfg * (s.jobs w).length + (Function.update s.workers w wk w).work cfg)
        < s.pool.length + s.sendCh.length
          + (jobWork cfg * (s.jobs w).length + (s.workers w).work cfg)
      rw [Function.update_self]
      omega
    refine hmoving _ _ ?_
    cases again with
    | none => cases next <;> exact (Nat.zero_add _).ge
    | some stage' => exact Nat.le_refl _
  next => cases h

/-- A worker that keeps its queue and sends nothing. -/
theorem work_setWorker {w : Fin K} {wk : Worker} (hpool : t.pool = s.pool)
    (hsend : t.sendCh = s.sendCh) (hmix : t.mixCh = s.mixCh) (hmixer : t.mixer = s.mixer)
    (hdispatcher : t.dispatcher = s.dispatcher) (hjobs : t.jobs = s.jobs)
    (hworkers : t.workers = s.workers) (hlt : wk.work cfg < (s.workers w).work cfg) :
    (t.setWorker w wk).work cfg < s.work cfg := by
  refine work_worker w hmix hmixer hdispatcher (fun w' _ => congrFun hjobs w') (fun w' hw' => ?_) ?_
  · show Function.update t.workers w wk w' = _
    rw [Function.update_of_ne hw', hworkers]
  · show t.pool.length + t.sendCh.length
        + (jobWork cfg * (t.jobs w).length + (Function.update t.workers w wk w).work cfg)
      < s.pool.length + s.sendCh.length
        + (jobWork cfg * (s.jobs w).length + (s.workers w).work cfg)
    rw [hpool, hsend, hjobs, Function.update_self]
    omega

theorem work_encode {w : Fin K} {result : Option (List UInt8)}
    (h : step cfg s (.encode w result) = some s') : s'.work cfg < s.work cfg := by
  simp only [step] at h
  split at h
  next fr c cs hworker =>
    have hnext : packetWork * cs.length + finishWork cfg < (s.workers w).work cfg := by
      rw [hworker]
      simp only [Worker.work, List.length_cons, packetWork]
      omega
    have hpush : 3 + 1 + (packetWork * cs.length + finishWork cfg) < (s.workers w).work cfg := by
      rw [hworker]
      simp only [Worker.work, List.length_cons, packetWork]
      omega
    cases result with
    | none =>
      obtain rfl := Option.some.inj h
      exact work_setWorker rfl rfl rfl rfl rfl rfl rfl hnext
    | some payload =>
      dsimp only at h
      split at h
      · obtain rfl := Option.some.inj h
        exact work_setWorker rfl rfl rfl rfl rfl rfl rfl hnext
      split at h
      · obtain rfl := Option.some.inj h
        exact work_setWorker rfl rfl rfl rfl rfl rfl rfl hnext
      · obtain rfl := Option.some.inj h
        exact work_setWorker rfl rfl rfl rfl rfl rfl rfl hpush
  next => cases h

theorem work_marshal {w : Fin K} (h : step cfg s (.marshal w) = some s') :
    s'.work cfg < s.work cfg := by
  simp only [step] at h
  split at h
  next fr hworker =>
    obtain rfl := Option.some.inj h
    refine work_setWorker rfl rfl rfl rfl rfl rfl rfl ?_
    rw [hworker]
    exact Nat.lt_succ_self 2
  next fr group groups hworker =>
    have hnext : packetWork * groups.length + 3 < (s.workers w).work cfg := by
      rw [hworker]
      simp only [Worker.work, List.length_cons, packetWork]
      omega
    have hpush : 3 + 1 + (packetWork * groups.length + 3) < (s.workers w).work cfg := by
      rw [hworker]
      simp only [Worker.work, List.length_cons, packetWork]
      omega
    split at h
    · obtain rfl := Option.some.inj h
      exact work_setWorker rfl rfl rfl rfl rfl rfl rfl hnext
    split at h
    · obtain rfl := Option.some.inj h
      exact work_setWorker rfl rfl rfl rfl rfl rfl rfl hnext
    · obtain rfl := Option.some.inj h
      exact work_setWorker rfl rfl rfl rfl rfl rfl rfl hpush
  next => cases h

theorem work_finish {w : Fin K} (h : step cfg s (.finish w) = some s') :
    s'.work cfg < s.work cfg := by
  simp only [step] at h
  split at h
  next fr hworker =>
    obtain rfl := Option.some.inj h
    refine work_setWorker rfl rfl rfl rfl rfl rfl rfl ?_
    rw [hworker]
    show _ < 0 + finishWork cfg
    rw [finishWork, Nat.zero_add]
    split
    · split
      · exact Nat.lt_succ_self _
      · exact Nat.lt_of_lt_of_le (by decide : 2 < 4) (Nat.le_add_left 4 _)
    · exact Nat.succ_pos _
  next => cases h

theorem work_sendJob (h : step cfg s .sendJob = some s') : s'.work cfg < s.work cfg := by
  simp only [step] at h
  split at h
  next fr w hdispatcher =>
    split at h
    next hw =>
      split at h
      next hroom =>
        obtain rfl := Option.some.inj h
        -- the worker's queue gets longer by as much as the dispatcher is nearer its end
        generalize ht : ({ s with
          jobs := Function.update s.jobs ⟨w, hw⟩ (s.jobs ⟨w, hw⟩ ++ [fr])
          dispatcher := if w + 1 < K then .fanning fr (w + 1) else .idle } : State A K) = t
        have hjobs : t.jobs = Function.update s.jobs ⟨w, hw⟩ (s.jobs ⟨w, hw⟩ ++ [fr]) := by
          rw [← ht]
        have hworkers : t.workers = s.workers := by rw [← ht]
        have hsum := sum_workOf (w := ⟨w, hw⟩) (s := s) (t := t) cfg
          (fun w' hw' => by rw [hjobs, Function.update_of_ne hw']) fun w' _ => by rw [hworkers]
        have hqueue : t.workOf cfg ⟨w, hw⟩ = s.workOf cfg ⟨w, hw⟩ + jobWork cfg := by
          rw [State.workOf, State.workOf, hworkers, hjobs, Function.update_self,
            List.length_append, List.length_singleton, Nat.mul_succ, Nat.add_right_comm]
        have hbefore : s.dispatcher.work cfg K = (K - w) * (jobWork cfg + 1) :=
          congrArg _ hdispatcher
        have hafter : t.dispatcher.work cfg K + (jobWork cfg + 1)
            = (K - w) * (jobWork cfg + 1) := by
          have hsucc : K - w = K - (w + 1) + 1 := by omega
          rw [hsucc, Nat.succ_mul, ← ht]
          refine congrArg (· + (jobWork cfg + 1)) ?_
          show (if w + 1 < K then Dispatcher.fanning fr (w + 1) else .idle).work cfg K = _
          split
          · rfl
          next hlast =>
            rw [Nat.sub_eq_zero_of_le (Nat.le_of_not_lt hlast), Nat.zero_mul]
            rfl
        have hpool : t.pool = s.pool := by rw [← ht]
        have hsend : t.sendCh = s.sendCh := by rw [← ht]
        have hmix : t.mixCh = s.mixCh := by rw [← ht]
        have hmixer : t.mixer = s.mixer := by rw [← ht]
        unfold State.work
        rw [hpool, hsend, hmix, hmixer]
        omega
      next => cases h
    next => cases h
  next => cases h

/-- `SubmitMix` has its frame filled. -/
theorem work_fill (h : step cfg s .fill = some s') : s'.work cfg < s.work cfg := by
  simp only [step] at h
  split at h
  next fr pcm frameTs isRec hmixer =>
    obtain rfl := Option.some.inj h
    have hbefore : s.mixer.work cfg K = 4 + mixWork cfg K := congrArg _ hmixer
    show s.pool.length + s.sendCh.length + mixWork cfg K * s.mixCh.length + (3 + mixWork cfg K)
      + s.dispatcher.work cfg K + ∑ w, s.workOf cfg w < s.work cfg
    unfold State.work
    omega
  next => cases h

/-- The displaced frame is in the pool, where it may be collected. -/
theorem work_recycle (h : step cfg s .recycle = some s') : s'.work cfg < s.work cfg := by
  simp only [step] at h
  split at h
  next old next hmixer =>
    obtain rfl := Option.some.inj h
    have hbefore : s.mixer.work cfg K = 2 + next.elim 0 fun p => p.2.left + mixWork cfg K :=
      congrArg _ hmixer
    have hafter : (Mixer.next next : Mixer A).work cfg K
        = next.elim 0 fun p => p.2.left + mixWork cfg K := by
      cases next <;> rfl
    show s.pool.length + 1 + s.sendCh.length + mixWork cfg K * s.mixCh.length
      + (Mixer.next next : Mixer A).work cfg K
      + s.dispatcher.work cfg K + ∑ w, s.workOf cfg w < s.work cfg
    unfold State.work
    omega
  next => cases h

theorem work_collect {fr : ℕ} (h : step cfg s (.collect fr) = some s') :
    s'.work cfg < s.work cfg := by
  obtain ⟨hpool, h⟩ := Option.ite_none_right_eq_some.mp h
  obtain rfl := Option.some.inj h
  have hlen := List.length_erase_of_mem hpool
  have hpos := List.length_pos_of_mem hpool
  show (s.pool.erase fr).length + s.sendCh.length + mixWork cfg K * s.mixCh.length
    + s.mixer.work cfg K + s.dispatcher.work cfg K + ∑ w, s.workOf cfg w < s.work cfg
  unfold State.work
  omega

/-- What is to be done for a frame of `mixCh` is to be done by the dispatcher and the
workers. -/
theorem work_dispatch (h : step cfg s .dispatch = some s') : s'.work cfg < s.work cfg := by
  simp only [step] at h
  split at h
  next fr rest hdispatcher hmix =>
    obtain rfl := Option.some.inj h
    have hbefore : s.dispatcher.work cfg K = 0 := congrArg _ hdispatcher
    have hcost : mixWork cfg K = K * (jobWork cfg + 1) + 3 := rfl
    have hlen : mixWork cfg K * s.mixCh.length
        = mixWork cfg K * rest.length + mixWork cfg K := by
      rw [hmix]
      rfl
    show s.pool.length + s.sendCh.length + mixWork cfg K * rest.length + s.mixer.work cfg K
      + (K - 0) * (jobWork cfg + 1) + ∑ w, s.workOf cfg w < s.work cfg
    unfold State.work
    rw [Nat.sub_zero]
    omega
  next => cases h

/-- A job costs more than the channels of it. -/
theorem work_take {w : Fin K} (h : step cfg s (.take w) = some s') :
    s'.work cfg < s.work cfg := by
  simp only [step] at h
  split at h
  next fr rest hworker hjobs =>
    obtain rfl := Option.some.inj h
    have hle := length_channelRange_le w
    refine work_worker w rfl rfl rfl (fun w' hw' => Function.update_of_ne hw' _ _)
      (fun w' hw' => Function.update_of_ne hw' _ _) ?_
    show s.pool.length + s.sendCh.length
        + (jobWork cfg * (Function.update s.jobs w rest w).length
          + (Function.update s.workers w (.encoding fr (channelRange K w)) w).work cfg)
      < s.pool.length + s.sendCh.length
        + (jobWork cfg * (s.jobs w).length + (s.workers w).work cfg)
    rw [Function.update_self, Function.update_self, hjobs, hworker, List.length_cons,
      Nat.mul_succ]
    simp only [Worker.work, jobWork, packetWork]
    omega
  next => cases h

theorem work_release {w : Fin K} (h : step cfg s (.release w) = some s') :
    s'.work cfg < s.work cfg := by
  simp only [step] at h
  split at h
  next fr hworker =>
    obtain rfl := Option.some.inj h
    refine work_worker w rfl rfl rfl (fun _ _ => rfl)
      (fun w' hw' => Function.update_of_ne hw' _ _) ?_
    show s.pool.length + 1 + s.sendCh.length
        + (jobWork cfg * (s.jobs w).length + (Function.update s.workers w .idle w).work cfg)
      < s.pool.length + s.sendCh.length
        + (jobWork cfg * (s.jobs w).length + (s.workers w).work cfg)
    rw [Function.update_self, hworker]
    simp only [Worker.work]
    omega
  next => cases h

/-- `sendLoop` takes a packet, sent or not. -/
theorem work_sendLoop {item : Outgoing} {rest : List Outgoing} (sent : List Outgoing)
    (sendDrops : UInt64) (hsend : s.sendCh = item :: rest) :
    { s with sendCh := rest, sent, sendDrops }.work cfg < s.work cfg := by
  have hlen : s.sendCh.length = rest.length + 1 := congrArg List.length hsend
  show s.pool.length + rest.length + mixWork cfg K * s.mixCh.length + s.mixer.work cfg K
    + s.dispatcher.work cfg K + ∑ w, s.workOf cfg w < s.work cfg
  unfold State.work
  omega

/-- **Every step uses up work**, but for a new mix. -/
theorem work_lt (h : step cfg s a = some s') (ha : ¬a.Submits) : s'.work cfg < s.work cfg := by
  cases a with
  | submit => exact absurd trivial ha
  | fill => exact work_fill h
  | pushMix => exact work_pushMix h
  | recycle => exact work_recycle h
  | collect fr => exact work_collect h
  | dispatch => exact work_dispatch h
  | sendJob => exact work_sendJob h
  | take w => exact work_take h
  | encode w result => exact work_encode h
  | push w => exact work_push h
  | finish w => exact work_finish h
  | marshal w => exact work_marshal h
  | release w => exact work_release h
  | transmit =>
    simp only [step] at h
    split at h
    next item rest hsend =>
      obtain rfl := Option.some.inj h
      exact work_sendLoop _ _ hsend
    next => cases h
  | discard =>
    simp only [step] at h
    split at h
    next item rest hsend =>
      obtain rfl := Option.some.inj h
      exact work_sendLoop _ _ hsend
    next => cases h

/-! ### Nowhere to go -/

/-- The dispatcher is at one of the workers. -/
def Dispatcher.Within (K : ℕ) : Dispatcher → Prop
  | .idle => True
  | .fanning _ w => w < K

theorem within_step (hK : 0 < K) (hs : s.dispatcher.Within K) (h : Stepped cfg s s') :
    s'.dispatcher.Within K := by
  cases h with
  | dispatch fr rest => exact hK
  | sendJob fr w =>
    show (if w + 1 < K then Dispatcher.fanning fr (w + 1) else .idle).Within K
    split
    · assumption
    · trivial
  | _ => exact hs

/-- Something a goroutine of the session does by itself: what is left out is a new mix,
and the garbage collector. -/
def Action.Works : Action A K → Prop
  | .submit _ _ _ _ | .collect _ => False
  | _ => True

/-- The worker that acts. -/
def Action.worker : Action A K → Option (Fin K)
  | .take w | .encode w _ | .push w | .finish w | .marshal w | .release w => some w
  | _ => none

/-- The rest of `SubmitMix`. -/
def Action.Mixes : Action A K → Prop
  | .fill | .pushMix | .recycle => True
  | _ => False

theorem Action.works_of_worker {w : Fin K} (h : a.worker = some w) : a.Works := by
  cases a with
  | submit | collect => cases h
  | _ => trivial

theorem Action.Mixes.works (h : a.Mixes) : a.Works := by
  cases a with
  | submit | collect => exact h
  | _ => trivial

theorem Action.Works.not_submits (h : a.Works) : ¬a.Submits := by
  cases a with
  | submit => exact h.elim
  | _ => exact id

/-- No goroutine can go on. -/
def Stuck (cfg : Config A) (s : State A K) : Prop :=
  ∀ a : Action A K, a.Works → step cfg s a = none

/-- Every queue is empty, and every goroutine is waiting for something to do. -/
structure Quiet (s : State A K) : Prop where
  mixer : s.mixer = .idle
  mixCh : s.mixCh = []
  dispatcher : s.dispatcher = .idle
  jobs : ∀ w, s.jobs w = []
  workers : ∀ w, s.workers w = .idle
  sendCh : s.sendCh = []

/-- A worker never waits but for a job. -/
theorem worker_ready (cfg : Config A) {w : Fin K} (h : s.workers w ≠ .idle) :
    ∃ a : Action A K, a.worker = some w ∧ step cfg s a ≠ none := by
  cases hworker : s.workers w with
  | idle => exact absurd hworker h
  | encoding fr cs =>
    cases cs with
    | nil => exact ⟨.finish w, rfl, by simp [step, hworker]⟩
    | cons c cs =>
      exact ⟨.encode w none, rfl, by simp [step, hworker]⟩
  | bundling fr groups =>
    refine ⟨.marshal w, rfl, fun hnone => ?_⟩
    cases groups with
    | nil => simp only [step, hworker, reduceCtorEq] at hnone
    | cons group groups =>
      simp only [step, hworker] at hnone
      split at hnone
      · cases hnone
      · split at hnone <;> cases hnone
  | pushing fr item stage next =>
    exact ⟨.push w, rfl, by simp [step, hworker]⟩
  | releasing fr =>
    exact ⟨.release w, rfl, by simp [step, hworker]⟩

/-- Nor does `SubmitMix` ever wait. -/
theorem mixer_ready (cfg : Config A) (h : s.mixer ≠ .idle) :
    ∃ a : Action A K, a.Mixes ∧ step cfg s a ≠ none := by
  cases hmixer : s.mixer with
  | idle => exact absurd hmixer h
  | filling => exact ⟨.fill, trivial, by simp [step, hmixer]⟩
  | pushing => exact ⟨.pushMix, trivial, by simp [step, hmixer]⟩
  | recycling => exact ⟨.recycle, trivial, by simp [step, hmixer]⟩

theorem idle_of_stuck (h : Stuck cfg s) (w : Fin K) : s.workers w = .idle := by
  by_contra hworker
  obtain ⟨a, ha, hstep⟩ := worker_ready cfg hworker
  exact hstep (h a (Action.works_of_worker ha))

/-- So it has no job. -/
theorem jobs_of_stuck (h : Stuck cfg s) (w : Fin K) : s.jobs w = [] := by
  have htake := h (.take w) trivial
  cases hjobs : s.jobs w with
  | nil => rfl
  | cons fr rest =>
    rw [step, idle_of_stuck h w, hjobs] at htake
    cases htake

/-- So there is room for the dispatcher to go on. -/
theorem dispatcher_of_stuck (hs : s.dispatcher.Within K) (h : Stuck cfg s) :
    s.dispatcher = .idle := by
  cases hdispatcher : s.dispatcher with
  | idle => rfl
  | fanning fr w =>
    rw [hdispatcher] at hs
    have hw : w < K := hs
    have hsend := h .sendJob trivial
    simp only [step, hdispatcher] at hsend
    rw [dif_pos hw, if_pos] at hsend
    · cases hsend
    · rw [jobs_of_stuck h]
      exact Nat.two_pos

/-- **No deadlock**: where no goroutine can go on, there is nothing left to do. -/
theorem quiet_of_stuck (hs : s.dispatcher.Within K) (h : Stuck cfg s) : Quiet s where
  mixer := by
    by_contra hmixer
    obtain ⟨a, ha, hstep⟩ := mixer_ready cfg hmixer
    exact hstep (h a ha.works)
  mixCh := by
    have hdispatch := h .dispatch trivial
    cases hmix : s.mixCh with
    | nil => rfl
    | cons fr rest =>
      rw [step, dispatcher_of_stuck hs h, hmix] at hdispatch
      cases hdispatch
  dispatcher := dispatcher_of_stuck hs h
  jobs := jobs_of_stuck h
  workers := idle_of_stuck h
  sendCh := by
    have htransmit := h .transmit trivial
    cases hsend : s.sendCh with
    | nil => rfl
    | cons item rest =>
      rw [step, hsend] at htransmit
      cases htransmit

/-! ### At rest -/

/-- No frame is in use. -/
theorem Quiet.not_inUse (h : Quiet s) (hok : s.custody.Ok cfg.bundled) (fr : ℕ) :
    ¬s.custody.InUse fr := by
  have hflight : s.flight = [] := by
    refine List.eq_nil_iff_forall_not_mem.mpr fun fr hfr => ?_
    obtain ⟨w, hw⟩ := hok.fan.holder fr hfr
    have hheld : fr ∈ (s.workers w).finishing.toList
        ++ ((s.workers w).current.toList ++ s.jobs w ++ s.dispatcher.due w) := hw
    rw [h.workers, h.jobs, h.dispatcher] at hheld
    exact List.not_mem_nil hheld
  have hline : s.custody.line = [] := by
    show s.flight ++ s.mixCh ++ s.mixer.fresh.toList = []
    rw [hflight, h.mixCh, h.mixer]
    rfl
  have hstale : s.custody.stale = none := congrArg Mixer.stale h.mixer
  rintro (hfr | hfr)
  · rw [hline] at hfr
    exact List.not_mem_nil hfr
  · rw [hstale] at hfr
    cases hfr

/-- What is left of every mix: its use is over, and its frame is back in the pool, unless
the garbage collector has taken it from there. -/
structure Settled (cfg : Config A) (s : State A K) : Prop where
  quiet : Quiet s
  ended : ∀ u < s.uses, Custody.Over cfg.bundled (s.log u).life
  pooled : ∀ fr < s.allocated, s.pool.count fr + s.collected.count fr = 1

theorem settled_of_quiet (hok : s.custody.Ok cfg.bundled) (h : Quiet s) : Settled cfg s where
  quiet := h
  ended u hu := hok.ended u hu fun fr hfr => absurd hfr (h.not_inUse hok fr)
  pooled fr hfr := by
    have howned := hok.owned fr
    have hline : s.custody.line.count fr = 0 :=
      List.count_eq_zero.mpr fun hmem => h.not_inUse hok fr (Or.inl hmem)
    have hstale : s.custody.stale = none := congrArg Mixer.stale h.mixer
    rw [hline, hstale, Nat.add_zero, Option.toList_none, List.count_nil, Nat.add_zero] at howned
    exact howned.trans (if_pos hfr)

/-- **The pipeline comes to rest.**  From any state it can get into, and in whatever order
its goroutines go on: without new mixes there are no more than `work` steps, and where
none of them can go on every mix has been encoded, sent and released, or was displaced. -/
theorem drains (cfg : Config A) (hK : 0 < K) {as bs : List (Action A K)} {s s' : State A K}
    (h : Run (step cfg) (initial cfg) as s) (h' : Run (step cfg) s bs s')
    (hbs : ∀ a ∈ bs, ¬a.Submits) :
    bs.length ≤ s.work cfg ∧ (Stuck cfg s' → Settled cfg s') := by
  have hinv : s'.Ok cfg.bundled ∧ s'.dispatcher.Within K :=
    invariant_of_stepped (I := fun s => s.Ok cfg.bundled ∧ s.dispatcher.Within K)
      (fun _ _ hs hstep => ⟨ok_step hK hs.1 hstep, within_step hK hs.2 hstep⟩) (h.append h')
      ⟨ok_initial cfg, trivial⟩
  refine ⟨?_, fun hstuck => settled_of_quiet hinv.1.1 (quiet_of_stuck hinv.2 hstuck)⟩
  refine (Nat.le_add_right _ _).trans
    (Run.length_add_le (I := fun _ => True) (P := fun a => ¬a.Submits) ?_ h' hbs trivial)
  exact fun _ _ _ _ ha hstep => ⟨trivial, work_lt hstep ha⟩

/-- Legacy mode; the PCM of a channel is a number here. -/
def loneConfig : Config ℕ := ⟨false, 960, 0⟩

/-- Where there is one worker. -/
def only : Fin 1 := ⟨0, Nat.one_pos⟩

/-- One worker takes a frame from `mixCh` to the pool, where it is collected; the encoder
fails on all channels but one. -/
def lone : List (Action ℕ 1) :=
  [.dispatch, .sendJob, .take only, .encode only (some [7]), .push only]
  ++ List.replicate 15 (.encode only none)
  ++ [.finish only, .release only, .transmit, .collect 0]

/-- Afterwards nothing is left to do. -/
theorem drains_lone : ∃ s s' : State ℕ 1,
    Run (step loneConfig) s lone s' ∧ s'.sent.length = 1 ∧
      lone.length ≤ s.work loneConfig ∧ Settled loneConfig s' := by
  have hexec : (exec (step loneConfig) (initial loneConfig)
      [.submit (fun c => c) 960 false none, .fill, .pushMix]).any
        (fun s => (exec (step loneConfig) s lone).any fun s' =>
          decide (s'.sent.length = 1 ∧ s'.work loneConfig = 0)) = true := by
    decide +kernel
  obtain ⟨s, hs, hexec⟩ := (Option.any_eq_true _ _).mp hexec
  obtain ⟨s', hs', hrest⟩ := (Option.any_eq_true _ _).mp hexec
  obtain ⟨hsent, hwork⟩ := of_decide_eq_true hrest
  have hdrains := drains loneConfig Nat.one_pos (Run.of_exec hs) (Run.of_exec hs')
    (by simp [lone, Action.Submits])
  have hstuck : Stuck loneConfig s' := fun a ha => Option.eq_none_iff_forall_ne_some.mpr
    fun t ht => Nat.not_lt_zero _ (hwork ▸ work_lt ht ha.not_submits)
  exact ⟨s, s', Run.of_exec hs', hsent, hdrains.1, hdrains.2 hstuck⟩

end Pipeline

end AmbiRTC
