/-
AmbiRTC/PipelineCustody.lean

The pipeline refines the custody of frames: what a state of the pipeline says
about where frames are is read off it (`custody`), and every step of the
pipeline either is a transition of the abstract model or leaves all frames where
they are.

Main results: the refinement (`custody_step`), and that every step of the
pipeline keeps frames in order (`custody_ok_step`).
-/
import AmbiRTC.Custody
import AmbiRTC.PipelineSteps

namespace AmbiRTC

namespace Pipeline

open DropOldest FanOut Runs

variable {A : Type} {K : ℕ}

/-! ### Reading the custody off a state -/

/-- The frame a worker is encoding, and the channels it has still to encode. -/
def Worker.remaining : Worker → Option (ℕ × List ℕ)
  | .encoding fr cs => some (fr, cs)
  | .pushing fr _ _ (.encode cs) => some (fr, cs)
  | _ => none

/-- The frame a worker is encoding. -/
def Worker.current (wk : Worker) : Option ℕ := wk.remaining.map Prod.fst

/-- The frame a worker brought to its end and has not released yet, and the groups
it has still to marshal. -/
def Worker.groups : Worker → Option (ℕ × List (List UInt8))
  | .bundling fr groups => some (fr, groups)
  | .pushing fr _ _ (.bundle groups) => some (fr, groups)
  | .releasing fr => some (fr, [])
  | _ => none

/-- The frame a worker brought to its end, and has not released yet. -/
def Worker.finishing (wk : Worker) : Option ℕ := wk.groups.map Prod.fst

/-- What the dispatcher has still to send to a worker. -/
def Dispatcher.due : Dispatcher → ℕ → List ℕ
  | .idle, _ => []
  | .fanning fr n, w => if n ≤ w then [fr] else []

/-- The frame `SubmitMix` is to put into `mixCh`. -/
def Mixer.fresh : Mixer A → Option ℕ
  | .idle => none
  | .filling fr _ _ _ => some fr
  | .pushing fr _ => some fr
  | .recycling _ next => next.map Prod.fst

/-- The frame `SubmitMix` is to put into the pool. -/
def Mixer.stale : Mixer A → Option ℕ
  | .recycling old _ => some old
  | _ => none

/-- The frames each worker is encoding, has queued or is going to get. -/
def State.fan (s : State A K) : Fan ℕ K where
  flight := s.flight
  todo w := (s.workers w).current.toList ++ s.jobs w ++ s.dispatcher.due w
  last w := (s.workers w).finishing

/-- Where the frames of a state are. -/
def State.custody (s : State A K) : Custody K where
  allocated := s.allocated
  pool := s.pool
  collected := s.collected
  fresh := s.mixer.fresh
  stale := s.mixer.stale
  mixCh := s.mixCh
  fan := s.fan
  refs fr := (s.heap fr).refs
  use fr := (s.heap fr).use
  uses := s.uses
  life u := (s.log u).life

/-! ### Updates -/

theorem refs_update (heap : ℕ → MixFrame A) (fr : ℕ) (frame : MixFrame A) :
    (fun x => (Function.update heap fr frame x).refs)
      = Function.update (fun x => (heap x).refs) fr frame.refs :=
  funext fun x => Function.apply_update (fun _ => MixFrame.refs) heap fr frame x

theorem use_update (heap : ℕ → MixFrame A) (fr : ℕ) (frame : MixFrame A) :
    (fun x => (Function.update heap fr frame x).use)
      = Function.update (fun x => (heap x).use) fr frame.use :=
  funext fun x => Function.apply_update (fun _ => MixFrame.use) heap fr frame x

theorem life_update (log : ℕ → Use A K) (u : ℕ) (rec : Use A K) :
    (fun x => (Function.update log u rec x).life)
      = Function.update (fun x => (log x).life) u rec.life :=
  funext fun x => Function.apply_update (fun _ => Use.life) log u rec x

/-- A frame may be written to, as long as its count and its use stay. -/
theorem custody_setFrame (s : State A K) (fr : ℕ) {f : MixFrame A → MixFrame A}
    (hrefs : ∀ frame, (f frame).refs = frame.refs) (huse : ∀ frame, (f frame).use = frame.use) :
    (s.setFrame fr f).custody = s.custody := by
  apply Custody.ext <;> try rfl
  · show (fun x => (Function.update s.heap fr (f (s.heap fr)) x).refs) = _
    rw [refs_update, hrefs]
    exact Function.update_eq_self fr _
  · show (fun x => (Function.update s.heap fr (f (s.heap fr)) x).use) = _
    rw [use_update, huse]
    exact Function.update_eq_self fr _

/-- Noting what was encoded or marshalled moves no frame. -/
theorem custody_note (s : State A K) (fr : ℕ) {f : Use A K → Use A K}
    (hlife : ∀ u, (f u).life = u.life) : (s.note fr f).custody = s.custody := by
  apply Custody.ext <;> try rfl
  show (fun x => (Function.update s.log (s.heap fr).use (f (s.log (s.heap fr).use)) x).life) = _
  rw [life_update, hlife]
  exact Function.update_eq_self (s.heap fr).use _

/-- Counting: a frame gets another count, and something happens in its use. -/
theorem custody_count (s : State A K) (fr : ℕ) (refs : ℤ) (f : Life K → Life K) :
    ((s.setFrame fr fun frame => { frame with refs }).note fr fun u =>
      { u with life := f u.life }).custody =
    { s.custody with
      refs := Function.update s.custody.refs fr refs
      life := Function.update s.custody.life (s.custody.use fr)
        (f (s.custody.life (s.custody.use fr))) } := by
  -- the note goes to the use the frame had before it got its count
  have hkeep : (Function.update s.heap fr { s.heap fr with refs } fr).use = (s.heap fr).use := by
    rw [Function.update_self]
  apply Custody.ext <;> try rfl
  · exact refs_update _ _ _
  · exact (use_update s.heap fr _).trans (Function.update_eq_self fr _)
  · apply (life_update s.log (Function.update s.heap fr { s.heap fr with refs } fr).use _).trans
    show Function.update (fun u => (s.log u).life)
      (Function.update s.heap fr { s.heap fr with refs } fr).use
      (f (s.log (Function.update s.heap fr { s.heap fr with refs } fr).use).life) = _
    rw [hkeep]
    rfl

/-- A worker may move on, as long as it is busy with the same frame. -/
theorem custody_setWorker (s : State A K) (w : Fin K) {wk : Worker}
    (hcurrent : wk.current = (s.workers w).current)
    (hfinishing : wk.finishing = (s.workers w).finishing) :
    (s.setWorker w wk).custody = s.custody := by
  apply Custody.ext <;> try rfl
  apply Fan.ext <;> try rfl
  · funext w'
    show (Function.update s.workers w wk w').current.toList ++ s.jobs w' ++ _ = _
    by_cases hw : w' = w
    · rw [hw, Function.update_self, hcurrent]
      rfl
    · rw [Function.update_of_ne hw]
      rfl
  · funext w'
    show (Function.update s.workers w wk w').finishing = _
    by_cases hw : w' = w
    · rw [hw, Function.update_self, hfinishing]
      rfl
    · rw [Function.update_of_ne hw]
      rfl

theorem remaining_resume (fr : ℕ) (item : Outgoing) (stage : Stage) (next : Next) :
    (resume fr next).remaining = (Worker.pushing fr item stage next).remaining := by
  cases next <;> rfl

theorem current_resume (fr : ℕ) (item : Outgoing) (stage : Stage) (next : Next) :
    (resume fr next).current = (Worker.pushing fr item stage next).current :=
  congrArg (Option.map Prod.fst) (remaining_resume fr item stage next)

theorem groups_resume (fr : ℕ) (item : Outgoing) (stage : Stage) (next : Next) :
    (resume fr next).groups = (Worker.pushing fr item stage next).groups := by
  cases next <;> rfl

theorem finishing_resume (fr : ℕ) (item : Outgoing) (stage : Stage) (next : Next) :
    (resume fr next).finishing = (Worker.pushing fr item stage next).finishing :=
  congrArg (Option.map Prod.fst) (groups_resume fr item stage next)

theorem fresh_next (next : Option (ℕ × Stage)) :
    (Mixer.next next : Mixer A).fresh = next.map Prod.fst := by
  rcases next with - | ⟨fr, stage⟩ <;> rfl

theorem stale_next (next : Option (ℕ × Stage)) : (Mixer.next next : Mixer A).stale = none := by
  rcases next with - | ⟨fr, stage⟩ <;> rfl

/-! ### Steps that leave frames where they are -/

variable {cfg : Config A} {s : State A K}

/-- The dispatcher sends on the frame it is fanning out. -/
theorem custody_sendJob {fr w : ℕ} (hw : w < K) (hdispatcher : s.dispatcher = .fanning fr w) :
    State.custody { s with
      jobs := Function.update s.jobs ⟨w, hw⟩ (s.jobs ⟨w, hw⟩ ++ [fr])
      dispatcher := if w + 1 < K then .fanning fr (w + 1) else .idle } = s.custody := by
  apply Custody.ext <;> try rfl
  apply Fan.ext <;> try rfl
  funext w'
  -- nothing is due any more once the last worker has got the frame
  have hdue : (if w + 1 < K then Dispatcher.fanning fr (w + 1) else .idle).due w'
      = if w + 1 ≤ w' then [fr] else [] := by
    split
    · rfl
    · exact (if_neg fun hle => by omega).symm
  show (s.workers w').current.toList ++ Function.update s.jobs _ _ w'
      ++ (if w + 1 < K then Dispatcher.fanning fr (w + 1) else .idle).due w'
    = (s.workers w').current.toList ++ s.jobs w' ++ s.dispatcher.due w'
  rw [hdue, hdispatcher, Dispatcher.due]
  by_cases hw' : w' = ⟨w, hw⟩
  · subst hw'
    rw [Function.update_self, if_neg (by simp), if_pos (le_refl w), List.append_nil,
      List.append_assoc]
  · -- the others have got the frame before, or are still going to
    have hne : (w' : ℕ) ≠ w := fun heq => hw' (Fin.ext heq)
    rw [Function.update_of_ne hw', if_congr (Nat.succ_le_iff.trans hne.symm.le_iff_lt.symm) rfl rfl]

/-- A worker takes a job from its queue. -/
theorem custody_take (cs : List ℕ) {w : Fin K} {fr : ℕ} {rest : List ℕ}
    (hworker : s.workers w = .idle) (hjobs : s.jobs w = fr :: rest) :
    ({ s with jobs := Function.update s.jobs w rest }.setWorker w (.encoding fr cs)).custody
      = s.custody := by
  apply Custody.ext <;> try rfl
  apply Fan.ext <;> try rfl
  · funext w'
    show (Function.update s.workers w _ w').current.toList ++ Function.update s.jobs w rest w'
        ++ s.dispatcher.due w'
      = (s.workers w').current.toList ++ s.jobs w' ++ s.dispatcher.due w'
    by_cases hw : w' = w
    · -- from the head of the queue into the worker's hands: the order stays
      subst hw
      rw [Function.update_self, Function.update_self, hworker, hjobs]
      rfl
    · rw [Function.update_of_ne hw, Function.update_of_ne hw]
  · funext w'
    show (Function.update s.workers w _ w').finishing = (s.workers w').finishing
    by_cases hw : w' = w
    · rw [hw, Function.update_self, hworker]
      rfl
    · rw [Function.update_of_ne hw]

/-- A worker encodes a channel; in legacy mode it numbers and marshals the packet. -/
theorem custody_encode (s : State A K) {w : Fin K} {fr c : ℕ} {cs : List ℕ} {wk : Worker}
    (result : Option (List UInt8)) (encCount : UInt64) (encSeq : ℕ → UInt32)
    (hworker : s.workers w = .encoding fr (c :: cs)) (hcurrent : wk.current = some fr)
    (hfinishing : wk.finishing = none) :
    ({ s.note fr fun u => u.encode c ((s.heap fr).pcm c) result with encCount, encSeq }.setWorker
      w wk).custody = s.custody := by
  refine (custody_setWorker _ w ?_ ?_).trans
    (custody_note s fr (f := fun u => u.encode c ((s.heap fr).pcm c) result) fun _ => rfl)
  · exact hcurrent.trans (congrArg Worker.current hworker).symm
  · exact hfinishing.trans (congrArg Worker.finishing hworker).symm

/-- A worker encodes a channel, and puts the payload into the frame. -/
theorem custody_encodeBundled (s : State A K) {w : Fin K} {fr c : ℕ} {cs : List ℕ}
    (payload : List UInt8) (encCount : UInt64) (hworker : s.workers w = .encoding fr (c :: cs)) :
    (({ s.note fr fun u => u.encode c ((s.heap fr).pcm c) (some payload) with
      encCount }.setFrame fr fun frame =>
        { frame with encoded := Function.update frame.encoded c payload }).setWorker w
          (.encoding fr cs)).custody = s.custody := by
  refine (custody_setWorker _ w ?_ ?_).trans ?_
  · exact (congrArg Worker.current hworker).symm
  · exact (congrArg Worker.finishing hworker).symm
  · rw [custody_setFrame]
    · exact custody_note s fr (f := fun u => u.encode c ((s.heap fr).pcm c) (some payload))
        fun _ => rfl
    · exact fun _ => rfl
    · exact fun _ => rfl

/-! ### Steps that move a frame -/

/-- A new use of a frame begins. -/
theorem custody_submit (cfg : Config A) (hmixer : s.mixer = .idle) (pool : List ℕ)
    (allocated fr : ℕ) (frame : MixFrame A) (pcm pcm' : ℕ → A) (frameTs : UInt32) (isRec : Bool) :
    State.custody { s with
      uses := s.uses + 1
      log := Function.update s.log s.uses (Use.new pcm)
      allocated := allocated
      pool := pool
      heap := Function.update s.heap fr (frame.ready cfg s.uses)
      mixer := .filling fr pcm' frameTs isRec } =
    { s.custody with
      allocated := allocated
      pool := pool
      fresh := some fr
      refs := Function.update s.custody.refs fr frame.refs
      use := Function.update s.custody.use fr s.uses
      uses := s.uses + 1
      life := Function.update s.custody.life s.uses .new } := by
  apply Custody.ext <;> try rfl
  · exact (congrArg Mixer.stale hmixer).symm
  · exact refs_update _ _ _
  · exact use_update _ _ _
  · exact life_update _ _ _

/-- A frame is put into the pool. -/
theorem life_releaseFrame (s : State A K) (fr : ℕ) :
    (releaseFrame s fr).custody.life = Function.update s.custody.life (s.custody.use fr)
      (s.custody.life (s.custody.use fr)).release :=
  life_update _ _ _

theorem custody_dispatch (fr : ℕ) (rest : List ℕ) (hdispatcher : s.dispatcher = .idle) :
    State.custody ((({ s with
      mixCh := rest
      dispatcher := .fanning fr 0
      flight := s.flight ++ [fr] }.setFrame fr fun frame => { frame with refs := K }).note fr
        fun u => { u with life := u.life.dispatch })) =
    { s.custody with
      mixCh := rest
      fan := s.custody.fan.dispatch fr
      refs := Function.update s.custody.refs fr K
      life := Function.update s.custody.life (s.custody.use fr)
        (s.custody.life (s.custody.use fr)).dispatch } := by
  rw [custody_count _ fr K Life.dispatch]
  apply Custody.ext <;> try rfl
  apply Fan.ext <;> try rfl
  funext w
  show (s.workers w).current.toList ++ s.jobs w ++ [fr]
    = (s.workers w).current.toList ++ s.jobs w ++ s.dispatcher.due w ++ [fr]
  rw [hdispatcher, Dispatcher.due, List.append_nil]

theorem custody_finish {w : Fin K} {fr : ℕ} {isLast bundled : Bool} {wk : Worker}
    (hworker : s.workers w = .encoding fr []) (hcurrent : wk.current = none)
    (hfinishing : wk.finishing = if isLast then some fr else none) :
    State.custody (((s.setFrame fr fun frame => { frame with refs := (s.heap fr).refs - 1 }).note
        fr fun u => { u with life := u.life.finish w (isLast && bundled) }).setWorker w wk) =
    { s.custody with
      fan := s.custody.fan.finish w isLast
      refs := Function.update s.custody.refs fr (s.custody.refs fr - 1)
      life := Function.update s.custody.life (s.custody.use fr)
        ((s.custody.life (s.custody.use fr)).finish w (isLast && bundled)) } := by
  have hcount := custody_count s fr ((s.heap fr).refs - 1)
    fun l => l.finish w (isLast && bundled)
  have htodo : s.fan.todo w = fr :: (s.jobs w ++ s.dispatcher.due w) := by
    show (s.workers w).current.toList ++ s.jobs w ++ s.dispatcher.due w = _
    rw [hworker]
    rfl
  apply Custody.ext <;> try rfl
  · apply Fan.ext <;> try rfl
    · funext w'
      show (Function.update s.workers w wk w').current.toList ++ s.jobs w' ++ s.dispatcher.due w'
        = (s.fan.finish w isLast).todo w'
      rw [Fan.todo_finish, htodo, List.tail_cons]
      by_cases hw : w' = w
      · subst hw
        rw [Function.update_self, if_pos rfl, hcurrent]
        rfl
      · rw [Function.update_of_ne hw, if_neg hw]
        rfl
    · funext w'
      show (Function.update s.workers w wk w').finishing
        = (if isLast then Function.update s.fan.last w (s.fan.todo w).head? else s.fan.last) w'
      rw [htodo]
      by_cases hw : w' = w
      · subst hw
        -- the worker brings the frame to its end if it is the last, and goes on otherwise
        rw [Function.update_self, hfinishing]
        cases isLast with
        | true => exact (Function.update_self w' _ s.fan.last).symm
        | false => exact (congrArg Worker.finishing hworker).symm
      · rw [Function.update_of_ne hw]
        cases isLast with
        | true => exact (Function.update_of_ne hw (some fr) s.fan.last).symm
        | false => rfl
  · exact (congrArg Custody.refs hcount :)
  · exact (congrArg Custody.use hcount :)
  · exact (congrArg Custody.life hcount :)

theorem custody_release {w : Fin K} {fr : ℕ} (hworker : s.workers w = .releasing fr) :
    State.custody ({ releaseFrame s fr with flight := s.flight.erase fr }.setWorker w .idle) =
    { s.custody with
      pool := fr :: s.custody.pool
      fan := s.custody.fan.release w
      life := Function.update s.custody.life (s.custody.use fr)
        (s.custody.life (s.custody.use fr)).release } := by
  have hlast : s.fan.last w = some fr := congrArg Worker.finishing hworker
  apply Custody.ext <;> try rfl
  · apply Fan.ext
    · show s.flight.erase fr = (s.fan.release w).flight
      rw [Fan.release, hlast]
      rfl
    · funext w'
      show (Function.update s.workers w .idle w').current.toList ++ s.jobs w'
          ++ s.dispatcher.due w'
        = (s.workers w').current.toList ++ s.jobs w' ++ s.dispatcher.due w'
      by_cases hw : w' = w
      · rw [hw, Function.update_self, hworker]
        rfl
      · rw [Function.update_of_ne hw]
    · funext w'
      show (Function.update s.workers w .idle w').finishing = Function.update s.fan.last w none w'
      by_cases hw : w' = w
      · rw [hw, Function.update_self, Function.update_self]
        rfl
      · rw [Function.update_of_ne hw, Function.update_of_ne hw]
        rfl
  · exact life_releaseFrame s fr

/-! ### The steps of `SubmitMix` -/

/-- A frame of the pool is taken as it is. -/
theorem acquire_step (cfg : Config A) (hmixer : s.mixer = .idle) {fr : ℕ} (hpool : fr ∈ s.pool)
    (pcm : ℕ → A) (frameTs : UInt32) (isRec : Bool) :
    Custody.Step cfg.bundled s.custody (State.custody { s with
      uses := s.uses + 1
      log := Function.update s.log s.uses (Use.new pcm)
      pool := s.pool.erase fr
      heap := Function.update s.heap fr ((s.heap fr).ready cfg s.uses)
      mixer := .filling fr pcm frameTs isRec }) := by
  have hrefs : Function.update s.custody.refs fr (s.heap fr).refs = s.custody.refs :=
    Function.update_eq_self fr _
  have hc := custody_submit cfg hmixer (s.pool.erase fr) s.allocated fr (s.heap fr) pcm pcm
    frameTs isRec
  rw [hrefs] at hc
  rw [hc]
  exact .acquire fr (congrArg Mixer.fresh hmixer) (congrArg Mixer.stale hmixer) hpool

theorem allocate_step (cfg : Config A) (hmixer : s.mixer = .idle) (pcm : ℕ → A) (frameTs : UInt32)
    (isRec : Bool) :
    Custody.Step cfg.bundled s.custody (State.custody { s with
      uses := s.uses + 1
      log := Function.update s.log s.uses (Use.new pcm)
      allocated := s.allocated + 1
      heap := Function.update s.heap s.allocated ((newFrame cfg).ready cfg s.uses)
      mixer := .filling s.allocated pcm frameTs isRec }) := by
  rw [custody_submit cfg hmixer s.pool (s.allocated + 1) s.allocated (newFrame cfg) pcm pcm
    frameTs isRec]
  exact .allocate (congrArg Mixer.fresh hmixer) (congrArg Mixer.stale hmixer)

/-- What is written into a frame does not matter. -/
theorem custody_fill {fr : ℕ} {pcm : ℕ → A} {frameTs : UInt32} {isRec : Bool}
    (hmixer : s.mixer = .filling fr pcm frameTs isRec) :
    State.custody { s.setFrame fr fun frame => { frame with pcm, frameTs, isRec } with
      mixer := .pushing fr .attempt } = s.custody := by
  have hc := custody_setFrame s fr (f := fun frame => { frame with pcm, frameTs, isRec })
    (fun _ => rfl) fun _ => rfl
  refine Custody.ext rfl rfl rfl ?_ ?_ rfl rfl ?_ ?_ rfl rfl
  · exact (congrArg Mixer.fresh hmixer).symm
  · exact (congrArg Mixer.stale hmixer).symm
  · exact (congrArg Custody.refs hc :)
  · exact (congrArg Custody.use hc :)

theorem custody_pushAgain {fr : ℕ} {stage : Stage} (stage' : Stage)
    (hmixer : s.mixer = .pushing fr stage) :
    State.custody { s with mixer := .pushing fr stage' } = s.custody := by
  refine Custody.ext rfl rfl rfl ?_ ?_ rfl rfl rfl rfl rfl rfl
  · exact (congrArg Mixer.fresh hmixer).symm
  · exact (congrArg Mixer.stale hmixer).symm

theorem custody_enqueue {fr : ℕ} {stage : Stage} (hmixer : s.mixer = .pushing fr stage) :
    State.custody { s with mixCh := s.mixCh ++ [fr], mixer := .idle }
      = { s.custody with fresh := none, mixCh := s.custody.mixCh ++ [fr] } :=
  Custody.ext rfl rfl rfl rfl (congrArg Mixer.stale hmixer).symm rfl rfl rfl rfl rfl rfl

/-- The oldest frame that waits is displaced, and the new one is tried again. -/
theorem custody_evict {fr : ℕ} {stage : Stage} (old : ℕ) (rest : List ℕ)
    (hmixer : s.mixer = .pushing fr stage) :
    State.custody { s with mixCh := rest, mixer := .recycling old (some (fr, .retry)) }
      = { s.custody with stale := some old, mixCh := rest } :=
  Custody.ext rfl rfl rfl (congrArg Mixer.fresh hmixer).symm rfl rfl rfl rfl rfl rfl rfl

theorem custody_recycle {old : ℕ} {next : Option (ℕ × Stage)}
    (hmixer : s.mixer = .recycling old next) :
    State.custody { releaseFrame s old with
      mixDrops := s.mixDrops + 1
      mixer := .next next } =
    { s.custody with
      pool := old :: s.custody.pool
      stale := none
      life := Function.update s.custody.life (s.custody.use old)
        (s.custody.life (s.custody.use old)).release } := by
  refine Custody.ext rfl rfl rfl ?_ ?_ rfl rfl rfl rfl rfl (life_releaseFrame s old)
  · exact (fresh_next next).trans (congrArg Mixer.fresh hmixer).symm
  · exact stale_next next

/-! ### The steps of a worker -/

/-- A worker is as busy as before, after something that does not show. -/
theorem custody_busy {t : State A K} {w : Fin K} {wk wk' : Worker}
    (hworker : t.workers w = wk) (hcurrent : wk'.current = wk.current)
    (hfinishing : wk'.finishing = wk.finishing) : (t.setWorker w wk').custody = t.custody :=
  custody_setWorker t w (hcurrent.trans (congrArg Worker.current hworker).symm)
    (hfinishing.trans (congrArg Worker.finishing hworker).symm)

/-- `pushSend` tries again. -/
theorem custody_sendAgain {t : State A K} {w : Fin K} {fr : ℕ} {item : Outgoing} {stage : Stage}
    {next : Next} (stage' : Stage) (hworker : t.workers w = .pushing fr item stage next) :
    (t.setWorker w (.pushing fr item stage' next)).custody = t.custody := by
  refine custody_busy hworker ?_ ?_ <;> cases next <;> rfl

/-- `pushSend` is done with a packet. -/
theorem custody_resume {t : State A K} {w : Fin K} {fr : ℕ} {item : Outgoing} {stage : Stage}
    {next : Next} (hworker : t.workers w = .pushing fr item stage next) :
    (t.setWorker w (resume fr next)).custody = t.custody :=
  custody_busy hworker (current_resume fr item stage next) (finishing_resume fr item stage next)

/-- A worker notes the payloads of a group. -/
theorem custody_marshal {w : Fin K} {fr : ℕ} {group : List UInt8} {wk wk' : Worker}
    (hworker : s.workers w = wk) (hcurrent : wk'.current = wk.current)
    (hfinishing : wk'.finishing = wk.finishing) :
    ((s.note fr fun u => u.marshal group (groupPayloads (s.heap fr).encoded group)).setWorker w
      wk').custody = s.custody := by
  have hnote := custody_note s fr
    (f := fun u => u.marshal group (groupPayloads (s.heap fr).encoded group)) fun _ => rfl
  have hkept : (s.note fr fun u =>
      u.marshal group (groupPayloads (s.heap fr).encoded group)).workers w = wk := hworker
  exact (custody_busy hkept hcurrent hfinishing).trans hnote

/-- A worker counts down a frame it has encoded to the end; the last one goes on with it. -/
theorem finish_step (cfg : Config A) {w : Fin K} {fr : ℕ} {isLast : Bool}
    (hworker : s.workers w = .encoding fr []) (hlast : isLast = decide ((s.heap fr).refs - 1 = 0)) :
    Custody.Step cfg.bundled s.custody (State.custody
      (((s.setFrame fr fun frame => { frame with refs := (s.heap fr).refs - 1 }).note fr fun u =>
        { u with life := u.life.finish w (isLast && cfg.bundled) }).setWorker w
          (if isLast then
            if cfg.bundled then .bundling fr cfg.layout else .releasing fr
          else .idle))) := by
  have htodo : s.custody.fan.todo w = fr :: (s.jobs w ++ s.dispatcher.due w) := by
    show (s.workers w).current.toList ++ s.jobs w ++ s.dispatcher.due w = _
    rw [hworker]
    rfl
  rw [custody_finish hworker, hlast]
  · exact .finish w fr _ htodo (congrArg Worker.finishing hworker)
  · cases isLast <;> cases cfg.bundled <;> rfl
  · cases isLast <;> cases cfg.bundled <;> rfl

/-! ### The refinement -/

/-- **The pipeline refines the custody of frames**: a step of the pipeline is a
transition of the abstract model, or does not show there. -/
theorem custody_step {s' : State A K} (h : Stepped cfg s s') :
    s'.custody = s.custody ∨ Custody.Step cfg.bundled s.custody s'.custody := by
  cases h with
  -- `SubmitMix` gets a frame, fills it and puts it into `mixCh`
  | acquire pcm frameTs isRec fr hmixer hpool =>
    exact Or.inr (acquire_step cfg hmixer hpool pcm frameTs isRec)
  | allocate pcm frameTs isRec hmixer => exact Or.inr (allocate_step cfg hmixer pcm frameTs isRec)
  | fill fr pcm frameTs isRec hmixer => exact Or.inl (custody_fill hmixer)
  | pushAgain fr stage stage' hmixer => exact Or.inl (custody_pushAgain stage' hmixer)
  | enqueue fr stage hmixer =>
    right
    rw [custody_enqueue hmixer]
    exact .enqueue fr (congrArg Mixer.fresh hmixer)
  -- a frame is displaced, and goes back to the pool
  | evict fr stage old rest hmixer hmix =>
    right
    rw [custody_evict old rest hmixer]
    exact .evict old rest (congrArg Mixer.stale hmixer) hmix
  | giveUp fr stage hmixer =>
    exact Or.inr (.giveUp fr (congrArg Mixer.fresh hmixer) (congrArg Mixer.stale hmixer))
  | recycle old next hmixer =>
    right
    rw [custody_recycle hmixer]
    exact .recycle old (congrArg Mixer.stale hmixer)
  | collect fr hpool => exact Or.inr (.collect fr hpool)
  -- the dispatcher counts the workers in; each gets the frame in its turn
  | dispatch fr rest hdispatcher hmix =>
    right
    rw [custody_dispatch fr rest hdispatcher]
    exact .dispatch fr rest hmix
  | sendJob fr w hw hdispatcher => exact Or.inl (custody_sendJob hw hdispatcher)
  | take w fr rest hworker hjobs => exact Or.inl (custody_take _ hworker hjobs)
  -- while a worker encodes and sends, its frame stays with it
  | encodeFailed w fr c cs hworker =>
    exact Or.inl (custody_encode s none s.encCount s.encSeq hworker rfl rfl)
  | encodeBundled w fr c cs payload hworker hbundled =>
    exact Or.inl (custody_encodeBundled s payload _ hworker)
  | encodeRefused w fr c cs payload e hworker hbundled hmarshal =>
    exact Or.inl (custody_encode s (some payload) _ _ hworker rfl rfl)
  | encodeLegacy w fr c cs payload buf hworker hbundled hmarshal =>
    exact Or.inl (custody_encode s (some payload) _ _ hworker rfl rfl)
  | sendAgain w fr item stage stage' next hworker => exact Or.inl (custody_sendAgain stage' hworker)
  | sendEnqueue w fr item stage next hworker =>
    have hkept : { s with sendCh := s.sendCh ++ [item] }.workers w
      = .pushing fr item stage next := hworker
    exact Or.inl (custody_resume hkept)
  | sendEvict w fr item stage next old rest hworker hsend =>
    have hkept : { s with sendCh := rest, sendDrops := s.sendDrops + 1 }.workers w
      = .pushing fr item stage next := hworker
    exact Or.inl (custody_sendAgain .retry hkept)
  | sendGiveUp w fr item stage next hworker =>
    have hkept : { s with sendDrops := s.sendDrops + 1 }.workers w
      = .pushing fr item stage next := hworker
    exact Or.inl (custody_resume hkept)
  -- the last worker to finish a frame marshals it and returns it to the pool
  | finish w fr isLast hworker hlast => exact Or.inr (finish_step cfg hworker hlast)
  | marshalDone w fr hworker => exact Or.inl (custody_busy hworker rfl rfl)
  | marshalSkip w fr group groups hworker => exact Or.inl (custody_marshal hworker rfl rfl)
  | marshalPush w fr group groups buf hworker => exact Or.inl (custody_marshal hworker rfl rfl)
  | release w fr hworker =>
    right
    rw [custody_release hworker]
    exact .release w fr (congrArg Worker.finishing hworker)
  | transmit item rest hsend => exact Or.inl rfl
  | discard item rest hsend => exact Or.inl rfl

/-- **A step of the pipeline keeps frames in order.** -/
theorem custody_ok_step (hK : 0 < K) {s' : State A K} (hok : s.custody.Ok cfg.bundled)
    (h : Stepped cfg s s') : s'.custody.Ok cfg.bundled := by
  rcases custody_step h with heq | hs
  · rw [heq]
    exact hok
  · exact hok.step hK hs

end Pipeline

end AmbiRTC
