/-
AmbiRTC/PipelineBundles.lean

What `sendBundled` marshals.  The worker that is the last to finish a frame
marshals the groups of the layout one after the other, each from the payloads
that the channels came to in this use of the frame.

Main results: `Bundles` says how far each frame in use is marshalled and from
what, and every step of the pipeline keeps it (`bundles_step`).
-/
import AmbiRTC.PipelineProgress

namespace AmbiRTC

namespace Pipeline

open DropOldest FanOut Runs

variable {A : Type} {K : ℕ}

/-- What marshalling has come to. -/
structure Bundles (cfg : Config A) (s : State A K) : Prop where
  waiting : ∀ fr ∈ s.custody.line, (∀ w, (s.workers w).finishing ≠ some fr) →
    (s.log (s.heap fr).use).marshalled = []
  underway : ∀ w fr groups, (s.workers w).groups = some (fr, groups) →
    (s.log (s.heap fr).use).marshalled.map Prod.fst ++ groups = cfg.layout
  released : ∀ u, (s.log u).life.dispatched ≠ 0 → (s.log u).life.released ≠ 0 →
    (s.log u).marshalled.map Prod.fst = cfg.layout
  content : ∀ u group chans, (group, chans) ∈ (s.log u).marshalled →
    chans = groupPayloads (fun c => Progress.outcome ((s.log u).encoded c)) group
  encoded : ∀ u, (s.log u).marshalled ≠ [] → ∀ c < channels, (s.log u).encoded c ≠ none

variable {cfg : Config A} {s s' : State A K}

/-- Steps that neither encode nor marshal keep what marshalling has come to. -/
theorem Bundles.quiet (h : Bundles cfg s) (hline : ∀ fr ∈ s'.custody.line, fr ∈ s.custody.line)
    (huse : ∀ fr, (s'.heap fr).use = (s.heap fr).use)
    (hgroups : ∀ w, (s'.workers w).groups = (s.workers w).groups)
    (hmarshalled : ∀ u, (s'.log u).marshalled = (s.log u).marshalled)
    (hencoded : ∀ u, (s'.log u).encoded = (s.log u).encoded)
    (hlife : ∀ u, (s'.log u).life.dispatched ≠ 0 → (s'.log u).life.released ≠ 0 →
      (s.log u).marshalled.map Prod.fst = cfg.layout) : Bundles cfg s' where
  waiting fr hfr hw := by
    rw [huse, hmarshalled]
    refine h.waiting fr (hline fr hfr) fun w => ?_
    rw [Worker.finishing, ← hgroups w]
    exact hw w
  underway w fr groups hg := by
    rw [huse, hmarshalled]
    exact h.underway w fr groups ((hgroups w).symm.trans hg)
  released u hd hr := by
    rw [hmarshalled]
    exact hlife u hd hr
  content u group chans hin := by
    rw [hencoded]
    exact h.content u group chans (hmarshalled u ▸ hin)
  encoded u hu c hc := by
    rw [hencoded]
    exact h.encoded u (hmarshalled u ▸ hu) c hc

/-- Steps of the mixer, of the dispatcher and of the send queue. -/
theorem Bundles.moved (h : Bundles cfg s) (hline : ∀ fr ∈ s'.custody.line, fr ∈ s.custody.line)
    (huse : ∀ fr, (s'.heap fr).use = (s.heap fr).use)
    (hgroups : ∀ w, (s'.workers w).groups = (s.workers w).groups) (hlog : s'.log = s.log) :
    Bundles cfg s' :=
  h.quiet hline huse hgroups (fun u => by rw [hlog]) (fun u => by rw [hlog])
    fun u => by rw [hlog]; exact h.released u

theorem groups_setWorker (s : State A K) (w : Fin K) {wk : Worker}
    (h : wk.groups = (s.workers w).groups) (w' : Fin K) :
    ((s.setWorker w wk).workers w').groups = (s.workers w').groups := by
  show (Function.update s.workers w wk w').groups = _
  by_cases hw : w' = w
  · rw [hw, Function.update_self, h]
  · rw [Function.update_of_ne hw]

/-- A step of `pushSend`. -/
theorem Bundles.send (h : Bundles cfg s) {w : Fin K} {fr : ℕ} {item : Outgoing} {stage : Stage}
    {next : Next} {wk : Worker} (hworker : s.workers w = .pushing fr item stage next)
    (hgroups : wk.groups = (Worker.pushing fr item stage next).groups)
    (sendCh : List Outgoing) (sendDrops : UInt64) :
    Bundles cfg ({ s with sendCh, sendDrops }.setWorker w wk) :=
  h.moved (fun _ hf => hf) (fun _ => rfl)
    (groups_setWorker { s with sendCh, sendDrops } w
      (hgroups.trans (congrArg Worker.groups hworker).symm)) rfl

/-! ### Who is finishing what -/

theorem finishing_mem_flight {bundled : Bool} (hok : s.custody.Ok bundled) {w : Fin K} {fr : ℕ}
    (h : (s.workers w).finishing = some fr) : fr ∈ s.flight :=
  hok.fan.mem_flight (Fan.mem_held.mpr (Or.inl h))

theorem finishing_of_groups {wk : Worker} {fr : ℕ} {groups : List (List UInt8)}
    (h : wk.groups = some (fr, groups)) : wk.finishing = some fr := by
  rw [Worker.finishing, h]
  rfl

/-- Nobody is finishing a frame somebody is encoding. -/
theorem not_finishing_of_current {bundled : Bool} (hok : s.custody.Ok bundled) {w : Fin K}
    {fr : ℕ} (h : (s.workers w).current = some fr) (w' : Fin K) :
    (s.workers w').finishing ≠ some fr := by
  intro hlast
  apply hok.fan.done w' fr hlast w
  show fr ∈ (s.workers w).current.toList ++ s.jobs w ++ s.dispatcher.due w
  rw [h]
  exact List.mem_cons_self

/-- Nothing is pending of a frame that is being finished: all its channels were encoded. -/
theorem encoded_of_finishing {bundled : Bool} (hK : 0 < K) (hok : s.custody.Ok bundled)
    (hprogress : s.progress.Ok bundled) {w : Fin K} {fr : ℕ}
    (h : (s.workers w).finishing = some fr) {c : ℕ} (hc : c < channels) :
    (s.log (s.heap fr).use).encoded c ≠ none := by
  -- the owner of the channel is not encoding the frame, nor is it still ahead of the owner
  obtain ⟨w', hw'⟩ := exists_owner hK hc
  have hflight := finishing_mem_flight hok h
  have hline : fr ∈ s.custody.line := Custody.mem_line.mpr (Or.inl hflight)
  have htodo := hok.fan.done w fr h w'
  have hcurrent : (s.workers w').current ≠ some fr :=
    fun hcur => not_finishing_of_current hok hcur w h
  have hahead : fr ∉ s.custody.ahead w' := by
    have hnodup := hok.line_nodup
    rw [Custody.line, List.append_assoc, List.nodup_append] at hnodup
    rw [Custody.ahead, List.append_assoc, List.mem_append, not_or]
    exact ⟨htodo, fun hin => hnodup.2.2 fr hflight fr hin rfl⟩
  intro hnone
  have hpending := (hprogress.unencoded fr hline w' c hw').mp hnone
  change c ∈ pendingOf w' (s.workers w') (s.custody.ahead w') fr at hpending
  rw [pendingOf_other hcurrent, if_neg hahead] at hpending
  cases hpending

/-! ### Beginning a use -/

theorem Bundles.start (h : Bundles cfg s) (hok : s.custody.Ok cfg.bundled) {fr : ℕ}
    (hfr : ¬ s.custody.InUse fr) (pool : List ℕ) (allocated : ℕ) (frame : MixFrame A)
    (pcm : ℕ → A) (frameTs : UInt32) (isRec : Bool) :
    Bundles cfg { s with
      uses := s.uses + 1
      log := Function.update s.log s.uses (Use.new pcm)
      allocated := allocated
      pool := pool
      heap := Function.update s.heap fr (frame.ready cfg s.uses)
      mixer := .filling fr pcm frameTs isRec } := by
  -- the frames of the line keep their uses, and the uses their records
  have hheap : ∀ f ∈ s.custody.line,
      (Function.update s.heap fr (frame.ready cfg s.uses) f).use = (s.heap f).use := by
    intro f hf
    rw [Function.update_of_ne]
    rintro rfl
    exact hfr (Or.inl hf)
  have hlog : ∀ f ∈ s.custody.line, Function.update s.log s.uses (Use.new pcm) (s.heap f).use
      = s.log (s.heap f).use :=
    fun f hf => Function.update_of_ne (hok.use_lt f (Or.inl hf)).ne _ _
  have hrecord : ∀ u, Function.update s.log s.uses (Use.new pcm) u = Use.new pcm ∨
      Function.update s.log s.uses (Use.new pcm) u = s.log u := by
    intro u
    by_cases hu : u = s.uses
    · rw [hu, Function.update_self]
      exact Or.inl rfl
    · exact Or.inr (Function.update_of_ne hu _ _)
  refine
    { waiting := fun f hf hw => ?waiting
      underway := fun w f groups hg => ?underway
      released := fun u hd hr => ?released
      content := fun u group chans hin => ?content
      encoded := fun u hu c hc => ?encoded }
  case waiting =>
    show (Function.update s.log s.uses (Use.new pcm)
      (Function.update s.heap fr (frame.ready cfg s.uses) f).use).marshalled = []
    have hline : f ∈ s.custody.line ∨ f = fr := by
      change f ∈ s.flight ++ s.mixCh ++ [fr] at hf
      rw [List.mem_append, List.mem_singleton] at hf
      exact hf.imp_left fun hin => List.mem_append_left _ hin
    rcases hline with hf | rfl
    · rw [hheap f hf, hlog f hf]
      exact h.waiting f hf hw
    · rw [Function.update_self]
      show (Function.update s.log s.uses (Use.new pcm) s.uses).marshalled = []
      rw [Function.update_self]
      rfl
  case underway =>
    show (Function.update s.log s.uses (Use.new pcm)
      (Function.update s.heap fr (frame.ready cfg s.uses) f).use).marshalled.map Prod.fst ++ _ = _
    -- a frame being marshalled is in flight, so it is not the new one
    have hf : f ∈ s.custody.line :=
      Custody.mem_line.mpr (Or.inl (finishing_mem_flight hok (finishing_of_groups hg)))
    rw [hheap f hf, hlog f hf]
    exact h.underway w f groups hg
  case released =>
    rcases hrecord u with hu | hu
    · -- the new use has not been dispatched
      exact absurd (congrArg (fun r : Use A K => r.life.dispatched) hu) hd
    · have hu' := congrArg (fun r : Use A K => r.marshalled.map Prod.fst) hu
      refine hu'.trans (h.released u ?_ ?_)
      · exact fun hzero => hd ((congrArg (fun r : Use A K => r.life.dispatched) hu).trans hzero)
      · exact fun hzero => hr ((congrArg (fun r : Use A K => r.life.released) hu).trans hzero)
  case content =>
    change (group, chans) ∈ (Function.update s.log s.uses (Use.new pcm) u).marshalled at hin
    show chans = groupPayloads
      (fun c => Progress.outcome ((Function.update s.log s.uses (Use.new pcm) u).encoded c)) group
    rcases hrecord u with hu | hu
    · rw [hu] at hin
      cases hin
    · rw [hu] at hin ⊢
      exact h.content u group chans hin
  case encoded =>
    change (Function.update s.log s.uses (Use.new pcm) u).marshalled ≠ [] at hu
    show (Function.update s.log s.uses (Use.new pcm) u).encoded c ≠ none
    rcases hrecord u with hnew | hold
    · rw [hnew] at hu
      exact absurd rfl hu
    · rw [hold] at hu ⊢
      exact h.encoded u hu c hc

/-! ### Encoding -/

/-- A channel is encoded only of a frame that nothing of is marshalled yet. -/
theorem Bundles.encode (h : Bundles cfg s) (hok : s.custody.Ok cfg.bundled) {w : Fin K}
    {fr c : ℕ} {cs : List ℕ} {result : Option (List UInt8)}
    (hworker : s.workers w = .encoding fr (c :: cs)) (hcustody : s'.custody = s.custody)
    (hgroups : ∀ w', (s'.workers w').groups = (s.workers w').groups)
    (hlog : s'.log = (s.note fr fun u => u.encode c ((s.heap fr).pcm c) result).log) :
    Bundles cfg s' := by
  have hcurrent : (s.workers w).current = some fr := congrArg Worker.current hworker
  have hline : fr ∈ s.custody.line :=
    Custody.mem_line.mpr (Or.inl (current_mem_flight hok hcurrent))
  have hempty := h.waiting fr hline (not_finishing_of_current hok hcurrent)
  have huse : ∀ f, (s'.heap f).use = (s.heap f).use := congrFun (congrArg Custody.use hcustody)
  have hlife : ∀ u, (s'.log u).life = (s.log u).life := congrFun (congrArg Custody.life hcustody)
  have hmarshalled : ∀ u, (s'.log u).marshalled = (s.log u).marshalled := by
    rw [hlog]
    exact note_proj Use.marshalled s fr
      (f := fun u => u.encode c ((s.heap fr).pcm c) result) fun _ => rfl
  -- only the record of a use that nothing is marshalled of has changed
  have hsame : ∀ u, (s'.log u).marshalled ≠ [] → s'.log u = s.log u := by
    intro u hu
    rw [hlog]
    refine Function.update_of_ne ?_ _ _
    rintro rfl
    exact hu ((hmarshalled _).trans hempty)
  refine
    { waiting := fun f hf hw => ?waiting
      underway := fun w' f groups hg => ?underway
      released := fun u hd hr => ?released
      content := fun u group chans hin => ?content
      encoded := fun u hu c' hc' => ?encoded }
  case waiting =>
    rw [huse, hmarshalled]
    refine h.waiting f (congrArg Custody.line hcustody ▸ hf) fun w' => ?_
    rw [Worker.finishing, ← hgroups w']
    exact hw w'
  case underway =>
    rw [huse, hmarshalled]
    exact h.underway w' f groups ((hgroups w').symm.trans hg)
  case released =>
    rw [hmarshalled]
    exact h.released u (hlife u ▸ hd) (hlife u ▸ hr)
  case content =>
    have hu := hsame u (List.ne_nil_of_mem hin)
    rw [hu] at hin ⊢
    exact h.content u group chans hin
  case encoded =>
    have hu' := hsame u hu
    rw [hu'] at hu ⊢
    exact h.encoded u hu c' hc'

/-! ### Counting -/

theorem count_use (s : State A K) (fr : ℕ) (refs : ℤ) (f : ℕ) :
    ((s.setFrame fr fun frame => { frame with refs }).heap f).use = (s.heap f).use :=
  setFrame_proj MixFrame.use s fr (f := fun frame => { frame with refs }) (fun _ => rfl) f

/-- Counting shows only in the life of a use. -/
theorem count_proj {β : Type} (g : Use A K → β) (s : State A K) (fr : ℕ) (refs : ℤ)
    {f : Life K → Life K} (hg : ∀ u, g { u with life := f u.life } = g u) (u : ℕ) :
    g (((s.setFrame fr fun frame => { frame with refs }).note fr fun u =>
      { u with life := f u.life }).log u) = g (s.log u) :=
  note_proj g (s.setFrame fr fun frame => { frame with refs }) fr hg u

/-- The dispatcher hands out a frame that has not been released. -/
theorem Bundles.dispatch (h : Bundles cfg s) (hok : s.custody.Ok cfg.bundled) {fr : ℕ}
    {rest : List ℕ} (hdispatcher : s.dispatcher = .idle) (hmix : s.mixCh = fr :: rest) :
    Bundles cfg ((({ s with
      mixCh := rest
      dispatcher := .fanning fr 0
      flight := s.flight ++ [fr] }.setFrame fr fun frame => { frame with refs := K }).note fr
        fun u => { u with life := u.life.dispatch })) := by
  have hcustody := custody_dispatch fr rest hdispatcher
  have hnew : (s.log (s.heap fr).use).life = .new := hok.waiting fr
    (Or.inl (by rw [show s.custody.mixCh = _ from hmix]; exact List.mem_cons_self))
  refine h.quiet (fun f hf => ?_) (count_use _ fr K) (fun _ => rfl)
    (count_proj Use.marshalled _ fr K fun _ => rfl) (count_proj Use.encoded _ fr K fun _ => rfl)
    fun u hd hr => ?_
  · rw [hcustody] at hf
    change f ∈ s.flight ++ [fr] ++ rest ++ s.mixer.fresh.toList at hf
    show f ∈ s.flight ++ s.mixCh ++ s.mixer.fresh.toList
    rw [hmix]
    rwa [List.append_assoc s.flight [fr] rest] at hf
  · have hlife := congrFun (congrArg Custody.life hcustody) u
    change _ = Function.update (fun u => (s.log u).life) (s.heap fr).use _ u at hlife
    change Life.dispatched (State.custody _ |>.life u) ≠ 0 at hd
    change Life.released (State.custody _ |>.life u) ≠ 0 at hr
    rw [hlife] at hd hr
    by_cases hu : u = (s.heap fr).use
    · rw [hu, Function.update_self] at hr
      change (s.log (s.heap fr).use).life.released ≠ 0 at hr
      rw [hnew] at hr
      exact absurd rfl hr
    · rw [Function.update_of_ne hu] at hd hr
      exact h.released u hd hr

/-- `pushFrame` puts a frame into the pool that was never dispatched. -/
theorem Bundles.recycle (h : Bundles cfg s) (hok : s.custody.Ok cfg.bundled) {old : ℕ}
    {next : Option (ℕ × Stage)} (hmixer : s.mixer = .recycling old next) :
    Bundles cfg { releaseFrame s old with mixDrops := s.mixDrops + 1, mixer := .next next } := by
  have hnew : (s.log (s.heap old).use).life = .new :=
    hok.waiting old (Or.inr (Or.inr (congrArg Mixer.stale hmixer)))
  refine h.quiet (fun f hf => ?_) (fun _ => rfl) (fun _ => rfl)
    (releaseFrame_proj Use.marshalled s old fun _ => rfl)
    (releaseFrame_proj Use.encoded s old fun _ => rfl) fun u hd hr => ?_
  · change f ∈ s.flight ++ s.mixCh ++ (Mixer.next next : Mixer A).fresh.toList at hf
    rw [fresh_next] at hf
    show f ∈ s.flight ++ s.mixCh ++ s.mixer.fresh.toList
    rw [hmixer]
    exact hf
  · have hlife := congrFun (life_releaseFrame s old) u
    change Life.dispatched ((releaseFrame s old).custody.life u) ≠ 0 at hd
    change Life.released ((releaseFrame s old).custody.life u) ≠ 0 at hr
    rw [hlife] at hd hr
    by_cases hu : u = (s.heap old).use
    · rw [hu] at hd
      change (Function.update s.custody.life (s.heap old).use
        (s.log (s.heap old).use).life.release (s.heap old).use).dispatched ≠ 0 at hd
      rw [Function.update_self, hnew] at hd
      exact absurd rfl hd
    · rw [show s.custody.use old = (s.heap old).use from rfl, Function.update_of_ne hu] at hd hr
      exact h.released u hd hr

/-! ### Finishing, marshalling, releasing -/

/-- The last worker to finish a frame has all groups still to marshal. -/
theorem Bundles.finish (h : Bundles cfg s) (hok : s.custody.Ok cfg.bundled) {w : Fin K}
    {fr : ℕ} (isLast : Bool) (hworker : s.workers w = .encoding fr []) :
    Bundles cfg (((s.setFrame fr fun frame => { frame with refs := (s.heap fr).refs - 1 }).note fr
      fun u => { u with life := u.life.finish w (isLast && cfg.bundled) }).setWorker w
        (if isLast then
          if cfg.bundled then .bundling fr cfg.layout else .releasing fr
        else .idle)) := by
  have hcurrent : (s.workers w).current = some fr := congrArg Worker.current hworker
  have hline : fr ∈ s.custody.line :=
    Custody.mem_line.mpr (Or.inl (current_mem_flight hok hcurrent))
  have hempty := h.waiting fr hline (not_finishing_of_current hok hcurrent)
  have hgroups : Worker.groups (if isLast then
      if cfg.bundled then .bundling fr cfg.layout else .releasing fr else .idle)
      = if isLast then some (fr, cfg.layout) else none := by
    cases isLast with
    | false => rfl
    | true =>
      rw [Config.layout]
      cases cfg.bundled <;> rfl
  generalize (if isLast then if cfg.bundled then Worker.bundling fr cfg.layout else .releasing fr
    else .idle) = wk at hgroups ⊢
  -- counting first, then the worker moves on
  obtain ⟨t, ht⟩ : ∃ t, t = (s.setFrame fr fun frame =>
      { frame with refs := (s.heap fr).refs - 1 }).note fr fun u =>
        { u with life := u.life.finish w (isLast && cfg.bundled) } := ⟨_, rfl⟩
  rw [← ht]
  have huse : ∀ f, (t.heap f).use = (s.heap f).use := by
    rw [ht]
    exact count_use s fr _
  have hproj : ∀ {β : Type} (g : Use A K → β),
      (∀ u, g { u with life := u.life.finish w (isLast && cfg.bundled) } = g u) →
        ∀ u, g (t.log u) = g (s.log u) := by
    rw [ht]
    exact fun g hg => count_proj g s fr ((s.heap fr).refs - 1)
      (f := fun l => l.finish w (isLast && cfg.bundled)) hg
  have hcounted : Bundles cfg t := by
    refine h.quiet (fun f hf => ?_) huse (fun w' => ?_) (hproj Use.marshalled fun _ => rfl)
      (hproj Use.encoded fun _ => rfl) fun u hd hr => h.released u ?_ ?_
    · rw [ht] at hf
      exact hf
    · rw [ht]
      rfl
    · exact hproj (fun u => u.life.dispatched) (fun _ => rfl) u ▸ hd
    · exact hproj (fun u => u.life.released) (fun _ => rfl) u ▸ hr
  have hbefore : (t.workers w).groups = none := by
    rw [ht]
    exact congrArg Worker.groups hworker
  refine
    { waiting := fun f hf hw => hcounted.waiting f hf fun w' => ?waiting
      underway := fun w' f groups hg => ?underway
      released := hcounted.released
      content := hcounted.content
      encoded := hcounted.encoded }
  case waiting =>
    by_cases hw' : w' = w
    · rw [hw', Worker.finishing, hbefore]
      exact fun h => by cases h
    · have := hw w'
      change (Function.update t.workers w wk w').finishing ≠ some f at this
      rwa [Function.update_of_ne hw'] at this
  case underway =>
    change (Function.update t.workers w wk w').groups = some (f, groups) at hg
    show (t.log (t.heap f).use).marshalled.map Prod.fst ++ groups = cfg.layout
    by_cases hw' : w' = w
    · rw [hw', Function.update_self, hgroups] at hg
      split at hg
      · obtain ⟨rfl, rfl⟩ := Prod.mk.inj (Option.some.inj hg)
        rw [huse, hproj Use.marshalled fun _ => rfl, hempty]
        rfl
      · cases hg
    · rw [Function.update_of_ne hw'] at hg
      exact hcounted.underway w' f groups hg

/-- A group is marshalled from the payloads its channels came to in this use. -/
theorem Bundles.marshal (h : Bundles cfg s) (hK : 0 < K) (hok : s.custody.Ok cfg.bundled)
    (hprogress : s.progress.Ok cfg.bundled) {w : Fin K} {fr : ℕ} {group : List UInt8}
    {groups : List (List UInt8)} {wk : Worker}
    (hworker : s.workers w = .bundling fr (group :: groups))
    (hwk : wk.groups = some (fr, groups)) :
    Bundles cfg ((s.note fr fun u =>
      u.marshal group (groupPayloads (s.heap fr).encoded group)).setWorker w wk) := by
  have hgroups : (s.workers w).groups = some (fr, group :: groups) := congrArg Worker.groups hworker
  have hfinishing := finishing_of_groups hgroups
  have hflight := finishing_mem_flight hok hfinishing
  have hline : fr ∈ s.custody.line := Custody.mem_line.mpr (Or.inl hflight)
  have hbundled : cfg.bundled = true := by
    -- without bundles there is no group to marshal
    by_contra hnot
    have hall := h.underway w fr _ hgroups
    rw [Config.layout, if_neg hnot] at hall
    cases (List.append_eq_nil_iff.mp hall).2
  obtain ⟨t, ht⟩ : ∃ t, t = s.note fr fun u =>
      u.marshal group (groupPayloads (s.heap fr).encoded group) := ⟨_, rfl⟩
  rw [← ht]
  have hheap : t.heap = s.heap := by rw [ht]; rfl
  have hworkers : t.workers = s.workers := by rw [ht]; rfl
  have hcustody : t.custody = s.custody := by
    rw [ht]
    exact custody_note s fr fun _ => rfl
  have hself : t.log (s.heap fr).use = (s.log (s.heap fr).use).marshal group
      (groupPayloads (s.heap fr).encoded group) := by
    rw [ht]
    exact Function.update_self _ _ _
  have hother : ∀ u, u ≠ (s.heap fr).use → t.log u = s.log u := by
    intro u hu
    rw [ht]
    exact Function.update_of_ne hu _ _
  -- only one worker is finishing a frame
  have honly : ∀ w' f, (Function.update s.workers w wk w').finishing = some f →
      w' = w ∧ f = fr := by
    intro w' f hf
    by_cases hw' : w' = w
    · rw [hw', Function.update_self, finishing_of_groups hwk] at hf
      exact ⟨hw', (Option.some.inj hf).symm⟩
    · rw [Function.update_of_ne hw'] at hf
      exact hok.fan.finisher_unique hf hfinishing
  have hwself : (Function.update s.workers w wk w).finishing = some fr := by
    rw [Function.update_self]
    exact finishing_of_groups hwk
  refine
    { waiting := fun f hf hw' => ?waiting
      underway := fun w' f gs hg => ?underway
      released := fun u hd hr => ?released
      content := fun u g chans hin => ?content
      encoded := fun u hu c hc => ?encoded }
  case waiting =>
    have hline' : (t.setWorker w wk).custody.line = s.custody.line := by
      show t.custody.line = s.custody.line
      rw [hcustody]
    rw [hline'] at hf
    show (t.log (t.heap f).use).marshalled = []
    change ∀ w', (Function.update t.workers w wk w').finishing ≠ some f at hw'
    rw [hworkers] at hw'
    have hne : f ≠ fr := by
      rintro rfl
      exact hw' w hwself
    have huse : (s.heap f).use ≠ (s.heap fr).use :=
      fun huse => hne (hok.use_injective hf hline huse)
    rw [hheap, hother _ huse]
    refine h.waiting f hf fun w' hw'' => hne ?_
    exact (hok.fan.finisher_unique hw'' hfinishing).2
  case underway =>
    change (Function.update t.workers w wk w').groups = some (f, gs) at hg
    rw [hworkers] at hg
    obtain ⟨rfl, rfl⟩ := honly w' f (finishing_of_groups hg)
    rw [Function.update_self, hwk] at hg
    obtain ⟨-, rfl⟩ := Prod.mk.inj (Option.some.inj hg)
    show (t.log (t.heap f).use).marshalled.map Prod.fst ++ groups = cfg.layout
    rw [hheap, hself, Use.marshal, List.map_append, List.append_assoc]
    exact h.underway w' f _ hgroups
  case released =>
    change (t.log u).life.dispatched ≠ 0 at hd
    change (t.log u).life.released ≠ 0 at hr
    show (t.log u).marshalled.map Prod.fst = cfg.layout
    by_cases hu : u = (s.heap fr).use
    · -- a frame in flight has not been released
      rw [hu, hself] at hr
      exact absurd (congrArg Life.released (hok.flies fr hflight)) hr
    · rw [hother u hu] at hd hr ⊢
      exact h.released u hd hr
  case content =>
    change (g, chans) ∈ (t.log u).marshalled at hin
    show chans = groupPayloads (fun c => Progress.outcome ((t.log u).encoded c)) g
    by_cases hu : u = (s.heap fr).use
    · rw [hu, hself] at hin ⊢
      rcases List.mem_append.mp hin with hin | hin
      · exact h.content _ g chans hin
      · -- the frame holds what its channels came to, never what an earlier use left there
        obtain ⟨rfl, rfl⟩ := Prod.mk.inj (List.mem_singleton.mp hin)
        have hstored : (s.heap fr).encoded
            = fun c => Progress.outcome ((s.log (s.heap fr).use).encoded c) :=
          funext (hprogress.stored hbundled fr hline)
        rw [hstored]
        rfl
    · rw [hother u hu] at hin ⊢
      exact h.content u g chans hin
  case encoded =>
    change (t.log u).marshalled ≠ [] at hu
    show (t.log u).encoded c ≠ none
    by_cases huse : u = (s.heap fr).use
    · rw [huse, hself]
      exact encoded_of_finishing hK hok hprogress hfinishing hc
    · rw [hother u huse] at hu ⊢
      exact h.encoded u hu c hc

/-- Released, a frame has had all its groups marshalled. -/
theorem Bundles.release (h : Bundles cfg s) (hok : s.custody.Ok cfg.bundled) {w : Fin K}
    {fr : ℕ} (hworker : s.workers w = .releasing fr) :
    Bundles cfg ({ releaseFrame s fr with flight := s.flight.erase fr }.setWorker w .idle) := by
  have hfinishing : (s.workers w).finishing = some fr := congrArg Worker.finishing hworker
  have hnodup := hok.line_nodup
  -- the frame released is the head of the line
  have hline : s.custody.line = fr :: (s.flight.erase fr ++ s.mixCh ++ s.mixer.fresh.toList) := by
    obtain ⟨rest, hrest⟩ := hok.fan.head hfinishing
    change s.flight = fr :: rest at hrest
    show s.flight ++ s.mixCh ++ s.mixer.fresh.toList = _
    rw [hrest, List.erase_cons_head, List.cons_append, List.cons_append]
  rw [hline] at hnodup
  have hmarshalled : ∀ u, ((releaseFrame s fr).log u).marshalled = (s.log u).marshalled :=
    releaseFrame_proj Use.marshalled s fr fun _ => rfl
  have hencoded : ∀ u, ((releaseFrame s fr).log u).encoded = (s.log u).encoded :=
    releaseFrame_proj Use.encoded s fr fun _ => rfl
  refine
    { waiting := fun f hf hw' => ?waiting
      underway := fun w' f gs hg => ?underway
      released := fun u hd hr => ?released
      content := fun u g chans hin => ?content
      encoded := fun u hu c hc => ?encoded }
  case waiting =>
    change f ∈ s.flight.erase fr ++ s.mixCh ++ s.mixer.fresh.toList at hf
    show ((releaseFrame s fr).log (s.heap f).use).marshalled = []
    -- the others of the line have their uses still to be marshalled
    have hne : f ≠ fr := by
      rintro rfl
      exact (List.nodup_cons.mp hnodup).1 hf
    rw [hmarshalled]
    refine h.waiting f (by rw [hline]; exact List.mem_cons_of_mem fr hf) fun w' hw'' => hne ?_
    exact (hok.fan.finisher_unique hw'' hfinishing).2
  case underway =>
    change (Function.update s.workers w .idle w').groups = some (f, gs) at hg
    show ((releaseFrame s fr).log (s.heap f).use).marshalled.map Prod.fst ++ gs = cfg.layout
    rw [hmarshalled]
    -- the worker that released has no groups any more
    by_cases hw' : w' = w
    · rw [hw', Function.update_self] at hg
      cases hg
    · rw [Function.update_of_ne hw'] at hg
      exact h.underway w' f gs hg
  case released =>
    show ((releaseFrame s fr).log u).marshalled.map Prod.fst = cfg.layout
    rw [hmarshalled]
    by_cases hu : u = (s.heap fr).use
    · -- no group was left when the worker came to release it
      rw [hu]
      have hall := h.underway w fr [] (congrArg Worker.groups hworker)
      rwa [List.append_nil] at hall
    · have hsame : (releaseFrame s fr).log u = s.log u := Function.update_of_ne hu _ _
      change ((releaseFrame s fr).log u).life.dispatched ≠ 0 at hd
      change ((releaseFrame s fr).log u).life.released ≠ 0 at hr
      rw [hsame] at hd hr
      exact h.released u hd hr
  case content =>
    change (g, chans) ∈ ((releaseFrame s fr).log u).marshalled at hin
    show chans = groupPayloads
      (fun c => Progress.outcome (((releaseFrame s fr).log u).encoded c)) g
    rw [hencoded]
    exact h.content u g chans (hmarshalled u ▸ hin)
  case encoded =>
    show ((releaseFrame s fr).log u).encoded c ≠ none
    rw [hencoded]
    exact h.encoded u (hmarshalled u ▸ hu) c hc

/-! ### All steps -/

theorem bundles_initial (cfg : Config A) : Bundles cfg (initial cfg : State A K) where
  waiting _ _ _ := rfl
  underway _ _ _ h := by cases h
  released _ h := absurd rfl h
  content _ _ _ h := by cases h
  encoded _ h := absurd rfl h

/-- **Every step keeps what marshalling has come to.** -/
theorem bundles_step (hK : 0 < K) (hok : s.custody.Ok cfg.bundled)
    (hprogress : s.progress.Ok cfg.bundled) (h : Bundles cfg s) (hstep : Stepped cfg s s') :
    Bundles cfg s' := by
  cases hstep with
  | acquire pcm frameTs isRec fr hmixer hpool =>
    exact h.start hok (hok.not_inUse_of_pool hpool) _ _ _ pcm frameTs isRec
  | allocate pcm frameTs isRec hmixer =>
    exact h.start hok hok.not_inUse_of_allocated _ _ _ pcm frameTs isRec
  | fill fr pcm frameTs isRec hmixer =>
    refine h.moved (fun f hf => ?_) ?_ (fun _ => rfl) rfl
    · show f ∈ s.flight ++ s.mixCh ++ s.mixer.fresh.toList
      rw [hmixer]
      exact hf
    · exact setFrame_proj MixFrame.use s fr
        (f := fun frame => { frame with pcm, frameTs, isRec }) fun _ => rfl
  -- the mixer passes the frame on: it stays in line, or leaves it, and no bundle changes
  | pushAgain fr stage stage' hmixer =>
    refine h.moved (fun f hf => ?_) (fun _ => rfl) (fun _ => rfl) rfl
    show f ∈ s.flight ++ s.mixCh ++ s.mixer.fresh.toList
    rw [hmixer]
    exact hf
  | enqueue fr stage hmixer =>
    refine h.moved (fun f hf => ?_) (fun _ => rfl) (fun _ => rfl) rfl
    change f ∈ s.flight ++ (s.mixCh ++ [fr]) ++ [] at hf
    show f ∈ s.flight ++ s.mixCh ++ s.mixer.fresh.toList
    rw [List.append_nil, ← List.append_assoc] at hf
    rw [hmixer]
    exact hf
  | evict fr stage old rest hmixer hmix =>
    refine h.moved (fun f hf => ?_) (fun _ => rfl) (fun _ => rfl) rfl
    show f ∈ s.flight ++ s.mixCh ++ s.mixer.fresh.toList
    rw [hmixer, hmix]
    exact (((List.Sublist.refl _).append (List.sublist_cons_self old rest)).append_right _).subset
      hf
  | giveUp fr stage hmixer =>
    refine h.moved (fun f hf => ?_) (fun _ => rfl) (fun _ => rfl) rfl
    change f ∈ s.flight ++ s.mixCh ++ [] at hf
    rw [List.append_nil] at hf
    exact List.mem_append_left _ hf
  | recycle old next hmixer => exact h.recycle hok hmixer
  | collect fr hpool => exact h.moved (fun _ hf => hf) (fun _ => rfl) (fun _ => rfl) rfl
  | dispatch fr rest hdispatcher hmix => exact h.dispatch hok hdispatcher hmix
  | sendJob fr w hw hdispatcher => exact h.moved (fun _ hf => hf) (fun _ => rfl) (fun _ => rfl) rfl
  | take w fr rest hworker hjobs =>
    exact h.moved (fun _ hf => hf) (fun _ => rfl)
      (groups_setWorker { s with jobs := Function.update s.jobs w rest } w
        (congrArg Worker.groups hworker).symm) rfl
  -- an outcome is recorded, and the groups of the workers are as they were
  | encodeFailed w fr c cs hworker =>
    exact h.encode hok hworker (custody_encode s none s.encCount s.encSeq hworker rfl rfl)
      (groups_setWorker s w (congrArg Worker.groups hworker).symm) rfl
  | encodeBundled w fr c cs payload hworker hbundled =>
    exact h.encode hok hworker (custody_encodeBundled s payload _ hworker)
      (groups_setWorker s w (congrArg Worker.groups hworker).symm) rfl
  | encodeRefused w fr c cs payload e hworker hbundled hmarshal =>
    exact h.encode hok hworker (custody_encode s (some payload) _ _ hworker rfl rfl)
      (groups_setWorker s w (congrArg Worker.groups hworker).symm) rfl
  | encodeLegacy w fr c cs payload buf hworker hbundled hmarshal =>
    exact h.encode hok hworker (custody_encode s (some payload) _ _ hworker rfl rfl)
      (groups_setWorker s w (congrArg Worker.groups hworker).symm) rfl
  -- a send moves an item about, and no frame
  | sendAgain w fr item stage stage' next hworker =>
    exact h.send hworker (by cases next <;> rfl) s.sendCh s.sendDrops
  | sendEnqueue w fr item stage next hworker =>
    exact h.send hworker (groups_resume fr item stage next) _ _
  | sendEvict w fr item stage next old rest hworker hsend =>
    exact h.send hworker (by cases next <;> rfl) _ _
  | sendGiveUp w fr item stage next hworker =>
    exact h.send hworker (groups_resume fr item stage next) _ _
  | finish w fr isLast hworker hlast => exact h.finish hok isLast hworker
  -- no group is left: the worker goes on to release the frame
  | marshalDone w fr hworker =>
    exact h.moved (fun _ hf => hf) (fun _ => rfl)
      (groups_setWorker s w (congrArg Worker.groups hworker).symm) rfl
  | marshalSkip w fr group groups hworker => exact h.marshal hK hok hprogress hworker rfl
  | marshalPush w fr group groups buf hworker => exact h.marshal hK hok hprogress hworker rfl
  | release w fr hworker => exact h.release hok hworker
  | transmit item rest hsend => exact h.moved (fun _ hf => hf) (fun _ => rfl) (fun _ => rfl) rfl
  | discard item rest hsend => exact h.moved (fun _ hf => hf) (fun _ => rfl) (fun _ => rfl) rfl

end Pipeline

end AmbiRTC
