/-
AmbiRTC/PipelineSends.lean

What a step of the pipeline does to the packets: it may make one, in the hands
of a worker, put one into `sendCh`, or lose some; those handed to `dc.Send` and
those in `sendCh` stay in the order they were queued in.

Main results: every step is one of these (`sends_step`), and the frames of the
line keep their uses (`line_step`).
-/
import AmbiRTC.PipelineBundles
import Mathlib.Data.Nat.Count

namespace AmbiRTC

namespace Pipeline

open DropOldest FanOut Runs

variable {A : Type} {K : ℕ}

/-! ### Packets and successes -/

/-- The packets handed to `dc.Send`, then those waiting for it. -/
def State.out (s : State A K) : List Outgoing := s.sent ++ s.sendCh

/-- The packet a worker is pushing, with its frame and what the worker goes back to. -/
def Worker.carrying : Worker → Option (ℕ × Outgoing × Next)
  | .pushing fr item _ next => some (fr, item, next)
  | _ => none

/-- Channel `c` was encoded successfully in use `u`. -/
def State.succeeded (s : State A K) (c u : ℕ) : Bool :=
  (((s.log u).encoded c).bind Prod.snd).isSome

/-- How many uses before `u` channel `c` was encoded successfully in. -/
def State.successes (s : State A K) (c u : ℕ) : ℕ := Nat.count (fun u' => s.succeeded c u') u

/-- What a step does to packets and successes. -/
inductive Sends (cfg : Config A) (s s' : State A K) : Prop
  | quiet (hout : s'.out.Sublist s.out)
      (hcarrying : ∀ w, (s'.workers w).carrying = (s.workers w).carrying ∨
        (s'.workers w).carrying = none)
      (hencSeq : s'.encSeq = s.encSeq)
      (hsucceeded : cfg.bundled = false → ∀ c u, s'.succeeded c u = s.succeeded c u)
  | marshalled (w : Fin K) (fr : ℕ) (group : List UInt8) (groups : List (List UInt8))
      (buf : List UInt8) (hworker : s.workers w = .bundling fr (group :: groups))
      (hout : s'.out = s.out)
      (hcarrying : ∀ w', (s'.workers w').carrying = if w' = w
        then some (fr, ⟨buf, (s.heap fr).use, none⟩, .bundle groups) else (s.workers w').carrying)
  | numbered (w : Fin K) (fr c : ℕ) (cs : List ℕ) (payload buf : List UInt8)
      (hbundled : cfg.bundled = false) (hworker : s.workers w = .encoding fr (c :: cs))
      (hmarshal : (legacyPacket s fr c payload).marshalBinary = .ok buf)
      (hout : s'.out = s.out)
      (hcarrying : ∀ w', (s'.workers w').carrying = if w' = w
        then some (fr, ⟨buf, (s.heap fr).use, some (legacyPacket s fr c payload)⟩, .encode cs)
        else (s.workers w').carrying)
      (hencSeq : s'.encSeq = Function.update s.encSeq c (s.encSeq c + 1))
      (hsucceeded : ∀ c' u, s'.succeeded c' u
        = if u = (s.heap fr).use ∧ c' = c then true else s.succeeded c' u)
  | enqueued (w : Fin K) (fr : ℕ) (item : Outgoing) (next : Next)
      (hworker : (s.workers w).carrying = some (fr, item, next)) (hout : s'.out = s.out ++ [item])
      (hcarrying : ∀ w', (s'.workers w').carrying = if w' = w then none
        else (s.workers w').carrying)
      (hencSeq : s'.encSeq = s.encSeq) (hsucceeded : ∀ c u, s'.succeeded c u = s.succeeded c u)

variable {cfg : Config A} {s s' : State A K}

/-! ### Frames and uses -/

/-- What a step does to the line of frames in use. -/
theorem line_step (hok : s.custody.Ok cfg.bundled) (h : Stepped cfg s s') :
    s.uses ≤ s'.uses ∧ (∀ fr ∈ s.custody.line, (s'.heap fr).use = (s.heap fr).use) ∧
      ∀ fr ∈ s'.custody.line, fr ∈ s.custody.line ∨ (s'.heap fr).use = s.uses := by
  have huses : s'.progress.uses = s'.uses := rfl
  have huse : s'.progress.use = fun fr => (s'.heap fr).use := rfl
  have hline : ∀ fr ∈ s'.custody.line, fr ∈ s'.progress.line := fun _ hfr => hfr
  rcases progress_step hok h with heq | hs
  · rw [heq] at huses huse hline
    exact ⟨huses.le, fun fr _ => (congrFun huse fr).symm, fun fr hfr => Or.inl (hline fr hfr)⟩
  · generalize s'.progress = p at hs huses huse hline
    cases hs with
    | start fr pcm oldPcm old hfr hunfilled =>
      refine ⟨(Nat.le_succ _).trans huses.le, fun f hf => ?_, fun f hf => ?_⟩
      · refine (congrFun huse f).symm.trans (Function.update_of_ne ?_ _ _)
        rintro rfl
        exact hfr hf
      · refine (List.mem_append.mp (hline f hf)).imp_right fun hin => ?_
        rw [List.mem_singleton.mp hin]
        exact (congrFun huse fr).symm.trans (Function.update_self _ _ _)
    | fill fr pcm hunfilled =>
      exact ⟨huses.le, fun f _ => (congrFun huse f).symm, fun f hf => Or.inl (hline f hf)⟩
    | leave line pending hsub hpending hunfilled =>
      exact ⟨huses.le, fun f _ => (congrFun huse f).symm,
        fun f hf => Or.inl (hsub.subset (hline f hf))⟩
    | encode w fr c cs result hfr hfilled hpending hfirst =>
      exact ⟨huses.le, fun f _ => (congrFun huse f).symm, fun f hf => Or.inl (hline f hf)⟩

/-- A frame whose packet a worker carries is dispatched. -/
theorem carrying_mem_flight (hok : s.custody.Ok cfg.bundled) {w : Fin K} {fr : ℕ}
    {item : Outgoing} {next : Next} (h : (s.workers w).carrying = some (fr, item, next)) :
    fr ∈ s.flight := by
  cases hw : s.workers w with
  | pushing f i stage n =>
    rw [hw] at h
    obtain ⟨rfl, h'⟩ := Prod.mk.inj (Option.some.inj h)
    obtain ⟨rfl, rfl⟩ := Prod.mk.inj h'
    cases n with
    | encode cs => exact current_mem_flight hok (w := w) (by rw [hw]; rfl)
    | bundle groups => exact finishing_mem_flight hok (w := w) (by rw [hw]; rfl)
  | _ =>
    rw [hw] at h
    cases h

/-! ### Every step -/

theorem carrying_setWorker (s : State A K) (w : Fin K) (wk : Worker) (w' : Fin K) :
    ((s.setWorker w wk).workers w').carrying
      = if w' = w then wk.carrying else (s.workers w').carrying := by
  show (Function.update s.workers w wk w').carrying = _
  by_cases hw : w' = w
  · rw [hw, Function.update_self, if_pos rfl]
  · rw [Function.update_of_ne hw, if_neg hw]

theorem carrying_resume (fr : ℕ) (next : Next) : (resume fr next).carrying = none := by
  cases next <;> rfl

/-- A record that has changed in other respects has the same successes. -/
theorem succeeded_congr (h : ∀ u, (s'.log u).encoded = (s.log u).encoded) (c u : ℕ) :
    s'.succeeded c u = s.succeeded c u := by
  rw [State.succeeded, h]
  rfl

/-- Steps of the mixer and the dispatcher carry no packet. -/
theorem Sends.idle (hsent : s'.sent = s.sent) (hsend : s'.sendCh = s.sendCh)
    (hworkers : ∀ w, (s'.workers w).carrying = (s.workers w).carrying ∨
      (s'.workers w).carrying = none) (hencSeq : s'.encSeq = s.encSeq)
    (hsucceeded : ∀ c u, s'.succeeded c u = s.succeeded c u) : Sends cfg s s' := by
  refine .quiet ?_ hworkers hencSeq fun _ => hsucceeded
  rw [State.out, hsent, hsend]
  exact List.Sublist.refl _

/-- A step of a worker that does not make a packet. -/
theorem Sends.work (t : State A K) {w : Fin K} {wk : Worker} (hsent : t.sent = s.sent)
    (hsend : t.sendCh = s.sendCh) (hworkers : t.workers = s.workers)
    (hwk : wk.carrying = (s.workers w).carrying ∨ wk.carrying = none)
    (hencSeq : t.encSeq = s.encSeq) (hsucceeded : ∀ c u, t.succeeded c u = s.succeeded c u) :
    Sends cfg s (t.setWorker w wk) := by
  refine .idle hsent hsend (fun w' => ?_) hencSeq hsucceeded
  rw [carrying_setWorker, hworkers]
  by_cases hw : w' = w
  · rw [if_pos hw, hw]
    exact hwk
  · rw [if_neg hw]
    exact Or.inl rfl

/-- The start of a use has no successes, as there were none before. -/
theorem succeeded_submit (hprogress : s.progress.Ok cfg.bundled) {pcm : ℕ → A}
    (hlog : s'.log = Function.update s.log s.uses (Use.new pcm)) (c u : ℕ) :
    s'.succeeded c u = s.succeeded c u := by
  rw [State.succeeded, State.succeeded, hlog]
  by_cases hu : u = s.uses
  · -- nothing was on record for the new use
    have hnone : (s.log s.uses).encoded c = none := hprogress.unborn s.uses c (le_refl _)
    rw [hu, Function.update_self, hnone]
    rfl
  · rw [Function.update_of_ne hu]

theorem succeeded_encode (s : State A K) (fr c : ℕ) (result : Option (List UInt8)) (c' u : ℕ) :
    (s.note fr fun u => u.encode c ((s.heap fr).pcm c) result).succeeded c' u
      = if u = (s.heap fr).use ∧ c' = c then result.isSome else s.succeeded c' u := by
  rw [State.succeeded]
  show (((Function.update s.log (s.heap fr).use _ u).encoded c').bind Prod.snd).isSome = _
  by_cases hu : u = (s.heap fr).use
  · subst hu
    rw [Function.update_self]
    show ((Function.update (s.log (s.heap fr).use).encoded c (some ((s.heap fr).pcm c, result))
      c').bind Prod.snd).isSome = _
    by_cases hc : c' = c
    · rw [hc, Function.update_self, if_pos ⟨rfl, rfl⟩]
      rfl
    · rw [Function.update_of_ne hc, if_neg fun hboth => hc hboth.2]
      rfl
  · rw [Function.update_of_ne hu, if_neg fun hboth => hu hboth.1]
    rfl

/-- The channels a worker has still to encode are its own. -/
theorem remaining_suffix {bundled : Bool} (hok : s.Ok bundled) {w : Fin K} {fr : ℕ} {cs : List ℕ}
    (h : (s.workers w).remaining = some (fr, cs)) : cs <:+ channelRange K w := by
  have hflight : fr ∈ s.flight :=
    current_mem_flight hok.1 (w := w) (by rw [Worker.current, h]; rfl)
  have hsuffix := hok.2.suffix w fr (Custody.mem_line.mpr (Or.inl hflight))
  rwa [show s.progress.pending w fr = cs from pendingOf_current h _] at hsuffix

/-- A channel a worker has still to encode was not encoded in this use. -/
theorem encoded_of_remaining {bundled : Bool} (hok : s.Ok bundled) {w : Fin K} {fr c : ℕ}
    {cs : List ℕ} (h : (s.workers w).remaining = some (fr, c :: cs)) :
    (s.log (s.heap fr).use).encoded c = none := by
  have hflight : fr ∈ s.flight :=
    current_mem_flight hok.1 (w := w) (by rw [Worker.current, h]; rfl)
  refine (hok.2.unencoded fr (Custody.mem_line.mpr (Or.inl hflight)) w c
    ((remaining_suffix hok h).subset List.mem_cons_self)).mpr ?_
  rw [show s.progress.pending w fr = c :: cs from pendingOf_current h _]
  exact List.mem_cons_self

/-- Marshalling a packet of one of the channels does not fail. -/
theorem marshalBinary_ok {c : ℕ} (hc : c < channels) (s : State A K) (fr : ℕ)
    (payload : List UInt8) : ∃ buf, (legacyPacket s fr c payload).marshalBinary = .ok buf := by
  have hle : ¬ (UInt8.ofNat c > chIdxMask) := by
    rw [gt_iff_lt, UInt8.lt_iff_toNat_lt, UInt8.toNat_ofNat']
    have hmod : c % 2 ^ 8 = c := Nat.mod_eq_of_lt (hc.trans (by decide))
    rw [hmod, not_lt]
    exact Nat.le_of_lt_succ hc
  have hmarshal : (legacyPacket s fr c payload).marshalBinary = _ := if_neg hle
  exact ⟨_, hmarshal⟩

/-- **What every step does to the packets.** -/
theorem sends_step (hok : s.Ok cfg.bundled) (h : Stepped cfg s s') : Sends cfg s s' := by
  cases h with
  | acquire pcm frameTs isRec fr hmixer hpool =>
    exact .idle rfl rfl (fun _ => Or.inl rfl) rfl (succeeded_submit hok.2 rfl)
  | allocate pcm frameTs isRec hmixer =>
    exact .idle rfl rfl (fun _ => Or.inl rfl) rfl (succeeded_submit hok.2 rfl)
  | fill fr pcm frameTs isRec hmixer =>
    exact .idle rfl rfl (fun _ => Or.inl rfl) rfl fun _ _ => rfl
  | pushAgain fr stage stage' hmixer =>
    exact .idle rfl rfl (fun _ => Or.inl rfl) rfl fun _ _ => rfl
  | enqueue fr stage hmixer => exact .idle rfl rfl (fun _ => Or.inl rfl) rfl fun _ _ => rfl
  | evict fr stage old rest hmixer hmix =>
    exact .idle rfl rfl (fun _ => Or.inl rfl) rfl fun _ _ => rfl
  | giveUp fr stage hmixer => exact .idle rfl rfl (fun _ => Or.inl rfl) rfl fun _ _ => rfl
  | recycle old next hmixer =>
    exact .idle rfl rfl (fun _ => Or.inl rfl) rfl
      (succeeded_congr (releaseFrame_proj Use.encoded s old fun _ => rfl))
  | collect fr hpool => exact .idle rfl rfl (fun _ => Or.inl rfl) rfl fun _ _ => rfl
  | dispatch fr rest hdispatcher hmix =>
    exact .idle rfl rfl (fun _ => Or.inl rfl) rfl
      (succeeded_congr (count_proj Use.encoded _ fr K fun _ => rfl))
  | sendJob fr w hw hdispatcher => exact .idle rfl rfl (fun _ => Or.inl rfl) rfl fun _ _ => rfl
  | take w fr rest hworker hjobs =>
    exact .work { s with jobs := Function.update s.jobs w rest } rfl rfl rfl (Or.inr rfl) rfl
      fun _ _ => rfl
  | encodeFailed w fr c cs hworker =>
    refine .work (s.note fr fun u => u.encode c ((s.heap fr).pcm c) none) rfl rfl rfl (Or.inr rfl)
      rfl fun c' u => ?_
    rw [succeeded_encode]
    split
    next hboth =>
      -- the channel had not been encoded in this use before
      obtain ⟨rfl, rfl⟩ := hboth
      rw [State.succeeded, encoded_of_remaining hok (congrArg Worker.remaining hworker)]
      rfl
    next => rfl
  | encodeBundled w fr c cs payload hworker hbundled =>
    refine .quiet (List.Sublist.refl _) (fun w' => ?_) rfl fun hlegacy => ?_
    · rw [carrying_setWorker]
      split
      · exact Or.inr rfl
      · exact Or.inl rfl
    · rw [hbundled] at hlegacy
      cases hlegacy
  | encodeRefused w fr c cs payload e hworker hbundled hmarshal =>
    -- a channel number fits into a packet's header
    exfalso
    have hsuffix := remaining_suffix hok (w := w) (congrArg Worker.remaining hworker)
    obtain ⟨buf, hbuf⟩ := marshalBinary_ok
      (lt_of_mem_channelRange (hsuffix.subset List.mem_cons_self)) s fr payload
    rw [hmarshal] at hbuf
    cases hbuf
  | encodeLegacy w fr c cs payload buf hworker hbundled hmarshal =>
    refine .numbered w fr c cs payload buf hbundled hworker hmarshal rfl
      (carrying_setWorker _ w _) rfl fun c' u => ?_
    exact succeeded_encode s fr c (some payload) c' u
  | sendAgain w fr item stage stage' next hworker =>
    exact .work s rfl rfl rfl (Or.inl (congrArg Worker.carrying hworker).symm) rfl fun _ _ => rfl
  | sendEnqueue w fr item stage next hworker =>
    refine .enqueued w fr item next (congrArg Worker.carrying hworker) ?_ (fun w' => ?_) rfl
      fun _ _ => rfl
    · exact (List.append_assoc _ _ _).symm
    · rw [carrying_setWorker, carrying_resume]
  | sendEvict w fr item stage next old rest hworker hsend =>
    -- the oldest waiting packet is lost; the others keep their order
    refine .quiet ?_ (fun w' => ?_) rfl fun _ _ _ => rfl
    · rw [State.out, State.out, hsend]
      exact (List.sublist_cons_self old rest).append_left _
    · rw [carrying_setWorker]
      split
      next hw => exact Or.inl (by rw [hw, hworker]; rfl)
      next => exact Or.inl rfl
  | sendGiveUp w fr item stage next hworker =>
    exact .work { s with sendDrops := s.sendDrops + 1 } rfl rfl rfl
      (Or.inr (carrying_resume fr next)) rfl fun _ _ => rfl
  | finish w fr isLast hworker hlast =>
    refine .work _ rfl rfl rfl (Or.inr ?_) rfl
      (succeeded_congr (count_proj Use.encoded s fr ((s.heap fr).refs - 1)
        (f := fun l => l.finish w (isLast && cfg.bundled)) fun _ => rfl))
    cases isLast <;> cases cfg.bundled <;> rfl
  | marshalDone w fr hworker =>
    exact .work s rfl rfl rfl (Or.inr rfl) rfl fun _ _ => rfl
  | marshalSkip w fr group groups hworker =>
    exact .work _ rfl rfl rfl (Or.inr rfl) rfl
      (succeeded_congr (note_proj Use.encoded s fr
        (f := fun u => u.marshal group (groupPayloads (s.heap fr).encoded group)) fun _ => rfl))
  | marshalPush w fr group groups buf hworker =>
    exact .marshalled w fr group groups buf hworker rfl (carrying_setWorker _ w _)
  | release w fr hworker =>
    exact .work _ rfl rfl rfl (Or.inr rfl) rfl
      (succeeded_congr (releaseFrame_proj Use.encoded s fr fun _ => rfl))
  | transmit item rest hsend =>
    refine .quiet ?_ (fun _ => Or.inl rfl) rfl fun _ _ _ => rfl
    rw [State.out, State.out, hsend, List.append_assoc]
    exact List.Sublist.refl _
  | discard item rest hsend =>
    refine .quiet ?_ (fun _ => Or.inl rfl) rfl fun _ _ _ => rfl
    rw [State.out, State.out, hsend]
    exact (List.sublist_cons_self item rest).append_left _

end Pipeline

end AmbiRTC
