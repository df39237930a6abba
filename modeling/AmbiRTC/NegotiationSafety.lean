/-
AmbiRTC/NegotiationSafety.lean

Remote candidates in the browser, in every interleaving of handlers.  The buffer is
drained while other handlers run, from an index and without being taken: what keeps a
candidate from being passed twice is that only one handler drains at a time, and what
keeps it from being lost that nothing is buffered once the description is set.

Main results: `Advanced` and `advance_cases` (what a step does to the candidates),
and `candidates_handled` (every run).
-/
import AmbiRTC.Negotiation

namespace AmbiRTC.Negotiation

open Runs Threads

variable {S C : Type}

/-! ### Threads -/

/-- The candidate of a message that has not been handled. -/
def Thread.waiting : Thread S C → Multiset C
  | .handling (.ice (some candidate)) => {candidate}
  | _ => 0

/-- The handler drains the buffer, or is about to. -/
def Thread.Drains : Thread S C → Prop
  | .draining _ | .feeding _ _ => True
  | _ => False

/-- How many candidates of the buffer the handler has passed. -/
def Thread.progress : Thread S C → ℕ
  | .feeding _ i => i + 1
  | _ => 0

/-- Neither has the handler a candidate, nor does it drain. -/
def Thread.Idle (t : Thread S C) : Prop := t.waiting = 0 ∧ ¬t.Drains

/-- The handler has come to its end. -/
def Thread.Ended : Thread S C → Prop
  | .finished | .failed => True
  | _ => False

variable {s s' : Node S C} {t t' : Thread S C} {ok : Bool}

theorem progress_of_not_drains (h : ¬t.Drains) : t.progress = 0 := by
  cases t with
  | feeding _ _ => exact absurd trivial h
  | _ => rfl

theorem waiting_of_drains (h : t.Drains) : t.waiting = 0 := by
  cases t with
  | draining _ | feeding _ _ => rfl
  | _ => exact h.elim

theorem idle_drained (answering : Bool) : (drained answering : Thread S C).Idle := by
  cases answering <;> exact ⟨rfl, id⟩

/-! ### One step -/

/-- Nothing has changed for the candidates. -/
structure SameIce (s s' : Node S C) : Prop where
  destroyed : s'.destroyed = s.destroyed
  pc : s'.pc = s.pc
  pending : s'.pendingIceCandidates = s.pendingIceCandidates
  described : s'.described = s.described
  passed : s'.passed = s.passed

theorem SameIce.refl (s : Node S C) : SameIce s s := ⟨rfl, rfl, rfl, rfl, rfl⟩

theorem SameIce.trans {s'' : Node S C} (h : SameIce s s') (h' : SameIce s' s'') : SameIce s s'' :=
  ⟨h'.destroyed.trans h.destroyed, h'.pc.trans h.pc, h'.pending.trans h.pending,
    h'.described.trans h.described, h'.passed.trans h.passed⟩

/-- What a step does to the candidates. -/
inductive Advanced (s : Node S C) : Thread S C → Node S C → Thread S C → Prop
  | keep {t t' : Thread S C} {s' : Node S C} (hsame : SameIce s s') (ht : t.Idle) (ht' : t'.Idle) :
      Advanced s t s' t'
  | ignored {candidate : C} (hgone : s.destroyed = true) :
      Advanced s (.handling (.ice (some candidate))) s .finished
  | buffered {candidate : C} (hlive : s.destroyed = false) (hpc : s.pc ≠ some true) :
      Advanced s (.handling (.ice (some candidate)))
        { s with pendingIceCandidates := s.pendingIceCandidates ++ [candidate] } .finished
  | through {candidate : C} (hpc : s.pc = some true) :
      Advanced s (.handling (.ice (some candidate)))
        { s with passed := s.passed ++ [candidate] } .adding
  | made (hlive : s.destroyed = false) (hpc : s.pc = none) :
      Advanced s .initialising { s with pc := some false } .starting
  | described {t : Thread S C} {answering : Bool} (ht : t.Idle) (hpc : s.pc.isSome) :
      Advanced s t { s with pc := some true, described := true } (.draining answering)
  | fed {t : Thread S C} {answering : Bool} {candidate : C} (ht : t.Drains)
      (hnext : s.pendingIceCandidates[t.progress]? = some candidate) (hpc : s.pc.isSome) :
      Advanced s t { s with passed := s.passed ++ [candidate] } (.feeding answering t.progress)
  | emptied {t t' : Thread S C} (ht : t.Drains) (ht' : t'.Idle)
      (hend : s.pendingIceCandidates[t.progress]? = none) :
      Advanced s t { s with pendingIceCandidates := [] } t'
  | skipped {t t' : Thread S C} (ht : t.Drains) (ht' : t'.Idle) (hpc : s.pc ≠ some true) :
      Advanced s t s t'
  | destroyed (hlive : s.destroyed = false) :
      Advanced s .destroying { s with
        destroyed := true, connected := false, pendingIceCandidates := [], pc := none } .finished

theorem sameIce_tryStart (s : Node S C) : SameIce s (tryStartNegotiation s).1 ∧
    (tryStartNegotiation s).2.Idle := by
  unfold tryStartNegotiation
  split
  · exact ⟨.refl s, rfl, id⟩
  split
  · exact ⟨⟨rfl, rfl, rfl, rfl, rfl⟩, rfl, id⟩
  split
  · exact ⟨⟨rfl, rfl, rfl, rfl, rfl⟩, rfl, id⟩
  · exact ⟨.refl s, rfl, id⟩

/-- What an accepted offer sets: the frame size, the bitrates, the packing, and the offer
itself. -/
theorem acceptOffer_cases {offer : Offer S} (h : acceptOffer s offer = some s') :
    ∃ sizes bitrates maxTxBufferBytes bundled txLayout, s' = { s with
      sizes, bitrates, maxTxBufferBytes, bundled, txLayout, pendingOffer := offer.sdp } := by
  obtain ⟨s₁, hs₁, rfl⟩ := Option.map_eq_some_iff.mp h
  obtain ⟨sizes, rfl⟩ : ∃ sizes, s₁ = { s with sizes } := by
    unfold Node.alignFrameSize at hs₁
    split at hs₁
    · split at hs₁
      · exact ⟨s.sizes, (Option.some.inj hs₁).symm⟩
      · obtain ⟨sizes, -, rfl⟩ := Option.map_eq_some_iff.mp hs₁
        exact ⟨sizes, rfl⟩
    · exact ⟨s.sizes, (Option.some.inj hs₁).symm⟩
  obtain ⟨bitrates, cap, hs₂⟩ : ∃ bitrates maxTxBufferBytes,
      ({ s with sizes } : Node S C).matchBitrates offer.bitrates
        = { s with sizes, bitrates, maxTxBufferBytes } := by
    unfold Node.matchBitrates
    split
    · split <;> exact ⟨_, _, rfl⟩
    · exact ⟨_, _, rfl⟩
  rw [hs₂]
  unfold Node.matchPacking
  split <;> exact ⟨_, _, _, _, _, rfl⟩

theorem sameIce_acceptOffer {offer : Offer S} (h : acceptOffer s offer = some s') :
    SameIce s s' := by
  obtain ⟨_, _, _, _, _, rfl⟩ := acceptOffer_cases h
  exact ⟨rfl, rfl, rfl, rfl, rfl⟩

/-- The loop of the drain, from where the handler is. -/
theorem advanced_feed {answering : Bool} (ht : t.Drains) :
    Advanced s t (feed s answering t.progress).1 (feed s answering t.progress).2 := by
  unfold feed
  split
  · rename_i candidate hnext
    split
    · rename_i hnone
      refine .skipped ht ⟨rfl, id⟩ ?_
      rw [Option.isNone_iff_eq_none.mp hnone]
      exact nofun
    · rename_i hsome
      exact .fed ht hnext (Option.isSome_iff_ne_none.mpr (by simpa using hsome))
  · exact .emptied ht (idle_drained answering) ‹_›

theorem advanced_describe {answering : Bool} (ht : t.Idle) :
    Advanced s t (describe s answering ok).1 (describe s answering ok).2 := by
  unfold describe
  split
  · rename_i hok
    exact .described ht ((Bool.and_eq_true _ _).mp hok).2
  · exact .keep (.refl s) ht ⟨rfl, id⟩

/-- A message that carries no candidate. -/
theorem advanced_handle {m : Message S C} (hm : (Thread.handling m).waiting = 0) :
    Advanced s (.handling m) (handleSigMessage s m).1 (handleSigMessage s m).2 := by
  have ht : (Thread.handling m).Idle := ⟨hm, id⟩
  cases m with
  | peerReady =>
    obtain ⟨hsame, hidle⟩ := sameIce_tryStart { s with peerIsReady := true }
    have hready : SameIce s { s with peerIsReady := true } := ⟨rfl, rfl, rfl, rfl, rfl⟩
    exact .keep (hready.trans hsame) ht hidle
  | peerDisconnected => exact .keep (.refl s) ht ⟨rfl, id⟩
  | offer offer =>
    simp only [handleSigMessage]
    split
    · exact .keep (.refl s) ht ⟨rfl, id⟩
    split
    · rename_i s₁ hs₁
      obtain ⟨hsame, hidle⟩ := sameIce_tryStart s₁
      exact .keep ((sameIce_acceptOffer hs₁).trans hsame) ht hidle
    · exact .keep (.refl s) ht ⟨rfl, id⟩
  | answer =>
    simp only [handleSigMessage]
    split <;> exact .keep (.refl s) ht ⟨rfl, id⟩
  | ice candidate =>
    cases candidate with
    | none => exact .keep (.refl s) ht ⟨rfl, id⟩
    | some candidate => exact absurd hm (Multiset.singleton_ne_zero candidate)

/-- A candidate waits for the description, or is passed on at once. -/
theorem advanced_candidate {candidate : C} (hlive : s.destroyed = false) :
    Advanced s (.handling (.ice (some candidate)))
      (handleSigMessage s (.ice (some candidate))).1
      (handleSigMessage s (.ice (some candidate))).2 := by
  simp only [handleSigMessage]
  split
  · -- no description yet
    exact .buffered hlive ‹_›
  · exact .through (not_not.mp ‹_›)

/-- **What a step does to the candidates.** -/
theorem advance_cases (h : advance s t ok = some (s', t')) : Advanced s t s' t' := by
  have hquit : ∀ {t : Thread S C}, t.Idle → Advanced s t s .failed :=
    fun ht => .keep (.refl s) ht ⟨rfl, id⟩
  cases t with
  | handling m =>
    have h := Option.some.inj h
    -- only a candidate is in the message itself; the rest is as for an idle handler
    by_cases hm : (Thread.handling m).waiting = 0
    · split at h
      · obtain ⟨rfl, rfl⟩ := Prod.mk.inj h
        exact .keep (.refl s) ⟨hm, id⟩ ⟨rfl, id⟩
      · obtain ⟨rfl, rfl⟩ := Prod.mk.inj h
        exact advanced_handle hm
    · obtain ⟨candidate, rfl⟩ : ∃ candidate, m = .ice (some candidate) := by
        cases m with
        | ice candidate =>
          cases candidate with
          | none => exact absurd rfl hm
          | some candidate => exact ⟨candidate, rfl⟩
        | _ => exact absurd rfl hm
      split at h
      · obtain ⟨rfl, rfl⟩ := Prod.mk.inj h
        -- the listener is gone
        exact .ignored ‹_›
      · rename_i hlive
        obtain ⟨rfl, rfl⟩ := Prod.mk.inj h
        exact advanced_candidate (by simpa using hlive)
  | initialising =>
    simp only [advance] at h
    split at h
    · obtain ⟨rfl, rfl⟩ := Prod.mk.inj (Option.some.inj h)
      exact hquit ⟨rfl, id⟩
    rename_i hlive
    split at h
    · obtain ⟨rfl, rfl⟩ := Prod.mk.inj (Option.some.inj h)
      exact .keep (.refl s) ⟨rfl, id⟩ ⟨rfl, id⟩
    · rename_i hnone
      obtain ⟨rfl, rfl⟩ := Prod.mk.inj (Option.some.inj h)
      refine .made ?_ (by simpa using hnone)
      rw [Bool.or_eq_true, not_or] at hlive
      simpa using hlive.1
  | starting =>
    obtain ⟨rfl, rfl⟩ := Prod.mk.inj (Option.some.inj h)
    obtain ⟨hsame, hidle⟩ := sameIce_tryStart s
    exact .keep hsame ⟨rfl, id⟩ hidle
  -- these wait for promises and do not touch the candidates
  | creatingOffer | creatingAnswer =>
    obtain ⟨rfl, rfl⟩ := Prod.mk.inj (Option.some.inj h)
    split <;> exact .keep (.refl s) ⟨rfl, id⟩ ⟨rfl, id⟩
  | settingLocalOffer | settingLocalAnswer =>
    simp only [advance] at h
    split at h
    · obtain ⟨rfl, rfl⟩ := Prod.mk.inj (Option.some.inj h)
      exact .keep ⟨rfl, rfl, rfl, rfl, rfl⟩ ⟨rfl, id⟩ ⟨rfl, id⟩
    · obtain ⟨rfl, rfl⟩ := Prod.mk.inj (Option.some.inj h)
      exact hquit ⟨rfl, id⟩
  | settingOffer _ | settingAnswer =>
    obtain ⟨rfl, rfl⟩ := Prod.mk.inj (Option.some.inj h)
    exact advanced_describe ⟨rfl, id⟩
  -- here the buffer is passed on, one candidate a step
  | draining answering =>
    have h := Option.some.inj h
    split at h
    · obtain ⟨rfl, rfl⟩ := Prod.mk.inj h
      exact advanced_feed (t := .draining answering) trivial
    · obtain ⟨rfl, rfl⟩ := Prod.mk.inj h
      exact .skipped trivial (idle_drained answering) ‹_›
  | feeding answering i =>
    obtain ⟨rfl, rfl⟩ := Prod.mk.inj (Option.some.inj h)
    exact advanced_feed (t := .feeding answering i) trivial
  | adding =>
    obtain ⟨rfl, rfl⟩ := Prod.mk.inj (Option.some.inj h)
    exact .keep (.refl s) ⟨rfl, id⟩ ⟨rfl, id⟩
  | destroying =>
    simp only [advance] at h
    split at h
    · obtain ⟨rfl, rfl⟩ := Prod.mk.inj (Option.some.inj h)
      exact .keep (.refl s) ⟨rfl, id⟩ ⟨rfl, id⟩
    · rename_i hlive
      obtain ⟨rfl, rfl⟩ := Prod.mk.inj (Option.some.inj h)
      exact .destroyed (by simpa using hlive)
  | opening =>
    obtain ⟨rfl, rfl⟩ := Prod.mk.inj (Option.some.inj h)
    exact .keep ⟨rfl, rfl, rfl, rfl, rfl⟩ ⟨rfl, id⟩ ⟨rfl, id⟩
  | stateChanging up | gathering candidate =>
    simp only [advance] at h
    split at h
    all_goals
      obtain ⟨rfl, rfl⟩ := Prod.mk.inj (Option.some.inj h)
      exact .keep ⟨rfl, rfl, rfl, rfl, rfl⟩ ⟨rfl, id⟩ ⟨rfl, id⟩
  | finished => cases h
  | failed => cases h

/-! ### What the handlers rely on -/

/-- Once a description has been set it stays, until the node is destroyed; nothing has
been passed before; and a node that is destroyed has nothing left. -/
structure Settled (s : Node S C) : Prop where
  pc_eq : s.described = true → s.destroyed = false → s.pc = some true
  described_eq : s.pc = some true → s.described = true
  passed_eq : s.described = false → s.passed = []
  gone : s.destroyed = true → s.pc = none ∧ s.pendingIceCandidates = []

/-- A handler that drains knows that a description has been set. -/
def Knows (s : Node S C) (t : Thread S C) : Prop := t.Drains → s.described = true

theorem Settled.same (hs : Settled s) (h : SameIce s s') : Settled s' := by
  obtain ⟨hpc, hdescribed, hpassed, hgone⟩ := hs
  rw [← h.pc, ← h.described, ← h.destroyed] at hpc
  rw [← h.pc, ← h.described] at hdescribed
  rw [← h.described, ← h.passed] at hpassed
  rw [← h.destroyed, ← h.pc, ← h.pending] at hgone
  exact ⟨hpc, hdescribed, hpassed, hgone⟩

theorem Advanced.described_mono (h : Advanced s t s' t') (hs : s.described = true) :
    s'.described = true := by
  cases h with
  | keep hsame _ _ => rw [hsame.described, hs]
  | described => rfl
  | _ => exact hs

theorem Settled.next (hs : Settled s) (ht : Knows s t) (h : Advanced s t s' t') :
    Settled s' ∧ Knows s' t' := by
  have hlive : ∀ {s : Node S C}, Settled s → s.pc.isSome → s.destroyed = false := by
    intro s hs hpc
    by_contra hgone
    rw [(hs.gone (by simpa using hgone)).1] at hpc
    cases hpc
  cases h with
  | keep hsame _ ht' => exact ⟨hs.same hsame, fun hdrains => absurd hdrains ht'.2⟩
  | ignored hgone => exact ⟨hs, nofun⟩
  | buffered hlive' hpc =>
    exact ⟨⟨hs.pc_eq, hs.described_eq, hs.passed_eq,
      fun hgone => absurd hgone (by simp [hlive'])⟩, nofun⟩
  | through hpc =>
    exact ⟨⟨hs.pc_eq, hs.described_eq,
      fun hnone => (nomatch (hs.described_eq hpc).symm.trans hnone), hs.gone⟩,
      nofun⟩
  | made hlive' hpc =>
    refine ⟨⟨fun hdescribed _ => ?_, nofun, hs.passed_eq,
      fun hgone => absurd hgone (by simp [hlive'])⟩, nofun⟩
    have := hs.pc_eq hdescribed hlive'
    rw [hpc] at this
    cases this
  | described _ hpc =>
    have hlive' := hlive hs hpc
    exact ⟨⟨fun _ _ => rfl, fun _ => rfl, nofun,
      fun hgone => absurd hgone (by simp [hlive'])⟩, fun _ => rfl⟩
  | fed hdrains _ _ =>
    exact ⟨⟨hs.pc_eq, hs.described_eq,
      fun hnone => (nomatch (ht hdrains).symm.trans hnone), hs.gone⟩,
      fun _ => ht hdrains⟩
  | emptied _ ht' _ =>
    exact ⟨⟨hs.pc_eq, hs.described_eq, hs.passed_eq, fun hgone => ⟨(hs.gone hgone).1, rfl⟩⟩,
      fun hdrains => absurd hdrains ht'.2⟩
  | skipped _ ht' _ => exact ⟨hs, fun hdrains => absurd hdrains ht'.2⟩
  | destroyed _ => exact ⟨⟨nofun, nofun, hs.passed_eq, fun _ => ⟨rfl, rfl⟩⟩, nofun⟩

/-- The description is set and candidates are buffered: somebody has to drain them. -/
def Left (s : Node S C) : Prop := s.pc = some true ∧ s.pendingIceCandidates ≠ []

/-- Only a handler that drains may leave candidates behind. -/
theorem Advanced.left (h : Advanced s t s' t') (hleft : Left s') :
    (Left s ∧ (t.Drains → t'.Drains)) ∨ t'.Drains := by
  cases h with
  | keep hsame ht _ =>
    refine Or.inl ⟨⟨?_, ?_⟩, fun hdrains => absurd hdrains ht.2⟩
    · rw [← hsame.pc]
      exact hleft.1
    · rw [← hsame.pending]
      exact hleft.2
  | ignored => exact Or.inl ⟨hleft, nofun⟩
  | buffered _ hpc => exact absurd hleft.1 hpc
  | through => exact Or.inl ⟨hleft, nofun⟩
  | made => exact nomatch hleft.1
  | described | fed => exact Or.inr trivial
  | emptied => exact absurd rfl hleft.2
  | skipped _ _ hpc => exact absurd hleft.1 hpc
  | destroyed => exact nomatch hleft.1

/-! ### One description -/

/-- The answers among what has been sent. -/
def answers (sent : List (Sent C)) : ℕ :=
  (sent.filter fun
    | .answer _ => true
    | _ => false).length

/-- One for every description still to be applied or answered. -/
def Thread.due : Thread S C → ℕ
  | .handling (.offer _) | .handling .answer | .settingOffer _ | .settingAnswer | .draining _
  | .feeding _ _ | .creatingAnswer | .settingLocalAnswer => 1
  | _ => 0

/-- One for the offer kept for later, and one for each answer sent. -/
def Node.due (s : Node S C) : ℕ := s.pendingOffer.toList.length + answers s.sent

theorem due_of_drains (h : t.Drains) : t.due = 1 := by
  cases t with
  | draining _ | feeding _ _ => rfl
  | _ => exact h.elim

theorem due_tryStart (s : Node S C) :
    (tryStartNegotiation s).1.due + (tryStartNegotiation s).2.due ≤ s.due := by
  unfold tryStartNegotiation
  split
  · exact le_refl _
  split
  · exact le_refl _
  split
  · rename_i sdp _ hsdp
    simp only [Node.due, hsdp, Option.toList_none, Option.toList_some, List.length_nil,
      List.length_singleton, Thread.due]
    omega
  · exact le_refl _

theorem due_feed (answering : Bool) (i : ℕ) :
    (feed s answering i).1.due + (feed s answering i).2.due ≤ s.due + 1 := by
  unfold feed
  split
  · split
    · exact Nat.le_succ _
    · exact le_refl _
  · cases answering
    · exact Nat.le_succ _
    · exact le_refl _

theorem due_describe (answering : Bool) :
    (describe s answering ok).1.due + (describe s answering ok).2.due ≤ s.due + 1 := by
  unfold describe
  split
  · exact le_refl _
  · exact Nat.le_succ _

theorem answers_append (sent sent' : List (Sent C)) :
    answers (sent ++ sent') = answers sent + answers sent' := by
  rw [answers, List.filter_append, List.length_append]
  rfl

theorem due_acceptOffer {offer : Offer S} (h : acceptOffer s offer = some s') :
    s'.due ≤ s.due + 1 := by
  obtain ⟨_, _, _, _, _, rfl⟩ := acceptOffer_cases h
  have hone : offer.sdp.toList.length ≤ 1 := by
    cases offer.sdp
    · exact Nat.zero_le 1
    · exact le_refl 1
  simp only [Node.due]
  omega

/-- What is sent counts if it is an answer. -/
theorem due_send (m : Sent C) :
    ({ s with sent := s.sent ++ [m] } : Node S C).due = s.due + answers [m] := by
  simp only [Node.due, answers_append, Nat.add_assoc]

theorem due_handle (m : Message S C) :
    (handleSigMessage s m).1.due + (handleSigMessage s m).2.due
      ≤ s.due + (Thread.handling m).due := by
  cases m with
  | peerReady => exact due_tryStart { s with peerIsReady := true }
  | peerDisconnected => exact le_refl _
  | offer offer =>
    simp only [handleSigMessage]
    split
    · exact Nat.le_succ _
    split
    · -- the offer is kept, and perhaps taken up at once
      rename_i s₁ hs₁
      exact (due_tryStart s₁).trans (due_acceptOffer hs₁)
    · -- it names a frame size that cannot be set
      exact Nat.le_succ _
  | answer =>
    simp only [handleSigMessage]
    split
    · exact Nat.le_succ _
    · exact le_refl _
  | ice candidate =>
    -- candidates are no descriptions
    cases candidate with
    | none => exact le_refl _
    | some candidate =>
      simp only [handleSigMessage]
      split <;> exact le_refl _

theorem due_drain (answering : Bool) (h : advance s (.draining answering) ok = some (s', t')) :
    s'.due + t'.due ≤ s.due + 1 := by
  have h := Option.some.inj h
  split at h
  · obtain ⟨rfl, rfl⟩ := Prod.mk.inj h
    exact due_feed answering 0
  · -- the connection is gone; an answer may still be attempted
    obtain ⟨rfl, rfl⟩ := Prod.mk.inj h
    cases answering
    · exact Nat.le_succ _
    · exact le_refl _

/-- The promise of a local description: what is then sent is paid for by the handler. -/
theorem due_localDescription {m : Sent C} (hm : answers [m] = t.due)
    (h : (if ok && s.pc.isSome then some ({ s with sent := s.sent ++ [m] }, Thread.finished)
      else some (s, .failed)) = some (s', t')) :
    s'.due + t'.due ≤ s.due + t.due := by
  split at h
  · obtain ⟨rfl, rfl⟩ := Prod.mk.inj (Option.some.inj h)
    exact (due_send m).trans_le (by rw [hm])
  · obtain ⟨rfl, rfl⟩ := Prod.mk.inj (Option.some.inj h)
    exact Nat.le_add_right _ _

/-- **No step makes a description to apply or to answer.** -/
theorem due_advance (h : advance s t ok = some (s', t')) : s'.due + t'.due ≤ s.due + t.due := by
  cases t with
  | handling m =>
    have h := Option.some.inj h
    split at h
    · -- the listener is gone: the message has no effect
      obtain ⟨rfl, rfl⟩ := Prod.mk.inj h
      exact Nat.le_add_right _ _
    · obtain ⟨rfl, rfl⟩ := Prod.mk.inj h
      exact due_handle m
  -- the description goes from the offer kept to the handler, and from step to step of it
  | starting =>
    obtain ⟨rfl, rfl⟩ := Prod.mk.inj (Option.some.inj h)
    exact due_tryStart s
  | settingOffer _ | settingAnswer =>
    obtain ⟨rfl, rfl⟩ := Prod.mk.inj (Option.some.inj h)
    exact due_describe _
  | draining answering => exact due_drain answering h
  | feeding answering i =>
    obtain ⟨rfl, rfl⟩ := Prod.mk.inj (Option.some.inj h)
    exact due_feed answering (i + 1)
  | creatingAnswer =>
    obtain ⟨rfl, rfl⟩ := Prod.mk.inj (Option.some.inj h)
    split
    · exact le_refl _
    · exact Nat.le_succ _
  | settingLocalOffer | settingLocalAnswer => exact due_localDescription rfl h
  -- the other handlers have no description, and neither an offer nor a candidate is an answer
  | creatingOffer =>
    obtain ⟨rfl, rfl⟩ := Prod.mk.inj (Option.some.inj h)
    split <;> exact le_refl _
  | gathering candidate =>
    simp only [advance] at h
    split at h
    · obtain ⟨rfl, rfl⟩ := Prod.mk.inj (Option.some.inj h)
      exact le_refl _
    · obtain ⟨rfl, rfl⟩ := Prod.mk.inj (Option.some.inj h)
      exact (due_send (.ice candidate)).le
  | initialising =>
    simp only [advance] at h
    split at h
    · obtain ⟨rfl, rfl⟩ := Prod.mk.inj (Option.some.inj h)
      exact le_refl _
    split at h
    all_goals
      obtain ⟨rfl, rfl⟩ := Prod.mk.inj (Option.some.inj h)
      exact le_refl _
  | destroying | stateChanging up =>
    simp only [advance] at h
    split at h
    all_goals
      obtain ⟨rfl, rfl⟩ := Prod.mk.inj (Option.some.inj h)
      exact le_refl _
  | adding | opening =>
    obtain ⟨rfl, rfl⟩ := Prod.mk.inj (Option.some.inj h)
    exact le_refl _
  | finished => cases h
  | failed => cases h

/-! ### Where the candidates are -/

/-- The candidates passed on, those of the buffer not passed yet, and those of messages
that have not been handled. -/
def accounted (x : System (Node S C) (Thread S C)) : Multiset C :=
  x.shared.passed
    + (x.shared.pendingIceCandidates.drop (x.threads.map Thread.progress).sum : List C)
    + (x.threads.map Thread.waiting).sum

/-- No candidate is counted twice, and none is missing unless the node is destroyed. -/
structure Accounts (received : Multiset C) (x : System (Node S C) (Thread S C)) : Prop where
  most : accounted x ≤ received
  all : x.shared.destroyed = false → accounted x = received

theorem progress_sum_eq_zero {threads : List (Thread S C)} (h : ∀ t ∈ threads, ¬t.Drains) :
    (threads.map Thread.progress).sum = 0 := by
  refine List.sum_eq_zero fun n hn => ?_
  obtain ⟨t, ht, rfl⟩ := List.mem_map.mp hn
  exact progress_of_not_drains (h t ht)

/-- While one description is due, at most one handler drains. -/
theorem alone_of_drains {front back : List (Thread S C)}
    (hone : ((front ++ t :: back).map Thread.due).sum ≤ 1) (ht : t.Drains) :
    (front.map Thread.progress).sum = 0 ∧ (back.map Thread.progress).sum = 0 := by
  rw [List.map_append, List.sum_append, List.map_cons, List.sum_cons, due_of_drains ht] at hone
  have hnone : ∀ threads : List (Thread S C), (threads.map Thread.due).sum = 0 →
      (threads.map Thread.progress).sum = 0 := by
    intro threads hzero
    refine progress_sum_eq_zero fun u hu hdrains => ?_
    have hdue := List.sum_eq_zero_iff_forall_eq_nat.mp hzero _ (List.mem_map_of_mem hu)
    rw [due_of_drains hdrains] at hdue
    cases hdue
  exact ⟨hnone front (by omega), hnone back (by omega)⟩

/-- `accounted`, around one thread. -/
theorem accounted_mid {front back : List (Thread S C)} :
    accounted ⟨s, front ++ t :: back⟩ = s.passed
      + (s.pendingIceCandidates.drop ((front.map Thread.progress).sum + t.progress
          + (back.map Thread.progress).sum) : List C)
      + ((front.map Thread.waiting).sum + t.waiting + (back.map Thread.waiting).sum) := by
  simp only [accounted, List.map_append, List.map_cons, List.sum_append, List.sum_cons,
    add_assoc]

/-- **One step of a handler** neither loses nor doubles a candidate, while one
description is due. -/
theorem Accounts.next {received : Multiset C} {front back : List (Thread S C)}
    (h : Accounts received ⟨s, front ++ t :: back⟩) (hs : Settled s)
    (hknows : ∀ u ∈ front ++ t :: back, Knows s u)
    (hone : ((front ++ t :: back).map Thread.due).sum ≤ 1) (hadv : Advanced s t s' t') :
    Accounts received ⟨s', front ++ t' :: back⟩ := by
  obtain ⟨hmost, hall⟩ := h
  have hsame : ∀ s' : Node S C, s'.destroyed = s.destroyed →
      accounted ⟨s', front ++ t' :: back⟩ = accounted ⟨s, front ++ t :: back⟩ →
      Accounts received ⟨s', front ++ t' :: back⟩ := by
    intro s' hdestroyed heq
    refine ⟨heq.trans_le hmost, fun hlive => heq.trans (hall ?_)⟩
    rw [← hdestroyed]
    exact hlive
  rw [accounted_mid] at hmost hall hsame
  cases hadv with
  | keep hice ht ht' =>
    refine hsame _ hice.destroyed ?_
    rw [accounted_mid, hice.passed, hice.pending, progress_of_not_drains ht.2,
      progress_of_not_drains ht'.2, ht.1, ht'.1]
  | ignored hgone =>
    refine ⟨le_trans ?_ hmost, fun hlive => absurd hlive (by simp [hgone])⟩
    rw [accounted_mid]
    exact add_le_add le_rfl (add_le_add (add_le_add le_rfl (Multiset.zero_le _)) le_rfl)
  | @buffered candidate hlive hpc =>
    -- nobody drains, for there is no description
    have hnone : ∀ u ∈ front ++ .handling (.ice (some candidate)) :: back, ¬u.Drains :=
      fun u hu hdrains => hpc (hs.pc_eq (hknows u hu hdrains) hlive)
    have hfront := progress_sum_eq_zero fun u hu => hnone u (List.mem_append_left _ hu)
    have hback := progress_sum_eq_zero fun u hu =>
      hnone u (List.mem_append_right _ (List.mem_cons_of_mem _ hu))
    refine hsame _ rfl ?_
    rw [accounted_mid, hfront, hback]
    show (s.passed : Multiset C) + (s.pendingIceCandidates ++ [candidate] : List C) + (_ + 0 + _)
      = s.passed + s.pendingIceCandidates + (_ + {candidate} + _)
    rw [← Multiset.coe_add, Multiset.coe_singleton, add_zero]
    ac_rfl
  | @through candidate hpc =>
    refine hsame _ rfl ?_
    rw [accounted_mid]
    show ((s.passed ++ [candidate] : List C) : Multiset C) + _ + (_ + 0 + _)
      = s.passed + _ + (_ + {candidate} + _)
    rw [← Multiset.coe_add, Multiset.coe_singleton, add_zero]
    ac_rfl
  | made hlive hpc =>
    refine hsame _ rfl ?_
    rw [accounted_mid]
    rfl
  | described ht hpc =>
    refine hsame _ rfl ?_
    rw [accounted_mid, progress_of_not_drains ht.2, ht.1]
    rfl
  | @fed _ answering candidate ht hnext hpc =>
    obtain ⟨hfront, hback⟩ := alone_of_drains hone ht
    obtain ⟨hlt, hcandidate⟩ := List.getElem?_eq_some_iff.mp hnext
    refine hsame _ rfl ?_
    rw [accounted_mid, hfront, hback, waiting_of_drains ht, zero_add, zero_add, Nat.add_zero,
      Nat.add_zero, List.drop_eq_getElem_cons hlt, hcandidate]
    show ((s.passed ++ [candidate] : List C) : Multiset C)
        + (s.pendingIceCandidates.drop (t.progress + 1) : List C) + (_ + 0 + _)
      = s.passed + (candidate :: s.pendingIceCandidates.drop (t.progress + 1) : List C)
        + (_ + 0 + _)
    rw [← Multiset.coe_add, Multiset.coe_singleton, ← Multiset.cons_coe, ← Multiset.singleton_add]
    ac_rfl
  | emptied ht ht' hend =>
    obtain ⟨hfront, hback⟩ := alone_of_drains hone ht
    refine hsame _ rfl ?_
    rw [accounted_mid, hfront, hback, waiting_of_drains ht, ht'.1, zero_add, zero_add, Nat.add_zero,
      Nat.add_zero, List.drop_of_length_le (List.getElem?_eq_none_iff.mp hend), List.drop_nil]
  | skipped ht ht' hpc =>
    have hgone : s.destroyed = true := by
      by_contra hlive
      exact hpc (hs.pc_eq (hknows t (by simp) ht) (by simpa using hlive))
    refine hsame _ rfl ?_
    rw [accounted_mid, waiting_of_drains ht, ht'.1, (hs.gone hgone).2, List.drop_nil, List.drop_nil]
  | destroyed hlive =>
    refine ⟨le_trans ?_ hmost, nofun⟩
    rw [accounted_mid, List.drop_nil]
    exact add_le_add (add_le_add le_rfl (Multiset.zero_le _)) le_rfl

/-! ### Runs -/

/-- The candidates received. -/
def received (as : List (Action (Call S C) Bool)) : Multiset C :=
  ((as.filterMap Action.called).map fun k => k.entry.waiting).sum

/-- How many offers and answers have been received. -/
def descriptions (as : List (Action (Call S C) Bool)) : ℕ :=
  ((as.filterMap Action.called).map fun k => k.entry.due).sum

variable {x x' : System (Node S C) (Thread S C)} {as : List (Action (Call S C) Bool)}
  {node : Node S C}

theorem received_append (as bs : List (Action (Call S C) Bool)) :
    received (as ++ bs) = received as + received bs := by
  simp only [received, List.filterMap_append, List.map_append, List.sum_append]

theorem descriptions_append (as bs : List (Action (Call S C) Bool)) :
    descriptions (as ++ bs) = descriptions as + descriptions bs := by
  simp only [descriptions, List.filterMap_append, List.map_append, List.sum_append]

theorem not_drains_entry (k : Call S C) : ¬k.entry.Drains := by
  cases k <;> exact id

/-- A node before the connection set-up. -/
structure Fresh (node : Node S C) : Prop where
  live : node.destroyed = false
  pc_eq : node.pc = none
  described : node.described = false
  pending_eq : node.pendingIceCandidates = []
  passed_eq : node.passed = []
  due_eq : node.due = 0

theorem fresh_new (offerer bundle : Bool) (frameSize : ℕ) (bitrates : Option (List ℤ)) :
    Fresh (Node.new offerer bundle frameSize bitrates : Node S C) :=
  ⟨rfl, rfl, rfl, rfl, rfl, rfl⟩

theorem Fresh.settled (h : Fresh node) : Settled node where
  pc_eq hdescribed := nomatch h.described.symm.trans hdescribed
  described_eq hpc := nomatch h.pc_eq.symm.trans hpc
  passed_eq _ := h.passed_eq
  gone hgone := nomatch h.live.symm.trans hgone

theorem settled_run (hnode : Fresh node) (h : Run step (start node) as x) :
    Settled x.shared ∧ ∀ t ∈ x.threads, Knows x.shared t := by
  refine Run.modular (I := Settled) (L := Knows) (fun s k _ hdrains => ?_)
    (fun s t ok s' t' hs ht h => ?_) h ⟨hnode.settled, fun t ht => (nomatch ht)⟩
  · exact absurd hdrains (not_drains_entry k)
  · have hadv := advance_cases h
    obtain ⟨hs', ht'⟩ := hs.next ht hadv
    exact ⟨hs', ht', fun u hu hdrains => hadv.described_mono (hu hdrains)⟩

theorem drains_run (hnode : Fresh node) (h : Run step (start node) as x) (hleft : Left x.shared) :
    ∃ t ∈ x.threads, t.Drains :=
  Run.witness_while (M := Left) (Q := Thread.Drains)
    (fun _ _ _ _ _ h hleft => (advance_cases h).left hleft) h
    (fun hleft => absurd hnode.pending_eq hleft.2) hleft

theorem due_run (hnode : Fresh node) (h : Run step (start node) as x) :
    weight Node.due Thread.due x ≤ descriptions as := by
  refine (Run.weight_le (fun _ _ _ _ _ h => due_advance h) h).trans_eq ?_
  rw [weight, start, hnode.due_eq, descriptions]
  exact Nat.zero_add _

theorem accounts_run (hnode : Fresh node) (hone : descriptions as ≤ 1)
    (h : Run step (start node) as x) : Accounts (received as) x := by
  have hinv : Accounts (received ([] ++ as)) x := by
    refine h.invariant_past (I := fun past x => Accounts (received past) x)
      (P := fun _ x _ => (Settled x.shared ∧ ∀ t ∈ x.threads, Knows x.shared t) ∧
        (x.threads.map Thread.due).sum ≤ 1) ?_ ?_ ?_
    · rintro past x a x' haccounts ⟨⟨hs, hknows⟩, hdue⟩ hstep
      rw [received_append]
      cases step_cases hstep with
      -- a call brings its candidate; after that steps only move candidates about
      | call k =>
        have hreceived : received [Action.call (α := Bool) k] = k.entry.waiting := add_zero _
        have heq : accounted ⟨x.shared, x.threads ++ [k.entry]⟩
            = accounted x + k.entry.waiting := by
          simp only [accounted, List.map_append, List.map_singleton, List.sum_append,
            List.sum_singleton, progress_of_not_drains (not_drains_entry k), Nat.add_zero,
            add_assoc]
        rw [hreceived]
        refine ⟨?_, fun hlive => ?_⟩
        · rw [heq]
          exact add_le_add haccounts.most le_rfl
        · rw [heq, haccounts.all hlive]
      | next hadv =>
        have hreceived : ∀ (i : ℕ) (ok : Bool),
            received [Action.next (κ := Call S C) i ok] = 0 := fun _ _ => rfl
        rw [hreceived, add_zero]
        exact haccounts.next hs hknows hdue (advance_cases hadv)
    · rintro as₁ a as₂ x₁ rfl hrun₁
      refine ⟨settled_run hnode hrun₁, ?_⟩
      -- one description at most, so one drain at most
      have hle := due_run hnode hrun₁
      rw [descriptions_append] at hone
      unfold weight at hle
      omega
    · have hempty : accounted (start node) = 0 := by
        simp only [accounted, start, List.map_nil, List.sum_nil, hnode.passed_eq, hnode.pending_eq,
          List.drop_nil]
        rfl
      exact ⟨hempty.le, fun _ => hempty⟩
  exact hinv

theorem waiting_of_ended (h : t.Ended) : t.waiting = 0 := by
  cases t with
  | finished | failed => rfl
  | _ => exact h.elim

theorem not_drains_of_ended (h : t.Ended) : ¬t.Drains := by
  cases t with
  | finished | failed => exact id
  | _ => exact h.elim

/-- Where a candidate is passed the description is set. -/
theorem described_of_passes (hnode : Fresh node) (h : Run step (start node) as x)
    {a : Action (Call S C) Bool} (hstep : step x a = some x')
    (hne : x'.shared.passed ≠ x.shared.passed) : x.shared.described = true := by
  obtain ⟨hs, hknows⟩ := settled_run hnode h
  cases step_cases hstep with
  | call k => exact absurd rfl hne
  | @next shared shared' front back t t' ok hadv =>
    cases advance_cases hadv with
    | keep hsame => exact absurd hsame.passed hne
    | through hpc => exact hs.described_eq hpc
    | fed hdrains => exact hknows t (by simp) hdrains
    | _ => exact absurd rfl hne

theorem passed_le_received (hnode : Fresh node) (hone : descriptions as ≤ 1)
    (h : Run step (start node) as x) : (x.shared.passed : Multiset C) ≤ received as := by
  refine le_trans ?_ (accounts_run hnode hone h).most
  exact (Multiset.le_add_right _ _).trans (Multiset.le_add_right _ _)

theorem answers_le_descriptions (hnode : Fresh node) (h : Run step (start node) as x) :
    answers x.shared.sent ≤ descriptions as := by
  have hdue := due_run hnode h
  unfold weight Node.due at hdue
  omega

/-- What a node is left with: all candidates passed if a description has been set, and
all buffered if none has. -/
structure Concluded (received : Multiset C) (s : Node S C) : Prop where
  passed_eq : s.described = true → (s.passed : Multiset C) = received
  drained : s.described = true → s.pendingIceCandidates = []
  buffered : s.described = false → (s.pendingIceCandidates : Multiset C) = received
  untouched : s.described = false → s.passed = []

theorem concluded_of_ended (hnode : Fresh node) (hone : descriptions as ≤ 1)
    (h : Run step (start node) as x) (hlive : x.shared.destroyed = false)
    (hended : ∀ t ∈ x.threads, t.Ended) : Concluded (received as) x.shared := by
  obtain ⟨hs, -⟩ := settled_run hnode h
  have hprogress := progress_sum_eq_zero fun t ht => not_drains_of_ended (hended t ht)
  have hwaiting : (x.threads.map Thread.waiting).sum = 0 := by
    refine List.sum_eq_zero fun m hm => ?_
    obtain ⟨t, ht, rfl⟩ := List.mem_map.mp hm
    exact waiting_of_ended (hended t ht)
  have hall := (accounts_run hnode hone h).all hlive
  rw [accounted, hprogress, hwaiting, List.drop_zero, add_zero] at hall
  have hpending : x.shared.described = true → x.shared.pendingIceCandidates = [] := by
    intro hdescribed
    by_contra hne
    obtain ⟨t, ht, hdrains⟩ := drains_run hnode h ⟨hs.pc_eq hdescribed hlive, hne⟩
    exact not_drains_of_ended (hended t ht) hdrains
  refine ⟨fun hdescribed => ?_, hpending, fun hnone => ?_, hs.passed_eq⟩
  · rwa [hpending hdescribed, Multiset.coe_nil, add_zero] at hall
  · rwa [hs.passed_eq hnone, Multiset.coe_nil, zero_add] at hall

/-- **The browser neither loses a candidate nor passes one twice**, in every
interleaving of its handlers that has at most one description to apply: a candidate is
passed only once the remote description is set, never twice, and when all handlers of
a node that has not been destroyed have come to their end, all have been passed if it
was set, and all are buffered if it was not.  At most one answer is sent. -/
theorem candidates_handled (hnode : Fresh node) (hone : descriptions as ≤ 1)
    (h : Run step (start node) as x) :
    (∀ a x', step x a = some x' → x'.shared.passed ≠ x.shared.passed →
      x.shared.described = true) ∧
    (x.shared.passed : Multiset C) ≤ received as ∧ answers x.shared.sent ≤ 1 ∧
    (x.shared.destroyed = false → (∀ t ∈ x.threads, t.Ended) →
      Concluded (received as) x.shared) :=
  ⟨fun _ _ hstep hne => described_of_passes hnode h hstep hne, passed_le_received hnode hone h,
    (answers_le_descriptions hnode h).trans hone, concluded_of_ended hnode hone h⟩

/-- A candidate before the PeerConnection is made, one before the description is set,
and one while the first two are being passed on. -/
def threeCandidates : List (Action (Call ℕ ℕ) Bool) :=
  [.call (.message (.ice (some 1))), .next 0 true,
    .call (.message (.offer ⟨some 480, none, false, some 0⟩)), .next 1 true,
    .call .initWebRTC, .next 2 true, .next 2 true,
    .call (.message (.ice (some 2))), .next 3 true, .next 2 true, .next 2 true,
    .call (.message (.ice (some 3))), .next 4 true, .next 4 true,
    .next 2 true, .next 2 true, .next 2 true, .next 2 true]

theorem candidates_handled_three :
    ∃ x, Run step (start (Node.new false true 960 none)) threeCandidates x ∧
      (x.shared.passed : Multiset ℕ) = {1, 2, 3} := by
  obtain ⟨x, hx, hend⟩ := (Option.any_eq_true _ _).mp (by decide +kernel :
    (exec step (start (Node.new false true 960 none)) threeCandidates).any (fun x =>
      !x.shared.destroyed && x.shared.described && x.threads.all fun
        | .finished => true
        | _ => false) = true)
  rw [Bool.and_eq_true, Bool.and_eq_true, Bool.not_eq_true', List.all_eq_true] at hend
  obtain ⟨⟨hlive, hdescribed⟩, hall⟩ := hend
  have hended : ∀ t ∈ x.threads, t.Ended := by
    intro t ht
    have hfinished := hall t ht
    split at hfinished
    · trivial
    · cases hfinished
  refine ⟨x, .of_exec hx, ?_⟩
  rw [((candidates_handled (fresh_new false true 960 none) (by decide)
    (.of_exec hx)).2.2.2 hlive hended).passed_eq hdescribed]
  rfl

end AmbiRTC.Negotiation
