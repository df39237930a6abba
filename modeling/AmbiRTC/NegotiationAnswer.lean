/-
AmbiRTC/NegotiationAnswer.lean

How the browser comes to answer an offer, in every interleaving of its handlers.  The
offer may come before the PeerConnection is made or after it; whichever is second
goes on with the negotiation, so an offer is never left lying.

Main results: `Negotiated` and `advance_negotiated` (what a step does to the
negotiation), `described_of_answers`, `answering_of_handled` and `taken_of_ended`.
-/
import AmbiRTC.NegotiationSafety

namespace AmbiRTC.Negotiation

open Runs Threads

variable {S C : Type} {s s' : Node S C} {t t' : Thread S C} {ok : Bool}

/-! ### Threads -/

/-- The handler has applied an offer and is to answer it. -/
def Thread.Follows : Thread S C → Prop
  | .draining true | .feeding true _ | .creatingAnswer | .settingLocalAnswer => True
  | _ => False

/-- The handler has nothing to do with an answer. -/
def Thread.Aside : Thread S C → Prop
  | .handling (.offer _) | .starting | .settingOffer _ | .settingAnswer | .draining true
  | .feeding true _ | .creatingAnswer | .settingLocalAnswer | .opening | .stateChanging _
  | .failed => False
  | _ => True

/-- The handler has not begun. -/
def Thread.Handles : Thread S C → Prop
  | .handling _ => True
  | _ => False

/-- The handler is about to try and start the negotiation. -/
def Thread.Starts : Thread S C → Prop
  | .starting => True
  | _ => False

/-- An answer is to come from the handler, or it has failed. -/
def Thread.Owes : Thread S C → Prop
  | .handling (.offer offer) => offer.sdp.isSome
  | .settingOffer _ | .draining true | .feeding true _ | .creatingAnswer | .settingLocalAnswer
  | .failed => True
  | _ => False

theorem owes_of_follows (h : t.Follows) : t.Owes := by
  unfold Thread.Follows at h
  split at h
  · trivial
  · trivial
  · trivial
  · trivial
  · exact h.elim

theorem not_aside_of_starts (h : t.Starts) : ¬t.Aside := by
  cases t with
  | starting => exact id
  | _ => exact h.elim

theorem not_follows_of_starts (h : t.Starts) : ¬t.Follows := by
  cases t with
  | starting => exact id
  | _ => exact h.elim

theorem not_aside_of_owes (h : t.Owes) : ¬t.Aside := by
  unfold Thread.Owes at h
  split at h
  case h_8 => exact h.elim
  all_goals exact id

/-! ### One step -/

/-- Nothing has changed for the negotiation. -/
structure SameSetup (s s' : Node S C) : Prop where
  offerer : s'.offerer = s.offerer
  bundle : s'.bundle = s.bundle
  destroyed : s'.destroyed = s.destroyed
  connected : s'.connected = s.connected
  sizes : s'.sizes = s.sizes
  bitrates : s'.bitrates = s.bitrates
  bundled : s'.bundled = s.bundled
  txLayout : s'.txLayout = s.txLayout
  pendingOffer : s'.pendingOffer = s.pendingOffer
  pc : s'.pc = s.pc
  described : s'.described = s.described
  sent : s'.sent = s.sent

theorem SameSetup.refl (s : Node S C) : SameSetup s s :=
  ⟨rfl, rfl, rfl, rfl, rfl, rfl, rfl, rfl, rfl, rfl, rfl, rfl⟩

/-- What `_tryStartNegotiation` does. -/
inductive Started (s : Node S C) : Node S C → Thread S C → Prop
  | nothing (h : s.pc.isSome → s.offerer = false → s.pendingOffer = none) : Started s s .finished
  | offers (hrole : s.offerer = true) : Started s { s with offerSent := true } .creatingOffer
  | answers {sdp : S} (hpc : s.pc.isSome) (hsdp : s.pendingOffer = some sdp) :
      Started s { s with pendingOffer := none } (.settingOffer sdp)

theorem started_tryStart (s : Node S C) :
    Started s (tryStartNegotiation s).1 (tryStartNegotiation s).2 := by
  unfold tryStartNegotiation
  split
  · rename_i hnone
    refine .nothing fun hpc => ?_
    rw [Option.isNone_iff_eq_none.mp hnone] at hpc
    cases hpc
  rename_i hpc
  split
  · rename_i hready
    rw [Bool.and_eq_true, Bool.and_eq_true] at hready
    exact .offers hready.1.1
  split
  · exact .answers (by simpa [Option.isSome_iff_ne_none] using hpc) ‹_›
  · rename_i hne
    refine .nothing fun _ hrole => ?_
    by_contra hsome
    obtain ⟨sdp, hsdp⟩ := Option.ne_none_iff_exists'.mp hsome
    exact hne sdp hrole hsdp

/-- What does not change when an offer is accepted. -/
structure Accepted (s : Node S C) (offer : Offer S) (s' : Node S C) : Prop where
  offerer : s'.offerer = s.offerer
  bundle : s'.bundle = s.bundle
  destroyed : s'.destroyed = s.destroyed
  connected : s'.connected = s.connected
  pc : s'.pc = s.pc
  described : s'.described = s.described
  sent : s'.sent = s.sent
  pendingOffer : s'.pendingOffer = offer.sdp

/-- What a step does to the negotiation. -/
inductive Negotiated (s : Node S C) : Thread S C → Node S C → Thread S C → Prop
  | aside {t t' : Thread S C} {s' : Node S C} (hsame : SameSetup s s') (ht : t.Aside)
      (ht' : t'.Aside) (hnew : ¬t'.Handles) : Negotiated s t s' t'
  | gaveUp {t : Thread S C} (ht : ¬t.Starts) : Negotiated s t s .failed
  | ignored {offer : Offer S} (h : s.destroyed = true ∨ s.offerer = true) :
      Negotiated s (.handling (.offer offer)) s .finished
  | accepted {offer : Offer S} {s₁ s' : Node S C} {t' : Thread S C}
      (haccept : acceptOffer s offer = some s₁) (hstart : Started s₁ s' t') :
      Negotiated s (.handling (.offer offer)) s' t'
  | tried {t t' : Thread S C} {s₁ s' : Node S C} (hsame : SameSetup s s₁)
      (ht : t = .starting ∨ t = .handling .peerReady) (hstart : Started s₁ s' t') :
      Negotiated s t s' t'
  | read : Negotiated s (.handling .answer) s .settingAnswer
  | made (hpc : s.pc = none) : Negotiated s .initialising { s with pc := some false } .starting
  | applied {sdp : S} (hpc : s.pc.isSome) : Negotiated s (.settingOffer sdp)
      { s with pc := some true, described := true } (.draining true)
  | concluded (hpc : s.pc.isSome) : Negotiated s .settingAnswer
      { s with pc := some true, described := true } (.draining false)
  | onward {t t' : Thread S C} {s' : Node S C} (hsame : SameSetup s s') (ht : t.Follows)
      (ht' : t'.Follows) : Negotiated s t s' t'
  | answered : Negotiated s .settingLocalAnswer
      { s with sent := s.sent ++ [.answer s.sizes.frameSize] } .finished
  | sends {t : Thread S C} {m : Sent C} (ht : t.Aside) (hm : answers [m] = 0) :
      Negotiated s t { s with sent := s.sent ++ [m] } .finished
  | connects {t : Thread S C} {up : Bool} (ht : t = .opening ∧ up = true ∨ t = .stateChanging up) :
      Negotiated s t { s with connected := up } .finished
  | destroyed : Negotiated s .destroying { s with
      destroyed := true, connected := false, pendingIceCandidates := [], pc := none } .finished

theorem accepted_of_some {offer : Offer S} (h : acceptOffer s offer = some s') :
    Accepted s offer s' := by
  obtain ⟨_, _, _, _, _, rfl⟩ := acceptOffer_cases h
  exact ⟨rfl, rfl, rfl, rfl, rfl, rfl, rfl, rfl⟩

theorem negotiated_drained (answering : Bool) (ht : t = .draining answering ∨
    ∃ i, t = .feeding answering i) (hsame : SameSetup s s') :
    Negotiated s t s' (drained answering) := by
  cases answering with
  | true =>
    refine .onward hsame ?_ trivial
    rcases ht with rfl | ⟨i, rfl⟩ <;> trivial
  | false =>
    refine .aside hsame ?_ trivial id
    rcases ht with rfl | ⟨i, rfl⟩ <;> trivial

theorem negotiated_feed (answering : Bool) (i : ℕ) (ht : t = .draining answering ∨
    ∃ i, t = .feeding answering i) :
    Negotiated s t (feed s answering i).1 (feed s answering i).2 := by
  unfold feed
  split
  · split
    · refine .gaveUp ?_
      rcases ht with rfl | ⟨i, rfl⟩ <;> exact id
    · have hsame : ∀ passed, SameSetup s { s with passed } :=
        fun _ => ⟨rfl, rfl, rfl, rfl, rfl, rfl, rfl, rfl, rfl, rfl, rfl, rfl⟩
      cases answering with
      | true =>
        refine .onward (hsame _) ?_ trivial
        rcases ht with rfl | ⟨i, rfl⟩ <;> trivial
      | false =>
        refine .aside (hsame _) ?_ trivial id
        rcases ht with rfl | ⟨i, rfl⟩ <;> trivial
  · exact negotiated_drained answering ht
      ⟨rfl, rfl, rfl, rfl, rfl, rfl, rfl, rfl, rfl, rfl, rfl, rfl⟩

theorem negotiated_describe {answering : Bool} (ht : ¬t.Starts) (happly : s.pc.isSome →
    Negotiated s t { s with pc := some true, described := true } (.draining answering)) :
    Negotiated s t (describe s answering ok).1 (describe s answering ok).2 := by
  unfold describe
  split
  · rename_i hok
    exact happly ((Bool.and_eq_true _ _).mp hok).2
  · exact .gaveUp ht

theorem negotiated_handle (m : Message S C) :
    Negotiated s (.handling m) (handleSigMessage s m).1 (handleSigMessage s m).2 := by
  cases m with
  | peerReady =>
    have hready : SameSetup s { s with peerIsReady := true } :=
      ⟨rfl, rfl, rfl, rfl, rfl, rfl, rfl, rfl, rfl, rfl, rfl, rfl⟩
    exact .tried hready (Or.inr rfl) (started_tryStart _)
  | peerDisconnected => exact .aside (.refl s) trivial trivial id
  | offer offer =>
    simp only [handleSigMessage]
    split
    · exact .ignored (Or.inr ‹_›)
    split
    · exact .accepted ‹_› (started_tryStart _)
    · exact .gaveUp id
  | answer =>
    simp only [handleSigMessage]
    split
    · exact .aside (.refl s) trivial trivial id
    · exact .read
  | ice candidate =>
    cases candidate with
    | none => exact .aside (.refl s) trivial trivial id
    | some candidate =>
      simp only [handleSigMessage]
      split
      all_goals
        refine .aside ?_ trivial trivial id
        exact ⟨rfl, rfl, rfl, rfl, rfl, rfl, rfl, rfl, rfl, rfl, rfl, rfl⟩

/-- **What a step does to the negotiation.** -/
theorem advance_negotiated (h : advance s t ok = some (s', t')) : Negotiated s t s' t' := by
  cases t with
  | handling m =>
    have h := Option.some.inj h
    split at h
    -- `destroy` has removed the listener
    · obtain ⟨rfl, rfl⟩ := Prod.mk.inj h
      cases m with
      | offer offer => exact .ignored (Or.inl ‹_›)
      | _ => exact .aside (.refl s) trivial trivial id
    · obtain ⟨rfl, rfl⟩ := Prod.mk.inj h
      exact negotiated_handle m
  | initialising =>
    simp only [advance] at h
    split at h
    · obtain ⟨rfl, rfl⟩ := Prod.mk.inj (Option.some.inj h)
      -- destroyed, or the credentials did not come
      exact .gaveUp id
    split at h
    · obtain ⟨rfl, rfl⟩ := Prod.mk.inj (Option.some.inj h)
      exact .aside (.refl s) trivial trivial id
    · rename_i hnone
      obtain ⟨rfl, rfl⟩ := Prod.mk.inj (Option.some.inj h)
      exact .made (by simpa using hnone)
  | starting =>
    obtain ⟨rfl, rfl⟩ := Prod.mk.inj (Option.some.inj h)
    exact .tried (.refl s) (Or.inl rfl) (started_tryStart s)
  | creatingOffer =>
    obtain ⟨rfl, rfl⟩ := Prod.mk.inj (Option.some.inj h)
    split
    · exact .aside (.refl s) trivial trivial id
    -- `createOffer` was rejected, or `destroy` took the connection
    · exact .gaveUp id
  | settingLocalOffer =>
    simp only [advance] at h
    split at h
    · obtain ⟨rfl, rfl⟩ := Prod.mk.inj (Option.some.inj h)
      exact .sends trivial rfl
    · obtain ⟨rfl, rfl⟩ := Prod.mk.inj (Option.some.inj h)
      exact .gaveUp id
  | settingOffer _ =>
    obtain ⟨rfl, rfl⟩ := Prod.mk.inj (Option.some.inj h)
    exact negotiated_describe id .applied
  | settingAnswer =>
    obtain ⟨rfl, rfl⟩ := Prod.mk.inj (Option.some.inj h)
    exact negotiated_describe id .concluded
  -- the drain goes on to the answer only when it ends
  | draining answering =>
    have h := Option.some.inj h
    split at h
    · obtain ⟨rfl, rfl⟩ := Prod.mk.inj h
      exact negotiated_feed answering 0 (Or.inl rfl)
    · obtain ⟨rfl, rfl⟩ := Prod.mk.inj h
      exact negotiated_drained answering (Or.inl rfl) (.refl s)
  | feeding answering i =>
    obtain ⟨rfl, rfl⟩ := Prod.mk.inj (Option.some.inj h)
    exact negotiated_feed answering (i + 1) (Or.inr ⟨i, rfl⟩)
  | creatingAnswer =>
    obtain ⟨rfl, rfl⟩ := Prod.mk.inj (Option.some.inj h)
    split
    · exact .onward (.refl s) trivial trivial
    · exact .gaveUp id
  | settingLocalAnswer =>
    simp only [advance] at h
    split at h
    · obtain ⟨rfl, rfl⟩ := Prod.mk.inj (Option.some.inj h)
      exact .answered
    · obtain ⟨rfl, rfl⟩ := Prod.mk.inj (Option.some.inj h)
      exact .gaveUp id
  -- from here on nothing of an offer or an answer changes, `destroy` apart
  | adding =>
    obtain ⟨rfl, rfl⟩ := Prod.mk.inj (Option.some.inj h)
    exact .aside (.refl s) trivial trivial id
  | destroying =>
    simp only [advance] at h
    split at h
    · obtain ⟨rfl, rfl⟩ := Prod.mk.inj (Option.some.inj h)
      exact .aside (.refl s) trivial trivial id
    · obtain ⟨rfl, rfl⟩ := Prod.mk.inj (Option.some.inj h)
      exact .destroyed
  | opening =>
    obtain ⟨rfl, rfl⟩ := Prod.mk.inj (Option.some.inj h)
    exact .connects (Or.inl ⟨rfl, rfl⟩)
  | stateChanging up =>
    simp only [advance] at h
    split at h
    · obtain ⟨rfl, rfl⟩ := Prod.mk.inj (Option.some.inj h)
      exact .gaveUp id
    · obtain ⟨rfl, rfl⟩ := Prod.mk.inj (Option.some.inj h)
      exact .connects (Or.inr rfl)
  | gathering candidate =>
    simp only [advance] at h
    split at h
    · obtain ⟨rfl, rfl⟩ := Prod.mk.inj (Option.some.inj h)
      exact .aside (.refl s) trivial trivial id
    · obtain ⟨rfl, rfl⟩ := Prod.mk.inj (Option.some.inj h)
      exact .sends trivial rfl
  | finished => cases h
  | failed => cases h

/-! ### Messages -/

/-- The message of a call. -/
def Call.received : Call S C → Option (Message S C)
  | .message m => some m
  | _ => none

/-- The messages received. -/
def messages (as : List (Action (Call S C) Bool)) : List (Message S C) :=
  (as.filterMap Action.called).filterMap Call.received

theorem messages_append (as bs : List (Action (Call S C) Bool)) :
    messages (as ++ bs) = messages as ++ messages bs := by
  simp only [messages, List.filterMap_append]

/-! ### What only grows -/

theorem Started.sent (h : Started s s' t') : s'.sent = s.sent := by
  cases h <;> rfl

theorem Started.described (h : Started s s' t') : s'.described = s.described := by
  cases h <;> rfl

theorem Started.offerer (h : Started s s' t') : s'.offerer = s.offerer := by
  cases h <;> rfl

theorem Started.not_follows (h : Started s s' t') : ¬t'.Follows := by
  cases h <;> exact id

theorem Negotiated.sent_grows (h : Negotiated s t s' t') : s.sent <+: s'.sent := by
  cases h with
  | aside hsame | onward hsame => rw [hsame.sent]
  | accepted haccept hstart => rw [hstart.sent, (accepted_of_some haccept).sent]
  | tried hsame _ hstart => rw [hstart.sent, hsame.sent]
  | answered | sends => exact List.prefix_append _ _
  | _ => exact List.prefix_rfl

theorem Negotiated.offerer (h : Negotiated s t s' t') : s'.offerer = s.offerer := by
  cases h with
  | aside hsame | onward hsame => exact hsame.offerer
  | accepted haccept hstart => rw [hstart.offerer, (accepted_of_some haccept).offerer]
  | tried hsame _ hstart => rw [hstart.offerer, hsame.offerer]
  | _ => rfl

theorem answers_of_prefix {sent sent' : List (Sent C)} (h : sent <+: sent') :
    answers sent ≤ answers sent' := by
  obtain ⟨more, rfl⟩ := h
  rw [answers_append]
  exact Nat.le_add_right _ _

/-! ### An answer follows a description -/

/-- No answer has been sent before a description was set. -/
def Replied (s : Node S C) : Prop := answers s.sent ≠ 0 → s.described = true

theorem Negotiated.replied (h : Negotiated s t s' t') (hs : Replied s)
    (ht : t.Follows → s.described = true) : Replied s' ∧ (t'.Follows → s'.described = true) := by
  cases h with
  | aside hsame _ ht' _ =>
    refine ⟨fun hne => ?_, fun hfollows => ?_⟩
    · rw [hsame.described]
      exact hs (hsame.sent ▸ hne)
    · exact absurd ht' (not_aside_of_owes (owes_of_follows hfollows))
  | onward hsame hfollows _ =>
    have hdescribed := hsame.described.trans (ht hfollows)
    exact ⟨fun _ => hdescribed, fun _ => hdescribed⟩
  | accepted haccept hstart =>
    have hsame := accepted_of_some haccept
    refine ⟨fun hne => ?_, fun hfollows => absurd hfollows hstart.not_follows⟩
    rw [hstart.described, hsame.described]
    rw [hstart.sent, hsame.sent] at hne
    exact hs hne
  | tried hsame _ hstart =>
    refine ⟨fun hne => ?_, fun hfollows => absurd hfollows hstart.not_follows⟩
    rw [hstart.described, hsame.described]
    rw [hstart.sent, hsame.sent] at hne
    exact hs hne
  | applied | concluded => exact ⟨fun _ => rfl, fun _ => rfl⟩
  | answered => exact ⟨fun _ => ht trivial, nofun⟩
  | sends _ hm =>
    refine ⟨fun hne => hs fun hzero => hne ?_, nofun⟩
    rw [answers_append, hzero, hm]
  | gaveUp | ignored | read | made | connects | destroyed => exact ⟨hs, nofun⟩

theorem described_of_answers {node : Node S C} {x : System (Node S C) (Thread S C)}
    {as : List (Action (Call S C) Bool)} (hnode : Fresh node) (h : Run step (start node) as x)
    (hne : answers x.shared.sent ≠ 0) : x.shared.described = true := by
  refine (Run.modular (I := Replied) (L := fun s t => t.Follows → s.described = true)
    (fun s k _ hfollows => ?_) (fun s t ok s' t' hs ht h => ?_) h
    ⟨fun hne => ?_, fun t ht => (nomatch ht)⟩).1 hne
  · cases k <;> exact hfollows.elim
  · obtain ⟨hs', ht'⟩ := (advance_negotiated h).replied hs ht
    exact ⟨hs', ht', fun u hu hfollows => (advance_cases h).described_mono (hu hfollows)⟩
  · have hdue := hnode.due_eq
    rw [Node.due] at hdue
    exact absurd (Nat.eq_zero_of_add_eq_zero_left hdue) hne

/-! ### No offer is left lying -/

/-- An offer is kept for later, or answered; or none is taken any more. -/
def Held (s : Node S C) : Prop :=
  s.pendingOffer.isSome ∨ answers s.sent ≠ 0 ∨ s.destroyed = true ∨ s.offerer = true

theorem Held.same (h : Held s) (hsame : SameSetup s s') : Held s' := by
  unfold Held
  rw [hsame.pendingOffer, hsame.sent, hsame.destroyed, hsame.offerer]
  exact h

theorem Started.held (h : Started s s' t') (hs : Held s) : Held s' ∨ t'.Owes := by
  cases h with
  | nothing | offers => exact Or.inl hs
  | answers => exact Or.inr trivial

/-- An offer stays with the node or with a handler until it is answered. -/
theorem Negotiated.held (h : Negotiated s t s' t')
    (hsdp : ∀ offer, t = .handling (.offer offer) → offer.sdp.isSome) (hs : Held s ∨ t.Owes) :
    Held s' ∨ t'.Owes := by
  cases h with
  | aside hsame ht _ _ =>
    rcases hs with hs | howes
    · exact Or.inl (hs.same hsame)
    · exact absurd ht (not_aside_of_owes howes)
  | gaveUp | applied => exact Or.inr trivial
  | ignored h => exact Or.inl (Or.inr (Or.inr h))
  | accepted haccept hstart =>
    refine hstart.held (Or.inl ?_)
    rw [(accepted_of_some haccept).pendingOffer]
    exact hsdp _ rfl
  | tried hsame ht hstart =>
    rcases hs with hs | howes
    · exact hstart.held (hs.same hsame)
    · rcases ht with rfl | rfl <;> exact howes.elim
  | read | made | concluded => exact Or.inl (hs.resolve_right id)
  | onward _ _ ht' => exact Or.inr (owes_of_follows ht')
  | answered =>
    refine Or.inl (Or.inr (Or.inl ?_))
    rw [answers_append]
    exact Nat.succ_ne_zero _
  | sends ht hm =>
    have hs := hs.resolve_right fun howes => not_aside_of_owes howes ht
    refine Or.inl (hs.imp_right (Or.imp_left fun hne => ?_))
    rw [answers_append, hm]
    exact hne
  | connects ht =>
    refine Or.inl (hs.resolve_right fun howes => ?_)
    rcases ht with ⟨rfl, -⟩ | rfl <;> exact howes.elim
  | destroyed => exact Or.inl (Or.inr (Or.inr (Or.inl rfl)))

theorem Negotiated.not_handles (h : Negotiated s t s' t') : ¬t'.Handles := by
  cases h with
  | aside _ _ _ hnew => exact hnew
  | @onward t _ _ _ _ ht' =>
    intro hhandles
    cases t' with
    | handling m => exact ht'
    | _ => exact hhandles
  | accepted _ hstart | tried _ _ hstart => cases hstart <;> exact id
  | _ => exact id

section

variable {node : Node S C} {x : System (Node S C) (Thread S C)}
  {as : List (Action (Call S C) Bool)}

theorem offerer_run (h : Run step (start node) as x) : x.shared.offerer = node.offerer := by
  refine h.invariant (I := fun x => x.shared.offerer = node.offerer) ?_ rfl
  intro x a x' hrole hstep
  cases step_cases hstep with
  | call k => exact hrole
  | next hadv => exact (advance_negotiated hadv).offerer.trans hrole

/-- What a handler has been called with has been received. -/
theorem received_of_handling (h : Run step (start node) as x) {offer : Offer S}
    (ht : .handling (.offer offer) ∈ x.threads) : .offer offer ∈ messages as := by
  induction as using List.reverseRecOn generalizing x with
  | nil =>
    obtain rfl := run_nil_iff.mp h
    cases ht
  | append_singleton as a ih =>
    obtain ⟨x₁, h₁, h⟩ := run_append_iff.mp h
    obtain ⟨x₂, hstep, h⟩ := run_cons_iff.mp h
    obtain rfl := run_nil_iff.mp h
    rw [messages_append]
    cases step_cases hstep with
    | call k =>
      rcases List.mem_append.mp ht with ht | ht
      · exact List.mem_append_left _ (ih h₁ ht)
      · refine List.mem_append_right _ ?_
        cases k <;> cases List.mem_singleton.mp ht
        exact List.mem_singleton_self _
    | @next shared shared' front back t t' ok hadv =>
      refine List.mem_append_left _ (ih h₁ ?_)
      rcases List.mem_append.mp ht with ht | ht
      · exact List.mem_append_left _ ht
      · rcases List.mem_cons.mp ht with ht | ht
        · exact ((advance_negotiated hadv).not_handles (ht ▸ trivial)).elim
        · exact List.mem_append_right _ (List.mem_cons_of_mem _ ht)

/-- **An offer is not lost.**  Once received it is kept for later, in some handler's
hands or answered, unless a handler has failed or the node takes no offers. -/
theorem held_of_received (h : Run step (start node) as x)
    (hsdp : ∀ offer, .offer offer ∈ messages as → offer.sdp.isSome) {offer : Offer S}
    (hoffer : .offer offer ∈ messages as) : Held x.shared ∨ ∃ t ∈ x.threads, t.Owes := by
  induction as using List.reverseRecOn generalizing x with
  | nil => cases hoffer
  | append_singleton as a ih =>
    obtain ⟨x₁, h₁, h⟩ := run_append_iff.mp h
    obtain ⟨x₂, hstep, h⟩ := run_cons_iff.mp h
    obtain rfl := run_nil_iff.mp h
    rw [messages_append] at hsdp hoffer
    have hsdp₁ : ∀ offer, .offer offer ∈ messages as → offer.sdp.isSome :=
      fun offer hmem => hsdp offer (List.mem_append_left _ hmem)
    rcases List.mem_append.mp hoffer with hmem | hmem
    · refine present_step (fun t ht ok s' t' hadv hs => ?_) hstep (ih h₁ hsdp₁ hmem)
      refine (advance_negotiated hadv).held (fun offer heq => ?_) hs
      subst heq
      exact hsdp₁ offer (received_of_handling h₁ ht)
    · cases step_cases hstep with
      | call k =>
        cases k with
        | message m =>
          obtain rfl := List.mem_singleton.mp hmem
          exact Or.inr ⟨.handling (.offer offer), by simp [Call.entry], hsdp offer (by simp [hmem])⟩
        | _ => cases hmem
      | next => cases hmem

end

/-- An answerer has both the PeerConnection and an offer: somebody has to go on. -/
def Ripe (s : Node S C) : Prop := s.offerer = false ∧ s.pc.isSome ∧ s.pendingOffer.isSome

theorem Started.not_ripe (h : Started s s' t') : ¬Ripe s' := by
  rintro ⟨hrole, hpc, hsome⟩
  cases h with
  | nothing h =>
    rw [h hpc hrole] at hsome
    cases hsome
  | offers hrole' => exact nomatch hrole.symm.trans hrole'
  | answers => cases hsome

theorem Negotiated.ripe (h : Negotiated s t s' t') (hripe : Ripe s') :
    (Ripe s ∧ (t.Starts → t'.Starts)) ∨ t'.Starts := by
  have hsame : SameSetup s s' → Ripe s := fun hsame => by
    rwa [Ripe, ← hsame.offerer, ← hsame.pc, ← hsame.pendingOffer]
  cases h with
  | aside h ht _ _ => exact Or.inl ⟨hsame h, fun hstarts => (not_aside_of_starts hstarts ht).elim⟩
  | onward h ht _ =>
    exact Or.inl ⟨hsame h, fun hstarts => (not_follows_of_starts hstarts ht).elim⟩
  | gaveUp ht => exact Or.inl ⟨hripe, fun hstarts => (ht hstarts).elim⟩
  | accepted _ hstart | tried _ _ hstart => exact absurd hripe hstart.not_ripe
  | made => exact Or.inr trivial
  | applied hpc | concluded hpc => exact Or.inl ⟨⟨hripe.1, hpc, hripe.2.2⟩, False.elim⟩
  | ignored | read | answered => exact Or.inl ⟨hripe, False.elim⟩
  | sends ht _ => exact Or.inl ⟨hripe, fun hstarts => (not_aside_of_starts hstarts ht).elim⟩
  | connects ht =>
    refine Or.inl ⟨hripe, fun hstarts => ?_⟩
    rcases ht with ⟨rfl, -⟩ | rfl <;> exact hstarts.elim
  | destroyed => exact nomatch hripe.2.1

/-- **An offer is taken up** as soon as there is a PeerConnection, and the other way
round: where both are there a handler is about to go on. -/
theorem starting_of_ripe {node : Node S C} {x : System (Node S C) (Thread S C)}
    {as : List (Action (Call S C) Bool)} (hnode : Fresh node) (h : Run step (start node) as x)
    (hripe : Ripe x.shared) : ∃ t ∈ x.threads, t.Starts := by
  refine Run.witness_while (M := Ripe) (Q := Thread.Starts)
    (fun _ _ _ _ _ h => (advance_negotiated h).ripe) h
    (fun hripe => by
      have hpc : node.pc.isSome := hripe.2.1
      rw [hnode.pc_eq] at hpc
      cases hpc) hripe

end AmbiRTC.Negotiation
