/-
AmbiRTC/HandshakeSafety.lean

Both sides of a connection set-up, in every interleaving: what is sent on one side is
what is handled on the other, as far as it has come.  The session sends one offer, so
the browser never applies a second description, which is what its draining of the
candidates relies on; and the browser has applied the offer before the session has an
answer to apply.

Main results: `Stepped` and `step_cases`, `parts_run` (each side runs as it does by
itself), `candidates_exchanged` (every run) and `answered_of_rest` (its end).
-/
import AmbiRTC.Handshake
import AmbiRTC.NegotiationAnswer

namespace AmbiRTC.Negotiation

open Runs Threads

variable {S C : Type}

/-! ### Messages -/

/-- The candidate of a message. -/
def Message.candidate : Message S C → Option C
  | .ice candidate => candidate
  | _ => none

@[inherit_doc Message.candidate]
def Sent.candidate : Sent C → Option C
  | .ice candidate => some candidate
  | _ => none

/-- The message is an offer or an answer. -/
def Message.describes : Message S C → Bool
  | .offer _ | .answer => true
  | _ => false

theorem received_eq (as : List (Threads.Action (Call S C) Bool)) :
    received as = ((messages as).filterMap Message.candidate : List C) := by
  unfold received messages
  induction as.filterMap Action.called with
  | nil => rfl
  | cons k ks ih =>
    rw [List.map_cons, List.sum_cons, ih]
    cases k with
    | message m =>
      cases m with
      | ice candidate =>
        cases candidate with
        | none => exact zero_add _
        | some candidate => exact Multiset.singleton_add _ _
      | _ => exact zero_add _
    | _ => exact zero_add _

theorem descriptions_eq (as : List (Threads.Action (Call S C) Bool)) :
    descriptions as = (messages as).countP Message.describes := by
  unfold descriptions messages
  induction as.filterMap Action.called with
  | nil => rfl
  | cons k ks ih =>
    rw [List.map_cons, List.sum_cons, ih]
    cases k with
    | message m =>
      show _ = List.countP Message.describes (m :: List.filterMap Call.received ks)
      rw [List.countP_cons, add_comm]
      cases m <;> rfl
    | _ => exact zero_add _

theorem sent_grows_step {x x' : System (Node S C) (Thread S C)}
    {a : Threads.Action (Call S C) Bool} (h : step x a = some x') :
    x.shared.sent <+: x'.shared.sent := by
  cases Threads.step_cases h with
  | call k => exact List.prefix_rfl
  | next hadv => exact (advance_negotiated hadv).sent_grows

end AmbiRTC.Negotiation

namespace AmbiRTC.Handshake

open Runs Threads Negotiation

variable {S C : Type} {cfg : Options} {x x' : State S C} {a : Action S C}

/-! ### One step -/

/-- What an action does. -/
inductive Stepped (cfg : Options) (x : State S C) : State S C → Prop
  | turn {stage : Stage} (h : stage = .returned ∨ (x.stage = .offering ∧ stage = .sending)) :
      Stepped cfg x { x with stage }
  | offer {sdp : S} (h : x.stage = .sending) :
      Stepped cfg x { x with stage := .serving, sent := x.sent ++ [.offer (cfg.offer sdp)] }
  | gather {candidate : C} : Stepped cfg x { x with sent := x.sent ++ [.ice (some candidate)] }
  | read {m : Sent C} (hm : x.browser.shared.sent[x.read]? = some m) :
      Stepped cfg x { x with read := x.read + 1, session := begin x.session (serve m) }
  | session {i : ℕ} {ok : Bool} {session : System (RemoteIce.State C) (RemoteIce.Thread C)}
      (h : RemoteIce.step x.session (.next i ok) = some session) : Stepped cfg x { x with session }
  | deliver {m : Message S C} {browser : System (Node S C) (Thread S C)}
      (hm : x.sent[x.delivered]? = some m)
      (h : Negotiation.step x.browser (.call (.message m)) = some browser) :
      Stepped cfg x { x with delivered := x.delivered + 1, browser }
  | call {k : Call S C} {browser : System (Node S C) (Thread S C)}
      (hk : admits x.browser.shared k = true)
      (h : Negotiation.step x.browser (.call k) = some browser) : Stepped cfg x { x with browser }
  | handler {i : ℕ} {ok : Bool} {browser : System (Node S C) (Thread S C)}
      (h : Negotiation.step x.browser (.next i ok) = some browser) :
      Stepped cfg x { x with browser }

theorem step_cases (h : step cfg x a = some x') : Stepped cfg x x' := by
  cases a with
  | setLocalDescription ok =>
    obtain ⟨hstage, h⟩ := Option.ite_none_right_eq_some.mp h
    obtain rfl := Option.some.inj h
    cases ok
    · exact .turn (Or.inl rfl)
    · exact .turn (Or.inr ⟨hstage, rfl⟩)
  | sendOffer sdp ok =>
    obtain ⟨hstage, h⟩ := Option.ite_none_right_eq_some.mp h
    cases ok
    -- the offer could not be sent, and no other will be
    · obtain rfl := Option.some.inj h
      exact .turn (Or.inl rfl)
    · obtain rfl := Option.some.inj h
      exact .offer hstage
  | gathered candidate =>
    obtain rfl := Option.some.inj h
    exact .gather
  | read =>
    obtain ⟨-, h⟩ := Option.ite_none_right_eq_some.mp h
    obtain ⟨m, hm, rfl⟩ := Option.map_eq_some_iff.mp h
    exact .read hm
  | disconnect =>
    obtain ⟨-, h⟩ := Option.ite_none_right_eq_some.mp h
    obtain rfl := Option.some.inj h
    exact .turn (Or.inl rfl)
  | session i ok =>
    obtain ⟨session, hsession, rfl⟩ := Option.map_eq_some_iff.mp h
    exact .session hsession
  | deliver =>
    obtain ⟨m, hm, h⟩ := Option.bind_eq_some_iff.mp h
    obtain ⟨browser, hbrowser, rfl⟩ := Option.map_eq_some_iff.mp h
    exact .deliver hm hbrowser
  | call k =>
    obtain ⟨hk, h⟩ := Option.ite_none_right_eq_some.mp h
    obtain ⟨browser, hbrowser, rfl⟩ := Option.map_eq_some_iff.mp h
    exact .call hk hbrowser
  | handler i ok =>
    obtain ⟨browser, hbrowser, rfl⟩ := Option.map_eq_some_iff.mp h
    exact .handler hbrowser

/-! ### Each side by itself -/

/-- One more of a list. -/
theorem prefix_snoc {α : Type} {l l' : List α} {b : α} (h : l <+: l')
    (hb : l'[l.length]? = some b) : l ++ [b] <+: l' := by
  obtain ⟨more, rfl⟩ := h
  rw [List.getElem?_append_right le_rfl, Nat.sub_self] at hb
  cases more with
  | nil => cases hb
  | cons c more =>
    obtain rfl := Option.some.inj hb
    exact ⟨more, by simp⟩

/-- Each side runs as it does by itself, called with what the other has sent. -/
structure Parts (node : Node S C) (x : State S C) : Prop where
  browser : ∃ as, Run Negotiation.step (Negotiation.start node) as x.browser ∧
    messages as <+: x.sent ∧ (messages as).length = x.delivered
  session : ∃ bs sent, Run RemoteIce.step RemoteIce.start bs x.session ∧
    bs.filterMap Action.called = sent.filterMap serve ∧ sent <+: x.browser.shared.sent ∧
    sent.length = x.read

variable {node : Node S C}

theorem Parts.send (h : Parts node x) {m : Message S C} {stage : Stage} :
    Parts node { x with stage, sent := x.sent ++ [m] } := by
  obtain ⟨as, hrun, hprefix, hlen⟩ := h.browser
  exact ⟨⟨as, hrun, hprefix.trans (List.prefix_append _ _), hlen⟩, h.session⟩

/-- The session's side, when the browser goes on. -/
theorem Parts.other (h : Parts node x) {a : Threads.Action (Call S C) Bool}
    {browser : System (Node S C) (Thread S C)}
    (hstep : Negotiation.step x.browser a = some browser) :
    ∃ bs sent, Run RemoteIce.step RemoteIce.start bs x.session ∧
      bs.filterMap Action.called = sent.filterMap serve ∧ sent <+: browser.shared.sent ∧
      sent.length = x.read := by
  obtain ⟨bs, sent, hrun, hcalls, hprefix, hlen⟩ := h.session
  exact ⟨bs, sent, hrun, hcalls, hprefix.trans (sent_grows_step hstep), hlen⟩

/-- The browser goes on without a message. -/
theorem Parts.play (h : Parts node x) {a : Threads.Action (Call S C) Bool}
    {browser : System (Node S C) (Thread S C)} (ha : messages [a] = [])
    (hstep : Negotiation.step x.browser a = some browser) : Parts node { x with browser } := by
  obtain ⟨as, hrun, hprefix, hlen⟩ := h.browser
  have hmessages : messages (as ++ [a]) = messages as := by
    rw [messages_append, ha, List.append_nil]
  exact ⟨⟨as ++ [a], hrun.snoc hstep, hmessages ▸ hprefix, hmessages ▸ hlen⟩, h.other hstep⟩

theorem Parts.step (h : Parts node x) (hstep : Stepped cfg x x') : Parts node x' := by
  cases hstep with
  | turn => exact ⟨h.browser, h.session⟩
  | offer | gather => exact h.send
  | @read m hm =>
    obtain ⟨bs, sent, hrun, hcalls, hprefix, hlen⟩ := h.session
    have hread : sent ++ [m] <+: x.browser.shared.sent := prefix_snoc hprefix (by rwa [hlen])
    have hlen' : (sent ++ [m]).length = x.read + 1 := by simp [hlen]
    refine ⟨h.browser, ?_⟩
    cases hserve : serve m with
    -- the session ignores this message
    | none =>
      have hbegin : begin x.session none = x.session := by simp [begin]
      refine ⟨bs, sent ++ [m], hbegin.symm ▸ hrun, ?_, hread, hlen'⟩
      rw [hcalls, List.filterMap_append, List.filterMap_cons_none hserve]
      exact (List.append_nil _).symm
    | some k =>
      refine ⟨bs ++ [.call k], sent ++ [m], hrun.snoc rfl, ?_, hread, hlen'⟩
      rw [List.filterMap_append, List.filterMap_append, hcalls, List.filterMap_cons_some hserve]
      rfl
  | @session i ok session hsession =>
    obtain ⟨bs, sent, hrun, hcalls, hsent⟩ := h.session
    refine ⟨h.browser, bs ++ [.next i ok], sent, hrun.snoc hsession, ?_, hsent⟩
    rw [List.filterMap_append, hcalls]
    exact List.append_nil _
  -- the browser gets what the session sent, in order
  | @deliver m browser hm hbrowser =>
    obtain ⟨as, hrun, hprefix, hlen⟩ := h.browser
    refine ⟨⟨as ++ [.call (.message m)], hrun.snoc hbrowser, ?_, ?_⟩, h.other hbrowser⟩
    · rw [messages_append]
      exact prefix_snoc hprefix (by rwa [hlen])
    · rw [messages_append, List.length_append, hlen]
      rfl
  | @call k browser hk hbrowser =>
    refine h.play ?_ hbrowser
    cases k with
    | message m => cases hk
    | _ => rfl
  | handler hbrowser => exact h.play rfl hbrowser

theorem parts_run {as : List (Action S C)} (h : Run (step cfg) (start node) as x) :
    Parts node x := by
  refine h.invariant (I := Parts node) (fun _ _ _ hparts h => hparts.step (step_cases h)) ?_
  exact ⟨⟨[], .nil _, List.prefix_rfl, rfl⟩, [], [], .nil _, rfl, List.nil_prefix, rfl⟩

/-! ### What the session sends -/

/-- A message of a session. -/
inductive Ours (cfg : Options) : Message S C → Prop
  | offer (sdp : S) : Ours cfg (.offer (cfg.offer sdp))
  | ice (candidate : C) : Ours cfg (.ice (some candidate))

/-- The session sends its own messages, and one offer among them. -/
structure Offers (cfg : Options) (x : State S C) : Prop where
  ours : ∀ m ∈ x.sent, Ours cfg m
  most : x.sent.countP Message.describes ≤ 1
  unsent : x.stage = .offering ∨ x.stage = .sending → x.sent.countP Message.describes = 0
  served : x.stage = .serving → x.sent.countP Message.describes = 1

theorem Offers.step (h : Offers cfg x) (hstep : Stepped cfg x x') : Offers cfg x' := by
  cases hstep with
  | @turn stage hstage =>
    refine ⟨h.ours, h.most, fun hunsent => h.unsent ?_, fun hserving => ?_⟩
    · rcases hstage with rfl | ⟨hoffering, -⟩
      · rcases hunsent with hunsent | hunsent <;> cases hunsent
      · exact Or.inl hoffering
    · rcases hstage with rfl | ⟨-, rfl⟩ <;> cases hserving
  -- the one offer there is
  | @offer sdp hstage =>
    have hone : (x.sent ++ [Message.offer (cfg.offer sdp)]).countP Message.describes = 1 := by
      rw [List.countP_append, h.unsent (Or.inr hstage)]
      rfl
    refine ⟨fun m hm => ?_, hone.le, fun hunsent => ?_, fun _ => hone⟩
    · rcases List.mem_append.mp hm with hm | hm
      · exact h.ours m hm
      · obtain rfl := List.mem_singleton.mp hm
        exact .offer sdp
    · rcases hunsent with hunsent | hunsent <;> cases hunsent
  -- a candidate describes nothing
  | @gather candidate =>
    have hsame : (x.sent ++ [Message.ice (some candidate)]).countP Message.describes
        = x.sent.countP Message.describes := List.countP_append
    refine ⟨fun m hm => ?_, hsame.trans_le h.most, fun hunsent => hsame.trans (h.unsent hunsent),
      fun hserving => hsame.trans (h.served hserving)⟩
    rcases List.mem_append.mp hm with hm | hm
    · exact h.ours m hm
    · obtain rfl := List.mem_singleton.mp hm
      exact .ice candidate
  | read | session | deliver | call | handler => exact ⟨h.ours, h.most, h.unsent, h.served⟩

theorem offers_run {as : List (Action S C)} (h : Run (step cfg) (start node) as x) :
    Offers cfg x := by
  refine h.invariant (I := Offers cfg) (fun _ _ _ hoffers h => hoffers.step (step_cases h)) ?_
  exact ⟨nofun, Nat.zero_le 1, fun _ => rfl, nofun⟩

/-! ### What the session applies -/

/-- One for each call of `HandleAnswer`. -/
def handled : RemoteIce.Thread C → ℕ
  | .answering | .draining | .feeding _ | .answered | .failed => 1
  | .adding _ | .passing _ | .added => 0

theorem handled_advance {s s' : RemoteIce.State C} {t t' : RemoteIce.Thread C} {ok : Bool}
    (h : RemoteIce.advance s t ok = some (s', t')) : handled t' = handled t := by
  cases RemoteIce.advance_cases h <;> rfl

theorem handled_of_applied {t : RemoteIce.Thread C} (h : t.Applied) : handled t = 1 := by
  cases t with
  | draining | feeding | answered => rfl
  | _ => exact h.elim

theorem called_eq {bs : List (Threads.Action (RemoteIce.Call C) Bool)} {sent : List (Sent C)}
    (hcalls : bs.filterMap Action.called = sent.filterMap serve) :
    RemoteIce.called bs = (sent.filterMap Sent.candidate : List C) := by
  rw [RemoteIce.called, hcalls]
  clear hcalls
  induction sent with
  | nil => rfl
  | cons m sent ih =>
    cases m with
    | ice candidate =>
      show {candidate} + ((sent.filterMap serve).map RemoteIce.Call.candidates).sum = _
      rw [ih]
      exact Multiset.singleton_add _ _
    | answer n =>
      show 0 + ((sent.filterMap serve).map RemoteIce.Call.candidates).sum = _
      rw [ih]
      exact zero_add _
    | offer n => exact ih

theorem handled_eq (sent : List (Sent C)) :
    ((sent.filterMap serve).map fun k => handled k.entry).sum = answers sent := by
  induction sent with
  | nil => rfl
  | cons m sent ih =>
    rw [← List.singleton_append, answers_append, ← ih]
    cases m with
    | answer n => rfl
    | ice candidate => rfl
    | offer n => exact (Nat.zero_add _).symm

theorem handled_run {bs : List (Threads.Action (RemoteIce.Call C) Bool)}
    {s : System (RemoteIce.State C) (RemoteIce.Thread C)}
    (h : Run RemoteIce.step RemoteIce.start bs s) : weight (fun _ => 0) handled s
      ≤ ((bs.filterMap Action.called).map fun k => handled k.entry).sum := by
  refine (Run.weight_le (fun _ _ _ _ _ h => ?_) h).trans_eq (Nat.zero_add _)
  exact (congrArg (0 + ·) (handled_advance h)).le

/-- An answer that has been applied has been sent. -/
theorem answers_of_remoteSet (h : Parts node x) (hset : x.session.shared.remoteSet = true) :
    answers x.browser.shared.sent ≠ 0 := by
  obtain ⟨bs, sent, hrun, hcalls, hprefix, -⟩ := h.session
  obtain ⟨t, ht, happlied⟩ := RemoteIce.applied_run hrun hset
  have hweight := handled_run hrun
  rw [hcalls, handled_eq] at hweight
  intro hzero
  have hnone : answers sent = 0 := Nat.eq_zero_of_le_zero (hzero ▸ answers_of_prefix hprefix)
  have hsum : (x.session.threads.map handled).sum = 0 := by
    simpa [weight, hnone] using hweight
  have hhandled := List.sum_eq_zero_iff_forall_eq_nat.mp hsum _ (List.mem_map_of_mem ht)
  rw [handled_of_applied happlied] at hhandled
  cases hhandled

/-! ### Candidates -/

/-- Everything sent has been delivered and handled. -/
structure AtRest (x : State S C) : Prop where
  serving : x.stage = .serving
  delivered : x.delivered = x.sent.length
  read : x.read = x.browser.shared.sent.length
  ended : ∀ t ∈ x.browser.threads, t.Ended
  returned : ∀ t ∈ x.session.threads, t.Returned

/-- What a session is left with. -/
structure Left (received : Multiset C) (s : RemoteIce.State C) : Prop where
  passed_eq : s.remoteSet = true → (s.passed : Multiset C) = received
  drained : s.remoteSet = true → s.pendingCandidates = []
  buffered : s.remoteSet = false → (s.pendingCandidates : Multiset C) = received
  untouched : s.remoteSet = false → s.passed = []

theorem left_of_returned {bs : List (Threads.Action (RemoteIce.Call C) Bool)}
    {s : System (RemoteIce.State C) (RemoteIce.Thread C)}
    (h : Run RemoteIce.step RemoteIce.start bs s) (hret : ∀ t ∈ s.threads, t.Returned) :
    Left (RemoteIce.called bs) s.shared := by
  obtain ⟨hsettled, hknows⟩ := RemoteIce.settled_run h
  have htokens := RemoteIce.called_run h
  rw [RemoteIce.tokens_of_returned hret] at htokens
  have hdrained : s.shared.remoteSet = true → s.shared.pendingCandidates = [] := by
    intro hset
    obtain ⟨t, ht, happlied⟩ := RemoteIce.applied_run h hset
    have hreturned := hret t ht
    have hknown := hknows t ht
    cases t with
    | answered => exact hsettled.pending_eq hknown
    | draining | feeding => exact hreturned.elim
    | _ => exact happlied.elim
  refine ⟨fun hset => ?_, hdrained, fun hnone => ?_, hsettled.passed_eq⟩
  · rwa [hdrained hset, Multiset.coe_nil, zero_add] at htokens
  · rwa [hsettled.passed_eq hnone, Multiset.coe_nil, add_zero] at htokens

variable {as : List (Action S C)} {offerer bundle : Bool} {frameSize : ℕ}
  {bitrates : Option (List ℤ)}

theorem descriptions_le_one {bas : List (Threads.Action (Call S C) Bool)}
    (h : Run (step cfg) (start node) as x) (hmessages : messages bas <+: x.sent) :
    descriptions bas ≤ 1 := by
  rw [descriptions_eq]
  exact hmessages.sublist.countP_le.trans (offers_run h).most

theorem concluded_of_rest (hnode : Fresh node) (h : Run (step cfg) (start node) as x)
    (hrest : AtRest x) (hlive : x.browser.shared.destroyed = false) :
    Concluded (x.sent.filterMap Message.candidate : List C) x.browser.shared ∧
      Left (x.browser.shared.sent.filterMap Sent.candidate : List C) x.session.shared := by
  obtain ⟨⟨bas, hbrowser, hmessages, hdelivered⟩, bs, sent, hsession, hcalls, hsent, hread⟩ :=
    parts_run h
  constructor
  · have hall : messages bas = x.sent := hmessages.eq_of_length (hdelivered.trans hrest.delivered)
    have hconcluded := concluded_of_ended hnode (descriptions_le_one h hmessages) hbrowser hlive
      hrest.ended
    rwa [received_eq, hall] at hconcluded
  · have hall : sent = x.browser.shared.sent := hsent.eq_of_length (hread.trans hrest.read)
    have hleft := left_of_returned hsession hrest.returned
    rwa [called_eq hcalls, hall] at hleft

/-- **The candidates are exchanged.**  In every interleaving of the session and the
browser, each side passes only candidates the other has sent, and none twice; the
session applies at most one answer, and only to an offer the browser has applied; and
when all that has been sent is handled, each side has passed all candidates of the
other if it has applied the other's description, and has them all buffered if not. -/
theorem candidates_exchanged
    (h : Run (step cfg) (start (Node.new offerer bundle frameSize bitrates)) as x) :
    ((x.browser.shared.passed : Multiset C) ≤ (x.sent.filterMap Message.candidate : List C) ∧
      (x.session.shared.passed : Multiset C)
        ≤ (x.browser.shared.sent.filterMap Sent.candidate : List C)) ∧
    answers x.browser.shared.sent ≤ 1 ∧
    (x.session.shared.remoteSet = true → x.browser.shared.described = true) ∧
    (AtRest x → x.browser.shared.destroyed = false →
      Concluded (x.sent.filterMap Message.candidate : List C) x.browser.shared ∧
        Left (x.browser.shared.sent.filterMap Sent.candidate : List C) x.session.shared) := by
  have hnode : Fresh (Node.new offerer bundle frameSize bitrates : Node S C) := fresh_new _ _ _ _
  have hparts := parts_run h
  obtain ⟨bas, hbrowser, hmessages, -⟩ := hparts.browser
  obtain ⟨bs, sent, hsession, hcalls, hsent, -⟩ := hparts.session
  have hone := descriptions_le_one h hmessages
  refine ⟨⟨?_, ?_⟩, ?_, fun hset => ?_, concluded_of_rest hnode h⟩
  -- the browser passes on what it received, and that is part of what was sent
  · refine (passed_le_received hnode hone hbrowser).trans ?_
    rw [received_eq]
    exact (hmessages.sublist.filterMap _).subperm
  -- and the session likewise
  · have htokens := RemoteIce.called_run hsession
    rw [called_eq hcalls] at htokens
    refine le_trans ?_ (htokens.trans_le (hsent.sublist.filterMap _).subperm)
    exact (Multiset.le_add_left _ _).trans (Multiset.le_add_right _ _)
  · exact (answers_le_descriptions hnode hbrowser).trans hone
  · exact described_of_answers hnode hbrowser (answers_of_remoteSet hparts hset)

/-- A candidate before the offer and one after the answer, and the browser's own while
it makes the answer. -/
def crossing : List (Action ℕ ℕ) :=
  [.setLocalDescription true, .gathered 7, .sendOffer 0 true,
    .call .initWebRTC, .handler 0 true, .handler 0 true, .deliver, .handler 1 true,
    .deliver, .handler 2 true, .handler 2 true, .handler 2 true, .handler 2 true,
    .handler 2 true, .call (.iceCandidate 8), .handler 3 true, .read, .session 0 true,
    .handler 2 true, .read, .session 1 true, .session 1 true, .session 1 true, .session 1 true,
    .gathered 9, .deliver, .handler 4 true, .handler 4 true]

theorem candidates_exchanged_crossing :
    ∃ x, Run (step ⟨480, true, .balanced⟩) (start (Node.new false true 960 none)) crossing x ∧
      x.browser.shared.passed = [7, 9] ∧
      (x.browser.shared.passed : Multiset ℕ) ≤ (x.sent.filterMap Message.candidate : List ℕ) := by
  obtain ⟨x, hx, hend⟩ := (Option.any_eq_true _ _).mp (by decide +kernel :
    (exec (step ⟨480, true, .balanced⟩) (start (Node.new false true 960 none)) crossing).any
      (fun x => x.browser.shared.passed = [7, 9]) = true)
  exact ⟨x, .of_exec hx, of_decide_eq_true hend, (candidates_exchanged (.of_exec hx)).1.1⟩

end AmbiRTC.Handshake
