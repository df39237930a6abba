/-
AmbiRTC/HandshakeOutcome.lean

What a connection set-up leads to.  A browser that has applied the offer runs with the
session's settings: frame size, bitrates, and the packets of a frame.  And unless
something fails, the two sides come to an end with the answer applied, in whichever
order offer and PeerConnection arrive at the browser.

Main results: `settings_agree` (every run) and `answered_of_rest` (its end).
-/
import AmbiRTC.HandshakeSafety
import AmbiRTC.TxConservation

namespace AmbiRTC.Handshake

open Runs Threads Negotiation

variable {S C : Type} {cfg : Options} {s s' : Node S C} {t t' : Thread S C} {ok : Bool}

/-! ### Settings -/

/-- The browser has the settings of the offer. -/
structure Agrees (cfg : Options) (s : Node S C) : Prop where
  frameSize : s.sizes.frameSize = cfg.frameSize
  bitrates : s.bitrates = channelBitRates cfg.bitrateProfile
  layout : s.bundle = true → cfg.bundled = true →
    s.bundled = true ∧ s.txLayout = some (Client.planLayout cfg.frameSize)

/-- Settings come with an offer, and are there before it is applied. -/
structure Ready (cfg : Options) (s : Node S C) : Prop where
  described : s.described = true → Agrees cfg s
  pending : s.pendingOffer.isSome → Agrees cfg s
  connected : s.connected = true → s.described = true
  bundled : s.bundled = true → s.bundle = true ∧ cfg.bundled = true

/-- What a handler relies on. -/
def Fits (cfg : Options) (s : Node S C) : Thread S C → Prop
  | .handling m => Ours cfg m
  | .settingOffer _ => Agrees cfg s
  | .settingAnswer => False
  | .opening | .stateChanging true => s.described = true
  | _ => True

theorem length_channelBitRates (p : BitrateProfile) : (channelBitRates p).length = 16 := by
  cases p <;> rfl

/-- A browser takes the rates of an offer as they are. -/
theorem bitrates_applyBitrates (s : Node S C) (p : BitrateProfile) :
    (s.applyBitrates (some (channelBitRates p))).bitrates = channelBitRates p := by
  cases p <;> rfl

theorem matchBitrates_offered (s : Node S C) (p : BitrateProfile) :
    s.matchBitrates (some (channelBitRates p)) = s.applyBitrates (some (channelBitRates p)) := by
  unfold Node.matchBitrates
  exact if_pos (length_channelBitRates p)

theorem frameSize_of_set {p p' : Prebuffer.Node} {connected : Bool} {n : ℕ}
    (h : p.setFrameSize connected n = some p') (hsame : connected = true → p.frameSize = n) :
    p'.frameSize = n := by
  unfold Prebuffer.Node.setFrameSize at h
  split at h
  · cases h
  split at h
  · obtain rfl := Option.some.inj h
    exact hsame ‹_›
  · obtain rfl := Option.some.inj h
    rfl

/-- **An offer brings its settings with it.** -/
theorem agrees_of_accepted {sdp : S} (hsize : 0 < cfg.frameSize) (hs : Ready cfg s)
    (h : acceptOffer s (cfg.offer sdp) = some s') :
    Agrees cfg s' ∧ (s'.bundled = true → s'.bundle = true ∧ cfg.bundled = true) := by
  obtain ⟨s₁, hs₁, rfl⟩ := Option.map_eq_some_iff.mp h
  obtain ⟨sizes, hsizes, rfl⟩ : ∃ sizes,
      s.sizes.setFrameSize s.connected cfg.frameSize = some sizes ∧ s₁ = { s with sizes } := by
    have hne : (cfg.frameSize : ℤ) ≠ 0 := by omega
    simp only [Options.offer, Node.alignFrameSize, if_neg hne, Int.toNat_natCast] at hs₁
    obtain ⟨sizes, hsizes, rfl⟩ := Option.map_eq_some_iff.mp hs₁
    exact ⟨sizes, hsizes, rfl⟩
  have hframe : sizes.frameSize = cfg.frameSize :=
    frameSize_of_set hsizes fun hconnected => (hs.described (hs.connected hconnected)).frameSize
  simp only [Options.offer, matchBitrates_offered]
  have hrates := bitrates_applyBitrates ({ s with sizes } : Node S C) cfg.bitrateProfile
  unfold Node.matchPacking
  split
  · rename_i hboth
    refine ⟨⟨hframe, hrates, fun _ _ => ⟨rfl, ?_⟩⟩, fun _ => ?_⟩
    · exact congrArg (fun n => some (Client.planLayout n)) hframe
    · exact (Bool.and_eq_true _ _).mp hboth
  · rename_i hnot
    refine ⟨⟨hframe, hrates, fun hbundle hbundled => ?_⟩, hs.bundled⟩
    exact absurd ((Bool.and_eq_true _ _).mpr ⟨hbundle, hbundled⟩) hnot

/-- No setting has changed. -/
structure SameSettings (s s' : Node S C) : Prop where
  bundle : s'.bundle = s.bundle
  sizes : s'.sizes = s.sizes
  bitrates : s'.bitrates = s.bitrates
  bundled : s'.bundled = s.bundled
  txLayout : s'.txLayout = s.txLayout

theorem settings_of_setup (h : SameSetup s s') : SameSettings s s' :=
  ⟨h.bundle, h.sizes, h.bitrates, h.bundled, h.txLayout⟩

theorem Agrees.same (h : Agrees cfg s) (hsame : SameSettings s s') : Agrees cfg s' := by
  obtain ⟨hframe, hbitrates, hlayout⟩ := h
  rw [← hsame.sizes] at hframe
  rw [← hsame.bitrates] at hbitrates
  rw [← hsame.bundle, ← hsame.bundled, ← hsame.txLayout] at hlayout
  exact ⟨hframe, hbitrates, hlayout⟩

/-- A step that leaves the settings alone, and claims nothing new. -/
theorem Ready.same (h : Ready cfg s) (hsame : SameSettings s s')
    (hdescribed : s'.described = s.described)
    (hpending : s'.pendingOffer.isSome → s.pendingOffer.isSome)
    (hconnected : s'.connected = true → s.connected = true) : Ready cfg s' := by
  refine ⟨fun hset => ?_, fun hsome => ?_, fun hopen => ?_, fun hbundled => ?_⟩
  · exact (h.described (hdescribed ▸ hset)).same hsame
  · exact (h.pending (hpending hsome)).same hsame
  · exact hdescribed.trans (h.connected (hconnected hopen))
  · rw [hsame.bundle]
    exact h.bundled (hsame.bundled ▸ hbundled)

theorem Ready.setup (h : Ready cfg s) (hsame : SameSetup s s') : Ready cfg s' :=
  h.same (settings_of_setup hsame) hsame.described (fun hsome => hsame.pendingOffer ▸ hsome)
    fun hopen => hsame.connected ▸ hopen

theorem fits_of_aside (h : t.Aside) (ht : ¬t.Handles) : Fits cfg s t := by
  cases t with
  | handling m => exact absurd trivial ht
  | settingOffer _ | settingAnswer | opening | stateChanging _ => exact h.elim
  | _ => trivial

theorem fits_of_follows (h : t.Follows) : Fits cfg s t := by
  cases t with
  | draining _ | feeding _ _ | creatingAnswer | settingLocalAnswer => trivial
  | _ => exact h.elim

/-- Trying to start changes no settings. -/
theorem Ready.started (h : Ready cfg s) (hstart : Started s s' t') :
    Ready cfg s' ∧ Fits cfg s' t' ∧ (Agrees cfg s → Agrees cfg s') := by
  cases hstart with
  | nothing => exact ⟨h, trivial, id⟩
  | offers =>
    have hsame : SameSettings s { s with offerSent := true } := ⟨rfl, rfl, rfl, rfl, rfl⟩
    exact ⟨h.same hsame rfl id id, trivial, fun hagrees => hagrees.same hsame⟩
  | answers _ hsdp =>
    have hsame : SameSettings s { s with pendingOffer := none } := ⟨rfl, rfl, rfl, rfl, rfl⟩
    have hagrees : Agrees cfg s := h.pending (by rw [hsdp]; rfl)
    exact ⟨h.same hsame rfl nofun id, hagrees.same hsame, fun _ => hagrees.same hsame⟩

/-- **One step of a handler** keeps the settings ready. -/
theorem Ready.next (hsize : 0 < cfg.frameSize) (hs : Ready cfg s) (ht : Fits cfg s t)
    (h : Negotiated s t s' t') :
    Ready cfg s' ∧ Fits cfg s' t' ∧ (Agrees cfg s → Agrees cfg s') := by
  cases h with
  | aside hsame _ ht' hnew =>
    exact ⟨hs.setup hsame, fits_of_aside ht' hnew, fun h => h.same (settings_of_setup hsame)⟩
  | onward hsame _ ht' =>
    exact ⟨hs.setup hsame, fits_of_follows ht', fun h => h.same (settings_of_setup hsame)⟩
  | gaveUp | ignored => exact ⟨hs, trivial, id⟩
  -- the offer is the one of the other end, so it brings that end's settings
  | @accepted offer s₁ _ _ haccept hstart =>
    cases ht with
    | offer sdp =>
      have hsame := accepted_of_some haccept
      obtain ⟨hagrees, hbundled⟩ := agrees_of_accepted hsize hs haccept
      have hs₁ : Ready cfg s₁ := by
        refine ⟨fun _ => hagrees, fun _ => hagrees, fun hopen => ?_, hbundled⟩
        rw [hsame.described]
        exact hs.connected (hsame.connected ▸ hopen)
      obtain ⟨hs', ht', hkeep⟩ := hs₁.started hstart
      exact ⟨hs', ht', fun _ => hkeep hagrees⟩
  | tried hsame _ hstart =>
    obtain ⟨hs', ht', hkeep⟩ := (hs.setup hsame).started hstart
    exact ⟨hs', ht', fun h => hkeep (h.same (settings_of_setup hsame))⟩
  | read => cases ht
  -- from here on the settings stay as they are
  | made =>
    have hsame : SameSettings s { s with pc := some false } := ⟨rfl, rfl, rfl, rfl, rfl⟩
    exact ⟨hs.same hsame rfl id id, trivial, fun h => h.same hsame⟩
  | applied =>
    have hsame : SameSettings s { s with pc := some true, described := true } :=
      ⟨rfl, rfl, rfl, rfl, rfl⟩
    have hagrees := Agrees.same ht hsame
    exact ⟨⟨fun _ => hagrees, fun _ => hagrees, fun _ => rfl, hs.bundled⟩, trivial,
      fun _ => hagrees⟩
  | concluded => exact ht.elim
  | answered | sends =>
    have hsame : ∀ sent, SameSettings s { s with sent } := fun _ => ⟨rfl, rfl, rfl, rfl, rfl⟩
    exact ⟨hs.same (hsame _) rfl id id, trivial, fun h => h.same (hsame _)⟩
  -- the channel opens only once a description has been applied
  | @connects _ up hup =>
    have hsame : SameSettings s { s with connected := up } := ⟨rfl, rfl, rfl, rfl, rfl⟩
    have hopen : up = true → s.described = true := by
      rintro rfl
      rcases hup with ⟨rfl, -⟩ | rfl <;> exact ht
    exact ⟨⟨fun h => (hs.described h).same hsame, fun h => (hs.pending h).same hsame, hopen,
      hs.bundled⟩, trivial, fun h => h.same hsame⟩
  | destroyed =>
    exact ⟨hs.same ⟨rfl, rfl, rfl, rfl, rfl⟩ rfl id nofun, trivial,
      fun h => h.same ⟨rfl, rfl, rfl, rfl, rfl⟩⟩

theorem Fits.mono {u : Thread S C} (h : Fits cfg s u) (hagrees : Agrees cfg s → Agrees cfg s')
    (hdescribed : s.described = true → s'.described = true) : Fits cfg s' u := by
  cases u with
  | settingOffer _ => exact hagrees h
  | opening => exact hdescribed h
  | stateChanging up =>
    cases up with
    | true => exact hdescribed h
    | false => trivial
  | handling _ | settingAnswer => exact h
  | _ => trivial

/-! ### Runs -/

/-- Settings and handlers of the browser. -/
def Configured (cfg : Options) (x : State S C) : Prop :=
  Ready cfg x.browser.shared ∧ ∀ t ∈ x.browser.threads, Fits cfg x.browser.shared t

variable {x x' : State S C} {as : List (Action S C)} {offerer bundle : Bool} {frameSize : ℕ}
  {bitrates : Option (List ℤ)}

theorem Configured.step (hsize : 0 < cfg.frameSize) (hs : Configured cfg x) (hours : Offers cfg x)
    (h : Stepped cfg x x') : Configured cfg x' := by
  -- the browser's steps, given that what is called fits
  have hplay : ∀ {a browser}, Negotiation.step x.browser a = some browser →
      (∀ k, a = .call k → Fits cfg x.browser.shared k.entry) →
      Ready cfg browser.shared ∧ ∀ t ∈ browser.threads, Fits cfg browser.shared t := by
    intro a browser hstep hcall
    refine modular_step (fun s t ok s' t' hs ht hadv => ?_) hstep hcall hs
    obtain ⟨hs', ht', hagrees⟩ := hs.next hsize ht (advance_negotiated hadv)
    exact ⟨hs', ht', fun u hu => hu.mono hagrees (advance_cases hadv).described_mono⟩
  cases h with
  | turn | offer | gather | read | session => exact hs
  | @deliver m browser hm hbrowser =>
    refine hplay hbrowser fun k hk => ?_
    cases hk
    exact hours.ours m (List.mem_of_getElem? hm)
  | @call k browser hk hbrowser =>
    refine hplay hbrowser fun k' hk' => ?_
    cases hk'
    cases k with
    | message m => cases hk
    | opened => exact hk
    | connectionState up =>
      cases up with
      | true => exact hk
      | false => trivial
    | _ => trivial
  | handler hbrowser => exact hplay hbrowser nofun

theorem configured_run (hsize : 0 < cfg.frameSize)
    (h : Run (step cfg) (start (Node.new offerer bundle frameSize bitrates)) as x) :
    Configured cfg x := by
  refine (h.invariant (I := fun x => Offers cfg x ∧ Configured cfg x) ?_
    ⟨offers_run (.nil _), ?_⟩).2
  · rintro x a x' ⟨hoffers, hconfigured⟩ hstep
    exact ⟨hoffers.step (step_cases hstep), hconfigured.step hsize hoffers (step_cases hstep)⟩
  · exact ⟨⟨nofun, nofun, nofun, nofun⟩, nofun⟩

/-- **The settings agree.**  In every interleaving, a browser that has applied the offer,
or whose DataChannel is open, has the session's frame size and bitrates, bundles if it
can and the session does, and then packs a frame as the session would. -/
theorem settings_agree (hsize : 0 < cfg.frameSize)
    (h : Run (step cfg) (start (Node.new offerer bundle frameSize bitrates)) as x) :
    x.browser.shared.described = true ∨ x.browser.shared.connected = true →
      x.browser.shared.sizes.frameSize = cfg.frameSize ∧
      x.browser.shared.bitrates = channelBitRates cfg.bitrateProfile ∧
      x.browser.shared.bundled = (x.browser.shared.bundle && cfg.bundled) ∧
      (x.browser.shared.bundled = true → x.browser.shared.txLayout
        = some ((AmbiRTC.planLayout cfg.frameSize).map (List.map UInt8.toNat))) := by
  intro hup
  obtain ⟨hready, -⟩ := configured_run hsize h
  have hdescribed : x.browser.shared.described = true := hup.elim id hready.connected
  obtain ⟨hframe, hrates, hlayout⟩ := hready.described hdescribed
  refine ⟨hframe, hrates, Bool.eq_iff_iff.mpr ⟨fun hbundled => ?_, fun hboth => ?_⟩,
    fun hbundled => ?_⟩
  · exact (Bool.and_eq_true _ _).mpr (hready.bundled hbundled)
  · obtain ⟨hbundle, hcfg⟩ := (Bool.and_eq_true _ _).mp hboth
    exact (hlayout hbundle hcfg).1
  · obtain ⟨hbundle, hcfg⟩ := hready.bundled hbundled
    rw [(hlayout hbundle hcfg).2, Client.planLayout_eq]

theorem settings_agree_crossing :
    ∃ x, Run (step ⟨480, true, .balanced⟩) (start (Node.new false true 960 none)) crossing x ∧
      x.browser.shared.sizes.frameSize = 480 := by
  obtain ⟨x, hx, hend⟩ := (Option.any_eq_true _ _).mp (by decide +kernel :
    (exec (step ⟨480, true, .balanced⟩) (start (Node.new false true 960 none)) crossing).any
      (fun x => x.browser.shared.described) = true)
  exact ⟨x, .of_exec hx, (settings_agree (by decide) (.of_exec hx) (.inl hend)).1⟩

/-! ### The end -/

theorem answer_mem_of_answers {sent : List (Sent C)} (h : answers sent ≠ 0) :
    ∃ n, .answer n ∈ sent := by
  obtain ⟨m, hm⟩ := List.exists_mem_of_length_pos (Nat.pos_of_ne_zero h)
  obtain ⟨hmem, hanswer⟩ := List.mem_filter.mp hm
  cases m with
  | answer n => exact ⟨n, hmem⟩
  | _ => cases hanswer

/-- A session that has been called with an answer has applied it, if nothing fails. -/
theorem remoteSet_of_called {bs : List (Threads.Action (RemoteIce.Call C) Bool)}
    {s : System (RemoteIce.State C) (RemoteIce.Thread C)}
    (h : Run RemoteIce.step RemoteIce.start bs s) (hret : ∀ t ∈ s.threads, t.Returned)
    (hfine : .failed ∉ s.threads) (hcalled : .handleAnswer ∈ bs.filterMap Action.called) :
    s.shared.remoteSet = true := by
  have hpresent : False ∨ ∃ t ∈ s.threads, handled t = 1 := by
    refine Run.present_of_called (H := fun _ => False) (Q := fun t => handled t = 1)
      (fun _ _ _ _ _ hadv hs => ?_) h rfl hcalled
    exact hs.imp_right (handled_advance hadv).trans
  obtain ⟨t, ht, hhandled⟩ := hpresent.resolve_left id
  obtain ⟨hsettled, hknows⟩ := RemoteIce.settled_run h
  have hreturned := hret t ht
  have hknown := hknows t ht
  cases t with
  | answered => exact hsettled.remoteSet hknown
  | failed => exact absurd ht hfine
  | answering | draining | feeding => exact hreturned.elim
  | adding | passing | added => cases hhandled

/-- A browser that has received the offer has answered it, if nothing fails. -/
theorem answers_of_received {bas : List (Threads.Action (Call S C) Bool)} {node : Node S C}
    {y : System (Node S C) (Thread S C)} (hnode : Fresh node) (hrole : node.offerer = false)
    (h : Run Negotiation.step (Negotiation.start node) bas y)
    (hours : ∀ m ∈ messages bas, Ours cfg m) {sdp : S}
    (hoffer : .offer (cfg.offer sdp) ∈ messages bas) (hended : ∀ t ∈ y.threads, t.Ended)
    (hfine : .failed ∉ y.threads) (hpc : y.shared.pc.isSome) : answers y.shared.sent ≠ 0 := by
  have hsdp : ∀ offer, .offer offer ∈ messages bas → offer.sdp.isSome := by
    intro offer hmem
    cases hours _ hmem
    rfl
  -- the offer is pending, answered, or with a handler, and at the end no handler is running
  rcases held_of_received h hsdp hoffer with hheld | ⟨t, ht, howes⟩
  · rcases hheld with hpending | hanswers | hgone | hofferer
    -- a pending offer would have somebody to take it up
    · obtain ⟨t, ht, hstarts⟩ :=
        starting_of_ripe hnode h ⟨(offerer_run h).trans hrole, hpc, hpending⟩
      have hend := hended t ht
      cases t with
      | starting => exact hend.elim
      | _ => exact hstarts.elim
    · exact hanswers
    · rw [((settled_run hnode h).1.gone hgone).1] at hpc
      cases hpc
    · exact nomatch hofferer.symm.trans ((offerer_run h).trans hrole)
  · have hend := hended t ht
    cases t with
    | finished => exact howes.elim
    | failed => exact absurd ht hfine
    | _ => exact hend.elim

/-- **The set-up comes to its end.**  When all that has been sent is handled, nothing
has failed and an answering browser has its PeerConnection, then both sides have
applied the other's description and passed all of the other's candidates. -/
theorem answered_of_rest
    (h : Run (step cfg) (start (Node.new false bundle frameSize bitrates)) as x)
    (hrest : AtRest x) (hpc : x.browser.shared.pc.isSome)
    (hbrowser : .failed ∉ x.browser.threads) (hsession : .failed ∉ x.session.threads) :
    (x.browser.shared.described = true ∧ x.session.shared.remoteSet = true) ∧
    (x.browser.shared.passed : Multiset C) = (x.sent.filterMap Message.candidate : List C) ∧
    (x.session.shared.passed : Multiset C)
      = (x.browser.shared.sent.filterMap Sent.candidate : List C) := by
  have hnode : Fresh (Node.new false bundle frameSize bitrates : Node S C) := fresh_new _ _ _ _
  obtain ⟨⟨bas, hplay, hmessages, hdelivered⟩, bs, sent, hserve, hcalls, hsent, hread⟩ :=
    parts_run h
  have hoffers := offers_run h
  have hall : messages bas = x.sent := hmessages.eq_of_length (hdelivered.trans hrest.delivered)
  have hread' : sent = x.browser.shared.sent := hsent.eq_of_length (hread.trans hrest.read)
  -- one offer has been sent, and at rest it has been delivered
  obtain ⟨sdp, hoffer⟩ : ∃ sdp, .offer (cfg.offer sdp) ∈ messages bas := by
    have hpos : 0 < x.sent.countP Message.describes := by
      rw [hoffers.served hrest.serving]
      exact Nat.one_pos
    obtain ⟨m, hm, hdescribes⟩ := List.countP_pos_iff.mp hpos
    cases hoffers.ours m hm with
    | offer sdp => exact ⟨sdp, hall ▸ hm⟩
    | ice candidate => cases hdescribes
  have hanswers := answers_of_received hnode rfl hplay (hall ▸ hoffers.ours) hoffer hrest.ended
    hbrowser hpc
  have hdescribed := described_of_answers hnode hplay hanswers
  -- the answer has come back, and no handler of the session failed
  have hset : x.session.shared.remoteSet = true := by
    obtain ⟨n, hn⟩ := answer_mem_of_answers hanswers
    refine remoteSet_of_called hserve hrest.returned hsession ?_
    rw [hcalls, hread']
    exact List.mem_filterMap.mpr ⟨_, hn, rfl⟩
  have hlive : x.browser.shared.destroyed = false := by
    by_contra hgone
    rw [((settled_run hnode hplay).1.gone (by simpa using hgone)).1] at hpc
    cases hpc
  obtain ⟨hconcluded, hleft⟩ := concluded_of_rest hnode h hrest hlive
  exact ⟨⟨hdescribed, hset⟩, hconcluded.passed_eq hdescribed, hleft.passed_eq hset⟩

theorem answered_of_rest_crossing :
    ∃ x, Run (step ⟨480, true, .balanced⟩) (start (Node.new false true 960 none)) crossing x ∧
      (x.session.shared.passed : Multiset ℕ) = {8} := by
  obtain ⟨x, hx, hend⟩ := (Option.any_eq_true _ _).mp (by decide +kernel :
    (exec (step ⟨480, true, .balanced⟩) (start (Node.new false true 960 none)) crossing).any
      (fun x => decide (x.stage = .serving ∧ x.delivered = x.sent.length ∧
          x.read = x.browser.shared.sent.length ∧ x.browser.shared.pc.isSome ∧
          x.browser.shared.sent.filterMap Sent.candidate = [8])
        && x.browser.threads.all (fun
          | .finished => true
          | _ => false)
        && x.session.threads.all (fun
          | .added | .answered => true
          | _ => false)) = true)
  rw [Bool.and_eq_true, Bool.and_eq_true, List.all_eq_true, List.all_eq_true] at hend
  obtain ⟨⟨hstate, hbrowser⟩, hsession⟩ := hend
  obtain ⟨hserving, hdelivered, hread, hpc, hcandidates⟩ := of_decide_eq_true hstate
  have hended : ∀ t ∈ x.browser.threads, t.Ended := by
    intro t ht
    have hfinished := hbrowser t ht
    split at hfinished
    · trivial
    · cases hfinished
  have hreturned : ∀ t ∈ x.session.threads, t.Returned := by
    intro t ht
    have hfinished := hsession t ht
    split at hfinished
    · trivial
    · trivial
    · cases hfinished
  refine ⟨x, .of_exec hx, ?_⟩
  rw [(answered_of_rest (.of_exec hx) ⟨hserving, hdelivered, hread, hended, hreturned⟩ hpc
    (fun hfailed => (nomatch hbrowser _ hfailed)) fun hfailed => (nomatch hsession _ hfailed)).2.2,
    hcandidates]
  rfl

end AmbiRTC.Handshake
