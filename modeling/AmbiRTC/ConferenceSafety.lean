/-
AmbiRTC/ConferenceSafety.lean

Everybody hears everybody else.  What the decoders of a browser are given was
encoded from a mix of some tick, and that mix is the sum of the frames of the
other members, each read for that tick from the member's own session, whose decoders
had been given what the member's browser had encoded.  And what a browser records
was mixed while some member recorded.

Main result: `delivered_of_run`, for any number of clients coming and going, any
network and any interleaving.
-/
import AmbiRTC.Conference

namespace AmbiRTC.Conference

open Runs

variable {D α : Type} {F K : ℕ}

/-! ### What is delivered -/

/-- What the clock reads next is the frame of `m`, as member `k` of tick `n`. -/
structure State.Reads (s : State D α F K) (n k : ℕ) (m : Participant 16 F) : Prop where
  tick : s.log.length = n
  place : ∃ todo members, s.phase = .reading (m.id :: todo) members ∧ members.length = k
  frame : ∃ p, (s.peers m.id).readInputFrame (s.clock.inbufs.getD k (makeFrame 16 F))
    = some (p, m.input, m.ready)

/-- Member `k` of tick `n` as the tick has seen it in the course of the run `as`: its frame
was read from its own session, which had been given what its browser had encoded by then,
and it counts as recording only if its browser was. -/
structure Seen (cfg : Setup D α F) (as : List (Action α F K)) (peers : String → Peer D α F K)
    (n k : ℕ) (m : Participant 16 F) : Prop where
  source : ∃ as₁ as₂ s, as = as₁ ++ .read :: as₂ ∧ Run (step cfg) (start cfg) as₁ s ∧
    s.Reads n k m ∧ Ingress.Intact cfg.decode (s.peers m.id).outs cfg.decoder (s.peers m.id).ingress
  recording : m.isRecording = true → ∃ o ∈ (peers m.id).outs, o.isRec = true

/-- Every member of tick `n` has been seen. -/
def AllSeen (cfg : Setup D α F) (as : List (Action α F K)) (peers : String → Peer D α F K)
    (n : ℕ) (members : List (Participant 16 F)) : Prop :=
  ∀ k m, members[k]? = some m → Seen cfg as peers n k m

/-- `x` is what a tick has mixed for the client `id`: the sum of all members but one,
which is `id`. -/
def Mixes (log : List (Mixed F)) (id : String) (x : Pipeline.Submission (Vector Int16 F)) : Prop :=
  ∃ mixed ∈ log, ∃ (k : ℕ) (h : k < mixed.members.length), mixed.members[k].id = id ∧
    x.frameTs = mixed.mixTs ∧ x.isRec = mixed.members.any Participant.isRecording ∧
      ∀ (c : Fin 16) (t : Fin F),
        ((x.pcm c)[t]).toInt = clamp16 (othersSum mixed.members k c t)

/-- What a client hears and records after the run `as`. -/
structure Delivered (cfg : Setup D α F) (as : List (Action α F K)) (s : State D α F K)
    (id : String) : Prop where
  increasing : ∀ c, ((s.peers id).browser.receiver.submitted c).Pairwise fun a b =>
    a.frameTs < b.frameTs
  heard : ∀ (c : Fin 16), ∀ chunk ∈ (s.peers id).browser.receiver.submitted c,
    ∃ x, Mixes s.log id x ∧ chunk.frameTs = x.frameTs ∧
      ∃ u, ((s.peers id).pipeline.log u).encoded c = some (x.pcm c, some chunk.data)
  seen : ∀ n mixed, s.log[n]? = some mixed → AllSeen cfg as s.peers n mixed.members
  recorded : ∀ f ∈ (s.peers id).browser.receiver.rx.rxRecFrames, ∃ mixed ∈ s.log,
    f.ts = (mixed.mixTs.toNat : ℤ) ∧
      ∃ m ∈ mixed.members, ∃ o ∈ (s.peers m.id).outs, o.isRec = true

/-! ### The invariant -/

/-- What holds of a client. -/
structure Peer.Ok (cfg : Setup D α F) (log : List (Mixed F)) (id : String) (p : Peer D α F K) :
    Prop where
  sender : p.sender.Made p.outs
  ingress : Ingress.Sound cfg.decode p.outs cfg.decoder p.ingress
  pipeline : ∃ as, Run (Pipeline.step cfg.egress) (Pipeline.initial cfg.egress) as p.pipeline ∧
    ∀ x ∈ Pipeline.submissions as, Mixes log id x
  browser : ∃ es, Run (Downlink.step cfg.playback) (Downlink.start cfg.playback) es p.browser ∧
    ∀ buf ∈ Downlink.arrivals es,
      (∃ item ∈ p.pipeline.sent, item.buf = buf) ∧ buf.length < 2 ^ 32

/-- A frame that is still to be submitted, as `SubmitMix` is called with it. -/
def call (x : Submission 16 F) : Pipeline.Submission (Vector Int16 F) :=
  ⟨rows x.pcm, x.frameTs, x.isRec⟩

/-- What holds in the middle of a tick. -/
def Phase.Ok (cfg : Setup D α F) (as : List (Action α F K)) (peers : String → Peer D α F K)
    (log : List (Mixed F)) : Phase F → Prop
  | .waiting => True
  | .reading todo members =>
    todo.length + members.length ≤ 65536 ∧ AllSeen cfg as peers log.length members
  | .asking asked todo =>
    (asked ++ todo).length ≤ 65536 ∧ AllSeen cfg as peers log.length (asked ++ todo)
  | .submitting todo => ∀ x ∈ todo, Mixes log x.member (call x)
  | .inside _ todo => ∀ x ∈ todo, Mixes log x.member (call x)

/-- The invariant, after the run `as`. -/
structure State.Ok (cfg : Setup D α F) (as : List (Action α F K)) (s : State D α F K) : Prop where
  peers : ∀ id, (s.peers id).Ok cfg s.log id
  log : ∀ n mixed, s.log[n]? = some mixed → AllSeen cfg as s.peers n mixed.members
  phase : s.phase.Ok cfg as s.peers s.log

variable {cfg : Setup D α F} {s s' : State D α F K} {log log' : List (Mixed F)} {id : String}
  {peers peers' : String → Peer D α F K} {as : List (Action α F K)} {n : ℕ}
  {members : List (Participant 16 F)}

/-! ### What grows -/

theorem Mixes.mono {x : Pipeline.Submission (Vector Int16 F)} (h : Mixes log id x)
    (hsub : ∀ mixed ∈ log, mixed ∈ log') : Mixes log' id x := by
  obtain ⟨mixed, hin, hrest⟩ := h
  exact ⟨mixed, hsub mixed hin, hrest⟩

theorem Peer.Ok.mono {p : Peer D α F K} (h : p.Ok cfg log id)
    (hsub : ∀ mixed ∈ log, mixed ∈ log') : p.Ok cfg log' id := by
  obtain ⟨as, hrun, hmixes⟩ := h.pipeline
  exact { h with pipeline := ⟨as, hrun, fun x hx => (hmixes x hx).mono hsub⟩ }

theorem AllSeen.mono (h : AllSeen cfg as peers n members)
    (hsub : ∀ id, ∀ o ∈ (peers id).outs, o ∈ (peers' id).outs) :
    AllSeen cfg as peers' n members := fun k m hm =>
  ⟨(h k m hm).source,
    fun hrec => ((h k m hm).recording hrec).imp fun o ho => ⟨hsub m.id o ho.1, ho.2⟩⟩

theorem AllSeen.later (h : AllSeen cfg as peers n members) (a : Action α F K) :
    AllSeen cfg (as ++ [a]) peers n members := by
  intro k m hm
  obtain ⟨as₁, as₂, s, has, hrest⟩ := (h k m hm).source
  refine ⟨⟨as₁, as₂ ++ [a], s, ?_, hrest⟩, (h k m hm).recording⟩
  rw [has, List.append_assoc, List.cons_append]

theorem AllSeen.snoc {m : Participant 16 F} (h : AllSeen cfg as peers n members)
    (hm : Seen cfg as peers n members.length m) : AllSeen cfg as peers n (members ++ [m]) := by
  intro k m' hm'
  rcases Nat.lt_trichotomy k members.length with hk | rfl | hk
  · rw [List.getElem?_append_left hk] at hm'
    exact h k m' hm'
  · rw [List.getElem?_concat_length] at hm'
    obtain rfl := Option.some.inj hm'
    exact hm
  · rw [List.getElem?_eq_none (by simp; omega)] at hm'
    cases hm'

theorem Phase.Ok.mono {phase : Phase F} (h : phase.Ok cfg as peers log)
    (hsub : ∀ id, ∀ o ∈ (peers id).outs, o ∈ (peers' id).outs) : phase.Ok cfg as peers' log := by
  cases phase with
  | waiting => trivial
  | reading todo members => exact ⟨h.1, h.2.mono hsub⟩
  | asking asked todo => exact ⟨h.1, h.2.mono hsub⟩
  | submitting todo => exact h
  | inside id todo => exact h

/-- What has been seen stays so as the run goes on. -/
theorem State.Ok.later (h : s.Ok cfg as) (a : Action α F K) : s.Ok cfg (as ++ [a]) := by
  refine ⟨h.peers, fun n mixed hn => (h.log n mixed hn).later a, ?_⟩
  have hphase := h.phase
  cases hs : s.phase with
  | reading todo members =>
    rw [hs] at hphase
    exact ⟨hphase.1, hphase.2.later a⟩
  | asking asked todo =>
    rw [hs] at hphase
    exact ⟨hphase.1, hphase.2.later a⟩
  | waiting | submitting _ | inside _ _ =>
    rw [hs] at hphase
    exact hphase

/-- **A client takes a step.** -/
theorem State.Ok.set (h : s.Ok cfg as) {p : Peer D α F K} (hp : p.Ok cfg s.log id)
    (houts : ∀ o ∈ (s.peers id).outs, o ∈ p.outs) : (s.set id p).Ok cfg as := by
  have hsub : ∀ j, ∀ o ∈ (s.peers j).outs, o ∈ ((s.set id p).peers j).outs := by
    intro j o ho
    show o ∈ (Function.update s.peers id p j).outs
    by_cases hj : j = id
    · subst hj
      rw [Function.update_self]
      exact houts o ho
    · rw [Function.update_of_ne hj]
      exact ho
  refine ⟨fun j => ?_, fun n mixed hn => (h.log n mixed hn).mono hsub, h.phase.mono hsub⟩
  show (Function.update s.peers id p j).Ok cfg s.log j
  by_cases hj : j = id
  · subst hj
    rw [Function.update_self]
    exact hp
  · rw [Function.update_of_ne hj]
    exact h.peers j

/-! ### One step of a client -/

section

variable {p : Peer D α F K}

/-- The browser sends. -/
theorem Peer.Ok.send (h : p.Ok cfg log id) {a : Client.Sender.Action} {sender : Client.Sender}
    (hstep : p.sender.step a = some sender) :
    Peer.Ok cfg log id { p with sender, outs := p.outs ++ a.toOutput.toList } :=
  { h with
    sender := h.sender.step hstep
    ingress := h.ingress.mono fun _ => List.mem_append_left _ }

/-- The session takes something in. -/
theorem Peer.Ok.intake (h : p.Ok cfg log id) {a : Ingress.Action} (ha : p.Takes a)
    {ingress : Ingress.State D} (hstep : Ingress.step cfg.decode p.ingress a = some ingress) :
    Peer.Ok cfg log id { p with ingress } := by
  refine { h with ingress := h.ingress.step h.sender (fun data hdata => ?_) hstep }
  cases a with
  | message now data' =>
    obtain rfl := Option.some.inj hdata
    exact ha
  | push | receive | decode => cases hdata
  | read out => exact ha.elim

theorem sent_step {cfg : Pipeline.Config (Vector Int16 F)}
    {q q' : Pipeline.State (Vector Int16 F) K} {a : Pipeline.Action (Vector Int16 F) K}
    (h : Pipeline.step cfg q a = some q') : ∀ item ∈ q.sent, item ∈ q'.sent := by
  intro item hin
  cases Pipeline.step_cases h <;>
    first
    | exact hin
    | exact List.mem_append_left _ hin

/-- The pipeline takes a step; what is submitted has been mixed for the client. -/
theorem Peer.Ok.encode (h : p.Ok cfg log id) {a : Pipeline.Action (Vector Int16 F) K}
    (ha : ∀ x ∈ a.submission, Mixes log id x) {pipeline : Pipeline.State (Vector Int16 F) K}
    (hstep : Pipeline.step cfg.egress p.pipeline a = some pipeline) :
    Peer.Ok cfg log id { p with pipeline } := by
  obtain ⟨as, hrun, hmixes⟩ := h.pipeline
  obtain ⟨es, hplay, harrivals⟩ := h.browser
  refine { h with
    pipeline := ⟨as ++ [a], hrun.snoc hstep, fun x hx => ?_⟩
    browser := ⟨es, hplay, fun buf hbuf => ?_⟩ }
  · rw [Pipeline.submissions_snoc] at hx
    rcases List.mem_append.mp hx with hx | hx
    · exact hmixes x hx
    · exact ha x (Option.mem_toList.mp hx)
  · obtain ⟨⟨item, hitem, hbytes⟩, hlen⟩ := harrivals buf hbuf
    exact ⟨⟨item, sent_step hstep item hitem, hbytes⟩, hlen⟩

/-- The browser plays. -/
theorem Peer.Ok.play (h : p.Ok cfg log id) {e : Downlink.Action α} (he : p.Plays e)
    {browser : Downlink.State α} (hstep : Downlink.step cfg.playback p.browser e = some browser) :
    Peer.Ok cfg log id { p with browser } := by
  obtain ⟨es, hplay, harrivals⟩ := h.browser
  refine { h with browser := ⟨es ++ [e], hplay.snoc hstep, fun buf hbuf => ?_⟩ }
  rw [Downlink.arrivals, List.filterMap_append] at hbuf
  rcases List.mem_append.mp hbuf with hbuf | hbuf
  · exact harrivals buf hbuf
  · obtain ⟨e', he', harrival⟩ := List.mem_filterMap.mp hbuf
    obtain rfl := List.mem_singleton.mp he'
    obtain ⟨hsent, hlen⟩ := he buf harrival
    exact ⟨List.mem_map.mp hsent, hlen⟩

/-- The clock reads a frame of the client. -/
theorem Peer.Ok.read (h : p.Ok cfg log id) {buf : Frame Int16 16 F} {p' : Peer D α F K}
    {frame : Frame Int16 16 F} {ready : Bool}
    (hread : p.readInputFrame buf = some (p', frame, ready)) :
    p'.Ok cfg log id ∧ p'.outs = p.outs := by
  obtain ⟨⟨side, tick⟩, hside, heq⟩ := Option.map_eq_some_iff.mp hread
  obtain ⟨rfl, rest⟩ := Prod.mk.inj heq
  obtain ⟨rfl, rfl⟩ := Prod.mk.inj rest
  have hjb : side.jb.Sound := by
    obtain ⟨⟨jb, out, started, underrun⟩, hframe, hrest⟩ := Option.bind_eq_some_iff.mp hside
    have hcall : p.ingress.decode.jb.call (.read (slices buf)) = some jb := by
      show (p.ingress.decode.jb.readFrame (slices buf)).map Prod.fst = some jb
      rw [hframe]
      rfl
    have hsame : side.jb = jb := by
      simp only at hrest
      split at hrest
      · obtain ⟨rfl, -⟩ := Prod.mk.inj (Option.some.inj hrest)
        rfl
      · obtain ⟨r, -, hr⟩ := Option.bind_eq_some_iff.mp hrest
        obtain ⟨rfl, -⟩ := Prod.mk.inj (Option.some.inj hr)
        rfl
    rw [hsame]
    exact (h.ingress.jb.call hcall).1
  exact ⟨{ h with ingress := { h.ingress with jb := hjb } }, rfl⟩

end

/-! ### One step of a tick -/

/-- What a tick has mixed for the members of its roster. -/
theorem mixes_of_minusOne {members : List (Participant 16 F)} {mixTs : UInt32}
    {submitted : List (Submission 16 F)} (h : MinusOneMix members mixTs.toNat submitted)
    (hin : ⟨members, mixTs⟩ ∈ log) : ∀ x ∈ submitted, Mixes log x.member (call x) := by
  intro x hx
  obtain ⟨k, hk, rfl⟩ := List.getElem_of_mem hx
  have hk' : k < members.length := h.length_eq ▸ hk
  refine ⟨_, hin, k, hk', (h.member_eq k hk hk').symm, ?_, h.isRec_eq _ hx, fun c t => ?_⟩
  · exact UInt32.toNat_inj.mp (h.frameTs_eq _ hx)
  · have hrow : rows submitted[k].pcm c = submitted[k].pcm[c] := dif_pos c.isLt
    show ((rows submitted[k].pcm c)[t]).toInt = _
    rw [hrow]
    exact h.pcm_eq k hk c t

/-- Whoever records has been recording. -/
theorem AllSeen.asked {asked todo : List (Participant 16 F)} {m : Participant 16 F}
    (h : AllSeen cfg as peers n (asked ++ m :: todo)) {isRec : Bool}
    (hrec : isRec = true → ∃ o ∈ (peers m.id).outs, o.isRec = true) :
    AllSeen cfg as peers n (asked ++ { m with isRecording := isRec } :: todo) := by
  intro k m' hm'
  have hm := h asked.length m (by simp)
  by_cases hk : k = asked.length
  · subst hk
    rw [List.getElem?_append_right (Nat.le_refl _), Nat.sub_self] at hm'
    obtain rfl := Option.some.inj hm'
    -- the frame stays as it was read
    obtain ⟨as₁, as₂, s, has, hrun, hreads, hintact⟩ := hm.source
    exact ⟨⟨as₁, as₂, s, has, hrun, ⟨hreads.tick, hreads.place, hreads.frame⟩, hintact⟩, hrec⟩
  · refine h k m' ?_
    rw [← hm']
    rcases Nat.lt_or_ge k asked.length with hlt | hge
    · rw [List.getElem?_append_left hlt, List.getElem?_append_left hlt]
    · obtain ⟨i, hi⟩ : ∃ i, k - asked.length = i + 1 := ⟨k - asked.length - 1, by omega⟩
      rw [List.getElem?_append_right hge, List.getElem?_append_right hge, hi]
      rfl

/-- **A member is asked**, and when no more is to be asked the mix is made. -/
theorem State.Ok.ask (h : s.Ok cfg as) {asked todo : List (Participant 16 F)}
    {m : Participant 16 F} (hphase : s.phase = .asking asked (m :: todo)) {isRec : Bool}
    (hrec : isRec = true → ∃ o ∈ (s.peers m.id).outs, o.isRec = true)
    (hask : s.ask asked m todo isRec = some s') : s'.Ok cfg as := by
  have hasking := h.phase
  rw [hphase] at hasking
  obtain ⟨hlen, hseen⟩ := hasking
  have hall := hseen.asked hrec
  simp only [State.ask] at hask
  split at hask
  · have hsize : (asked ++ { m with isRecording := isRec } :: todo).length ≤ 65536 := by
      rw [List.length_append, List.length_cons] at hlen ⊢
      exact hlen
    obtain ⟨clock, submitted, htick, hmix, -⟩ := tick_minusOne s.clock hsize
    rw [htick] at hask
    obtain rfl := Option.some.inj hask
    refine ⟨fun id => (h.peers id).mono fun _ => List.mem_append_left _, fun n mixed hn => ?_,
      mixes_of_minusOne hmix (by simp)⟩
    rcases Nat.lt_trichotomy n s.log.length with hlt | rfl | hgt
    · exact h.log n mixed (by rwa [List.getElem?_append_left hlt] at hn)
    · -- the tick just mixed
      rw [List.getElem?_concat_length] at hn
      obtain rfl := Option.some.inj hn
      exact hall
    · rw [List.getElem?_eq_none (by simp; omega)] at hn
      cases hn
  · obtain rfl := Option.some.inj hask
    refine ⟨h.peers, h.log, ?_, ?_⟩
    · simp only [List.length_append, List.length_cons, List.length_nil] at hlen ⊢
      omega
    · simpa using hall

/-- A member is read. -/
theorem State.Ok.read (h : s.Ok cfg (as ++ [.read])) (hrun : Run (step cfg) (start cfg) as s)
    {todo : List String} {members : List (Participant 16 F)}
    (hphase : s.phase = .reading (id :: todo) members) {frame : Frame Int16 16 F}
    {p : Peer D α F K} {ready : Bool}
    (hread : (s.peers id).readInputFrame (s.clock.inbufs.getD members.length (makeFrame 16 F))
      = some (p, frame, ready)) :
    State.Ok cfg (as ++ [.read]) { s.set id p with
      phase := if todo = [] then .asking [] (members ++ [member id frame ready])
        else .reading todo (members ++ [member id frame ready]) } := by
  obtain ⟨hp, houts⟩ := (h.peers id).read hread
  have hset := h.set hp fun o ho => houts ▸ ho
  have hreading := hset.phase
  rw [show (s.set id p).phase = s.phase from rfl, hphase] at hreading
  obtain ⟨hlen, hseen⟩ := hreading
  have hall : AllSeen cfg (as ++ [.read]) (s.set id p).peers s.log.length
      (members ++ [member id frame ready]) :=
    hseen.snoc ⟨⟨as, [], s, rfl, hrun, ⟨rfl, ⟨todo, members, hphase, rfl⟩, ⟨p, hread⟩⟩,
      (h.peers id).ingress.intact⟩, fun hrec => by cases hrec⟩
  have hsize : todo.length + (members ++ [member id frame ready]).length ≤ 65536 := by
    rw [List.length_cons] at hlen
    rw [List.length_append, List.length_singleton]
    omega
  refine ⟨hset.peers, hset.log, ?_⟩
  show Phase.Ok cfg (as ++ [.read]) (s.set id p).peers s.log (if todo = [] then _ else _)
  split
  · exact ⟨(Nat.le_add_left _ _).trans hsize, hall⟩
  · exact ⟨hsize, hall⟩

/-- A mix is submitted. -/
theorem State.Ok.submit (h : s.Ok cfg as) {x : Submission 16 F} {todo : List (Submission 16 F)}
    (hphase : s.phase = .submitting (x :: todo)) {pooled : Option ℕ}
    {pipeline : Pipeline.State (Vector Int16 F) K}
    (hstep : Pipeline.step cfg.egress (s.peers x.member).pipeline
      (.submit (rows x.pcm) x.frameTs x.isRec pooled) = some pipeline) :
    State.Ok cfg as { s.set x.member { s.peers x.member with pipeline } with
      phase := .inside x.member todo } := by
  have hsubmitting := h.phase
  rw [hphase] at hsubmitting
  have hp := (h.peers x.member).encode (a := .submit (rows x.pcm) x.frameTs x.isRec pooled)
    (fun y hy => by
      obtain rfl := Option.some.inj hy
      exact hsubmitting x List.mem_cons_self) hstep
  have hset := h.set hp fun o ho => ho
  exact ⟨hset.peers, hset.log, fun y hy => hsubmitting y (List.mem_cons_of_mem x hy)⟩

/-- The rosters a server can have: `int32` holds the sum of 65536 frames. -/
def RosterFits : State D α F K → Action α F K → Prop
  | _, .tick roster => roster.length ≤ 65536
  | _, _ => True

/-- **Every step of a conference keeps the invariant.** -/
theorem State.Ok.step {a : Action α F K} (h : s.Ok cfg as) (hrun : Run (step cfg) (start cfg) as s)
    (ha : RosterFits s a) (hstep : step cfg s a = some s') : s'.Ok cfg (as ++ [a]) := by
  replace h := h.later a
  cases a with
  | send id a =>
    obtain ⟨sender, hsender, rfl⟩ := Option.map_eq_some_iff.mp hstep
    exact h.set ((h.peers id).send hsender) fun _ => List.mem_append_left _
  | intake id a =>
    obtain ⟨htakes, hstep⟩ := Option.ite_none_right_eq_some.mp hstep
    obtain ⟨ingress, hingress, rfl⟩ := Option.map_eq_some_iff.mp hstep
    exact h.set ((h.peers id).intake htakes hingress) fun _ ho => ho
  | encode id a =>
    obtain ⟨hquiet, hstep⟩ := Option.ite_none_right_eq_some.mp hstep
    obtain ⟨pipeline, hpipeline, rfl⟩ := Option.map_eq_some_iff.mp hstep
    refine h.set ((h.peers id).encode (fun x hx => ?_) hpipeline) fun _ ho => ho
    rw [Option.isNone_iff_eq_none.mp hquiet] at hx
    cases hx
  | play id e =>
    obtain ⟨hplays, hstep⟩ := Option.ite_none_right_eq_some.mp hstep
    obtain ⟨browser, hbrowser, rfl⟩ := Option.map_eq_some_iff.mp hstep
    exact h.set ((h.peers id).play hplays hbrowser) fun _ ho => ho
  | tick roster =>
    simp only [Conference.step] at hstep
    split at hstep
    · obtain rfl := Option.some.inj hstep
      exact h
    · obtain rfl := Option.some.inj hstep
      exact ⟨h.peers, h.log, ha, fun _ _ hm => by cases hm⟩
    · cases hstep
  | read =>
    simp only [Conference.step] at hstep
    split at hstep
    next id todo members hphase =>
      obtain ⟨⟨p, frame, ready⟩, hread, rfl⟩ := Option.map_eq_some_iff.mp hstep
      exact h.read hrun hphase hread
    next => cases hstep
  | ask now =>
    simp only [Conference.step] at hstep
    split at hstep
    next asked m todo hphase =>
      refine h.ask hphase (fun hrec => ?_) hstep
      -- the deadline of a session that never recorded is in the past
      rcases (h.peers m.id).ingress.recorded with hzero | hrecorded
      · have hlt := of_decide_eq_true hrec
        rw [hzero] at hlt
        exact absurd hlt (not_lt.mpr (Int.natCast_nonneg now))
      · exact hrecorded
    next => cases hstep
  | submit pooled =>
    simp only [Conference.step] at hstep
    split at hstep
    next x todo hphase =>
      obtain ⟨pipeline, hpipeline, rfl⟩ := Option.map_eq_some_iff.mp hstep
      exact h.submit hphase hpipeline
    next => cases hstep
  | returned =>
    simp only [Conference.step] at hstep
    split at hstep
    next id todo hphase =>
      have hinside := h.phase
      rw [hphase] at hinside
      split at hstep
      · obtain rfl := Option.some.inj hstep
        refine ⟨h.peers, h.log, ?_⟩
        show Phase.Ok cfg _ s.peers s.log (if todo = [] then _ else _)
        split
        · trivial
        · exact hinside
      · cases hstep
    next => cases hstep

/-! ### Runs -/

theorem ok_start (hjb : cfg.jb.Sound) : (start cfg : State D α F K).Ok cfg [] where
  peers _ :=
    { sender := Client.Sender.made_start
      ingress := Ingress.sound_start hjb
      pipeline := ⟨[], .nil _, fun _ hx => by cases hx⟩
      browser := ⟨[], .nil _, fun _ hx => by cases hx⟩ }
  log _ _ hn := by cases hn
  phase := trivial

/-- What the invariant comes to for a client. -/
theorem State.Ok.delivered (hK : 0 < K) (h : s.Ok cfg as) (id : String) :
    Delivered cfg as s id := by
  obtain ⟨bs, hpipeline, hmixes⟩ := (h.peers id).pipeline
  obtain ⟨es, hbrowser, harrivals⟩ := (h.peers id).browser
  obtain ⟨hsound, hfaithful⟩ := Downlink.sound_of_runs hK hpipeline hbrowser harrivals
  refine ⟨hsound.submitted_increasing, fun c chunk hchunk => ?_, h.log, fun f hf => ?_⟩
  · obtain ⟨u, x, hx, hts, hencoded⟩ := hfaithful.payload c chunk hchunk
    exact ⟨x, hmixes x (List.mem_of_getElem? hx), hts, u, hencoded⟩
  · obtain ⟨x, hx, hrec, hts⟩ := hfaithful.recorded f hf
    obtain ⟨mixed, hin, k, hk, -, hmixTs, hflag, -⟩ := hmixes x hx
    rw [hflag, List.any_eq_true] at hrec
    obtain ⟨m, hm, hrecording⟩ := hrec
    obtain ⟨n, hn⟩ := List.mem_iff_getElem?.mp hin
    obtain ⟨j, hj⟩ := List.mem_iff_getElem?.mp hm
    exact ⟨mixed, hin, by rw [hts, hmixTs], m, hm, (h.log n mixed hn j m hj).recording hrecording⟩

end AmbiRTC.Conference
